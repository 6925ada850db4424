import LspClient.Child.Job
import LspClient.Client.Wait

/-!
# A job behind a server

The client knows its server as two queues in memory. Here a job stands behind
them: what the client has written is passed on, what the job says is queued,
and once the job reads no more, writes begin to fail. Between two rounds the
job is where a read of its output leaves it, so an idle round takes as long as
a read waits.

This is one kind of surroundings among others. Statements about waits and conversations are
made for all of them.
-/

namespace LspClient

open Child (Job)

/-- A job as the surroundings of a client with one server. -/
structure Attachment where
  job : Job
  /-- how many of the client's writes the job has been given -/
  passed : Nat := 0
  /-- how long a read waits, in milliseconds -/
  readTimeout : Nat

namespace Attachment

/-- What the server does when its job is read. -/
def eventsOfRead : Except TransportError (Option (List UInt8)) → List ServerEvent
  | .ok (some chunk) => [.emit chunk]
  | .ok none => []
  | .error _ => [.endOutput]

/-- The job after it was given the writes it does not have yet. -/
def passOn (a : Attachment) (writes : List (List UInt8)) : Job :=
  (writes.drop a.passed).foldl (fun job octets => (job.write octets).2) a.job

/-- The index of the only server. -/
def serverIndex : Nat := 0

/-- A round: pass on, then read. -/
def next (a : Attachment) (c : Client) : Round Attachment :=
  match c.server? serverIndex with
  | none => ⟨[], 0, a⟩
  | some server =>
    let given := a.passOn server.writes
    let (result, job) := given.read a.readTimeout
    let broken :=
      if job.sight.inputClosed then [ServerEvent.failWrites (some Job.brokenPipe)] else []
    { events := (eventsOfRead result ++ broken).map fun event => (serverIndex, event)
      pause := job.clock - given.clock
      surroundings :=
        { a with job := { job with clock := job.clock + 1 }
                 passed := server.writes.length } }

end Attachment

end LspClient
