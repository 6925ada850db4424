import LspClient.Handshake.ServerInfo
import LspClient.Message.Incoming
import LspClient.Wire.FrameBuffer

/-!
# Sessions

What the client knows of one server: how far the handshake has come, which
requests wait for an answer, what has arrived and was not yet taken, and the
octets of the frame that is still incomplete.
-/

namespace LspClient

open Json (Value)

/-- The methods that the engine itself uses. -/
inductive Lifecycle where
  /-- the request that opens a session -/
  | opening
  /-- the notification that the client is ready -/
  | ready
  /-- the request that a session end -/
  | ending
  /-- the notification after which the server leaves -/
  | leaving
  deriving DecidableEq, Repr

/-- The method of each. -/
def Lifecycle.method : Lifecycle → String
  | .opening => "initialize"
  | .ready => "initialized"
  | .ending => "shutdown"
  | .leaving => "exit"

/-- How far a session has come. -/
inductive Status where
  /-- there is no session, or no more -/
  | notConnected
  /-- the handshake is not answered yet -/
  | connecting
  /-- the handshake is complete -/
  | connected
  deriving DecidableEq, Repr

namespace Status

/-- The status in words. -/
def text : Status → String
  | .notConnected => "not connected"
  | .connecting => "connecting"
  | .connected => "connected"

/-- The status as one word. -/
def word : Status → String
  | .notConnected => "NotConnected"
  | .connecting => "Connecting"
  | .connected => "Connected"

end Status

/-- The number of a session. The first is 1, and 0 names none. Numbers do not run out:
that a counter of 64 bits starts over after so many servers is left out. -/
abbrev SessionId := Nat

/-- A request that waits for its answer. -/
structure PendingRequest where
  id : RequestId
  method : String
  /-- the body that was sent -/
  payload : String
  deriving DecidableEq

namespace PendingRequest

/-- Puts a request in its place among those that wait. One that waits under
the same identifier gives way. -/
def enlist (entry : PendingRequest) : List PendingRequest → List PendingRequest
  | [] => [entry]
  | p :: rest =>
    if p.id = entry.id then entry :: rest
    else if p.id.number < entry.id.number then p :: enlist entry rest
    else entry :: p :: rest

theorem find?_enlist (entry : PendingRequest) (waiting : List PendingRequest)
    (id : RequestId) :
    (entry.enlist waiting).find? (fun p => p.id == id) =
      if entry.id = id then some entry else waiting.find? fun p => p.id == id := by
  induction waiting with
  | nil => by_cases h : entry.id = id <;> simp [enlist, h]
  | cons p rest ih =>
      rw [enlist]
      split
      · next hsame => by_cases h : entry.id = id <;> simp [h, hsame]
      · next hother =>
          split
          · rw [List.find?_cons, List.find?_cons, ih]
            by_cases h : entry.id = id
            · have hp : (p.id == id) = false := by simpa [← h] using hother
              simp only [hp, if_pos h]
            · rw [if_neg h, if_neg h]
          · by_cases h : entry.id = id <;> simp [h]

end PendingRequest

/-- A request of the caller's with its answer. -/
structure Completion where
  id : RequestId
  method : String
  result : Except ResponseError Value

/-- A notification from the server. -/
structure Notice where
  method : String
  params : Value

/-! ## Bounded queues -/

/-- How many completions, and how many notices, a session keeps. -/
def maxQueued : Nat := 1024

/-- Appends to a queue. A full queue loses its oldest entry. -/
def pushBounded {α : Type} (queue : List α) (entry : α) : List α :=
  (if maxQueued ≤ queue.length then queue.drop 1 else queue) ++ [entry]

/-! ## Sessions -/

/-- A session. -/
structure Session where
  id : SessionId
  command : String
  status : Status := .notConnected
  /-- the requests that wait, in the order of their identifiers -/
  pending : List PendingRequest := []
  nextRequest : RequestId := .first
  frames : Wire.FrameBuffer := .empty
  info : Option ServerInfo := none
  completions : List Completion := []
  notices : List Notice := []
  /-- whether the server's output has ended -/
  outputEnded : Bool := false
  /-- whether the server has been asked to shut down -/
  closing : Bool := false

namespace Session

/-- Whether the server's output is still open. -/
def isAlive (s : Session) : Bool :=
  !s.outputEnded

/-- The request with an identifier, if it waits. -/
def pending? (s : Session) (id : RequestId) : Option PendingRequest :=
  s.pending.find? fun p => p.id == id

/-- The session with one more request that waits. -/
def await (s : Session) (entry : PendingRequest) : Session :=
  { s with pending := entry.enlist s.pending }

/-- The session without the request of an identifier. -/
def retire (s : Session) (id : RequestId) : Session :=
  { s with pending := s.pending.filter fun p => p.id != id }

theorem pending?_await (s : Session) (entry : PendingRequest) (id : RequestId) :
    (s.await entry).pending? id = if entry.id = id then some entry else s.pending? id :=
  PendingRequest.find?_enlist entry s.pending id

theorem pending?_retire (s : Session) (gone id : RequestId) :
    (s.retire gone).pending? id = if gone = id then none else s.pending? id := by
  simp only [retire, pending?, List.find?_filter]
  split
  · next h => subst h; simp
  · next h =>
      congr 1
      funext p
      by_cases hp : p.id = id
      · simp [hp, Ne.symm h]
      · simp [hp]

/-- A request that waits under an identifier has that identifier. -/
theorem id_of_pending? {s : Session} {id : RequestId} {entry : PendingRequest}
    (h : s.pending? id = some entry) : entry.id = id := by
  simpa using List.find?_some h

end Session

end LspClient
