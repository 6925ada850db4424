import LspClient.Client.Basic

/-!
# Runs of a client

Everything that can happen to a client and its servers, as data: what a caller
asks for, what a server does at its side of the pipes, and how later servers
will start. A run is a list of these, and what a client is after a run is a
fold. Statements about a client in any state it can reach are statements about
runs from a fresh client.
-/

namespace LspClient

open Json (Value Members)

/-- What a server does at its side of the pipes. -/
inductive ServerEvent where
  /-- a chunk of output -/
  | emit (chunk : List UInt8)
  /-- the end of the output -/
  | endOutput
  /-- writes to it start or cease to fail -/
  | failWrites (failure : Option SystemError)
  /-- an answer to the latest request for a method -/
  | answer (method : String) (result : Value)

namespace ServerEvent

/-- The server after an event. -/
def apply (s : Server) : ServerEvent → Server
  | .emit chunk => s.emit chunk
  | .endOutput => s.endOutput
  | .failWrites failure => { s with writeFailure := failure }
  | .answer method result => (s.answer method result).2

end ServerEvent

/-- A change of the settings. -/
inductive Adjustment where
  | clientName (name : String)
  | clientVersion (version : String)
  | locale (tag : String)
  | debug (on : Bool)
  | setCapability (category : Category) (key : String) (v : Value)
  | removeCapability (category : Category) (key : String)

namespace Adjustment

/-- The settings after a change. -/
def apply (s : Settings) : Adjustment → Settings
  | .clientName name => { s with clientName := name }
  | .clientVersion version => { s with clientVersion := version }
  | .locale tag => { s with locale := tag }
  | .debug on => { s with debug := on }
  | .setCapability category key v =>
    { s with capabilities := s.capabilities.set category key v }
  | .removeCapability category key =>
    { s with capabilities := s.capabilities.remove category key }

end Adjustment

/-- Something that happens to a client or around it. -/
inductive Operation where
  | connect (command : String) (connection : Connection)
  | close (id : SessionId)
  | request (id : SessionId) (method : String) (params : Value)
  | notify (id : SessionId) (method : String) (params : Value)
  | process
  | takeCompletions (id : SessionId)
  | takeNotices (id : SessionId)
  | adjust (change : Adjustment)
  | shutdown
  /-- something happens at a server -/
  | server (index : Nat) (event : ServerEvent)
  /-- a command ceases to exist -/
  | lose (command : String)
  /-- later servers will, or will not, fail to be written to -/
  | failNewServers (failure : Option SystemError)

/-- What an operation answers. -/
inductive Reply where
  | done
  | refused (e : ClientError)
  | opened (id : SessionId)
  | sent (id : RequestId)
  | progressed (any : Bool)
  | completions (entries : List Completion)
  | notices (entries : List Notice)

namespace Reply

/-- The answer of an operation that succeeds in one way. -/
def ofUnit : Except ClientError Unit → Reply
  | .ok () => .done
  | .error e => .refused e

end Reply

namespace Client

/-- One operation. -/
def step (c : Client) : Operation → Reply × Client
  | .connect command connection =>
    match c.connect command connection with
    | (.ok id, c) => (.opened id, c)
    | (.error e, c) => (.refused e, c)
  | .close id => let (r, c) := c.close id; (.ofUnit r, c)
  | .request id method params =>
    match c.request id method params with
    | (.ok number, c) => (.sent number, c)
    | (.error e, c) => (.refused e, c)
  | .notify id method params => let (r, c) := c.notify id method params; (.ofUnit r, c)
  | .process => let (any, c) := c.process; (.progressed any, c)
  | .takeCompletions id => let (entries, c) := c.takeCompletions id; (.completions entries, c)
  | .takeNotices id => let (entries, c) := c.takeNotices id; (.notices entries, c)
  | .adjust change => (.done, { c with settings := change.apply c.settings })
  | .shutdown => (.done, c.shutdown)
  | .server index event => (.done, c.atServer index fun s => event.apply s)
  | .lose command =>
    (.done, { c with launcher := { c.launcher with missing := command :: c.launcher.missing } })
  | .failNewServers failure =>
    (.done, { c with launcher := { c.launcher with writeFailure := failure } })

/-- The client after a run. -/
def run (c : Client) (operations : List Operation) : Client :=
  operations.foldl (fun c operation => (c.step operation).2) c

/-- Calls `process` until it gets nowhere, at most `limit` times, and counts
the calls that got somewhere. -/
def processIdle (c : Client) : (limit : Nat) → Nat × Client
  | 0 => (0, c)
  | limit + 1 =>
    match c.process with
    | (false, c) => (0, c)
    | (true, c) =>
      let (count, c) := c.processIdle limit
      (count + 1, c)

end Client

end LspClient
