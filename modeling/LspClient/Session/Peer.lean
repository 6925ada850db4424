import LspClient.Session.Basic
import LspClient.Transport.Server

/-!
# A session at work

A session and the server that it belongs to, and the records of the messages
that passed between them. Everything that happens to a session happens here,
and none of it looks at any other session.

Sending comes in one form: the envelope is encoded, recorded if records are
kept, and written. Records are made before the write, whether or not it
succeeds. A request is numbered before it is sent, so a failed write costs a
number and nothing else.

Receiving is a fold over the bodies that have arrived. A body that is no text,
no document or no message is passed over, and so is an answer to no request
that waits. The answer to the request that the session end stops the fold:
what is left of the output belongs to nobody.
-/

namespace LspClient

open Json (Value)

/-- Which way a message went. -/
inductive Direction where
  | outgoing
  | incoming
  deriving DecidableEq, Repr

/-- The direction as an arrow. -/
def Direction.arrow : Direction → String
  | .outgoing => "-->"
  | .incoming => "<--"

/-- A message that passed. -/
structure Record where
  session : SessionId
  direction : Direction
  text : String
  deriving DecidableEq, Repr

/-- A session with its server. -/
structure Peer where
  session : Session
  server : Server
  /-- the messages that passed, oldest first -/
  records : List Record := []

namespace Peer

/-- Records a message, if records are kept. -/
def record (keep : Bool) (p : Peer) (direction : Direction) (text : String) : Peer :=
  if keep then { p with records := p.records ++ [⟨p.session.id, direction, text⟩] } else p

/-! ## Sending -/

/-- Sends an envelope. -/
def send (keep : Bool) (p : Peer) (envelope : Value) : Except TransportError Unit × Peer :=
  let p := p.record keep .outgoing (Json.encode envelope)
  let (result, server) := p.server.write (Envelope.wire envelope)
  (result, { p with server := server })

/-- Sends a request and waits for its answer from now on. -/
def request (keep : Bool) (p : Peer) (method : String) (params : Value) :
    Except TransportError RequestId × Peer :=
  let id := p.session.nextRequest
  let envelope := Envelope.request id method params
  let numbered := { p with session := { p.session with nextRequest := id.next } }
  match numbered.send keep envelope with
  | (.error e, p) => (.error e, p)
  | (.ok (), p) =>
    let entry : PendingRequest := ⟨id, method, Json.encode envelope⟩
    (.ok id, { p with session := p.session.await entry })

/-- Sends a notification. -/
def notify (keep : Bool) (p : Peer) (method : String) (params : Value) :
    Except TransportError Unit × Peer :=
  p.send keep (Envelope.notification method params)

/-- Opens the session: the handshake is under way once its request is
written. -/
def openSession (keep : Bool) (p : Peer) (params : Value) : Except TransportError Unit × Peer :=
  match p.request keep Lifecycle.opening.method params with
  | (.error e, p) => (.error e, p)
  | (.ok _, p) => (.ok (), { p with session := { p.session with status := .connecting } })

/-- Asks that the session end. -/
def endSession (keep : Bool) (p : Peer) : Except TransportError Unit × Peer :=
  match p.request keep Lifecycle.ending.method .null with
  | (.error e, p) => (.error e, p)
  | (.ok _, p) => (.ok (), { p with session := { p.session with closing := true } })

/-! ## Receiving -/

/-- The handshake is answered. Success completes it, and unless the session is
about to end the server is told so. -/
def finishHandshake (keep : Bool) (p : Peer) (r : Response) : Peer :=
  match r.outcome with
  | .error _ => p
  | .ok result =>
    if p.session.status ≠ .connecting then p
    else
      let info := ServerInfo.ofResult result
      if p.session.closing then { p with session := { p.session with info := some info } }
      else
        let connected :=
          { p with session := { p.session with info := some info, status := .connected } }
        (connected.notify keep Lifecycle.ready.method (.object [])).2

/-- The end of the session is granted: the server may leave. -/
def finishSession (keep : Bool) (p : Peer) : Peer :=
  let p := (p.notify keep Lifecycle.leaving.method .null).2
  { p with server := p.server.close }

/-- Keeps a completion for the caller. -/
def complete (p : Peer) (entry : PendingRequest) (r : Response) : Peer :=
  { p with session :=
    { p.session with
      completions := pushBounded p.session.completions ⟨entry.id, entry.method, r.outcome⟩ } }

/-- The waiting request that a response answers. -/
def answered? (p : Peer) (r : Response) : Option PendingRequest :=
  r.requestId?.bind p.session.pending?

/-- A response. Says whether it ends the session. -/
def receiveResponse (keep : Bool) (p : Peer) (r : Response) : Peer × Bool :=
  match p.answered? r with
  | none => (p, false)
  | some entry =>
    let p := { p with session := p.session.retire entry.id }
    if entry.method = Lifecycle.opening.method then (p.finishHandshake keep r, false)
    else if entry.method = Lifecycle.ending.method then (p.finishSession keep, true)
    else (p.complete entry r, false)

/-- A message. Requests of the server are answered with `null`. Says whether
the message ends the session. -/
def receiveMessage (keep : Bool) (p : Peer) : Incoming → Peer × Bool
  | .response r => p.receiveResponse keep r
  | .request id _ _ => ((p.send keep (Envelope.response id .null)).2, false)
  | .notification method params =>
    ({ p with session :=
      { p.session with notices := pushBounded p.session.notices ⟨method, params⟩ } }, false)

/-- The message that a text is. -/
def messageOf? (text : String) : Option Incoming :=
  match Json.decode text with
  | .ok v => Incoming.classify? v
  | .error _ => none

/-- A body. Says whether it ends the session. -/
def receiveBody (keep : Bool) (p : Peer) (body : List UInt8) : Peer × Bool :=
  match Utf8.text? body with
  | none => (p, false)
  | some text =>
    let p := p.record keep .incoming text
    match messageOf? text with
    | none => (p, false)
    | some message => p.receiveMessage keep message

/-- What the frame buffer has handed out. Says whether the session has
ended. -/
def receiveAll (keep : Bool) (p : Peer) : List Wire.FrameResult → Peer × Bool
  | [] => (p, false)
  | .error _ :: rest => p.receiveAll keep rest
  | .ok body :: rest =>
    match p.receiveBody keep body with
    | (p, true) => (p, true)
    | (p, false) => p.receiveAll keep rest

/-- What one read of a session came to. -/
structure Pumped where
  peer : Peer
  /-- whether octets were read or a frame was handed out -/
  progressed : Bool
  /-- whether the session has ended -/
  finished : Bool

/-- One read. A failed read ends the output. -/
def readChunk (p : Peer) : Peer × Bool :=
  let (result, server) := p.server.read
  match result with
  | .ok (some chunk) =>
    ({ p with server := server,
              session := { p.session with frames := p.session.frames.extend chunk } }, true)
  | .ok none => ({ p with server := server }, false)
  | .error _ =>
    ({ p with server := server, session := { p.session with outputEnded := true } }, false)

/-- One read, and every frame that it completes. -/
def pump (keep : Bool) (p : Peer) : Pumped :=
  if p.session.outputEnded then ⟨p, false, false⟩
  else
    let (p, gotChunk) := p.readChunk
    let (results, frames) := p.session.frames.drain
    let (p, finished) :=
      { p with session := { p.session with frames := frames } }.receiveAll keep results
    ⟨p, gotChunk || !results.isEmpty, finished⟩

end Peer

end LspClient
