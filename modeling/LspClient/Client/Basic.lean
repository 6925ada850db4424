import LspClient.Handshake.Parameters
import LspClient.Session.Peer

/-!
# Clients

A client owns its settings and every session. All progress is made by
`process`, which gives each session one read; nothing happens in between.

Every server that was ever started has a link, in the order of starting, and a
link has a session as long as that session is registered. A session ends in
one of three ways: the server grants the end that was asked for, the end
cannot be asked for because the write fails, or the client itself ends. In all
three the server is closed as its session goes.
-/

namespace LspClient

open Json (Value Members)

/-- A server, with its session while that is registered. -/
structure Link where
  server : Server
  session : Option Session

/-- Why an operation was refused. -/
inductive ClientError where
  | transport (e : TransportError)
  | unknownSession (id : SessionId)
  | notConnected (id : SessionId)
  | shutdownPending (id : SessionId)
  deriving DecidableEq, Repr

namespace ClientError

/-- The refusal in words. -/
def message : ClientError → String
  | .transport e => e.message
  | .unknownSession id => s!"unknown session {id}"
  | .notConnected id => s!"session {id} is not connected"
  | .shutdownPending id => s!"session {id} is shutting down"

end ClientError

/-- How servers are started. -/
structure Launcher where
  /-- the commands that do not exist -/
  missing : List String := []
  /-- why writes to a new server fail, if they do -/
  writeFailure : Option SystemError := none

/-- A client. -/
structure Client where
  settings : Settings := {}
  /-- the operating system's number for this process -/
  processId : Nat := 0
  launcher : Launcher := {}
  /-- every server that was started, in the order of starting -/
  links : List Link := []
  /-- the number of the latest session that was attempted -/
  lastSession : SessionId := 0
  /-- the messages that passed while records were kept, oldest first -/
  records : List Record := []

/-- The process number of the first server in memory. Later ones count up. -/
def firstProcessId : Nat := 4000

namespace Launcher

/-- Starts a server as the `index`-th one. -/
def start (l : Launcher) (index : Nat) (command : String) (args : List String) :
    Except TransportError Server :=
  if l.missing.contains command then .error (.notFound command)
  else
    .ok { command, args, processId := firstProcessId + index, writeFailure := l.writeFailure }

end Launcher

namespace Link

/-- Whether this link has the session with a number. -/
def owns (id : SessionId) (l : Link) : Bool :=
  match l.session with
  | some s => s.id == id
  | none => false

/-- Ends the session and its server. -/
def retire (l : Link) : Link :=
  match l.session with
  | some _ => ⟨l.server.close, none⟩
  | none => l

end Link

namespace Client

/-! ## Looking -/

/-- The registered sessions, in the order of their numbers. -/
def sessions (c : Client) : List Session :=
  c.links.filterMap Link.session

/-- The session with a number. -/
def session? (c : Client) (id : SessionId) : Option Session :=
  c.sessions.find? fun s => s.id == id

/-- The handshake's state. A number that names no session is not
connected. -/
def status (c : Client) (id : SessionId) : Status :=
  match c.session? id with
  | some s => s.status
  | none => .notConnected

/-- Whether the server's output is still open. -/
def isAlive (c : Client) (id : SessionId) : Bool :=
  match c.session? id with
  | some s => s.isAlive
  | none => false

/-- What the server announced. -/
def serverInfo? (c : Client) (id : SessionId) : Option ServerInfo :=
  (c.session? id).bind Session.info

/-- The requests that wait, in the order of their identifiers. -/
def pendingRequests (c : Client) (id : SessionId) : List PendingRequest :=
  match c.session? id with
  | some s => s.pending
  | none => []

/-- The session with a number and its server. -/
def peer? (c : Client) (id : SessionId) : Option Peer :=
  (c.links.find? (Link.owns id)).bind fun l =>
    l.session.map fun s => { session := s, server := l.server }

/-- The session that a caller may send on: registered, not ending, and
connected, asked in this order. -/
def connectedPeer (c : Client) (id : SessionId) : Except ClientError Peer :=
  match c.peer? id with
  | none => .error (.unknownSession id)
  | some p =>
    if p.session.closing then .error (.shutdownPending id)
    else if p.session.status ≠ .connected then .error (.notConnected id)
    else .ok p

/-! ## Changing -/

/-- The links after something happened to the session with a number. -/
def putLink (c : Client) (id : SessionId) (l : Link) : Client :=
  { c with links := c.links.map fun old => if old.owns id then l else old }

/-- The client after something happened to a session. -/
def putPeer (c : Client) (id : SessionId) (p : Peer) : Client :=
  { c.putLink id ⟨p.server, some p.session⟩ with records := c.records ++ p.records }

/-- The client after a session has gone. -/
def dropPeer (c : Client) (id : SessionId) (p : Peer) : Client :=
  { c.putLink id ⟨p.server.close, none⟩ with records := c.records ++ p.records }

/-- Starts a server and opens a session with it. If the server cannot be
started nothing has happened; if it cannot be written to, it is closed again
and the session's number is spent. -/
def connect (c : Client) (command : String) (connection : Connection) :
    Except ClientError SessionId × Client :=
  match c.launcher.start c.links.length command connection.args with
  | .error e => (.error (.transport e), c)
  | .ok server =>
    let id := c.lastSession + 1
    let p : Peer := { session := { id, command }, server }
    let params := handshakeParameters c.processId c.settings connection
    match p.openSession c.settings.debug params with
    | (.ok (), p) =>
      (.ok id, { c with lastSession := id, links := c.links ++ [⟨p.server, some p.session⟩],
                        records := c.records ++ p.records })
    | (.error e, p) =>
      (.error (.transport e),
        { c with lastSession := id, links := c.links ++ [⟨p.server.close, none⟩],
                 records := c.records ++ p.records })

/-- Asks the server of a session to shut down. Asking twice is asking once. -/
def close (c : Client) (id : SessionId) : Except ClientError Unit × Client :=
  match c.peer? id with
  | none => (.error (.unknownSession id), c)
  | some p =>
    if p.session.closing then (.ok (), c)
    else
      match p.endSession c.settings.debug with
      | (.ok (), p) => (.ok (), c.putPeer id p)
      | (.error e, p) => (.error (.transport e), c.dropPeer id p)

/-- Sends a request on a connected session. -/
def request (c : Client) (id : SessionId) (method : String) (params : Value) :
    Except ClientError RequestId × Client :=
  match c.connectedPeer id with
  | .error e => (.error e, c)
  | .ok p =>
    match p.request c.settings.debug method params with
    | (.ok number, p) => (.ok number, c.putPeer id p)
    | (.error e, p) => (.error (.transport e), c.putPeer id p)

/-- Sends a notification on a connected session. -/
def notify (c : Client) (id : SessionId) (method : String) (params : Value) :
    Except ClientError Unit × Client :=
  match c.connectedPeer id with
  | .error e => (.error e, c)
  | .ok p =>
    match p.notify c.settings.debug method params with
    | (.ok (), p) => (.ok (), c.putPeer id p)
    | (.error e, p) => (.error (.transport e), c.putPeer id p)

/-- What one read of a link came to. -/
structure LinkPumped where
  link : Link
  records : List Record
  progressed : Bool

/-- One read of a link. -/
def pumpLink (keep : Bool) (l : Link) : LinkPumped :=
  match l.session with
  | none => ⟨l, [], false⟩
  | some s =>
    let pumped := Peer.pump keep { session := s, server := l.server }
    let p := pumped.peer
    { link := ⟨p.server, if pumped.finished then none else some p.session⟩
      records := p.records
      progressed := pumped.progressed }

/-- Gives every session one read. Says whether any of them got anywhere. -/
def process (c : Client) : Bool × Client :=
  let pumped := c.links.map (pumpLink c.settings.debug)
  (pumped.any LinkPumped.progressed,
    { c with links := pumped.map LinkPumped.link,
             records := c.records ++ (pumped.map LinkPumped.records).flatten })

/-- Takes the completions of a session. -/
def takeCompletions (c : Client) (id : SessionId) : List Completion × Client :=
  match c.peer? id with
  | none => ([], c)
  | some p =>
    (p.session.completions,
      c.putPeer id { p with session := { p.session with completions := [] } })

/-- Takes the notices of a session. -/
def takeNotices (c : Client) (id : SessionId) : List Notice × Client :=
  match c.peer? id with
  | none => ([], c)
  | some p =>
    (p.session.notices, c.putPeer id { p with session := { p.session with notices := [] } })

/-- Ends every session and closes its server. -/
def shutdown (c : Client) : Client :=
  { c with links := c.links.map Link.retire }

/-- Something happens at a server's side of its pipes. -/
def atServer (c : Client) (index : Nat) (event : Server → Server) : Client :=
  { c with links := c.links.modify index fun l => { l with server := event l.server } }

/-- The server with an index. -/
def server? (c : Client) (index : Nat) : Option Server :=
  c.links[index]?.map Link.server

end Client

end LspClient
