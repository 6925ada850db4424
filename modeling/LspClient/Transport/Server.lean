import LspClient.Message.Envelope
import LspClient.Message.Incoming
import LspClient.Json.Decode
import LspClient.Transport.Error
import LspClient.Wire.FrameBuffer

/-!
# Servers in memory

A server as the client's side of the pipes sees it: the chunks of output that
wait to be read, and the writes that have succeeded. Both are kept whole, so a
run of the client can be judged by what reached the server. Reads take one
chunk, writes succeed or fail as a whole, and closing ends both.

The second half of this file is what a server can say: the chunks that
scripts queue, among them answers to what the client wrote.
-/

namespace LspClient

open Json (Value Members)

/-- One server. -/
structure Server where
  command : String
  args : List String
  processId : Nat
  /-- the output that waits, one chunk for each read -/
  output : List (List UInt8) := []
  /-- the writes that have succeeded, in order -/
  writes : List (List UInt8) := []
  /-- whether the output ends behind the waiting chunks -/
  outputEnded : Bool := false
  /-- why writes fail, if they do -/
  writeFailure : Option SystemError := none
  closed : Bool := false

namespace Server

/-! ## The client's side -/

/-- Reads the next chunk: nothing if none waits, a failure if none will
come. -/
def read (s : Server) : Except TransportError (Option (List UInt8)) × Server :=
  if s.closed then (.error .closed, s)
  else
    match s.output with
    | chunk :: rest => (.ok (some chunk), { s with output := rest })
    | [] => if s.outputEnded then (.error .closed, s) else (.ok none, s)

/-- Writes octets, all of them or none. -/
def write (s : Server) (bytes : List UInt8) : Except TransportError Unit × Server :=
  if s.closed then (.error .closed, s)
  else
    match s.writeFailure with
    | some failure => (.error (.io failure.message), s)
    | none => (.ok (), { s with writes := s.writes ++ [bytes] })

/-- Ends the server. -/
def close (s : Server) : Server :=
  { s with closed := true }

/-- The process, while it runs. -/
def runningProcess? (s : Server) : Option Nat :=
  if s.closed then none else some s.processId

/-- Everything that was written. -/
def written (s : Server) : List UInt8 :=
  s.writes.flatten

/-! ## The server's side -/

/-- Queues a chunk of output. -/
def emit (s : Server) (chunk : List UInt8) : Server :=
  { s with output := s.output ++ [chunk] }

/-- Queues a framed body. -/
def emitBody (s : Server) (body : String) : Server :=
  s.emit (Wire.frameText body)

/-- Queues a message. -/
def emitMessage (s : Server) (message : Value) : Server :=
  s.emitBody (Json.encode message)

/-- Ends the output behind what is queued. -/
def endOutput (s : Server) : Server :=
  { s with outputEnded := true }

/-- The bodies among results of a frame buffer. Errors, and bodies that are no text, are
passed over. A scripted server gives up there, so this is its view only of octets that hold
neither. -/
def bodies (results : List Wire.FrameResult) : List String :=
  results.filterMap fun
    | .ok body => Utf8.text? body
    | .error _ => none

/-- The bodies that octets hold when they are read from a boundary on. -/
def bodiesOf (bytes : List UInt8) : List String :=
  bodies (Wire.FrameBuffer.drain (Wire.FrameBuffer.empty.extend bytes)).1

/-- The messages that the client wrote, with `null` for a body that cannot be decoded. A
scripted server gives up at such a body. -/
def messages (s : Server) : List Value :=
  (bodiesOf s.written).map Json.decodeSoft

/-- Whether a message is a request for a method. -/
def isRequestFor (method : String) (message : Value) : Bool :=
  (message.member "method").string? == some method && !(message.member "id").isNull

/-- The identifier of the latest request for a method. -/
def lastRequest? (s : Server) (method : String) : Option Int64 :=
  (s.messages.reverse.find? (isRequestFor method)).bind fun m => (m.member "id").integer?

/-- Answers the latest request for a method, and says which one that was. -/
def answer (s : Server) (method : String) (result : Value) : Option Int64 × Server :=
  match s.lastRequest? method with
  | some id => (some id, s.emitMessage (Envelope.response (.integer id) result))
  | none => (none, s)

/-- The result of a handshake that a server accepts. -/
def acceptance (name version : String) (capabilities : Value) : Value :=
  .object [("capabilities", capabilities),
    ("serverInfo", .object [("name", .string name), ("version", .string version)])]

end Server

end LspClient
