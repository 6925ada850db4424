/-!
# Failures of a transport

What can go wrong between the client and a server, from starting the server to
reading the last octet of its output.
-/

namespace LspClient

/-- A failure of a transport. -/
inductive TransportError where
  /-- there is no such command -/
  | notFound (command : String)
  /-- the command exists and cannot be started -/
  | spawnFailed (command reason : String)
  /-- the server was started without one of its pipes -/
  | missingPipe (name : String)
  /-- reading or writing failed -/
  | io (reason : String)
  /-- the server's output has ended, or the transport is closed -/
  | closed
  deriving DecidableEq, Repr

namespace TransportError

/-- The failure in words. -/
def message : TransportError → String
  | .notFound command => command ++ " not found"
  | .spawnFailed command reason => s!"failed to spawn server '{command}': {reason}"
  | .missingPipe name => "server process has no piped " ++ name
  | .io reason => "server communication error: " ++ reason
  | .closed => "transport closed"

end TransportError

/-- Why the operating system refused something. -/
inductive SystemError where
  | notFound
  | permissionDenied
  | invalidInput
  | brokenPipe
  /-- a command or an argument holds the octet 0 -/
  | nulOctet
  /-- a refusal in the system's own words, with its number -/
  | numbered (words : String) (number : Nat)
  deriving DecidableEq, Repr

namespace SystemError

/-- The refusal in words. -/
def message : SystemError → String
  | .notFound => "entity not found"
  | .permissionDenied => "permission denied"
  | .invalidInput => "invalid input parameter"
  | .brokenPipe => "broken pipe"
  | .nulOctet => "nul byte found in provided data"
  | .numbered words number => s!"{words} (os error {number})"

end SystemError

/-- The failure to start a command: what is not there is not found, and every
other refusal is passed on in its own words. -/
def TransportError.ofSpawn (command : String) (refusal : SystemError) : TransportError :=
  match refusal with
  | .notFound => .notFound command
  | _ => .spawnFailed command refusal.message

end LspClient
