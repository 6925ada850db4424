import LspClient.Json.Value

/-!
# What a server announces

The result of the handshake: perhaps a name and a version, and an object of
capabilities. What is not an object announces nothing.
-/

namespace LspClient

open Json (Value Members)

/-- The announcement of a server. -/
structure ServerInfo where
  name : Option String
  version : Option String
  capabilities : Members Value

namespace ServerInfo

/-- Reads the result of the handshake. What is missing or of the wrong kind is
left out. -/
def ofResult (result : Value) : ServerInfo where
  name := ((result.member "serverInfo").member "name").string?
  version := ((result.member "serverInfo").member "version").string?
  capabilities := (result.member "capabilities").members?.getD []

/-- The value that a capability was announced with, or `null`. -/
def capability (info : ServerInfo) (name : String) : Value :=
  (info.capabilities.get? name).getD .null

/-- Whether a capability was announced with something other than `null` or
`false`. An object of options counts, whatever the options are. -/
def supports (info : ServerInfo) (name : String) : Bool :=
  match info.capability name with
  | .null => false
  | .bool false => false
  | _ => true

/-- The names of all capabilities in the order of the announcement. -/
def names (info : ServerInfo) : List String :=
  info.capabilities.keys

end ServerInfo

end LspClient
