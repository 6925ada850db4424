import LspClient.Files.Path
import LspClient.Settings.Basic

/-!
# Parameters of the handshake

What a client tells a server in its first request.
-/

namespace LspClient

open Json (Value Members)

/-- A folder that the client works in. -/
structure WorkspaceFolder where
  uri : String
  name : String
  deriving DecidableEq, Repr

namespace WorkspaceFolder

/-- The folder at a path, named after the last component, or after the whole
path if that is no name. -/
def ofPath (path : String) (places : FilePath.Places := .bare) : WorkspaceFolder where
  uri := FilePath.uri path places
  name := (FilePath.fileName? path).getD path

def toJson (f : WorkspaceFolder) : Value :=
  .object [("uri", .string f.uri), ("name", .string f.name)]

end WorkspaceFolder

/-- What is particular to one connection. -/
structure Connection where
  /-- the arguments of the server's command -/
  args : List String := []
  /-- the directory that the client works in -/
  root : Option String := none
  /-- what this kind of server wants to be told -/
  options : Option Value := none
  folders : List WorkspaceFolder := []
  /-- where paths lead at the time of the connection -/
  places : FilePath.Places := .bare

namespace Connection

/-- The URI of the root. -/
def rootUri (c : Connection) : Option String :=
  c.root.map fun root => FilePath.uri root c.places

/-- The folders that are announced: the given ones, or else the root. -/
def announcedFolders (c : Connection) : Value :=
  match c.folders, c.root with
  | [], none => .null
  | [], some root => .array [(WorkspaceFolder.ofPath root c.places).toJson]
  | folders, _ => .array (folders.map WorkspaceFolder.toJson)

end Connection

/-- A text, or `null`. -/
def textOrNull : Option String → Value
  | some s => .string s
  | none => .null

/-- The parameters of the handshake of a client process. -/
def handshakeParameters (processId : Nat) (s : Settings) (c : Connection) : Value :=
  .object ([("processId", .integer (Int64.ofNat processId)),
    ("clientInfo", .object [("name", .string s.clientName), ("version", .string s.clientVersion)]),
    ("locale", .string s.locale), ("rootPath", textOrNull c.root),
    ("rootUri", textOrNull c.rootUri), ("workspaceFolders", c.announcedFolders)] ++
    (match c.options with
      | some options => [("initializationOptions", options)]
      | none => []) ++
    [("trace", .string s.trace.name), ("capabilities", s.capabilities.toJson)])

end LspClient
