import LspClient.Text.Numeral
import LspClient.Settings.ClientCapabilities

/-!
# Settings of a client

Who the client says it is, what it advertises, and how the engine behaves.
-/

namespace LspClient

open Json (Value Members)

/-- The tracing that a server is asked for. -/
inductive TraceLevel where
  | off
  | messages
  | verbose
  deriving DecidableEq, Repr

namespace TraceLevel

/-- The level's name in the protocol. -/
def name : TraceLevel → String
  | .off => "off"
  | .messages => "messages"
  | .verbose => "verbose"

/-- The level with a name. -/
def ofName? (name : String) : Option TraceLevel :=
  [off, messages, verbose].find? fun level => level.name == name

end TraceLevel

/-- The name of the program, which is also the name that a client goes by
unless it is given another. -/
def programName : String := "grommet"

/-- The version of the program. -/
def programVersion : String := "0.1.0"

/-- The settings of a client. -/
structure Settings where
  clientName : String := programName
  clientVersion : String := programVersion
  locale : String := "en"
  /-- whether messages are recorded as they pass -/
  debug : Bool := false
  /-- how long one read waits for output, in milliseconds -/
  readTimeout : Nat := 50
  trace : TraceLevel := .off
  capabilities : ClientCapabilities := .standard

namespace Settings

/-- The settings as one object, every category of capabilities included. -/
def members (s : Settings) : Members Value :=
  [("client_name", .string s.clientName), ("client_version", .string s.clientVersion),
    ("locale", .string s.locale), ("debug", .bool s.debug),
    ("read_timeout_ms",
      if s.readTimeout < Numeral.signedBound then .integer (Int64.ofNat s.readTimeout)
      else .float (.ofInt s.readTimeout)),
    ("trace", .string s.trace.name), ("capabilities", .object s.capabilities.members)]

end Settings

end LspClient
