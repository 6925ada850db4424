import LspClient.Settings.Basic
import LspClient.Files.Basic
import LspClient.Text.Blank
import LspClient.Yaml.Reading

/-!
# Settings from a document

A configuration document is a mapping in which every key is optional: what it
does not say keeps its default. Keys that mean nothing here are passed over
with all that stands under them, but a key that means something may be given
only once.

A name takes the text of any scalar, so `5` and `true` are names. A switch and
a number of milliseconds have to be written plain. The categories of
capabilities are values that this library does not interpret, and their nesting
has a limit.
-/

namespace LspClient

open Json (Value Members)
open Yaml (Document Node Reading)

/-- Why settings could not be had. -/
inductive SettingsError where
  /-- the file cannot be read -/
  | unreadable (path : String) (cause : FileError)
  /-- the text says no settings -/
  | malformed
  deriving DecidableEq

namespace SettingsError

def message : SettingsError → String
  | .unreadable path cause => s!"failed to read config file '{path}': {cause.message}"
  | .malformed => "invalid config"

end SettingsError

namespace Settings

/-- The nodes under known keys, after those in `found`. -/
def fieldsOnto (d : Document) (known : List String) (found : Members Node) :
    List (Node × Node) → Reading (Members Node)
  | [] => return found
  | (key, node) :: rest => do
    let key ← d.text key
    if known.contains key then
      if found.contains key then failure else fieldsOnto d known (found.set key node) rest
    else fieldsOnto d known found rest

/-- The nodes of a mapping under known keys. -/
def fields (d : Document) (known : List String) (node : Node) : Reading (Members Node) := do
  fieldsOnto d known [] (← d.pairs node)

/-- The reading of a field, or a default if the field is not there. -/
def field {α : Type} (fields : Members Node) (key : String) (default : α)
    (read : Node → Reading α) : Reading α :=
  match fields.get? key with
  | none => return default
  | some node => read node

/-- How deep a category of capabilities may nest. -/
def maxCategoryDepth : Nat := 126

/-- The members of a category. Null is a category that is empty. -/
def readCategory (d : Document) (node : Node) : Reading (Members Value) := do
  match ← d.value maxCategoryDepth node with
  | .object members => return members
  | .null => return []
  | _ => failure

/-- The capabilities that a mapping says. A category that it names replaces the
standard one. -/
def readCapabilities (d : Document) (node : Node) : Reading ClientCapabilities := do
  let fields ← fields d (Category.all.map Category.key) node
  Category.all.foldlM (fun c kind => do
    let members ← field fields kind.key (c.get kind) (readCategory d)
    return c.put kind members) ClientCapabilities.standard

/-- The tracing that a scalar names. -/
def readTrace (d : Document) (node : Node) : Reading TraceLevel := do
  liftM (TraceLevel.ofName? (← d.choice node))

/-- The keys of settings. -/
def keys : List String :=
  ["client_name", "client_version", "locale", "debug", "read_timeout_ms", "trace", "capabilities"]

/-- The settings that a document says. -/
def ofDocument (d : Document) : Reading Settings := do
  let fields ← fields d keys d.root
  let standard : Settings := {}
  let clientName ← field fields "client_name" standard.clientName d.text
  let clientVersion ← field fields "client_version" standard.clientVersion d.text
  let locale ← field fields "locale" standard.locale d.text
  let debug ← field fields "debug" standard.debug d.switch
  let readTimeout ← field fields "read_timeout_ms" standard.readTimeout d.natural
  let trace ← field fields "trace" standard.trace (readTrace d)
  let capabilities ← field fields "capabilities" standard.capabilities (readCapabilities d)
  return { clientName, clientVersion, locale, debug, readTimeout, trace, capabilities }

/-- The settings that a text says. A text of blanks says nothing. -/
def ofText (text : String) : Except SettingsError Settings :=
  if (Text.trim text.toList).isEmpty then .ok {}
  else
    match (Document.ofText? text).bind fun d => d.read (ofDocument d) with
    | some settings => .ok settings
    | none => .error .malformed

/-- The settings in a file. -/
def load (files : Files) (path : String) : Except SettingsError Settings :=
  match files.read path with
  | .ok text => ofText text
  | .error cause => .error (.unreadable path cause)

end Settings

end LspClient
