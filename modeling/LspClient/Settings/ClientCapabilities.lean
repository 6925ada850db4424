import LspClient.Json.Value

/-!
# What the client advertises

Capabilities come in six categories, each an object whose content this library
does not interpret. Only categories that hold something are sent.
-/

namespace LspClient

open Json (Value Members)

/-- The categories of client capabilities. -/
inductive Category where
  | workspace
  | textDocument
  | window
  | general
  | notebookDocument
  | experimental
  deriving DecidableEq, Repr

namespace Category

/-- All categories, in the order in which they are sent. -/
def all : List Category :=
  [.workspace, .textDocument, .window, .general, .notebookDocument, .experimental]

/-- The key of a category. -/
def key : Category → String
  | .workspace => "workspace"
  | .textDocument => "textDocument"
  | .window => "window"
  | .general => "general"
  | .notebookDocument => "notebookDocument"
  | .experimental => "experimental"

/-- The category with a key. -/
def ofKey? (key : String) : Option Category :=
  all.find? fun c => c.key == key

end Category

/-- The capabilities of a client. -/
structure ClientCapabilities where
  workspace : Members Value := []
  textDocument : Members Value := []
  window : Members Value := []
  general : Members Value := []
  notebookDocument : Members Value := []
  experimental : Members Value := []

namespace ClientCapabilities

/-- Nothing at all. -/
def none : ClientCapabilities := {}

/-- Synchronisation with save notifications, hover texts, workspace folders and
progress reports. -/
def standard : ClientCapabilities where
  workspace := [("workspaceFolders", .bool true)]
  textDocument :=
    [("synchronization", .object [("dynamicRegistration", .bool false), ("didSave", .bool true)]),
      ("hover", .object [("contentFormat", .array [.string "markdown", .string "plaintext"])])]
  window := [("workDoneProgress", .bool true)]
  general := [("positionEncodings", .array [.string "utf-16"])]

/-- The members of a category. -/
def get (c : ClientCapabilities) : Category → Members Value
  | .workspace => c.workspace
  | .textDocument => c.textDocument
  | .window => c.window
  | .general => c.general
  | .notebookDocument => c.notebookDocument
  | .experimental => c.experimental

/-- Gives a category other members. -/
def put (c : ClientCapabilities) (category : Category) (members : Members Value) :
    ClientCapabilities :=
  match category with
  | .workspace => { c with workspace := members }
  | .textDocument => { c with textDocument := members }
  | .window => { c with window := members }
  | .general => { c with general := members }
  | .notebookDocument => { c with notebookDocument := members }
  | .experimental => { c with experimental := members }

/-- Stores one capability. -/
def set (c : ClientCapabilities) (category : Category) (key : String) (v : Value) :
    ClientCapabilities :=
  c.put category ((c.get category).set key v)

/-- Withdraws one capability. -/
def remove (c : ClientCapabilities) (category : Category) (key : String) : ClientCapabilities :=
  c.put category ((c.get category).remove key)

/-- All categories as members of one object. -/
def members (c : ClientCapabilities) : Members Value :=
  Category.all.map fun category => (category.key, .object (c.get category))

/-- What is sent: the categories that hold something. -/
def toJson (c : ClientCapabilities) : Value :=
  .object ((Category.all.filter fun category => !(c.get category).isEmpty).map
    fun category => (category.key, .object (c.get category)))

end ClientCapabilities

end LspClient
