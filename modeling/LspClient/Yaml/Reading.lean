import LspClient.Json.Members
import LspClient.Yaml.Document
import LspClient.Yaml.Spelling

/-!
# Reading documents

How a node is read depends on who asks. Whoever wants a text takes that of any
scalar; a switch or a number has to be written plain, because a quoted scalar
is a text and nothing else. What has no known form is read as a value: there
plain scalars resolve by their spelling, and a tag of the format's own types
resolves any scalar.

References are followed as they are met, so a document can say far more than it
holds, or something without an end. Both are bounded: nesting by a depth, and
the references followed by a number for the whole document.

This reader is only what the program gets its settings with. Statements begin with settings,
or with what a value was told by, whatever document it was told from.
-/

namespace LspClient.Yaml

open Json (Value Members)

/-- Reading, which spends from the number of references that may still be
followed. -/
abbrev Reading := StateT Nat Option

/-- The value of a scalar. A tag that only one document knows has no value. -/
def scalarValue? (tag : Option Tag) (style : Style) (text : String) : Option Value :=
  let untagged : Option Value := if style = .plain then resolve? text else some (.string text)
  match tag with
  | none => untagged
  | some tag =>
    if tag.localName?.isSome then none
    else if tag = Tag.core "bool" then (bool? text).map .bool
    else if tag = Tag.core "int" then ((integer? text.toList).bind ofInteger?).join
    else if tag = Tag.core "float" then (float? text.toList).map .float
    else if tag = Tag.core "null" then if isNullWord text then some .null else none
    else if tag.head? = some (octet '!') then untagged
    else some (.string text)

/-- Whether a scalar may be read as a switch or a number: it is plain, or it is
a block of lines whose tag says so. -/
def isBare (core : String) (tag : Option Tag) (style : Style) : Bool :=
  style == .plain || (style == .literal && tag == some (Tag.core core))

/-- Whether a collection may be read as a value. -/
def isKnown (tag : Option Tag) : Bool := (tag.bind Tag.localName?).isNone

namespace Document

/-- How many references may be followed in a document. -/
def maxReferences (d : Document) : Nat := 100 * d.root.size

/-- The node that a node stands for. -/
def follow (d : Document) : Node → Reading Node
  | .reference id => do
    match ← get with
    | 0 => failure
    | left + 1 =>
      set left
      match d.targets.find? fun entry => entry.1 == id with
      | some (_, target) => return target
      | none => failure
  | .named _ n => return n
  | n => return n

/-- The text of a scalar. -/
def text (d : Document) (n : Node) : Reading String := do
  match ← d.follow n with
  | .scalar _ _ text => return text
  | _ => failure

/-- The boolean that a scalar spells. -/
def switch (d : Document) (n : Node) : Reading Bool := do
  match ← d.follow n with
  | .scalar tag style text => if isBare "bool" tag style then liftM (bool? text) else failure
  | _ => failure

/-- The 64-bit unsigned integer that a scalar spells. -/
def natural (d : Document) (n : Node) : Reading Nat := do
  match ← d.follow n with
  | .scalar tag style text => if isBare "int" tag style then liftM (unsigned? text) else failure
  | _ => failure

/-- The name of a choice: a scalar's text, or a tag on nothing. Quotes around
nothing are a text. -/
def choice (d : Document) (n : Node) : Reading String := do
  match ← d.follow n with
  | .scalar tag style text =>
    match tag.bind Tag.localName? with
    | none => return text
    | some name => if style = .plain ∧ isNull text then return name else failure
  | _ => failure

/-- The pairs of a mapping. A plain scalar that is empty has none. -/
def pairs (d : Document) (n : Node) : Reading (List (Node × Node)) := do
  match ← d.follow n with
  | .mapping _ pairs => return pairs
  | .scalar _ .plain "" => return []
  | _ => failure

/-- The value of a node that nests at most so deep. The keys of mappings are the
texts of scalars. -/
def value (d : Document) : (depth : Nat) → Node → Reading Value
  | 0, n => do
    match ← d.follow n with
    | .scalar tag style text => liftM (scalarValue? tag style text)
    | _ => failure
  | depth + 1, n => do
    match ← d.follow n with
    | .scalar tag style text => liftM (scalarValue? tag style text)
    | .sequence tag items =>
      if isKnown tag then return .array (← items.mapM fun item => value d depth item)
      else failure
    | .mapping tag pairs =>
      if isKnown tag then
        let members ← pairs.foldlM (fun (m : Members Value) pair => do
          let key ← d.text pair.1
          return m.set key (← value d depth pair.2)) []
        return .object members
      else failure
    | _ => failure

/-- What a reading makes of a document. -/
def read {α : Type} (d : Document) (reading : Reading α) : Option α :=
  (reading.run d.maxReferences).map Prod.fst

end Document

end LspClient.Yaml
