import LspClient.Yaml.Token
import LspClient.Text.Utf8

/-!
# Nodes of a configuration document

What a document says before anyone asks what its scalars mean: scalars,
sequences, and mappings as lists of pairs. A node may carry a tag and a name,
and a reference stands for the node of a name. Names are numbers here, since a
name that is given twice means the later node from there on.

Like all of this reader, it is only what the program gets its settings with (`Yaml.Reading`).
-/

namespace LspClient.Yaml

/-- A node. -/
inductive Node where
  | scalar (tag : Option Tag) (style : Style) (text : String)
  | sequence (tag : Option Tag) (items : List Node)
  | mapping (tag : Option Tag) (pairs : List (Node × Node))
  | named (id : Nat) (node : Node)
  | reference (id : Nat)

namespace Node

/-- The node of a value that is not there. -/
def absent : Node := .scalar none .plain ""

mutual

/-- How many places a node has at which a reader can stop: one for a scalar or
a reference, and two more than its parts have for everything else. -/
def size : Node → Nat
  | .scalar .. => 1
  | .sequence _ items => sizeItems items + 2
  | .mapping _ pairs => sizePairs pairs + 2
  | .named _ n => size n
  | .reference _ => 1

def sizeItems : List Node → Nat
  | [] => 0
  | n :: rest => size n + sizeItems rest

def sizePairs : List (Node × Node) → Nat
  | [] => 0
  | (k, n) :: rest => size k + size n + sizePairs rest

end

mutual

/-- The nodes that have names, the latest first, in front of those in `found`. -/
def targets (found : List (Nat × Node)) : Node → List (Nat × Node)
  | .scalar .. => found
  | .sequence _ items => targetsItems found items
  | .mapping _ pairs => targetsPairs found pairs
  | .named id n => targets ((id, n) :: found) n
  | .reference _ => found

def targetsItems (found : List (Nat × Node)) : List Node → List (Nat × Node)
  | [] => found
  | n :: rest => targetsItems (targets found n) rest

def targetsPairs (found : List (Nat × Node)) : List (Node × Node) → List (Nat × Node)
  | [] => found
  | (k, n) :: rest => targetsPairs (targets (targets found k) n) rest

end

end Node

/-! ## Tags -/

namespace Tag

/-- A tag of the format's own types. -/
def core (name : String) : Tag := Utf8.octets ("tag:yaml.org,2002:" ++ name)

/-- The name of a tag that has a meaning in one document only. Such tags start
with an exclamation mark, and the shortest of them is its own name. -/
def localName? (tag : Tag) : Option String :=
  match tag with
  | 0x21 :: [] => some "!"
  | 0x21 :: name => Utf8.text? name
  | _ => none

end Tag

end LspClient.Yaml
