/-!
# Tokens of a configuration document

Tokens are what remains of a document when places no longer matter. Blocks are
bracketed like flow collections: a start where the first entry is found, an end
where a line starts to the left of it.

Like all of this reader, it is only what the program gets its settings with (`Yaml.Reading`).
-/

namespace LspClient.Yaml

/-- How a scalar is written. -/
inductive Style where
  | plain
  | quoted
  | literal
  | folded
  deriving DecidableEq

/-- A tag, as octets. -/
abbrev Tag := List UInt8

/-- Tokens. -/
inductive Token where
  /-- a directive that names the version of the format -/
  | version (major minor : Nat)
  /-- a directive by which a handle stands for the start of tags -/
  | shorthand (handle : List Char) (expansion : List UInt8)
  | documentStart
  | documentEnd
  | blockSequenceStart
  | blockMappingStart
  | blockEnd
  | flowSequenceStart
  | flowSequenceEnd
  | flowMappingStart
  | flowMappingEnd
  | blockEntry
  | flowEntry
  | key
  | value
  /-- the name of the node that follows -/
  | anchor (name : List Char)
  /-- the node of a name -/
  | reference (name : List Char)
  | tag (handle : List Char) (suffix : List UInt8)
  | scalar (style : Style) (text : List Char)
  deriving DecidableEq

end LspClient.Yaml
