import LspClient.Yaml.Layout
import LspClient.Yaml.Node

/-!
# Configuration documents

The nodes that tokens make. A text is one document: directives and a mark may
stand in front of it and marks that end it behind it, but no second document.

Where a node is expected and the collection around it goes on instead, the node
is absent. A sequence under a key may stand in the column of that key, and then
nothing brackets it: it goes on as long as entries follow.

Like all of this reader, it is only what the program gets its settings with (`Yaml.Reading`).
-/

namespace LspClient.Yaml

/-- What handles stand for. -/
abbrev Handles := List (List Char × List UInt8)

/-- The tokens that are left, and the names given so far. -/
structure Supply where
  tokens : List Token
  names : List (List Char × Nat)

/-- Reading nodes from a supply of tokens. -/
abbrev Composing := StateT Supply Option

namespace Composing

/-- The next token. -/
def peek : Composing (Option Token) := do return (← get).tokens.head?

/-- Whether the next token is one of a kind. -/
def sees (kind : Token → Bool) : Composing Bool := do return (← peek).any kind

/-- Passes the next token. -/
def drop : Composing Unit := modify fun s => { s with tokens := s.tokens.tail }

/-- Passes the next token, which has to be this one. -/
def expect (token : Token) : Composing Unit := do
  if ← sees (· == token) then drop else failure

/-- Numbers a name. A name that is given again is numbered anew. -/
def giveName (name : List Char) : Composing Nat := do
  let s ← get
  let id := s.names.length
  set { s with names := (name, id) :: s.names.filter fun entry => entry.1 ≠ name }
  return id

/-- The number of a name. -/
def findName (name : List Char) : Composing Nat := do
  match (← get).names.find? fun entry => entry.1 == name with
  | some (_, id) => return id
  | none => failure

/-- The tag that a handle and what follows it make. -/
def tagOf (handles : Handles) (handle : List Char) (suffix : List UInt8) : Composing Tag :=
  if handle.isEmpty then return suffix
  else
    match handles.find? fun entry => entry.1 == handle with
    | some (_, expansion) => return expansion ++ suffix
    | none => failure

/-- A tag, if one comes next. -/
def optionalTag (handles : Handles) : Composing (Option Tag) := do
  match ← peek with
  | some (.tag handle suffix) => drop; return some (← tagOf handles handle suffix)
  | _ => return none

/-- A name, if one is given next. -/
def optionalName : Composing (Option (List Char)) := do
  match ← peek with
  | some (.anchor name) => drop; return some name
  | _ => return none

/-- The name and the tag of a node, in either order. -/
def properties (handles : Handles) : Composing (Option (List Char) × Option Tag) := do
  match ← optionalName with
  | some name => return (some name, ← optionalTag handles)
  | none =>
    match ← optionalTag handles with
    | some tag => return (← optionalName, some tag)
    | none => return (none, none)

end Composing

/-- Whether a token ends an item of a block sequence that is not there. -/
def endsEntry (t : Token) : Bool := t == .blockEntry || t == .blockEnd

/-- Whether a token ends a key or a value of a block mapping that is not
there. -/
def endsPair (t : Token) : Bool := t == .key || t == .value || t == .blockEnd

open Composing

mutual

/-- A node. Blocks may start where `block` says so, and a sequence without
brackets where `loose` does. -/
def node (handles : Handles) : (fuel : Nat) → (block loose : Bool) → Composing Node
  | 0, _, _ => failure
  | fuel + 1, block, loose => do
    if let some (.reference name) ← peek then
      drop
      return .reference (← findName name)
    let (name, tag) ← properties handles
    let wrap ← match name with
      | some name => do
        let id ← giveName name
        pure (Node.named id)
      | none => pure id
    match ← peek with
    | some (.scalar style text) => drop; return wrap (.scalar tag style (String.ofList text))
    | some .flowSequenceStart => drop; return wrap (.sequence tag (← flowItems handles [] fuel))
    | some .flowMappingStart => drop; return wrap (.mapping tag (← flowPairs handles [] fuel))
    | next =>
      if loose && next == some .blockEntry then
        return wrap (.sequence tag (← looseEntries handles [] fuel))
      else if block && next == some .blockSequenceStart then
        drop
        return wrap (.sequence tag (← blockEntries handles [] fuel))
      else if block && next == some .blockMappingStart then
        drop
        return wrap (.mapping tag (← blockPairs handles [] fuel))
      else if name.isSome || tag.isSome then return wrap (.scalar tag .plain "")
      else failure

/-- The rest of a block sequence, behind the items in `items`, which are
reversed. -/
def blockEntries (handles : Handles) (items : List Node) : (fuel : Nat) → Composing (List Node)
  | 0 => failure
  | fuel + 1 => do
    if ← sees (· == .blockEnd) then
      drop
      return items.reverse
    expect .blockEntry
    let item ← if ← sees endsEntry then pure Node.absent else node handles fuel true false
    blockEntries handles (item :: items) fuel

/-- The rest of a sequence without brackets. -/
def looseEntries (handles : Handles) (items : List Node) : (fuel : Nat) → Composing (List Node)
  | 0 => failure
  | fuel + 1 => do
    if ← sees (· == .blockEntry) then
      drop
      let item ←
        if ← sees fun t => endsEntry t || endsPair t then pure Node.absent
        else node handles fuel true false
      looseEntries handles (item :: items) fuel
    else return items.reverse

/-- The rest of a block mapping. -/
def blockPairs (handles : Handles) (pairs : List (Node × Node)) :
    (fuel : Nat) → Composing (List (Node × Node))
  | 0 => failure
  | fuel + 1 => do
    if ← sees (· == .blockEnd) then
      drop
      return pairs.reverse
    expect .key
    let key ← if ← sees endsPair then pure Node.absent else node handles fuel true true
    let v ←
      if ← sees (· == .value) then
        drop
        if ← sees endsPair then pure Node.absent else node handles fuel true true
      else pure Node.absent
    blockPairs handles ((key, v) :: pairs) fuel

/-- The rest of a flow sequence. An item may be a single pair. -/
def flowItems (handles : Handles) (items : List Node) : (fuel : Nat) → Composing (List Node)
  | 0 => failure
  | fuel + 1 => do
    if !items.isEmpty && !(← sees (· == .flowSequenceEnd)) then expect .flowEntry
    match ← peek with
    | some .flowSequenceEnd => drop; return items.reverse
    | some .key =>
      drop
      let pair ← singlePair handles fuel
      flowItems handles (.mapping none [pair] :: items) fuel
    | _ =>
      let item ← node handles fuel false false
      flowItems handles (item :: items) fuel

/-- The single pair that is an item of a flow sequence. A key that is not there
takes along the token in its place. -/
def singlePair (handles : Handles) : (fuel : Nat) → Composing (Node × Node)
  | 0 => failure
  | fuel + 1 => do
    let ends (t : Token) : Bool := t == .flowEntry || t == .flowSequenceEnd
    let key ←
      if ← sees fun t => t == .value || ends t then
        drop
        pure Node.absent
      else node handles fuel false false
    if ← sees (· == .value) then
      drop
      let v ← if ← sees ends then pure Node.absent else node handles fuel false false
      return (key, v)
    else return (key, .absent)

/-- The rest of a flow mapping. What is not announced as a key is one without a
value. -/
def flowPairs (handles : Handles) (pairs : List (Node × Node)) :
    (fuel : Nat) → Composing (List (Node × Node))
  | 0 => failure
  | fuel + 1 => do
    let ends (t : Token) : Bool := t == .flowEntry || t == .flowMappingEnd
    if !pairs.isEmpty && !(← sees (· == .flowMappingEnd)) then expect .flowEntry
    match ← peek with
    | some .flowMappingEnd => drop; return pairs.reverse
    | some .key =>
      drop
      let key ←
        if ← sees fun t => t == .value || ends t then pure Node.absent
        else node handles fuel false false
      let v ←
        if ← sees (· == .value) then
          drop
          if ← sees ends then pure Node.absent else node handles fuel false false
        else pure Node.absent
      flowPairs handles ((key, v) :: pairs) fuel
    | _ =>
      let key ← node handles fuel false false
      flowPairs handles ((key, .absent) :: pairs) fuel

end

/-! ## Documents -/

/-- What the handles that need no directive stand for. -/
def standardHandles : Handles := [("!".toList, [octet '!']), ("!!".toList, Tag.core "")]

/-- The directives in front of a document, and whether one names the version.
Neither the version nor a handle may be given twice, and only two versions are
known. -/
def directives (handles : Handles) (versioned : Bool) :
    List Token → Option (Handles × List Token)
  | .version major minor :: rest =>
    if !versioned && major == 1 && (minor == 1 || minor == 2) then directives handles true rest
    else none
  | .shorthand handle expansion :: rest =>
    if handles.any fun entry => entry.1 == handle then none
    else directives ((handle, expansion) :: handles) versioned rest
  | tokens => some (handles ++ standardHandles, tokens)

/-- Whether a token stands between documents. -/
def isBetween : Token → Bool
  | .version .. | .shorthand .. | .documentStart | .documentEnd => true
  | _ => false

/-- The root of a document whose directives are read, and the tokens behind
it. -/
def rootOfTokens? (handles : Handles) (tokens : List Token) : Option (Node × List Token) := do
  let (root, supply) ← node handles (3 * tokens.length + 3) true false ⟨tokens, []⟩
  return (root, supply.tokens)

/-- The root of the one document that tokens make. A text without tokens, and a
document without content, has an absent root. -/
def ofTokens? (tokens : List Token) : Option Node := do
  let (root, rest) ←
    match tokens with
    | [] => pure (Node.absent, [])
    | .version .. :: _ | .shorthand .. :: _ | .documentStart :: _ => do
      match ← directives [] false tokens with
      | (handles, .documentStart :: rest) =>
        if rest.head?.all isBetween then pure (Node.absent, rest) else rootOfTokens? handles rest
      | _ => none
    | _ => rootOfTokens? standardHandles tokens
  if rest.all (· == .documentEnd) then return root else none

/-- A document: its root, and the nodes that references can mean. -/
structure Document where
  root : Node
  targets : List (Nat × Node)

/-- The document that a text is. -/
def Document.ofText? (text : String) : Option Document := do
  let root ← ofTokens? (← tokens? text.toList)
  return ⟨root, root.targets []⟩

end LspClient.Yaml
