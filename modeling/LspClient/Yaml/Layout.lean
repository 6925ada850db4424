import LspClient.Yaml.Property
import LspClient.Yaml.Scalar

/-!
# The layout of a document

How places make tokens. Outside flow collections, structure is a matter of
columns: an entry to the right of all open blocks opens a block, and a line
closes the blocks that start to the right of it.

That a scalar or a flow collection is a key shows only at the colon behind it.
So the place where a key may have started is remembered, one for each flow
collection that is open and one outside of them, and the colon puts the mark of
a key in front of the token found there. A colon must come on the same line and
within so many octets; after that the place is forgotten. Where nothing but a
key can stand, which is in the column of an open block, forgetting is refused.

Like all of this reader, it is only what the program gets its settings with (`Yaml.Reading`).
-/

namespace LspClient.Yaml

/-- A token, and what turned out to stand in front of it. -/
structure Entry where
  before : List Token
  token : Token

/-- A place where a key may have started. -/
structure KeyStart where
  /-- the number of the entry -/
  entry : Nat
  position : Position
  /-- whether nothing but a key can stand there -/
  required : Bool

/-- How many octets a key may have, with all that stands in front of its
colon. -/
def maxKeyLength : Nat := 1024

/-- Whether a position is too far away for the colon of a key. -/
def KeyStart.isStale (k : KeyStart) (p : Position) : Bool :=
  k.position.line < p.line || k.position.offset + maxKeyLength < p.offset

/-- What is left to read, and what was read. -/
structure Layout where
  place : Place
  entries : Array Entry
  /-- the columns of open blocks, innermost first -/
  columns : List Nat
  /-- where a key may have started, in the innermost flow collection -/
  keyStart : Option KeyStart
  /-- the same in what is around it; as many as flow collections are open -/
  outerStarts : List (Option KeyStart)
  /-- whether a key may start here -/
  keyAllowed : Bool

namespace Layout

/-- The start of a text. -/
def start (text : List Char) : Layout := ⟨.start text, #[], [], none, [], true⟩

/-- Whether a flow collection is open. -/
def inFlow (s : Layout) : Bool := !s.outerStarts.isEmpty

/-- The first column to the right of the innermost open block. -/
def reach (s : Layout) : Nat :=
  match s.columns with
  | [] => 0
  | c :: _ => c + 1

/-- Adds a token. -/
def say (s : Layout) (token : Token) : Layout :=
  { s with entries := s.entries.push ⟨[], token⟩ }

/-- Moves to a place. -/
def goto (s : Layout) (p : Place) : Layout := { s with place := p }

/-- Moves behind a sign. -/
def past (s : Layout) (count : Nat) : Layout := s.goto (s.place.past count)

/-- Says whether a key may start after this. -/
def allowKey (s : Layout) (allowed : Bool) : Layout := { s with keyAllowed := allowed }

/-! ## Keys -/

/-- Forgets where a key may have started. -/
def forgetKey (s : Layout) : Option Layout :=
  if s.keyStart.any KeyStart.required then none else some { s with keyStart := none }

/-- Remembers that a key may start here. -/
def rememberKey (s : Layout) : Option Layout :=
  if s.keyAllowed then do
    let s ← s.forgetKey
    let required := !s.inFlow && s.columns.head? == some s.place.column
    return { s with keyStart := some ⟨s.entries.size, s.place.position, required⟩ }
  else some s

/-- A place where a key may have started, unless it is too far away by now. -/
def refresh (p : Position) : Option KeyStart → Option (Option KeyStart)
  | none => some none
  | some k => if k.isStale p then if k.required then none else some none else some (some k)

/-- Forgets all places that are too far away. -/
def forgetStale (s : Layout) : Option Layout := do
  let keyStart ← refresh s.place.position s.keyStart
  let outerStarts ← s.outerStarts.mapM (refresh s.place.position)
  return { s with keyStart, outerStarts }

/-! ## Blocks -/

/-- Opens a block in a column, unless one is open there or to the right. -/
def openBlock (s : Layout) (column : Nat) (token : Token) : Layout :=
  if !s.inFlow && s.reach ≤ column then { s.say token with columns := column :: s.columns } else s

/-- Closes the blocks for whose columns a condition holds, from the innermost
on. -/
def closeBlocks (s : Layout) (closes : Nat → Bool) : Layout :=
  if s.inFlow then s
  else
    let ends := (s.columns.takeWhile closes).map fun _ => Entry.mk [] .blockEnd
    { s with entries := s.entries ++ ends.toArray, columns := s.columns.dropWhile closes }

/-! ## Steps

One step reads one token at the place where it starts. -/

/-- A line that marks the start or the end of a document. -/
def documentMark (s : Layout) (token : Token) : Option Layout := do
  let s ← (s.closeBlocks fun _ => true).forgetKey
  return ((s.past 3).say token).allowKey false

/-- A directive. -/
def directive (s : Layout) : Option Layout := do
  let s ← (s.closeBlocks fun _ => true).forgetKey
  let (token, p) ← (s.place.past 1).directive?
  return ((s.goto p).say token).allowKey false

/-- The start of a flow collection. -/
def flowStart (s : Layout) (token : Token) : Option Layout := do
  let s ← s.rememberKey
  let s := { s with keyStart := none, outerStarts := s.keyStart :: s.outerStarts }
  return ((s.past 1).say token).allowKey true

/-- The end of a flow collection. -/
def flowEnd (s : Layout) (token : Token) : Option Layout := do
  let s ← s.forgetKey
  let s := match s.outerStarts with
    | keyStart :: outerStarts => { s with keyStart, outerStarts }
    | [] => s
  return ((s.past 1).say token).allowKey false

/-- The comma of a flow collection. -/
def flowEntry (s : Layout) : Option Layout := do
  let s ← s.forgetKey
  return ((s.past 1).say .flowEntry).allowKey true

/-- The hyphen of an entry. -/
def blockEntry (s : Layout) : Option Layout := do
  if !s.inFlow && !s.keyAllowed then none
  let s ← (s.openBlock s.place.column .blockSequenceStart).forgetKey
  return ((s.past 1).say .blockEntry).allowKey true

/-- The question mark of a key that is announced. -/
def announcedKey (s : Layout) : Option Layout := do
  if !s.inFlow && !s.keyAllowed then none
  let s ← (s.openBlock s.place.column .blockMappingStart).forgetKey
  return ((s.past 1).say .key).allowKey !s.inFlow

/-- The colon in front of a value. It makes a key of what stands before it, or
belongs to a key that was announced. -/
def value (s : Layout) : Option Layout :=
  match s.keyStart with
  | some k =>
    let opens := !s.inFlow && s.reach ≤ k.position.column
    let before := if opens then [Token.blockMappingStart, .key] else [.key]
    let columns := if opens then k.position.column :: s.columns else s.columns
    let entries := s.entries.modify k.entry fun e => { e with before }
    some ((({ s with entries, columns, keyStart := none }.past 1).say .value).allowKey false)
  | none =>
    if !s.inFlow && !s.keyAllowed then none
    else
      let s := s.openBlock s.place.column .blockMappingStart
      some (((s.past 1).say .value).allowKey !s.inFlow)

/-- A name, behind the sign that says whether it is given or used. -/
def name (s : Layout) (token : List Char → Token) : Option Layout := do
  let s ← s.rememberKey
  let (name, p) ← (s.place.past 1).name?
  return ((s.goto p).say (token name)).allowKey false

/-- A tag. -/
def tag (s : Layout) : Option Layout := do
  let s ← s.rememberKey
  let (token, p) ← s.place.tag? s.inFlow
  return ((s.goto p).say token).allowKey false

/-- A scalar between quotes. -/
def quoted (s : Layout) (read : (fuel : Nat) → List Char → Place → Option (List Char × Place)) :
    Option Layout := do
  let s ← s.rememberKey
  let (text, p) ← read (s.place.rest.length + 1) [] (s.place.past 1)
  return ((s.goto p).say (.scalar .quoted text)).allowKey false

/-- A plain scalar. -/
def plain (s : Layout) : Option Layout := do
  let s ← s.rememberKey
  let scalar ← s.place.plain? s.inFlow s.reach
  return ((s.goto scalar.after).say (.scalar .plain scalar.text)).allowKey scalar.endsLine

/-- A scalar that is a block. -/
def block (s : Layout) (style : Style) : Option Layout := do
  let s ← s.forgetKey
  let (text, p) ← (s.place.past 1).block? (style == .folded) s.reach
  return ((s.goto p).say (.scalar style text)).allowKey true

/-- Whether a plain scalar may start with a character. -/
def startsPlain (flow : Bool) (c : Char) (rest : List Char) : Bool :=
  if c = '-' then !atGap rest
  else if c = '?' ∨ c = ':' then !flow && !atGap rest
  else !(isFlowMark c || isBlank c || isBreak c || "#&*!|>'\"%@`".toList.contains c)

/-- Reads the token that starts here. -/
def step (s : Layout) : Option Layout :=
  let p := s.place
  if p.column = 0 ∧ p.rest.head? = some '%' then s.directive
  else if p.atTriple '-' then s.documentMark .documentStart
  else if p.atTriple '.' then s.documentMark .documentEnd
  else
    match p.rest with
    | [] => none
    | '[' :: _ => s.flowStart .flowSequenceStart
    | '{' :: _ => s.flowStart .flowMappingStart
    | ']' :: _ => s.flowEnd .flowSequenceEnd
    | '}' :: _ => s.flowEnd .flowMappingEnd
    | ',' :: _ => s.flowEntry
    | '*' :: _ => s.name .reference
    | '&' :: _ => s.name .anchor
    | '!' :: _ => s.tag
    | '\'' :: _ => s.quoted singleQuoted
    | '"' :: _ => s.quoted doubleQuoted
    | c :: rest =>
      if c = '-' ∧ atGap rest then s.blockEntry
      else if c = '?' ∧ (s.inFlow || atGap rest) then s.announcedKey
      else if c = ':' ∧ (s.inFlow || atGap rest) then s.value
      else if c = '|' ∧ !s.inFlow then s.block .literal
      else if c = '>' ∧ !s.inFlow then s.block .folded
      else if startsPlain s.inFlow c rest then s.plain
      else none

/-! ## From step to step -/

/-- Skips blanks, comments and line breaks, and a byte order mark where a line
starts. A tab may not stand where a key may start, except in flow collections.
Outside of them a key may start in every new line. -/
def skipGap : (fuel : Nat) → Layout → Layout
  | 0, s => s
  | fuel + 1, s =>
    let p := s.place
    let p := if p.column = 0 ∧ p.rest.head? = some '\uFEFF' then p.past 1 else p
    let tabs := s.inFlow || !s.keyAllowed
    let p := (p.pastAll fun c => c == ' ' || (tabs && c == '\t')).pastComment
    match p.rest with
    | c :: _ =>
      if isBreak c then skipGap fuel ((s.goto p.below).allowKey (s.keyAllowed || !s.inFlow))
      else s.goto p
    | [] => s.goto p

/-- Reads all tokens. -/
def run : (fuel : Nat) → Layout → Option Layout
  | 0, _ => none
  | fuel + 1, s => do
    let s ← (skipGap (s.place.rest.length + 1) s).forgetStale
    let s := s.closeBlocks (s.place.column < ·)
    if s.place.rest.isEmpty then (s.closeBlocks fun _ => true).forgetKey
    else run fuel (← s.step)

/-- The tokens read. -/
def tokens (s : Layout) : List Token :=
  s.entries.toList.flatMap fun e => e.before ++ [e.token]

end Layout

/-- The tokens of a text, if it has any reading. -/
def tokens? (text : List Char) : Option (List Token) :=
  if text.all isAllowed then (Layout.run (text.length + 1) (.start text)).map Layout.tokens
  else none

end LspClient.Yaml
