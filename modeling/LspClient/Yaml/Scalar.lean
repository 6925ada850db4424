import LspClient.Yaml.Place

/-!
# Texts of scalars

A scalar is written plain, between quotes, or as a block of lines. Within the
first two a line break is folded: one break stands for a blank, and of several
all but the first are kept. Separators of lines and of paragraphs are never
folded. A block is cut out by its indentation and keeps its breaks, or folds
those between lines that start without a blank.

Each reader hands back the text and the place behind it.

Like all of this reader, it is only what the program gets its settings with (`Yaml.Reading`).
-/

namespace LspClient.Yaml

/-- The punctuation of flow collections. -/
def isFlowMark (c : Char) : Bool :=
  c == ',' || c == '[' || c == ']' || c == '{' || c == '}'

/-! ## Space -/

/-- Blanks and line breaks within a scalar: the blanks if there is no break, the
breaks, and the place behind them. -/
structure Space where
  blanks : List Char
  breaks : List Char
  after : Place

/-- Reads blanks and line breaks. Blanks next to a line break do not count, and
behind one there may be no tab in a column before `reach`. -/
def readSpace (reach : Nat) (blanks breaks : List Char) (position : Position) :
    List Char → Option Space
  | [] => some ⟨blanks.reverse, breaks.reverse, ⟨[], position⟩⟩
  | c :: rest =>
    if isBlank c then
      if breaks.isEmpty then readSpace reach (c :: blanks) breaks (position.past c) rest
      else if c = '\t' ∧ position.column < reach then none
      else readSpace reach blanks breaks (position.past c) rest
    else if isBreak c then readSpace reach [] (c :: breaks) position.below rest
    else some ⟨blanks.reverse, breaks.reverse, ⟨c :: rest, position⟩⟩

/-- The space at a place. -/
def Place.space (p : Place) (reach : Nat) : Option Space :=
  readSpace reach [] [] p.position p.rest

/-- What a space within a scalar stands for. -/
def Space.folded (s : Space) : List Char :=
  match s.breaks with
  | [] => s.blanks
  | ['\n'] => [' ']
  | '\n' :: more => more
  | breaks => breaks

/-! ## Plain scalars -/

/-- A plain scalar: its text, whether it ends at the start of a line, and the
place behind it. -/
structure Plain where
  text : List Char
  endsLine : Bool
  after : Place

/-- The characters up to a gap, to a colon in front of one, or to flow
punctuation in a flow collection. There a colon in front of flow punctuation is
refused. -/
def plainWord? (flow : Bool) : List Char → Option (List Char)
  | [] => some []
  | c :: rest =>
    if isBlank c || isBreak c then some []
    else if flow && c == ':' && rest.head?.any (fun d => isFlowMark d || d == '?') then none
    else if c = ':' ∧ atGap rest then some []
    else if flow && isFlowMark c then some []
    else (plainWord? flow rest).map (c :: ·)

/-- The words of a plain scalar on top of those in `said`, which is reversed.
Between them and the place lies the space `gap`. Outside flow collections the
lines that belong to the scalar start in column `reach` or behind it. -/
def plainFrom (flow : Bool) (reach : Nat) :
    (fuel : Nat) → (said : List Char) → (gap : Space) → Option Plain
  | 0, _, _ => none
  | fuel + 1, said, gap => do
    let p := gap.after
    let ends := p.atMark || p.rest.head? == some '#'
    let word ← if ends then some [] else plainWord? flow p.rest
    if word.isEmpty then return ⟨said.reverse, !gap.breaks.isEmpty, p⟩
    let said := word.reverse ++ (gap.folded.reverse ++ said)
    let p := p.past word.length
    if !atGap p.rest || p.rest.isEmpty then return ⟨said.reverse, false, p⟩
    let gap ← p.space reach
    if !flow && gap.after.column < reach then
      return ⟨said.reverse, !gap.breaks.isEmpty, gap.after⟩
    plainFrom flow reach fuel said gap

/-- The plain scalar at a place. -/
def Place.plain? (p : Place) (flow : Bool) (reach : Nat) : Option Plain :=
  plainFrom flow reach (p.rest.length + 1) [] ⟨[], [], p⟩

/-! ## Quoted scalars -/

/-- The rest of a scalar between apostrophes, in which an apostrophe is written
twice. The text before it is in `said`, reversed. -/
def singleQuoted : (fuel : Nat) → (said : List Char) → Place → Option (List Char × Place)
  | 0, _, _ => none
  | fuel + 1, said, p =>
    match p.rest with
    | [] => none
    | '\'' :: '\'' :: _ => singleQuoted fuel ('\'' :: said) (p.past 2)
    | '\'' :: _ => some (said.reverse, p.past 1)
    | c :: _ =>
      if isBlank c || isBreak c then
        match p.space 0 with
        | some space =>
          if space.after.atMark then none
          else singleQuoted fuel (space.folded.reverse ++ said) space.after
        | none => none
      else singleQuoted fuel (c :: said) (p.past 1)

/-- The number that hexadecimal digits spell. -/
def hexNumber? (cs : List Char) : Option Nat :=
  cs.foldl (fun acc c => acc.bind fun n => (hexDigit? c).map (n * 16 + ·)) (some 0)

/-- A character given by so many hexadecimal digits. -/
def hexEscape? (count : Nat) (cs : List Char) : Option (Char × Nat) := do
  let digits := cs.take count
  if digits.length ≠ count then none
  let n ← hexNumber? digits
  if n.isValidChar then some (Char.ofNat n, count + 1) else none

/-- The escape behind a backslash, and how many characters it takes. -/
def escape? : List Char → Option (Char × Nat)
  | [] => none
  | c :: rest =>
    let named : List (Char × Nat) :=
      [('0', 0x00), ('a', 0x07), ('b', 0x08), ('t', 0x09), ('\t', 0x09), ('n', 0x0A), ('v', 0x0B),
        ('f', 0x0C), ('r', 0x0D), ('e', 0x1B), (' ', 0x20), ('"', 0x22), ('/', 0x2F),
        ('\\', 0x5C), ('N', 0x85), ('_', 0xA0), ('L', 0x2028), ('P', 0x2029)]
    match named.find? fun entry => entry.1 == c with
    | some (_, n) => some (Char.ofNat n, 1)
    | none =>
      if c = 'x' then hexEscape? 2 rest
      else if c = 'u' then hexEscape? 4 rest
      else if c = 'U' then hexEscape? 8 rest
      else none

/-- The rest of a scalar between quotes. A backslash takes the line break behind
it away, and the blanks at the start of the next line with it. -/
def doubleQuoted : (fuel : Nat) → (said : List Char) → Place → Option (List Char × Place)
  | 0, _, _ => none
  | fuel + 1, said, p =>
    match p.rest with
    | [] => none
    | '"' :: _ => some (said.reverse, p.past 1)
    | '\\' :: rest =>
      if !rest.isEmpty && atLineEnd rest then
        match (p.past 1).below.space 0 with
        | some space =>
          if space.after.atMark then none
          else doubleQuoted fuel (space.breaks.reverse ++ said) space.after
        | none => none
      else
        match escape? rest with
        | some (c, width) => doubleQuoted fuel (c :: said) (p.past (width + 1))
        | none => none
    | c :: _ =>
      if isBlank c || isBreak c then
        match p.space 0 with
        | some space =>
          if space.after.atMark then none
          else doubleQuoted fuel (space.folded.reverse ++ said) space.after
        | none => none
      else doubleQuoted fuel (c :: said) (p.past 1)

/-! ## Blocks -/

/-- What becomes of the line breaks at the end of a block. -/
inductive Chomping where
  /-- none stays -/
  | strip
  /-- one stays -/
  | clip
  /-- all stay -/
  | keep
  deriving DecidableEq

/-- What is said of a block in front of its lines. -/
structure BlockHeader where
  chomping : Chomping
  /-- by how much the lines are indented; zero if they show it themselves -/
  increment : Nat
  after : Place

/-- The chomping that a sign asks for. -/
def chomping? : List Char → Option Chomping
  | '+' :: _ => some .keep
  | '-' :: _ => some .strip
  | _ => none

/-- The digit that may say how far a block is indented. -/
def increment? (p : Place) : Option (Nat × Place) :=
  match p.rest with
  | '0' :: _ => none
  | c :: _ => some (if c.isDigit then (c.toNat - '0'.toNat, p.past 1) else (0, p))
  | [] => some (0, p)

/-- The header of a block: a sign and a digit in either order, each optional,
and nothing else on the line. -/
def blockHeader? (p : Place) : Option BlockHeader := do
  match chomping? p.rest with
  | some chomping =>
    let (increment, p) ← increment? (p.past 1)
    return ⟨chomping, increment, ← p.nextLine?⟩
  | none =>
    let (increment, p) ← increment? p
    match chomping? p.rest with
    | some chomping => return ⟨chomping, increment, ← (p.past 1).nextLine?⟩
    | none => return ⟨.clip, increment, ← p.nextLine?⟩

/-- Line breaks and the indentation around them. -/
structure Margin where
  breaks : List Char
  /-- the greatest column that indentation reached -/
  widest : Nat
  after : Place

/-- Reads line breaks and indentation, the latter up to the column `indent`, or
as far as it goes if that is zero. A tab may not indent. -/
def readMargin (indent : Nat) : (fuel : Nat) → (breaks : List Char) → (widest : Nat) → Place →
    Option Margin
  | 0, _, _, _ => none
  | fuel + 1, breaks, widest, p =>
    let blanks := (p.rest.takeWhile (· == ' ')).length
    let p := p.past (if indent = 0 then blanks else min blanks (indent - p.column))
    let widest := max widest p.column
    match p.rest with
    | [] => some ⟨breaks.reverse, widest, p⟩
    | c :: _ =>
      if c = '\t' ∧ (indent = 0 ∨ p.column < indent) then none
      else if isBreak c then readMargin indent fuel (c :: breaks) widest p.below
      else some ⟨breaks.reverse, widest, p⟩

/-- The margin at a place. -/
def Place.margin? (p : Place) (indent : Nat) : Option Margin :=
  readMargin indent (p.rest.length + 1) [] 0 p

/-- The lines of a block read so far: their text, reversed, the break behind the
last of them, the margin behind that, and whether the last line starts with a
blank. -/
structure BlockLines where
  said : List Char
  ending : List Char
  margin : Margin
  startsBlank : Bool

/-- Reads the lines of a block, which start in column `indent`. -/
def readBlock (folds : Bool) (indent : Nat) : (fuel : Nat) → BlockLines → Option BlockLines
  | 0, _ => none
  | fuel + 1, lines =>
    let p := lines.margin.after
    if p.column ≠ indent ∨ p.rest.isEmpty then some lines
    else
      let startsBlank := p.rest.head?.any isBlank
      let joint :=
        if folds && lines.ending == ['\n'] && !lines.startsBlank && !startsBlank then
          if lines.margin.breaks.isEmpty then [' '] else []
        else lines.ending
      let line := p.rest.takeWhile fun c => !isBreak c
      let said := line.reverse ++ (lines.margin.breaks.reverse ++ (joint.reverse ++ lines.said))
      let p := p.past line.length
      let (ending, p) := match p.rest with
        | [] => ([], p)
        | c :: _ => ([c], p.below)
      match p.margin? indent with
      | some margin => readBlock folds indent fuel ⟨said, ending, margin, startsBlank⟩
      | none => none

/-- The scalar that a block is. Blocks inside which it stands start to the left
of `reach`. -/
def Place.block? (p : Place) (folds : Bool) (reach : Nat) : Option (List Char × Place) := do
  let header ← blockHeader? p
  let given := if header.increment = 0 then 0 else reach - 1 + header.increment
  let margin ← header.after.margin? given
  let indent := if given = 0 then max margin.widest (max reach 1) else given
  let lines ← readBlock folds indent (p.rest.length + 1) ⟨[], [], margin, false⟩
  let tail := match header.chomping with
    | .strip => []
    | .clip => lines.ending
    | .keep => lines.ending ++ lines.margin.breaks
  return (lines.said.reverse ++ tail, lines.margin.after)

end LspClient.Yaml
