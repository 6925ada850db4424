/-!
# Places in a configuration document

A place is what is left of the text, with the position that it starts at.
Positions count lines and columns, which are what block structure is made of,
and octets, which bound how long a key may be.

Five line breaks are known. Three of them and their pair are one and the same
break; the separators of lines and of paragraphs are breaks as well, but each
stays what it is. So the text is read with one break for the first four, and
after that a break is one character.

Like all of this reader, it is only what the program gets its settings with (`Yaml.Reading`).
-/

namespace LspClient.Yaml

/-! ## Characters -/

/-- The characters that a document may hold. -/
def isAllowed (c : Char) : Bool :=
  let n := c.toNat
  n == 0x09 || n == 0x0A || n == 0x0D || (0x20 ≤ n && n ≤ 0x7E) || n == 0x85 ||
    (0xA0 ≤ n && n ≤ 0xFFFD) || 0x10000 ≤ n

/-- The text with one character for every line break. -/
def unifyBreaks : List Char → List Char
  | [] => []
  | '\r' :: '\n' :: rest => '\n' :: unifyBreaks rest
  | '\r' :: rest => '\n' :: unifyBreaks rest
  | c :: rest => (if c.toNat = 0x85 then '\n' else c) :: unifyBreaks rest

/-- Blanks within a line. -/
def isBlank (c : Char) : Bool := c == ' ' || c == '\t'

/-- Line breaks. -/
def isBreak (c : Char) : Bool := c == '\n' || c == '\u2028' || c == '\u2029'

/-- Whether a line ends here, by a break or with the text. -/
def atLineEnd : List Char → Bool
  | [] => true
  | c :: _ => isBreak c

/-- Whether a blank, a line break or the end comes next. -/
def atGap : List Char → Bool
  | [] => true
  | c :: _ => isBlank c || isBreak c

/-- The characters of names. -/
def isNameChar (c : Char) : Bool := c.isAlphanum || c == '_' || c == '-'

/-- The number that a hexadecimal digit spells. -/
def hexDigit? (c : Char) : Option Nat :=
  if c.isDigit then some (c.toNat - '0'.toNat)
  else if 'a' ≤ c ∧ c ≤ 'f' then some (c.toNat - 'a'.toNat + 10)
  else if 'A' ≤ c ∧ c ≤ 'F' then some (c.toNat - 'A'.toNat + 10)
  else none

/-! ## Positions -/

/-- A position in a document. -/
structure Position where
  /-- the octets before it, where a break of two characters counts as one -/
  offset : Nat
  line : Nat
  column : Nat

namespace Position

/-- Where every document starts. -/
def start : Position := ⟨0, 0, 0⟩

/-- The position behind a character of a line. -/
def past (p : Position) (c : Char) : Position :=
  ⟨p.offset + c.utf8Size, p.line, p.column + 1⟩

/-- The position behind a line break. -/
def below (p : Position) : Position := ⟨p.offset + 1, p.line + 1, 0⟩

end Position

/-- A place in a document. -/
structure Place where
  rest : List Char
  position : Position

namespace Place

/-- The place where a text starts. -/
def start (text : List Char) : Place := ⟨unifyBreaks text, .start⟩

/-- The column of a place. -/
def column (p : Place) : Nat := p.position.column

/-- The place behind so many characters of the line. -/
def past (p : Place) (count : Nat) : Place :=
  ⟨p.rest.drop count, (p.rest.take count).foldl Position.past p.position⟩

/-- The place behind all characters of one kind. -/
def pastAll (p : Place) (kind : Char → Bool) : Place :=
  p.past (p.rest.takeWhile kind).length

/-- The place behind the line break that comes next. -/
def below (p : Place) : Place := ⟨p.rest.tail, p.position.below⟩

/-- The place behind the comment that comes next, if one does. -/
def pastComment (p : Place) : Place :=
  match p.rest with
  | '#' :: _ => p.pastAll fun c => !isBreak c
  | _ => p

/-- The start of the next line, if nothing but blanks and a comment is left of
this one. -/
def nextLine? (p : Place) : Option Place :=
  let p := (p.pastAll isBlank).pastComment
  match p.rest with
  | [] => some p
  | c :: _ => if isBreak c then some p.below else none

/-- Whether a line starts here with a character three times and a gap. -/
def atTriple (p : Place) (c : Char) : Bool :=
  p.column == 0 && p.rest.take 3 == [c, c, c] && atGap (p.rest.drop 3)

/-- Whether a line starts here that marks the start or the end of a document. -/
def atMark (p : Place) : Bool := p.atTriple '-' || p.atTriple '.'

end Place

end LspClient.Yaml
