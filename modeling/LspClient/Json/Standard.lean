import LspClient.Number.Decimal
import LspClient.Json.Event
import LspClient.Json.Quoted

/-!
# JSON text of the standard

A second reader, for text that comes from a file rather than from a peer. It
takes the grammar of RFC 8259 to the letter: four blanks, numerals with digits
on both sides of a point and no spare zero in front, and no raw control
characters in texts. A negative zero is a float, since no integer has a sign
at zero, and a numeral beyond all finite numbers is refused.

The reader goes by prefixes. It takes the longest beginning that is a value
and leaves the rest, so a caller who wants a value of a certain kind finds out
about the kind before anyone asks what follows.

It is one such reader, for the program to run with. What is claimed of reading by the standard
is claimed for every reader that conforms to it, and this is one of them.
-/

namespace LspClient.Json.Standard

/-- How deep containers may nest. -/
def maxDepth : Nat := 127

/-- The blanks of the standard. -/
def isBlank (c : Char) : Bool :=
  c == ' ' || c == '\t' || c == '\n' || c == '\r'

/-- The text from the next character that is not blank. -/
def skipBlanks (cs : List Char) : List Char :=
  cs.dropWhile isBlank

/-! ## Numerals -/

/-- A row of digits without a spare zero in front. -/
def whole? (cs : List Char) : Option (List Char × List Char) :=
  let digits := cs.takeWhile Char.isDigit
  match digits with
  | [] => none
  | '0' :: _ :: _ => none
  | _ => some (digits, cs.dropWhile Char.isDigit)

/-- A point and digits, or nothing. -/
def fraction? (cs : List Char) : Option (List Char × List Char) :=
  match cs with
  | '.' :: rest =>
    let digits := rest.takeWhile Char.isDigit
    if digits.isEmpty then none else some (digits, rest.dropWhile Char.isDigit)
  | _ => some ([], cs)

/-- The digits behind the mark of an exponent, with their sign. -/
def power? (negative : Bool) (cs : List Char) : Option (Option Int × List Char) :=
  let digits := cs.takeWhile Char.isDigit
  if digits.isEmpty then none
  else
    let n : Int := Numeral.value digits
    some (some (if negative then -n else n), cs.dropWhile Char.isDigit)

/-- An exponent, or nothing. -/
def exponent? (cs : List Char) : Option (Option Int × List Char) :=
  match cs with
  | mark :: rest =>
    if mark = 'e' ∨ mark = 'E' then
      match rest with
      | '-' :: rest => power? true rest
      | '+' :: rest => power? false rest
      | _ => power? false rest
    else some (none, cs)
  | [] => some (none, [])

/-- The event of a float, which has to be finite. -/
def float? (d : Decimal) : Option Event :=
  let x := d.toBinary64
  if x.isFinite then some (.float x) else none

/-- The event of an integer: exact if it fits 64 bits, otherwise a float. -/
def integer? (negative : Bool) (n : Nat) : Option Event :=
  if negative then
    if n ≠ 0 ∧ n ≤ Numeral.signedBound then some (.signed (Int64.ofInt (-(n : Int))))
    else float? ⟨true, n, 0⟩
  else if n < Numeral.unsignedBound then some (.unsigned (UInt64.ofNat n))
  else float? ⟨false, n, 0⟩

/-- The number at the start of a text. -/
def number? (cs : List Char) : Option (Event × List Char) := do
  let (negative, body) := match cs with
    | '-' :: rest => (true, rest)
    | _ => (false, cs)
  let (whole, rest) ← whole? body
  let (fraction, rest) ← fraction? rest
  let (power, rest) ← exponent? rest
  let event ←
    if fraction.isEmpty && power.isNone then integer? negative (Numeral.value whole)
    else float? ⟨negative, Numeral.value (whole ++ fraction), power.getD 0 - fraction.length⟩
  return (event, rest)

/-! ## Texts and names -/

/-- What follows an opening quote: the text, and what follows the closing
one. -/
def text? (cs : List Char) : Option (String × List Char) :=
  match Quoted.read 0 [] 0 cs with
  | .ok reading =>
    let raw := cs.take (cs.length - reading.rest.length)
    if raw.all fun c => !(c < ' ') then some (String.ofList reading.text, reading.rest) else none
  | .error _ => none

/-- The scalar at the start of a text. -/
def scalar? (cs : List Char) : Option (Event × List Char) :=
  match cs with
  | '"' :: rest => (text? rest).map fun (s, rest) => (.text s, rest)
  | 't' :: 'r' :: 'u' :: 'e' :: rest => some (.bool true, rest)
  | 'f' :: 'a' :: 'l' :: 's' :: 'e' :: rest => some (.bool false, rest)
  | 'n' :: 'u' :: 'l' :: 'l' :: rest => some (.null, rest)
  | _ => number? cs

/-! ## Values -/

/-- A key and the colon behind it. -/
def key? (cs : List Char) : Option (String × List Char) :=
  match skipBlanks cs with
  | '"' :: rest =>
    match text? rest with
    | some (key, rest) =>
      match skipBlanks rest with
      | ':' :: rest => some (key, rest)
      | _ => none
    | none => none
  | _ => none

mutual

/-- The events of the value at the start of a text, in which `room` more levels
may open. -/
def events? (room : Nat) : (fuel : Nat) → List Char → Option (List Event × List Char)
  | 0, _ => none
  | fuel + 1, cs =>
    match skipBlanks cs with
    | '[' :: rest =>
      match room with
      | 0 => none
      | room + 1 =>
        match skipBlanks rest with
        | ']' :: rest => some ([.beginArray, .endArray], rest)
        | _ => (elements? room fuel rest).map fun (es, rest) => (.beginArray :: es, rest)
    | '{' :: rest =>
      match room with
      | 0 => none
      | room + 1 =>
        match skipBlanks rest with
        | '}' :: rest => some ([.beginObject, .endObject], rest)
        | _ => (members? room fuel rest).map fun (es, rest) => (.beginObject :: es, rest)
    | cs => (scalar? cs).map fun (e, rest) => ([e], rest)
termination_by structural fuel => fuel

/-- The events of the elements from here to the end of the array. -/
def elements? (room : Nat) : (fuel : Nat) → List Char → Option (List Event × List Char)
  | 0, _ => none
  | fuel + 1, cs =>
    match events? room fuel cs with
    | none => none
    | some (es, rest) =>
      match skipBlanks rest with
      | ',' :: rest => (elements? room fuel rest).map fun (more, rest) => (es ++ more, rest)
      | ']' :: rest => some (es ++ [.endArray], rest)
      | _ => none
termination_by structural fuel => fuel

/-- The events of the members from here to the end of the object. -/
def members? (room : Nat) : (fuel : Nat) → List Char → Option (List Event × List Char)
  | 0, _ => none
  | fuel + 1, cs =>
    match key? cs with
    | none => none
    | some (key, rest) =>
      match events? room fuel rest with
      | none => none
      | some (es, rest) =>
        match skipBlanks rest with
        | ',' :: rest =>
          (members? room fuel rest).map fun (more, rest) => (.key key :: es ++ more, rest)
        | '}' :: rest => some (.key key :: es ++ [.endObject], rest)
        | _ => none
termination_by structural fuel => fuel

end

/-- The value at the start of a text, and what follows it. Every call of the
reader but one in two takes a character, which bounds the calls. -/
def valueThen? (cs : List Char) : Option (Value × List Char) := do
  let (es, rest) ← events? maxDepth (2 * cs.length + 1) cs
  let v ← Value.ofEvents? es
  return (v, rest)

/-! ## Documents of a certain kind -/

/-- Why a text could not be read. -/
inductive ReadError where
  /-- the text is no JSON -/
  | malformed
  /-- the text starts with a value of another kind -/
  | mismatch (expected : String) (found : Value)

namespace ReadError

def message : ReadError → String
  | .malformed => "malformed JSON text"
  | .mismatch expected found => s!"expected {expected}, found {found.kind}"

end ReadError

/-- Reads a document whose value is first cast into another form. -/
def readAs {α : Type} (cast : Value → Except ReadError α) (text : String) :
    Except ReadError α :=
  match valueThen? text.toList with
  | none => .error .malformed
  | some (v, rest) => do
    let a ← cast v
    if (skipBlanks rest).isEmpty then return a else throw .malformed

/-- The members of a value that stands for an object. Null stands for the
empty one. -/
def asMembers : Value → Except ReadError (Members Value)
  | .object members => .ok members
  | .null => .ok []
  | v => .error (.mismatch "an object" v)

/-- The elements of an array. -/
def asItems : Value → Except ReadError (List Value)
  | .array items => .ok items
  | v => .error (.mismatch "an array" v)

/-- Reads a document. -/
def read (text : String) : Except ReadError Value :=
  readAs .ok text

/-- Reads a document that is an object. -/
def readObject (text : String) : Except ReadError (Members Value) :=
  readAs asMembers text

/-- Reads a document that is an array. -/
def readArray (text : String) : Except ReadError (List Value) :=
  readAs asItems text

end LspClient.Json.Standard
