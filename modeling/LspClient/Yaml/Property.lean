import LspClient.Yaml.Place
import LspClient.Yaml.Token

/-!
# Names, tags and directives

A node may be given a name, under which it is found again, and a tag, which
says what it is. A tag is written out between angle brackets, or by a handle
that stands for its start; directives in front of a document say what handles
stand for. Tags are octets, since any octet may be written in them by its
number, up to the first that is zero.

Each reader hands back what it read and the place behind it.

Like all of this reader, it is only what the program gets its settings with (`Yaml.Reading`).
-/

namespace LspClient.Yaml

/-! ## Names -/

/-- A name behind its sign. What follows it must be a gap or one of the signs
that no name can run into. -/
def Place.name? (p : Place) : Option (List Char × Place) :=
  let name := p.rest.takeWhile isNameChar
  let p := p.past name.length
  if !name.isEmpty && (atGap p.rest || p.rest.head?.any ("?:,]\x7d%@`".toList.contains ·)) then
    some (name, p)
  else none

/-! ## Tags -/

/-- The octet of an ASCII character. -/
def octet (c : Char) : UInt8 := c.toNat.toUInt8

/-- The characters of tags. Inside angle brackets and in directives, flow
punctuation may stand in them as well. -/
def isTagChar (wide : Bool) (c : Char) : Bool :=
  isNameChar c || ";/?:@&=+$.%!~*'()".toList.contains c || (wide && ",[]".toList.contains c)

/-- The octet that is written by its number here. -/
def numberedOctet? : List Char → Option UInt8
  | '%' :: high :: low :: _ => do
    return (16 * (← hexDigit? high) + (← hexDigit? low)).toUInt8
  | _ => none

/-- How many octets a character has that starts with this one. -/
def octetCount? (lead : UInt8) : Option Nat :=
  if lead < 0x80 then some 1
  else if lead < 0xC0 then none
  else if lead < 0xE0 then some 2
  else if lead < 0xF0 then some 3
  else if lead < 0xF8 then some 4
  else none

/-- The octets of one character, each written by its number. -/
def numberedOctets? (cs : List Char) : Option (List UInt8) := do
  let count ← octetCount? (← numberedOctet? cs)
  let octets ← (List.range count).mapM fun i => numberedOctet? (cs.drop (3 * i))
  if octets.tail.all fun b => 0x80 ≤ b && b < 0xC0 then some octets else none

/-- The octets of the rest of a tag, on top of those in `said`, which is
reversed. -/
def tagOctets (wide : Bool) : (fuel : Nat) → (said : List UInt8) → Place →
    Option (List UInt8 × Place)
  | 0, _, _ => none
  | fuel + 1, said, p =>
    match p.rest with
    | '%' :: _ =>
      match numberedOctets? p.rest with
      | some octets => tagOctets wide fuel (octets.reverse ++ said) (p.past (3 * octets.length))
      | none => none
    | c :: _ =>
      if isTagChar wide c then tagOctets wide fuel (octet c :: said) (p.past 1)
      else some (said.reverse.takeWhile (· ≠ 0), p)
    | [] => some (said.reverse.takeWhile (· ≠ 0), p)

/-- The rest of a tag. Where nothing stands in front of it, it may not be
empty. -/
def Place.tagRest? (p : Place) (wide : Bool) (front : List Char) :
    Option (List UInt8 × Place) :=
  if front.isEmpty && !p.rest.head?.any (isTagChar wide) then none
  else tagOctets wide (p.rest.length + 1) (front.tail.map octet).reverse p

/-- What stands where a handle is looked for: an exclamation mark, a name, and
another exclamation mark if there is one. -/
def Place.handle? (p : Place) : Option (List Char × Place) :=
  match p.rest with
  | '!' :: rest =>
    let name := rest.takeWhile isNameChar
    let p := p.past (name.length + 1)
    match p.rest with
    | '!' :: _ => some ('!' :: name ++ ['!'], p.past 1)
    | _ => some ('!' :: name, p)
  | _ => none

/-- A tag as it is written: a handle, which is empty if the tag is written out,
and what follows the handle. -/
def Place.writtenTag? (p : Place) : Option (List Char × List UInt8 × Place) :=
  match p.rest with
  | '!' :: '<' :: _ => do
    let (suffix, p) ← (p.past 2).tagRest? true []
    if p.rest.head? = some '>' then return ([], suffix, p.past 1) else none
  | _ => do
    let (handle, p) ← p.handle?
    if 2 ≤ handle.length && handle.getLast? == some '!' then
      let (suffix, p) ← p.tagRest? false []
      return (handle, suffix, p)
    else
      let (suffix, p) ← p.tagRest? false handle
      if suffix.isEmpty then return ([], [octet '!'], p)
      else return (['!'], suffix, p)

/-- The tag at a place. A gap ends it, in flow collections a comma as well. -/
def Place.tag? (p : Place) (flow : Bool) : Option (Token × Place) := do
  let (handle, suffix, p) ← p.writtenTag?
  if atGap p.rest || (flow && p.rest.head? == some ',') then return (.tag handle suffix, p)
  else none

/-! ## Directives -/

/-- A number of at most nine digits. -/
def Place.shortNumber? (p : Place) : Option (Nat × Place) :=
  let digits := p.rest.takeWhile Char.isDigit
  if digits.isEmpty ∨ 9 < digits.length then none
  else some (digits.foldl (fun n c => n * 10 + (c.toNat - '0'.toNat)) 0, p.past digits.length)

/-- What the directive of a name says. -/
def Place.directiveContent? (p : Place) (name : List Char) : Option (Token × Place) := do
  let p := p.pastAll isBlank
  if name = "YAML".toList then
    let (major, p) ← p.shortNumber?
    if p.rest.head? ≠ some '.' then none
    let (minor, p) ← (p.past 1).shortNumber?
    return (.version major minor, p)
  else if name = "TAG".toList then
    let (handle, p) ← p.handle?
    if handle ≠ ['!'] && handle.getLast? ≠ some '!' then none
    if !p.rest.head?.any isBlank then none
    let (expansion, p) ← (p.pastAll isBlank).tagRest? true []
    if !atGap p.rest then none
    return (.shorthand handle expansion, p)
  else none

/-- The directive behind a percent sign, and the line after it. -/
def Place.directive? (p : Place) : Option (Token × Place) := do
  let name := p.rest.takeWhile isNameChar
  let p := p.past name.length
  if name.isEmpty || !atGap p.rest then none
  let (directive, p) ← p.directiveContent? name
  return (directive, ← p.nextLine?)

end LspClient.Yaml
