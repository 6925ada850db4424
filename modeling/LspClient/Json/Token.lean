import LspClient.Json.Quoted

/-!
# Tokens of JSON text

A text is cut into structural characters, quoted texts and *atoms*. An atom is
a longest run of characters that are neither blank nor structural; whether it
is a number or a name is not decided here. Tokens carry the offset, in octets,
at which they start, and cutting goes on until the text ends or a quoted text
turns out to be broken.
-/

namespace LspClient.Json

/-- A token. -/
inductive Token where
  | beginObject
  | endObject
  | beginArray
  | endArray
  | comma
  | colon
  | string (text : String)
  | atom (word : String)
  deriving DecidableEq, Repr

/-- A token with the offset of its first octet. -/
structure Located where
  offset : Nat
  token : Token
  deriving DecidableEq, Repr

namespace Token

/-- The token as an error message shows it. -/
def describe : Token → String
  | .beginObject => "'\x7b'"
  | .endObject => "'\x7d'"
  | .beginArray => "'['"
  | .endArray => "']'"
  | .comma => "','"
  | .colon => "':'"
  | .string text => "string \"" ++ text ++ "\""
  | .atom word => "'" ++ word ++ "'"

/-- The blanks of JSON text: four of them are the standard's, the form feed is
accepted as well. -/
def isBlank (c : Char) : Bool :=
  c == ' ' || c == '\t' || c == '\n' || c == '\x0c' || c == '\r'

/-- The characters that end an atom, blanks apart. -/
def isDelimiter (c : Char) : Bool :=
  c == '{' || c == '}' || c == '[' || c == ']' || c == ',' || c == ':' || c == '"'

/-- The characters that atoms are made of. -/
def isAtomChar (c : Char) : Bool :=
  !isBlank c && !isDelimiter c

/-- The token that a structural character is. -/
def structural? (c : Char) : Option Token :=
  if c = '{' then some .beginObject
  else if c = '}' then some .endObject
  else if c = '[' then some .beginArray
  else if c = ']' then some .endArray
  else if c = ',' then some .comma
  else if c = ':' then some .colon
  else none

/-- How many octets a row of characters takes. -/
def width : List Char → Nat
  | [] => 0
  | c :: cs => c.utf8Size + width cs

end Token

/-- A place in a text: the offset in octets, and the characters from there
on. -/
structure Cursor where
  offset : Nat
  rest : List Char

namespace Cursor

/-- The start of a text. -/
def start (text : List Char) : Cursor :=
  ⟨0, text⟩

/-- The next place that holds no blank. -/
def skipBlanks (place : Cursor) : Cursor :=
  ⟨place.offset + (place.rest.takeWhile Token.isBlank).length,
    place.rest.dropWhile Token.isBlank⟩

/-- The item at a place that holds no blank, and the place behind it. A broken
text leaves nothing behind it. -/
def item? (place : Cursor) : Option (Except DecodeError Located × Cursor) :=
  match place.rest with
  | [] => none
  | c :: cs =>
    match Token.structural? c with
    | some token => some (.ok ⟨place.offset, token⟩, ⟨place.offset + 1, cs⟩)
    | none =>
      if c = '"' then
        match Quoted.read place.offset [] (place.offset + 1) cs with
        | .ok reading =>
          some (.ok ⟨place.offset, .string (String.ofList reading.text)⟩,
            ⟨reading.offset, reading.rest⟩)
        | .error e => some (.error e, ⟨place.offset + Token.width place.rest, []⟩)
      else
        let word := c :: cs.takeWhile Token.isAtomChar
        some (.ok ⟨place.offset, .atom (String.ofList word)⟩,
          ⟨place.offset + Token.width word, cs.dropWhile Token.isAtomChar⟩)

/-- The next item of the text. -/
def next? (place : Cursor) : Option (Except DecodeError Located × Cursor) :=
  place.skipBlanks.item?

/-! ## Every item is progress -/

theorem item?_length {place after : Cursor} {item : Except DecodeError Located}
    (h : place.item? = some (item, after)) : after.rest.length < place.rest.length := by
  rw [item?] at h
  split at h
  · simp at h
  next c cs hrest =>
    rw [hrest]
    split at h
    · simp at h; simp [← h.2]
    split at h
    · split at h
      · next reading hread =>
        simp at h
        have := Quoted.rest_length_of_read hread
        simp [← h.2]
        omega
      · simp at h; simp [← h.2]
    next hstructural hquote =>
      simp only [Option.some.injEq, Prod.mk.injEq] at h
      rw [← h.2, List.length_cons]
      exact Nat.lt_succ_of_le (List.dropWhile_sublist _).length_le

theorem next?_length {place after : Cursor} {item : Except DecodeError Located}
    (h : place.next? = some (item, after)) : after.rest.length < place.rest.length :=
  Nat.lt_of_lt_of_le (item?_length h) (List.dropWhile_sublist _).length_le

/-- The items from a place on, after those in `seen`, which are listed
backwards. -/
def itemsOnto (seen : List (Except DecodeError Located)) (place : Cursor) :
    List (Except DecodeError Located) :=
  match _h : place.next? with
  | none => seen.reverse
  | some (item, after) => itemsOnto (item :: seen) after
termination_by place.rest.length
decreasing_by exact next?_length _h

/-- The items from a place on. -/
def items (place : Cursor) : List (Except DecodeError Located) :=
  itemsOnto [] place

theorem itemsOnto_eq (seen : List (Except DecodeError Located)) (place : Cursor) :
    itemsOnto seen place = seen.reverse ++ items place := by
  rw [items, itemsOnto, itemsOnto.eq_def []]
  split
  · simp
  · next item after h =>
    rw [itemsOnto_eq (item :: seen) after, itemsOnto_eq [item] after]
    simp
termination_by place.rest.length
decreasing_by all_goals exact next?_length ‹_›

end Cursor

/-- The items of a text: its tokens, and at the end perhaps the reason why
there are no more. -/
def tokens (text : List Char) : List (Except DecodeError Located) :=
  (Cursor.start text).items

end LspClient.Json
