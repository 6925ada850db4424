import LspClient.Number.Decimal
import LspClient.Json.Token
import LspClient.Json.Value

/-!
# Reading JSON text

The tokens of a text are read one at a time by a machine whose state says what
may come next and which containers are open. Every state can still be
completed to a document, so the first token that the machine refuses is the
first problem of the text. Because the open containers are a list in the
state, the limit on nesting is a limit on the length of that list, and closing
a container gives its level back.

The language is somewhat wider than the standard's: numerals may have leading
zeros and bare points, and texts may hold raw control characters.
-/

namespace LspClient.Json

/-- How deep containers may nest. -/
def maxDepth : Nat := 128

/-! ## Atoms -/

/-- The characters of numerals. -/
def isNumeralChar (c : Char) : Bool :=
  c.isDigit || c == '-' || c == '+' || c == '.' || c == 'e' || c == 'E'

/-- The marks that make a numeral a float. -/
def isFloatMark (c : Char) : Bool :=
  c == '.' || c == 'e' || c == 'E'

/-- Whether a numeral may start like this. -/
def startsNumeral : List Char → Bool
  | c :: _ => c.isDigit || c == '-'
  | [] => false

/-- The number nearest to what a numeral denotes. -/
def float? (cs : List Char) : Option Value :=
  (Decimal.read? cs).map fun d => .float d.toBinary64

/-- The number that an atom is. A numeral without a fraction or exponent is an
integer if it fits, and otherwise a float. -/
def number? (cs : List Char) : Option Value :=
  if startsNumeral cs && cs.all isNumeralChar then
    if cs.any isFloatMark then float? cs
    else
      match Numeral.signed? cs with
      | some n => some (.integer n)
      | none => float? cs
  else none

/-- The value that an atom is. -/
def ofAtom? (word : String) : Option Value :=
  if word = "true" then some (.bool true)
  else if word = "false" then some (.bool false)
  else if word = "null" then some .null
  else number? word.toList

/-! ## The machine -/

/-- An open container that waits for the value of an element or member.
Elements are listed backwards. -/
inductive Pending where
  | element (items : List Value)
  | member (members : Members Value) (key : String)

/-- What may come next. The open containers are listed from the inside out. -/
inductive Stage where
  /-- a value -/
  | value (waiting : List Pending)
  /-- the first element of an array, or its end -/
  | firstElement (outer : List Pending)
  /-- the first key of an object, or its end -/
  | firstKey (outer : List Pending)
  /-- another key -/
  | anotherKey (members : Members Value) (outer : List Pending)
  /-- the colon after a key -/
  | colon (members : Members Value) (key : String) (outer : List Pending)
  /-- a comma or the end of an array -/
  | elementEnd (items : List Value) (outer : List Pending)
  /-- a comma or the end of an object -/
  | memberEnd (members : Members Value) (outer : List Pending)
  /-- nothing -/
  | finished (v : Value)

namespace Stage

/-- Where a complete value leads. -/
def complete (v : Value) : List Pending → Stage
  | [] => .finished v
  | .element items :: outer => .elementEnd (v :: items) outer
  | .member members key :: outer => .memberEnd (members.set key v) outer

/-- The refusal of a token. -/
def unexpected (t : Located) (expected : String) : DecodeError :=
  .unexpectedToken t.token.describe expected t.offset

/-- A container opens, unless that is one level too many. -/
def enter (waiting : List Pending) (offset : Nat) (inside : Stage) :
    Except DecodeError Stage :=
  if waiting.length < maxDepth then .ok inside else .error (.tooDeep maxDepth offset)

/-- A token where a value starts. -/
def startValue (waiting : List Pending) (t : Located) : Except DecodeError Stage :=
  match t.token with
  | .beginObject => enter waiting t.offset (.firstKey waiting)
  | .beginArray => enter waiting t.offset (.firstElement waiting)
  | .string text => .ok (complete (.string text) waiting)
  | .atom word =>
    match ofAtom? word with
    | some v => .ok (complete v waiting)
    | none => .error (.invalidLiteral word t.offset)
  | _ => .error (unexpected t "a value")

/-- A token where a key stands. -/
def startMember (members : Members Value) (outer : List Pending) (t : Located) :
    Except DecodeError Stage :=
  match t.token with
  | .string text => .ok (.colon members text outer)
  | _ => .error (unexpected t "a string key")

/-- One token. -/
def step (s : Stage) (t : Located) : Except DecodeError Stage :=
  match s with
  | .value waiting => startValue waiting t
  | .firstElement outer =>
    if t.token = .endArray then .ok (complete (.array []) outer)
    else startValue (.element [] :: outer) t
  | .firstKey outer =>
    if t.token = .endObject then .ok (complete (.object []) outer)
    else startMember [] outer t
  | .anotherKey members outer => startMember members outer t
  | .colon members key outer =>
    match t.token with
    | .colon => .ok (.value (.member members key :: outer))
    | _ => .error (unexpected t "':'")
  | .elementEnd items outer =>
    match t.token with
    | .comma => .ok (.value (.element items :: outer))
    | .endArray => .ok (complete (.array items.reverse) outer)
    | _ => .error (unexpected t "',' or ']'")
  | .memberEnd members outer =>
    match t.token with
    | .comma => .ok (.anotherKey members outer)
    | .endObject => .ok (complete (.object members) outer)
    | _ => .error (unexpected t "',' or '\x7d'")
  | .finished _ => .error (.trailingCharacters t.offset)

/-- The end of a text that is `length` octets long. -/
def finish (s : Stage) (length : Nat) : Except DecodeError Value :=
  let missing (expected : String) : DecodeError :=
    .unexpectedToken "end of input" expected length
  match s with
  | .finished v => .ok v
  | .value _ => .error (.unexpectedEnd length)
  | .firstElement _ => .error (.unexpectedEnd length)
  | .firstKey _ => .error (missing "a string key")
  | .anotherKey _ _ => .error (missing "a string key")
  | .colon _ _ _ => .error (missing "':'")
  | .elementEnd _ _ => .error (missing "',' or ']'")
  | .memberEnd _ _ => .error (missing "',' or '\x7d'")

/-- The rest of a text that is `length` octets long. -/
def run (length : Nat) (s : Stage) : List (Except DecodeError Located) → Except DecodeError Value
  | [] => s.finish length
  | .error e :: _ => .error e
  | .ok t :: rest =>
    match s.step t with
    | .ok s => run length s rest
    | .error e => .error e

end Stage

/-- Reads a document, or says what is the first problem with it. -/
def decode (text : String) : Except DecodeError Value :=
  Stage.run text.utf8ByteSize (.value []) (tokens text.toList)

/-- Reads a document from a peer who is not trusted to write one: what is no
document is `null`. -/
def decodeSoft (text : String) : Value :=
  match decode text with
  | .ok v => v
  | .error _ => .null

end LspClient.Json
