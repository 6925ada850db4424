import LspClient.Number.Decimal
import LspClient.Json.Quoted
import LspClient.Json.Value

/-!
# Writing JSON text

One line, with a blank after each comma and each colon. Members and elements
are written in their order. Floats always have a point, so that they read back
as floats; those that are no finite number have no spelling and are written as
`null`. The text is plain JSON of the standard.
-/

namespace LspClient.Json

/-- The text of a float: positional, with a fraction even where it is zero. -/
def writeFloat (x : Binary64) : List Char :=
  if x.isFinite then
    let text := Decimal.text x
    if text.contains '.' then text else text ++ ['.', '0']
  else ['n', 'u', 'l', 'l']

mutual

/-- The text of a value. -/
def write : Value → List Char
  | .null => ['n', 'u', 'l', 'l']
  | .bool true => ['t', 'r', 'u', 'e']
  | .bool false => ['f', 'a', 'l', 's', 'e']
  | .integer n => Numeral.ofSigned n
  | .float x => writeFloat x
  | .string s => Quoted.write s
  | .array [] => ['[', ']']
  | .array (v :: items) => '[' :: write v ++ writeElements items
  | .object [] => ['{', '}']
  | .object ((key, v) :: members) =>
    '{' :: Quoted.write key ++ ':' :: ' ' :: write v ++ writeMembers members

/-- The elements after the first, and the end of the array. -/
def writeElements : List Value → List Char
  | [] => [']']
  | v :: items => ',' :: ' ' :: write v ++ writeElements items

/-- The members after the first, and the end of the object. -/
def writeMembers : List (String × Value) → List Char
  | [] => ['}']
  | (key, v) :: members =>
    ',' :: ' ' :: Quoted.write key ++ ':' :: ' ' :: write v ++ writeMembers members

end

/-- The text of a value. -/
def encode (v : Value) : String :=
  String.ofList (write v)

end LspClient.Json
