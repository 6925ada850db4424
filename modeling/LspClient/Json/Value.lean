import LspClient.Number.Binary64
import LspClient.Json.Members

/-!
# JSON values

A tree of nulls, booleans, numbers, texts, arrays and objects. Numbers come in
two kinds that never mix: a numeral without fraction or exponent that fits 64
bits is an *integer*, every other number is a *float*.

Lookups are fail-soft. Asking for a member that is not there, for an element
past the end, or for a part of a value that has none gives `null`, so a chain
of lookups into a peer's message always has an answer. Updates of a value of
the wrong kind change nothing.
-/

namespace LspClient.Json

/-- A JSON value. -/
inductive Value where
  | null
  | bool (b : Bool)
  | integer (n : Int64)
  | float (x : Binary64)
  | string (s : String)
  | array (items : List Value)
  | object (members : List (String × Value))

namespace Value

instance : Inhabited Value := ⟨.null⟩

/-! ## Kinds -/

/-- The name of a value's kind, for messages. -/
def kind : Value → String
  | .null => "null"
  | .bool _ => "boolean"
  | .integer _ => "integer"
  | .float _ => "float"
  | .string _ => "string"
  | .array _ => "array"
  | .object _ => "object"

def isNull : Value → Bool
  | .null => true
  | _ => false

def isObject : Value → Bool
  | .object _ => true
  | _ => false

def isArray : Value → Bool
  | .array _ => true
  | _ => false

def isContainer (v : Value) : Bool :=
  v.isObject || v.isArray

def bool? : Value → Option Bool
  | .bool b => some b
  | _ => none

def integer? : Value → Option Int64
  | .integer n => some n
  | _ => none

/-- The number as a float. Integers widen to the nearest one. -/
def float? : Value → Option Binary64
  | .float x => some x
  | .integer n => some (.ofSigned n)
  | _ => none

def string? : Value → Option String
  | .string s => some s
  | _ => none

def members? : Value → Option (Members Value)
  | .object m => some m
  | _ => none

def items? : Value → Option (List Value)
  | .array items => some items
  | _ => none

/-- How many parts a container has. Other values have none. -/
def size : Value → Nat
  | .array items => items.length
  | .object m => m.length
  | _ => 0

/-! ## Lookups -/

/-- The member with a key, if this is an object that has it. -/
def member? (v : Value) (key : String) : Option Value :=
  v.members?.bind fun m => m.get? key

/-- The element at an index, if this is an array that reaches so far. -/
def item? (v : Value) (index : Nat) : Option Value :=
  v.items?.bind fun items => items[index]?

/-- The member with a key, or `null`. -/
def member (v : Value) (key : String) : Value :=
  (v.member? key).getD .null

/-- The element at an index, or `null`. -/
def item (v : Value) (index : Nat) : Value :=
  (v.item? index).getD .null

/-! ## Updates -/

/-- Stores a member in an object. -/
def set (v : Value) (key : String) (part : Value) : Value :=
  match v with
  | .object m => .object (Members.set m key part)
  | _ => v

/-- Overwrites a member that an object has. -/
def replaceMember (v : Value) (key : String) (part : Value) : Value :=
  match v with
  | .object m => .object (Members.replace m key part)
  | _ => v

/-- Removes a member of an object. -/
def remove (v : Value) (key : String) : Value :=
  match v with
  | .object m => .object (Members.remove m key)
  | _ => v

/-- Works on the members of an object and hands out what they give. Other values give
nothing. -/
def onMembers (v : Value) (work : Members Value → Option Value × Members Value) :
    Option Value × Value :=
  match v with
  | .object m => let (given, m) := work m; (given, .object m)
  | _ => (none, v)

/-- Appends an element to an array. -/
def push (v : Value) (part : Value) : Value :=
  match v with
  | .array items => .array (items ++ [part])
  | _ => v

/-- Overwrites an element that an array has. -/
def replaceItem (v : Value) (index : Nat) (part : Value) : Value :=
  match v with
  | .array items => .array (items.set index part)
  | _ => v

/-! ## Equality

Values are compared part by part in order. Floats are compared as numbers, so
a value that holds something that is not a number differs from itself, and an
integer equals no float. -/

mutual

/-- Whether two values are equal. -/
def eq : Value → Value → Bool
  | .null, .null => true
  | .bool a, .bool b => a == b
  | .integer a, .integer b => a == b
  | .float a, .float b => a.eq b
  | .string a, .string b => a == b
  | .array a, .array b => eqItems a b
  | .object a, .object b => eqMembers a b
  | _, _ => false

def eqItems : List Value → List Value → Bool
  | [], [] => true
  | a :: as, b :: bs => eq a b && eqItems as bs
  | _, _ => false

def eqMembers : List (String × Value) → List (String × Value) → Bool
  | [], [] => true
  | (k, a) :: as, (l, b) :: bs => k == l && eq a b && eqMembers as bs
  | _, _ => false

end

end Value

end LspClient.Json
