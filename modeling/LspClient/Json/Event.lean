import LspClient.Text.Numeral
import LspClient.Json.Value

/-!
# Values as events

The form in which a value passes from one format to another. A value is told
as a sequence of events, one for each scalar, key and bracket, and whoever
hears them builds the value again. Integers are told as they come, signed or
unsigned, and it is the builder that decides which of them this library holds
exactly: an integer beyond 64 signed bits becomes the float nearest to it.

The builder's state is the list of containers that are open, from the inside
out, so a sequence of events is run in one pass over it.
-/

namespace LspClient.Json

/-- One event. -/
inductive Event where
  | null
  | bool (b : Bool)
  | signed (n : Int64)
  | unsigned (n : UInt64)
  | float (x : Binary64)
  | text (s : String)
  | beginArray
  | endArray
  | beginObject
  | key (s : String)
  | endObject
  deriving DecidableEq

namespace Value

/-- The value of an unsigned 64-bit integer. -/
def ofUnsigned (n : UInt64) : Value :=
  if n.toNat < Numeral.signedBound then .integer n.toInt64 else .float (.ofInt n.toNat)

mutual

/-- The events that tell a value. -/
def events : Value → List Event
  | .null => [.null]
  | .bool b => [.bool b]
  | .integer n => [.signed n]
  | .float x => [.float x]
  | .string s => [.text s]
  | .array items => .beginArray :: eventsOfItems items
  | .object members => .beginObject :: eventsOfMembers members

def eventsOfItems : List Value → List Event
  | [] => [.endArray]
  | v :: rest => events v ++ eventsOfItems rest

def eventsOfMembers : List (String × Value) → List Event
  | [] => [.endObject]
  | (key, v) :: rest => .key key :: events v ++ eventsOfMembers rest

end

end Value

/-- A container that is being built. Elements are listed backwards. -/
inductive Unfinished where
  | array (items : List Value)
  | object (members : Members Value)
  /-- an object whose next event starts the value of a key -/
  | member (members : Members Value) (key : String)

/-- What has been heard so far. -/
inductive Heard where
  | open (containers : List Unfinished)
  | done (v : Value)

namespace Heard

/-- Where a complete value leads. Between the members of an object it has no
place. -/
def complete (v : Value) : List Unfinished → Option Heard
  | [] => some (.done v)
  | .array items :: outer => some (.open (.array (v :: items) :: outer))
  | .member members key :: outer => some (.open (.object (members.set key v) :: outer))
  | .object _ :: _ => none

/-- One event. -/
def hear (containers : List Unfinished) : Event → Option Heard
  | .null => complete .null containers
  | .bool b => complete (.bool b) containers
  | .signed n => complete (.integer n) containers
  | .unsigned n => complete (Value.ofUnsigned n) containers
  | .float x => complete (.float x) containers
  | .text s => complete (.string s) containers
  | .beginArray => some (.open (.array [] :: containers))
  | .beginObject => some (.open (.object [] :: containers))
  | .key key =>
    match containers with
    | .object members :: outer => some (.open (.member members key :: outer))
    | _ => none
  | .endArray =>
    match containers with
    | .array items :: outer => complete (.array items.reverse) outer
    | _ => none
  | .endObject =>
    match containers with
    | .object members :: outer => complete (.object members) outer
    | _ => none

/-- A sequence of events. Nothing may follow a complete value. -/
def run : Heard → List Event → Option Value
  | .done v, [] => some v
  | .done _, _ :: _ => none
  | .open _, [] => none
  | .open containers, e :: rest =>
    match hear containers e with
    | some heard => run heard rest
    | none => none

end Heard

/-- How JSON tells an event. A float that is no finite number has no numeral
there and is told as null. -/
def Event.inJson : Event → Event
  | .float x => if x.isFinite then .float x else .null
  | e => e

namespace Value

/-- The value that a sequence of events tells. -/
def ofEvents? (es : List Event) : Option Value :=
  (Heard.open []).run es

/-- What is left of a value that was told in JSON. -/
def retold? (v : Value) : Option Value :=
  ofEvents? (v.events.map Event.inJson)

end Value

end LspClient.Json
