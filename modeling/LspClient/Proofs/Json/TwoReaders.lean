import LspClient.Proofs.Json.StandardReader

/-!
# The two readers agree

What is written for a value can be read in two ways. The library has its own reader, which goes
by tokens, and it can have any reader of the standard tell it events. On the text of a value
both give that value, if the value has a text at all and is no deeper than both of them go
(`agree_of_encode`). It does not matter which reader of the standard it is, as long as it
reports by the rules; the one that reads files does.

A document is read as an object or as an array by casting the value that it is, so the two
kinds are settled with the value.
-/

namespace LspClient.Json

open Standard (ReadError asMembers asItems)

/-- Reads a document that a reader tells, and casts its value into another form. -/
def readTold {α : Type} (told? : String → Option (List Event))
    (cast : Value → Except ReadError α) (text : String) : Except ReadError α :=
  match (told? text).bind Value.ofEvents? with
  | some v => cast v
  | none => .error .malformed

/-- What three ways to read a document make of one that is a certain value. Only an object and
null, which stands for the empty one, are read as objects, and only an array as an array. -/
structure ReadsAs (read : String → Except ReadError Value)
    (readObject : String → Except ReadError (Members Value))
    (readArray : String → Except ReadError (List Value)) (text : String) (v : Value) : Prop where
  value : read text = .ok v
  object : ∀ members, readObject text = .ok members ↔
    v = .object members ∨ v = .null ∧ members = []
  array : ∀ items, readArray text = .ok items ↔ v = .array items

theorem asMembers_eq_ok {v : Value} {members : Members Value} :
    asMembers v = .ok members ↔ v = .object members ∨ v = .null ∧ members = [] := by
  cases v with
  | object m => simp [asMembers]
  | null => simp [asMembers, eq_comm]
  | _ => simp [asMembers]

theorem asItems_eq_ok {v : Value} {items : List Value} :
    asItems v = .ok items ↔ v = .array items := by
  cases v with
  | array items' => simp [asItems]
  | _ => simp [asItems]

/-- Where each way casts the value, the casts decide. -/
theorem readsAs_of_casts {read : String → Except ReadError Value}
    {readObject : String → Except ReadError (Members Value)}
    {readArray : String → Except ReadError (List Value)} {text : String} {v : Value}
    (hvalue : read text = .ok v) (hobject : readObject text = asMembers v)
    (harray : readArray text = asItems v) : ReadsAs read readObject readArray text v where
  value := hvalue
  object members := by rw [hobject, asMembers_eq_ok]
  array items := by rw [harray, asItems_eq_ok]

section Encoded

variable {v : Value} (hkeys : v.hasDistinctKeys = true) (hfinite : v.hasFiniteFloats = true)
  (hdepth : v.depth ≤ Standard.maxDepth)

include hkeys hfinite hdepth

theorem readTold_encode {told? : String → Option (List Event)} (htold : Strict.Conforms told?)
    {α : Type} (cast : Value → Except ReadError α) :
    readTold told? cast (encode v) = cast v := by
  rw [readTold, told_encode htold hfinite hdepth, Option.bind_some, ofEvents?_inText hkeys]

theorem readAs_encode {α : Type} (cast : Value → Except ReadError α) :
    Standard.readAs cast (encode v) = cast v :=
  Standard.readAs_of_told cast (told_encode Standard.conforms_told? hfinite hdepth)
    (ofEvents?_inText hkeys)

end Encoded

/-- What is written for a value is read back as that value by the library's own reader, through
the events of any reader of the standard, and by the one that reads files. Its own events tell
it too. A document is an object or an array just if the value is one, or null for an object. -/
theorem agree_of_encode {told? : String → Option (List Event)} (htold : Strict.Conforms told?)
    {v : Value} (hkeys : v.hasDistinctKeys = true) (hfinite : v.hasFiniteFloats = true)
    (hdepth : v.depth ≤ maxDepth - 1) :
    decode (encode v) = .ok v ∧ Value.ofEvents? v.events = some v ∧
      ReadsAs (readTold told? .ok) (readTold told? asMembers) (readTold told? asItems)
        (encode v) v ∧
      ReadsAs Standard.read Standard.readObject Standard.readArray (encode v) v := by
  have hroom : v.depth ≤ Standard.maxDepth := hdepth
  refine ⟨decode_of_finite hkeys hfinite (Nat.le_trans hdepth (Nat.sub_le _ _)),
    ofEvents?_events hkeys, readsAs_of_casts ?_ ?_ ?_, readsAs_of_casts ?_ ?_ ?_⟩
  · exact readTold_encode hkeys hfinite hroom htold .ok
  · exact readTold_encode hkeys hfinite hroom htold asMembers
  · exact readTold_encode hkeys hfinite hroom htold asItems
  · exact readAs_encode hkeys hfinite hroom .ok
  · exact readAs_encode hkeys hfinite hroom asMembers
  · exact readAs_encode hkeys hfinite hroom asItems

/-- The greatest integers of either sign, a float that looks like one, a negative zero. -/
def numbersDocument : Value :=
  .object [("n", .array [.integer 0x7FFFFFFFFFFFFFFF, .integer (-0x8000000000000000),
    .float ⟨0x4000000000000000⟩, .float ⟨0x8000000000000000⟩]), ("", .object [("\"", .null)])]

theorem agree_numbersDocument :
    numbersDocument.hasDistinctKeys = true ∧ numbersDocument.hasFiniteFloats = true ∧
    numbersDocument.depth ≤ maxDepth - 1 ∧
    decode (encode numbersDocument) = .ok numbersDocument ∧
    Value.ofEvents? numbersDocument.events = some numbersDocument ∧
    ReadsAs (readTold Standard.told? .ok) (readTold Standard.told? asMembers)
      (readTold Standard.told? asItems) (encode numbersDocument) numbersDocument ∧
    ReadsAs Standard.read Standard.readObject Standard.readArray (encode numbersDocument)
      numbersDocument :=
  ⟨by decide, by decide, by decide,
    agree_of_encode Standard.conforms_told? (by decide) (by decide) (by decide)⟩

end LspClient.Json
