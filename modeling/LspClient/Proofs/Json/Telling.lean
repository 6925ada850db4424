import LspClient.Json.Event
import LspClient.Proofs.Json.RoundTrip

/-!
# What is told is heard

Whoever hears the events of a value builds that value, wherever the value stands, as long as
the keys of every object are distinct (`Heard.run_events`). A key that came twice would be
stored where it was, and the object would lose a member.

A reader of text tells integers otherwise than a value does. It goes by the minus sign, so
everything else is told as an unsigned integer. The builder hears no difference
(`Heard.run_inText`).

The induction follows the value. In a list what has been heard of it stands in the container
that is open, elements backwards, and it grows by the part that was told last.
-/

namespace LspClient.Json

/-! ## Integers in text -/

/-- How a text tells an event: without a minus sign an integer is unsigned. -/
def Event.inText : Event → Event
  | .signed n => if 0 ≤ n.toInt then .unsigned n.toUInt64 else .signed n
  | e => e

theorem toNat_toUInt64 {n : Int64} (h : 0 ≤ n.toInt) : (n.toUInt64.toNat : Int) = n.toInt := by
  have hmsb : n.toBitVec.msb = false := by
    rw [BitVec.msb_eq_toInt]
    exact decide_eq_false (Int.not_lt.2 h)
  exact (BitVec.toInt_eq_toNat_of_msb hmsb).symm

/-- An unsigned integer that is small enough is the signed one of the same bits. -/
theorem Value.ofUnsigned_toUInt64 {n : Int64} (h : 0 ≤ n.toInt) :
    Value.ofUnsigned n.toUInt64 = .integer n := by
  have hlt : n.toInt < (Numeral.signedBound : Int) := n.toInt_lt
  have hnat := toNat_toUInt64 h
  rw [Value.ofUnsigned, if_pos (by omega)]
  rfl

namespace Heard

theorem hear_inText (containers : List Unfinished) (e : Event) :
    hear containers e.inText = hear containers e := by
  cases e with
  | signed n =>
      rw [Event.inText]
      split
      · next h => rw [hear, hear, Value.ofUnsigned_toUInt64 h]
      · rfl
  | _ => rfl

/-- Nothing is lost when events are told in text. -/
theorem run_inText (heard : Heard) (es : List Event) :
    heard.run (es.map Event.inText) = heard.run es := by
  induction es generalizing heard with
  | nil => rfl
  | cons e rest ih =>
      cases heard with
      | done v => rfl
      | «open» containers =>
          rw [List.map_cons, run, run, hear_inText]
          cases hear containers e with
          | none => rfl
          | some next => exact ih next

/-! ## A value -/

/-- One event. -/
theorem run_cons {containers : List Unfinished} {e : Event} {heard : Heard}
    (h : hear containers e = some heard) (rest : List Event) :
    (Heard.open containers).run (e :: rest) = heard.run rest := by
  rw [run, h]

mutual

/-- The events of a value lead where the value leads. -/
theorem run_events (v : Value) (hkeys : v.hasDistinctKeys = true) {containers : List Unfinished}
    {heard : Heard} (h : complete v containers = some heard) (rest : List Event) :
    (Heard.open containers).run (v.events ++ rest) = heard.run rest := by
  match v with
  | .null => exact run_cons (e := .null) h rest
  | .bool b => exact run_cons (e := .bool b) h rest
  | .integer n => exact run_cons (e := .signed n) h rest
  | .float x => exact run_cons (e := .float x) h rest
  | .string s => exact run_cons (e := .text s) h rest
  | .array items =>
      rw [Value.hasDistinctKeys] at hkeys
      rw [Value.events, List.cons_append, run_cons rfl]
      exact run_eventsOfItems items hkeys [] h rest
  | .object members =>
      rw [Value.hasDistinctKeys] at hkeys
      rw [Value.events, List.cons_append, run_cons rfl]
      exact run_eventsOfMembers members hkeys [] (fun _ _ => List.not_mem_nil) h rest

theorem run_eventsOfItems (items : List Value) (hkeys : Value.distinctInItems items = true)
    (done : List Value) {outer : List Unfinished} {heard : Heard}
    (h : complete (.array (done.reverse ++ items)) outer = some heard) (rest : List Event) :
    (Heard.open (.array done :: outer)).run (Value.eventsOfItems items ++ rest) =
      heard.run rest := by
  match items with
  | [] =>
      rw [List.append_nil] at h
      have hend : hear (.array done :: outer) .endArray = some heard := h
      exact run_cons hend rest
  | v :: items =>
      obtain ⟨hv, hitems⟩ := Value.distinctInItems_cons.1 hkeys
      rw [Value.eventsOfItems, List.append_assoc, run_events v hv rfl]
      refine run_eventsOfItems items hitems (v :: done) ?_ rest
      rwa [List.reverse_cons, List.append_assoc]

theorem run_eventsOfMembers (members : List (String × Value))
    (hkeys : Value.distinctInMembers members = true) (done : Members Value)
    (hnew : ∀ key ∈ Members.keys members, key ∉ done.keys) {outer : List Unfinished}
    {heard : Heard} (h : complete (.object (done ++ members)) outer = some heard)
    (rest : List Event) :
    (Heard.open (.object done :: outer)).run (Value.eventsOfMembers members ++ rest) =
      heard.run rest := by
  match members with
  | [] =>
      rw [List.append_nil] at h
      have hend : hear (.object done :: outer) .endObject = some heard := h
      exact run_cons hend rest
  | (key, v) :: members =>
      obtain ⟨hkey, hv, hmembers⟩ := Value.distinctInMembers_cons.1 hkeys
      -- only a key that is not there yet is stored at the end
      have hset : done.set key v = done ++ [(key, v)] :=
        Members.set_of_notMem (hnew key List.mem_cons_self) v
      have hstillNew : ∀ k ∈ Members.keys members, k ∉ Members.keys (done ++ [(key, v)]) :=
        fun k hk => Members.notMem_keys_concat (hnew k (List.mem_cons_of_mem key hk))
          (ne_of_mem_of_not_mem hk hkey) v
      have hmember : complete v (.member done key :: outer) =
          some (.open (.object (done ++ [(key, v)]) :: outer)) := by
        rw [complete, hset]
      rw [Value.eventsOfMembers, List.cons_append, List.cons_append, List.append_assoc,
        run_cons rfl, run_events v hv hmember]
      refine run_eventsOfMembers members hmembers (done ++ [(key, v)]) hstillNew ?_ rest
      rwa [List.append_assoc]

end

end Heard

/-- The events of a value tell the value. -/
theorem ofEvents?_events {v : Value} (hkeys : v.hasDistinctKeys = true) :
    Value.ofEvents? v.events = some v := by
  have h : (Heard.open []).run (v.events ++ []) = (Heard.done v).run [] :=
    Heard.run_events v hkeys rfl []
  rwa [List.append_nil] at h

/-- So do they in text. -/
theorem ofEvents?_inText {v : Value} (hkeys : v.hasDistinctKeys = true) :
    Value.ofEvents? (v.events.map Event.inText) = some v := by
  rw [Value.ofEvents?, Heard.run_inText]
  exact ofEvents?_events hkeys

end LspClient.Json
