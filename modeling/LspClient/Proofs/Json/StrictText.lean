import LspClient.Proofs.Json.RoundTrip
import LspClient.Proofs.Json.StrictGrammar
import LspClient.Proofs.Number.Rounding

/-!
# What is written is strict

Every value is written as a text of the strict grammar, and the one datum that this text says
is the value, with null for the floats that are no finite numbers. How deep the value is and
whether its keys are distinct makes no difference.

The reader is no judge of this. It takes texts that the standard refuses, such as numbers with
spare zeros or without digits on one side of the point and strings with raw control
characters, and would read them back.
-/

namespace LspClient.Json

namespace Strict

mutual

/-- What a datum means among values. A number is exactly an integer, or it is a float that it
rounds to. Everything else is itself, in the same order. -/
inductive Means : Datum → Value → Prop
  | null : Means .null .null
  | bool (b : Bool) : Means (.bool b) (.bool b)
  | integer {d : Decimal} {n : Int64} (h : d.toRat = n.toInt) : Means (.number d) (.integer n)
  | float {d : Decimal} {x : Binary64} (h : d.RoundsTo x) : Means (.number d) (.float x)
  | string (s : String) : Means (.string s) (.string s)
  | array {items : List Datum} {vs : List Value} (h : List.Forall₂ Means items vs) :
      Means (.array items) (.array vs)
  | object {members : List (String × Datum)} {ms : List (String × Value)}
      (h : List.Forall₂ MeansMember members ms) : Means (.object members) (.object ms)

/-- A member has the same key. -/
inductive MeansMember : String × Datum → String × Value → Prop
  | intro (key : String) {d : Datum} {v : Value} (h : Means d v) : MeansMember (key, d) (key, v)

end

/-! ## Numbers -/

theorem whole_of_noSpareZero {whole : List Char} (h : Numeral.isDigits whole = true)
    (hzero : ∀ c cs, whole ≠ '0' :: c :: cs) : Whole whole := by
  have hdigits := Numeral.isDigit_of_isDigits h
  cases whole with
  | nil => cases h
  | cons c cs =>
      by_cases hc : c = '0'
      · cases cs with
        | nil => exact hc ▸ .zero
        | cons d ds => exact absurd (by rw [hc]) (hzero d ds)
      · exact .digits (hdigits c List.mem_cons_self) hc
          fun d hd => hdigits d (List.mem_cons_of_mem c hd)

theorem whole_digits (n : Nat) : Whole (Numeral.digits n) := by
  refine whole_of_noSpareZero (Numeral.isDigits_digits n) fun c cs heq => ?_
  have hn : n = 0 := Classical.byContradiction fun hn => Numeral.digits_ne_zero_cons hn _ heq
  rw [hn] at heq
  cases heq

theorem number_digits (negative : Bool) (n : Nat) :
    Number (Decimal.sign negative ++ Numeral.digits n) ⟨negative, n, 0⟩ := by
  have h := Number.intro negative (whole_digits n) .absent .absent
  simpa [Numeral.value_digits] using h

theorem toRat_integer (negative : Bool) (n : Nat) :
    Decimal.toRat ⟨negative, n, 0⟩ = if negative then -(n : ℚ) else n := by
  cases negative <;> simp [Decimal.toRat]

theorem number_integer (n : Int64) :
    ∃ d, Number (Numeral.ofSigned n) d ∧ d.toRat = n.toInt := by
  rw [Numeral.ofSigned]
  cases n.toInt with
  | ofNat k => exact ⟨_, number_digits false k, toRat_integer false k⟩
  | negSucc k =>
      refine ⟨_, number_digits true (k + 1), ?_⟩
      rw [toRat_integer, if_pos rfl, Int.cast_negSucc]

theorem number_float {x : Binary64} (h : x.isFinite = true) :
    ∃ d, Number (writeFloat x) d ∧ d.RoundsTo x := by
  obtain ⟨whole, fraction, htext, hspells⟩ := writeFloat_eq h
  have hwhole := whole_of_noSpareZero hspells.isWhole hspells.noSpareZero
  have hnumber := Number.intro x.isNegative hwhole (.digits hspells.isFraction) .absent
  rw [List.append_nil, ← htext, Int.zero_sub] at hnumber
  exact ⟨_, hnumber, Decimal.roundsTo_of_magnitude rfl hspells.denotes h⟩

/-! ## Strings -/

theorem spelling_numericEscape {c : Char} (h : c < ' ') :
    Spelling (Quoted.numericEscape c.toNat) c := by
  have hlt : c.toNat < 32 := h
  obtain ⟨hhigh, hlow⟩ := Quoted.not_surrogate (Nat.lt_trans hlt (by decide))
  have hspelling := Spelling.numeric (Quoted.hex4?_digits (Nat.lt_trans hlt (by decide)) [])
    hhigh hlow
  rwa [Char.ofNat_toNat] at hspelling

theorem spelling_escape (c : Char) : Spelling (Quoted.escape c) c := by
  rw [Quoted.escape]
  split
  · next h => exact h ▸ .quote
  split
  · next h => exact h ▸ .backslash
  split
  · next h => exact h ▸ .lineFeed
  split
  · next h => exact h ▸ .carriageReturn
  split
  · next h => exact h ▸ .tab
  split
  · next h => exact h ▸ .backspace
  split
  · next h => exact h ▸ .formFeed
  split
  · next h => exact spelling_numericEscape h
  · next hquote hescape _ _ _ _ _ hcontrol => exact .plain (Char.not_lt.1 hcontrol) hquote hescape

theorem content_escape (cs : List Char) : Content (cs.flatMap Quoted.escape) cs := by
  induction cs with
  | nil => exact .nil
  | cons c cs ih => exact .cons (spelling_escape c) ih

theorem quotation_write (s : String) : Quotation (Quoted.write s) s := by
  have h := Quotation.intro (content_escape s.toList)
  rwa [String.ofList_toList] at h

/-! ## Values -/

theorem structural_plain (c : Char) : Structural c [c] :=
  show Structural c ([] ++ [c]) from .intro (List.forall_mem_nil _) (List.forall_mem_nil _)

theorem structural_blank (c : Char) : Structural c [c, ' '] :=
  show Structural c ([] ++ [c, ' ']) from
    .intro (List.forall_mem_nil _) (List.forall_mem_singleton.2 rfl)

mutual

/-- The text of a value derives, and says the value. -/
theorem isValue_write (v : Value) : ∃ d, IsValue (write v) d ∧ Means d v.inJson := by
  match v with
  | .null => exact ⟨_, .null, .null⟩
  | .bool true => exact ⟨_, .true, .bool _⟩
  | .bool false => exact ⟨_, .false, .bool _⟩
  | .integer n =>
      obtain ⟨d, hnumber, hd⟩ := number_integer n
      rw [write, Value.inJson]
      exact ⟨_, .number hnumber, .integer hd⟩
  | .float x =>
      rw [write, Value.inJson]
      cases hx : x.isFinite with
      | true =>
          obtain ⟨d, hnumber, hd⟩ := number_float hx
          exact ⟨_, .number hnumber, .float hd⟩
      | false =>
          rw [writeFloat, hx]
          exact ⟨_, .null, .null⟩
  | .string s =>
      rw [write, Value.inJson]
      exact ⟨_, .string (quotation_write s), .string s⟩
  | .array [] =>
      rw [write, Value.inJson, Value.itemsInJson]
      exact ⟨_, .array (structural_plain '[') .empty (structural_plain ']'), .array .nil⟩
  | .array (v :: items) =>
      obtain ⟨d, hv, hd⟩ := isValue_write v
      obtain ⟨others, closing, ds, htext, hothers, hclosing, hds⟩ := others_writeElements items
      have hderived := IsValue.array (structural_plain '[') (.parts hv hothers) hclosing
      rw [write, htext, Value.inJson, Value.itemsInJson]
      exact ⟨_, by simpa using hderived, .array (.cons hd hds)⟩
  | .object [] =>
      rw [write, Value.inJson, Value.membersInJson]
      exact ⟨_, .object (structural_plain '{') .empty (structural_plain '}'), .object .nil⟩
  | .object ((key, v) :: members) =>
      obtain ⟨d, hv, hd⟩ := isValue_write v
      obtain ⟨others, closing, ds, htext, hothers, hclosing, hds⟩ := others_writeMembers members
      have hmember := IsMember.intro (quotation_write key) (structural_blank ':') hv
      have hderived := IsValue.object (structural_plain '{') (.parts hmember hothers) hclosing
      rw [write, htext, Value.inJson, Value.membersInJson]
      exact ⟨_, by simpa using hderived, .object (.cons (.intro key hd) hds)⟩

theorem others_writeElements (items : List Value) : ∃ others closing ds,
    writeElements items = others ++ closing ∧ Others IsValue others ds ∧
      Structural ']' closing ∧ List.Forall₂ Means ds (Value.itemsInJson items) := by
  match items with
  | [] =>
      rw [writeElements, Value.itemsInJson]
      exact ⟨[], _, [], rfl, .nil, structural_plain ']', .nil⟩
  | v :: items =>
      obtain ⟨d, hv, hd⟩ := isValue_write v
      obtain ⟨others, closing, ds, htext, hothers, hclosing, hds⟩ := others_writeElements items
      rw [writeElements, htext, Value.itemsInJson]
      exact ⟨_, closing, _, by simp, .cons (structural_blank ',') hv hothers, hclosing,
        .cons hd hds⟩

theorem others_writeMembers (members : List (String × Value)) : ∃ others closing ds,
    writeMembers members = others ++ closing ∧ Others IsMember others ds ∧
      Structural '}' closing ∧ List.Forall₂ MeansMember ds (Value.membersInJson members) := by
  match members with
  | [] =>
      rw [writeMembers, Value.membersInJson]
      exact ⟨[], _, [], rfl, .nil, structural_plain '}', .nil⟩
  | (key, v) :: members =>
      obtain ⟨d, hv, hd⟩ := isValue_write v
      obtain ⟨others, closing, ds, htext, hothers, hclosing, hds⟩ := others_writeMembers members
      rw [writeMembers, htext, Value.membersInJson]
      have hmember := IsMember.intro (quotation_write key) (structural_blank ':') hv
      exact ⟨_, closing, _, by simp, .cons (structural_blank ',') hmember hothers, hclosing,
        .cons (.intro key hd) hds⟩

end

end Strict

/-- Whatever the value is, what is written for it is a text of the strict grammar, and all that
the text says is the value, with null for the floats that are no finite numbers. -/
theorem strict_of_encode (v : Value) :
    (∃ d, Strict.IsText (encode v).toList d) ∧
      ∀ d, Strict.IsText (encode v).toList d → Strict.Means d v.inJson := by
  obtain ⟨d, hvalue, hmeans⟩ := Strict.isValue_write v
  have htext : Strict.IsText (encode v).toList d := by
    have h := Strict.IsText.intro (List.forall_mem_nil _) hvalue (List.forall_mem_nil _)
    rwa [List.nil_append, List.append_nil, ← String.toList_ofList (l := write v)] at h
  exact ⟨⟨d, htext⟩, fun d' h => h.unique htext ▸ hmeans⟩

end LspClient.Json
