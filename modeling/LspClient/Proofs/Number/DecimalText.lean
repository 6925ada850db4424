import Mathlib.Data.List.TakeWhile
import LspClient.Json.Decode
import LspClient.Json.Encode
import LspClient.Proofs.Number.Shortest
import LspClient.Proofs.Text.Ascii

/-!
# The text of a float reads back

A finite float is written as digits, a point and digits, with a minus sign in
front if it has one. Reading such a text gives the number that the digits
denote, and for the digits that were written this is the float again, bit for
bit and with the sign of a zero.
-/

namespace LspClient

open Binary64 (infinity)

theorem takeWhile_of_head {α : Type} {p : α → Bool} {as rest : List α}
    (has : ∀ a ∈ as, p a = true) (hrest : ∀ a ∈ rest.head?, p a = false) :
    (as ++ rest).takeWhile p = as := by
  rw [List.takeWhile_append_of_pos has]
  cases rest with
  | nil => exact List.append_nil as
  | cons a rest => rw [List.takeWhile_cons_of_neg (by simp [hrest a rfl]), List.append_nil]

theorem dropWhile_of_head {α : Type} {p : α → Bool} {as rest : List α}
    (has : ∀ a ∈ as, p a = true) (hrest : ∀ a ∈ rest.head?, p a = false) :
    (as ++ rest).dropWhile p = rest := by
  rw [List.dropWhile_append_of_pos has]
  cases rest with
  | nil => rfl
  | cons a rest => exact List.dropWhile_cons_of_neg (by simp [hrest a rfl])

namespace Numeral

theorem value_append_zeros (cs : List Char) (n : Nat) :
    value (cs ++ List.replicate n '0') = value cs * Nat.pow 10 n := by
  rw [value, Nat.ofDigitChars_append, Nat.ofDigitChars_replicate_zero, Nat.mul_comm]
  rfl

theorem value_zeros_append (cs : List Char) (n : Nat) :
    value (List.replicate n '0' ++ cs) = value cs := by
  rw [value, Nat.ofDigitChars_append, Nat.ofDigitChars_replicate_zero, Nat.mul_zero]
  rfl

/-- Nothing but zero has a zero in front. -/
theorem digits_ne_zero_cons {n : Nat} (h : n ≠ 0) (cs : List Char) : digits n ≠ '0' :: cs := by
  induction n using Nat.strongRecOn generalizing cs with
  | ind n ih =>
      intro heq
      rw [digits, Nat.toDigits_eq_if (by decide)] at heq
      split at heq
      · exact h (Nat.digitChar_eq_zero.1 (List.cons.inj heq).1)
      · next hlarge =>
          obtain ⟨c, others, hcons, -⟩ := digits_eq_cons (n / 10)
          have hhigh : n / 10 ≠ 0 := by omega
          rw [← digits, hcons, List.cons_append] at heq
          exact ih (n / 10) (by omega) hhigh others (by rw [hcons, (List.cons.inj heq).1])

end Numeral

namespace Decimal

/-! ## Reading digits around a point -/

theorem unsigned?_point {whole fraction : List Char} (hw : Numeral.isDigits whole = true)
    (hf : Numeral.isDigits fraction = true) :
    unsigned? (whole ++ '.' :: fraction) =
      some (Numeral.value (whole ++ fraction), -(fraction.length : Int)) := by
  have hwhole := Numeral.isDigit_of_isDigits hw
  have hfraction := Numeral.isDigit_of_isDigits hf
  have hpoint : ∀ c ∈ ('.' :: fraction).head?, c.isDigit = false := by
    rintro c ⟨⟩
    rfl
  have hfractionTake : fraction.takeWhile Char.isDigit = fraction := by
    rw [List.takeWhile_eq_self_iff.2 hfraction]
  have hfractionDrop : fraction.dropWhile Char.isDigit = [] :=
    List.dropWhile_eq_nil_iff.2 hfraction
  have hnonempty : whole.isEmpty = false := by
    cases whole with
    | nil => cases hw
    | cons c cs => rfl
  rw [unsigned?, takeWhile_of_head hwhole hpoint, dropWhile_of_head hwhole hpoint]
  simp only [hfractionTake, hfractionDrop, hnonempty, Bool.false_and, Bool.false_eq_true, if_false,
    exponent?, Option.map_some, Int.zero_sub]

/-- A minus sign, if there is one. -/
def sign (negative : Bool) : List Char :=
  if negative then ['-'] else []

theorem read?_sign (negative : Bool) {c : Char} {cs body : List Char} (hbody : body = c :: cs)
    (hc : c.isDigit = true) : read? (sign negative ++ body) =
      (unsigned? body).map fun r => ⟨negative, r.1, r.2⟩ := by
  cases negative with
  | true => rfl
  | false =>
      have hne (d : Char) (hd : d.isDigit = false) (rest : List Char) : body ≠ d :: rest := by
        rw [hbody]
        intro heq
        rw [(List.cons.inj heq).1, hd] at hc
        cases hc
      rw [sign, if_neg Bool.false_ne_true, List.nil_append, read?]
      · exact hne '-' rfl
      · exact hne '+' rfl

theorem read?_point (negative : Bool) {whole fraction : List Char}
    (hw : Numeral.isDigits whole = true) (hf : Numeral.isDigits fraction = true) :
    read? (sign negative ++ whole ++ '.' :: fraction) =
      some ⟨negative, Numeral.value (whole ++ fraction), -(fraction.length : Int)⟩ := by
  cases whole with
  | nil => cases hw
  | cons c cs =>
      have hc := Numeral.isDigit_of_isDigits hw c List.mem_cons_self
      rw [List.append_assoc, read?_sign negative (List.cons_append ..) hc, unsigned?_point hw hf]
      rfl

/-! ## Writing digits around a point -/

/-- Digits before and behind a point that denote a magnitude, with no spare zero in
front. -/
structure Spells (whole fraction : List Char) (m : Nat) : Prop where
  isWhole : Numeral.isDigits whole = true
  noSpareZero : ∀ c cs, whole ≠ '0' :: c :: cs
  isFraction : Numeral.isDigits fraction = true
  denotes : magnitude (Numeral.value (whole ++ fraction)) (-(fraction.length : Int)) = m

theorem spells_zero : Spells ['0'] ['0'] 0 :=
  ⟨rfl, nofun, rfl, rfl⟩

/-- Zeros up to the point and one behind it. -/
theorem spells_whole {m d i : Nat} (hm : m ≠ 0) (h : readsBack m d (finest + i) = true) :
    Spells (Numeral.digits d ++ List.replicate i '0') ['0'] m where
  isWhole := by
    obtain ⟨c, cs, hcs, -⟩ := Numeral.digits_eq_cons d
    refine Numeral.isDigits_of_forall (by simp [hcs]) fun c hc => ?_
    rcases List.mem_append.1 hc with hc | hc
    · exact Numeral.isDigit_of_mem_digits hc
    · rw [List.eq_of_mem_replicate hc]
      rfl
  noSpareZero := by
    intro c cs heq
    obtain ⟨first, others, hcons, -⟩ := Numeral.digits_eq_cons d
    rw [hcons] at heq
    exact Numeral.digits_ne_zero_cons (ne_zero_of_readsBack hm h) others
      (by rw [hcons, (List.cons.inj heq).1])
  isFraction := rfl
  denotes := by
    have hzeros : Numeral.digits d ++ List.replicate i '0' ++ ['0'] =
        Numeral.digits d ++ List.replicate (i + 1) '0' := by
      rw [List.append_assoc, List.replicate_succ']
    rw [hzeros, Numeral.value_append_zeros, Numeral.value_digits]
    exact magnitude_of_whole hm h

/-- Zeros behind the point, and one in front of it if nothing else is. -/
theorem spells_fraction {m d k j : Nat} (hm : m ≠ 0) (h : readsBack m d k = true)
    (hk : k + (j + 1) = finest) {ds : List Char}
    (hds : ds = List.replicate (j + 1 + 1 - (Numeral.digits d).length) '0' ++ Numeral.digits d) :
    Spells (ds.take (ds.length - (j + 1))) (ds.drop (ds.length - (j + 1))) m := by
  have hlength : j + 1 < ds.length := by
    rw [hds, List.length_append, List.length_replicate]
    omega
  have hdigits : ∀ c ∈ ds, c.isDigit = true := by
    intro c hc
    rw [hds] at hc
    rcases List.mem_append.1 hc with hc | hc
    · rw [List.eq_of_mem_replicate hc]
      rfl
    · exact Numeral.isDigit_of_mem_digits hc
  have hplaces : (ds.drop (ds.length - (j + 1))).length = j + 1 := by
    rw [List.length_drop]
    omega
  constructor
  · refine Numeral.isDigits_of_forall ?_ fun c hc => hdigits c (List.mem_of_mem_take hc)
    intro hnil
    have := congrArg List.length hnil
    rw [List.length_take, List.length_nil] at this
    omega
  · intro c cs heq
    by_cases hshort : (Numeral.digits d).length ≤ j + 1
    · -- there is one digit in front of the point
      have := congrArg List.length heq
      rw [List.length_take, hds, List.length_append, List.length_replicate, List.length_cons,
        List.length_cons] at this
      omega
    · obtain ⟨first, others, hcons, -⟩ := Numeral.digits_eq_cons d
      have hzeros : j + 1 + 1 - (Numeral.digits d).length = 0 := by omega
      have htake : ds.length - (j + 1) = ds.length - (j + 1) - 1 + 1 := by omega
      rw [hzeros, List.replicate_zero, List.nil_append] at hds
      rw [htake, hds, hcons, List.take_succ_cons] at heq
      exact Numeral.digits_ne_zero_cons (ne_zero_of_readsBack hm h) others
        (by rw [hcons, (List.cons.inj heq).1])
  · refine Numeral.isDigits_of_forall ?_ fun c hc => hdigits c (List.mem_of_mem_drop hc)
    intro hnil
    rw [hnil] at hplaces
    cases hplaces
  · rw [List.take_append_drop, hplaces, hds, Numeral.value_zeros_append, Numeral.value_digits]
    exact magnitude_of_fraction hm h hk

end Decimal

/-! ## The float again -/

theorem Binary64.ofMagnitude_magnitude (x : Binary64) :
    ofMagnitude x.isNegative x.magnitude = x := by
  have hbits : x.bits.toNat < 2 * signWeight := x.bits.toNat_lt
  have hsum : x.magnitude + (if x.isNegative then signWeight else 0) = x.bits.toNat := by
    rw [magnitude, isNegative]
    by_cases h : signWeight ≤ x.bits.toNat
    · rw [decide_eq_true h, if_pos rfl, Nat.mod_eq_sub_mod h, Nat.mod_eq_of_lt (by omega)]
      omega
    · rw [decide_eq_false h, Nat.mod_eq_of_lt (by omega)]
      exact Nat.add_zero _
  rw [ofMagnitude, hsum, UInt64.ofNat_toNat]

namespace Json

open Decimal

theorem text_eq (x : Binary64) : Decimal.text x = sign x.isNegative ++
    if x.magnitude = 0 then ['0']
    else positional (shortest x.magnitude).1 (shortest x.magnitude).2 := by
  rw [Decimal.text]
  cases x.isNegative with
  | true => rfl
  | false => rfl

/-- No point among digits and a sign. -/
theorem contains_point_eq_false {negative : Bool} {cs : List Char}
    (h : ∀ c ∈ cs, c.isDigit = true) : (sign negative ++ cs).contains '.' = false := by
  rw [List.contains_eq_mem]
  refine decide_eq_false fun hmem => ?_
  rcases List.mem_append.1 hmem with hsign | hcs
  · cases negative with
    | true => exact absurd hsign (by decide)
    | false => cases hsign
  · exact absurd (h '.' hcs) (by decide)

theorem writeFloat_eq {x : Binary64} (h : x.isFinite = true) :
    ∃ whole fraction, writeFloat x = sign x.isNegative ++ whole ++ '.' :: fraction ∧
      Spells whole fraction x.magnitude := by
  rw [writeFloat, if_pos h, text_eq]
  dsimp only
  by_cases hm : x.magnitude = 0
  · refine ⟨['0'], ['0'], ?_, hm ▸ spells_zero⟩
    rw [if_pos hm, contains_point_eq_false (List.all_eq_true.1 rfl), if_neg nofun]
  · obtain ⟨d, k, hshortest, hreads⟩ := shortest_readsBack (of_decide_eq_true h)
    rw [if_neg hm, hshortest]
    dsimp only
    cases he : (k : Int) - finest with
    | ofNat i =>
        obtain rfl : k = finest + i := by
          have : (k : Int) - finest = i := he
          omega
        have hspells := spells_whole hm hreads
        refine ⟨_, _, ?_, hspells⟩
        rw [positional, contains_point_eq_false (Numeral.isDigit_of_isDigits hspells.isWhole),
          if_neg nofun]
    | negSucc j =>
        have hk : k + (j + 1) = finest := by
          rw [Int.negSucc_eq] at he
          omega
        have hspells := spells_fraction hm hreads hk rfl
        refine ⟨_, _, ?_, hspells⟩
        have hpoint : ∀ before after, (sign x.isNegative ++
            (before ++ '.' :: after)).contains '.' = true := by
          intro before after
          rw [List.contains_eq_mem]
          exact decide_eq_true (by simp)
        rw [positional, hpoint, if_pos rfl, List.append_assoc]

/-- A float that was written is read as that float. -/
theorem float?_writeFloat {x : Binary64} (h : x.isFinite = true) :
    float? (writeFloat x) = some (.float x) := by
  obtain ⟨whole, fraction, htext, hspells⟩ := writeFloat_eq h
  rw [htext, float?, read?_point _ hspells.isWhole hspells.isFraction, Option.map_some,
    toBinary64, hspells.denotes, Binary64.ofMagnitude_magnitude]

end Json

end LspClient
