import Mathlib.Algebra.Order.Field.Basic
import Mathlib.Algebra.Order.Field.Rat
import Mathlib.Tactic.Linarith
import Mathlib.Tactic.Ring
import LspClient.Proofs.Number.Shortest

/-!
# Rounding to the nearest

What it means that a decimal number rounds to a float is stated over the rationals: no float
is nearer to the number, and if another one is as near, the one that it rounds to is even
(`Decimal.RoundsTo`). Reading digits rounds in this sense (`Decimal.roundsTo_of_magnitude`), unless
the number is too large for a finite float: then it is taken for infinite (`Decimal.TakenFor`).

The argument is about whole numbers. A quotient is first rounded to a whole number of steps of
the size that keeps 53 binary digits. Larger floats are whole numbers of such steps as well, so
they are no nearer. Smaller ones may lie between two steps, but then they are on the far side
of the least number that has steps of this size, and that one is a whole number of steps.
-/

namespace LspClient

namespace Binary64

/-! ## Whole numbers -/

/-- How far the quotient `num / den` is from a whole number, in parts of `den`. -/
def gap (num den g : Nat) : Nat :=
  (num - g * den) + (g * den - num)

theorem roundHalfEven_cases (num den : Nat) :
    roundHalfEven num den = num / den ∧ 2 * (num % den) ≤ den ∧
        (2 * (num % den) = den → num / den % 2 = 0) ∨
      roundHalfEven num den = num / den + 1 ∧ den ≤ 2 * (num % den) ∧
        (2 * (num % den) = den → (num / den + 1) % 2 = 0) := by
  rw [roundHalfEven]
  split
  · exact .inl (by omega)
  · split
    · exact .inr (by omega)
    · split
      · exact .inl (by omega)
      · exact .inr (by omega)

theorem roundHalfEven_le (num den : Nat) : roundHalfEven num den ≤ num / den + 1 := by
  rcases roundHalfEven_cases num den with ⟨heq, -, -⟩ | ⟨heq, -, -⟩ <;> omega

theorem le_roundHalfEven (num den : Nat) : num / den ≤ roundHalfEven num den := by
  rcases roundHalfEven_cases num den with ⟨heq, -, -⟩ | ⟨heq, -, -⟩ <;> omega

/-- Where a whole number is among the two next to `q`. -/
theorem mul_cases (g q den : Nat) :
    g < q ∧ g * den + den ≤ q * den ∨ g = q ∨ g = q + 1 ∨
      q + 1 < g ∧ q * den + den + den ≤ g * den := by
  rcases Nat.lt_trichotomy g q with hlt | heq | hgt
  · exact .inl ⟨hlt, Nat.succ_mul g den ▸ Nat.mul_le_mul_right den hlt⟩
  · exact .inr (.inl heq)
  · rcases Nat.eq_or_lt_of_le hgt with heq | hfar
    · exact .inr (.inr (.inl heq.symm))
    · have hmul := Nat.mul_le_mul_right den hfar
      rw [Nat.succ_mul, Nat.succ_mul] at hmul
      exact .inr (.inr (.inr ⟨hfar, hmul⟩))

/-- Rounding to a whole number takes one that is nearest to the quotient, and an even one if
another is as near. -/
theorem gap_roundHalfEven (num : Nat) {den : Nat} (hden : 0 < den) (g : Nat) :
    gap num den (roundHalfEven num den) < gap num den g ∨
      gap num den (roundHalfEven num den) = gap num den g ∧
        (g = roundHalfEven num den ∨ roundHalfEven num den % 2 = 0) := by
  have hmod : num % den < den := Nat.mod_lt num hden
  have hdiv : num / den * den + num % den = num := Nat.div_add_mod' num den
  have hup : (num / den + 1) * den = num / den * den + den := Nat.succ_mul _ _
  have hg := mul_cases g (num / den) den
  simp only [gap]
  rcases roundHalfEven_cases num den with ⟨heq, hhalf, heven⟩ | ⟨heq, hhalf, heven⟩
  · rw [heq]
    generalize num / den = q at *
    rcases hg with ⟨hlt, hfar⟩ | rfl | rfl | ⟨hlt, hfar⟩ <;> omega
  · rw [heq]
    generalize num / den = q at *
    rcases hg with ⟨hlt, hfar⟩ | rfl | rfl | ⟨hlt, hfar⟩ <;> omega

/-! ## Magnitudes -/

theorem units_scaled {f : Nat} (e : Nat) (hlow : e = 0 ∨ exponentWeight ≤ f)
    (hhigh : f ≤ 2 * exponentWeight) :
    units (e * exponentWeight + f) = f * Nat.pow 2 e := by
  have hpos : 0 < exponentWeight := by decide
  have hzero : Nat.pow 2 0 = 1 := rfl
  have hsum : (e + 1) * exponentWeight = e * exponentWeight + exponentWeight := Nat.succ_mul _ _
  by_cases hsmall : f < exponentWeight
  · obtain rfl : e = 0 := hlow.resolve_right (by omega)
    rw [Nat.zero_mul, Nat.zero_add, units, if_pos (Nat.div_eq_of_lt hsmall), hzero, Nat.mul_one]
  rcases Nat.lt_or_eq_of_le hhigh with hlt | rfl
  · have hm : e * exponentWeight + f = (e + 1) * exponentWeight + (f - exponentWeight) := by omega
    have hdiv : (e * exponentWeight + f) / exponentWeight = e + 1 := by
      rw [hm, Nat.mul_comm, Nat.mul_add_div hpos, Nat.div_eq_of_lt (by omega), Nat.add_zero]
    have hmod : (e * exponentWeight + f) % exponentWeight = f - exponentWeight := by
      rw [hm, Nat.mul_comm, Nat.mul_add_mod, Nat.mod_eq_of_lt (by omega)]
    rw [units, hdiv, hmod, if_neg (Nat.succ_ne_zero e), Nat.add_sub_cancel,
      Nat.sub_add_cancel (by omega)]
  · have hm : e * exponentWeight + 2 * exponentWeight = (e + 2) * exponentWeight :=
      (Nat.add_mul _ _ _).symm
    have hpow : Nat.pow 2 (e + 1) = 2 * Nat.pow 2 e := by rw [Nat.mul_comm]; rfl
    rw [hm, units, Nat.mul_div_cancel _ hpos, Nat.mul_mod_left, if_neg (Nat.succ_ne_zero _),
      Nat.zero_add, Nat.mul_comm 2, Nat.mul_assoc, ← hpow]
    rfl

/-- A magnitude is a whole number of steps of `2 ^ e` units, or less than any number that
has so large a step. -/
theorem units_steps (m e : Nat) :
    (∃ g, units m = g * Nat.pow 2 e) ∨ e ≠ 0 ∧ units m < exponentWeight * Nat.pow 2 e := by
  have hpos : ∀ k, 0 < Nat.pow 2 k := fun k => Nat.pow_pos (by decide)
  have hmod : m % exponentWeight < exponentWeight := Nat.mod_lt m (by decide)
  by_cases he : e = 0
  · exact .inl ⟨units m, by rw [he]; exact (Nat.mul_one _).symm⟩
  rw [units]
  split
  · next hzero =>
      refine .inr ⟨he, ?_⟩
      have hm : m < exponentWeight := by
        rcases Nat.div_eq_zero_iff.1 hzero with h | h
        · exact absurd h (by decide)
        · exact h
      exact Nat.lt_of_lt_of_le hm (Nat.le_mul_of_pos_right _ (hpos e))
  · next hne =>
      rcases Nat.lt_or_ge (m / exponentWeight - 1) e with hlt | hge
      · refine .inr ⟨he, ?_⟩
        calc (m % exponentWeight + exponentWeight) * Nat.pow 2 (m / exponentWeight - 1)
            < 2 * exponentWeight * Nat.pow 2 (m / exponentWeight - 1) :=
              Nat.mul_lt_mul_of_pos_right (by omega) (hpos _)
          _ = exponentWeight * Nat.pow 2 (m / exponentWeight - 1 + 1) := by
              rw [Nat.mul_comm 2, Nat.mul_assoc, Nat.mul_comm 2]
              rfl
          _ ≤ exponentWeight * Nat.pow 2 e :=
              Nat.mul_le_mul_left _ (Nat.pow_le_pow_right (by decide) hlt)
      · refine .inl ⟨(m % exponentWeight + exponentWeight) *
          Nat.pow 2 (m / exponentWeight - 1 - e), ?_⟩
        rw [Nat.mul_assoc]
        exact congrArg _ (by rw [← Decimal.pow_add, Nat.sub_add_cancel hge])

theorem gap_mul_right (num den g k : Nat) : gap num den (g * k) = gap num (den * k) g := by
  rw [gap, gap, Nat.mul_assoc, Nat.mul_comm k]

/-- The steps that a quotient is rounded to: `2 ^ e` units each, so large that 53 binary digits
are enough, and no larger. -/
theorem exists_steps (num den : Nat) : ∃ e,
    nearest num den =
        min (e * exponentWeight + roundHalfEven num (den * Nat.pow 2 e)) infinity ∧
      num / (den * Nat.pow 2 e) < 2 * exponentWeight ∧
      (e = 0 ∨ exponentWeight ≤ num / (den * Nat.pow 2 e)) := by
  obtain ⟨e, he⟩ : ∃ e, e = (num / den).log2 - 52 := ⟨_, rfl⟩
  have hpos : 0 < Nat.pow 2 e := Nat.pow_pos (by decide)
  have hquotient : num / (den * Nat.pow 2 e) = num / den / Nat.pow 2 e :=
    (Nat.div_div_eq_div_mul _ _ _).symm
  refine ⟨e, by rw [nearest, he], ?_, ?_⟩
  · rw [hquotient, Nat.div_lt_iff_lt_mul hpos]
    calc num / den < Nat.pow 2 ((num / den).log2 + 1) := Nat.lt_log2_self
      _ ≤ Nat.pow 2 (53 + e) := Nat.pow_le_pow_right (by decide) (by omega)
      _ = 2 * exponentWeight * Nat.pow 2 e := Decimal.pow_add 2 53 e
  · by_cases hzero : e = 0
    · exact .inl hzero
    · have hq : num / den ≠ 0 := fun h => hzero (by rw [he, h]; rfl)
      rw [hquotient, Nat.le_div_iff_mul_le hpos]
      refine .inr ?_
      calc exponentWeight * Nat.pow 2 e = Nat.pow 2 (52 + e) := (Decimal.pow_add 2 52 e).symm
        _ = Nat.pow 2 (num / den).log2 := by rw [he, Nat.add_sub_cancel' (by omega)]
        _ ≤ num / den := Nat.log2_self_le hq

/-- No magnitude is nearer to a quotient than the finite one that it is rounded to, and if
another one is as near, that one is even. -/
theorem gap_nearest {num den : Nat} (hden : 0 < den) (hfinite : nearest num den < infinity)
    (m : Nat) :
    gap num den (units (nearest num den)) < gap num den (units m) ∨
      gap num den (units (nearest num den)) = gap num den (units m) ∧
        (units m = units (nearest num den) ∨ nearest num den % 2 = 0) := by
  obtain ⟨e, hmin, hhigh, hlow⟩ := exists_steps num den
  have hsteps : 0 < den * Nat.pow 2 e := Nat.mul_pos hden (Nat.pow_pos (by decide))
  have hle := roundHalfEven_le num (den * Nat.pow 2 e)
  have hge := le_roundHalfEven num (den * Nat.pow 2 e)
  have hround := gap_roundHalfEven num hsteps
  generalize roundHalfEven num (den * Nat.pow 2 e) = f at hmin hle hge hround
  have hnearest : nearest num den = e * exponentWeight + f := by
    rw [hmin] at hfinite ⊢
    omega
  have hunits : units (e * exponentWeight + f) = f * Nat.pow 2 e :=
    units_scaled e (hlow.imp_right fun h => Nat.le_trans h hge) (by omega)
  rw [hnearest, hunits, gap_mul_right]
  rcases units_steps m e with ⟨g, hg⟩ | ⟨hne, hlt⟩
  · rw [hg, gap_mul_right]
    refine (hround g).imp_right fun ⟨hgap, hnear⟩ => ⟨hgap, ?_⟩
    rcases hnear with rfl | heven
    · exact .inl rfl
    · have hweight : exponentWeight = 2 * (exponentWeight / 2) := rfl
      rw [hweight, Nat.mul_left_comm, Nat.mul_add_mod]
      exact .inr heven
  · -- the least number with so large a step is between
    have hbetween := hround exponentWeight
    have hnum := (Nat.le_div_iff_mul_le hsteps).1 (hlow.resolve_left hne)
    have hless : units m * den < exponentWeight * (den * Nat.pow 2 e) := by
      rw [Nat.mul_comm den, ← Nat.mul_assoc]
      exact Nat.mul_lt_mul_of_pos_right hlt hden
    simp only [gap] at hbetween ⊢
    omega

theorem half_le_of_roundHalfEven {num den : Nat} (h : num / den < roundHalfEven num den) :
    (2 * (num / den) + 1) * den ≤ 2 * num := by
  have hdiv : num / den * den + num % den = num := Nat.div_add_mod' num den
  rcases roundHalfEven_cases num den with ⟨hround, -, -⟩ | ⟨-, hhalf, -⟩
  · exact absurd h (by rw [hround]; exact Nat.lt_irrefl _)
  · calc (2 * (num / den) + 1) * den = 2 * (num / den * den) + den := by ring
      _ ≤ 2 * (num / den * den) + 2 * (num % den) := Nat.add_le_add_left hhalf _
      _ = 2 * num := by rw [← Nat.mul_add, hdiv]

/-- What is rounded to a power of two or beyond is below it by half a step at most. -/
theorem le_of_nearest_overflow {num den k : Nat}
    (h : (k + 2) * exponentWeight ≤ nearest num den) :
    (4 * exponentWeight - 1) * (den * Nat.pow 2 k) ≤ 2 * num := by
  obtain ⟨e, hmin, hhigh, hlow⟩ := exists_steps num den
  have hbound : (k + 2) * exponentWeight ≤
      e * exponentWeight + roundHalfEven num (den * Nat.pow 2 e) :=
    Nat.le_trans h (hmin ▸ Nat.min_le_left _ _)
  have hle := roundHalfEven_le num (den * Nat.pow 2 e)
  have hge := le_roundHalfEven num (den * Nat.pow 2 e)
  have hhalf := @half_le_of_roundHalfEven num (den * Nat.pow 2 e)
  have hfloor := Nat.div_mul_le_self num (den * Nat.pow 2 e)
  generalize hstep : den * Nat.pow 2 e = step at hhigh hlow hbound hle hge hhalf hfloor
  generalize num / step = q at *
  rw [Nat.add_mul] at hbound
  have hweight : 0 < exponentWeight := by decide
  have he : k ≤ e := by
    by_contra hless
    have hmul : (e + 1) * exponentWeight ≤ k * exponentWeight :=
      Nat.mul_le_mul_right _ (by omega)
    rw [Nat.succ_mul] at hmul
    omega
  rcases Nat.eq_or_lt_of_le he with rfl | hlarge
  · -- the last step below is rounded up
    have hq : 4 * exponentWeight - 1 = 2 * q + 1 := by omega
    rw [hstep, hq]
    exact hhalf (by omega)
  · have hquotient : exponentWeight ≤ q :=
      hlow.resolve_left (Nat.ne_of_gt (Nat.lt_of_le_of_lt (Nat.zero_le _) hlarge))
    have hdouble : Nat.pow 2 k * 2 ≤ Nat.pow 2 e := Nat.pow_le_pow_right Nat.two_pos hlarge
    calc (4 * exponentWeight - 1) * (den * Nat.pow 2 k)
        ≤ 4 * exponentWeight * (den * Nat.pow 2 k) := Nat.mul_le_mul_right _ (Nat.sub_le _ _)
      _ = 2 * (exponentWeight * (den * (Nat.pow 2 k * 2))) := by ring
      _ ≤ 2 * (exponentWeight * (den * Nat.pow 2 e)) :=
          Nat.mul_le_mul_left _ (Nat.mul_le_mul_left _ (Nat.mul_le_mul_left _ hdouble))
      _ ≤ 2 * (q * step) := by
          rw [hstep]
          exact Nat.mul_le_mul_left _ (Nat.mul_le_mul_right _ hquotient)
      _ ≤ 2 * num := Nat.mul_le_mul_left _ hfloor

/-- A magnitude with a sign has that magnitude and that sign. -/
theorem fields_ofMagnitude (negative : Bool) {m : Nat} (h : m < signWeight) :
    (ofMagnitude negative m).magnitude = m ∧ (ofMagnitude negative m).isNegative = negative := by
  have hsum : m + (if negative then signWeight else 0) < 2 * signWeight := by
    split <;> omega
  have hbits : (ofMagnitude negative m).bits.toNat = m + if negative then signWeight else 0 :=
    UInt64.toNat_ofNat_of_lt' hsum
  rw [magnitude, isNegative, hbits]
  cases negative with
  | true =>
      rw [if_pos rfl, Nat.add_mod_right, Nat.mod_eq_of_lt h]
      exact ⟨rfl, decide_eq_true (Nat.le_add_left _ _)⟩
  | false =>
      rw [if_neg Bool.false_ne_true, Nat.add_zero, Nat.mod_eq_of_lt h]
      exact ⟨rfl, decide_eq_false (Nat.not_le.2 h)⟩

end Binary64

/-! ## Over the rationals -/

open Binary64 (gap units unitsInOne infinity exponentWeight)

/-- The number that a float stands for. Infinity counts as the power of two behind the
greatest finite number, which is what rounding takes it for. -/
def Binary64.toRat (x : Binary64) : ℚ :=
  (if x.isNegative then -1 else 1) * (units x.magnitude / unitsInOne)

namespace Decimal

/-- The number that a decimal notation stands for. -/
def toRat (d : Decimal) : ℚ :=
  (if d.negative then -1 else 1) * (d.coefficient * 10 ^ d.exponent)

/-- A finite float is the one that a decimal number rounds to: no float is nearer to it, and
if another one is as near, that one is even. Zeros keep the sign. -/
structure RoundsTo (d : Decimal) (x : Binary64) : Prop where
  isFinite : x.isFinite = true
  sign : x.isNegative = d.negative
  nearest : ∀ y : Binary64, y.isNaN = false → |d.toRat - x.toRat| ≤ |d.toRat - y.toRat|
  even : ∀ y : Binary64, y.isNaN = false → |d.toRat - y.toRat| = |d.toRat - x.toRat| →
    y.toRat = x.toRat ∨ x.magnitude % 2 = 0

/-- The quotient that is rounded. A number that is not rounded is far beyond the finite floats. -/
theorem exists_quotient (c : Nat) (e : Int) : ∃ num den : Nat, 0 < den ∧
    (c : ℚ) * 10 ^ e = num / den / unitsInOne ∧
      (magnitude c e = Binary64.nearest num den ∨
        magnitude c e = infinity ∧ (10 : ℚ) ^ 400 ≤ c * 10 ^ e) := by
  have hunits : (unitsInOne : ℚ) ≠ 0 := Nat.cast_ne_zero.2 (Nat.ne_of_gt unitsInOne_pos)
  by_cases hc : c = 0
  · refine ⟨0, 1, Nat.one_pos, ?_, .inl ?_⟩
    · rw [hc, Nat.cast_zero, zero_mul, zero_div, zero_div]
    · rw [magnitude.eq_def, if_pos hc, nearest_tiny (by decide)]
  cases e with
  | ofNat k =>
      refine ⟨c * Nat.pow 10 k * unitsInOne, 1, Nat.one_pos, ?_, ?_⟩
      · have hpow : ((Nat.pow 10 k : Nat) : ℚ) = 10 ^ k := Nat.cast_pow 10 k
        rw [Nat.cast_mul, Nat.cast_mul, hpow, Nat.cast_one, div_one, mul_div_cancel_right₀ _ hunits]
        rfl
      · rw [magnitude, if_neg hc]
        split
        · next hk =>
            have hone : (1 : ℚ) ≤ c := Nat.one_le_cast.2 (Nat.pos_of_ne_zero hc)
            have hten : (10 : ℚ) ^ 400 ≤ 10 ^ k := pow_le_pow_right₀ (by norm_num) hk
            refine .inr ⟨rfl, hten.trans ?_⟩
            exact le_mul_of_one_le_left (pow_nonneg (by norm_num) k) hone
        · exact .inl rfl
  | negSucc k =>
      refine ⟨c * unitsInOne, Nat.pow 10 (k + 1), pow_pos (by decide) _, ?_,
        .inl (magnitude_negSucc hc k)⟩
      have hpow : ((Nat.pow 10 (k + 1) : Nat) : ℚ) = 10 ^ (k + 1) := Nat.cast_pow 10 (k + 1)
      rw [Nat.cast_mul, hpow, div_right_comm, mul_div_cancel_right₀ _ hunits, zpow_negSucc,
        div_eq_mul_inv]

theorem cast_gap (num den u : Nat) : (gap num den u : ℚ) = |(num : ℚ) - den * u| := by
  rw [gap, Nat.mul_comm u, ← Nat.cast_mul]
  rcases Nat.le_total num (den * u) with h | h
  · rw [Nat.sub_eq_zero_of_le h, Nat.zero_add, Nat.cast_sub h, abs_sub_comm, abs_of_nonneg]
    exact sub_nonneg.2 (Nat.cast_le.2 h)
  · rw [Nat.sub_eq_zero_of_le h, Nat.add_zero, Nat.cast_sub h, abs_of_nonneg]
    exact sub_nonneg.2 (Nat.cast_le.2 h)

theorem abs_sub_units (num : Nat) {den : Nat} (hden : 0 < den) (u : Nat) :
    |(num : ℚ) / den / unitsInOne - u / unitsInOne| = gap num den u / (den * unitsInOne) := by
  have hpos : (0 : ℚ) < den * unitsInOne :=
    mul_pos (Nat.cast_pos.2 hden) (Nat.cast_pos.2 unitsInOne_pos)
  rw [← sub_div, div_sub' (Nat.cast_ne_zero.2 hden.ne'), div_div, abs_div, abs_of_pos hpos,
    cast_gap]

theorem abs_sign (negative : Bool) : |if negative then (-1 : ℚ) else 1| = 1 := by
  cases negative with
  | true => exact (abs_neg 1).trans abs_one
  | false => exact abs_one

theorem abs_toRat (x : Binary64) : |x.toRat| = units x.magnitude / unitsInOne := by
  rw [Binary64.toRat, abs_mul, abs_sign, one_mul, abs_of_nonneg]
  exact div_nonneg (Nat.cast_nonneg _) (Nat.cast_nonneg _)

theorem abs_toRat_eq (d : Decimal) : |d.toRat| = d.coefficient * 10 ^ d.exponent := by
  rw [toRat, abs_mul, abs_sign, one_mul, abs_of_nonneg]
  exact mul_nonneg (Nat.cast_nonneg _) (zpow_nonneg (by norm_num) _)

section Distance

variable {d : Decimal} {num den : Nat} (hden : 0 < den)
  (hquotient : (d.coefficient : ℚ) * 10 ^ d.exponent = num / den / unitsInOne)

include hden hquotient

theorem abs_sub_toRat {x : Binary64} (hsign : x.isNegative = d.negative) :
    |d.toRat - x.toRat| = gap num den (units x.magnitude) / (den * unitsInOne) := by
  rw [← abs_sub_units num hden, toRat, Binary64.toRat, hsign, ← mul_sub, abs_mul, abs_sign,
    one_mul, hquotient]

/-- With another sign a float is no nearer. -/
theorem le_abs_sub_toRat (y : Binary64) :
    (gap num den (units y.magnitude) / (den * unitsInOne) : ℚ) ≤ |d.toRat - y.toRat| := by
  have hd : |d.toRat| = num / den / unitsInOne := (abs_toRat_eq d).trans hquotient
  rw [← abs_sub_units num hden, ← hd, ← abs_toRat]
  exact abs_abs_sub_abs_le _ _

end Distance

/-- Two floats of one magnitude that are equally near to a number are equal, or else the
number is zero. -/
theorem toRat_eq_or {d : Decimal} {x y : Binary64} (hunits : units y.magnitude = units x.magnitude)
    (hnear : |d.toRat - y.toRat| = |d.toRat - x.toRat|) : y.toRat = x.toRat ∨ d.toRat = 0 := by
  have habs : |y.toRat| = |x.toRat| := by rw [abs_toRat, abs_toRat, hunits]
  rcases abs_eq_abs.1 habs with hy | hy
  · exact .inl hy
  · rcases abs_eq_abs.1 hnear with hd | hd
    · exact .inl (sub_right_inj.1 hd)
    · rw [hy] at hd
      exact .inr (by linarith)

theorem toRat_zero : Binary64.toRat ⟨0⟩ = 0 := by
  have hunits : units (Binary64.magnitude ⟨0⟩) = 0 := rfl
  rw [Binary64.toRat, hunits, Nat.cast_zero, zero_div, mul_zero]

/-- If reading takes the digits to a finite magnitude, then that is what they round to. -/
theorem roundsTo_of_magnitude {d : Decimal} {x : Binary64} (hsign : x.isNegative = d.negative)
    (hmagnitude : magnitude d.coefficient d.exponent = x.magnitude)
    (hfinite : x.isFinite = true) : d.RoundsTo x := by
  obtain ⟨num, den, hden, hquotient, hnearest⟩ := exists_quotient d.coefficient d.exponent
  have hpos : (0 : ℚ) < den * unitsInOne :=
    mul_pos (Nat.cast_pos.2 hden) (Nat.cast_pos.2 unitsInOne_pos)
  have hlt : x.magnitude < infinity := of_decide_eq_true hfinite
  rw [hmagnitude] at hnearest
  have hx := hnearest.resolve_right fun h => hlt.ne h.1
  have hgap (y : Binary64) := Binary64.gap_nearest hden (hx ▸ hlt) y.magnitude
  simp only [← hx] at hgap
  have hsame := abs_sub_toRat hden hquotient hsign
  have hother := le_abs_sub_toRat hden hquotient
  have hle (y : Binary64) : |d.toRat - x.toRat| ≤ |d.toRat - y.toRat| := by
    rw [hsame]
    refine le_trans (div_le_div_of_nonneg_right (Nat.cast_le.2 ?_) hpos.le) (hother y)
    rcases hgap y with hless | ⟨heq, -⟩
    · exact hless.le
    · exact heq.le
  refine ⟨hfinite, hsign, fun y _ => hle y, fun y _ heq => ?_⟩
  rcases hgap y with hless | ⟨-, hunits | heven⟩
  · have hsteps : (gap num den (units x.magnitude) / (den * unitsInOne) : ℚ) <
        gap num den (units y.magnitude) / (den * unitsInOne) :=
      div_lt_div_of_pos_right (Nat.cast_lt.2 hless) hpos
    exact absurd (hother y) (not_le.2 (heq.trans hsame ▸ hsteps))
  · left
    rcases toRat_eq_or hunits heq with hy | hzero
    · exact hy
    · -- nothing but zero is near to zero
      have hnone := hle ⟨0⟩
      rw [hzero, toRat_zero, sub_zero, abs_zero, zero_sub, abs_neg, abs_nonpos_iff] at hnone
      rw [hzero, hnone, zero_sub, sub_zero, abs_neg, abs_zero, abs_eq_zero] at heq
      rw [heq, hnone]
  · exact .inr heven

/-! ## Overflow -/

/-- The greatest finite float and half a step more. -/
def overflow : ℚ := 2 ^ 1024 - 2 ^ 970

theorem overflow_le_pow : overflow ≤ 10 ^ 400 := by
  have hpow : (2 : ℚ) ^ 1024 ≤ 10 ^ 400 := by
    calc (2 : ℚ) ^ 1024 ≤ 2 ^ 1200 := pow_le_pow_right₀ one_le_two (by decide)
      _ = (2 ^ 3) ^ 400 := pow_mul 2 3 400
      _ ≤ 10 ^ 400 := pow_le_pow_left₀ (by norm_num) (by norm_num) 400
  exact (sub_le_self _ (pow_nonneg zero_le_two 970)).trans hpow

theorem steps_le_quotient {num den k : Nat} (hden : 0 < den)
    (h : (k + 2) * exponentWeight ≤ Binary64.nearest num den) :
    (2 ^ 54 - 1) / 2 * 2 ^ k ≤ (num / den : ℚ) := by
  have hpow : ((Nat.pow 2 k : Nat) : ℚ) = 2 ^ k := Nat.cast_pow 2 k
  have hsteps : ((4 * exponentWeight - 1 : Nat) : ℚ) = 2 ^ 54 - 1 := by norm_num [exponentWeight]
  have hle : (((4 * exponentWeight - 1) * (den * Nat.pow 2 k) : Nat) : ℚ) ≤ (2 * num : Nat) :=
    Nat.cast_le.2 (Binary64.le_of_nearest_overflow h)
  rw [Nat.cast_mul, Nat.cast_mul, Nat.cast_mul, hpow, hsteps, Nat.cast_ofNat] at hle
  rw [le_div_iff₀ (Nat.cast_pos.2 hden)]
  linarith

/-- Only what is at least as large is taken for infinite. -/
theorem overflow_le {c : Nat} {e : Int} (h : magnitude c e = infinity) :
    overflow ≤ c * 10 ^ e := by
  obtain ⟨num, den, hden, hquotient, hnearest | ⟨-, hlarge⟩⟩ := exists_quotient c e
  · have hle : (2045 + 2) * exponentWeight ≤ Binary64.nearest num den :=
      hnearest.symm.trans h ▸ (by decide : (2045 + 2) * exponentWeight ≤ infinity)
    have hadd (a b : ℕ) : (2 : ℚ) ^ (a + b) = 2 ^ a * 2 ^ b := by ring
    have htop : (2 : ℚ) ^ 1024 = 2 ^ 54 * 2 ^ 970 := hadd 54 970
    have hsteps : (2 : ℚ) ^ 2045 = 2 ^ 971 * 2 ^ 1074 := hadd 971 1074
    have hhalf : (2 : ℚ) ^ 971 = 2 ^ 1 * 2 ^ 970 := hadd 1 970
    have hcast (a : ℕ) : ((Nat.pow 2 a : ℕ) : ℚ) = 2 ^ a := Nat.cast_pow 2 a
    have hunits : (unitsInOne : ℚ) = 2 ^ 1074 := by simp only [unitsInOne, hcast]
    have hpos (a : ℕ) : (0 : ℚ) < 2 ^ a := by positivity
    rw [hquotient, hunits, le_div_iff₀ (hpos 1074)]
    refine le_of_eq_of_le ?_ (steps_le_quotient hden hle)
    rw [overflow, htop, hsteps, hhalf]
    generalize (2 : ℚ) ^ 970 = a, (2 : ℚ) ^ 1074 = b
    ring
  · exact overflow_le_pow.trans hlarge

/-- The float that a decimal number is taken for: the nearest one, and infinity from half a step
beyond the greatest finite one on. -/
inductive TakenFor (d : Decimal) (x : Binary64) : Prop
  | finite (h : d.RoundsTo x)
  | infinite (hmagnitude : x.magnitude = infinity) (hsign : x.isNegative = d.negative)
      (hlarge : overflow ≤ |d.toRat|)

theorem magnitude_le_infinity (c : Nat) (e : Int) : magnitude c e ≤ infinity := by
  obtain ⟨num, den, -, -, h | ⟨h, -⟩⟩ := exists_quotient c e
  · rw [h]
    exact Nat.min_le_right _ _
  · exact h.le

theorem takenFor_toBinary64 (d : Decimal) : d.TakenFor d.toBinary64 := by
  have hle := magnitude_le_infinity d.coefficient d.exponent
  have hweight : infinity < Binary64.signWeight := by decide
  obtain ⟨hmagnitude, hsign⟩ : d.toBinary64.magnitude = magnitude d.coefficient d.exponent ∧
      d.toBinary64.isNegative = d.negative :=
    Binary64.fields_ofMagnitude _ (hle.trans_lt hweight)
  rcases Nat.lt_or_eq_of_le hle with hlt | heq
  · exact .finite (roundsTo_of_magnitude hsign hmagnitude.symm
      (decide_eq_true (hmagnitude.trans_lt hlt)))
  · refine .infinite (hmagnitude.trans heq) hsign ?_
    rw [abs_toRat_eq]
    exact overflow_le heq

end Decimal

end LspClient
