import Mathlib.Order.Monotone.Basic
import LspClient.Proofs.Number.DecimalText
import LspClient.Proofs.Number.Rounding

/-!
# A number rounds to one float

Rounding to the nearest leaves no choice. Two floats that are nearest to one number are equally
far from it, and both are even, so there is an odd one between them, and that one is nearer
(`Decimal.RoundsTo.unique`). What is beyond the finite floats by half a step or more rounds to
none of them: infinity is nearer than the greatest finite float, or it is as near and the
greatest finite float is odd (`Decimal.RoundsTo.lt_overflow`).

So whoever reports the float that a number rounds to reports the one that reading finds
(`Decimal.RoundsTo.toBinary64_eq`).
-/

namespace LspClient

namespace Binary64

/-! ## Magnitudes in order -/

/-- Magnitudes as steps of `2 ^ e` units: the steps are those of the least numbers, or there
are so many of them that none smaller would do. -/
theorem exists_scaled (m : Nat) : ∃ e f, m = e * exponentWeight + f ∧
    (e = 0 ∨ exponentWeight ≤ f) ∧ f < 2 * exponentWeight := by
  have hmod : m % exponentWeight < exponentWeight := Nat.mod_lt m (by decide)
  have hdiv : m / exponentWeight * exponentWeight + m % exponentWeight = m :=
    Nat.div_add_mod' m exponentWeight
  cases hquotient : m / exponentWeight with
  | zero =>
      rw [hquotient] at hdiv
      exact ⟨0, m, by omega, .inl rfl, by omega⟩
  | succ e =>
      rw [hquotient, Nat.succ_mul] at hdiv
      exact ⟨e, m % exponentWeight + exponentWeight, by omega, .inr (by omega), by omega⟩

/-- A greater magnitude stands for a greater number. -/
theorem units_strictMono : StrictMono units := by
  refine strictMono_nat_of_lt_succ fun m => ?_
  obtain ⟨e, f, rfl, hlow, hhigh⟩ := exists_scaled m
  rw [Nat.add_assoc, units_scaled e hlow (by omega), units_scaled e (by omega) (by omega)]
  exact Nat.mul_lt_mul_of_pos_right (Nat.lt_succ_self f) (Nat.pow_pos (by decide))

/-- Of two numbers that are equally far from a quotient, one between them is nearer. -/
theorem gap_between {num den a u b : Nat} (hden : 0 < den) (ha : a < u) (hb : u < b)
    (h : gap num den a = gap num den b) : gap num den u < gap num den a := by
  have hlow : a * den < u * den := Nat.mul_lt_mul_of_pos_right ha hden
  have hhigh : u * den < b * den := Nat.mul_lt_mul_of_pos_right hb hden
  simp only [gap] at h ⊢
  omega

theorem not_isNaN {x : Binary64} (h : x.magnitude ≤ infinity) : x.isNaN = false :=
  decide_eq_false (Nat.not_lt.2 h)

end Binary64

open Binary64 (gap units unitsInOne infinity exponentWeight)

namespace Decimal

/-! ## Finite floats -/

theorem RoundsTo.magnitude_lt {d : Decimal} {x : Binary64} (h : d.RoundsTo x) :
    x.magnitude < infinity :=
  of_decide_eq_true h.isFinite

theorem RoundsTo.not_isNaN {d : Decimal} {x : Binary64} (h : d.RoundsTo x) : x.isNaN = false :=
  Binary64.not_isNaN h.magnitude_lt.le

theorem magnitude_eq_of_abs {x y : Binary64} (h : |x.toRat| = |y.toRat|) :
    x.magnitude = y.magnitude := by
  have hpos : (unitsInOne : ℚ) ≠ 0 := Nat.cast_ne_zero.2 unitsInOne_pos.ne'
  rw [abs_toRat, abs_toRat, div_left_inj' hpos, Nat.cast_inj] at h
  exact Binary64.units_strictMono.injective h

theorem RoundsTo.magnitude_le {d : Decimal} {x y : Binary64} (hx : d.RoundsTo x)
    (hy : d.RoundsTo y) : y.magnitude ≤ x.magnitude := by
  by_contra hless
  have hlt := Nat.not_le.1 hless
  have hinfinity := hy.magnitude_lt
  have hsame : |d.toRat - x.toRat| = |d.toRat - y.toRat| :=
    le_antisymm (hx.nearest y hy.not_isNaN) (hy.nearest x hx.not_isNaN)
  have hne : x.toRat ≠ y.toRat := fun h => hlt.ne (magnitude_eq_of_abs (congrArg abs h))
  have hxeven := (hx.even y hy.not_isNaN hsame.symm).resolve_left hne.symm
  have hyeven := (hy.even x hx.not_isNaN hsame).resolve_left hne
  -- so there is an odd one between them
  obtain ⟨hmagnitude, hsign⟩ : (Binary64.ofMagnitude d.negative (x.magnitude + 1)).magnitude =
      x.magnitude + 1 ∧
      (Binary64.ofMagnitude d.negative (x.magnitude + 1)).isNegative = d.negative :=
    Binary64.fields_ofMagnitude _ (Nat.lt_trans (by omega) (by decide : infinity < _))
  have hnearest := hx.nearest (.ofMagnitude d.negative (x.magnitude + 1))
    (Binary64.not_isNaN (by omega))
  obtain ⟨num, den, hden, hquotient, -⟩ := exists_quotient d.coefficient d.exponent
  have hpos : (0 : ℚ) < den * unitsInOne :=
    mul_pos (Nat.cast_pos.2 hden) (Nat.cast_pos.2 unitsInOne_pos)
  rw [abs_sub_toRat hden hquotient hx.sign, abs_sub_toRat hden hquotient hy.sign,
    div_left_inj' hpos.ne', Nat.cast_inj] at hsame
  rw [abs_sub_toRat hden hquotient hx.sign, abs_sub_toRat hden hquotient hsign, hmagnitude,
    div_le_div_iff_of_pos_right hpos, Nat.cast_le] at hnearest
  exact absurd hnearest (Nat.not_le.2 (Binary64.gap_between hden
    (Binary64.units_strictMono (Nat.lt_succ_self _)) (Binary64.units_strictMono (by omega)) hsame))

/-- A decimal number rounds to one float at most. -/
theorem RoundsTo.unique {d : Decimal} {x y : Binary64} (hx : d.RoundsTo x) (hy : d.RoundsTo y) :
    x = y := by
  have hmagnitude : x.magnitude = y.magnitude :=
    Nat.le_antisymm (hy.magnitude_le hx) (hx.magnitude_le hy)
  rw [← x.ofMagnitude_magnitude, ← y.ofMagnitude_magnitude, hmagnitude, hx.sign, hy.sign]

/-! ## Beyond the finite floats -/

/-- The greatest finite float is half a step below what is taken for infinite, and infinity
counts as half a step above. -/
theorem overflow_eq :
    2 * overflow = (units (infinity - 1) / unitsInOne + units infinity / unitsInOne : ℚ) := by
  have hgreatest : infinity - 1 = 2045 * exponentWeight + (2 * exponentWeight - 1) := rfl
  have hinfinity : infinity = 2046 * exponentWeight + exponentWeight := rfl
  rw [hgreatest, hinfinity, Binary64.units_scaled 2045 (.inr (by decide)) (by decide),
    Binary64.units_scaled 2046 (.inr le_rfl) (by decide)]
  have hcast (a : ℕ) : ((Nat.pow 2 a : ℕ) : ℚ) = 2 ^ a := Nat.cast_pow 2 a
  have hadd (a b : ℕ) : (2 : ℚ) ^ (a + b) = 2 ^ a * 2 ^ b := by ring
  have hsteps : ((2 * exponentWeight - 1 : ℕ) : ℚ) = 2 ^ 53 - 1 := by norm_num [exponentWeight]
  have hweight : (exponentWeight : ℚ) = 2 ^ 52 := by norm_num [exponentWeight]
  have hunits : (unitsInOne : ℚ) = 2 ^ 1074 := by simp only [unitsInOne, hcast]
  have hpos : (2 : ℚ) ^ 1074 ≠ 0 := by positivity
  have htop : (2 : ℚ) ^ 1024 = 2 ^ 54 * 2 ^ 970 := hadd 54 970
  have hbelow : (2 : ℚ) ^ 2045 = 2 ^ 971 * 2 ^ 1074 := hadd 971 1074
  have habove : (2 : ℚ) ^ 2046 = 2 ^ 972 * 2 ^ 1074 := hadd 972 1074
  have hstep : (2 : ℚ) ^ 971 = 2 ^ 1 * 2 ^ 970 := hadd 1 970
  have hstep' : (2 : ℚ) ^ 972 = 2 ^ 2 * 2 ^ 970 := hadd 2 970
  rw [Nat.cast_mul, Nat.cast_mul, hsteps, hweight, hcast 2045, hcast 2046, hunits, hbelow, habove,
    mul_div_assoc (2 ^ 53 - 1 : ℚ), mul_div_assoc (2 ^ 52 : ℚ), mul_div_cancel_right₀ _ hpos,
    mul_div_cancel_right₀ _ hpos, hstep, hstep',
    overflow, htop]
  generalize (2 : ℚ) ^ 970 = a
  ring

theorem abs_sub_eq {d : Decimal} {x : Binary64} (hsign : x.isNegative = d.negative) :
    |d.toRat - x.toRat| =
      |d.coefficient * 10 ^ d.exponent - (units x.magnitude / unitsInOne : ℚ)| := by
  rw [toRat, Binary64.toRat, hsign, ← mul_sub, abs_mul, abs_sign, one_mul]

/-- What is taken for infinite rounds to no float. -/
theorem RoundsTo.lt_overflow {d : Decimal} {y : Binary64} (hy : d.RoundsTo y) :
    |d.toRat| < overflow := by
  by_contra hlarge
  rw [not_lt, abs_toRat_eq] at hlarge
  obtain ⟨hmagnitude, hsign⟩ : (Binary64.ofMagnitude d.negative infinity).magnitude = infinity ∧
      (Binary64.ofMagnitude d.negative infinity).isNegative = d.negative :=
    Binary64.fields_ofMagnitude _ (by decide)
  have hnotNaN := Binary64.not_isNaN hmagnitude.le
  have hnearest := hy.nearest _ hnotNaN
  have heven := hy.even _ hnotNaN
  have hpos : (0 : ℚ) < unitsInOne := Nat.cast_pos.2 unitsInOne_pos
  have hy_le : (units y.magnitude / unitsInOne : ℚ) ≤ units (infinity - 1) / unitsInOne :=
    div_le_div_of_nonneg_right (Nat.cast_le.2 (Binary64.units_strictMono.monotone
      (Nat.le_sub_one_of_lt hy.magnitude_lt))) hpos.le
  have hlt : (units (infinity - 1) / unitsInOne : ℚ) < units infinity / unitsInOne :=
    div_lt_div_of_pos_right (Nat.cast_lt.2 (Binary64.units_strictMono (by decide))) hpos
  have hoverflow := overflow_eq
  rw [abs_sub_eq hy.sign, abs_sub_eq hsign, hmagnitude] at hnearest heven
  have hbehind : (0 : ℚ) ≤ d.coefficient * 10 ^ d.exponent - units y.magnitude / unitsInOne := by
    linarith
  rw [abs_of_nonneg hbehind] at hnearest heven
  rcases le_total (d.coefficient * 10 ^ d.exponent : ℚ) (units infinity / unitsInOne) with h | h
  · rw [abs_of_nonpos (sub_nonpos.2 h)] at hnearest heven
    -- both are half a step away, and the greatest finite float is odd
    have hgreatest : (units y.magnitude / unitsInOne : ℚ) = units (infinity - 1) / unitsInOne := by
      linarith
    rw [div_left_inj' hpos.ne', Nat.cast_inj] at hgreatest
    have hodd := Binary64.units_strictMono.injective hgreatest
    rcases heven (by linarith) with heq | heq
    · have habs := magnitude_eq_of_abs (congrArg abs heq)
      rw [hmagnitude, hodd] at habs
      exact absurd habs (by decide)
    · rw [hodd] at heq
      exact absurd heq (by decide)
  · rw [abs_of_nonneg (sub_nonneg.2 h)] at hnearest
    linarith

/-- Reading finds the float that a decimal number rounds to. -/
theorem RoundsTo.toBinary64_eq {d : Decimal} {x : Binary64} (hx : d.RoundsTo x) :
    d.toBinary64 = x := by
  rcases takenFor_toBinary64 d with hfinite | ⟨-, -, hlarge⟩
  · exact hfinite.unique hx
  · exact absurd hlarge (not_le.2 hx.lt_overflow)

end Decimal

end LspClient
