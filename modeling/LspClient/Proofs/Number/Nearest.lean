import LspClient.Number.Binary64

/-!
# Rounding, where it is exact

Rounding a quotient depends on the quotient alone, not on how it is written,
and a quotient that is a finite magnitude is rounded to that magnitude. With
these two facts everything that reads or writes numbers can move common
factors about and need not look into the rounding.
-/

namespace LspClient.Binary64

/-! ## Only the quotient counts -/

theorem roundHalfEven_scale {c : Nat} (hc : 0 < c) (num den : Nat) :
    roundHalfEven (num * c) (den * c) = roundHalfEven num den := by
  have hlow : 2 * (num % den * c) < den * c ↔ 2 * (num % den) < den := by
    rw [← Nat.mul_assoc]
    exact Nat.mul_lt_mul_right hc
  have hhigh : den * c < 2 * (num % den * c) ↔ den < 2 * (num % den) := by
    rw [← Nat.mul_assoc]
    exact Nat.mul_lt_mul_right hc
  simp only [roundHalfEven, Nat.mul_div_mul_right num den hc, Nat.mul_mod_mul_right, hlow, hhigh]

theorem nearest_scale {c : Nat} (hc : 0 < c) (num den : Nat) :
    nearest (num * c) (den * c) = nearest num den := by
  have hden : ∀ k, den * c * Nat.pow 2 k = den * Nat.pow 2 k * c := fun k => by
    rw [Nat.mul_assoc, Nat.mul_comm c, Nat.mul_assoc]
  rw [nearest, nearest, Nat.mul_div_mul_right num den hc]
  rw [hden, roundHalfEven_scale hc]

/-! ## Exact quotients -/

theorem roundHalfEven_mul {den : Nat} (hden : 0 < den) (q : Nat) :
    roundHalfEven (q * den) den = q := by
  rw [roundHalfEven, Nat.mul_mod_left, Nat.mul_div_cancel q hden]
  exact if_pos hden

theorem log2_scaled {f : Nat} (e : Nat) (hlow : exponentWeight ≤ f)
    (hhigh : f < 2 * exponentWeight) : (f * Nat.pow 2 e).log2 = e + 52 := by
  have hpos : 0 < Nat.pow 2 e := Nat.pow_pos (by decide)
  have hf : f ≠ 0 := Nat.ne_of_gt (Nat.lt_of_lt_of_le (by decide) hlow)
  rw [Nat.log2_eq_iff (Nat.mul_ne_zero hf (Nat.ne_of_gt hpos))]
  constructor
  · calc 2 ^ (e + 52) = exponentWeight * Nat.pow 2 e := by
          rw [Nat.pow_add, Nat.mul_comm]; rfl
      _ ≤ f * Nat.pow 2 e := Nat.mul_le_mul_right _ hlow
  · calc f * Nat.pow 2 e < 2 * exponentWeight * Nat.pow 2 e := Nat.mul_lt_mul_of_pos_right hhigh hpos
      _ = 2 ^ (e + 52 + 1) := by
          rw [Nat.add_assoc, Nat.pow_add, Nat.mul_comm]; rfl

/-- A whole number of steps, if it has 53 binary digits. -/
theorem nearest_scaled {f : Nat} (e : Nat) (hlow : exponentWeight ≤ f)
    (hhigh : f < 2 * exponentWeight) :
    nearest (f * Nat.pow 2 e) 1 = min (e * exponentWeight + f) infinity := by
  have hpos : 0 < Nat.pow 2 e := Nat.pow_pos (by decide)
  rw [nearest, Nat.div_one, log2_scaled e hlow hhigh, Nat.add_sub_cancel, Nat.one_mul,
    roundHalfEven_mul hpos]

/-- A whole number, if it has at most 52 binary digits. -/
theorem nearest_small {m : Nat} (h : m < exponentWeight) : nearest m 1 = m := by
  have hlog : m.log2 - 52 = 0 := by
    cases Nat.eq_zero_or_pos m with
    | inl hzero => rw [hzero]; rfl
    | inr hpos =>
        have : m.log2 < 52 := (Nat.log2_lt (Nat.ne_of_gt hpos)).2 h
        omega
  have hround : roundHalfEven m 1 = m := by
    have := roundHalfEven_mul (by decide : 0 < 1) m
    rwa [Nat.mul_one] at this
  have hbound : m ≤ infinity := Nat.le_of_lt (Nat.lt_trans h (by decide))
  rw [nearest, Nat.div_one, hlog, Nat.zero_mul, Nat.zero_add]
  exact (congrArg (min · infinity) hround).trans (Nat.min_eq_left hbound)

/-- A finite magnitude is rounded to itself. -/
theorem nearest_units {m : Nat} (h : m < infinity) : nearest (units m) 1 = m := by
  rw [units]
  split
  · next hexponent =>
      refine nearest_small ?_
      rcases Nat.div_eq_zero_iff.1 hexponent with hzero | hlt
      · exact absurd hzero (by decide)
      · exact hlt
  · next hexponent =>
      have hmod : m % exponentWeight < exponentWeight := Nat.mod_lt m (by decide)
      have hdiv := Nat.div_add_mod m exponentWeight
      have hsum : (m / exponentWeight - 1) * exponentWeight +
          (m % exponentWeight + exponentWeight) = m := by
        rw [← Nat.sub_one_add_one hexponent, Nat.mul_add, Nat.mul_one, Nat.mul_comm] at hdiv
        omega
      rw [nearest_scaled _ (Nat.le_add_left _ _) (by omega), hsum]
      exact Nat.min_eq_left (Nat.le_of_lt h)

end LspClient.Binary64
