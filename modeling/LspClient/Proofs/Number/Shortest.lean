import LspClient.Number.Decimal
import LspClient.Proofs.Number.Nearest

/-!
# The shortest digits read back

The digits that are written for a number are found by a search through decimal
grids. The search takes no grid point that does not read back, and on the
finest grid the exact value is a grid point; so what it finds reads back,
whichever grid it stops at (`shortest_readsBack`).

Reading has the same quotient before it, written with other factors. Where the
digits end behind the point, the factor is a power of ten. Where they end in
front of it, zeros are filled in up to the point and one more behind it, which
makes the coefficient larger by a power of ten and the exponent one less than
nothing.
-/

namespace LspClient

open Binary64 (nearest nearest_scale unitsInOne infinity units)

namespace Decimal

/-! ## Powers

The powers that the finest grid brings in are large. They are handled by their
laws, never by their values. -/

theorem pow_pos {b : Nat} (hb : 0 < b) (n : Nat) : 0 < Nat.pow b n :=
  Nat.pow_pos hb

theorem pow_add (b m n : Nat) : Nat.pow b (m + n) = Nat.pow b m * Nat.pow b n :=
  Nat.pow_add b m n

theorem pow_ten (n : Nat) : Nat.pow 10 n = Nat.pow 5 n * Nat.pow 2 n :=
  Nat.mul_pow 5 2 n

theorem stepsPerUnit_pos : 0 < stepsPerUnit := by
  rw [stepsPerUnit]
  exact pow_pos (by decide) finest

theorem unitsInOne_pos : 0 < unitsInOne := by
  rw [unitsInOne]
  exact pow_pos (by decide) 1074

/-- The steps of the finest grid in one. -/
theorem pow_finest : Nat.pow 10 finest = stepsPerUnit * unitsInOne := by
  rw [pow_ten, stepsPerUnit, unitsInOne, finest]

/-! ## What is found reads back -/

theorem onGrid?_reads {reads : Nat → Nat → Bool} {w k d : Nat}
    (h : onGrid? reads w k = some d) : reads d k = true := by
  rw [onGrid?] at h
  split at h
  · next hlow hhigh =>
      cases h
      split
      · exact hlow
      · exact hhigh
  · next hlow _ =>
      cases h
      exact hlow
  · next _ hhigh =>
      cases h
      exact hhigh
  · cases h

theorem firstGrid_reads {reads : Nat → Nat → Bool} {w : Nat} (hexact : reads w 0 = true)
    (k : Nat) : reads (firstGrid reads w k).1 (firstGrid reads w k).2 = true := by
  induction k with
  | zero => exact hexact
  | succ k ih =>
      rw [firstGrid]
      split
      · next d hd => exact onGrid?_reads hd
      · exact ih

/-- The exact value reads back. -/
theorem readsBack_exact {m : Nat} (h : m < infinity) :
    readsBack m (units m * stepsPerUnit) 0 = true := by
  have hscale := nearest_scale stepsPerUnit_pos (units m) 1
  have hone : Nat.pow 10 0 = 1 := rfl
  rw [Nat.one_mul, Binary64.nearest_units h] at hscale
  rw [readsBack, hone, Nat.mul_one, hscale, beq_iff_eq]

/-- The shortest digits, with the number of the grid that they are on. -/
theorem shortest_readsBack {m : Nat} (h : m < infinity) :
    ∃ d, ∃ k : Nat, shortest m = (d, (k : Int) - finest) ∧ readsBack m d k = true :=
  ⟨_, _, rfl, firstGrid_reads (readsBack_exact h) _⟩

/-! ## The quotient before rounding -/

theorem nearest_tiny {num den : Nat} (h : 2 * num < den) : nearest num den = 0 := by
  have hdiv : num / den = 0 := Nat.div_eq_of_lt (by omega)
  have hmod : num % den = num := Nat.mod_eq_of_lt (by omega)
  have hlog : (0 : Nat).log2 - 52 = 0 := rfl
  have hone : den * Nat.pow 2 0 = den := Nat.mul_one den
  rw [nearest, hdiv, hlog, hone, Binary64.roundHalfEven, hdiv, hmod, if_pos h]
  rfl

/-- Where rounding is not tried, it would come to zero. -/
theorem nearest_cutoff {c k : Nat} (h : c.log2 + 1077 ≤ 3 * (k + 1)) :
    nearest (c * unitsInOne) (Nat.pow 10 (k + 1)) = 0 := by
  refine nearest_tiny ?_
  have hc : c < Nat.pow 2 (c.log2 + 1) := Nat.lt_log2_self
  have hfactor : 2 * Nat.pow 2 (c.log2 + 1) = Nat.pow 2 (c.log2 + 2) := Nat.mul_comm 2 _
  calc 2 * (c * unitsInOne) < 2 * (Nat.pow 2 (c.log2 + 1) * unitsInOne) :=
        Nat.mul_lt_mul_of_pos_left (Nat.mul_lt_mul_of_pos_right hc unitsInOne_pos) (by decide)
    _ = Nat.pow 2 (c.log2 + 2 + 1074) := by
        rw [unitsInOne, ← Nat.mul_assoc, hfactor, ← pow_add]
    _ ≤ Nat.pow 2 (3 * (k + 1)) := Nat.pow_le_pow_right (by decide) (by omega)
    _ = Nat.pow 8 (k + 1) := Nat.pow_mul 2 3 (k + 1)
    _ ≤ Nat.pow 10 (k + 1) := Nat.pow_le_pow_left (by decide) _

theorem magnitude_negSucc {c : Nat} (hc : c ≠ 0) (k : Nat) :
    magnitude c (.negSucc k) = nearest (c * unitsInOne) (Nat.pow 10 (k + 1)) := by
  rw [magnitude, if_neg hc]
  split
  · next h => rw [nearest_cutoff h]
  · rfl

theorem ne_zero_of_readsBack {m d k : Nat} (hm : m ≠ 0) (h : readsBack m d k = true) : d ≠ 0 := by
  rintro rfl
  rw [readsBack, Nat.zero_mul, beq_iff_eq, nearest_tiny stepsPerUnit_pos] at h
  exact hm h.symm

/-- Digits behind the point. -/
theorem magnitude_of_fraction {m d k j : Nat} (hm : m ≠ 0) (h : readsBack m d k = true)
    (hk : k + (j + 1) = finest) : magnitude d (.negSucc j) = m := by
  have hpow : Nat.pow 10 (j + 1) * Nat.pow 10 k = stepsPerUnit * unitsInOne := by
    rw [← pow_finest, ← hk, pow_add 10 k, Nat.mul_comm]
  calc magnitude d (.negSucc j)
      = nearest (d * unitsInOne) (Nat.pow 10 (j + 1)) :=
        magnitude_negSucc (ne_zero_of_readsBack hm h) j
    _ = nearest (d * unitsInOne * Nat.pow 10 k) (Nat.pow 10 (j + 1) * Nat.pow 10 k) :=
        (nearest_scale (pow_pos (by decide) k) _ _).symm
    _ = nearest (d * Nat.pow 10 k * unitsInOne) (stepsPerUnit * unitsInOne) := by
        rw [hpow, Nat.mul_right_comm]
    _ = nearest (d * Nat.pow 10 k) stepsPerUnit := nearest_scale unitsInOne_pos _ _
    _ = m := beq_iff_eq.1 h

/-- Digits before the point, zeros up to it and one behind it. -/
theorem magnitude_of_whole {m d i : Nat} (hm : m ≠ 0)
    (h : readsBack m d (finest + i) = true) :
    magnitude (d * Nat.pow 10 (i + 1)) (.negSucc 0) = m := by
  have hne : d * Nat.pow 10 (i + 1) ≠ 0 :=
    Nat.mul_ne_zero (ne_zero_of_readsBack hm h) (Nat.ne_of_gt (pow_pos (by decide) (i + 1)))
  have hpow : Nat.pow 10 (finest + i) = stepsPerUnit * unitsInOne * Nat.pow 10 i := by
    rw [pow_add, pow_finest]
  calc magnitude (d * Nat.pow 10 (i + 1)) (.negSucc 0)
      = nearest (d * Nat.pow 10 (i + 1) * unitsInOne) (Nat.pow 10 1) := magnitude_negSucc hne 0
    _ = nearest (d * Nat.pow 10 i * unitsInOne * 10) (1 * 10) := by
        rw [pow_add, ← Nat.mul_assoc, Nat.mul_right_comm]
    _ = nearest (d * Nat.pow 10 i * unitsInOne) 1 := nearest_scale (by decide) _ _
    _ = nearest (d * Nat.pow 10 i * unitsInOne * stepsPerUnit) (1 * stepsPerUnit) :=
        (nearest_scale stepsPerUnit_pos _ _).symm
    _ = nearest (d * Nat.pow 10 (finest + i)) stepsPerUnit := by
        rw [hpow, Nat.one_mul, Nat.mul_assoc d, Nat.mul_comm (Nat.pow 10 i),
          Nat.mul_comm stepsPerUnit, Nat.mul_assoc d, Nat.mul_right_comm]
    _ = m := beq_iff_eq.1 h

end Decimal

end LspClient
