import Mathlib.Algebra.Order.Group.Nat
import Mathlib.Tactic.Ring
import Lcmp.Lib.WrappedQuotient

/-!
# Counters that are sampled in few bits

A counter is sampled in units, and a sample keeps the unit count modulo `width`. The difference of two samples is
that of the unit counts as long as these are less than `width` apart, however often the samples have wrapped.
-/

namespace Counter

/-- The difference of two samples, the later one first. -/
def delta (width a b : Nat) : Nat := if a ≥ b then a - b else a + width - b

variable {width unit x y : Nat}

theorem delta_mod (hle : y ≤ x) (hnear : x - y < width) : delta width (x % width) (y % width) = x - y := by
  obtain ⟨d, rfl⟩ := Nat.exists_eq_add_of_le hle
  rw [Nat.add_sub_cancel_left] at hnear ⊢
  have hlow : y % width < width := Nat.mod_lt _ (Nat.zero_lt_of_lt hnear)
  have hlater : (y + d) % width = (y % width + d) % width := (Nat.mod_add_mod y width d).symm
  unfold delta
  rw [hlater]
  by_cases hwrap : y % width + d < width
  · rw [Nat.mod_eq_of_lt hwrap, if_pos (by omega)]
    omega
  · have honce : (y % width + d) % width = y % width + d - width := by
      rw [Nat.mod_eq_sub_mod (Nat.le_of_not_lt hwrap), Nat.mod_eq_of_lt (by omega)]
    rw [honce, if_neg (by omega)]
    omega

/-- Counts of units that lie less than `k` units apart. -/
theorem div_sub_div_lt {k : Nat} (hunit : 0 < unit) (hk : 0 < k) (hnear : x - y < (k - 1) * unit) :
    x / unit - y / unit < k := by
  have hy := Nat.div_add_mod y unit
  have hylow := Nat.mod_lt y hunit
  have hbound : x < unit * (y / unit + k) := by
    obtain ⟨j, rfl⟩ := Nat.exists_eq_add_of_lt hk
    have hsplit : unit * (y / unit + (0 + j + 1)) = unit * (y / unit) + unit + (0 + j + 1 - 1) * unit := by
      rw [Nat.add_sub_cancel]
      ring
    omega
  have hdiv := Nat.div_lt_of_lt_mul hbound
  omega

/-- Whole units are right up to one unit. -/
theorem unit_error (hunit : 0 < unit) (hle : y ≤ x) :
    unit * (x / unit - y / unit) < x - y + unit ∧ x - y < unit * (x / unit - y / unit) + unit := by
  have hx := Nat.div_add_mod x unit
  have hy := Nat.div_add_mod y unit
  have hxlow := Nat.mod_lt x hunit
  have hylow := Nat.mod_lt y hunit
  have hmono : unit * (y / unit) ≤ unit * (x / unit) := Nat.mul_le_mul_left unit (Nat.div_le_div_right hle)
  rw [Nat.mul_sub]
  omega

/-- The count of units that a sample keeps is never too large, and right up to one unit exactly when it fits. -/
theorem sample_spec (hunit : 0 < unit) (hwidth : 0 < width) :
    unit * (x / unit % width) ≤ x ∧ (x < unit * (x / unit % width) + unit ↔ x < unit * width) := by
  have hx := Nat.div_add_mod x unit
  have hxlow := Nat.mod_lt x hunit
  have hsample : unit * (x / unit % width) ≤ unit * (x / unit) := Nat.mul_le_mul_left unit (Nat.mod_le _ _)
  refine ⟨by omega, fun h => ?_, fun h => ?_⟩
  · by_contra hlarge
    have hfull : width ≤ x / unit := (Nat.le_div_iff_mul_le hunit).mpr (by rw [Nat.mul_comm]; omega)
    have hlost := Nat.mul_le_mul_left unit (WrappedQuotient.mod_add_le hfull)
    have hunits : unit ≤ unit * width := Nat.le_mul_of_pos_right unit hwidth
    rw [Nat.mul_add] at hlost
    omega
  · have hfits : x / unit < width := Nat.div_lt_of_lt_mul h
    rw [Nat.mod_eq_of_lt hfits]
    omega

end Counter
