import Mathlib.Algebra.Order.Group.Unbundled.Int
import Mathlib.Algebra.Order.Group.Unbundled.Abs
import Mathlib.Logic.Function.Iterate
import Mathlib.Tactic.Positivity
import Mathlib.Tactic.Linarith

/-!
# Exponential smoothing with floors

The filter `t ↦ t - ⌊t / 2 ^ k⌋ + ⌊d / 2 ^ k⌋` of an integer signal `d`. Both quotients are rounded
towards minus infinity. A constant signal is a fixed point and the filter is monotone in both
arguments, which bounds it by its inputs on both sides. With no signal it settles in `0 .. 2 ^ k - 1`.
-/

namespace Smoothing

variable {k : Nat} {t t' d d' b : Int}

def smooth (k : Nat) (t d : Int) : Int := t - t / 2 ^ k + d / 2 ^ k

theorem smooth_self (k : Nat) (b : Int) : smooth k b b = b := by
  rw [smooth, Int.sub_add_cancel]

private theorem two_pow_pos (k : Nat) : (0 : Int) < 2 ^ k := by positivity

theorem sub_div_mono (k : Nat) (h : t ≤ t') : t - t / 2 ^ k ≤ t' - t' / 2 ^ k := by
  have hk := two_pow_pos k
  have hquot : t' / 2 ^ k ≤ t / 2 ^ k + (t' - t) := by
    calc t' / 2 ^ k ≤ (t + (t' - t) * 2 ^ k) / 2 ^ k := by
          refine Int.ediv_le_ediv hk ?_
          have hmul : (t' - t) * 1 ≤ (t' - t) * 2 ^ k := Int.mul_le_mul_of_nonneg_left hk (by omega)
          omega
      _ = t / 2 ^ k + (t' - t) := Int.add_mul_ediv_right _ _ (by omega)
  omega

theorem smooth_mono (k : Nat) (ht : t ≤ t') (hd : d ≤ d') : smooth k t d ≤ smooth k t' d' :=
  Int.add_le_add (sub_div_mono k ht) (Int.ediv_le_ediv (two_pow_pos k) hd)

theorem smooth_le (ht : t ≤ b) (hd : d ≤ b) : smooth k t d ≤ b := by
  calc smooth k t d ≤ smooth k b b := smooth_mono k ht hd
    _ = b := smooth_self k b

theorem le_smooth (ht : b ≤ t) (hd : b ≤ d) : b ≤ smooth k t d := by
  calc b = smooth k b b := (smooth_self k b).symm
    _ ≤ smooth k t d := smooth_mono k ht hd

/-- The filter stays within the bound of its signal. -/
theorem abs_smooth_le (ht : |t| ≤ b) (hd : |d| ≤ b) : |smooth k t d| ≤ b := by
  rw [abs_le] at ht hd ⊢
  exact ⟨le_smooth ht.1 hd.1, smooth_le ht.2 hd.2⟩

/-! ### No signal -/

def Settled (k : Nat) (t : Int) : Prop := 0 ≤ t ∧ t < 2 ^ k

theorem smooth_zero (k : Nat) (t : Int) : smooth k t 0 = t - t / 2 ^ k := by
  rw [smooth, Int.zero_ediv, Int.add_zero]

theorem Settled.smooth_zero (h : Settled k t) : smooth k t 0 = t := by
  rw [Smoothing.smooth_zero, Int.ediv_eq_zero_of_lt h.1 h.2, Int.sub_zero]

/-- Outside the interval the filter moves towards zero and does not cross it. -/
theorem abs_smooth_zero_lt (h : ¬ Settled k t) : |smooth k t 0| < |t| := by
  have hk := two_pow_pos k
  rw [Smoothing.smooth_zero]
  rcases lt_or_ge t 0 with hneg | hnonneg
  · have hquot : t / 2 ^ k < 0 := Int.ediv_neg_of_neg_of_pos hneg hk
    have hmono := sub_div_mono k (Int.le_of_lt hneg)
    rw [Int.zero_ediv, Int.sub_zero] at hmono
    rw [abs_of_neg hneg, abs_of_nonpos hmono]
    omega
  · have hlarge : 2 ^ k ≤ t := by
      by_contra hsmall
      exact h ⟨hnonneg, Int.not_le.mp hsmall⟩
    have hquot : 2 ^ k / 2 ^ k ≤ t / 2 ^ k := Int.ediv_le_ediv hk hlarge
    rw [Int.ediv_self (by omega)] at hquot
    have hmono := sub_div_mono k hnonneg
    rw [Int.zero_ediv, Int.sub_zero] at hmono
    rw [abs_of_nonneg hnonneg, abs_of_nonneg hmono]
    omega

/-- Each step without a signal leaves the filter settled or brings it closer to zero: after `n` steps
the rest of the way is shorter by `n`. -/
theorem settled_or_abs_add_le {n : Nat} (h : Settled k t ∨ |t| + n ≤ b) :
    Settled k (smooth k t 0) ∨ |smooth k t 0| + (n + 1 : Nat) ≤ b := by
  by_cases hsettled : Settled k t
  · rw [hsettled.smooth_zero]
    exact Or.inl hsettled
  · have hlt := abs_smooth_zero_lt hsettled
    have hle := h.resolve_left hsettled
    refine Or.inr ?_
    push_cast
    omega

end Smoothing
