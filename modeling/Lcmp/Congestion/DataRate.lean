import Lcmp.Lib.Extended
import Mathlib.Algebra.Order.Floor.Semifield

/-!
# Rates

`DataRate` of `data-rate.cc` with its arithmetic read exactly: a rate is a whole number of bits per
second without a width, and the product or quotient of a rate and a `double` is the whole part of the
rational result.
-/

namespace Lcmp

abbrev DataRate := Nat

namespace DataRate

/-- `operator*` of a rate and a `double`. -/
def mul (d : DataRate) (c : Rat) : DataRate := ⌊(d : Rat) * c⌋₊

/-- `operator/` of a rate and a `double`. -/
def div (d : DataRate) (c : Rat) : DataRate := ⌊(d : Rat) / c⌋₊

/-- The constructor for a `double`. It is left open by `undefined` what becomes of a value that has no conversion. -/
def ofDouble (undefined : Extended → Option DataRate) (x : Extended) : Option DataRate :=
  match x with
  | .fin r => if -1 < r then some ⌊r⌋₊ else undefined x
  | x => undefined x

/-- Where only numbers have a conversion. -/
theorem ofDouble_number {undefined : Extended → Option DataRate} (hnone : ∀ x, undefined x = none) {x : Extended}
    {d : DataRate} (h : ofDouble undefined x = some d) : ∃ r, x = .fin r ∧ d = ⌊r⌋₊ := by
  cases x with
  | nan => exact absurd (h.symm.trans (hnone _)) (Option.some_ne_none d)
  | inf s => exact absurd (h.symm.trans (hnone _)) (Option.some_ne_none d)
  | fin r =>
      simp only [ofDouble, hnone] at h
      split at h
      · exact ⟨r, rfl, (Option.some.inj h).symm⟩
      · cases h

@[simp] theorem mul_eq_self (d : DataRate) : mul d 1 = d := by
  simp only [mul]
  rw [mul_one, Nat.floor_natCast]

/-- A factor of at most one does not raise a rate. -/
theorem mul_le (d : DataRate) {c : Rat} (h : c ≤ 1) : mul d c ≤ d := by
  apply Nat.floor_le_of_le
  exact mul_le_of_le_one_right (Nat.cast_nonneg d) h

@[simp] theorem div_two (d : DataRate) : div d 2 = d / 2 := by
  simp only [div]
  exact_mod_cast Nat.floor_div_eq_div (K := Rat) d 2

end DataRate

end Lcmp
