import Mathlib.Data.Nat.Basic

/-!
# Quotients of wrapped products

A program that forms a product in a word and divides it afterwards gets the quotient of the product
modulo the size of the word. That quotient is too small as soon as the product does not fit.
-/

namespace WrappedQuotient

variable {n d M : Nat}

theorem mod_add_le (hwrap : M ≤ n) : n % M + M ≤ n := by
  rcases Nat.eq_zero_or_pos M with rfl | hM
  · rw [Nat.mod_zero]
    exact Nat.le_refl n
  · have hone : 1 ≤ n / M := (Nat.one_le_div_iff hM).mpr hwrap
    calc n % M + M = n % M + M * 1 := by rw [Nat.mul_one]
      _ ≤ n % M + M * (n / M) := Nat.add_le_add_left (Nat.mul_le_mul_left M hone) _
      _ = n := Nat.mod_add_div n M

theorem wrapped_div_lt (hd : 0 < d) (hdM : d ≤ M) (hwrap : M ≤ n) : n % M / d < n / d := by
  have hle : n % M + d ≤ n := Nat.le_trans (Nat.add_le_add_left hdM _) (mod_add_le hwrap)
  calc n % M / d < n % M / d + 1 := Nat.lt_succ_self _
    _ = (n % M + d) / d := (Nat.add_div_right _ hd).symm
    _ ≤ n / d := Nat.div_le_div_right hle

/-- The quotient of the word is the exact one exactly when the product fits. -/
theorem wrapped_div_eq_iff (hd : 0 < d) (hdM : d ≤ M) : n % M / d = n / d ↔ n < M := by
  constructor
  · intro h
    by_contra hwrap
    have hlt := wrapped_div_lt hd hdM (Nat.le_of_not_lt hwrap)
    omega
  · intro hfits
    rw [Nat.mod_eq_of_lt hfits]

end WrappedQuotient
