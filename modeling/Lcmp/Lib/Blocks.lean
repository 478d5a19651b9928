import Mathlib.Data.List.Basic
import Mathlib.Order.Monotone.Basic

/-!
# Consecutive blocks of a list

The slices of a list between borders that do not go down are, one after the other, the slice between the first
and the last border. Borders that are rounded multiples leave no block empty when a step is at least one whole.
-/

universe u

namespace Blocks

variable {α : Type u}

/-- The entries from position `l` on and in front of position `r`. -/
def slice (a : List α) (l r : ℕ) : List α := (a.take r).drop l

theorem slice_append (a : List α) {l m r : ℕ} (hlm : l ≤ m) (hmr : m ≤ r) :
    slice a l m ++ slice a m r = slice a l r := by
  have htake : a.take m = (a.take r).take m := by rw [List.take_take, Nat.min_eq_left hmr]
  have hdrop : (a.take r).drop m = ((a.take r).drop l).drop (m - l) := by
    rw [List.drop_drop, Nat.add_sub_cancel' hlm]
  rw [slice, slice, slice, htake, List.drop_take, hdrop, List.take_append_drop]

theorem flatMap_slice (a : List α) {border : ℕ → ℕ} (hborder : ∀ k, border k ≤ border (k + 1)) (count : ℕ) :
    (List.range count).flatMap (fun k => slice a (border k) (border (k + 1))) = slice a (border 0) (border count) := by
  have hmono : Monotone border := monotone_nat_of_le_succ hborder
  induction count with
  | zero =>
      rw [List.range_zero, List.flatMap_nil, slice, List.drop_eq_nil_of_le]
      rw [List.length_take]
      exact Nat.min_le_left _ _
  | succ count ih =>
      rw [List.range_succ, List.flatMap_append, ih, List.flatMap_singleton,
        slice_append a (hmono (Nat.zero_le count)) (hborder count)]

theorem length_slice (a : List α) (l r : ℕ) : (slice a l r).length = min r a.length - l := by
  rw [slice, List.length_drop, List.length_take]

theorem slice_ne_nil_iff (a : List α) (l r : ℕ) : slice a l r ≠ [] ↔ l < r ∧ l < a.length := by
  rw [← List.length_pos_iff, length_slice]
  omega

end Blocks
