import Mathlib.Algebra.BigOperators.Group.Finset.Basic
import Mathlib.Algebra.GroupWithZero.Nat
import Mathlib.Algebra.Order.BigOperators.Group.Finset
import Mathlib.Data.Fintype.Prod

/-!
# Two-dimensional tables

Tables of values indexed by a row and a column, written one cell at a time, and how the sum of a
cell-wise function changes with such a write.
-/

universe u v w

namespace Grid

variable {R : Type u} {C : Type v} {V : Type w} [DecidableEq R] [DecidableEq C]

/-- The table `t` with cell `(r, c)` overwritten by `value`. -/
def set (t : R → C → V) (r : R) (c : C) (value : V) : R → C → V :=
  fun r' c' => if r' = r ∧ c' = c then value else t r' c'

@[simp] theorem set_self (t : R → C → V) (r : R) (c : C) (value : V) :
    set t r c value r c = value := by simp [set]

theorem set_of_ne {t : R → C → V} {r r' : R} {c c' : C} {value : V} (h : ¬(r' = r ∧ c' = c)) :
    set t r c value r' c' = t r' c' := if_neg h

/-- What is left in a table of optional values when a cell is cleared. -/
theorem of_set_none {W : Type w} {t : R → C → Option W} {r r' : R} {c c' : C} {value : W}
    (h : set t r c none r' c' = some value) : ¬(r' = r ∧ c' = c) ∧ t r' c' = some value := by
  by_cases hcell : r' = r ∧ c' = c
  · rw [set, if_pos hcell] at h
    cases h
  · exact ⟨hcell, by rw [← h, set_of_ne hcell]⟩

/-- What a sum becomes when two functions differ at one index only. -/
theorem sum_of_eq_except {I : Type u} [Fintype I] [DecidableEq I] (f g : I → Nat) (i : I)
    (hoff : ∀ j, j ≠ i → f j = g j) : (∑ j, f j) + g i = (∑ j, g j) + f i := by
  have hf := Finset.add_sum_erase Finset.univ f (Finset.mem_univ i)
  have hg := Finset.add_sum_erase Finset.univ g (Finset.mem_univ i)
  have hrest : ∑ j ∈ Finset.univ.erase i, f j = ∑ j ∈ Finset.univ.erase i, g j := by
    apply Finset.sum_congr rfl
    intro j hj
    exact hoff j (Finset.ne_of_mem_erase hj)
  omega

/-- What a sum over all cells becomes when two tables differ in one cell only. -/
theorem sum_of_eq_off [Fintype R] [Fintype C] (f g : R → C → Nat) (r : R) (c : C)
    (hoff : ∀ r' c', ¬(r' = r ∧ c' = c) → f r' c' = g r' c') :
    (∑ x : R × C, f x.1 x.2) + g r c = (∑ x : R × C, g x.1 x.2) + f r c := by
  apply sum_of_eq_except (fun x : R × C => f x.1 x.2) (fun x => g x.1 x.2) (r, c)
  intro x hne
  apply hoff
  rintro ⟨hr, hc⟩
  exact hne (Prod.ext hr hc)

omit [DecidableEq R] [DecidableEq C] in
theorem le_sum [Fintype R] [Fintype C] (f : R → C → Nat) (r : R) (c : C) :
    f r c ≤ ∑ x : R × C, f x.1 x.2 :=
  Finset.single_le_sum (f := fun x : R × C => f x.1 x.2) (fun _ _ => Nat.zero_le _)
    (Finset.mem_univ (r, c))

end Grid
