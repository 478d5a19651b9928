import Mathlib.Data.List.Sort

/-!
# Ranks in a list

The rank of a value in a list under a total order is the number of elements strictly before it. It does
not depend on how the list is arranged, and the first `h` elements of the sorted list are those of a
rank below `h`.
-/

namespace Rank

variable {α : Type} (r : α → α → Prop) [DecidableRel r]

def rank (l : List α) (x : α) : Nat := l.countP fun y => ¬ r x y

theorem rank_perm {l l' : List α} (h : l.Perm l') (x : α) : rank r l x = rank r l' x :=
  h.countP_eq _

variable {r}

theorem rank_cons_of_not {a x : α} (l : List α) (h : ¬ r x a) : rank r (a :: l) x = rank r l x + 1 :=
  List.countP_cons_of_pos (by simpa using h)

/-- Nothing is strictly before a value that is related to everything. -/
theorem rank_eq_zero {l : List α} {x : α} (h : ∀ y ∈ l, r x y) : rank r l x = 0 := by
  rw [rank, List.countP_eq_zero]
  intro y hy
  simpa using h y hy

theorem mem_take_iff_rank_lt (hrefl : ∀ x, r x x) (hanti : ∀ x y, r x y → r y x → x = y) {l : List α}
    (hsorted : l.Pairwise r) (x : α) (h : Nat) : x ∈ l.take h ↔ x ∈ l ∧ rank r l x < h := by
  induction l generalizing h with
  | nil => simp
  | cons a l ih =>
      obtain ⟨hhead, htail⟩ := List.pairwise_cons.mp hsorted
      cases h with
      | zero => simp
      | succ h =>
          rw [List.take_succ_cons, List.mem_cons, List.mem_cons, ih htail h]
          by_cases hxa : x = a
          · subst hxa
            have hzero : rank r (x :: l) x = 0 := by
              refine rank_eq_zero fun y hy => ?_
              rcases List.mem_cons.mp hy with rfl | hy
              · exact hrefl y
              · exact hhead y hy
            simp only [hzero, true_or, Nat.zero_lt_succ, and_self]
          · simp only [hxa, false_or]
            refine and_congr_right fun hx => ?_
            have hnot : ¬ r x a := fun hrel => hxa (hanti x a hrel (hhead x hx))
            rw [rank_cons_of_not l hnot, Nat.add_lt_add_iff_right]

end Rank
