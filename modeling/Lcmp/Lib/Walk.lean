import Mathlib.Data.List.Nodup
import Mathlib.Logic.Function.Iterate

/-!
# Walks that refresh every cell

A table of cells is visited along a list. Each visit first refreshes all cells, then marks the cell
it is at. When marking commutes with refreshing a fresh cell, the order of the visits does not matter
for the table that is left; it does for what each visit gets to see.
-/

universe u v

namespace Walk

variable {ι : Type u} {σ : Type v} [DecidableEq ι]

/-- A loop over distinct cells that rewrites each of them from its own value. -/
theorem foldl_update_apply (f : ι → σ → σ) (cells : List ι) (hnodup : cells.Nodup) (c : ι → σ)
    (i : ι) :
    cells.foldl (fun c j => Function.update c j (f j (c j))) c i =
      if i ∈ cells then f i (c i) else c i := by
  induction cells generalizing c with
  | nil => rfl
  | cons j cells ih =>
      obtain ⟨hj, hcells⟩ := List.nodup_cons.mp hnodup
      rw [List.foldl_cons, ih hcells]
      by_cases hij : i = j
      · subst hij
        rw [if_neg hj, if_pos List.mem_cons_self, Function.update_self]
      · rw [Function.update_of_ne hij]
        simp only [List.mem_cons, hij, false_or]

variable (refresh mark : ι → σ → σ)

def visit (c : ι → σ) (i : ι) : ι → σ :=
  Function.update (fun j => refresh j (c j)) i (mark i (refresh i (c i)))

/-- The table after a walk. -/
def walk (c : ι → σ) (cells : List ι) : ι → σ := cells.foldl (visit refresh mark) c

/-- What each visit sees of its own cell once it has marked it. -/
def seen : (ι → σ) → List ι → List (ι × σ)
  | _, [] => []
  | c, i :: cells => (i, mark i (refresh i (c i))) :: seen (visit refresh mark c i) cells

theorem visit_self (c : ι → σ) (i : ι) : visit refresh mark c i i = mark i (refresh i (c i)) :=
  Function.update_self ..

theorem visit_of_ne (c : ι → σ) {i j : ι} (h : j ≠ i) : visit refresh mark c i j = refresh j (c j) :=
  Function.update_of_ne h ..

variable {refresh mark}

omit [DecidableEq ι] in
/-- Refreshing again after a mark is marking after the refreshes. -/
theorem iterate_refresh_mark (hcomm : ∀ i s, refresh i (mark i (refresh i s)) = mark i (refresh i (refresh i s)))
    (i : ι) (n : Nat) (s : σ) :
    (refresh i)^[n] (mark i (refresh i s)) = mark i ((refresh i)^[n] (refresh i s)) := by
  induction n generalizing s with
  | zero => rfl
  | succ n ih => rw [Function.iterate_succ_apply, hcomm, ih, ← Function.iterate_succ_apply (refresh i)]

omit [DecidableEq ι] in
theorem iterate_refresh_marks (hcomm : ∀ i s, refresh i (mark i (refresh i s)) = mark i (refresh i (refresh i s)))
    (i : ι) (n m : Nat) (s : σ) :
    (mark i)^[m] ((refresh i)^[n] (mark i (refresh i s))) =
      (mark i)^[m + 1] ((refresh i)^[n + 1] s) := by
  rw [iterate_refresh_mark hcomm, ← Function.iterate_succ_apply (refresh i),
    ← Function.iterate_succ_apply (mark i)]

/-- After a walk a cell has been refreshed at every visit and marked at its own ones. -/
theorem walk_apply (hcomm : ∀ i s, refresh i (mark i (refresh i s)) = mark i (refresh i (refresh i s)))
    (c : ι → σ) (cells : List ι) (i : ι) :
    walk refresh mark c cells i = (mark i)^[cells.count i] ((refresh i)^[cells.length] (c i)) := by
  induction cells generalizing c with
  | nil => rfl
  | cons j cells ih =>
      have hwalk : walk refresh mark c (j :: cells) = walk refresh mark (visit refresh mark c j) cells := rfl
      rw [hwalk, ih]
      by_cases hij : i = j
      · subst hij
        rw [visit_self, iterate_refresh_marks hcomm, List.count_cons_self, List.length_cons]
      · rw [visit_of_ne _ _ _ hij, ← Function.iterate_succ_apply (refresh i),
          List.count_cons_of_ne (Ne.symm hij), List.length_cons]

/-- The order of the visits does not matter for the table that is left. -/
theorem walk_perm (hcomm : ∀ i s, refresh i (mark i (refresh i s)) = mark i (refresh i (refresh i s)))
    (c : ι → σ) {cells cells' : List ι} (h : cells.Perm cells') :
    walk refresh mark c cells = walk refresh mark c cells' := by
  funext i
  rw [walk_apply hcomm, walk_apply hcomm, h.count_eq, h.length_eq]

/-- On a walk over distinct cells, the visit at position `k` sees its cell refreshed `k + 1` times. -/
theorem seen_getElem (refresh mark : ι → σ → σ) (c : ι → σ) (cells : List ι) (hnodup : cells.Nodup) (k : Nat)
    (hk : k < cells.length) :
    (seen refresh mark c cells)[k]? = some (cells[k], mark cells[k] ((refresh cells[k])^[k + 1] (c cells[k]))) := by
  induction cells generalizing c k with
  | nil => cases hk
  | cons i cells ih =>
      obtain ⟨hi, hcells⟩ := List.nodup_cons.mp hnodup
      cases k with
      | zero => rfl
      | succ k =>
          have hk' : k < cells.length := Nat.lt_of_succ_lt_succ hk
          have hne : cells[k] ≠ i := fun he => hi (he ▸ List.getElem_mem hk')
          have hstep := ih (visit refresh mark c i) hcells k hk'
          rw [visit_of_ne _ _ _ hne, ← Function.iterate_succ_apply (refresh cells[k])] at hstep
          exact hstep

theorem length_seen (c : ι → σ) (cells : List ι) : (seen refresh mark c cells).length = cells.length := by
  induction cells generalizing c with
  | nil => rfl
  | cons i cells ih => rw [seen, List.length_cons, List.length_cons, ih]

end Walk
