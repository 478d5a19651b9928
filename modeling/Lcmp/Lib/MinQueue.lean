import Mathlib.Data.List.MinMax
import Mathlib.Data.List.Perm.Basic

/-!
# Queues that give their least element

The elements of a queue in any order, of which the least one is taken.
-/

universe u

namespace MinQueue

variable {α : Type u} [LinearOrder α]

/-- The least element, and the others. -/
def pop (q : List α) : Option (α × List α) := (q.argmin id).map fun m => (m, q.erase m)

/-- Nothing in the queue comes before `m`. -/
def Behind (m : α) (q : List α) : Prop := ∀ b ∈ q, m ≤ b

variable {q rest : List α} {m : α}

theorem perm_of_pop (h : pop q = some (m, rest)) : q.Perm (m :: rest) := by
  obtain ⟨m', hm, hpair⟩ := Option.map_eq_some_iff.mp h
  obtain ⟨rfl, rfl⟩ := Prod.mk.injEq _ _ _ _ ▸ hpair
  exact List.perm_cons_erase (List.argmin_mem hm)

theorem behind_of_pop (h : pop q = some (m, rest)) : Behind m rest := by
  have hperm := perm_of_pop h
  obtain ⟨m', hm, hpair⟩ := Option.map_eq_some_iff.mp h
  obtain ⟨rfl, rfl⟩ := Prod.mk.injEq _ _ _ _ ▸ hpair
  exact fun b hb => List.le_of_mem_argmin (f := id) (hperm.mem_iff.mpr (List.mem_cons_of_mem _ hb)) hm

end MinQueue
