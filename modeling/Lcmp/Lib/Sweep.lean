import Mathlib.Data.List.AList

/-!
# Sweeping a finite map

A walk over all entries of a finite map that erases those a test picks out, one at a time and while
it iterates. A sweep acts on every key on its own. So does an insertion.
-/

universe u v

namespace AList

variable {κ : Type u} {V : Type v} [DecidableEq κ]

/-- The walk: the entries still to visit are `rest`, and `m` is the map as it is by now. -/
def sweepFrom (stale : V → Bool) : List (Sigma fun _ : κ => V) → AList (fun _ : κ => V) →
    AList (fun _ : κ => V)
  | [], m => m
  | e :: rest, m => if stale e.2 then sweepFrom stale rest (m.erase e.1) else sweepFrom stale rest m

/-- Erase every entry whose value is stale. -/
def sweep (stale : V → Bool) (m : AList (fun _ : κ => V)) : AList (fun _ : κ => V) :=
  sweepFrom stale m.entries m

theorem lookup_sweepFrom_of_notMem (stale : V → Bool) (a : κ) (rest : List (Sigma fun _ : κ => V))
    (m : AList (fun _ : κ => V)) (ha : a ∉ rest.keys) :
    (sweepFrom stale rest m).lookup a = m.lookup a := by
  induction rest generalizing m with
  | nil => rfl
  | cons e rest ih =>
      rw [List.keys_cons, List.mem_cons, not_or] at ha
      rw [sweepFrom]
      split
      · rw [ih _ ha.2, lookup_erase_ne ha.1]
      · exact ih m ha.2

theorem lookup_sweepFrom_of_mem (stale : V → Bool) {e : Sigma fun _ : κ => V}
    (rest : List (Sigma fun _ : κ => V)) (m : AList (fun _ : κ => V)) (he : e ∈ rest)
    (hnodup : rest.NodupKeys) (hm : m.lookup e.1 = some e.2) :
    (sweepFrom stale rest m).lookup e.1 = if stale e.2 then none else some e.2 := by
  induction rest generalizing m with
  | nil => cases he
  | cons x rest ih =>
      obtain ⟨hx, hrest⟩ := List.nodupKeys_cons.mp hnodup
      rw [sweepFrom]
      rcases List.mem_cons.mp he with rfl | he
      · split
        · rw [lookup_sweepFrom_of_notMem stale _ _ _ hx, lookup_erase]
        · rw [lookup_sweepFrom_of_notMem stale _ _ _ hx, hm]
      · have hne : e.1 ≠ x.1 := fun heq => hx (heq ▸ List.mem_keys_of_mem he)
        split
        · exact ih _ he hrest ((lookup_erase_ne hne).trans hm)
        · exact ih m he hrest hm

/-- What a sweep leaves under a key: the value that was there, unless it is stale. -/
theorem lookup_sweep (stale : V → Bool) (m : AList (fun _ : κ => V)) (a : κ) :
    (sweep stale m).lookup a = (m.lookup a).filter fun v => !stale v := by
  rcases h : m.lookup a with _ | v
  · have ha : a ∉ m.entries.keys := lookup_eq_none.mp h
    rw [sweep, lookup_sweepFrom_of_notMem stale a _ _ ha, h]
    rfl
  · have hmem : (⟨a, v⟩ : Sigma fun _ : κ => V) ∈ m.entries := mem_lookup_iff.mp h
    rw [sweep, lookup_sweepFrom_of_mem stale m.entries m hmem m.nodupKeys h]
    cases hv : stale v with
    | false => simp [Option.filter, hv]
    | true => simp [Option.filter, hv]

/-- What is found after an insertion is the new value under its key or was there before. -/
theorem lookup_insert_cases {m : AList (fun _ : κ => V)} {a b : κ} {v w : V}
    (h : (m.insert a v).lookup b = some w) : b = a ∧ w = v ∨ m.lookup b = some w := by
  by_cases hb : b = a
  · subst hb
    rw [lookup_insert, Option.some.injEq] at h
    exact .inl ⟨rfl, h.symm⟩
  · rw [lookup_insert_ne hb] at h
    exact .inr h

end AList
