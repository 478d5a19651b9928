import Mathlib.Logic.Relation

/-!
# While loops

A turn of a loop goes on with a new state or leaves with a result. The rules: a measure that goes down makes the
loop end, and what every turn keeps holds where the loop is left.
-/

universe u v

namespace While

variable {σ : Type u} {ρ : Type v}

/-- At most so many turns. -/
def run (body : σ → σ ⊕ ρ) : Nat → σ → Option ρ
  | 0, _ => none
  | n + 1, s =>
      match body s with
      | .inl t => run body n t
      | .inr r => some r

/-- The states at the heads of the turns. -/
def Steps (body : σ → σ ⊕ ρ) : σ → σ → Prop := Relation.ReflTransGen fun s t => body s = .inl t

variable {body : σ → σ ⊕ ρ} {Inv : σ → Prop} {s t : σ} {r : ρ} {n : Nat}

theorem run_of_next (h : body s = .inl t) : run body (n + 1) s = run body n t := by
  simp only [run, h]

theorem run_of_exit (h : body s = .inr r) : run body (n + 1) s = some r := by
  simp only [run, h]

/-- As many turns as the measure says are enough. -/
theorem run_of_measure (μ : σ → Nat)
    (hstep : ∀ s t, Inv s → body s = .inl t → Inv t ∧ μ t < μ s) (hs : Inv s) (hn : μ s < n) :
    ∃ r, run body n s = some r := by
  induction n generalizing s with
  | zero => exact absurd hn (Nat.not_lt_zero _)
  | succ n ih =>
      cases hbody : body s with
      | inl t =>
          obtain ⟨ht, hless⟩ := hstep s t hs hbody
          rw [run_of_next hbody]
          exact ih ht (by omega)
      | inr r => exact ⟨r, run_of_exit hbody⟩

theorem exists_run_of_measure (μ : σ → Nat)
    (hstep : ∀ s t, Inv s → body s = .inl t → Inv t ∧ μ t < μ s) (hs : Inv s) :
    ∃ n r, run body n s = some r :=
  ⟨μ s + 1, run_of_measure μ hstep hs (Nat.lt_succ_self _)⟩

theorem exit_of_run (hstep : ∀ s t, Inv s → body s = .inl t → Inv t) (hs : Inv s) (hrun : run body n s = some r) :
    ∃ t, Inv t ∧ body t = .inr r := by
  induction n generalizing s with
  | zero => cases hrun
  | succ n ih =>
      cases hbody : body s with
      | inl t =>
          rw [run_of_next hbody] at hrun
          exact ih (hstep s t hs hbody) hrun
      | inr r' =>
          rw [run_of_exit hbody] at hrun
          exact ⟨s, hs, hbody.trans (congrArg Sum.inr (Option.some.inj hrun))⟩

theorem Steps.invariant (hsteps : Steps body s t) (hstep : ∀ s t, Inv s → body s = .inl t → Inv t) (hs : Inv s) :
    Inv t := by
  induction hsteps with
  | refl => exact hs
  | tail _ hbody ih => exact hstep _ _ ih hbody

end While
