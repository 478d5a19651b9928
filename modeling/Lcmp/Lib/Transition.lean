import Mathlib.Data.List.Basic

/-!
# Labelled transition systems

A system starts in one state and moves by a partial function of the state and a label: the label
carries everything the outside world chooses, so the same state and label always give the same
step. A run records its transitions. Besides the usual invariant rule there are two rules for runs
whose steps meet a side condition: the invariant under a guard, and the equivalence between
"every state visited is good" and "every step met the guard".
-/

universe u v w

/-- A step as it happened: the state before, the label and the state after. -/
structure Transition (σ : Type u) (α : Type v) where
  pre : σ
  label : α
  post : σ

/-- A start state and a partial step function. -/
structure System (σ : Type u) (α : Type v) where
  init : σ
  next : σ → α → Option σ

namespace System

variable {σ : Type u} {α : Type v} {M : System σ α}

/-- `M.Run s trace t`: the transitions of `trace`, in order, lead from `s` to `t`. -/
inductive Run (M : System σ α) : σ → List (Transition σ α) → σ → Prop where
  | nil (s : σ) : Run M s [] s
  | cons {s t u : σ} {a : α} {trace : List (Transition σ α)} (hstep : M.next s a = some t)
      (hrest : Run M t trace u) : Run M s (⟨s, a, t⟩ :: trace) u

/-- The states some run from the start leads to. -/
def Reachable (M : System σ α) (t : σ) : Prop := ∃ trace, M.Run M.init trace t

/-- Follow a list of labels, stopping at the first one that is not enabled. -/
def exec (M : System σ α) : σ → List α → Option σ
  | s, [] => some s
  | s, a :: as => (M.next s a).bind fun t => exec M t as

theorem Run.of_exec (as : List α) {s t : σ} (h : M.exec s as = some t) :
    ∃ trace, M.Run s trace t ∧ trace.map Transition.label = as := by
  induction as generalizing s with
  | nil =>
      obtain rfl : s = t := Option.some.inj h
      exact ⟨[], .nil s, rfl⟩
  | cons a as ih =>
      obtain ⟨mid, hmid, hrest⟩ := Option.bind_eq_some_iff.mp h
      obtain ⟨trace, hrun, hlabels⟩ := ih hrest
      exact ⟨_, .cons hmid hrun, by rw [List.map_cons, hlabels]⟩

/-- The labels can be followed to their end, and every step on the way meets a condition. -/
def checked (M : System σ α) (C : Transition σ α → Bool) : σ → List α → Bool
  | _, [] => true
  | s, a :: as =>
      match M.next s a with
      | none => false
      | some t => C ⟨s, a, t⟩ && checked M C t as

theorem Run.of_checked {C : Transition σ α → Bool} (as : List α) {s : σ} (h : M.checked C s as = true) :
    ∃ trace t, M.Run s trace t ∧ trace.map Transition.label = as ∧ M.exec s as = some t ∧ ∀ x ∈ trace, C x = true := by
  induction as generalizing s with
  | nil => exact ⟨[], s, .nil s, rfl, rfl, by simp⟩
  | cons a as ih =>
      rw [checked] at h
      cases hnext : M.next s a with
      | none => simp [hnext] at h
      | some mid =>
          simp only [hnext, Bool.and_eq_true] at h
          obtain ⟨trace, t, hrun, hlabels, hexec, hall⟩ := ih h.2
          refine ⟨_, t, .cons hnext hrun, by rw [List.map_cons, hlabels], ?_, ?_⟩
          · rw [exec, hnext]
            exact hexec
          · exact List.forall_mem_cons.mpr ⟨h.1, hall⟩

theorem reachable_of_exec (as : List α) {t : σ} (h : M.exec M.init as = some t) : M.Reachable t := by
  obtain ⟨trace, hrun, _⟩ := Run.of_exec as h
  exact ⟨trace, hrun⟩

/-- Labels can be followed to their end exactly when every one of them is enabled where it is met. -/
theorem exec_ne_none_iff {C : σ → α → Prop} (hstep : ∀ s a, M.next s a ≠ none ↔ C s a) (as : List α) (s : σ) :
    M.exec s as ≠ none ↔ ∀ front a back, as = front ++ a :: back → ∀ t, M.exec s front = some t → C t a := by
  induction as generalizing s with
  | nil =>
      refine iff_of_true (Option.some_ne_none s) fun front a back h => ?_
      exact absurd h.symm (List.append_ne_nil_of_right_ne_nil front (List.cons_ne_nil a back))
  | cons a as ih =>
      constructor
      · intro h front b back hsplit t hfront
        have henabled : M.next s a ≠ none := fun hnone => h (by rw [exec, hnone, Option.bind_none])
        obtain ⟨mid, hmid⟩ := Option.ne_none_iff_exists'.mp henabled
        cases front with
        | nil =>
            obtain ⟨rfl, rfl⟩ := List.cons.inj hsplit
            obtain rfl : s = t := Option.some.inj hfront
            exact (hstep s a).mp henabled
        | cons c front =>
            obtain ⟨rfl, hrest⟩ := List.cons.inj hsplit
            rw [exec, hmid] at h hfront
            exact (ih mid).mp h front b back hrest t hfront
      · intro h
        have henabled := (hstep s a).mpr (h [] a as rfl s rfl)
        obtain ⟨mid, hmid⟩ := Option.ne_none_iff_exists'.mp henabled
        rw [exec, hmid]
        refine (ih mid).mpr fun front b back hsplit t hfront => ?_
        refine h (a :: front) b back (congrArg (List.cons a) hsplit) t ?_
        rw [exec, hmid]
        exact hfront

theorem Run.append {s t u : σ} {left right : List (Transition σ α)} (hleft : M.Run s left t)
    (hright : M.Run t right u) : M.Run s (left ++ right) u := by
  induction hleft with
  | nil => exact hright
  | cons hstep _ ih => exact .cons hstep (ih hright)

theorem Run.snoc {s t u : σ} {a : α} {trace : List (Transition σ α)} (hrun : M.Run s trace t)
    (hstep : M.next t a = some u) : M.Run s (trace ++ [⟨t, a, u⟩]) u :=
  hrun.append (.cons hstep (.nil u))

theorem Reachable.init : M.Reachable M.init := ⟨[], .nil _⟩

theorem Reachable.step {s t : σ} {a : α} (hs : M.Reachable s) (hstep : M.next s a = some t) :
    M.Reachable t := by
  obtain ⟨trace, hrun⟩ := hs
  exact ⟨_, hrun.snoc hstep⟩

/-- A run under a guard: an invariant that only guarded steps keep holds at the end of every run
whose steps all meet the guard, and at both ends of each of its transitions. -/
theorem Run.invariant_of_guard {P : σ → Prop} {C : σ → α → Prop} {s t : σ}
    {trace : List (Transition σ α)} (hrun : M.Run s trace t)
    (hstep : ∀ s a t, P s → C s a → M.next s a = some t → P t)
    (hguard : ∀ x ∈ trace, C x.pre x.label) (hs : P s) :
    P t ∧ ∀ x ∈ trace, P x.pre ∧ P x.post := by
  induction hrun with
  | nil => exact ⟨hs, by simp⟩
  | cons hnext _ ih =>
      have hmid := hstep _ _ _ hs (hguard _ List.mem_cons_self) hnext
      obtain ⟨hend, hall⟩ := ih (fun x hx => hguard x (List.mem_cons_of_mem _ hx)) hmid
      refine ⟨hend, fun x hx => ?_⟩
      rcases List.mem_cons.mp hx with rfl | hx
      · exact ⟨hs, hmid⟩
      · exact hall x hx

theorem Run.invariant {P : σ → Prop} {s t : σ} {trace : List (Transition σ α)}
    (hrun : M.Run s trace t) (hstep : ∀ s a t, P s → M.next s a = some t → P t) (hs : P s) :
    P t ∧ ∀ x ∈ trace, P x.pre ∧ P x.post :=
  hrun.invariant_of_guard (C := fun _ _ => True) (fun s a t h _ => hstep s a t h)
    (fun _ _ => trivial) hs

theorem Reachable.invariant {P : σ → Prop} {t : σ} (ht : M.Reachable t) (h0 : P M.init)
    (hstep : ∀ s a t, P s → M.next s a = some t → P t) : P t := by
  obtain ⟨trace, hrun⟩ := ht
  exact (hrun.invariant hstep h0).1

/-- Every transition of a run is a step of the system. -/
theorem Run.next_of_mem {s t : σ} {trace : List (Transition σ α)} (hrun : M.Run s trace t) :
    ∀ x ∈ trace, M.next x.pre x.label = some x.post := by
  induction hrun with
  | nil => simp
  | cons hnext _ ih =>
      intro x hx
      rcases List.mem_cons.mp hx with rfl | hx
      · exact hnext
      · exact ih x hx

theorem Run.of_append {s t : σ} {left right : List (Transition σ α)}
    (hrun : M.Run s (left ++ right) t) : ∃ mid, M.Run s left mid ∧ M.Run mid right t := by
  induction left generalizing s with
  | nil => exact ⟨s, .nil s, hrun⟩
  | cons x left ih =>
      rw [List.cons_append] at hrun
      cases hrun with
      | cons hnext hrest =>
          obtain ⟨mid, hleft, hright⟩ := ih hrest
          exact ⟨mid, .cons hnext hleft, hright⟩

/-- A run cut at one of its transitions. -/
theorem Run.of_append_cons {s t : σ} {before after : List (Transition σ α)} {x : Transition σ α}
    (hrun : M.Run s (before ++ x :: after) t) :
    M.Run s before x.pre ∧ M.next x.pre x.label = some x.post ∧ M.Run x.post after t := by
  obtain ⟨mid, hbefore, hrest⟩ := hrun.of_append
  cases hrest with
  | cons hnext hafter => exact ⟨hbefore, hnext, hafter⟩

/-- An invariant about the state and the transitions so far. -/
theorem Run.history {P : List (Transition σ α) → σ → Prop} {s t : σ}
    {trace : List (Transition σ α)} (hrun : M.Run s trace t) (h0 : P [] s)
    (hstep : ∀ before s a t, P before s → M.next s a = some t → P (before ++ [⟨s, a, t⟩]) t) :
    P trace t := by
  suffices h : ∀ before, P before s → P (before ++ trace) t by simpa using h [] h0
  clear h0
  induction hrun with
  | nil =>
      intro before h
      rw [List.append_nil]
      exact h
  | cons hnext _ ih =>
      intro before h
      have hmid := ih _ (hstep before _ _ _ h hnext)
      rwa [List.append_assoc] at hmid

/-- A choice that is made once: the first of the transitions `A` makes it from a fresh state, it is held from
then on, and the later ones find it. -/
theorem Run.settles {β : Type w} {A : Transition σ α → Prop} {O : Transition σ α → β → Prop}
    {G : List (Transition σ α) → Prop} {F : σ → Prop} {H : β → List (Transition σ α) → σ → Prop} {s t : σ}
    {trace : List (Transition σ α)} (hrun : M.Run s trace t) (hguard : G trace)
    (hfront : ∀ before x, G (before ++ [x]) → G before) (hstart : F s)
    (hfresh : ∀ x, M.next x.pre x.label = some x.post → ¬ A x → F x.pre → F x.post)
    (hfirst : ∀ before x, G (before ++ [x]) → M.next x.pre x.label = some x.post → A x → F x.pre →
      ∃ b, O x b ∧ H b (before ++ [x]) x.post)
    (hkeep : ∀ before x b, M.next x.pre x.label = some x.post → ¬ A x → H b before x.pre →
      H b (before ++ [x]) x.post)
    (hagain : ∀ before x b, G (before ++ [x]) → M.next x.pre x.label = some x.post → A x → H b before x.pre →
      O x b ∧ H b (before ++ [x]) x.post) :
    (∀ x ∈ trace, ¬ A x) ∨ ∃ b, (∀ x ∈ trace, A x → O x b) ∧ H b trace t := by
  have hinv := hrun.history (P := fun before s => G before → ((∀ x ∈ before, ¬ A x) ∧ F s) ∨
    ∃ b, (∀ x ∈ before, A x → O x b) ∧ H b before s) (fun _ => .inl ⟨by simp, hstart⟩) (by
      intro before s a t ih hnext hg
      by_cases ha : A ⟨s, a, t⟩
      · right
        rcases ih (hfront before _ hg) with ⟨hnone, hs⟩ | ⟨b, hall, hheld⟩
        · obtain ⟨b, hout, hheld⟩ := hfirst before ⟨s, a, t⟩ hg hnext ha hs
          refine ⟨b, fun x hx hxa => ?_, hheld⟩
          rcases List.mem_append.mp hx with hx | hx
          · exact absurd hxa (hnone x hx)
          · exact List.mem_singleton.mp hx ▸ hout
        · obtain ⟨hout, hheld⟩ := hagain before ⟨s, a, t⟩ b hg hnext ha hheld
          refine ⟨b, fun x hx hxa => ?_, hheld⟩
          rcases List.mem_append.mp hx with hx | hx
          · exact hall x hx hxa
          · exact List.mem_singleton.mp hx ▸ hout
      · rcases ih (hfront before _ hg) with ⟨hnone, hs⟩ | ⟨b, hall, hheld⟩
        · refine .inl ⟨fun x hx => ?_, hfresh ⟨s, a, t⟩ hnext ha hs⟩
          rcases List.mem_append.mp hx with hx | hx
          · exact hnone x hx
          · exact List.mem_singleton.mp hx ▸ ha
        · refine .inr ⟨b, fun x hx hxa => ?_, hkeep before ⟨s, a, t⟩ b hnext ha hheld⟩
          rcases List.mem_append.mp hx with hx | hx
          · exact hall x hx hxa
          · exact absurd hxa (List.mem_singleton.mp hx ▸ ha))
  rcases hinv hguard with ⟨hnone, -⟩ | hsome
  · exact .inl hnone
  · exact .inr hsome

/-- If a step from a good state leads to a good state exactly when it meets the guard, then a run
from a good state visits good states only exactly when all its steps meet the guard. -/
theorem Run.forall_post_iff {P : σ → Prop} {C : σ → α → Prop} {s t : σ}
    {trace : List (Transition σ α)} (hrun : M.Run s trace t)
    (hstep : ∀ s a t, P s → M.next s a = some t → (P t ↔ C s a)) (hs : P s) :
    (∀ x ∈ trace, P x.post) ↔ ∀ x ∈ trace, C x.pre x.label := by
  induction hrun with
  | nil => simp
  | cons hnext _ ih =>
      simp only [List.forall_mem_cons]
      constructor
      · rintro ⟨hmid, hrest⟩
        exact ⟨(hstep _ _ _ hs hnext).mp hmid, (ih hmid).mp hrest⟩
      · rintro ⟨hguard, hrest⟩
        have hmid := (hstep _ _ _ hs hnext).mpr hguard
        exact ⟨hmid, (ih hmid).mpr hrest⟩

/-- If a step from an invariant state to a good one must have met the guard, and the guard keeps the
invariant, then a run that visits good states only has met the guard throughout. -/
theorem Run.guard_of_forall_post {P Q : σ → Prop} {C D : σ → α → Prop} {s t : σ} {trace : List (Transition σ α)}
    (hrun : M.Run s trace t) (hkeep : ∀ s a t, P s → D s a → C s a → M.next s a = some t → P t)
    (hneed : ∀ s a t, P s → D s a → M.next s a = some t → Q t → C s a) (hside : ∀ x ∈ trace, D x.pre x.label)
    (hgood : ∀ x ∈ trace, Q x.post) (hs : P s) : ∀ x ∈ trace, C x.pre x.label := by
  induction hrun with
  | nil => simp
  | cons hnext _ ih =>
      rw [List.forall_mem_cons] at hside hgood ⊢
      have hguard := hneed _ _ _ hs hside.1 hnext hgood.1
      exact ⟨hguard, ih hside.2 hgood.2 (hkeep _ _ _ hs hside.1 hguard hnext)⟩

/-- If every reachable state that misses the goal has a step to a smaller state, then the goal is
reachable. -/
theorem exists_reachable_of_measure {Q : σ → Prop} (μ : σ → Nat)
    (hstep : ∀ s, M.Reachable s → ¬ Q s → ∃ a t, M.next s a = some t ∧ μ t < μ s) :
    ∃ t, M.Reachable t ∧ Q t := by
  suffices h : ∀ n s, μ s ≤ n → M.Reachable s → ∃ t, M.Reachable t ∧ Q t from
    h (μ M.init) M.init (Nat.le_refl _) .init
  intro n
  induction n with
  | zero =>
      intro s hn hs
      refine ⟨s, hs, ?_⟩
      by_contra hgoal
      obtain ⟨a, t, -, hlt⟩ := hstep s hs hgoal
      omega
  | succ n ih =>
      intro s hn hs
      by_cases hgoal : Q s
      · exact ⟨s, hs, hgoal⟩
      · obtain ⟨a, t, hnext, hlt⟩ := hstep s hs hgoal
        exact ih t (by omega) (hs.step hnext)

end System
