import Mathlib.Data.List.Nodup

/-!
# Event queues

The events a simulator has scheduled and not yet run. Every scheduled event gets an id of its own;
cancelling an id that is not pending any more does nothing. An owner that keeps the id of the event it
scheduled last, and cancels that one before it schedules the next, has at most one pending at a time.
-/

universe u

/-- The pending events under their ids, and the next id. -/
structure EventQueue (α : Type u) where
  pending : List (Nat × α)
  nextUid : Nat

namespace EventQueue

variable {α : Type u}

def empty : EventQueue α where
  pending := []
  nextUid := 0

def schedule (t : EventQueue α) (a : α) : Nat × EventQueue α :=
  (t.nextUid, { pending := t.pending ++ [(t.nextUid, a)], nextUid := t.nextUid + 1 })

def remove (t : EventQueue α) (uid : Nat) : EventQueue α :=
  { t with pending := t.pending.filter fun e => e.1 ≠ uid }

/-- Cancel the event an id stands for, if there is one. -/
def cancel (t : EventQueue α) : Option Nat → EventQueue α
  | none => t
  | some uid => t.remove uid

/-- Take a pending event out to run it. -/
def fire (t : EventQueue α) (uid : Nat) : Option (α × EventQueue α) :=
  (t.pending.find? fun e => e.1 = uid).map fun e => (e.2, t.remove uid)

/-- How many events of a kind are pending. -/
def count [DecidableEq α] (t : EventQueue α) (a : α) : Nat := (t.pending.filter fun e => e.2 = a).length

/-- Ids are unique and new ones are fresh. -/
structure Wf (t : EventQueue α) : Prop where
  fresh : ∀ e ∈ t.pending, e.1 < t.nextUid
  nodup : (t.pending.map Prod.fst).Nodup

/-- `id` is the only event of kind `a` that can be pending. -/
def Tracks (t : EventQueue α) (a : α) (id : Option Nat) : Prop := ∀ uid, (uid, a) ∈ t.pending → id = some uid

def Absent (t : EventQueue α) (a : α) : Prop := ∀ uid, (uid, a) ∉ t.pending

variable {t : EventQueue α} {a b : α} {id : Option Nat} {uid : Nat}

theorem Absent.tracks (h : Absent t a) (id : Option Nat) : Tracks t a id := fun uid hmem => absurd hmem (h uid)

theorem mem_remove {e : Nat × α} (h : e ∈ (t.remove uid).pending) : e ∈ t.pending := (List.mem_filter.mp h).1

theorem mem_cancel {e : Nat × α} (h : e ∈ (t.cancel id).pending) : e ∈ t.pending := by
  cases id with
  | none => exact h
  | some uid => exact mem_remove h

theorem mem_schedule {e : Nat × α} : e ∈ (t.schedule b).2.pending ↔ e ∈ t.pending ∨ e = (t.nextUid, b) := by
  simp [schedule]

theorem Wf.empty : Wf (EventQueue.empty : EventQueue α) := ⟨by simp [EventQueue.empty], by simp [EventQueue.empty]⟩

theorem Wf.schedule (h : Wf t) (b : α) : Wf (t.schedule b).2 := by
  constructor
  · intro e he
    rcases mem_schedule.mp he with he | rfl
    · exact Nat.lt_succ_of_lt (h.fresh e he)
    · exact Nat.lt_succ_self t.nextUid
  · simp only [EventQueue.schedule, List.map_append, List.map_cons, List.map_nil]
    apply List.Nodup.append h.nodup (List.nodup_singleton _)
    intro uid hold hnew
    obtain rfl := List.mem_singleton.mp hnew
    obtain ⟨e, he, huid⟩ := List.mem_map.mp hold
    have hlt := h.fresh e he
    omega

theorem Wf.remove (h : Wf t) (uid : Nat) : Wf (t.remove uid) :=
  ⟨fun e he => h.fresh e (mem_remove he), h.nodup.sublist (List.filter_sublist.map _)⟩

theorem Wf.cancel (h : Wf t) (id : Option Nat) : Wf (t.cancel id) := by
  cases id with
  | none => exact h
  | some uid => exact h.remove uid

theorem fire_spec {t' : EventQueue α} (h : t.fire uid = some (a, t')) :
    (uid, a) ∈ t.pending ∧ t' = t.remove uid := by
  obtain ⟨e, hfind, he⟩ := Option.map_eq_some_iff.mp h
  have huid : e.1 = uid := by simpa using List.find?_some hfind
  obtain ⟨rfl, rfl⟩ := Prod.mk.inj he
  subst huid
  exact ⟨List.mem_of_find?_eq_some hfind, rfl⟩

/-! ### Owners -/

theorem Tracks.remove (h : Tracks t a id) (uid : Nat) : Tracks (t.remove uid) a id :=
  fun uid' hmem => h uid' (mem_remove hmem)

theorem Tracks.cancel (h : Tracks t a id) (id' : Option Nat) : Tracks (t.cancel id') a id :=
  fun uid hmem => h uid (mem_cancel hmem)

theorem Absent.remove (h : Absent t a) (uid : Nat) : Absent (t.remove uid) a :=
  fun uid' hmem => h uid' (mem_remove hmem)

theorem Absent.cancel (h : Absent t a) (id : Option Nat) : Absent (t.cancel id) a :=
  fun uid hmem => h uid (mem_cancel hmem)

/-- Nothing of a kind is left once the event its owner tracks is removed. -/
theorem Tracks.absent_remove (h : Tracks t a (some uid)) : Absent (t.remove uid) a := by
  intro uid' hmem
  obtain ⟨hold, hne⟩ := List.mem_filter.mp hmem
  have hsame := Option.some.inj (h uid' hold)
  simp [hsame] at hne

theorem Tracks.absent_cancel (h : Tracks t a id) : Absent (t.cancel id) a := by
  cases id with
  | none =>
      intro uid hmem
      cases h uid hmem
  | some uid => exact h.absent_remove

/-- Running a tracked event leaves none of its kind pending. -/
theorem Tracks.absent_fire {t' : EventQueue α} (h : Tracks t a id) (hfire : t.fire uid = some (a, t')) :
    Absent t' a := by
  obtain ⟨hmem, rfl⟩ := fire_spec hfire
  obtain rfl := h uid hmem
  exact h.absent_remove

theorem Tracks.fire {t' : EventQueue α} (h : Tracks t a id) (hfire : t.fire uid = some (b, t')) : Tracks t' a id := by
  obtain ⟨-, rfl⟩ := fire_spec hfire
  exact h.remove uid

theorem Absent.fire {t' : EventQueue α} (h : Absent t a) (hfire : t.fire uid = some (b, t')) : Absent t' a := by
  obtain ⟨-, rfl⟩ := fire_spec hfire
  exact h.remove uid

theorem Wf.fire {t' : EventQueue α} (h : Wf t) (hfire : t.fire uid = some (b, t')) : Wf t' := by
  obtain ⟨-, rfl⟩ := fire_spec hfire
  exact h.remove uid

theorem Absent.tracks_schedule (h : Absent t a) : Tracks (t.schedule a).2 a (some (t.schedule a).1) := by
  intro uid hmem
  rcases mem_schedule.mp hmem with hold | hnew
  · exact absurd hold (h uid)
  · rw [(Prod.mk.inj hnew).1]
    rfl

theorem Tracks.schedule_of_ne (h : Tracks t a id) (hne : a ≠ b) : Tracks (t.schedule b).2 a id := by
  intro uid hmem
  rcases mem_schedule.mp hmem with hold | hnew
  · exact h uid hold
  · exact absurd (Prod.mk.inj hnew).2 hne

theorem Absent.schedule_of_ne (h : Absent t a) (hne : a ≠ b) : Absent (t.schedule b).2 a := by
  intro uid hmem
  rcases mem_schedule.mp hmem with hold | hnew
  · exact h uid hold
  · exact hne (Prod.mk.inj hnew).2

section Count

variable [DecidableEq α]

theorem count_eq_zero_iff : t.count a = 0 ↔ Absent t a := by
  simp only [count, Absent]
  rw [List.length_eq_zero_iff, List.filter_eq_nil_iff]
  constructor
  · intro h uid hmem
    exact h (uid, a) hmem (decide_eq_true rfl)
  · rintro h ⟨uid, b⟩ hmem hb
    obtain rfl : b = a := of_decide_eq_true hb
    exact h uid hmem

/-- An owner that tracks the events of a kind has at most one of them pending. -/
theorem Tracks.count_le_one (h : Tracks t a id) (hwf : Wf t) : t.count a ≤ 1 := by
  have hnodup : ((t.pending.filter fun e => e.2 = a).map Prod.fst).Nodup :=
    hwf.nodup.sublist (List.filter_sublist.map _)
  have hsame : ∀ uid ∈ (t.pending.filter fun e => e.2 = a).map Prod.fst, id = some uid := by
    intro uid hmem
    obtain ⟨⟨uid', b⟩, he, rfl⟩ := List.mem_map.mp hmem
    obtain ⟨hpending, hb⟩ := List.mem_filter.mp he
    obtain rfl : b = a := of_decide_eq_true hb
    exact h uid' hpending
  simp only [count]
  rw [← List.length_map Prod.fst]
  generalize (t.pending.filter fun e => e.2 = a).map Prod.fst = uids at hnodup hsame
  match uids with
  | [] => exact Nat.zero_le 1
  | [_] => exact Nat.le_refl 1
  | first :: second :: rest =>
      have hfirst := hsame first (by simp)
      have hsecond := hsame second (by simp)
      obtain rfl := Option.some.inj (hfirst.symm.trans hsecond)
      simp at hnodup

end Count

/-! ### What stays pending -/

/-- The event an id stands for, if there is one, is pending. -/
def Live (t : EventQueue α) (a : α) (id : Option Nat) : Prop := ∀ uid, id = some uid → (uid, a) ∈ t.pending

/-- An id was given to an event of kind `a`, so it stands for no other. -/
def Names (t : EventQueue α) (a : α) (id : Option Nat) : Prop :=
  ∀ uid, id = some uid → uid < t.nextUid ∧ ∀ b, (uid, b) ∈ t.pending → b = a

/-- What a change leaves of the events that are none of `mine`. -/
structure Others (mine : α → Prop) (t t' : EventQueue α) : Prop where
  live : ∀ a id, ¬ mine a → Live t a id → Live t' a id
  names : ∀ a id, Names t a id → Names t' a id

variable {mine : α → Prop} {t' t'' : EventQueue α} {id' : Option Nat}

theorem Live.none : Live t a none := by
  intro uid h
  cases h

theorem Names.none : Names t a none := by
  intro uid h
  cases h

theorem Live.schedule (h : Live t a id) (b : α) : Live (t.schedule b).2 a id :=
  fun uid hid => mem_schedule.mpr (.inl (h uid hid))

theorem live_schedule : Live (t.schedule a).2 a (some (t.schedule a).1) := by
  intro uid hid
  obtain rfl := Option.some.inj hid
  exact mem_schedule.mpr (.inr rfl)

theorem Names.schedule (h : Names t a id) (b : α) : Names (t.schedule b).2 a id := by
  intro uid hid
  obtain ⟨hlt, hone⟩ := h uid hid
  refine ⟨Nat.lt_succ_of_lt hlt, fun c hmem => ?_⟩
  rcases mem_schedule.mp hmem with hold | hnew
  · exact hone c hold
  · exact absurd (Prod.mk.inj hnew).1 (Nat.ne_of_lt hlt)

theorem Wf.names_schedule (h : Wf t) : Names (t.schedule a).2 a (some (t.schedule a).1) := by
  intro uid hid
  obtain rfl := Option.some.inj hid
  refine ⟨Nat.lt_succ_self _, fun c hmem => ?_⟩
  rcases mem_schedule.mp hmem with hold | hnew
  · exact absurd (h.fresh _ hold) (Nat.lt_irrefl _)
  · exact (Prod.mk.inj hnew).2

theorem Names.remove (h : Names t a id) (uid : Nat) : Names (t.remove uid) a id :=
  fun uid' hid => ⟨(h uid' hid).1, fun b hmem => (h uid' hid).2 b (mem_remove hmem)⟩

theorem Names.cancel (h : Names t a id) (id' : Option Nat) : Names (t.cancel id') a id := by
  cases id' with
  | none => exact h
  | some uid => exact h.remove uid

/-- Cancelling an id that stands for something else. -/
theorem Live.cancel_of_names (h : Live t a id) (hnames : Names t b id') (hne : a ≠ b) : Live (t.cancel id') a id := by
  cases id' with
  | none => exact h
  | some other =>
      intro uid hid
      have hmem := h uid hid
      refine List.mem_filter.mpr ⟨hmem, decide_eq_true fun hsame => hne ?_⟩
      exact (hnames other rfl).2 a (hsame ▸ hmem)

theorem Live.fire_of_ne (h : Live t a id) (hwf : Wf t) (hfire : t.fire uid = some (b, t')) (hne : a ≠ b) :
    Live t' a id := by
  obtain ⟨hfired, rfl⟩ := fire_spec hfire
  intro uid' hid
  have hmem := h uid' hid
  refine List.mem_filter.mpr ⟨hmem, decide_eq_true fun hsame => hne ?_⟩
  exact congrArg Prod.snd (List.inj_on_of_nodup_map hwf.nodup hmem hfired hsame)

theorem Others.refl (mine : α → Prop) (t : EventQueue α) : Others mine t t := ⟨fun _ _ _ h => h, fun _ _ h => h⟩

theorem Others.trans (h : Others mine t t') (h' : Others mine t' t'') : Others mine t t'' :=
  ⟨fun a id hmine hlive => h'.live a id hmine (h.live a id hmine hlive), fun a id hnames => h'.names a id (h.names a id hnames)⟩

theorem Others.schedule (mine : α → Prop) (t : EventQueue α) (b : α) : Others mine t (t.schedule b).2 :=
  ⟨fun _ _ _ hlive => hlive.schedule b, fun _ _ hnames => hnames.schedule b⟩

theorem Names.others_cancel (h : Names t b id) (hb : mine b) : Others mine t (t.cancel id) :=
  ⟨fun _ _ ha hlive => hlive.cancel_of_names h (fun hsame => ha (hsame ▸ hb)), fun _ _ hnames => hnames.cancel id⟩

theorem Wf.others_fire (h : Wf t) (hfire : t.fire uid = some (b, t')) (hb : mine b) : Others mine t t' := by
  refine ⟨fun a id ha hlive => hlive.fire_of_ne h hfire fun hsame => ha (hsame ▸ hb), fun a id hnames => ?_⟩
  obtain ⟨-, rfl⟩ := fire_spec hfire
  exact hnames.remove uid

end EventQueue
