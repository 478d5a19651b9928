import Lcmp.Congestion.Host

/-!
# The timers of DCQCN

A queue pair keeps the id of the timer of each kind that it scheduled last, and no other one is
pending. Completing it cancels all three, but the call that completes it goes on to look at the CNP
flag: if that is the first CNP, two timers start for a queue pair that is complete.
-/

namespace Lcmp

open EventQueue (Wf Tracks Absent)

/-- The event id a queue pair holds for a kind of timer. -/
def Mlx.eventId (m : Mlx) : TimerKind → Option Nat
  | .updateAlphaMlx => m.mEventUpdateAlpha
  | .checkRateDecreaseMlx => m.mEventDecreaseRate
  | .rateIncEventTimerMlx => m.mRpTimer

/-- The timers of queue pair `i` are the ones whose ids it holds; before the first CNP it has none. -/
structure Armed (i : Nat) (m : Mlx) (timers : Timers) : Prop where
  tracks : ∀ kind, Tracks timers (kind, i) (m.eventId kind)
  first : m.mFirstCnp = true → ∀ kind, Absent timers (kind, i)

/-- Whatever is pending in `timers'` and not for queue pair `i` was pending before. -/
def OnlyFor (i : Nat) (timers timers' : Timers) : Prop := ∀ e ∈ timers'.pending, e.2.2 ≠ i → e ∈ timers.pending

section Frames

variable {i j : Nat} {m : Mlx} {t t' t'' : Timers} {kind : TimerKind}

theorem OnlyFor.refl (i : Nat) (t : Timers) : OnlyFor i t t := fun _ he _ => he

theorem OnlyFor.trans (h : OnlyFor i t t') (h' : OnlyFor i t' t'') : OnlyFor i t t'' :=
  fun e he hne => h e (h' e he hne) hne

theorem OnlyFor.schedule (i : Nat) (t : Timers) (kind : TimerKind) : OnlyFor i t (t.schedule (kind, i)).2 := by
  intro e he hne
  rcases EventQueue.mem_schedule.mp he with he | rfl
  · exact he
  · exact absurd rfl hne

theorem OnlyFor.cancel (i : Nat) (t : Timers) (id : Option Nat) : OnlyFor i t (t.cancel id) :=
  fun _ he _ => EventQueue.mem_cancel he

theorem OnlyFor.fire {uid : Nat} {a : TimerKind × Nat} (h : t.fire uid = some (a, t')) : OnlyFor i t t' := by
  obtain ⟨-, rfl⟩ := EventQueue.fire_spec h
  exact fun _ he _ => EventQueue.mem_remove he

theorem OnlyFor.absent (h : OnlyFor i t t') (hne : j ≠ i) (habsent : Absent t (kind, j)) : Absent t' (kind, j) :=
  fun uid hmem => habsent uid (h _ hmem hne)

theorem OnlyFor.armed (h : OnlyFor i t t') (hne : j ≠ i) (harmed : Armed j m t) : Armed j m t' :=
  ⟨fun kind uid hmem => harmed.tracks kind uid (h _ hmem hne),
    fun hfirst kind => h.absent hne (harmed.first hfirst kind)⟩

/-- Only the ids and the flag count. -/
theorem Armed.congr {m' : Mlx} (harmed : Armed i m t) (hid : ∀ kind, m'.eventId kind = m.eventId kind)
    (hfirst : m'.mFirstCnp = true → m.mFirstCnp = true) : Armed i m' t where
  tracks := by
    intro kind
    rw [hid kind]
    exact harmed.tracks kind
  first := fun h => harmed.first (hfirst h)

end Frames

namespace CcQueuePair

/-! ### One queue pair -/

variable {cfg : CcConfig} {i : Nat} {q q' : CcQueuePair} {t t' : Timers}

/-- A function on a queue pair and the timers that keeps everything but the algorithm's own state. -/
structure TimersKept (i : Nat) (q : CcQueuePair) (t : Timers) (r : CcQueuePair × Timers) : Prop where
  wf : r.2.Wf
  only : OnlyFor i t r.2
  armed : Armed i r.1.mlx r.2
  completed : r.1.completed = q.completed
  key : CcHost.keyOf r.1 = CcHost.keyOf q

theorem updateAlphaMlx_kept (hwf : t.Wf) (htracks : ∀ kind, Tracks t (kind, i) (q.mlx.eventId kind))
    (hnone : Absent t (.updateAlphaMlx, i)) (hfirst : q.mlx.mFirstCnp = false) :
    TimersKept i q t (updateAlphaMlx cfg i q t) where
  wf := hwf.schedule _
  only := OnlyFor.schedule i t _
  armed := by
    refine ⟨fun kind => ?_, fun h => ?_⟩
    · cases kind with
      | updateAlphaMlx => exact hnone.tracks_schedule
      | checkRateDecreaseMlx => exact (htracks .checkRateDecreaseMlx).schedule_of_ne (by simp)
      | rateIncEventTimerMlx => exact (htracks .rateIncEventTimerMlx).schedule_of_ne (by simp)
    · exact absurd (hfirst.symm.trans h) Bool.false_ne_true
  completed := rfl
  key := rfl

theorem rateIncEventMlx_eventId (cfg : CcConfig) (q : CcQueuePair) (kind : TimerKind) :
    (rateIncEventMlx cfg q).mlx.eventId kind = q.mlx.eventId kind := by
  simp only [rateIncEventMlx]
  cases kind
  all_goals
    split
    · rfl
    · split <;> rfl

theorem rateIncEventMlx_frame (cfg : CcConfig) (q : CcQueuePair) :
    (rateIncEventMlx cfg q).mlx.mFirstCnp = q.mlx.mFirstCnp ∧
      (rateIncEventMlx cfg q).completed = q.completed ∧
      CcHost.keyOf (rateIncEventMlx cfg q) = CcHost.keyOf q := by
  simp only [rateIncEventMlx]
  split
  · exact ⟨rfl, rfl, rfl⟩
  · split <;> exact ⟨rfl, rfl, rfl⟩

theorem rateIncEventTimerMlx_kept (hwf : t.Wf) (htracks : ∀ kind, Tracks t (kind, i) (q.mlx.eventId kind))
    (hnone : Absent t (.rateIncEventTimerMlx, i)) (hfirst : q.mlx.mFirstCnp = false) :
    TimersKept i q t (rateIncEventTimerMlx cfg i q t) := by
  have hid := rateIncEventMlx_eventId cfg (scheduleRateIncEventTimerMlx i q t).1
  obtain ⟨hflag, hcompleted, hkey⟩ := rateIncEventMlx_frame cfg (scheduleRateIncEventTimerMlx i q t).1
  -- the next rate increase is scheduled before this one changes the rate
  have harmed : Armed i (scheduleRateIncEventTimerMlx i q t).1.mlx (scheduleRateIncEventTimerMlx i q t).2 := by
    refine ⟨fun kind => ?_, fun h => absurd (hfirst.symm.trans h) Bool.false_ne_true⟩
    cases kind with
    | updateAlphaMlx => exact (htracks .updateAlphaMlx).schedule_of_ne (by simp)
    | checkRateDecreaseMlx => exact (htracks .checkRateDecreaseMlx).schedule_of_ne (by simp)
    | rateIncEventTimerMlx => exact hnone.tracks_schedule
  refine ⟨hwf.schedule _, OnlyFor.schedule i t _, ?_, hcompleted, hkey⟩
  apply harmed.congr
  · intro kind
    rw [← hid kind]
    cases kind with
    | updateAlphaMlx => rfl
    | checkRateDecreaseMlx => rfl
    | rateIncEventTimerMlx => rfl
  · exact fun h => hflag.symm.trans h

theorem checkRateDecreaseMlx_kept (hwf : t.Wf) (htracks : ∀ kind, Tracks t (kind, i) (q.mlx.eventId kind))
    (hnone : Absent t (.checkRateDecreaseMlx, i)) (hfirst : q.mlx.mFirstCnp = false) :
    TimersKept i q t (checkRateDecreaseMlx cfg i q t) := by
  have halpha := (htracks .updateAlphaMlx).schedule_of_ne
    (by simp : ((TimerKind.updateAlphaMlx, i) : TimerKind × Nat) ≠ (.checkRateDecreaseMlx, i))
  have hrp := (htracks .rateIncEventTimerMlx).schedule_of_ne
    (by simp : ((TimerKind.rateIncEventTimerMlx, i) : TimerKind × Nat) ≠ (.checkRateDecreaseMlx, i))
  have hdecrease := hnone.tracks_schedule
  simp only [checkRateDecreaseMlx]
  by_cases hcnp : q.mlx.mDecreaseCnpArrived = true
  · -- the pending rate increase is cancelled before the next one is scheduled
    have hcancelled := hrp.absent_cancel
    have hcnp' : (scheduleDecreaseRateMlx i q t).1.mlx.mDecreaseCnpArrived = true := hcnp
    simp only [hcnp', if_true]
    refine ⟨((hwf.schedule _).cancel _).schedule _,
      ((OnlyFor.schedule i t _).trans (OnlyFor.cancel i _ _)).trans (OnlyFor.schedule i _ _),
      ⟨fun kind => ?_, fun h => ?_⟩, rfl, rfl⟩
    · cases kind with
      | updateAlphaMlx => exact (halpha.cancel _).schedule_of_ne (by simp)
      | checkRateDecreaseMlx => exact (hdecrease.cancel _).schedule_of_ne (by simp)
      | rateIncEventTimerMlx => exact hcancelled.tracks_schedule
    · exact absurd (hfirst.symm.trans h) Bool.false_ne_true
  · have hoff : q.mlx.mDecreaseCnpArrived = false := by simpa using hcnp
    have hcnp' : (scheduleDecreaseRateMlx i q t).1.mlx.mDecreaseCnpArrived = false := hoff
    simp only [hcnp', Bool.false_eq_true, if_false]
    refine ⟨hwf.schedule _, OnlyFor.schedule i t _, ⟨fun kind => ?_, fun h => ?_⟩, rfl, rfl⟩
    · cases kind with
      | updateAlphaMlx => exact halpha
      | checkRateDecreaseMlx => exact hdecrease
      | rateIncEventTimerMlx => exact hrp
    · exact absurd (hfirst.symm.trans h) Bool.false_ne_true

/-- Running a pending timer of a queue pair. -/
theorem runTimer_kept (cfg : CcConfig) {uid : Nat} {kind : TimerKind} (hwf : t.Wf) (harmed : Armed i q.mlx t)
    (hfire : t.fire uid = some ((kind, i), t')) : TimersKept i q t' (runTimer cfg i q t' kind) := by
  have htracks : ∀ kind, Tracks t' (kind, i) (q.mlx.eventId kind) := fun kind => (harmed.tracks kind).fire hfire
  have hnone : Absent t' (kind, i) := (harmed.tracks kind).absent_fire hfire
  have hfirst : q.mlx.mFirstCnp = false := by
    cases hflag : q.mlx.mFirstCnp with
    | false => rfl
    | true => exact absurd (EventQueue.fire_spec hfire).1 (harmed.first hflag kind uid)
  have hwf' := hwf.fire hfire
  cases kind with
  | updateAlphaMlx => exact updateAlphaMlx_kept hwf' htracks hnone hfirst
  | checkRateDecreaseMlx => exact checkRateDecreaseMlx_kept hwf' htracks hnone hfirst
  | rateIncEventTimerMlx => exact rateIncEventTimerMlx_kept hwf' htracks hnone hfirst

theorem cnpReceivedMlx_kept (cfg : CcConfig) (hwf : t.Wf) (harmed : Armed i q.mlx t) :
    TimersKept i q t (cnpReceivedMlx cfg i q t) := by
  simp only [cnpReceivedMlx]
  by_cases hfirst : q.mlx.mFirstCnp = true
  · have hnone := harmed.first hfirst
    simp only [hfirst, if_true]
    refine ⟨(hwf.schedule _).schedule _, (OnlyFor.schedule i t _).trans (OnlyFor.schedule i _ _),
      ⟨fun kind => ?_, fun h => ?_⟩, rfl, rfl⟩
    · cases kind with
      | updateAlphaMlx => exact (hnone .updateAlphaMlx).tracks_schedule.schedule_of_ne (by simp)
      | checkRateDecreaseMlx => exact ((hnone .checkRateDecreaseMlx).schedule_of_ne (by simp)).tracks_schedule
      | rateIncEventTimerMlx =>
          exact (((hnone .rateIncEventTimerMlx).schedule_of_ne (by simp)).schedule_of_ne (by simp)).tracks _
    · cases h
  · simp only [hfirst, Bool.false_eq_true, if_false]
    refine ⟨hwf, OnlyFor.refl i t, ?_, rfl, rfl⟩
    apply harmed.congr
    · intro kind
      cases kind with
      | updateAlphaMlx => rfl
      | checkRateDecreaseMlx => rfl
      | rateIncEventTimerMlx => rfl
    · exact fun h => absurd h Bool.false_ne_true

/-- After the first CNP the update of alpha is pending. -/
theorem cnpReceivedMlx_pending (hfirst : q.mlx.mFirstCnp = true) :
    ¬ Absent (cnpReceivedMlx cfg i q t).2 (.updateAlphaMlx, i) := by
  intro habsent
  simp only [cnpReceivedMlx] at habsent
  simp only [hfirst, if_true] at habsent
  apply habsent t.nextUid
  exact EventQueue.mem_schedule.mpr (.inl (EventQueue.mem_schedule.mpr (.inr rfl)))

theorem cnpReceivedMlx_later (hfirst : q.mlx.mFirstCnp = false) : (cnpReceivedMlx cfg i q t).2 = t := by
  simp only [cnpReceivedMlx]
  simp [hfirst]

/-- Completing a queue pair cancels whatever it has pending. -/
theorem qpComplete_absent (hmode : cfg.mCcMode = 1) (harmed : Armed i q.mlx t) (kind : TimerKind) :
    Absent (qpComplete cfg q t).2 (kind, i) := by
  simp only [qpComplete, hmode, if_true]
  cases kind with
  | updateAlphaMlx => exact ((harmed.tracks .updateAlphaMlx).absent_cancel.cancel _).cancel _
  | checkRateDecreaseMlx => exact (((harmed.tracks .checkRateDecreaseMlx).cancel _).absent_cancel).cancel _
  | rateIncEventTimerMlx => exact (((harmed.tracks .rateIncEventTimerMlx).cancel _).cancel _).absent_cancel

theorem qpComplete_wf (cfg : CcConfig) (q : CcQueuePair) (hwf : t.Wf) : (qpComplete cfg q t).2.Wf := by
  unfold qpComplete
  dsimp only
  split
  · exact ((hwf.cancel _).cancel _).cancel _
  · exact hwf

theorem qpComplete_only (cfg : CcConfig) (i : Nat) (q : CcQueuePair) (t : Timers) :
    OnlyFor i t (qpComplete cfg q t).2 := by
  unfold qpComplete
  dsimp only
  split
  · exact ((OnlyFor.cancel i t _).trans (OnlyFor.cancel i _ _)).trans (OnlyFor.cancel i _ _)
  · exact OnlyFor.refl i t

theorem TimersKept.refl (hwf : t.Wf) (harmed : Armed i q.mlx t) : TimersKept i q t (q, t) where
  wf := hwf
  only := OnlyFor.refl i t
  armed := harmed
  completed := rfl
  key := rfl

end CcQueuePair

/-! ### The host -/

namespace CcHost

open CcQueuePair

/-- What holds of a host in every state: each queue pair knows its timers, no timer is for a queue pair
that does not exist, and the map finds only queue pairs that are not complete. -/
structure HostInv (h : CcHost) : Prop where
  wf : h.timers.Wf
  armed : ∀ i q, h.qps[i]? = some q → Armed i q.mlx h.timers
  known : ∀ e ∈ h.timers.pending, e.2.2 < h.qps.length
  mapped : ∀ key i, h.qpMap key = some i → ∃ q, h.qps[i]? = some q ∧ keyOf q = key ∧ q.completed = false

/-- No queue pair that is complete has a timer. -/
def Quiet (h : CcHost) : Prop :=
  ∀ i q, h.qps[i]? = some q → q.completed = true → ∀ kind, Absent h.timers (kind, i)

/-- The acknowledgement completes the queue pair it is for and carries the first CNP of that queue pair. -/
def CompletesOnFirstCnp (cfg : CcConfig) (h : CcHost) : HostEvent → Prop
  | .ack p _ _ _ =>
      p.cnp = true ∧ cfg.mAckInterval ≠ 0 ∧ ∃ i q, h.qpMap (getQpKey p.sip p.dport p.pg) = some i ∧
        h.qps[i]? = some q ∧ q.mlx.mFirstCnp = true ∧
        q.qp.mSize.toNat ≤ max q.qp.sndUna.toNat (ackValue cfg.toRdmaHwConfig p.frame.seq).toNat
  | _ => False

variable {cfg : CcConfig} {h h' : CcHost} {i : Nat} {q : CcQueuePair} {qpMap : UInt64 → Option Nat}
  {r : CcQueuePair × Timers}

theorem hostInv_empty : HostInv empty where
  wf := Wf.empty
  armed := fun i q hq => by simp [empty] at hq
  known := fun e he => by simp [empty, EventQueue.empty] at he
  mapped := fun key i hi => by simp [empty] at hi

theorem quiet_empty : Quiet empty := fun i q hq => by simp [empty] at hq

/-- The queue pair that the map finds under a key. -/
theorem HostInv.of_mapped (hinv : HostInv h) {key : UInt64} (hkey : h.qpMap key = some i) (hq : h.qps[i]? = some q) :
    keyOf q = key ∧ q.completed = false := by
  obtain ⟨q', hq', hsame, hlive⟩ := hinv.mapped key i hkey
  obtain rfl := Option.some.inj (hq.symm.trans hq')
  exact ⟨hsame, hlive⟩

theorem set_get {j : Nat} {q' : CcQueuePair} (hq' : (h.qps.set i r.1)[j]? = some q') :
    (j = i ∧ q' = r.1) ∨ (j ≠ i ∧ h.qps[j]? = some q') := by
  by_cases hj : j = i
  · subst hj
    rw [List.getElem?_set_self', Option.map_eq_map, Option.map_eq_some_iff] at hq'
    obtain ⟨_, -, rfl⟩ := hq'
    exact .inl ⟨rfl, rfl⟩
  · rw [List.getElem?_set_ne (Ne.symm hj)] at hq'
    exact .inr ⟨hj, hq'⟩

/-- The invariant when one queue pair, its timers and its place in the map change. -/
theorem HostInv.set (hinv : HostInv h) (hq : h.qps[i]? = some q) (hwf : r.2.Wf) (honly : OnlyFor i h.timers r.2)
    (harmed : Armed i r.1.mlx r.2) (hkey : keyOf r.1 = keyOf q)
    (hmap : ∀ key j, qpMap key = some j → h.qpMap key = some j)
    (hlive : ∀ key, qpMap key = some i → r.1.completed = false) :
    HostInv { qps := h.qps.set i r.1, qpMap := qpMap, timers := r.2 } where
  wf := hwf
  armed := by
    intro j q' hq'
    rcases set_get hq' with ⟨rfl, rfl⟩ | ⟨hne, hold⟩
    · exact harmed
    · exact honly.armed hne (hinv.armed j q' hold)
  known := by
    intro e he
    rw [List.length_set]
    by_cases hi : e.2.2 = i
    · rw [hi]
      exact (List.getElem?_eq_some_iff.mp hq).1
    · exact hinv.known e (honly e he hi)
  mapped := by
    intro key j hj
    obtain ⟨q', hq', hkey', hlive'⟩ := hinv.mapped key j (hmap key j hj)
    by_cases hi : j = i
    · subst hi
      obtain rfl := Option.some.inj (hq.symm.trans hq')
      refine ⟨r.1, ?_, hkey.trans hkey', hlive key hj⟩
      rw [List.getElem?_set_self', hq]
      rfl
    · refine ⟨q', ?_, hkey', hlive'⟩
      rw [List.getElem?_set_ne (Ne.symm hi)]
      exact hq'

theorem Quiet.set_iff (qpMap : UInt64 → Option Nat) (hquiet : Quiet h) (hq : h.qps[i]? = some q)
    (honly : OnlyFor i h.timers r.2) :
    Quiet { qps := h.qps.set i r.1, qpMap := qpMap, timers := r.2 } ↔
      (r.1.completed = true → ∀ kind, Absent r.2 (kind, i)) := by
  constructor
  · intro hafter
    apply hafter i r.1
    show (h.qps.set i r.1)[i]? = some r.1
    rw [List.getElem?_set_self', hq]
    rfl
  · intro hafter j q' hq' hcompleted kind
    rcases set_get hq' with ⟨rfl, rfl⟩ | ⟨hne, hold⟩
    · exact hafter hcompleted kind
    · exact honly.absent hne (hquiet j q' hold hcompleted kind)

/-- A step that leaves completion and the map alone. -/
theorem HostInv.set_kept (hinv : HostInv h) (hq : h.qps[i]? = some q) (honly : OnlyFor i h.timers r.2)
    {t : Timers} (hkept : TimersKept i q t r) :
    HostInv { qps := h.qps.set i r.1, qpMap := h.qpMap, timers := r.2 } := by
  apply hinv.set hq hkept.wf honly hkept.armed hkept.key (fun _ _ hmap => hmap)
  intro key hmap
  exact hkept.completed.trans (hinv.of_mapped hmap hq).2

theorem getNxtPacket_kept (cfg : CcConfig) (hwf : h.timers.Wf) (harmed : Armed i q.mlx h.timers) :
    TimersKept i q h.timers ({ q with qp := (getNxtPacket cfg.toRdmaHwConfig q.qp).2 }, h.timers) where
  wf := hwf
  only := OnlyFor.refl i _
  armed := harmed
  completed := rfl
  key := rfl

theorem initRates_kept (hmode : cfg.mCcMode = 1) (hwf : h.timers.Wf) (harmed : Armed i q.mlx h.timers) :
    TimersKept i q h.timers (initRates cfg q, h.timers) := by
  have hinit : initRates cfg q =
      { q with mRate := cfg.lineRate, mlx := { q.mlx with mTargetRate := cfg.lineRate } } := by
    simp only [initRates]
    rw [if_pos hmode]
  rw [hinit]
  refine ⟨hwf, OnlyFor.refl i _, ?_, rfl, rfl⟩
  apply harmed.congr
  · intro kind
    cases kind with
    | updateAlphaMlx => rfl
    | checkRateDecreaseMlx => rfl
    | rateIncEventTimerMlx => rfl
  · exact fun h => h

/-- A queue pair whose timer fires is not complete. -/
theorem Quiet.live_of_fire (hquiet : Quiet h) (hq : h.qps[i]? = some q) {uid : Nat} {kind : TimerKind} {t : Timers}
    (hfire : h.timers.fire uid = some ((kind, i), t)) : q.completed = false := by
  cases hcompleted : q.completed with
  | false => rfl
  | true => exact absurd (EventQueue.fire_spec hfire).1 (hquiet i q hq hcompleted kind uid)

/-- An acknowledgement finishes a queue pair exactly when it covers what was left. -/
theorem receiveAck_finished_iff {cfg : RdmaHwConfig} {ack : AckFrame} {qp qp' : RdmaQueuePair} {finished : Bool}
    (h : Lcmp.receiveAck cfg ack qp = some (qp', finished)) :
    finished = true ↔
      cfg.mAckInterval ≠ 0 ∧ qp.mSize.toNat ≤ max qp.sndUna.toNat (ackValue cfg ack.seq).toNat := by
  simp only [Lcmp.receiveAck] at h
  split at h
  · rename_i hinterval
    obtain ⟨-, rfl⟩ := Prod.mk.inj (Option.some.inj h)
    exact ⟨fun h => absurd h Bool.false_ne_true, fun h => absurd hinterval h.1⟩
  · rename_i hinterval
    split at h
    · cases h
    · obtain ⟨-, rfl⟩ := Prod.mk.inj (Option.some.inj h)
      rw [RdmaQueuePair.isFinished_iff, RdmaQueuePair.acknowledge_toNat, (qp.acknowledge_sndNxt _).2,
        UInt32.toNat_toUInt64]
      exact ⟨fun hle => ⟨hinterval, hle⟩, fun hle => hle.2⟩

/-- The handler up to the rates of the other modes, for a queue pair that is not complete. -/
theorem afterFlags_kept (p : AckPacket) (finished : Bool) {t : Timers} (hmode : cfg.mCcMode = 1) (hwf : t.Wf)
    (harmed : Armed i q.mlx t) (hlive : q.completed = false) (hr : afterFlags cfg p i finished q t = r) :
    r.2.Wf ∧ OnlyFor i t r.2 ∧ Armed i r.1.mlx r.2 ∧ keyOf r.1 = keyOf q ∧ r.1.completed = finished ∧
      ((finished = true → ∀ kind, Absent r.2 (kind, i)) ↔
        ¬ (p.cnp = true ∧ finished = true ∧ q.mlx.mFirstCnp = true)) := by
  subst hr
  simp only [afterFlags, completeIf]
  cases hfinished : finished with
  | false =>
      simp only [Bool.false_eq_true, if_false, false_implies, false_and, and_false, not_false_eq_true, and_true]
      simp only [cnpIf]
      split
      · have hkept := cnpReceivedMlx_kept cfg hwf harmed
        exact ⟨hkept.wf, hkept.only, hkept.armed, hkept.key, hkept.completed.trans hlive⟩
      · exact ⟨hwf, OnlyFor.refl i t, harmed, rfl, hlive⟩
  | true =>
      have hquiet := qpComplete_absent hmode harmed
      have hwf' := qpComplete_wf cfg q hwf
      have honly := qpComplete_only cfg i q t
      have harmed' : Armed i (qpComplete cfg q t).1.mlx (qpComplete cfg q t).2 :=
        ⟨fun kind => (hquiet kind).tracks _, fun _ => hquiet⟩
      simp only [if_true, true_implies, true_and]
      simp only [cnpIf]
      by_cases hcnp : p.cnp = true
      · rw [if_pos ⟨hcnp, hmode⟩]
        have hkept := cnpReceivedMlx_kept cfg hwf' harmed'
        refine ⟨hkept.wf, honly.trans hkept.only, hkept.armed, hkept.key, hkept.completed, ?_⟩
        cases hfirst : q.mlx.mFirstCnp with
        | true =>
            -- the alpha and decrease timers start again
            have hpending : ¬ Absent (cnpReceivedMlx cfg i (qpComplete cfg q t).1 (qpComplete cfg q t).2).2
                (.updateAlphaMlx, i) := cnpReceivedMlx_pending hfirst
            exact ⟨fun h => absurd (h .updateAlphaMlx) hpending, fun h => absurd ⟨hcnp, rfl⟩ h⟩
        | false =>
            have hsame : (cnpReceivedMlx cfg i (qpComplete cfg q t).1 (qpComplete cfg q t).2).2 =
                (qpComplete cfg q t).2 := cnpReceivedMlx_later hfirst
            rw [hsame]
            exact ⟨fun _ h => absurd h.2 Bool.false_ne_true, fun _ => hquiet⟩
      · rw [if_neg (fun h => hcnp h.1)]
        exact ⟨hwf', honly, harmed', rfl, rfl, fun _ h => hcnp h.1, fun _ => hquiet⟩

theorem handleAck_mlx (hmode : cfg.mCcMode = 1) {q' : CcQueuePair} {p : AckPacket} {now : UInt64} {rand uninit : UInt32}
    (h : handleAck cfg q p now rand uninit = some q') : q' = q := by
  simp only [handleAck] at h
  rw [hmode] at h
  exact (Option.some.inj h).symm

theorem hostInv_added (hinv : HostInv h) (hlive : q.completed = false) (hfirst : q.mlx.mFirstCnp = true) :
    HostInv (h.addQueuePair q) ∧ (Quiet h → Quiet (h.addQueuePair q)) := by
  have hget : ∀ j q', (h.qps ++ [q])[j]? = some q' → h.qps[j]? = some q' ∨ (j = h.qps.length ∧ q' = q) := by
    intro j q' hq'
    rw [List.getElem?_append] at hq'
    split at hq'
    · exact .inl hq'
    · obtain ⟨hlt, hq'⟩ := List.getElem?_eq_some_iff.mp hq'
      rw [List.length_singleton] at hlt
      refine .inr ⟨by omega, ?_⟩
      rw [← hq', List.getElem_singleton]
  have hnone : ∀ kind, Absent h.timers (kind, h.qps.length) := by
    intro kind uid hmem
    exact absurd (hinv.known _ hmem) (Nat.lt_irrefl _)
  refine ⟨⟨hinv.wf, ?_, ?_, ?_⟩, ?_⟩
  · intro j q' hq'
    rcases hget j q' hq' with hold | ⟨rfl, rfl⟩
    · exact hinv.armed j q' hold
    · exact ⟨fun kind => (hnone kind).tracks _, fun _ => hnone⟩
  · intro e he
    have hlt := hinv.known e he
    show e.2.2 < (h.qps ++ [q]).length
    rw [List.length_append]
    omega
  · intro key j hmap
    change Function.update h.qpMap (keyOf q) (some h.qps.length) key = some j at hmap
    rw [Function.update_apply] at hmap
    split at hmap
    · rename_i hkey
      obtain rfl := Option.some.inj hmap
      refine ⟨q, ?_, hkey.symm, hlive⟩
      show (h.qps ++ [q])[h.qps.length]? = some q
      simp
    · obtain ⟨q', hq', hkey', hlive'⟩ := hinv.mapped key j hmap
      refine ⟨q', ?_, hkey', hlive'⟩
      show (h.qps ++ [q])[j]? = some q'
      rw [List.getElem?_append_left (List.getElem?_eq_some_iff.mp hq').1]
      exact hq'
  · intro hquiet j q' hq' hcompleted
    rcases hget j q' hq' with hold | ⟨rfl, rfl⟩
    · exact hquiet j q' hold hcompleted
    · rw [hlive] at hcompleted
      cases hcompleted

/-- An acknowledgement: the queue pair it completes leaves the map, and has no timers unless this was its
first CNP. -/
theorem hostInv_acked (hmode : cfg.mCcMode = 1) (hinv : HostInv h) {p : AckPacket} (now : UInt64) (rand uninit : UInt32)
    {qp : RdmaQueuePair} {finished : Bool} (hkey : h.qpMap (getQpKey p.sip p.dport p.pg) = some i)
    (hq : h.qps[i]? = some q) (hack : Lcmp.receiveAck cfg.toRdmaHwConfig p.frame q.qp = some (qp, finished))
    (hr : afterFlags cfg p i finished { q with qp := qp } h.timers = r) {h' : CcHost}
    (hafter : h' = {
      qps := h.qps.set i r.1
      qpMap := if finished then Function.update h.qpMap (keyOf r.1) none else h.qpMap
      timers := r.2 }) :
    HostInv h' ∧ (Quiet h → (Quiet h' ↔ ¬ CompletesOnFirstCnp cfg h (.ack p now rand uninit))) := by
  obtain ⟨hsameKey, hlive⟩ := hinv.of_mapped hkey hq
  obtain ⟨hwf, honly, harmed, hkey', hcompleted, hquiet'⟩ :=
    afterFlags_kept (q := { q with qp := qp }) p finished hmode hinv.wf (hinv.armed i q hq) hlive hr
  have hsame : keyOf r.1 = keyOf q := by
    rw [hkey']
    simp only [keyOf]
    rw [receiveAck_mPg hack]
  subst hafter
  refine ⟨hinv.set hq hwf honly harmed hsame ?_ ?_, fun hquiet => ?_⟩
  · intro key j hmap
    split at hmap
    · rw [Function.update_apply] at hmap
      split at hmap
      · cases hmap
      · exact hmap
    · exact hmap
  · intro key hmap
    rw [hcompleted]
    cases hfinished : finished with
    | false => rfl
    | true =>
        -- the key the queue pair is under is no longer in the map
        rw [hfinished, if_pos rfl, Function.update_apply] at hmap
        split at hmap
        · cases hmap
        · rename_i hne
          exact absurd (hsame.trans (hinv.of_mapped hmap hq).1).symm hne
  · rw [Quiet.set_iff _ hquiet hq honly, hcompleted, hquiet', receiveAck_finished_iff hack]
    constructor
    · rintro hnot ⟨hcnp, hinterval, j, q₀, hkey₀, hq₀, hfirst, hcovers⟩
      obtain rfl := Option.some.inj (hkey.symm.trans hkey₀)
      obtain rfl := Option.some.inj (hq.symm.trans hq₀)
      exact hnot ⟨hcnp, ⟨hinterval, hcovers⟩, hfirst⟩
    · rintro hnot ⟨hcnp, ⟨hinterval, hcovers⟩, hfirst⟩
      exact hnot ⟨hcnp, hinterval, i, q, hkey, hq, hfirst, hcovers⟩

/-- A step that keeps a queue pair as it is towards the map, and arms no timer of one that is complete. -/
theorem HostInv.quiet_kept (hinv : HostInv h) (hq : h.qps[i]? = some q) {t : Timers} (hkept : TimersKept i q t r)
    (honly : OnlyFor i h.timers r.2)
    (hstays : Quiet h → q.completed = true → ∀ kind, Absent r.2 (kind, i)) :
    HostInv { qps := h.qps.set i r.1, qpMap := h.qpMap, timers := r.2 } ∧
      (Quiet h → Quiet { qps := h.qps.set i r.1, qpMap := h.qpMap, timers := r.2 }) := by
  refine ⟨hinv.set_kept hq honly hkept, fun hquiet => ?_⟩
  rw [Quiet.set_iff h.qpMap hquiet hq honly]
  intro hcompleted
  exact hstays hquiet (hkept.completed.symm.trans hcompleted)

/-- The invariant is kept by every step, and quiet by all but one kind. -/
theorem hostInv_step (hmode : cfg.mCcMode = 1) {e : HostEvent} (hinv : HostInv h) (hstep : Step cfg h e h') :
    HostInv h' ∧ (Quiet h → (Quiet h' ↔ ¬ CompletesOnFirstCnp cfg h e)) := by
  cases hstep with
  | added dip sport size pg win baseRtt hop =>
      obtain ⟨hinv', hquiet'⟩ := hostInv_added (q := CcQueuePair.new cfg dip sport size pg win baseRtt hop) hinv rfl rfl
      exact ⟨hinv', fun hquiet => iff_of_true (hquiet' hquiet) not_false⟩
  | @sent i q hq =>
      have hkept := getNxtPacket_kept cfg hinv.wf (hinv.armed i q hq)
      obtain ⟨hinv', hquiet'⟩ := hinv.quiet_kept hq hkept hkept.only fun hquiet => hquiet i q hq
      exact ⟨hinv', fun hquiet => iff_of_true (hquiet' hquiet) not_false⟩
  | unknown hkey =>
      refine ⟨hinv, fun hquiet => iff_of_true hquiet ?_⟩
      rintro ⟨-, -, i, q, hsome, -⟩
      cases hkey.symm.trans hsome
  | @acked p now rand uninit i q q' qp finished hkey hq hack hhandle =>
      obtain rfl := handleAck_mlx hmode hhandle
      exact hostInv_acked hmode hinv now rand uninit hkey hq hack rfl rfl
  | idle sip fid qIndex => exact ⟨hinv, fun hquiet => iff_of_true hquiet not_false⟩
  | @initialised sip fid qIndex i q hq hzero =>
      have hkept := initRates_kept hmode hinv.wf (hinv.armed i q hq)
      obtain ⟨hinv', hquiet'⟩ := hinv.quiet_kept hq hkept hkept.only fun hquiet => hquiet i q hq
      exact ⟨hinv', fun hquiet => iff_of_true (hquiet' hquiet) not_false⟩
  | @fired uid kind i timers q hfire hq =>
      have hkept := runTimer_kept cfg hinv.wf (hinv.armed i q hq) hfire
      have honly := (OnlyFor.fire hfire).trans hkept.only
      have hlive : Quiet h → q.completed = false := fun hquiet => hquiet.live_of_fire hq hfire
      obtain ⟨hinv', hquiet'⟩ := hinv.quiet_kept hq hkept honly fun hquiet hcompleted =>
        absurd ((hlive hquiet).symm.trans hcompleted) Bool.false_ne_true
      exact ⟨hinv', fun hquiet => iff_of_true (hquiet' hquiet) not_false⟩

/-- Timers live and die with their queue pair, all but those of one kind of acknowledgement. In a run of
DCQCN no queue pair ever has two events of one kind pending; and no queue pair that is complete has one
pending exactly when no acknowledgement that completes a queue pair carries its first CNP. -/
theorem timers_die_with_qp_iff (hmode : cfg.mCcMode = 1) {trace : List (Transition CcHost HostEvent)}
    (hrun : (hostSystem cfg).Run empty trace h) :
    (∀ x ∈ trace, ∀ kind i, x.post.timers.count (kind, i) ≤ 1) ∧
    ((∀ x ∈ trace, ∀ i q, x.post.qps[i]? = some q → q.completed = true →
        ∀ kind, x.post.timers.count (kind, i) = 0) ↔
      ∀ x ∈ trace, ¬ CompletesOnFirstCnp cfg x.pre x.label) := by
  have hkeep : ∀ s e t, HostInv s → (hostSystem cfg).next s e = some t → HostInv t := fun s e t hinv hnext =>
    (hostInv_step hmode hinv (hostNext_step hnext)).1
  have hinv := (hrun.invariant hkeep hostInv_empty).2
  constructor
  · intro x hx kind i
    have hpost := (hinv x hx).2
    by_cases hi : i < x.post.qps.length
    · exact ((hpost.armed i _ (List.getElem?_eq_getElem hi)).tracks kind).count_le_one hpost.wf
    · have hnone : Absent x.post.timers (kind, i) := fun uid hmem => hi (hpost.known _ hmem)
      rw [EventQueue.count_eq_zero_iff.mpr hnone]
      exact Nat.zero_le 1
  · have hiff := hrun.forall_post_iff (P := fun s => HostInv s ∧ Quiet s) (C := fun s e => ¬ CompletesOnFirstCnp cfg s e)
      (fun s e t hs hnext => by
        obtain ⟨hinv', hquiet'⟩ := hostInv_step hmode hs.1 (hostNext_step hnext)
        exact ⟨fun h => (hquiet' hs.2).mp h.2, fun h => ⟨hinv', (hquiet' hs.2).mpr h⟩⟩)
      ⟨hostInv_empty, quiet_empty⟩
    rw [← hiff]
    constructor
    · intro hnone x hx
      refine ⟨(hinv x hx).2, fun i q hq hcompleted kind => ?_⟩
      exact EventQueue.count_eq_zero_iff.mp (hnone x hx i q hq hcompleted kind)
    · intro hquiet x hx i q hq hcompleted kind
      exact EventQueue.count_eq_zero_iff.mpr ((hquiet x hx).2 i q hq hcompleted kind)

/-- Both segments of a flow are marked. The first ACK starts the timers, and two of them have fired when the second one
comes. -/
def markedTwice : List HostEvent :=
  [.addQueuePair 0x0b000101 10000 2000 3 0 8000 (fun _ => idleHop), .send 0, .send 0, markedAck 1000, .fire 0, .fire 1,
    markedAck 2000]

/-- No queue pair whose first CNP an acknowledgement carries is complete by it. -/
def earlyCnp (cfg : CcConfig) (x : Transition CcHost HostEvent) : Bool :=
  match x.label with
  | .ack p _ _ _ => x.pre.qps.all fun q => !(q.mlx.mFirstCnp &&
      decide (q.qp.mSize.toNat ≤ max q.qp.sndUna.toNat (ackValue cfg.toRdmaHwConfig p.frame.seq).toNat))
  | _ => true

theorem not_completesOnFirstCnp {x : Transition CcHost HostEvent} (h : earlyCnp cfg x = true) :
    ¬ CompletesOnFirstCnp cfg x.pre x.label := by
  obtain ⟨pre, label, post⟩ := x
  cases label with
  | ack p now rand uninit =>
      rintro ⟨-, -, i, q, -, hq, hfirst, hcovered⟩
      have hearly := List.all_eq_true.mp h q (List.mem_of_getElem? hq)
      rw [hfirst, Bool.true_and, Bool.not_eq_true', decide_eq_false_iff_not] at hearly
      exact hearly hcovered
  | addQueuePair dip sport size pg win baseRtt hop => exact not_false
  | send i => exact not_false
  | fire uid => exact not_false
  | cnp sip fid qIndex => exact not_false

/-- All three timers are pending before the second ACK, and none is after it. -/
theorem timers_die_marked :
    ((hostSystem dcqcn).exec empty markedTwice.dropLast).map
        (fun h => [TimerKind.updateAlphaMlx, .checkRateDecreaseMlx, .rateIncEventTimerMlx].map fun kind =>
          h.timers.count (kind, 0)) = some [1, 1, 1] ∧
      ∃ trace h, (hostSystem dcqcn).Run empty trace h ∧ trace.map Transition.label = markedTwice ∧
        (h.qps[0]?).map CcQueuePair.completed = some true ∧
        ∀ x ∈ trace, ∀ i q, x.post.qps[i]? = some q → q.completed = true →
          ∀ kind, x.post.timers.count (kind, i) = 0 := by
  refine ⟨by decide +kernel, ?_⟩
  have hchecked : (hostSystem dcqcn).checked (earlyCnp dcqcn) empty markedTwice = true := by decide +kernel
  have hcompleted : ((hostSystem dcqcn).exec empty markedTwice).map (fun h => (h.qps[0]?).map CcQueuePair.completed) =
      some (some true) := by decide +kernel
  obtain ⟨trace, h, hrun, hlabels, hexec, hearly⟩ := System.Run.of_checked _ hchecked
  rw [hexec] at hcompleted
  refine ⟨trace, h, hrun, hlabels, Option.some.inj hcompleted, (timers_die_with_qp_iff rfl hrun).2.mpr fun x hx => ?_⟩
  exact not_completesOnFirstCnp (hearly x hx)

/-- With the flag it has timers when it is complete, and after two of them have fired it has all three. -/
theorem timers_outlive_qp : ∃ h, (hostSystem dcqcn).exec empty (oneSegment true ++ [.fire 0, .fire 1]) = some h ∧
    (h.qps[0]?).map CcQueuePair.completed = some true ∧ ∀ kind, h.timers.count (kind, 0) = 1 := by
  refine ⟨_, rfl, rfl, ?_⟩
  rintro (_ | _ | _)
  · decide
  · decide
  · decide

end CcHost

end Lcmp
