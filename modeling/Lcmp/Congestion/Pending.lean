import Lcmp.Congestion.Range
import Lcmp.Congestion.TimerLife

/-!
# The feedback never stops

Nothing but a timer raises the rate of a queue pair or sees to a CNP. A timer that fires schedules the next one of its
kind, a decrease replaces the pending increase, and what a queue pair cancels is its own: so until it is complete, a queue
pair that is below the line rate has an increase pending, and one that has seen a CNP a check and an update of alpha.
-/

namespace Lcmp

open EventQueue (Wf Tracks Absent Live Names Others)

/-- The events of one queue pair. -/
def ForQp (i : Nat) (a : TimerKind × Nat) : Prop := a.2 = i

section Ids

/-- Every id a queue pair holds was given to a timer of its own. -/
def Named (i : Nat) (m : Mlx) (t : Timers) : Prop := ∀ kind, Names t (kind, i) (m.eventId kind)

/-- The id for one kind of timer is new. -/
structure Renewed (kind : TimerKind) (uid : Nat) (m m' : Mlx) : Prop where
  self : m'.eventId kind = some uid
  rest : ∀ other, other ≠ kind → m'.eventId other = m.eventId other

variable {i : Nat} {m m' : Mlx} {t t' : Timers} {kind : TimerKind}

/-- What leaves the three ids alone. -/
theorem eventId_congr (halpha : m'.mEventUpdateAlpha = m.mEventUpdateAlpha)
    (hcheck : m'.mEventDecreaseRate = m.mEventDecreaseRate) (hrp : m'.mRpTimer = m.mRpTimer) (kind : TimerKind) :
    m'.eventId kind = m.eventId kind := by
  cases kind with
  | updateAlphaMlx => exact halpha
  | checkRateDecreaseMlx => exact hcheck
  | rateIncEventTimerMlx => exact hrp

theorem Named.congr (h : Named i m t) (hid : ∀ kind, m'.eventId kind = m.eventId kind) : Named i m' t := by
  intro kind
  rw [hid]
  exact h kind

theorem Named.others {mine : TimerKind × Nat → Prop} (h : Named i m t) (hothers : Others mine t t') : Named i m t' :=
  fun kind => hothers.names _ _ (h kind)

theorem Named.others_cancel (h : Named i m t) (kind : TimerKind) : Others (ForQp i) t (t.cancel (m.eventId kind)) :=
  (h kind).others_cancel rfl

theorem Named.schedule (h : Named i m t) (hwf : t.Wf) (hm : Renewed kind t.nextUid m m') :
    Named i m' (t.schedule (kind, i)).2 := by
  intro other
  by_cases hother : other = kind
  · subst hother
    rw [hm.self]
    exact hwf.names_schedule
  · rw [hm.rest other hother]
    exact (h other).schedule _

theorem Renewed.live (hm : Renewed kind t.nextUid m m')
    (h : ∀ other, other ≠ kind → Live t (other, i) (m.eventId other)) (other : TimerKind) :
    Live (t.schedule (kind, i)).2 (other, i) (m'.eventId other) := by
  by_cases hother : other = kind
  · subst hother
    rw [hm.self]
    exact EventQueue.live_schedule
  · rw [hm.rest other hother]
    exact (h other hother).schedule _

end Ids

namespace CcQueuePair

/-- What is pending for a queue pair that is not complete. -/
structure Running (cfg : CcConfig) (i : Nat) (q : CcQueuePair) (t : Timers) : Prop where
  live : ∀ kind, Live t (kind, i) (q.mlx.eventId kind)
  started : q.mlx.mFirstCnp = false → q.mlx.mEventUpdateAlpha ≠ none ∧ q.mlx.mEventDecreaseRate ≠ none
  slowed : q.mRate ≠ cfg.lineRate → q.mlx.mRpTimer ≠ none
  noted : q.mlx.mDecreaseCnpArrived = true → q.mlx.mFirstCnp = false

/-- A function on a queue pair and the timers that cancels none but its own. -/
structure Owned (i : Nat) (t : Timers) (r : CcQueuePair × Timers) : Prop where
  others : Others (ForQp i) t r.2
  named : Named i r.1.mlx r.2

variable {cfg : CcConfig} {i : Nat} {q : CcQueuePair} {t t' : Timers}

theorem scheduleUpdateAlphaMlx_renewed (i : Nat) (q : CcQueuePair) (t : Timers) :
    Renewed .updateAlphaMlx t.nextUid q.mlx (scheduleUpdateAlphaMlx i q t).1.mlx := by
  refine ⟨rfl, fun other hother => ?_⟩
  cases other with
  | updateAlphaMlx => exact absurd rfl hother
  | checkRateDecreaseMlx => rfl
  | rateIncEventTimerMlx => rfl

theorem scheduleDecreaseRateMlx_renewed (i : Nat) (q : CcQueuePair) (t : Timers) :
    Renewed .checkRateDecreaseMlx t.nextUid q.mlx (scheduleDecreaseRateMlx i q t).1.mlx := by
  refine ⟨rfl, fun other hother => ?_⟩
  cases other with
  | updateAlphaMlx => rfl
  | checkRateDecreaseMlx => exact absurd rfl hother
  | rateIncEventTimerMlx => rfl

theorem scheduleRateIncEventTimerMlx_renewed (i : Nat) (q : CcQueuePair) (t : Timers) :
    Renewed .rateIncEventTimerMlx t.nextUid q.mlx (scheduleRateIncEventTimerMlx i q t).1.mlx := by
  refine ⟨rfl, fun other hother => ?_⟩
  cases other with
  | updateAlphaMlx => rfl
  | checkRateDecreaseMlx => rfl
  | rateIncEventTimerMlx => exact absurd rfl hother

/-- The rate increase itself keeps every id. -/
theorem rateIncEventTimerMlx_renewed :
    Renewed .rateIncEventTimerMlx t.nextUid q.mlx (rateIncEventTimerMlx cfg i q t).1.mlx := by
  have hrenewed := scheduleRateIncEventTimerMlx_renewed i q t
  have hid := rateIncEventMlx_eventId cfg (scheduleRateIncEventTimerMlx i q t).1
  have hsame : ∀ kind, (rateIncEventTimerMlx cfg i q t).1.mlx.eventId kind =
      (rateIncEventMlx cfg (scheduleRateIncEventTimerMlx i q t).1).mlx.eventId kind := eventId_congr rfl rfl rfl
  refine ⟨?_, fun other hother => ?_⟩
  · rw [hsame, hid]
    exact hrenewed.self
  · rw [hsame, hid]
    exact hrenewed.rest other hother

/-! ### The check for a decrease -/

theorem checkRateDecreaseMlx_quiet (hquiet : q.mlx.mDecreaseCnpArrived = false) :
    checkRateDecreaseMlx cfg i q t = scheduleDecreaseRateMlx i q t := by
  unfold checkRateDecreaseMlx
  exact if_neg (by rw [← Bool.not_eq_true] at hquiet; exact hquiet)

/-- The queue pair and the timers when the next check is scheduled and the pending increase is cancelled. -/
def decreased (cfg : CcConfig) (i : Nat) (q : CcQueuePair) (t : Timers) : CcQueuePair × Timers :=
  (decreaseRateMlx cfg (scheduleDecreaseRateMlx i q t).1, (scheduleDecreaseRateMlx i q t).2.cancel q.mlx.mRpTimer)

theorem checkRateDecreaseMlx_noted (hnoted : q.mlx.mDecreaseCnpArrived = true) :
    checkRateDecreaseMlx cfg i q t =
      scheduleRateIncEventTimerMlx i (decreased cfg i q t).1 (decreased cfg i q t).2 := by
  unfold checkRateDecreaseMlx
  exact if_pos hnoted

theorem decreased_eventId (kind : TimerKind) :
    (decreased cfg i q t).1.mlx.eventId kind = (scheduleDecreaseRateMlx i q t).1.mlx.eventId kind :=
  eventId_congr rfl rfl rfl kind

theorem scheduled_named (hwf : t.Wf) (hnamed : Named i q.mlx t) :
    Named i (scheduleDecreaseRateMlx i q t).1.mlx (scheduleDecreaseRateMlx i q t).2 :=
  hnamed.schedule hwf (scheduleDecreaseRateMlx_renewed i q t)

theorem decreased_owned (hwf : t.Wf) (hnamed : Named i q.mlx t) : Owned i t (decreased cfg i q t) := by
  have hscheduled := scheduled_named hwf hnamed
  have hcancel := hscheduled.others_cancel .rateIncEventTimerMlx
  exact ⟨(Others.schedule _ t _).trans hcancel, (hscheduled.others hcancel).congr decreased_eventId⟩

/-- The pending increase goes, the other timers stay. -/
theorem decreased_live (hwf : t.Wf) (hnamed : Named i q.mlx t)
    (hlive : ∀ other, other ≠ .checkRateDecreaseMlx → Live t (other, i) (q.mlx.eventId other)) (other : TimerKind)
    (hother : other ≠ .rateIncEventTimerMlx) :
    Live (decreased cfg i q t).2 (other, i) ((decreased cfg i q t).1.mlx.eventId other) := by
  have hscheduled := (scheduleDecreaseRateMlx_renewed i q t).live (i := i) hlive other
  have hrp := scheduled_named hwf hnamed .rateIncEventTimerMlx
  rw [decreased_eventId]
  apply hscheduled.cancel_of_names hrp
  exact fun hsame => hother (congrArg Prod.fst hsame)

/-! ### The timers -/

theorem runTimer_owned (hwf : t.Wf) (hnamed : Named i q.mlx t) (kind : TimerKind) :
    Owned i t (runTimer cfg i q t kind) := by
  cases kind with
  | updateAlphaMlx =>
      have hrenewed := scheduleUpdateAlphaMlx_renewed i q t
      exact ⟨Others.schedule _ t _, hnamed.schedule hwf ⟨hrenewed.self, hrenewed.rest⟩⟩
  | checkRateDecreaseMlx =>
      show Owned i t (checkRateDecreaseMlx cfg i q t)
      cases hnoted : q.mlx.mDecreaseCnpArrived with
      | false =>
          rw [checkRateDecreaseMlx_quiet hnoted]
          exact ⟨Others.schedule _ t _, scheduled_named hwf hnamed⟩
      | true =>
          rw [checkRateDecreaseMlx_noted hnoted]
          have hdecreased : Owned i t (decreased cfg i q t) := decreased_owned hwf hnamed
          have hwf' : (decreased cfg i q t).2.Wf := (hwf.schedule _).cancel _
          exact ⟨hdecreased.others.trans (Others.schedule _ _ _),
            hdecreased.named.schedule hwf' (scheduleRateIncEventTimerMlx_renewed i _ _)⟩
  | rateIncEventTimerMlx => exact ⟨Others.schedule _ t _, hnamed.schedule hwf rateIncEventTimerMlx_renewed⟩

/-- The timer that fires is not pending any more when its function runs, which schedules the next. -/
theorem runTimer_running {kind : TimerKind} (hwf : t.Wf) (hnamed : Named i q.mlx t)
    (hlive : ∀ other, other ≠ kind → Live t (other, i) (q.mlx.eventId other)) (hfirst : q.mlx.mFirstCnp = false)
    (hstarted : q.mlx.mEventUpdateAlpha ≠ none ∧ q.mlx.mEventDecreaseRate ≠ none)
    (hslowed : q.mRate ≠ cfg.lineRate → q.mlx.mRpTimer ≠ none) :
    Running cfg i (runTimer cfg i q t kind).1 (runTimer cfg i q t kind).2 := by
  cases kind with
  | updateAlphaMlx =>
      have hrenewed := scheduleUpdateAlphaMlx_renewed i q t
      refine ⟨?_, fun _ => ⟨Option.some_ne_none _, hstarted.2⟩, hslowed, fun _ => hfirst⟩
      exact Renewed.live ⟨hrenewed.self, hrenewed.rest⟩ hlive
  | checkRateDecreaseMlx =>
      show Running cfg i (checkRateDecreaseMlx cfg i q t).1 (checkRateDecreaseMlx cfg i q t).2
      cases hnoted : q.mlx.mDecreaseCnpArrived with
      | false =>
          rw [checkRateDecreaseMlx_quiet hnoted]
          refine ⟨?_, fun _ => ⟨hstarted.1, Option.some_ne_none _⟩, hslowed, fun _ => hfirst⟩
          exact (scheduleDecreaseRateMlx_renewed i q t).live hlive
      | true =>
          rw [checkRateDecreaseMlx_noted hnoted]
          refine ⟨?_, fun _ => ⟨hstarted.1, Option.some_ne_none _⟩, fun _ => Option.some_ne_none _, fun _ => hfirst⟩
          exact (scheduleRateIncEventTimerMlx_renewed i _ _).live (decreased_live hwf hnamed hlive)
  | rateIncEventTimerMlx =>
      have hrenewed : Renewed .rateIncEventTimerMlx t.nextUid q.mlx (rateIncEventTimerMlx cfg i q t).1.mlx :=
        rateIncEventTimerMlx_renewed
      have hstays : (rateIncEventTimerMlx cfg i q t).1.mlx.mFirstCnp = false :=
        (rateIncEventMlx_frame cfg (scheduleRateIncEventTimerMlx i q t).1).1.trans hfirst
      have halpha := hrenewed.rest .updateAlphaMlx (by decide)
      have hcheck := hrenewed.rest .checkRateDecreaseMlx (by decide)
      have hrp := hrenewed.self
      refine ⟨hrenewed.live hlive, fun _ => ⟨?_, ?_⟩, fun _ => ?_, fun _ => hstays⟩
      · exact fun hnone => hstarted.1 (halpha.symm.trans hnone)
      · exact fun hnone => hstarted.2 (hcheck.symm.trans hnone)
      · exact fun hnone => Option.some_ne_none _ (hrp.symm.trans hnone)

/-! ### CNPs and completion -/

theorem cnpReceivedMlx_owned (hwf : t.Wf) (hnamed : Named i q.mlx t) : Owned i t (cnpReceivedMlx cfg i q t) := by
  cases hfirst : q.mlx.mFirstCnp with
  | false =>
      unfold cnpReceivedMlx
      dsimp only
      rw [if_neg (by rw [hfirst]; exact Bool.false_ne_true)]
      exact ⟨Others.refl _ t, hnamed.congr (eventId_congr rfl rfl rfl)⟩
  | true =>
      unfold cnpReceivedMlx
      dsimp only
      rw [if_pos hfirst]
      refine ⟨(Others.schedule _ t _).trans (Others.schedule _ _ _), fun kind => ?_⟩
      cases kind with
      | updateAlphaMlx => exact hwf.names_schedule.schedule _
      | checkRateDecreaseMlx => exact (hwf.schedule _).names_schedule
      | rateIncEventTimerMlx => exact ((hnamed .rateIncEventTimerMlx).schedule _).schedule _

/-- The first CNP starts the timers and, with a factor of one, leaves the rate alone. -/
theorem cnpReceivedMlx_running (hone : cfg.mRateOnFirstCnp = 1) (hrunning : Running cfg i q t) :
    Running cfg i (cnpReceivedMlx cfg i q t).1 (cnpReceivedMlx cfg i q t).2 := by
  have hlive := hrunning.live
  cases hfirst : q.mlx.mFirstCnp with
  | false =>
      unfold cnpReceivedMlx
      dsimp only
      rw [if_neg (by rw [hfirst]; exact Bool.false_ne_true)]
      refine ⟨fun kind => ?_, hrunning.started, hrunning.slowed, fun _ => hfirst⟩
      cases kind with
      | updateAlphaMlx => exact hlive .updateAlphaMlx
      | checkRateDecreaseMlx => exact hlive .checkRateDecreaseMlx
      | rateIncEventTimerMlx => exact hlive .rateIncEventTimerMlx
  | true =>
      unfold cnpReceivedMlx
      dsimp only
      rw [if_pos hfirst]
      refine ⟨fun kind => ?_, fun _ => ⟨Option.some_ne_none _, Option.some_ne_none _⟩, fun hslow => ?_, fun _ => rfl⟩
      · cases kind with
        | updateAlphaMlx => exact EventQueue.live_schedule.schedule _
        | checkRateDecreaseMlx => exact EventQueue.live_schedule
        | rateIncEventTimerMlx => exact ((hlive .rateIncEventTimerMlx).schedule _).schedule _
      · apply hrunning.slowed
        rw [hone] at hslow
        exact fun hsame => hslow ((DataRate.mul_eq_self _).trans hsame)

theorem qpComplete_owned (hnamed : Named i q.mlx t) : Owned i t (qpComplete cfg q t) := by
  have hothers : Others (ForQp i) t (qpComplete cfg q t).2 := by
    unfold qpComplete
    dsimp only
    split
    · have halpha := hnamed.others_cancel .updateAlphaMlx
      have hdecrease := (hnamed.others halpha).others_cancel .checkRateDecreaseMlx
      have hrp := ((hnamed.others halpha).others hdecrease).others_cancel .rateIncEventTimerMlx
      exact (halpha.trans hdecrease).trans hrp
    · exact Others.refl _ t
  exact ⟨hothers, hnamed.others hothers⟩

end CcQueuePair

/-! ### The host -/

namespace CcHost

open CcQueuePair

variable {cfg : CcConfig} {h h' : CcHost} {i : Nat} {q : CcQueuePair} {r : CcQueuePair × Timers} {t : Timers}

/-- Whatever becomes of a queue pair, the timers it holds are its own, and those it needs are pending until it is
complete. -/
structure Tended (cfg : CcConfig) (h : CcHost) : Prop where
  named : ∀ i q, h.qps[i]? = some q → Named i q.mlx h.timers
  running : ∀ i q, h.qps[i]? = some q → q.completed = false → Running cfg i q h.timers

theorem tended_empty : Tended cfg empty where
  named := fun i q hq => by simp [empty] at hq
  running := fun i q hq => by simp [empty] at hq

theorem Running.others {j : Nat} (hrunning : Running cfg j q t) (hne : j ≠ i) {t' : Timers}
    (hothers : Others (ForQp i) t t') : Running cfg j q t' where
  live := fun kind => hothers.live _ _ hne (hrunning.live kind)
  started := hrunning.started
  slowed := hrunning.slowed
  noted := hrunning.noted

/-- One queue pair changes, and the timers with it. -/
theorem Tended.set (htended : Tended cfg h) (howned : Owned i h.timers r)
    (hrunning : r.1.completed = false → Running cfg i r.1 r.2) (qpMap : UInt64 → Option Nat) :
    Tended cfg { qps := h.qps.set i r.1, qpMap := qpMap, timers := r.2 } where
  named := by
    intro j q' hq'
    rcases set_get hq' with ⟨rfl, rfl⟩ | ⟨-, hold⟩
    · exact howned.named
    · exact (htended.named j q' hold).others howned.others
  running := by
    intro j q' hq' hlive
    rcases set_get hq' with ⟨rfl, rfl⟩ | ⟨hne, hold⟩
    · exact hrunning hlive
    · exact Running.others (htended.running j q' hold hlive) hne howned.others

theorem completeIf_owned (finished : Bool) (hnamed : Named i q.mlx t) : Owned i t (completeIf cfg finished q t) := by
  unfold completeIf
  split
  · exact qpComplete_owned hnamed
  · exact ⟨Others.refl _ t, hnamed⟩

theorem afterFlags_owned (p : AckPacket) (finished : Bool) (hwf : t.Wf) (hnamed : Named i q.mlx t) :
    Owned i t (afterFlags cfg p i finished q t) := by
  have hcompleted : Owned i t (completeIf cfg finished q t) := completeIf_owned finished hnamed
  have hwf' : (completeIf cfg finished q t).2.Wf := by
    unfold completeIf
    split
    · exact qpComplete_wf cfg q hwf
    · exact hwf
  unfold afterFlags cnpIf
  split
  · obtain ⟨hothers, hnamed'⟩ := cnpReceivedMlx_owned hwf' hcompleted.named
    exact ⟨hcompleted.others.trans hothers, hnamed'⟩
  · exact hcompleted

theorem afterFlags_running (p : AckPacket) (hone : cfg.mRateOnFirstCnp = 1) (hrunning : Running cfg i q t) :
    Running cfg i (afterFlags cfg p i false q t).1 (afterFlags cfg p i false q t).2 := by
  unfold afterFlags cnpIf completeIf
  split
  · exact cnpReceivedMlx_running hone hrunning
  · exact hrunning

/-- A step that neither completes the queue pair nor does anything to its timers. -/
theorem Tended.set_same (htended : Tended cfg h) (hq : h.qps[i]? = some q) (q' : CcQueuePair)
    (hcompleted : q'.completed = q.completed) (hid : ∀ kind, q'.mlx.eventId kind = q.mlx.eventId kind)
    (hrunning : Running cfg i q h.timers → Running cfg i q' h.timers) :
    Tended cfg { h with qps := h.qps.set i q' } := by
  have hnamed : Named i q'.mlx h.timers := (htended.named i q hq).congr hid
  apply Tended.set (r := (q', h.timers)) htended ⟨Others.refl _ _, hnamed⟩
  intro hlive
  exact hrunning (htended.running i q hq (hcompleted.symm.trans hlive))

theorem initRates_dcqcn (hmode : cfg.mCcMode = 1) (q : CcQueuePair) : initRates cfg q =
    { q with mRate := cfg.lineRate, mlx := { q.mlx with mTargetRate := cfg.lineRate } } := by
  unfold initRates
  exact if_pos hmode

theorem initRates_eventId (hmode : cfg.mCcMode = 1) (q : CcQueuePair) (kind : TimerKind) :
    (initRates cfg q).mlx.eventId kind = q.mlx.eventId kind := by
  rw [initRates_dcqcn hmode]
  exact eventId_congr rfl rfl rfl kind

theorem initRates_running (hmode : cfg.mCcMode = 1) (hrunning : Running cfg i q t) :
    Running cfg i (initRates cfg q) t := by
  have hlive : ∀ kind, Live t (kind, i) ((initRates cfg q).mlx.eventId kind) := by
    intro kind
    rw [initRates_eventId hmode]
    exact hrunning.live kind
  rw [initRates_dcqcn hmode] at hlive ⊢
  exact ⟨hlive, hrunning.started, fun hslow => absurd rfl hslow, hrunning.noted⟩

theorem tended_added (htended : Tended cfg h) (hnone : ∀ kind, q.mlx.eventId kind = none) (hfirst : q.mlx.mFirstCnp = true)
    (hrate : q.mRate = cfg.lineRate) (hnoted : q.mlx.mDecreaseCnpArrived = false) : Tended cfg (h.addQueuePair q) := by
  have hget : ∀ (j : Nat) (q' : CcQueuePair), (h.qps ++ [q])[j]? = some q' → h.qps[j]? = some q' ∨ q' = q := by
    intro j q' hq'
    rw [List.getElem?_append] at hq'
    split at hq'
    · exact .inl hq'
    · exact .inr (List.mem_singleton.mp (List.mem_of_getElem? hq'))
  refine ⟨fun j q' hq' => ?_, fun j q' hq' hlive => ?_⟩
  · rcases hget j q' hq' with hold | rfl
    · exact htended.named j q' hold
    · intro kind
      rw [hnone]
      exact Names.none
  · rcases hget j q' hq' with hold | rfl
    · exact htended.running j q' hold hlive
    · refine ⟨fun kind => ?_, fun h => ?_, fun h => absurd hrate h, fun h => ?_⟩
      · rw [hnone]
        exact Live.none
      · exact absurd (hfirst.symm.trans h) (Bool.false_ne_true ∘ Eq.symm)
      · exact absurd (hnoted.symm.trans h) Bool.false_ne_true

/-- One step, whichever it is. -/
theorem tended_step (hmode : cfg.mCcMode = 1) (hone : cfg.mRateOnFirstCnp = 1) (hinv : HostInv h)
    (htended : Tended cfg h) {e : HostEvent} (hstep : Step cfg h e h') : Tended cfg h' := by
  cases hstep with
  | added dip sport size pg win baseRtt hop =>
      apply tended_added htended _ rfl rfl rfl
      intro kind
      cases kind with
      | updateAlphaMlx => rfl
      | checkRateDecreaseMlx => rfl
      | rateIncEventTimerMlx => rfl
  | @sent i q hq =>
      apply htended.set_same hq { q with qp := (getNxtPacket cfg.toRdmaHwConfig q.qp).2 } rfl (fun _ => rfl)
      exact fun hrunning => ⟨hrunning.live, hrunning.started, hrunning.slowed, hrunning.noted⟩
  | unknown hkey => exact htended
  | @acked p now rand uninit i q q' qp finished hkey hq hack hhandle =>
      obtain rfl := handleAck_mlx hmode hhandle
      have hlive := (hinv.of_mapped hkey hq).2
      have hnamed : Named i { q with qp := qp }.mlx h.timers := htended.named i q hq
      have hrunning := htended.running i q hq hlive
      have hrunning' : Running cfg i { q with qp := qp } h.timers :=
        ⟨hrunning.live, hrunning.started, hrunning.slowed, hrunning.noted⟩
      refine htended.set (afterFlags_owned p finished hinv.wf hnamed) (fun hlive' => ?_) _
      obtain ⟨-, -, -, -, hcompleted, -⟩ := afterFlags_kept (q := { q with qp := qp }) p finished hmode hinv.wf
        (hinv.armed i q hq) hlive rfl
      obtain rfl := hcompleted.symm.trans hlive'
      exact afterFlags_running p hone hrunning'
  | idle sip fid qIndex => exact htended
  | @initialised sip fid qIndex i q hq hzero =>
      have hkept := initRates_kept hmode hinv.wf (hinv.armed i q hq)
      exact htended.set_same hq _ hkept.completed (initRates_eventId hmode q) (initRates_running hmode)
  | @fired uid kind i timers q hfire hq =>
      have hwf := hinv.wf.fire hfire
      have hothers : Others (ForQp i) h.timers timers := hinv.wf.others_fire hfire rfl
      have hnamed := (htended.named i q hq).others hothers
      have howned : Owned i timers (runTimer cfg i q timers kind) := runTimer_owned hwf hnamed kind
      have hkept := runTimer_kept cfg hinv.wf (hinv.armed i q hq) hfire
      refine htended.set ⟨hothers.trans howned.others, howned.named⟩ (fun hlive => ?_) _
      have hrunning := htended.running i q hq (hkept.completed.symm.trans hlive)
      -- a timer that fires was pending, so it is not the first CNP that is waited for
      have hfirst : q.mlx.mFirstCnp = false := by
        rw [← Bool.not_eq_true]
        exact fun hfirst => (hinv.armed i q hq).first hfirst kind uid (EventQueue.fire_spec hfire).1
      apply runTimer_running hwf hnamed _ hfirst (hrunning.started hfirst) hrunning.slowed
      intro other hother
      apply (hrunning.live other).fire_of_ne hinv.wf hfire
      exact fun hsame => hother (congrArg Prod.fst hsame)

/-- The feedback of DCQCN never stops. In every reachable state, a queue pair that is not complete has exactly one rate
increase pending if its rate is not the line rate, exactly one update of alpha and one check for a decrease pending from
its first CNP on, and a CNP that it has noted waits for such a check. -/
theorem feedback_pending (hfirst : cfg.mRateOnFirstCnp = 1) (hmode : cfg.mCcMode = 1)
    (hreach : (hostSystem cfg).Reachable h) (hq : h.qps[i]? = some q) (hlive : q.completed = false) :
    (q.mRate ≠ cfg.lineRate → h.timers.count (.rateIncEventTimerMlx, i) = 1) ∧
      (q.mlx.mFirstCnp = false →
        h.timers.count (.updateAlphaMlx, i) = 1 ∧ h.timers.count (.checkRateDecreaseMlx, i) = 1) ∧
      (q.mlx.mDecreaseCnpArrived = true → h.timers.count (.checkRateDecreaseMlx, i) = 1) := by
  obtain ⟨hinv, htended⟩ : HostInv h ∧ Tended cfg h := by
    refine hreach.invariant (P := fun s => HostInv s ∧ Tended cfg s) ⟨hostInv_empty, tended_empty⟩ fun s e s' hs hnext => ?_
    have hstep := hostNext_step hnext
    exact ⟨(hostInv_step hmode hs.1 hstep).1, tended_step hmode hfirst hs.1 hs.2 hstep⟩
  have hrunning := htended.running i q hq hlive
  have hone : ∀ kind, q.mlx.eventId kind ≠ none → h.timers.count (kind, i) = 1 := by
    intro kind hsome
    obtain ⟨uid, huid⟩ := Option.ne_none_iff_exists'.mp hsome
    apply Nat.le_antisymm
    · exact ((hinv.armed i q hq).tracks kind).count_le_one hinv.wf
    · apply Nat.one_le_iff_ne_zero.mpr
      intro hzero
      exact EventQueue.count_eq_zero_iff.mp hzero uid (hrunning.live kind uid huid)
  have hstarted : q.mlx.mFirstCnp = false →
      h.timers.count (.updateAlphaMlx, i) = 1 ∧ h.timers.count (.checkRateDecreaseMlx, i) = 1 := by
    intro hfirst
    obtain ⟨halpha, hcheck⟩ := hrunning.started hfirst
    exact ⟨hone .updateAlphaMlx halpha, hone .checkRateDecreaseMlx hcheck⟩
  refine ⟨?_, hstarted, ?_⟩
  · intro hslow
    exact hone .rateIncEventTimerMlx (hrunning.slowed hslow)
  · intro hnoted
    exact (hstarted (hrunning.noted hnoted)).2

/-- The flow has a second segment. -/
def withSecond : HostEvent → HostEvent
  | .addQueuePair dip sport _ pg win baseRtt hop => .addQueuePair dip sport 2000 pg win baseRtt hop
  | e => e

/-- The first of two segments is marked, and the check that follows comes. -/
def marked : List HostEvent := (oneSegment true).map withSecond ++ [.fire 1]

/-- The rate is halved, and an increase is pending. -/
theorem feedback_pending_marked : ∃ h q, (hostSystem dcqcn).exec empty marked = some h ∧ h.qps[0]? = some q ∧
    q.mRate = 50000000000 ∧ h.timers.count (.rateIncEventTimerMlx, 0) = 1 := by
  have hstart : ∃ h q, (hostSystem dcqcn).exec empty marked = some h ∧ h.qps[0]? = some q ∧ q.completed = false ∧
      q.mRate = 50000000000 :=
    ⟨_, _, rfl, rfl, rfl, by decide +kernel⟩
  obtain ⟨h, q, hexec, hq, hlive, hrate⟩ := hstart
  have hreach := System.reachable_of_exec (M := hostSystem dcqcn) marked hexec
  have hslow : q.mRate ≠ dcqcn.lineRate := by
    rw [hrate]
    decide
  exact ⟨h, q, hexec, hq, hrate, (feedback_pending rfl rfl hreach hq hlive).1 hslow⟩

end CcHost

end Lcmp
