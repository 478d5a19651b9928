import Lcmp.Congestion.Pending
import Lcmp.Lib.Chase

/-!
# DCQCN recovers

Once congestion is over, the rate of a queue pair is brought back by the timer of the rate increase alone. Whatever else
happens at the host in between, what counts is how often that timer has fired.
-/

namespace Lcmp

namespace CcQueuePair

variable (cfg : CcConfig)

def chaseRule : Chase.Rule where
  ceiling := cfg.lineRate
  threshold := cfg.mRpgThreshold.toNat
  first := cfg.mRai
  later := cfg.mRhai
  size := 2 ^ 32

/-- The part of a queue pair that rate increases read and write. -/
def chase (q : CcQueuePair) : Chase where
  value := q.mRate
  target := q.mlx.mTargetRate
  stage := q.mlx.mRpTimeStage.toNat

variable {cfg} {i : Nat} {q : CcQueuePair} {t : Timers}

/-- A target that is cut off at the line rate. -/
theorem capped_eq_min (line target : Nat) : (if target > line then line else target) = min line target := by
  split
  · omega
  · omega

theorem increaseMlx_chase (increment : DataRate) : (increaseMlx cfg q increment).chase =
    ⟨q.mRate / 2 + min cfg.lineRate (q.mlx.mTargetRate + increment) / 2,
      min cfg.lineRate (q.mlx.mTargetRate + increment), q.mlx.mRpTimeStage.toNat⟩ := by
  have htarget := capped_eq_min cfg.lineRate (q.mlx.mTargetRate + increment)
  unfold chase increaseMlx
  dsimp only
  rw [DataRate.div_two, DataRate.div_two, htarget]

/-- Which of the three increases it is depends on the stage. -/
theorem rateIncEventMlx_chase (cfg : CcConfig) (q : CcQueuePair) : (rateIncEventMlx cfg q).chase =
    { Chase.next (chaseRule cfg) q.chase with stage := q.mlx.mRpTimeStage.toNat } := by
  unfold rateIncEventMlx
  by_cases hlow : q.mlx.mRpTimeStage < cfg.mRpgThreshold
  · have hlow' : q.chase.stage < (chaseRule cfg).threshold := UInt32.lt_iff_toNat_lt.mp hlow
    have hpushed : Chase.pushed (chaseRule cfg) q.chase = q.mlx.mTargetRate := if_pos hlow'
    rw [if_pos hlow]
    unfold Chase.next fastRecoveryMlx
    rw [hpushed]
    unfold chase
    dsimp only
    rw [DataRate.div_two, DataRate.div_two]
  · have hlow' : ¬ q.chase.stage < (chaseRule cfg).threshold := fun h => hlow (UInt32.lt_iff_toNat_lt.mpr h)
    have hpushed : Chase.pushed (chaseRule cfg) q.chase = min cfg.lineRate (q.mlx.mTargetRate +
        if q.mlx.mRpTimeStage.toNat = cfg.mRpgThreshold.toNat then cfg.mRai else cfg.mRhai) := if_neg hlow'
    rw [if_neg hlow]
    unfold Chase.next
    rw [hpushed]
    by_cases hfirst : q.mlx.mRpTimeStage = cfg.mRpgThreshold
    · rw [if_pos hfirst, if_pos (congrArg UInt32.toNat hfirst)]
      exact increaseMlx_chase cfg.mRai
    · rw [if_neg hfirst, if_neg fun h => hfirst (UInt32.toNat_inj.mp h)]
      exact increaseMlx_chase cfg.mRhai

/-- A rate increase is one turn. -/
theorem rateIncEventTimerMlx_chase : (rateIncEventTimerMlx cfg i q t).1.chase = Chase.next (chaseRule cfg) q.chase := by
  have hturn := rateIncEventMlx_chase cfg (scheduleRateIncEventTimerMlx i q t).1
  have hvalue := congrArg Chase.value hturn
  have htarget := congrArg Chase.target hturn
  have hstage : (rateIncEventMlx cfg (scheduleRateIncEventTimerMlx i q t).1).mlx.mRpTimeStage = q.mlx.mRpTimeStage :=
    UInt32.toNat_inj.mp (congrArg Chase.stage hturn)
  unfold rateIncEventTimerMlx chase
  dsimp only
  rw [hstage, UInt32.toNat_add]
  exact congrArg₂ (fun value target => Chase.mk value target _) hvalue htarget

theorem rateIncEventMlx_quiet (cfg : CcConfig) (q : CcQueuePair) :
    (rateIncEventMlx cfg q).mlx.mDecreaseCnpArrived = q.mlx.mDecreaseCnpArrived ∧
    (rateIncEventMlx cfg q).mlx.mAlphaCnpArrived = q.mlx.mAlphaCnpArrived ∧
    (rateIncEventMlx cfg q).mlx.mAlpha = q.mlx.mAlpha := by
  unfold rateIncEventMlx
  split
  · exact ⟨rfl, rfl, rfl⟩
  · split
    · exact ⟨rfl, rfl, rfl⟩
    · exact ⟨rfl, rfl, rfl⟩

/-! ### While no CNP comes -/

/-- From `q` to `q'` there was nothing but so many rate increases and so many updates of alpha. -/
structure Calm (cfg : CcConfig) (q q' : CcQueuePair) (increases updates : Nat) : Prop where
  quiet : q.mlx.mDecreaseCnpArrived = false → q'.mlx.mDecreaseCnpArrived = false
  chase : q'.chase = (Chase.next (chaseRule cfg))^[increases] q.chase
  alphaQuiet : q.mlx.mAlphaCnpArrived = false → q'.mlx.mAlphaCnpArrived = false
  alpha : q.mlx.mAlphaCnpArrived = false → q'.mlx.mAlpha = (1 - cfg.mG) ^ updates * q.mlx.mAlpha

theorem Calm.of_eq {q' : CcQueuePair} (hrate : q'.mRate = q.mRate) (hmlx : q'.mlx = q.mlx) : Calm cfg q q' 0 0 where
  quiet := by
    rw [hmlx]
    exact id
  chase := by
    unfold CcQueuePair.chase
    rw [hrate, hmlx]
    rfl
  alphaQuiet := by
    rw [hmlx]
    exact id
  alpha := by
    rw [hmlx, pow_zero, one_mul]
    exact fun _ => rfl

theorem Calm.trans {q' q'' : CcQueuePair} {increases updates increases' updates' : Nat}
    (h : Calm cfg q q' increases updates) (h' : Calm cfg q' q'' increases' updates') :
    Calm cfg q q'' (increases + increases') (updates + updates') where
  quiet := fun hquiet => h'.quiet (h.quiet hquiet)
  chase := by rw [h'.chase, h.chase, Nat.add_comm, Function.iterate_add_apply]
  alphaQuiet := fun hquiet => h'.alphaQuiet (h.alphaQuiet hquiet)
  alpha := fun hquiet => by rw [h'.alpha (h.alphaQuiet hquiet), h.alpha hquiet, Nat.add_comm, pow_add, mul_assoc]

theorem updateAlphaMlx_calm : Calm cfg q (updateAlphaMlx cfg i q t).1 0 1 where
  quiet := id
  chase := rfl
  alphaQuiet := fun _ => rfl
  alpha := fun hquiet => by
    unfold updateAlphaMlx scheduleUpdateAlphaMlx
    dsimp only
    rw [hquiet, if_neg Bool.false_ne_true, pow_one]

theorem checkRateDecreaseMlx_calm (hquiet : q.mlx.mDecreaseCnpArrived = false) :
    Calm cfg q (checkRateDecreaseMlx cfg i q t).1 0 0 := by
  rw [checkRateDecreaseMlx_quiet hquiet]
  refine ⟨id, rfl, id, fun _ => ?_⟩
  rw [pow_zero, one_mul]
  rfl

theorem rateIncEventTimerMlx_calm : Calm cfg q (rateIncEventTimerMlx cfg i q t).1 1 0 := by
  obtain ⟨hdecrease, halphaQuiet, halpha⟩ :=
    rateIncEventMlx_quiet cfg (scheduleRateIncEventTimerMlx i q t).1
  refine ⟨hdecrease.trans, rateIncEventTimerMlx_chase, halphaQuiet.trans, fun _ => ?_⟩
  rw [pow_zero, one_mul]
  exact halpha

theorem runTimer_calm (hquiet : q.mlx.mDecreaseCnpArrived = false) (kind : TimerKind) :
    Calm cfg q (runTimer cfg i q t kind).1 (if kind = .rateIncEventTimerMlx then 1 else 0)
      (if kind = .updateAlphaMlx then 1 else 0) := by
  cases kind with
  | updateAlphaMlx => exact updateAlphaMlx_calm
  | checkRateDecreaseMlx => exact checkRateDecreaseMlx_calm hquiet
  | rateIncEventTimerMlx => exact rateIncEventTimerMlx_calm

end CcQueuePair

namespace CcHost

open CcQueuePair

/-- An acknowledgement with the CNP flag reaches queue pair `i`. -/
def CnpFor (i : Nat) (x : Transition CcHost HostEvent) : Prop :=
  match x.label with
  | .ack p _ _ _ => p.cnp = true ∧ x.pre.qpMap (getQpKey p.sip p.dport p.pg) = some i
  | _ => False

/-- A timer of this kind fires for queue pair `i`. -/
def fires (i : Nat) (kind : TimerKind) (x : Transition CcHost HostEvent) : Bool :=
  match x.label with
  | .fire uid => (x.pre.timers.fire uid).map Prod.fst = some (kind, i)
  | _ => false

variable {cfg : CcConfig} {h h' : CcHost} {i j : Nat} {q : CcQueuePair}

theorem set_calm {r q₀ : CcQueuePair} {increases updates : Nat} (hq : h.qps[i]? = some q) (hj : h.qps[j]? = some q₀)
    (hsame : j = i → Calm cfg q₀ r increases updates) (hother : j ≠ i → increases = 0 ∧ updates = 0) :
    ∃ q', (h.qps.set j r)[i]? = some q' ∧ Calm cfg q q' increases updates := by
  by_cases hji : j = i
  · subst hji
    obtain rfl := Option.some.inj (hq.symm.trans hj)
    refine ⟨r, ?_, hsame rfl⟩
    rw [List.getElem?_set_self', hq]
    rfl
  · obtain ⟨rfl, rfl⟩ := hother hji
    refine ⟨q, ?_, .of_eq rfl rfl⟩
    rw [List.getElem?_set_ne hji]
    exact hq

theorem afterFlags_calm {p : AckPacket} {finished : Bool} {t : Timers} (hcnp : p.cnp ≠ true) :
    Calm cfg q (afterFlags cfg p j finished q t).1 0 0 := by
  unfold afterFlags cnpIf
  rw [if_neg fun h => hcnp h.1]
  unfold completeIf
  split
  · exact .of_eq rfl rfl
  · exact .of_eq rfl rfl

theorem countP_fires {uid : Nat} {kind kind' : TimerKind} {timers : Timers}
    (hfire : h.timers.fire uid = some ((kind, j), timers)) :
    [⟨h, .fire uid, h'⟩].countP (fires i kind') = if kind = kind' ∧ j = i then 1 else 0 := by
  have hfires : fires i kind' ⟨h, .fire uid, h'⟩ = decide (kind = kind' ∧ j = i) := by
    unfold fires
    dsimp only
    rw [hfire]
    simp
  rw [List.countP_singleton, hfires]
  simp

/-- What a step does to a queue pair that it brings no CNP. -/
theorem step_calm (hmode : cfg.mCcMode = 1) (hmin : 0 < cfg.mMinRate) (hok : RatesOk cfg h) {e : HostEvent}
    (hstep : Step cfg h e h') (hq : h.qps[i]? = some q) (hquiet : q.mlx.mDecreaseCnpArrived = false)
    (hcalm : ¬ CnpFor i ⟨h, e, h'⟩) :
    ∃ q', h'.qps[i]? = some q' ∧ Calm cfg q q' ([⟨h, e, h'⟩].countP (fires i .rateIncEventTimerMlx))
      ([⟨h, e, h'⟩].countP (fires i .updateAlphaMlx)) := by
  cases hstep with
  | added dip sport size pg win baseRtt hop =>
      refine ⟨q, ?_, .of_eq rfl rfl⟩
      obtain ⟨hlt, -⟩ := List.getElem?_eq_some_iff.mp hq
      show (h.qps ++ [_])[i]? = some q
      rw [List.getElem?_append_left hlt]
      exact hq
  | sent hj => exact set_calm hq hj (fun _ => .of_eq rfl rfl) fun _ => ⟨rfl, rfl⟩
  | unknown hkey => exact ⟨q, hq, .of_eq rfl rfl⟩
  | @acked p now rand uninit j q₀ q' qp finished hkey hj hack hhandle =>
      obtain rfl := handleAck_mlx hmode hhandle
      refine set_calm hq hj (fun hji => ?_) fun _ => ⟨rfl, rfl⟩
      have hcnp : p.cnp ≠ true := fun hcnp => hcalm ⟨hcnp, hji ▸ hkey⟩
      have htransport : Calm cfg q₀ { q₀ with qp := qp } 0 0 := .of_eq rfl rfl
      exact htransport.trans (afterFlags_calm hcnp)
  | idle sip fid qIndex => exact ⟨q, hq, .of_eq rfl rfl⟩
  | @initialised sip fid qIndex j q₀ hj hzero =>
      have hrate := (hok.rates q₀ (List.mem_of_getElem? hj)).rate.1
      rw [hzero] at hrate
      exact absurd hmin (Nat.not_lt.mpr hrate)
  | @fired uid kind j timers q₀ hfire hj =>
      rw [countP_fires hfire, countP_fires hfire]
      apply set_calm hq hj
      · intro hji
        subst hji
        obtain rfl := Option.some.inj (hq.symm.trans hj)
        simp only [and_true]
        exact runTimer_calm hquiet kind
      · intro hji
        rw [if_neg fun h => hji h.2, if_neg fun h => hji h.2]
        exact ⟨rfl, rfl⟩

theorem run_calm (hcfg : cfg.Admissible) (hmode : cfg.mCcMode = 1) (hmin : 0 < cfg.mMinRate) (hok : RatesOk cfg h)
    {trace : List (Transition CcHost HostEvent)} (hrun : (hostSystem cfg).Run h trace h') (hq : h.qps[i]? = some q)
    (hquiet : q.mlx.mDecreaseCnpArrived = false) (hcalm : ∀ x ∈ trace, ¬ CnpFor i x) :
    ∃ q', h'.qps[i]? = some q' ∧
      Calm cfg q q' (trace.countP (fires i .rateIncEventTimerMlx)) (trace.countP (fires i .updateAlphaMlx)) := by
  have hinv := hrun.history (P := fun before s => (∀ x ∈ before, ¬ CnpFor i x) → RatesOk cfg s ∧ ∃ q', s.qps[i]? = some q' ∧
    Calm cfg q q' (before.countP (fires i .rateIncEventTimerMlx)) (before.countP (fires i .updateAlphaMlx)))
    (fun _ => ⟨hok, q, hq, .of_eq rfl rfl⟩) (by
      intro before s e s' ih hnext hcalm
      obtain ⟨hs, q₁, hq₁, hbefore⟩ := ih fun x hx => hcalm x (List.mem_append_left _ hx)
      have hstep := hostNext_step hnext
      obtain ⟨q₂, hq₂, hlast⟩ := step_calm hmode hmin hs hstep hq₁ (hbefore.quiet hquiet)
        (hcalm _ (List.mem_append_right _ (List.mem_singleton_self _)))
      refine ⟨ratesOk_step hcfg hs hstep, q₂, hq₂, ?_⟩
      rw [List.countP_append, List.countP_append]
      exact hbefore.trans hlast)
  exact (hinv hcalm).2

/-- Recovery from congestion. From any reachable state of a host that runs DCQCN, whatever happens at the host but a CNP
for queue pair `i`, its rates depend on nothing but how often the timer of the rate increase has fired for it: the target
is not lowered, the rate falls by one at most, alpha shrinks by the same factor at every update, and once the target has
been pushed to the line rate, the rate gets there up to two bit/s in as many firings as the line rate has bits. -/
theorem dcqcn_recovers (hcfg : cfg.Admissible) (hmode : cfg.mCcMode = 1) (hmin : 0 < cfg.mMinRate)
    (hreach : (hostSystem cfg).Reachable h) {trace : List (Transition CcHost HostEvent)}
    (hrun : (hostSystem cfg).Run h trace h') (hq : h.qps[i]? = some q) (hquiet : q.mlx.mDecreaseCnpArrived = false)
    (hcalm : ∀ x ∈ trace, ¬ CnpFor i x) :
    ∃ q', h'.qps[i]? = some q' ∧
      q'.chase = (Chase.next (chaseRule cfg))^[trace.countP (fires i .rateIncEventTimerMlx)] q.chase ∧
      q.mRate ≤ q'.mRate + 1 ∧ q.mlx.mTargetRate ≤ q'.mlx.mTargetRate ∧
      (q.mlx.mAlphaCnpArrived = false →
        q'.mlx.mAlpha = (1 - cfg.mG) ^ trace.countP (fires i .updateAlphaMlx) * q.mlx.mAlpha) ∧
      ∀ inc n m : Nat, inc ≤ cfg.mRai → inc ≤ cfg.mRhai → cfg.lineRate ≤ inc * n →
        cfg.mRpgThreshold.toNat + n ≤ 2 ^ 32 → cfg.lineRate ≤ 2 ^ m →
        cfg.mRpgThreshold.toNat + n + m ≤ trace.countP (fires i .rateIncEventTimerMlx) →
        q'.mlx.mTargetRate = cfg.lineRate ∧ q'.mRate ≤ cfg.lineRate ∧ cfg.lineRate ≤ q'.mRate + 2 := by
  have hok : RatesOk cfg h := hreach.invariant ⟨by simp [hostSystem, empty], fun _ => rfl⟩
    fun s e t hs hnext => ratesOk_step hcfg hs (hostNext_step hnext)
  have hrate := (hok.rates q (List.mem_of_getElem? hq)).dcqcn hmode
  have hbelow : Chase.Below (chaseRule cfg) q.chase := ⟨hrate.1, hrate.2⟩
  obtain ⟨q', hq', hcalm'⟩ := run_calm hcfg hmode hmin hok hrun hq hquiet hcalm
  have hchase := hcalm'.chase
  refine ⟨q', hq', hchase, ?_, ?_, hcalm'.alpha, ?_⟩
  · have hholds := hbelow.holds (trace.countP (fires i .rateIncEventTimerMlx))
    rw [← hchase] at hholds
    rcases hholds with hkept | ⟨hlost, -⟩
    · exact Nat.le_succ_of_le hkept
    · exact hlost
  · have htarget := hbelow.target_iterate (trace.countP (fires i .rateIncEventTimerMlx))
    rw [← hchase] at htarget
    exact htarget
  · intro inc n m hrai hrhai hpush hroom hbits hfired
    have hstage : q.chase.stage < (chaseRule cfg).size := q.mlx.mRpTimeStage.toNat_lt
    have hrecovers := Chase.recovers hbelow hstage hrai hrhai hpush hroom hbits hfired
    rw [← hchase] at hrecovers
    exact hrecovers

theorem not_cnpFor_of_fires {kind : TimerKind} {x : Transition CcHost HostEvent} (h : fires i kind x = true) :
    ¬ CnpFor i x := by
  obtain ⟨pre, label, post⟩ := x
  cases label with
  | fire uid => exact not_false
  | addQueuePair dip sport size pg win baseRtt hop => exact not_false
  | send j => exact not_false
  | ack p now rand uninit => exact absurd h Bool.false_ne_true
  | cnp sip fid qIndex => exact not_false

/-- A line of 16 bit/s, where two pushes do. -/
def slowDcqcn : CcConfig :=
  { dcqcn with lineRate := 16, mMinRate := 2, mRai := 8, mRhai := 8, mRpgThreshold := 1 }

/-- A marked segment halves the rate, and seven firings bring it back. -/
theorem dcqcn_recovers_seven : ∃ h q h' q',
    (hostSystem slowDcqcn).exec empty marked = some h ∧ h.qps[0]? = some q ∧ q.mRate = 8 ∧
      (hostSystem slowDcqcn).exec h [.fire 3, .fire 4, .fire 5, .fire 6, .fire 7, .fire 8, .fire 9] = some h' ∧
      h'.qps[0]? = some q' ∧ q'.mRate ≤ 16 ∧ 16 ≤ q'.mRate + 2 := by
  have hcfg : slowDcqcn.Admissible := by
    refine ⟨rfl, by decide, ?_, rfl, ?_, ?_⟩
    · exact admissible_dcqcn.gain
    · exact admissible_dcqcn.beta
    · exact fun hmode => absurd hmode (by decide)
  have hstart : ∃ h q, (hostSystem slowDcqcn).exec empty marked = some h ∧
      h.qps[0]? = some q ∧ q.mRate = 8 ∧ q.mlx.mDecreaseCnpArrived = false ∧
      (hostSystem slowDcqcn).checked (fires 0 .rateIncEventTimerMlx) h
        [.fire 3, .fire 4, .fire 5, .fire 6, .fire 7, .fire 8, .fire 9] = true :=
    ⟨_, _, rfl, rfl, by decide +kernel, by decide +kernel, by decide +kernel⟩
  obtain ⟨h, q, hexec, hq, hrate, hquiet, hchecked⟩ := hstart
  obtain ⟨trace, h', hrun, hlabels, hexec', hfires⟩ := System.Run.of_checked _ hchecked
  have hreach := System.reachable_of_exec (M := hostSystem slowDcqcn) marked hexec
  have hcount : trace.countP (fires 0 .rateIncEventTimerMlx) = 7 := by
    rw [List.countP_eq_length.mpr hfires, ← List.length_map Transition.label, hlabels]
    rfl
  obtain ⟨q', hq', -, -, -, -, hback⟩ := dcqcn_recovers hcfg rfl (by decide) hreach hrun hq hquiet
    fun x hx => not_cnpFor_of_fires (hfires x hx)
  obtain ⟨-, hline, hnear⟩ := hback 8 2 4 (by decide) (by decide) (by decide) (by decide) (by decide)
    (Nat.le_of_eq hcount.symm)
  exact ⟨h, q, h', q', hexec, hq, hrate, hexec', hq', hline, hnear⟩

end CcHost

end Lcmp
