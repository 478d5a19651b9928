import Lcmp.Congestion.Host
import Mathlib.Tactic.Linarith
import Mathlib.Tactic.NormNum

/-!
# Rates stay in range

In every mode the rate of a queue pair stays between the minimum and the line rate. HPCC, TIMELY and
PINT clamp what they compute. DCQCN does not: that its rate never passes its target carries the upper
bound, and that the minimum is even carries the lower one through the two truncating halves.
-/

namespace Lcmp

/-- What is assumed of the attributes. In TIMELY a rate times NaN is not a rate; HPCC and PINT clamp whatever they
compute. -/
structure CcConfig.Admissible (cfg : CcConfig) : Prop where
  even : cfg.mMinRate % 2 = 0
  minRate : cfg.mMinRate ≤ cfg.lineRate
  gain : 0 ≤ cfg.mG ∧ cfg.mG ≤ 1
  firstCnp : cfg.mRateOnFirstCnp = 1
  beta : 0 ≤ cfg.mTmlyBeta ∧ cfg.mTmlyBeta ≤ 1
  numbers : cfg.mCcMode = 7 → ∀ x, cfg.undefinedRate x = none

/-- A rate between the minimum and the line rate. -/
def InRange (cfg : CcConfig) (rate : DataRate) : Prop := cfg.mMinRate ≤ rate ∧ rate ≤ cfg.lineRate

/-- A weighted mean of numbers between zero and one is between zero and one. -/
theorem mean_mem_unit {g a b : Rat} (hg : 0 ≤ g ∧ g ≤ 1) (ha : 0 ≤ a ∧ a ≤ 1) (hb : 0 ≤ b ∧ b ≤ 1) :
    0 ≤ (1 - g) * a + g * b ∧ (1 - g) * a + g * b ≤ 1 := by
  have hrest : 0 ≤ 1 - g := sub_nonneg.mpr hg.2
  constructor
  · exact add_nonneg (mul_nonneg hrest ha.1) (mul_nonneg hg.1 hb.1)
  · calc (1 - g) * a + g * b ≤ (1 - g) * 1 + g * 1 :=
          add_le_add (mul_le_mul_of_nonneg_left ha.2 hrest) (mul_le_mul_of_nonneg_left hb.2 hg.1)
      _ = 1 := by ring

/-- What the steps of a loop that may fail keep, knowing what they have gone through, holds at its end. -/
theorem foldlM_history {α β : Type} {P : List α → β → Prop} {f : β → α → Option β} (as : List α) {s t : β}
    (hrun : as.foldlM f s = some t) (h0 : P [] s)
    (hstep : ∀ done s a t, P done s → f s a = some t → P (done ++ [a]) t) : P as t := by
  suffices h : ∀ done, P done s → P (done ++ as) t by simpa using h [] h0
  clear h0
  induction as generalizing s with
  | nil =>
      intro done hdone
      obtain rfl := Option.some.inj hrun
      rwa [List.append_nil]
  | cons a as ih =>
      intro done hdone
      rw [List.foldlM_cons] at hrun
      obtain ⟨mid, hmid, hrest⟩ := Option.bind_eq_some_iff.mp hrun
      have hall := ih hrest (done ++ [a]) (hstep done s a mid hdone hmid)
      rwa [List.append_assoc] at hall

namespace CcQueuePair

/-- The rates of a queue pair, and what the mode in use adds to them. The rate of each hop is part of it
where HPCC keeps one. -/
structure RateOk (cfg : CcConfig) (q : CcQueuePair) : Prop where
  maxRate : q.mMaxRate = cfg.lineRate
  rate : InRange cfg q.mRate
  dcqcn : cfg.mCcMode = 1 → q.mRate ≤ q.mlx.mTargetRate ∧ q.mlx.mTargetRate ≤ cfg.lineRate
  alpha : cfg.mCcMode = 1 → 0 ≤ q.mlx.mAlpha ∧ q.mlx.mAlpha ≤ 1
  hpcc : cfg.mCcMode = 3 → InRange cfg q.hp.mCurRate
  hops : cfg.mCcMode = 3 → cfg.mMultipleRate = true → ∀ i, InRange cfg (q.hp.hopState i).rc
  timely : cfg.mCcMode = 7 → InRange cfg q.tmly.mCurRate
  dctcp : cfg.mCcMode = 8 → 0 ≤ q.dctcp.mAlpha ∧ q.dctcp.mAlpha ≤ 1
  pint : cfg.mCcMode = 10 → InRange cfg q.hpccPint.mCurRate

variable {cfg : CcConfig} {q q' : CcQueuePair}

/-- A host uses one mode. -/
theorem other_mode {used mode : UInt32} {P : Prop} (hmode : cfg.mCcMode = used) (hne : used ≠ mode)
    (h : cfg.mCcMode = mode) : P :=
  absurd (hmode.symm.trans h) hne

theorem inRange_lineRate (hcfg : cfg.Admissible) : InRange cfg cfg.lineRate := ⟨hcfg.minRate, Nat.le_refl _⟩

/-- A rate that is cut off at the line rate. -/
theorem capped_inRange (hcfg : cfg.Admissible) {rate : DataRate} (hmin : cfg.mMinRate ≤ rate) :
    InRange cfg (if rate > cfg.lineRate then cfg.lineRate else rate) := by
  split
  · exact inRange_lineRate hcfg
  · rename_i hfits
    exact ⟨hmin, Nat.le_of_not_gt hfits⟩

/-- The cut of DCQCN and DCTCP, by a share of half of alpha but not below the minimum. -/
theorem cut_le {rate : DataRate} {alpha : Rat} (hmin : cfg.mMinRate ≤ rate) (halpha : 0 ≤ alpha) :
    max cfg.mMinRate (rate.mul (1 - alpha / 2)) ≤ rate := by
  apply max_le hmin
  apply DataRate.mul_le
  linarith

theorem new_rateOk (hcfg : cfg.Admissible) (dip : UInt32) (sport : UInt16) (size : UInt64) (pg : Queue) (win : UInt32)
    (baseRtt : UInt64) (hop : Nat → IntHop) : RateOk cfg (new cfg dip sport size pg win baseRtt hop) := by
  have hline := inRange_lineRate hcfg
  refine ⟨rfl, hline, fun hmode => ?_, fun _ => ⟨zero_le_one, le_refl _⟩, fun hmode => ?_,
    fun hmode hmultiple i => ?_, fun hmode => ?_, fun _ => ⟨zero_le_one, le_refl _⟩, fun hmode => ?_⟩
  · simp [new, hmode]
  · simpa [new, hmode] using hline
  · simpa [new, hmode, hmultiple] using hline
  · simpa [new, hmode] using hline
  · simpa [new, hmode] using hline

/-- Only the transport of the queue pair changes. -/
theorem RateOk.transport (hok : RateOk cfg q) (qp : RdmaQueuePair) : RateOk cfg { q with qp := qp } :=
  ⟨hok.maxRate, hok.rate, hok.dcqcn, hok.alpha, hok.hpcc, hok.hops, hok.timely, hok.dctcp, hok.pint⟩

/-! ### DCQCN -/

/-- The mean of rate and target, in halves. -/
theorem halves_inRange (hcfg : cfg.Admissible) {rate target : DataRate} (hmin : cfg.mMinRate ≤ rate)
    (htarget : rate ≤ target) :
    cfg.mMinRate ≤ rate.div 2 + target.div 2 ∧ rate.div 2 + target.div 2 ≤ target := by
  have harith : ∀ m r t : Nat, m % 2 = 0 → m ≤ r → r ≤ t → m ≤ r / 2 + t / 2 ∧ r / 2 + t / 2 ≤ t := by omega
  rw [DataRate.div_two, DataRate.div_two]
  exact harith _ _ _ hcfg.even hmin htarget

section Dcqcn

variable (hmode : cfg.mCcMode = 1)
include hmode

/-- In DCQCN only the rate, the target and alpha are used. -/
theorem rateOk_dcqcn (hmax : q.mMaxRate = cfg.lineRate) (hmin : cfg.mMinRate ≤ q.mRate)
    (htarget : q.mRate ≤ q.mlx.mTargetRate) (hline : q.mlx.mTargetRate ≤ cfg.lineRate)
    (halpha : 0 ≤ q.mlx.mAlpha ∧ q.mlx.mAlpha ≤ 1) : RateOk cfg q where
  maxRate := hmax
  rate := ⟨hmin, htarget.trans hline⟩
  dcqcn := fun _ => ⟨htarget, hline⟩
  alpha := fun _ => halpha
  hpcc := other_mode hmode (by decide)
  hops := other_mode hmode (by decide)
  timely := other_mode hmode (by decide)
  dctcp := other_mode hmode (by decide)
  pint := other_mode hmode (by decide)

theorem updateAlphaMlx_rateOk (hcfg : cfg.Admissible) (hok : RateOk cfg q) (i : Nat) (t : Timers) :
    RateOk cfg (updateAlphaMlx cfg i q t).1 := by
  obtain ⟨htarget, hline⟩ := hok.dcqcn hmode
  refine rateOk_dcqcn hmode ?_ ?_ ?_ ?_ ?_
  · exact hok.maxRate
  · exact hok.rate.1
  · exact htarget
  · exact hline
  show 0 ≤ (if q.mlx.mAlphaCnpArrived = true then _ else _) ∧ (if q.mlx.mAlphaCnpArrived = true then _ else _) ≤ (1 : Rat)
  split
  · have hmean := mean_mem_unit hcfg.gain (hok.alpha hmode) (b := 1) ⟨zero_le_one, le_refl _⟩
    rwa [mul_one] at hmean
  · have hmean := mean_mem_unit hcfg.gain (hok.alpha hmode) (b := 0) ⟨le_refl _, zero_le_one⟩
    rwa [mul_zero, add_zero] at hmean

theorem cnpReceivedMlx_rateOk (hcfg : cfg.Admissible) (hok : RateOk cfg q) (i : Nat) (t : Timers) :
    RateOk cfg (cnpReceivedMlx cfg i q t).1 := by
  obtain ⟨htarget, hline⟩ := hok.dcqcn hmode
  unfold cnpReceivedMlx
  cases hfirst : q.mlx.mFirstCnp with
  | true =>
      have hsame : q.mRate.mul cfg.mRateOnFirstCnp = q.mRate := by rw [hcfg.firstCnp, DataRate.mul_eq_self]
      simp only [hfirst, if_true]
      refine rateOk_dcqcn hmode ?_ ?_ ?_ ?_ ?_
      · exact hok.maxRate
      · exact hok.rate.1.trans (le_of_eq hsame.symm)
      · exact le_refl _
      · exact (le_of_eq hsame).trans hok.rate.2
      · exact ⟨zero_le_one, le_refl _⟩
  | false =>
      simp only [hfirst, Bool.false_eq_true, if_false]
      refine rateOk_dcqcn hmode ?_ ?_ ?_ ?_ ?_
      · exact hok.maxRate
      · exact hok.rate.1
      · exact htarget
      · exact hline
      · exact hok.alpha hmode

/-- The rate goes down, and the target to where the rate was or nowhere. -/
theorem decreaseRateMlx_rateOk (hok : RateOk cfg q) : RateOk cfg (decreaseRateMlx cfg q) := by
  obtain ⟨htarget, hline⟩ := hok.dcqcn hmode
  obtain ⟨hnonneg, -⟩ := hok.alpha hmode
  have hdown := cut_le hok.rate.1 hnonneg
  refine rateOk_dcqcn hmode ?_ ?_ ?_ ?_ ?_
  · exact hok.maxRate
  · exact le_max_left _ _
  · show _ ≤ if (cfg.mEcnClampTgtRate || q.mlx.mRpTimeStage != 0) = true then q.mRate else q.mlx.mTargetRate
    split
    · exact hdown
    · exact hdown.trans htarget
  · show (if (cfg.mEcnClampTgtRate || q.mlx.mRpTimeStage != 0) = true then q.mRate else q.mlx.mTargetRate) ≤ _
    split
    · exact hok.rate.2
    · exact hline
  · exact hok.alpha hmode

theorem fastRecoveryMlx_rateOk (hcfg : cfg.Admissible) (hok : RateOk cfg q) : RateOk cfg (fastRecoveryMlx q) := by
  obtain ⟨htarget, hline⟩ := hok.dcqcn hmode
  obtain ⟨hlower, hupper⟩ := halves_inRange hcfg hok.rate.1 htarget
  refine rateOk_dcqcn hmode ?_ ?_ ?_ ?_ ?_
  · exact hok.maxRate
  · exact hlower
  · exact hupper
  · exact hline
  · exact hok.alpha hmode

/-- The target goes up, but not past the line rate. -/
theorem increaseMlx_rateOk (hcfg : cfg.Admissible) (hok : RateOk cfg q) (increment : DataRate) :
    RateOk cfg (increaseMlx cfg q increment) := by
  obtain ⟨htarget, hline⟩ := hok.dcqcn hmode
  have hraised : q.mRate ≤
      (if q.mlx.mTargetRate + increment > cfg.lineRate then cfg.lineRate else q.mlx.mTargetRate + increment) := by
    split
    · exact hok.rate.2
    · exact htarget.trans (Nat.le_add_right _ _)
  obtain ⟨hlower, hupper⟩ := halves_inRange hcfg hok.rate.1 hraised
  refine rateOk_dcqcn hmode ?_ ?_ ?_ ?_ ?_
  · exact hok.maxRate
  · exact hlower
  · exact hupper
  · show (if _ then cfg.lineRate else _) ≤ cfg.lineRate
    split
    · exact Nat.le_refl _
    · rename_i hfits
      exact Nat.le_of_not_gt hfits
  · exact hok.alpha hmode

theorem rateIncEventMlx_rateOk (hcfg : cfg.Admissible) (hok : RateOk cfg q) : RateOk cfg (rateIncEventMlx cfg q) := by
  simp only [rateIncEventMlx]
  split
  · exact fastRecoveryMlx_rateOk hmode hcfg hok
  · split
    · exact increaseMlx_rateOk hmode hcfg hok cfg.mRai
    · exact increaseMlx_rateOk hmode hcfg hok cfg.mRhai

/-- Timer ids and stages are not part of it. -/
theorem RateOk.mlx (hok : RateOk cfg q) {m : Mlx} (htarget : m.mTargetRate = q.mlx.mTargetRate)
    (halpha : m.mAlpha = q.mlx.mAlpha) : RateOk cfg { q with mlx := m } := by
  refine rateOk_dcqcn hmode ?_ ?_ ?_ ?_ ?_
  · exact hok.maxRate
  · exact hok.rate.1
  · exact (hok.dcqcn hmode).1.trans (le_of_eq htarget.symm)
  · exact (le_of_eq htarget).trans (hok.dcqcn hmode).2
  · show 0 ≤ m.mAlpha ∧ m.mAlpha ≤ 1
    rw [halpha]
    exact hok.alpha hmode

theorem runTimer_rateOk (hcfg : cfg.Admissible) (hok : RateOk cfg q) (i : Nat) (t : Timers) (kind : TimerKind) :
    RateOk cfg (runTimer cfg i q t kind).1 := by
  cases kind with
  | updateAlphaMlx => exact updateAlphaMlx_rateOk hmode hcfg hok i t
  | checkRateDecreaseMlx =>
      change RateOk cfg (checkRateDecreaseMlx cfg i q t).1
      have hscheduled : RateOk cfg (scheduleDecreaseRateMlx i q t).1 := hok.mlx hmode rfl rfl
      unfold checkRateDecreaseMlx
      dsimp only
      split
      · exact (decreaseRateMlx_rateOk hmode hscheduled).mlx hmode rfl rfl
      · exact hscheduled
  | rateIncEventTimerMlx =>
      have hscheduled : RateOk cfg (scheduleRateIncEventTimerMlx i q t).1 := hok.mlx hmode rfl rfl
      exact (rateIncEventMlx_rateOk hmode hcfg hscheduled).mlx hmode rfl rfl

end Dcqcn

/-! ### HPCC -/

theorem boundRate_inRange (hcfg : cfg.Admissible) (rate : DataRate) : InRange cfg (boundRate cfg cfg.lineRate rate) := by
  unfold boundRate
  apply capped_inRange hcfg
  split
  · exact Nat.le_refl _
  · rename_i hlower
    exact Nat.le_of_not_gt hlower

theorem hpccRate_inRange (hcfg : cfg.Admissible) {curRate rate : DataRate} {incStage stage : UInt32} {c : Extended}
    (h : hpccRate cfg cfg.lineRate curRate incStage c = some (rate, stage)) : InRange cfg rate := by
  simp only [hpccRate] at h
  split at h
  · obtain ⟨quotient, -, h⟩ := Option.bind_eq_some_iff.mp h
    rw [← (Prod.mk.inj (Option.some.inj h)).1]
    exact boundRate_inRange hcfg _
  · rw [← (Prod.mk.inj (Option.some.inj h)).1]
    exact boundRate_inRange hcfg _

/-- What the loop over the hops leaves alone. -/
def SameRates (q : CcQueuePair) (s : HopScan) : Prop :=
  s.hp.mCurRate = q.hp.mCurRate ∧ ∀ i, (s.hp.hopState i).rc = (q.hp.hopState i).rc

theorem scanHop_sameRates {ih : IntHeader} {fastReact : Bool} {s : HopScan} (hs : SameRates q s) (i : Nat) :
    SameRates q (scanHop cfg q ih fastReact s i) := by
  unfold scanHop
  split
  · exact hs
  · dsimp only
    split
    · refine ⟨hs.1, fun j => ?_⟩
      show (Function.update s.hp.hopState i _ j).rc = _
      rw [Function.update_apply]
      split
      · rename_i hj
        rw [hj]
        exact hs.2 i
      · exact hs.2 j
    · split
      · exact hs
      · exact hs

theorem scan_sameRates (ih : IntHeader) (fastReact : Bool) (hops : List Nat) {s : HopScan} (hs : SameRates q s) :
    SameRates q (hops.foldl (scanHop cfg q ih fastReact) s) := by
  induction hops generalizing s with
  | nil => exact hs
  | cons i hops hrest => exact hrest (scanHop_sameRates hs i)

/-- Every rate the loop has computed is in range, and so is their minimum. -/
theorem hopRates_inRange (hcfg : cfg.Admissible) {s : HopScan} (hmax : q.mMaxRate = cfg.lineRate)
    (hhops : ∀ i, InRange cfg (s.hp.hopState i).rc) {n : Nat} {r : HopRates}
    (h : (List.range n).foldlM (hopRateStep cfg q s)
      { newRate := q.mMaxRate, rate := fun _ => 0, incStage := fun _ => 0 } = some r) :
    InRange cfg r.newRate ∧ ∀ i < n, s.updated i = true → InRange cfg (r.rate i) := by
  have hall := foldlM_history (P := fun done r =>
      InRange cfg r.newRate ∧ ∀ i ∈ done, s.updated i = true → InRange cfg (r.rate i)) _ h
    ⟨by rw [hmax]; exact inRange_lineRate hcfg, by simp⟩ ?_
  · exact ⟨hall.1, fun i hi => hall.2 i (List.mem_range.mpr hi)⟩
  · rintro done r i r' ⟨hnew, hrates⟩ hstep
    unfold hopRateStep at hstep
    dsimp only at hstep
    split at hstep
    · obtain ⟨⟨rate, incStage⟩, hrate, hstep⟩ := Option.bind_eq_some_iff.mp hstep
      obtain rfl := Option.some.inj hstep
      rw [hmax] at hrate
      have hin := hpccRate_inRange hcfg hrate
      refine ⟨?_, fun j hj hupdated => ?_⟩
      · dsimp only
        split
        · exact hin
        · exact hnew
      · show InRange cfg (Function.update r.rate i rate j)
        rw [Function.update_apply]
        split
        · exact hin
        · rename_i hne
          rcases List.mem_append.mp hj with hj | hj
          · exact hrates j hj hupdated
          · exact absurd (List.mem_singleton.mp hj) hne
    · rename_i hskip
      obtain rfl := Option.some.inj hstep
      refine ⟨?_, fun j hj hupdated => ?_⟩
      · dsimp only
        split
        · exact hhops i
        · exact hnew
      · rcases List.mem_append.mp hj with hj | hj
        · exact hrates j hj hupdated
        · rw [List.mem_singleton.mp hj] at hupdated
          exact absurd hupdated hskip

section Hpcc

variable (hmode : cfg.mCcMode = 3)
include hmode

/-- In HPCC only the rate, the reference rate and the rates of the hops are used. -/
theorem rateOk_hpcc (hmax : q.mMaxRate = cfg.lineRate) (hrate : InRange cfg q.mRate) (hcur : InRange cfg q.hp.mCurRate)
    (hhops : cfg.mMultipleRate = true → ∀ i, InRange cfg (q.hp.hopState i).rc) : RateOk cfg q where
  maxRate := hmax
  rate := hrate
  dcqcn := other_mode hmode (by decide)
  alpha := other_mode hmode (by decide)
  hpcc := fun _ => hcur
  hops := fun _ => hhops
  timely := other_mode hmode (by decide)
  dctcp := other_mode hmode (by decide)
  pint := other_mode hmode (by decide)

theorem RateOk.scanned (hok : RateOk cfg q) {s : HopScan} (hs : SameRates q s) :
    InRange cfg s.hp.mCurRate ∧ (cfg.mMultipleRate = true → ∀ i, InRange cfg (s.hp.hopState i).rc) := by
  refine ⟨?_, fun hmultiple i => ?_⟩
  · rw [hs.1]
    exact hok.hpcc hmode
  · rw [hs.2 i]
    exact hok.hops hmode hmultiple i

theorem applyAggregate_rateOk (hcfg : cfg.Admissible) (hok : RateOk cfg q) {s : HopScan} (hs : SameRates q s)
    {fastReact : Bool} (h : applyAggregate cfg q fastReact s = some q') : RateOk cfg q' := by
  obtain ⟨hcur, hhops⟩ := hok.scanned hmode hs
  obtain ⟨⟨newRate, incStage⟩, hrate, h⟩ := Option.bind_eq_some_iff.mp h
  rw [hok.maxRate] at hrate
  have hnew := hpccRate_inRange hcfg hrate
  dsimp only at h
  split at h
  · obtain rfl := Option.some.inj h
    exact rateOk_hpcc hmode hok.maxRate hnew hcur hhops
  · obtain rfl := Option.some.inj h
    exact rateOk_hpcc hmode hok.maxRate hnew hnew hhops

theorem applyPerHop_rateOk (hcfg : cfg.Admissible) (hok : RateOk cfg q) (hmultiple : cfg.mMultipleRate = true)
    {s : HopScan} (hs : SameRates q s) {nhop : Nat} {fastReact : Bool} {uninit : UInt32}
    (h : applyPerHop cfg q nhop fastReact uninit s = some q') : RateOk cfg q' := by
  obtain ⟨hcur, hhops⟩ := hok.scanned hmode hs
  obtain ⟨r, hr, h⟩ := Option.bind_eq_some_iff.mp h
  obtain ⟨hnew, hrates⟩ := hopRates_inRange hcfg hok.maxRate (hhops hmultiple) hr
  have hok₁ : RateOk cfg (if s.updatedAny then { q with hp := s.hp }.changeRate r.newRate else { q with hp := s.hp }) := by
    split
    · exact rateOk_hpcc hmode hok.maxRate hnew hcur hhops
    · exact rateOk_hpcc hmode hok.maxRate hok.rate hcur hhops
  dsimp only at h
  split at h
  · obtain rfl := Option.some.inj h
    exact hok₁
  · obtain rfl := Option.some.inj h
    refine rateOk_hpcc hmode hok₁.maxRate hok₁.rate ?_ fun _ i => ?_
    · dsimp only
      split
      · exact hnew
      · exact hcur
    · dsimp only
      split
      · rename_i hi
        exact hrates i hi.1 hi.2
      · split
        · exact hhops hmultiple i
        · exact hhops hmultiple i

theorem RateOk.scan (hok : RateOk cfg q) {s : HopScan} (hs : SameRates q s) : RateOk cfg { q with hp := s.hp } := by
  obtain ⟨hcur, hhops⟩ := hok.scanned hmode hs
  exact rateOk_hpcc hmode hok.maxRate hok.rate hcur hhops

theorem applyInt_rateOk (hcfg : cfg.Admissible) (hok : RateOk cfg q) {ih : IntHeader} {fastReact : Bool} {uninit : UInt32}
    (h : applyInt cfg q ih fastReact uninit = some q') : RateOk cfg q' := by
  have hstart : SameRates q { hp := q.hp, maxU := .fin 0, dt := 0, updated := fun _ => false, updatedAny := false } :=
    ⟨rfl, fun _ => rfl⟩
  have hs : SameRates q ((List.range ih.nhop.toNat).foldl (scanHop cfg q ih fastReact) _) :=
    scan_sameRates ih fastReact _ hstart
  unfold applyInt at h
  dsimp only at h
  split at h
  · rename_i hmultiple
    exact applyPerHop_rateOk hmode hcfg hok hmultiple hs h
  · split at h
    · exact applyAggregate_rateOk hmode hcfg hok hs h
    · obtain rfl := Option.some.inj h
      exact hok.scan hmode hs

/-- The end of an RTT moves the sequence number that the next one starts at. -/
theorem rttEnd_rateOk (hok : RateOk cfg q) {seq : UInt32} {c : Prop} [Decidable c]
    (h : (if c then some { q with hp := { q.hp with mLastUpdateSeq := seq } } else some q) = some q') : RateOk cfg q' := by
  split at h
  · obtain rfl := Option.some.inj h
    exact rateOk_hpcc hmode hok.maxRate hok.rate (hok.hpcc hmode) (hok.hops hmode)
  · obtain rfl := Option.some.inj h
    exact hok

theorem updateRateHp_rateOk (hcfg : cfg.Admissible) (hok : RateOk cfg q) {ih : IntHeader} {fastReact : Bool}
    {uninit : UInt32} (h : updateRateHp cfg q ih fastReact uninit = some q') : RateOk cfg q' := by
  unfold updateRateHp at h
  dsimp only at h
  split at h
  · split at h
    · cases h
    · obtain rfl := Option.some.inj h
      exact rateOk_hpcc hmode hok.maxRate hok.rate (hok.hpcc hmode) (hok.hops hmode)
  · split at h
    · obtain ⟨q₁, hq₁, h⟩ := Option.bind_eq_some_iff.mp h
      exact rttEnd_rateOk hmode (applyInt_rateOk hmode hcfg hok hq₁) h
    · exact rttEnd_rateOk hmode hok h

theorem handleAckHp_rateOk (hcfg : cfg.Admissible) (hok : RateOk cfg q) {ackSeq : UInt32} {ih : IntHeader}
    {uninit : UInt32} (h : handleAckHp cfg q ackSeq ih uninit = some q') : RateOk cfg q' := by
  simp only [handleAckHp] at h
  split at h
  · exact updateRateHp_rateOk hmode hcfg hok h
  · split at h
    · exact updateRateHp_rateOk hmode hcfg hok h
    · obtain rfl := Option.some.inj h
      exact hok

end Hpcc

/-! ### TIMELY -/

/-- A decrease by a number has a factor of at most one. -/
theorem timelyFactor_le_one (hcfg : cfg.Admissible) {rtt : UInt64} {rttDiff c : Rat}
    (h : timelyFactor cfg rtt rttDiff = some (.fin c)) : c ≤ 1 := by
  obtain ⟨hbeta, -⟩ := hcfg.beta
  unfold timelyFactor at h
  dsimp only at h
  split at h
  · cases h
  · split at h
    · rename_i hhigh
      obtain rfl := Extended.fin.inj (Option.some.inj h)
      have hle : (cfg.mTmlyTHigh.toNat : Rat) / rtt.toNat ≤ 1 := by
        rw [gt_iff_lt, UInt64.lt_iff_toNat_lt] at hhigh
        apply div_le_one_of_le₀
        · exact_mod_cast hhigh.le
        · exact Nat.cast_nonneg _
      have hprod := mul_nonneg hbeta (sub_nonneg.mpr hle)
      linarith
    · split at h
      · cases h
      · rename_i hgradient
        have hc := Option.some.inj h
        split at hc
        · obtain rfl := Extended.fin.inj hc
          exact zero_le_one
        · exact Extended.le_of_sub_mul_eq hbeta hgradient hc

theorem timelyRate_inRange (hcfg : cfg.Admissible) (hmode : cfg.mCcMode = 7) (hmax : q.mMaxRate = cfg.lineRate)
    (hcur : InRange cfg q.tmly.mCurRate) {factor : Option Extended} (hfactor : ∀ c, factor = some (.fin c) → c ≤ 1)
    {rate : DataRate} {stage : UInt32} (h : timelyRate cfg q factor = some (rate, stage)) : InRange cfg rate := by
  cases factor with
  | none =>
      rw [← (Prod.mk.inj (Option.some.inj h)).1, hmax]
      exact capped_inRange hcfg (hcur.1.trans (Nat.le_add_right _ _))
  | some c =>
      obtain ⟨product, hproduct, h⟩ := Option.bind_eq_some_iff.mp h
      rw [← (Prod.mk.inj (Option.some.inj h)).1]
      refine ⟨le_max_left _ _, max_le hcfg.minRate ?_⟩
      obtain ⟨r, hr, hfloor⟩ := DataRate.ofDouble_number (hcfg.numbers hmode) hproduct
      obtain ⟨c, rfl, rfl⟩ := Extended.mul_eq_fin hr
      rw [hfloor]
      exact (DataRate.mul_le _ (hfactor c rfl)).trans hcur.2

section Timely

variable (hmode : cfg.mCcMode = 7)
include hmode

/-- In TIMELY only the rate and the reference rate are used. -/
theorem rateOk_timely (hmax : q.mMaxRate = cfg.lineRate) (hrate : InRange cfg q.mRate)
    (hcur : InRange cfg q.tmly.mCurRate) : RateOk cfg q where
  maxRate := hmax
  rate := hrate
  dcqcn := other_mode hmode (by decide)
  alpha := other_mode hmode (by decide)
  hpcc := other_mode hmode (by decide)
  hops := other_mode hmode (by decide)
  timely := fun _ => hcur
  dctcp := other_mode hmode (by decide)
  pint := other_mode hmode (by decide)

/-- The end of an RTT moves the sequence number that the next one starts at and keeps the RTT. -/
theorem timelyRttEnd_rateOk (hok : RateOk cfg q) {seq : UInt32} {rtt : UInt64} {c : Prop} [Decidable c]
    (h : (if c then some { q with tmly := { q.tmly with mLastUpdateSeq := seq, lastRtt := rtt } } else some q) = some q') :
    RateOk cfg q' := by
  split at h
  · obtain rfl := Option.some.inj h
    exact rateOk_timely hmode hok.maxRate hok.rate (hok.timely hmode)
  · obtain rfl := Option.some.inj h
    exact hok

theorem updateRateTimely_rateOk (hcfg : cfg.Admissible) (hok : RateOk cfg q) {now : UInt64} {ih : IntHeader} {us : Bool}
    (h : updateRateTimely cfg q now ih us = some q') : RateOk cfg q' := by
  have hcur := hok.timely hmode
  unfold updateRateTimely at h
  dsimp only at h
  split at h
  · obtain ⟨⟨rate, incStage⟩, htimely, h⟩ := Option.bind_eq_some_iff.mp h
    have hrate := timelyRate_inRange hcfg hmode hok.maxRate hcur (fun c hc => timelyFactor_le_one hcfg hc) htimely
    refine timelyRttEnd_rateOk hmode (rateOk_timely hmode ?_ ?_ ?_) h
    · exact hok.maxRate
    · exact hrate
    · dsimp only
      split
      · exact hcur
      · exact hrate
  · exact timelyRttEnd_rateOk hmode hok h

theorem handleAckTimely_rateOk (hcfg : cfg.Admissible) (hok : RateOk cfg q) {ackSeq : UInt32} {now : UInt64}
    {ih : IntHeader} (h : handleAckTimely cfg q ackSeq now ih = some q') : RateOk cfg q' := by
  simp only [handleAckTimely] at h
  split at h
  · exact updateRateTimely_rateOk hmode hcfg hok h
  · obtain rfl := Option.some.inj h
    exact hok

end Timely

/-! ### DCTCP -/

theorem dctcpFrac_mem_unit (q : CcQueuePair) : 0 ≤ q.dctcpFrac ∧ q.dctcpFrac ≤ 1 := by
  unfold dctcpFrac
  split
  · exact ⟨zero_le_one, le_refl _⟩
  · refine ⟨le_min zero_le_one ?_, min_le_left _ _⟩
    exact div_nonneg (Nat.cast_nonneg _) (Nat.cast_nonneg _)

section DctcpMode

variable (hmode : cfg.mCcMode = 8)
include hmode

/-- In DCTCP only the rate and alpha are used. -/
theorem rateOk_dctcp (hmax : q.mMaxRate = cfg.lineRate) (hrate : InRange cfg q.mRate)
    (halpha : 0 ≤ q.dctcp.mAlpha ∧ q.dctcp.mAlpha ≤ 1) : RateOk cfg q where
  maxRate := hmax
  rate := hrate
  dcqcn := other_mode hmode (by decide)
  alpha := other_mode hmode (by decide)
  hpcc := other_mode hmode (by decide)
  hops := other_mode hmode (by decide)
  timely := other_mode hmode (by decide)
  dctcp := fun _ => halpha
  pint := other_mode hmode (by decide)

theorem dctcpBatch_rateOk (hcfg : cfg.Admissible) (hok : RateOk cfg q) {ackSeq : UInt32}
    (h : dctcpBatch cfg q ackSeq = some q') : RateOk cfg q' := by
  have halpha := hok.dctcp hmode
  simp only [dctcpBatch] at h
  split at h
  · cases h
  · split at h
    · obtain rfl := Option.some.inj h
      exact rateOk_dctcp hmode hok.maxRate hok.rate halpha
    · obtain rfl := Option.some.inj h
      exact rateOk_dctcp hmode hok.maxRate hok.rate (mean_mem_unit hcfg.gain halpha q.dctcpFrac_mem_unit)

theorem dctcpExitCwr_rateOk (hok : RateOk cfg q) (ackSeq : UInt32) : RateOk cfg (q.dctcpExitCwr ackSeq) := by
  unfold dctcpExitCwr
  split
  · exact rateOk_dctcp hmode hok.maxRate hok.rate (hok.dctcp hmode)
  · exact hok

theorem dctcpReduce_rateOk (hok : RateOk cfg q) (cnp : Bool) : RateOk cfg (q.dctcpReduce cfg cnp) := by
  obtain ⟨hnonneg, hle⟩ := hok.dctcp hmode
  unfold dctcpReduce
  split
  · have hdown := cut_le hok.rate.1 hnonneg
    exact rateOk_dctcp hmode hok.maxRate ⟨le_max_left _ _, hdown.trans hok.rate.2⟩ ⟨hnonneg, hle⟩
  · exact hok

theorem dctcpIncrease_rateOk (hok : RateOk cfg q) (newBatch : Bool) : RateOk cfg (q.dctcpIncrease cfg newBatch) := by
  unfold dctcpIncrease
  split
  · have hupper : min q.mMaxRate (q.mRate + cfg.mDctcpRai) ≤ cfg.lineRate := (min_le_left _ _).trans (le_of_eq hok.maxRate)
    have hlower : cfg.mMinRate ≤ min q.mMaxRate (q.mRate + cfg.mDctcpRai) := by
      refine le_min ?_ (hok.rate.1.trans (Nat.le_add_right _ _))
      rw [hok.maxRate]
      exact hok.rate.1.trans hok.rate.2
    exact rateOk_dctcp hmode hok.maxRate ⟨hlower, hupper⟩ (hok.dctcp hmode)
  · exact hok

theorem handleAckDctcp_rateOk (hcfg : cfg.Admissible) (hok : RateOk cfg q) {ackSeq : UInt32} {cnp : Bool}
    (h : handleAckDctcp cfg q ackSeq cnp = some q') : RateOk cfg q' := by
  have hcounted : RateOk cfg { q with dctcp := { q.dctcp with mEcnCnt := q.dctcp.mEcnCnt + if cnp then 1 else 0 } } :=
    rateOk_dctcp hmode hok.maxRate hok.rate (hok.dctcp hmode)
  have htail : ∀ q₁, RateOk cfg q₁ → ∀ newBatch,
      RateOk cfg (((q₁.dctcpExitCwr ackSeq).dctcpReduce cfg cnp).dctcpIncrease cfg newBatch) := fun q₁ hq₁ newBatch =>
    dctcpIncrease_rateOk hmode (dctcpReduce_rateOk hmode (dctcpExitCwr_rateOk hmode hq₁ ackSeq) cnp) newBatch
  unfold handleAckDctcp at h
  dsimp only at h
  split at h
  · obtain ⟨q₁, hbatch, h⟩ := Option.bind_eq_some_iff.mp h
    obtain rfl := Option.some.inj h
    exact htail q₁ (dctcpBatch_rateOk hmode hcfg hcounted hbatch) _
  · obtain rfl := Option.some.inj h
    exact htail _ hcounted _

end DctcpMode

/-! ### HPCC-PINT -/

section Pint

variable (hmode : cfg.mCcMode = 10)
include hmode

/-- In PINT only the rate and the reference rate are used. -/
theorem rateOk_pint (hmax : q.mMaxRate = cfg.lineRate) (hrate : InRange cfg q.mRate)
    (hcur : InRange cfg q.hpccPint.mCurRate) : RateOk cfg q where
  maxRate := hmax
  rate := hrate
  dcqcn := other_mode hmode (by decide)
  alpha := other_mode hmode (by decide)
  hpcc := other_mode hmode (by decide)
  hops := other_mode hmode (by decide)
  timely := other_mode hmode (by decide)
  dctcp := other_mode hmode (by decide)
  pint := fun _ => hcur

theorem updateRateHpPint_rateOk (hcfg : cfg.Admissible) (hok : RateOk cfg q) {ih : IntHeader} {fastReact : Bool}
    (h : updateRateHpPint cfg q ih fastReact = some q') : RateOk cfg q' := by
  have hcur := hok.pint hmode
  unfold updateRateHpPint at h
  dsimp only at h
  split at h
  · obtain rfl := Option.some.inj h
    exact rateOk_pint hmode hok.maxRate hok.rate hcur
  · obtain ⟨⟨newRate, incStage⟩, hrate, h⟩ := Option.bind_eq_some_iff.mp h
    rw [hok.maxRate] at hrate
    have hnew := hpccRate_inRange hcfg hrate
    dsimp only at h
    split at h
    · obtain rfl := Option.some.inj h
      exact rateOk_pint hmode hok.maxRate hnew hcur
    · obtain rfl := Option.some.inj h
      exact rateOk_pint hmode hok.maxRate hnew hnew

theorem handleAckHpPint_rateOk (hcfg : cfg.Admissible) (hok : RateOk cfg q) {ackSeq rand : UInt32} {ih : IntHeader}
    (h : handleAckHpPint cfg q ackSeq ih rand = some q') : RateOk cfg q' := by
  simp only [handleAckHpPint] at h
  split at h
  · obtain rfl := Option.some.inj h
    exact hok
  · exact updateRateHpPint_rateOk hmode hcfg hok h

end Pint

end CcQueuePair

/-! ### The host -/

namespace CcHost

open CcQueuePair

variable {cfg : CcConfig} {h h' : CcHost} {q q' : CcQueuePair}

/-- Every queue pair has its rates in range, and timers are there in DCQCN only. -/
structure RatesOk (cfg : CcConfig) (h : CcHost) : Prop where
  rates : ∀ q ∈ h.qps, RateOk cfg q
  timers : cfg.mCcMode ≠ 1 → h.timers.pending = []

theorem initRates_rateOk (hcfg : cfg.Admissible) (hok : RateOk cfg q) : RateOk cfg (initRates cfg q) := by
  have hline := inRange_lineRate hcfg
  unfold initRates
  dsimp only
  split
  · rename_i hmode
    refine rateOk_dcqcn hmode ?_ ?_ ?_ ?_ ?_
    · exact hok.maxRate
    · exact hcfg.minRate
    · exact Nat.le_refl _
    · exact Nat.le_refl _
    · exact hok.alpha hmode
  · rename_i hne
    split
    · rename_i hmode
      refine rateOk_hpcc hmode hok.maxRate hline hline fun hmultiple i => ?_
      rw [if_pos hmultiple]
      exact hline
    · split
      · rename_i hmode
        exact rateOk_timely hmode hok.maxRate hline hline
      · split
        · rename_i hmode
          exact rateOk_pint hmode hok.maxRate hline hline
        · exact ⟨hok.maxRate, hline, fun hmode => absurd hmode hne, hok.alpha, hok.hpcc, hok.hops, hok.timely, hok.dctcp,
            hok.pint⟩

theorem handleAck_rateOk (hcfg : cfg.Admissible) (hok : RateOk cfg q) {p : AckPacket} {now : UInt64}
    {rand uninit : UInt32} (h : handleAck cfg q p now rand uninit = some q') : RateOk cfg q' := by
  simp only [handleAck] at h
  split at h
  · rename_i hmode
    exact handleAckHp_rateOk hmode hcfg hok h
  · split at h
    · rename_i hmode
      exact handleAckTimely_rateOk hmode hcfg hok h
    · split at h
      · rename_i hmode
        exact handleAckDctcp_rateOk hmode hcfg hok h
      · split at h
        · rename_i hmode
          exact handleAckHpPint_rateOk hmode hcfg hok h
        · obtain rfl := Option.some.inj h
          exact hok

theorem qpComplete_pending (t : Timers) (hmode : cfg.mCcMode ≠ 1) : (qpComplete cfg q t).2 = t := by
  simp only [qpComplete]
  exact if_neg hmode

/-- Completion and the CNP flag: the rates stay in range, and outside DCQCN the timers stay as they are. -/
theorem afterFlags_rateOk (hcfg : cfg.Admissible) (hok : RateOk cfg q) (p : AckPacket) (i : Nat) (finished : Bool)
    (t : Timers) : RateOk cfg (afterFlags cfg p i finished q t).1 ∧
      (cfg.mCcMode ≠ 1 → (afterFlags cfg p i finished q t).2 = t) := by
  have hcompleted : RateOk cfg (completeIf cfg finished q t).1 ∧
      (cfg.mCcMode ≠ 1 → (completeIf cfg finished q t).2 = t) := by
    simp only [completeIf]
    split
    · exact ⟨⟨hok.maxRate, hok.rate, hok.dcqcn, hok.alpha, hok.hpcc, hok.hops, hok.timely, hok.dctcp, hok.pint⟩,
        qpComplete_pending t⟩
    · exact ⟨hok, fun _ => rfl⟩
  unfold afterFlags cnpIf
  split
  · rename_i hcnp
    exact ⟨cnpReceivedMlx_rateOk hcnp.2 hcfg hcompleted.1 i _, fun hmode => absurd hcnp.2 hmode⟩
  · exact hcompleted

theorem forall_mem_set {i : Nat} (hall : ∀ q ∈ h.qps, RateOk cfg q) (hq' : RateOk cfg q') :
    ∀ q ∈ h.qps.set i q', RateOk cfg q := by
  intro q hq
  rcases List.mem_or_eq_of_mem_set hq with hold | rfl
  · exact hall q hold
  · exact hq'

/-- One step, whichever it is. -/
theorem ratesOk_step (hcfg : cfg.Admissible) {e : HostEvent} (hinv : RatesOk cfg h) (hstep : Step cfg h e h') :
    RatesOk cfg h' := by
  have hold : ∀ {i : Nat} {q : CcQueuePair}, h.qps[i]? = some q → RateOk cfg q := fun hq =>
    hinv.rates _ (List.mem_of_getElem? hq)
  cases hstep with
  | added dip sport size pg win baseRtt hop =>
      refine ⟨fun q hq => ?_, hinv.timers⟩
      rcases List.mem_append.mp hq with hq | hq
      · exact hinv.rates q hq
      · obtain rfl := List.mem_singleton.mp hq
        exact new_rateOk hcfg dip sport size pg win baseRtt hop
  | sent hq => exact ⟨forall_mem_set hinv.rates ((hold hq).transport _), hinv.timers⟩
  | unknown hkey => exact hinv
  | @acked p now rand uninit i q q' qp finished hkey hq hack hhandle =>
      obtain ⟨hflags, htimers⟩ := afterFlags_rateOk hcfg ((hold hq).transport qp) p i finished h.timers
      refine ⟨forall_mem_set hinv.rates (handleAck_rateOk hcfg hflags hhandle), fun hmode => ?_⟩
      show (afterFlags cfg p i finished { q with qp := qp } h.timers).2.pending = []
      rw [htimers hmode]
      exact hinv.timers hmode
  | idle sip fid qIndex => exact hinv
  | initialised sip fid qIndex hq hzero =>
      exact ⟨forall_mem_set hinv.rates (initRates_rateOk hcfg (hold hq)), hinv.timers⟩
  | @fired uid kind i timers q hfire hq =>
      have hmode : cfg.mCcMode = 1 := by
        by_contra hmode
        have hmem := (EventQueue.fire_spec hfire).1
        rw [hinv.timers hmode] at hmem
        cases hmem
      exact ⟨forall_mem_set hinv.rates (runTimer_rateOk hmode hcfg (hold hq) i timers kind), fun hne => absurd hmode hne⟩

theorem admissible_dcqcn : dcqcn.Admissible where
  even := rfl
  minRate := by decide
  gain := by norm_num [dcqcn]
  firstCnp := rfl
  beta := by norm_num [dcqcn]
  numbers := fun hmode => absurd hmode (by decide)

end CcHost

end Lcmp
