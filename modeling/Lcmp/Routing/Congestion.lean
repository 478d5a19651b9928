import Lcmp.Lib.Smoothing
import Lcmp.Routing.CandidateOrder

/-!
# Congestion signals

The two signals a switch derives from the length of a queue. The level compares the length with a table
of thresholds, whose last entry does not fit its type. The trend filters the differences between
successive samples.
-/

namespace Lcmp

/-! ### The level of a queue -/

/-- The tenth of the buffer that `bytes` reach into; the last one is open. -/
def bufferTenth (bytes : Nat) : Nat := min (kClassNum - 1) (kClassNum * bytes / bufferCapacity)

theorem highestClass_eq_some {reached : Nat → Bool} {n i : Nat} (hi : i < n) (hreached : reached i = true)
    (habove : ∀ j, i < j → j < n → reached j = false) : highestClass reached n = some i := by
  induction n with
  | zero => omega
  | succ n ih =>
      rw [highestClass]
      rcases Nat.lt_succ_iff_lt_or_eq.mp hi with hlt | rfl
      · rw [habove n hlt (Nat.lt_succ_self n), if_neg (by decide)]
        exact ih hlt fun j hij hj => habove j hij (Nat.lt_succ_of_lt hj)
      · rw [hreached, if_pos rfl]

theorem qThresh_toNat {i : Nat} (hi : i < 9) : (qThresh i).toNat = 500000000 * i := by
  simp only [qThresh, bufferCapacity, kClassNum, UInt32.toNat_ofNat']
  omega

/-- The last threshold should be 4.5 GB. -/
theorem qThresh_top : (qThresh 9).toNat = 205032704 := by decide

theorem calcQLevel_of_lt {s : CongestionState} (hpos : 0 < s.queueBytesCur)
    (hlow : s.queueBytesCur < 205032704) : calcQLevel s = levelScore 0 := by
  rw [UInt32.lt_iff_toNat_lt] at hpos hlow
  change 0 < s.queueBytesCur.toNat at hpos
  change s.queueBytesCur.toNat < 205032704 at hlow
  have hclass : highestClass (fun i => s.queueBytesCur ≥ qThresh i) kClassNum = some 0 := by
    refine highestClass_eq_some (by decide) ?_ ?_
    · rw [decide_eq_true_eq, ge_iff_le, UInt32.le_iff_toNat_le, qThresh_toNat (by decide)]
      omega
    · intro j hj hjn
      rw [decide_eq_false_iff_not, ge_iff_le, UInt32.le_iff_toNat_le]
      rcases Nat.lt_succ_iff_lt_or_eq.mp hjn with hlt | heq
      · rw [qThresh_toNat hlt]
        omega
      · rw [heq, qThresh_top]
        omega
  have hne : ¬ s.queueBytesCur ≤ 0 := by
    rw [UInt32.le_iff_toNat_le]
    change ¬ s.queueBytesCur.toNat ≤ 0
    omega
  rw [calcQLevel, if_neg hne, hclass]

theorem calcQLevel_of_ge {s : CongestionState} (hhigh : 205032704 ≤ s.queueBytesCur) :
    calcQLevel s = levelScore 9 := by
  have hclass : highestClass (fun i => s.queueBytesCur ≥ qThresh i) kClassNum = some 9 := by
    refine highestClass_eq_some (by decide) ?_ ?_
    · rw [decide_eq_true_eq, ge_iff_le, UInt32.le_iff_toNat_le, qThresh_top]
      exact UInt32.le_iff_toNat_le.mp hhigh
    · intro j hj hjn
      rw [kClassNum] at hjn
      omega
  have hne : ¬ s.queueBytesCur ≤ 0 := by
    rw [UInt32.le_iff_toNat_le] at hhigh ⊢
    change 205032704 ≤ s.queueBytesCur.toNat at hhigh
    change ¬ s.queueBytesCur.toNat ≤ 0
    omega
  rw [calcQLevel, if_neg hne, hclass]

theorem levelScore_inj {i j : Nat} (hi : i < kClassNum) (hj : j < kClassNum)
    (h : levelScore i = levelScore j) : i = j := by
  rw [kClassNum] at hi hj
  have hall : ∀ i : Fin 10, ∀ j : Fin 10, levelScore i = levelScore j → i = j := by decide
  exact congrArg Fin.val (hall ⟨i, hi⟩ ⟨j, hj⟩ h)

/-- A queue that is not empty has the level of its tenth of the buffer exactly when it is shorter than
the last threshold as the table holds it. -/
theorem calcQLevel_eq_bufferTenth_iff {s : CongestionState} (hpos : 0 < s.queueBytesCur) :
    calcQLevel s = levelScore (bufferTenth s.queueBytesCur.toNat) ↔ s.queueBytesCur < 205032704 := by
  have hlt := s.queueBytesCur.toNat_lt
  constructor
  · intro h
    by_contra hhigh
    rw [UInt32.not_lt] at hhigh
    rw [calcQLevel_of_ge hhigh] at h
    have htenth := levelScore_inj (by decide)
      (Nat.lt_of_le_of_lt (Nat.min_le_left _ _) (by decide)) h
    simp only [kClassNum, bufferCapacity] at htenth
    omega
  · intro hlow
    rw [calcQLevel_of_lt hpos hlow]
    rw [UInt32.lt_iff_toNat_lt] at hlow
    change s.queueBytesCur.toNat < 205032704 at hlow
    have htenth : bufferTenth s.queueBytesCur.toNat = 0 := by
      simp only [bufferTenth, kClassNum, bufferCapacity]
      omega
    rw [htenth]

/-- A queue of one packet is in the first tenth. -/
theorem calcQLevel_one_packet :
    (0 : UInt32) < 1048 ∧ ((1048 : UInt32) < 205032704) ∧
      calcQLevel { CongestionState.initial with queueBytesCur := 1048 } = levelScore (bufferTenth 1048) :=
  ⟨by decide, by decide, (calcQLevel_eq_bufferTenth_iff
    (s := { CongestionState.initial with queueBytesCur := 1048 }) (by decide)).mpr (by decide)⟩

/-- A queue of 210 MB is in the first tenth of the buffer and gets the level of the last one; the table
is not increasing. -/
theorem not_calcQLevel_bufferTenth :
    ¬ ((∀ s : CongestionState, 0 < s.queueBytesCur →
          calcQLevel s = levelScore (bufferTenth s.queueBytesCur.toNat)) ∨
        ∀ i j, i < j → j < kClassNum → qThresh i < qThresh j) := by
  rintro (hlevel | hincreasing)
  · have h := hlevel { CongestionState.initial with queueBytesCur := 210000000 } (by decide)
    exact absurd h (by decide)
  · exact absurd (hincreasing 8 9 (by decide) (by decide)) (by decide)

/-! ### The trend of a queue -/

theorem toInt_shiftRight_trendShift (x : Int32) : (x >>> trendShift).toInt = x.toInt / 2 ^ 3 := by
  change (x.toBitVec.sshiftRight 3).toInt = _
  rw [BitVec.toInt_sshiftRight, Int.shiftRight_eq_div_pow]
  rfl

theorem toInt_toInt32_sub {a b : UInt32} (ha : a.toNat < 2 ^ 31) (hb : b.toNat < 2 ^ 31) :
    (a - b).toInt32.toInt = a.toNat - b.toNat := by
  change (a - b).toBitVec.toInt = _
  rw [BitVec.toInt_eq_toNat_bmod]
  change ((a - b).toNat : Int).bmod _ = _
  rw [UInt32.toNat_sub, Int.bmod_def]
  omega

/-- No operation of `updateTrend` on 32-bit numbers overflows. -/
structure TrendExact (s : CongestionState) : Prop where
  delta : (s.queueBytesCur - s.queueBytesPrev).toInt32.toInt =
    s.queueBytesCur.toNat - s.queueBytesPrev.toNat
  decayed : (s.trend - (s.trend >>> trendShift)).toInt =
    s.trend.toInt - (s.trend >>> trendShift).toInt
  smoothed : (s.trend - (s.trend >>> trendShift) +
      ((s.queueBytesCur - s.queueBytesPrev).toInt32 >>> trendShift)).toInt =
    (s.trend - (s.trend >>> trendShift)).toInt +
      ((s.queueBytesCur - s.queueBytesPrev).toInt32 >>> trendShift).toInt

theorem TrendExact.updateTrend_trend {s : CongestionState} (h : TrendExact s) :
    (updateTrend s).trend.toInt =
      Smoothing.smooth 3 s.trend.toInt (s.queueBytesCur.toNat - s.queueBytesPrev.toNat) := by
  rw [Smoothing.smooth]
  simp only [updateTrend]
  rw [h.smoothed, h.decayed, toInt_shiftRight_trendShift, toInt_shiftRight_trendShift, h.delta]

/-- The trend and the two lengths are within `bound`. -/
structure TrendWithin (bound : Nat) (s : CongestionState) : Prop where
  trend : |s.trend.toInt| ≤ bound
  cur : s.queueBytesCur.toNat ≤ bound
  prev : s.queueBytesPrev.toNat ≤ bound

namespace TrendWithin

variable {bound : Nat} {s : CongestionState}

private theorem abs_delta_le (h : TrendWithin bound s) :
    |(s.queueBytesCur.toNat - s.queueBytesPrev.toNat : Int)| ≤ bound := by
  have hcur := h.cur
  have hprev := h.prev
  rw [abs_le]
  omega

theorem exact (hbound : bound < 2 ^ 31) (h : TrendWithin bound s) : TrendExact s := by
  have hcur := h.cur
  have hprev := h.prev
  have hdelta := toInt_toInt32_sub (Nat.lt_of_le_of_lt hcur hbound) (Nat.lt_of_le_of_lt hprev hbound)
  have htrend := abs_le.mp h.trend
  have hdecayed : (s.trend - (s.trend >>> trendShift)).toInt =
      s.trend.toInt - (s.trend >>> trendShift).toInt := by
    rw [Int32.toInt_sub, toInt_shiftRight_trendShift, Int.bmod_def]
    omega
  refine ⟨hdelta, hdecayed, ?_⟩
  rw [Int32.toInt_add, hdecayed, toInt_shiftRight_trendShift, toInt_shiftRight_trendShift, hdelta,
    Int.bmod_def]
  omega

theorem updateTrend (hbound : bound < 2 ^ 31) (h : TrendWithin bound s) :
    TrendWithin bound (updateTrend s) where
  trend := by
    rw [(h.exact hbound).updateTrend_trend]
    exact Smoothing.abs_smooth_le h.trend h.abs_delta_le
  cur := h.cur
  prev := h.cur

theorem samplePort (hbound : bound < 2 ^ 31) (h : TrendWithin bound s) (now : Int) {qlen : UInt32}
    (hqlen : qlen.toNat ≤ bound) : TrendWithin bound (samplePort now qlen s) :=
  TrendWithin.updateTrend hbound ⟨h.trend, hqlen, h.prev⟩

theorem initial (bound : Nat) : TrendWithin bound .initial := ⟨by simp [CongestionState.initial], by
  simp [CongestionState.initial], by simp [CongestionState.initial]⟩

end TrendWithin

/-- A sample that finds the queue as the last one left it. -/
theorem samplePort_unchanged {s : CongestionState} {bound : Nat} (hbound : bound < 2 ^ 31)
    (h : TrendWithin bound s) (now : Int) :
    (samplePort now s.queueBytesPrev s).trend.toInt = Smoothing.smooth 3 s.trend.toInt 0 := by
  have hwithin : TrendWithin bound
      { s with queueBytesCur := s.queueBytesPrev, lastTrendSampleTime := now } :=
    ⟨h.trend, h.prev, h.prev⟩
  rw [samplePort, (hwithin.exact hbound).updateTrend_trend]
  dsimp only
  rw [Int.sub_self]

/-! ### Runs -/

/-- The calls that change the congestion state: a sampling round and a change of one port's duration
counter. -/
inductive CongEvent where
  | sample (env : SwitchEnv)
  | duration (port : UInt32) (qLevel : UInt8)

def congStep (cong : UInt32 → CongestionState) : CongEvent → UInt32 → CongestionState
  | .sample env => monitorCongestionState env cong
  | .duration port qLevel =>
      Function.update cong port (updateDurationPenalty (cong port) qLevel)

def congRun (events : List CongEvent) : UInt32 → CongestionState :=
  events.foldl congStep fun _ => .initial

/-- The length a sampling round finds at a port it reaches. -/
def sampled (port : UInt32) : CongEvent → Option UInt32
  | .sample env =>
      if 1 ≤ port.toNat ∧ port.toNat < env.nDevices.toNat then env.queueBytes port else none
  | .duration _ _ => none

def samplesOf (port : UInt32) (events : List CongEvent) : List UInt32 := events.filterMap (sampled port)

/-- What an event does to one port. -/
theorem congStep_apply (cong : UInt32 → CongestionState) (event : CongEvent) (port : UInt32) :
    (∃ env q, event = .sample env ∧ sampled port event = some q ∧
      congStep cong event port = samplePort env.now q (cong port)) ∨
    (sampled port event = none ∧ ∃ durCounter,
      congStep cong event port = { cong port with durCounter := durCounter }) := by
  cases event with
  | sample env =>
      rw [congStep, monitorCongestionState_apply, sampleAt, sampled]
      by_cases hrange : 1 ≤ port.toNat ∧ port.toNat < env.nDevices.toNat
      · rw [if_pos hrange, if_pos hrange, sampleDevice]
        cases hq : env.queueBytes port with
        | none => exact Or.inr ⟨rfl, _, rfl⟩
        | some q => exact Or.inl ⟨env, q, rfl, rfl, rfl⟩
      · rw [if_neg hrange, if_neg hrange]
        exact Or.inr ⟨rfl, _, rfl⟩
  | duration other qLevel =>
      refine Or.inr ⟨rfl, ?_⟩
      rw [congStep]
      by_cases hother : port = other
      · subst hother
        rw [Function.update_self, updateDurationPenalty_eq]
        exact ⟨_, rfl⟩
      · rw [Function.update_of_ne hother]
        exact ⟨_, rfl⟩

theorem congRun_append (events : List CongEvent) (event : CongEvent) :
    congRun (events ++ [event]) = congStep (congRun events) event := by
  rw [congRun, List.foldl_append]
  rfl

/-- One event keeps a port within the bound of the lengths it is sampled with. -/
theorem TrendWithin.congStep {bound : Nat} (hbound : bound < 2 ^ 31) {cong : UInt32 → CongestionState}
    {port : UInt32} (h : TrendWithin bound (cong port)) (event : CongEvent)
    (hlen : ∀ q, sampled port event = some q → q.toNat ≤ bound) :
    TrendWithin bound (congStep cong event port) := by
  obtain ⟨env, q, -, hq, hstep⟩ | ⟨-, durCounter, hstep⟩ := congStep_apply cong event port
  · rw [hstep]
    exact h.samplePort hbound env.now (hlen q hq)
  · rw [hstep]
    exact ⟨h.trend, h.cur, h.prev⟩

theorem samplesOf_append_singleton (port : UInt32) (events : List CongEvent) (event : CongEvent) :
    samplesOf port (events ++ [event]) = samplesOf port events ++ (sampled port event).toList := by
  rw [samplesOf, List.filterMap_append, samplesOf]
  cases hq : sampled port event with
  | none => rw [List.filterMap_cons_none hq, List.filterMap_nil, Option.toList_none]
  | some q => rw [List.filterMap_cons_some hq, List.filterMap_nil, Option.toList_some]

theorem trendWithin_congRun {bound : Nat} (hbound : bound < 2 ^ 31) {port : UInt32}
    (events : List CongEvent) (hlen : ∀ q ∈ samplesOf port events, q.toNat ≤ bound) :
    TrendWithin bound (congRun events port) := by
  induction events using List.reverseRecOn with
  | nil => exact TrendWithin.initial bound
  | append_singleton events event ih =>
      rw [samplesOf_append_singleton] at hlen
      rw [congRun_append]
      refine TrendWithin.congStep hbound
        (ih fun q hq => hlen q (List.mem_append_left _ hq)) event fun q hq => ?_
      refine hlen q (List.mem_append_right _ ?_)
      rw [hq]
      exact List.mem_singleton_self q

/-- While the length stays at `q`, every sample after the first leaves the trend settled or brings it
closer to zero. -/
theorem congRun_settling {bound : Nat} (hbound : bound < 2 ^ 31) {port q : UInt32}
    {before : List CongEvent} (hbefore : ∀ x ∈ samplesOf port before, x.toNat ≤ bound)
    (hq : q.toNat ≤ bound) (after : List CongEvent) (hconst : ∀ x ∈ samplesOf port after, x = q)
    (hsome : samplesOf port after ≠ []) :
    (congRun (before ++ after) port).queueBytesPrev = q ∧
      (Smoothing.Settled 3 (congRun (before ++ after) port).trend.toInt ∨
        |(congRun (before ++ after) port).trend.toInt| + (samplesOf port after).length ≤ bound + 1) := by
  induction after using List.reverseRecOn with
  | nil => exact absurd rfl hsome
  | append_singleton after event ih =>
      rw [samplesOf_append_singleton] at hconst hsome ⊢
      rw [← List.append_assoc, congRun_append]
      have hold := fun x hx => hconst x (List.mem_append_left _ hx)
      have hwithin : TrendWithin bound (congRun (before ++ after) port) := by
        refine trendWithin_congRun hbound _ fun x hx => ?_
        rw [samplesOf, List.filterMap_append] at hx
        rcases List.mem_append.mp hx with hx | hx
        · exact hbefore x hx
        · rw [hold x hx]
          exact hq
      obtain ⟨env, x, -, hx, hstep⟩ | ⟨hnone, durCounter, hstep⟩ :=
        congStep_apply (congRun (before ++ after)) event port
      · have hxq : x = q := hconst x (by rw [hx]; simp)
        subst hxq
        rw [hstep, hx]
        refine ⟨rfl, ?_⟩
        by_cases hfirst : samplesOf port after = []
        · rw [hfirst]
          have htrend := (hwithin.samplePort hbound env.now hq).trend
          refine Or.inr ?_
          simp only [Option.toList_some, List.nil_append, List.length_singleton, Nat.cast_one]
          omega
        · obtain ⟨hprev, hsettling⟩ := ih hold hfirst
          have hunchanged := samplePort_unchanged hbound hwithin env.now
          rw [hprev] at hunchanged
          have hnext := Smoothing.settled_or_abs_add_le hsettling
          rw [← hunchanged] at hnext
          rw [Option.toList_some, List.length_append, List.length_singleton]
          exact hnext
      · rw [hstep, hnone, Option.toList_none, List.append_nil]
        rw [hnone, Option.toList_none, List.append_nil] at hsome
        exact ih hold hsome

/-- The trend of a port whose queue stays within `bound` bytes is itself within `bound` after every
event, and no sample overflows on the way. Once the length has stopped changing, `bound + 1` samples
bring the trend into `0 .. 7`, and it stays there. -/
theorem trend_stable {bound : Nat} (hbound : bound < 2 ^ 31) (port : UInt32) (events : List CongEvent)
    (hlen : ∀ q ∈ samplesOf port events, q.toNat ≤ bound) :
    (∀ before, before <+: events → |(congRun before port).trend.toInt| ≤ bound) ∧
    (∀ before event q, before ++ [event] <+: events → sampled port event = some q →
      TrendExact { congRun before port with queueBytesCur := q }) ∧
    ∀ before after q, events = before ++ after → (∀ x ∈ samplesOf port after, x = q) →
      bound + 1 ≤ (samplesOf port after).length →
      0 ≤ (congRun events port).trend.toInt ∧ (congRun events port).trend.toInt ≤ 7 := by
  have hshort : ∀ before, before <+: events → ∀ q ∈ samplesOf port before, q.toNat ≤ bound :=
    fun before h q hq => hlen q ((h.sublist.filterMap _).subset hq)
  refine ⟨fun before h => ?_, fun before event q h hq => ?_, fun before after q hsplit hconst hcount => ?_⟩
  · exact (trendWithin_congRun hbound before (hshort before h)).trend
  · have hbefore := trendWithin_congRun hbound before
      (hshort before ((List.prefix_append before [event]).trans h))
    refine TrendWithin.exact hbound ⟨hbefore.trend, ?_, hbefore.prev⟩
    refine hshort _ h q ?_
    rw [samplesOf_append_singleton, hq]
    exact List.mem_append_right _ (List.mem_singleton_self q)
  · subst hsplit
    have hsome : samplesOf port after ≠ [] := by
      intro hnil
      rw [hnil] at hcount
      exact absurd hcount (by simp)
    obtain ⟨x, hx⟩ := List.exists_mem_of_ne_nil _ hsome
    have hq : q.toNat ≤ bound := by
      rw [← hconst x hx]
      refine hlen x ?_
      rw [samplesOf, List.filterMap_append]
      exact List.mem_append_right _ hx
    have hbefore := hshort before (List.prefix_append before after)
    obtain ⟨-, hsettled | hfar⟩ := congRun_settling hbound hbefore hq after hconst hsome
    · exact ⟨hsettled.1, Int.lt_add_one_iff.mp hsettled.2⟩
    · have hzero := abs_nonneg (congRun (before ++ after) port).trend.toInt
      have htrend : |(congRun (before ++ after) port).trend.toInt| = 0 := by omega
      rw [abs_eq_zero.mp htrend]
      decide

theorem samplesOf_replicate_twoPortEnv (n : Nat) :
    samplesOf 1 (List.replicate n (.sample (twoPortEnv 100))) = List.replicate n 100 :=
  List.filterMap_replicate_of_some (by decide)

/-- A queue that jumps to 100 bytes and stays there. -/
theorem trend_stable_hundred_bytes :
    0 ≤ (congRun (List.replicate 101 (.sample (twoPortEnv 100))) 1).trend.toInt ∧
      (congRun (List.replicate 101 (.sample (twoPortEnv 100))) 1).trend.toInt ≤ 7 := by
  have hsamples := samplesOf_replicate_twoPortEnv 101
  refine (trend_stable (by decide : 100 < 2 ^ 31) 1 (List.replicate 101 (.sample (twoPortEnv 100)))
    fun q hq => ?_).2.2 [] _ 100 (List.nil_append _).symm (fun x hx => ?_) ?_
  · rw [hsamples] at hq
    rw [List.eq_of_mem_replicate hq]
    decide
  · rw [hsamples] at hx
    exact List.eq_of_mem_replicate hx
  · rw [hsamples, List.length_replicate]

end Lcmp
