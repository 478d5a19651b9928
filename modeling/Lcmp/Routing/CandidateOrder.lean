import Lcmp.Lib.Walk
import Lcmp.Routing.Cost

/-!
# The order of the candidates

The loop over the next hops samples every port of the switch once for each candidate, all at one
instant. What it leaves in the congestion state does not depend on the order of the candidates. The
costs do: the candidate at position `k` is judged by a trend that has been smoothed `k + 1` times.
-/

namespace Lcmp

def sampleDevice (env : SwitchEnv) (port : UInt32) (s : CongestionState) : CongestionState :=
  match env.queueBytes port with
  | none => s
  | some qlen => samplePort env.now qlen s

/-- What a sampling round does to one port. -/
def sampleAt (env : SwitchEnv) (port : UInt32) (s : CongestionState) : CongestionState :=
  if 1 ≤ port.toNat ∧ port.toNat < env.nDevices.toNat then sampleDevice env port s else s

/-- The cost of a port that has gone through `n` sampling rounds. -/
def costAfter (cfg : CostConfig) (env : SwitchEnv) (cong : UInt32 → CongestionState) (port : UInt32)
    (n : Nat) : UInt32 :=
  totalCost cfg env.now port (stepDuration ((sampleAt env port)^[n] (cong port)))

/-- A sampling round reaches the port. -/
def Monitored (env : SwitchEnv) (port : UInt32) : Prop :=
  (1 ≤ port.toNat ∧ port.toNat < env.nDevices.toNat) ∧ env.queueBytes port ≠ none

instance (env : SwitchEnv) (port : UInt32) : Decidable (Monitored env port) :=
  inferInstanceAs (Decidable (_ ∧ _))

/-- One step of the smoothing with nothing new to smooth. -/
def decay (trend : Int32) : Int32 := trend - (trend >>> trendShift)

/-- The trend of a port after one sample. -/
def firstTrend (env : SwitchEnv) (cong : UInt32 → CongestionState) (port : UInt32) : Int32 :=
  (sampleAt env port (cong port)).trend

/-- The cost formula for a port that has been sampled once, with `trend` for its trend. -/
def costWithTrend (cfg : CostConfig) (env : SwitchEnv) (cong : UInt32 → CongestionState)
    (port : UInt32) (trend : Int32) : UInt32 :=
  totalCost cfg env.now port (stepDuration { sampleAt env port (cong port) with trend := trend })

/-- Two candidate lists get the same cost for every port. -/
def SameCosts (cfg : CostConfig) (env : SwitchEnv) (cong : UInt32 → CongestionState)
    (left right : List UInt32) : Prop :=
  ∀ port cost, (cost, port) ∈ (costLoop cfg env cong left).2 ↔ (cost, port) ∈ (costLoop cfg env cong right).2

/-! ### One sampling round -/

private theorem monitored_ports (n port : UInt32) :
    port ∈ ((List.range (n.toNat - 1)).map fun i => UInt32.ofNat (i + 1)) ↔
      1 ≤ port.toNat ∧ port.toNat < n.toNat := by
  have hn := n.toNat_lt
  constructor
  · intro h
    obtain ⟨i, hi, rfl⟩ := List.mem_map.mp h
    rw [List.mem_range] at hi
    rw [UInt32.toNat_ofNat', Nat.mod_eq_of_lt (by omega)]
    omega
  · intro h
    refine List.mem_map.mpr ⟨port.toNat - 1, List.mem_range.mpr (by omega), ?_⟩
    rw [Nat.sub_add_cancel h.1, UInt32.ofNat_toNat]

private theorem monitored_nodup (n : UInt32) :
    ((List.range (n.toNat - 1)).map fun i => UInt32.ofNat (i + 1)).Nodup := by
  have hn := n.toNat_lt
  refine List.Nodup.map_on (fun i hi j hj heq => ?_) List.nodup_range
  rw [List.mem_range] at hi hj
  have hnat := congrArg UInt32.toNat heq
  rw [UInt32.toNat_ofNat', UInt32.toNat_ofNat', Nat.mod_eq_of_lt (by omega),
    Nat.mod_eq_of_lt (by omega)] at hnat
  omega

theorem monitorPort_eq (env : SwitchEnv) (cong : UInt32 → CongestionState) (port : UInt32) :
    monitorPort env cong port = Function.update cong port (sampleDevice env port (cong port)) := by
  simp only [monitorPort, sampleDevice]
  cases env.queueBytes port with
  | none => exact (Function.update_eq_self port cong).symm
  | some qlen => rfl

theorem monitorCongestionState_apply (env : SwitchEnv) (cong : UInt32 → CongestionState)
    (port : UInt32) : monitorCongestionState env cong port = sampleAt env port (cong port) := by
  have hbody : monitorPort env = fun c p => Function.update c p (sampleDevice env p (c p)) := by
    funext c p
    exact monitorPort_eq env c p
  rw [monitorCongestionState, hbody, Walk.foldl_update_apply _ _ (monitored_nodup env.nDevices)]
  simp only [monitored_ports, sampleAt]

def nextDurCounter (qLevel : UInt8) (durCounter : UInt32) : UInt32 :=
  if qLevel ≥ 204 then durCounter + 1
  else if qLevel ≤ 102 then (if durCounter > 0 then durCounter - 1 else 0)
  else durCounter

theorem updateDurationPenalty_eq (s : CongestionState) (qLevel : UInt8) :
    updateDurationPenalty s qLevel = { s with durCounter := nextDurCounter qLevel s.durCounter } := by
  simp only [updateDurationPenalty, nextDurCounter]
  split
  · rfl
  · split <;> rfl

theorem calcQLevel_congr {s s' : CongestionState} (h : s.queueBytesCur = s'.queueBytesCur) :
    calcQLevel s = calcQLevel s' := by
  simp only [calcQLevel, h]

/-- Once a port has been sampled, the counter it is charged does not depend on further samples. -/
theorem samplePort_stepDuration (now : Int) (qlen : UInt32) (s : CongestionState) :
    samplePort now qlen (stepDuration (samplePort now qlen s)) =
      stepDuration (samplePort now qlen (samplePort now qlen s)) := by
  have hlevel : calcQLevel (samplePort now qlen (samplePort now qlen s)) =
      calcQLevel (samplePort now qlen s) := calcQLevel_congr rfl
  rw [stepDuration, stepDuration, hlevel, updateDurationPenalty_eq, updateDurationPenalty_eq]
  rfl

theorem sampleAt_stepDuration (env : SwitchEnv) (port : UInt32) (s : CongestionState) :
    sampleAt env port (stepDuration (sampleAt env port s)) =
      stepDuration (sampleAt env port (sampleAt env port s)) := by
  simp only [sampleAt]
  split
  · simp only [sampleDevice]
    cases env.queueBytes port with
    | none => rfl
    | some qlen => exact samplePort_stepDuration env.now qlen s
  · rfl

theorem evalCandidate_eq (cfg : CostConfig) (env : SwitchEnv) (cong : UInt32 → CongestionState)
    (intf : UInt32) :
    evalCandidate cfg env cong intf =
      (Walk.visit (sampleAt env) (fun _ => stepDuration) cong intf,
        totalCost cfg env.now intf (stepDuration (sampleAt env intf (cong intf)))) := by
  have hmonitor : monitorCongestionState env cong = fun port => sampleAt env port (cong port) :=
    funext fun port => monitorCongestionState_apply env cong port
  simp only [evalCandidate, hmonitor, Walk.visit, Function.update_self]

/-- The loop is a walk over the candidates: its state is the table the walk leaves, its costs are
computed from what the visits see. -/
theorem costLoop_eq (cfg : CostConfig) (env : SwitchEnv) (cong : UInt32 → CongestionState)
    (nexthops : List UInt32) :
    costLoop cfg env cong nexthops =
      (Walk.walk (sampleAt env) (fun _ => stepDuration) cong nexthops,
        (Walk.seen (sampleAt env) (fun _ => stepDuration) cong nexthops).map fun x =>
          (totalCost cfg env.now x.1 x.2, x.1)) := by
  induction nexthops generalizing cong with
  | nil => rfl
  | cons intf nexthops ih =>
      rw [costLoop, evalCandidate_eq]
      dsimp only
      rw [ih]
      rfl

/-! ### The two outcomes -/

theorem costLoop_state_perm (cfg : CostConfig) (env : SwitchEnv) (cong : UInt32 → CongestionState)
    {left right : List UInt32} (h : left.Perm right) :
    (costLoop cfg env cong left).1 = (costLoop cfg env cong right).1 := by
  rw [costLoop_eq, costLoop_eq]
  exact Walk.walk_perm (fun port s => sampleAt_stepDuration env port s) cong h

/-- The pairs of the loop: the candidate at position `k` gets its cost after `k + 1` rounds. -/
theorem mem_costLoop_iff (cfg : CostConfig) (env : SwitchEnv) (cong : UInt32 → CongestionState)
    {nexthops : List UInt32} (hnodup : nexthops.Nodup) (cost port : UInt32) :
    (cost, port) ∈ (costLoop cfg env cong nexthops).2 ↔
      port ∈ nexthops ∧ cost = costAfter cfg env cong port (nexthops.idxOf port + 1) := by
  have hseen := Walk.seen_getElem (sampleAt env) (fun _ => stepDuration) cong nexthops hnodup
  rw [costLoop_eq, List.mem_map]
  constructor
  · rintro ⟨x, hx, heq⟩
    obtain ⟨k, hk, rfl⟩ := List.mem_iff_getElem.mp hx
    rw [Walk.length_seen] at hk
    have hget := hseen k hk
    rw [List.getElem?_eq_getElem (by rw [Walk.length_seen]; exact hk), Option.some.injEq] at hget
    rw [hget, Prod.mk.injEq] at heq
    obtain ⟨hcost, rfl⟩ := heq
    rw [hnodup.idxOf_getElem k hk]
    exact ⟨List.getElem_mem hk, hcost.symm⟩
  · rintro ⟨hport, rfl⟩
    have hk := List.idxOf_lt_length_of_mem hport
    have hget := hseen _ hk
    rw [List.getElem_idxOf] at hget
    exact ⟨_, List.mem_of_getElem? hget, rfl⟩

theorem sameCosts_iff (cfg : CostConfig) (env : SwitchEnv) (cong : UInt32 → CongestionState)
    {left right : List UInt32} (hnodup : left.Nodup) (hperm : left.Perm right) :
    SameCosts cfg env cong left right ↔
      ∀ port ∈ left, costAfter cfg env cong port (left.idxOf port + 1) =
        costAfter cfg env cong port (right.idxOf port + 1) := by
  have hright := hperm.nodup_iff.mp hnodup
  constructor
  · intro h port hport
    have hmem := (h port _).mp ((mem_costLoop_iff cfg env cong hnodup _ port).mpr ⟨hport, rfl⟩)
    exact ((mem_costLoop_iff cfg env cong hright _ port).mp hmem).2
  · intro h port cost
    rw [mem_costLoop_iff cfg env cong hnodup, mem_costLoop_iff cfg env cong hright, hperm.mem_iff]
    constructor
    · rintro ⟨hport, rfl⟩
      exact ⟨hport, h port (hperm.mem_iff.mpr hport)⟩
    · rintro ⟨hport, rfl⟩
      exact ⟨hport, (h port (hperm.mem_iff.mpr hport)).symm⟩

/-! ### What repeated sampling changes -/

/-- A further sample at the same instant finds the queue unchanged: only the trend moves. -/
theorem samplePort_again (now : Int) (qlen : UInt32) (s : CongestionState) (trend : Int32) :
    samplePort now qlen { samplePort now qlen s with trend := trend } =
      { samplePort now qlen s with trend := decay trend } := by
  have hdelta : (qlen - qlen).toInt32 >>> trendShift = 0 := by
    rw [UInt32.sub_self]
    decide
  simp only [samplePort, updateTrend, decay, hdelta, Int32.add_zero]

theorem iterate_sampleAt (env : SwitchEnv) (port : UInt32) (hmonitored : Monitored env port)
    (s : CongestionState) (n : Nat) :
    (sampleAt env port)^[n + 1] s =
      { sampleAt env port s with trend := decay^[n] (sampleAt env port s).trend } := by
  obtain ⟨hrange, hdevice⟩ := hmonitored
  obtain ⟨qlen, hqlen⟩ := Option.ne_none_iff_exists'.mp hdevice
  have hsample : sampleAt env port = samplePort env.now qlen := by
    funext s
    rw [sampleAt, if_pos hrange, sampleDevice, hqlen]
  rw [hsample]
  induction n with
  | zero => rfl
  | succ n ih =>
      rw [Function.iterate_succ_apply', ih, samplePort_again, Function.iterate_succ_apply']

theorem iterate_sampleAt_of_not (env : SwitchEnv) (port : UInt32) (hmonitored : ¬ Monitored env port)
    (s : CongestionState) (n : Nat) : (sampleAt env port)^[n] s = s := by
  refine Function.iterate_fixed ?_ n
  simp only [sampleAt]
  split
  · rename_i hrange
    have hdevice : env.queueBytes port = none := by
      by_contra h
      exact hmonitored ⟨hrange, h⟩
    rw [sampleDevice, hdevice]
  · rfl

/-- Two positions give a port the same cost exactly when its trend, smoothed that many more times,
gives the cost formula the same value. -/
theorem costAfter_eq_iff (cfg : CostConfig) (env : SwitchEnv) (cong : UInt32 → CongestionState)
    (port : UInt32) (i j : Nat) :
    costAfter cfg env cong port (i + 1) = costAfter cfg env cong port (j + 1) ↔
      (Monitored env port →
        costWithTrend cfg env cong port (decay^[i] (firstTrend env cong port)) =
          costWithTrend cfg env cong port (decay^[j] (firstTrend env cong port))) := by
  by_cases hmonitored : Monitored env port
  · simp only [costAfter, costWithTrend, firstTrend, iterate_sampleAt env port hmonitored,
      hmonitored, forall_const]
  · simp only [costAfter, iterate_sampleAt_of_not env port hmonitored, hmonitored, false_imp_iff]

/-- Some order of the candidates puts a given one at a given position. -/
theorem exists_perm_idxOf {l : List UInt32} {port : UInt32} (hport : port ∈ l) (hnodup : l.Nodup)
    {k : Nat} (hk : k < l.length) : ∃ r, l.Perm r ∧ r.idxOf port = k := by
  have hlen := List.length_erase_of_mem hport
  have hnotin : port ∉ (l.erase port).take k := fun h =>
    hnodup.not_mem_erase (List.mem_of_mem_take h)
  refine ⟨(l.erase port).take k ++ port :: (l.erase port).drop k, ?_, ?_⟩
  · have hmiddle : ((l.erase port).take k ++ port :: (l.erase port).drop k).Perm
        (port :: ((l.erase port).take k ++ (l.erase port).drop k)) := List.perm_middle
    rw [List.take_append_drop] at hmiddle
    exact (List.perm_cons_erase hport).trans hmiddle.symm
  · rw [List.idxOf_append_of_notMem hnotin, List.idxOf_cons_self, List.length_take]
    omega

/-- The candidate order does not matter to the congestion state. It does not matter to the costs of
two given orders exactly when no candidate's cost is changed by smoothing its trend once for every
candidate before it, and to no order exactly when no number of smoothings up to the number of other
candidates changes any cost. -/
theorem costLoop_order_iff (cfg : CostConfig) (env : SwitchEnv) (cong : UInt32 → CongestionState)
    {left : List UInt32} (hnodup : left.Nodup) :
    (∀ right, left.Perm right →
      ((SameCosts cfg env cong left right ∧
          (costLoop cfg env cong left).1 = (costLoop cfg env cong right).1) ↔
        ∀ port ∈ left, Monitored env port →
          costWithTrend cfg env cong port (decay^[left.idxOf port] (firstTrend env cong port)) =
            costWithTrend cfg env cong port (decay^[right.idxOf port] (firstTrend env cong port)))) ∧
    ((∀ right, left.Perm right → SameCosts cfg env cong left right ∧
        (costLoop cfg env cong left).1 = (costLoop cfg env cong right).1) ↔
      ∀ port ∈ left, Monitored env port → ∀ k < left.length,
        costWithTrend cfg env cong port (decay^[k] (firstTrend env cong port)) =
          costWithTrend cfg env cong port (firstTrend env cong port)) := by
  have hpair : ∀ right, left.Perm right →
      ((SameCosts cfg env cong left right ∧
          (costLoop cfg env cong left).1 = (costLoop cfg env cong right).1) ↔
        ∀ port ∈ left, Monitored env port →
          costWithTrend cfg env cong port (decay^[left.idxOf port] (firstTrend env cong port)) =
            costWithTrend cfg env cong port (decay^[right.idxOf port] (firstTrend env cong port))) := by
    intro right hperm
    rw [and_iff_left (costLoop_state_perm cfg env cong hperm), sameCosts_iff cfg env cong hnodup hperm]
    simp only [costAfter_eq_iff]
  refine ⟨hpair, fun h port hport hmonitored k hk => ?_, fun h right hperm => ?_⟩
  · obtain ⟨first, hfirst, hzero⟩ := exists_perm_idxOf hport hnodup (Nat.zero_lt_of_lt hk)
    obtain ⟨other, hother, hidx⟩ := exists_perm_idxOf hport hnodup hk
    have h0 := (hpair first hfirst).mp (h first hfirst) port hport hmonitored
    have hk' := (hpair other hother).mp (h other hother) port hport hmonitored
    rw [hzero] at h0
    rw [hidx] at hk'
    exact hk'.symm.trans h0
  · apply (hpair right hperm).mpr
    intro port hport hmonitored
    have hleft := List.idxOf_lt_length_of_mem hport
    have hright := List.idxOf_lt_length_of_mem (hperm.mem_iff.mp hport)
    rw [← hperm.length_eq] at hright
    exact (h port hport hmonitored _ hleft).trans (h port hport hmonitored _ hright).symm

/-- Default weights, and 100 Gb/s with no delay behind every port. -/
def plainConfig : CostConfig where
  weights := {}
  linkDelay := fun _ => 0
  linkBw := fun _ => 100000000000

/-- A switch with two ports; `bytes` are queued at the first one. -/
def twoPortEnv (bytes : UInt32) : SwitchEnv where
  now := 1000000
  nDevices := 3
  queueBytes := fun port => some (if port = 1 then bytes else 0)
  isLinkUp := fun _ => true
  uninit := 0

/-- With empty queues the two ports have the same costs in both orders. -/
theorem costLoop_order_idle :
    SameCosts plainConfig (twoPortEnv 0) (fun _ => .initial) [1, 2] [2, 1] ∧
      (costLoop plainConfig (twoPortEnv 0) (fun _ => .initial) [1, 2]).1 =
        (costLoop plainConfig (twoPortEnv 0) (fun _ => .initial) [2, 1]).1 := by
  refine ((costLoop_order_iff plainConfig (twoPortEnv 0) (fun _ => .initial) (by decide)).1 [2, 1]
    (by decide)).mpr ?_
  intro port hport _
  rcases List.mem_pair.mp hport with rfl | rfl
  · decide
  · decide

/-- A fresh switch whose first port holds 105 MB: that port costs 47 when it is first in the list and
46 when it is second. -/
theorem not_sameCosts_queue :
    (costLoop plainConfig (twoPortEnv 105000000) (fun _ => .initial) [1, 2]).2 = [(47, 1), (38, 2)] ∧
    (costLoop plainConfig (twoPortEnv 105000000) (fun _ => .initial) [2, 1]).2 = [(38, 2), (46, 1)] ∧
    ¬ SameCosts plainConfig (twoPortEnv 105000000) (fun _ => .initial) [1, 2] [2, 1] := by
  have hleft : (costLoop plainConfig (twoPortEnv 105000000) (fun _ => .initial) [1, 2]).2 =
      [(47, 1), (38, 2)] := by decide +kernel
  have hright : (costLoop plainConfig (twoPortEnv 105000000) (fun _ => .initial) [2, 1]).2 =
      [(38, 2), (46, 1)] := by decide +kernel
  refine ⟨hleft, hright, fun h => ?_⟩
  have hcost := (h 1 47).mp (by rw [hleft]; decide)
  rw [hright] at hcost
  exact absurd hcost (by decide)

end Lcmp
