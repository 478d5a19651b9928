import Mathlib.Algebra.Ring.Int.Defs
import Mathlib.Data.List.Sort
import Lcmp.Routing.Header

/-!
# Path costs

The cost functions of `dci-switch-node.cc` and the loop of `GetOutDev` that computes the cost of every
candidate port. The two maps that the source reads with `operator[]` have a value for every port here;
a port that was never written has the default value the source would insert.
-/

namespace Lcmp

def kClassNum : Nat := 10

/-- The score of a class, `levelScore[i]`. -/
def levelScore (i : Nat) : UInt8 := UInt8.ofNat (255 * (i + 1) / kClassNum)

/-- The loops of the source that go through the classes from the top and stop at the first one that is
reached. -/
def highestClass (reached : Nat → Bool) : Nat → Option Nat
  | 0 => none
  | i + 1 => if reached i then some i else highestClass reached i

/-! ### Static costs -/

def maxBw : UInt64 := 400

def maxDelayShift : UInt32 := 5

def bwThresh (i : Nat) : UInt64 := maxBw * (UInt64.ofNat i + 1) / UInt64.ofNat kClassNum

def calcDelayCost (oneWayDelayMs : UInt16) : UInt8 :=
  if oneWayDelayMs.toUInt32 > 1 <<< maxDelayShift then 255
  else ((oneWayDelayMs.toUInt32 * 255) >>> maxDelayShift).toUInt8

def calcBwCost (bwBps : UInt64) : UInt8 :=
  match highestClass (fun i => bwBps / 1000000000 ≥ bwThresh i) kClassNum with
  | some i => 255 - levelScore i
  | none => 255

/-! ### Congestion state -/

structure CongestionState where
  queueBytesCur : UInt32
  queueBytesPrev : UInt32
  trend : Int32
  durCounter : UInt32
  lastTrendSampleTime : Int
  deriving DecidableEq

def CongestionState.initial : CongestionState where
  queueBytesCur := 0
  queueBytesPrev := 0
  trend := 0
  durCounter := 0
  lastTrendSampleTime := 0

def bufferCapacity : Nat := 5 * 1000 * 1000 * 1000

/-- `qThresh[i]`: the division is on 64 bits, the table holds 32. -/
def qThresh (i : Nat) : UInt32 := UInt32.ofNat (bufferCapacity * i / kClassNum)

def calcQLevel (s : CongestionState) : UInt8 :=
  if s.queueBytesCur ≤ 0 then 0
  else match highestClass (fun i => s.queueBytesCur ≥ qThresh i) kClassNum with
    | some i => levelScore i
    | none => 0

/-- The smoothing shift `m_K`. -/
def trendShift : Int32 := 3

def updateTrend (s : CongestionState) : CongestionState :=
  let delta := (s.queueBytesCur - s.queueBytesPrev).toInt32
  { s with
    trend := s.trend - (s.trend >>> trendShift) + (delta >>> trendShift)
    queueBytesPrev := s.queueBytesCur }

/-- The table `trendThreshNorm` of a rate. The source stores it when it is first asked for. -/
def trendThresh (rateGbps : UInt32) (i : Nat) : UInt32 :=
  (rateGbps.toUInt64 * 1000000000 / 8 / 1000 * (UInt64.ofNat i + 1) / UInt64.ofNat kClassNum).toUInt32

/-- The conversion of a `double` to `int32_t`. Outside the range it gives the lowest value. -/
def doubleToInt32 (x : Int) : Int32 :=
  if -2 ^ 31 ≤ x ∧ x < 2 ^ 31 then Int32.ofInt x else Int32.minValue

def calcTrendLevel (now : Int) (s : CongestionState) (linkRateBps : UInt64) : UInt8 :=
  let intervalMs := max 1 ((now - s.lastTrendSampleTime).tdiv 1000000)
  let rateGbps := (linkRateBps / 1000000000).toUInt32
  if s.trend ≤ 0 then 0
  else match highestClass
      (fun i => s.trend ≥ doubleToInt32 ((trendThresh rateGbps i).toNat * intervalMs)) kClassNum with
    | some i => levelScore i
    | none => 0

/-- Values read off the simulator when a packet arrives: the time in nanoseconds, the number of
devices, the bytes in the queue of each port that has a `QbbNetDevice`, and whether the link of a port
is up. `uninit` is an uninitialised word on the stack. -/
structure SwitchEnv where
  now : Int
  nDevices : UInt32
  queueBytes : UInt32 → Option UInt32
  isLinkUp : UInt32 → Bool
  uninit : UInt32

/-- The sample of one port. -/
def samplePort (now : Int) (qlen : UInt32) (s : CongestionState) : CongestionState :=
  updateTrend { s with queueBytesCur := qlen, lastTrendSampleTime := now }

/-- A port whose device is no `QbbNetDevice` is skipped. -/
def monitorPort (env : SwitchEnv) (cong : UInt32 → CongestionState) (port : UInt32) :
    UInt32 → CongestionState :=
  match env.queueBytes port with
  | none => cong
  | some qlen => Function.update cong port (samplePort env.now qlen (cong port))

/-- The loop over the ports `1, 2, …` of the switch. -/
def monitorCongestionState (env : SwitchEnv) (cong : UInt32 → CongestionState) :
    UInt32 → CongestionState :=
  ((List.range (env.nDevices.toNat - 1)).map fun i => UInt32.ofNat (i + 1)).foldl (monitorPort env) cong

def calcDurationPenalty (s : CongestionState) : UInt8 := (min (s.durCounter >>> 2) 255).toUInt8

/-- The bounds `255 * 0.8` and `255 * 0.4` of the source are the numbers 204 and 102. -/
def updateDurationPenalty (s : CongestionState) (qLevel : UInt8) : CongestionState :=
  if qLevel ≥ 204 then { s with durCounter := s.durCounter + 1 }
  else if qLevel ≤ 102 then
    { s with durCounter := if s.durCounter > 0 then s.durCounter - 1 else 0 }
  else s

/-! ### The cost of a path -/

/-- The attributes of the cost formula, with their default values. -/
structure CostWeights where
  wDl : UInt32 := 3
  wBw : UInt32 := 1
  sStatic : UInt32 := 2
  wQl : UInt32 := 2
  wTl : UInt32 := 1
  wDp : UInt32 := 1
  sCong : UInt32 := 3
  alpha : UInt32 := 3
  beta : UInt32 := 1
  sTotal : UInt32 := 2

/-- `std::min(score >> shift, 255u)`. -/
def normalise (score shift : UInt32) : UInt32 := min (score >>> shift) 255

/-- What is fixed for a switch: the seed and weights, and delay (ns) and bandwidth (bps) of the link
behind each port. -/
structure CostConfig where
  weights : CostWeights
  linkDelay : UInt32 → UInt64
  linkBw : UInt32 → UInt64

def staticCost (cfg : CostConfig) (intf : UInt32) : UInt32 :=
  let delayMs := (cfg.linkDelay intf / 1000000).toUInt16
  normalise (cfg.weights.wDl * (calcDelayCost delayMs).toUInt32 +
    cfg.weights.wBw * (calcBwCost (cfg.linkBw intf)).toUInt32) cfg.weights.sStatic

/-- The congestion cost of a port whose duration counter has been updated. -/
def congCost (cfg : CostConfig) (now : Int) (intf : UInt32) (s : CongestionState) : UInt32 :=
  normalise (cfg.weights.wQl * (calcQLevel s).toUInt32 +
    cfg.weights.wTl * (calcTrendLevel now s (cfg.linkBw intf)).toUInt32 +
    cfg.weights.wDp * (calcDurationPenalty s).toUInt32) cfg.weights.sCong

def totalCost (cfg : CostConfig) (now : Int) (intf : UInt32) (s : CongestionState) : UInt32 :=
  normalise (cfg.weights.alpha * staticCost cfg intf + cfg.weights.beta * congCost cfg now intf s)
    cfg.weights.sTotal

/-- The duration counter as the loop updates it: by the level the port has at that moment. -/
def stepDuration (s : CongestionState) : CongestionState := updateDurationPenalty s (calcQLevel s)

/-- The body of the loop over the next hops. It samples every port of the switch again. -/
def evalCandidate (cfg : CostConfig) (env : SwitchEnv) (cong : UInt32 → CongestionState)
    (intf : UInt32) : (UInt32 → CongestionState) × UInt32 :=
  let cong := monitorCongestionState env cong
  let cong := Function.update cong intf (stepDuration (cong intf))
  (cong, totalCost cfg env.now intf (cong intf))

/-- The loop over the next hops, with `cost_path_pairs` in the order the source appends to it. -/
def costLoop (cfg : CostConfig) (env : SwitchEnv) (cong : UInt32 → CongestionState) :
    List UInt32 → (UInt32 → CongestionState) × List (UInt32 × UInt32)
  | [] => (cong, [])
  | intf :: nexthops =>
      let (cong', cost) := evalCandidate cfg env cong intf
      let (cong'', pairs) := costLoop cfg env cong' nexthops
      (cong'', (cost, intf) :: pairs)

/-! ### Choosing a port -/

/-- The order of `std::pair`: by cost, then by port. -/
def PairLe (x y : UInt32 × UInt32) : Prop := x.1 < y.1 ∨ (x.1 = y.1 ∧ x.2 ≤ y.2)

instance : DecidableRel PairLe := fun _ _ => inferInstanceAs (Decidable (_ ∨ _))

def costThreshold : UInt32 := 204

/-- How many of the `n` cheapest candidates are considered. -/
def keptCandidates (n : Nat) : Nat := if n / 2 < 2 then n else n / 2

def availablePaths (sorted : List (UInt32 × UInt32)) : List UInt32 :=
  ((sorted.take (keptCandidates sorted.length)).filter fun x => x.1 < costThreshold).map Prod.snd

/-- The choice among the candidates by hash: among the cheap ones if there are any. -/
def selectPath (pairs : List (UInt32 × UInt32)) (h : pairs ≠ []) (hash : UInt32) : UInt32 :=
  let sorted := pairs.insertionSort PairLe
  if havail : availablePaths sorted ≠ [] then pick (availablePaths sorted) havail hash
  else (pick sorted (fun hnil => h (List.perm_nil.mp (hnil ▸ (pairs.perm_insertionSort PairLe).symm))) hash).2

theorem costLoop_ports (cfg : CostConfig) (env : SwitchEnv) (cong : UInt32 → CongestionState)
    (nexthops : List UInt32) : (costLoop cfg env cong nexthops).2.map Prod.snd = nexthops := by
  induction nexthops generalizing cong with
  | nil => rfl
  | cons intf nexthops ih =>
      rw [costLoop]
      exact congrArg (intf :: ·) (ih _)

theorem costLoop_ne_nil (cfg : CostConfig) (env : SwitchEnv) (cong : UInt32 → CongestionState)
    {nexthops : List UInt32} (h : nexthops ≠ []) : (costLoop cfg env cong nexthops).2 ≠ [] := by
  intro hnil
  have hports := costLoop_ports cfg env cong nexthops
  rw [hnil] at hports
  exact h hports.symm

/-- The chosen port is one of the candidates. -/
theorem selectPath_mem {pairs : List (UInt32 × UInt32)} (h : pairs ≠ []) (hash : UInt32) :
    selectPath pairs h hash ∈ pairs.map Prod.snd := by
  have hperm := pairs.perm_insertionSort PairLe
  unfold selectPath
  dsimp only
  split
  · rename_i havail
    obtain ⟨x, hx, hport⟩ := List.mem_map.mp (pick_mem havail hash)
    have hsorted := List.mem_of_mem_take (List.mem_of_mem_filter hx)
    exact List.mem_map.mpr ⟨x, hperm.mem_iff.mp hsorted, hport⟩
  · exact List.mem_map.mpr ⟨_, hperm.mem_iff.mp (pick_mem _ hash), rfl⟩

end Lcmp
