import Lcmp.Lib.WrappedQuotient
import Lcmp.Routing.Header
import Mathlib.Data.List.ProdSigma
import Mathlib.Algebra.Order.Ring.Nat

/-!
# Reference values of the driver

`third.cc` derives from the delay and bandwidth of each pair of hosts its round-trip time and
bandwidth-delay product, hands a window to every queue pair and writes the completion time a flow
would have alone. Every formula multiplies two 64-bit quantities before it divides. The results are
those of the integers exactly when the products fit.
-/

namespace Lcmp

/-- What the routes leave behind: the type of each node, and delay and bandwidth of each pair, by node
ids. Delays are in nanoseconds, bandwidths in bits per second. -/
structure PairTables where
  nodeNum : Nat
  nodeType : Nat → Nat
  pairDelay : Nat → Nat → UInt64
  pairTxDelay : Nat → Nat → UInt64
  pairBw : Nat → Nat → UInt64

structure References where
  pairBdp : Nat → Nat → UInt64
  pairRtt : Nat → Nat → UInt64
  maxRtt : UInt64
  maxBdp : UInt64

namespace PairTables

variable (t : PairTables)

def hosts : List Nat := (List.range t.nodeNum).filter fun i => t.nodeType i = 0

def rtt (i j : Nat) : UInt64 := t.pairDelay i j * 2 + t.pairTxDelay i j

def bdp (i j : Nat) : UInt64 := t.rtt i j * t.pairBw i j / 1000000000 / 8

/-- The body of the inner loop. -/
def addPair (r : References) (i j : Nat) : References where
  pairBdp := Function.update r.pairBdp i (Function.update (r.pairBdp i) j (t.bdp i j))
  pairRtt := Function.update r.pairRtt i (Function.update (r.pairRtt i) j (t.rtt i j))
  maxRtt := if t.rtt i j > r.maxRtt then t.rtt i j else r.maxRtt
  maxBdp := if t.bdp i j > r.maxBdp then t.bdp i j else r.maxBdp

/-- The two loops over the hosts. -/
def references : References :=
  t.hosts.foldl (fun r i => t.hosts.foldl (fun r j => t.addPair r i j) r)
    { pairBdp := fun _ _ => 0, pairRtt := fun _ _ => 0, maxRtt := 0, maxBdp := 0 }

end PairTables

/-- The settings `HAS_WIN`, `GLOBAL_T` and `PACKET_PAYLOAD_SIZE`. -/
structure FlowConfig where
  hasWin : UInt32
  globalT : UInt32
  packetPayloadSize : UInt32

/-- The argument `ScheduleFlowInputs` passes on for the window of a flow. -/
def scheduledWin (cfg : FlowConfig) (r : References) (src dst : Nat) : UInt64 :=
  if cfg.hasWin ≠ 0 then if cfg.globalT = 1 then r.maxBdp else r.pairBdp src dst else 0

/-- The window `RdmaClientHelper` receives and hands to `AddQueuePair`: its parameter has 32 bits. -/
def clientWin (cfg : FlowConfig) (r : References) (src dst : Nat) : UInt32 :=
  (scheduledWin cfg r src dst).toUInt32

def ipToNodeId (ip : UInt32) : UInt32 := (ip >>> 8) &&& 0xffff

/-- `GetStaticWholeHeaderSize`, where the INT header takes `intSize` bytes. -/
def getStaticWholeHeaderSize (intSize : UInt32) : UInt32 := 14 + 20 + (8 + 2 + 4 + intSize)

/-- A queue pair that has finished, as far as `qp_finish` reads it. -/
structure FinishedQp where
  sip : UInt32
  dip : UInt32
  mSize : UInt64

def totalBytes (cfg : FlowConfig) (intSize : UInt32) (size : UInt64) : UInt64 :=
  size + ((size - 1) / cfg.packetPayloadSize.toUInt64 + 1) *
    (getStaticWholeHeaderSize intSize - intSize).toUInt64

/-- The last number `qp_finish` writes. -/
def standaloneFct (cfg : FlowConfig) (intSize : UInt32) (t : PairTables) (r : References)
    (q : FinishedQp) : UInt64 :=
  let sid := (ipToNodeId q.sip).toNat
  let did := (ipToNodeId q.dip).toNat
  r.pairRtt sid did + totalBytes cfg intSize q.mSize * 8000000000 / t.pairBw sid did

/-! ### The integers the words stand for -/

namespace PairTables

variable (t : PairTables)

def exactRtt (i j : Nat) : Nat := 2 * (t.pairDelay i j).toNat + (t.pairTxDelay i j).toNat

def exactBdp (i j : Nat) : Nat := t.exactRtt i j * (t.pairBw i j).toNat / (8 * 10 ^ 9)

def BdpFits (i j : Nat) : Prop := t.exactRtt i j * (t.pairBw i j).toNat < 2 ^ 64

end PairTables

/-- The payload and one header of 48 bytes for each packet that was started. -/
def exactTotalBytes (cfg : FlowConfig) (size : UInt64) : Nat :=
  size.toNat + (size.toNat + cfg.packetPayloadSize.toNat - 1) / cfg.packetPayloadSize.toNat * 48

def exactFct (cfg : FlowConfig) (t : PairTables) (r : References) (q : FinishedQp) : Nat :=
  let sid := (ipToNodeId q.sip).toNat
  let did := (ipToNodeId q.dip).toNat
  (r.pairRtt sid did).toNat + exactTotalBytes cfg q.mSize * (8 * 10 ^ 9) / (t.pairBw sid did).toNat

def FctFits (cfg : FlowConfig) (t : PairTables) (r : References) (q : FinishedQp) : Prop :=
  exactTotalBytes cfg q.mSize * (8 * 10 ^ 9) < 2 ^ 64 ∧ exactFct cfg t r q < 2 ^ 64

/-- The values the driver computes before the first flow starts are those of the integers. -/
structure ReferencesExact (cfg : FlowConfig) (t : PairTables) (r : References) : Prop where
  pairBdp : ∀ i ∈ t.hosts, ∀ j ∈ t.hosts, (r.pairBdp i j).toNat = t.exactBdp i j
  le_maxBdp : ∀ i ∈ t.hosts, ∀ j ∈ t.hosts, t.exactBdp i j ≤ r.maxBdp.toNat
  maxBdp_attained : t.hosts ≠ [] → ∃ i ∈ t.hosts, ∃ j ∈ t.hosts, r.maxBdp.toNat = t.exactBdp i j
  window : cfg.hasWin ≠ 0 → ∀ src ∈ t.hosts, ∀ dst ∈ t.hosts,
    (clientWin cfg r src dst).toNat = if cfg.globalT = 1 then r.maxBdp.toNat else t.exactBdp src dst

namespace PairTables

variable (t : PairTables)

/-! ### The loops over the hosts -/

theorem references_eq : t.references = (t.hosts ×ˢ t.hosts).foldl (fun r p => t.addPair r p.1 p.2)
    { pairBdp := fun _ _ => 0, pairRtt := fun _ _ => 0, maxRtt := 0, maxBdp := 0 } := by
  have hpairs : t.hosts ×ˢ t.hosts = t.hosts.flatMap fun i => t.hosts.map fun j => (i, j) := rfl
  rw [hpairs, List.foldl_flatMap]
  simp only [List.foldl_map]
  rfl

/-- The loops write each pair once, whatever comes first. -/
theorem foldl_addPair (pairs : List (Nat × Nat)) (r : References) (i j : Nat) :
    (pairs.foldl (fun r p => t.addPair r p.1 p.2) r).pairBdp i j =
        (if (i, j) ∈ pairs then t.bdp i j else r.pairBdp i j) ∧
      (pairs.foldl (fun r p => t.addPair r p.1 p.2) r).pairRtt i j =
        (if (i, j) ∈ pairs then t.rtt i j else r.pairRtt i j) := by
  induction pairs generalizing r with
  | nil => exact ⟨rfl, rfl⟩
  | cons p pairs ih =>
      rw [List.foldl_cons, (ih _).1, (ih _).2]
      by_cases hp : (i, j) = p
      · subst hp
        simp [addPair]
      · have hsame : (t.addPair r p.1 p.2).pairBdp i j = r.pairBdp i j ∧
            (t.addPair r p.1 p.2).pairRtt i j = r.pairRtt i j := by
          by_cases hi : i = p.1
          · subst hi
            have hj : j ≠ p.2 := fun h => hp (by rw [h])
            simp [addPair, hj]
          · simp [addPair, hi]
        simp only [List.mem_cons, hp, false_or, hsame.1, hsame.2, and_self]

theorem addPair_maxBdp (r : References) (i j : Nat) :
    (t.addPair r i j).maxBdp.toNat = max r.maxBdp.toNat (t.bdp i j).toNat := by
  unfold addPair
  dsimp only
  split
  · rename_i hgt
    rw [gt_iff_lt, UInt64.lt_iff_toNat_lt] at hgt
    omega
  · rename_i hle
    rw [gt_iff_lt, UInt64.lt_iff_toNat_lt] at hle
    omega

theorem foldl_addPair_maxBdp (pairs : List (Nat × Nat)) (r : References) :
    (pairs.foldl (fun r p => t.addPair r p.1 p.2) r).maxBdp.toNat =
      pairs.foldl (fun m p => max m (t.bdp p.1 p.2).toNat) r.maxBdp.toNat := by
  induction pairs generalizing r with
  | nil => rfl
  | cons p pairs ih => rw [List.foldl_cons, List.foldl_cons, ih, addPair_maxBdp]

/-- The maximum a loop computes bounds what it visits and is the start or one of the values. -/
theorem foldl_max_spec (f : Nat × Nat → Nat) (pairs : List (Nat × Nat)) (m : Nat) :
    (m ≤ pairs.foldl (fun m p => max m (f p)) m ∧ ∀ p ∈ pairs, f p ≤ pairs.foldl (fun m p => max m (f p)) m) ∧
    (pairs.foldl (fun m p => max m (f p)) m = m ∨ ∃ p ∈ pairs, pairs.foldl (fun m p => max m (f p)) m = f p) := by
  induction pairs generalizing m with
  | nil => simp
  | cons p pairs ih =>
      obtain ⟨⟨hstart, hall⟩, hattained⟩ := ih (max m (f p))
      simp only [List.foldl_cons, List.forall_mem_cons]
      refine ⟨⟨by omega, by omega, hall⟩, ?_⟩
      rcases hattained with hmax | ⟨p', hp', hval⟩
      · rcases le_total m (f p) with hle | hle
        · exact .inr ⟨p, List.mem_cons_self, by rw [hmax, max_eq_right hle]⟩
        · exact .inl (by rw [hmax, max_eq_left hle])
      · exact .inr ⟨p', List.mem_cons_of_mem _ hp', hval⟩

variable {t}

theorem references_pairBdp {i j : Nat} (hi : i ∈ t.hosts) (hj : j ∈ t.hosts) :
    t.references.pairBdp i j = t.bdp i j := by
  rw [references_eq, (t.foldl_addPair _ _ i j).1, if_pos (List.mem_product.mpr ⟨hi, hj⟩)]

theorem references_pairRtt {i j : Nat} (hi : i ∈ t.hosts) (hj : j ∈ t.hosts) :
    t.references.pairRtt i j = t.rtt i j := by
  rw [references_eq, (t.foldl_addPair _ _ i j).2, if_pos (List.mem_product.mpr ⟨hi, hj⟩)]

theorem bdp_le_maxBdp {i j : Nat} (hi : i ∈ t.hosts) (hj : j ∈ t.hosts) :
    (t.bdp i j).toNat ≤ t.references.maxBdp.toNat := by
  rw [references_eq, foldl_addPair_maxBdp]
  exact (foldl_max_spec (fun p => (t.bdp p.1 p.2).toNat) _ _).1.2 (i, j) (List.mem_product.mpr ⟨hi, hj⟩)

theorem maxBdp_attained (hne : t.hosts ≠ []) :
    ∃ i ∈ t.hosts, ∃ j ∈ t.hosts, t.references.maxBdp.toNat = (t.bdp i j).toNat := by
  obtain ⟨i, hi⟩ := List.exists_mem_of_ne_nil _ hne
  have hle := bdp_le_maxBdp hi hi
  have hspec := (foldl_max_spec (fun p => (t.bdp p.1 p.2).toNat) (t.hosts ×ˢ t.hosts) 0).2
  have hmax : t.references.maxBdp.toNat =
      (t.hosts ×ˢ t.hosts).foldl (fun m p => max m (t.bdp p.1 p.2).toNat) 0 := by
    rw [references_eq, foldl_addPair_maxBdp]
    rfl
  rw [← hmax] at hspec
  rcases hspec with hzero | ⟨p, hp, hval⟩
  · exact ⟨i, hi, i, hi, by omega⟩
  · exact ⟨p.1, (List.mem_product.mp hp).1, p.2, (List.mem_product.mp hp).2, hval⟩

/-! ### The products -/

theorem rtt_toNat (t : PairTables) (i j : Nat) : (t.rtt i j).toNat = t.exactRtt i j % 2 ^ 64 := by
  rw [rtt, UInt64.toNat_add, UInt64.toNat_mul, Nat.mod_add_mod, Nat.mul_comm]
  rfl

theorem bdp_toNat (t : PairTables) (i j : Nat) :
    (t.bdp i j).toNat = t.exactRtt i j * (t.pairBw i j).toNat % 2 ^ 64 / (8 * 10 ^ 9) := by
  rw [bdp, UInt64.toNat_div, UInt64.toNat_div, UInt64.toNat_mul, rtt_toNat, Nat.mod_mul_mod,
    Nat.div_div_eq_div_mul]
  rfl

theorem bdp_exact_iff (t : PairTables) (i j : Nat) : (t.bdp i j).toNat = t.exactBdp i j ↔ t.BdpFits i j := by
  rw [bdp_toNat]
  exact WrappedQuotient.wrapped_div_eq_iff (by decide) (by decide)

/-- What fits in 64 bits before the division fits in 32 bits after it. -/
theorem BdpFits.lt {i j : Nat} (h : t.BdpFits i j) : t.exactBdp i j < 2 ^ 32 := by
  simp only [BdpFits] at h
  unfold exactBdp
  omega

end PairTables

open PairTables

theorem references_exact_iff (cfg : FlowConfig) (t : PairTables) :
    ReferencesExact cfg t t.references ↔ ∀ i ∈ t.hosts, ∀ j ∈ t.hosts, t.BdpFits i j := by
  constructor
  · intro h i hi j hj
    rw [← bdp_exact_iff, ← references_pairBdp hi hj]
    exact h.pairBdp i hi j hj
  · intro hfits
    have hexact : ∀ i ∈ t.hosts, ∀ j ∈ t.hosts, (t.bdp i j).toNat = t.exactBdp i j :=
      fun i hi j hj => (bdp_exact_iff t i j).mpr (hfits i hi j hj)
    have hattained : t.hosts ≠ [] →
        ∃ i ∈ t.hosts, ∃ j ∈ t.hosts, t.references.maxBdp.toNat = t.exactBdp i j := by
      intro hne
      obtain ⟨i, hi, j, hj, hmax⟩ := maxBdp_attained hne
      exact ⟨i, hi, j, hj, hmax.trans (hexact i hi j hj)⟩
    refine ⟨?_, ?_, hattained, ?_⟩
    · intro i hi j hj
      rw [references_pairBdp hi hj]
      exact hexact i hi j hj
    · intro i hi j hj
      rw [← hexact i hi j hj]
      exact bdp_le_maxBdp hi hj
    · intro hwin src hsrc dst hdst
      obtain ⟨i, hi, j, hj, hmax⟩ := hattained (List.ne_nil_of_mem hsrc)
      have hmaxlt := (hfits i hi j hj).lt
      have hpairlt := (hfits src hsrc dst hdst).lt
      rw [clientWin, scheduledWin, if_pos hwin, UInt64.toNat_toUInt32]
      split
      · omega
      · rw [references_pairBdp hsrc hdst, hexact src hsrc dst hdst]
        omega

/-! ### The completion time -/

theorem headerBytes (intSize : UInt32) : getStaticWholeHeaderSize intSize - intSize = 48 := by
  have hhead : getStaticWholeHeaderSize intSize = 48 + intSize := by
    rw [getStaticWholeHeaderSize, ← UInt32.add_assoc]
    rfl
  rw [hhead, UInt32.add_sub_cancel]

theorem totalBytes_toNat (cfg : FlowConfig) (intSize : UInt32) {size : UInt64} (hsize : 1 ≤ size)
    (hpayload : 0 < cfg.packetPayloadSize) :
    (totalBytes cfg intSize size).toNat = exactTotalBytes cfg size % 2 ^ 64 := by
  have hpos : 0 < cfg.packetPayloadSize.toNat := UInt32.lt_iff_toNat_lt.mp hpayload
  have hone : 1 ≤ size.toNat := UInt64.le_iff_toNat_le.mp hsize
  have hsub : (size - 1).toNat = size.toNat - 1 := UInt64.toNat_sub_of_le _ _ hsize
  have hceil : (size.toNat + cfg.packetPayloadSize.toNat - 1) / cfg.packetPayloadSize.toNat =
      (size.toNat - 1) / cfg.packetPayloadSize.toNat + 1 := by
    rw [← Nat.add_div_right _ hpos]
    congr 1
    omega
  have hheader : (48 : UInt32).toUInt64.toNat = 48 := rfl
  have hunit : (1 : UInt64).toNat = 1 := rfl
  rw [totalBytes, headerBytes, exactTotalBytes, hceil, UInt64.toNat_add, UInt64.toNat_mul, UInt64.toNat_add,
    UInt64.toNat_div, hsub, UInt32.toNat_toUInt64, hheader, hunit, Nat.mod_mul_mod, Nat.add_mod_mod]

theorem standaloneFct_exact_iff (cfg : FlowConfig) (intSize : UInt32) (t : PairTables) (r : References)
    (q : FinishedQp) (hsize : 1 ≤ q.mSize) (hpayload : 0 < cfg.packetPayloadSize)
    (hbw : 0 < t.pairBw (ipToNodeId q.sip).toNat (ipToNodeId q.dip).toNat) :
    (standaloneFct cfg intSize t r q).toNat = exactFct cfg t r q ↔ FctFits cfg t r q := by
  have hpos := UInt64.lt_iff_toNat_lt.mp hbw
  have hlt := (t.pairBw (ipToNodeId q.sip).toNat (ipToNodeId q.dip).toNat).toNat_lt
  have hword : (standaloneFct cfg intSize t r q).toNat =
      ((r.pairRtt (ipToNodeId q.sip).toNat (ipToNodeId q.dip).toNat).toNat +
        exactTotalBytes cfg q.mSize * (8 * 10 ^ 9) % 2 ^ 64 /
          (t.pairBw (ipToNodeId q.sip).toNat (ipToNodeId q.dip).toNat).toNat) % 2 ^ 64 := by
    rw [standaloneFct, UInt64.toNat_add, UInt64.toNat_div, UInt64.toNat_mul,
      totalBytes_toNat cfg intSize hsize hpayload, Nat.mod_mul_mod]
    rfl
  have hbound := (standaloneFct cfg intSize t r q).toNat_lt
  constructor
  · intro h
    rw [h] at hbound
    refine ⟨?_, hbound⟩
    rw [h] at hword
    by_contra hwrap
    have hless := WrappedQuotient.wrapped_div_lt hpos (Nat.le_of_lt hlt) (Nat.le_of_not_lt hwrap)
    unfold exactFct at hbound hword
    dsimp only at hbound hword
    rw [Nat.mod_eq_of_lt (by omega)] at hword
    omega
  · rintro ⟨hproduct, hsum⟩
    rw [hword, Nat.mod_eq_of_lt hproduct]
    exact Nat.mod_eq_of_lt hsum

/-- The addresses of the driver determine the node as long as ids have 16 bits. -/
theorem ipToNodeId_nodeIdToIp {id : UInt32} (h : id.toNat < 65536) : ipToNodeId (nodeIdToIp id) = id := by
  have hip : (nodeIdToIp id).toNat = 184549377 + 256 * id.toNat := by
    simp only [nodeIdToIp, UInt32.toNat_add, UInt32.toNat_mul, UInt32.toNat_div, UInt32.toNat_mod,
      UInt32.reduceToNat]
    omega
  apply UInt32.toNat_inj.mp
  have hmask : (0xffff : UInt32).toNat = 2 ^ 16 - 1 := rfl
  have hshift : (8 : UInt32).toNat % 32 = 8 := rfl
  have hmod : (ipToNodeId (nodeIdToIp id)).toNat = (184549377 + 256 * id.toNat) / 256 % 65536 := by
    rw [ipToNodeId, UInt32.toNat_and, UInt32.toNat_shiftRight, hip, hmask, hshift,
      Nat.and_two_pow_sub_one_eq_mod, Nat.shiftRight_eq_div_pow]
  rw [hmod]
  omega

/-- The driver's reference values are exact when the products they start from fit in 64 bits, and only
then: one product for each pair of hosts, and one for each flow. -/
theorem driver_exact_iff (cfg : FlowConfig) (intSize : UInt32) (t : PairTables) (q : FinishedQp)
    (hsize : 1 ≤ q.mSize) (hpayload : 0 < cfg.packetPayloadSize)
    (hbw : 0 < t.pairBw (ipToNodeId q.sip).toNat (ipToNodeId q.dip).toNat) :
    (ReferencesExact cfg t t.references ↔ ∀ i ∈ t.hosts, ∀ j ∈ t.hosts, t.BdpFits i j) ∧
    ((standaloneFct cfg intSize t t.references q).toNat = exactFct cfg t t.references q ↔
      FctFits cfg t t.references q) :=
  ⟨references_exact_iff cfg t, standaloneFct_exact_iff cfg intSize t t.references q hsize hpayload hbw⟩

/-- Two hosts a given delay apart, on links of 200 Gb/s and with packets of 1000 bytes. -/
def twoHosts (delay : UInt64) : PairTables where
  nodeNum := 2
  nodeType := fun _ => 0
  pairDelay := fun i j => if i = j then 0 else delay
  pairTxDelay := fun i j => if i = j then 0 else 40
  pairBw := fun i j => if i = j then 0xffffffffffffffff else 200000000000

def defaultFlowConfig : FlowConfig where
  hasWin := 1
  globalT := 1
  packetPayloadSize := 1000

/-- A flow of 1 MB between hosts a millisecond apart. -/
theorem driver_exact_one_millisecond :
    ReferencesExact defaultFlowConfig (twoHosts 1000000) (twoHosts 1000000).references ∧
    (standaloneFct defaultFlowConfig 42 (twoHosts 1000000) (twoHosts 1000000).references
      ⟨nodeIdToIp 0, nodeIdToIp 1, 1000000⟩).toNat = 2041960 := by
  have hexact := driver_exact_iff defaultFlowConfig 42 (twoHosts 1000000)
    ⟨nodeIdToIp 0, nodeIdToIp 1, 1000000⟩ (by decide) (by decide) (by decide)
  refine ⟨hexact.1.mpr ?_, (hexact.2.mpr ?_).trans (by decide)⟩
  · have hhosts : (twoHosts 1000000).hosts = [0, 1] := rfl
    rw [hhosts]
    simp only [BdpFits]
    decide
  · simp only [FctFits]
    decide

/-- Hosts 250 ms apart and a flow of 4 GB: bandwidth-delay product, window and completion time all
come from products that have wrapped. -/
theorem not_driver_exact_long_haul :
    (twoHosts 250000000).references.pairBdp 0 1 = 970785953 ∧ (twoHosts 250000000).exactBdp 0 1 = 12500001000 ∧
    clientWin defaultFlowConfig (twoHosts 250000000).references 0 1 = 970785953 ∧
    ¬ ReferencesExact defaultFlowConfig (twoHosts 250000000) (twoHosts 250000000).references ∧
    standaloneFct defaultFlowConfig 42 (twoHosts 250000000) (twoHosts 250000000).references
      ⟨nodeIdToIp 0, nodeIdToIp 1, 4000000000⟩ = 575446319 ∧
    exactFct defaultFlowConfig (twoHosts 250000000) (twoHosts 250000000).references
      ⟨nodeIdToIp 0, nodeIdToIp 1, 4000000000⟩ = 667680040 := by
  refine ⟨by decide, by decide, by decide, fun h => ?_, by decide, by decide⟩
  have hpair := h.pairBdp 0 (by decide) 1 (by decide)
  exact absurd hpair (by decide)

end Lcmp
