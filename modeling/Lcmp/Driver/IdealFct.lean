import Lcmp.Driver.Reference
import Lcmp.Routing.Candidates

/-!
# The completion time of a flow alone

`qp_finish` compares the completion time of a flow with the time it would take alone, over the path recorded
for its two hosts. That path has the least delay; a packet may also take one with more delay and more
bandwidth, and for a long flow such a path may take less time.
-/

namespace Lcmp

variable {n : Nat}

/-- `GetNodeType`. -/
def NodeType.code : NodeType → Nat
  | host => 0
  | switch => 1
  | dciSwitch => 2

/-- A table by node ids, with the default of an entry that is not there. -/
def byId (value : Fin n → Fin n → UInt64) (i j : Nat) : UInt64 :=
  if h : i < n ∧ j < n then value ⟨i, h.1⟩ ⟨j, h.2⟩ else 0

theorem byId_val (value : Fin n → Fin n → UInt64) (i j : Fin n) : byId value i.val j.val = value i j :=
  dif_pos ⟨i.isLt, j.isLt⟩

namespace RouteDriver

/-- What the routes leave for the reference values. -/
def pairTables (d : RouteDriver n) : PairTables where
  nodeNum := n
  nodeType := fun i => if h : i < n then (d.topo.nodeType ⟨i, h⟩).code else 0
  pairDelay := byId d.routes.pairDelay
  pairTxDelay := byId d.routes.pairTxDelay
  pairBw := byId d.routes.pairBw

theorem mem_hosts {d : RouteDriver n} {v : Fin n} (h : d.topo.nodeType v = .host) : v.val ∈ d.pairTables.hosts := by
  have hcode : d.pairTables.nodeType v.val = 0 := by
    simp only [pairTables]
    rw [dif_pos v.isLt, h]
    rfl
  exact List.mem_filter.mpr ⟨List.mem_range.mpr v.isLt, decide_eq_true hcode⟩

end RouteDriver

/-- The driver at the start, with the payload of the settings. -/
def FlowConfig.driver (cfg : FlowConfig) (t : Topology n) : RouteDriver n := .start cfg.packetPayloadSize t

def FlowConfig.tables (cfg : FlowConfig) (t : Topology n) : PairTables := (cfg.driver t).pairTables

/-- The number that `qp_finish` writes for a flow. -/
def FlowConfig.idealFct (cfg : FlowConfig) (intSize : UInt32) (t : Topology n) (q : FinishedQp) : Nat :=
  (standaloneFct cfg intSize (cfg.tables t) (cfg.tables t).references q).toNat

/-- The time that a flow would take alone over a path. -/
def FlowConfig.pathFct (cfg : FlowConfig) (t : Topology n) (q : FinishedQp) (u : Fin n) (path : List (Fin n)) : Nat :=
  t.pathFct cfg.packetPayloadSize (exactTotalBytes cfg q.mSize) u path

/-- The time that all bytes of a flow take at the bottleneck of a path. -/
def FlowConfig.drain (cfg : FlowConfig) (t : Topology n) (q : FinishedQp) (u : Fin n) (path : List (Fin n)) : Nat :=
  exactTotalBytes cfg q.mSize * (8 * 10 ^ 9) / t.pathBw u path

/-- A flow from `s` to `d`, as `qp_finish` reads the addresses. -/
structure FlowBetween (t : Topology n) (s d : Fin n) (q : FinishedQp) : Prop where
  sender : t.nodeType s = .host
  receiver : t.nodeType d = .host
  sid : (ipToNodeId q.sip).toNat = s.val
  did : (ipToNodeId q.dip).toNat = d.val

/-- Nothing that is computed on the way to the number wraps around. -/
structure NoOverflow (cfg : FlowConfig) (t : Topology n) (s d : Fin n) (q : FinishedQp) : Prop where
  size : 1 ≤ q.mSize
  product : cfg.packetPayloadSize.toNat * (8 * 10 ^ 9) < 2 ^ 64
  paths : ∀ path, (cfg.driver t).Permitted d s path →
    t.pathDelay s path < 2 ^ 64 ∧ t.pathTxDelay cfg.packetPayloadSize s path < 2 ^ 64
  rtt : (cfg.tables t).exactRtt s.val d.val < 2 ^ 64
  fct : FctFits cfg (cfg.tables t) (cfg.tables t).references q

section Reference

variable {cfg : FlowConfig} {t : Topology n} {q : FinishedQp} {s d : Fin n} (hpayload : 0 < cfg.packetPayloadSize)
  (hdistinct : t.DistinctAddresses) (hduplex : t.Duplex) (hflow : FlowBetween t s d q) (hfits : NoOverflow cfg t s d q)
include hpayload hdistinct hduplex hflow hfits

/-- The number is the time over the path recorded for the two hosts. -/
theorem exists_idealFct_eq (intSize : UInt32) (hsome : ∃ path, (cfg.driver t).Permitted d s path) :
    ∃ ref, (cfg.driver t).Permitted d s ref ∧ cfg.idealFct intSize t q = cfg.pathFct t q s ref ∧
      ∀ path, (cfg.driver t).Permitted d s path → t.pathDelay s ref ≤ t.pathDelay s path ∧
        (t.pathDelay s path = t.pathDelay s ref → t.pathBw s path ≤ t.pathBw s ref) := by
  obtain ⟨ref, href, hdelay, htxDelay, hbw, hrate, hbest⟩ :=
    RouteDriver.exists_reference (RouteDriver.installed_start cfg.packetPayloadSize t) hdistinct hflow.receiver hduplex
      hfits.product (r := .empty) (fun _ _ => rfl) rfl hfits.paths hsome
  have hpairBw : (cfg.tables t).pairBw s.val d.val = (cfg.driver t).routes.pairBw s d := byId_val _ s d
  have hexactRtt : (cfg.tables t).exactRtt s.val d.val = t.pathRtt cfg.packetPayloadSize s ref := by
    have hpairDelay : (cfg.tables t).pairDelay s.val d.val = (cfg.driver t).routes.pairDelay s d := byId_val _ s d
    have hpairTxDelay : (cfg.tables t).pairTxDelay s.val d.val = (cfg.driver t).routes.pairTxDelay s d := byId_val _ s d
    unfold PairTables.exactRtt Topology.pathRtt
    rw [hpairDelay, hpairTxDelay]
    exact congrArg₂ (fun delay txDelay => 2 * delay + txDelay) hdelay htxDelay
  have hrtt : ((cfg.tables t).references.pairRtt s.val d.val).toNat = t.pathRtt cfg.packetPayloadSize s ref := by
    have hs : s.val ∈ (cfg.tables t).hosts := RouteDriver.mem_hosts hflow.sender
    have hd : d.val ∈ (cfg.tables t).hosts := RouteDriver.mem_hosts hflow.receiver
    rw [PairTables.references_pairRtt hs hd, PairTables.rtt_toNat, Nat.mod_eq_of_lt hfits.rtt, hexactRtt]
  have hpositive : 0 < (cfg.tables t).pairBw (ipToNodeId q.sip).toNat (ipToNodeId q.dip).toNat := by
    rw [hflow.sid, hflow.did, hpairBw]
    exact UInt64.pos_iff_ne_zero.mpr hrate
  refine ⟨ref, href, ?_, hbest⟩
  have hexact := (standaloneFct_exact_iff cfg intSize (cfg.tables t) (cfg.tables t).references q hfits.size hpayload
    hpositive).mpr hfits.fct
  unfold FlowConfig.idealFct
  rw [hexact]
  unfold exactFct FlowConfig.pathFct Topology.pathFct
  dsimp only
  rw [hflow.sid, hflow.did, hrtt, hpairBw]
  exact congrArg (fun bw => _ + _ / bw) hbw

end Reference

theorem rates_ne_zero : (25000000000 : UInt64) ≠ 0 ∧ (100000000000 : UInt64) ≠ 0 ∧ (200000000000 : UInt64) ≠ 0 := by
  decide

/-- Hosts 0 and 5 on 100 Gb/s, and between their DCI switches 1 and 4 two ways: over switch 2 with links of
5 ms and 25 Gb/s, and over switch 3 with links of 25 ms and 200 Gb/s. -/
def longHaulLink (a b : Fin 6) : Option TopologyLink :=
  match min a b, max a b with
  | 0, 1 => some ⟨1000, 100000000000, rates_ne_zero.2.1⟩
  | 1, 2 => some ⟨5000000, 25000000000, rates_ne_zero.1⟩
  | 1, 3 => some ⟨25000000, 200000000000, rates_ne_zero.2.2⟩
  | 2, 4 => some ⟨5000000, 25000000000, rates_ne_zero.1⟩
  | 3, 4 => some ⟨25000000, 200000000000, rates_ne_zero.2.2⟩
  | 4, 5 => some ⟨1000, 100000000000, rates_ne_zero.2.1⟩
  | _, _ => none

def longHaul : Topology 6 :=
  .ofLinks (by decide) (fun v => if v = 0 ∨ v = 5 then .host else .dciSwitch) longHaulLink (by
    intro a b
    unfold longHaulLink
    rw [min_comm, max_comm])

theorem longHaul_duplex : longHaul.Duplex := Topology.duplex_ofLinks _ _ _ _

instance (d : RouteDriver n) (dip : UInt32) (u v : Fin n) : Decidable (d.Forwards dip u v) :=
  inferInstanceAs (Decidable (∃ port ∈ (d.rtTable u).ports dip, d.peer u port = some v))

/-- The only ways on towards host 5. -/
theorem longHaul_forwards : ∀ u v, (defaultFlowConfig.driver longHaul).Forwards (Topology.dstAddr (5 : Fin 6)) u v →
    v ≠ 0 ∧ (u = 0 → v = 1) ∧ (u = 1 → v = 2 ∨ v = 3) ∧ (u = 2 ∨ u = 3 → v = 4) ∧ (u = 4 → v = 5) ∧ u ≠ 5 := by
  decide +kernel

theorem longHaul_permitted {path : List (Fin 6)} (h : (defaultFlowConfig.driver longHaul).Permitted 5 0 path) :
    path = [1, 2, 4, 5] ∨ path = [1, 3, 4, 5] := by
  have harrived : ∀ path, (defaultFlowConfig.driver longHaul).Permitted 5 5 path → path = [] := by
    intro path h
    cases h with
    | arrived => rfl
    | @hop _ v _ hforward _ => exact absurd rfl (longHaul_forwards 5 v hforward).2.2.2.2.2
  have hlast : ∀ path, (defaultFlowConfig.driver longHaul).Permitted 5 4 path → path = [5] := by
    intro path h
    obtain ⟨v, rest, rfl, hforward, hrest⟩ := h.cases_hop (by decide)
    obtain rfl := (longHaul_forwards 4 v hforward).2.2.2.2.1 rfl
    rw [harrived rest hrest]
  have hway : ∀ u path, u = 2 ∨ u = 3 → (defaultFlowConfig.driver longHaul).Permitted 5 u path → path = [4, 5] := by
    intro u path hu h
    have hne : u ≠ 5 := by
      rintro rfl
      exact absurd hu (by decide)
    obtain ⟨v, rest, rfl, hforward, hrest⟩ := h.cases_hop hne
    obtain rfl := (longHaul_forwards u v hforward).2.2.2.1 hu
    rw [hlast rest hrest]
  obtain ⟨v, rest, rfl, hforward, hrest⟩ := h.cases_hop (by decide)
  obtain rfl := (longHaul_forwards 0 v hforward).2.1 rfl
  obtain ⟨w, rest, rfl, hforward', hrest'⟩ := hrest.cases_hop (by decide)
  have hw := (longHaul_forwards 1 w hforward').2.2.1 rfl
  rw [hway w rest hw hrest']
  rcases hw with rfl | rfl
  · exact .inl rfl
  · exact .inr rfl

/-- Both ways are allowed. -/
theorem permitted_longHaul {v : Fin 6} (hv : v = 2 ∨ v = 3) :
    (defaultFlowConfig.driver longHaul).Permitted 5 0 [1, v, 4, 5] := by
  have hforward : ∀ u v, (u, v) ∈ [((0 : Fin 6), (1 : Fin 6)), (1, 2), (1, 3), (2, 4), (3, 4), (4, 5)] →
      (defaultFlowConfig.driver longHaul).Forwards (Topology.dstAddr (5 : Fin 6)) u v := by
    decide +kernel
  rcases hv with rfl | rfl
  · exact .hop (hforward 0 1 (by decide)) (.hop (hforward 1 2 (by decide))
      (.hop (hforward 2 4 (by decide)) (.hop (hforward 4 5 (by decide)) .arrived)))
  · exact .hop (hforward 0 1 (by decide)) (.hop (hforward 1 3 (by decide))
      (.hop (hforward 3 4 (by decide)) (.hop (hforward 4 5 (by decide)) .arrived)))

/-- A flow from host 0 to host 5. -/
def longHaulFlow (size : UInt64) : FinishedQp := ⟨nodeIdToIp 0, nodeIdToIp 5, size⟩

theorem longHaul_flowBetween (size : UInt64) : FlowBetween longHaul 0 5 (longHaulFlow size) where
  sender := rfl
  receiver := rfl
  sid := congrArg UInt32.toNat (ipToNodeId_nodeIdToIp (by decide))
  did := congrArg UInt32.toNat (ipToNodeId_nodeIdToIp (by decide))

theorem longHaul_noOverflow {size : UInt64} (hsize : 1 ≤ size) (hfct : FctFits defaultFlowConfig
    (defaultFlowConfig.tables longHaul) (defaultFlowConfig.tables longHaul).references (longHaulFlow size)) :
    NoOverflow defaultFlowConfig longHaul 0 5 (longHaulFlow size) where
  size := hsize
  product := by decide
  paths := by
    intro path hpath
    rcases longHaul_permitted hpath with rfl | rfl
    · decide +kernel
    · decide +kernel
  rtt := by decide +kernel
  fct := hfct

end Lcmp
