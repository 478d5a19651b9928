import Lcmp.Network.Settle
import Lcmp.Nic.EgressQueue

/-!
# Streams keep their order

If every switch sends a stream to one neighbour, the stream stays on one shortest path, and comes out at its
destination in the order in which it went in.
-/

namespace Lcmp

open Pipeline

variable {n : Nat} {α : Type} {fab : Fabric n} {f : Stream} {a b : Fin n} {t : Topology n}

namespace RouteDriver

variable {d : RouteDriver n}

/-- A node that is not the host, but can reach it, has a next hop. -/
theorem Installed.nextHop_ne_nil (h : Installed t d) {host : Fin n} (hhost : d.topo.nodeType host = .host) {k : Nat}
    {u : Fin n} (hdist : d.topo.IsDist host (k + 1) u) : d.routes.nextHop u host ≠ [] := by
  obtain ⟨w, hadj, hrelay, hw⟩ := hdist.pred
  have hlink : d.topo.linkUp u w = true := by
    have hback := Topology.mem_upNeighbours.mp hadj
    simp only [Topology.linkUp] at hback ⊢
    rw [d.topo.symm]
    exact hback
  exact List.ne_nil_of_mem ((h.mem_nextHop_iff hhost u w).mpr ⟨hlink, hrelay, k, hw, hdist⟩)

end RouteDriver

open RouteDriver

/-! ### One neighbour -/

/-- What the modes 1 and 2 need to keep a stream on its port: no packet for another destination has its flow id
and, in mode 2, no two of the packets with its flow id are further apart than the time-out. -/
structure Remembered (fab : Fabric n) (f : Stream) (trace : FabricTrace n α) : Prop where
  oneDestination : ∀ v, fab.driver.topo.nodeType v = .dciSwitch → (fab.dci v).routingMode ≠ .ecmp →
    OneDestination fab v f.header.flowId f.dip trace
  gaps : ∀ v, fab.driver.topo.nodeType v = .dciSwitch → (fab.dci v).routingMode = .lcmp →
    GapsWithin fab v f.header.flowId trace

/-- Whatever arrives of a stream at `v` goes to `w` or nowhere. -/
def KeepsTo (fab : Fabric n) (f : Stream) (trace : FabricTrace n α) (v w : Fin n) : Prop :=
  ∀ x ∈ trace, ∀ uninit p w', Arrival fab x.pre x.label v uninit p → f.contains p = true →
    x.pre.route fab v uninit p.ch = some w' → w' = w

section NextHops

variable (hinstalled : Installed t fab.driver) (hdistinct : t.DistinctAddresses) (hb : fab.isHost b = true)
  (hdip : f.dip = Topology.dstAddr b) {v : Fin n} (hhops : fab.driver.routes.nextHop v b ≠ [])
  {trace : FabricTrace n α}
include hinstalled hdistinct hb hdip hhops

/-- One hash for all packets. -/
theorem exists_keepsTo_of_hash (hash : UInt32) (hroutes : ∀ x ∈ trace, ∀ uninit p, Arrival fab x.pre x.label v uninit p →
    f.contains p = true → x.pre.route fab v uninit p.ch = fab.driver.nextNode f.dip hash v) :
    ∃ w ∈ fab.driver.routes.nextHop v b, KeepsTo fab f trace v w := by
  obtain ⟨w, hw, hnext⟩ := hinstalled.nextNode_mem hdistinct (of_decide_eq_true hb) hhops hash
  refine ⟨w, hw, fun x hx uninit p w' harrival hp hroute => ?_⟩
  rw [hroutes x hx uninit p harrival hp, hdip, hnext] at hroute
  exact (Option.some.inj hroute).symm

/-- A port that is remembered. -/
theorem exists_keepsTo_of_settled (hsettled : (∀ x ∈ trace, ¬ IdArrival fab v f.header.flowId x) ∨
    ∃ port ∈ (fab.driver.rtTable v).ports f.dip, ∀ x ∈ trace, IdArrival fab v f.header.flowId x → SentTo fab v x port) :
    ∃ w ∈ fab.driver.routes.nextHop v b, KeepsTo fab f trace v w := by
  rcases hsettled with hnone | ⟨port, hmem, hall⟩
  · obtain ⟨w, hw⟩ := List.exists_mem_of_ne_nil _ hhops
    refine ⟨w, hw, fun x hx uninit p w' harrival hp _ => ?_⟩
    exact absurd ⟨uninit, p, harrival, Stream.flowId_eq hp⟩ (hnone x hx)
  · rw [hdip] at hmem
    obtain ⟨w, hw, hpeer⟩ := hinstalled.peer_of_mem_ports hdistinct (of_decide_eq_true hb) hmem
    refine ⟨w, hw, fun x hx uninit p w' harrival hp hroute => ?_⟩
    have hsent := hall x hx ⟨uninit, p, harrival, Stream.flowId_eq hp⟩ uninit p harrival
    unfold FabricState.route at hroute
    rw [hsent] at hroute
    exact Option.some.inj (hroute.symm.trans hpeer)

/-- A switch sends the whole stream to one of its next hops. -/
theorem exists_next {s : FabricState n α} (hrun : (fabricSystem α fab).Run (fabricSystem α fab).init trace s)
    (hremembered : Remembered fab f trace) : ∃ w ∈ fab.driver.routes.nextHop v b, KeepsTo fab f trace v w := by
  have hports : (fab.driver.rtTable v).ports f.dip ≠ [] := by
    rw [hdip]
    exact hinstalled.ports_ne_nil hhops
  by_cases hnode : fab.driver.topo.nodeType v = .dciSwitch
  · cases hmode : (fab.dci v).routingMode with
    | ecmp =>
        apply exists_keepsTo_of_hash hinstalled hdistinct hb hdip hhops
          (ecmpHash (f.header.hashKey 0) [] (fab.dci v).ecmpSeed)
        intro x hx uninit p harrival hp
        rw [FabricState.route_ecmp hnode hmode (fabric_rtTable hrun v x hx), Stream.hashKey_eq hp uninit 0,
          (Stream.contains_iff.mp hp).2.1]
    | ucmp =>
        apply exists_keepsTo_of_settled hinstalled hdistinct hb hdip hhops
        exact settles_ucmp hnode hmode hports hrun (hremembered.oneDestination v hnode (by simp [hmode]))
    | lcmp =>
        apply exists_keepsTo_of_settled hinstalled hdistinct hb hdip hhops
        exact settles_lcmp hnode hmode hports hrun (hremembered.oneDestination v hnode (by simp [hmode]))
          (hremembered.gaps v hnode hmode)
  · apply exists_keepsTo_of_hash hinstalled hdistinct hb hdip hhops (ecmpHash (f.header.hashKey 0) [] (fab.ecmpSeed v))
    intro x hx uninit p harrival hp
    rw [FabricState.route_plain hnode, Stream.hashKey_eq hp uninit 0, (Stream.contains_iff.mp hp).2.1]

end NextHops

/-! ### One line -/

/-- The line that a stream stays on throughout a run, if its source has a route. -/
theorem exists_leads (hinstalled : Installed t fab.driver) (hdistinct : t.DistinctAddresses) (ha : fab.isHost a = true)
    (hb : fab.isHost b = true) (hsip : f.sip = Topology.dstAddr a) (hdip : f.dip = Topology.dstAddr b) {first : Fin n}
    (hnic : fab.nicPeer a f.header = some first) {s : FabricState n α} {trace : FabricTrace n α}
    (hrun : (fabricSystem α fab).Run (fabricSystem α fab).init trace s) (hremembered : Remembered fab f trace) :
    ∃ via k, Leads fab f via a b ∧ fab.driver.topo.IsDist b (k + 1) a ∧ ∀ x ∈ trace, SentVia fab f via x.pre x.label := by
  classical
  have hhost : fab.driver.topo.nodeType b = .host := of_decide_eq_true hb
  have hchoice : ∀ v, ∃ w, fab.driver.routes.nextHop v b ≠ [] →
      w ∈ fab.driver.routes.nextHop v b ∧ KeepsTo fab f trace v w := by
    intro v
    by_cases hhops : fab.driver.routes.nextHop v b = []
    · exact ⟨v, fun hne => absurd hhops hne⟩
    · obtain ⟨w, hw, hall⟩ := exists_next hinstalled hdistinct hb hdip hhops hrun hremembered
      exact ⟨w, fun _ => ⟨hw, hall⟩⟩
  choose next hnext using hchoice
  have hfirst : first ∈ fab.driver.routes.nextHop a b := by
    apply hinstalled.mem_nextHop_of_nextNode hdistinct hhost
    have hnode : fab.driver.nextNode f.dip (fab.nicHash f.header) a = some first := hnic
    rw [hdip] at hnode
    exact hnode
  obtain ⟨-, -, k, -, hdist⟩ := (hinstalled.mem_nextHop_iff hhost a first).mp hfirst
  have hmem : ∀ j u, fab.driver.topo.IsDist b (j + 1) u → (if u = a then first else next u) ∈ fab.driver.routes.nextHop u b := by
    intro j u hu
    split
    · rename_i he
      exact he ▸ hfirst
    · exact (hnext u (hinstalled.nextHop_ne_nil hhost hu)).1
  refine ⟨fun u => if u = a then first else next u, k, ⟨ha, hb, hsip, by rw [if_pos rfl, hnic], fun j u hu _ => ?_⟩, hdist,
    fun x hx v uninit p w harrival hp hroute => ?_⟩
  · obtain ⟨hlink, hkind, i, hi, hi'⟩ := (hinstalled.mem_nextHop_iff hhost u _).mp (hmem j u hu)
    obtain rfl := Nat.succ.inj (hi'.unique hu)
    refine ⟨hi, hkind.imp_right fun hswitch => ?_, hlink⟩
    simpa [Fabric.isHost, Topology.isSwitch] using hswitch
  · have hva : v ≠ a := by
      rintro rfl
      rw [harrival.1] at ha
      cases ha
    show w = if v = a then first else next v
    rw [if_neg hva]
    by_cases hhops : fab.driver.routes.nextHop v b = []
    · -- a switch without a next hop has no route
      have hdip' : p.ch.dip = Topology.dstAddr b := (Stream.contains_iff.mp hp).2.1.trans hdip
      have hports := hinstalled.ports_eq_nil hdistinct hhost hhops
      rw [← hdip'] at hports
      rw [FabricState.route_eq_none (fabric_rtTable hrun v x hx) hports] at hroute
      cases hroute
    · exact (hnext v hhops).2 x hx uninit p w harrival hp hroute

/-- A source without a route sends nothing. -/
theorem FabricStep.ordered_nil {s s' : FabricState n α} {e : FabricEvent n α} (h : FabricStep fab s e s')
    (hdistinct : fab.driver.topo.DistinctAddresses) (ha : fab.isHost a = true) (hsip : f.sip = Topology.dstAddr a)
    (hnic : fab.nicPeer a f.header = none) (hordered : (s.stream f).Ordered [] b) : (s'.stream f).Ordered [] b := by
  obtain ⟨event, hstep, hhappens⟩ := h.traffic
  by_cases hmine : ∃ p, event.item = some p ∧ f.contains p = true
  · obtain ⟨p, hitem, hp⟩ := hmine
    have hnot : ∀ u v, fab.isHost u = true → p.ch.sip = Topology.dstAddr u → fab.nicPeer u p.ch ≠ some v := by
      intro u v hu hfrom hsome
      have hsame := (Stream.contains_iff.mp hp).1.trans hsip
      obtain rfl := hdistinct u a (of_decide_eq_true hu) (of_decide_eq_true ha) (hfrom.symm.trans hsame)
      rw [Stream.nicPeer_eq fab hp, hnic] at hsome
      cases hsome
    have hline : Pipeline.Line (fun _ : Stage n => none) [] := trivial
    refine hordered.step hline List.nodup_nil (hstep.share_of_mem hitem hp) ?_
    cases hhappens with
    | nothing => cases hitem
    | send hhost hprot hfrom hnic' =>
        obtain rfl := Option.some.inj hitem
        exact absurd hnic' (hnot _ _ hhost hfrom)
    | queueAck hhost hprot hfrom hnic' =>
        obtain rfl := Option.some.inj hitem
        exact absurd hnic' (hnot _ _ hhost hfrom)
    | refuse => trivial
    | lose => trivial
    | sendAck => exact fun hi => absurd hi List.not_mem_nil
    | dequeue => exact fun hi => absurd hi List.not_mem_nil
    | forward => exact fun hi => absurd hi List.not_mem_nil
    | receive => exact fun hi => absurd hi List.not_mem_nil
  · have hsame := hstep.share_of_not_mem (p := f.contains) fun p hitem hp => hmine ⟨p, hitem, hp⟩
    unfold FabricState.stream at hordered ⊢
    rw [hsame]
    exact hordered

theorem ordered_start (fab : Fabric n) (f : Stream) (line : List (Stage n)) (b : Fin n) :
    (((fabricSystem α fab).init).stream f).Ordered line b := by
  have hempty : ((fabricSystem α fab).init).stream f = Traffic.empty := by
    have hstage : ∀ i, (FabricState.start fab : FabricState n α).stage i = [] := by
      intro i
      cases i with
      | _ => rfl
    show Traffic.mk _ _ _ _ = Traffic.mk _ _ _ _
    congr 1
    funext i
    show List.filter f.contains ((FabricState.start fab : FabricState n α).stage i) = []
    rw [hstage]
    rfl
  rw [hempty]
  exact Traffic.ordered_empty line b

/-- A stream is on one line throughout a run. -/
theorem exists_ordered (hinstalled : Installed t fab.driver) (hdistinct : t.DistinctAddresses) (ha : fab.isHost a = true)
    (hb : fab.isHost b = true) (hsip : f.sip = Topology.dstAddr a) (hdip : f.dip = Topology.dstAddr b)
    {s : FabricState n α} {trace : FabricTrace n α} (hrun : (fabricSystem α fab).Run (fabricSystem α fab).init trace s)
    (hremembered : Remembered fab f trace) :
    ∃ line, (s.stream f).Ordered line b ∧ ∀ x ∈ trace, (x.pre.stream f).Ordered line b ∧ (x.post.stream f).Ordered line b := by
  have hdistinct' : fab.driver.topo.DistinctAddresses := by
    intro u v hu hv haddr
    exact hdistinct u v (hinstalled.nodeType ▸ hu) (hinstalled.nodeType ▸ hv) haddr
  cases hnic : fab.nicPeer a f.header with
  | none =>
      refine ⟨[], hrun.invariant (P := fun s => (s.stream f).Ordered [] b) (fun s e s' hs hnext => ?_) (ordered_start fab f [] b)⟩
      exact (fabricNext_step hnext).ordered_nil hdistinct' ha hsip hnic hs
  | some first =>
      obtain ⟨via, k, hleads, hdist, hvia⟩ := exists_leads hinstalled hdistinct ha hb hsip hdip hnic hrun hremembered
      refine ⟨streamLine fab f via a k, hrun.invariant_of_guard (C := SentVia fab f via)
        (P := fun s => (s.stream f).Ordered (streamLine fab f via a k) b) (fun s e s' hs hguard hnext => ?_) hvia
        (ordered_start fab f _ b)⟩
      exact (fabricNext_step hnext).ordered hdistinct' hleads hdist hguard hs

/-! ### Every run -/

/-- In every run of the fabric, whatever other traffic, PFC frames and losses there are: packets of a stream are
received by its destination only, in the order in which they were sent, each at most once, and as long as none has
been lost those received are the first ones that were sent. In the modes 1 and 2 this takes `Remembered`. -/
theorem streams_in_order (packetPayloadSize : UInt32) (hreach : (driverSystem packetPayloadSize t).Reachable fab.driver)
    (hdistinct : t.DistinctAddresses) (ha : fab.isHost a = true) (hb : fab.isHost b = true)
    (hsip : f.sip = Topology.dstAddr a) (hdip : f.dip = Topology.dstAddr b) {s : FabricState n α} {trace : FabricTrace n α}
    (hrun : (fabricSystem α fab).Run (fabricSystem α fab).init trace s) (hremembered : Remembered fab f trace) :
    (∀ c, c ≠ b → (s.received c).filter f.contains = []) ∧
    ((s.received b).filter f.contains).Sublist (s.sent.filter f.contains) ∧
    (s.lost.filter f.contains = [] → (s.received b).filter f.contains <+: s.sent.filter f.contains) := by
  obtain ⟨line, hordered, -⟩ := exists_ordered (installed_of_reachable packetPayloadSize hreach) hdistinct ha hb hsip hdip
    hrun hremembered
  refine ⟨hordered.elsewhere, (List.sublist_append_left _ _).trans hordered.order, fun hlost => ?_⟩
  have hall : _ ++ _ = s.sent.filter f.contains := hordered.eq_of_lost_nil hlost
  rw [← hall]
  exact List.prefix_append _ _

/-! ### Short runs -/

theorem fabric_sent {s : FabricState n α} {trace : FabricTrace n α}
    (hrun : (fabricSystem α fab).Run (fabricSystem α fab).init trace s) :
    ∀ x ∈ trace, 0 ≤ x.pre.clock ∧ x.pre.clock ≤ s.clock ∧ ∀ i, x.pre.stage i ⊆ s.sent := by
  have hinv := hrun.history (P := fun before s => 0 ≤ s.clock ∧ (∀ i, s.stage i ⊆ s.sent) ∧
    ∀ x ∈ before, 0 ≤ x.pre.clock ∧ x.pre.clock ≤ s.clock ∧ ∀ i, x.pre.stage i ⊆ s.sent) ?_ ?_
  · exact hinv.2.2
  · refine ⟨Int.le_refl 0, fun i => ?_, by simp⟩
    cases i with
    | _ => exact List.nil_subset _
  · intro before s e s' ⟨hclock, hstage, hall⟩ hnext
    have hstep := fabricNext_step hnext
    obtain ⟨event, htraffic, -⟩ := hstep.traffic
    have hforward := hstep.clock_le
    have hfront : s.sent ⊆ s'.sent := htraffic.sent_prefix.subset
    refine ⟨hclock.trans hforward, htraffic.stage_subset_sent hstage, fun x hx => ?_⟩
    rcases List.mem_append.mp hx with hx | hx
    · obtain ⟨hstart, hpre, hsub⟩ := hall x hx
      exact ⟨hstart, hpre.trans hforward, fun i => List.Subset.trans (hsub i) hfront⟩
    · obtain rfl := List.mem_singleton.mp hx
      exact ⟨hclock, hforward, fun i => List.Subset.trans (hstage i) hfront⟩

/-- Nothing is forgotten in a run of two seconds in which nobody sends a packet with the flow id of the stream to
another destination. -/
theorem remembered_of_short {s : FabricState n α} {trace : FabricTrace n α}
    (hrun : (fabricSystem α fab).Run (fabricSystem α fab).init trace s) (hclock : s.clock ≤ DciSwitch.idleTimeout)
    (hsent : ∀ p ∈ s.sent, p.ch.flowId = f.header.flowId → p.ch.dip = f.dip) : Remembered fab f trace where
  oneDestination := by
    intro v _ _ x hx uninit p harrival hid
    obtain ⟨-, u, rest, -, hwire⟩ := harrival
    apply hsent p ((fabric_sent hrun x hx).2.2 (.wire u v) ?_) hid
    rw [FabricState.stage_wire, hwire]
    exact List.mem_cons_self
  gaps := by
    intro v _ _ before x between y after hsplit _ _ _
    have hx := fabric_sent hrun x (by simp [hsplit])
    have hy := fabric_sent hrun y (by simp [hsplit])
    omega

/-! ### A sample fabric -/

/-- A DCI switch and two switches behind it, between two hosts. -/
def twoWays : Topology 5 :=
  .ofGraph (by decide) (fun v => if v = 0 ∨ v = 4 then .host else if v = 1 then .dciSwitch else .switch)
    (fun a b => decide ((a = 1 ∧ b ≠ 1 ∧ b ≠ 4) ∨ (b = 1 ∧ a ≠ 1 ∧ a ≠ 4) ∨ (a = 4 ∧ (b = 2 ∨ b = 3)) ∨
      (b = 4 ∧ (a = 2 ∨ a = 3)))) (by decide)

theorem twoWays_ports (u v : Fin 5) (iface : Interface) (h : (start 1000 twoWays).topo.nbr2if u v = some iface) :
    iface.idx.toNat < pCnt := by
  have hv := v.isLt
  simp only [start, twoWays, Topology.ofGraph] at h
  split at h
  · obtain rfl := Option.some.inj h
    simp [Interface.sample, pCnt]
    omega
  · cases h

def twoWaysFabric : Fabric 5 where
  driver := start 1000 twoWays
  mmu := fun _ => SwitchMmu.zeroConfig
  dci := fun _ => lcmpConfig
  ecmpSeed := fun v => UInt32.ofNat v.val
  ackHighPrio := fun _ => false
  ackQIdx := ackQIdx
  pauseTime := 5
  nDevices := fun _ => 5
  hash32 := fun sip dip _ _ => sip ^^^ dip
  ports := twoWays_ports

namespace TwoWays

def sender : Fin 5 := 0

def border : Fin 5 := 1

def upper : Fin 5 := 2

def lower : Fin 5 := 3

def receiver : Fin 5 := 4

end TwoWays

/-- The data of a flow from host 0 to host 4. -/
def sampleStream : Stream where
  sip := Topology.dstAddr (0 : Fin 5)
  dip := Topology.dstAddr (4 : Fin 5)
  sport := 10000
  dport := 100
  pg := 3
  acks := false

def samplePacket (payload : Nat) : NetPacket Nat where
  ch := sampleStream.header
  pg := 3
  size := 1048
  payload := payload

/-- Two packets on their way, of which the first one arrives. -/
def twoPackets : List (FabricEvent 5 Nat) :=
  [.send 0 (samplePacket 1), .send 0 (samplePacket 2), .deliver 0 1 false 0, .advance 1000, .deliver 0 1 false 0,
    .dequeue 1 3, .dequeue 1 3, .deliver 1 3 false 0, .dequeue 3 4, .deliver 3 4 false 0]

theorem twoPackets_runs : ((fabricSystem Nat twoWaysFabric).exec (fabricSystem Nat twoWaysFabric).init twoPackets).isSome = true := by
  decide +kernel

/-- What is received there is a prefix of what was sent. -/
theorem streams_in_order_twoWays :
    ∃ s, (fabricSystem Nat twoWaysFabric).exec (fabricSystem Nat twoWaysFabric).init twoPackets = some s ∧
      ((s.received 4).filter sampleStream.contains <+: s.sent.filter sampleStream.contains) := by
  have hexec := Option.some_get twoPackets_runs
  obtain ⟨trace, hrun, -⟩ := System.Run.of_exec twoPackets hexec.symm
  refine ⟨_, hexec.symm, ?_⟩
  have hshort := remembered_of_short (f := sampleStream) hrun (by decide +kernel) (by decide +kernel)
  exact (streams_in_order 1000 .init (twoWays.distinctAddresses_of_le (by decide)) (a := 0) (b := 4) (by decide) (by decide)
    rfl rfl hrun hshort).2.2 (by decide +kernel)

end Lcmp
