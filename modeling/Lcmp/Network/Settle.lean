import Lcmp.Network.Line
import Lcmp.Routing.Affinity

/-!
# Ports that stay

In mode 0 a switch sends packets with one hash to one neighbour. In the modes 1 and 2 a DCI switch remembers the
port of a flow id, in any run of the fabric: for good in mode 1, and in mode 2 as long as each packet comes within
the time-out after the one before it.
-/

namespace Lcmp

open Pipeline

variable {n : Nat} {α : Type}

/-- What happens in a run of the fabric. -/
abbrev FabricTrace (n : Nat) (α : Type) := List (Transition (FabricState n α) (FabricEvent n α))

/-! ### Where a switch sends a packet -/

namespace FabricState

variable {fab : Fabric n} {s : FabricState n α} {v : Fin n} {uninit : UInt32} {ch : CustomHeader}

theorem route_plain (hnode : fab.driver.topo.nodeType v ≠ .dciSwitch) :
    s.route fab v uninit ch = fab.driver.nextNode ch.dip (ecmpHash (ch.hashKey uninit) [] (fab.ecmpSeed v)) v := by
  simp only [route, outDev]
  rw [if_neg hnode]
  rfl

theorem route_ecmp (hnode : fab.driver.topo.nodeType v = .dciSwitch) (hmode : (fab.dci v).routingMode = .ecmp)
    (htable : (s.dci v).rtTable = fab.driver.rtTable v) :
    s.route fab v uninit ch = fab.driver.nextNode ch.dip (ecmpHash (ch.hashKey uninit) [] (fab.dci v).ecmpSeed) v := by
  simp only [route, outDev]
  rw [if_pos hnode, DciSwitch.getOutDev_ecmp hmode, htable]
  rfl

theorem outDev_dci (hnode : fab.driver.topo.nodeType v = .dciSwitch) :
    s.outDev fab v uninit ch = (s.dci v).getOutDev (fab.dci v) (s.env fab v uninit) ch := if_pos hnode

theorem outDev_rtTable : (s.outDev fab v uninit ch).1.rtTable = (s.dci v).rtTable := by
  unfold outDev
  split
  · exact DciSwitch.getOutDev_rtTable
  · rfl

end FabricState

/-! ### What an event does to a DCI switch -/

theorem Arrival.unique {fab : Fabric n} {s : FabricState n α} {e : FabricEvent n α} {v : Fin n} {uninit uninit' : UInt32}
    {p p' : NetPacket α} (h : Arrival fab s e v uninit p) (h' : Arrival fab s e v uninit' p') :
    uninit = uninit' ∧ p = p' := by
  obtain ⟨-, u, rest, rfl, hwire⟩ := h
  obtain ⟨-, u', rest', he, hwire'⟩ := h'
  obtain ⟨rfl, -, -, rfl⟩ := FabricEvent.deliver.inj he
  rw [hwire] at hwire'
  exact ⟨rfl, Frame.packet.inj (List.cons.inj hwire').1⟩

/-- The clock does not go back. -/
theorem FabricStep.clock_le {fab : Fabric n} {s s' : FabricState n α} {e : FabricEvent n α} (h : FabricStep fab s e s') :
    s.clock ≤ s'.clock := by
  cases h with
  | advance dt =>
      show s.clock ≤ s.clock + dt
      omega
  | _ => exact Int.le_refl _

/-- A switch routes a packet that arrives at it, and nothing else touches its tables. -/
theorem FabricStep.dci_cases {fab : Fabric n} {s s' : FabricState n α} {e : FabricEvent n α} (h : FabricStep fab s e s')
    (v : Fin n) : s'.dci v = s.dci v ∨ ∃ uninit p, Arrival fab s e v uninit p ∧
      s'.dci v = (s.outDev fab v uninit p.ch).1 ∧ s'.clock = s.clock := by
  cases h with
  | @noRoute u w uninit p rest hwire hswitch hnone =>
      by_cases hv : v = w
      · subst hv
        exact .inr ⟨uninit, p, ⟨hswitch, u, rest, rfl, hwire⟩, Function.update_self .., rfl⟩
      · exact .inl (Function.update_of_ne hv ..)
  | @forward u w x uninit p rest hwire hswitch hroute hlink =>
      by_cases hv : v = w
      · subst hv
        exact .inr ⟨uninit, p, ⟨hswitch, u, rest, rfl, hwire⟩, Function.update_self .., rfl⟩
      · exact .inl (Function.update_of_ne hv ..)
  | _ => exact .inl rfl

/-- Every packet that arrives at a switch is routed. -/
theorem FabricStep.dci_of_arrival {fab : Fabric n} {s s' : FabricState n α} {e : FabricEvent n α} (h : FabricStep fab s e s')
    {v : Fin n} {uninit : UInt32} {p : NetPacket α} (harrival : Arrival fab s e v uninit p) :
    s'.dci v = (s.outDev fab v uninit p.ch).1 ∧ s'.clock = s.clock := by
  obtain ⟨hswitch, u, rest, rfl, hwire⟩ := harrival
  cases h with
  | pfcHost hwire' =>
      rw [hwire] at hwire'
      cases hwire'
  | pfcSwitch hwire' =>
      rw [hwire] at hwire'
      cases hwire'
  | noRoute hwire' =>
      rw [hwire] at hwire'
      obtain rfl := Frame.packet.inj (List.cons.inj hwire').1
      exact ⟨Function.update_self .., rfl⟩
  | forward hwire' =>
      rw [hwire] at hwire'
      obtain rfl := Frame.packet.inj (List.cons.inj hwire').1
      exact ⟨Function.update_self .., rfl⟩
  | receive _ hhost =>
      rw [hswitch] at hhost
      cases hhost

theorem fabric_rtTable {fab : Fabric n} {s : FabricState n α} {trace : FabricTrace n α}
    (hrun : (fabricSystem α fab).Run (fabricSystem α fab).init trace s) (v : Fin n) :
    ∀ x ∈ trace, (x.pre.dci v).rtTable = fab.driver.rtTable v := by
  have hinv := hrun.invariant (P := fun s => (s.dci v).rtTable = fab.driver.rtTable v) (by
    intro s e s' hs hnext
    rcases (fabricNext_step hnext).dci_cases v with hsame | ⟨uninit, p, -, hroute, -⟩
    · rw [hsame, hs]
    · rw [hroute, FabricState.outDev_rtTable, hs]) rfl
  exact fun x hx => (hinv.2 x hx).1

/-! ### Packets of a flow id at a DCI switch -/

/-- A packet with the flow id arrives at the switch. -/
def IdArrival (fab : Fabric n) (v : Fin n) (id : UInt64) (x : Transition (FabricState n α) (FabricEvent n α)) : Prop :=
  ∃ uninit p, Arrival fab x.pre x.label v uninit p ∧ p.ch.flowId = id

/-- The packets with the flow id that arrive at the switch are for one destination. -/
def OneDestination (fab : Fabric n) (v : Fin n) (id : UInt64) (dip : UInt32) (trace : FabricTrace n α) : Prop :=
  ∀ x ∈ trace, ∀ uninit p, Arrival fab x.pre x.label v uninit p → p.ch.flowId = id → p.ch.dip = dip

/-- Each of these packets comes within the time-out after the one before it. -/
def GapsWithin (fab : Fabric n) (v : Fin n) (id : UInt64) (trace : FabricTrace n α) : Prop :=
  ∀ before x between y after, trace = before ++ x :: (between ++ y :: after) → IdArrival fab v id x →
    IdArrival fab v id y → (∀ z ∈ between, ¬ IdArrival fab v id z) → y.pre.clock - x.pre.clock ≤ DciSwitch.idleTimeout

/-- What a DCI switch decides for the packet of a transition. -/
def SentTo (fab : Fabric n) (v : Fin n) (x : Transition (FabricState n α) (FabricEvent n α)) (port : UInt32) : Prop :=
  ∀ uninit p, Arrival fab x.pre x.label v uninit p → (x.pre.outDev fab v uninit p.ch).2 = some port

/-- No packet with the flow id has come yet. -/
structure Unseen (fab : Fabric n) (v : Fin n) (id : UInt64) (s : FabricState n α) : Prop where
  table : (s.dci v).rtTable = fab.driver.rtTable v
  lookup : (s.dci v).flow2outdev.lookup id = none

variable {fab : Fabric n} {v : Fin n} {id : UInt64} {dip : UInt32}

theorem OneDestination.front {before : FabricTrace n α} {x : Transition (FabricState n α) (FabricEvent n α)}
    (h : OneDestination fab v id dip (before ++ [x])) : OneDestination fab v id dip before := by
  intro y hy
  exact h y (List.mem_append_left _ hy)

theorem GapsWithin.front {before : FabricTrace n α} {x : Transition (FabricState n α) (FabricEvent n α)}
    (h : GapsWithin fab v id (before ++ [x])) : GapsWithin fab v id before := by
  intro front y between z after hsplit
  apply h front y between z (after ++ [x])
  rw [hsplit, List.append_assoc, List.cons_append, List.append_assoc, List.cons_append]

/-- Packets of other flow ids and everything else leave the entry as it is in mode 1. -/
theorem lookup_getOutDevUcmp_of_ne {cfg : DciConfig} (hmode : cfg.routingMode = .ucmp) (env : SwitchEnv) {ch : CustomHeader}
    (sw : DciSwitch) (hid : id ≠ ch.flowId) : (sw.getOutDev cfg env ch).1.flow2outdev.lookup id = sw.flow2outdev.lookup id := by
  simp only [DciSwitch.getOutDev]
  split
  · rfl
  · rw [hmode]
    simp only [DciSwitch.getOutDevUcmp]
    split
    · exact AList.lookup_insert_ne hid
    · rfl

/-- A packet of mode 1 leaves the port it was given under its flow id. -/
theorem lookup_getOutDevUcmp_self {cfg : DciConfig} (hmode : cfg.routingMode = .ucmp) (env : SwitchEnv) {ch : CustomHeader}
    (sw : DciSwitch) {nexthops : NextHops} (htable : sw.rtTable.lookup ch.dip = some nexthops) :
    ∃ e, (sw.getOutDev cfg env ch).2 = some e.outDevIdx ∧
      (sw.getOutDev cfg env ch).1.flow2outdev.lookup ch.flowId = some e := by
  simp only [DciSwitch.getOutDev, htable, hmode, DciSwitch.getOutDevUcmp]
  cases hfind : sw.flow2outdev.lookup ch.flowId with
  | none => exact ⟨_, rfl, AList.lookup_insert _⟩
  | some e => exact ⟨e, rfl, hfind⟩

/-- A packet whose flow id has no entry goes to one of the ports of its destination. -/
theorem port_of_unseen {cfg : DciConfig} {env : SwitchEnv} {ch : CustomHeader} {sw : DciSwitch} {nexthops : NextHops}
    (hmode : cfg.routingMode ≠ .ecmp) (htable : sw.rtTable.lookup ch.dip = some nexthops)
    (hnone : sw.flow2outdev.lookup ch.flowId = none) {port : UInt32} (hout : (sw.getOutDev cfg env ch).2 = some port) :
    port ∈ nexthops.ports := by
  refine DciSwitch.getOutDev_of_not_remembered htable ?_ hout
  unfold DciSwitch.remembered
  cases hm : cfg.routingMode with
  | ecmp => exact absurd hm hmode
  | ucmp => exact hnone
  | lcmp =>
      dsimp only
      rw [DciSwitch.lookup_cleanIdleFlows, hnone]
      rfl

theorem ports_eq_of_lookup {table : RtTable} {nexthops : NextHops} (h : table.lookup dip = some nexthops) :
    table.ports dip = nexthops.ports := by
  unfold RtTable.ports
  rw [h]

/-- A packet without a port for its destination goes nowhere. -/
theorem FabricState.route_eq_none {s : FabricState n α} {uninit : UInt32} {ch : CustomHeader}
    (htable : (s.dci v).rtTable = fab.driver.rtTable v) (hports : (fab.driver.rtTable v).ports ch.dip = []) :
    s.route fab v uninit ch = none := by
  by_cases hnode : fab.driver.topo.nodeType v = .dciSwitch
  · have hlookup : (s.dci v).rtTable.lookup ch.dip = none := by
      rw [htable]
      by_contra hsome
      obtain ⟨hops, hhops⟩ := Option.ne_none_iff_exists'.mp hsome
      rw [ports_eq_of_lookup hhops] at hports
      exact hops.nonempty hports
    unfold FabricState.route
    rw [FabricState.outDev_dci hnode, DciSwitch.getOutDev_none hlookup]
    rfl
  · rw [FabricState.route_plain hnode]
    unfold RouteDriver.nextNode
    rw [RtTable.getOutDev_eq_none hports]
    rfl

theorem exists_lookup_of_ports {table : RtTable} (h : table.ports dip ≠ []) : ∃ nexthops, table.lookup dip = some nexthops := by
  unfold RtTable.ports at h
  split at h
  · exact absurd rfl h
  · exact ⟨_, ‹_›⟩

/-- What a step means for one DCI switch. -/
inductive DciChange (fab : Fabric n) (v : Fin n) (id : UInt64) (x : Transition (FabricState n α) (FabricEvent n α)) :
    Prop where
  | idle (hnot : ¬ IdArrival fab v id x) (hsame : x.post.dci v = x.pre.dci v) (hclock : x.pre.clock ≤ x.post.clock)
  | other (hnot : ¬ IdArrival fab v id x) {uninit : UInt32} {p : NetPacket α} (hid : id ≠ p.ch.flowId)
      (hpost : x.post.dci v = ((x.pre.dci v).getOutDev (fab.dci v) (x.pre.env fab v uninit) p.ch).1)
      (hclock : x.post.clock = x.pre.clock)
  | own {uninit : UInt32} {p : NetPacket α} (harrival : Arrival fab x.pre x.label v uninit p) (hid : p.ch.flowId = id)
      (hpost : x.post.dci v = ((x.pre.dci v).getOutDev (fab.dci v) (x.pre.env fab v uninit) p.ch).1)
      (hout : ∀ port, ((x.pre.dci v).getOutDev (fab.dci v) (x.pre.env fab v uninit) p.ch).2 = some port → SentTo fab v x port)
      (hclock : x.post.clock = x.pre.clock)

theorem dciChange (hnode : fab.driver.topo.nodeType v = .dciSwitch) (id : UInt64)
    {x : Transition (FabricState n α) (FabricEvent n α)} (hnext : (fabricSystem α fab).next x.pre x.label = some x.post) :
    DciChange fab v id x := by
  have hstep := fabricNext_step hnext
  by_cases harrives : ∃ uninit p, Arrival fab x.pre x.label v uninit p
  · obtain ⟨uninit, p, harrival⟩ := harrives
    obtain ⟨hpost, hclock⟩ := hstep.dci_of_arrival harrival
    rw [FabricState.outDev_dci hnode] at hpost
    by_cases hid : p.ch.flowId = id
    · refine .own harrival hid hpost (fun port hport uninit' p' harrival' => ?_) hclock
      obtain ⟨rfl, rfl⟩ := harrival.unique harrival'
      rw [FabricState.outDev_dci hnode]
      exact hport
    · refine .other ?_ (Ne.symm hid) hpost hclock
      rintro ⟨uninit', p', harrival', hid'⟩
      obtain ⟨rfl, rfl⟩ := harrival.unique harrival'
      exact hid hid'
  · refine .idle ?_ ?_ hstep.clock_le
    · rintro ⟨uninit, p, harrival, -⟩
      exact harrives ⟨uninit, p, harrival⟩
    · rcases hstep.dci_cases v with hsame | ⟨uninit, p, harrival, -⟩
      · exact hsame
      · exact absurd ⟨uninit, p, harrival⟩ harrives

theorem DciChange.rtTable {x : Transition (FabricState n α) (FabricEvent n α)} (h : DciChange fab v id x) :
    (x.post.dci v).rtTable = (x.pre.dci v).rtTable := by
  cases h with
  | idle _ hsame _ => rw [hsame]
  | other _ _ hpost _ => rw [hpost, DciSwitch.getOutDev_rtTable]
  | own _ _ hpost _ _ => rw [hpost, DciSwitch.getOutDev_rtTable]

theorem DciChange.unseen (hmode : (fab.dci v).routingMode ≠ .ecmp) {x : Transition (FabricState n α) (FabricEvent n α)}
    (h : DciChange fab v id x) (hnot : ¬ IdArrival fab v id x) (hunseen : Unseen fab v id x.pre) : Unseen fab v id x.post := by
  refine ⟨h.rtTable.trans hunseen.table, ?_⟩
  cases h with
  | idle _ hsame _ => rw [hsame, hunseen.lookup]
  | @other _ uninit p hid hpost _ =>
      rw [hpost]
      cases hm : (fab.dci v).routingMode with
      | ecmp => exact absurd hm hmode
      | ucmp => rw [lookup_getOutDevUcmp_of_ne hm _ _ hid, hunseen.lookup]
      | lcmp =>
          rcases DciSwitch.lookup_getOutDev_of_ne (x.pre.env fab v uninit) (x.pre.dci v) hm hid with hsame | hswept
          · rw [hsame, hunseen.lookup]
          · rw [hswept, hunseen.lookup]
            rfl
  | own harrival hid _ _ _ => exact absurd ⟨_, _, harrival, hid⟩ hnot

/-- The port that mode 1 remembers. -/
structure HeldUcmp (fab : Fabric n) (v : Fin n) (id : UInt64) (dip : UInt32) (port : UInt32) (s : FabricState n α) : Prop where
  table : (s.dci v).rtTable = fab.driver.rtTable v
  mem : port ∈ (fab.driver.rtTable v).ports dip
  lookup : ∃ e, (s.dci v).flow2outdev.lookup id = some e ∧ e.outDevIdx = port

/-- The port that mode 2 remembers since the last packet. -/
structure HeldLcmp (fab : Fabric n) (v : Fin n) (id : UInt64) (dip : UInt32) (port : UInt32) (before : FabricTrace n α)
    (s : FabricState n α) : Prop where
  table : (s.dci v).rtTable = fab.driver.rtTable v
  mem : port ∈ (fab.driver.rtTable v).ports dip
  kept : ∃ front x back, before = front ++ x :: back ∧ IdArrival fab v id x ∧ (∀ z ∈ back, ¬ IdArrival fab v id z) ∧
    Kept id port x.pre.clock ⟨s.dci v, s.clock⟩

/-- A packet of the flow id that the switch routes by the entry of its destination. -/
structure Routed (fab : Fabric n) (v : Fin n) (id : UInt64) (nexthops : NextHops)
    (x : Transition (FabricState n α) (FabricEvent n α)) (uninit : UInt32) (p : NetPacket α) : Prop where
  flow : p.ch.flowId = id
  lookup : (x.pre.dci v).rtTable.lookup p.ch.dip = some nexthops
  post : x.post.dci v = ((x.pre.dci v).getOutDev (fab.dci v) (x.pre.env fab v uninit) p.ch).1
  sent : ∀ port, ((x.pre.dci v).getOutDev (fab.dci v) (x.pre.env fab v uninit) p.ch).2 = some port → SentTo fab v x port

section Steps

variable {before : FabricTrace n α} {x : Transition (FabricState n α) (FabricEvent n α)} {nexthops : NextHops} {port : UInt32}

theorem DciChange.routed (h : DciChange fab v id x) (hx : IdArrival fab v id x)
    (hlookup : (fab.driver.rtTable v).lookup dip = some nexthops) (htable : (x.pre.dci v).rtTable = fab.driver.rtTable v)
    (hone : OneDestination fab v id dip (before ++ [x])) : ∃ uninit p, Routed fab v id nexthops x uninit p := by
  cases h with
  | idle hnot => exact absurd hx hnot
  | other hnot => exact absurd hx hnot
  | @own uninit p harrival hid hpost hout _ =>
      have hdip := hone x (List.mem_append_right _ List.mem_cons_self) uninit p harrival hid
      exact ⟨uninit, p, hid, by rw [htable, hdip, hlookup], hpost, hout⟩

theorem Routed.mem_ports {uninit : UInt32} {p : NetPacket α} (h : Routed fab v id nexthops x uninit p)
    (hmode : (fab.dci v).routingMode ≠ .ecmp) (hlookup : (fab.driver.rtTable v).lookup dip = some nexthops)
    (hunseen : Unseen fab v id x.pre)
    (hsent : ((x.pre.dci v).getOutDev (fab.dci v) (x.pre.env fab v uninit) p.ch).2 = some port) :
    port ∈ (fab.driver.rtTable v).ports dip := by
  rw [ports_eq_of_lookup hlookup]
  exact port_of_unseen hmode h.lookup (h.flow ▸ hunseen.lookup) hsent

/-! ### The port that mode 1 remembers -/

theorem heldUcmp_first (hmode : (fab.dci v).routingMode = .ucmp) (hlookup : (fab.driver.rtTable v).lookup dip = some nexthops)
    (h : DciChange fab v id x) (hx : IdArrival fab v id x) (hone : OneDestination fab v id dip (before ++ [x]))
    (hunseen : Unseen fab v id x.pre) : ∃ port, SentTo fab v x port ∧ HeldUcmp fab v id dip port x.post := by
  obtain ⟨uninit, p, hrouted⟩ := h.routed hx hlookup hunseen.table hone
  obtain ⟨e, hsent, hentry⟩ := lookup_getOutDevUcmp_self hmode (x.pre.env fab v uninit) (x.pre.dci v) hrouted.lookup
  refine ⟨e.outDevIdx, hrouted.sent _ hsent, h.rtTable.trans hunseen.table, ?_, e, ?_, rfl⟩
  · exact hrouted.mem_ports (by simp [hmode]) hlookup hunseen hsent
  · rw [hrouted.post, ← hrouted.flow]
    exact hentry

theorem HeldUcmp.keep (hheld : HeldUcmp fab v id dip port x.pre) (hmode : (fab.dci v).routingMode = .ucmp)
    (h : DciChange fab v id x) (hnot : ¬ IdArrival fab v id x) : HeldUcmp fab v id dip port x.post := by
  refine ⟨h.rtTable.trans hheld.table, hheld.mem, ?_⟩
  obtain ⟨e, he, hport⟩ := hheld.lookup
  cases h with
  | idle _ hsame _ => exact ⟨e, by rw [hsame, he], hport⟩
  | other _ hid hpost _ => exact ⟨e, by rw [hpost, lookup_getOutDevUcmp_of_ne hmode _ _ hid, he], hport⟩
  | own harrival hid _ _ _ => exact absurd ⟨_, _, harrival, hid⟩ hnot

theorem HeldUcmp.again (hheld : HeldUcmp fab v id dip port x.pre) (hmode : (fab.dci v).routingMode = .ucmp)
    (hlookup : (fab.driver.rtTable v).lookup dip = some nexthops) (h : DciChange fab v id x) (hx : IdArrival fab v id x)
    (hone : OneDestination fab v id dip (before ++ [x])) : SentTo fab v x port ∧ HeldUcmp fab v id dip port x.post := by
  obtain ⟨e, he, hport⟩ := hheld.lookup
  obtain ⟨uninit, p, hrouted⟩ := h.routed hx hlookup hheld.table hone
  have hremembered : (x.pre.dci v).remembered (fab.dci v) (x.pre.env fab v uninit) p.ch = some e := by
    unfold DciSwitch.remembered
    rw [hmode, hrouted.flow]
    exact he
  have hsent := DciSwitch.getOutDev_of_remembered hrouted.lookup hremembered
  obtain ⟨e', hsent', hentry⟩ := lookup_getOutDevUcmp_self hmode (x.pre.env fab v uninit) (x.pre.dci v) hrouted.lookup
  rw [hport] at hsent
  refine ⟨hrouted.sent port hsent, h.rtTable.trans hheld.table, hheld.mem, e', ?_, ?_⟩
  · rw [hrouted.post, ← hrouted.flow]
    exact hentry
  · exact Option.some.inj (hsent'.symm.trans hsent)

/-! ### The port that mode 2 remembers -/

/-- A packet that is sent leaves the port and the time at which it came. -/
theorem Routed.heldLcmp {uninit : UInt32} {p : NetPacket α} (hrouted : Routed fab v id nexthops x uninit p)
    (hmode : (fab.dci v).routingMode = .lcmp) (h : DciChange fab v id x) (hx : IdArrival fab v id x)
    (htable : (x.pre.dci v).rtTable = fab.driver.rtTable v) (hmem : port ∈ (fab.driver.rtTable v).ports dip)
    (hsent : ((x.pre.dci v).getOutDev (fab.dci v) (x.pre.env fab v uninit) p.ch).2 = some port) :
    SentTo fab v x port ∧ HeldLcmp fab v id dip port (before ++ [x]) x.post := by
  obtain ⟨port', hsent', hentry⟩ := DciSwitch.lookup_getOutDev_self (x.pre.env fab v uninit) (x.pre.dci v) hmode hrouted.lookup
  obtain rfl := Option.some.inj (hsent'.symm.trans hsent)
  refine ⟨hrouted.sent port' hsent, h.rtTable.trans htable, hmem, before, x, [], rfl, hx, by simp, .inl ?_⟩
  dsimp only
  rw [hrouted.post, ← hrouted.flow]
  exact hentry

theorem heldLcmp_first (hmode : (fab.dci v).routingMode = .lcmp) (hlookup : (fab.driver.rtTable v).lookup dip = some nexthops)
    (h : DciChange fab v id x) (hx : IdArrival fab v id x) (hone : OneDestination fab v id dip (before ++ [x]))
    (hunseen : Unseen fab v id x.pre) :
    ∃ port, SentTo fab v x port ∧ HeldLcmp fab v id dip port (before ++ [x]) x.post := by
  obtain ⟨uninit, p, hrouted⟩ := h.routed hx hlookup hunseen.table hone
  obtain ⟨port, hsent, -⟩ := DciSwitch.lookup_getOutDev_self (x.pre.env fab v uninit) (x.pre.dci v) hmode hrouted.lookup
  have hmem := hrouted.mem_ports (by simp [hmode]) hlookup hunseen hsent
  exact ⟨port, hrouted.heldLcmp hmode h hx hunseen.table hmem hsent⟩

theorem HeldLcmp.keep (hheld : HeldLcmp fab v id dip port before x.pre) (hmode : (fab.dci v).routingMode = .lcmp)
    (h : DciChange fab v id x) (hnot : ¬ IdArrival fab v id x) : HeldLcmp fab v id dip port (before ++ [x]) x.post := by
  refine ⟨h.rtTable.trans hheld.table, hheld.mem, ?_⟩
  obtain ⟨front, y, back, rfl, hy, hback, hkept⟩ := hheld.kept
  refine ⟨front, y, back ++ [x], by rw [List.append_assoc, List.cons_append], hy, fun z hz => ?_, ?_⟩
  · rcases List.mem_append.mp hz with hz | hz
    · exact hback z hz
    · exact List.mem_singleton.mp hz ▸ hnot
  · cases h with
    | idle _ hsame hclock =>
        rw [hsame]
        rcases hkept with hthere | ⟨hgone, hidle⟩
        · exact .inl hthere
        · refine .inr ⟨hgone, ?_⟩
          dsimp only at hidle ⊢
          omega
    | @other _ uninit p hid hpost hclock =>
        have hnext : dciNext (fab.dci v) ⟨x.pre.dci v, x.pre.clock⟩ (.packet p.ch (x.pre.env fab v uninit)) =
            some ⟨x.post.dci v, x.post.clock⟩ := by
          rw [hpost, hclock]
          exact if_pos (Int.le_refl _)
        have hother : ¬ IsPacketOf id (.packet p.ch (x.pre.env fab v uninit)) := fun he => hid (Eq.symm he)
        exact (kept_step hmode hkept hother hnext).1
    | own harrival hid _ _ _ => exact absurd ⟨_, _, harrival, hid⟩ hnot

theorem HeldLcmp.again (hheld : HeldLcmp fab v id dip port before x.pre) (hmode : (fab.dci v).routingMode = .lcmp)
    (hlookup : (fab.driver.rtTable v).lookup dip = some nexthops) (h : DciChange fab v id x) (hx : IdArrival fab v id x)
    (hone : OneDestination fab v id dip (before ++ [x])) (hgaps : GapsWithin fab v id (before ++ [x])) :
    SentTo fab v x port ∧ HeldLcmp fab v id dip port (before ++ [x]) x.post := by
  obtain ⟨uninit, p, hrouted⟩ := h.routed hx hlookup hheld.table hone
  obtain ⟨front, y, back, hbefore, hy, hback, hkept⟩ := hheld.kept
  have hgap : x.pre.clock - y.pre.clock ≤ DciSwitch.idleTimeout := by
    apply hgaps front y back x [] _ hy hx hback
    rw [hbefore, List.append_assoc, List.cons_append]
  have hthere : (x.pre.dci v).flow2outdev.lookup id = some ⟨port, y.pre.clock⟩ := by
    rcases hkept with hthere | ⟨-, hidle⟩
    · exact hthere
    · dsimp only at hidle
      omega
  have hremembered : (x.pre.dci v).remembered (fab.dci v) (x.pre.env fab v uninit) p.ch = some ⟨port, y.pre.clock⟩ := by
    unfold DciSwitch.remembered
    rw [hmode]
    dsimp only
    rw [DciSwitch.lookup_cleanIdleFlows, hrouted.flow, hthere]
    have hfresh : ¬ x.pre.clock - y.pre.clock > DciSwitch.idleTimeout := by omega
    simp [Option.filter, FabricState.env, hfresh]
  have hsent := DciSwitch.getOutDev_of_remembered hrouted.lookup hremembered
  exact hrouted.heldLcmp hmode h hx hheld.table hheld.mem hsent

end Steps

/-! ### In a run -/

section Runs

variable {s : FabricState n α} {trace : FabricTrace n α}

theorem settles_ucmp (hnode : fab.driver.topo.nodeType v = .dciSwitch) (hmode : (fab.dci v).routingMode = .ucmp)
    (hports : (fab.driver.rtTable v).ports dip ≠ [])
    (hrun : (fabricSystem α fab).Run (fabricSystem α fab).init trace s) (hone : OneDestination fab v id dip trace) :
    (∀ x ∈ trace, ¬ IdArrival fab v id x) ∨
      ∃ port ∈ (fab.driver.rtTable v).ports dip, ∀ x ∈ trace, IdArrival fab v id x → SentTo fab v x port := by
  obtain ⟨nexthops, hlookup⟩ := exists_lookup_of_ports hports
  have hsettles := hrun.settles (A := IdArrival fab v id) (O := SentTo fab v) (G := OneDestination fab v id dip)
    (F := Unseen fab v id) (H := fun port _ s => HeldUcmp fab v id dip port s) hone (fun _ _ => OneDestination.front)
    ⟨rfl, rfl⟩ (fun x hnext => (dciChange hnode id hnext).unseen (by simp [hmode]))
    (fun before x hone hnext hx => heldUcmp_first hmode hlookup (dciChange hnode id hnext) hx hone)
    (fun before x port hnext hnot hheld => hheld.keep hmode (dciChange hnode id hnext) hnot)
    (fun before x port hone hnext hx hheld => hheld.again hmode hlookup (dciChange hnode id hnext) hx hone)
  rcases hsettles with hnone | ⟨port, hall, hheld⟩
  · exact .inl hnone
  · exact .inr ⟨port, hheld.mem, hall⟩

theorem settles_lcmp (hnode : fab.driver.topo.nodeType v = .dciSwitch) (hmode : (fab.dci v).routingMode = .lcmp)
    (hports : (fab.driver.rtTable v).ports dip ≠ [])
    (hrun : (fabricSystem α fab).Run (fabricSystem α fab).init trace s) (hone : OneDestination fab v id dip trace)
    (hgaps : GapsWithin fab v id trace) :
    (∀ x ∈ trace, ¬ IdArrival fab v id x) ∨
      ∃ port ∈ (fab.driver.rtTable v).ports dip, ∀ x ∈ trace, IdArrival fab v id x → SentTo fab v x port := by
  obtain ⟨nexthops, hlookup⟩ := exists_lookup_of_ports hports
  have hsettles := hrun.settles (A := IdArrival fab v id) (O := SentTo fab v)
    (G := fun trace => OneDestination fab v id dip trace ∧ GapsWithin fab v id trace) (F := Unseen fab v id)
    (H := HeldLcmp fab v id dip) ⟨hone, hgaps⟩ (fun _ _ h => ⟨h.1.front, h.2.front⟩) ⟨rfl, rfl⟩
    (fun x hnext => (dciChange hnode id hnext).unseen (by simp [hmode]))
    (fun before x hguard hnext hx => heldLcmp_first hmode hlookup (dciChange hnode id hnext) hx hguard.1)
    (fun before x port hnext hnot hheld => hheld.keep hmode (dciChange hnode id hnext) hnot)
    (fun before x port hguard hnext hx hheld =>
      hheld.again hmode hlookup (dciChange hnode id hnext) hx hguard.1 hguard.2)
  rcases hsettles with hnone | ⟨port, hall, hheld⟩
  · exact .inl hnone
  · exact .inr ⟨port, hheld.mem, hall⟩

end Runs

end Lcmp
