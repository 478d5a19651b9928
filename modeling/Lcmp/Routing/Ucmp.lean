import Lcmp.Routing.DciSwitch

/-!
# Independence of flows in mode 1

With a fixed table, the first packet under a flow id decides the port of all that follow under the
same id. A flow keeps to its own choice in every history exactly when no other tuple of the address
plan shares its flow id and chooses differently. The flow id does not separate the address plan.
-/

namespace Lcmp

/-- A TCP, UDP, ACK or NACK packet between hosts, whose addresses come from their node ids. -/
def InPlan (ch : CustomHeader) : Prop :=
  ch.hasPorts = true ∧ (∃ id, ch.sip = nodeIdToIp id) ∧ ∃ id, ch.dip = nodeIdToIp id

/-- A packet of the flow that `f` belongs to. -/
def SameTuple (f ch : CustomHeader) : Prop :=
  ch.sip = f.sip ∧ ch.dip = f.dip ∧ ch.sport = f.sport ∧ ch.dport = f.dport

/-- The next hop of largest bandwidth that the hash of the flow's own tuple selects. -/
def ownChoice (cfg : DciConfig) (nexthops : NextHops) (f : CustomHeader) : UInt32 :=
  DciSwitch.ucmpSelect cfg nexthops (ecmpHash (f.hashKey 0) [] cfg.ecmpSeed)

/-- A switch with a routing table that has seen no packet. -/
def DciSwitch.withTable (table : RtTable) : DciSwitch := { DciSwitch.new with rtTable := table }

/-- A history of packets of the address plan. -/
def PlanHistory (cfg : DciConfig) (table : RtTable) (trace : List (Transition DciState DciEvent)) : Prop :=
  (∃ s, (dciSystem cfg (.withTable table)).Run (dciSystem cfg (.withTable table)).init trace s) ∧
    ∀ x ∈ trace, ∃ ch env, x.label = .packet ch env ∧ InPlan ch

/-- Packets of the flow of `f` go to the flow's own choice in every history, so to the same port in
any two. -/
def Independent (cfg : DciConfig) (table : RtTable) (nexthops : NextHops) (f : CustomHeader) : Prop :=
  ∀ trace trace', PlanHistory cfg table trace → PlanHistory cfg table trace' →
    ∀ x ∈ trace, ∀ x' ∈ trace', ∀ ch env ch' env', x.label = .packet ch env → x'.label = .packet ch' env' →
      SameTuple f ch → SameTuple f ch' →
      (x.pre.sw.getOutDev cfg env ch).2 = (x'.pre.sw.getOutDev cfg env' ch').2 ∧
      (x.pre.sw.getOutDev cfg env ch).2 = some (ownChoice cfg nexthops f)

/-- Every tuple of the address plan that shares the flow id of `f` makes the same choice. -/
def Separated (cfg : DciConfig) (table : RtTable) (nexthops : NextHops) (f : CustomHeader) : Prop :=
  ∀ g nexthops', InPlan g → table.lookup g.dip = some nexthops' → g.flowId = f.flowId →
    ownChoice cfg nexthops' g = ownChoice cfg nexthops f

theorem ucmpSelect_flowHash (cfg : DciConfig) (env : SwitchEnv) (nexthops : NextHops) {ch : CustomHeader}
    (hports : ch.hasPorts = true) :
    DciSwitch.ucmpSelect cfg nexthops (DciSwitch.flowHash cfg env ch) = ownChoice cfg nexthops ch := by
  rw [DciSwitch.flowHash, ownChoice, CustomHeader.hashKey_congr hports hports rfl rfl rfl rfl env.uninit 0]

theorem ownChoice_congr (cfg : DciConfig) (nexthops : NextHops) {f ch : CustomHeader}
    (hf : f.hasPorts = true) (hports : ch.hasPorts = true) (h : SameTuple f ch) :
    ownChoice cfg nexthops ch = ownChoice cfg nexthops f := by
  obtain ⟨hsip, hdip, hsport, hdport⟩ := h
  rw [ownChoice, ownChoice, CustomHeader.hashKey_congr hports hf hsip hdip hsport hdport 0 0]

/-! ### What is remembered -/

/-- The table is the one given, and every remembered port is the own choice of some tuple of the
address plan with that flow id. -/
structure PlanOnly (cfg : DciConfig) (table : RtTable) (s : DciState) : Prop where
  rtTable : s.sw.rtTable = table
  own : ∀ id e, s.sw.flow2outdev.lookup id = some e →
    ∃ g nexthops, InPlan g ∧ table.lookup g.dip = some nexthops ∧ g.flowId = id ∧
      e.outDevIdx = ownChoice cfg nexthops g

variable {cfg : DciConfig} {table : RtTable}

theorem getOutDev_ucmp (hmode : cfg.routingMode = .ucmp) {sw : DciSwitch} {nexthops : NextHops}
    {ch : CustomHeader} (env : SwitchEnv) (hports : ch.hasPorts = true)
    (htable : sw.rtTable.lookup ch.dip = some nexthops) :
    (sw.getOutDev cfg env ch).2 = some (match sw.flow2outdev.lookup ch.flowId with
      | none => ownChoice cfg nexthops ch
      | some e => e.outDevIdx) := by
  simp only [DciSwitch.getOutDev, htable, hmode, DciSwitch.getOutDevUcmp]
  cases sw.flow2outdev.lookup ch.flowId with
  | none => exact congrArg some (ucmpSelect_flowHash cfg env nexthops hports)
  | some e => rfl

theorem planOnly_step (hmode : cfg.routingMode = .ucmp) {s t : DciState} {event : DciEvent}
    (h : PlanOnly cfg table s) (hplan : ∃ ch env, event = .packet ch env ∧ InPlan ch)
    (hnext : dciNext cfg s event = some t) : PlanOnly cfg table t := by
  obtain ⟨ch, env, rfl, hin⟩ := hplan
  obtain ⟨-, rfl⟩ := dciNext_packet hnext
  refine ⟨DciSwitch.getOutDev_rtTable.trans h.rtTable, ?_⟩
  intro id e he
  rcases DciSwitch.lookup_getOutDev he with hold | ⟨rfl, hout⟩
  · exact h.own id e hold
  · cases htable : s.sw.rtTable.lookup ch.dip with
    | none =>
        rw [DciSwitch.getOutDev_none htable] at hout
        cases hout
    | some nexthops =>
        rw [getOutDev_ucmp hmode env hin.1 htable, Option.some.injEq] at hout
        cases hfind : s.sw.flow2outdev.lookup ch.flowId with
        | none =>
            rw [hfind] at hout
            exact ⟨ch, nexthops, hin, h.rtTable ▸ htable, rfl, hout.symm⟩
        | some old =>
            rw [hfind] at hout
            obtain ⟨g, nexthops', hg, hgtable, hid, hown⟩ := h.own _ old hfind
            exact ⟨g, nexthops', hg, hgtable, hid, hout.symm.trans hown⟩

theorem planOnly_of_history (hmode : cfg.routingMode = .ucmp) {trace : List (Transition DciState DciEvent)}
    (h : PlanHistory cfg table trace) : ∀ x ∈ trace, PlanOnly cfg table x.pre := by
  obtain ⟨⟨s, hrun⟩, hplan⟩ := h
  have hstart : PlanOnly cfg table (dciSystem cfg (.withTable table)).init :=
    ⟨rfl, fun id e he => by simp [dciSystem, DciSwitch.withTable, DciSwitch.new] at he⟩
  have hall := hrun.invariant_of_guard (P := PlanOnly cfg table)
    (C := fun _ event => ∃ ch env, event = .packet ch env ∧ InPlan ch)
    (fun _ _ _ h hp hnext => planOnly_step hmode h hp hnext) hplan hstart
  exact fun x hx => (hall.2 x hx).1

/-- In mode 1 with a fixed table, a flow keeps to its own choice in every history of the address plan
exactly when every tuple of the plan with its flow id makes the same choice. -/
theorem independent_iff (hmode : cfg.routingMode = .ucmp) {f : CustomHeader} (hf : InPlan f)
    {nexthops : NextHops} (htable : table.lookup f.dip = some nexthops) :
    Independent cfg table nexthops f ↔ Separated cfg table nexthops f := by
  constructor
  · intro h g nexthops' hg hgtable hid
    -- the history in which one packet of `g` comes before one of `f`
    have hrun : (dciSystem cfg (.withTable table)).Run (dciSystem cfg (.withTable table)).init _ _ :=
      .cons (a := .packet g (quietEnv 0 [])) rfl (.cons (a := .packet f (quietEnv 0 [])) rfl (.nil _))
    have hhistory : PlanHistory cfg table _ := ⟨⟨_, hrun⟩, by
      intro x hx
      simp only [List.mem_cons, List.not_mem_nil, or_false] at hx
      rcases hx with rfl | rfl
      · exact ⟨g, _, rfl, hg⟩
      · exact ⟨f, _, rfl, hf⟩⟩
    have hsecond := (h _ _ hhistory hhistory _ (List.mem_cons_of_mem _ List.mem_cons_self) _
      (List.mem_cons_of_mem _ List.mem_cons_self) f _ f _ rfl rfl ⟨rfl, rfl, rfl, rfl⟩
      ⟨rfl, rfl, rfl, rfl⟩).2
    have hstored : ((DciSwitch.withTable table).getOutDev cfg (quietEnv 0 []) g).1.flow2outdev.lookup
        g.flowId = some ⟨ownChoice cfg nexthops' g, 0⟩ := by
      have hnone : (DciSwitch.withTable table).flow2outdev.lookup g.flowId = none := rfl
      have hgtable' : (DciSwitch.withTable table).rtTable.lookup g.dip = some nexthops' := hgtable
      simp only [DciSwitch.getOutDev, hgtable', hmode, DciSwitch.getOutDevUcmp, hnone]
      rw [AList.lookup_insert, ucmpSelect_flowHash cfg _ nexthops' hg.1]
      rfl
    have htable' : ((DciSwitch.withTable table).getOutDev cfg (quietEnv 0 []) g).1.rtTable.lookup f.dip =
        some nexthops := by
      rw [DciSwitch.getOutDev_rtTable]
      exact htable
    rw [hid] at hstored
    change (((DciSwitch.withTable table).getOutDev cfg (quietEnv 0 []) g).1.getOutDev cfg
      (quietEnv 0 []) f).2 = _ at hsecond
    rw [getOutDev_ucmp hmode _ hf.1 htable', hstored] at hsecond
    exact Option.some.inj hsecond
  · intro h trace trace' hhistory hhistory' x hx x' hx' ch env ch' env' hlabel hlabel' hch hch'
    have hown : ∀ trace, PlanHistory cfg table trace → ∀ x ∈ trace, ∀ ch env, x.label = .packet ch env →
        SameTuple f ch → (x.pre.sw.getOutDev cfg env ch).2 = some (ownChoice cfg nexthops f) := by
      intro trace hhistory x hx ch env hlabel hch
      have hplan := planOnly_of_history hmode hhistory x hx
      obtain ⟨ch₀, env₀, hlabel₀, hin⟩ := hhistory.2 x hx
      rw [hlabel] at hlabel₀
      obtain ⟨rfl, rfl⟩ := DciEvent.packet.inj hlabel₀
      have hentry : x.pre.sw.rtTable.lookup ch.dip = some nexthops := by
        rw [hplan.rtTable, hch.2.1]
        exact htable
      have hid : ch.flowId = f.flowId :=
        CustomHeader.flowId_congr (hin.1.trans hf.1.symm) hch.1 hch.2.1 hch.2.2.1 hch.2.2.2
      rw [getOutDev_ucmp hmode env hin.1 hentry]
      cases hfind : x.pre.sw.flow2outdev.lookup ch.flowId with
      | none => exact congrArg some (ownChoice_congr cfg nexthops hf.1 hin.1 hch)
      | some e =>
          obtain ⟨g, nexthops', hg, hgtable, hgid, hchoice⟩ := hplan.own _ e hfind
          exact congrArg some (hchoice.trans (h g nexthops' hg hgtable (hgid.trans hid)))
    have hx₁ := hown trace hhistory x hx ch env hlabel hch
    have hx₂ := hown trace' hhistory' x' hx' ch' env' hlabel' hch'
    exact ⟨hx₁.trans hx₂.symm, hx₁⟩

/-! ### Two hosts with one flow id -/

def ucmpConfig : DciConfig := { lcmpConfig with routingMode := .ucmp }

/-- Host 2 is behind ports 1 and 2. -/
def twoHopTable : RtTable := AList.insert (nodeIdToIp 2) ⟨[1, 2], by decide⟩ ∅

/-- A data packet of host `src` to host 2. -/
def toHostTwo (src : UInt32) : CustomHeader where
  sip := nodeIdToIp src
  dip := nodeIdToIp 2
  l3Prot := 0x11
  sport := 10000
  dport := 100

theorem toHostTwo_inPlan (src : UInt32) : InPlan (toHostTwo src) := ⟨rfl, ⟨src, rfl⟩, ⟨2, rfl⟩⟩

/-- The link behind port 2 is the faster one. -/
def unequalConfig : DciConfig :=
  { ucmpConfig with linkBw := fun port => if port = 2 then 400000000000 else 100000000000 }

theorem ucmpSelect_unequal (hash : UInt32) : DciSwitch.ucmpSelect unequalConfig ⟨[1, 2], by decide⟩ hash = 2 := by
  have hbest : DciSwitch.bestPaths unequalConfig [1, 2] = [2] := by decide
  have hne : DciSwitch.bestPaths unequalConfig [1, 2] ≠ [] := hbest ▸ List.cons_ne_nil 2 []
  have honly : ∀ port ∈ DciSwitch.bestPaths unequalConfig [1, 2], port = 2 := fun port hport =>
    List.mem_singleton.mp (hbest ▸ hport)
  rw [DciSwitch.ucmpSelect, dif_pos hne]
  exact honly _ (pick_mem hne hash)

/-- Every flow to host 2 takes the faster link, whatever its hash, so also the one that shares the flow id. -/
theorem independent_unequal : Independent unequalConfig twoHopTable ⟨[1, 2], by decide⟩ (toHostTwo 0) := by
  apply (independent_iff rfl (toHostTwo_inPlan 0) (AList.lookup_insert _)).mpr
  intro g nexthops' hg hgtable hid
  have hsame : nexthops' = ⟨[1, 2], by decide⟩ := by
    by_cases hdip : g.dip = (toHostTwo 0).dip
    · rw [hdip] at hgtable
      exact (Option.some.inj ((AList.lookup_insert _).symm.trans hgtable)).symm
    · have hother : (∅ : RtTable).lookup g.dip = some nexthops' := (AList.lookup_insert_ne hdip).symm.trans hgtable
      rw [AList.lookup_empty] at hother
      cases hother
  rw [hsame, ownChoice, ownChoice, ucmpSelect_unequal, ucmpSelect_unequal]

/-- The flows of hosts 0 and 1 to host 2 with the same ports share a flow id: after a packet of host 1
the flow of host 0 goes out of port 2, alone it goes out of port 1. -/
theorem not_independent_hosts_zero_one :
    (toHostTwo 0).flowId = (toHostTwo 1).flowId ∧
    ownChoice ucmpConfig ⟨[1, 2], by decide⟩ (toHostTwo 0) = 1 ∧
    ownChoice ucmpConfig ⟨[1, 2], by decide⟩ (toHostTwo 1) = 2 ∧
    ¬ Independent ucmpConfig twoHopTable ⟨[1, 2], by decide⟩ (toHostTwo 0) := by
  refine ⟨by decide, by decide +kernel, by decide +kernel, ?_⟩
  intro h
  have halone : PlanHistory ucmpConfig twoHopTable _ :=
    ⟨⟨_, .cons (a := .packet (toHostTwo 0) (quietEnv 0 [])) rfl (.nil _)⟩, by
      intro x hx
      obtain rfl := List.mem_singleton.mp hx
      exact ⟨_, _, rfl, toHostTwo_inPlan 0⟩⟩
  have hafter : PlanHistory ucmpConfig twoHopTable _ :=
    ⟨⟨_, .cons (a := .packet (toHostTwo 1) (quietEnv 0 [])) rfl
      (.cons (a := .packet (toHostTwo 0) (quietEnv 0 [])) rfl (.nil _))⟩, by
      intro x hx
      simp only [List.mem_cons, List.not_mem_nil, or_false] at hx
      rcases hx with rfl | rfl
      · exact ⟨_, _, rfl, toHostTwo_inPlan 1⟩
      · exact ⟨_, _, rfl, toHostTwo_inPlan 0⟩⟩
  have hsame := (h _ _ halone hafter _ List.mem_cons_self _ (List.mem_cons_of_mem _ List.mem_cons_self)
    _ _ _ _ rfl rfl ⟨rfl, rfl, rfl, rfl⟩ ⟨rfl, rfl, rfl, rfl⟩).1
  exact absurd hsame (by decide +kernel)

end Lcmp
