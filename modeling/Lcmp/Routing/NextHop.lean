import Lcmp.Routing.DciSwitch

/-!
# Next hops and remembered ports

`GetOutDev` sends a packet to one of the current next hops of its destination unless it remembers a
port for the packet's flow id. The table of remembered ports is keyed by a 32-bit mix of addresses and
ports and survives a rebuild of the routing table, so a remembered port can be stale. This module says
when it is.
-/

namespace Lcmp

variable (cfg : DciConfig)

/-- The port a packet is given is a next hop of its destination in the current table. -/
def ValidHop (s : DciState) : DciEvent → Prop
  | .packet ch env => ∀ nexthops port, s.sw.rtTable.lookup ch.dip = some nexthops →
      (s.sw.getOutDev cfg env ch).2 = some port → port ∈ nexthops.ports
  | _ => True

/-- If a port is remembered for the flow id of a packet, it is a next hop of the packet's destination
in the current table. -/
def RememberedHop (s : DciState) : DciEvent → Prop
  | .packet ch env => ∀ nexthops e, s.sw.rtTable.lookup ch.dip = some nexthops →
      s.sw.remembered cfg env ch = some e → e.outDevIdx ∈ nexthops.ports
  | _ => True

/-- The assertion of `SendToDev`, for a packet whose next hops are all up. -/
def LinkUpAssertion (s : DciState) : DciEvent → Prop
  | .packet ch env => ∀ nexthops port, s.sw.rtTable.lookup ch.dip = some nexthops →
      (∀ p ∈ nexthops.ports, env.isLinkUp p = true) →
      (s.sw.getOutDev cfg env ch).2 = some port → env.isLinkUp port = true
  | _ => True

def RememberedUp (s : DciState) : DciEvent → Prop
  | .packet ch env => ∀ nexthops e, s.sw.rtTable.lookup ch.dip = some nexthops →
      (∀ p ∈ nexthops.ports, env.isLinkUp p = true) →
      s.sw.remembered cfg env ch = some e → env.isLinkUp e.outDevIdx = true
  | _ => True

/-- Of two packets with one flow id, the destination of the later one has all the next hops that the
destination of the earlier one had then. Rebuilds may only add next hops, and flow ids only collide
between destinations with the same next hops. -/
def StableHops (trace : List (Transition DciState DciEvent)) : Prop :=
  ∀ before x between y after ch env ch' env' nexthops nexthops',
    trace = before ++ x :: between ++ y :: after →
    x.label = .packet ch env → y.label = .packet ch' env' → ch.flowId = ch'.flowId →
    x.pre.sw.rtTable.lookup ch.dip = some nexthops →
    y.pre.sw.rtTable.lookup ch'.dip = some nexthops' →
    nexthops.ports ⊆ nexthops'.ports

/-! ### One packet -/

theorem validHop_iff (s : DciState) (event : DciEvent) :
    ValidHop cfg s event ↔ RememberedHop cfg s event := by
  cases event with
  | packet ch env =>
      constructor
      · intro h nexthops e htable he
        exact h nexthops _ htable (DciSwitch.getOutDev_of_remembered htable he)
      · intro h nexthops port htable hout
        cases he : s.sw.remembered cfg env ch with
        | none => exact DciSwitch.getOutDev_of_not_remembered htable he hout
        | some e =>
            rw [DciSwitch.getOutDev_of_remembered htable he] at hout
            obtain rfl := Option.some.inj hout
            exact h nexthops e htable he
  | clearTable => exact Iff.rfl
  | addTableEntry dip intfIdx => exact Iff.rfl

theorem linkUpAssertion_iff (s : DciState) (event : DciEvent) :
    LinkUpAssertion cfg s event ↔ RememberedUp cfg s event := by
  cases event with
  | packet ch env =>
      constructor
      · intro h nexthops e htable hup he
        exact h nexthops _ htable hup (DciSwitch.getOutDev_of_remembered htable he)
      · intro h nexthops port htable hup hout
        cases he : s.sw.remembered cfg env ch with
        | none => exact hup port (DciSwitch.getOutDev_of_not_remembered htable he hout)
        | some e =>
            rw [DciSwitch.getOutDev_of_remembered htable he] at hout
            obtain rfl := Option.some.inj hout
            exact h nexthops e htable hup he
  | clearTable => exact Iff.rfl
  | addTableEntry dip intfIdx => exact Iff.rfl

/-! ### Where remembered ports come from -/

/-- Every remembered port was a next hop, at the time, of the destination of an earlier packet with
the same flow id. -/
def Recorded (before : List (Transition DciState DciEvent)) (s : DciState) : Prop :=
  ∀ id e, s.sw.flow2outdev.lookup id = some e →
    ∃ x ∈ before, ∃ ch env nexthops, x.label = .packet ch env ∧ ch.flowId = id ∧
      x.pre.sw.rtTable.lookup ch.dip = some nexthops ∧ e.outDevIdx ∈ nexthops.ports

theorem remembered_lookup {cfg : DciConfig} {env : SwitchEnv} {ch : CustomHeader} {sw : DciSwitch}
    {e : FlowEntry} (h : sw.remembered cfg env ch = some e) :
    sw.flow2outdev.lookup ch.flowId = some e := by
  unfold DciSwitch.remembered at h
  split at h
  · rw [DciSwitch.lookup_cleanIdleFlows] at h
    exact (Option.filter_eq_some_iff.mp h).1
  · exact h
  · cases h

theorem recorded_step (before : List (Transition DciState DciEvent)) (s : DciState)
    (event : DciEvent) (t : DciState) (h : Recorded before s) (hnext : dciNext cfg s event = some t) :
    Recorded (before ++ [⟨s, event, t⟩]) t := by
  have hold : ∀ id e, s.sw.flow2outdev.lookup id = some e →
      ∃ x ∈ before ++ [⟨s, event, t⟩], ∃ ch env nexthops, x.label = .packet ch env ∧ ch.flowId = id ∧
        x.pre.sw.rtTable.lookup ch.dip = some nexthops ∧ e.outDevIdx ∈ nexthops.ports := by
    intro id e he
    obtain ⟨x, hx, hfacts⟩ := h id e he
    exact ⟨x, List.mem_append_left _ hx, hfacts⟩
  cases event with
  | packet ch env =>
      obtain ⟨-, rfl⟩ := dciNext_packet hnext
      intro id e he
      rcases DciSwitch.lookup_getOutDev he with hkept | ⟨rfl, hout⟩
      · exact hold id e hkept
      · cases htable : s.sw.rtTable.lookup ch.dip with
        | none =>
            rw [DciSwitch.getOutDev_none htable] at hout
            cases hout
        | some nexthops =>
            -- a refreshed entry was recorded before, a new one is a current next hop
            cases hrem : s.sw.remembered cfg env ch with
            | some old =>
                rw [DciSwitch.getOutDev_of_remembered htable hrem, Option.some.injEq] at hout
                rw [← hout]
                exact hold _ old (remembered_lookup hrem)
            | none =>
                exact ⟨_, List.mem_append_right _ List.mem_cons_self, ch, env, nexthops, rfl, rfl,
                  htable, DciSwitch.getOutDev_of_not_remembered htable hrem hout⟩
  | clearTable =>
      obtain rfl := Option.some.inj hnext
      exact hold
  | addTableEntry dip intfIdx =>
      obtain rfl := Option.some.inj hnext
      exact hold

/-- In every run of a new switch, the packets are sent to current next hops exactly when every port
remembered for one of them is a current next hop, and the assertion of `SendToDev` holds exactly when
every such port is up. Both hold throughout a run whose next hops are stable. -/
theorem nextHop_run {trace : List (Transition DciState DciEvent)} {s : DciState}
    (hrun : (dciSystem cfg .new).Run (dciSystem cfg .new).init trace s) :
    ((∀ x ∈ trace, ValidHop cfg x.pre x.label) ↔ ∀ x ∈ trace, RememberedHop cfg x.pre x.label) ∧
    ((∀ x ∈ trace, LinkUpAssertion cfg x.pre x.label) ↔ ∀ x ∈ trace, RememberedUp cfg x.pre x.label) ∧
    (StableHops trace → ∀ x ∈ trace, ValidHop cfg x.pre x.label ∧ LinkUpAssertion cfg x.pre x.label) := by
  refine ⟨?_, ?_, ?_⟩
  · simp only [validHop_iff]
  · simp only [linkUpAssertion_iff]
  · intro hstable y hy
    obtain ⟨before, after, rfl⟩ := List.append_of_mem hy
    obtain ⟨hbefore, -, -⟩ := hrun.of_append_cons
    have hrecorded : Recorded before y.pre :=
      hbefore.history (P := Recorded) (by intro id e he; simp [dciSystem, DciSwitch.new] at he)
        (recorded_step cfg)
    have hvalid : ValidHop cfg y.pre y.label := by
      rw [validHop_iff]
      cases hlabel : y.label with
      | packet ch' env' =>
          intro nexthops' e htable he
          obtain ⟨x, hx, ch, env, nexthops, hpacket, hid, hold, hmem⟩ :=
            hrecorded _ e (remembered_lookup he)
          obtain ⟨first, between, rfl⟩ := List.append_of_mem hx
          exact hstable first x between y after ch env ch' env' nexthops nexthops' rfl hpacket hlabel
            hid hold htable hmem
      | clearTable => trivial
      | addTableEntry dip intfIdx => trivial
    refine ⟨hvalid, ?_⟩
    cases hlabel : y.label with
    | packet ch env =>
        intro nexthops port htable hup hout
        rw [hlabel] at hvalid
        exact hup port (hvalid nexthops port htable hout)
    | clearTable => trivial
    | addTableEntry dip intfIdx => trivial

/-! ### A rebuild that moves a flow -/

def rebuildEvents : List DciEvent :=
  [.addTableEntry flowPacket.dip 1, .packet flowPacket (quietEnv 1000 []), .clearTable,
    .addTableEntry flowPacket.dip 2]

/-- The link of port 1 is taken down between two packets of a flow: the second one is still sent out
of port 1. -/
theorem not_validHop_after_rebuild :
    ∃ s, (dciSystem lcmpConfig .new).exec (dciSystem lcmpConfig .new).init rebuildEvents = some s ∧
      (dciSystem lcmpConfig .new).Reachable s ∧
      (s.sw.getOutDev lcmpConfig (quietEnv 2000 [1]) flowPacket).2 = some 1 ∧
      ¬ ValidHop lcmpConfig s (.packet flowPacket (quietEnv 2000 [1])) ∧
      ¬ LinkUpAssertion lcmpConfig s (.packet flowPacket (quietEnv 2000 [1])) := by
  have hexec : (dciSystem lcmpConfig .new).exec (dciSystem lcmpConfig .new).init rebuildEvents = some _ := rfl
  refine ⟨_, hexec, System.reachable_of_exec rebuildEvents hexec, ?_, ?_, ?_⟩
  · decide +kernel
  · intro h
    have hport := h ⟨[2], by decide⟩ 1 (by decide +kernel) (by decide +kernel)
    exact absurd hport (by decide)
  · intro h
    have hlinks : ∀ p ∈ [(2 : UInt32)], (quietEnv 2000 [1]).isLinkUp p = true := by
      intro p hp
      obtain rfl := List.mem_singleton.mp hp
      decide
    have hup := h ⟨[2], by decide⟩ 1 (by decide +kernel) hlinks (by decide +kernel)
    exact absurd hup (by decide)

/-- One table: both packets of the flow go to a current next hop. -/
theorem nextHop_run_two_packets :
    ∃ trace s, (dciSystem lcmpConfig .new).Run (dciSystem lcmpConfig .new).init trace s ∧
      trace.map Transition.label = [.addTableEntry flowPacket.dip 1,
        .packet flowPacket (quietEnv 1000 []), .packet flowPacket (quietEnv 2000 [])] ∧
      ∀ x ∈ trace, ValidHop lcmpConfig x.pre x.label := by
  have hrun : (dciSystem lcmpConfig .new).Run (dciSystem lcmpConfig .new).init _ _ :=
    .cons (a := .addTableEntry flowPacket.dip 1) rfl
      (.cons (a := .packet flowPacket (quietEnv 1000 [])) rfl
        (.cons (a := .packet flowPacket (quietEnv 2000 [])) rfl (.nil _)))
  refine ⟨_, _, hrun, rfl, (nextHop_run lcmpConfig hrun).1.mpr ?_⟩
  intro x hx
  simp only [List.mem_cons, List.not_mem_nil, or_false] at hx
  rcases hx with rfl | rfl | rfl
  · trivial
  · intro nexthops e htable he
    exact absurd (he.symm.trans (show _ = none by decide +kernel)) (by simp)
  · intro nexthops e htable he
    obtain rfl := Option.some.inj (htable.symm.trans (show _ = some ⟨[1], by decide⟩ by decide +kernel))
    obtain rfl := Option.some.inj (he.symm.trans (show _ = some ⟨1, 1000⟩ by decide +kernel))
    decide

end Lcmp
