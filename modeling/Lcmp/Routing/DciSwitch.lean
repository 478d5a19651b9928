import Lcmp.Lib.Sweep
import Lcmp.Lib.Transition
import Lcmp.Routing.Cost

/-!
# The DCI switch

The routing table, the table of remembered flows and `GetOutDev` with its three modes, and the system
of packets and table changes around them.
-/

namespace Lcmp

inductive RoutingMode where
  | ecmp
  | ucmp
  | lcmp
  deriving DecidableEq

/-- The next hops of a destination. `AddTableEntry` only ever appends to them. -/
structure NextHops where
  ports : List UInt32
  nonempty : ports ≠ []
  deriving DecidableEq

/-- `m_rtTable`, which switches, DCI switches and hosts have alike. -/
abbrev RtTable := AList (fun _ : UInt32 => NextHops)

structure FlowEntry where
  outDevIdx : UInt32
  lastSeen : Int
  deriving DecidableEq

structure DciConfig extends CostConfig where
  ecmpSeed : UInt32
  routingMode : RoutingMode

/-- The state of `GetOutDev`. -/
structure DciSwitch where
  rtTable : AList (fun _ : UInt32 => NextHops)
  flow2outdev : AList (fun _ : UInt64 => FlowEntry)
  congState : UInt32 → CongestionState

namespace DciSwitch

def new : DciSwitch where
  rtTable := ∅
  flow2outdev := ∅
  congState := fun _ => .initial

def addTableEntry (sw : DciSwitch) (dip intfIdx : UInt32) : DciSwitch :=
  let ports := match sw.rtTable.lookup dip with
    | none => []
    | some hops => hops.ports
  { sw with rtTable := sw.rtTable.insert dip ⟨ports ++ [intfIdx], by simp⟩ }

def clearTable (sw : DciSwitch) : DciSwitch := { sw with rtTable := ∅ }

/-- `IDLE_TIMEOUT`, two seconds. -/
def idleTimeout : Int := 2000000000

def cleanIdleFlows (sw : DciSwitch) (now : Int) : DciSwitch :=
  { sw with flow2outdev := sw.flow2outdev.sweep fun e => now - e.lastSeen > idleTimeout }

def flowHash (cfg : DciConfig) (env : SwitchEnv) (ch : CustomHeader) : UInt32 :=
  ecmpHash (ch.hashKey env.uninit) [] cfg.ecmpSeed

/-- The branch of mode 2: `sw` has been cleaned. -/
def getOutDevLcmp (cfg : DciConfig) (env : SwitchEnv) (ch : CustomHeader) (nexthops : NextHops)
    (sw : DciSwitch) : DciSwitch × UInt32 :=
  match sw.flow2outdev.lookup ch.flowId with
  | none =>
      let selected := selectPath (costLoop cfg.toCostConfig env sw.congState nexthops.ports).2
        (costLoop_ne_nil _ _ _ nexthops.nonempty) (flowHash cfg env ch)
      ({ sw with
          congState := (costLoop cfg.toCostConfig env sw.congState nexthops.ports).1
          flow2outdev := sw.flow2outdev.insert ch.flowId ⟨selected, env.now⟩ },
        selected)
  | some e =>
      ({ sw with flow2outdev := sw.flow2outdev.insert ch.flowId { e with lastSeen := env.now } },
        e.outDevIdx)

def maxLinkBw (cfg : DciConfig) (ports : List UInt32) : UInt64 :=
  ports.foldl (fun best intf => if cfg.linkBw intf > best then cfg.linkBw intf else best) 0

def bestPaths (cfg : DciConfig) (ports : List UInt32) : List UInt32 :=
  ((ports.map fun intf => (cfg.linkBw intf, intf)).filter fun x => x.1 = maxLinkBw cfg ports).map Prod.snd

def ucmpSelect (cfg : DciConfig) (nexthops : NextHops) (hash : UInt32) : UInt32 :=
  if h : bestPaths cfg nexthops.ports ≠ [] then pick (bestPaths cfg nexthops.ports) h hash
  else nexthops.ports.head nexthops.nonempty

/-- The branch of mode 1. -/
def getOutDevUcmp (cfg : DciConfig) (env : SwitchEnv) (ch : CustomHeader) (nexthops : NextHops)
    (sw : DciSwitch) : DciSwitch × UInt32 :=
  match sw.flow2outdev.lookup ch.flowId with
  | none =>
      let selected := ucmpSelect cfg nexthops (flowHash cfg env ch)
      ({ sw with flow2outdev := sw.flow2outdev.insert ch.flowId ⟨selected, env.now⟩ }, selected)
  | some e => (sw, e.outDevIdx)

/-- The new state and the port, `none` for the result `-1`. -/
def getOutDev (cfg : DciConfig) (env : SwitchEnv) (ch : CustomHeader) (sw : DciSwitch) :
    DciSwitch × Option UInt32 :=
  match sw.rtTable.lookup ch.dip with
  | none => (sw, none)
  | some nexthops =>
      match cfg.routingMode with
      | .lcmp =>
          let r := getOutDevLcmp cfg env ch nexthops (sw.cleanIdleFlows env.now)
          (r.1, some r.2)
      | .ucmp =>
          let r := getOutDevUcmp cfg env ch nexthops sw
          (r.1, some r.2)
      | .ecmp => (sw, some (pick nexthops.ports nexthops.nonempty (flowHash cfg env ch)))

/-- The entry that `GetOutDev` finds for the flow of a packet, after the clean-up where there is one. -/
def remembered (cfg : DciConfig) (env : SwitchEnv) (ch : CustomHeader) (sw : DciSwitch) :
    Option FlowEntry :=
  match cfg.routingMode with
  | .lcmp => (sw.cleanIdleFlows env.now).flow2outdev.lookup ch.flowId
  | .ucmp => sw.flow2outdev.lookup ch.flowId
  | .ecmp => none

end DciSwitch

/-! ### The system around it -/

inductive DciEvent where
  | packet (ch : CustomHeader) (env : SwitchEnv)
  | clearTable
  | addTableEntry (dip intfIdx : UInt32)

/-- The switch and the simulation time, which never goes back. -/
structure DciState where
  sw : DciSwitch
  clock : Int

def dciNext (cfg : DciConfig) (s : DciState) : DciEvent → Option DciState
  | .packet ch env =>
      if s.clock ≤ env.now then some { sw := (s.sw.getOutDev cfg env ch).1, clock := env.now } else none
  | .clearTable => some { s with sw := s.sw.clearTable }
  | .addTableEntry dip intfIdx => some { s with sw := s.sw.addTableEntry dip intfIdx }

/-- A packet comes no earlier than the one before it, and the clock is at its arrival then. -/
theorem dciNext_packet {cfg : DciConfig} {s t : DciState} {ch : CustomHeader} {env : SwitchEnv}
    (h : dciNext cfg s (.packet ch env) = some t) :
    s.clock ≤ env.now ∧ t = { sw := (s.sw.getOutDev cfg env ch).1, clock := env.now } := by
  simp only [dciNext] at h
  split at h
  · rename_i hclock
    exact ⟨hclock, (Option.some.inj h).symm⟩
  · cases h

/-- The runs of a switch that starts as `sw`. -/
def dciSystem (cfg : DciConfig) (sw : DciSwitch) : System DciState DciEvent where
  init := { sw := sw, clock := 0 }
  next := dciNext cfg

namespace DciSwitch

/-! ### What `GetOutDev` returns -/

variable (cfg : DciConfig) (sw : DciSwitch)

theorem lookup_cleanIdleFlows (now : Int) (id : UInt64) :
    (sw.cleanIdleFlows now).flow2outdev.lookup id =
      (sw.flow2outdev.lookup id).filter fun e => !decide (now - e.lastSeen > idleTimeout) :=
  AList.lookup_sweep _ _ _

theorem bestPaths_subset (ports : List UInt32) : bestPaths cfg ports ⊆ ports := by
  intro port hport
  obtain ⟨x, hx, rfl⟩ := List.mem_map.mp hport
  obtain ⟨intf, hintf, rfl⟩ := List.mem_map.mp (List.mem_of_mem_filter hx)
  exact hintf

theorem ucmpSelect_mem (nexthops : NextHops) (hash : UInt32) :
    ucmpSelect cfg nexthops hash ∈ nexthops.ports := by
  simp only [ucmpSelect]
  split
  · exact bestPaths_subset cfg nexthops.ports (pick_mem _ _)
  · exact List.head_mem _

variable {cfg sw} {env : SwitchEnv} {ch : CustomHeader}

theorem getOutDev_none (h : sw.rtTable.lookup ch.dip = none) : sw.getOutDev cfg env ch = (sw, none) := by
  simp only [getOutDev, h]

/-- A destination with an entry always gets a port. -/
theorem getOutDev_isSome {nexthops : NextHops} (h : sw.rtTable.lookup ch.dip = some nexthops) :
    ∃ port, (sw.getOutDev cfg env ch).2 = some port := by
  simp only [getOutDev, h]
  cases cfg.routingMode with
  | ecmp => exact ⟨_, rfl⟩
  | ucmp => exact ⟨_, rfl⟩
  | lcmp => exact ⟨_, rfl⟩

/-- What `GetOutDev` does in mode 2 with a packet whose flow is remembered. -/
theorem getOutDev_lcmp_some {nexthops : NextHops} {e : FlowEntry} (hmode : cfg.routingMode = .lcmp)
    (htable : sw.rtTable.lookup ch.dip = some nexthops) (he : sw.remembered cfg env ch = some e) :
    sw.getOutDev cfg env ch = ({ sw.cleanIdleFlows env.now with
      flow2outdev := (sw.cleanIdleFlows env.now).flow2outdev.insert ch.flowId { e with lastSeen := env.now } },
      some e.outDevIdx) := by
  simp only [remembered, hmode] at he
  simp only [getOutDev, htable, hmode, getOutDevLcmp, he]

/-- What it does there with one whose flow is not. The clean-up leaves the trends alone. -/
theorem getOutDev_lcmp_none {nexthops : NextHops} (hmode : cfg.routingMode = .lcmp)
    (htable : sw.rtTable.lookup ch.dip = some nexthops) (he : sw.remembered cfg env ch = none) :
    sw.getOutDev cfg env ch = ({ sw.cleanIdleFlows env.now with
      congState := (costLoop cfg.toCostConfig env sw.congState nexthops.ports).1
      flow2outdev := (sw.cleanIdleFlows env.now).flow2outdev.insert ch.flowId
        ⟨selectPath (costLoop cfg.toCostConfig env sw.congState nexthops.ports).2
          (costLoop_ne_nil _ _ _ nexthops.nonempty) (flowHash cfg env ch), env.now⟩ },
      some (selectPath (costLoop cfg.toCostConfig env sw.congState nexthops.ports).2
        (costLoop_ne_nil _ _ _ nexthops.nonempty) (flowHash cfg env ch))) := by
  simp only [remembered, hmode] at he
  simp only [getOutDev, htable, hmode, getOutDevLcmp, he]
  rfl

/-- A remembered flow goes out where it went before. -/
theorem getOutDev_of_remembered {nexthops : NextHops} {e : FlowEntry}
    (h : sw.rtTable.lookup ch.dip = some nexthops) (he : sw.remembered cfg env ch = some e) :
    (sw.getOutDev cfg env ch).2 = some e.outDevIdx := by
  simp only [remembered] at he
  simp only [getOutDev, h]
  cases hmode : cfg.routingMode with
  | ecmp => simp [hmode] at he
  | ucmp =>
      rw [hmode] at he
      simp only [getOutDevUcmp, he]
  | lcmp =>
      rw [hmode] at he
      simp only [getOutDevLcmp, he]

/-- A flow that is not remembered goes to one of the current next hops. -/
theorem getOutDev_of_not_remembered {nexthops : NextHops} {port : UInt32}
    (h : sw.rtTable.lookup ch.dip = some nexthops) (he : sw.remembered cfg env ch = none)
    (hout : (sw.getOutDev cfg env ch).2 = some port) : port ∈ nexthops.ports := by
  simp only [remembered] at he
  simp only [getOutDev, h] at hout
  cases hmode : cfg.routingMode with
  | ecmp =>
      rw [hmode] at hout
      obtain rfl := Option.some.inj hout
      exact pick_mem _ _
  | ucmp =>
      rw [hmode] at he hout
      simp only [getOutDevUcmp, he, Option.some.injEq] at hout
      exact hout ▸ ucmpSelect_mem cfg nexthops _
  | lcmp =>
      rw [hmode] at he hout
      simp only [getOutDevLcmp, he, Option.some.injEq] at hout
      have hmem := selectPath_mem (costLoop_ne_nil cfg.toCostConfig env (sw.cleanIdleFlows env.now).congState
        nexthops.nonempty) (flowHash cfg env ch)
      rw [costLoop_ports] at hmem
      exact hout ▸ hmem

/-! ### What `GetOutDev` remembers -/

theorem getOutDev_rtTable : (sw.getOutDev cfg env ch).1.rtTable = sw.rtTable := by
  simp only [getOutDev]
  split
  · rfl
  · split
    · simp only [getOutDevLcmp]
      split <;> rfl
    · simp only [getOutDevUcmp]
      split <;> rfl
    · rfl

/-- An entry after a packet was there before or is the one of the packet's own flow, for the port the
packet was sent to. -/
theorem lookup_getOutDev {id : UInt64} {e : FlowEntry}
    (h : (sw.getOutDev cfg env ch).1.flow2outdev.lookup id = some e) :
    sw.flow2outdev.lookup id = some e ∨
      id = ch.flowId ∧ (sw.getOutDev cfg env ch).2 = some e.outDevIdx := by
  cases htable : sw.rtTable.lookup ch.dip with
  | none =>
      rw [getOutDev_none htable] at h
      exact .inl h
  | some nexthops =>
      have hkept : ∀ e', (sw.cleanIdleFlows env.now).flow2outdev.lookup id = some e' →
          sw.flow2outdev.lookup id = some e' := by
        intro e' he'
        rw [lookup_cleanIdleFlows] at he'
        exact (Option.filter_eq_some_iff.mp he').1
      simp only [getOutDev, htable] at h ⊢
      cases hmode : cfg.routingMode with
      | ecmp =>
          rw [hmode] at h
          exact .inl h
      | ucmp =>
          simp only [hmode, getOutDevUcmp] at h ⊢
          cases hfind : sw.flow2outdev.lookup ch.flowId with
          | none =>
              simp only [hfind] at h ⊢
              rcases AList.lookup_insert_cases h with ⟨hid, rfl⟩ | hbefore
              · exact .inr ⟨hid, rfl⟩
              · exact .inl hbefore
          | some old =>
              simp only [hfind] at h
              exact .inl h
      | lcmp =>
          simp only [hmode, getOutDevLcmp] at h ⊢
          cases hfind : (sw.cleanIdleFlows env.now).flow2outdev.lookup ch.flowId with
          | none =>
              simp only [hfind] at h ⊢
              rcases AList.lookup_insert_cases h with ⟨hid, rfl⟩ | hbefore
              · exact .inr ⟨hid, rfl⟩
              · exact .inl (hkept e hbefore)
          | some old =>
              simp only [hfind] at h ⊢
              rcases AList.lookup_insert_cases h with ⟨hid, rfl⟩ | hbefore
              · exact .inr ⟨hid, rfl⟩
              · exact .inl (hkept e hbefore)

end DciSwitch

/-! ### A small switch to run -/

def lcmpConfig : DciConfig where
  weights := {}
  linkDelay := fun _ => 1000000
  linkBw := fun _ => 100000000000
  ecmpSeed := 176
  routingMode := .lcmp

/-- Two ports with empty queues; the links of the ports in `down` are down. -/
def quietEnv (now : Int) (down : List UInt32) : SwitchEnv where
  now := now
  nDevices := 3
  queueBytes := fun _ => some 0
  isLinkUp := fun port => !down.contains port
  uninit := 0

/-- A data packet from host 0 to host 1. -/
def flowPacket : CustomHeader where
  sip := nodeIdToIp 0
  dip := nodeIdToIp 1
  l3Prot := 0x11
  sport := 10000
  dport := 100

end Lcmp
