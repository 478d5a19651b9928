import Lcmp.Network.Components
import Lcmp.Switch.Pfc

/-!
# Pauses in the fabric

On each link of a switch the flag of its memory management unit, the frames in queue 0 of the port, the frames on the
wire and the flag of the device at the other end are one chain of toggles, whatever goes on elsewhere in the fabric.
So no resume ever finds its class running, and a device stays paused only for packets of its own that the switch stores.
-/

namespace Lcmp

open SwitchNode (FramesAccepted DataTransit CellKept StoresCell)

variable {n : Nat} {α : Type}

/-- What a frame does to the flag of class `qIndex`. -/
def Frame.flag? (qIndex : Queue) : Frame α → Option Bool
  | .packet _ => none
  | .pfc time q => if q = qIndex then some (time > 0) else none

namespace FabricState

/-- The PFC frames of a class that are on a link. -/
def onWire (s : FabricState n α) (u v : Fin n) (qIndex : Queue) : List Bool :=
  (s.wires u v).filterMap (Frame.flag? qIndex)

/-- The PFC frames of a class on the way from a switch to a neighbour, those that wait at the port included. -/
def underWay (fab : Fabric n) (s : FabricState n α) (u v : Fin n) (qIndex : Queue) : List Bool :=
  s.onWire u v qIndex ++ (s.switches u).node.waiting (fab.port u v) qIndex

/-- `m_paused` of the device of `v` on the link to `u`. -/
def pausedAt (fab : Fabric n) (s : FabricState n α) (v u : Fin n) : Queue → Bool :=
  if fab.isHost v then s.paused v u else ((s.switches v).node.devices (fab.port v u)).paused

end FabricState

variable {fab : Fabric n} {s s' : FabricState n α} {e : FabricEvent n α} {u v a b : Fin n} {q : Queue}

/-! ### Links that are in use -/

/-- Whatever is on a link or waits for it is on a link that is up. -/
structure LinksUp (fab : Fabric n) (s : FabricState n α) : Prop where
  wires : ∀ u v, s.wires u v ≠ [] → fab.driver.topo.linkUp u v = true
  ackQ : ∀ u v, s.ackQ u v ≠ [] → fab.driver.topo.linkUp u v = true

theorem nicPeer_linkUp {ch : CustomHeader} (h : fab.nicPeer u ch = some v) : fab.driver.topo.linkUp u v = true := by
  obtain ⟨idx, -, hpeer⟩ := Option.bind_eq_some_iff.mp h
  exact (RouteDriver.peer_spec hpeer).1

theorem linksUp_start (fab : Fabric n) : LinksUp fab (FabricState.start fab : FabricState n α) where
  wires := fun _ _ h => absurd rfl h
  ackQ := fun _ _ h => absurd rfl h

theorem transmit_wires (a b : Fin n) (frame : Frame α) (u v : Fin n) :
    (s.transmit a b frame).wires u v = if u = a ∧ v = b then s.wires a b ++ [frame] else s.wires u v := rfl

theorem take_wires (a b : Fin n) (rest : List (Frame α)) (u v : Fin n) :
    (s.take a b rest).wires u v = if u = a ∧ v = b then rest else s.wires u v := rfl

theorem LinksUp.transmit (h : LinksUp fab s) (hlink : fab.driver.topo.linkUp a b = true) (frame : Frame α) :
    ∀ u v, (s.transmit a b frame).wires u v ≠ [] → fab.driver.topo.linkUp u v = true := by
  intro u v hne
  by_cases hcell : u = a ∧ v = b
  · obtain ⟨rfl, rfl⟩ := hcell
    exact hlink
  · rw [transmit_wires, if_neg hcell] at hne
    exact h.wires u v hne

theorem LinksUp.take {frame : Frame α} {rest : List (Frame α)} (h : LinksUp fab s) (hwire : s.wires a b = frame :: rest) :
    ∀ u v, (s.take a b rest).wires u v ≠ [] → fab.driver.topo.linkUp u v = true := by
  intro u v hne
  apply h.wires u v
  by_cases hcell : u = a ∧ v = b
  · obtain ⟨rfl, rfl⟩ := hcell
    rw [hwire]
    exact List.cons_ne_nil _ _
  · rwa [take_wires, if_neg hcell] at hne

theorem FabricStep.linksUp (h : FabricStep fab s e s') (hup : LinksUp fab s) : LinksUp fab s' := by
  cases h with
  | advance dt => exact ⟨hup.wires, hup.ackQ⟩
  | send _ _ _ hnic => exact ⟨hup.transmit (nicPeer_linkUp hnic) _, hup.ackQ⟩
  | @queueAck u v p _ _ _ hnic =>
      refine ⟨hup.wires, fun c d hne => ?_⟩
      by_cases hcell : c = u ∧ d = v
      · obtain ⟨rfl, rfl⟩ := hcell
        exact nicPeer_linkUp hnic
      · dsimp only at hne
        rw [Grid.set_of_ne hcell] at hne
        exact hup.ackQ c d hne
  | refuseAck _ => exact ⟨hup.wires, hup.ackQ⟩
  | @sendAck u v p rest hhead =>
      have hlink : fab.driver.topo.linkUp u v = true := by
        apply hup.ackQ u v
        rw [hhead]
        exact List.cons_ne_nil _ _
      refine ⟨hup.transmit hlink _, fun c d hne => ?_⟩
      by_cases hcell : c = u ∧ d = v
      · obtain ⟨rfl, rfl⟩ := hcell
        exact hlink
      · dsimp only at hne
        rw [Grid.set_of_ne hcell] at hne
        exact hup.ackQ c d hne
  | dequeue _ hlink _ => exact ⟨hup.transmit hlink _, hup.ackQ⟩
  | corrupt hwire => exact ⟨hup.take hwire, hup.ackQ⟩
  | pfcHost hwire _ _ => exact ⟨hup.take hwire, hup.ackQ⟩
  | pfcSwitch hwire _ _ => exact ⟨hup.take hwire, hup.ackQ⟩
  | noRoute hwire _ _ => exact ⟨hup.take hwire, hup.ackQ⟩
  | forward hwire _ _ _ => exact ⟨hup.take hwire, hup.ackQ⟩
  | receive hwire _ => exact ⟨hup.take hwire, hup.ackQ⟩

/-! ### What an event does to a link -/

/-- What an event of the fabric is for a switch. -/
inductive NodeEvent (fab : Fabric n) (s : FabricState n α) (u : Fin n) :
    FabricEvent n α → SwitchNode.SwitchEvent → Prop where
  | dequeue (v : Fin n) : NodeEvent fab s u (.dequeue u v) (.dequeue (fab.port u v))
  | recvPfc {w : Fin n} {uninit time : UInt32} {q : Queue} {rest : List (Frame α)}
      (hwire : s.wires w u = .pfc time q :: rest) :
      NodeEvent fab s u (.deliver w u false uninit) (.recvPfc (fab.port u w) q time)
  | arrive {w x : Fin n} {uninit : UInt32} {p : NetPacket α} {rest : List (Frame α)}
      (hwire : s.wires w u = .packet p :: rest) (hroute : s.route fab u uninit p.ch = some x) :
      NodeEvent fab s u (.deliver w u false uninit) (.arrive (fab.port u w) (fab.port u x) (fab.classAt u p) p.size)

/-- What an event does to the flags of the link from a switch to a neighbour: the switch does something, one of its
frames gets there, or nothing happens to them. -/
inductive LinkMove (fab : Fabric n) (s : FabricState n α) (e : FabricEvent n α) (s' : FabricState n α) (u v : Fin n) :
    Prop where
  | switch {event : SwitchNode.SwitchEvent} (hevent : NodeEvent fab s u e event)
      (hnext : SwitchNode.switchNext fab.pauseTime (s.switches u).node event = some (s'.switches u).node)
      (hwire : ∀ q, s'.onWire u v q =
        s.onWire u v q ++ PfcLink.frames q ((s.switches u).node.transmits fab.pauseTime (fab.port u v) event))
      (hpeer : s'.pausedAt fab v u = s.pausedAt fab v u)
  | deliver {time : UInt32} {qIndex : Queue} {rest : List (Frame α)} (hhead : s.wires u v = .pfc time qIndex :: rest)
      (hrest : s'.wires u v = rest) (hnode : (s'.switches u).node = (s.switches u).node)
      (hrecv : receivePfc (s.pausedAt fab v u) qIndex time = some (s'.pausedAt fab v u))
  | nothing (hnode : (s'.switches u).node = (s.switches u).node) (hwire : ∀ q, s'.onWire u v q = s.onWire u v q)
      (hpeer : s'.pausedAt fab v u = s.pausedAt fab v u)

theorem transmit_onWire (a b : Fin n) (frame : Frame α) (u v : Fin n) (q : Queue) : (s.transmit a b frame).onWire u v q =
    s.onWire u v q ++ if u = a ∧ v = b then (frame.flag? q).toList else [] := by
  unfold FabricState.onWire
  rw [transmit_wires]
  by_cases hcell : u = a ∧ v = b
  · rw [if_pos hcell, if_pos hcell]
    obtain ⟨rfl, rfl⟩ := hcell
    rw [List.filterMap_append]
    cases hflag : frame.flag? q with
    | none => rw [List.filterMap_cons_none hflag]; rfl
    | some flag => rw [List.filterMap_cons_some hflag]; rfl
  · rw [if_neg hcell, if_neg hcell, List.append_nil]

theorem transmit_packet_onWire (a b : Fin n) (p : NetPacket α) (u v : Fin n) (q : Queue) :
    (s.transmit a b (.packet p)).onWire u v q = s.onWire u v q := by
  rw [transmit_onWire]
  split
  · exact List.append_nil _
  · exact List.append_nil _

/-- What is taken from the wire of another link, or is no PFC frame. -/
theorem take_onWire {frame : Frame α} {rest : List (Frame α)} (hwire : s.wires a b = frame :: rest)
    (hother : u = a ∧ v = b → frame.flag? q = none) : (s.take a b rest).onWire u v q = s.onWire u v q := by
  unfold FabricState.onWire
  rw [take_wires]
  by_cases hcell : u = a ∧ v = b
  · have hnone := hother hcell
    rw [if_pos hcell]
    obtain ⟨rfl, rfl⟩ := hcell
    rw [hwire, List.filterMap_cons_none hnone]
  · rw [if_neg hcell]

/-- The frame that a switch sends is the one that its node takes from the queue. -/
theorem NetSwitch.dequeue_flag {sw sw' : NetSwitch α} {pauseTime : UInt32} {port : Port} {frame : Frame α}
    {stored : SwitchPacket} {node : SwitchNode} (h : sw.dequeue pauseTime port = some (frame, sw'))
    (hnode : sw.node.dequeue pauseTime port = some (stored, node)) (q : Queue) :
    (frame.flag? q).toList = PfcLink.frames q [stored] := by
  unfold NetSwitch.dequeue at h
  rw [hnode] at h
  dsimp only at h
  unfold PfcLink.frames PfcLink.frame?
  cases hkind : stored.kind with
  | pfc time qIndex =>
      rw [hkind] at h
      obtain ⟨rfl, -⟩ := Prod.mk.inj (Option.some.inj h)
      simp only [Frame.flag?, List.filterMap_cons, hkind]
      split
      · rfl
      · rfl
  | transit inDev =>
      rw [hkind] at h
      dsimp only at h
      split at h
      · cases h
      · split at h
        · cases h
        · obtain ⟨rfl, -⟩ := Prod.mk.inj (Option.some.inj h)
          simp only [Frame.flag?, List.filterMap_cons, hkind]
          rfl

/-- The devices of the other end, whether it is a host or a switch. -/
theorem pausedAt_congr (hhost : s'.paused v u = s.paused v u)
    (hswitch : SwitchNode.SameDevices (s.switches v).node (s'.switches v).node) :
    s'.pausedAt fab v u = s.pausedAt fab v u := by
  unfold FabricState.pausedAt
  split
  · exact hhost
  · exact (hswitch (fab.port v u)).2

theorem transmits_self {node node' : SwitchNode} {pauseTime : UInt32} {port : Port} {p : SwitchPacket}
    (h : node.dequeue pauseTime port = some (p, node')) : node.transmits pauseTime port (.dequeue port) = [p] := by
  unfold SwitchNode.transmits
  dsimp only
  rw [if_pos rfl, h]
  rfl

theorem transmits_of_ne (node : SwitchNode) (pauseTime : UInt32) {port out : Port} (h : out ≠ port) :
    node.transmits pauseTime port (.dequeue out) = [] := if_neg h

section Moves

variable (hne : u ≠ v) (hlink : fab.driver.topo.linkUp u v = true) (hup : ∀ w, (s.switches w).node.AllUp)

include hne hlink hup in
theorem link_dequeue {frame : Frame α} {sw : NetSwitch α} (hout : fab.driver.topo.linkUp a b = true)
    (hdeq : (s.switches a).dequeue fab.pauseTime (fab.port a b) = some (frame, sw)) :
    LinkMove fab s (.dequeue a b) { s.transmit a b frame with switches := Function.update s.switches a sw } u v := by
  obtain ⟨stored, hnode⟩ := NetSwitch.dequeue_node hdeq
  have hwires := transmit_onWire (s := s) a b frame u v
  by_cases hua : u = a
  · subst hua
    refine .switch (.dequeue b) ?_ (fun q => (hwires q).trans (congrArg _ ?_)) (pausedAt_congr rfl ?_)
    · dsimp only
      rw [Function.update_self]
      simp only [SwitchNode.switchNext]
      rw [hup, hnode]
      rfl
    · by_cases hvb : v = b
      · subst hvb
        rw [if_pos ⟨rfl, rfl⟩, transmits_self hnode]
        exact NetSwitch.dequeue_flag hdeq hnode q
      · have hother : fab.port u b ≠ fab.port u v := fun h => hvb (fab.port_inj hout hlink h).symm
        rw [if_neg fun h => hvb h.2, transmits_of_ne _ _ hother]
        rfl
    · dsimp only
      rw [Function.update_of_ne (Ne.symm hne)]
      exact .refl _
  · refine .nothing ?_ (fun q => (hwires q).trans ?_) (pausedAt_congr rfl ?_)
    · dsimp only
      rw [Function.update_of_ne hua]
    · rw [if_neg fun h => hua h.1, List.append_nil]
    · dsimp only
      by_cases hva : v = a
      · subst hva
        rw [Function.update_self]
        exact SwitchNode.dequeue_devices hnode
      · rw [Function.update_of_ne hva]
        exact .refl _

include hne hup in
theorem link_forward {w : Fin n} {uninit : UInt32} {p : NetPacket α} {rest : List (Frame α)} {dci : Fin n → DciSwitch}
    {lost : List (NetPacket α)} (hwire : s.wires a b = .packet p :: rest) (hroute : s.route fab b uninit p.ch = some w) :
    LinkMove fab s (.deliver a b false uninit) { s.take a b rest with
      dci := dci
      switches := Function.update s.switches b
        ((s.switches b).sendToDev fab.pauseTime (fab.port b a) (fab.port b w) (fab.classAt b p) p)
      lost := lost } u v := by
  have hwires : ∀ q, (s.take a b rest).onWire u v q = s.onWire u v q := fun q => take_onWire hwire fun _ => rfl
  by_cases hub : u = b
  · subst hub
    refine .switch (.arrive hwire hroute) ?_ (fun q => (hwires q).trans (List.append_nil _).symm) (pausedAt_congr rfl ?_)
    · dsimp only
      rw [Function.update_self]
      simp only [SwitchNode.switchNext]
      rw [hup, hup]
      rfl
    · dsimp only
      rw [Function.update_of_ne (Ne.symm hne)]
      exact .refl _
  · refine .nothing ?_ hwires (pausedAt_congr rfl ?_)
    · dsimp only
      rw [Function.update_of_ne hub]
    · dsimp only
      by_cases hvb : v = b
      · subst hvb
        rw [Function.update_self]
        exact SwitchNode.sendToDev_devices (s.switches v).node
      · rw [Function.update_of_ne hvb]
        exact .refl _

include hne hlink hup in
theorem link_pfcSwitch {uninit time : UInt32} {qIndex : Queue} {rest : List (Frame α)} {node : SwitchNode}
    (hlinks : LinksUp fab s) (hwire : s.wires a b = .pfc time qIndex :: rest) (hswitch : fab.isHost b = false)
    (hrecv : (s.switches b).node.recvPfc (fab.port b a) qIndex time = some node) :
    LinkMove fab s (.deliver a b false uninit)
      { s.take a b rest with switches := Function.update s.switches b { s.switches b with node := node } } u v := by
  by_cases hub : u = b
  · subst hub
    have hwires : ∀ q, (s.take a u rest).onWire u v q = s.onWire u v q := fun q =>
      take_onWire hwire fun h => absurd h.2.symm hne
    refine .switch (.recvPfc hwire) ?_ (fun q => (hwires q).trans (List.append_nil _).symm) (pausedAt_congr rfl ?_)
    · dsimp only
      rw [Function.update_self]
      simp only [SwitchNode.switchNext]
      rw [hup]
      exact hrecv
    · dsimp only
      rw [Function.update_of_ne (Ne.symm hne)]
      exact .refl _
  have hnode : ((Function.update s.switches b { s.switches b with node := node }) u).node = (s.switches u).node := by
    rw [Function.update_of_ne hub]
  obtain ⟨paused, hpaused, rfl⟩ := Option.map_eq_some_iff.mp hrecv
  by_cases hcell : u = a ∧ v = b
  · obtain ⟨rfl, rfl⟩ := hcell
    refine .deliver hwire ((take_wires u v rest u v).trans (if_pos ⟨rfl, rfl⟩)) hnode ?_
    unfold FabricState.pausedAt
    rw [hswitch, if_neg Bool.false_ne_true, if_neg Bool.false_ne_true]
    dsimp only
    rw [Function.update_self]
    dsimp only
    rw [SwitchNode.setDevice_self]
    exact hpaused
  · refine .nothing hnode (fun q => take_onWire hwire fun h => absurd h hcell) ?_
    unfold FabricState.pausedAt
    dsimp only
    by_cases hvb : v = b
    · subst hvb
      -- another link into the neighbour ends at another of its devices
      have hback : fab.driver.topo.linkUp v u = true := (fab.driver.topo.symm v u).trans hlink
      have hav : fab.driver.topo.linkUp v a = true :=
        (fab.driver.topo.symm v a).trans (hlinks.wires a v (by rw [hwire]; exact List.cons_ne_nil _ _))
      have hport : fab.port v u ≠ fab.port v a := fun h => hcell ⟨fab.port_inj hback hav h, rfl⟩
      rw [Function.update_self]
      dsimp only
      rw [SwitchNode.setDevice_of_ne _ hport]
      rfl
    · rw [Function.update_of_ne hvb]
      rfl

theorem link_pfcHost {uninit time : UInt32} {qIndex : Queue} {rest : List (Frame α)} {paused : Queue → Bool}
    (hwire : s.wires a b = .pfc time qIndex :: rest) (hhost : fab.isHost b = true)
    (hrecv : receivePfc (s.paused b a) qIndex time = some paused) :
    LinkMove fab s (.deliver a b false uninit) { s.take a b rest with paused := Grid.set s.paused b a paused } u v := by
  by_cases hcell : u = a ∧ v = b
  · obtain ⟨rfl, rfl⟩ := hcell
    refine .deliver hwire ((take_wires u v rest u v).trans (if_pos ⟨rfl, rfl⟩)) rfl ?_
    unfold FabricState.pausedAt
    rw [hhost, if_pos rfl, if_pos rfl]
    dsimp only
    rw [Grid.set_self]
    exact hrecv
  · refine .nothing rfl (fun q => take_onWire hwire fun h => absurd h hcell) (pausedAt_congr ?_ (.refl _))
    exact Grid.set_of_ne fun h => hcell ⟨h.2, h.1⟩

include hne hlink hup in
theorem FabricStep.link (h : FabricStep fab s e s') (hlinks : LinksUp fab s)
    (hclean : ∀ uninit, e ≠ .deliver u v true uninit) : LinkMove fab s e s' u v := by
  cases h with
  | advance dt => exact .nothing rfl (fun _ => rfl) rfl
  | send _ _ _ _ => exact .nothing rfl (transmit_packet_onWire _ _ _ u v) rfl
  | queueAck _ _ _ _ => exact .nothing rfl (fun _ => rfl) rfl
  | refuseAck _ => exact .nothing rfl (fun _ => rfl) rfl
  | sendAck _ => exact .nothing rfl (transmit_packet_onWire _ _ _ u v) rfl
  | dequeue _ hout hdeq => exact link_dequeue hne hlink hup hout hdeq
  | @corrupt a b uninit frame rest hwire =>
      refine .nothing rfl (fun q => take_onWire hwire fun hcell => ?_) rfl
      obtain ⟨rfl, rfl⟩ := hcell
      exact absurd rfl (hclean uninit)
  | pfcHost hwire hhost hrecv => exact link_pfcHost hwire hhost hrecv
  | pfcSwitch hwire hswitch hrecv => exact link_pfcSwitch hne hlink hup hlinks hwire hswitch hrecv
  | noRoute hwire _ _ => exact .nothing rfl (fun q => take_onWire hwire fun _ => rfl) rfl
  | forward hwire _ hroute _ => exact link_forward hne hup hwire hroute
  | receive hwire _ => exact .nothing rfl (fun q => take_onWire hwire fun _ => rfl) rfl

end Moves

/-! ### The chain of flags -/

/-- The chain from the flag of the neighbour's device over the wire and queue 0 to the flag of the switch. -/
structure FlagsChained (fab : Fabric n) (s : FabricState n α) (u v : Fin n) : Prop where
  transit : DataTransit (s.switches u).node
  chain : FramesAccepted (s.switches u).node (fab.port u v) → ∀ q,
    Toggle.Chain (s.pausedAt fab v u q) (s.underWay fab u v q) ((s.switches u).node.mmu.paused (fab.port u v) q)

theorem NodeEvent.stays {event : SwitchNode.SwitchEvent} (h : NodeEvent fab s u e event) (out : Port) :
    event ≠ .takeDown out := by
  cases h with
  | dequeue _ => exact SwitchNode.SwitchEvent.noConfusion
  | recvPfc _ => exact SwitchNode.SwitchEvent.noConfusion
  | arrive _ _ => exact SwitchNode.SwitchEvent.noConfusion

theorem LinkMove.flagsChained (hpause : 0 < fab.pauseTime) (hmove : LinkMove fab s e s' u v)
    (h : FlagsChained fab s u v) : FlagsChained fab s' u v := by
  cases hmove with
  | switch hevent hnext hwire hpeer =>
      refine ⟨SwitchNode.switchNext_dataTransit h.transit hnext, fun haccepted q => ?_⟩
      have hbefore : FramesAccepted (s.switches u).node (fab.port u v) := fun r hr =>
        haccepted r (SwitchNode.switchNext_pfcLog hnext hr)
      have htoggles := SwitchNode.switchNext_toggles (q := q) hpause h.transit hevent.stays hnext haccepted
      have hchain := PfcLink.toggles_chain htoggles (h.chain hbefore q)
      unfold FabricState.underWay
      rw [hwire, hpeer]
      exact hchain
  | @deliver time qIndex rest hhead hrest hnode hrecv =>
      refine ⟨hnode ▸ h.transit, fun haccepted q => ?_⟩
      rw [hnode] at haccepted
      have hchain := h.chain haccepted q
      rw [PfcLink.receivePfc_eq hrecv]
      unfold FabricState.underWay FabricState.onWire at hchain ⊢
      rw [hnode, hrest]
      rw [hhead] at hchain
      by_cases hq : qIndex = q
      · subst hq
        have hflag : (Frame.pfc time qIndex : Frame α).flag? qIndex = some (decide (time > 0)) := if_pos rfl
        rw [List.filterMap_cons_some hflag] at hchain
        rw [Function.update_self]
        exact hchain.2
      · have hflag : (Frame.pfc time qIndex : Frame α).flag? q = none := if_neg hq
        rw [List.filterMap_cons_none hflag] at hchain
        rw [Function.update_of_ne (Ne.symm hq)]
        exact hchain
  | nothing hnode hwire hpeer =>
      refine ⟨hnode ▸ h.transit, fun haccepted q => ?_⟩
      unfold FabricState.underWay
      rw [hnode, hwire, hpeer]
      rw [hnode] at haccepted
      exact h.chain haccepted q

theorem flagsChained_start (fab : Fabric n) (u v : Fin n) : FlagsChained fab (FabricState.start fab : FabricState n α) u v where
  transit := by simp [DataTransit, FabricState.start, NetSwitch.start, SwitchNode.start, BEgressQueue.empty]
  chain := by
    intro _ q
    have hflag : (FabricState.start fab : FabricState n α).pausedAt fab v u q = false := by
      unfold FabricState.pausedAt
      split
      · rfl
      · rfl
    rw [hflag]
    rfl

/-! ### The packets that a pause is for -/

/-- A packet of class `q` from `v` that switch `u` admits also finds room in its egress queue, and what is stored of its
kind stays below `2^32` bytes. -/
def KeepsAdmitted (fab : Fabric n) (u v : Fin n) (q : Queue) (s : FabricState n α) (e : FabricEvent n α) : Prop :=
  ∀ uninit p rest w, e = .deliver v u false uninit → s.wires v u = .packet p :: rest → fab.classAt u p = q →
    s.route fab u uninit p.ch = some w →
    StoresCell fab.pauseTime (fab.port u v) q (s.switches u).node (.arrive (fab.port u v) (fab.port u w) q p.size)

theorem LinkMove.cellKept (hmove : LinkMove fab s e s' u v) (hlinks : LinksUp fab s)
    (hlink : fab.driver.topo.linkUp u v = true) (hkeeps : KeepsAdmitted fab u v q s e)
    (h : CellKept (s.switches u).node (fab.port u v) q) : CellKept (s'.switches u).node (fab.port u v) q := by
  cases hmove with
  | switch hevent hnext _ _ =>
      refine SwitchNode.cellKept_step h hevent.stays ?_ hnext
      cases hevent with
      | dequeue _ => trivial
      | recvPfc _ => trivial
      | @arrive w x uninit p rest hwire hroute =>
          intro hport hq
          -- what comes in over this port comes from this neighbour
          have hwu := hlinks.wires w u (by rw [hwire]; exact List.cons_ne_nil _ _)
          obtain rfl : w = v := fab.port_inj ((fab.driver.topo.symm u w).trans hwu) hlink hport
          subst hq
          exact hkeeps uninit p rest x rfl hwire rfl hroute rfl rfl
  | deliver _ _ hnode _ =>
      rw [hnode]
      exact h
  | nothing hnode _ _ =>
      rw [hnode]
      exact h

theorem cellKept_start (fab : Fabric n) (u v : Fin n) (q : Queue) :
    CellKept ((FabricState.start fab : FabricState n α).switches u).node (fab.port u v) q :=
  PfcLink.cellKept_start (fab.mmu u)

/-- The packets that a switch has stored from a port and class are in its queues. -/
theorem NetSwitch.Agrees.exists_contents {sw : NetSwitch α} (h : sw.Agrees) {inDev out : Port}
    (hstored : sw.node.stored inDev out q ≠ []) : ∃ p, (p, inDev) ∈ sw.contents out q := by
  obtain ⟨stored, hmem⟩ := List.exists_mem_of_ne_nil _ hstored
  obtain ⟨hqueue, hkind⟩ := List.mem_filter.mp hmem
  have hkind' : stored.kind = .transit inDev := of_decide_eq_true hkind
  have htransit : stored ∈ sw.node.transit out q := by
    refine List.mem_filter.mpr ⟨hqueue, ?_⟩
    unfold SwitchNode.isTransit
    rw [hkind']
  rw [← h out q] at htransit
  obtain ⟨⟨p, port⟩, hp, rfl⟩ := List.mem_map.mp htransit
  obtain rfl := PacketKind.transit.inj hkind'
  exact ⟨p, hp⟩

/-- A PFC frame is accepted if it is a pause or its class is paused. -/
theorem deliver_ne_none {uninit time : UInt32} {rest : List (Frame α)} (hwire : s.wires u v = .pfc time q :: rest)
    (hpaused : ¬ time > 0 → s.pausedAt fab v u q = true) : fabricNext fab s (.deliver u v false uninit) ≠ none := by
  have hrecv : ∃ paused, receivePfc (s.pausedAt fab v u) q time = some paused := by
    unfold receivePfc
    by_cases htime : time > 0
    · rw [if_pos htime]
      exact ⟨_, rfl⟩
    · rw [if_neg htime, if_pos (hpaused htime)]
      exact ⟨_, rfl⟩
  obtain ⟨paused, hpaused⟩ := hrecv
  have hnext : fabricNext fab s (.deliver u v false uninit) = (s.take u v rest).recvPfc fab u v q time := by
    simp only [fabricNext, hwire]
    rfl
  rw [hnext]
  unfold FabricState.recvPfc
  unfold FabricState.pausedAt at hpaused
  by_cases hhost : fab.isHost v = true
  · rw [if_pos hhost] at hpaused ⊢
    have hpaused' : receivePfc ((s.take u v rest).paused v u) q time = some paused := hpaused
    rw [hpaused']
    exact Option.some_ne_none _
  · rw [if_neg hhost] at hpaused ⊢
    have hnode : ((s.take u v rest).switches v).node.recvPfc (fab.port v u) q time ≠ none := by
      show (receivePfc ((s.switches v).node.devices (fab.port v u)).paused q time).map _ ≠ none
      rw [hpaused]
      exact Option.some_ne_none _
    exact fun hnone => hnode (Option.map_eq_none_iff.mp hnone)

/-- What holds of every switch and link, whatever is lost or refused. -/
structure FabricSound (fab : Fabric n) (s : FabricState n α) : Prop where
  links : LinksUp fab s
  switches : ∀ w, SwitchSound fab w (s.switches w)

theorem fabricSound_start (fab : Fabric n) : FabricSound fab (FabricState.start fab : FabricState n α) where
  links := linksUp_start fab
  switches := fun w => switchSound_start fab w

theorem FabricStep.fabricSound (h : FabricStep fab s e s') (hsound : FabricSound fab s) : FabricSound fab s' where
  links := h.linksUp hsound.links
  switches := fun w => h.switchSound (hsound.switches w)

/-- Flow control in the fabric. On a link of which no frame is corrupted and whose frames all find room in queue 0, a PFC
frame that gets there is always accepted, the flag of the neighbour is the one of the switch whenever no frame is under
way, and as long as the switch keeps what it admits of the neighbour's packets, the neighbour is then paused only if the
switch has such a packet in one of its queues. What the other switches and hosts do does not matter. -/
theorem fabric_flow_control (hpause : 0 < fab.pauseTime) {trace : List (Transition (FabricState n α) (FabricEvent n α))}
    (hrun : (fabricSystem α fab).Run (FabricState.start fab) trace s) (hne : u ≠ v)
    (hlink : fab.driver.topo.linkUp u v = true) (hclean : ∀ x ∈ trace, ∀ uninit, x.label ≠ .deliver u v true uninit)
    (hframes : FramesAccepted (s.switches u).node (fab.port u v)) (q : Queue) :
    (∀ time rest uninit, s.wires u v = .pfc time q :: rest → fabricNext fab s (.deliver u v false uninit) ≠ none) ∧
    (s.underWay fab u v q = [] → s.pausedAt fab v u q = (s.switches u).node.mmu.paused (fab.port u v) q) ∧
    ((∀ x ∈ trace, KeepsAdmitted fab u v q x.pre x.label) → s.underWay fab u v q = [] →
      s.pausedAt fab v u q = true → ∃ out p, (p, fab.port u v) ∈ (s.switches u).contents out q) := by
  have hmove : ∀ s e s', FabricSound fab s → (∀ uninit, e ≠ .deliver u v true uninit) →
      (fabricSystem α fab).next s e = some s' → LinkMove fab s e s' u v ∧ FabricSound fab s' := by
    intro s e s' hsound hclean hnext
    have hstep : FabricStep fab s e s' := fabricNext_step hnext
    exact ⟨hstep.link hne hlink (fun w => (hsound.switches w).up) hsound.links hclean, hstep.fabricSound hsound⟩
  obtain ⟨hsound, hflags⟩ := (hrun.invariant_of_guard (P := fun s => FabricSound fab s ∧ FlagsChained fab s u v)
    (C := fun _ e => ∀ uninit, e ≠ .deliver u v true uninit) (fun s e s' hs hclean hnext =>
      ⟨(hmove s e s' hs.1 hclean hnext).2, (hmove s e s' hs.1 hclean hnext).1.flagsChained hpause hs.2⟩)
    hclean ⟨fabricSound_start fab, flagsChained_start fab u v⟩).1
  have hchain := hflags.chain hframes q
  have hagree : s.underWay fab u v q = [] → s.pausedAt fab v u q = (s.switches u).node.mmu.paused (fab.port u v) q := by
    intro hnone
    rw [hnone] at hchain
    exact hchain
  refine ⟨?_, hagree, ?_⟩
  · intro time rest uninit hwire
    apply deliver_ne_none hwire
    intro htime
    unfold FabricState.underWay FabricState.onWire at hchain
    have hflag : (Frame.pfc time q : Frame α).flag? q = some (decide (time > 0)) := if_pos rfl
    rw [hwire, List.filterMap_cons_some hflag, decide_eq_false htime] at hchain
    have hhead := hchain.1
    cases hpaused : s.pausedAt fab v u q with
    | true => rfl
    | false =>
        rw [hpaused] at hhead
        cases hhead
  · intro hkeeps hnone hpaused
    have hkept := (hrun.invariant_of_guard
      (P := fun s => FabricSound fab s ∧ CellKept (s.switches u).node (fab.port u v) q)
      (C := fun s e => (∀ uninit, e ≠ .deliver u v true uninit) ∧ KeepsAdmitted fab u v q s e)
      (fun s e s' hs hguard hnext => ⟨(hmove s e s' hs.1 hguard.1 hnext).2,
        (hmove s e s' hs.1 hguard.1 hnext).1.cellKept hs.1.links hlink hguard.2 hs.2⟩)
      (fun x hx => ⟨hclean x hx, hkeeps x hx⟩) ⟨fabricSound_start fab, cellKept_start fab u v q⟩).1.2
    rw [hagree hnone] at hpaused
    obtain ⟨out, hstored⟩ := hkept.pausedStored hpaused
    exact ⟨out, (hsound.switches u).agrees.exists_contents hstored⟩

/-- The sample fabric without shared buffers, so that the first packet that comes in is a reason to pause. -/
def tightFabric : Fabric 5 := { twoWaysFabric with mmu := fun _ => SwitchNode.tightConfig }

/-- A packet of the host comes to its border switch, which pauses the host. -/
def pausing (host border : Fin 5) : List (FabricEvent 5 Nat) :=
  [.send host (samplePacket 1), .deliver host border false 0, .dequeue border host, .deliver border host false 0]

theorem pausing_runs :
    ((fabricSystem Nat tightFabric).exec (fabricSystem Nat tightFabric).init (pausing 0 1)).isSome = true := by
  decide +kernel

/-- A switch without packets keeps the first one that is admitted. -/
theorem keepsAdmitted_first {s : FabricState 5 Nat} {uninit : UInt32} (hempty : s.switches 1 = .start SwitchNode.tightConfig)
    (hpacket : ∀ p rest, s.wires 0 1 = .packet p :: rest → p = samplePacket 1) :
    KeepsAdmitted tightFabric 1 0 3 s (.deliver 0 1 false uninit) := by
  have haccepts : ∀ w, ((NetSwitch.start SwitchNode.tightConfig : NetSwitch Nat).node.admission tightFabric.pauseTime
      (tightFabric.port 1 0) (tightFabric.port 1 w) 3 (samplePacket 1).size).all (fun node =>
        (node.devices (tightFabric.port 1 w)).queue.accepts ⟨(samplePacket 1).size, .transit (tightFabric.port 1 0)⟩ 3) =
      true := by
    decide +kernel
  have hroom : (NetSwitch.start SwitchNode.tightConfig : NetSwitch Nat).node.bytesFrom (tightFabric.port 1 0) 3 +
      (samplePacket 1).size.toNat < 2 ^ 32 := by
    have hkept : CellKept (NetSwitch.start SwitchNode.tightConfig : NetSwitch Nat).node (tightFabric.port 1 0) 3 :=
      PfcLink.cellKept_start SwitchNode.tightConfig
    rw [← hkept.exact (by decide)]
    decide +kernel
  intro _ p rest w _ hwire _ _
  obtain rfl := hpacket p rest hwire
  rw [hempty]
  intro _ _ node hadm
  have hw := haccepts w
  rw [hadm, Option.all_some] at hw
  exact ⟨hw, hroom⟩

/-- Only the second event brings a packet of the host to the switch, which has none before. -/
theorem pausing_keepsAdmitted {trace : List (Transition (FabricState 5 Nat) (FabricEvent 5 Nat))} {s : FabricState 5 Nat}
    (hrun : (fabricSystem Nat tightFabric).Run (fabricSystem Nat tightFabric).init trace s)
    (hlabels : trace.map Transition.label = pausing 0 1) :
    ∀ x ∈ trace, KeepsAdmitted tightFabric 1 0 3 x.pre x.label := by
  intro x hx uninit p rest w hlabel
  obtain ⟨before, after, rfl⟩ := List.append_of_mem hx
  obtain ⟨hbefore, -, -⟩ := hrun.of_append_cons
  rw [List.map_append, List.map_cons] at hlabels
  match before, hlabels, hbefore with
  | [], hlabels, _ => cases hlabel.symm.trans (List.cons.inj hlabels).1
  | [y], hlabels, hbefore =>
      have hy : y.label = .send 0 (samplePacket 1) := (List.cons.inj hlabels).1
      cases hbefore with
      | cons hsend hnil =>
          cases hnil
          have hstep : FabricStep tightFabric (fabricSystem Nat tightFabric).init _ x.pre := fabricNext_step hsend
          dsimp only at hy
          rw [hy] at hstep
          have hkeeps : KeepsAdmitted tightFabric 1 0 3 x.pre (.deliver 0 1 false uninit) := by
            generalize x.pre = sent at hstep
            cases hstep with
            | @send _ v _ _ _ _ _ =>
                refine keepsAdmitted_first rfl fun p rest hwire => ?_
                have hwires : (FabricState.transmit (fabricSystem Nat tightFabric).init 0 v (.packet (samplePacket 1))).wires
                    0 1 = .packet p :: rest := hwire
                rw [transmit_wires] at hwires
                split at hwires
                · exact (Frame.packet.inj (List.cons.inj hwires).1).symm
                · cases hwires
          exact hkeeps uninit p rest w rfl
  | y :: z :: others, hlabels, _ =>
      have hmem : x.label ∈ [FabricEvent.dequeue 1 0, .deliver 1 0 false 0] := by
        rw [← (List.cons.inj (List.cons.inj hlabels).2).2]
        exact List.mem_append_right _ List.mem_cons_self
      rw [hlabel] at hmem
      simp at hmem

/-- The host has been paused for the packet that the switch stores. -/
theorem fabric_flow_control_pausing : ∃ s,
    (fabricSystem Nat tightFabric).exec (fabricSystem Nat tightFabric).init (pausing 0 1) = some s ∧
      s.pausedAt tightFabric 0 1 3 = true ∧ ∃ out p, (p, tightFabric.port 1 0) ∈ (s.switches 1).contents out 3 := by
  have hexec := (Option.some_get pausing_runs).symm
  have hpaused : (((fabricSystem Nat tightFabric).exec (fabricSystem Nat tightFabric).init (pausing 0 1)).get
      pausing_runs).pausedAt tightFabric 0 1 3 = true := by decide +kernel
  obtain ⟨trace, hrun, hlabels⟩ := System.Run.of_exec (pausing 0 1) hexec
  refine ⟨_, hexec, hpaused, ?_⟩
  have hclean : ∀ x ∈ trace, ∀ uninit, x.label ≠ .deliver 1 0 true uninit := by
    intro x hx uninit
    have hmem : x.label ∈ pausing 0 1 := hlabels ▸ List.mem_map_of_mem hx
    simp only [pausing, List.mem_cons, List.not_mem_nil, or_false] at hmem
    rcases hmem with hlabel | hlabel | hlabel | hlabel
    all_goals simp [hlabel]
  have hcontrol := fabric_flow_control (by decide) hrun (u := 1) (v := 0) (by decide) (by decide +kernel) hclean
    (by decide +kernel) 3
  exact hcontrol.2.2 (pausing_keepsAdmitted hrun hlabels) (by decide +kernel) hpaused

end Lcmp
