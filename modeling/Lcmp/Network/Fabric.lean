import Lcmp.Lib.Pipeline
import Lcmp.Network.Switch
import Lcmp.Routing.Topology

/-!
# The fabric

Hosts, switches and DCI switches with the links between them and the frames on the links. A host puts data
packets on a link and ACKs in the queue of a NIC; a switch routes what comes in, stores it and sends it on; a
PFC frame pauses the device it reaches. A transmission and a delivery are events of their own, which may come
at any time as long as each link and each queue keeps its order, so the schedules of the simulator are among
the runs. No link goes down here, so the tables stay as they are installed. ECN marks and INT records, which
switches write into packets, are left out.
-/

namespace Lcmp

/-- The links with the installed routes and what is set on the nodes and their devices. `hash32` is the hash of
a host's tuples. A switch has arrays of `pCnt` ports. -/
structure Fabric (n : Nat) where
  driver : RouteDriver n
  mmu : Fin n → MmuConfig
  dci : Fin n → DciConfig
  ecmpSeed : Fin n → UInt32
  ackHighPrio : Fin n → Bool
  ackQIdx : Queue
  pauseTime : UInt32
  nDevices : Fin n → UInt32
  hash32 : UInt32 → UInt32 → UInt16 → UInt16 → UInt32
  ports : ∀ u v iface, driver.topo.nbr2if u v = some iface → iface.idx.toNat < pCnt

/-- `sent`, `received` and `lost` are not part of the code's state: no function reads them. -/
structure FabricState (n : Nat) (α : Type) where
  clock : Int
  switches : Fin n → NetSwitch α
  dci : Fin n → DciSwitch
  /-- The ACK queue of the NIC of a host towards a neighbour. -/
  ackQ : Fin n → Fin n → List (NetPacket α)
  /-- `m_paused` of that NIC. -/
  paused : Fin n → Fin n → Queue → Bool
  /-- What is on its way over a link. -/
  wires : Fin n → Fin n → List (Frame α)
  sent : List (NetPacket α)
  received : Fin n → List (NetPacket α)
  lost : List (NetPacket α)

inductive FabricEvent (n : Nat) (α : Type) where
  | advance (dt : Nat)
  | send (u : Fin n) (p : NetPacket α)
  | queueAck (u : Fin n) (p : NetPacket α)
  | sendAck (u v : Fin n)
  | dequeue (u v : Fin n)
  | deliver (u v : Fin n) (corrupt : Bool) (uninit : UInt32)

/-- The queue of a switch for a packet of priority group `pg`. -/
def egressClass (ackHighPrio : Bool) (ch : CustomHeader) (pg : Queue) : Queue :=
  if ch.l3Prot = 0xFF ∨ ch.l3Prot = 0xFE ∨ (ackHighPrio ∧ (ch.l3Prot = 0xFD ∨ ch.l3Prot = 0xFC)) then 0
  else if ch.l3Prot = 0x06 then 1 else pg

/-- The index of a device in the arrays of a switch. -/
def toPort (idx : UInt32) : Port := ⟨idx.toNat % pCnt, Nat.mod_lt _ (by decide)⟩

variable {n : Nat} {α : Type}

namespace Fabric

variable (fab : Fabric n)

/-- The device of `u` on the link to `v`. -/
def port (u v : Fin n) : Port := toPort (fab.driver.topo.ifIdx u v)

def isHost (u : Fin n) : Bool := fab.driver.topo.nodeType u = .host

/-- `GetHash` of a queue pair. -/
def nicHash (ch : CustomHeader) : UInt32 := fab.hash32 ch.sip ch.dip ch.sport ch.dport

/-- The neighbour behind the NIC that a host chooses. -/
def nicPeer (u : Fin n) (ch : CustomHeader) : Option (Fin n) := fab.driver.nextNode ch.dip (fab.nicHash ch) u

/-- The queue at `v` that a packet goes into. -/
def classAt (v : Fin n) (p : NetPacket α) : Queue := egressClass (fab.ackHighPrio v) p.ch p.pg

def hasDevice (u : Fin n) (idx : UInt32) : Bool :=
  fab.driver.topo.order.any fun v => (fab.driver.topo.nbr2if u v).any fun iface => iface.idx == idx

end Fabric

/-- The byte counter of an ACK queue. -/
def ackBytes (packets : List (NetPacket α)) : UInt32 := packets.foldl (fun bytes p => bytes + p.size) 0

/-- The ACK queue takes the packet: its limit is `0xffffffff` bytes. -/
def ackRoom (packets : List (NetPacket α)) (size : UInt32) : Bool := !(ackBytes packets + size ≥ 0xffffffff)

namespace FabricState

def start (fab : Fabric n) : FabricState n α where
  clock := 0
  switches := fun v => .start (fab.mmu v)
  dci := fun v => { DciSwitch.new with rtTable := fab.driver.rtTable v }
  ackQ := fun _ _ => []
  paused := fun _ _ _ => false
  wires := fun _ _ => []
  sent := []
  received := fun _ => []
  lost := []

variable (fab : Fabric n) (s : FabricState n α)

/-- `TransmitStart` of the device of `u` on the link to `v`. -/
def transmit (u v : Fin n) (frame : Frame α) : FabricState n α :=
  { s with wires := Grid.set s.wires u v (s.wires u v ++ [frame]) }

/-- The frames left on a link. -/
def take (u v : Fin n) (rest : List (Frame α)) : FabricState n α := { s with wires := Grid.set s.wires u v rest }

/-- What a DCI switch reads of the simulator. -/
def env (v : Fin n) (uninit : UInt32) : SwitchEnv where
  now := s.clock
  nDevices := fab.nDevices v
  queueBytes := fun idx =>
    if fab.hasDevice v idx then some ((s.switches v).node.devices (toPort idx)).queue.bytesInQueueTotal else none
  isLinkUp := fun idx => (fab.driver.peer v idx).isSome
  uninit := uninit

/-- `GetOutDev` of a switch of either kind. -/
def outDev (v : Fin n) (uninit : UInt32) (ch : CustomHeader) : DciSwitch × Option UInt32 :=
  if fab.driver.topo.nodeType v = .dciSwitch then (s.dci v).getOutDev (fab.dci v) (s.env fab v uninit) ch
  else (s.dci v, (fab.driver.rtTable v).getOutDev ch.dip (ecmpHash (ch.hashKey uninit) [] (fab.ecmpSeed v)))

/-- The node that a switch sends a packet to. -/
def route (v : Fin n) (uninit : UInt32) (ch : CustomHeader) : Option (Fin n) :=
  (s.outDev fab v uninit ch).2.bind (fab.driver.peer v)

/-- `SendToDev` of switch `v` for a packet from `u`. A device that is down is refused by an assertion. -/
def sendToDev (u v : Fin n) (uninit : UInt32) (p : NetPacket α) : Option (FabricState n α) :=
  let s' := { s with dci := Function.update s.dci v (s.outDev fab v uninit p.ch).1 }
  match (s.outDev fab v uninit p.ch).2 with
  | none => some { s' with lost := s.lost ++ [p] }
  | some idx =>
      match fab.driver.peer v idx with
      | none => none
      | some _ =>
          some { s' with
            switches := Function.update s.switches v
              ((s.switches v).sendToDev fab.pauseTime (fab.port v u) (toPort idx) (fab.classAt v p) p)
            lost :=
              if (s.switches v).node.stores fab.pauseTime (fab.port v u) (toPort idx) (fab.classAt v p) p.size then s.lost
              else s.lost ++ [p] }

/-- `Receive` of the device of `v` on the link from `u` for a PFC frame. -/
def recvPfc (u v : Fin n) (qIndex : Queue) (time : UInt32) : Option (FabricState n α) :=
  if fab.isHost v then
    (receivePfc (s.paused v u) qIndex time).map fun paused => { s with paused := Grid.set s.paused v u paused }
  else
    ((s.switches v).node.recvPfc (fab.port v u) qIndex time).map fun node =>
      { s with switches := Function.update s.switches v { s.switches v with node := node } }

end FabricState

open FabricState in
/-- One event. A frame that the error model corrupts is dropped by the device it reaches. -/
def fabricNext (fab : Fabric n) (s : FabricState n α) : FabricEvent n α → Option (FabricState n α)
  | .advance dt => some { s with clock := s.clock + dt }
  | .send u p =>
      if fab.isHost u ∧ p.ch.l3Prot = 0x11 ∧ p.ch.sip = Topology.dstAddr u then
        match fab.nicPeer u p.ch with
        | none => none
        | some v =>
            -- the ACKs of a NIC go first
            if s.paused u v p.pg = false ∧ (s.paused u v fab.ackQIdx = true ∨ s.ackQ u v = []) then
              some { s.transmit u v (.packet p) with sent := s.sent ++ [p] }
            else none
      else none
  | .queueAck u p =>
      if fab.isHost u ∧ (p.ch.l3Prot = 0xFC ∨ p.ch.l3Prot = 0xFD) ∧ p.ch.sip = Topology.dstAddr u then
        match fab.nicPeer u p.ch with
        | none => none
        | some v =>
            if ackRoom (s.ackQ u v) p.size then
              some { s with ackQ := Grid.set s.ackQ u v (s.ackQ u v ++ [p]), sent := s.sent ++ [p] }
            else some { s with sent := s.sent ++ [p], lost := s.lost ++ [p] }
      else none
  | .sendAck u v =>
      if s.paused u v fab.ackQIdx then none
      else
        match s.ackQ u v with
        | [] => none
        | p :: rest => some { s.transmit u v (.packet p) with ackQ := Grid.set s.ackQ u v rest }
  | .dequeue u v =>
      if fab.isHost u = false ∧ fab.driver.topo.linkUp u v then
        match (s.switches u).dequeue fab.pauseTime (fab.port u v) with
        | none => none
        | some (frame, sw) => some { s.transmit u v frame with switches := Function.update s.switches u sw }
      else none
  | .deliver u v corrupt uninit =>
      match s.wires u v with
      | [] => none
      | frame :: rest =>
          if corrupt then some { s.take u v rest with lost := s.lost ++ frame.toPacket.toList }
          else
            match frame with
            | .pfc time qIndex => (s.take u v rest).recvPfc fab u v qIndex time
            | .packet p =>
                if fab.isHost v then
                  some { s.take u v rest with received := Function.update s.received v (s.received v ++ [p]) }
                else (s.take u v rest).sendToDev fab u v uninit p

def fabricSystem (α : Type) (fab : Fabric n) : System (FabricState n α) (FabricEvent n α) where
  init := FabricState.start fab
  next := fabricNext fab

/-! ### What one event does -/

/-- The events that happen, each with all that it does. -/
inductive FabricStep (fab : Fabric n) (s : FabricState n α) : FabricEvent n α → FabricState n α → Prop where
  | advance (dt : Nat) : FabricStep fab s (.advance dt) { s with clock := s.clock + dt }
  | send {u v : Fin n} {p : NetPacket α} (hhost : fab.isHost u = true) (hprot : p.ch.l3Prot = 0x11)
      (hsip : p.ch.sip = Topology.dstAddr u) (hnic : fab.nicPeer u p.ch = some v) :
      FabricStep fab s (.send u p) { s.transmit u v (.packet p) with sent := s.sent ++ [p] }
  | queueAck {u v : Fin n} {p : NetPacket α} (hhost : fab.isHost u = true)
      (hprot : p.ch.l3Prot = 0xFC ∨ p.ch.l3Prot = 0xFD) (hsip : p.ch.sip = Topology.dstAddr u)
      (hnic : fab.nicPeer u p.ch = some v) :
      FabricStep fab s (.queueAck u p)
        { s with ackQ := Grid.set s.ackQ u v (s.ackQ u v ++ [p]), sent := s.sent ++ [p] }
  | refuseAck {u : Fin n} {p : NetPacket α} (hprot : p.ch.l3Prot = 0xFC ∨ p.ch.l3Prot = 0xFD) :
      FabricStep fab s (.queueAck u p) { s with sent := s.sent ++ [p], lost := s.lost ++ [p] }
  | sendAck {u v : Fin n} {p : NetPacket α} {rest : List (NetPacket α)} (hhead : s.ackQ u v = p :: rest) :
      FabricStep fab s (.sendAck u v) { s.transmit u v (.packet p) with ackQ := Grid.set s.ackQ u v rest }
  | dequeue {u v : Fin n} {frame : Frame α} {sw : NetSwitch α} (hswitch : fab.isHost u = false)
      (hlink : fab.driver.topo.linkUp u v = true)
      (hout : (s.switches u).dequeue fab.pauseTime (fab.port u v) = some (frame, sw)) :
      FabricStep fab s (.dequeue u v) { s.transmit u v frame with switches := Function.update s.switches u sw }
  | corrupt {u v : Fin n} {uninit : UInt32} {frame : Frame α} {rest : List (Frame α)}
      (hwire : s.wires u v = frame :: rest) :
      FabricStep fab s (.deliver u v true uninit) { s.take u v rest with lost := s.lost ++ frame.toPacket.toList }
  | pfcHost {u v : Fin n} {uninit : UInt32} {time : UInt32} {qIndex : Queue} {rest : List (Frame α)}
      {paused : Queue → Bool} (hwire : s.wires u v = .pfc time qIndex :: rest) (hhost : fab.isHost v = true)
      (hrecv : receivePfc (s.paused v u) qIndex time = some paused) :
      FabricStep fab s (.deliver u v false uninit) { s.take u v rest with paused := Grid.set s.paused v u paused }
  | pfcSwitch {u v : Fin n} {uninit : UInt32} {time : UInt32} {qIndex : Queue} {rest : List (Frame α)} {node : SwitchNode}
      (hwire : s.wires u v = .pfc time qIndex :: rest) (hswitch : fab.isHost v = false)
      (hrecv : (s.switches v).node.recvPfc (fab.port v u) qIndex time = some node) :
      FabricStep fab s (.deliver u v false uninit)
        { s.take u v rest with switches := Function.update s.switches v { s.switches v with node := node } }
  | noRoute {u v : Fin n} {uninit : UInt32} {p : NetPacket α} {rest : List (Frame α)} (hwire : s.wires u v = .packet p :: rest)
      (hswitch : fab.isHost v = false) (hnone : (s.outDev fab v uninit p.ch).2 = none) :
      FabricStep fab s (.deliver u v false uninit) { s.take u v rest with
        dci := Function.update s.dci v (s.outDev fab v uninit p.ch).1
        lost := s.lost ++ [p] }
  | forward {u v w : Fin n} {uninit : UInt32} {p : NetPacket α} {rest : List (Frame α)}
      (hwire : s.wires u v = .packet p :: rest) (hswitch : fab.isHost v = false)
      (hroute : s.route fab v uninit p.ch = some w) (hlink : fab.driver.topo.linkUp v w = true) :
      FabricStep fab s (.deliver u v false uninit) { s.take u v rest with
        dci := Function.update s.dci v (s.outDev fab v uninit p.ch).1
        switches := Function.update s.switches v
          ((s.switches v).sendToDev fab.pauseTime (fab.port v u) (fab.port v w) (fab.classAt v p) p)
        lost :=
          if (s.switches v).node.stores fab.pauseTime (fab.port v u) (fab.port v w) (fab.classAt v p) p.size then s.lost
          else s.lost ++ [p] }
  | receive {u v : Fin n} {uninit : UInt32} {p : NetPacket α} {rest : List (Frame α)}
      (hwire : s.wires u v = .packet p :: rest) (hhost : fab.isHost v = true) :
      FabricStep fab s (.deliver u v false uninit)
        { s.take u v rest with received := Function.update s.received v (s.received v ++ [p]) }

/-- The port that leads to a neighbour, over a link that is up. -/
theorem RouteDriver.peer_spec {d : RouteDriver n} {u v : Fin n} {idx : UInt32} (h : d.peer u idx = some v) :
    d.topo.linkUp u v = true ∧ d.topo.ifIdx u v = idx := by
  unfold RouteDriver.peer at h
  have hfound := List.find?_some h
  cases hiface : d.topo.nbr2if u v with
  | none =>
      rw [hiface] at hfound
      cases hfound
  | some iface =>
      rw [hiface] at hfound
      have hboth : iface.up = true ∧ iface.idx = idx := by simpa using hfound
      constructor
      · simp only [Topology.linkUp, Lcmp.linkUp]
        rw [hiface]
        exact hboth.1
      · simp only [Topology.ifIdx]
        rw [hiface]
        exact hboth.2

theorem fabricNext_step {fab : Fabric n} {s s' : FabricState n α} {e : FabricEvent n α}
    (h : fabricNext fab s e = some s') : FabricStep fab s e s' := by
  cases e with
  | advance dt =>
      obtain rfl := Option.some.inj h
      exact .advance dt
  | send u p =>
      simp only [fabricNext] at h
      split at h
      · rename_i hguard
        split at h
        · cases h
        · rename_i v hnic
          split at h
          · obtain rfl := Option.some.inj h
            exact .send hguard.1 hguard.2.1 hguard.2.2 hnic
          · cases h
      · cases h
  | queueAck u p =>
      simp only [fabricNext] at h
      split at h
      · rename_i hguard
        split at h
        · cases h
        · rename_i v hnic
          split at h
          · obtain rfl := Option.some.inj h
            exact .queueAck hguard.1 hguard.2.1 hguard.2.2 hnic
          · obtain rfl := Option.some.inj h
            exact .refuseAck hguard.2.1
      · cases h
  | sendAck u v =>
      simp only [fabricNext] at h
      split at h
      · cases h
      · split at h
        · cases h
        · rename_i hhead
          obtain rfl := Option.some.inj h
          exact .sendAck hhead
  | dequeue u v =>
      simp only [fabricNext] at h
      split at h
      · rename_i hguard
        split at h
        · cases h
        · rename_i hout
          obtain rfl := Option.some.inj h
          exact .dequeue hguard.1 hguard.2 hout
      · cases h
  | deliver u v corrupt uninit =>
      simp only [fabricNext] at h
      split at h
      · cases h
      · rename_i frame rest hwire
        split at h
        · rename_i hcorrupt
          obtain rfl := Option.some.inj h
          rw [hcorrupt]
          exact .corrupt hwire
        · rename_i hcorrupt
          obtain rfl : corrupt = false := by simpa using hcorrupt
          cases frame with
          | pfc time qIndex =>
              simp only [FabricState.recvPfc] at h
              split at h
              · rename_i hhost
                obtain ⟨paused, hrecv, rfl⟩ := Option.map_eq_some_iff.mp h
                exact .pfcHost hwire hhost hrecv
              · rename_i hhost
                obtain ⟨node, hrecv, rfl⟩ := Option.map_eq_some_iff.mp h
                exact .pfcSwitch hwire (by simpa using hhost) hrecv
          | packet p =>
              dsimp only at h
              split at h
              · rename_i hhost
                obtain rfl := Option.some.inj h
                exact .receive hwire hhost
              · rename_i hhost
                have hswitch : fab.isHost v = false := by simpa using hhost
                simp only [FabricState.sendToDev] at h
                split at h
                · rename_i hnone
                  obtain rfl := Option.some.inj h
                  exact .noRoute hwire hswitch hnone
                · rename_i idx hidx
                  split at h
                  · cases h
                  · rename_i w hpeer
                    obtain rfl := Option.some.inj h
                    obtain ⟨hlink, hport⟩ := RouteDriver.peer_spec hpeer
                    have hroute : s.route fab v uninit p.ch = some w := by
                      simp only [FabricState.route]
                      have hout : (s.outDev fab v uninit p.ch).2 = some idx := hidx
                      rw [hout]
                      exact hpeer
                    have hsame : toPort idx = fab.port v w := by rw [Fabric.port, hport]
                    rw [hsame]
                    exact .forward hwire hswitch hroute hlink

end Lcmp
