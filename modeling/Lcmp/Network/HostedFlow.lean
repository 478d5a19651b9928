import Lcmp.Network.Order
import Lcmp.Transport.Network

/-!
# A flow between two hosts of the fabric

The transport of one flow at its two hosts, with the fabric between them: the source takes its segments from the
queue pair, the destination answers a segment before anything else happens, and the source takes the answers. All
else in the fabric may happen in between. `ReceiveUdp` and `ReceiveAck` find the flow by the keys of `GetRxQp` and
`GetQp`, which do not say where a packet was going. Other flows of the two hosts may have them, too, but with another
destination, and their packets are then not to come out at the hosts of this one.

Whatever the fabric does to the packets, the flow is then one over an arbitrary network.
-/

namespace Lcmp

/-- What the packets of flows carry. -/
inductive Payload where
  | data (frame : DataFrame)
  | ack (frame : AckFrame)
  deriving DecidableEq

/-- A flow from host `a` to host `b`. The sizes of the headers depend on the mode of the INT header. -/
structure FlowHosts (n : Nat) where
  a : Fin n
  b : Fin n
  sport : UInt16
  dport : UInt16
  pg : Queue
  hw : RdmaHwConfig
  headerSize : UInt32
  ackSize : UInt32

variable {n : Nat} {α : Type}

namespace FlowHosts

variable (h : FlowHosts n)

def dataStream : Stream where
  sip := Topology.dstAddr h.a
  dip := Topology.dstAddr h.b
  sport := h.sport
  dport := h.dport
  pg := h.pg
  acks := false

def ackStream : Stream where
  sip := Topology.dstAddr h.b
  dip := Topology.dstAddr h.a
  sport := h.dport
  dport := h.sport
  pg := h.pg
  acks := true

/-- The packet of `GetNxtPacket`. -/
def dataPacket (frame : DataFrame) : NetPacket Payload where
  ch := h.dataStream.header
  pg := h.pg
  size := frame.payloadSize + h.headerSize
  payload := .data frame

/-- The packet with which `ReceiveUdp` answers. -/
def ackPacket (frame : AckFrame) : NetPacket Payload where
  ch := { h.ackStream.header with l3Prot := if frame.isNack then 0xFD else 0xFC }
  pg := h.pg
  size := h.ackSize
  payload := .ack frame

/-- `GetRxQp` of the destination finds the flow. -/
def isData (p : NetPacket Payload) : Bool :=
  decide (p.ch.l3Prot = 0x11 ∧ p.ch.sip = Topology.dstAddr h.a ∧ p.ch.sport = h.sport ∧ p.pg = h.pg)

/-- `GetQp` of the source finds the flow. -/
def isAck (p : NetPacket Payload) : Bool :=
  decide ((p.ch.l3Prot = 0xFC ∨ p.ch.l3Prot = 0xFD) ∧ p.ch.sip = Topology.dstAddr h.b ∧ p.ch.dport = h.sport ∧
    p.pg = h.pg)

/-- A packet with the key of the flow's data that is addressed to its destination. -/
def ownData (p : NetPacket Payload) : Bool := h.isData p && decide (p.ch.dip = Topology.dstAddr h.b)

def ownAck (p : NetPacket Payload) : Bool := h.isAck p && decide (p.ch.dip = Topology.dstAddr h.a)

/-- A packet with a key of the flow comes out at the wrong host. The flow takes it for its own, or another host takes the
flow's data and answers in the name of the destination. -/
def Strays (v : Fin n) (p : NetPacket Payload) : Prop :=
  (h.isData p = true ∧ ¬(v = h.b ↔ p.ch.dip = Topology.dstAddr h.b)) ∨
    (h.isAck p = true ∧ v = h.a ∧ p.ch.dip ≠ Topology.dstAddr h.a)

instance (v : Fin n) (p : NetPacket Payload) : Decidable (h.Strays v p) := inferInstanceAs (Decidable (_ ∨ _))

end FlowHosts

/-- `pending` is the answer that `ReceiveUdp` is about to queue. -/
structure HostedFlow (n : Nat) where
  net : FabricState n Payload
  flow : Flow
  pending : Option AckFrame

/-- The packet that a host receives. -/
def FabricState.receives (fab : Fabric n) (s : FabricState n α) : FabricEvent n α → Option (Fin n × NetPacket α)
  | .deliver u v false _ =>
      if fab.isHost v then
        match s.wires u v with
        | .packet p :: _ => some (v, p)
        | _ => none
      else none
  | _ => none

/-- The packets that an event puts into the fabric. -/
def FabricEvent.entering : FabricEvent n α → List (NetPacket α)
  | .send _ p => [p]
  | .queueAck _ p => [p]
  | _ => []

namespace HostedFlow

variable (fab : Fabric n) (h : FlowHosts n)

def start (qp : RdmaQueuePair) : HostedFlow n where
  net := .start fab
  flow := .start qp
  pending := none

/-- `Receive` of the hosts of the flow, at an event after which the fabric is `net`. A run ends where a packet strays. -/
def receive (s : HostedFlow n) (e : FabricEvent n Payload) (net : FabricState n Payload) : Option (HostedFlow n) :=
  match s.net.receives fab e with
  | none => some { s with net := net }
  | some (v, p) =>
      if h.Strays v p then none
      else if v = h.b ∧ h.isData p then
        match p.payload with
        | .ack _ => none
        | .data frame =>
            match s.flow.recvData h.hw s.net.clock frame with
            | none => none
            | some (ack, flow) => some { net := net, flow := flow, pending := ack }
      else if v = h.a ∧ h.isAck p then
        match p.payload with
        | .data _ => none
        | .ack frame =>
            match s.flow.recvAck h.hw frame with
            | none => none
            | some flow => some { s with net := net, flow := flow }
      else some { s with net := net }

/-- What the hosts of the flow do. No other flow between them has its keys. When the window and the rate let the next
segment out is left open: congestion control changes both. -/
def react (s : HostedFlow n) (e : FabricEvent n Payload) (net : FabricState n Payload) : Option (HostedFlow n) :=
  match s.pending with
  | some ack => if e.entering = [h.ackPacket ack] then some { s with net := net, pending := none } else none
  | none =>
      match e with
      | .send _ p =>
          if h.ownData p then
            match s.flow.send h.hw with
            | none => none
            | some (frame, flow) => if p = h.dataPacket frame then some { s with net := net, flow := flow } else none
          else some { s with net := net }
      | .queueAck _ p => if h.ownAck p then none else some { s with net := net }
      | e => s.receive fab h e net

end HostedFlow

/-- The flow and the fabric. The events are those of the fabric. -/
def hostedSystem (fab : Fabric n) (h : FlowHosts n) (qp : RdmaQueuePair) : System (HostedFlow n) (FabricEvent n Payload) where
  init := .start fab qp
  next := fun s e => (fabricNext fab s.net e).bind (s.react fab h e)

/-! ### What one event does -/

section Ledger

variable {fab : Fabric n} {s s' : FabricState n α} {e : FabricEvent n α}

theorem FabricStep.sent_eq (hstep : FabricStep fab s e s') : s'.sent = s.sent ++ e.entering := by
  cases hstep with
  | send => rfl
  | queueAck => rfl
  | refuseAck => rfl
  | _ => exact (List.append_nil _).symm

theorem FabricStep.lost_prefix (hstep : FabricStep fab s e s') : s.lost <+: s'.lost := by
  cases hstep with
  | refuseAck => exact List.prefix_append _ _
  | corrupt => exact List.prefix_append _ _
  | noRoute => exact List.prefix_append _ _
  | forward =>
      dsimp only
      split
      · exact List.prefix_rfl
      · exact List.prefix_append _ _
  | _ => exact List.prefix_rfl

/-- What a host receives has been on a link. -/
theorem receives_spec {v : Fin n} {p : NetPacket α} (h : s.receives fab e = some (v, p)) :
    fab.isHost v = true ∧ ∃ u uninit rest, e = .deliver u v false uninit ∧ s.wires u v = .packet p :: rest := by
  unfold FabricState.receives at h
  split at h
  · split at h
    · rename_i hhost
      split at h
      · rename_i hwire
        obtain ⟨rfl, rfl⟩ := Prod.mk.inj (Option.some.inj h)
        exact ⟨hhost, _, _, _, rfl, hwire⟩
      · cases h
    · cases h
  · cases h

theorem receives_deliver {u v : Fin n} {uninit : UInt32} {p : NetPacket α} {rest : List (Frame α)} (hhost : fab.isHost v = true)
    (hwire : s.wires u v = .packet p :: rest) : s.receives fab (.deliver u v false uninit) = some (v, p) := by
  unfold FabricState.receives
  dsimp only
  rw [if_pos hhost, hwire]

/-- A host receives one packet or none. -/
theorem FabricStep.received_eq (hstep : FabricStep fab s e s') (v : Fin n) :
    s'.received v = s.received v ++ ((s.receives fab e).toList.filter fun x => x.1 = v).map Prod.snd := by
  have hnothing : s.receives fab e = none → s'.received = s.received →
      s'.received v = s.received v ++ ((s.receives fab e).toList.filter fun x => x.1 = v).map Prod.snd := by
    intro hnone hsame
    rw [hnone, hsame]
    exact (List.append_nil _).symm
  have hswitch : ∀ u w uninit, fab.isHost w = false → s.receives fab (.deliver u w false uninit) = none := by
    intro u w uninit hw
    unfold FabricState.receives
    dsimp only
    rw [if_neg (by simp [hw])]
  cases hstep with
  | advance => exact hnothing rfl rfl
  | send => exact hnothing rfl rfl
  | queueAck => exact hnothing rfl rfl
  | refuseAck => exact hnothing rfl rfl
  | sendAck => exact hnothing rfl rfl
  | dequeue => exact hnothing rfl rfl
  | corrupt => exact hnothing rfl rfl
  | pfcHost hwire hhost _ =>
      refine hnothing ?_ rfl
      unfold FabricState.receives
      dsimp only
      rw [if_pos hhost, hwire]
  | pfcSwitch _ hswitch' _ => exact hnothing (hswitch _ _ _ hswitch') rfl
  | noRoute _ hswitch' _ => exact hnothing (hswitch _ _ _ hswitch') rfl
  | forward _ hswitch' _ _ => exact hnothing (hswitch _ _ _ hswitch') rfl
  | @receive u w uninit p rest hwire hhost =>
      rw [receives_deliver hhost hwire]
      by_cases hv : w = v
      · subst hv
        show Function.update s.received w (s.received w ++ [p]) w = _
        rw [Function.update_self]
        simp
      · show Function.update s.received w (s.received w ++ [p]) v = _
        rw [Function.update_of_ne (Ne.symm hv)]
        simp [hv]

end Ledger

variable {fab : Fabric n} {h : FlowHosts n}

namespace FlowHosts

variable {v : Fin n} {p : NetPacket Payload}

theorem isData_of_ownData (hown : h.ownData p = true) : h.isData p = true := (Bool.and_eq_true_iff.mp hown).1

theorem isAck_of_ownAck (hown : h.ownAck p = true) : h.isAck p = true := (Bool.and_eq_true_iff.mp hown).1

theorem ownData_of_not_strays (hstays : ¬ h.Strays h.b p) (hdata : h.isData p = true) : h.ownData p = true := by
  have hdip : p.ch.dip = Topology.dstAddr h.b := by
    by_contra hne
    exact hstays (.inl ⟨hdata, fun hiff => hne (hiff.mp rfl)⟩)
  exact Bool.and_eq_true_iff.mpr ⟨hdata, decide_eq_true hdip⟩

theorem ownAck_of_not_strays (hstays : ¬ h.Strays h.a p) (hack : h.isAck p = true) : h.ownAck p = true := by
  have hdip : p.ch.dip = Topology.dstAddr h.a := by
    by_contra hne
    exact hstays (.inr ⟨hack, rfl, hne⟩)
  exact Bool.and_eq_true_iff.mpr ⟨hack, decide_eq_true hdip⟩

end FlowHosts

open FlowHosts

/-- The steps of the flow, each with all that it does. -/
inductive HostedStep (fab : Fabric n) (h : FlowHosts n) (s : HostedFlow n) (e : FabricEvent n Payload)
    (net : FabricState n Payload) : HostedFlow n → Prop where
  | answer {ack : AckFrame} (hpending : s.pending = some ack) (henter : e.entering = [h.ackPacket ack]) :
      HostedStep fab h s e net { s with net := net, pending := none }
  | send {frame : DataFrame} {flow : Flow} (hpending : s.pending = none)
      (hsend : s.flow.send h.hw = some (frame, flow)) (henter : e.entering = [h.dataPacket frame]) :
      HostedStep fab h s e net { s with net := net, flow := flow }
  | data {p : NetPacket Payload} {frame : DataFrame} {ack : Option AckFrame} {flow : Flow} (hpending : s.pending = none)
      (hreceive : s.net.receives fab e = some (h.b, p)) (hmine : h.ownData p = true) (hpayload : p.payload = .data frame)
      (hrecv : s.flow.recvData h.hw s.net.clock frame = some (ack, flow)) :
      HostedStep fab h s e net { net := net, flow := flow, pending := ack }
  | ack {p : NetPacket Payload} {frame : AckFrame} {flow : Flow} (hpending : s.pending = none)
      (hreceive : s.net.receives fab e = some (h.a, p)) (hmine : h.ownAck p = true) (hpayload : p.payload = .ack frame)
      (hrecv : s.flow.recvAck h.hw frame = some flow) : HostedStep fab h s e net { s with net := net, flow := flow }
  | other (hpending : s.pending = none) (hsend : ∀ u p, e = .send u p → h.ownData p = false)
      (hack : ∀ u p, e = .queueAck u p → h.ownAck p = false)
      (hreceive : ∀ v p, s.net.receives fab e = some (v, p) → ¬(v = h.b ∧ h.ownData p = true) ∧ ¬(v = h.a ∧ h.ownAck p = true)) :
      HostedStep fab h s e net { s with net := net }

theorem receive_step {s t : HostedFlow n} {e : FabricEvent n Payload} {net : FabricState n Payload}
    (ht : s.receive fab h e net = some t) (hpending : s.pending = none) (hsend : ∀ u p, e = .send u p → h.ownData p = false)
    (hack : ∀ u p, e = .queueAck u p → h.ownAck p = false) : HostedStep fab h s e net t := by
  unfold HostedFlow.receive at ht
  split at ht
  · rename_i hnone
    obtain rfl := Option.some.inj ht
    refine .other hpending hsend hack fun v p hvp => ?_
    rw [hnone] at hvp
    cases hvp
  · rename_i v p hvp
    split at ht
    · cases ht
    · rename_i hstays
      split at ht
      · rename_i hmine
        obtain ⟨rfl, hmine⟩ := hmine
        split at ht
        · cases ht
        · rename_i hpayload
          split at ht
          · cases ht
          · rename_i hrecv
            obtain rfl := Option.some.inj ht
            exact .data hpending hvp (ownData_of_not_strays hstays hmine) hpayload hrecv
      · rename_i hdata
        split at ht
        · rename_i hmine
          obtain ⟨rfl, hmine⟩ := hmine
          split at ht
          · cases ht
          · rename_i hpayload
            split at ht
            · cases ht
            · rename_i hrecv
              obtain rfl := Option.some.inj ht
              exact .ack hpending hvp (ownAck_of_not_strays hstays hmine) hpayload hrecv
        · rename_i hack'
          obtain rfl := Option.some.inj ht
          refine .other hpending hsend hack fun w q hwq => ?_
          rw [hvp] at hwq
          obtain ⟨rfl, rfl⟩ := Prod.mk.inj (Option.some.inj hwq)
          exact ⟨fun hown => hdata ⟨hown.1, isData_of_ownData hown.2⟩, fun hown => hack' ⟨hown.1, isAck_of_ownAck hown.2⟩⟩

theorem HostedStep.net_eq {s t : HostedFlow n} {e : FabricEvent n Payload} {net : FabricState n Payload}
    (hstep : HostedStep fab h s e net t) : t.net = net := by
  cases hstep with
  | _ => rfl

theorem hosted_step {qp : RdmaQueuePair} {s t : HostedFlow n} {e : FabricEvent n Payload}
    (hnext : (hostedSystem fab h qp).next s e = some t) :
    ∃ net, fabricNext fab s.net e = some net ∧ HostedStep fab h s e net t := by
  obtain ⟨net, hnet, hreact⟩ := Option.bind_eq_some_iff.mp hnext
  refine ⟨net, hnet, ?_⟩
  unfold HostedFlow.react at hreact
  split at hreact
  · rename_i ack hpending
    split at hreact
    · rename_i henter
      obtain rfl := Option.some.inj hreact
      exact .answer hpending henter
    · cases hreact
  · rename_i hpending
    split at hreact
    · rename_i u p
      split at hreact
      · split at hreact
        · cases hreact
        · rename_i frame flow hsend
          split at hreact
          · rename_i hp
            obtain rfl := Option.some.inj hreact
            exact .send hpending hsend (by rw [hp]; rfl)
          · cases hreact
      · rename_i hmine
        obtain rfl := Option.some.inj hreact
        refine .other hpending (fun u' p' he => ?_) (fun u' p' he => by cases he) fun v q hvq => ?_
        · obtain ⟨-, rfl⟩ := FabricEvent.send.inj he
          simpa using hmine
        · cases hvq
    · rename_i u p
      split at hreact
      · cases hreact
      · rename_i hmine
        obtain rfl := Option.some.inj hreact
        refine .other hpending (fun u' p' he => by cases he) (fun u' p' he => ?_) fun v q hvq => ?_
        · obtain ⟨-, rfl⟩ := FabricEvent.queueAck.inj he
          simpa using hmine
        · cases hvq
    · rename_i hsend hack
      exact receive_step hreact hpending (fun u p he => absurd he (hsend u p)) fun u p he => absurd he (hack u p)

/-! ### A sample flow -/

open TwoWays

/-- A flow from one end to the other with an ACK for every segment. -/
def sampleFlow : FlowHosts 5 where
  a := sender
  b := receiver
  sport := 10000
  dport := 100
  pg := 3
  hw := everySegment
  headerSize := 48
  ackSize := 60

/-- A segment of another flow between the two hosts. -/
def otherSegment : NetPacket Payload where
  ch := { sampleFlow.dataStream.header with sport := 10005 }
  pg := 3
  size := 1048
  payload := .data ⟨0, 1000⟩

/-- The two segments of the flow go one way and their ACKs the other, which a segment of another flow takes, too. -/
def thereAndBack : List (FabricEvent 5 Payload) :=
  [.send sender (sampleFlow.dataPacket ⟨0, 1000⟩), .send sender otherSegment, .send sender (sampleFlow.dataPacket ⟨1000, 1000⟩),
    .deliver sender border false 0, .deliver sender border false 0, .advance 1000, .deliver sender border false 0,
    .dequeue border upper, .deliver border upper false 0, .dequeue upper receiver, .deliver upper receiver false 0,
    .dequeue border lower, .deliver border lower false 0, .dequeue lower receiver, .deliver lower receiver false 0,
    .queueAck receiver (sampleFlow.ackPacket ⟨false, 1000⟩),
    .dequeue border lower, .deliver border lower false 0, .dequeue lower receiver, .deliver lower receiver false 0,
    .queueAck receiver (sampleFlow.ackPacket ⟨false, 2000⟩), .sendAck receiver upper, .sendAck receiver upper,
    .deliver receiver upper false 0, .dequeue upper border, .deliver receiver upper false 0, .dequeue upper border,
    .deliver upper border false 0, .deliver upper border false 0, .dequeue border sender, .dequeue border sender,
    .deliver border sender false 0, .deliver border sender false 0]

theorem thereAndBack_runs : ((hostedSystem twoWaysFabric sampleFlow (plainQp 2000)).exec
    (hostedSystem twoWaysFabric sampleFlow (plainQp 2000)).init thereAndBack).isSome = true := by
  decide +kernel

end Lcmp
