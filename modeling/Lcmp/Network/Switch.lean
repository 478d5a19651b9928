import Lcmp.Routing.Header
import Lcmp.Switch.Steps

/-!
# The packets in a switch

A `SwitchNode` stores sizes and ports of entry. Here its egress queues hold the packets themselves, so that
one can follow a packet from port to port. The node does not look at them: what it stores is the sizes and
tags of the packets that are here, in the same order, between the PFC frames it made.
-/

namespace Lcmp

/-- A packet on its way: what routing reads of it, its priority group, its size and what it carries. -/
structure NetPacket (α : Type) where
  ch : CustomHeader
  pg : Queue
  size : UInt32
  payload : α
  deriving DecidableEq

/-- What goes over a link. -/
inductive Frame (α : Type) where
  | packet (p : NetPacket α)
  | pfc (time : UInt32) (qIndex : Queue)

variable {α : Type}

/-- The packet of a frame that is no PFC frame. -/
def Frame.toPacket : Frame α → Option (NetPacket α)
  | .packet p => some p
  | .pfc _ _ => none

namespace SwitchNode

/-- A packet that came in over a port, and not a PFC frame. -/
def isTransit (p : SwitchPacket) : Bool :=
  match p.kind with
  | .transit _ => true
  | .pfc _ _ => false

/-- What a queue stores of the packets that came in. -/
def transit (n : SwitchNode) (out : Port) (qIndex : Queue) : List SwitchPacket :=
  ((n.devices out).queue.queues qIndex).packets.filter isTransit

/-- `SendToDev` puts the packet into the egress queue: neither admission control nor the queue refuses it. -/
def stores (n : SwitchNode) (pauseTime : UInt32) (inDev idx : Port) (qIndex : Queue) (size : UInt32) : Bool :=
  match n.admission pauseTime inDev idx qIndex size with
  | none => false
  | some n => (n.devices idx).queue.accepts ⟨size, .transit inDev⟩ qIndex

end SwitchNode

/-- A switch and the packets in the queues of its ports, each with the port it is tagged with. -/
structure NetSwitch (α : Type) where
  node : SwitchNode
  contents : Port → Queue → List (NetPacket α × Port)

namespace NetSwitch

def start (cfg : MmuConfig) : NetSwitch α where
  node := .start cfg
  contents := fun _ _ => []

variable (pauseTime : UInt32)

/-- `SendToDev` for a packet from port `inDev` that is routed to port `idx`. -/
def sendToDev (s : NetSwitch α) (inDev idx : Port) (qIndex : Queue) (p : NetPacket α) : NetSwitch α where
  node := s.node.sendToDev pauseTime inDev idx qIndex p.size
  contents :=
    if s.node.stores pauseTime inDev idx qIndex p.size then
      Grid.set s.contents idx qIndex (s.contents idx qIndex ++ [(p, inDev)])
    else s.contents

/-- The frame that a port puts on the link. The tag of a packet is removed. -/
def dequeue (s : NetSwitch α) (port : Port) : Option (Frame α × NetSwitch α) :=
  match s.node.dequeue pauseTime port with
  | none => none
  | some (stored, node) =>
      match stored.kind with
      | .pfc time qIndex => some (.pfc time qIndex, { s with node := node })
      | .transit _ =>
          match (s.node.devices port).queue.nextQueue (s.node.devices port).paused with
          | none => none
          | some qIndex =>
              match s.contents port qIndex with
              | [] => none
              | (p, _) :: rest => some (.packet p, { node := node, contents := Grid.set s.contents port qIndex rest })

/-- What the node stores of a packet. -/
def tagged (x : NetPacket α × Port) : SwitchPacket := ⟨x.1.size, .transit x.2⟩

/-- The node stores what is here. -/
def Agrees (s : NetSwitch α) : Prop := ∀ out q, (s.contents out q).map tagged = s.node.transit out q

/-! ### Arrivals and departures -/

variable {pauseTime} {s s' : NetSwitch α} {port inDev idx : Port} {qIndex : Queue} {p : NetPacket α}

/-- What a frame taken from a port is. -/
inductive Departure (s : NetSwitch α) (port : Port) : Frame α → NetSwitch α → Prop where
  | pfc {time : UInt32} {q : Queue} {node : SwitchNode} : Departure s port (.pfc time q) { s with node := node }
  | packet {p : NetPacket α} {inDev : Port} {qIndex : Queue} {rest : List (NetPacket α × Port)} {node : SwitchNode}
      (hhead : s.contents port qIndex = (p, inDev) :: rest) :
      Departure s port (.packet p) { node := node, contents := Grid.set s.contents port qIndex rest }

theorem dequeue_departure {frame : Frame α} (h : s.dequeue pauseTime port = some (frame, s')) :
    Departure s port frame s' := by
  unfold dequeue at h
  split at h
  · cases h
  · split at h
    · obtain ⟨rfl, rfl⟩ := Prod.mk.inj (Option.some.inj h)
      exact .pfc
    · split at h
      · cases h
      · split at h
        · cases h
        · rename_i hhead
          obtain ⟨rfl, rfl⟩ := Prod.mk.inj (Option.some.inj h)
          exact .packet hhead

theorem sendToDev_contents (out : Port) (q : Queue) :
    (s.sendToDev pauseTime inDev idx qIndex p).contents out q =
      if s.node.stores pauseTime inDev idx qIndex p.size = true ∧ out = idx ∧ q = qIndex then
        s.contents idx qIndex ++ [(p, inDev)]
      else s.contents out q := by
  unfold sendToDev
  dsimp only
  by_cases hstores : s.node.stores pauseTime inDev idx qIndex p.size = true
  · rw [if_pos hstores]
    by_cases hcell : out = idx ∧ q = qIndex
    · obtain ⟨rfl, rfl⟩ := hcell
      rw [Grid.set_self, if_pos ⟨hstores, rfl, rfl⟩]
    · rw [Grid.set_of_ne hcell, if_neg fun hc => hcell hc.2]
  · rw [if_neg hstores, if_neg fun hc => hstores hc.1]

end NetSwitch

/-! ### The node and the packets -/

namespace SwitchNode

variable {n n' : SwitchNode} {pauseTime : UInt32} {port inDev idx : Port} {qIndex : Queue} {size : UInt32}

theorem switchSend_transit (p : SwitchPacket) (out : Port) (q : Queue) :
    (n.switchSend port qIndex p).transit out q =
      if (out = port ∧ q = qIndex ∧ (n.devices port).queue.accepts p qIndex = true) ∧ isTransit p = true then
        n.transit out q ++ [p]
      else n.transit out q := by
  unfold transit
  rw [switchSend_packets]
  by_cases hhere : out = port ∧ q = qIndex ∧ (n.devices port).queue.accepts p qIndex = true
  · by_cases hkind : isTransit p = true
    · simp [hhere, hkind]
    · simp [hhere, hkind]
  · simp only [hhere, if_false, false_and]

theorem sendPfc_transit (type : PfcType) (out : Port) (q : Queue) :
    (n.sendPfc pauseTime port qIndex type).transit out q = n.transit out q := by
  have hsame : (n.sendPfc pauseTime port qIndex type).transit out q =
      (n.switchSend port 0 (pfcFrame pauseTime qIndex type)).transit out q := rfl
  rw [hsame, switchSend_transit, if_neg fun h => Bool.false_ne_true h.2]

theorem checkAndSendPfc_transit (out : Port) (q : Queue) :
    (n.checkAndSendPfc pauseTime inDev qIndex).transit out q = n.transit out q := by
  unfold checkAndSendPfc
  split
  · exact sendPfc_transit .pause out q
  · rfl

theorem checkAndSendResume_transit (out : Port) (q : Queue) :
    (n.checkAndSendResume pauseTime inDev qIndex).transit out q = n.transit out q := by
  simp only [checkAndSendResume]
  split
  · exact sendPfc_transit .resume out q
  · rfl

theorem admission_transit {n₁ : SwitchNode} (h : n.admission pauseTime inDev idx qIndex size = some n₁) (out : Port)
    (q : Queue) : n₁.transit out q = n.transit out q := by
  rcases admission_cases h with ⟨-, rfl⟩ | ⟨-, rfl⟩
  · exact checkAndSendPfc_transit out q
  · rfl

/-- An arrival adds the packet to its queue or to none. -/
theorem sendToDev_transit (out : Port) (q : Queue) :
    (n.sendToDev pauseTime inDev idx qIndex size).transit out q =
      if n.stores pauseTime inDev idx qIndex size = true ∧ out = idx ∧ q = qIndex then
        n.transit idx qIndex ++ [⟨size, .transit inDev⟩]
      else n.transit out q := by
  unfold stores
  cases hadm : n.admission pauseTime inDev idx qIndex size with
  | none =>
      rw [sendToDev_dropped hadm, if_neg fun h => Bool.false_ne_true h.1]
  | some n₁ =>
      have hsame := admission_transit hadm
      rw [sendToDev_admitted hadm, switchSend_transit]
      have hdevices : ∀ value, (n₁.setBytes inDev idx qIndex value).devices = n₁.devices := fun _ => rfl
      have htransit : ∀ value, (n₁.setBytes inDev idx qIndex value).transit out q = n₁.transit out q := fun _ => rfl
      have hkind : isTransit ⟨size, .transit inDev⟩ = true := rfl
      rw [hdevices, htransit, hsame]
      by_cases hcell : out = idx ∧ q = qIndex
      · obtain ⟨rfl, rfl⟩ := hcell
        simp [hkind]
      · rw [if_neg fun h => hcell ⟨h.1.1, h.1.2.1⟩, if_neg fun h => hcell h.2]

theorem switchNotifyDequeue_transit_eq {p : SwitchPacket} (out : Port) (q : Queue) :
    (n.switchNotifyDequeue pauseTime port qIndex p).transit out q = n.transit out q := by
  unfold switchNotifyDequeue
  split
  · split
    · exact checkAndSendResume_transit out q
    · rfl
  · rfl

/-- A departure takes a packet from the head of its queue. -/
theorem dequeue_transit {p : SwitchPacket} (h : n.dequeue pauseTime port = some (p, n')) :
    ∃ qIndex, (n.devices port).queue.nextQueue (n.devices port).paused = some qIndex ∧ ∀ out q, n.transit out q =
      if isTransit p = true ∧ out = port ∧ q = qIndex then p :: n'.transit out q else n'.transit out q := by
  unfold dequeue at h
  split at h
  · cases h
  · rename_i stored qIndex eq' hnext
    obtain ⟨rfl, rfl⟩ := Prod.mk.inj (Option.some.inj h)
    refine ⟨qIndex, ?_, fun out q => ?_⟩
    · unfold BEgressQueue.dequeueRR at hnext
      split at hnext
      · cases hnext
      · split at hnext
        · cases hnext
        · rename_i hqueue
          split at hnext
          · cases hnext
          · obtain ⟨-, hsame⟩ := Prod.mk.inj (Option.some.inj hnext)
            rw [hqueue, (Prod.mk.inj hsame).1]
    · rw [switchNotifyDequeue_transit_eq]
      unfold transit
      rw [dequeued_packets (BEgressQueue.dequeueRR_spec hnext) out q]
      by_cases hcell : out = port ∧ q = qIndex
      · by_cases hkind : isTransit stored = true
        · simp [hcell, hkind]
        · simp [hcell, hkind]
      · simp only [hcell, if_false, and_false]

end SwitchNode

namespace NetSwitch

variable {s s' : NetSwitch α} {pauseTime : UInt32} {port inDev idx : Port} {qIndex : Queue} {p : NetPacket α}

theorem agrees_start (cfg : MmuConfig) : Agrees (start cfg : NetSwitch α) := fun _ _ => rfl

theorem Agrees.sendToDev (h : s.Agrees) : (s.sendToDev pauseTime inDev idx qIndex p).Agrees := by
  intro out q
  have hnode : (s.sendToDev pauseTime inDev idx qIndex p).node = s.node.sendToDev pauseTime inDev idx qIndex p.size := rfl
  rw [sendToDev_contents, hnode, SwitchNode.sendToDev_transit]
  split
  · rw [List.map_append, h idx qIndex]
    rfl
  · exact h out q

/-- A port that has something to send sends it: there is a packet for what the node takes out, and it is the
one that stands for it. -/
theorem Agrees.dequeue (h : s.Agrees) {stored : SwitchPacket} {node : SwitchNode}
    (hnode : s.node.dequeue pauseTime port = some (stored, node)) :
    ∃ frame s', s.dequeue pauseTime port = some (frame, s') ∧ s'.node = node ∧ s'.Agrees ∧
      ∀ p, frame = .packet p → p.size = stored.size := by
  obtain ⟨qIndex, hqueue, htransit⟩ := SwitchNode.dequeue_transit hnode
  cases hkind : stored.kind with
  | pfc time q =>
      have hno : ¬ SwitchNode.isTransit stored = true := by simp [SwitchNode.isTransit, hkind]
      refine ⟨.pfc time q, { s with node := node }, ?_, rfl, fun out q => ?_, ?_⟩
      · simp only [NetSwitch.dequeue, hnode, hkind]
      · have hsame := htransit out q
        rw [if_neg fun hc => hno hc.1] at hsame
        exact (h out q).trans hsame
      · intro p hp
        cases hp
  | transit inDev =>
      have hyes : SwitchNode.isTransit stored = true := by simp [SwitchNode.isTransit, hkind]
      have hhead := h port qIndex
      rw [htransit port qIndex, if_pos ⟨hyes, rfl, rfl⟩] at hhead
      obtain ⟨x, rest, hcontents, hx, hrest⟩ := List.map_eq_cons_iff.mp hhead
      refine ⟨.packet x.1, { node := node, contents := Grid.set s.contents port qIndex rest }, ?_, rfl, fun out q => ?_, ?_⟩
      · simp only [NetSwitch.dequeue, hnode, hkind, hqueue, hcontents]
      · by_cases hcell : out = port ∧ q = qIndex
        · obtain ⟨rfl, rfl⟩ := hcell
          dsimp only
          rw [Grid.set_self]
          exact hrest
        · dsimp only
          rw [Grid.set_of_ne hcell]
          have hsame := htransit out q
          rw [if_neg fun hc => hcell hc.2] at hsame
          exact (h out q).trans hsame
      · intro p hp
        obtain rfl := Frame.packet.inj hp
        exact congrArg SwitchPacket.size hx

end NetSwitch

end Lcmp
