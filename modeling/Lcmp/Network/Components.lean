import Lcmp.Network.Order

/-!
# The switches of the fabric

Each switch of the fabric is at any time in a state that a switch on its own can be in, and so is the routing
state of each DCI switch. What holds of every run of the one or the other holds within the fabric.
-/

namespace Lcmp

namespace SwitchNode

/-- All links of the switch are up. -/
def AllUp (n : SwitchNode) : Prop := ∀ port, (n.devices port).linkUp = true

/-- The devices are as they were but for what their queues hold. -/
def SameDevices (n n' : SwitchNode) : Prop :=
  ∀ port, (n'.devices port).linkUp = (n.devices port).linkUp ∧ (n'.devices port).paused = (n.devices port).paused

variable {n n' n'' : SwitchNode} {pauseTime : UInt32} {port inDev idx : Port} {qIndex : Queue} {size : UInt32}

theorem SameDevices.refl (n : SwitchNode) : SameDevices n n := fun _ => ⟨rfl, rfl⟩

theorem SameDevices.trans (h : SameDevices n n') (h' : SameDevices n' n'') : SameDevices n n'' :=
  fun port => ⟨(h' port).1.trans (h port).1, (h' port).2.trans (h port).2⟩

theorem setQueue_devices (n : SwitchNode) (port : Port) (eq' : BEgressQueue) : SameDevices n (n.setQueue port eq') := by
  intro out
  by_cases hout : out = port
  · subst hout
    unfold SwitchNode.setQueue
    rw [setDevice_self]
    exact ⟨rfl, rfl⟩
  · unfold SwitchNode.setQueue
    rw [setDevice_of_ne _ hout]
    exact ⟨rfl, rfl⟩

theorem sendPfc_devices (n : SwitchNode) (port : Port) (qIndex : Queue) (type : PfcType) :
    SameDevices n (n.sendPfc pauseTime port qIndex type) :=
  setQueue_devices n port _

theorem checkAndSendPfc_devices (n : SwitchNode) : SameDevices n (n.checkAndSendPfc pauseTime inDev qIndex) := by
  unfold SwitchNode.checkAndSendPfc
  split
  · exact sendPfc_devices n inDev qIndex .pause
  · exact .refl n

theorem checkAndSendResume_devices (n : SwitchNode) : SameDevices n (n.checkAndSendResume pauseTime inDev qIndex) := by
  unfold SwitchNode.checkAndSendResume
  split
  · exact sendPfc_devices n inDev qIndex .resume
  · exact .refl n

theorem sendToDev_devices (n : SwitchNode) : SameDevices n (n.sendToDev pauseTime inDev idx qIndex size) := by
  cases hadm : n.admission pauseTime inDev idx qIndex size with
  | none =>
      rw [sendToDev_dropped hadm]
      exact .refl n
  | some n₁ =>
      rw [sendToDev_admitted hadm]
      have hadmitted : SameDevices n n₁ := by
        rcases admission_cases hadm with ⟨-, rfl⟩ | ⟨-, rfl⟩
        · exact checkAndSendPfc_devices (n.charge inDev idx qIndex size)
        · exact .refl _
      exact hadmitted.trans (setQueue_devices (n₁.setBytes inDev idx qIndex _) idx _)

theorem dequeue_devices {p : SwitchPacket} (hout : n.dequeue pauseTime port = some (p, n')) : SameDevices n n' := by
  obtain ⟨q, eq', -, rfl⟩ := dequeue_cases hout
  have hset := setQueue_devices n port eq'
  unfold SwitchNode.switchNotifyDequeue
  split
  · split
    · exact hset.trans (checkAndSendResume_devices ((n.setQueue port eq').refund ..))
    · exact hset
  · exact hset

theorem SameDevices.allUp (h : SameDevices n n') (hup : n.AllUp) : n'.AllUp := fun port => (h port).1.trans (hup port)

theorem AllUp.recvPfc (h : n.AllUp) {time : UInt32} (hrecv : n.recvPfc port qIndex time = some n') : n'.AllUp := by
  obtain ⟨paused, -, rfl⟩ := Option.map_eq_some_iff.mp hrecv
  intro out
  by_cases hout : out = port
  · subst hout
    rw [setDevice_self]
    exact h out
  · rw [setDevice_of_ne _ hout]
    exact h out

end SwitchNode

namespace NetSwitch

variable {α : Type} {s s' : NetSwitch α} {pauseTime : UInt32} {port : Port}

/-- What the node does when a port transmits. -/
theorem dequeue_node {frame : Frame α} (h : s.dequeue pauseTime port = some (frame, s')) :
    ∃ stored, s.node.dequeue pauseTime port = some (stored, s'.node) := by
  unfold dequeue at h
  split at h
  · cases h
  · rename_i stored node hnode
    rw [hnode]
    refine ⟨stored, congrArg some (Prod.ext rfl ?_)⟩
    split at h
    · obtain ⟨-, rfl⟩ := Prod.mk.inj (Option.some.inj h)
      rfl
    · split at h
      · cases h
      · split at h
        · cases h
        · obtain ⟨-, rfl⟩ := Prod.mk.inj (Option.some.inj h)
          rfl

/-- A PFC frame that arrives moves no packet. -/
theorem Agrees.recvPfc (h : s.Agrees) {node : SwitchNode} {qIndex : Queue} {time : UInt32}
    (hrecv : s.node.recvPfc port qIndex time = some node) : Agrees { s with node := node } := by
  obtain ⟨-, -, hqueue⟩ := SwitchNode.recvPfc_same hrecv
  intro out q
  have hsame : node.transit out q = s.node.transit out q := by
    unfold SwitchNode.transit
    rw [hqueue]
  exact (h out q).trans hsame.symm

end NetSwitch

variable {n : Nat} {α : Type} {fab : Fabric n} {s s' : FabricState n α} {e : FabricEvent n α}

/-- A switch that a node on its own may have become, and the packets that it stores. -/
structure SwitchSound (fab : Fabric n) (v : Fin n) (sw : NetSwitch α) : Prop where
  node : (SwitchNode.switchSystem fab.pauseTime (fab.mmu v)).Reachable sw.node
  up : sw.node.AllUp
  agrees : sw.Agrees

theorem switchSound_start (fab : Fabric n) (v : Fin n) : SwitchSound fab v (NetSwitch.start (fab.mmu v) : NetSwitch α) where
  node := .init
  up := fun _ => rfl
  agrees := NetSwitch.agrees_start _

section SwitchSteps

variable {v : Fin n} {sw sw' : NetSwitch α}

theorem SwitchSound.dequeue (h : SwitchSound fab v sw) {port : Port} {frame : Frame α}
    (hout : sw.dequeue fab.pauseTime port = some (frame, sw')) : SwitchSound fab v sw' := by
  obtain ⟨stored, hnode⟩ := NetSwitch.dequeue_node hout
  obtain ⟨frame', sw'', hout', -, hagrees, -⟩ := h.agrees.dequeue hnode
  obtain ⟨-, rfl⟩ := Prod.mk.inj (Option.some.inj (hout'.symm.trans hout))
  refine ⟨h.node.step (a := .dequeue port) ?_, (SwitchNode.dequeue_devices hnode).allUp h.up, hagrees⟩
  simp only [SwitchNode.switchSystem, SwitchNode.switchNext]
  rw [h.up, hnode]
  rfl

theorem SwitchSound.recvPfc (h : SwitchSound fab v sw) {port : Port} {time : UInt32} {q : Queue} {node : SwitchNode}
    (hrecv : sw.node.recvPfc port q time = some node) : SwitchSound fab v { sw with node := node } := by
  refine ⟨h.node.step (a := .recvPfc port q time) ?_, h.up.recvPfc hrecv, h.agrees.recvPfc hrecv⟩
  simp only [SwitchNode.switchSystem, SwitchNode.switchNext]
  rw [h.up]
  exact hrecv

theorem SwitchSound.sendToDev (h : SwitchSound fab v sw) (inDev idx : Port) (qIndex : Queue) (p : NetPacket α) :
    SwitchSound fab v (sw.sendToDev fab.pauseTime inDev idx qIndex p) := by
  refine ⟨h.node.step (a := .arrive inDev idx qIndex p.size) ?_, (SwitchNode.sendToDev_devices sw.node).allUp h.up,
    h.agrees.sendToDev⟩
  simp only [SwitchNode.switchSystem, SwitchNode.switchNext]
  rw [h.up, h.up]
  rfl

/-- One switch changes. -/
theorem SwitchSound.update (h : SwitchSound fab v (s.switches v)) {u : Fin n}
    (hnew : SwitchSound fab u (s.switches u) → SwitchSound fab u sw) :
    SwitchSound fab v (Function.update s.switches u sw v) := by
  by_cases hv : v = u
  · subst hv
    rw [Function.update_self]
    exact hnew h
  · rw [Function.update_of_ne hv]
    exact h

/-- A switch takes a step of its own or none. -/
theorem FabricStep.switchSound (h : FabricStep fab s e s') (hsound : SwitchSound fab v (s.switches v)) :
    SwitchSound fab v (s'.switches v) := by
  cases h with
  | dequeue _ _ hout => exact hsound.update fun hold => hold.dequeue hout
  | pfcSwitch _ _ hrecv => exact hsound.update fun hold => hold.recvPfc hrecv
  | forward _ _ _ _ => exact hsound.update fun hold => hold.sendToDev _ _ _ _
  | _ => exact hsound

end SwitchSteps

/-- The routing state of a switch is one of a run of its own, at an earlier time. -/
def DciSound (fab : Fabric n) (v : Fin n) (s : FabricState n α) : Prop :=
  ∃ clock ≤ s.clock, (dciSystem (fab.dci v) { DciSwitch.new with rtTable := fab.driver.rtTable v }).Reachable
    ⟨s.dci v, clock⟩

theorem FabricStep.dciSound (h : FabricStep fab s e s') {v : Fin n} (hsound : DciSound fab v s) : DciSound fab v s' := by
  obtain ⟨clock, hle, hreach⟩ := hsound
  rcases h.dci_cases v with hsame | ⟨uninit, p, -, hroute, hclock⟩
  · exact ⟨clock, hle.trans h.clock_le, hsame ▸ hreach⟩
  · by_cases hnode : fab.driver.topo.nodeType v = .dciSwitch
    · rw [FabricState.outDev_dci hnode] at hroute
      refine ⟨s.clock, hclock ▸ Int.le_refl _, ?_⟩
      rw [hroute]
      exact hreach.step (a := .packet p.ch (s.env fab v uninit)) (if_pos hle)
    · have hsame : s'.dci v = s.dci v := hroute.trans (congrArg Prod.fst (if_neg hnode))
      exact ⟨clock, hclock ▸ hle, hsame ▸ hreach⟩

/-- The fabric is made of its switches. In every reachable state each switch is in a state that the node on its
own can reach, and so is the routing state of each DCI switch. The packets in its queues are the ones that the node
stores, so whenever the node takes something out of a port there is a frame for it, of the same size. -/
theorem fabric_components (hreach : (fabricSystem α fab).Reachable s) (v : Fin n) :
    (SwitchNode.switchSystem fab.pauseTime (fab.mmu v)).Reachable (s.switches v).node ∧
    (∃ clock ≤ s.clock, (dciSystem (fab.dci v) { DciSwitch.new with rtTable := fab.driver.rtTable v }).Reachable
      ⟨s.dci v, clock⟩) ∧
    (∀ out q, ((s.switches v).contents out q).map NetSwitch.tagged = (s.switches v).node.transit out q) ∧
    ∀ port stored node, (s.switches v).node.dequeue fab.pauseTime port = some (stored, node) →
      ∃ frame sw, (s.switches v).dequeue fab.pauseTime port = some (frame, sw) ∧ sw.node = node ∧
        ∀ p, frame = .packet p → p.size = stored.size := by
  have hinv := hreach.invariant (P := fun s => SwitchSound fab v (s.switches v) ∧ DciSound fab v s)
    ⟨switchSound_start fab v, 0, Int.le_refl 0, .init⟩ fun _ _ _ h hnext =>
      ⟨(fabricNext_step hnext).switchSound h.1, (fabricNext_step hnext).dciSound h.2⟩
  refine ⟨hinv.1.node, hinv.2, hinv.1.agrees, fun port stored node hnode => ?_⟩
  obtain ⟨frame, sw, hout, hsame, -, hsize⟩ := hinv.1.agrees.dequeue hnode
  exact ⟨frame, sw, hout, hsame, hsize⟩

/-- The DCI switch of the sample fabric after two packets have passed it. -/
theorem fabric_components_twoPackets :
    ∃ s, (fabricSystem Nat twoWaysFabric).exec (fabricSystem Nat twoWaysFabric).init twoPackets = some s ∧
      (SwitchNode.switchSystem 5 SwitchMmu.zeroConfig).Reachable (s.switches 1).node := by
  have hexec := (Option.some_get twoPackets_runs).symm
  exact ⟨_, hexec, (fabric_components (System.reachable_of_exec twoPackets hexec) 1).1⟩

end Lcmp
