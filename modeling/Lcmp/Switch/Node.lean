import Lcmp.Mmu.Accounting
import Lcmp.Switch.EgressQueue

/-!
# A switch node

`SwitchNode` of `switch-node.cc` with its memory management unit and the devices of its ports, as far
as they store packets and pause traffic; a DCI switch runs the same code. `SwitchSend` and `Resume`
end by trying to transmit. Here a transmission is an event of its own, which may come at any time, so
the schedules of the simulator are among the runs.
-/

namespace Lcmp

inductive PfcType where
  | pause
  | resume
  deriving DecidableEq

/-- A call of `SendPfc`, and whether the egress queue took the frame. -/
structure PfcRecord where
  port : Port
  qIndex : Queue
  type : PfcType
  accepted : Bool
  deriving DecidableEq

/-- The switch side of a `QbbNetDevice`. -/
structure SwitchDevice where
  linkUp : Bool
  paused : Queue → Bool
  queue : BEgressQueue

/-- `bytes` is `m_bytes`. The log of PFC frames is not part of the code's state: no function reads
it. -/
structure SwitchNode where
  mmu : SwitchMmu
  bytes : Port → Port → Queue → UInt32
  devices : Port → SwitchDevice
  pfcLog : List PfcRecord

/-- The headers of a PFC frame: 9 bytes of pause header, 20 of IPv4 and 14 of PPP. -/
def pfcSize : UInt32 := 9 + 20 + 14

/-- What a device does to `m_paused` when a PFC frame comes in. `Resume` asserts that the class is
paused. -/
def receivePfc (paused : Queue → Bool) (qIndex : Queue) (time : UInt32) : Option (Queue → Bool) :=
  if time > 0 then some (Function.update paused qIndex true)
  else if paused qIndex then some (Function.update paused qIndex false)
  else none

namespace SwitchNode

/-- A node whose links are up and which has not received anything. -/
def start (cfg : MmuConfig) : SwitchNode where
  mmu := SwitchMmu.start cfg
  bytes := fun _ _ _ => 0
  devices := fun _ => { linkUp := true, paused := fun _ => false, queue := BEgressQueue.empty }
  pfcLog := []

def setDevice (n : SwitchNode) (port : Port) (device : SwitchDevice) : SwitchNode :=
  { n with devices := Function.update n.devices port device }

def setQueue (n : SwitchNode) (port : Port) (queue : BEgressQueue) : SwitchNode :=
  n.setDevice port { n.devices port with queue := queue }

def setBytes (n : SwitchNode) (inDev out : Port) (qIndex : Queue) (value : UInt32) : SwitchNode :=
  { n with bytes := Function.update n.bytes inDev (Grid.set (n.bytes inDev) out qIndex value) }

/-- `SwitchSend` up to the attempt to transmit. -/
def switchSend (n : SwitchNode) (port : Port) (qIndex : Queue) (p : SwitchPacket) : SwitchNode :=
  n.setQueue port ((n.devices port).queue.enqueue p qIndex)

variable (pauseTime : UInt32)

def pfcFrame (qIndex : Queue) (type : PfcType) : SwitchPacket where
  size := pfcSize
  kind := .pfc (if type = .pause then pauseTime else 0) qIndex

def sendPfc (n : SwitchNode) (port : Port) (qIndex : Queue) (type : PfcType) : SwitchNode :=
  { n.switchSend port 0 (pfcFrame pauseTime qIndex type) with
    pfcLog := n.pfcLog ++
      [⟨port, qIndex, type, (n.devices port).queue.accepts (pfcFrame pauseTime qIndex type) 0⟩] }

def checkAndSendPfc (n : SwitchNode) (inDev : Port) (qIndex : Queue) : SwitchNode :=
  if n.mmu.checkShouldPause inDev qIndex then
    { n.sendPfc pauseTime inDev qIndex .pause with mmu := n.mmu.setPause inDev qIndex }
  else n

def checkAndSendResume (n : SwitchNode) (inDev : Port) (qIndex : Queue) : SwitchNode :=
  if n.mmu.checkShouldResume inDev qIndex then
    { n.sendPfc pauseTime inDev qIndex .resume with mmu := n.mmu.setResume inDev qIndex }
  else n

/-- Admission control charges a packet to its port of entry and to its way out. -/
def charge (n : SwitchNode) (inDev idx : Port) (qIndex : Queue) (size : UInt32) : SwitchNode :=
  { n with mmu :=
      (n.mmu.updateIngressAdmission inDev qIndex size).updateEgressAdmission idx qIndex size }

/-- The part of `SendToDev` in front of `SwitchSend`; a packet it drops gives `none`. -/
def admission (n : SwitchNode) (inDev idx : Port) (qIndex : Queue) (size : UInt32) : Option SwitchNode :=
  if qIndex ≠ 0 then
    if n.mmu.checkIngressAdmission inDev qIndex size && n.mmu.checkEgressAdmission idx qIndex size then
      some ((n.charge inDev idx qIndex size).checkAndSendPfc pauseTime inDev qIndex)
    else none
  else some n

/-- `SendToDev` for a packet from port `inDev` that is routed to port `idx` in queue `qIndex`. -/
def sendToDev (n : SwitchNode) (inDev idx : Port) (qIndex : Queue) (size : UInt32) : SwitchNode :=
  match n.admission pauseTime inDev idx qIndex size with
  | none => n
  | some n =>
      (n.setBytes inDev idx qIndex (n.bytes inDev idx qIndex + size)).switchSend idx qIndex
        ⟨size, .transit inDev⟩

/-- The counters after a packet of queue 1 to 7 has left. -/
def refund (n : SwitchNode) (inDev ifIndex : Port) (qIndex : Queue) (size : UInt32) : SwitchNode :=
  { n.setBytes inDev ifIndex qIndex (n.bytes inDev ifIndex qIndex - size) with
    mmu := (n.mmu.removeFromIngressAdmission inDev qIndex size).removeFromEgressAdmission ifIndex qIndex size }

/-- Only packets that came in over a port are in the queues 1 to 7. -/
def switchNotifyDequeue (n : SwitchNode) (ifIndex : Port) (qIndex : Queue) (p : SwitchPacket) : SwitchNode :=
  if qIndex ≠ 0 then
    match p.kind with
    | .transit inDev => (n.refund inDev ifIndex qIndex p.size).checkAndSendResume pauseTime inDev qIndex
    | .pfc _ _ => n
  else n

/-- `DequeueRR` and `SwitchNotifyDequeue` for a port: the packet that goes onto the wire. -/
def dequeue (n : SwitchNode) (port : Port) : Option (SwitchPacket × SwitchNode) :=
  match (n.devices port).queue.dequeueRR (n.devices port).paused with
  | none => none
  | some (p, qIndex, queue) => some (p, (n.setQueue port queue).switchNotifyDequeue pauseTime port qIndex p)

def takeDown (n : SwitchNode) (port : Port) : SwitchNode :=
  n.setDevice port {
    linkUp := false
    paused := fun _ => false
    queue := (n.devices port).queue.drain (n.devices port).queue.packetCount }

/-- The branch of `Receive` for a PFC frame. -/
def recvPfc (n : SwitchNode) (port : Port) (qIndex : Queue) (time : UInt32) : Option SwitchNode :=
  (receivePfc (n.devices port).paused qIndex time).map fun paused =>
    n.setDevice port { n.devices port with paused := paused }

inductive SwitchEvent where
  | arrive (inDev idx : Port) (qIndex : Queue) (size : UInt32)
  | dequeue (port : Port)
  | recvPfc (port : Port) (qIndex : Queue) (time : UInt32)
  | takeDown (port : Port)
  deriving DecidableEq

/-- A device whose link is down drops what it receives and does not transmit. `SendToDev` asserts that
the link of the way out is up. -/
def switchNext (n : SwitchNode) : SwitchEvent → Option SwitchNode
  | .arrive inDev idx qIndex size =>
      if (n.devices inDev).linkUp = false then some n
      else if (n.devices idx).linkUp = false then none
      else some (n.sendToDev pauseTime inDev idx qIndex size)
  | .dequeue port =>
      if (n.devices port).linkUp = false then none else (n.dequeue pauseTime port).map Prod.snd
  | .recvPfc port qIndex time =>
      if (n.devices port).linkUp = false then some n else n.recvPfc port qIndex time
  | .takeDown port => some (n.takeDown port)

def switchSystem (cfg : MmuConfig) : System SwitchNode SwitchEvent where
  init := start cfg
  next := switchNext pauseTime

/-- The packets from port `inDev` in queue `qIndex` of port `out`. -/
def stored (n : SwitchNode) (inDev out : Port) (qIndex : Queue) : List SwitchPacket :=
  ((n.devices out).queue.queues qIndex).packets.filter fun p => p.kind = .transit inDev

def storedBytes (n : SwitchNode) (inDev out : Port) (qIndex : Queue) : Nat :=
  packetBytes (n.stored inDev out qIndex)

def queueBytes (n : SwitchNode) (out : Port) (qIndex : Queue) : Nat :=
  packetBytes ((n.devices out).queue.queues qIndex).packets

/-- The bytes from port `inDev` in queue `qIndex` of any port. -/
def bytesFrom (n : SwitchNode) (inDev : Port) (qIndex : Queue) : Nat := ∑ out, n.storedBytes inDev out qIndex

/-! ### Queues and devices -/

variable {pauseTime} {n : SwitchNode}

@[simp] theorem setDevice_self (port : Port) (device : SwitchDevice) :
    (n.setDevice port device).devices port = device := Function.update_self ..

theorem setDevice_of_ne {port out : Port} (device : SwitchDevice) (h : out ≠ port) :
    (n.setDevice port device).devices out = n.devices out := Function.update_of_ne h ..

@[simp] theorem switchSend_bytes (port : Port) (qIndex : Queue) (p : SwitchPacket) :
    (n.switchSend port qIndex p).bytes = n.bytes := rfl

theorem setBytes_apply (inDev out : Port) (qIndex : Queue) (value : UInt32) (i o : Port) (q : Queue) :
    (n.setBytes inDev out qIndex value).bytes i o q =
      if i = inDev ∧ o = out ∧ q = qIndex then value else n.bytes i o q := by
  unfold setBytes Grid.set
  by_cases hi : i = inDev
  · subst hi
    simp
  · simp [hi]

theorem charge_egress (inDev idx : Port) (qIndex : Queue) (size : UInt32) (o : Port) (q : Queue) :
    (n.charge inDev idx qIndex size).mmu.egressBytes o q =
      if o = idx ∧ q = qIndex then n.mmu.egressBytes idx qIndex + size else n.mmu.egressBytes o q := by
  unfold charge SwitchMmu.updateEgressAdmission Grid.set
  rw [(n.mmu.updateIngressAdmission_frame inDev qIndex size).2]

theorem refund_egress (inDev port : Port) (qIndex : Queue) (size : UInt32) (o : Port) (q : Queue) :
    (n.refund inDev port qIndex size).mmu.egressBytes o q =
      if o = port ∧ q = qIndex then n.mmu.egressBytes port qIndex - size else n.mmu.egressBytes o q := rfl

/-- The packets of every queue after a packet was handed to a port. -/
theorem switchSend_packets (port : Port) (qIndex : Queue) (p : SwitchPacket) (out : Port) (q : Queue) :
    (((n.switchSend port qIndex p).devices out).queue.queues q).packets =
      if out = port ∧ q = qIndex ∧ (n.devices port).queue.accepts p qIndex = true then
        ((n.devices out).queue.queues q).packets ++ [p]
      else ((n.devices out).queue.queues q).packets := by
  by_cases hout : out = port
  · subst hout
    simp [switchSend, setQueue, BEgressQueue.enqueue_packets]
  · simp [switchSend, setQueue, setDevice_of_ne _ hout, hout]

theorem switchSend_stored (port : Port) (qIndex : Queue) (p : SwitchPacket) (inDev out : Port) (q : Queue) :
    (n.switchSend port qIndex p).stored inDev out q =
      if (out = port ∧ q = qIndex ∧ (n.devices port).queue.accepts p qIndex = true) ∧ p.kind = .transit inDev then
        n.stored inDev out q ++ [p]
      else n.stored inDev out q := by
  simp only [stored]
  rw [switchSend_packets]
  by_cases hhere : out = port ∧ q = qIndex ∧ (n.devices port).queue.accepts p qIndex = true
  · by_cases hkind : p.kind = .transit inDev
    · simp [hhere, hkind]
    · simp [hhere, hkind]
  · simp only [hhere, if_false, false_and]

/-! ### What PFC frames leave alone -/

/-- Between two states at most PFC frames were made and flags changed: the counters of the unit,
`m_bytes` and what is stored of the packets that came in are the same. -/
structure SameStore (n n' : SwitchNode) : Prop where
  mmu : n'.mmu = { n.mmu with paused := n'.mmu.paused }
  bytes : n'.bytes = n.bytes
  stored : ∀ inDev out q, n'.stored inDev out q = n.stored inDev out q
  data : ∀ out q, q ≠ 0 → ((n'.devices out).queue.queues q).packets = ((n.devices out).queue.queues q).packets

theorem SameStore.refl (n : SwitchNode) : SameStore n n := ⟨rfl, rfl, fun _ _ _ => rfl, fun _ _ _ => rfl⟩

theorem sendPfc_stored (port : Port) (qIndex : Queue) (type : PfcType) (inDev out : Port) (q : Queue) :
    (n.sendPfc pauseTime port qIndex type).stored inDev out q = n.stored inDev out q := by
  have hsend := switchSend_stored (n := n) port 0 (pfcFrame pauseTime qIndex type) inDev out q
  rw [if_neg (fun h => PacketKind.noConfusion h.2)] at hsend
  exact hsend

theorem sendPfc_data (port : Port) (qIndex : Queue) (type : PfcType) (out : Port) {q : Queue} (hq : q ≠ 0) :
    (((n.sendPfc pauseTime port qIndex type).devices out).queue.queues q).packets =
      ((n.devices out).queue.queues q).packets := by
  have hsend := switchSend_packets (n := n) port 0 (pfcFrame pauseTime qIndex type) out q
  rw [if_neg (fun h => hq h.2.1)] at hsend
  exact hsend

theorem checkAndSendPfc_same (inDev : Port) (qIndex : Queue) :
    SameStore n (n.checkAndSendPfc pauseTime inDev qIndex) := by
  unfold checkAndSendPfc
  split
  · exact ⟨rfl, rfl, fun i o q => sendPfc_stored inDev qIndex .pause i o q,
      fun o q hq => sendPfc_data inDev qIndex .pause o hq⟩
  · exact SameStore.refl n

theorem checkAndSendResume_same (inDev : Port) (qIndex : Queue) :
    SameStore n (n.checkAndSendResume pauseTime inDev qIndex) := by
  simp only [checkAndSendResume]
  split
  · exact ⟨rfl, rfl, fun i o q => sendPfc_stored inDev qIndex .resume i o q,
      fun o q hq => sendPfc_data inDev qIndex .resume o hq⟩
  · exact SameStore.refl n

theorem checkAndSendPfc_paused (inDev : Port) (qIndex : Queue) :
    (n.checkAndSendPfc pauseTime inDev qIndex).mmu.paused =
      if n.mmu.checkShouldPause inDev qIndex then Grid.set n.mmu.paused inDev qIndex true else n.mmu.paused := by
  unfold checkAndSendPfc
  split <;> rfl

theorem checkAndSendResume_paused (inDev : Port) (qIndex : Queue) :
    (n.checkAndSendResume pauseTime inDev qIndex).mmu.paused =
      if n.mmu.checkShouldResume inDev qIndex then Grid.set n.mmu.paused inDev qIndex false else n.mmu.paused := by
  simp only [checkAndSendResume]
  split <;> rfl

end SwitchNode

end Lcmp
