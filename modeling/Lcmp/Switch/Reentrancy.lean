import Lcmp.Switch.Conservation

/-!
# Nested transmissions

`DequeueAndTransmit` of a switch port notifies the node of the packet it has taken out before it marks
its transmitter busy. The notification may send a RESUME frame, which calls `DequeueAndTransmit` of the
port the packet came in on. Here the calls are nested as they are in the source, and the state of every
transmitter is kept with the `TransmitComplete` events it has scheduled.
-/

namespace Lcmp

/-- `m_txMachineState`, `m_currentPkt` and the number of `TransmitComplete` events that are scheduled. -/
structure Transmitter where
  busy : Bool
  currentPkt : Option SwitchPacket
  pending : Nat

/-- `assertsHold` says whether all assertions of `TransmitStart` and `TransmitComplete` have held so far.
After one that fails the code goes on as it does without assertions. -/
structure PortNode where
  node : SwitchNode
  tx : Port → Transmitter
  assertsHold : Bool

namespace PortNode

open SwitchNode (SwitchEvent)

def start (cfg : MmuConfig) : PortNode where
  node := SwitchNode.start cfg
  tx := fun _ => { busy := false, currentPkt := none, pending := 0 }
  assertsHold := true

def device (s : PortNode) (port : Port) : SwitchDevice := s.node.devices port

/-- The next packet `DequeueRR` of a port takes, its queue and what is left. -/
def nextPacket (s : PortNode) (port : Port) : Option (SwitchPacket × Queue × BEgressQueue) :=
  (s.device port).queue.dequeueRR (s.device port).paused

/-- The link is up and the transmitter is ready. -/
def Open (s : PortNode) (port : Port) : Prop := (s.device port).linkUp = true ∧ (s.tx port).busy = false

/-- "Must be READY to transmit". -/
def transmitStart (s : PortNode) (port : Port) (p : SwitchPacket) : PortNode where
  node := s.node
  tx := Function.update s.tx port { busy := true, currentPkt := some p, pending := (s.tx port).pending + 1 }
  assertsHold := s.assertsHold && !(s.tx port).busy

section Code

variable (pauseTime : UInt32)

/-- `SwitchNotifyDequeue`, given the `DequeueAndTransmit` that a RESUME frame calls. -/
def switchNotifyDequeue (dequeueAndTransmit : PortNode → Port → Option PortNode) (s : PortNode) (ifIndex : Port)
    (qIndex : Queue) (p : SwitchPacket) : Option PortNode :=
  if qIndex ≠ 0 then
    match p.kind with
    | .transit inDev =>
        let node := s.node.refund inDev ifIndex qIndex p.size
        if node.mmu.checkShouldResume inDev qIndex then
          (dequeueAndTransmit { s with node := node.sendPfc pauseTime inDev qIndex .resume } inDev).map fun s =>
            { s with node := { s.node with mmu := s.node.mmu.setResume inDev qIndex } }
        else some { s with node := node }
    | .pfc _ _ => some s
  else some s

/-- The switch branch of `DequeueAndTransmit`. The first argument bounds the depth of the calls. -/
def dequeueAndTransmit : Nat → PortNode → Port → Option PortNode
  | 0, _, _ => none
  | depth + 1, s, port =>
      if (s.device port).linkUp = false then some s
      else if (s.tx port).busy then some s
      else
        match s.nextPacket port with
        | none => some s
        | some (p, qIndex, queue) =>
            (switchNotifyDequeue pauseTime (dequeueAndTransmit depth) { s with node := s.node.setQueue port queue } port
              qIndex p).map fun s => s.transmitStart port p

/-- The packets in the queues 1 to 7 of a port. -/
def dataCount (eq : BEgressQueue) : Nat := ∑ q, if q = 0 then 0 else (eq.queues q).packets.length

def dataPackets (s : PortNode) : Nat := ∑ port, dataCount (s.device port).queue

/-- A call from outside. Every call inside takes a packet out of one of the queues 1 to 7 first. -/
def call (s : PortNode) (port : Port) : Option PortNode := dequeueAndTransmit pauseTime (s.dataPackets + 1) s port

def checkAndSendPfc (s : PortNode) (inDev : Port) (qIndex : Queue) : Option PortNode :=
  if s.node.mmu.checkShouldPause inDev qIndex then
    (call pauseTime { s with node := s.node.sendPfc pauseTime inDev qIndex .pause } inDev).map fun s =>
      { s with node := { s.node with mmu := s.node.mmu.setPause inDev qIndex } }
  else some s

def admits (s : PortNode) (inDev idx : Port) (qIndex : Queue) (size : UInt32) : Bool :=
  qIndex = 0 ||
    (s.node.mmu.checkIngressAdmission inDev qIndex size && s.node.mmu.checkEgressAdmission idx qIndex size)

/-- `SendToDev` between the admission test and `SwitchSend`. -/
def beforeSend (s : PortNode) (inDev idx : Port) (qIndex : Queue) (size : UInt32) : Option PortNode :=
  (if qIndex ≠ 0 then checkAndSendPfc pauseTime { s with node := s.node.charge inDev idx qIndex size } inDev qIndex
    else some s).map fun s =>
    { s with node := s.node.setBytes inDev idx qIndex (s.node.bytes inDev idx qIndex + size) }

/-- `SwitchSend` up to the call of `DequeueAndTransmit`. -/
def enqueue (s : PortNode) (port : Port) (qIndex : Queue) (p : SwitchPacket) : PortNode :=
  { s with node := s.node.switchSend port qIndex p }

def sendToDev (s : PortNode) (inDev idx : Port) (qIndex : Queue) (size : UInt32) : Option PortNode :=
  if s.admits inDev idx qIndex size then
    (s.beforeSend pauseTime inDev idx qIndex size).bind fun s =>
      call pauseTime (s.enqueue idx qIndex ⟨size, .transit inDev⟩) idx
  else some s

/-- "Must be BUSY if transmitting", and that there is a current packet. -/
def transmitComplete (s : PortNode) (port : Port) : PortNode where
  node := s.node
  tx := Function.update s.tx port { busy := false, currentPkt := none, pending := (s.tx port).pending - 1 }
  assertsHold := s.assertsHold && (s.tx port).busy && (s.tx port).currentPkt.isSome

inductive PortEvent where
  | arrive (inDev idx : Port) (qIndex : Queue) (size : UInt32)
  | transmitComplete (port : Port)
  | recvPfc (port : Port) (qIndex : Queue) (time : UInt32)
  | takeDown (port : Port)
  deriving DecidableEq

/-- A PFC frame changes the flags, and one that resumes a class calls `DequeueAndTransmit`. -/
def recvPfc (s : PortNode) (port : Port) (qIndex : Queue) (time : UInt32) : Option PortNode :=
  (s.node.recvPfc port qIndex time).bind fun node =>
    if time > 0 then some { s with node := node } else call pauseTime { s with node := node } port

/-- A device whose link is down drops what it receives. `SendToDev` asserts that the link of the way out
is up. -/
def portNext (s : PortNode) : PortEvent → Option PortNode
  | .arrive inDev idx qIndex size =>
      if (s.device inDev).linkUp = false then some s
      else if (s.device idx).linkUp = false then none
      else s.sendToDev pauseTime inDev idx qIndex size
  | .transmitComplete port =>
      if (s.tx port).pending = 0 then none else call pauseTime (s.transmitComplete port) port
  | .recvPfc port qIndex time =>
      if (s.device port).linkUp = false then some s else s.recvPfc pauseTime port qIndex time
  | .takeDown port => some { s with node := s.node.takeDown port }

def portSystem (cfg : MmuConfig) : System PortNode PortEvent where
  init := start cfg
  next := portNext pauseTime

end Code

/-! ### What goes wrong -/

/-- A transmitter is busy exactly while its one `TransmitComplete` is pending. -/
structure Settled (t : Transmitter) : Prop where
  pending : t.pending = if t.busy then 1 else 0
  current : t.busy = true → t.currentPkt.isSome = true

/-- No assertion has failed, and no transmitter has lost or doubled its event. -/
structure TransmittersOk (s : PortNode) : Prop where
  asserts : s.assertsHold = true
  settled : ∀ port, Settled (s.tx port)

/-- The node when the packet `p` has been taken out of queue `qIndex` of a port and its bytes are
refunded. -/
def taken (s : PortNode) (port : Port) (p : SwitchPacket) (qIndex : Queue) (queue : BEgressQueue) (inDev : Port) :
    SwitchNode :=
  (s.node.setQueue port queue).refund inDev port qIndex p.size

/-- The node when it has sent the RESUME frame that the packet makes due. -/
def frameSent (pauseTime : UInt32) (s : PortNode) (port : Port) (p : SwitchPacket) (qIndex : Queue)
    (queue : BEgressQueue) (inDev : Port) : PortNode :=
  { s with node := (s.taken port p qIndex queue inDev).sendPfc pauseTime inDev qIndex .resume }

/-- A call for a port is disturbed: the next packet makes a RESUME due, and the port it came in on has
then something to send that is not to be sent now. That is anything when it is the port of the call
itself, and a packet of the queues 1 to 7 when it is another one. -/
structure Disturbed (pauseTime : UInt32) (s : PortNode) (port : Port) (p : SwitchPacket) (qIndex : Queue)
    (queue : BEgressQueue) (inDev : Port) : Prop where
  isOpen : s.Open port
  next : s.nextPacket port = some (p, qIndex, queue)
  data : qIndex ≠ 0
  transit : p.kind = .transit inDev
  resume : (s.taken port p qIndex queue inDev).mmu.checkShouldResume inDev qIndex = true
  nested : ∃ p' qIndex' queue',
    (s.frameSent pauseTime port p qIndex queue inDev).nextPacket inDev = some (p', qIndex', queue') ∧
      (inDev = port ∨ (s.Open inDev ∧ qIndex' ≠ 0))

def Undisturbed (pauseTime : UInt32) (s : PortNode) (port : Port) : Prop :=
  ∀ p qIndex queue inDev, ¬ Disturbed pauseTime s port p qIndex queue inDev

variable {pauseTime : UInt32} {s s' : PortNode} {port inDev : Port} {p : SwitchPacket} {qIndex : Queue}
  {queue : BEgressQueue}

/-! ### What a call does -/

/-- What a call that returns has done. -/
inductive Called (pauseTime : UInt32) (depth : Nat) (s : PortNode) (port : Port) : PortNode → Prop where
  | closed (hclosed : ¬ s.Open port) : Called pauseTime depth s port s
  | nothing (hnext : s.nextPacket port = none) : Called pauseTime depth s port s
  | plain {p : SwitchPacket} {qIndex : Queue} {queue : BEgressQueue} {node : SwitchNode} (hopen : s.Open port)
      (hnext : s.nextPacket port = some (p, qIndex, queue))
      (hdevices : node.devices = (s.node.setQueue port queue).devices)
      (hquiet : ∀ inDev, qIndex ≠ 0 → p.kind = .transit inDev →
        (s.taken port p qIndex queue inDev).mmu.checkShouldResume inDev qIndex = false) :
      Called pauseTime depth s port (({ s with node := node } : PortNode).transmitStart port p)
  | resumed {p : SwitchPacket} {qIndex : Queue} {queue : BEgressQueue} {inDev : Port} {mid : PortNode}
      (hopen : s.Open port) (hnext : s.nextPacket port = some (p, qIndex, queue)) (hdata : qIndex ≠ 0)
      (htransit : p.kind = .transit inDev)
      (hresume : (s.taken port p qIndex queue inDev).mmu.checkShouldResume inDev qIndex = true)
      (hcall : dequeueAndTransmit pauseTime depth (s.frameSent pauseTime port p qIndex queue inDev) inDev = some mid) :
      Called pauseTime depth s port
        (({ mid with node := { mid.node with mmu := mid.node.mmu.setResume inDev qIndex } } : PortNode).transmitStart
          port p)

theorem open_iff : s.Open port ↔ ¬((s.device port).linkUp = false) ∧ ¬((s.tx port).busy = true) := by
  rw [Open, Bool.not_eq_false, Bool.not_eq_true]

theorem called {depth : Nat} (h : dequeueAndTransmit pauseTime (depth + 1) s port = some s') :
    Called pauseTime depth s port s' := by
  rw [dequeueAndTransmit] at h
  split at h
  · rename_i hdown
    obtain rfl := Option.some.inj h
    exact .closed fun hopen => (open_iff.mp hopen).1 hdown
  · rename_i hup
    split at h
    · rename_i hbusy
      obtain rfl := Option.some.inj h
      exact .closed fun hopen => (open_iff.mp hopen).2 hbusy
    · rename_i hready
      have hopen := open_iff.mpr ⟨hup, hready⟩
      split at h
      · rename_i hnext
        obtain rfl := Option.some.inj h
        exact .nothing hnext
      · rename_i p qIndex queue hnext
        obtain ⟨mid, hnotify, rfl⟩ := Option.map_eq_some_iff.mp h
        rw [switchNotifyDequeue] at hnotify
        split at hnotify
        · rename_i hdata
          split at hnotify
          · rename_i inDev htransit
            dsimp only at hnotify
            split at hnotify
            · rename_i hresume
              obtain ⟨mid', hcall, rfl⟩ := Option.map_eq_some_iff.mp hnotify
              exact .resumed hopen hnext hdata htransit hresume hcall
            · rename_i hresume
              obtain rfl := Option.some.inj hnotify
              refine .plain hopen hnext rfl fun inDev' _ htransit' => ?_
              obtain rfl := PacketKind.transit.inj (htransit.symm.trans htransit')
              rw [Bool.not_eq_true] at hresume
              exact hresume
          · rename_i hpfc
            obtain rfl := Option.some.inj hnotify
            refine .plain hopen hnext rfl fun inDev' _ htransit' => ?_
            rw [hpfc] at htransit'
            cases htransit'
        · rename_i hdata
          obtain rfl := Option.some.inj hnotify
          exact .plain hopen hnext rfl fun inDev' hne => absurd hne hdata

theorem transmitStart_self (s : PortNode) (port : Port) (p : SwitchPacket) :
    ((s.transmitStart port p).tx port).busy = true := by
  show (Function.update s.tx port _ port).busy = true
  rw [Function.update_self]

theorem transmitStart_tx_of_ne (s : PortNode) (p : SwitchPacket) {port e : Port} (hne : e ≠ port) :
    (s.transmitStart port p).tx e = s.tx e := Function.update_of_ne hne ..

/-- A port that has something to send is busy after the call. -/
theorem busy_of_call {depth : Nat} (h : dequeueAndTransmit pauseTime depth s port = some s') (hopen : s.Open port)
    (hnext : s.nextPacket port ≠ none) : (s'.tx port).busy = true := by
  cases depth with
  | zero => cases h
  | succ depth =>
      cases called h with
      | closed hclosed => exact absurd hopen hclosed
      | nothing hnone => exact absurd hnone hnext
      | plain hopen hnext hdevices hquiet => exact transmitStart_self _ _ _
      | resumed hopen hnext hdata htransit hresume hcall => exact transmitStart_self _ _ _

/-! ### What is left alone -/

/-- Only the ports that lose the packet and gain the frame change, and only in what they store. -/
theorem device_frameSent (s : PortNode) (port : Port) (p : SwitchPacket) (qIndex : Queue) (queue : BEgressQueue)
    (inDev e : Port) :
    ((s.frameSent pauseTime port p qIndex queue inDev).device e).linkUp = (s.device e).linkUp ∧
    ((s.frameSent pauseTime port p qIndex queue inDev).device e).paused = (s.device e).paused := by
  have hset : ((s.node.setQueue port queue).devices e).linkUp = (s.device e).linkUp ∧
      ((s.node.setQueue port queue).devices e).paused = (s.device e).paused := by
    by_cases he : e = port
    · subst he
      rw [SwitchNode.setQueue, SwitchNode.setDevice_self]
      exact ⟨rfl, rfl⟩
    · rw [SwitchNode.setQueue, SwitchNode.setDevice_of_ne _ he]
      exact ⟨rfl, rfl⟩
  by_cases he : e = inDev
  · subst he
    show ((SwitchNode.setQueue _ _ _).devices e).linkUp = _ ∧ ((SwitchNode.setQueue _ _ _).devices e).paused = _
    rw [SwitchNode.setQueue, SwitchNode.setDevice_self]
    exact hset
  · show ((SwitchNode.setQueue _ _ _).devices e).linkUp = _ ∧ ((SwitchNode.setQueue _ _ _).devices e).paused = _
    rw [SwitchNode.setQueue, SwitchNode.setDevice_of_ne _ he]
    exact hset

theorem open_frameSent (e : Port) : (s.frameSent pauseTime port p qIndex queue inDev).Open e ↔ s.Open e := by
  rw [Open, (device_frameSent s port p qIndex queue inDev e).1]
  rfl

theorem frameSent_of_ne {e : Port} (hport : e ≠ port) (hin : e ≠ inDev) :
    (s.frameSent pauseTime port p qIndex queue inDev).device e = s.device e := by
  show (SwitchNode.setQueue _ _ _).devices e = _
  rw [SwitchNode.setQueue, SwitchNode.setDevice_of_ne _ hin]
  show (s.node.setQueue port queue).devices e = _
  rw [SwitchNode.setQueue, SwitchNode.setDevice_of_ne _ hport]
  rfl

/-- The port that a PFC frame is sent over sees the frame in its queue, and nothing else has changed for it. -/
theorem nextPacket_sendPfc (s : PortNode) (node : SwitchNode) (inDev : Port) (qIndex : Queue) (type : PfcType) :
    ({ s with node := node.sendPfc pauseTime inDev qIndex type } : PortNode).nextPacket inDev =
      ((node.devices inDev).queue.enqueue (SwitchNode.pfcFrame pauseTime qIndex type) 0).dequeueRR
        (node.devices inDev).paused := by
  show ((SwitchNode.setQueue _ _ _).devices inDev).queue.dequeueRR ((SwitchNode.setQueue _ _ _).devices inDev).paused = _
  rw [SwitchNode.setQueue, SwitchNode.setDevice_self]

/-- A frame over the port of the call itself makes the call start a busy transmitter. -/
theorem not_asserts_of_disturbed {depth : Nat} (hd : Disturbed pauseTime s port p qIndex queue port)
    (h : dequeueAndTransmit pauseTime depth s port = some s') : s'.assertsHold = false := by
  cases depth with
  | zero => cases h
  | succ depth =>
      cases called h with
      | closed hclosed => exact absurd hd.isOpen hclosed
      | nothing hnone =>
          rw [hd.next] at hnone
          cases hnone
      | plain hopen hnext hdevices hquiet =>
          rw [hd.next] at hnext
          cases hnext
          have hnot := hquiet port hd.data hd.transit
          rw [hd.resume] at hnot
          cases hnot
      | resumed hopen hnext hdata htransit hresume hcall =>
          rw [hd.next] at hnext
          cases hnext
          obtain rfl := PacketKind.transit.inj (hd.transit.symm.trans htransit)
          obtain ⟨p', qIndex', queue', hnested, -⟩ := hd.nested
          have hbusy := busy_of_call hcall ((open_frameSent port).mpr hopen) (by simp [hnested])
          rw [transmitStart, hbusy, Bool.not_true, Bool.and_false]

/-! ### Ports that have nothing to send -/

/-- A port that could transmit has nothing to transmit. -/
def Waiting (s : PortNode) (port : Port) : Prop := s.Open port → s.nextPacket port = none

/-- The state between two events: no port that could transmit has something to transmit. -/
structure Quiet (s : PortNode) : Prop extends TransmittersOk s where
  waiting : ∀ port, Waiting s port

/-- The state in which `DequeueAndTransmit` of one port is called. -/
structure QuietExcept (s : PortNode) (port : Port) : Prop extends TransmittersOk s where
  waiting : ∀ e, e ≠ port → Waiting s e

theorem waiting_congr {e : Port} (hdevice : s'.device e = s.device e) (htx : s'.tx e = s.tx e) (h : Waiting s e) :
    Waiting s' e := by
  rw [Waiting, Open, nextPacket, hdevice, htx]
  exact h

theorem waiting_of_busy {e : Port} (h : (s.tx e).busy = true) : Waiting s e := by
  intro hopen
  rw [hopen.2] at h
  cases h

theorem settled_transmitStart (h : Settled (s.tx port)) (hready : (s.tx port).busy = false) (p : SwitchPacket)
    (e : Port) (he : e ≠ port → Settled (s.tx e)) : Settled ((s.transmitStart port p).tx e) := by
  by_cases hport : e = port
  · subst hport
    show Settled (Function.update s.tx e _ e)
    rw [Function.update_self]
    have hpending := h.pending
    rw [hready] at hpending
    exact ⟨by rw [hpending]; rfl, fun _ => rfl⟩
  · rw [transmitStart_tx_of_ne s p hport]
    exact he hport

theorem TransmittersOk.withNode (h : TransmittersOk s) (node : SwitchNode) :
    TransmittersOk { s with node := node } := ⟨h.asserts, h.settled⟩

theorem ok_transmitStart (h : TransmittersOk s) (hready : (s.tx port).busy = false) (p : SwitchPacket) :
    TransmittersOk (s.transmitStart port p) where
  asserts := by
    show (s.assertsHold && !(s.tx port).busy) = true
    rw [h.asserts, hready]
    rfl
  settled := fun e => settled_transmitStart (h.settled port) hready p e fun _ => h.settled e

/-- What the frame makes another port do: it is transmitted at once if the port can transmit. -/
theorem ok_of_nested {depth : Nat} {mid : PortNode} (hok : TransmittersOk s) (hne : inDev ≠ port)
    (hcall : dequeueAndTransmit pauseTime depth (s.frameSent pauseTime port p qIndex queue inDev) inDev = some mid)
    (htop : s.Open inDev → ∀ p' qIndex' queue',
      (s.frameSent pauseTime port p qIndex queue inDev).nextPacket inDev = some (p', qIndex', queue') → qIndex' = 0) :
    TransmittersOk mid ∧ Waiting mid inDev ∧ mid.tx port = s.tx port ∧
      ∀ e, e ≠ port → e ≠ inDev → mid.device e = s.device e ∧ mid.tx e = s.tx e := by
  have hoff : ∀ e, e ≠ port → e ≠ inDev →
      (s.frameSent pauseTime port p qIndex queue inDev).device e = s.device e := fun e => frameSent_of_ne
  have hok' : TransmittersOk (s.frameSent pauseTime port p qIndex queue inDev) := ⟨hok.asserts, hok.settled⟩
  cases depth with
  | zero => cases hcall
  | succ depth =>
      cases called hcall with
      | closed hclosed =>
          exact ⟨hok', fun hopen => absurd hopen hclosed, rfl, fun e he he' => ⟨hoff e he he', rfl⟩⟩
      | nothing hnone => exact ⟨hok', fun _ => hnone, rfl, fun e he he' => ⟨hoff e he he', rfl⟩⟩
      | resumed hopen hnext hdata htransit hresume hcall =>
          exact absurd (htop ((open_frameSent inDev).mp hopen) _ _ _ hnext) hdata
      | @plain p' qIndex' queue' node hopen hnext hdevices hquiet =>
          have hready : (s.tx inDev).busy = false := hopen.2
          refine ⟨ok_transmitStart (hok'.withNode node) hready p', waiting_of_busy (transmitStart_self _ _ _),
            transmitStart_tx_of_ne _ _ (Ne.symm hne), fun e he he' => ⟨?_, transmitStart_tx_of_ne _ _ he'⟩⟩
          have hdevice : node.devices e = (s.frameSent pauseTime port p qIndex queue inDev).device e := by
            rw [hdevices, SwitchNode.setQueue, SwitchNode.setDevice_of_ne _ he']
            rfl
          exact hdevice.trans (hoff e he he')

/-- A call that is not disturbed leaves every transmitter in order and nothing to send. -/
theorem quiet_of_call {depth : Nat} (hs : QuietExcept s port) (hclear : Undisturbed pauseTime s port)
    (h : dequeueAndTransmit pauseTime depth s port = some s') : Quiet s' := by
  have hstarted : ∀ {mid : PortNode} {p : SwitchPacket}, TransmittersOk mid → (mid.tx port).busy = false →
      (∀ e, e ≠ port → Waiting mid e) → Quiet (mid.transmitStart port p) := by
    intro mid p hok hready hwaiting
    refine ⟨ok_transmitStart hok hready p, fun e => ?_⟩
    by_cases he : e = port
    · subst he
      exact waiting_of_busy (transmitStart_self _ _ _)
    · exact waiting_congr (s := mid) rfl (transmitStart_tx_of_ne _ _ he) (hwaiting e he)
  cases depth with
  | zero => cases h
  | succ depth =>
      cases called h with
      | closed hclosed =>
          refine ⟨hs.toTransmittersOk, fun e => ?_⟩
          by_cases he : e = port
          · subst he
            exact fun hopen => absurd hopen hclosed
          · exact hs.waiting e he
      | nothing hnone =>
          refine ⟨hs.toTransmittersOk, fun e => ?_⟩
          by_cases he : e = port
          · subst he
            exact fun _ => hnone
          · exact hs.waiting e he
      | @plain p qIndex queue node hopen hnext hdevices hquiet =>
          refine hstarted (hs.toTransmittersOk.withNode node) hopen.2 fun e he =>
            waiting_congr (s := s) ?_ rfl (hs.waiting e he)
          show node.devices e = s.node.devices e
          rw [hdevices, SwitchNode.setQueue, SwitchNode.setDevice_of_ne _ he]
      | @resumed p qIndex queue inDev mid hopen hnext hdata htransit hresume hcall =>
          have hnested : ∀ p' qIndex' queue',
              (s.frameSent pauseTime port p qIndex queue inDev).nextPacket inDev = some (p', qIndex', queue') →
              ¬(inDev = port ∨ (s.Open inDev ∧ qIndex' ≠ 0)) := fun p' qIndex' queue' hnext' hnot =>
            hclear p qIndex queue inDev ⟨hopen, hnext, hdata, htransit, hresume, p', qIndex', queue', hnext', hnot⟩
          by_cases hin : inDev = port
          · subst hin
            have hsame : mid = s.frameSent pauseTime inDev p qIndex queue inDev := by
              cases hnone : (s.frameSent pauseTime inDev p qIndex queue inDev).nextPacket inDev with
              | some next => exact absurd (.inl rfl) (hnested _ _ _ hnone)
              | none =>
                  cases depth with
                  | zero => cases hcall
                  | succ depth =>
                      cases called hcall with
                      | closed hclosed => rfl
                      | nothing hnone => rfl
                      | plain hopen hnext hdevices hquiet =>
                          rw [hnone] at hnext
                          cases hnext
                      | resumed hopen hnext hdata htransit hresume hcall =>
                          rw [hnone] at hnext
                          cases hnext
            subst hsame
            exact hstarted (hs.toTransmittersOk.withNode _) hopen.2 fun e he =>
              waiting_congr (s := s) (frameSent_of_ne he he) rfl (hs.waiting e he)
          · obtain ⟨hok, hwaiting, htx, hoff⟩ := ok_of_nested hs.toTransmittersOk hin hcall
              fun hopen' p' qIndex' queue' hnext' => by
              by_contra hne
              exact hnested p' qIndex' queue' hnext' (.inr ⟨hopen', hne⟩)
            refine hstarted (hok.withNode _) ?_ fun e he => ?_
            · show (mid.tx port).busy = false
              rw [htx]
              exact hopen.2
            · by_cases hein : e = inDev
              · subst hein
                exact hwaiting
              · exact waiting_congr (s := s) (hoff e he hein).1 (hoff e he hein).2 (hs.waiting e he)

/-! ### The depth of the calls -/

theorem dataCount_enqueue (eq : BEgressQueue) (frame : SwitchPacket) : dataCount (eq.enqueue frame 0) = dataCount eq := by
  apply Finset.sum_congr rfl
  intro q _
  split
  · rfl
  · rename_i hq
    rw [BEgressQueue.enqueue_packets, if_neg fun h => hq h.1]

theorem dataCount_dequeued {eq eq' : BEgressQueue} (h : eq.Dequeued eq' p qIndex) (hdata : qIndex ≠ 0) :
    dataCount eq' + 1 = dataCount eq := by
  have hsum := Grid.sum_of_eq_except (fun q => if q = 0 then 0 else (eq'.queues q).packets.length)
    (fun q => if q = 0 then 0 else (eq.queues q).packets.length) qIndex fun q hq => by
      rw [h.others q hq]
  have hlength := congrArg List.length h.head
  rw [List.length_cons] at hlength
  simp only [if_neg hdata] at hsum
  simp only [dataCount]
  omega

theorem dataPackets_setQueue (n : SwitchNode) (port : Port) (queue : BEgressQueue) :
    (∑ e, dataCount ((n.setQueue port queue).devices e).queue) + dataCount (n.devices port).queue =
      (∑ e, dataCount (n.devices e).queue) + dataCount queue := by
  have hsum := Grid.sum_of_eq_except (fun e => dataCount ((n.setQueue port queue).devices e).queue)
    (fun e => dataCount (n.devices e).queue) port fun e he => by
      rw [SwitchNode.setQueue, SwitchNode.setDevice_of_ne _ he]
  simp only [SwitchNode.setQueue, SwitchNode.setDevice_self] at hsum
  exact hsum

/-- A call inside has fewer packets of the queues 1 to 7 left. -/
theorem dataPackets_frameSent (pauseTime : UInt32) (inDev : Port)
    (hnext : s.nextPacket port = some (p, qIndex, queue)) (hdata : qIndex ≠ 0) :
    (s.frameSent pauseTime port p qIndex queue inDev).dataPackets + 1 = s.dataPackets := by
  have hout := dataCount_dequeued (BEgressQueue.dequeueRR_spec hnext) hdata
  have htaken := dataPackets_setQueue s.node port queue
  have hframe := dataPackets_setQueue (s.taken port p qIndex queue inDev) inDev
    (((s.taken port p qIndex queue inDev).devices inDev).queue.enqueue
      (SwitchNode.pfcFrame pauseTime qIndex .resume) 0)
  rw [dataCount_enqueue] at hframe
  have hsent : (s.frameSent pauseTime port p qIndex queue inDev).dataPackets =
      ∑ e, dataCount (((s.taken port p qIndex queue inDev).setQueue inDev
        (((s.taken port p qIndex queue inDev).devices inDev).queue.enqueue
          (SwitchNode.pfcFrame pauseTime qIndex .resume) 0)).devices e).queue := rfl
  have hrefund : ∑ e, dataCount ((s.taken port p qIndex queue inDev).devices e).queue =
      ∑ e, dataCount ((s.node.setQueue port queue).devices e).queue := rfl
  have hdevice : (s.device port).queue = (s.node.devices port).queue := rfl
  rw [hdevice] at hout
  have hpackets : s.dataPackets = ∑ e, dataCount (s.node.devices e).queue := rfl
  omega

/-- The depth suffices: a call always returns. -/
theorem dequeueAndTransmit_ne_none (pauseTime : UInt32) {depth : Nat} (s : PortNode) (port : Port)
    (hdepth : s.dataPackets < depth) : ∃ s', dequeueAndTransmit pauseTime depth s port = some s' := by
  induction depth generalizing s port with
  | zero => exact absurd hdepth (Nat.not_lt_zero _)
  | succ depth ih =>
      rw [dequeueAndTransmit]
      split
      · exact ⟨s, rfl⟩
      · split
        · exact ⟨s, rfl⟩
        · split
          · exact ⟨s, rfl⟩
          · rename_i p qIndex queue hnext
            rw [switchNotifyDequeue]
            split
            · rename_i hdata
              split
              · rename_i inDev htransit
                dsimp only
                split
                · have hless := dataPackets_frameSent pauseTime inDev hnext hdata
                  obtain ⟨mid, hmid⟩ := ih (s.frameSent pauseTime port p qIndex queue inDev) inDev (by omega)
                  exact ⟨_, Option.map_eq_some_iff.mpr ⟨_, Option.map_eq_some_iff.mpr ⟨mid, hmid, rfl⟩, rfl⟩⟩
                · exact ⟨_, rfl⟩
              · exact ⟨_, rfl⟩
            · exact ⟨_, rfl⟩

theorem call_ne_none (pauseTime : UInt32) (s : PortNode) (port : Port) : ∃ s', call pauseTime s port = some s' :=
  dequeueAndTransmit_ne_none pauseTime s port (Nat.lt_succ_self _)

/-! ### Events -/

/-- The calls an event makes from outside are not disturbed. -/
def Clear (pauseTime : UInt32) (s : PortNode) : PortEvent → Prop
  | .arrive inDev idx qIndex size => (s.device inDev).linkUp = true → s.admits inDev idx qIndex size = true →
      (qIndex ≠ 0 → (s.node.charge inDev idx qIndex size).mmu.checkShouldPause inDev qIndex = true →
        Undisturbed pauseTime
          { s with node := (s.node.charge inDev idx qIndex size).sendPfc pauseTime inDev qIndex .pause } inDev) ∧
      ∀ s₁, s.beforeSend pauseTime inDev idx qIndex size = some s₁ →
        Undisturbed pauseTime (s₁.enqueue idx qIndex ⟨size, .transit inDev⟩) idx
  | .transmitComplete port => Undisturbed pauseTime (s.transmitComplete port) port
  | .recvPfc port qIndex time => (s.device port).linkUp = true → ¬ time > 0 →
      ∀ node, s.node.recvPfc port qIndex time = some node → Undisturbed pauseTime { s with node := node } port
  | .takeDown _ => True

theorem Quiet.withNode (h : Quiet s) {node : SwitchNode} (hdevices : node.devices = s.node.devices) :
    Quiet { s with node := node } where
  toTransmittersOk := h.toTransmittersOk.withNode node
  waiting := fun e => waiting_congr (s := s) (congrFun hdevices e) rfl (h.waiting e)

/-- Whatever happens to one port leaves the others waiting. -/
theorem Quiet.setDevice (h : Quiet s) {node : SwitchNode} {device : SwitchDevice}
    (hdevices : node.devices = Function.update s.node.devices port device) : QuietExcept { s with node := node } port where
  toTransmittersOk := h.toTransmittersOk.withNode node
  waiting := fun e he => by
    refine waiting_congr (s := s) ?_ rfl (h.waiting e)
    show node.devices e = s.node.devices e
    rw [hdevices, Function.update_of_ne he]

theorem QuietExcept.quiet (h : QuietExcept s port) (hwaiting : Waiting s port) : Quiet s where
  toTransmittersOk := h.toTransmittersOk
  waiting := fun e => by
    by_cases he : e = port
    · rw [he]
      exact hwaiting
    · exact h.waiting e he

theorem quiet_beforeSend {idx : Port} {size : UInt32} (hs : Quiet s)
    (hclear : qIndex ≠ 0 → (s.node.charge inDev idx qIndex size).mmu.checkShouldPause inDev qIndex = true →
      Undisturbed pauseTime
        { s with node := (s.node.charge inDev idx qIndex size).sendPfc pauseTime inDev qIndex .pause } inDev)
    (h : s.beforeSend pauseTime inDev idx qIndex size = some s') : Quiet s' := by
  rw [beforeSend] at h
  obtain ⟨mid, hmid, rfl⟩ := Option.map_eq_some_iff.mp h
  have hquiet : Quiet mid := by
    split at hmid
    · rename_i hdata
      rw [checkAndSendPfc] at hmid
      split at hmid
      · rename_i hpause
        obtain ⟨mid', hcall, rfl⟩ := Option.map_eq_some_iff.mp hmid
        exact (quiet_of_call (hs.setDevice rfl) (hclear hdata hpause) hcall).withNode rfl
      · obtain rfl := Option.some.inj hmid
        exact hs.withNode rfl
    · obtain rfl := Option.some.inj hmid
      exact hs
  exact hquiet.withNode rfl

/-- A class that is paused in addition is one class less to take a packet from. -/
theorem dequeueRR_none_of_paused {eq : BEgressQueue} {paused paused' : Queue → Bool}
    (hmore : ∀ q, paused q = true → paused' q = true) (h : eq.dequeueRR paused = none) : eq.dequeueRR paused' = none := by
  rw [BEgressQueue.dequeueRR] at h ⊢
  split at h
  · rename_i hzero
    rw [if_pos hzero]
  · rename_i hne
    rw [if_neg hne]
    have hnone : eq.nextQueue paused = none → eq.nextQueue paused' = none := by
      intro hnone
      rw [BEgressQueue.nextQueue] at hnone ⊢
      split at hnone
      · cases hnone
      · rename_i hempty
        rw [if_neg hempty]
        refine List.find?_eq_none.mpr fun q hq hfound => ?_
        have hnot := List.find?_eq_none.mp hnone q hq
        apply hnot
        rw [Bool.and_eq_true] at hfound ⊢
        refine ⟨?_, hfound.2⟩
        cases hpaused : paused q with
        | false => rfl
        | true =>
            rw [hmore q hpaused] at hfound
            cases hfound.1
    cases hqueue : eq.nextQueue paused with
    | none => rw [hnone hqueue]
    | some q =>
        rw [hqueue] at h
        dsimp only at h
        split at h
        · rename_i hpackets
          have hpositive : (eq.queues q).packets.length > 0 := by
            rw [BEgressQueue.nextQueue] at hqueue
            split at hqueue
            · rename_i hzero
              obtain rfl := Option.some.inj hqueue
              exact hzero
            · have hfound := List.find?_some hqueue
              rw [Bool.and_eq_true] at hfound
              exact of_decide_eq_true hfound.2
          rw [hpackets] at hpositive
          cases hpositive
        · cases h

theorem quietExcept_transmitComplete (hs : Quiet s) (hpending : (s.tx port).pending ≠ 0) :
    QuietExcept (s.transmitComplete port) port := by
  have hsettled := hs.settled port
  have hbusy : (s.tx port).busy = true := by
    cases hbusy : (s.tx port).busy with
    | true => rfl
    | false =>
        have hzero := hsettled.pending
        rw [hbusy] at hzero
        exact absurd hzero hpending
  have hone : (s.tx port).pending = 1 := by
    rw [hsettled.pending, hbusy]
    rfl
  have hoff : ∀ e, e ≠ port → (s.transmitComplete port).tx e = s.tx e := fun e he => Function.update_of_ne he ..
  refine ⟨⟨?_, fun e => ?_⟩, fun e he => waiting_congr (s := s) rfl (hoff e he) (hs.waiting e)⟩
  · show (s.assertsHold && (s.tx port).busy && (s.tx port).currentPkt.isSome) = true
    rw [hs.asserts, hbusy, hsettled.current hbusy]
    rfl
  · by_cases he : e = port
    · subst he
      show Settled (Function.update s.tx e _ e)
      rw [Function.update_self, hone]
      exact ⟨rfl, nofun⟩
    · rw [hoff e he]
      exact hs.settled e

/-- An event all of whose calls are undisturbed keeps the transmitters in order. -/
theorem quiet_step {event : PortEvent} (hs : Quiet s) (hclear : Clear pauseTime s event)
    (h : portNext pauseTime s event = some s') : Quiet s' := by
  cases event with
  | arrive inDev idx qIndex size =>
      rw [portNext] at h
      split at h
      · obtain rfl := Option.some.inj h
        exact hs
      · rename_i hup
        rw [Bool.not_eq_false] at hup
        split at h
        · cases h
        · rw [sendToDev] at h
          split at h
          · rename_i hadmits
            obtain ⟨hpause, hsend⟩ := hclear hup hadmits
            obtain ⟨mid, hbefore, hcall⟩ := Option.bind_eq_some_iff.mp h
            have hmid := quiet_beforeSend hs hpause hbefore
            exact quiet_of_call (hmid.setDevice rfl) (hsend mid hbefore) hcall
          · obtain rfl := Option.some.inj h
            exact hs
  | transmitComplete port =>
      rw [portNext] at h
      split at h
      · cases h
      · rename_i hpending
        exact quiet_of_call (quietExcept_transmitComplete hs hpending) hclear h
  | recvPfc port qIndex time =>
      rw [portNext] at h
      split at h
      · obtain rfl := Option.some.inj h
        exact hs
      · rename_i hup
        rw [Bool.not_eq_false] at hup
        obtain ⟨node, hrecv, h⟩ := Option.bind_eq_some_iff.mp h
        obtain ⟨paused, hpaused, rfl⟩ := Option.map_eq_some_iff.mp hrecv
        have hexcept : QuietExcept
            { s with node := s.node.setDevice port { s.node.devices port with paused := paused } } port :=
          hs.setDevice rfl
        split at h
        · rename_i htime
          obtain rfl := Option.some.inj h
          rw [receivePfc, if_pos htime] at hpaused
          obtain rfl := Option.some.inj hpaused
          refine hexcept.quiet fun hopen => ?_
          rw [nextPacket, device, SwitchNode.setDevice_self]
          refine dequeueRR_none_of_paused (fun q hq => ?_) (hs.waiting port ⟨hup, hopen.2⟩)
          show Function.update (s.node.devices port).paused qIndex true q = true
          by_cases hqi : q = qIndex
          · subst hqi
            rw [Function.update_self]
          · rw [Function.update_of_ne hqi]
            exact hq
        · rename_i htime
          exact quiet_of_call hexcept (hclear hup htime _ hrecv) h
  | takeDown port =>
      obtain rfl := Option.some.inj h
      have hexcept : QuietExcept { s with node := s.node.takeDown port } port := hs.setDevice rfl
      refine hexcept.quiet fun hopen => ?_
      have hup : (s.node.takeDown port).devices port = _ := SwitchNode.setDevice_self ..
      have hdown : ((s.node.takeDown port).devices port).linkUp = true := hopen.1
      rw [hup] at hdown
      cases hdown

/-! ### Packets that fit -/

/-- The byte counters of every queue say what it stores. -/
def Counts (s : PortNode) : Prop := ∀ port, BEgressQueue.Counted (s.device port).queue

/-- An arriving packet does not wrap the byte counter of a full queue. -/
def FitsPort : PortEvent → Prop
  | .arrive _ _ _ size => BEgressQueue.maxBytes + size.toNat ≤ 2 ^ 32
  | _ => True

/-- A PFC frame that joins a queue with nothing to send is the next packet, if there is one. -/
theorem top_of_frame {eq : BEgressQueue} {paused : Queue → Bool} (frame : SwitchPacket) (hcounted : eq.Counted)
    (hframe : frame.size = pfcSize) (hnone : eq.dequeueRR paused = none)
    (h : (eq.enqueue frame 0).dequeueRR paused = some (p, qIndex, queue)) : qIndex = 0 := by
  by_cases hroom : eq.hasRoom frame = true
  · have hbounded := hcounted.bounded
    have hsize : frame.size.toNat = 43 := by
      rw [hframe]
      rfl
    have hmax : BEgressQueue.maxBytes = 1048576000 := rfl
    have hfits : eq.storedBytes + frame.size.toNat < 2 ^ 32 := by omega
    have haccepts : eq.accepts frame 0 = true := by
      rw [hcounted.accepts_iff hfits]
      have htotal := hcounted.total
      simp only [BEgressQueue.hasRoom, decide_eq_true_eq, UInt32.toNat_add] at hroom
      omega
    have hpackets := BEgressQueue.enqueue_packets eq frame 0 0
    rw [if_pos ⟨rfl, haccepts⟩] at hpackets
    have hnext : (eq.enqueue frame 0).nextQueue paused = some 0 := by
      rw [BEgressQueue.nextQueue, if_pos]
      rw [hpackets, List.length_append]
      exact Nat.succ_pos _
    rw [BEgressQueue.dequeueRR, hnext] at h
    split at h
    · cases h
    · dsimp only at h
      split at h
      · cases h
      · obtain ⟨-, hrest⟩ := Prod.mk.inj (Option.some.inj h)
        exact (Prod.mk.inj hrest).1.symm
  · rw [Bool.not_eq_true] at hroom
    rw [BEgressQueue.enqueue_eq_of_not_hasRoom hroom, hnone] at h
    cases h

theorem counts_frameSent (hcounts : Counts s) (hnext : s.nextPacket port = some (p, qIndex, queue)) :
    Counts (s.frameSent pauseTime port p qIndex queue inDev) := by
  have hset : ∀ e, BEgressQueue.Counted ((s.node.setQueue port queue).devices e).queue :=
    SwitchNode.setDevice_counted hcounts ((BEgressQueue.dequeueRR_spec hnext).counted (hcounts port))
  exact SwitchNode.sendPfc_counted (n := s.taken port p qIndex queue inDev) hset

theorem counts_of_call {depth : Nat} (hcounts : Counts s)
    (h : dequeueAndTransmit pauseTime depth s port = some s') : Counts s' := by
  induction depth generalizing s s' port with
  | zero => cases h
  | succ depth ih =>
      cases called h with
      | closed hclosed => exact hcounts
      | nothing hnext => exact hcounts
      | @plain p qIndex queue node hopen hnext hdevices hquiet =>
          intro e
          show BEgressQueue.Counted (node.devices e).queue
          rw [hdevices]
          exact SwitchNode.setDevice_counted hcounts ((BEgressQueue.dequeueRR_spec hnext).counted (hcounts port)) e
      | resumed hopen hnext hdata htransit hresume hcall =>
          have hmid := ih (counts_frameSent hcounts hnext) hcall
          exact hmid

theorem counts_sendPfc (hcounts : Counts s) {node : SwitchNode} (hdevices : node.devices = s.node.devices)
    (type : PfcType) : Counts { s with node := node.sendPfc pauseTime inDev qIndex type } := by
  have hnode : ∀ e, BEgressQueue.Counted (node.devices e).queue := by
    rw [hdevices]
    exact hcounts
  exact SwitchNode.sendPfc_counted hnode

theorem counts_beforeSend {idx : Port} {size : UInt32} (hcounts : Counts s)
    (h : s.beforeSend pauseTime inDev idx qIndex size = some s') : Counts s' := by
  rw [beforeSend] at h
  obtain ⟨mid, hmid, rfl⟩ := Option.map_eq_some_iff.mp h
  have hmidCounts : Counts mid := by
    split at hmid
    · rw [checkAndSendPfc] at hmid
      split at hmid
      · obtain ⟨mid', hcall, rfl⟩ := Option.map_eq_some_iff.mp hmid
        have hsent : Counts
            { s with node := (s.node.charge inDev idx qIndex size).sendPfc pauseTime inDev qIndex .pause } :=
          counts_sendPfc hcounts rfl .pause
        have hcalled := counts_of_call hsent hcall
        exact hcalled
      · obtain rfl := Option.some.inj hmid
        exact hcounts
    · obtain rfl := Option.some.inj hmid
      exact hcounts
  exact hmidCounts

theorem counts_enqueue (hcounts : Counts s) (hsize : BEgressQueue.maxBytes + p.size.toNat ≤ 2 ^ 32) :
    Counts (s.enqueue port qIndex p) := SwitchNode.switchSend_counted hcounts hsize

theorem counts_setDevice (hcounts : Counts s) {device : SwitchDevice} (hdevice : device.queue.Counted) :
    Counts { s with node := s.node.setDevice port device } := SwitchNode.setDevice_counted hcounts hdevice

theorem counts_step {event : PortEvent} (hcounts : Counts s) (hfits : FitsPort event)
    (h : portNext pauseTime s event = some s') : Counts s' := by
  cases event with
  | arrive inDev idx qIndex size =>
      rw [portNext] at h
      split at h
      · obtain rfl := Option.some.inj h
        exact hcounts
      · split at h
        · cases h
        · rw [sendToDev] at h
          split at h
          · obtain ⟨mid, hbefore, hcall⟩ := Option.bind_eq_some_iff.mp h
            have hsent : Counts (mid.enqueue idx qIndex ⟨size, .transit inDev⟩) :=
              counts_enqueue (counts_beforeSend hcounts hbefore) hfits
            exact counts_of_call hsent hcall
          · obtain rfl := Option.some.inj h
            exact hcounts
  | transmitComplete port =>
      rw [portNext] at h
      split at h
      · cases h
      · exact counts_of_call (s := s.transmitComplete port) hcounts h
  | recvPfc port qIndex time =>
      rw [portNext] at h
      split at h
      · obtain rfl := Option.some.inj h
        exact hcounts
      · obtain ⟨node, hrecv, h⟩ := Option.bind_eq_some_iff.mp h
        obtain ⟨paused, -, rfl⟩ := Option.map_eq_some_iff.mp hrecv
        have hset : Counts { s with node := s.node.setDevice port { s.node.devices port with paused := paused } } :=
          counts_setDevice hcounts (hcounts port)
        split at h
        · obtain rfl := Option.some.inj h
          exact hset
        · exact counts_of_call hset h
  | takeDown port =>
      obtain rfl := Option.some.inj h
      exact SwitchNode.takeDown_counted hcounts

/-- With exact byte counters only a frame over the port of the call itself disturbs a call. -/
theorem disturbed_self (hs : QuietExcept s port) (hcounts : Counts s)
    (hd : Disturbed pauseTime s port p qIndex queue inDev) : inDev = port := by
  obtain ⟨p', qIndex', queue', hnested, hor⟩ := hd.nested
  by_contra hne
  obtain ⟨hopen, hdata⟩ := hor.resolve_left hne
  apply hdata
  have hnone := hs.waiting inDev hne hopen
  rw [frameSent, nextPacket_sendPfc] at hnested
  have hdevice : (s.taken port p qIndex queue inDev).devices inDev = s.device inDev := SwitchNode.setDevice_of_ne _ hne
  rw [hdevice] at hnested
  exact top_of_frame _ (hcounts inDev) rfl hnone hnested

theorem undisturbed_of_ok {depth : Nat} (hs : QuietExcept s port) (hcounts : Counts s)
    (h : dequeueAndTransmit pauseTime depth s port = some s') (hok : TransmittersOk s') :
    Undisturbed pauseTime s port := by
  intro p qIndex queue inDev hd
  obtain rfl := disturbed_self hs hcounts hd
  have hfailed := not_asserts_of_disturbed hd h
  rw [hok.asserts] at hfailed
  cases hfailed

/-- A PAUSE frame never disturbs: it is the next packet of its port. -/
theorem undisturbed_pause (hs : Quiet s) (hcounts : Counts s) {node : SwitchNode}
    (hdevices : node.devices = s.node.devices) :
    Undisturbed pauseTime { s with node := node.sendPfc pauseTime inDev qIndex .pause } inDev := by
  intro p qIndex' queue inDev' hd
  apply hd.data
  have hdevice : node.devices inDev = s.device inDev := congrFun hdevices inDev
  have hopen : s.Open inDev := by
    refine ⟨?_, hd.isOpen.2⟩
    have hup : ((SwitchNode.setQueue _ _ _).devices inDev).linkUp = true := hd.isOpen.1
    rw [SwitchNode.setQueue, SwitchNode.setDevice_self, hdevice] at hup
    exact hup
  have hnext := hd.next
  rw [nextPacket_sendPfc, hdevice] at hnext
  exact top_of_frame _ (hcounts inDev) rfl (hs.waiting inDev hopen) hnext

/-- An event after which the transmitters are in order made undisturbed calls only. -/
theorem clear_of_ok {event : PortEvent} (hs : Quiet s) (hcounts : Counts s) (hfits : FitsPort event)
    (h : portNext pauseTime s event = some s') (hok : TransmittersOk s') : Clear pauseTime s event := by
  cases event with
  | arrive inDev idx qIndex size =>
      intro hup hadmits
      have hpause : qIndex ≠ 0 → (s.node.charge inDev idx qIndex size).mmu.checkShouldPause inDev qIndex = true →
          Undisturbed pauseTime
            { s with node := (s.node.charge inDev idx qIndex size).sendPfc pauseTime inDev qIndex .pause } inDev :=
        fun _ _ => undisturbed_pause hs hcounts rfl
      refine ⟨hpause, fun s₁ hbefore => ?_⟩
      rw [portNext, if_neg (by rw [hup]; decide)] at h
      split at h
      · cases h
      · rw [sendToDev, if_pos hadmits, hbefore, Option.bind_some] at h
        have hquiet := quiet_beforeSend hs hpause hbefore
        exact undisturbed_of_ok (hquiet.setDevice rfl) (counts_enqueue (counts_beforeSend hcounts hbefore) hfits) h hok
  | transmitComplete port =>
      rw [portNext] at h
      split at h
      · cases h
      · rename_i hpending
        exact undisturbed_of_ok (quietExcept_transmitComplete hs hpending) hcounts h hok
  | recvPfc port qIndex time =>
      intro hup htime node hrecv
      rw [portNext, if_neg (by rw [hup]; decide), recvPfc, hrecv, Option.bind_some, if_neg htime] at h
      obtain ⟨paused, -, rfl⟩ := Option.map_eq_some_iff.mp hrecv
      exact undisturbed_of_ok (hs.setDevice rfl) (counts_setDevice hcounts (hcounts port)) h hok
  | takeDown port => trivial

/-! ### Whole runs -/

theorem quiet_start (cfg : MmuConfig) : Quiet (start cfg) where
  asserts := rfl
  settled := fun _ => ⟨rfl, nofun⟩
  waiting := fun _ _ => rfl

theorem counts_start (cfg : MmuConfig) : Counts (start cfg) := fun _ => .empty

/-- In a run whose calls are undisturbed no transmitter is started while it is busy, and each has exactly
the one event it needs. As long as arriving packets do not wrap the byte counters, these are all such
runs. -/
theorem transmitters_ok_iff (cfg : MmuConfig) {trace : List (Transition PortNode PortEvent)}
    (hrun : (portSystem pauseTime cfg).Run (portSystem pauseTime cfg).init trace s) :
    ((∀ x ∈ trace, Clear pauseTime x.pre x.label) → TransmittersOk s ∧ ∀ x ∈ trace, TransmittersOk x.post) ∧
    ((∀ x ∈ trace, FitsPort x.label) →
      ((∀ x ∈ trace, TransmittersOk x.post) ↔ ∀ x ∈ trace, Clear pauseTime x.pre x.label)) := by
  have hkeep : (∀ x ∈ trace, Clear pauseTime x.pre x.label) → TransmittersOk s ∧ ∀ x ∈ trace, TransmittersOk x.post := by
    intro hclear
    obtain ⟨hend, hall⟩ := hrun.invariant_of_guard (P := Quiet) (C := Clear pauseTime)
      (fun _ _ _ hs hc hnext => quiet_step hs hc hnext) hclear (quiet_start cfg)
    exact ⟨hend.toTransmittersOk, fun x hx => (hall x hx).2.toTransmittersOk⟩
  refine ⟨hkeep, fun hfits => ⟨fun hok => ?_, fun hclear => (hkeep hclear).2⟩⟩
  exact hrun.guard_of_forall_post (P := fun s => Quiet s ∧ Counts s) (D := fun _ event => FitsPort event)
    (fun _ _ _ hs hf hc hnext => ⟨quiet_step hs.1 hc hnext, counts_step hs.2 hf hnext⟩)
    (fun _ _ _ hs hf hnext hpost => clear_of_ok hs.1 hs.2 hf hnext hpost) hfits hok ⟨quiet_start cfg, counts_start cfg⟩

def settled (s : PortNode) : Bool :=
  s.assertsHold && decide (∀ port, (s.tx port).pending = (if (s.tx port).busy then 1 else 0) ∧
    ((s.tx port).busy = true → (s.tx port).currentPkt.isSome = true))

theorem transmittersOk_of_settled (h : settled s = true) : TransmittersOk s := by
  rw [settled, Bool.and_eq_true, decide_eq_true_eq] at h
  exact ⟨h.1, fun port => ⟨(h.2 port).1, (h.2 port).2⟩⟩

/-- Five packets come in over one port and leave over another. The fourth that is stored pauses the class on the first
port; the packet that leaves next makes it resume there, while the second port sends on. -/
def forwarded (inDev idx : Port) (qIndex : Queue) : List PortEvent :=
  List.replicate 5 (.arrive inDev idx qIndex 1048) ++ [.transmitComplete inDev, .transmitComplete idx]

theorem transmitters_ok_iff_forwarded :
    ∃ trace s, (portSystem 5 SwitchMmu.smallPool).Run (portSystem 5 SwitchMmu.smallPool).init trace s ∧
      trace.map Transition.label = forwarded 1 2 3 ∧
      (s.tx 1).currentPkt.map SwitchPacket.kind = some (.pfc 0 3) ∧
      (s.tx 2).currentPkt.map SwitchPacket.kind = some (.transit 1) ∧
      TransmittersOk s ∧ ∀ x ∈ trace, Clear 5 x.pre x.label := by
  have hchecked : (portSystem 5 SwitchMmu.smallPool).checked (fun x => settled x.post)
      (portSystem 5 SwitchMmu.smallPool).init (forwarded 1 2 3) = true := by decide +kernel
  have hsent : ((portSystem 5 SwitchMmu.smallPool).exec (portSystem 5 SwitchMmu.smallPool).init (forwarded 1 2 3)).map
      (fun s => ((s.tx 1).currentPkt.map SwitchPacket.kind, (s.tx 2).currentPkt.map SwitchPacket.kind)) =
        some (some (.pfc 0 3), some (.transit 1)) := by decide +kernel
  obtain ⟨trace, s, hrun, hlabels, hexec, hsettled⟩ := System.Run.of_checked _ hchecked
  rw [hexec] at hsent
  obtain ⟨hframe, hpacket⟩ := Prod.mk.inj (Option.some.inj hsent)
  have hsizes : ∀ e ∈ forwarded 1 2 3, FitsPort e := by
    have hfits : BEgressQueue.maxBytes + (1048 : UInt32).toNat ≤ 2 ^ 32 := by decide
    intro e he
    rcases List.mem_append.mp he with harrive | hcomplete
    · rw [List.eq_of_mem_replicate harrive]
      exact hfits
    · rcases List.mem_pair.mp hcomplete with rfl | rfl
      · trivial
      · trivial
  obtain ⟨hkeep, hiff⟩ := transmitters_ok_iff SwitchMmu.smallPool hrun
  have hclear := (hiff fun x hx => hsizes x.label (hlabels ▸ List.mem_map_of_mem hx)).mp fun x hx =>
    transmittersOk_of_settled (hsettled x hx)
  exact ⟨trace, s, hrun, hlabels, hframe, hpacket, (hkeep hclear).1, hclear⟩

/-- Five packets leave over the port they came in on. The fourth that is stored pauses the class, and when
the next one leaves, the RESUME frame is started on the port first: two events are pending. -/
theorem not_transmittersOk_bounce :
    ∃ s, (portSystem 5 SwitchMmu.smallPool).Reachable s ∧ s.assertsHold = false ∧ (s.tx 1).pending = 2 := by
  have hfinal : ((portSystem 5 SwitchMmu.smallPool).exec (portSystem 5 SwitchMmu.smallPool).init
      [.arrive 1 1 3 1048, .arrive 1 1 3 1048, .arrive 1 1 3 1048, .arrive 1 1 3 1048, .arrive 1 1 3 1048,
        .transmitComplete 1, .transmitComplete 1]).map (fun s => (s.assertsHold, (s.tx 1).pending)) =
      some (false, 2) := by decide +kernel
  obtain ⟨s, hexec, hs⟩ := Option.map_eq_some_iff.mp hfinal
  obtain ⟨hasserts, hpending⟩ := Prod.mk.inj hs
  exact ⟨s, System.reachable_of_exec _ hexec, hasserts, hpending⟩

end PortNode

end Lcmp
