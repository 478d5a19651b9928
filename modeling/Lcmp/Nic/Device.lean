import Lcmp.Lib.Transition
import Lcmp.Nic.EgressQueue
import Lcmp.Transport.RdmaHw

/-!
# The network device of a host

`QbbNetDevice` with the host branch of `DequeueAndTransmit`, and the functions of `rdma-hw.cc` that set
`m_nextAvail`. A device has at most two events pending, the end of the transmission and `m_nextSend`;
time passes only up to the next of them. How long a packet takes at a rate is a floating-point
computation and a parameter here.
-/

namespace Lcmp

/-- Times are in nanoseconds. `headerSize` is what `GetNxtPacket` puts in front of the payload. -/
structure NicConfig where
  hw : RdmaHwConfig
  mRateBound : Bool
  mBps : UInt64
  mTInterframeGap : Nat
  headerSize : UInt32
  txTime : UInt64 → UInt32 → Nat

/-- `Simulator::GetMaximumSimulationTime`. -/
def maximumSimulationTime : Int := 2 ^ 63 - 1

/-- The transmitter is `BUSY` while `TransmitComplete` is pending, at the time in `txComplete`, and
`READY` otherwise. `m_nextSend` is expired when it is `none`. -/
structure QbbNetDevice where
  now : Int
  linkUp : Bool
  txComplete : Option Int
  nextSend : Option Int
  paused : Queue → Bool
  rdmaEQ : RdmaEgressQueue

variable (cfg : NicConfig)

/-! ### The functions of `rdma-hw.cc` -/

/-- `RdmaHw::UpdateNextAvail`. -/
def updateNextAvailOfQp (now : Int) (pktSize : UInt32) (qp : RdmaQueuePair) : RdmaQueuePair :=
  let sendingTime := cfg.mTInterframeGap +
    (if cfg.mRateBound then cfg.txTime qp.mRate pktSize else cfg.txTime qp.mMaxRate pktSize)
  { qp with mNextAvail := now + sendingTime }

def pktSent (now : Int) (pktSize : UInt32) (qp : RdmaQueuePair) : RdmaQueuePair :=
  updateNextAvailOfQp cfg now pktSize { qp with lastPktSize := pktSize }

namespace QbbNetDevice

/-! ### The functions of the device -/

def transmitStart (size : UInt32) (dev : QbbNetDevice) : QbbNetDevice :=
  { dev with txComplete := some (dev.now + (cfg.txTime cfg.mBps size + cfg.mTInterframeGap)) }

/-- The loop over the queue pairs when there is no packet to send. -/
def earliestAvail (qps : List RdmaQueuePair) : Int :=
  qps.foldl (fun t qp => if qp.getBytesLeft = 0 then t else min qp.mNextAvail t) maximumSimulationTime

def scheduleNextSend (dev : QbbNetDevice) : QbbNetDevice :=
  let t := earliestAvail dev.rdmaEQ.qps
  if dev.nextSend = none ∧ t < maximumSimulationTime ∧ t > dev.now then { dev with nextSend := some t }
  else dev

def setQps (dev : QbbNetDevice) (qps : List RdmaQueuePair) : QbbNetDevice :=
  { dev with rdmaEQ := { dev.rdmaEQ with qps := qps } }

/-- The host branch. A dequeue from an empty queue or of an index outside the group has no result. -/
def dequeueAndTransmit (dev : QbbNetDevice) : Option QbbNetDevice :=
  if dev.linkUp = false then some dev
  else if dev.txComplete ≠ none then some dev
  else
    match dev.rdmaEQ.getNextQindex dev.paused dev.now with
    | (.highPrio, eq) =>
        match eq.ackQ with
        | [] => none
        | size :: rest => some ({ dev with rdmaEQ := { eq with ackQ := rest } }.transmitStart cfg size)
    | (.qp qIndex, eq) =>
        match eq.qps[qIndex]? with
        | none => none
        | some lastQp =>
            let (frame, lastQp) := getNxtPacket cfg.hw lastQp
            let size := frame.payloadSize + cfg.headerSize
            let dev := { dev with rdmaEQ := { eq with rrlast := qIndex } }.transmitStart cfg size
            some (dev.setQps (eq.qps.set qIndex (pktSent cfg dev.now size lastQp)))
    | (.nothing, eq) => some { dev with rdmaEQ := eq }.scheduleNextSend

def updateNextAvail (t : Int) (dev : QbbNetDevice) : QbbNetDevice :=
  match dev.nextSend with
  | none => dev
  | some ts => if t < ts then { dev with nextSend := some (if t < dev.now then dev.now else t) } else dev

end QbbNetDevice

/-- How congestion control sets a rate: by `ChangeRate`, or by writing `m_rate`. -/
inductive RateUpdate where
  | changeRate (rate : UInt64)
  | setRate (rate : UInt64)
  deriving DecidableEq

open QbbNetDevice

/-- `ChangeRate` for the queue pair of a NIC at an index. -/
def changeRate (i : Nat) (newRate : UInt64) (dev : QbbNetDevice) : QbbNetDevice :=
  match dev.rdmaEQ.qps[i]? with
  | none => dev
  | some qp =>
      let sendingTime : Int := cfg.txTime qp.mRate qp.lastPktSize
      let newSendingTime : Int := cfg.txTime newRate qp.lastPktSize
      let nextAvail := qp.mNextAvail + newSendingTime - sendingTime
      (dev.setQps (dev.rdmaEQ.qps.set i { qp with mNextAvail := nextAvail, mRate := newRate })).updateNextAvail
        nextAvail

def updateRate (i : Nat) (dev : QbbNetDevice) : RateUpdate → QbbNetDevice
  | .changeRate rate => changeRate cfg i rate dev
  | .setRate rate => dev.setQps (dev.rdmaEQ.qps.modify i fun qp => { qp with mRate := rate })

/-! ### Events -/

inductive NicEvent where
  /-- `Attach` brings the link up, `TakeDown` brings it down. -/
  | attach
  | takeDown
  | newQp (qp : RdmaQueuePair)
  /-- `ReceiveUdp` queues an ACK and calls `TriggerTransmit`. -/
  | sendAck (size : UInt32)
  | recvAck (i : Nat) (frame : AckFrame) (updates : List RateUpdate)
  /-- `TriggerTransmit` for a queue pair that is no longer in the group, or `ReassignedQp`. -/
  | triggerTransmit
  /-- A timer of congestion control. -/
  | rateTimer (i : Nat) (update : RateUpdate)
  | pause (qIndex : Queue)
  | resume (qIndex : Queue)
  | advance (t : Int)
  | transmitComplete
  | nextSend

/-- What an event does before it calls `DequeueAndTransmit`, if it does. An ACK finds a queue pair in
`m_qpMap` until the ACK that finishes it. -/
def nicEffect (dev : QbbNetDevice) : NicEvent → Option QbbNetDevice
  | .attach => some { dev with linkUp := true }
  | .takeDown => some { dev with linkUp := false, rdmaEQ := { dev.rdmaEQ with ackQ := [] } }
  | .newQp qp =>
      let qp := { qp with
        sndNxt := 0
        sndUna := 0
        mRate := cfg.mBps
        mMaxRate := cfg.mBps
        mNextAvail := dev.now }
      some (dev.setQps (dev.rdmaEQ.qps ++ [qp]))
  | .sendAck size => some { dev with rdmaEQ := { dev.rdmaEQ with ackQ := dev.rdmaEQ.ackQ ++ [size] } }
  | .recvAck i frame updates =>
      match dev.rdmaEQ.qps[i]? with
      | none => none
      | some qp =>
          if qp.isFinished then none
          else
            match receiveAck cfg.hw frame qp with
            | none => none
            | some (qp, _) => some (updates.foldl (updateRate cfg i) (dev.setQps (dev.rdmaEQ.qps.set i qp)))
  | .triggerTransmit => some dev
  | .rateTimer i update => some (updateRate cfg i dev update)
  | .pause qIndex =>
      if dev.linkUp then some { dev with paused := Function.update dev.paused qIndex true } else none
  | .resume qIndex =>
      -- the source asserts that the class is paused
      if dev.linkUp ∧ dev.paused qIndex then
        some { dev with paused := Function.update dev.paused qIndex false }
      else none
  | .advance t =>
      if dev.now < t ∧ (∀ ts ∈ dev.txComplete, t ≤ ts) ∧ (∀ ts ∈ dev.nextSend, t ≤ ts) then
        some { dev with now := t }
      else none
  | .transmitComplete => if dev.txComplete = some dev.now then some { dev with txComplete := none } else none
  | .nextSend => if dev.nextSend = some dev.now then some { dev with nextSend := none } else none

/-- The events that call `DequeueAndTransmit`. -/
def NicEvent.transmits : NicEvent → Bool
  | .attach => false
  | .takeDown => false
  | .newQp _ => true
  | .sendAck _ => true
  | .recvAck _ _ _ => true
  | .triggerTransmit => true
  | .rateTimer _ _ => false
  | .pause _ => false
  | .resume _ => true
  | .advance _ => false
  | .transmitComplete => true
  | .nextSend => true

def nicNext (dev : QbbNetDevice) (event : NicEvent) : Option QbbNetDevice :=
  match nicEffect cfg dev event with
  | none => none
  | some dev => if event.transmits then dev.dequeueAndTransmit cfg else some dev

def nicSystem : System QbbNetDevice NicEvent where
  init := {
    now := 0
    linkUp := false
    txComplete := none
    nextSend := none
    paused := fun _ => false
    rdmaEQ := { rrlast := 0, ackQ := [], qps := [] } }
  next := nicNext cfg

/-! ### What a call does -/

variable {cfg}

/-- A call that returns: it had nothing to decide, it starts a transmission, or it finds nothing to
send. -/
inductive DequeueOutcome (dev : QbbNetDevice) : QbbNetDevice → Prop where
  | unchanged (hclosed : dev.linkUp = false ∨ dev.txComplete ≠ none) : DequeueOutcome dev dev
  | started {dev' : QbbNetDevice} (hready : dev.txComplete = none)
      (hwork : (dev.paused ackQIdx = false ∧ dev.rdmaEQ.ackQ ≠ []) ∨
        ∃ qp ∈ dev.rdmaEQ.qps, canSend dev.paused qp = true ∧ qp.mNextAvail ≤ dev.now)
      (hbusy : dev'.txComplete ≠ none) : DequeueOutcome dev dev'
  | idle (hup : dev.linkUp = true) (hready : dev.txComplete = none)
      (hack : dev.paused ackQIdx = true ∨ dev.rdmaEQ.ackQ = [])
      (hwait : ∀ qp ∈ dev.rdmaEQ.qps, canSend dev.paused qp = true → dev.now < qp.mNextAvail) :
      DequeueOutcome dev
        (dev.setQps (RdmaEgressQueue.survivors dev.paused dev.rdmaEQ.qps)).scheduleNextSend

theorem dequeueAndTransmit_outcome {dev dev' : QbbNetDevice}
    (h : dev.dequeueAndTransmit cfg = some dev') : DequeueOutcome dev dev' := by
  unfold dequeueAndTransmit at h
  split at h
  · rename_i hdown
    obtain rfl := Option.some.inj h
    exact .unchanged (.inl hdown)
  · rename_i hup
    rw [Bool.not_eq_false] at hup
    split at h
    · rename_i hbusy
      obtain rfl := Option.some.inj h
      exact .unchanged (.inr hbusy)
    · rename_i hready
      rw [not_not] at hready
      have houtcome := RdmaEgressQueue.getNextQindex_outcome dev.paused dev.now dev.rdmaEQ
      generalize dev.rdmaEQ.getNextQindex dev.paused dev.now = answer at h houtcome
      obtain ⟨qIndex, eq⟩ := answer
      cases houtcome with
      | highPrio hpaused hackQ =>
          dsimp only at h
          split at h
          · cases h
          · obtain rfl := Option.some.inj h
            exact .started hready (.inl ⟨hpaused, hackQ⟩) (by simp [transmitStart])
      | qp hmem hsend havail =>
          dsimp only at h
          split at h
          · cases h
          · obtain rfl := Option.some.inj h
            exact .started hready (.inr ⟨_, hmem, hsend, havail⟩) (by simp [transmitStart, setQps])
      | nothing hack hwait =>
          obtain rfl := Option.some.inj h
          exact .idle hup hready hack hwait

/-! ### The next time a queue pair is available -/

private theorem lt_foldl_iff {a b : Int} {qps : List RdmaQueuePair} :
    a < qps.foldl (fun t qp => if qp.getBytesLeft = 0 then t else min qp.mNextAvail t) b ↔
      a < b ∧ ∀ qp ∈ qps, qp.getBytesLeft ≠ 0 → a < qp.mNextAvail := by
  induction qps generalizing b with
  | nil => simp
  | cons qp rest ih =>
      rw [List.foldl_cons, ih, List.forall_mem_cons]
      split
      · rename_i hzero
        simp [hzero]
      · rename_i hne
        rw [lt_min_iff]
        constructor
        · rintro ⟨⟨hqp, hb⟩, hrest⟩
          exact ⟨hb, fun _ => hqp, hrest⟩
        · rintro ⟨hb, hqp, hrest⟩
          exact ⟨⟨hqp hne, hb⟩, hrest⟩

theorem lt_earliestAvail_iff {a : Int} {qps : List RdmaQueuePair} :
    a < earliestAvail qps ↔
      a < maximumSimulationTime ∧ ∀ qp ∈ qps, qp.getBytesLeft ≠ 0 → a < qp.mNextAvail :=
  lt_foldl_iff

theorem earliestAvail_lt_iff {qps : List RdmaQueuePair} :
    earliestAvail qps < maximumSimulationTime ↔
      ∃ qp ∈ qps, qp.getBytesLeft ≠ 0 ∧ qp.mNextAvail < maximumSimulationTime := by
  have hlt := @lt_earliestAvail_iff (maximumSimulationTime - 1) qps
  constructor
  · intro h
    by_contra hnone
    have hall : ∀ qp ∈ qps, qp.getBytesLeft ≠ 0 → maximumSimulationTime - 1 < qp.mNextAvail := by
      intro qp hqp hleft
      by_contra hearly
      exact hnone ⟨qp, hqp, hleft, by omega⟩
    have hge := hlt.mpr ⟨by omega, hall⟩
    omega
  · rintro ⟨qp, hqp, hleft, hearly⟩
    by_contra hge
    have hlate := (hlt.mp (by omega)).2 qp hqp hleft
    omega

theorem earliestAvail_le {qps : List RdmaQueuePair} {qp : RdmaQueuePair} (hqp : qp ∈ qps)
    (hleft : qp.getBytesLeft ≠ 0) : earliestAvail qps ≤ qp.mNextAvail := by
  by_contra hlt
  have hself := (lt_earliestAvail_iff.mp (Int.not_le.mp hlt)).2 qp hqp hleft
  omega

end Lcmp
