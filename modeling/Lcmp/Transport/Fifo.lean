import Lcmp.Lib.Transition
import Lcmp.Transport.RdmaHw

/-!
# One flow over a path that keeps the order

Data segments and acknowledgements travel in two queues. Acknowledgements are never lost; a lossy path
may drop any data segment that is on its way. A windowed sender is asked for a packet only while it is
not window-bound, as the NIC does; without that it may be asked at any time. The numbers for which the
receiver has sent a NACK are recorded.
-/

namespace Lcmp

structure FifoState where
  flow : Flow
  clock : Int
  dataQ : List DataFrame
  ackQ : List AckFrame
  nacks : List UInt32

inductive FifoEvent where
  | send
  | data (now : Int)
  | ack
  | drop (i : Nat)
  deriving DecidableEq

/-- The numbers NACKed once a frame is sent back. -/
def recordNack (nacks : List UInt32) : Option AckFrame → List UInt32
  | some ⟨true, seq⟩ => seq :: nacks
  | _ => nacks

variable (hw : RdmaHwConfig) (lossy windowed : Bool)

def fifoNext (s : FifoState) : FifoEvent → Option FifoState
  | .send =>
      if windowed ∧ s.flow.qp.isWinBound then none
      else
        match s.flow.send hw with
        | none => none
        | some (frame, flow) => some { s with flow := flow, dataQ := s.dataQ ++ [frame] }
  | .data now =>
      match s.dataQ with
      | [] => none
      | frame :: rest =>
          if s.clock ≤ now then
            match s.flow.recvData hw now frame with
            | none => none
            | some (ack, flow) => some {
                flow := flow
                clock := now
                dataQ := rest
                ackQ := s.ackQ ++ ack.toList
                nacks := recordNack s.nacks ack }
          else none
  | .ack =>
      match s.ackQ with
      | [] => none
      | frame :: rest =>
          match s.flow.recvAck hw frame with
          | none => none
          | some flow => some { s with flow := flow, ackQ := rest }
  | .drop i =>
      if lossy ∧ i < s.dataQ.length then some { s with dataQ := s.dataQ.eraseIdx i } else none

def fifoSystem (qp : RdmaQueuePair) : System FifoState FifoEvent where
  init := {
    flow := .start qp
    clock := 0
    dataQ := []
    ackQ := []
    nacks := [] }
  next := fifoNext hw lossy windowed

variable {hw lossy windowed}

theorem fifoNext_send {s t : FifoState} (h : fifoNext hw lossy windowed s .send = some t) :
    ∃ frame flow, s.flow.send hw = some (frame, flow) ∧
      t = { s with flow := flow, dataQ := s.dataQ ++ [frame] } := by
  simp only [fifoNext] at h
  split at h
  · cases h
  · split at h
    · cases h
    · rename_i frame flow hsend
      exact ⟨frame, flow, hsend, (Option.some.inj h).symm⟩

theorem fifoNext_data {s t : FifoState} {now : Int} (h : fifoNext hw lossy windowed s (.data now) = some t) :
    ∃ frame rest ack q', s.dataQ = frame :: rest ∧ s.clock ≤ now ∧
      UdpOutcome hw now frame (s.flow.rx.getD .new) ack q' ∧
      t = {
        flow := { s.flow with rx := some q' }
        clock := now
        dataQ := rest
        ackQ := s.ackQ ++ ack.toList
        nacks := recordNack s.nacks ack } := by
  simp only [fifoNext] at h
  split at h
  · cases h
  · rename_i frame rest hqueue
    split at h
    · rename_i hclock
      split at h
      · cases h
      · rename_i ack flow hrecv
        obtain ⟨q', rfl, houtcome⟩ := recvData_outcome hrecv
        exact ⟨frame, rest, ack, q', hqueue, hclock, houtcome, (Option.some.inj h).symm⟩
    · cases h

theorem fifoNext_ack {s t : FifoState} (h : fifoNext hw lossy windowed s .ack = some t) :
    ∃ frame rest flow, s.ackQ = frame :: rest ∧ AckOutcome hw frame s.flow flow ∧
      t = { s with flow := flow, ackQ := rest } := by
  simp only [fifoNext] at h
  split at h
  · cases h
  · rename_i frame rest hqueue
    split at h
    · cases h
    · rename_i flow hrecv
      exact ⟨frame, rest, flow, hqueue, recvAck_outcome hrecv, (Option.some.inj h).symm⟩

theorem fifoNext_drop {s t : FifoState} {i : Nat} (h : fifoNext hw lossy windowed s (.drop i) = some t) :
    lossy = true ∧ i < s.dataQ.length ∧ t = { s with dataQ := s.dataQ.eraseIdx i } := by
  simp only [fifoNext] at h
  split at h
  · rename_i hguard
    exact ⟨hguard.1, hguard.2, (Option.some.inj h).symm⟩
  · cases h

end Lcmp
