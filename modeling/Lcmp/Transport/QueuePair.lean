import Lcmp.Mmu.Code

/-!
# Queue pairs

The sender's state of one flow and the functions of `rdma-queue-pair.cc` on it. Sizes, sequence
numbers and rates are the 64-bit words of the source.
-/

namespace Lcmp

/-- Rates are in bits per second, times in nanoseconds. -/
structure RdmaQueuePair where
  mSize : UInt64
  sndNxt : UInt64
  sndUna : UInt64
  mWin : UInt32
  mVarWin : Bool
  mRate : UInt64
  mMaxRate : UInt64
  mPg : Queue
  mNextAvail : Int
  lastPktSize : UInt32
  deriving DecidableEq

namespace RdmaQueuePair

def getBytesLeft (qp : RdmaQueuePair) : UInt64 :=
  if qp.mSize ≥ qp.sndNxt then qp.mSize - qp.sndNxt else 0

def acknowledge (qp : RdmaQueuePair) (ack : UInt64) : RdmaQueuePair :=
  if ack > qp.sndUna then { qp with sndUna := ack } else qp

def getOnTheFly (qp : RdmaQueuePair) : UInt64 := qp.sndNxt - qp.sndUna

def getWin (qp : RdmaQueuePair) : UInt64 :=
  if qp.mWin = 0 then 0
  else if qp.mVarWin then
    let w := qp.mWin.toUInt64 * qp.mRate / qp.mMaxRate
    if w = 0 then 1 else w
  else qp.mWin.toUInt64

def isWinBound (qp : RdmaQueuePair) : Bool := qp.getWin != 0 && qp.getOnTheFly ≥ qp.getWin

def isFinished (qp : RdmaQueuePair) : Bool := qp.sndUna ≥ qp.mSize

/-- What remains to be sent, as a number. -/
theorem getBytesLeft_toNat (qp : RdmaQueuePair) :
    qp.getBytesLeft.toNat = qp.mSize.toNat - qp.sndNxt.toNat := by
  simp only [getBytesLeft]
  split
  · rename_i h
    exact UInt64.toNat_sub_of_le _ _ h
  · rename_i h
    rw [ge_iff_le, UInt64.le_iff_toNat_le] at h
    rw [UInt64.toNat_zero]
    omega

theorem acknowledge_toNat (qp : RdmaQueuePair) (ack : UInt64) :
    (qp.acknowledge ack).sndUna.toNat = max qp.sndUna.toNat ack.toNat := by
  simp only [acknowledge]
  split
  · rename_i h
    rw [gt_iff_lt, UInt64.lt_iff_toNat_lt] at h
    show ack.toNat = _
    omega
  · rename_i h
    rw [gt_iff_lt, UInt64.lt_iff_toNat_lt] at h
    omega

theorem acknowledge_sndNxt (qp : RdmaQueuePair) (ack : UInt64) :
    (qp.acknowledge ack).sndNxt = qp.sndNxt ∧ (qp.acknowledge ack).mSize = qp.mSize := by
  simp only [acknowledge]
  split
  · exact ⟨rfl, rfl⟩
  · exact ⟨rfl, rfl⟩

theorem acknowledge_mWin (qp : RdmaQueuePair) (ack : UInt64) : (qp.acknowledge ack).mWin = qp.mWin := by
  simp only [acknowledge]
  split
  · rfl
  · rfl

/-- A queue pair without a window is never bound by it. -/
theorem isWinBound_of_noWindow {qp : RdmaQueuePair} (h : qp.mWin = 0) : qp.isWinBound = false := by
  rw [isWinBound, getWin, if_pos h]
  rfl

theorem isFinished_iff (qp : RdmaQueuePair) :
    qp.isFinished = true ↔ qp.mSize.toNat ≤ qp.sndUna.toNat := by
  rw [isFinished, decide_eq_true_eq, ge_iff_le, UInt64.le_iff_toNat_le]

/-- The bytes in flight are the difference of the two counters as integers exactly when that
difference is not negative. -/
theorem getOnTheFly_toNat_iff (qp : RdmaQueuePair) :
    (qp.getOnTheFly.toNat : Int) = qp.sndNxt.toNat - qp.sndUna.toNat ↔
      qp.sndUna.toNat ≤ qp.sndNxt.toNat := by
  have hnxt := qp.sndNxt.toNat_lt
  have huna := qp.sndUna.toNat_lt
  rw [getOnTheFly, UInt64.toNat_sub]
  constructor
  · intro h
    omega
  · intro h
    omega

end RdmaQueuePair

end Lcmp
