import Lcmp.Lib.Segments
import Lcmp.Transport.QueuePair

/-!
# The transport of the host

`GetNxtPacket`, `ReceiveUdp` with `ReceiverCheckSeq`, and `ReceiveAck` of `rdma-hw.cc`, and the state
of one flow at its two ends. Congestion control, the INT header and the addresses of the frames are
left out. The remainders and divisions by `m_chunk` trap when it is zero; a step that traps has no
result.
-/

namespace Lcmp

/-- The attributes the transport reads. The interval between NACKs is in nanoseconds. -/
structure RdmaHwConfig where
  mMtu : UInt32
  mChunk : UInt32
  mAckInterval : UInt32
  mBackto0 : Bool
  mNackInterval : Int

/-- A data segment: its sequence number and the size of its payload. -/
structure DataFrame where
  seq : UInt32
  payloadSize : UInt32
  deriving DecidableEq

def DataFrame.segment (frame : DataFrame) : Segments.Segment :=
  (frame.seq.toNat, frame.payloadSize.toNat)

/-- An ACK (protocol `0xFC`) or a NACK (`0xFD`). -/
structure AckFrame where
  isNack : Bool
  seq : UInt32
  deriving DecidableEq

structure RdmaRxQueuePair where
  receiverNextExpectedSeq : UInt32
  mNackTimer : Int
  mMilestoneRx : Int32
  mLastNack : UInt32
  deriving DecidableEq

def RdmaRxQueuePair.new : RdmaRxQueuePair where
  receiverNextExpectedSeq := 0
  mNackTimer := 0
  mMilestoneRx := 0
  mLastNack := 0

/-- The results 1 to 5 of `ReceiverCheckSeq`. -/
inductive CheckSeq where
  | ack
  | nack
  | duplicate
  | nackSuppressed
  | accepted
  deriving DecidableEq

variable (hw : RdmaHwConfig)

def getNxtPacket (qp : RdmaQueuePair) : DataFrame × RdmaQueuePair :=
  let payloadSize := qp.getBytesLeft.toUInt32
  let payloadSize := if hw.mMtu < payloadSize then hw.mMtu else payloadSize
  (⟨qp.sndNxt.toUInt32, payloadSize⟩, { qp with sndNxt := qp.sndNxt + payloadSize.toUInt64 })

def receiverCheckSeq (now : Int) (seq : UInt32) (q : RdmaRxQueuePair) (size : UInt32) :
    Option (CheckSeq × RdmaRxQueuePair) :=
  let expected := q.receiverNextExpectedSeq
  if seq = expected then
    let q := { q with receiverNextExpectedSeq := expected + size }
    -- the signed milestone is converted to unsigned by the comparison
    if q.receiverNextExpectedSeq ≥ q.mMilestoneRx.toUInt32 then
      some (.ack, { q with mMilestoneRx := q.mMilestoneRx + hw.mAckInterval.toInt32 })
    else if hw.mChunk = 0 then none
    else if q.receiverNextExpectedSeq % hw.mChunk = 0 then some (.ack, q)
    else some (.accepted, q)
  else if seq > expected then
    if now ≥ q.mNackTimer ∨ q.mLastNack ≠ expected then
      let q := { q with mNackTimer := now + hw.mNackInterval, mLastNack := expected }
      if hw.mBackto0 then
        if hw.mChunk = 0 then none
        else some (.nack, { q with receiverNextExpectedSeq := expected / hw.mChunk * hw.mChunk })
      else some (.nack, q)
    else some (.nackSuppressed, q)
  else some (.duplicate, q)

/-- The frame that goes back, if any, and the receiver's state, which the first segment creates. -/
def receiveUdp (now : Int) (frame : DataFrame) (rxQp : Option RdmaRxQueuePair) :
    Option (Option AckFrame × RdmaRxQueuePair) :=
  let q := { rxQp.getD .new with mMilestoneRx := hw.mAckInterval.toInt32 }
  match receiverCheckSeq hw now frame.seq q frame.payloadSize with
  | none => none
  | some (.ack, q) => some (some ⟨false, q.receiverNextExpectedSeq⟩, q)
  | some (.nack, q) => some (some ⟨true, q.receiverNextExpectedSeq⟩, q)
  | some (.duplicate, q) => some (none, q)
  | some (.nackSuppressed, q) => some (none, q)
  | some (.accepted, q) => some (none, q)

def recoverQueue (qp : RdmaQueuePair) : RdmaQueuePair := { qp with sndNxt := qp.sndUna }

/-- The number an ACK acknowledges: with `L2BackToZero` it is rounded down to a chunk. -/
def ackValue (seq : UInt32) : UInt32 := if hw.mBackto0 then seq / hw.mChunk * hw.mChunk else seq

/-- The last step of `ReceiveAck` that matters here: a NACK rolls the queue pair back. -/
def settle (ack : AckFrame) (qp : RdmaQueuePair) : RdmaQueuePair :=
  if ack.isNack then recoverQueue qp else qp

/-- `ReceiveAck` for a queue pair it has found: the new state and whether `QpComplete` is called. -/
def receiveAck (ack : AckFrame) (qp : RdmaQueuePair) : Option (RdmaQueuePair × Bool) :=
  if hw.mAckInterval = 0 then some (settle ack qp, false)
  else if hw.mBackto0 ∧ hw.mChunk = 0 then none
  else
    let qp := qp.acknowledge (ackValue hw ack.seq).toUInt64
    some (settle ack qp, qp.isFinished)

/-! ### One flow -/

/-- Both ends of a flow: the queue pair, whether it is in `m_qpMap`, how often `QpComplete` was called
for it, and the receiver's state. -/
structure Flow where
  qp : RdmaQueuePair
  inMap : Bool
  completions : Nat
  rx : Option RdmaRxQueuePair
  deriving DecidableEq

namespace Flow

def start (qp : RdmaQueuePair) : Flow where
  qp := { qp with sndNxt := 0, sndUna := 0 }
  inMap := true
  completions := 0
  rx := none

/-- The NIC asks for the next packet only while bytes are left. -/
def send (f : Flow) : Option (DataFrame × Flow) :=
  if f.qp.getBytesLeft > 0 then
    some ((getNxtPacket hw f.qp).1, { f with qp := (getNxtPacket hw f.qp).2 })
  else none

def recvData (now : Int) (frame : DataFrame) (f : Flow) : Option (Option AckFrame × Flow) :=
  match receiveUdp hw now frame f.rx with
  | none => none
  | some (ack, q) => some (ack, { f with rx := some q })

/-- `QpComplete` removes the queue pair from the map and deletes the receiver's state. -/
def complete (f : Flow) : Flow :=
  { f with inMap := false, completions := f.completions + 1, rx := none }

/-- An ACK that finds no queue pair is ignored. -/
def recvAck (ack : AckFrame) (f : Flow) : Option Flow :=
  if f.inMap then
    match receiveAck hw ack f.qp with
    | none => none
    | some (qp, false) => some { f with qp := qp }
    | some (qp, true) => some ({ f with qp := qp }.complete)
  else some f

/-- The number the receiver expects next. -/
def expected (f : Flow) : UInt32 := (f.rx.getD .new).receiverNextExpectedSeq

end Flow

/-! ### What each operation does -/

variable {hw}

/-- What `ReceiveUdp` can do with a segment, given the receiver's state before. -/
inductive UdpOutcome (hw : RdmaHwConfig) (now : Int) (frame : DataFrame) (q : RdmaRxQueuePair) :
    Option AckFrame → RdmaRxQueuePair → Prop where
  | accepted {ack : Option AckFrame} {q' : RdmaRxQueuePair}
      (hseq : frame.seq = q.receiverNextExpectedSeq)
      (hexpected : q'.receiverNextExpectedSeq = q.receiverNextExpectedSeq + frame.payloadSize)
      (htimer : q'.mNackTimer = q.mNackTimer) (hlast : q'.mLastNack = q.mLastNack)
      (hack : ack = if hw.mAckInterval ≤ q'.receiverNextExpectedSeq ∨
          q'.receiverNextExpectedSeq % hw.mChunk = 0
        then some ⟨false, q'.receiverNextExpectedSeq⟩ else none) : UdpOutcome hw now frame q ack q'
  | nacked {ack : Option AckFrame} {q' : RdmaRxQueuePair} (hseq : q.receiverNextExpectedSeq < frame.seq)
      (hdue : now ≥ q.mNackTimer ∨ q.mLastNack ≠ q.receiverNextExpectedSeq)
      (hexpected : q'.receiverNextExpectedSeq = ackValue hw q.receiverNextExpectedSeq)
      (htimer : q'.mNackTimer = now + hw.mNackInterval)
      (hlast : q'.mLastNack = q.receiverNextExpectedSeq)
      (hack : ack = some ⟨true, q'.receiverNextExpectedSeq⟩) : UdpOutcome hw now frame q ack q'
  | ignored {q' : RdmaRxQueuePair} (hseq : frame.seq ≠ q.receiverNextExpectedSeq)
      (hquiet : frame.seq < q.receiverNextExpectedSeq ∨
        ¬(now ≥ q.mNackTimer ∨ q.mLastNack ≠ q.receiverNextExpectedSeq))
      (hexpected : q'.receiverNextExpectedSeq = q.receiverNextExpectedSeq)
      (htimer : q'.mNackTimer = q.mNackTimer) (hlast : q'.mLastNack = q.mLastNack) :
      UdpOutcome hw now frame q none q'

theorem receiveUdp_outcome {now : Int} {frame : DataFrame} {rxQp : Option RdmaRxQueuePair}
    {ack : Option AckFrame} {q' : RdmaRxQueuePair} (h : receiveUdp hw now frame rxQp = some (ack, q')) :
    UdpOutcome hw now frame (rxQp.getD .new) ack q' := by
  unfold receiveUdp receiverCheckSeq at h
  dsimp only at h
  by_cases hseq : frame.seq = (rxQp.getD .new).receiverNextExpectedSeq
  · simp only [hseq, if_true, UInt32.toUInt32_toInt32] at h
    by_cases hmilestone : (rxQp.getD .new).receiverNextExpectedSeq + frame.payloadSize ≥ hw.mAckInterval
    · simp only [hmilestone, if_true, Option.some.injEq, Prod.mk.injEq] at h
      obtain ⟨rfl, rfl⟩ := h
      exact .accepted hseq rfl rfl rfl (if_pos (.inl hmilestone)).symm
    · simp only [hmilestone, if_false] at h
      by_cases hchunk : hw.mChunk = 0
      · simp [hchunk] at h
      · simp only [hchunk, if_false] at h
        by_cases hmod : ((rxQp.getD .new).receiverNextExpectedSeq + frame.payloadSize) % hw.mChunk = 0
        · simp only [hmod, if_true, Option.some.injEq, Prod.mk.injEq] at h
          obtain ⟨rfl, rfl⟩ := h
          exact .accepted hseq rfl rfl rfl (if_pos (.inr hmod)).symm
        · simp only [hmod, if_false, Option.some.injEq, Prod.mk.injEq] at h
          obtain ⟨rfl, rfl⟩ := h
          exact .accepted hseq rfl rfl rfl (if_neg (not_or.mpr ⟨hmilestone, hmod⟩)).symm
  · simp only [hseq, if_false] at h
    by_cases hgt : frame.seq > (rxQp.getD .new).receiverNextExpectedSeq
    · simp only [hgt, if_true] at h
      by_cases hdue : now ≥ (rxQp.getD .new).mNackTimer ∨
          (rxQp.getD .new).mLastNack ≠ (rxQp.getD .new).receiverNextExpectedSeq
      · simp only [hdue, if_true] at h
        by_cases hback : hw.mBackto0 = true
        · simp only [hback, if_true] at h
          by_cases hchunk : hw.mChunk = 0
          · simp [hchunk] at h
          · simp only [hchunk, if_false, Option.some.injEq, Prod.mk.injEq] at h
            obtain ⟨rfl, rfl⟩ := h
            exact .nacked hgt hdue (if_pos hback).symm rfl rfl rfl
        · simp only [hback, Bool.false_eq_true, if_false, Option.some.injEq, Prod.mk.injEq] at h
          obtain ⟨rfl, rfl⟩ := h
          exact .nacked hgt hdue (if_neg hback).symm rfl rfl rfl
      · simp only [hdue, if_false, Option.some.injEq, Prod.mk.injEq] at h
        obtain ⟨rfl, rfl⟩ := h
        exact .ignored hseq (.inr hdue) rfl rfl rfl
    · simp only [hgt, if_false, Option.some.injEq, Prod.mk.injEq] at h
      obtain ⟨rfl, rfl⟩ := h
      refine .ignored hseq (.inl ?_) rfl rfl rfl
      rw [UInt32.lt_iff_toNat_lt]
      rw [gt_iff_lt, UInt32.lt_iff_toNat_lt] at hgt
      have hne : frame.seq.toNat ≠ (rxQp.getD .new).receiverNextExpectedSeq.toNat :=
        fun he => hseq (UInt32.toNat_inj.mp he)
      omega

theorem recvData_outcome {now : Int} {frame : DataFrame} {f f' : Flow} {ack : Option AckFrame}
    (h : f.recvData hw now frame = some (ack, f')) :
    ∃ q', f' = { f with rx := some q' } ∧ UdpOutcome hw now frame (f.rx.getD .new) ack q' := by
  simp only [Flow.recvData] at h
  split at h
  · cases h
  · rename_i ack₀ q' hudp
    simp only [Option.some.injEq, Prod.mk.injEq] at h
    obtain ⟨rfl, rfl⟩ := h
    exact ⟨q', rfl, receiveUdp_outcome hudp⟩

/-- A segment the sender sends: as much as the segment size and what is left, in 32 bits, allow. -/
theorem send_outcome {frame : DataFrame} {f f' : Flow} (h : f.send hw = some (frame, f')) :
    f.qp.sndNxt.toNat < f.qp.mSize.toNat ∧
    frame.seq = f.qp.sndNxt.toUInt32 ∧
    frame.payloadSize.toNat = min hw.mMtu.toNat ((f.qp.mSize.toNat - f.qp.sndNxt.toNat) % 2 ^ 32) ∧
    f'.qp.sndNxt.toNat = f.qp.sndNxt.toNat + frame.payloadSize.toNat ∧
    f' = { f with qp := { f.qp with sndNxt := f'.qp.sndNxt } } := by
  simp only [Flow.send] at h
  split at h
  · rename_i hleft
    simp only [Option.some.injEq, Prod.mk.injEq] at h
    obtain ⟨rfl, rfl⟩ := h
    have hbytes := f.qp.getBytesLeft_toNat
    have hsize := f.qp.mSize.toNat_lt
    rw [gt_iff_lt, UInt64.lt_iff_toNat_lt, hbytes, UInt64.toNat_zero] at hleft
    have hpayload : (getNxtPacket hw f.qp).1.payloadSize.toNat =
        min hw.mMtu.toNat ((f.qp.mSize.toNat - f.qp.sndNxt.toNat) % 2 ^ 32) := by
      have htrunc : f.qp.getBytesLeft.toUInt32.toNat = (f.qp.mSize.toNat - f.qp.sndNxt.toNat) % 2 ^ 32 := by
        rw [UInt64.toNat_toUInt32, hbytes]
      unfold getNxtPacket
      dsimp only
      split
      · rename_i hlt
        rw [UInt32.lt_iff_toNat_lt, htrunc] at hlt
        omega
      · rename_i hlt
        rw [UInt32.lt_iff_toNat_lt, htrunc] at hlt
        omega
    have hnxt : (getNxtPacket hw f.qp).2.sndNxt =
        f.qp.sndNxt + (getNxtPacket hw f.qp).1.payloadSize.toUInt64 := rfl
    refine ⟨by omega, rfl, hpayload, ?_, rfl⟩
    dsimp only
    rw [hnxt, UInt64.toNat_add, UInt32.toNat_toUInt64]
    omega
  · cases h

/-- What `ReceiveAck` can do to a flow. -/
inductive AckOutcome (hw : RdmaHwConfig) (ack : AckFrame) (f : Flow) : Flow → Prop where
  | ignored (hmap : f.inMap = false) : AckOutcome hw ack f f
  | disabled (hmap : f.inMap = true) (hinterval : hw.mAckInterval = 0) :
      AckOutcome hw ack f { f with qp := settle ack f.qp }
  | live (hmap : f.inMap = true) (hinterval : hw.mAckInterval ≠ 0)
      (hopen : max f.qp.sndUna.toNat (ackValue hw ack.seq).toNat < f.qp.mSize.toNat) :
      AckOutcome hw ack f { f with qp := settle ack (f.qp.acknowledge (ackValue hw ack.seq).toUInt64) }
  | done (hmap : f.inMap = true) (hinterval : hw.mAckInterval ≠ 0)
      (hdone : f.qp.mSize.toNat ≤ max f.qp.sndUna.toNat (ackValue hw ack.seq).toNat) :
      AckOutcome hw ack f
        ({ f with qp := settle ack (f.qp.acknowledge (ackValue hw ack.seq).toUInt64) }.complete)

theorem recvAck_outcome {ack : AckFrame} {f f' : Flow} (h : f.recvAck hw ack = some f') :
    AckOutcome hw ack f f' := by
  have hfinished : (f.qp.acknowledge (ackValue hw ack.seq).toUInt64).isFinished = true ↔
      f.qp.mSize.toNat ≤ max f.qp.sndUna.toNat (ackValue hw ack.seq).toNat := by
    rw [RdmaQueuePair.isFinished_iff, RdmaQueuePair.acknowledge_toNat,
      (RdmaQueuePair.acknowledge_sndNxt _ _).2, UInt32.toNat_toUInt64]
  simp only [Flow.recvAck, receiveAck] at h
  by_cases hmap : f.inMap = true
  · rw [if_pos hmap] at h
    by_cases hinterval : hw.mAckInterval = 0
    · simp only [hinterval, if_true, Option.some.injEq] at h
      subst h
      exact .disabled hmap hinterval
    · by_cases htrap : hw.mBackto0 = true ∧ hw.mChunk = 0
      · simp [hinterval, htrap] at h
      · simp only [hinterval, htrap, if_false] at h
        cases hdone : (f.qp.acknowledge (ackValue hw ack.seq).toUInt64).isFinished with
        | false =>
            simp only [hdone, Option.some.injEq] at h
            subst h
            apply AckOutcome.live hmap hinterval
            by_contra hcontra
            rw [hfinished.mpr (Nat.le_of_not_lt hcontra)] at hdone
            cases hdone
        | true =>
            simp only [hdone, Option.some.injEq] at h
            subst h
            exact .done hmap hinterval (hfinished.mp hdone)
  · rw [if_neg hmap, Option.some.injEq] at h
    subst h
    exact .ignored (by simpa using hmap)

@[simp] theorem settle_mSize (ack : AckFrame) (qp : RdmaQueuePair) : (settle ack qp).mSize = qp.mSize := by
  simp only [settle]
  split
  · rfl
  · rfl

@[simp] theorem settle_sndUna (ack : AckFrame) (qp : RdmaQueuePair) :
    (settle ack qp).sndUna = qp.sndUna := by
  simp only [settle]
  split
  · rfl
  · rfl

@[simp] theorem settle_mWin (ack : AckFrame) (qp : RdmaQueuePair) : (settle ack qp).mWin = qp.mWin := by
  simp only [settle]
  split
  · rfl
  · rfl

theorem settle_sndNxt (ack : AckFrame) (qp : RdmaQueuePair) :
    (settle ack qp).sndNxt = if ack.isNack then qp.sndUna else qp.sndNxt := by
  simp only [settle]
  split
  · rfl
  · rfl

/-- Rounding down to a chunk never gives a larger number. -/
theorem ackValue_le (hw : RdmaHwConfig) (seq : UInt32) : (ackValue hw seq).toNat ≤ seq.toNat := by
  simp only [ackValue]
  split
  · have hle := Nat.div_mul_le_self seq.toNat hw.mChunk.toNat
    have hlt := seq.toNat_lt
    rw [UInt32.toNat_mul, UInt32.toNat_div]
    exact (Nat.mod_le _ _).trans hle
  · exact Nat.le_refl _

private theorem toNat_add_of_le {a b : UInt32} {size : UInt64} (h : a.toNat + b.toNat ≤ size.toNat)
    (hsize : size.toNat < 2 ^ 32) : (a + b).toNat = a.toNat + b.toNat := by
  rw [UInt32.toNat_add, Nat.mod_eq_of_lt (by omega)]

/-- What an arriving segment does to the expected number. -/
theorem expected_after {size : UInt64} (hsize : size.toNat < 2 ^ 32) {now : Int} {frame : DataFrame}
    {q q' : RdmaRxQueuePair} {ack : Option AckFrame}
    (hframe : frame.seq.toNat + frame.payloadSize.toNat ≤ size.toNat)
    (h : UdpOutcome hw now frame q ack q') :
    (frame.seq = q.receiverNextExpectedSeq ∧
      q'.receiverNextExpectedSeq.toNat = frame.seq.toNat + frame.payloadSize.toNat) ∨
    (frame.seq ≠ q.receiverNextExpectedSeq ∧
      q'.receiverNextExpectedSeq.toNat ≤ q.receiverNextExpectedSeq.toNat) := by
  cases h with
  | accepted hseq hexpected htimer hlast hack =>
      refine .inl ⟨hseq, ?_⟩
      rw [hexpected, ← hseq]
      exact toNat_add_of_le hframe hsize
  | nacked hseq hdue hexpected htimer hlast hack =>
      refine .inr ⟨?_, ?_⟩
      · intro heq
        rw [heq] at hseq
        exact absurd hseq (by simp)
      · rw [hexpected]
        exact ackValue_le hw _
  | ignored hseq hquiet hexpected htimer hlast =>
      exact .inr ⟨hseq, by rw [hexpected]⟩

/-- A frame the receiver sends carries the number it expects from then on. -/
theorem UdpOutcome.ack_seq {now : Int} {frame : DataFrame} {q q' : RdmaRxQueuePair}
    {ack : Option AckFrame} (h : UdpOutcome hw now frame q ack q') :
    ∀ x ∈ ack.toList, x.seq = q'.receiverNextExpectedSeq := by
  intro x hx
  cases h with
  | accepted hseq hexpected htimer hlast hack =>
      rw [hack] at hx
      split at hx
      · obtain rfl := List.mem_singleton.mp hx
        rfl
      · cases hx
  | nacked hseq hdue hexpected htimer hlast hack =>
      rw [hack] at hx
      obtain rfl := List.mem_singleton.mp hx
      rfl
  | ignored hseq hquiet hexpected htimer hlast => cases hx

/-- The counters of the queue pair after an ACK. -/
theorem settle_acknowledge (hw : RdmaHwConfig) (qp : RdmaQueuePair) (frame : AckFrame) :
    (settle frame (qp.acknowledge (ackValue hw frame.seq).toUInt64)).sndUna.toNat =
      max qp.sndUna.toNat (ackValue hw frame.seq).toNat ∧
    (settle frame (qp.acknowledge (ackValue hw frame.seq).toUInt64)).sndNxt.toNat =
      (if frame.isNack then max qp.sndUna.toNat (ackValue hw frame.seq).toNat else qp.sndNxt.toNat) ∧
    (settle frame (qp.acknowledge (ackValue hw frame.seq).toUInt64)).mSize = qp.mSize := by
  have huna := qp.acknowledge_toNat (ackValue hw frame.seq).toUInt64
  rw [UInt32.toNat_toUInt64] at huna
  refine ⟨by rw [settle_sndUna, huna], ?_, ?_⟩
  · rw [settle_sndNxt]
    split
    · exact huna
    · rw [(qp.acknowledge_sndNxt _).1]
  · rw [settle_mSize, (qp.acknowledge_sndNxt _).2]

/-- An acknowledgement leaves the class of a queue pair alone. -/
theorem receiveAck_mPg {ack : AckFrame} {qp qp' : RdmaQueuePair} {finished : Bool}
    (h : receiveAck hw ack qp = some (qp', finished)) : qp'.mPg = qp.mPg := by
  have hsettle : ∀ qp : RdmaQueuePair, (settle ack qp).mPg = qp.mPg := by
    intro qp
    rw [settle]
    split
    · rfl
    · rfl
  have hacknowledge : ∀ word : UInt64, (qp.acknowledge word).mPg = qp.mPg := by
    intro word
    rw [RdmaQueuePair.acknowledge]
    split
    · rfl
    · rfl
  rw [receiveAck] at h
  split at h
  · obtain ⟨rfl, -⟩ := Prod.mk.inj (Option.some.inj h)
    exact hsettle qp
  · split at h
    · cases h
    · obtain ⟨rfl, -⟩ := Prod.mk.inj (Option.some.inj h)
      exact (hsettle _).trans (hacknowledge _)

/-! ### Steps that do not trap -/

theorem receiverCheckSeq_isSome (hchunk : hw.mChunk ≠ 0) (now : Int) (seq : UInt32) (q : RdmaRxQueuePair)
    (size : UInt32) : (receiverCheckSeq hw now seq q size).isSome = true := by
  unfold receiverCheckSeq
  dsimp only
  rw [if_neg hchunk, if_neg hchunk]
  repeat' split
  all_goals rfl

theorem recvData_isSome (hchunk : hw.mChunk ≠ 0) (now : Int) (frame : DataFrame) (f : Flow) :
    (f.recvData hw now frame).isSome = true := by
  have hudp : (receiveUdp hw now frame f.rx).isSome = true := by
    obtain ⟨result, hcheck⟩ := Option.isSome_iff_exists.mp (receiverCheckSeq_isSome hchunk now frame.seq
      { f.rx.getD .new with mMilestoneRx := hw.mAckInterval.toInt32 } frame.payloadSize)
    obtain ⟨check, q⟩ := result
    unfold receiveUdp
    dsimp only
    rw [hcheck]
    cases check with
    | ack => rfl
    | nack => rfl
    | duplicate => rfl
    | nackSuppressed => rfl
    | accepted => rfl
  obtain ⟨⟨ack, q⟩, hsome⟩ := Option.isSome_iff_exists.mp hudp
  rw [Flow.recvData, hsome]
  rfl

theorem recvAck_isSome (hchunk : hw.mChunk ≠ 0) (frame : AckFrame) (f : Flow) :
    (f.recvAck hw frame).isSome = true := by
  simp only [Flow.recvAck]
  by_cases hmap : f.inMap = true
  · rw [if_pos hmap]
    by_cases hinterval : hw.mAckInterval = 0
    · rw [receiveAck, if_pos hinterval]
      rfl
    · rw [receiveAck, if_neg hinterval, if_neg (fun h => hchunk h.2)]
      dsimp only
      cases (f.qp.acknowledge (ackValue hw frame.seq).toUInt64).isFinished with
      | false => rfl
      | true => rfl
  · rw [if_neg hmap]
    rfl

/-! ### A sample configuration -/

/-- An ACK for every segment, segments of 1000 bytes. -/
def everySegment : RdmaHwConfig where
  mMtu := 1000
  mChunk := 4000
  mAckInterval := 1
  mBackto0 := false
  mNackInterval := 500000

/-- A queue pair for `size` bytes without a window at 100 Gb/s. -/
def plainQp (size : UInt64) : RdmaQueuePair where
  mSize := size
  sndNxt := 0
  sndUna := 0
  mWin := 0
  mVarWin := false
  mRate := 100000000000
  mMaxRate := 100000000000
  mPg := 3
  mNextAvail := 0
  lastPktSize := 0

end Lcmp
