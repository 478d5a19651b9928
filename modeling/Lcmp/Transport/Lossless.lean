import Lcmp.Lib.Segments
import Lcmp.Transport.Fifo

/-!
# Completion over a lossless path

Nothing is dropped, so the receiver never sends a NACK and the sender never goes back. What decides
whether a flow completes is the acknowledgement of its last byte: the receiver acknowledges only from
`L2AckInterval` on or at a multiple of `L2ChunkSize`, and with `L2BackToZero` the sender rounds the
number it gets down to a chunk. The payload of a segment is computed in 32 bits, so a flow of `2 ^ 32`
bytes or more never gets past the remainder of its size.
-/

namespace Lcmp

open Segments

/-- Nothing is left to send and nothing is on its way. -/
structure Quiescent (s : FifoState) : Prop where
  sent : s.flow.qp.getBytesLeft = 0
  data : s.dataQ = []
  acks : s.ackQ = []

def Completed (s : FifoState) : Prop := s.flow.qp.isFinished = true ∧ 1 ≤ s.flow.completions

/-- The sizes whose last byte is acknowledged, and those that are never sent to the end. -/
def LastAcked (hw : RdmaHwConfig) (size : UInt64) : Prop :=
  2 ^ 32 ≤ size.toNat ∨
    if hw.mBackto0 then hw.mChunk.toNat ∣ size.toNat
    else hw.mAckInterval.toNat ≤ size.toNat ∨ hw.mChunk.toNat ∣ size.toNat

variable {hw : RdmaHwConfig} {size : UInt64}

/-! ### The acknowledgement of the last byte -/

/-- An accepted segment that ends at `seq` is acknowledged. -/
def AckDue (hw : RdmaHwConfig) (seq : UInt32) : Prop := hw.mAckInterval ≤ seq ∨ seq % hw.mChunk = 0

theorem ackDue_iff (seq : UInt32) :
    AckDue hw seq ↔ hw.mAckInterval.toNat ≤ seq.toNat ∨ hw.mChunk.toNat ∣ seq.toNat := by
  rw [AckDue, UInt32.le_iff_toNat_le, ← UInt32.toNat_inj, UInt32.toNat_mod, UInt32.toNat_zero,
    Nat.dvd_iff_mod_eq_zero]

theorem ackValue_eq_iff (seq : UInt32) :
    (ackValue hw seq).toNat = seq.toNat ↔ (hw.mBackto0 = true → hw.mChunk.toNat ∣ seq.toNat) := by
  unfold ackValue
  split
  · rename_i hback
    have hle := Nat.div_mul_le_self seq.toNat hw.mChunk.toNat
    have hlt := seq.toNat_lt
    rw [UInt32.toNat_mul, UInt32.toNat_div, Nat.mod_eq_of_lt (by omega)]
    constructor
    · intro heq _
      exact ⟨seq.toNat / hw.mChunk.toNat, by rw [Nat.mul_comm, heq]⟩
    · intro h
      exact Nat.div_mul_cancel (h hback)
  · rename_i hback
    exact iff_of_true rfl fun h => absurd h hback

/-- A flow that is sent to its end is in the good case when its last segment is acknowledged and the
number survives the rounding. -/
theorem lastAcked_iff {seq : UInt32} (hseq : seq.toNat = size.toNat) :
    LastAcked hw size ↔ AckDue hw seq ∧ (ackValue hw seq).toNat = size.toNat := by
  have hlt := seq.toNat_lt
  rw [ackDue_iff, ← hseq, ackValue_eq_iff, LastAcked, ← hseq]
  cases hback : hw.mBackto0 with
  | true =>
      rw [if_pos rfl]
      constructor
      · rintro (hbig | hdvd)
        · omega
        · exact ⟨.inr hdvd, fun _ => hdvd⟩
      · rintro ⟨-, hdvd⟩
        exact .inr (hdvd rfl)
  | false =>
      rw [if_neg (by decide)]
      constructor
      · rintro (hbig | hdue)
        · omega
        · exact ⟨hdue, fun h => absurd h (by decide)⟩
      · rintro ⟨hdue, -⟩
        exact .inr hdue

/-! ### Before and after completion -/

/-- The flow before `QpComplete`. All that was sent is either received or on its way, in order. -/
structure OpenFlow (hw : RdmaHwConfig) (size : UInt64) (s : FifoState) : Prop where
  inMap : s.flow.inMap = true
  mSize : s.flow.qp.mSize = size
  sndNxt : s.flow.qp.sndNxt.toNat ≤ size.toNat % 2 ^ 32
  sndUna : s.flow.qp.sndUna.toNat < size.toNat
  data : Contiguous s.flow.expected.toNat (s.dataQ.map DataFrame.segment) s.flow.qp.sndNxt.toNat
  filled : size.toNat < 2 ^ 32 → ∀ f ∈ s.dataQ, 0 < f.payloadSize.toNat
  acks : ∀ a ∈ s.ackQ, a.isNack = false ∧ a.seq.toNat ≤ s.flow.expected.toNat
  last : LastAcked hw size → s.flow.expected.toNat = size.toNat →
    ∃ a ∈ s.ackQ, a.seq.toNat = size.toNat
  short : ¬ LastAcked hw size → ∀ a ∈ s.ackQ, (ackValue hw a.seq).toNat < size.toNat

/-- The flow after `QpComplete`. -/
structure ClosedFlow (hw : RdmaHwConfig) (size : UInt64) (s : FifoState) : Prop where
  inMap : s.flow.inMap = false
  completions : 1 ≤ s.flow.completions
  sndUna : s.flow.qp.mSize.toNat ≤ s.flow.qp.sndUna.toNat
  sndNxt : s.flow.qp.mSize.toNat ≤ s.flow.qp.sndNxt.toNat
  dataQ : s.dataQ = []
  lastAcked : LastAcked hw size

theorem openFlow_start (lossy windowed : Bool) (qp : RdmaQueuePair) (hsize : 1 ≤ qp.mSize.toNat) :
    OpenFlow hw qp.mSize (fifoSystem hw lossy windowed qp).init where
  inMap := rfl
  mSize := rfl
  sndNxt := Nat.zero_le _
  sndUna := hsize
  data := rfl
  filled := by
    intro _ f hf
    cases hf
  acks := by
    intro a ha
    cases ha
  last := by
    intro _ hzero
    have hexpected : (fifoSystem hw lossy windowed qp).init.flow.expected.toNat = 0 := rfl
    omega
  short := by
    intro _ a ha
    cases ha

/-! ### One step -/

/-- What a segment of an open flow carries. -/
theorem OpenFlow.payload (hmtu : 1 ≤ hw.mMtu.toNat) {s : FifoState} (h : OpenFlow hw size s)
    {frame : DataFrame} {flow : Flow} (hsend : s.flow.send hw = some (frame, flow)) :
    frame.seq.toNat = s.flow.qp.sndNxt.toNat ∧
      flow.qp.sndNxt.toNat = s.flow.qp.sndNxt.toNat + frame.payloadSize.toNat ∧
      flow.qp.sndNxt.toNat ≤ size.toNat % 2 ^ 32 ∧
      (size.toNat < 2 ^ 32 → 0 < frame.payloadSize.toNat) := by
  obtain ⟨hleft, hseq, hpayload, hnxt, -⟩ := send_outcome hsend
  have hbound := h.sndNxt
  rw [h.mSize] at hleft hpayload
  refine ⟨?_, hnxt, by omega, by omega⟩
  rw [hseq, UInt64.toNat_toUInt32, Nat.mod_eq_of_lt (by omega)]

theorem openFlow_send {lossy windowed : Bool} (hmtu : 1 ≤ hw.mMtu.toNat) {s t : FifoState}
    (h : OpenFlow hw size s) (hnext : fifoNext hw lossy windowed s .send = some t) : OpenFlow hw size t := by
  obtain ⟨frame, flow, hsend, rfl⟩ := fifoNext_send hnext
  obtain ⟨hseq, hnxt, hbound, hpos⟩ := h.payload hmtu hsend
  obtain ⟨-, -, -, -, hflow⟩ := send_outcome hsend
  have hexpected : flow.expected = s.flow.expected := by rw [hflow]; rfl
  exact {
    inMap := by
      rw [hflow]
      exact h.inMap
    mSize := by
      rw [hflow]
      exact h.mSize
    sndNxt := hbound
    sndUna := by
      rw [hflow]
      exact h.sndUna
    data := by
      dsimp only
      rw [hexpected, hnxt, List.map_append, ← hseq]
      have hdata := h.data
      rw [← hseq] at hdata
      exact hdata.snoc _
    filled := by
      intro hsmall f hf
      rcases List.mem_append.mp hf with hf | hf
      · exact h.filled hsmall f hf
      · obtain rfl := List.mem_singleton.mp hf
        exact hpos hsmall
    acks := by
      dsimp only
      rw [hexpected]
      exact h.acks
    last := by
      dsimp only
      rw [hexpected]
      exact h.last
    short := h.short }

/-- A segment that arrives is the expected one. -/
theorem OpenFlow.received {s : FifoState} (h : OpenFlow hw size s) {frame : DataFrame}
    {rest : List DataFrame} (hqueue : s.dataQ = frame :: rest) {now : Int} {ack : Option AckFrame}
    {q' : RdmaRxQueuePair} (houtcome : UdpOutcome hw now frame (s.flow.rx.getD .new) ack q') :
    q'.receiverNextExpectedSeq.toNat = s.flow.expected.toNat + frame.payloadSize.toNat ∧
      Contiguous q'.receiverNextExpectedSeq.toNat (rest.map DataFrame.segment) s.flow.qp.sndNxt.toNat ∧
      ∀ a ∈ ack.toList, a = ⟨false, q'.receiverNextExpectedSeq⟩ ∧ AckDue hw q'.receiverNextExpectedSeq := by
  have hdata := h.data
  rw [hqueue, List.map_cons] at hdata
  obtain ⟨hhead, hrest⟩ := hdata
  have hend := hrest.le
  have hbound := h.sndNxt
  have hold : (s.flow.rx.getD .new).receiverNextExpectedSeq = s.flow.expected := rfl
  dsimp only [DataFrame.segment] at hhead hrest hend
  cases houtcome with
  | accepted hseq hexpected htimer hlast hack =>
      have hnat : q'.receiverNextExpectedSeq.toNat = s.flow.expected.toNat + frame.payloadSize.toNat := by
        rw [hexpected, hold, UInt32.toNat_add, Nat.mod_eq_of_lt (by omega)]
      refine ⟨hnat, by rw [hnat]; exact hrest, ?_⟩
      intro a ha
      rw [hack] at ha
      split at ha
      · rename_i hdue
        exact ⟨List.mem_singleton.mp ha, hdue⟩
      · cases ha
  | nacked hseq hdue hexpected htimer hlast hack =>
      rw [hold, UInt32.lt_iff_toNat_lt] at hseq
      omega
  | ignored hseq hquiet hexpected htimer hlast =>
      rw [hold] at hseq
      exact absurd (UInt32.toNat_inj.mp hhead) hseq

/-- An accepted segment whose end is due is acknowledged. -/
theorem UdpOutcome.ack_of_due {now : Int} {frame : DataFrame} {q q' : RdmaRxQueuePair}
    {ack : Option AckFrame} (h : UdpOutcome hw now frame q ack q')
    (hseq : frame.seq = q.receiverNextExpectedSeq) (hdue : AckDue hw q'.receiverNextExpectedSeq) :
    ack = some ⟨false, q'.receiverNextExpectedSeq⟩ := by
  cases h with
  | accepted _ _ _ _ hack =>
      rw [hack]
      exact if_pos hdue
  | nacked hlater =>
      rw [hseq] at hlater
      exact absurd hlater (by simp)
  | ignored hne => exact absurd hseq hne

theorem openFlow_data {lossy windowed : Bool} {s t : FifoState} {now : Int} (h : OpenFlow hw size s)
    (hnext : fifoNext hw lossy windowed s (.data now) = some t) : OpenFlow hw size t := by
  obtain ⟨frame, rest, ack, q', hqueue, -, houtcome, rfl⟩ := fifoNext_data hnext
  obtain ⟨hnat, hcontig, hack⟩ := h.received hqueue houtcome
  have hnew : Flow.expected { s.flow with rx := some q' } = q'.receiverNextExpectedSeq := rfl
  exact {
    inMap := h.inMap
    mSize := h.mSize
    sndNxt := h.sndNxt
    sndUna := h.sndUna
    data := hcontig
    filled := by
      intro hsmall f hf
      exact h.filled hsmall f (by rw [hqueue]; exact List.mem_cons_of_mem _ hf)
    acks := by
      intro a ha
      dsimp only at ha ⊢
      rw [hnew]
      rcases List.mem_append.mp ha with ha | ha
      · obtain ⟨hplain, hle⟩ := h.acks a ha
        exact ⟨hplain, by omega⟩
      · obtain ⟨rfl, -⟩ := hack a ha
        exact ⟨rfl, Nat.le_refl _⟩
    last := by
      intro hlast hend
      dsimp only at hend ⊢
      rw [hnew] at hend
      have hdue := ((lastAcked_iff hend).mp hlast).1
      have hseq : frame.seq = s.flow.expected := by
        have hdata := h.data
        rw [hqueue, List.map_cons] at hdata
        exact UInt32.toNat_inj.mp hdata.1
      refine ⟨⟨false, q'.receiverNextExpectedSeq⟩, ?_, hend⟩
      rw [houtcome.ack_of_due hseq hdue]
      exact List.mem_append_right _ List.mem_cons_self
    short := by
      intro hshort a ha
      dsimp only at ha
      rcases List.mem_append.mp ha with ha | ha
      · exact h.short hshort a ha
      · obtain ⟨rfl, hdue⟩ := hack a ha
        have hvalue := ackValue_le hw q'.receiverNextExpectedSeq
        have hend := hcontig.le
        have hbound := h.sndNxt
        have hmod := Nat.mod_le size.toNat (2 ^ 32)
        have hne : (ackValue hw q'.receiverNextExpectedSeq).toNat ≠ size.toNat := by
          intro heq
          exact hshort ((lastAcked_iff (by omega)).mpr ⟨hdue, heq⟩)
        dsimp only
        omega }

/-- An ACK that does not reach the end of the flow. -/
private theorem openFlow_live {s : FifoState} {frame : AckFrame} {rest : List AckFrame}
    (h : OpenFlow hw size s) (hqueue : s.ackQ = frame :: rest)
    (hopen : max s.flow.qp.sndUna.toNat (ackValue hw frame.seq).toNat < size.toNat) :
    OpenFlow hw size { s with
      flow := { s.flow with
        qp := settle frame (s.flow.qp.acknowledge (ackValue hw frame.seq).toUInt64) }
      ackQ := rest } := by
  obtain ⟨huna, hnxt, hmSize⟩ := settle_acknowledge hw s.flow.qp frame
  have hplain := (h.acks frame (by rw [hqueue]; exact List.mem_cons_self)).1
  have hrest : ∀ a ∈ rest, a ∈ s.ackQ := by
    intro a ha
    rw [hqueue]
    exact List.mem_cons_of_mem _ ha
  rw [hplain, if_neg (by decide)] at hnxt
  exact {
    inMap := h.inMap
    mSize := hmSize.trans h.mSize
    sndNxt := by
      dsimp only
      rw [hnxt]
      exact h.sndNxt
    sndUna := by
      dsimp only
      rw [huna]
      exact hopen
    data := by
      show Contiguous s.flow.expected.toNat _ _
      dsimp only
      rw [hnxt]
      exact h.data
    filled := h.filled
    acks := fun a ha => h.acks a (hrest a ha)
    last := by
      intro hlast hend
      obtain ⟨a, ha, hnum⟩ := h.last hlast hend
      rw [hqueue] at ha
      rcases List.mem_cons.mp ha with rfl | ha
      · -- the ACK of the last byte would have completed the flow
        have hfull := ((lastAcked_iff hnum).mp hlast).2
        omega
      · exact ⟨a, ha, hnum⟩
    short := fun hshort a ha => h.short hshort a (hrest a ha) }

/-- An ACK that reaches the end of the flow. All of it was received, so nothing is on its way. -/
private theorem closedFlow_done {s : FifoState} {frame : AckFrame} {rest : List AckFrame}
    (h : OpenFlow hw size s) (hqueue : s.ackQ = frame :: rest)
    (hdone : size.toNat ≤ max s.flow.qp.sndUna.toNat (ackValue hw frame.seq).toNat) :
    ClosedFlow hw size { s with
      flow := { s.flow with
        qp := settle frame (s.flow.qp.acknowledge (ackValue hw frame.seq).toUInt64) }.complete
      ackQ := rest } := by
  obtain ⟨huna, hnxt, hmSize⟩ := settle_acknowledge hw s.flow.qp frame
  have hfront : frame ∈ s.ackQ := by rw [hqueue]; exact List.mem_cons_self
  obtain ⟨hplain, hseq⟩ := h.acks frame hfront
  rw [hplain, if_neg (by decide)] at hnxt
  have hvalue := ackValue_le hw frame.seq
  have hopen := h.sndUna
  have hend := h.data.le
  have hbound := h.sndNxt
  have hmod := Nat.mod_le size.toNat (2 ^ 32)
  exact {
    inMap := rfl
    completions := Nat.le_add_left 1 _
    sndUna := by
      show (settle _ _).mSize.toNat ≤ (settle _ _).sndUna.toNat
      rw [hmSize, huna, h.mSize]
      exact hdone
    sndNxt := by
      show (settle _ _).mSize.toNat ≤ (settle _ _).sndNxt.toNat
      rw [hmSize, hnxt, h.mSize]
      omega
    dataQ := by
      have hdata := h.data
      rw [show s.flow.qp.sndNxt.toNat = s.flow.expected.toNat by omega] at hdata
      refine List.map_eq_nil_iff.mp (hdata.eq_nil ?_)
      intro x hx
      obtain ⟨f, hf, rfl⟩ := List.mem_map.mp hx
      exact h.filled (by omega) f hf
    lastAcked := by
      by_contra hshort
      have hlt := h.short hshort frame hfront
      omega }

theorem openFlow_ack {lossy windowed : Bool} (hinterval : hw.mAckInterval ≠ 0) {s t : FifoState}
    (h : OpenFlow hw size s) (hnext : fifoNext hw lossy windowed s .ack = some t) :
    OpenFlow hw size t ∨ ClosedFlow hw size t := by
  obtain ⟨frame, rest, flow, hqueue, houtcome, rfl⟩ := fifoNext_ack hnext
  cases houtcome with
  | ignored hmap =>
      rw [h.inMap] at hmap
      cases hmap
  | disabled hmap hzero => exact absurd hzero hinterval
  | live hmap hne hopen =>
      rw [h.mSize] at hopen
      exact .inl (openFlow_live h hqueue hopen)
  | done hmap hne hdone =>
      rw [h.mSize] at hdone
      exact .inr (closedFlow_done h hqueue hdone)

theorem closedFlow_step {s t : FifoState} {event : FifoEvent} (h : ClosedFlow hw size s)
    (hnext : fifoNext hw false windowed s event = some t) : ClosedFlow hw size t := by
  cases event with
  | send =>
      obtain ⟨frame, flow, hsend, -⟩ := fifoNext_send hnext
      have hleft := (send_outcome hsend).1
      have hsent := h.sndNxt
      omega
  | data now =>
      obtain ⟨frame, rest, ack, q', hqueue, -⟩ := fifoNext_data hnext
      rw [h.dataQ] at hqueue
      cases hqueue
  | ack =>
      obtain ⟨frame, rest, flow, -, houtcome, rfl⟩ := fifoNext_ack hnext
      cases houtcome with
      | ignored hmap => exact ⟨h.inMap, h.completions, h.sndUna, h.sndNxt, h.dataQ, h.lastAcked⟩
      | disabled hmap hzero =>
          rw [h.inMap] at hmap
          cases hmap
      | live hmap hne hopen =>
          rw [h.inMap] at hmap
          cases hmap
      | done hmap hne hdone =>
          rw [h.inMap] at hmap
          cases hmap
  | drop i =>
      obtain ⟨hlossy, -, -⟩ := fifoNext_drop hnext
      cases hlossy

theorem lossless_step (hmtu : 1 ≤ hw.mMtu.toNat) (hinterval : hw.mAckInterval ≠ 0) (s : FifoState)
    (event : FifoEvent) (t : FifoState) (h : OpenFlow hw size s ∨ ClosedFlow hw size s)
    (hnext : fifoNext hw false windowed s event = some t) : OpenFlow hw size t ∨ ClosedFlow hw size t := by
  rcases h with hopen | hclosed
  · cases event with
    | send => exact .inl (openFlow_send hmtu hopen hnext)
    | data now => exact .inl (openFlow_data hopen hnext)
    | ack => exact openFlow_ack hinterval hopen hnext
    | drop i =>
        obtain ⟨hlossy, -, -⟩ := fifoNext_drop hnext
        cases hlossy
  · exact .inr (closedFlow_step hclosed hnext)

/-! ### Progress -/

/-- A flow without a window keeps none. -/
theorem noWindow_step {lossy windowed : Bool} (s : FifoState) (event : FifoEvent) (t : FifoState)
    (h : s.flow.qp.mWin = 0) (hnext : fifoNext hw lossy windowed s event = some t) :
    t.flow.qp.mWin = 0 := by
  cases event with
  | send =>
      obtain ⟨frame, flow, hsend, rfl⟩ := fifoNext_send hnext
      obtain ⟨-, -, -, -, hflow⟩ := send_outcome hsend
      dsimp only
      rw [hflow]
      exact h
  | data now =>
      obtain ⟨frame, rest, ack, q', -, -, -, rfl⟩ := fifoNext_data hnext
      exact h
  | ack =>
      obtain ⟨frame, rest, flow, -, houtcome, rfl⟩ := fifoNext_ack hnext
      have hsettle : (settle frame (s.flow.qp.acknowledge (ackValue hw frame.seq).toUInt64)).mWin = 0 := by
        rw [settle_mWin, RdmaQueuePair.acknowledge_mWin, h]
      cases houtcome with
      | ignored hmap => exact h
      | disabled hmap hzero =>
          dsimp only
          rw [settle_mWin, h]
      | live hmap hne hopen => exact hsettle
      | done hmap hne hdone => exact hsettle
  | drop i =>
      obtain ⟨-, -, rfl⟩ := fifoNext_drop hnext
      exact h

/-- No ACK moves the sender. -/
theorem OpenFlow.ack_sndNxt {s : FifoState} (h : OpenFlow hw size s) {frame : AckFrame} {flow : Flow}
    (hmem : frame ∈ s.ackQ) (houtcome : AckOutcome hw frame s.flow flow) :
    flow.qp.sndNxt.toNat = s.flow.qp.sndNxt.toNat := by
  obtain ⟨-, hnxt, -⟩ := settle_acknowledge hw s.flow.qp frame
  have hplain := (h.acks frame hmem).1
  rw [hplain, if_neg (by decide)] at hnxt
  cases houtcome with
  | ignored hmap => rfl
  | disabled hmap hzero =>
      dsimp only
      rw [settle_sndNxt, hplain, if_neg (by decide)]
  | live hmap hne hopen => exact hnxt
  | done hmap hne hdone => exact hnxt

/-- The frames still to be sent, received and acknowledged, weighed so that each step counts down. -/
def workLeft (s : FifoState) : Nat :=
  3 * (s.flow.qp.mSize.toNat - s.flow.qp.sndNxt.toNat) + 2 * s.dataQ.length + s.ackQ.length

theorem send_workLeft_lt (hmtu : 1 ≤ hw.mMtu.toNat) (hsmall : size.toNat < 2 ^ 32) {windowed : Bool} {s : FifoState}
    (h : OpenFlow hw size s) (hwin : s.flow.qp.mWin = 0) (hleft : s.flow.qp.getBytesLeft > 0) :
    ∃ t, fifoNext hw false windowed s .send = some t ∧ workLeft t < workLeft s := by
  obtain ⟨t, hnext⟩ : ∃ t, fifoNext hw false windowed s .send = some t := by
    have hfree : ¬ (windowed = true ∧ s.flow.qp.isWinBound = true) := by
      rw [RdmaQueuePair.isWinBound_of_noWindow hwin]
      simp
    simp only [fifoNext, Flow.send, if_pos hleft, if_neg hfree]
    exact ⟨_, rfl⟩
  refine ⟨t, hnext, ?_⟩
  obtain ⟨frame, flow, hsend, rfl⟩ := fifoNext_send hnext
  obtain ⟨-, hnxt, hbound, hpos⟩ := h.payload hmtu hsend
  obtain ⟨hlt, -, -, -, hflow⟩ := send_outcome hsend
  have hmSize : flow.qp.mSize = s.flow.qp.mSize := by rw [hflow]
  have hpos' := hpos hsmall
  dsimp only [workLeft]
  rw [hmSize, List.length_append, List.length_singleton]
  omega

/-- Whatever the receiver makes of a frame, it sends at most one back. -/
theorem data_workLeft_lt (hchunk : hw.mChunk ≠ 0) {windowed : Bool} {s : FifoState} {frame : DataFrame}
    {rest : List DataFrame} (hqueue : s.dataQ = frame :: rest) :
    ∃ t, fifoNext hw false windowed s (.data s.clock) = some t ∧ workLeft t < workLeft s := by
  obtain ⟨⟨ack, flow⟩, hrecv⟩ := Option.isSome_iff_exists.mp (recvData_isSome hchunk s.clock frame s.flow)
  have hnext : fifoNext hw false windowed s (.data s.clock) = some {
      flow := flow
      clock := s.clock
      dataQ := rest
      ackQ := s.ackQ ++ ack.toList
      nacks := recordNack s.nacks ack } := by
    simp only [fifoNext, hqueue, if_pos (Int.le_refl _), hrecv]
  refine ⟨_, hnext, ?_⟩
  obtain ⟨q', rfl, -⟩ := recvData_outcome hrecv
  have hack : ack.toList.length ≤ 1 := by
    cases ack with
    | none => exact Nat.zero_le _
    | some a => exact Nat.le_refl _
  dsimp only [workLeft]
  rw [hqueue, List.length_append, List.length_cons]
  omega

theorem ack_workLeft_lt (hinterval : hw.mAckInterval ≠ 0) (hchunk : hw.mChunk ≠ 0) (hshort : ¬ LastAcked hw size)
    {windowed : Bool} {s : FifoState} (h : OpenFlow hw size s) {frame : AckFrame} {rest : List AckFrame}
    (hqueue : s.ackQ = frame :: rest) :
    ∃ t, fifoNext hw false windowed s .ack = some t ∧ workLeft t < workLeft s := by
  obtain ⟨flow, hrecv⟩ := Option.isSome_iff_exists.mp (recvAck_isSome hchunk frame s.flow)
  have hnext : fifoNext hw false windowed s .ack = some { s with flow := flow, ackQ := rest } := by
    simp only [fifoNext, hqueue, hrecv]
  refine ⟨_, hnext, ?_⟩
  have hopen : OpenFlow hw size { s with flow := flow, ackQ := rest } := by
    rcases openFlow_ack hinterval h hnext with hopen | hclosed
    · exact hopen
    · exact absurd hclosed.lastAcked hshort
  have hsame := h.ack_sndNxt (by rw [hqueue]; exact List.mem_cons_self) (recvAck_outcome hrecv)
  dsimp only [workLeft]
  rw [hqueue, List.length_cons, hsame, hopen.mSize, h.mSize]
  omega

/-- A flow that can never complete still comes to rest. -/
theorem workLeft_lt (hmtu : 1 ≤ hw.mMtu.toNat) (hinterval : hw.mAckInterval ≠ 0)
    (hchunk : hw.mChunk ≠ 0) (hshort : ¬ LastAcked hw size) {windowed : Bool} {s : FifoState}
    (h : OpenFlow hw size s) (hwin : s.flow.qp.mWin = 0) (hbusy : ¬ Quiescent s) :
    ∃ event t, fifoNext hw false windowed s event = some t ∧ workLeft t < workLeft s := by
  have hsmall : size.toNat < 2 ^ 32 := Nat.lt_of_not_le fun hbig => hshort (.inl hbig)
  by_cases hleft : s.flow.qp.getBytesLeft > 0
  · exact ⟨.send, send_workLeft_lt hmtu hsmall h hwin hleft⟩
  · cases hdataQ : s.dataQ with
    | cons frame rest => exact ⟨.data s.clock, data_workLeft_lt hchunk hdataQ⟩
    | nil =>
        cases hackQ : s.ackQ with
        | nil =>
            refine absurd ⟨?_, hdataQ, hackQ⟩ hbusy
            rw [gt_iff_lt, UInt64.lt_iff_toNat_lt, UInt64.toNat_zero] at hleft
            exact UInt64.toNat_inj.mp (by rw [UInt64.toNat_zero]; omega)
        | cons frame rest => exact ⟨.ack, ack_workLeft_lt hinterval hchunk hshort h hackQ⟩

/-- Over a lossless path, every flow that has been sent to its end and has nothing on its way is
finished and completed, exactly when the last byte of a flow of its size is acknowledged. -/
theorem lossless_completes_iff (hw : RdmaHwConfig) (hmtu : 1 ≤ hw.mMtu.toNat)
    (hinterval : 1 ≤ hw.mAckInterval.toNat) (hchunk : 1 ≤ hw.mChunk.toNat) (windowed : Bool)
    (size : UInt64) (hsize : 1 ≤ size.toNat) :
    (∀ qp : RdmaQueuePair, qp.mSize = size → ∀ s, (fifoSystem hw false windowed qp).Reachable s →
      Quiescent s → Completed s) ↔ LastAcked hw size := by
  have hintervalNe : hw.mAckInterval ≠ 0 := by
    intro hzero
    rw [hzero] at hinterval
    exact absurd hinterval (by decide)
  have hchunkNe : hw.mChunk ≠ 0 := by
    intro hzero
    rw [hzero] at hchunk
    exact absurd hchunk (by decide)
  have hinv : ∀ qp : RdmaQueuePair, qp.mSize = size → ∀ s,
      (fifoSystem hw false windowed qp).Reachable s → OpenFlow hw size s ∨ ClosedFlow hw size s := by
    rintro qp rfl s hreach
    exact hreach.invariant (.inl (openFlow_start false windowed qp hsize))
      (lossless_step hmtu hintervalNe)
  constructor
  · -- a flow without a window comes to rest, and it is still open then
    intro hall
    by_contra hshort
    have hopen : ∀ s, (fifoSystem hw false windowed (plainQp size)).Reachable s → OpenFlow hw size s := by
      intro s hreach
      rcases hinv (plainQp size) rfl s hreach with hopen | hclosed
      · exact hopen
      · exact absurd hclosed.lastAcked hshort
    have hwin : ∀ s, (fifoSystem hw false windowed (plainQp size)).Reachable s → s.flow.qp.mWin = 0 := by
      intro s hreach
      exact hreach.invariant (P := fun s => s.flow.qp.mWin = 0) rfl noWindow_step
    obtain ⟨s, hreach, hquiet⟩ := System.exists_reachable_of_measure workLeft fun s hreach hbusy =>
      workLeft_lt hmtu hintervalNe hchunkNe hshort (hopen s hreach) (hwin s hreach) hbusy
    have hfinished := s.flow.qp.isFinished_iff.mp (hall (plainQp size) rfl s hreach hquiet).1
    have huna := (hopen s hreach).sndUna
    rw [(hopen s hreach).mSize] at hfinished
    omega
  · intro hlast qp hqp s hreach hquiet
    rcases hinv qp hqp s hreach with hopen | hclosed
    · -- all bytes are sent and received, so the last ACK would still be on its way
      have hbytes := s.flow.qp.getBytesLeft_toNat
      have hdata := hopen.data
      have hbound := hopen.sndNxt
      have hmod := Nat.mod_le size.toNat (2 ^ 32)
      rw [hquiet.sent, hopen.mSize, UInt64.toNat_zero] at hbytes
      rw [hquiet.data] at hdata
      have hend : s.flow.expected.toNat = s.flow.qp.sndNxt.toNat := hdata
      obtain ⟨a, ha, -⟩ := hopen.last hlast (by omega)
      rw [hquiet.acks] at ha
      cases ha
    · exact ⟨s.flow.qp.isFinished_iff.mpr hclosed.sndUna, hclosed.completions⟩

/-- With an ACK for every segment a flow of three segments completes. -/
theorem lossless_completes_everySegment :
    ∃ s, (fifoSystem everySegment false true (plainQp 2500)).Reachable s ∧ Quiescent s ∧ Completed s := by
  have hreach : (fifoSystem everySegment false true (plainQp 2500)).Reachable _ :=
    System.reachable_of_exec [.send, .send, .data 1000, .send, .ack, .data 2000, .data 3000, .ack, .ack] rfl
  refine ⟨_, hreach, ⟨rfl, rfl, rfl⟩, ?_⟩
  exact (lossless_completes_iff everySegment (by decide) (by decide) (by decide) true 2500 (by decide)).mpr
    (.inr (.inl (by decide))) (plainQp 2500) rfl _ hreach ⟨rfl, rfl, rfl⟩

/-- An ACK is due only from 4000 bytes on or at a multiple of 4000. -/
def sparseAcks : RdmaHwConfig := { everySegment with mAckInterval := 4000 }

/-- A flow of 1000 bytes comes to rest with its only segment received and never acknowledged. -/
theorem not_completed_sparseAcks :
    ∃ s, (fifoSystem sparseAcks false true (plainQp 1000)).Reachable s ∧ Quiescent s ∧
      s.flow.expected = 1000 ∧ s.flow.qp.sndUna = 0 ∧ ¬ Completed s := by
  have hreach : (fifoSystem sparseAcks false true (plainQp 1000)).Reachable _ :=
    System.reachable_of_exec [.send, .data 1000] rfl
  refine ⟨_, hreach, ⟨rfl, rfl, rfl⟩, rfl, rfl, ?_⟩
  intro hcompleted
  exact absurd hcompleted.1 (by decide)

end Lcmp
