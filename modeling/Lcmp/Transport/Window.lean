import Lcmp.Transport.Fifo

/-!
# The sender's window

`snd_una ≤ snd_nxt` is what makes `GetOnTheFly` the number of bytes in flight. A NACK moves `snd_nxt`
back to `snd_una`, so an acknowledgement that was sent before the sender went back can overtake it.
That needs a NACK that is repeated: the second one rolls the sender back behind what the
retransmission after the first one got acknowledged.
-/

namespace Lcmp

open Segments

/-- The window law of a queue pair. -/
def WindowSound (qp : RdmaQueuePair) : Prop :=
  qp.sndUna.toNat ≤ qp.sndNxt.toNat ∧
  (qp.getOnTheFly.toNat : Int) = qp.sndNxt.toNat - qp.sndUna.toNat ∧
  (qp.isWinBound = true → 0 < qp.getWin.toNat ∧
    (qp.getWin.toNat : Int) ≤ qp.sndNxt.toNat - qp.sndUna.toNat)

theorem windowSound_iff (qp : RdmaQueuePair) : WindowSound qp ↔ qp.sndUna.toNat ≤ qp.sndNxt.toNat := by
  constructor
  · intro h
    exact h.1
  · intro h
    have hfly := (qp.getOnTheFly_toNat_iff).mpr h
    refine ⟨h, hfly, ?_⟩
    intro hbound
    rw [RdmaQueuePair.isWinBound, Bool.and_eq_true, bne_iff_ne, decide_eq_true_eq, ge_iff_le,
      UInt64.le_iff_toNat_le] at hbound
    obtain ⟨hne, hle⟩ := hbound
    have hpos : qp.getWin.toNat ≠ 0 := fun hzero => hne (UInt64.toNat_inj.mp hzero)
    exact ⟨by omega, by omega⟩

variable (hw : RdmaHwConfig)

/-- The acknowledgement that arrives is not ahead of the sender: if it is a plain ACK for a flow that
is not complete, its number is at most `snd_nxt`. -/
def AckBehind (s : FifoState) : FifoEvent → Prop
  | .ack => ∀ frame rest, s.ackQ = frame :: rest → s.flow.inMap = true → hw.mAckInterval ≠ 0 →
      frame.isNack = false → (ackValue hw frame.seq).toNat ≤ s.flow.qp.sndNxt.toNat
  | _ => True

/-- The segment that arrives does not make the receiver repeat a NACK: if it is ahead of a number that
was NACKed before, the NACK timer is still running. -/
def NoRepeatedNack (s : FifoState) : FifoEvent → Prop
  | .data now => ∀ frame rest, s.dataQ = frame :: rest → s.flow.inMap = true →
      s.flow.expected < frame.seq → s.flow.expected ∈ s.nacks →
      now < (s.flow.rx.getD .new).mNackTimer
  | _ => True

variable {hw} {lossy windowed : Bool}

/-! ### One step -/

theorem window_step (s : FifoState) (event : FifoEvent) (t : FifoState)
    (h : s.flow.qp.sndUna.toNat ≤ s.flow.qp.sndNxt.toNat) (hnext : fifoNext hw lossy windowed s event = some t) :
    t.flow.qp.sndUna.toNat ≤ t.flow.qp.sndNxt.toNat ↔ AckBehind hw s event := by
  cases event with
  | send =>
      obtain ⟨frame, flow, hsend, rfl⟩ := fifoNext_send hnext
      obtain ⟨-, -, -, hnxt, hflow⟩ := send_outcome hsend
      have huna : flow.qp.sndUna = s.flow.qp.sndUna := by rw [hflow]
      refine iff_of_true ?_ trivial
      dsimp only
      rw [huna]
      omega
  | data now =>
      obtain ⟨frame, rest, ack, q', -, -, -, rfl⟩ := fifoNext_data hnext
      exact iff_of_true h trivial
  | drop i =>
      obtain ⟨-, -, rfl⟩ := fifoNext_drop hnext
      exact iff_of_true h trivial
  | ack =>
      obtain ⟨frame, rest, flow, hqueue, houtcome, rfl⟩ := fifoNext_ack hnext
      obtain ⟨huna, hnxt, -⟩ := settle_acknowledge hw s.flow.qp frame
      -- with the queue pair found, the law after the step is a bound on the acknowledged number
      have hlive : s.flow.inMap = true → hw.mAckInterval ≠ 0 →
          ((settle frame (s.flow.qp.acknowledge (ackValue hw frame.seq).toUInt64)).sndUna.toNat ≤
            (settle frame (s.flow.qp.acknowledge (ackValue hw frame.seq).toUInt64)).sndNxt.toNat ↔
            AckBehind hw s .ack) := by
        intro hmap hinterval
        rw [huna, hnxt]
        constructor
        · intro hle frame' rest' hqueue' _ _ hplain
          obtain ⟨rfl, -⟩ := List.cons.inj (hqueue.symm.trans hqueue')
          rw [if_neg (by rw [hplain]; decide)] at hle
          omega
        · intro hbehind
          split
          · exact Nat.le_refl _
          · rename_i hplain
            have hvalue := hbehind frame rest hqueue hmap hinterval (by simpa using hplain)
            omega
      cases houtcome with
      | ignored hmap =>
          apply iff_of_true h
          intro _ _ _ hfound
          rw [hmap] at hfound
          cases hfound
      | disabled hmap hinterval =>
          apply iff_of_true
          · dsimp only
            rw [settle_sndUna, settle_sndNxt]
            split
            · exact Nat.le_refl _
            · exact h
          · intro _ _ _ _ hne
            exact absurd hinterval hne
      | live hmap hinterval hopen => exact hlive hmap hinterval
      | done hmap hinterval hdone => exact hlive hmap hinterval

/-! ### Runs without a repeated NACK -/

/-- The expected number is the one the receiver NACKed last. -/
def Stuck (s : FifoState) : Prop :=
  s.flow.expected ∈ s.nacks ∧ (s.flow.rx.getD .new).mLastNack = s.flow.expected

/-- No NACK is on its way. The segments on their way are what is left of the round before the last
NACK, all of it ahead of the expected number, and then the present round in ascending order. -/
structure Settled (s : FifoState) : Prop where
  acks : ∀ a ∈ s.ackQ, a.isNack = false ∧ a.seq.toNat ≤ s.flow.expected.toNat
  data : ∃ old cur, s.dataQ = old ++ cur ∧
    (∀ f ∈ old, s.flow.expected.toNat < f.seq.toNat) ∧ (old ≠ [] → Stuck s) ∧
    Ascending s.flow.expected.toNat (cur.map DataFrame.segment) s.flow.qp.sndNxt.toNat

/-- A NACK for the expected number is on its way, behind plain ACKs, and everything the sender has
sent or sends until it arrives is ahead of that number. -/
structure RollingBack (s : FifoState) : Prop where
  acks : ∃ plain, s.ackQ = plain ++ [⟨true, s.flow.expected⟩] ∧
    ∀ a ∈ plain, a.isNack = false ∧ a.seq.toNat ≤ s.flow.expected.toNat
  data : ∀ f ∈ s.dataQ, s.flow.expected.toNat < f.seq.toNat
  ahead : s.flow.expected.toNat < s.flow.qp.sndNxt.toNat
  stuck : Stuck s

structure Live (size : UInt64) (s : FifoState) : Prop where
  mSize : s.flow.qp.mSize = size
  sndNxt : s.flow.qp.sndNxt.toNat ≤ size.toNat
  sndUna : s.flow.qp.sndUna.toNat ≤ s.flow.expected.toNat
  phase : Settled s ∨ RollingBack s

theorem Live.expected_le {size : UInt64} {s : FifoState} (h : Live size s) :
    s.flow.expected.toNat ≤ s.flow.qp.sndNxt.toNat := by
  rcases h.phase with hsettled | hback
  · obtain ⟨old, cur, -, -, -, hcur⟩ := hsettled.data
    exact hcur.le
  · exact hback.ahead.le

theorem live_send {size : UInt64} (hsize : size.toNat < 2 ^ 32) {s t : FifoState} (h : Live size s)
    (hnext : fifoNext hw lossy windowed s .send = some t) : Live size t := by
  obtain ⟨frame, flow, hsend, rfl⟩ := fifoNext_send hnext
  obtain ⟨hleft, hseq, hpayload, hnxt, hflow⟩ := send_outcome hsend
  rw [h.mSize] at hleft hpayload
  have hframe : frame.seq.toNat = s.flow.qp.sndNxt.toNat := by
    rw [hseq, UInt64.toNat_toUInt32, Nat.mod_eq_of_lt (by omega)]
  have hexpected : flow.expected = s.flow.expected := by rw [hflow]; rfl
  have hrx : flow.rx = s.flow.rx := by rw [hflow]
  have hsizeSame : flow.qp.mSize = s.flow.qp.mSize := by rw [hflow]
  have huna : flow.qp.sndUna = s.flow.qp.sndUna := by rw [hflow]
  refine ⟨hsizeSame.trans h.mSize, by dsimp only; omega, ?_, ?_⟩
  · dsimp only
    rw [huna, hexpected]
    exact h.sndUna
  · rcases h.phase with hsettled | hback
    · obtain ⟨old, cur, hqueue, hold, hstuck, hcur⟩ := hsettled.data
      refine .inl ⟨?_, old, cur ++ [frame], ?_, ?_, ?_, ?_⟩
      · dsimp only
        rw [hexpected]
        exact hsettled.acks
      · dsimp only
        rw [hqueue, List.append_assoc]
      · dsimp only
        rw [hexpected]
        exact hold
      · intro hne
        unfold Stuck
        dsimp only
        rw [hexpected, hrx]
        exact hstuck hne
      · dsimp only
        rw [hexpected, hnxt, List.map_append, ← hframe]
        exact hcur.snoc hframe.ge _
    · refine .inr ⟨?_, ?_, ?_, ?_⟩
      · dsimp only
        rw [hexpected]
        exact hback.acks
      · intro f hf
        dsimp only
        rw [hexpected]
        rcases List.mem_append.mp hf with hf | hf
        · exact hback.data f hf
        · obtain rfl := List.mem_singleton.mp hf
          rw [hframe]
          exact hback.ahead
      · have hahead := hback.ahead
        dsimp only
        rw [hexpected]
        omega
      · unfold Stuck
        dsimp only
        rw [hexpected, hrx]
        exact hback.stuck

theorem live_drop {size : UInt64} {s t : FifoState} {i : Nat} (h : Live size s)
    (hnext : fifoNext hw lossy windowed s (.drop i) = some t) : Live size t := by
  obtain ⟨-, -, rfl⟩ := fifoNext_drop hnext
  refine ⟨h.mSize, h.sndNxt, h.sndUna, ?_⟩
  rcases h.phase with hsettled | hback
  · obtain ⟨old, cur, hqueue, hold, hstuck, hcur⟩ := hsettled.data
    left
    by_cases hi : i < old.length
    · refine ⟨hsettled.acks, old.eraseIdx i, cur, ?_, ?_, ?_, hcur⟩
      · dsimp only
        rw [hqueue, List.eraseIdx_append_of_lt_length hi]
      · intro f hf
        exact hold f (List.mem_of_mem_eraseIdx hf)
      · intro hne
        apply hstuck
        intro hnil
        rw [hnil] at hne
        exact hne rfl
    · refine ⟨hsettled.acks, old, cur.eraseIdx (i - old.length), ?_, hold, hstuck, ?_⟩
      · dsimp only
        rw [hqueue, List.eraseIdx_append_of_length_le (Nat.le_of_not_lt hi)]
      · rw [← List.eraseIdx_map]
        exact hcur.of_erase _
  · right
    refine ⟨hback.acks, ?_, hback.ahead, hback.stuck⟩
    intro f hf
    exact hback.data f (List.mem_of_mem_eraseIdx hf)

/-- What an ignored segment leaves as it was. -/
private theorem stuck_of_same {s t : FifoState} (hexpected : t.flow.expected = s.flow.expected)
    (hlast : (t.flow.rx.getD .new).mLastNack = (s.flow.rx.getD .new).mLastNack)
    (hnacks : t.nacks = s.nacks) (h : Stuck s) : Stuck t := by
  simp only [Stuck]
  rw [hexpected, hlast, hnacks]
  exact h

/-- The state after a segment has arrived. -/
private def received (s : FifoState) (now : Int) (rest : List DataFrame) (ack : Option AckFrame)
    (q' : RdmaRxQueuePair) : FifoState where
  flow := { s.flow with rx := some q' }
  clock := now
  dataQ := rest
  ackQ := s.ackQ ++ ack.toList
  nacks := recordNack s.nacks ack

private theorem received_expected (s : FifoState) (now : Int) (rest : List DataFrame)
    (ack : Option AckFrame) (q' : RdmaRxQueuePair) :
    (received s now rest ack q').flow.expected = q'.receiverNextExpectedSeq := rfl

/-- The accepted segment is the first of the present round. -/
private theorem live_accepted {size : UInt64} (hsize : size.toNat < 2 ^ 32) {s : FifoState} {now : Int}
    {frame : DataFrame} {rest : List DataFrame} {ack : Option AckFrame} {q' : RdmaRxQueuePair}
    (h : Live size s) (hqueue : s.dataQ = frame :: rest) (hseq : frame.seq = s.flow.expected)
    (hexpected : q'.receiverNextExpectedSeq = s.flow.expected + frame.payloadSize)
    (hack : ∀ a ∈ ack.toList, a = ⟨false, q'.receiverNextExpectedSeq⟩) :
    Live size (received s now rest ack q') := by
  have hbound := h.sndNxt
  have huna := h.sndUna
  have hfront : frame ∈ s.dataQ := by rw [hqueue]; exact List.mem_cons_self
  rcases h.phase with hsettled | hroll
  · obtain ⟨old, cur, hsplit, hahead, -, hcur⟩ := hsettled.data
    cases old with
    | nil =>
        obtain rfl : cur = frame :: rest := by rw [← hqueue, hsplit]; rfl
        obtain ⟨-, hrest⟩ := hcur
        have hend := hrest.le
        dsimp only [DataFrame.segment] at hrest hend
        rw [hseq] at hrest hend
        have hnat : q'.receiverNextExpectedSeq.toNat = s.flow.expected.toNat + frame.payloadSize.toNat := by
          rw [hexpected, UInt32.toNat_add, Nat.mod_eq_of_lt (by omega)]
        refine ⟨h.mSize, hbound, ?_, .inl ⟨?_, [], rest, rfl, by simp, by simp, ?_⟩⟩
        · rw [received_expected, hnat]
          exact Nat.le_add_right_of_le huna
        · intro a ha
          rw [received_expected, hnat]
          rcases List.mem_append.mp ha with ha | ha
          · obtain ⟨hplain, hle⟩ := hsettled.acks a ha
            exact ⟨hplain, by omega⟩
          · rw [hack a ha]
            exact ⟨rfl, hnat.le⟩
        · rw [received_expected, hnat]
          exact hrest
    | cons first old =>
        rw [hqueue, List.cons_append, List.cons.injEq] at hsplit
        have hfirst := hahead first List.mem_cons_self
        rw [← hsplit.1, hseq] at hfirst
        omega
  · have hfirst := hroll.data frame hfront
    rw [hseq] at hfirst
    omega

/-- The first NACK for a number makes the sender roll back. -/
private theorem live_nacked {size : UInt64} {s : FifoState} {now : Int} {frame : DataFrame}
    {rest : List DataFrame} {q' : RdmaRxQueuePair} (h : Live size s) (hqueue : s.dataQ = frame :: rest)
    (hnew : ¬ Stuck s) (hseq : s.flow.expected.toNat < frame.seq.toNat)
    (hexpected : q'.receiverNextExpectedSeq = s.flow.expected) (hlast : q'.mLastNack = s.flow.expected) :
    Live size (received s now rest (some ⟨true, q'.receiverNextExpectedSeq⟩) q') := by
  rcases h.phase with hsettled | hroll
  · obtain ⟨old, cur, hsplit, -, hstuck, hcur⟩ := hsettled.data
    obtain rfl : old = [] := by
      by_contra hne
      exact hnew (hstuck hne)
    obtain rfl : cur = frame :: rest := by rw [← hqueue, hsplit]; rfl
    obtain ⟨hlow, hrest⟩ := hcur
    have hend := hrest.le
    dsimp only [DataFrame.segment] at hlow hrest hend
    refine ⟨h.mSize, h.sndNxt, ?_, .inr ⟨⟨s.ackQ, ?_, ?_⟩, ?_, ?_, ?_⟩⟩
    · rw [received_expected, hexpected]
      exact h.sndUna
    · rw [received_expected]
      rfl
    · rw [received_expected, hexpected]
      exact hsettled.acks
    · intro f hf
      rw [received_expected, hexpected]
      have hlater := (hrest.of_mem (List.mem_map_of_mem hf)).1
      dsimp only [DataFrame.segment] at hlater
      omega
    · rw [received_expected, hexpected]
      show _ < s.flow.qp.sndNxt.toNat
      omega
    · refine ⟨List.mem_cons_self, ?_⟩
      rw [received_expected, hexpected]
      exact hlast
  · exact absurd hroll.stuck hnew

/-- An ignored segment is only taken off its queue. -/
private theorem live_ignored {size : UInt64} {s : FifoState} {now : Int} {frame : DataFrame}
    {rest : List DataFrame} {q' : RdmaRxQueuePair} (h : Live size s) (hqueue : s.dataQ = frame :: rest)
    (hexpected : q'.receiverNextExpectedSeq = s.flow.expected)
    (hlast : q'.mLastNack = (s.flow.rx.getD .new).mLastNack) : Live size (received s now rest none q') := by
  have hsame : (received s now rest none q').flow.expected = s.flow.expected := hexpected
  have hacks : (received s now rest none q').ackQ = s.ackQ := List.append_nil _
  have hstuckSame : Stuck s → Stuck (received s now rest none q') := stuck_of_same hsame hlast rfl
  refine ⟨h.mSize, h.sndNxt, ?_, ?_⟩
  · rw [hsame]
    exact h.sndUna
  · rcases h.phase with hsettled | hroll
    · obtain ⟨old, cur, hsplit, hahead, hstuck, hcur⟩ := hsettled.data
      have hacks' := hsettled.acks
      rw [← hacks, ← hsame] at hacks'
      cases old with
      | nil =>
          obtain rfl : cur = frame :: rest := by rw [← hqueue, hsplit]; rfl
          refine .inl ⟨hacks', [], rest, rfl, by simp, by simp, ?_⟩
          rw [hsame]
          exact hcur.2.mono_left (Nat.le_add_right_of_le hcur.1)
      | cons first old =>
          rw [hqueue, List.cons_append, List.cons.injEq] at hsplit
          refine .inl ⟨hacks', old, cur, hsplit.2, ?_, fun _ => hstuckSame (hstuck (by simp)), ?_⟩
          · intro f hf
            rw [hsame]
            exact hahead f (List.mem_cons_of_mem _ hf)
          · rw [hsame]
            exact hcur
    · refine .inr ⟨?_, ?_, ?_, hstuckSame hroll.stuck⟩
      · rw [hacks, hsame]
        exact hroll.acks
      · intro f hf
        rw [hsame]
        exact hroll.data f (by rw [hqueue]; exact List.mem_cons_of_mem _ hf)
      · rw [hsame]
        exact hroll.ahead

theorem live_data {size : UInt64} (hsize : size.toNat < 2 ^ 32) (hback : hw.mBackto0 = false)
    {s t : FifoState} {now : Int} (h : Live size s) (hmap : s.flow.inMap = true)
    (hguard : NoRepeatedNack s (.data now)) (hnext : fifoNext hw lossy windowed s (.data now) = some t) :
    Live size t := by
  obtain ⟨frame, rest, ack, q', hqueue, -, houtcome, rfl⟩ := fifoNext_data hnext
  have hold : (s.flow.rx.getD .new).receiverNextExpectedSeq = s.flow.expected := rfl
  cases houtcome with
  | accepted hseq hexpected htimer hlast hack =>
      apply live_accepted hsize h hqueue hseq hexpected
      intro a ha
      rw [hack] at ha
      split at ha
      · exact List.mem_singleton.mp ha
      · cases ha
  | nacked hseq hdue hexpected htimer hlast hack =>
      rw [ackValue, if_neg (by rw [hback]; decide)] at hexpected
      rw [hack]
      refine live_nacked h hqueue ?_ (UInt32.lt_iff_toNat_lt.mp hseq) hexpected hlast
      -- a number that is NACKed again has a timer that has run out
      rintro ⟨hmem, hlastNack⟩
      have htimer := hguard frame rest hqueue hmap hseq hmem
      rcases hdue with hdue | hdue
      · omega
      · exact hdue hlastNack
  | ignored hseq hquiet hexpected htimer hlast => exact live_ignored h hqueue hexpected hlast

/-- No ACK on its way acknowledges more than the receiver has. -/
theorem Live.ack_le {size : UInt64} {s : FifoState} (h : Live size s) {a : AckFrame} (ha : a ∈ s.ackQ) :
    a.seq.toNat ≤ s.flow.expected.toNat := by
  rcases h.phase with hsettled | hroll
  · exact (hsettled.acks a ha).2
  · obtain ⟨plain, hacks, hplain⟩ := hroll.acks
    rw [hacks] at ha
    rcases List.mem_append.mp ha with ha | ha
    · exact (hplain a ha).2
    · rw [List.mem_singleton.mp ha]

/-- A plain ACK leaves the sender where it is. -/
theorem Settled.ack {s : FifoState} (h : Settled s) {qp : RdmaQueuePair} {frame : AckFrame} {rest : List AckFrame}
    (hqueue : s.ackQ = frame :: rest) (hnxt : qp.sndNxt.toNat = s.flow.qp.sndNxt.toNat) :
    Settled { s with flow := { s.flow with qp := qp }, ackQ := rest } where
  acks := by
    intro a ha
    exact h.acks a (by rw [hqueue]; exact List.mem_cons_of_mem _ ha)
  data := by
    obtain ⟨old, cur, hsplit, hahead, hstuck, hcur⟩ := h.data
    refine ⟨old, cur, hsplit, hahead, hstuck, ?_⟩
    show Ascending s.flow.expected.toNat _ qp.sndNxt.toNat
    rw [hnxt]
    exact hcur

/-- The NACK arrives: the sender is back at the expected number. -/
theorem RollingBack.nack {s : FifoState} (h : RollingBack s) {qp : RdmaQueuePair}
    (hnxt : s.flow.expected.toNat ≤ qp.sndNxt.toNat) :
    Settled { s with flow := { s.flow with qp := qp }, ackQ := [] } where
  acks := by
    intro a ha
    cases ha
  data := ⟨s.dataQ, [], (List.append_nil _).symm, h.data, fun _ => h.stuck, hnxt⟩

/-- An ACK that leaves the flow open. -/
theorem live_ack {size : UInt64} (hback : hw.mBackto0 = false) {s : FifoState} {frame : AckFrame}
    {rest : List AckFrame} (h : Live size s) (hqueue : s.ackQ = frame :: rest) :
    Live size { s with
      flow := { s.flow with
        qp := settle frame (s.flow.qp.acknowledge (ackValue hw frame.seq).toUInt64) }
      ackQ := rest } := by
  obtain ⟨huna, hnxt, hsizeAfter⟩ := settle_acknowledge hw s.flow.qp frame
  have hvalue : ackValue hw frame.seq = frame.seq := by rw [ackValue, if_neg (by rw [hback]; decide)]
  rw [hvalue] at huna hnxt hsizeAfter ⊢
  have hbound := h.sndNxt
  have hle := h.sndUna
  have hexp := h.expected_le
  have hseq := h.ack_le (a := frame) (by rw [hqueue]; exact List.mem_cons_self)
  refine ⟨hsizeAfter.trans h.mSize, ?_, ?_, ?_⟩
  · dsimp only
    rw [hnxt]
    split
    · omega
    · exact hbound
  · show _ ≤ s.flow.expected.toNat
    dsimp only
    omega
  · rcases h.phase with hsettled | hroll
    · have hplain := (hsettled.acks frame (by rw [hqueue]; exact List.mem_cons_self)).1
      rw [hplain, if_neg (by decide)] at hnxt
      exact .inl (hsettled.ack hqueue hnxt)
    · obtain ⟨plain, hacks, hplain⟩ := hroll.acks
      rw [hqueue] at hacks
      cases plain with
      | nil =>
          obtain ⟨rfl, rfl⟩ := List.cons.inj hacks
          rw [if_pos rfl] at hnxt
          apply Or.inl
          apply hroll.nack
          rw [hnxt]
          exact Nat.le_max_right _ _
      | cons first plain =>
          -- the NACK is still behind other ACKs
          obtain ⟨rfl, rfl⟩ := List.cons.inj hacks
          rw [(hplain frame List.mem_cons_self).1, if_neg (by decide)] at hnxt
          refine .inr ⟨⟨plain, rfl, ?_⟩, hroll.data, ?_, hroll.stuck⟩
          · intro a ha
            exact hplain a (List.mem_cons_of_mem _ ha)
          · show s.flow.expected.toNat < _
            rw [hnxt]
            exact hroll.ahead

/-! ### Whole runs -/

/-- What every step without a repeated NACK keeps: while the flow is open it is live, and once it is
complete the sender still does not fall behind. -/
structure WindowInv (hw : RdmaHwConfig) (size : UInt64) (s : FifoState) : Prop where
  order : s.flow.qp.sndUna.toNat ≤ s.flow.qp.sndNxt.toNat
  live : s.flow.inMap = true → hw.mAckInterval ≠ 0 → Live size s

theorem windowInv_init (qp : RdmaQueuePair) : WindowInv hw qp.mSize (fifoSystem hw lossy windowed qp).init := by
  refine ⟨Nat.le_refl _, fun _ _ => ?_⟩
  refine ⟨rfl, Nat.zero_le _, Nat.le_refl _, .inl ⟨?_, [], [], rfl, ?_, ?_, Nat.le_refl _⟩⟩
  · intro a ha
    cases ha
  · intro f hf
    cases hf
  · intro hne
    exact absurd rfl hne

/-- Of a live flow every ACK is behind the sender. -/
theorem WindowInv.ackBehind {size : UInt64} {s : FifoState} (h : WindowInv hw size s)
    (event : FifoEvent) : AckBehind hw s event := by
  cases event with
  | send => trivial
  | data now => trivial
  | drop i => trivial
  | ack =>
      intro frame rest hqueue hmap hinterval hplain
      have hlive := h.live hmap hinterval
      have hexp := hlive.expected_le
      have hvalue := ackValue_le hw frame.seq
      have hseq := hlive.ack_le (a := frame) (by rw [hqueue]; exact List.mem_cons_self)
      omega

theorem windowInv_step {size : UInt64} (hsize : size.toNat < 2 ^ 32) (hback : hw.mBackto0 = false)
    (s : FifoState) (event : FifoEvent) (t : FifoState) (h : WindowInv hw size s)
    (hguard : NoRepeatedNack s event) (hnext : fifoNext hw lossy windowed s event = some t) :
    WindowInv hw size t := by
  refine ⟨(window_step s event t h.order hnext).mpr (h.ackBehind event), ?_⟩
  cases event with
  | send =>
      intro hmap hinterval
      have hsame : t.flow.inMap = s.flow.inMap := by
        obtain ⟨frame, flow, hsend, rfl⟩ := fifoNext_send hnext
        obtain ⟨-, -, -, -, hflow⟩ := send_outcome hsend
        dsimp only
        rw [hflow]
      exact live_send hsize (h.live (hsame ▸ hmap) hinterval) hnext
  | data now =>
      intro hmap hinterval
      have hsame : t.flow.inMap = s.flow.inMap := by
        obtain ⟨frame, rest, ack, q', -, -, -, rfl⟩ := fifoNext_data hnext
        rfl
      have hopen := hsame ▸ hmap
      exact live_data hsize hback (h.live hopen hinterval) hopen hguard hnext
  | drop i =>
      intro hmap hinterval
      have hsame : t.flow.inMap = s.flow.inMap := by
        obtain ⟨-, -, rfl⟩ := fifoNext_drop hnext
        rfl
      exact live_drop (h.live (hsame ▸ hmap) hinterval) hnext
  | ack =>
      intro hmap hinterval
      obtain ⟨frame, rest, flow, hqueue, houtcome, rfl⟩ := fifoNext_ack hnext
      cases houtcome with
      | ignored hclosed =>
          rw [hclosed] at hmap
          cases hmap
      | disabled hopen hzero => exact absurd hzero hinterval
      | live hopen _ _ => exact live_ack hback (h.live hopen hinterval) hqueue
      | done hopen _ hdone => cases hmap

/-- Along a run over a path that keeps the order, the window law holds throughout exactly when no
acknowledgement that arrives is ahead of the sender, and it does hold throughout when no NACK is
repeated. -/
theorem transport_window (hw : RdmaHwConfig) (hback : hw.mBackto0 = false) (lossy windowed : Bool)
    (qp : RdmaQueuePair) (hsize : qp.mSize.toNat < 2 ^ 32) {s : FifoState}
    {trace : List (Transition FifoState FifoEvent)}
    (hrun : (fifoSystem hw lossy windowed qp).Run (fifoSystem hw lossy windowed qp).init trace s) :
    ((∀ x ∈ trace, WindowSound x.post.flow.qp) ↔ ∀ x ∈ trace, AckBehind hw x.pre x.label) ∧
    ((∀ x ∈ trace, NoRepeatedNack x.pre x.label) → ∀ x ∈ trace, WindowSound x.post.flow.qp) := by
  refine ⟨?_, ?_⟩
  · simp only [windowSound_iff]
    exact hrun.forall_post_iff
      (P := fun s : FifoState => s.flow.qp.sndUna.toNat ≤ s.flow.qp.sndNxt.toNat)
      (fun s event t h hnext => window_step s event t h hnext) (Nat.le_refl _)
  · intro hguard x hx
    have hinv := hrun.invariant_of_guard (windowInv_step hsize hback) hguard (windowInv_init qp)
    exact (windowSound_iff _).mpr (hinv.2 x hx).2.order

/-- The first of three segments is lost and its number is NACKed twice. The retransmission is
acknowledged between the two NACKs at the receiver, and the ACK arrives after the second NACK. -/
def repeatedNack : List FifoEvent :=
  [.send, .send, .send, .drop 0, .data 0, .data 500000, .ack, .send, .data 500001, .ack, .ack]

/-- A run with one lost segment and one NACK. -/
theorem transport_window_one_nack : ∃ trace s,
    (fifoSystem everySegment true true (plainQp 3000)).Run
      (fifoSystem everySegment true true (plainQp 3000)).init trace s ∧
    trace.map Transition.label = [.send, .send, .drop 0, .data 0, .ack, .send] ∧
    ∀ x ∈ trace, WindowSound x.post.flow.qp := by
  have hrun : (fifoSystem everySegment true true (plainQp 3000)).Run
      (fifoSystem everySegment true true (plainQp 3000)).init _ _ :=
    .cons (a := .send) rfl (.cons (a := .send) rfl (.cons (a := .drop 0) rfl
      (.cons (a := .data 0) rfl (.cons (a := .ack) rfl (.cons (a := .send) rfl (.nil _))))))
  refine ⟨_, _, hrun, rfl, (transport_window everySegment rfl true true (plainQp 3000) (by decide) hrun).2 ?_⟩
  intro x hx
  simp only [List.mem_cons, List.not_mem_nil, or_false] at hx
  rcases hx with rfl | rfl | rfl | rfl | rfl | rfl
  · trivial
  · trivial
  · trivial
  · -- the only segment that arrives is the first one to be NACKed
    intro frame rest hqueue hmap hahead hmem
    cases hmem
  · trivial
  · trivial

theorem not_windowSound_repeatedNack :
    ∃ s, (fifoSystem everySegment true true (plainQp 3000)).exec
        (fifoSystem everySegment true true (plainQp 3000)).init repeatedNack = some s ∧
      s.flow.qp.sndUna = 1000 ∧ s.flow.qp.sndNxt = 0 ∧ ¬ WindowSound s.flow.qp := by
  refine ⟨_, rfl, rfl, rfl, ?_⟩
  rw [windowSound_iff]
  decide

end Lcmp
