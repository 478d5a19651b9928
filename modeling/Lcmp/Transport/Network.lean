import Lcmp.Lib.Transition
import Lcmp.Transport.RdmaHw

/-!
# One flow over an arbitrary network

The network remembers every frame that was ever sent and may deliver any of them, at any time and any
number of times, or never. The two ends stay consistent: what is acknowledged has been accepted, and
the flow completes once at most, after every byte has been accepted.

`QpComplete` deletes the receiver's state, so a frame that arrives later meets a new one. The accepted
segments are therefore recorded per receiver state.
-/

namespace Lcmp

open Segments

structure NetState where
  flow : Flow
  clock : Int
  sent : List DataFrame
  acks : List AckFrame
  /-- The segments the present receiver state has accepted, in order. -/
  accepted : List Segment
  /-- The same for the states deleted before it. -/
  retired : List (List Segment)
  /-- The largest prefix of the flow that was ever accepted. -/
  largest : Nat

inductive NetEvent where
  | send
  | data (frame : DataFrame) (now : Int)
  | ack (frame : AckFrame)

variable (hw : RdmaHwConfig)

/-- The segments accepted once a frame has arrived: it is accepted if it is the expected one. -/
def acceptedAfter (s : NetState) (frame : DataFrame) : List Segment :=
  if frame.seq = s.flow.expected then s.accepted ++ [frame.segment] else s.accepted

def netNext (s : NetState) : NetEvent → Option NetState
  | .send =>
      match s.flow.send hw with
      | none => none
      | some (frame, flow) => some { s with flow := flow, sent := frame :: s.sent }
  | .data frame now =>
      if frame ∈ s.sent ∧ s.clock ≤ now then
        match s.flow.recvData hw now frame with
        | none => none
        | some (ack, flow) => some { s with
            flow := flow
            clock := now
            acks := ack.toList ++ s.acks
            accepted := acceptedAfter s frame
            largest := max s.largest flow.expected.toNat }
      else none
  | .ack frame =>
      if frame ∈ s.acks then
        match s.flow.recvAck hw frame with
        | none => none
        | some flow =>
            if flow.completions = s.flow.completions then some { s with flow := flow }
            else some { s with flow := flow, accepted := [], retired := s.accepted :: s.retired }
      else none

def netSystem (qp : RdmaQueuePair) : System NetState NetEvent where
  init := {
    flow := .start qp
    clock := 0
    sent := []
    acks := []
    accepted := []
    retired := []
    largest := 0 }
  next := netNext hw

/-- Every position below `n` was accepted at least once. -/
def CoveredBelow (s : NetState) (n : Nat) : Prop :=
  ∀ b < n, ∃ x ∈ s.retired.flatten ++ s.accepted, x.1 ≤ b ∧ b < x.1 + x.2

/-- The relation between the two ends and everything in the network. -/
structure NetInv (size : UInt64) (s : NetState) : Prop where
  mSize : s.flow.qp.mSize = size
  sndNxt : s.flow.qp.sndNxt.toNat ≤ size.toNat
  sent : ∀ frame ∈ s.sent, frame.seq.toNat + frame.payloadSize.toNat ≤ size.toNat
  acks : ∀ frame ∈ s.acks, frame.seq.toNat ≤ s.largest
  sndUna : s.flow.qp.sndUna.toNat ≤ s.largest
  expected : s.flow.expected.toNat ≤ s.largest
  largest : s.largest ≤ size.toNat
  covered : CoveredBelow s s.largest
  live : s.flow.inMap = true → s.flow.completions = 0
  done : s.flow.inMap = false → s.flow.completions = 1 ∧ s.largest = size.toNat

/-- Without `L2BackToZero`: what each receiver state accepts is contiguous, and a state that was
deleted had accepted the whole flow. -/
structure InOrder (size : UInt64) (s : NetState) : Prop where
  current : Contiguous 0 s.accepted s.flow.expected.toNat
  live : s.flow.inMap = true → s.retired = [] ∧ s.largest = s.flow.expected.toNat
  done : s.flow.inMap = false → ∃ segs, s.retired = [segs] ∧ Contiguous 0 segs size.toNat

variable {hw}

theorem netNext_send {s t : NetState} (h : netNext hw s .send = some t) :
    ∃ frame flow, s.flow.send hw = some (frame, flow) ∧
      t = { s with flow := flow, sent := frame :: s.sent } := by
  simp only [netNext] at h
  split at h
  · cases h
  · rename_i frame flow hsend
    exact ⟨frame, flow, hsend, (Option.some.inj h).symm⟩

theorem netNext_data {s t : NetState} {frame : DataFrame} {now : Int}
    (h : netNext hw s (.data frame now) = some t) :
    frame ∈ s.sent ∧ ∃ ack flow, s.flow.recvData hw now frame = some (ack, flow) ∧
      t = { s with
        flow := flow
        clock := now
        acks := ack.toList ++ s.acks
        accepted := acceptedAfter s frame
        largest := max s.largest flow.expected.toNat } := by
  simp only [netNext] at h
  split at h
  · rename_i hguard
    split at h
    · cases h
    · rename_i ack flow hrecv
      exact ⟨hguard.1, ack, flow, hrecv, (Option.some.inj h).symm⟩
  · cases h

/-- An arriving ACK either leaves the flow open or completes it. -/
theorem netNext_ack {s t : NetState} {frame : AckFrame} (h : netNext hw s (.ack frame) = some t) :
    frame ∈ s.acks ∧ ∃ flow, AckOutcome hw frame s.flow flow ∧
      t = if flow.completions = s.flow.completions then { s with flow := flow }
        else { s with flow := flow, accepted := [], retired := s.accepted :: s.retired } := by
  simp only [netNext] at h
  split at h
  · rename_i hmem
    split at h
    · cases h
    · rename_i flow hrecv
      refine ⟨hmem, flow, recvAck_outcome hrecv, ?_⟩
      split at h
      · rename_i hsame
        rw [if_pos hsame]
        exact (Option.some.inj h).symm
      · rename_i hdiff
        rw [if_neg hdiff]
        exact (Option.some.inj h).symm
  · cases h

/-! ### Steps -/

theorem covered_append {s : NetState} {n m : Nat} {x : Segment} (h : CoveredBelow s n)
    (hx : x.1 ≤ n) (hend : m ≤ max n (x.1 + x.2)) :
    ∀ b < m, ∃ y ∈ s.retired.flatten ++ (s.accepted ++ [x]), y.1 ≤ b ∧ b < y.1 + y.2 := by
  intro b hb
  by_cases hbn : b < n
  · obtain ⟨y, hy, hfacts⟩ := h b hbn
    refine ⟨y, ?_, hfacts⟩
    rw [← List.append_assoc]
    exact List.mem_append_left _ hy
  · exact ⟨x, by simp, by omega, by omega⟩

theorem netInv_send {size : UInt64} (hsize : size.toNat < 2 ^ 32) {s t : NetState}
    (h : NetInv size s) (hnext : netNext hw s .send = some t) : NetInv size t := by
  obtain ⟨frame, flow, hsend, rfl⟩ := netNext_send hnext
  obtain ⟨hleft, hseq, hpayload, hnxt, hflow⟩ := send_outcome hsend
  rw [h.mSize] at hleft hpayload
  have hbound : s.flow.qp.sndNxt.toNat + frame.payloadSize.toNat ≤ size.toNat := by omega
  refine ⟨?_, by dsimp only; omega, ?_, h.acks, ?_, ?_, h.largest, h.covered, ?_, ?_⟩
  · rw [hflow]
    exact h.mSize
  · intro other hother
    rcases List.mem_cons.mp hother with rfl | hother
    · rw [hseq, UInt64.toNat_toUInt32, Nat.mod_eq_of_lt (by omega)]
      exact hbound
    · exact h.sent other hother
  · rw [hflow]
    exact h.sndUna
  · rw [hflow]
    exact h.expected
  · rw [hflow]
    exact h.live
  · rw [hflow]
    exact h.done

theorem netInv_data {size : UInt64} (hsize : size.toNat < 2 ^ 32) {s t : NetState} {frame : DataFrame}
    {now : Int} (h : NetInv size s) (hnext : netNext hw s (.data frame now) = some t) :
    NetInv size t := by
  obtain ⟨hmem, ack, flow, hrecv, rfl⟩ := netNext_data hnext
  obtain ⟨q', rfl, houtcome⟩ := recvData_outcome hrecv
  have hframe := h.sent frame hmem
  have hstep := expected_after hsize hframe houtcome
  have hexpected := h.expected
  have hlargest := h.largest
  have hnew : Flow.expected { s.flow with rx := some q' } = q'.receiverNextExpectedSeq := rfl
  have hold : s.flow.expected = (s.flow.rx.getD .new).receiverNextExpectedSeq := rfl
  rw [← hold] at hstep
  refine ⟨h.mSize, h.sndNxt, h.sent, ?_, ?_, ?_, ?_, ?_, h.live, ?_⟩
  · intro a ha
    rcases List.mem_append.mp ha with hack | hack
    · rw [houtcome.ack_seq a hack]
      exact Nat.le_max_right _ _
    · exact (h.acks a hack).trans (Nat.le_max_left _ _)
  · exact h.sndUna.trans (Nat.le_max_left _ _)
  · exact Nat.le_max_right _ _
  · dsimp only
    rw [hnew]
    rcases hstep with ⟨-, hnat⟩ | ⟨-, hnat⟩
    · omega
    · omega
  · unfold CoveredBelow
    dsimp only
    rw [hnew]
    rcases hstep with ⟨hseq, hnat⟩ | ⟨hseq, hnat⟩
    · rw [acceptedAfter, if_pos hseq]
      apply covered_append h.covered
      · show frame.seq.toNat ≤ s.largest
        rw [hseq]
        exact hexpected
      · show _ ≤ max s.largest (frame.seq.toNat + frame.payloadSize.toNat)
        omega
    · rw [acceptedAfter, if_neg hseq]
      have hmax : max s.largest q'.receiverNextExpectedSeq.toNat = s.largest := by omega
      rw [hmax]
      exact h.covered
  · intro hmap
    obtain ⟨hcount, hall⟩ := h.done hmap
    refine ⟨hcount, ?_⟩
    dsimp only
    rw [hnew]
    rcases hstep with ⟨-, hnat⟩ | ⟨-, hnat⟩
    · omega
    · omega

theorem netInv_ack {size : UInt64} {s t : NetState} {frame : AckFrame} (h : NetInv size s)
    (hnext : netNext hw s (.ack frame) = some t) : NetInv size t := by
  obtain ⟨hmem, flow, houtcome, ht⟩ := netNext_ack hnext
  have hseq := h.acks frame hmem
  have hvalue : (ackValue hw frame.seq).toNat ≤ s.largest := (ackValue_le hw frame.seq).trans hseq
  have huna := h.sndUna
  have hlargest := h.largest
  have hnxt := h.sndNxt
  obtain ⟨hunaAfter, hnxtAfter, hsizeAfter⟩ := settle_acknowledge hw s.flow.qp frame
  cases houtcome with
  | ignored hmap =>
      rw [if_pos rfl] at ht
      rw [ht]
      exact h
  | disabled hmap hinterval =>
      rw [if_pos rfl] at ht
      rw [ht]
      refine ⟨by rw [settle_mSize]; exact h.mSize, ?_, h.sent, h.acks, ?_, h.expected, h.largest,
        h.covered, h.live, h.done⟩
      · dsimp only
        rw [settle_sndNxt]
        split
        · omega
        · exact hnxt
      · dsimp only
        rw [settle_sndUna]
        exact huna
  | live hmap hinterval hopen =>
      rw [if_pos rfl] at ht
      rw [ht]
      refine ⟨hsizeAfter.trans h.mSize, ?_, h.sent, h.acks, ?_, h.expected, h.largest, h.covered,
        h.live, h.done⟩
      · dsimp only
        rw [hnxtAfter]
        split
        · omega
        · exact hnxt
      · dsimp only
        rw [hunaAfter]
        omega
  | done hmap hinterval hdone =>
      rw [if_neg (by simp [Flow.complete])] at ht
      rw [ht]
      rw [h.mSize] at hdone
      have hfresh := h.live hmap
      refine ⟨hsizeAfter.trans h.mSize, ?_, h.sent, h.acks, ?_, Nat.zero_le _, h.largest, ?_,
        fun hlive => absurd hlive (by simp [Flow.complete]), fun _ => ⟨?_, ?_⟩⟩
      · dsimp only [Flow.complete]
        rw [hnxtAfter]
        split
        · omega
        · exact hnxt
      · dsimp only [Flow.complete]
        rw [hunaAfter]
        omega
      · intro b hb
        obtain ⟨x, hx, hfacts⟩ := h.covered b hb
        refine ⟨x, ?_, hfacts⟩
        rw [List.mem_append] at hx
        rcases hx with hx | hx
        · exact List.mem_append_left _ (List.mem_append_right _ hx)
        · exact List.mem_append_left _ (List.mem_append_left _ hx)
      · show s.flow.completions + 1 = 1
        omega
      · show s.largest = size.toNat
        omega

theorem netInv_step {size : UInt64} (hsize : size.toNat < 2 ^ 32) {s t : NetState} {event : NetEvent}
    (h : NetInv size s) (hnext : netNext hw s event = some t) : NetInv size t := by
  cases event with
  | send => exact netInv_send hsize h hnext
  | data frame now => exact netInv_data hsize h hnext
  | ack frame => exact netInv_ack h hnext

theorem netInv_start (qp : RdmaQueuePair) : NetInv qp.mSize (netSystem hw qp).init where
  mSize := rfl
  sndNxt := Nat.zero_le _
  sent := by simp [netSystem]
  acks := by simp [netSystem]
  sndUna := Nat.le_refl 0
  expected := Nat.le_refl 0
  largest := Nat.zero_le _
  covered := fun b hb => absurd hb (Nat.not_lt_zero b)
  live := fun _ => rfl
  done := fun hmap => absurd hmap (by simp [netSystem, Flow.start])

/-! ### In order -/

theorem inOrder_data (hback : hw.mBackto0 = false) {size : UInt64} (hsize : size.toNat < 2 ^ 32)
    {s t : NetState} {frame : DataFrame} {now : Int} (hinv : NetInv size s) (h : InOrder size s)
    (hnext : netNext hw s (.data frame now) = some t) : InOrder size t := by
  obtain ⟨hmem, ack, flow, hrecv, rfl⟩ := netNext_data hnext
  obtain ⟨q', rfl, houtcome⟩ := recvData_outcome hrecv
  have hframe := hinv.sent frame hmem
  have hnew : Flow.expected { s.flow with rx := some q' } = q'.receiverNextExpectedSeq := rfl
  have hold : s.flow.expected = (s.flow.rx.getD .new).receiverNextExpectedSeq := rfl
  -- without rounding to chunks the expected number only moves when a segment is accepted
  have hstep : (frame.seq = s.flow.expected ∧
        q'.receiverNextExpectedSeq.toNat = s.flow.expected.toNat + frame.payloadSize.toNat) ∨
      (frame.seq ≠ s.flow.expected ∧ q'.receiverNextExpectedSeq = s.flow.expected) := by
    rcases expected_after hsize hframe houtcome with ⟨hseq, hnat⟩ | ⟨hseq, -⟩
    · exact .inl ⟨hseq, by rw [hnat, hold, hseq]⟩
    · refine .inr ⟨hseq, ?_⟩
      cases houtcome with
      | accepted hacc => exact absurd hacc hseq
      | nacked _ _ hexpected =>
          rw [hexpected, ackValue, if_neg (by rw [hback]; decide)]
          rfl
      | ignored _ _ hexpected => exact hexpected
  refine ⟨?_, ?_, h.done⟩
  · dsimp only
    rw [hnew, acceptedAfter]
    rcases hstep with ⟨hseq, hnat⟩ | ⟨hseq, heq⟩
    · have hsnoc := h.current.snoc frame.payloadSize.toNat
      rw [if_pos hseq, hnat]
      rw [← hseq] at hsnoc ⊢
      exact hsnoc
    · rw [if_neg hseq, heq]
      exact h.current
  · intro hmap
    obtain ⟨hretired, hlargest⟩ := h.live hmap
    refine ⟨hretired, ?_⟩
    dsimp only
    rw [hnew, hlargest]
    rcases hstep with ⟨hseq, hnat⟩ | ⟨hseq, heq⟩
    · omega
    · rw [heq, Nat.max_self]

theorem inOrder_ack {size : UInt64} {s t : NetState} {frame : AckFrame} (hinv : NetInv size s)
    (h : InOrder size s) (hnext : netNext hw s (.ack frame) = some t) : InOrder size t := by
  obtain ⟨hmem, flow, houtcome, ht⟩ := netNext_ack hnext
  cases houtcome with
  | ignored hmap =>
      rw [if_pos rfl] at ht
      rw [ht]
      exact h
  | disabled hmap hinterval =>
      rw [if_pos rfl] at ht
      rw [ht]
      exact ⟨h.current, h.live, h.done⟩
  | live hmap hinterval hopen =>
      rw [if_pos rfl] at ht
      rw [ht]
      exact ⟨h.current, h.live, h.done⟩
  | done hmap hinterval hdone =>
      rw [if_neg (by simp [Flow.complete])] at ht
      rw [ht]
      obtain ⟨hretired, hlargest⟩ := h.live hmap
      have hvalue := (ackValue_le hw frame.seq).trans (hinv.acks frame hmem)
      have huna := hinv.sndUna
      have hbound := hinv.largest
      rw [hinv.mSize] at hdone
      have hfull : s.flow.expected.toNat = size.toNat := by omega
      refine ⟨rfl, fun hlive => absurd hlive (by simp [Flow.complete]), fun _ => ?_⟩
      refine ⟨s.accepted, by rw [hretired], ?_⟩
      rw [← hfull]
      exact h.current

theorem inOrder_step (hback : hw.mBackto0 = false) {size : UInt64} (hsize : size.toNat < 2 ^ 32)
    {s t : NetState} {event : NetEvent} (hinv : NetInv size s) (h : InOrder size s)
    (hnext : netNext hw s event = some t) : InOrder size t := by
  cases event with
  | send =>
      obtain ⟨frame, flow, hsend, rfl⟩ := netNext_send hnext
      obtain ⟨-, -, -, -, hflow⟩ := send_outcome hsend
      rw [hflow]
      exact ⟨h.current, h.live, h.done⟩
  | data frame now => exact inOrder_data hback hsize hinv h hnext
  | ack frame => exact inOrder_ack hinv h hnext

theorem inOrder_start (qp : RdmaQueuePair) : InOrder qp.mSize (netSystem hw qp).init where
  current := rfl
  live := fun _ => ⟨rfl, rfl⟩
  done := fun hmap => absurd hmap (by simp [netSystem, Flow.start])

/-! ### Every run -/

/-- A flow of fewer than `2^32` bytes over a network that may lose, duplicate, delay and reorder. What
the sender takes as acknowledged has been accepted. The flow completes at most once, and only when
every one of its bytes has been accepted. Without `L2BackToZero`, the bytes accepted up to completion
are those of a prefix, each once and in order; frames that arrive after completion start the prefix of
a new receiver state. -/
theorem transport_safety (hw : RdmaHwConfig) (qp : RdmaQueuePair) (hsize : qp.mSize.toNat < 2 ^ 32)
    {s : NetState} (hreach : (netSystem hw qp).Reachable s) :
    (hw.mBackto0 = false →
      bytes s.accepted = List.range s.flow.expected.toNat ∧
      (s.flow.completions = 0 → s.retired = []) ∧
      (s.flow.completions ≠ 0 → ∃ segs, s.retired = [segs] ∧ bytes segs = List.range qp.mSize.toNat)) ∧
    s.flow.qp.sndUna.toNat ≤ s.largest ∧ CoveredBelow s s.largest ∧
    s.flow.completions ≤ 1 ∧
    (s.flow.completions = 1 → s.largest = qp.mSize.toNat ∧ CoveredBelow s qp.mSize.toNat) := by
  have hinv : NetInv qp.mSize s :=
    hreach.invariant (netInv_start qp) fun _ _ _ h hnext => netInv_step hsize h hnext
  have hcount : s.flow.completions ≤ 1 ∧ (s.flow.completions ≠ 0 → s.flow.inMap = false) := by
    cases hmap : s.flow.inMap with
    | true =>
        have hzero := hinv.live hmap
        exact ⟨by omega, fun hne => absurd hzero hne⟩
    | false =>
        have hone := (hinv.done hmap).1
        exact ⟨by omega, fun _ => rfl⟩
  refine ⟨fun hback => ?_, hinv.sndUna, hinv.covered, hcount.1, fun hone => ?_⟩
  · have horder : InOrder qp.mSize s :=
      (hreach.invariant (P := fun s => NetInv qp.mSize s ∧ InOrder qp.mSize s)
        ⟨netInv_start qp, inOrder_start qp⟩ fun _ _ _ h hnext =>
          ⟨netInv_step hsize h.1 hnext, inOrder_step hback hsize h.1 h.2 hnext⟩).2
    refine ⟨horder.current.bytes_prefix, fun hzero => ?_, fun hne => ?_⟩
    · cases hmap : s.flow.inMap with
      | true => exact (horder.live hmap).1
      | false =>
          have hone := (hinv.done hmap).1
          omega
    · obtain ⟨segs, hretired, hfull⟩ := horder.done (hcount.2 hne)
      exact ⟨segs, hretired, hfull.bytes_prefix⟩
  · have hfull := (hinv.done (hcount.2 (by omega))).2
    exact ⟨hfull, hfull ▸ hinv.covered⟩

/-- A flow of one segment whose only frame is delivered again after the flow has completed. -/
def lateDuplicate : List NetEvent :=
  [.send, .data ⟨0, 1000⟩ 1000, .ack ⟨false, 1000⟩, .data ⟨0, 1000⟩ 2000]

/-- The general statement at the end of that run. -/
theorem transport_safety_lateDuplicate :
    ∃ s, (netSystem everySegment (plainQp 1000)).Reachable s ∧ s.flow.completions = 1 ∧
      ∃ segs, s.retired = [segs] ∧ bytes segs = List.range 1000 := by
  have hreach : (netSystem everySegment (plainQp 1000)).Reachable _ :=
    System.reachable_of_exec lateDuplicate rfl
  exact ⟨_, hreach, rfl, ((transport_safety everySegment (plainQp 1000) (by decide) hreach).1 rfl).2.2
    (by decide)⟩

/-- All that the receiver has accepted since the start of that run, in order, is not the bytes of a
prefix: the flow was accepted twice. -/
theorem not_each_byte_once_lateDuplicate :
    ∃ s, (netSystem everySegment (plainQp 1000)).exec (netSystem everySegment (plainQp 1000)).init
        lateDuplicate = some s ∧
      s.retired.flatten ++ s.accepted = [(0, 1000), (0, 1000)] ∧
      ¬ ∃ n, bytes (s.retired.flatten ++ s.accepted) = List.range n := by
  refine ⟨_, rfl, rfl, ?_⟩
  intro h
  obtain ⟨n, hn⟩ := h
  have hlen := congrArg List.length hn
  have hnodup : (bytes [(0, 1000), (0, 1000)]).Nodup := by
    have hrange : bytes [(0, 1000), (0, 1000)] = List.range n := hn
    rw [hrange]
    exact List.nodup_range
  rw [bytes, List.flatMap_cons, List.nodup_append] at hnodup
  exact hnodup.2.2 0 (by simp) 0 (by simp) rfl

end Lcmp
