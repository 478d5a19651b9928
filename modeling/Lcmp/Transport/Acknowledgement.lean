import Lcmp.Lib.Counter
import Lcmp.Lib.Transition
import Lcmp.Transport.RdmaHw

/-!
# Which segments are acknowledged, and what is divided by the chunk

The receiver answers segments at intervals and at the ends of chunks. `ReceiverCheckSeq` moves the next milestone
on, but `ReceiveUdp` puts it back for every segment, so that behind the first interval every segment is answered.
With no chunks the sequence numbers are still divided by the size of a chunk.
-/

namespace Lcmp

variable {hw : RdmaHwConfig}

/-! ### Segments in order -/

/-- The answers to segments that arrive in order, given their times and sizes. -/
def receiveInOrder (hw : RdmaHwConfig) : Option RdmaRxQueuePair → List (Int × UInt32) → Option (List (Option AckFrame))
  | _, [] => some []
  | rxQp, (now, size) :: rest => do
      let (ack, q) ← receiveUdp hw now ⟨(rxQp.getD .new).receiverNextExpectedSeq, size⟩ rxQp
      let acks ← receiveInOrder hw (some q) rest
      some (ack :: acks)

/-- For each segment, `ReceiverNextExpectedSeq` before and after it. -/
def advances : UInt32 → List (Int × UInt32) → List (UInt32 × UInt32)
  | _, [] => []
  | a, (_, size) :: rest => (a, a + size) :: advances (a + size) rest

/-- The bytes of some segments. -/
def bytesOf (segments : List (Int × UInt32)) : Nat := (segments.map fun s => s.2.toNat).sum

/-- A segment that moves the expected number from `a` to `b` is to be answered. -/
def AtMilestone (interval chunk a b : Nat) : Prop :=
  (∃ k, 1 ≤ k ∧ a < k * interval ∧ k * interval ≤ b) ∨ chunk ∣ b

/-- The expected number is in the first interval, or at the end of a chunk, or in another interval than before. -/
def FollowsMilestones (interval chunk a b : Nat) : Prop := b < interval ∨ chunk ∣ b ∨ a / interval < b / interval

/-- Each of the answers is one exactly if its segment is to be answered. -/
def AnswersAtMilestones (hw : RdmaHwConfig) (segments : List (Int × UInt32)) (acks : List (Option AckFrame)) : Prop :=
  ∀ x ∈ (advances 0 segments).zip acks, x.2 = some ⟨false, x.1.2⟩ ↔
    AtMilestone hw.mAckInterval.toNat hw.mChunk.toNat x.1.1.toNat x.1.2.toNat

/-- Every segment follows the milestones. -/
def AllFollow (hw : RdmaHwConfig) (segments : List (Int × UInt32)) : Prop :=
  ∀ ab ∈ advances 0 segments, FollowsMilestones hw.mAckInterval.toNat hw.mChunk.toNat ab.1.toNat ab.2.toNat

/-- What the code asks instead: the number is behind the first interval, or at the end of a chunk. -/
def Answered (hw : RdmaHwConfig) (b : UInt32) : Prop := hw.mAckInterval ≤ b ∨ b % hw.mChunk = 0

instance (b : UInt32) : Decidable (Answered hw b) := inferInstanceAs (Decidable (_ ∨ _))

def answer (hw : RdmaHwConfig) (b : UInt32) : Option AckFrame := if Answered hw b then some ⟨false, b⟩ else none

/-- With chunks, a segment in order is answered behind the first interval and at the end of a chunk. -/
theorem receiveUdp_inOrder (hchunk : hw.mChunk ≠ 0) (now : Int) (size : UInt32) (rxQp : Option RdmaRxQueuePair) :
    ∃ q, receiveUdp hw now ⟨(rxQp.getD .new).receiverNextExpectedSeq, size⟩ rxQp =
        some (answer hw q.receiverNextExpectedSeq, q) ∧
      q.receiverNextExpectedSeq = (rxQp.getD .new).receiverNextExpectedSeq + size := by
  unfold receiveUdp receiverCheckSeq
  dsimp only
  rw [if_pos rfl, UInt32.toUInt32_toInt32]
  by_cases hmilestone : (rxQp.getD .new).receiverNextExpectedSeq + size ≥ hw.mAckInterval
  · rw [if_pos hmilestone]
    refine ⟨_, congrArg some (Prod.ext ?_ rfl), rfl⟩
    exact (if_pos (.inl hmilestone)).symm
  · rw [if_neg hmilestone, if_neg hchunk]
    by_cases hend : ((rxQp.getD .new).receiverNextExpectedSeq + size) % hw.mChunk = 0
    · rw [if_pos hend]
      refine ⟨_, congrArg some (Prod.ext ?_ rfl), rfl⟩
      exact (if_pos (.inr hend)).symm
    · rw [if_neg hend]
      refine ⟨_, congrArg some (Prod.ext ?_ rfl), rfl⟩
      exact (if_neg (not_or.mpr ⟨hmilestone, hend⟩)).symm

/-- All answers, from the numbers alone. -/
theorem receiveInOrder_eq (hchunk : hw.mChunk ≠ 0) (segments : List (Int × UInt32)) (rxQp : Option RdmaRxQueuePair) :
    receiveInOrder hw rxQp segments =
      some ((advances (rxQp.getD .new).receiverNextExpectedSeq segments).map fun ab => answer hw ab.2) := by
  induction segments generalizing rxQp with
  | nil => rfl
  | cons s rest ih =>
      obtain ⟨now, size⟩ := s
      obtain ⟨q, hudp, hexpected⟩ := receiveUdp_inOrder hchunk now size rxQp
      simp only [receiveInOrder, advances]
      rw [hudp, List.map_cons, ← hexpected]
      simp only [Option.bind_eq_bind, Option.bind_some]
      rw [ih (some q)]
      rfl

/-! ### Milestones -/

theorem exists_multiple_iff {interval a b : Nat} (hinterval : 0 < interval) :
    (∃ k, 1 ≤ k ∧ a < k * interval ∧ k * interval ≤ b) ↔ a / interval < b / interval := by
  constructor
  · rintro ⟨k, -, hlow, hhigh⟩
    calc a / interval < k := (Nat.div_lt_iff_lt_mul hinterval).mpr hlow
      _ ≤ b / interval := (Nat.le_div_iff_mul_le hinterval).mpr hhigh
  · intro h
    refine ⟨b / interval, Nat.lt_of_le_of_lt (Nat.zero_le _) h, (Nat.div_lt_iff_lt_mul hinterval).mp h, ?_⟩
    exact Nat.div_mul_le_self b interval

/-- The code answers where it should exactly when the number follows the milestones. -/
theorem answered_iff_atMilestone (hinterval : 0 < hw.mAckInterval.toNat) (a b : UInt32) :
    (Answered hw b ↔ AtMilestone hw.mAckInterval.toNat hw.mChunk.toNat a.toNat b.toNat) ↔
      FollowsMilestones hw.mAckInterval.toNat hw.mChunk.toNat a.toNat b.toNat := by
  have hend : b % hw.mChunk = 0 ↔ hw.mChunk.toNat ∣ b.toNat := by
    rw [← UInt32.toNat_inj, UInt32.toNat_mod, UInt32.toNat_zero]
    exact (Nat.dvd_iff_mod_eq_zero).symm
  have hpast : hw.mAckInterval ≤ b ↔ ¬ b.toNat < hw.mAckInterval.toNat := by
    rw [UInt32.le_iff_toNat_le, Nat.not_lt]
  have hnone : b.toNat < hw.mAckInterval.toNat → ¬ a.toNat / hw.mAckInterval.toNat < b.toNat / hw.mAckInterval.toNat := by
    intro h
    rw [Nat.div_eq_of_lt h]
    exact Nat.not_lt_zero _
  unfold Answered AtMilestone FollowsMilestones
  rw [exists_multiple_iff hinterval, hend, hpast]
  tauto

theorem answer_eq_iff (b : UInt32) : answer hw b = some ⟨false, b⟩ ↔ Answered hw b := by
  unfold answer
  split
  · rename_i h
    exact iff_of_true rfl h
  · rename_i h
    exact iff_of_false (fun h => nomatch h) h

/-- A segment that is answered as it should be takes one of the two quotients up. -/
theorem quotient_lt {a b : UInt32} (hinterval : 0 < hw.mAckInterval.toNat) (hchunk : 0 < hw.mChunk.toNat)
    (hanswered : Answered hw b) (hfollows : FollowsMilestones hw.mAckInterval.toNat hw.mChunk.toNat a.toNat b.toNat)
    (hlt : a.toNat < b.toNat) :
    a.toNat / hw.mAckInterval.toNat < b.toNat / hw.mAckInterval.toNat ∨ a.toNat / hw.mChunk.toNat < b.toNat / hw.mChunk.toNat := by
  rcases ((answered_iff_atMilestone hinterval a b).mpr hfollows).mp hanswered with hcrossed | ⟨k, hk⟩
  · exact .inl ((exists_multiple_iff hinterval).mp hcrossed)
  · right
    rw [hk, Nat.mul_div_cancel_left k hchunk]
    exact Nat.div_lt_of_lt_mul (hk ▸ hlt)

theorem length_advances (a : UInt32) (segments : List (Int × UInt32)) : (advances a segments).length = segments.length := by
  induction segments generalizing a with
  | nil => rfl
  | cons s rest ih => exact congrArg Nat.succ (ih (a + s.2))

/-- Quotients grow by one at least for every answer. -/
theorem count_answers_le (hinterval : 0 < hw.mAckInterval.toNat) (hchunk : 0 < hw.mChunk.toNat)
    (segments : List (Int × UInt32)) (a : UInt32)
    (hfollows : ∀ ab ∈ advances a segments,
      FollowsMilestones hw.mAckInterval.toNat hw.mChunk.toNat ab.1.toNat ab.2.toNat)
    (hsizes : ∀ s ∈ segments, 0 < s.2.toNat) (hfits : a.toNat + bytesOf segments < 2 ^ 32) :
    ((advances a segments).map fun ab => answer hw ab.2).countP Option.isSome +
        (a.toNat / hw.mAckInterval.toNat + a.toNat / hw.mChunk.toNat) ≤
      (a.toNat + bytesOf segments) / hw.mAckInterval.toNat + (a.toNat + bytesOf segments) / hw.mChunk.toNat := by
  induction segments generalizing a with
  | nil => exact Nat.le_of_eq (Nat.zero_add _)
  | cons s rest ih =>
      obtain ⟨now, size⟩ := s
      have htotal : bytesOf ((now, size) :: rest) = size.toNat + bytesOf rest := rfl
      have hsize : 0 < size.toNat := hsizes _ List.mem_cons_self
      rw [htotal, ← Nat.add_assoc a.toNat] at hfits ⊢
      have hsum : (a + size).toNat = a.toNat + size.toNat := by
        rw [UInt32.toNat_add, Nat.mod_eq_of_lt (by omega)]
      have hrest := ih (a + size) (fun ab hab => hfollows ab (List.mem_cons_of_mem _ hab))
        (fun s hs => hsizes s (List.mem_cons_of_mem _ hs)) (by rw [hsum]; exact hfits)
      have hinterval' : a.toNat / hw.mAckInterval.toNat ≤ (a + size).toNat / hw.mAckInterval.toNat :=
        Nat.div_le_div_right (by omega)
      have hchunk' : a.toNat / hw.mChunk.toNat ≤ (a + size).toNat / hw.mChunk.toNat := Nat.div_le_div_right (by omega)
      rw [hsum] at hrest
      simp only [advances, List.map_cons, List.countP_cons]
      by_cases hanswered : Answered hw (a + size)
      · have hfirst : FollowsMilestones hw.mAckInterval.toNat hw.mChunk.toNat a.toNat (a + size).toNat :=
          hfollows (a, a + size) List.mem_cons_self
        have hlt : a.toNat < (a + size).toNat := by omega
        have hgrows := quotient_lt hinterval hchunk hanswered hfirst hlt
        rw [hsum] at hgrows hinterval' hchunk'
        split
        · omega
        · omega
      · have hnone : (answer hw (a + size)).isSome = false := by
          unfold answer
          rw [if_neg hanswered]
          rfl
        rw [hsum] at hinterval' hchunk'
        rw [hnone]
        simp only [Bool.false_eq_true, if_false]
        omega

/-- The receiver follows the law for all segments of a flow exactly when each of them is in the first interval, ends
a chunk or crosses a multiple of the interval. For flows of segments that are not empty, with fewer than `2 ^ 32` bytes,
it then does not answer more often than the bytes allow either. -/
theorem ackInterval_iff (hinterval : 0 < hw.mAckInterval.toNat) (hchunk : 0 < hw.mChunk.toNat)
    (segments : List (Int × UInt32)) :
    ∃ acks, receiveInOrder hw none segments = some acks ∧ acks.length = segments.length ∧
      (AnswersAtMilestones hw segments acks ↔ AllFollow hw segments) ∧
      ((∀ s ∈ segments, 0 < s.2.toNat) → bytesOf segments < 2 ^ 32 →
        (AnswersAtMilestones hw segments acks ∧ acks.countP Option.isSome ≤
            bytesOf segments / hw.mAckInterval.toNat + bytesOf segments / hw.mChunk.toNat ↔ AllFollow hw segments)) := by
  have hne : hw.mChunk ≠ 0 := fun hzero => absurd (congrArg UInt32.toNat hzero) (Nat.ne_of_gt hchunk)
  have hlaw : AnswersAtMilestones hw segments
      ((advances (none.getD RdmaRxQueuePair.new).receiverNextExpectedSeq segments).map fun ab => answer hw ab.2) ↔
        AllFollow hw segments := by
    have hzip : ∀ l : List (UInt32 × UInt32), l.zip (l.map fun ab => answer hw ab.2) = l.map fun ab => (ab, answer hw ab.2) := by
      intro l
      induction l with
      | nil => rfl
      | cons ab l ih => rw [List.map_cons, List.zip_cons_cons, ih, List.map_cons]
    have hstart : (none.getD RdmaRxQueuePair.new).receiverNextExpectedSeq = 0 := rfl
    unfold AnswersAtMilestones AllFollow
    rw [hstart, hzip, List.forall_mem_map]
    refine forall_congr' fun ab => imp_congr_right fun _ => ?_
    rw [answer_eq_iff]
    exact answered_iff_atMilestone hinterval ab.1 ab.2
  refine ⟨_, receiveInOrder_eq hne segments none, ?_, hlaw, fun hsizes hfits => ⟨fun h => hlaw.mp h.1, fun hfollows => ?_⟩⟩
  · rw [List.length_map]
    exact length_advances _ _
  · have hcount := count_answers_le hinterval hchunk segments 0 hfollows hsizes (by
      rw [UInt32.toNat_zero, Nat.zero_add]
      exact hfits)
    rw [UInt32.toNat_zero, Nat.zero_div, Nat.zero_div, Nat.zero_add, Nat.zero_add, Nat.add_zero] at hcount
    exact ⟨hlaw.mpr hfollows, hcount⟩

/-- Chunks of 4000 bytes and an answer for 1000. -/
def everyThousand : RdmaHwConfig where
  mMtu := 1000
  mChunk := 4000
  mAckInterval := 1000
  mBackto0 := false
  mNackInterval := 500000

/-- A segment before the interval, two that cross a multiple each and one that crosses two and ends a chunk. -/
def crossingSegments : List (Int × UInt32) := [(0, 400), (100, 1100), (200, 500), (300, 2000)]

theorem ackInterval_first : ∃ acks, receiveInOrder everyThousand none crossingSegments = some acks ∧ acks.length = 4 ∧
    AnswersAtMilestones everyThousand crossingSegments acks ∧ acks.countP Option.isSome ≤ 4000 / 1000 + 4000 / 4000 := by
  have hinterval : 0 < everyThousand.mAckInterval.toNat := by decide
  obtain ⟨acks, hacks, hlength, -, hall⟩ := ackInterval_iff hinterval (by decide) crossingSegments
  have hfollow : AllFollow everyThousand crossingSegments := by
    intro ab hab
    simp only [crossingSegments, advances, List.mem_cons, List.not_mem_nil, or_false] at hab
    rcases hab with rfl | rfl | rfl | rfl
    · exact .inl (by decide)
    · exact .inr (.inr (by decide))
    · exact .inr (.inr (by decide))
    · exact .inr (.inl (by decide))
  exact ⟨acks, hacks, hlength, (hall (by decide) (by decide)).mpr hfollow⟩

/-- The second segment ends at 1500 and crosses no multiple of 1000, but is answered. -/
theorem answered_between : ∃ acks, receiveInOrder everyThousand none [(0, 1000), (0, 500)] = some acks ∧
    ¬ AnswersAtMilestones everyThousand [(0, 1000), (0, 500)] acks := by
  refine ⟨[some ⟨false, 1000⟩, some ⟨false, 1500⟩], by decide, fun hlaw => ?_⟩
  have hanswered := (hlaw ((1000, 1500), some ⟨false, 1500⟩) (by decide)).mp rfl
  rcases hanswered with ⟨k, -, hlow, hhigh⟩ | hend
  · have hfrom : (1000 : UInt32).toNat = 1000 := rfl
    have hto : (1500 : UInt32).toNat = 1500 := rfl
    have hinterval : everyThousand.mAckInterval.toNat = 1000 := rfl
    dsimp only at hlow hhigh
    rw [hinterval] at hlow hhigh
    omega
  · exact absurd hend (by decide)

/-! ### The divisions by the chunk -/

/-- What can happen to a flow: any segment and any ACK or NACK may arrive. -/
inductive ChunkEvent where
  | data (now : Int) (frame : DataFrame)
  | ack (frame : AckFrame)
  | send

/-- A step has no result exactly when it divides by a chunk of 0. -/
def chunkSystem (hw : RdmaHwConfig) (qp : RdmaQueuePair) : System Flow ChunkEvent where
  init := .start qp
  next := fun f event =>
    match event with
    | .data now frame => (f.recvData hw now frame).map Prod.snd
    | .ack frame => f.recvAck hw frame
    | .send => some ((f.send hw).elim f Prod.snd)

/-- The step comes to no division, or the chunk is not 0. -/
def NoDivision (hw : RdmaHwConfig) (f : Flow) : ChunkEvent → Prop
  | .data now frame =>
      let q := f.rx.getD .new
      if frame.seq = q.receiverNextExpectedSeq then hw.mAckInterval ≤ q.receiverNextExpectedSeq + frame.payloadSize
      else ¬ (frame.seq > q.receiverNextExpectedSeq ∧
        (now ≥ q.mNackTimer ∨ q.mLastNack ≠ q.receiverNextExpectedSeq) ∧ hw.mBackto0 = true)
  | .ack _ => ¬ (f.inMap = true ∧ hw.mAckInterval ≠ 0 ∧ hw.mBackto0 = true)
  | .send => True

/-- `ReceiverCheckSeq` has a result exactly when it comes to no division by 0. -/
theorem receiverCheckSeq_ne_none_iff (now : Int) (seq : UInt32) (q : RdmaRxQueuePair) (size : UInt32) :
    receiverCheckSeq hw now seq q size ≠ none ↔ hw.mChunk ≠ 0 ∨
      (if seq = q.receiverNextExpectedSeq then q.mMilestoneRx.toUInt32 ≤ q.receiverNextExpectedSeq + size
      else ¬ (seq > q.receiverNextExpectedSeq ∧
        (now ≥ q.mNackTimer ∨ q.mLastNack ≠ q.receiverNextExpectedSeq) ∧ hw.mBackto0 = true)) := by
  have hsome : ∀ (r : CheckSeq × RdmaRxQueuePair) (p : Prop), hw.mChunk ≠ 0 ∨ p → (some r ≠ none ↔ hw.mChunk ≠ 0 ∨ p) :=
    fun r p hp => iff_of_true (Option.some_ne_none r) hp
  have hnone : ∀ p : Prop, hw.mChunk = 0 → ¬ p → ((none : Option (CheckSeq × RdmaRxQueuePair)) ≠ none ↔ hw.mChunk ≠ 0 ∨ p) :=
    fun p hchunk hp => iff_of_false (fun h => h rfl) (not_or.mpr ⟨not_not.mpr hchunk, hp⟩)
  unfold receiverCheckSeq
  by_cases hseq : seq = q.receiverNextExpectedSeq
  · rw [if_pos hseq, if_pos hseq]
    dsimp only
    by_cases hmilestone : q.receiverNextExpectedSeq + size ≥ q.mMilestoneRx.toUInt32
    · rw [if_pos hmilestone]
      exact hsome _ _ (.inr hmilestone)
    · rw [if_neg hmilestone]
      by_cases hchunk : hw.mChunk = 0
      · rw [if_pos hchunk]
        exact hnone _ hchunk hmilestone
      · rw [if_neg hchunk]
        split
        · exact hsome _ _ (.inl hchunk)
        · exact hsome _ _ (.inl hchunk)
  · rw [if_neg hseq, if_neg hseq]
    by_cases hahead : seq > q.receiverNextExpectedSeq
    · rw [if_pos hahead]
      by_cases hdue : now ≥ q.mNackTimer ∨ q.mLastNack ≠ q.receiverNextExpectedSeq
      · rw [if_pos hdue]
        dsimp only
        by_cases hback : hw.mBackto0 = true
        · rw [if_pos hback]
          by_cases hchunk : hw.mChunk = 0
          · rw [if_pos hchunk]
            exact hnone _ hchunk fun h => h ⟨hahead, hdue, hback⟩
          · rw [if_neg hchunk]
            exact hsome _ _ (.inl hchunk)
        · rw [if_neg hback]
          exact hsome _ _ (.inr fun h => hback h.2.2)
      · rw [if_neg hdue]
        exact hsome _ _ (.inr fun h => hdue h.2.1)
    · rw [if_neg hahead]
      exact hsome _ _ (.inr fun h => hahead h.1)

theorem recvData_ne_none_iff (now : Int) (frame : DataFrame) (f : Flow) :
    f.recvData hw now frame ≠ none ↔ hw.mChunk ≠ 0 ∨ NoDivision hw f (.data now frame) := by
  have hcheck : f.recvData hw now frame ≠ none ↔ receiverCheckSeq hw now frame.seq
      { f.rx.getD .new with mMilestoneRx := hw.mAckInterval.toInt32 } frame.payloadSize ≠ none := by
    unfold Flow.recvData receiveUdp
    dsimp only
    cases receiverCheckSeq hw now frame.seq { f.rx.getD .new with mMilestoneRx := hw.mAckInterval.toInt32 }
        frame.payloadSize with
    | none => exact iff_of_false (fun h => h rfl) fun h => h rfl
    | some result =>
        obtain ⟨check, q⟩ := result
        cases check with
        | ack => exact iff_of_true (Option.some_ne_none _) (Option.some_ne_none _)
        | nack => exact iff_of_true (Option.some_ne_none _) (Option.some_ne_none _)
        | duplicate => exact iff_of_true (Option.some_ne_none _) (Option.some_ne_none _)
        | nackSuppressed => exact iff_of_true (Option.some_ne_none _) (Option.some_ne_none _)
        | accepted => exact iff_of_true (Option.some_ne_none _) (Option.some_ne_none _)
  rw [hcheck, receiverCheckSeq_ne_none_iff]
  dsimp only
  rw [UInt32.toUInt32_toInt32]
  rfl

theorem recvAck_ne_none_iff (ack : AckFrame) (f : Flow) :
    f.recvAck hw ack ≠ none ↔ hw.mChunk ≠ 0 ∨ NoDivision hw f (.ack ack) := by
  unfold Flow.recvAck receiveAck NoDivision
  by_cases hmap : f.inMap = true
  · rw [if_pos hmap]
    by_cases hinterval : hw.mAckInterval = 0
    · rw [if_pos hinterval]
      exact iff_of_true (Option.some_ne_none _) (.inr fun h => h.2.1 hinterval)
    · rw [if_neg hinterval]
      by_cases htrap : hw.mBackto0 = true ∧ hw.mChunk = 0
      · rw [if_pos htrap]
        exact iff_of_false (fun h => h rfl) (not_or.mpr ⟨not_not.mpr htrap.2, fun h => h ⟨hmap, hinterval, htrap.1⟩⟩)
      · rw [if_neg htrap]
        refine iff_of_true ?_ ?_
        · dsimp only
          split
          · rename_i h
            cases h
          · exact Option.some_ne_none _
          · exact Option.some_ne_none _
        · by_cases hchunk : hw.mChunk = 0
          · exact .inr fun h => htrap ⟨h.2.2, hchunk⟩
          · exact .inl hchunk
  · rw [if_neg hmap]
    exact iff_of_true (Option.some_ne_none _) (.inr fun h => hmap h.1)

variable (hw) in
theorem chunk_step_iff (qp : RdmaQueuePair) (f : Flow) (event : ChunkEvent) :
    (chunkSystem hw qp).next f event ≠ none ↔ hw.mChunk ≠ 0 ∨ NoDivision hw f event := by
  cases event with
  | data now frame =>
      have hmap : (chunkSystem hw qp).next f (.data now frame) ≠ none ↔ f.recvData hw now frame ≠ none :=
        not_congr Option.map_eq_none_iff
      rw [hmap]
      exact recvData_ne_none_iff now frame f
  | ack frame => exact recvAck_ne_none_iff frame f
  | send => exact iff_of_true (Option.some_ne_none _) (.inr trivial)

/-- No sequence of segments, ACKs and NACKs leads to a division by 0 exactly when there are chunks, or neither
answers nor going back to zero. A given sequence leads to none exactly when there are chunks or none of its steps
comes to a division. -/
theorem chunk_safe_iff (hw : RdmaHwConfig) (qp : RdmaQueuePair) :
    ((∀ events, (chunkSystem hw qp).exec (.start qp) events ≠ none) ↔
      hw.mChunk ≠ 0 ∨ (hw.mAckInterval = 0 ∧ hw.mBackto0 = false)) ∧
    ∀ events, (chunkSystem hw qp).exec (.start qp) events ≠ none ↔ hw.mChunk ≠ 0 ∨
      ∀ front event back, events = front ++ event :: back →
        ∀ f, (chunkSystem hw qp).exec (.start qp) front = some f → NoDivision hw f event := by
  have hrun : ∀ events, (chunkSystem hw qp).exec (.start qp) events ≠ none ↔ hw.mChunk ≠ 0 ∨
      ∀ front event back, events = front ++ event :: back →
        ∀ f, (chunkSystem hw qp).exec (.start qp) front = some f → NoDivision hw f event := by
    intro events
    have hsteps := System.exec_ne_none_iff (chunk_step_iff hw qp) events (.start qp)
    rw [hsteps]
    by_cases hchunk : hw.mChunk ≠ 0
    · exact iff_of_true (fun _ _ _ _ _ _ => .inl hchunk) (.inl hchunk)
    · simp only [hchunk, false_or]
  refine ⟨⟨fun hsafe => ?_, fun hsettings events => (hrun events).mpr ?_⟩, hrun⟩
  · by_contra hsettings
    rw [not_or, not_not] at hsettings
    obtain ⟨hchunk, hsettings⟩ := hsettings
    have hfirst : ∀ event, NoDivision hw (.start qp) event := fun event =>
      ((hrun [event]).mp (hsafe [event])).resolve_left (not_not.mpr hchunk) [] event [] rfl _ rfl
    by_cases hback : hw.mBackto0 = true
    · -- a segment ahead of the first one is NACKed, and the number rounded down
      have hahead := hfirst (.data 0 ⟨1, 0⟩)
      have hone : (1 : UInt32) > 0 := by decide
      exact hahead ⟨hone, .inl (Int.le_refl 0), hback⟩
    · -- an empty segment stays below any interval
      have hempty : hw.mAckInterval ≤ 0 := hfirst (.data 0 ⟨0, 0⟩)
      exact hsettings ⟨UInt32.le_zero_iff.mp hempty, Bool.eq_false_iff.mpr hback⟩
  · rcases hsettings with hchunk | ⟨hinterval, hback⟩
    · exact .inl hchunk
    · refine .inr fun front event back _ f _ => ?_
      cases event with
      | data now frame =>
          unfold NoDivision
          dsimp only
          split
          · rw [hinterval]
            exact UInt32.zero_le
          · rw [hback]
            exact fun h => Bool.false_ne_true h.2.2
      | ack frame => exact fun h => h.2.1 hinterval
      | send => trivial

/-- No chunks, and an answer for 1000 bytes. -/
def noChunks : RdmaHwConfig := { everyThousand with mChunk := 0 }

/-- The first 500 bytes are divided by 0. -/
theorem chunk_trap : (chunkSystem noChunks (plainQp 3000)).exec (.start (plainQp 3000)) [.data 0 ⟨0, 500⟩] = none := by
  decide

end Lcmp
