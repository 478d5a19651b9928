import Lcmp.Congestion.Host
import Lcmp.Congestion.Range

/-!
# One update for each round trip

HPCC, TIMELY, DCTCP and HPCC-PINT each keep the number of the last byte that was on its way when they
last took a full update, and wait until an acknowledgement is beyond it. Rollbacks move `snd_nxt` back,
and each algorithm moves its mark by a rule of its own; none moves it below `snd_nxt` in an update or
down between two updates.
-/

namespace Lcmp

namespace CcQueuePair

/-- The number an acknowledgement has to exceed for the next full update. -/
def lastUpdateSeq (cfg : CcConfig) (q : CcQueuePair) : UInt32 :=
  if cfg.mCcMode = 3 then q.hp.mLastUpdateSeq
  else if cfg.mCcMode = 7 then q.tmly.mLastUpdateSeq
  else if cfg.mCcMode = 8 then q.dctcp.mLastUpdateSeq
  else q.hpccPint.mLastUpdateSeq

/-- The acknowledgement is used for a full update. DCTCP's first batch has no alpha to update, and PINT
samples the acknowledgements. -/
def Triggers (cfg : CcConfig) (q : CcQueuePair) (seq rand : UInt32) : Prop :=
  seq > q.lastUpdateSeq cfg ∧ (cfg.mCcMode = 8 → q.dctcp.mLastUpdateSeq ≠ 0) ∧
    (cfg.mCcMode = 10 → rand % 65536 < cfg.pintSmplThresh)

/-- Everything but the transport that decides about full updates and rate cuts. -/
structure Marks where
  hp : UInt32
  tmly : UInt32
  dctcp : Dctcp
  hpccPint : UInt32

def marks (q : CcQueuePair) : Marks where
  hp := q.hp.mLastUpdateSeq
  tmly := q.tmly.mLastUpdateSeq
  dctcp := q.dctcp
  hpccPint := q.hpccPint.mLastUpdateSeq

theorem lastUpdateSeq_congr (cfg : CcConfig) {q q' : CcQueuePair} (h : q'.marks = q.marks) :
    q'.lastUpdateSeq cfg = q.lastUpdateSeq cfg := by
  simp only [marks, Marks.mk.injEq] at h
  simp only [lastUpdateSeq, h]

theorem dctcp_congr {q q' : CcQueuePair} (h : q'.marks = q.marks) : q'.dctcp = q.dctcp :=
  congrArg Marks.dctcp h

/-- The flow and its numbers are below `2 ^ 32`. -/
structure Small (qp : RdmaQueuePair) : Prop where
  mSize : qp.mSize.toNat < 2 ^ 32
  sndNxt : qp.sndNxt.toNat < 2 ^ 32
  sndUna : qp.sndUna.toNat < 2 ^ 32

theorem Small.toUInt32 {qp : RdmaQueuePair} (h : Small qp) : qp.sndNxt.toUInt32.toNat = qp.sndNxt.toNat := by
  rw [UInt64.toNat_toUInt32]
  exact Nat.mod_eq_of_lt h.sndNxt

/-- The congestion control of the four modes leaves the transport alone. A full update leaves the mark at
`snd_nxt` or above, and no other acknowledgement lowers it. -/
structure Handled (cfg : CcConfig) (q q' : CcQueuePair) (full : Prop) : Prop where
  qp : q'.qp = q.qp
  reaches : full → q.qp.sndNxt.toUInt32 ≤ q'.lastUpdateSeq cfg
  keeps : ¬ full → q.lastUpdateSeq cfg ≤ q'.lastUpdateSeq cfg

variable {cfg : CcConfig} {q q' : CcQueuePair}

/-! ### HPCC -/

theorem scanHop_mark (ih : IntHeader) (fastReact : Bool) (s : HopScan) (i : Nat) :
    (scanHop cfg q ih fastReact s i).hp.mLastUpdateSeq = s.hp.mLastUpdateSeq := by
  simp only [scanHop]
  split
  · rfl
  · split
    · rfl
    · split
      · rfl
      · rfl

variable (cfg q) in
theorem scan_mark (ih : IntHeader) (fastReact : Bool) (hops : List Nat) (s : HopScan) :
    (hops.foldl (scanHop cfg q ih fastReact) s).hp.mLastUpdateSeq = s.hp.mLastUpdateSeq := by
  induction hops generalizing s with
  | nil => rfl
  | cons i hops hrest => exact (hrest _).trans (scanHop_mark ih fastReact s i)

theorem applyAggregate_mark {fastReact : Bool} {s : HopScan} (h : applyAggregate cfg q fastReact s = some q') :
    q'.qp = q.qp ∧ q'.hp.mLastUpdateSeq = s.hp.mLastUpdateSeq := by
  simp only [applyAggregate] at h
  obtain ⟨r, -, h⟩ := Option.bind_eq_some_iff.mp h
  split at h
  · rw [← Option.some.inj h]
    exact ⟨rfl, rfl⟩
  · rw [← Option.some.inj h]
    exact ⟨rfl, rfl⟩

theorem applyPerHop_mark {nhop : Nat} {fastReact : Bool} {uninit : UInt32} {s : HopScan}
    (h : applyPerHop cfg q nhop fastReact uninit s = some q') :
    q'.qp = q.qp ∧ q'.hp.mLastUpdateSeq = s.hp.mLastUpdateSeq := by
  simp only [applyPerHop] at h
  obtain ⟨r, -, h⟩ := Option.bind_eq_some_iff.mp h
  cases hupdated : s.updatedAny with
  | true =>
      rw [hupdated] at h
      split at h
      · rw [← Option.some.inj h]
        exact ⟨rfl, rfl⟩
      · rw [← Option.some.inj h]
        exact ⟨rfl, rfl⟩
  | false =>
      rw [hupdated] at h
      split at h
      · rw [← Option.some.inj h]
        exact ⟨rfl, rfl⟩
      · rw [← Option.some.inj h]
        exact ⟨rfl, rfl⟩

theorem applyInt_mark {ih : IntHeader} {fastReact : Bool} {uninit : UInt32}
    (h : applyInt cfg q ih fastReact uninit = some q') :
    q'.qp = q.qp ∧ q'.hp.mLastUpdateSeq = q.hp.mLastUpdateSeq := by
  simp only [applyInt] at h
  have hmark := scan_mark cfg q ih fastReact (List.range ih.nhop.toNat)
  split at h
  · obtain ⟨hqp, happlied⟩ := applyPerHop_mark h
    exact ⟨hqp, happlied.trans (hmark _)⟩
  · split at h
    · obtain ⟨hqp, happlied⟩ := applyAggregate_mark h
      exact ⟨hqp, happlied.trans (hmark _)⟩
    · rw [← Option.some.inj h]
      exact ⟨rfl, hmark _⟩

/-- The end of `UpdateRateHp`. -/
theorem rttEnd_mark {next : UInt32} {fastReact : Bool}
    (h : (if fastReact = false ∧ next > q.hp.mLastUpdateSeq then
        some { q with hp := { q.hp with mLastUpdateSeq := next } } else some q) = some q') :
    q'.qp = q.qp ∧ q.hp.mLastUpdateSeq ≤ q'.hp.mLastUpdateSeq ∧
      (fastReact = false → next ≤ q'.hp.mLastUpdateSeq) := by
  split at h
  · rename_i hforward
    rw [← Option.some.inj h]
    exact ⟨rfl, UInt32.le_of_lt hforward.2, fun _ => UInt32.le_refl _⟩
  · rename_i hstays
    rw [← Option.some.inj h]
    exact ⟨rfl, UInt32.le_refl _, fun hfull => UInt32.not_lt.mp fun hlt => hstays ⟨hfull, hlt⟩⟩

/-- What `UpdateRateHp` does to the mark. -/
theorem updateRateHp_mark {ih : IntHeader} {fastReact : Bool} {uninit : UInt32}
    (h : updateRateHp cfg q ih fastReact uninit = some q') :
    q'.qp = q.qp ∧ q.hp.mLastUpdateSeq ≤ q'.hp.mLastUpdateSeq ∧
      (fastReact = false → q.qp.sndNxt.toUInt32 ≤ q'.hp.mLastUpdateSeq) := by
  simp only [updateRateHp] at h
  split at h
  · rename_i hfirst
    split at h
    · cases h
    · rw [← Option.some.inj h, hfirst]
      exact ⟨rfl, UInt32.zero_le, fun _ => UInt32.le_refl _⟩
  · split at h
    · obtain ⟨q₁, hq₁, h⟩ := Option.bind_eq_some_iff.mp h
      obtain ⟨hqp, hmark⟩ := applyInt_mark hq₁
      obtain ⟨hqp', hmark'⟩ := rttEnd_mark h
      rw [hmark] at hmark'
      exact ⟨hqp'.trans hqp, hmark'⟩
    · exact rttEnd_mark h

theorem handleAckHp_handled (hmode : cfg.mCcMode = 3) {seq rand : UInt32} {ih : IntHeader} {uninit : UInt32}
    (h : handleAckHp cfg q seq ih uninit = some q') : Handled cfg q q' (q.Triggers cfg seq rand) := by
  have hseq : ∀ q : CcQueuePair, q.lastUpdateSeq cfg = q.hp.mLastUpdateSeq := fun q => by
    rw [lastUpdateSeq, if_pos hmode]
  have htriggers : seq > q.hp.mLastUpdateSeq → q.Triggers cfg seq rand := fun hbeyond =>
    ⟨by rwa [hseq], fun h => absurd (hmode.symm.trans h) (by decide),
      fun h => absurd (hmode.symm.trans h) (by decide)⟩
  simp only [handleAckHp] at h
  split at h
  · rename_i hbeyond
    obtain ⟨hqp, -, hreaches⟩ := updateRateHp_mark h
    refine ⟨hqp, fun _ => ?_, fun hnot => absurd (htriggers hbeyond) hnot⟩
    rw [hseq]
    exact hreaches rfl
  · rename_i hwithin
    have hnotfull : ¬ q.Triggers cfg seq rand := fun hfull => hwithin (by rw [← hseq q]; exact hfull.1)
    split at h
    · obtain ⟨hqp, hkeeps, -⟩ := updateRateHp_mark h
      refine ⟨hqp, fun hfull => absurd hfull hnotfull, fun _ => ?_⟩
      rw [hseq, hseq]
      exact hkeeps
    · rw [← Option.some.inj h]
      exact ⟨rfl, fun hfull => absurd hfull hnotfull, fun _ => UInt32.le_refl _⟩

/-! ### TIMELY -/

theorem timelyEnd_mark {next : UInt32} {rtt : UInt64} {us : Bool}
    (h : (if us = false ∧ next > q.tmly.mLastUpdateSeq then
        some { q with tmly := { q.tmly with mLastUpdateSeq := next, lastRtt := rtt } } else some q) = some q') :
    q'.qp = q.qp ∧ (us = false → next ≤ q'.tmly.mLastUpdateSeq) := by
  split at h
  · rw [← Option.some.inj h]
    exact ⟨rfl, fun _ => UInt32.le_refl _⟩
  · rename_i hstays
    rw [← Option.some.inj h]
    exact ⟨rfl, fun hfull => UInt32.not_lt.mp fun hlt => hstays ⟨hfull, hlt⟩⟩

theorem updateRateTimely_mark {now : UInt64} {ih : IntHeader} {us : Bool}
    (h : updateRateTimely cfg q now ih us = some q') :
    q'.qp = q.qp ∧ (us = false → q.qp.sndNxt.toUInt32 ≤ q'.tmly.mLastUpdateSeq) := by
  simp only [updateRateTimely] at h
  split at h
  · obtain ⟨r, -, h⟩ := Option.bind_eq_some_iff.mp h
    have hend := timelyEnd_mark h
    exact hend
  · have hend := timelyEnd_mark h
    exact hend

theorem handleAckTimely_handled (hmode : cfg.mCcMode = 7) {seq rand : UInt32} {now : UInt64} {ih : IntHeader}
    (h : handleAckTimely cfg q seq now ih = some q') : Handled cfg q q' (q.Triggers cfg seq rand) := by
  have hseq : ∀ q : CcQueuePair, q.lastUpdateSeq cfg = q.tmly.mLastUpdateSeq := fun q => by
    rw [lastUpdateSeq, if_neg (by rw [hmode]; decide), if_pos hmode]
  have htriggers : seq > q.tmly.mLastUpdateSeq → q.Triggers cfg seq rand := fun hbeyond =>
    ⟨by rwa [hseq], fun h => absurd (hmode.symm.trans h) (by decide),
      fun h => absurd (hmode.symm.trans h) (by decide)⟩
  simp only [handleAckTimely] at h
  split at h
  · rename_i hbeyond
    obtain ⟨hqp, hreaches⟩ := updateRateTimely_mark h
    refine ⟨hqp, fun _ => ?_, fun hnot => absurd (htriggers hbeyond) hnot⟩
    rw [hseq]
    exact hreaches rfl
  · rename_i hwithin
    rw [← Option.some.inj h]
    refine ⟨rfl, fun hfull => absurd hfull.1 ?_, fun _ => UInt32.le_refl _⟩
    rwa [hseq]

/-! ### DCTCP -/

theorem dctcpBatch_mark {seq : UInt32} (h : dctcpBatch cfg q seq = some q') :
    q'.qp = q.qp ∧ q'.dctcp.mLastUpdateSeq = q.qp.sndNxt.toUInt32 ∧
      q'.dctcp.mCaState = q.dctcp.mCaState ∧ q'.dctcp.mHighSeq = q.dctcp.mHighSeq := by
  simp only [dctcpBatch] at h
  split at h
  · cases h
  · split at h
    · rw [← Option.some.inj h]
      exact ⟨rfl, rfl, rfl, rfl⟩
    · rw [← Option.some.inj h]
      exact ⟨rfl, rfl, rfl, rfl⟩

theorem dctcpIncrease_frame (cfg : CcConfig) (q : CcQueuePair) (newBatch : Bool) :
    (q.dctcpIncrease cfg newBatch).qp = q.qp ∧ (q.dctcpIncrease cfg newBatch).dctcp = q.dctcp := by
  simp only [dctcpIncrease]
  split
  · exact ⟨rfl, rfl⟩
  · exact ⟨rfl, rfl⟩

theorem dctcpExitCwr_frame (seq : UInt32) :
    (q.dctcpExitCwr seq).qp = q.qp ∧ (q.dctcpExitCwr seq).dctcp.mLastUpdateSeq = q.dctcp.mLastUpdateSeq ∧
      (q.dctcpExitCwr seq).dctcp.mHighSeq = q.dctcp.mHighSeq := by
  simp only [dctcpExitCwr]
  split
  · exact ⟨rfl, rfl, rfl⟩
  · exact ⟨rfl, rfl, rfl⟩

theorem dctcpReduce_frame (cfg : CcConfig) (q : CcQueuePair) (cnp : Bool) :
    (q.dctcpReduce cfg cnp).qp = q.qp ∧
      (q.dctcpReduce cfg cnp).dctcp.mLastUpdateSeq = q.dctcp.mLastUpdateSeq := by
  simp only [dctcpReduce]
  split
  · exact ⟨rfl, rfl⟩
  · exact ⟨rfl, rfl⟩

/-- The queue pair once the batch of an acknowledgement is dealt with. -/
theorem handleAckDctcp_batch {seq : UInt32} {cnp : Bool} (h : handleAckDctcp cfg q seq cnp = some q') :
    ∃ (q₁ : CcQueuePair) (newBatch : Bool), q' = ((q₁.dctcpExitCwr seq).dctcpReduce cfg cnp).dctcpIncrease cfg newBatch ∧
      q₁.qp = q.qp ∧ q₁.dctcp.mCaState = q.dctcp.mCaState ∧ q₁.dctcp.mHighSeq = q.dctcp.mHighSeq ∧
      (seq > q.dctcp.mLastUpdateSeq → q₁.dctcp.mLastUpdateSeq = q.qp.sndNxt.toUInt32) ∧
      (¬ seq > q.dctcp.mLastUpdateSeq → q₁.dctcp.mLastUpdateSeq = q.dctcp.mLastUpdateSeq) := by
  simp only [handleAckDctcp] at h
  split at h
  · rename_i hbeyond
    obtain ⟨q₁, hq₁, h⟩ := Option.bind_eq_some_iff.mp h
    obtain ⟨hqp, hmark, hstate, hhigh⟩ := dctcpBatch_mark hq₁
    exact ⟨q₁, _, (Option.some.inj h).symm, hqp, hstate, hhigh, fun _ => hmark,
      fun hnot => absurd (of_decide_eq_true hbeyond) hnot⟩
  · rename_i hwithin
    exact ⟨_, _, (Option.some.inj h).symm, rfl, rfl, rfl,
      fun hbeyond => absurd (decide_eq_true hbeyond) hwithin, fun _ => rfl⟩

theorem handleAckDctcp_handled (hmode : cfg.mCcMode = 8) {seq rand : UInt32} {cnp : Bool}
    (h : handleAckDctcp cfg q seq cnp = some q') : Handled cfg q q' (q.Triggers cfg seq rand) := by
  have hseq : ∀ q : CcQueuePair, q.lastUpdateSeq cfg = q.dctcp.mLastUpdateSeq := fun q => by
    rw [lastUpdateSeq, if_neg (by rw [hmode]; decide), if_neg (by rw [hmode]; decide), if_pos hmode]
  obtain ⟨q₁, newBatch, rfl, hqp, -, -, hbatch, hrest⟩ := handleAckDctcp_batch h
  have hincrease := dctcpIncrease_frame cfg ((q₁.dctcpExitCwr seq).dctcpReduce cfg cnp) newBatch
  have hreduce := dctcpReduce_frame cfg (q₁.dctcpExitCwr seq) cnp
  have hexit := dctcpExitCwr_frame (q := q₁) seq
  have hmark : (((q₁.dctcpExitCwr seq).dctcpReduce cfg cnp).dctcpIncrease cfg newBatch).lastUpdateSeq cfg =
      q₁.dctcp.mLastUpdateSeq := by
    rw [hseq, hincrease.2, hreduce.2, hexit.2.1]
  refine ⟨by rw [hincrease.1, hreduce.1, hexit.1, hqp], fun hfull => ?_, fun hnot => ?_⟩
  · rw [hmark, hbatch (by rw [← hseq]; exact hfull.1)]
    exact UInt32.le_refl _
  · rw [hmark, hseq]
    by_cases hbeyond : seq > q.dctcp.mLastUpdateSeq
    · have hzero : q.dctcp.mLastUpdateSeq = 0 := by
        by_contra hne
        exact hnot ⟨by rwa [hseq], fun _ => hne, fun h => absurd (hmode.symm.trans h) (by decide)⟩
      rw [hzero]
      exact UInt32.zero_le
    · rw [hrest hbeyond]
      exact UInt32.le_refl _

/-! ### HPCC-PINT -/

/-- A mark that only moves forwards. -/
theorem forward_le (mark next : UInt32) :
    mark ≤ (if next > mark then next else mark) ∧ next ≤ (if next > mark then next else mark) := by
  split
  · rename_i hforward
    exact ⟨UInt32.le_of_lt hforward, UInt32.le_refl _⟩
  · rename_i hstays
    exact ⟨UInt32.le_refl _, UInt32.not_lt.mp hstays⟩

theorem updateRateHpPint_mark {ih : IntHeader} {fastReact : Bool}
    (h : updateRateHpPint cfg q ih fastReact = some q') :
    q'.qp = q.qp ∧ q.hpccPint.mLastUpdateSeq ≤ q'.hpccPint.mLastUpdateSeq ∧
      (fastReact = false → q.qp.sndNxt.toUInt32 ≤ q'.hpccPint.mLastUpdateSeq) := by
  simp only [updateRateHpPint] at h
  split at h
  · rename_i hfirst
    rw [← Option.some.inj h, hfirst]
    exact ⟨rfl, UInt32.zero_le, fun _ => UInt32.le_refl _⟩
  · obtain ⟨⟨newRate, incStage⟩, -, h⟩ := Option.bind_eq_some_iff.mp h
    cases fastReact with
    | true =>
        rw [← Option.some.inj h]
        exact ⟨rfl, UInt32.le_refl _, fun hfull => absurd hfull (by decide)⟩
    | false =>
        simp only [Bool.false_eq_true, if_false, Option.some.injEq] at h
        rw [← h]
        exact ⟨rfl, (forward_le _ _).1, fun _ => (forward_le _ _).2⟩

theorem handleAckHpPint_handled (hmode : cfg.mCcMode = 10) {seq rand : UInt32} {ih : IntHeader}
    (h : handleAckHpPint cfg q seq ih rand = some q') : Handled cfg q q' (q.Triggers cfg seq rand) := by
  have hseq : ∀ q : CcQueuePair, q.lastUpdateSeq cfg = q.hpccPint.mLastUpdateSeq := fun q => by
    rw [lastUpdateSeq, if_neg (by rw [hmode]; decide), if_neg (by rw [hmode]; decide),
      if_neg (by rw [hmode]; decide)]
  simp only [handleAckHpPint] at h
  split at h
  · rename_i hskipped
    rw [← Option.some.inj h]
    exact ⟨rfl, fun hfull => absurd (hfull.2.2 hmode) (UInt32.not_lt.mpr hskipped), fun _ => UInt32.le_refl _⟩
  · rename_i hsampled
    obtain ⟨hqp, hkeeps, hreaches⟩ := updateRateHpPint_mark h
    refine ⟨hqp, fun hfull => ?_, fun _ => ?_⟩
    · rw [hseq]
      refine hreaches ?_
      rw [Bool.not_eq_false', decide_eq_true_eq, ← hseq]
      exact hfull.1
    · rw [hseq, hseq]
      exact hkeeps

/-! ### The reduced window of DCTCP -/

/-- The acknowledgement makes DCTCP cut its rate. -/
def Cuts (q : CcQueuePair) (seq : UInt32) (cnp : Bool) : Prop :=
  cnp = true ∧ (q.dctcpExitCwr seq).dctcp.mCaState = 0

theorem dctcpExitCwr_caState {q₁ : CcQueuePair} (hstate : q₁.dctcp.mCaState = q.dctcp.mCaState)
    (hhigh : q₁.dctcp.mHighSeq = q.dctcp.mHighSeq) (seq : UInt32) :
    (q₁.dctcpExitCwr seq).dctcp.mCaState = (q.dctcpExitCwr seq).dctcp.mCaState := by
  simp only [dctcpExitCwr, hstate, hhigh]
  split
  · rfl
  · exact hstate

/-- A cut records `snd_nxt`. -/
theorem handleAckDctcp_cut {seq : UInt32} {cnp : Bool} (h : handleAckDctcp cfg q seq cnp = some q')
    (hcut : q.Cuts seq cnp) : q'.dctcp.mCaState = 1 ∧ q'.dctcp.mHighSeq = q.qp.sndNxt.toUInt32 := by
  obtain ⟨q₁, newBatch, rfl, hqp, hstate, hhigh, -⟩ := handleAckDctcp_batch h
  have hzero : cnp = true ∧ (q₁.dctcpExitCwr seq).dctcp.mCaState = 0 := by
    rw [dctcpExitCwr_caState hstate hhigh]
    exact hcut
  rw [(dctcpIncrease_frame cfg _ newBatch).2, dctcpReduce, if_pos hzero, (dctcpExitCwr_frame seq).1, hqp]
  exact ⟨rfl, rfl⟩

/-- In the reduced window an acknowledgement that is not beyond the recorded number changes nothing. -/
theorem handleAckDctcp_reduced {seq : UInt32} {cnp : Bool} (h : handleAckDctcp cfg q seq cnp = some q')
    (hstate : q.dctcp.mCaState = 1) (hwithin : ¬ seq > q.dctcp.mHighSeq) :
    q'.dctcp.mCaState = 1 ∧ q'.dctcp.mHighSeq = q.dctcp.mHighSeq := by
  obtain ⟨q₁, newBatch, rfl, -, hstate₁, hhigh₁, -⟩ := handleAckDctcp_batch h
  have hexit : q₁.dctcpExitCwr seq = q₁ := by
    rw [dctcpExitCwr, if_neg fun hout => hwithin (by rw [← hhigh₁]; exact hout.2)]
  have hreduce : q₁.dctcpReduce cfg cnp = q₁ := by
    refine if_neg fun hcut => ?_
    rw [hstate₁, hstate] at hcut
    exact absurd hcut.2 (by decide)
  rw [(dctcpIncrease_frame cfg _ newBatch).2, hexit, hreduce, hstate₁, hhigh₁]
  exact ⟨hstate, rfl⟩

theorem not_cuts_of_reduced {seq : UInt32} {cnp : Bool} (hstate : q.dctcp.mCaState = 1)
    (hwithin : ¬ seq > q.dctcp.mHighSeq) : ¬ q.Cuts seq cnp := by
  intro hcut
  rw [Cuts, dctcpExitCwr, if_neg fun hout => hwithin hout.2, hstate] at hcut
  exact absurd hcut.2 (by decide)

/-! ### Calls that leave the marks alone -/

theorem runTimer_frame (i : Nat) (t : Timers) (kind : TimerKind) :
    (q.runTimer cfg i t kind).1.marks = q.marks ∧ (q.runTimer cfg i t kind).1.qp = q.qp := by
  cases kind with
  | updateAlphaMlx => exact ⟨rfl, rfl⟩
  | checkRateDecreaseMlx =>
      simp only [runTimer, checkRateDecreaseMlx]
      split
      · exact ⟨rfl, rfl⟩
      · exact ⟨rfl, rfl⟩
  | rateIncEventTimerMlx =>
      simp only [runTimer, rateIncEventTimerMlx, rateIncEventMlx]
      split
      · exact ⟨rfl, rfl⟩
      · split
        · exact ⟨rfl, rfl⟩
        · exact ⟨rfl, rfl⟩

theorem cnpReceivedMlx_frame (cfg : CcConfig) (q : CcQueuePair) (i : Nat) (t : Timers) :
    (q.cnpReceivedMlx cfg i t).1.marks = q.marks ∧ (q.cnpReceivedMlx cfg i t).1.qp = q.qp := by
  simp only [cnpReceivedMlx]
  split
  · exact ⟨rfl, rfl⟩
  · exact ⟨rfl, rfl⟩

theorem getNxtPacket_small {hw : RdmaHwConfig} {qp : RdmaQueuePair} (h : Small qp) (hleft : qp.getBytesLeft > 0) :
    Small (getNxtPacket hw qp).2 := by
  have hbytes := RdmaQueuePair.getBytesLeft_toNat qp
  have hsize := h.mSize
  have hpositive : 0 < qp.getBytesLeft.toNat := UInt64.lt_iff_toNat_lt.mp hleft
  have hpayload : ∀ mtu : UInt32, (if mtu < qp.getBytesLeft.toUInt32 then mtu else qp.getBytesLeft.toUInt32).toNat ≤
      qp.getBytesLeft.toNat := by
    intro mtu
    have hword : qp.getBytesLeft.toUInt32.toNat ≤ qp.getBytesLeft.toNat := by
      rw [UInt64.toNat_toUInt32]
      exact Nat.mod_le _ _
    split
    · rename_i hmtu
      exact Nat.le_trans (Nat.le_of_lt (UInt32.lt_iff_toNat_lt.mp hmtu)) hword
    · exact hword
  refine ⟨h.mSize, ?_, h.sndUna⟩
  have hsent := hpayload hw.mMtu
  simp only [getNxtPacket]
  rw [UInt64.toNat_add, UInt32.toNat_toUInt64]
  omega

theorem receiveAck_small {hw : RdmaHwConfig} {ack : AckFrame} {qp qp' : RdmaQueuePair} {finished : Bool}
    (h : Small qp) (hack : receiveAck hw ack qp = some (qp', finished)) : Small qp' := by
  have hsettle : ∀ qp : RdmaQueuePair, Small qp → Small (settle ack qp) := by
    intro qp hqp
    rw [settle]
    split
    · exact ⟨hqp.mSize, hqp.sndUna, hqp.sndUna⟩
    · exact hqp
  rw [receiveAck] at hack
  split at hack
  · rw [← (Prod.mk.inj (Option.some.inj hack)).1]
    exact hsettle qp h
  · split at hack
    · cases hack
    · rw [← (Prod.mk.inj (Option.some.inj hack)).1]
      have hsame := RdmaQueuePair.acknowledge_sndNxt qp (ackValue hw ack.seq).toUInt64
      refine hsettle _ ⟨?_, ?_, ?_⟩
      · rw [hsame.2]
        exact h.mSize
      · rw [hsame.1]
        exact h.sndNxt
      · have hvalue := (ackValue hw ack.seq).toNat_lt
        rw [RdmaQueuePair.acknowledge_toNat, UInt32.toNat_toUInt64]
        exact max_lt h.sndUna hvalue

end CcQueuePair

namespace CcHost

variable {cfg : CcConfig} {h h' : CcHost} {i : Nat} {q q' : CcQueuePair}

/-- The mode is one of the four. -/
def RoundTripMode (cfg : CcConfig) : Prop :=
  cfg.mCcMode = 3 ∨ cfg.mCcMode = 7 ∨ cfg.mCcMode = 8 ∨ cfg.mCcMode = 10

theorem handleAck_handled (hmode : RoundTripMode cfg) {p : AckPacket} {now : UInt64} {rand uninit : UInt32}
    (hhandle : handleAck cfg q p now rand uninit = some q') :
    CcQueuePair.Handled cfg q q' (q.Triggers cfg p.frame.seq rand) := by
  rcases hmode with hmode | hmode | hmode | hmode
  · rw [handleAck, if_pos hmode] at hhandle
    exact CcQueuePair.handleAckHp_handled hmode hhandle
  · rw [handleAck, if_neg (by rw [hmode]; decide), if_pos hmode] at hhandle
    exact CcQueuePair.handleAckTimely_handled hmode hhandle
  · rw [handleAck, if_neg (by rw [hmode]; decide), if_neg (by rw [hmode]; decide), if_pos hmode] at hhandle
    exact CcQueuePair.handleAckDctcp_handled hmode hhandle
  · rw [handleAck, if_neg (by rw [hmode]; decide), if_neg (by rw [hmode]; decide),
      if_neg (by rw [hmode]; decide), if_pos hmode] at hhandle
    exact CcQueuePair.handleAckHpPint_handled hmode hhandle

theorem handleAck_dctcp (hmode : cfg.mCcMode = 8) (p : AckPacket) (now : UInt64) (rand uninit : UInt32) :
    handleAck cfg q p now rand uninit = q.handleAckDctcp cfg p.frame.seq p.cnp := by
  rw [handleAck, if_neg (by rw [hmode]; decide), if_neg (by rw [hmode]; decide), if_pos hmode]

theorem afterFlags_frame (cfg : CcConfig) (p : AckPacket) (i : Nat) (finished : Bool) (q : CcQueuePair) (t : Timers) :
    (afterFlags cfg p i finished q t).1.marks = q.marks ∧ (afterFlags cfg p i finished q t).1.qp = q.qp := by
  have hcomplete : (completeIf cfg finished q t).1.marks = q.marks ∧ (completeIf cfg finished q t).1.qp = q.qp := by
    simp only [completeIf]
    split
    · exact ⟨rfl, rfl⟩
    · exact ⟨rfl, rfl⟩
  simp only [afterFlags, cnpIf]
  split
  · have hcnp := CcQueuePair.cnpReceivedMlx_frame cfg (completeIf cfg finished q t).1 i
      (completeIf cfg finished q t).2
    exact ⟨hcnp.1.trans hcomplete.1, hcnp.2.trans hcomplete.2⟩
  · exact hcomplete

theorem initRates_frame : (initRates cfg q).marks = q.marks ∧ (initRates cfg q).qp = q.qp := by
  simp only [initRates]
  split
  · exact ⟨rfl, rfl⟩
  · split
    · exact ⟨rfl, rfl⟩
    · split
      · exact ⟨rfl, rfl⟩
      · split
        · exact ⟨rfl, rfl⟩
        · exact ⟨rfl, rfl⟩

/-! ### One event -/

/-- The event is an acknowledgement for queue pair `i`; `q` is what the algorithm of the mode finds, once
the transport has seen the acknowledgement. -/
def Acked (cfg : CcConfig) (i : Nat) (h : CcHost) (e : HostEvent) (p : AckPacket) (rand : UInt32)
    (q : CcQueuePair) : Prop :=
  ∃ now uninit finished, e = .ack p now rand uninit ∧ h.ackedQp cfg p = some (i, q, finished)

/-- The acknowledgement numbered `seq` triggers a full update, at a time when `snd_nxt` is `nxt`. -/
def FullUpdate (cfg : CcConfig) (i : Nat) (h : CcHost) (e : HostEvent) (seq : UInt32) (nxt : UInt64) : Prop :=
  ∃ p rand q, Acked cfg i h e p rand q ∧ q.Triggers cfg p.frame.seq rand ∧ p.frame.seq = seq ∧ q.qp.sndNxt = nxt

/-- The acknowledgement makes DCTCP cut the rate, at a time when `snd_nxt` is `nxt`. -/
def RateCut (cfg : CcConfig) (i : Nat) (h : CcHost) (e : HostEvent) (nxt : UInt64) : Prop :=
  ∃ p rand q, Acked cfg i h e p rand q ∧ q.Cuts p.frame.seq p.cnp ∧ q.qp.sndNxt = nxt

/-- Flows are smaller than `2 ^ 32`. -/
def SizeFits : HostEvent → Prop
  | .addQueuePair _ _ size _ _ _ _ => size.toNat < 2 ^ 32
  | _ => True

def AllSmall (h : CcHost) : Prop := ∀ q ∈ h.qps, CcQueuePair.Small q.qp

theorem ackedQp_spec {p : AckPacket} {finished : Bool} (hacked : h.ackedQp cfg p = some (i, q, finished)) :
    ∃ q₀ qp, h.qpMap (getQpKey p.sip p.dport p.pg) = some i ∧ h.qps[i]? = some q₀ ∧
      Lcmp.receiveAck cfg.toRdmaHwConfig p.frame q₀.qp = some (qp, finished) ∧ q = { q₀ with qp := qp } := by
  obtain ⟨j, hkey, hacked⟩ := Option.bind_eq_some_iff.mp hacked
  obtain ⟨q₀, hq₀, hacked⟩ := Option.bind_eq_some_iff.mp hacked
  obtain ⟨⟨qp, finished'⟩, hack, hacked⟩ := Option.bind_eq_some_iff.mp hacked
  cases hacked
  exact ⟨q₀, qp, hkey, hq₀, hack, rfl⟩

theorem ackedQp_small {p : AckPacket} {finished : Bool} (hsmall : AllSmall h)
    (hacked : h.ackedQp cfg p = some (i, q, finished)) : CcQueuePair.Small q.qp := by
  obtain ⟨q₀, qp, -, hq₀, hack, hq⟩ := ackedQp_spec hacked
  subst hq
  exact CcQueuePair.receiveAck_small (hsmall q₀ (List.mem_of_getElem? hq₀)) hack

theorem get_set_self {qps : List CcQueuePair} {q₀ : CcQueuePair} (hq₀ : qps[i]? = some q₀) :
    (qps.set i q)[i]? = some q := by
  obtain ⟨hi, -⟩ := List.getElem?_eq_some_iff.mp hq₀
  exact List.getElem?_set_self hi

/-- The queue pair an acknowledgement is for goes through the algorithm of the mode. -/
theorem acked_step {p : AckPacket} {rand : UInt32} {e : HostEvent} (hnext : hostNext cfg h e = some h')
    (hacked : Acked cfg i h e p rand q) :
    ∃ q₁ q' now uninit, q₁.marks = q.marks ∧ q₁.qp = q.qp ∧ handleAck cfg q₁ p now rand uninit = some q' ∧
      h'.qps[i]? = some q' := by
  obtain ⟨now, uninit, finished, he, hacked⟩ := hacked
  subst he
  obtain ⟨q₀, qp, hkey, hq₀, hack, hq⟩ := ackedQp_spec hacked
  cases hostNext_step hnext with
  | unknown hnone =>
      rw [hkey] at hnone
      cases hnone
  | @acked _ _ _ _ j q₂ q' qp' finished' hkey' hq₂ hack' hhandle =>
      obtain rfl := Option.some.inj (hkey.symm.trans hkey')
      obtain rfl := Option.some.inj (hq₀.symm.trans hq₂)
      obtain ⟨rfl, rfl⟩ := Prod.mk.inj (Option.some.inj (hack.symm.trans hack'))
      have hframe := afterFlags_frame cfg p i finished { q₀ with qp := qp } h.timers
      subst hq
      exact ⟨_, q', now, uninit, hframe.1, hframe.2, hhandle, get_set_self hq₀⟩

/-- Where the event is no acknowledgement for it, a queue pair keeps its marks. -/
theorem other_step {e : HostEvent} (hnext : hostNext cfg h e = some h') (hq : h.qps[i]? = some q)
    (hother : ∀ p rand q, ¬ Acked cfg i h e p rand q) : ∃ q', h'.qps[i]? = some q' ∧ q'.marks = q.marks := by
  have hset : ∀ {j : Nat} {q₁ q₂ : CcQueuePair}, h.qps[j]? = some q₁ → q₂.marks = q₁.marks →
      ∃ q', (h.qps.set j q₂)[i]? = some q' ∧ q'.marks = q.marks := by
    intro j q₁ q₂ hq₁ hmarks
    by_cases hj : j = i
    · subst hj
      obtain rfl := Option.some.inj (hq.symm.trans hq₁)
      exact ⟨q₂, get_set_self hq₁, hmarks⟩
    · rw [List.getElem?_set_ne hj]
      exact ⟨q, hq, rfl⟩
  cases hostNext_step hnext with
  | added dip sport size pg win baseRtt hop =>
      obtain ⟨hi, -⟩ := List.getElem?_eq_some_iff.mp hq
      exact ⟨q, by rw [addQueuePair, List.getElem?_append_left hi, hq], rfl⟩
  | sent hq₁ => exact hset hq₁ rfl
  | unknown hkey => exact ⟨q, hq, rfl⟩
  | @acked p now rand uninit j q₁ q' qp finished hkey hq₁ hack hhandle =>
      have hj : j ≠ i := by
        intro hj
        subst hj
        refine hother p rand { q₁ with qp := qp } ⟨now, uninit, finished, rfl, ?_⟩
        simp only [ackedQp, hkey, hq₁, hack, Option.bind_eq_bind, Option.bind_some]
      rw [List.getElem?_set_ne hj]
      exact ⟨q, hq, rfl⟩
  | idle sip fid qIndex => exact ⟨q, hq, rfl⟩
  | initialised sip fid qIndex hq₁ hzero => exact hset hq₁ initRates_frame.1
  | @fired uid kind j timers q₁ hfire hq₁ => exact hset hq₁ (CcQueuePair.runTimer_frame j timers kind).1

theorem allSmall_step (hmode : RoundTripMode cfg) {e : HostEvent} (hsmall : AllSmall h) (hfits : SizeFits e)
    (hnext : hostNext cfg h e = some h') : AllSmall h' := by
  have hset : ∀ {j : Nat} {q₂ : CcQueuePair}, CcQueuePair.Small q₂.qp →
      ∀ q ∈ h.qps.set j q₂, CcQueuePair.Small q.qp := by
    intro j q₂ hq₂ q hq
    rcases List.mem_or_eq_of_mem_set hq with hold | rfl
    · exact hsmall q hold
    · exact hq₂
  have hold : ∀ {j : Nat} {q : CcQueuePair}, h.qps[j]? = some q → CcQueuePair.Small q.qp := fun hq =>
    hsmall _ (List.mem_of_getElem? hq)
  cases e with
  | send j =>
      obtain ⟨q, hq, hsend⟩ := Option.bind_eq_some_iff.mp hnext
      split at hsend
      · rename_i hleft
        rw [← Option.some.inj hsend]
        exact hset (CcQueuePair.getNxtPacket_small (hold hq) hleft)
      · cases hsend
  | addQueuePair dip sport size pg win baseRtt hop =>
      rw [← Option.some.inj hnext]
      intro q hq
      rcases List.mem_append.mp hq with hq | hq
      · exact hsmall q hq
      · rw [List.mem_singleton.mp hq]
        exact ⟨hfits, Nat.two_pow_pos 32, Nat.two_pow_pos 32⟩
  | ack p now rand uninit =>
      cases hostNext_step hnext with
      | unknown hkey => exact hsmall
      | acked hkey hq₁ hack hhandle =>
          refine hset ?_
          rw [(handleAck_handled hmode hhandle).qp, (afterFlags_frame _ _ _ _ _ _).2]
          exact CcQueuePair.receiveAck_small (hold hq₁) hack
  | cnp sip fid qIndex =>
      cases hostNext_step hnext with
      | idle => exact hsmall
      | initialised _ _ _ hq₁ hzero =>
          refine hset ?_
          rw [initRates_frame.2]
          exact hold hq₁
  | fire uid =>
      cases hostNext_step hnext with
      | @fired uid kind j timers q₁ hfire hq₁ =>
          refine hset ?_
          rw [(CcQueuePair.runTimer_frame j timers kind).2]
          exact hold hq₁

theorem triggers_congr {q₁ : CcQueuePair} (hmarks : q₁.marks = q.marks) (seq rand : UInt32) :
    q₁.Triggers cfg seq rand ↔ q.Triggers cfg seq rand := by
  rw [CcQueuePair.Triggers, CcQueuePair.Triggers, CcQueuePair.lastUpdateSeq_congr cfg hmarks,
    CcQueuePair.dctcp_congr hmarks]

/-- A full update leaves the mark at `snd_nxt` or above. -/
theorem fullUpdate_reaches (hmode : RoundTripMode cfg) (hsmall : AllSmall h) {e : HostEvent} {seq : UInt32}
    {nxt : UInt64} (hfull : FullUpdate cfg i h e seq nxt) (hnext : hostNext cfg h e = some h') :
    ∃ q', h'.qps[i]? = some q' ∧ nxt.toNat ≤ (q'.lastUpdateSeq cfg).toNat := by
  obtain ⟨p, rand, q, hacked, htriggers, -, hnxt⟩ := hfull
  obtain ⟨q₁, q', now, uninit, hmarks, hqp, hhandle, hq'⟩ := acked_step hnext hacked
  have hreaches := (handleAck_handled hmode hhandle).reaches ((triggers_congr hmarks _ _).mpr htriggers)
  obtain ⟨-, -, finished, -, hackedQp⟩ := hacked
  rw [UInt32.le_iff_toNat_le, hqp, (ackedQp_small hsmall hackedQp).toUInt32, hnxt] at hreaches
  exact ⟨q', hq', hreaches⟩

/-- No other event lowers the mark. -/
theorem mark_step (hmode : RoundTripMode cfg) {e : HostEvent} (hnext : hostNext cfg h e = some h')
    (hq : h.qps[i]? = some q) (hnot : ∀ seq nxt, ¬ FullUpdate cfg i h e seq nxt) :
    ∃ q', h'.qps[i]? = some q' ∧ q.lastUpdateSeq cfg ≤ q'.lastUpdateSeq cfg := by
  by_cases hacked : ∃ p rand q, Acked cfg i h e p rand q
  · obtain ⟨p, rand, qₐ, hacked⟩ := hacked
    obtain ⟨q₁, q', now, uninit, hmarks, -, hhandle, hq'⟩ := acked_step hnext hacked
    have hkeeps := (handleAck_handled hmode hhandle).keeps fun hfull =>
      hnot _ _ ⟨p, rand, qₐ, hacked, (triggers_congr hmarks _ _).mp hfull, rfl, rfl⟩
    obtain ⟨-, -, finished, -, hackedQp⟩ := hacked
    obtain ⟨q₀, qp, -, hq₀, -, hqₐ⟩ := ackedQp_spec hackedQp
    obtain rfl := Option.some.inj (hq.symm.trans hq₀)
    subst hqₐ
    rw [CcQueuePair.lastUpdateSeq_congr cfg hmarks] at hkeeps
    exact ⟨q', hq', hkeeps⟩
  · obtain ⟨q', hq', hmarks⟩ := other_step hnext hq fun p rand q hsome => hacked ⟨p, rand, q, hsome⟩
    refine ⟨q', hq', ?_⟩
    rw [CcQueuePair.lastUpdateSeq_congr cfg hmarks]
    exact UInt32.le_refl _

/-! ### Cuts -/

/-- DCTCP is in the reduced window, and `nxt` was recorded when it went there. -/
def Reduced (i : Nat) (nxt : UInt64) (h : CcHost) : Prop :=
  ∃ q, h.qps[i]? = some q ∧ q.dctcp.mCaState = 1 ∧ q.dctcp.mHighSeq = nxt.toUInt32

/-- The event is an acknowledgement for queue pair `i` that is numbered above `nxt`. -/
def AckedAbove (cfg : CcConfig) (i : Nat) (nxt : UInt64) (h : CcHost) (e : HostEvent) : Prop :=
  ∃ p rand q, Acked cfg i h e p rand q ∧ nxt.toNat < p.frame.seq.toNat

theorem rateCut_reduced (hmode : cfg.mCcMode = 8) {e : HostEvent} {nxt : UInt64}
    (hcut : RateCut cfg i h e nxt) (hnext : hostNext cfg h e = some h') : Reduced i nxt h' := by
  obtain ⟨p, rand, q, hacked, hcuts, hnxt⟩ := hcut
  obtain ⟨q₁, q', now, uninit, hmarks, hqp, hhandle, hq'⟩ := acked_step hnext hacked
  rw [handleAck_dctcp hmode] at hhandle
  have hcuts₁ : q₁.Cuts p.frame.seq p.cnp := by
    have hdctcp := CcQueuePair.dctcp_congr hmarks
    refine ⟨hcuts.1, ?_⟩
    rw [CcQueuePair.dctcpExitCwr_caState (congrArg Dctcp.mCaState hdctcp) (congrArg Dctcp.mHighSeq hdctcp)]
    exact hcuts.2
  obtain ⟨hstate, hhigh⟩ := CcQueuePair.handleAckDctcp_cut hhandle hcuts₁
  rw [hqp, hnxt] at hhigh
  exact ⟨q', hq', hstate, hhigh⟩

theorem acked_dctcp {e : HostEvent} {p : AckPacket} {rand : UInt32} {qₐ : CcQueuePair}
    (hq : h.qps[i]? = some q) (hacked : Acked cfg i h e p rand qₐ) : qₐ.dctcp = q.dctcp := by
  obtain ⟨-, -, finished, -, hacked⟩ := hacked
  obtain ⟨q₀, qp, -, hq₀, -, hqₐ⟩ := ackedQp_spec hacked
  obtain rfl := Option.some.inj (hq.symm.trans hq₀)
  rw [hqₐ]

/-- Until an acknowledgement is above the recorded number, the window stays reduced. -/
theorem reduced_step (hmode : cfg.mCcMode = 8) {e : HostEvent} {nxt : UInt64} (hnxt : nxt.toNat < 2 ^ 32)
    (hreduced : Reduced i nxt h) (hbelow : ¬ AckedAbove cfg i nxt h e) (hnext : hostNext cfg h e = some h') :
    Reduced i nxt h' ∧ ∀ nxt', ¬ RateCut cfg i h e nxt' := by
  obtain ⟨q, hq, hstate, hhigh⟩ := hreduced
  have hword : nxt.toUInt32.toNat = nxt.toNat := by
    rw [UInt64.toNat_toUInt32]
    exact Nat.mod_eq_of_lt hnxt
  have hwithin : ∀ {p rand qₐ}, Acked cfg i h e p rand qₐ → ¬ p.frame.seq > q.dctcp.mHighSeq := by
    intro p rand qₐ hacked habove
    rw [gt_iff_lt, UInt32.lt_iff_toNat_lt, hhigh, hword] at habove
    exact hbelow ⟨p, rand, qₐ, hacked, habove⟩
  constructor
  · by_cases hacked : ∃ p rand q, Acked cfg i h e p rand q
    · obtain ⟨p, rand, qₐ, hacked⟩ := hacked
      have hdctcp := acked_dctcp hq hacked
      obtain ⟨q₁, q', now, uninit, hmarks, -, hhandle, hq'⟩ := acked_step hnext hacked
      rw [handleAck_dctcp hmode] at hhandle
      have hdctcp₁ := (CcQueuePair.dctcp_congr hmarks).trans hdctcp
      obtain ⟨hstate', hhigh'⟩ := CcQueuePair.handleAckDctcp_reduced hhandle (by rw [hdctcp₁]; exact hstate)
        (by rw [hdctcp₁]; exact hwithin hacked)
      rw [hdctcp₁, hhigh] at hhigh'
      exact ⟨q', hq', hstate', hhigh'⟩
    · obtain ⟨q', hq', hmarks⟩ := other_step hnext hq fun p rand q hsome => hacked ⟨p, rand, q, hsome⟩
      refine ⟨q', hq', ?_⟩
      rw [CcQueuePair.dctcp_congr hmarks]
      exact ⟨hstate, hhigh⟩
  · intro nxt' hcut
    obtain ⟨p, rand, qₐ, hacked, hcuts, -⟩ := hcut
    have hdctcp := acked_dctcp hq hacked
    exact CcQueuePair.not_cuts_of_reduced (by rw [hdctcp]; exact hstate) (by rw [hdctcp]; exact hwithin hacked) hcuts

/-! ### Runs -/

def dctcpConfig : CcConfig := { dcqcn with mCcMode := 8 }

/-- The host after an event that has a result. -/
def after (h : CcHost) (e : HostEvent) : CcHost := (hostNext dctcpConfig h e).getD h

def addFlow : HostEvent := .addQueuePair 0x0b000101 10000 4000 3 0 8000 (fun _ => idleHop)

def oneSent : CcHost := after (after empty addFlow) (.send 0)

def oneAcked : CcHost := after oneSent (markedAck 1000)

def twoSent : CcHost := after oneAcked (.send 0)

def twoAcked : CcHost := after twoSent (markedAck 2000)

def threeSent : CcHost := after twoAcked (.send 0)

theorem run_threeAcked : (hostSystem dctcpConfig).Run empty
    ([⟨empty, addFlow, after empty addFlow⟩, ⟨after empty addFlow, .send 0, oneSent⟩,
        ⟨oneSent, markedAck 1000, oneAcked⟩, ⟨oneAcked, .send 0, twoSent⟩] ++
      ⟨twoSent, markedAck 2000, twoAcked⟩ :: ([⟨twoAcked, .send 0, threeSent⟩] ++
        ⟨threeSent, markedAck 3000, after threeSent (markedAck 3000)⟩ :: []))
    (after threeSent (markedAck 3000)) :=
  .cons rfl (.cons rfl (.cons rfl (.cons rfl (.cons rfl (.cons rfl (.cons rfl (.nil _)))))))

theorem fullUpdate_twoSent : FullUpdate dctcpConfig 0 twoSent (markedAck 2000) 2000 2000 :=
  ⟨_, _, _, ⟨0, 0, false, rfl, rfl⟩, ⟨by decide, fun _ => by decide, fun h => absurd h (by decide)⟩, rfl, rfl⟩

theorem fullUpdate_threeSent : FullUpdate dctcpConfig 0 threeSent (markedAck 3000) 3000 3000 :=
  ⟨_, _, _, ⟨0, 0, false, rfl, rfl⟩, ⟨by decide, fun _ => by decide, fun h => absurd h (by decide)⟩, rfl, rfl⟩

theorem rateCut_twoSent : RateCut dctcpConfig 0 twoSent (markedAck 2000) 2000 :=
  ⟨_, _, _, ⟨0, 0, false, rfl, rfl⟩, ⟨rfl, by decide⟩, rfl⟩

theorem rateCut_threeSent : RateCut dctcpConfig 0 threeSent (markedAck 3000) 3000 :=
  ⟨_, _, _, ⟨0, 0, false, rfl, rfl⟩, ⟨rfl, by decide⟩, rfl⟩

end CcHost

end Lcmp
