import Lcmp.Mmu.Accounting

/-!
# The gap between pause and resume

A queue is paused when it uses headroom or has reached its threshold, and resumed when it uses no
headroom and is `resume_offset` below the threshold. The offset keeps the two apart, except that a
queue without shared bytes is resumed whatever the threshold is, and is paused when the threshold is
zero. The threshold belongs to all ports: a queue that holds nothing but its reserve meets both
conditions once the others have used up the pool.
-/

namespace Lcmp

namespace SwitchMmu

/-- What `checkShouldPause` asks of a queue that is not paused. -/
def pauseCondition (m : SwitchMmu) (port : Port) (qIndex : Queue) : Bool :=
  m.hdrmBytes port qIndex > 0 || m.getSharedUsed port qIndex ≥ m.getPfcThreshold port

/-- What `checkShouldResume` asks of a queue that is paused. -/
def resumeCondition (m : SwitchMmu) (port : Port) (qIndex : Queue) : Bool :=
  m.hdrmBytes port qIndex == 0 &&
    (m.getSharedUsed port qIndex == 0 ||
      m.getSharedUsed port qIndex + m.resumeOffset ≤ m.getPfcThreshold port)

/-- The occupancy of a queue and its threshold, all that the two conditions read. -/
structure Reading where
  hdrmBytes : UInt32
  sharedUsed : UInt32
  threshold : UInt32
  deriving DecidableEq

def reading (m : SwitchMmu) (port : Port) (qIndex : Queue) : Reading where
  hdrmBytes := m.hdrmBytes port qIndex
  sharedUsed := m.getSharedUsed port qIndex
  threshold := m.getPfcThreshold port

/-- What `getPfcThreshold` shifts: the bytes of the pool that are left. -/
def poolLeft (m : SwitchMmu) : UInt32 :=
  m.bufferSize - m.totalHdrm - m.totalRsrv - m.sharedUsedBytes

/-- Packets come and go, and a frame is sent where a check asks for it. -/
inductive PfcOp where
  | ledger (op : LedgerOp)
  | pause (port : Port) (qIndex : Queue)
  | resume (port : Port) (qIndex : Queue)
  deriving DecidableEq

def pfcNext (s : Ledger) : PfcOp → Option Ledger
  | .ledger op => ledgerNext s op
  | .pause port qIndex =>
      if s.mmu.checkShouldPause port qIndex then some { s with mmu := s.mmu.setPause port qIndex }
      else none
  | .resume port qIndex =>
      if s.mmu.checkShouldResume port qIndex then some { s with mmu := s.mmu.setResume port qIndex }
      else none

def pfcSystem (cfg : MmuConfig) : System Ledger PfcOp where
  init := { mmu := start cfg, resident := [] }
  next := pfcNext

/-- An arrival leaves its queue with fewer than `2^32` resident bytes. -/
def FitsPfc (s : Ledger) : PfcOp → Prop
  | .ledger op => ∀ p q, FitsQueue p q s op
  | .pause _ _ => True
  | .resume _ _ => True

/-- Pause and resume are apart for a queue: the conditions exclude each other, neither frame can be
sent right after the other, and a queue within its reserve is not to be paused. -/
structure Hysteresis (s : Ledger) (port : Port) (qIndex : Queue) : Prop where
  exclusive : ¬(s.mmu.pauseCondition port qIndex ∧ s.mmu.resumeCondition port qIndex)
  noResumeAfterPause : ∀ t, pfcNext s (.pause port qIndex) = some t → pfcNext t (.resume port qIndex) = none
  noPauseAfterResume : ∀ t, pfcNext s (.resume port qIndex) = some t → pfcNext t (.pause port qIndex) = none
  idle : s.mmu.hdrmBytes port qIndex = 0 → s.mmu.getSharedUsed port qIndex = 0 →
    ¬ s.mmu.pauseCondition port qIndex

/-- Something lies between the conditions of a queue: headroom in use, or for a queue within its
reserve a pool that the shift leaves something of, or shared bytes that the offset separates from the
threshold also where the sum wraps. -/
def Cushioned (m : SwitchMmu) (port : Port) (qIndex : Queue) : Prop :=
  0 < m.hdrmBytes port qIndex ∨
  (m.getSharedUsed port qIndex = 0 ∧ 2 ^ ((m.pfcAShift port).toNat % 32) ≤ m.poolLeft.toNat) ∨
  (0 < m.getSharedUsed port qIndex ∧
    ((m.getSharedUsed port qIndex).toNat + m.resumeOffset.toNat < 2 ^ 32 ∨
      m.getSharedUsed port qIndex < m.getPfcThreshold port ∨
      (m.getPfcThreshold port).toNat + 2 ^ 32 < (m.getSharedUsed port qIndex).toNat + m.resumeOffset.toNat))

/-! ### The two conditions -/

section Conditions

variable (m : SwitchMmu) (port : Port) (qIndex : Queue)

theorem checkShouldPause_eq :
    m.checkShouldPause port qIndex = (!m.paused port qIndex && m.pauseCondition port qIndex) := rfl

theorem checkShouldResume_eq :
    m.checkShouldResume port qIndex = (m.paused port qIndex && m.resumeCondition port qIndex) := by
  unfold checkShouldResume resumeCondition
  cases m.paused port qIndex with
  | false => rfl
  | true => rfl

theorem getPfcThreshold_toNat :
    (m.getPfcThreshold port).toNat = m.poolLeft.toNat / 2 ^ ((m.pfcAShift port).toNat % 32) := by
  rw [getPfcThreshold, UInt32.toNat_shiftRight, Nat.shiftRight_eq_div_pow]
  rfl

/-- The threshold is zero when the shift leaves nothing of the pool. -/
theorem getPfcThreshold_eq_zero_iff :
    m.getPfcThreshold port = 0 ↔ m.poolLeft.toNat < 2 ^ ((m.pfcAShift port).toNat % 32) := by
  rw [← UInt32.toNat_inj, getPfcThreshold_toNat]
  exact Nat.div_eq_zero_iff_lt (Nat.two_pow_pos _)

theorem pauseCondition_iff :
    m.pauseCondition port qIndex ↔
      0 < m.hdrmBytes port qIndex ∨ m.getPfcThreshold port ≤ m.getSharedUsed port qIndex := by
  simp [pauseCondition]

theorem resumeCondition_iff :
    m.resumeCondition port qIndex ↔
      m.hdrmBytes port qIndex = 0 ∧ (m.getSharedUsed port qIndex = 0 ∨
        m.getSharedUsed port qIndex + m.resumeOffset ≤ m.getPfcThreshold port) := by
  simp [resumeCondition]

/-- The condition is about the reading. -/
theorem resumeCondition_of_reading_eq {m m' : SwitchMmu} (hoffset : m.resumeOffset = m'.resumeOffset)
    (h : m.reading port qIndex = m'.reading port qIndex) :
    m.resumeCondition port qIndex = m'.resumeCondition port qIndex := by
  obtain ⟨hhdrm, hshared, hthresh⟩ := Reading.mk.inj h
  rw [resumeCondition, resumeCondition, hhdrm, hshared, hthresh, hoffset]

/-- Pause and resume ask for the same queue at once exactly when nothing lies between them. -/
theorem exclusive_iff (hoffset : 0 < m.resumeOffset) :
    ¬(m.pauseCondition port qIndex ∧ m.resumeCondition port qIndex) ↔ m.Cushioned port qIndex := by
  have hzero := m.getPfcThreshold_eq_zero_iff port
  have hshared := (m.getSharedUsed port qIndex).toNat_lt
  have hoff := m.resumeOffset.toNat_lt
  rw [pauseCondition_iff, resumeCondition_iff, Cushioned]
  simp only [UInt32.lt_iff_toNat_lt, UInt32.le_iff_toNat_le, ← UInt32.toNat_inj, UInt32.toNat_add,
    UInt32.toNat_zero] at hzero hoffset ⊢
  omega

end Conditions

/-! ### Frames -/

theorem pfcNext_pause {s t : Ledger} {port : Port} {qIndex : Queue} (h : pfcNext s (.pause port qIndex) = some t) :
    s.mmu.pauseCondition port qIndex ∧ t = { s with mmu := s.mmu.setPause port qIndex } := by
  rw [pfcNext, checkShouldPause_eq] at h
  split at h
  · rename_i hcheck
    rw [Bool.and_eq_true] at hcheck
    exact ⟨hcheck.2, (Option.some.inj h).symm⟩
  · cases h

theorem pfcNext_resume {s t : Ledger} {port : Port} {qIndex : Queue}
    (h : pfcNext s (.resume port qIndex) = some t) :
    s.mmu.resumeCondition port qIndex ∧ t = { s with mmu := s.mmu.setResume port qIndex } := by
  rw [pfcNext, checkShouldResume_eq] at h
  split at h
  · rename_i hcheck
    rw [Bool.and_eq_true] at hcheck
    exact ⟨hcheck.2, (Option.some.inj h).symm⟩
  · cases h

/-- When the conditions exclude each other, so do the frames: a frame changes no reading. -/
theorem hysteresis_iff_cushioned {s : Ledger} (port : Port) (qIndex : Queue) (hoffset : 0 < s.mmu.resumeOffset) :
    Hysteresis s port qIndex ↔ s.mmu.Cushioned port qIndex := by
  rw [← exclusive_iff _ _ _ hoffset]
  refine ⟨fun h => h.exclusive, fun hexclusive => ⟨hexclusive, fun t hpause => ?_, fun t hresume => ?_, ?_⟩⟩
  · obtain ⟨hcondition, rfl⟩ := pfcNext_pause hpause
    apply Option.eq_none_iff_forall_ne_some.mpr
    intro u hresume
    exact hexclusive ⟨hcondition, (pfcNext_resume hresume).1⟩
  · obtain ⟨hcondition, rfl⟩ := pfcNext_resume hresume
    apply Option.eq_none_iff_forall_ne_some.mpr
    intro u hpause
    exact hexclusive ⟨(pfcNext_pause hpause).1, hcondition⟩
  · intro hhdrm hshared hcondition
    exact hexclusive ⟨hcondition, (resumeCondition_iff _ _ _).mpr ⟨hhdrm, .inl hshared⟩⟩

/-! ### Whole runs -/

theorem pfcNext_config {s t : Ledger} {op : PfcOp} (h : pfcNext s op = some t) :
    t.mmu.toMmuConfig = s.mmu.toMmuConfig := by
  cases op with
  | ledger op =>
      cases op with
      | add c =>
          obtain rfl := Option.some.inj h
          exact s.mmu.updateIngressAdmission_config c.port c.qIndex c.psize
      | remove c =>
          obtain ⟨-, rfl⟩ := ledgerNext_remove h
          rfl
  | pause port qIndex =>
      obtain ⟨-, rfl⟩ := pfcNext_pause h
      rfl
  | resume port qIndex =>
      obtain ⟨-, rfl⟩ := pfcNext_resume h
      rfl

/-- Frames leave the accounts alone. -/
theorem exact_pfcStep {s t : Ledger} {op : PfcOp} (h : Exact s ∧ s.mmu.ThresholdExact) (hfits : FitsPfc s op)
    (hnext : pfcNext s op = some t) : Exact t ∧ t.mmu.ThresholdExact := by
  cases op with
  | ledger op => exact ⟨exact_step h.1 ⟨hfits, .inr h.2⟩ hnext, thresholdExact_step h.1 h.2 hnext⟩
  | pause port qIndex =>
      obtain ⟨-, rfl⟩ := pfcNext_pause hnext
      exact ⟨⟨h.1.queue, h.1.shared⟩, h.2⟩
  | resume port qIndex =>
      obtain ⟨-, rfl⟩ := pfcNext_resume hnext
      exact ⟨⟨h.1.queue, h.1.shared⟩, h.2⟩

theorem getSharedUsed_toNat (m : SwitchMmu) (port : Port) (qIndex : Queue) :
    (m.getSharedUsed port qIndex).toNat = m.aboveReserve port qIndex := by
  unfold getSharedUsed aboveReserve
  dsimp only
  split
  · rename_i hgt
    exact UInt32.toNat_sub_of_le _ _ (UInt32.le_iff_toNat_le.mpr (UInt32.lt_iff_toNat_lt.mp hgt).le)
  · rename_i hle
    rw [gt_iff_lt, UInt32.lt_iff_toNat_lt] at hle
    rw [UInt32.toNat_zero]
    omega

/-- With exact accounts in a buffer that leaves room for the offset no sum wraps, and what lies
between the conditions is headroom, shared bytes or a pool that is not used up. -/
theorem cushioned_iff_of_exact {s : Ledger} (hexact : Exact s) (hthresh : s.mmu.ThresholdExact)
    (hbuffer : s.mmu.bufferSize.toNat + s.mmu.resumeOffset.toNat < 2 ^ 32) (port : Port) (qIndex : Queue) :
    s.mmu.Cushioned port qIndex ↔
      0 < s.mmu.hdrmBytes port qIndex ∨ s.mmu.reserve < s.mmu.ingressBytes port qIndex ∨
      2 ^ ((s.mmu.pfcAShift port).toNat % 32) ≤
        s.mmu.bufferSize.toNat - s.mmu.totalHdrm.toNat - s.mmu.totalRsrv.toNat - s.mmu.sharedUsedBytes.toNat := by
  have hpool : s.mmu.poolLeft.toNat =
      s.mmu.bufferSize.toNat - s.mmu.totalHdrm.toNat - s.mmu.totalRsrv.toNat - s.mmu.sharedUsedBytes.toNat := by
    have hbuf := s.mmu.bufferSize.toNat_lt
    unfold ThresholdExact at hthresh
    simp only [poolLeft, UInt32.toNat_sub]
    omega
  have habove := hexact.aboveReserve_le_shared port qIndex
  have hshared := s.mmu.getSharedUsed_toNat port qIndex
  have hpos := Nat.two_pow_pos ((s.mmu.pfcAShift port).toNat % 32)
  have hreserve : s.mmu.reserve < s.mmu.ingressBytes port qIndex ↔ 0 < s.mmu.aboveReserve port qIndex := by
    rw [UInt32.lt_iff_toNat_lt, aboveReserve]
    omega
  rw [Cushioned, hreserve, hpool]
  unfold ThresholdExact at hthresh
  simp only [UInt32.lt_iff_toNat_lt, ← UInt32.toNat_inj, UInt32.toNat_zero, hshared]
  omega

/-- Every queue in every state of a run has hysteresis exactly when something lies between its two
conditions. A run that pauses a queue only where that is so never has a pause and a resume of the
queue on one reading, whichever comes first. When the accounts are exact the condition is that the
queue uses headroom or shared bytes, or that the pool is not used up. -/
theorem hysteresis_iff (cfg : MmuConfig) (hroom : cfg.totalHdrm.toNat + cfg.totalRsrv.toNat ≤ cfg.bufferSize.toNat)
    (hoffset : 0 < cfg.resumeOffset) {trace : List (Transition Ledger PfcOp)} {s : Ledger}
    (hrun : (pfcSystem cfg).Run (pfcSystem cfg).init trace s) (port : Port) (qIndex : Queue) :
    (Hysteresis s port qIndex ↔ s.mmu.Cushioned port qIndex) ∧
    ((∀ x ∈ trace, x.label = .pause port qIndex → x.pre.mmu.Cushioned port qIndex) →
      ∀ x ∈ trace, ∀ y ∈ trace, x.label = .pause port qIndex → y.label = .resume port qIndex →
        x.pre.mmu.reading port qIndex ≠ y.pre.mmu.reading port qIndex) ∧
    ((∀ x ∈ trace, FitsPfc x.pre x.label) → cfg.bufferSize.toNat + cfg.resumeOffset.toNat < 2 ^ 32 →
      (Hysteresis s port qIndex ↔
        0 < s.mmu.hdrmBytes port qIndex ∨ cfg.reserve < s.mmu.ingressBytes port qIndex ∨
        2 ^ ((cfg.pfcAShift port).toNat % 32) ≤
          cfg.bufferSize.toNat - cfg.totalHdrm.toNat - cfg.totalRsrv.toNat - s.mmu.sharedUsedBytes.toNat)) := by
  obtain ⟨hconfig, hconfigs⟩ := hrun.invariant (P := fun s => s.mmu.toMmuConfig = cfg)
    (fun _ _ _ h hnext => (pfcNext_config hnext).trans h) rfl
  have hstate : Hysteresis s port qIndex ↔ s.mmu.Cushioned port qIndex :=
    hysteresis_iff_cushioned port qIndex (by rw [hconfig]; exact hoffset)
  refine ⟨hstate, fun hcushioned x hx y hy hpause hresume hsame => ?_, fun hfits hbuffer => ?_⟩
  · have hxstep := hrun.next_of_mem x hx
    have hystep := hrun.next_of_mem y hy
    rw [hpause] at hxstep
    rw [hresume] at hystep
    have hconfigEq : x.pre.mmu.toMmuConfig = y.pre.mmu.toMmuConfig :=
      (hconfigs x hx).1.trans (hconfigs y hy).1.symm
    have hresumed : x.pre.mmu.resumeCondition port qIndex := by
      rw [resumeCondition_of_reading_eq port qIndex (by rw [hconfigEq]) hsame]
      exact (pfcNext_resume hystep).1
    have hxoffset : 0 < x.pre.mmu.resumeOffset := by
      rw [(hconfigs x hx).1]
      exact hoffset
    have hexclusive := (exclusive_iff _ _ _ hxoffset).mpr (hcushioned x hx hpause)
    exact hexclusive ⟨(pfcNext_pause hxstep).1, hresumed⟩
  · obtain ⟨⟨hexact, hthresh⟩, -⟩ := hrun.invariant_of_guard (P := fun s => Exact s ∧ s.mmu.ThresholdExact)
      (C := FitsPfc) (fun _ _ _ h hf hnext => exact_pfcStep h hf hnext) hfits
      ⟨exact_start cfg, by simpa [ThresholdExact, pfcSystem, start] using hroom⟩
    rw [hstate, cushioned_iff_of_exact hexact hthresh (by rw [hconfig]; exact hbuffer), hconfig]

/-- Four packets of one queue use the pool up: they are paused, leave, and are resumed. -/
theorem hysteresis_iff_smallPool :
    ∃ trace s, (pfcSystem smallPool).Run (pfcSystem smallPool).init trace s ∧
      trace.map Transition.label =
        [.ledger (.add ⟨1, 3, 1048⟩), .ledger (.add ⟨1, 3, 1048⟩), .ledger (.add ⟨1, 3, 1048⟩),
          .ledger (.add ⟨1, 3, 1048⟩), .pause 1 3, .ledger (.remove ⟨1, 3, 1048⟩), .resume 1 3] ∧
      Hysteresis s 1 3 ∧
      ∀ x ∈ trace, ∀ y ∈ trace, x.label = .pause 1 3 → y.label = .resume 1 3 →
        x.pre.mmu.reading 1 3 ≠ y.pre.mmu.reading 1 3 := by
  have hrun : (pfcSystem smallPool).Run (pfcSystem smallPool).init _ _ :=
    .cons (a := .ledger (.add ⟨1, 3, 1048⟩)) rfl (.cons (a := .ledger (.add ⟨1, 3, 1048⟩)) rfl
      (.cons (a := .ledger (.add ⟨1, 3, 1048⟩)) rfl (.cons (a := .ledger (.add ⟨1, 3, 1048⟩)) rfl
        (.cons (a := .pause 1 3) rfl (.cons (a := .ledger (.remove ⟨1, 3, 1048⟩)) rfl
          (.cons (a := .resume 1 3) rfl (.nil _)))))))
  refine ⟨_, _, hrun, rfl, ?_⟩
  obtain ⟨-, hreadings, hexact⟩ := hysteresis_iff smallPool (by decide)
    (UInt32.lt_iff_toNat_lt.mpr (by decide)) hrun 1 3
  have hfits : ∀ resident mmu, residentBytes resident 1 3 + 1048 < 2 ^ 32 →
      FitsPfc ⟨mmu, resident⟩ (.ledger (.add ⟨1, 3, 1048⟩)) := by
    rintro resident mmu hroom p q ⟨rfl, rfl⟩
    exact hroom
  refine ⟨(hexact ?_ (by decide)).mpr ?_, hreadings ?_⟩
  · simp only [List.forall_mem_cons]
    refine ⟨hfits _ _ ?_, hfits _ _ ?_, hfits _ _ ?_, hfits _ _ ?_, trivial, fun _ _ => trivial, trivial,
      by simp⟩
    all_goals decide
  · exact .inr (.inr (by decide))
  · simp only [List.forall_mem_cons]
    refine ⟨nofun, nofun, nofun, nofun, fun _ => .inr (.inr ⟨?_, .inl ?_⟩), nofun, nofun, by simp⟩
    · rw [UInt32.lt_iff_toNat_lt]
      decide
    · decide

/-- The same four packets, and one of another port that fits into its reserve: it is to be paused and
to be resumed, and both frames are sent one after the other. -/
theorem not_hysteresis_smallPool :
    ∃ s t, (pfcSystem smallPool).exec (pfcSystem smallPool).init
        [.ledger (.add ⟨1, 3, 1048⟩), .ledger (.add ⟨1, 3, 1048⟩), .ledger (.add ⟨1, 3, 1048⟩),
          .ledger (.add ⟨1, 3, 1048⟩), .ledger (.add ⟨2, 3, 1048⟩)] = some s ∧
      smallPool.totalHdrm.toNat + smallPool.totalRsrv.toNat ≤ smallPool.bufferSize.toNat ∧
      s.mmu.pauseCondition 2 3 ∧ s.mmu.resumeCondition 2 3 ∧
      s.mmu.hdrmBytes 2 3 = 0 ∧ s.mmu.getSharedUsed 2 3 = 0 ∧
      (pfcSystem smallPool).exec s [.pause 2 3, .resume 2 3] = some t := by
  refine ⟨_, _, rfl, ?_, ?_, ?_, ?_, ?_, rfl⟩
  all_goals decide

end SwitchMmu

end Lcmp
