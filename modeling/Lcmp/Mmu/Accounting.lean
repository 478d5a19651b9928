import Lcmp.Lib.Transition
import Lcmp.Lib.Words
import Lcmp.Mmu.Code

/-!
# Ingress accounting

A packet is charged to the reserve, the shared pool or the headroom by a rule that looks at a
threshold which moves with every other port, and is refunded by a rule that does not know how it
was charged. The accounts are exact all the same: what a port and queue hold is split between its
two counters, and the shared pool holds what each queue has above its reserve.

The counters are 32 bits wide, so all of this is about runs in which the bytes present at any one
time fit in 32 bits.
-/

namespace Lcmp

namespace SwitchMmu

/-- A packet of `psize` bytes charged to an ingress port and queue. -/
structure Charge where
  port : Port
  qIndex : Queue
  psize : UInt32
  deriving DecidableEq

/-- The unit together with the packets that were added and have not been removed. -/
structure Ledger where
  mmu : SwitchMmu
  resident : List Charge

inductive LedgerOp where
  | add (packet : Charge)
  | remove (packet : Charge)
  deriving DecidableEq

/-- Packets arrive with any size and leave in any order; only a resident packet can leave. -/
def ledgerNext (l : Ledger) : LedgerOp → Option Ledger
  | .add c => some
      { mmu := l.mmu.updateIngressAdmission c.port c.qIndex c.psize
        resident := c :: l.resident }
  | .remove c =>
      if c ∈ l.resident then some
        { mmu := l.mmu.removeFromIngressAdmission c.port c.qIndex c.psize
          resident := l.resident.erase c }
      else none

theorem ledgerNext_remove {l l' : Ledger} {c : Charge} (h : ledgerNext l (.remove c) = some l') :
    c ∈ l.resident ∧ l' =
      { mmu := l.mmu.removeFromIngressAdmission c.port c.qIndex c.psize
        resident := l.resident.erase c } := by
  simp only [ledgerNext] at h
  split at h
  · rename_i hc
    exact ⟨hc, (Option.some.inj h).symm⟩
  · cases h

def ledgerSystem (cfg : MmuConfig) : System Ledger LedgerOp where
  init := { mmu := start cfg, resident := [] }
  next := ledgerNext

/-- The bytes of the resident packets of one port and queue. -/
def residentBytes (resident : List Charge) (port : Port) (qIndex : Queue) : Nat :=
  ((resident.filter fun c => c.port = port ∧ c.qIndex = qIndex).map fun c => c.psize.toNat).sum

/-- The bytes of all resident packets. -/
def totalResident (resident : List Charge) : Nat :=
  ∑ x : Port × Queue, residentBytes resident x.1 x.2

/-- The bytes a port and queue hold above the reserve. -/
def aboveReserve (m : SwitchMmu) (port : Port) (qIndex : Queue) : Nat :=
  (m.ingressBytes port qIndex).toNat - m.reserve.toNat

/-- Part (a) of exactness: the two counters of a queue add up to its resident bytes. -/
def QueueExact (l : Ledger) (port : Port) (qIndex : Queue) : Prop :=
  (l.mmu.ingressBytes port qIndex).toNat + (l.mmu.hdrmBytes port qIndex).toNat =
    residentBytes l.resident port qIndex

/-- Part (b): the shared pool is what the queues hold above their reserve. -/
def SharedExact (m : SwitchMmu) : Prop :=
  m.sharedUsedBytes.toNat = ∑ x : Port × Queue, m.aboveReserve x.1 x.2

/-- Part (c) for one operation: what it computes from the counters is what the same operations on
unbounded integers give. -/
def NoWrap (m : SwitchMmu) : LedgerOp → Prop
  | .add c =>
      (m.ingressBytes c.port c.qIndex + c.psize).toNat =
        (m.ingressBytes c.port c.qIndex).toNat + c.psize.toNat
  | .remove c =>
      m.fromHdrm c.port c.qIndex c.psize ≤ m.hdrmBytes c.port c.qIndex ∧
      m.fromHdrm c.port c.qIndex c.psize ≤ c.psize ∧
      c.psize - m.fromHdrm c.port c.qIndex c.psize ≤ m.ingressBytes c.port c.qIndex ∧
      m.fromShared c.port c.qIndex c.psize ≤ m.sharedUsedBytes

/-- The subtractions of `getPfcThreshold` do not wrap. -/
def ThresholdExact (m : SwitchMmu) : Prop :=
  m.totalHdrm.toNat + m.totalRsrv.toNat + m.sharedUsedBytes.toNat ≤ m.bufferSize.toNat

/-- An arrival at `(port, qIndex)` leaves that queue with fewer than `2^32` resident bytes. -/
def FitsQueue (port : Port) (qIndex : Queue) (l : Ledger) : LedgerOp → Prop
  | .add c => c.port = port ∧ c.qIndex = qIndex →
      residentBytes l.resident port qIndex + c.psize.toNat < 2 ^ 32
  | .remove _ => True

/-- An arrival leaves the unit with fewer than `2^32` resident bytes in all. -/
def FitsTotal (l : Ledger) : LedgerOp → Prop
  | .add c => totalResident l.resident + c.psize.toNat < 2 ^ 32
  | .remove _ => True

/-- An arrival overflows neither the counters of its queue nor the shared pool: the pool is safe when
all resident bytes fit in 32 bits, and also when the threshold bounds it by the buffer. -/
def Fits (l : Ledger) (op : LedgerOp) : Prop :=
  (∀ p q, FitsQueue p q l op) ∧ (FitsTotal l op ∨ l.mmu.ThresholdExact)

/-! ### Resident bytes -/

theorem residentBytes_cons (c : Charge) (resident : List Charge) (port : Port) (qIndex : Queue) :
    residentBytes (c :: resident) port qIndex =
      (if c.port = port ∧ c.qIndex = qIndex then c.psize.toNat else 0) +
        residentBytes resident port qIndex := by
  by_cases h : c.port = port ∧ c.qIndex = qIndex
  · simp [residentBytes, h]
  · simp [residentBytes, h]

theorem residentBytes_of_perm {left right : List Charge} (h : left.Perm right) (port : Port)
    (qIndex : Queue) : residentBytes left port qIndex = residentBytes right port qIndex :=
  ((h.filter _).map _).sum_eq

theorem residentBytes_erase {c : Charge} {resident : List Charge} (hc : c ∈ resident) (port : Port)
    (qIndex : Queue) :
    residentBytes resident port qIndex =
      (if c.port = port ∧ c.qIndex = qIndex then c.psize.toNat else 0) +
        residentBytes (resident.erase c) port qIndex := by
  rw [residentBytes_of_perm (List.perm_cons_erase hc), residentBytes_cons]

theorem residentBytes_le_total (resident : List Charge) (port : Port) (qIndex : Queue) :
    residentBytes resident port qIndex ≤ totalResident resident :=
  Grid.le_sum (residentBytes resident) port qIndex

/-! ### What one operation does to the counters -/

theorem getPfcThreshold_le (m : SwitchMmu) (port : Port) (h : m.ThresholdExact) :
    (m.getPfcThreshold port).toNat ≤
      m.bufferSize.toNat - m.totalHdrm.toNat - m.totalRsrv.toNat - m.sharedUsedBytes.toNat := by
  simp only [ThresholdExact] at h
  have hbuf := m.bufferSize.toNat_lt
  rw [getPfcThreshold, UInt32.toNat_shiftRight, Nat.shiftRight_eq_div_pow]
  apply (Nat.div_le_self _ _).trans
  simp only [UInt32.toNat_sub]
  omega

variable (m : SwitchMmu) (port : Port) (qIndex : Queue) (psize : UInt32)

/-- An addition writes only the cell of its own port and queue. -/
theorem updateIngressAdmission_of_ne {p : Port} {q : Queue} (hne : ¬(p = port ∧ q = qIndex)) :
    (m.updateIngressAdmission port qIndex psize).ingressBytes p q = m.ingressBytes p q ∧
      (m.updateIngressAdmission port qIndex psize).hdrmBytes p q = m.hdrmBytes p q := by
  unfold updateIngressAdmission
  dsimp only
  split
  · exact ⟨Grid.set_of_ne hne, rfl⟩
  · split
    · exact ⟨rfl, Grid.set_of_ne hne⟩
    · exact ⟨Grid.set_of_ne hne, rfl⟩

theorem updateIngressAdmission_config :
    (m.updateIngressAdmission port qIndex psize).toMmuConfig = m.toMmuConfig := by
  unfold updateIngressAdmission
  dsimp only
  split
  · rfl
  · split <;> rfl

/-- Admission control leaves the pause flags and the egress counters alone. -/
theorem updateIngressAdmission_frame :
    (m.updateIngressAdmission port qIndex psize).paused = m.paused ∧
      (m.updateIngressAdmission port qIndex psize).egressBytes = m.egressBytes := by
  unfold updateIngressAdmission
  dsimp only
  split
  · exact ⟨rfl, rfl⟩
  · split <;> exact ⟨rfl, rfl⟩

/-- An addition that does not overflow its queue charges the whole packet to one of its counters. -/
theorem updateIngressAdmission_self
    (hfits : (m.ingressBytes port qIndex).toNat + (m.hdrmBytes port qIndex).toNat + psize.toNat < 2 ^ 32) :
    ((m.updateIngressAdmission port qIndex psize).ingressBytes port qIndex).toNat +
        ((m.updateIngressAdmission port qIndex psize).hdrmBytes port qIndex).toNat =
      (m.ingressBytes port qIndex).toNat + (m.hdrmBytes port qIndex).toNat + psize.toNat := by
  unfold updateIngressAdmission
  dsimp only
  split
  · simp only [Grid.set_self, UInt32.toNat_add]
    omega
  · split
    · simp only [Grid.set_self, UInt32.toNat_add]
      omega
    · simp only [Grid.set_self, UInt32.toNat_add]
      omega

/-- An addition that does not overflow its queue takes from the shared pool what it adds above the
reserve, and no more than the threshold leaves. The pool itself may still wrap. -/
theorem updateIngressAdmission_taken (hfits : (m.ingressBytes port qIndex).toNat + psize.toNat < 2 ^ 32) :
    ∃ taken, taken ≤ psize.toNat ∧ (taken = 0 ∨ taken ≤ (m.getPfcThreshold port).toNat) ∧
      (m.updateIngressAdmission port qIndex psize).aboveReserve port qIndex =
        m.aboveReserve port qIndex + taken ∧
      (m.updateIngressAdmission port qIndex psize).sharedUsedBytes.toNat =
        (m.sharedUsedBytes.toNat + taken) % 2 ^ 32 := by
  have hshared := m.sharedUsedBytes.toNat_lt
  have hnew : (m.ingressBytes port qIndex + psize).toNat = (m.ingressBytes port qIndex).toNat + psize.toNat := by
    rw [UInt32.toNat_add]
    omega
  unfold updateIngressAdmission aboveReserve
  dsimp only
  split
  · rename_i hle
    rw [UInt32.le_iff_toNat_le, hnew] at hle
    refine ⟨0, Nat.zero_le _, .inl rfl, ?_, ?_⟩
    · simp only [Grid.set_self, hnew]
      omega
    · dsimp only
      omega
  · rename_i hle
    rw [UInt32.le_iff_toNat_le, hnew] at hle
    have hover : (m.ingressBytes port qIndex + psize - m.reserve).toNat =
        (m.ingressBytes port qIndex).toNat + psize.toNat - m.reserve.toNat := by
      rw [UInt32.toNat_sub_of_le _ _ (UInt32.le_iff_toNat_le.mpr (by omega)), hnew]
    split
    · refine ⟨0, Nat.zero_le _, .inl rfl, rfl, ?_⟩
      dsimp only
      omega
    · rename_i hthresh
      rw [gt_iff_lt, UInt32.lt_iff_toNat_lt, hover] at hthresh
      refine ⟨min psize.toNat ((m.ingressBytes port qIndex).toNat + psize.toNat - m.reserve.toNat),
        by omega, .inr (by omega), ?_, ?_⟩
      · simp only [Grid.set_self, hnew]
        omega
      · simp only [UInt32.toNat_add, Words.min32_toNat, hover]

/-- An addition charges the shared pool what it adds above the reserve. -/
theorem updateIngressAdmission_shared
    (hfits : (m.ingressBytes port qIndex).toNat + psize.toNat < 2 ^ 32)
    (hshared : m.sharedUsedBytes.toNat + psize.toNat < 2 ^ 32 ∨ m.ThresholdExact) :
    (m.updateIngressAdmission port qIndex psize).sharedUsedBytes.toNat + m.aboveReserve port qIndex =
      m.sharedUsedBytes.toNat + (m.updateIngressAdmission port qIndex psize).aboveReserve port qIndex := by
  obtain ⟨taken, hsize, hthresh, habove, hpool⟩ := m.updateIngressAdmission_taken port qIndex psize hfits
  have hroom : m.sharedUsedBytes.toNat + taken < 2 ^ 32 := by
    rcases hshared with hshared | hexact
    · omega
    · have hbound := m.getPfcThreshold_le port hexact
      have hbuf := m.bufferSize.toNat_lt
      have hpooled := m.sharedUsedBytes.toNat_lt
      simp only [ThresholdExact] at hexact
      omega
  omega

/-- The threshold is what bounds the shared pool: an addition never takes more than is left. -/
theorem updateIngressAdmission_threshold (h : m.ThresholdExact) :
    (m.updateIngressAdmission port qIndex psize).ThresholdExact := by
  have hbound := m.getPfcThreshold_le port h
  have hbuf := m.bufferSize.toNat_lt
  simp only [ThresholdExact] at h ⊢
  unfold updateIngressAdmission
  dsimp only
  split
  · exact h
  · split
    · exact h
    · rename_i hthresh
      rw [gt_iff_lt, UInt32.lt_iff_toNat_lt] at hthresh
      have hmin := Words.min32_toNat psize (m.ingressBytes port qIndex + psize - m.reserve)
      simp only [UInt32.toNat_add, hmin]
      omega

theorem fromHdrm_toNat :
    (m.fromHdrm port qIndex psize).toNat = min (m.hdrmBytes port qIndex).toNat psize.toNat :=
  Words.min32_toNat _ _

/-- A removal writes only the cell of its own port and queue. -/
theorem removeFromIngressAdmission_of_ne {p : Port} {q : Queue} (hne : ¬(p = port ∧ q = qIndex)) :
    (m.removeFromIngressAdmission port qIndex psize).ingressBytes p q = m.ingressBytes p q ∧
      (m.removeFromIngressAdmission port qIndex psize).hdrmBytes p q = m.hdrmBytes p q :=
  ⟨Grid.set_of_ne hne, Grid.set_of_ne hne⟩

section Departure

variable (hheld : psize.toNat ≤ (m.ingressBytes port qIndex).toNat + (m.hdrmBytes port qIndex).toNat)

include hheld

/-- A removal takes the packet out of the two counters of its queue. -/
theorem removeFromIngressAdmission_self :
    ((m.removeFromIngressAdmission port qIndex psize).ingressBytes port qIndex).toNat +
        ((m.removeFromIngressAdmission port qIndex psize).hdrmBytes port qIndex).toNat + psize.toNat =
      (m.ingressBytes port qIndex).toNat + (m.hdrmBytes port qIndex).toNat := by
  have hhdrm := m.fromHdrm_toNat port qIndex psize
  have hing := (m.ingressBytes port qIndex).toNat_lt
  have hcell := (m.hdrmBytes port qIndex).toNat_lt
  have hsize := psize.toNat_lt
  simp only [removeFromIngressAdmission, Grid.set_self, UInt32.toNat_sub]
  omega

/-- The shared pool is refunded what the queue no longer holds above its reserve, however the
packet had been charged. -/
theorem fromShared_toNat :
    (m.fromShared port qIndex psize).toNat +
        (m.removeFromIngressAdmission port qIndex psize).aboveReserve port qIndex =
      m.aboveReserve port qIndex := by
  have hhdrm := m.fromHdrm_toNat port qIndex psize
  have hing := (m.ingressBytes port qIndex).toNat_lt
  have hsize := psize.toNat_lt
  have hrest : (psize - m.fromHdrm port qIndex psize).toNat =
      psize.toNat - (m.fromHdrm port qIndex psize).toNat :=
    UInt32.toNat_sub_of_le _ _ (UInt32.le_iff_toNat_le.mpr (by omega))
  have hgain : (m.fromShared port qIndex psize).toNat =
      min (psize.toNat - (m.fromHdrm port qIndex psize).toNat)
        ((m.ingressBytes port qIndex).toNat - m.reserve.toNat) := by
    rw [fromShared, Words.min32_toNat, hrest]
    congr 1
    split
    · rename_i hgt
      exact UInt32.toNat_sub_of_le _ _
        (UInt32.le_iff_toNat_le.mpr (UInt32.lt_iff_toNat_lt.mp hgt).le)
    · rename_i hle
      rw [gt_iff_lt, UInt32.lt_iff_toNat_lt] at hle
      simp only [UInt32.toNat_zero]
      omega
  rw [hgain]
  simp only [aboveReserve, removeFromIngressAdmission, Grid.set_self, UInt32.toNat_sub, hrest]
  omega

/-- No subtraction of a removal wraps once the shared pool covers the queue. -/
theorem noWrap_remove (hpool : m.aboveReserve port qIndex ≤ m.sharedUsedBytes.toNat) :
    m.NoWrap (.remove ⟨port, qIndex, psize⟩) := by
  have hhdrm := m.fromHdrm_toNat port qIndex psize
  have hgain := m.fromShared_toNat port qIndex psize hheld
  have hrest : (psize - m.fromHdrm port qIndex psize).toNat =
      psize.toNat - (m.fromHdrm port qIndex psize).toNat :=
    UInt32.toNat_sub_of_le _ _ (UInt32.le_iff_toNat_le.mpr (by omega))
  simp only [NoWrap, UInt32.le_iff_toNat_le, hrest]
  omega

theorem removeFromIngressAdmission_shared (hpool : m.aboveReserve port qIndex ≤ m.sharedUsedBytes.toNat) :
    (m.removeFromIngressAdmission port qIndex psize).sharedUsedBytes.toNat + m.aboveReserve port qIndex =
      m.sharedUsedBytes.toNat +
        (m.removeFromIngressAdmission port qIndex psize).aboveReserve port qIndex := by
  have hgain := m.fromShared_toNat port qIndex psize hheld
  have hsub : (m.sharedUsedBytes - m.fromShared port qIndex psize).toNat =
      m.sharedUsedBytes.toNat - (m.fromShared port qIndex psize).toNat :=
    UInt32.toNat_sub_of_le _ _ (UInt32.le_iff_toNat_le.mpr (by omega))
  have hfield : (m.removeFromIngressAdmission port qIndex psize).sharedUsedBytes =
      m.sharedUsedBytes - m.fromShared port qIndex psize := rfl
  rw [hfield, hsub]
  omega

end Departure

/-! ### Whole runs -/

variable {m port qIndex psize}

theorem mem_residentBytes {c : Charge} {resident : List Charge} (hc : c ∈ resident) :
    c.psize.toNat ≤ residentBytes resident c.port c.qIndex := by
  rw [residentBytes_erase hc, if_pos ⟨rfl, rfl⟩]
  omega

theorem queueExact_step {p : Port} {q : Queue} {l l' : Ledger} {op : LedgerOp}
    (h : QueueExact l p q) (hfits : FitsQueue p q l op) (hnext : ledgerNext l op = some l') :
    QueueExact l' p q := by
  simp only [QueueExact] at h ⊢
  cases op with
  | add c =>
      obtain rfl := Option.some.inj hnext
      dsimp only
      rw [residentBytes_cons]
      by_cases hcell : c.port = p ∧ c.qIndex = q
      · have hroom := hfits hcell
        obtain ⟨rfl, rfl⟩ := hcell
        rw [updateIngressAdmission_self _ _ _ _ (by omega), if_pos ⟨rfl, rfl⟩]
        omega
      · have hsame := l.mmu.updateIngressAdmission_of_ne c.port c.qIndex c.psize
          (fun he => hcell ⟨he.1.symm, he.2.symm⟩ : ¬(p = c.port ∧ q = c.qIndex))
        rw [hsame.1, hsame.2, if_neg hcell]
        omega
  | remove c =>
      obtain ⟨hc, rfl⟩ := ledgerNext_remove hnext
      dsimp only
      have herase := residentBytes_erase hc p q
      by_cases hcell : c.port = p ∧ c.qIndex = q
      · obtain ⟨rfl, rfl⟩ := hcell
        have hself := l.mmu.removeFromIngressAdmission_self c.port c.qIndex c.psize
          (by have := mem_residentBytes hc; omega)
        rw [if_pos ⟨rfl, rfl⟩] at herase
        omega
      · have hsame := l.mmu.removeFromIngressAdmission_of_ne c.port c.qIndex c.psize
          (fun he => hcell ⟨he.1.symm, he.2.symm⟩ : ¬(p = c.port ∧ q = c.qIndex))
        rw [if_neg hcell] at herase
        rw [hsame.1, hsame.2]
        omega

theorem fitsQueue_of_fitsTotal {l : Ledger} {op : LedgerOp} (h : FitsTotal l op) (p : Port)
    (q : Queue) : FitsQueue p q l op := by
  cases op with
  | add c =>
      intro _
      have hle := residentBytes_le_total l.resident p q
      have htotal : totalResident l.resident + c.psize.toNat < 2 ^ 32 := h
      omega
  | remove c => trivial

/-- The accounts of the whole unit are exact. -/
structure Exact (l : Ledger) : Prop where
  queue : ∀ p q, QueueExact l p q
  shared : SharedExact l.mmu

theorem Exact.aboveReserve_le_shared {l : Ledger} (h : Exact l) (p : Port) (q : Queue) :
    l.mmu.aboveReserve p q ≤ l.mmu.sharedUsedBytes.toNat := by
  rw [h.shared]
  exact Grid.le_sum l.mmu.aboveReserve p q

theorem Exact.shared_le_total {l : Ledger} (h : Exact l) :
    l.mmu.sharedUsedBytes.toNat ≤ totalResident l.resident := by
  rw [h.shared]
  apply Finset.sum_le_sum
  intro x _
  have hcell : (l.mmu.ingressBytes x.1 x.2).toNat + (l.mmu.hdrmBytes x.1 x.2).toNat =
      residentBytes l.resident x.1 x.2 := h.queue x.1 x.2
  simp only [aboveReserve]
  omega

theorem Exact.held {l : Ledger} (h : Exact l) {c : Charge} (hc : c ∈ l.resident) :
    c.psize.toNat ≤ (l.mmu.ingressBytes c.port c.qIndex).toNat + (l.mmu.hdrmBytes c.port c.qIndex).toNat := by
  have hcell : _ = residentBytes l.resident c.port c.qIndex := h.queue c.port c.qIndex
  rw [hcell]
  exact mem_residentBytes hc

/-- If the pool counter moves with the queue that is written, it stays the sum over all queues. -/
theorem sharedExact_of_moves {m m' : SwitchMmu} (port : Port) (qIndex : Queue) (h : SharedExact m)
    (hoff : ∀ p q, ¬(p = port ∧ q = qIndex) → m'.aboveReserve p q = m.aboveReserve p q)
    (hmoves : m'.sharedUsedBytes.toNat + m.aboveReserve port qIndex =
      m.sharedUsedBytes.toNat + m'.aboveReserve port qIndex) : SharedExact m' := by
  have hsum := Grid.sum_of_eq_off m'.aboveReserve m.aboveReserve port qIndex hoff
  simp only [SharedExact] at h ⊢
  omega

theorem exact_step {l l' : Ledger} {op : LedgerOp} (h : Exact l) (hfits : Fits l op)
    (hnext : ledgerNext l op = some l') : Exact l' := by
  refine ⟨fun p q => queueExact_step (h.queue p q) (hfits.1 p q) hnext, ?_⟩
  cases op with
  | add c =>
      obtain rfl := Option.some.inj hnext
      have hroom := hfits.1 c.port c.qIndex ⟨rfl, rfl⟩
      have hcell : (l.mmu.ingressBytes c.port c.qIndex).toNat + (l.mmu.hdrmBytes c.port c.qIndex).toNat =
          residentBytes l.resident c.port c.qIndex := h.queue c.port c.qIndex
      have hpool : l.mmu.sharedUsedBytes.toNat + c.psize.toNat < 2 ^ 32 ∨ l.mmu.ThresholdExact := by
        rcases hfits.2 with htotal | hthresh
        · have htotal' : totalResident l.resident + c.psize.toNat < 2 ^ 32 := htotal
          have hshared := h.shared_le_total
          exact .inl (by omega)
        · exact .inr hthresh
      have hconfig := l.mmu.updateIngressAdmission_config c.port c.qIndex c.psize
      refine sharedExact_of_moves c.port c.qIndex h.shared (fun p q hne => ?_)
        (l.mmu.updateIngressAdmission_shared c.port c.qIndex c.psize (by omega) hpool)
      simp only [aboveReserve, (l.mmu.updateIngressAdmission_of_ne c.port c.qIndex c.psize hne).1,
        hconfig]
  | remove c =>
      obtain ⟨hc, rfl⟩ := ledgerNext_remove hnext
      refine sharedExact_of_moves c.port c.qIndex h.shared (fun p q hne => ?_)
        (l.mmu.removeFromIngressAdmission_shared c.port c.qIndex c.psize (h.held hc)
          (h.aboveReserve_le_shared c.port c.qIndex))
      have hcell := (l.mmu.removeFromIngressAdmission_of_ne c.port c.qIndex c.psize hne).1
      simp only [aboveReserve]
      rw [hcell]
      rfl

theorem Exact.noWrap {l l' : Ledger} {op : LedgerOp} (h : Exact l) (hfits : Fits l op)
    (hnext : ledgerNext l op = some l') : l.mmu.NoWrap op := by
  cases op with
  | add c =>
      have hroom := hfits.1 c.port c.qIndex ⟨rfl, rfl⟩
      have hcell : (l.mmu.ingressBytes c.port c.qIndex).toNat + (l.mmu.hdrmBytes c.port c.qIndex).toNat =
          residentBytes l.resident c.port c.qIndex := h.queue c.port c.qIndex
      simp only [NoWrap, UInt32.toNat_add]
      omega
  | remove c =>
      obtain ⟨hc, -⟩ := ledgerNext_remove hnext
      exact noWrap_remove l.mmu c.port c.qIndex c.psize (h.held hc)
        (h.aboveReserve_le_shared c.port c.qIndex)

theorem thresholdExact_step {l l' : Ledger} {op : LedgerOp} (h : Exact l) (ht : l.mmu.ThresholdExact)
    (hnext : ledgerNext l op = some l') : l'.mmu.ThresholdExact := by
  cases op with
  | add c =>
      obtain rfl := Option.some.inj hnext
      exact l.mmu.updateIngressAdmission_threshold c.port c.qIndex c.psize ht
  | remove c =>
      obtain ⟨hc, rfl⟩ := ledgerNext_remove hnext
      have hpool := h.aboveReserve_le_shared c.port c.qIndex
      have hmoves := l.mmu.removeFromIngressAdmission_shared c.port c.qIndex c.psize (h.held hc) hpool
      have hgain := l.mmu.fromShared_toNat c.port c.qIndex c.psize (h.held hc)
      unfold ThresholdExact at ht ⊢
      have hhdrm : (l.mmu.removeFromIngressAdmission c.port c.qIndex c.psize).toMmuConfig =
          l.mmu.toMmuConfig := rfl
      rw [hhdrm]
      dsimp only
      omega

theorem exact_start (cfg : MmuConfig) : Exact { mmu := start cfg, resident := [] } where
  queue := fun _ _ => rfl
  shared := by simp [SharedExact, aboveReserve, start]

/-- An empty unit has all its ingress counters at zero. -/
theorem Exact.eq_zero_of_nil {l : Ledger} (h : Exact l) (hempty : l.resident = []) :
    l.mmu.sharedUsedBytes = 0 ∧ ∀ p q, l.mmu.ingressBytes p q = 0 ∧ l.mmu.hdrmBytes p q = 0 := by
  have hcells : ∀ p q, (l.mmu.ingressBytes p q).toNat + (l.mmu.hdrmBytes p q).toNat = 0 := fun p q => by
    have hcell : _ = residentBytes l.resident p q := h.queue p q
    rw [hcell, hempty]
    rfl
  refine ⟨UInt32.toNat_inj.mp ?_, fun p q => ⟨UInt32.toNat_inj.mp ?_, UInt32.toNat_inj.mp ?_⟩⟩
  · have hpool : _ = ∑ x : Port × Queue, l.mmu.aboveReserve x.1 x.2 := h.shared
    rw [hpool]
    apply Finset.sum_eq_zero
    intro x _
    have := hcells x.1 x.2
    simp only [aboveReserve]
    omega
  · have := hcells p q
    simp only [UInt32.toNat_zero]
    omega
  · have := hcells p q
    simp only [UInt32.toNat_zero]
    omega

/-- What exactness says of the state `l` a run has led to and of the operations of that run. -/
structure ExactRun (trace : List (Transition Ledger LedgerOp)) (l : Ledger) : Prop where
  queue : ∀ p q, QueueExact l p q
  shared : SharedExact l.mmu
  noWrap : ∀ x ∈ trace, x.pre.mmu.NoWrap x.label
  empty : l.resident = [] → l.mmu.sharedUsedBytes = 0 ∧
    ∀ p q, l.mmu.ingressBytes p q = 0 ∧ l.mmu.hdrmBytes p q = 0

theorem exactRun_of_fits (cfg : MmuConfig) {trace : List (Transition Ledger LedgerOp)} {l : Ledger}
    (hrun : (ledgerSystem cfg).Run (ledgerSystem cfg).init trace l)
    (hfits : ∀ x ∈ trace, Fits x.pre x.label) : ExactRun trace l := by
  obtain ⟨hexact, hall⟩ := hrun.invariant_of_guard (P := Exact) (C := Fits)
    (fun _ _ _ h hf hnext => exact_step h hf hnext) hfits (exact_start cfg)
  exact {
    queue := hexact.queue
    shared := hexact.shared
    noWrap := fun x hx => (hall x hx).1.noWrap (hfits x hx) (hrun.next_of_mem x hx)
    empty := hexact.eq_zero_of_nil }

theorem thresholdExact_of_fitsQueue (cfg : MmuConfig) {trace : List (Transition Ledger LedgerOp)}
    {l : Ledger} (hrun : (ledgerSystem cfg).Run (ledgerSystem cfg).init trace l)
    (hfits : ∀ x ∈ trace, ∀ p q, FitsQueue p q x.pre x.label)
    (hroom : cfg.totalHdrm.toNat + cfg.totalRsrv.toNat ≤ cfg.bufferSize.toNat) :
    l.mmu.ThresholdExact ∧ ∀ x ∈ trace, x.pre.mmu.ThresholdExact := by
  obtain ⟨hend, hall⟩ := hrun.invariant_of_guard (P := fun l => Exact l ∧ l.mmu.ThresholdExact)
    (C := fun l op => ∀ p q, FitsQueue p q l op)
    (fun _ _ _ h hf hnext =>
      ⟨exact_step h.1 ⟨hf, .inr h.2⟩ hnext, thresholdExact_step h.1 h.2 hnext⟩)
    hfits ⟨exact_start cfg, by simpa [ThresholdExact, ledgerSystem, start] using hroom⟩
  exact ⟨hend.2, fun x hx => (hall x hx).1.2⟩

/-- Ingress accounting is exact. A queue whose own resident bytes fit in 32 bits has them split
between its two counters. When that holds of every queue, and either headroom and reserve leave room
in the buffer or the bytes of the whole unit fit as well, the shared pool is what the queues hold
above their reserve, no operation wraps and an empty unit has all its counters at zero; in the first
case the threshold never wraps either. -/
theorem ledger_exact (cfg : MmuConfig) {trace : List (Transition Ledger LedgerOp)} {l : Ledger}
    (hrun : (ledgerSystem cfg).Run (ledgerSystem cfg).init trace l) :
    (∀ p q, (∀ x ∈ trace, FitsQueue p q x.pre x.label) → QueueExact l p q) ∧
    ((∀ x ∈ trace, FitsTotal x.pre x.label) → ExactRun trace l) ∧
    ((∀ x ∈ trace, ∀ p q, FitsQueue p q x.pre x.label) →
      cfg.totalHdrm.toNat + cfg.totalRsrv.toNat ≤ cfg.bufferSize.toNat →
      ExactRun trace l ∧ l.mmu.ThresholdExact ∧ ∀ x ∈ trace, x.pre.mmu.ThresholdExact) := by
  refine ⟨fun p q hfits => ?_, fun hfits => ?_, fun hfits hroom => ?_⟩
  · exact (hrun.invariant_of_guard (P := fun l => QueueExact l p q)
      (fun _ _ _ h hf hnext => queueExact_step h hf hnext) hfits rfl).1
  · exact exactRun_of_fits cfg hrun fun x hx =>
      ⟨fun p q => fitsQueue_of_fitsTotal (hfits x hx) p q, .inl (hfits x hx)⟩
  · have hthresh := thresholdExact_of_fitsQueue cfg hrun hfits hroom
    exact ⟨exactRun_of_fits cfg hrun fun x hx => ⟨hfits x hx, .inr (hthresh.2 x hx)⟩, hthresh⟩

instance (l : Ledger) (op : LedgerOp) : Decidable (FitsTotal l op) :=
  match op with
  | .add _ => inferInstanceAs (Decidable (_ < _))
  | .remove _ => inferInstanceAs (Decidable True)

/-- Headroom and reserve of two ports leave a pool of 96 bytes. -/
def smallPool : MmuConfig :=
  { zeroConfig with headroom := fun _ => 6287312, totalHdrm := 2 * 6287312, totalRsrv := 2 * 4096 }

/-- The second packet uses up the pool and the third of its queue takes headroom. -/
def poolArrivals (p p' : Port) (q q' : Queue) : List LedgerOp :=
  [.add ⟨p, q, 2000⟩, .add ⟨p, q, 2192⟩, .add ⟨p', q', 700⟩, .add ⟨p, q, 500⟩]

/-- The second packet leaves first, so that the headroom is free again before the packet that took it has left. -/
def poolDepartures (p p' : Port) (q q' : Queue) : List LedgerOp :=
  [.remove ⟨p, q, 2192⟩, .remove ⟨p', q', 700⟩, .remove ⟨p, q, 500⟩]

theorem ledger_exact_pool :
    ((ledgerSystem smallPool).exec (ledgerSystem smallPool).init (poolArrivals 1 2 3 5)).map
        (fun l => (l.mmu.sharedUsedBytes, l.mmu.hdrmBytes 1 3)) = some (96, 500) ∧
      ∃ trace l, (ledgerSystem smallPool).Run (ledgerSystem smallPool).init trace l ∧
        trace.map Transition.label = poolArrivals 1 2 3 5 ++ poolDepartures 1 2 3 5 ∧ l.resident = [⟨1, 3, 2000⟩] ∧
        QueueExact l 1 3 ∧ ExactRun trace l ∧ l.mmu.ThresholdExact := by
  refine ⟨by decide, ?_⟩
  have hchecked : (ledgerSystem smallPool).checked (fun x => decide (FitsTotal x.pre x.label))
      (ledgerSystem smallPool).init (poolArrivals 1 2 3 5 ++ poolDepartures 1 2 3 5) = true := by decide +kernel
  obtain ⟨trace, l, hrun, hlabels, hexec, hfits⟩ := System.Run.of_checked _ hchecked
  have hqueues : ∀ x ∈ trace, ∀ p q, FitsQueue p q x.pre x.label := fun x hx =>
    fitsQueue_of_fitsTotal (of_decide_eq_true (hfits x hx))
  have hleft : ((ledgerSystem smallPool).exec (ledgerSystem smallPool).init
      (poolArrivals 1 2 3 5 ++ poolDepartures 1 2 3 5)).map Ledger.resident = some [⟨1, 3, 2000⟩] := by decide
  rw [hexec] at hleft
  obtain ⟨hqueue, -, hunit⟩ := ledger_exact smallPool hrun
  obtain ⟨hexact, hthresh, -⟩ := hunit hqueues (by decide)
  exact ⟨trace, l, hrun, hlabels, Option.some.inj hleft, hqueue 1 3 fun x hx => hqueues x hx 1 3, hexact, hthresh⟩

/-- Two packets of `2^31` bytes in one queue: the counters come back to zero with both present. -/
theorem not_queueExact_two_packets :
    ∃ trace l, (ledgerSystem zeroConfig).Run (ledgerSystem zeroConfig).init trace l ∧
      trace.map Transition.label = [.add ⟨1, 3, 0x80000000⟩, .add ⟨1, 3, 0x80000000⟩] ∧
      residentBytes l.resident 1 3 = 2 ^ 32 ∧ ¬ QueueExact l 1 3 := by
  obtain ⟨trace, hrun, hlabels⟩ := System.Run.of_exec (M := ledgerSystem zeroConfig)
    (s := (ledgerSystem zeroConfig).init)
    [.add ⟨1, 3, 0x80000000⟩, .add ⟨1, 3, 0x80000000⟩] rfl
  refine ⟨trace, _, hrun, hlabels, ?_, ?_⟩
  · rfl
  · simp only [QueueExact]
    decide

end SwitchMmu

end Lcmp
