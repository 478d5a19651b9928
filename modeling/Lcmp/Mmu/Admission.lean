import Lcmp.Mmu.Accounting
import Lcmp.Mmu.Config
import Mathlib.Data.Fintype.BigOperators

/-!
# Admission control

What `checkIngressAdmission` buys. The test and the charging rule evaluate different expressions, one
of which wraps where the other does not, but they agree on which packets need headroom. The shared
pool and the headroom of a queue then stay within their bounds. The whole buffer does not: reserve and
headroom are set aside once per port and granted to each of its queues.
-/

namespace Lcmp

namespace SwitchMmu

/-- An arrival passes the admission test. -/
def Admitted (l : Ledger) : LedgerOp → Prop
  | .add c => l.mmu.checkIngressAdmission c.port c.qIndex c.psize = true
  | .remove _ => True

/-- The condition under which `updateIngressAdmission` charges a packet to the headroom. -/
def chargesHdrm (m : SwitchMmu) (c : Charge) : Bool :=
  let newBytes := m.ingressBytes c.port c.qIndex + c.psize
  newBytes > m.reserve && newBytes - m.reserve > m.getPfcThreshold c.port

def HdrmBounded (m : SwitchMmu) : Prop := ∀ p q, m.hdrmBytes p q ≤ m.headroom p

/-! ### The test and the charging rule -/

theorem updateIngressAdmission_hdrm (m : SwitchMmu) (c : Charge) :
    (m.updateIngressAdmission c.port c.qIndex c.psize).hdrmBytes =
      if m.chargesHdrm c then
        Grid.set m.hdrmBytes c.port c.qIndex (m.hdrmBytes c.port c.qIndex + c.psize)
      else m.hdrmBytes := by
  unfold updateIngressAdmission chargesHdrm
  dsimp only
  split
  · rename_i hle
    have hnot : ¬ m.ingressBytes c.port c.qIndex + c.psize > m.reserve :=
      UInt32.not_lt.mpr hle
    simp [hnot]
  · rename_i hle
    have hgt : m.ingressBytes c.port c.qIndex + c.psize > m.reserve := UInt32.not_le.mp hle
    split <;> simp [*]

/-- Above the reserve the test never sees fewer shared bytes than the charging rule does. -/
theorem excess_le_of_gt_reserve (m : SwitchMmu) (c : Charge)
    (hgt : m.ingressBytes c.port c.qIndex + c.psize > m.reserve) :
    m.ingressBytes c.port c.qIndex + c.psize - m.reserve ≤ c.psize + m.getSharedUsed c.port c.qIndex := by
  unfold getSharedUsed
  dsimp only
  split
  · apply UInt32.le_of_eq
    rw [UInt32.add_comm, UInt32.sub_eq_add_neg, UInt32.add_assoc, UInt32.sub_eq_add_neg]
  · rename_i hle
    have hing := (m.ingressBytes c.port c.qIndex).toNat_lt
    have hsize := c.psize.toNat_lt
    simp only [gt_iff_lt, UInt32.lt_iff_toNat_lt, UInt32.le_iff_toNat_le, UInt32.toNat_sub, UInt32.toNat_add,
      UInt32.toNat_zero] at hgt hle ⊢
    omega

theorem hdrm_le_of_admitted {m : SwitchMmu} {c : Charge}
    (hadm : m.checkIngressAdmission c.port c.qIndex c.psize = true) (hhdrm : m.chargesHdrm c = true) :
    c.psize + m.hdrmBytes c.port c.qIndex ≤ m.headroom c.port := by
  simp only [chargesHdrm] at hhdrm
  simp only [Bool.and_eq_true, decide_eq_true_eq] at hhdrm
  have hexcess := m.excess_le_of_gt_reserve c hhdrm.1
  have hover : c.psize + m.getSharedUsed c.port c.qIndex > m.getPfcThreshold c.port :=
    UInt32.lt_of_lt_of_le hhdrm.2 hexcess
  simp only [checkIngressAdmission] at hadm
  simpa [hover] using hadm

theorem hdrmBounded_step {l l' : Ledger} {op : LedgerOp} (h : HdrmBounded l.mmu) (hadm : Admitted l op)
    (hnext : ledgerNext l op = some l') : HdrmBounded l'.mmu := by
  intro p q
  cases op with
  | add c =>
      obtain rfl := Option.some.inj hnext
      have hconfig := l.mmu.updateIngressAdmission_config c.port c.qIndex c.psize
      rw [updateIngressAdmission_hdrm, hconfig]
      split
      · rename_i hhdrm
        by_cases hcell : p = c.port ∧ q = c.qIndex
        · obtain ⟨rfl, rfl⟩ := hcell
          rw [Grid.set_self, UInt32.add_comm]
          exact hdrm_le_of_admitted hadm hhdrm
        · rw [Grid.set_of_ne hcell]
          exact h p q
      · exact h p q
  | remove c =>
      obtain ⟨-, rfl⟩ := ledgerNext_remove hnext
      by_cases hcell : p = c.port ∧ q = c.qIndex
      · obtain ⟨rfl, rfl⟩ := hcell
        have hbound := h c.port c.qIndex
        have hmin := l.mmu.fromHdrm_toNat c.port c.qIndex c.psize
        simp only [removeFromIngressAdmission, Grid.set_self, UInt32.le_iff_toNat_le] at hbound ⊢
        rw [UInt32.toNat_sub_of_le _ _ (UInt32.le_iff_toNat_le.mpr (by omega))]
        omega
      · rw [(l.mmu.removeFromIngressAdmission_of_ne c.port c.qIndex c.psize hcell).2]
        exact h p q

theorem hdrmBounded_of_admitted (cfg : MmuConfig) {trace : List (Transition Ledger LedgerOp)} {l : Ledger}
    (hrun : (ledgerSystem cfg).Run (ledgerSystem cfg).init trace l)
    (hadm : ∀ x ∈ trace, Admitted x.pre x.label) :
    HdrmBounded l.mmu ∧ ∀ x ∈ trace, HdrmBounded x.pre.mmu := by
  obtain ⟨hend, hall⟩ := hrun.invariant_of_guard (P := fun l => HdrmBounded l.mmu) (C := Admitted)
    (fun _ _ _ h ha hnext => hdrmBounded_step h ha hnext) hadm
    (fun _ _ => UInt32.le_iff_toNat_le.mpr (Nat.zero_le _))
  exact ⟨hend, fun x hx => (hall x hx).1⟩

/-- In an admitted run no queue holds more headroom than its port has, and as long as the bytes
present at each queue fit in 32 bits the shared pool fits beside the headroom and the reserve. -/
theorem admission_bounds (cfg : MmuConfig) (hroom : cfg.totalHdrm.toNat + cfg.totalRsrv.toNat ≤ cfg.bufferSize.toNat)
    {trace : List (Transition Ledger LedgerOp)} {l : Ledger}
    (hrun : (ledgerSystem cfg).Run (ledgerSystem cfg).init trace l)
    (hadm : ∀ x ∈ trace, Admitted x.pre x.label) :
    (∀ p q, l.mmu.hdrmBytes p q ≤ l.mmu.headroom p) ∧
    ((∀ x ∈ trace, ∀ p q, FitsQueue p q x.pre x.label) → l.mmu.ThresholdExact) :=
  ⟨(hdrmBounded_of_admitted cfg hrun hadm).1,
    fun hfits => (thresholdExact_of_fitsQueue cfg hrun hfits hroom).1⟩

/-- A unit of 5100 bytes without headroom. -/
def smallConfig : MmuConfig := { zeroConfig with bufferSize := 5100 }

/-- One packet through queue 3 of port 1: both bounds apply to its run. -/
theorem admission_bounds_one_packet :
    ∃ trace l, (ledgerSystem smallConfig).Run (ledgerSystem smallConfig).init trace l ∧
      trace.map Transition.label = [.add ⟨1, 3, 5096⟩] ∧
      l.mmu.sharedUsedBytes = 1000 ∧ l.mmu.ThresholdExact := by
  have hrun : (ledgerSystem smallConfig).Run (ledgerSystem smallConfig).init _ _ :=
    .cons (a := .add ⟨1, 3, 5096⟩) rfl (.nil _)
  refine ⟨_, _, hrun, rfl, by decide, ?_⟩
  have hbounds := admission_bounds smallConfig (by decide) hrun (by
    simp only [List.forall_mem_singleton]
    show checkIngressAdmission _ _ _ _ = true
    decide)
  apply hbounds.2
  simp only [List.forall_mem_singleton]
  exact fun _ _ _ => show 0 + 5096 < 2 ^ 32 by decide

/-- Two packets, the second of `2^32 - 500` bytes: both are admitted and both leave, and the empty
unit of 5100 bytes has 5596 of them in use. -/
theorem not_admission_bounds_wrapped :
    ∃ trace l, (ledgerSystem smallConfig).Run (ledgerSystem smallConfig).init trace l ∧
      trace.map Transition.label = [.add ⟨1, 3, 5096⟩, .add ⟨1, 3, 4294966796⟩, .remove ⟨1, 3, 5096⟩,
        .remove ⟨1, 3, 4294966796⟩] ∧
      (∀ x ∈ trace, Admitted x.pre x.label) ∧ l.resident = [] ∧
      l.mmu.sharedUsedBytes = 5596 ∧ ¬ l.mmu.ThresholdExact := by
  have hrun : (ledgerSystem smallConfig).Run (ledgerSystem smallConfig).init _ _ :=
    .cons (a := .add ⟨1, 3, 5096⟩) rfl (.cons (a := .add ⟨1, 3, 4294966796⟩) rfl
      (.cons (a := .remove ⟨1, 3, 5096⟩) rfl (.cons (a := .remove ⟨1, 3, 4294966796⟩) rfl (.nil _))))
  refine ⟨_, _, hrun, rfl, ?_, by decide, by decide, ?_⟩
  · simp only [List.forall_mem_cons]
    refine ⟨?_, ?_, trivial, trivial, by simp⟩
    · show checkIngressAdmission _ _ _ _ = true
      decide
    · show checkIngressAdmission _ _ _ _ = true
      decide
  · simp only [ThresholdExact]
    decide

/-! ### The buffer -/

/-- The part of the ingress counter that lies within the reserve. -/
def reserveBytes (m : SwitchMmu) (port : Port) (qIndex : Queue) : Nat :=
  min (m.ingressBytes port qIndex).toNat m.reserve.toNat

/-- What the queues of a port hold in reserve and headroom. -/
def setAsideBytes (m : SwitchMmu) (port : Port) : Nat :=
  ∑ q, (m.reserveBytes port q + (m.hdrmBytes port q).toNat)

def storedBytes (m : SwitchMmu) : Nat :=
  ∑ x : Port × Queue, ((m.ingressBytes x.1 x.2).toNat + (m.hdrmBytes x.1 x.2).toNat)

/-- What an arrival takes out of reserve and headroom. -/
def takesSetAside (m : SwitchMmu) (c : Charge) : Nat :=
  if m.chargesHdrm c then c.psize.toNat
  else min c.psize.toNat (m.reserve.toNat - (m.ingressBytes c.port c.qIndex).toNat)

/-- One reserve and one headroom for each of the ports `1` to `n`. -/
def portShare (cfg : MmuConfig) (n : Nat) (port : Port) : Nat :=
  if 1 ≤ port.val ∧ port.val ≤ n then cfg.reserve.toNat + (cfg.headroom port).toNat else 0

def OnPorts (n : Nat) : LedgerOp → Prop
  | .add c => 1 ≤ c.port.val ∧ c.port.val ≤ n
  | .remove _ => True

/-- The queues of the port of an arrival stay together within one reserve and one headroom. -/
def WithinPort (l : Ledger) : LedgerOp → Prop
  | .add c => l.mmu.setAsideBytes c.port + l.mmu.takesSetAside c ≤
      l.mmu.reserve.toNat + (l.mmu.headroom c.port).toNat
  | .remove _ => True

/-- Every port has one queue that all its packets are in. -/
def OneQueue (queueOf : Port → Queue) : LedgerOp → Prop
  | .add c => c.qIndex = queueOf c.port
  | .remove _ => True

theorem storedBytes_eq (m : SwitchMmu) :
    m.storedBytes = (∑ p, m.setAsideBytes p) + ∑ x : Port × Queue, m.aboveReserve x.1 x.2 := by
  have hports : ∑ p, m.setAsideBytes p =
      ∑ x : Port × Queue, (m.reserveBytes x.1 x.2 + (m.hdrmBytes x.1 x.2).toNat) := by
    rw [Fintype.sum_prod_type]
    rfl
  rw [hports, ← Finset.sum_add_distrib, storedBytes]
  apply Finset.sum_congr rfl
  intro x _
  simp only [reserveBytes, aboveReserve]
  omega

/-- What one arrival does to the bytes its queue has set aside. -/
theorem updateIngressAdmission_setAside (m : SwitchMmu) (c : Charge)
    (hing : (m.ingressBytes c.port c.qIndex).toNat + c.psize.toNat < 2 ^ 32)
    (hhdrm : (m.hdrmBytes c.port c.qIndex).toNat + c.psize.toNat < 2 ^ 32) :
    (m.updateIngressAdmission c.port c.qIndex c.psize).reserveBytes c.port c.qIndex +
        ((m.updateIngressAdmission c.port c.qIndex c.psize).hdrmBytes c.port c.qIndex).toNat =
      m.reserveBytes c.port c.qIndex + (m.hdrmBytes c.port c.qIndex).toNat + m.takesSetAside c := by
  have hnew : (m.ingressBytes c.port c.qIndex + c.psize).toNat =
      (m.ingressBytes c.port c.qIndex).toNat + c.psize.toNat := by
    rw [UInt32.toNat_add]
    omega
  unfold takesSetAside chargesHdrm reserveBytes updateIngressAdmission
  dsimp only
  by_cases hle : m.ingressBytes c.port c.qIndex + c.psize ≤ m.reserve
  · have hnot : ¬ m.ingressBytes c.port c.qIndex + c.psize > m.reserve := UInt32.not_lt.mpr hle
    rw [UInt32.le_iff_toNat_le, hnew] at hle
    simp only [hnot, UInt32.not_lt.mp hnot, if_true, decide_false, Bool.false_and, Bool.false_eq_true,
      if_false, Grid.set_self, hnew]
    omega
  · have hgt : m.ingressBytes c.port c.qIndex + c.psize > m.reserve := UInt32.not_le.mp hle
    rw [UInt32.le_iff_toNat_le, hnew] at hle
    by_cases hthresh : m.ingressBytes c.port c.qIndex + c.psize - m.reserve > m.getPfcThreshold c.port
    · simp only [UInt32.not_le.mpr hgt, hgt, hthresh, if_true, if_false, decide_true, Bool.true_and,
        Grid.set_self, UInt32.toNat_add]
      omega
    · simp only [UInt32.not_le.mpr hgt, hgt, hthresh, if_false, decide_true, decide_false, Bool.and_false,
        Bool.false_eq_true, Grid.set_self, hnew]
      omega

theorem removeFromIngressAdmission_setAside (m : SwitchMmu) (c : Charge) (port : Port) (qIndex : Queue)
    (hheld : c.psize.toNat ≤ (m.ingressBytes c.port c.qIndex).toNat + (m.hdrmBytes c.port c.qIndex).toNat) :
    (m.removeFromIngressAdmission c.port c.qIndex c.psize).reserveBytes port qIndex +
        ((m.removeFromIngressAdmission c.port c.qIndex c.psize).hdrmBytes port qIndex).toNat ≤
      m.reserveBytes port qIndex + (m.hdrmBytes port qIndex).toNat := by
  simp only [reserveBytes]
  by_cases hcell : port = c.port ∧ qIndex = c.qIndex
  · obtain ⟨rfl, rfl⟩ := hcell
    have hhdrm := m.fromHdrm_toNat c.port c.qIndex c.psize
    have hing := (m.ingressBytes c.port c.qIndex).toNat_lt
    have hbytes := (m.hdrmBytes c.port c.qIndex).toNat_lt
    have hsize := c.psize.toNat_lt
    simp only [removeFromIngressAdmission, Grid.set_self, UInt32.toNat_sub]
    omega
  · have hsame := m.removeFromIngressAdmission_of_ne c.port c.qIndex c.psize hcell
    rw [hsame.1, hsame.2]
    rfl

/-- No port has more set aside than its share. -/
def SharesKept (n : Nat) (m : SwitchMmu) : Prop := ∀ p, m.setAsideBytes p ≤ portShare m.toMmuConfig n p

theorem sharesKept_step {n : Nat} {l l' : Ledger} {op : LedgerOp} (h : Exact l) (hkept : SharesKept n l.mmu)
    (hfits : ∀ p q, FitsQueue p q l op) (hports : OnPorts n op) (hwithin : WithinPort l op)
    (hnext : ledgerNext l op = some l') : SharesKept n l'.mmu := by
  intro p
  cases op with
  | add c =>
      obtain rfl := Option.some.inj hnext
      dsimp only
      rw [updateIngressAdmission_config]
      have hroom := hfits c.port c.qIndex ⟨rfl, rfl⟩
      have hcell : (l.mmu.ingressBytes c.port c.qIndex).toNat + (l.mmu.hdrmBytes c.port c.qIndex).toNat =
          residentBytes l.resident c.port c.qIndex := h.queue c.port c.qIndex
      have hreserve : (l.mmu.updateIngressAdmission c.port c.qIndex c.psize).reserve = l.mmu.reserve :=
        congrArg MmuConfig.reserve (l.mmu.updateIngressAdmission_config c.port c.qIndex c.psize)
      have hoff : ∀ q, ¬(p = c.port ∧ q = c.qIndex) →
          (l.mmu.updateIngressAdmission c.port c.qIndex c.psize).reserveBytes p q +
              ((l.mmu.updateIngressAdmission c.port c.qIndex c.psize).hdrmBytes p q).toNat =
            l.mmu.reserveBytes p q + (l.mmu.hdrmBytes p q).toNat := by
        intro q hne
        have hsame := l.mmu.updateIngressAdmission_of_ne c.port c.qIndex c.psize hne
        simp only [reserveBytes, hsame.1, hsame.2, hreserve]
      by_cases hp : p = c.port
      · subst hp
        have hsum := Grid.sum_of_eq_except
          (fun q => (l.mmu.updateIngressAdmission c.port c.qIndex c.psize).reserveBytes c.port q +
            ((l.mmu.updateIngressAdmission c.port c.qIndex c.psize).hdrmBytes c.port q).toNat)
          (fun q => l.mmu.reserveBytes c.port q + (l.mmu.hdrmBytes c.port q).toNat) c.qIndex
          (fun q hq => hoff q (fun he => hq he.2))
        have hself := l.mmu.updateIngressAdmission_setAside c (by omega) (by omega)
        have hguard : l.mmu.setAsideBytes c.port + l.mmu.takesSetAside c ≤
            l.mmu.reserve.toNat + (l.mmu.headroom c.port).toNat := hwithin
        have hport : 1 ≤ c.port.val ∧ c.port.val ≤ n := hports
        rw [portShare, if_pos hport]
        simp only [setAsideBytes] at hguard ⊢
        omega
      · have hsum : (l.mmu.updateIngressAdmission c.port c.qIndex c.psize).setAsideBytes p =
            l.mmu.setAsideBytes p :=
          Finset.sum_congr rfl fun q _ => hoff q (fun he => hp he.1)
        rw [hsum]
        exact hkept p
  | remove c =>
      obtain ⟨hc, rfl⟩ := ledgerNext_remove hnext
      apply (Finset.sum_le_sum fun q _ =>
        l.mmu.removeFromIngressAdmission_setAside c p q (h.held hc)).trans
      exact hkept p

/-! ### What `configNPort` sets aside -/

theorem sum_ports_succ (f : Port → Nat) (n : Nat) (hn : n + 1 < pCnt) :
    (∑ p : Port, if 1 ≤ p.val ∧ p.val ≤ n + 1 then f p else 0) =
      (∑ p : Port, if 1 ≤ p.val ∧ p.val ≤ n then f p else 0) + f ⟨n + 1, hn⟩ := by
  have hsum := Grid.sum_of_eq_except (fun p : Port => if 1 ≤ p.val ∧ p.val ≤ n + 1 then f p else 0)
    (fun p : Port => if 1 ≤ p.val ∧ p.val ≤ n then f p else 0) ⟨n + 1, hn⟩ (by
      intro p hp
      have hne : p.val ≠ n + 1 := fun he => hp (Fin.ext he)
      have hiff : p.val ≤ n + 1 ↔ p.val ≤ n := by omega
      simp only [hiff])
  simpa using hsum

/-- The totals `configNPort` leaves behind, as sums over the ports. -/
theorem configNPort_totals {m₀ m : SwitchMmu} {n : Nat} (h : m₀.configNPort n = .ok m) :
    m.totalHdrm.toNat = (∑ p : Port, if 1 ≤ p.val ∧ p.val ≤ n then (m₀.headroom p).toNat else 0) % 2 ^ 32 ∧
    m.totalRsrv.toNat = (∑ p : Port, if 1 ≤ p.val ∧ p.val ≤ n then m₀.reserve.toNat else 0) % 2 ^ 32 ∧
    m.headroom = m₀.headroom ∧ m.reserve = m₀.reserve ∧ m.bufferSize = m₀.bufferSize := by
  induction n generalizing m with
  | zero =>
      obtain rfl := Except.ok.inj h
      have hnone : ∀ p : Port, ¬(1 ≤ p.val ∧ p.val ≤ 0) := fun p => by omega
      simp only [hnone, if_false, Finset.sum_const_zero]
      exact ⟨rfl, rfl, trivial, trivial, trivial⟩
  | succ n ih =>
      rw [configNPort] at h
      split at h
      · cases h
      · rename_i mid hmid
        obtain ⟨hhdrm, hrsrv, hheadroom, hreserve, hbuffer⟩ := ih hmid
        split at h
        · rename_i hn
          obtain rfl := Except.ok.inj h
          refine ⟨?_, ?_, hheadroom, hreserve, hbuffer⟩
          · rw [UInt32.toNat_add, hhdrm, hheadroom, Nat.mod_add_mod, sum_ports_succ _ n hn]
          · rw [UInt32.toNat_add, hrsrv, hreserve, Nat.mod_add_mod, sum_ports_succ _ n hn]
        · cases h

/-- If a reserve and a headroom for each port fit in the buffer, then the totals are exact. -/
theorem totals_eq_shares {m₀ m : SwitchMmu} {n : Nat} (h : m₀.configNPort n = .ok m)
    (hroom : ∑ p, portShare m.toMmuConfig n p ≤ m.bufferSize.toNat) :
    m.totalHdrm.toNat + m.totalRsrv.toNat = ∑ p, portShare m.toMmuConfig n p := by
  obtain ⟨hhdrm, hrsrv, hheadroom, hreserve, -⟩ := configNPort_totals h
  have hshares : ∑ p, portShare m.toMmuConfig n p =
      (∑ p : Port, if 1 ≤ p.val ∧ p.val ≤ n then m₀.reserve.toNat else 0) +
        ∑ p : Port, if 1 ≤ p.val ∧ p.val ≤ n then (m₀.headroom p).toNat else 0 := by
    rw [← Finset.sum_add_distrib]
    apply Finset.sum_congr rfl
    intro p _
    simp only [portShare]
    rw [hheadroom, hreserve]
    split <;> rfl
  have hbuf := m.bufferSize.toNat_lt
  rw [hshares] at hroom ⊢
  rw [hhdrm, hrsrv, Nat.mod_eq_of_lt (by omega), Nat.mod_eq_of_lt (by omega), Nat.add_comm]

/-! ### Runs -/

theorem storedBytes_le_of_sharesKept {n : Nat} {l : Ledger} {cfg : MmuConfig} (hcfg : l.mmu.toMmuConfig = cfg)
    (h : Exact l) (hthresh : l.mmu.ThresholdExact) (hkept : SharesKept n l.mmu)
    (htotals : cfg.totalHdrm.toNat + cfg.totalRsrv.toNat = ∑ p, portShare cfg n p) :
    l.mmu.storedBytes ≤ l.mmu.bufferSize.toNat := by
  have hshares : ∑ p, l.mmu.setAsideBytes p ≤ ∑ p, portShare cfg n p :=
    Finset.sum_le_sum fun p _ => hcfg ▸ hkept p
  have hpool : l.mmu.sharedUsedBytes.toNat = ∑ x : Port × Queue, l.mmu.aboveReserve x.1 x.2 := h.shared
  subst hcfg
  simp only [ThresholdExact] at hthresh
  rw [storedBytes_eq]
  omega

/-- What an admitted run keeps as long as its arrivals meet the guards. -/
structure Bounded (cfg : MmuConfig) (n : Nat) (l : Ledger) : Prop where
  config : l.mmu.toMmuConfig = cfg
  exact : Exact l
  threshold : l.mmu.ThresholdExact
  hdrm : HdrmBounded l.mmu
  shares : SharesKept n l.mmu

theorem ledgerNext_config {l l' : Ledger} {op : LedgerOp} (hnext : ledgerNext l op = some l') :
    l'.mmu.toMmuConfig = l.mmu.toMmuConfig := by
  cases op with
  | add c =>
      obtain rfl := Option.some.inj hnext
      exact l.mmu.updateIngressAdmission_config c.port c.qIndex c.psize
  | remove c =>
      obtain ⟨-, rfl⟩ := ledgerNext_remove hnext
      rfl

theorem bounded_step {cfg : MmuConfig} {n : Nat} {l l' : Ledger} {op : LedgerOp} (h : Bounded cfg n l)
    (hadm : Admitted l op) (hfits : ∀ p q, FitsQueue p q l op) (hports : OnPorts n op)
    (hwithin : WithinPort l op) (hnext : ledgerNext l op = some l') : Bounded cfg n l' where
  config := (ledgerNext_config hnext).trans h.config
  exact := exact_step h.exact ⟨hfits, .inr h.threshold⟩ hnext
  threshold := thresholdExact_step h.exact h.threshold hnext
  hdrm := hdrmBounded_step h.hdrm hadm hnext
  shares := sharesKept_step h.exact h.shares hfits hports hwithin hnext

theorem bounded_start {cfg : MmuConfig} (n : Nat)
    (hroom : cfg.totalHdrm.toNat + cfg.totalRsrv.toNat ≤ cfg.bufferSize.toNat) :
    Bounded cfg n { mmu := start cfg, resident := [] } where
  config := rfl
  exact := exact_start cfg
  threshold := by simpa [ThresholdExact, start] using hroom
  hdrm := fun _ _ => UInt32.le_iff_toNat_le.mpr (Nat.zero_le _)
  shares := fun p => by simp [setAsideBytes, reserveBytes, start]

/-- A port whose packets are all in one queue has nothing set aside for the others. -/
theorem setAsideBytes_of_oneQueue {l : Ledger} (h : Exact l) (port : Port) (qIndex : Queue)
    (hone : ∀ c ∈ l.resident, c.port = port → c.qIndex = qIndex) :
    l.mmu.setAsideBytes port = l.mmu.reserveBytes port qIndex + (l.mmu.hdrmBytes port qIndex).toNat := by
  apply Finset.sum_eq_single qIndex
  · intro q _ hq
    have hcell : (l.mmu.ingressBytes port q).toNat + (l.mmu.hdrmBytes port q).toNat =
        residentBytes l.resident port q := h.queue port q
    have hnone : (l.resident.filter fun c => c.port = port ∧ c.qIndex = q) = [] := by
      apply List.filter_eq_nil_iff.mpr
      intro c hc
      simp only [decide_eq_true_eq, not_and]
      intro hp hcq
      exact hq (hcq ▸ hone c hc hp)
    simp only [residentBytes, hnone, List.map_nil, List.sum_nil] at hcell
    simp only [reserveBytes]
    omega
  · intro hnot
    exact absurd (Finset.mem_univ qIndex) hnot

theorem withinPort_of_oneQueue {cfg : MmuConfig} {n : Nat} {l : Ledger} {op : LedgerOp} {queueOf : Port → Queue}
    (h : Bounded cfg n l) (hresident : ∀ c ∈ l.resident, c.qIndex = queueOf c.port)
    (hone : OneQueue queueOf op) (hadm : Admitted l op) (hfits : ∀ p q, FitsQueue p q l op) :
    WithinPort l op := by
  cases op with
  | remove c => trivial
  | add c =>
      have hqueue : c.qIndex = queueOf c.port := hone
      have hroom := hfits c.port c.qIndex ⟨rfl, rfl⟩
      have hcell : (l.mmu.ingressBytes c.port c.qIndex).toNat + (l.mmu.hdrmBytes c.port c.qIndex).toNat =
          residentBytes l.resident c.port c.qIndex := h.exact.queue c.port c.qIndex
      have hheld := setAsideBytes_of_oneQueue h.exact c.port c.qIndex
        (fun c' hc' hp => by rw [hresident c' hc', hp, hqueue])
      have hbound := UInt32.le_iff_toNat_le.mp (h.hdrm c.port c.qIndex)
      change l.mmu.setAsideBytes c.port + l.mmu.takesSetAside c ≤ _
      rw [hheld]
      simp only [takesSetAside, reserveBytes]
      split
      · rename_i hhdrm
        have hfit := UInt32.le_iff_toNat_le.mp (hdrm_le_of_admitted hadm hhdrm)
        rw [UInt32.toNat_add] at hfit
        omega
      · omega

theorem resident_queue_step {queueOf : Port → Queue} {l l' : Ledger} {op : LedgerOp}
    (h : ∀ c ∈ l.resident, c.qIndex = queueOf c.port) (hone : OneQueue queueOf op)
    (hnext : ledgerNext l op = some l') : ∀ c ∈ l'.resident, c.qIndex = queueOf c.port := by
  intro c hc
  cases op with
  | add packet =>
      obtain rfl := Option.some.inj hnext
      rcases List.mem_cons.mp hc with rfl | hc
      · exact hone
      · exact h c hc
  | remove packet =>
      obtain ⟨-, rfl⟩ := ledgerNext_remove hnext
      exact h c (List.mem_of_mem_erase hc)

/-- The switch stores no more than its buffer as long as no arrival takes the queues of its port
together beyond one reserve and one headroom; in particular when each port uses one queue. The
shares that `configNPort` adds up are assumed to fit in the buffer as integers. -/
theorem stored_le_buffer {m₀ m : SwitchMmu} {n : Nat} (hconfig : m₀.configNPort n = .ok m)
    (hroom : ∑ p, portShare m.toMmuConfig n p ≤ m.bufferSize.toNat)
    {trace : List (Transition Ledger LedgerOp)} {l : Ledger}
    (hrun : (ledgerSystem m.toMmuConfig).Run (ledgerSystem m.toMmuConfig).init trace l)
    (hports : ∀ x ∈ trace, OnPorts n x.label) (hadm : ∀ x ∈ trace, Admitted x.pre x.label)
    (hfits : ∀ x ∈ trace, ∀ p q, FitsQueue p q x.pre x.label) :
    ((∀ x ∈ trace, WithinPort x.pre x.label) → l.mmu.storedBytes ≤ m.bufferSize.toNat) ∧
    (∀ queueOf, (∀ x ∈ trace, OneQueue queueOf x.label) → l.mmu.storedBytes ≤ m.bufferSize.toNat) := by
  have htotals := totals_eq_shares hconfig hroom
  have hstored : ∀ {l : Ledger}, Bounded m.toMmuConfig n l → l.mmu.storedBytes ≤ m.bufferSize.toNat := by
    intro l h
    have hle := storedBytes_le_of_sharesKept h.config h.exact h.threshold h.shares htotals
    rwa [congrArg MmuConfig.bufferSize h.config] at hle
  constructor
  · intro hwithin
    apply hstored
    exact (hrun.invariant_of_guard (P := Bounded m.toMmuConfig n)
      (C := fun l op => Admitted l op ∧ (∀ p q, FitsQueue p q l op) ∧ OnPorts n op ∧ WithinPort l op)
      (fun _ _ _ h hg hnext => bounded_step h hg.1 hg.2.1 hg.2.2.1 hg.2.2.2 hnext)
      (fun x hx => ⟨hadm x hx, hfits x hx, hports x hx, hwithin x hx⟩)
      (bounded_start n (htotals.trans_le hroom))).1
  · intro queueOf hone
    apply hstored
    exact (hrun.invariant_of_guard
      (P := fun l => Bounded m.toMmuConfig n l ∧ ∀ c ∈ l.resident, c.qIndex = queueOf c.port)
      (C := fun l op => Admitted l op ∧ (∀ p q, FitsQueue p q l op) ∧ OnPorts n op ∧ OneQueue queueOf op)
      (fun _ _ _ h hg hnext =>
        ⟨bounded_step h.1 hg.1 hg.2.1 hg.2.2.1
            (withinPort_of_oneQueue h.1 h.2 hg.2.2.2 hg.1 hg.2.1) hnext,
          resident_queue_step h.2 hg.2.2.2 hnext⟩)
      (fun x hx => ⟨hadm x hx, hfits x hx, hports x hx, hone x hx⟩)
      ⟨bounded_start n (htotals.trans_le hroom), by simp [ledgerSystem]⟩).1.1

/-- One port with a headroom of 4096 bytes and a buffer for exactly that and one reserve. -/
def onePort : SwitchMmu :=
  (start zeroConfig).configHdrm 1 4096 |>.configBufferSize 8192

/-- The unit after `configNPort`. -/
def onePortConfig : MmuConfig :=
  { onePort.toMmuConfig with totalHdrm := 4096, totalRsrv := 4096 }

theorem onePort_config : onePort.configNPort 1 = .ok (start onePortConfig) := rfl

theorem onePort_room : ∑ p, portShare onePortConfig 1 p ≤ onePortConfig.bufferSize.toNat := by
  rw [Finset.sum_eq_single (1 : Port)]
  · decide
  · intro p _ hp
    simp only [portShare]
    split
    · rename_i hone
      exact absurd (Fin.ext (show p.val = 1 by omega)) hp
    · rfl
  · intro hnot
    exact absurd (Finset.mem_univ (1 : Port)) hnot

/-- Two packets of 4096 bytes in queue 1: the first takes the reserve, the second the headroom. -/
theorem stored_le_buffer_one_queue :
    ∃ trace l, (ledgerSystem onePortConfig).Run (ledgerSystem onePortConfig).init trace l ∧
      trace.map Transition.label = [.add ⟨1, 1, 4096⟩, .add ⟨1, 1, 4096⟩] ∧
      l.mmu.storedBytes ≤ 8192 := by
  have hrun : (ledgerSystem onePortConfig).Run (ledgerSystem onePortConfig).init _ _ :=
    .cons (a := .add ⟨1, 1, 4096⟩) rfl (.cons (a := .add ⟨1, 1, 4096⟩) rfl (.nil _))
  refine ⟨_, _, hrun, rfl, (stored_le_buffer onePort_config onePort_room hrun ?_ ?_ ?_).2
    (fun _ => 1) ?_⟩
  · simp [OnPorts]
  · simp only [List.forall_mem_cons]
    refine ⟨?_, ?_, by simp⟩
    · show checkIngressAdmission _ _ _ _ = true
      decide
    · show checkIngressAdmission _ _ _ _ = true
      decide
  · simp only [List.forall_mem_cons]
    refine ⟨?_, ?_, by simp⟩
    · exact fun _ _ _ => show 0 + 4096 < 2 ^ 32 by decide
    · rintro p q ⟨rfl, rfl⟩
      show residentBytes [⟨1, 1, 4096⟩] 1 1 + 4096 < 2 ^ 32
      decide
  · simp [OneQueue]

/-- Two queues of one port: each is granted the reserve, and the unit with a buffer of 8192 bytes
holds 12288. -/
theorem not_stored_le_buffer_two_queues :
    ∃ trace l, (ledgerSystem onePortConfig).Run (ledgerSystem onePortConfig).init trace l ∧
      trace.map Transition.label = [.add ⟨1, 1, 4096⟩, .add ⟨1, 2, 4096⟩, .add ⟨1, 1, 4096⟩] ∧
      (∀ x ∈ trace, Admitted x.pre x.label) ∧
      onePort.configNPort 1 = .ok (start onePortConfig) ∧
      onePortConfig.totalHdrm + onePortConfig.totalRsrv ≤ onePortConfig.bufferSize ∧
      l.mmu.bufferSize = 8192 ∧ 12288 ≤ l.mmu.storedBytes := by
  have hrun : (ledgerSystem onePortConfig).Run (ledgerSystem onePortConfig).init _ _ :=
    .cons (a := .add ⟨1, 1, 4096⟩) rfl (.cons (a := .add ⟨1, 2, 4096⟩) rfl
      (.cons (a := .add ⟨1, 1, 4096⟩) rfl (.nil _)))
  refine ⟨_, _, hrun, rfl, ?_, onePort_config, by decide, by decide, ?_⟩
  · simp only [List.forall_mem_cons]
    refine ⟨?_, ?_, ?_, by simp⟩
    · show checkIngressAdmission _ _ _ _ = true
      decide
    · show checkIngressAdmission _ _ _ _ = true
      decide
    · show checkIngressAdmission _ _ _ _ = true
      decide
  · apply le_trans _ (Finset.sum_le_sum_of_subset (Finset.subset_univ {((1 : Port), (1 : Queue)), (1, 2)}))
    rw [Finset.sum_pair (by decide)]
    decide

end SwitchMmu

end Lcmp
