import Lcmp.Switch.Steps

/-!
# Byte conservation in a switch

Five counters in three classes follow what a switch stores. They agree with it as long as every
admitted packet is accepted by its egress queue, no packet of the highest priority is switched to the
wire, and no port is taken down with packets in its queue: the three places where the code charges a
packet and does not refund it.
-/

namespace Lcmp

namespace SwitchMmu

/-- The shared pool is what the queues hold above their reserve, up to the width of the counter. -/
def PoolExact (m : SwitchMmu) : Prop :=
  m.sharedUsedBytes.toNat = (∑ x : Port × Queue, m.aboveReserve x.1 x.2) % 2 ^ 32

variable {m m' : SwitchMmu}

theorem poolExact_of_moves (port : Port) (qIndex : Queue) (h : PoolExact m)
    (hoff : ∀ p q, ¬(p = port ∧ q = qIndex) → m'.aboveReserve p q = m.aboveReserve p q)
    (hmoves : (m'.sharedUsedBytes.toNat + m.aboveReserve port qIndex) % 2 ^ 32 =
      (m.sharedUsedBytes.toNat + m'.aboveReserve port qIndex) % 2 ^ 32) : PoolExact m' := by
  have hsum := Grid.sum_of_eq_off m'.aboveReserve m.aboveReserve port qIndex hoff
  have hwidth := m'.sharedUsedBytes.toNat_lt
  simp only [PoolExact] at h ⊢
  omega

theorem poolExact_update (port : Port) (qIndex : Queue) (psize : UInt32) (h : PoolExact m)
    (hfits : (m.ingressBytes port qIndex).toNat + psize.toNat < 2 ^ 32) :
    PoolExact (m.updateIngressAdmission port qIndex psize) := by
  obtain ⟨taken, -, -, habove, hpool⟩ := m.updateIngressAdmission_taken port qIndex psize hfits
  apply poolExact_of_moves port qIndex h
  · intro p q hne
    have hconfig := m.updateIngressAdmission_config port qIndex psize
    simp only [aboveReserve]
    rw [(m.updateIngressAdmission_of_ne port qIndex psize hne).1, hconfig]
  · omega

theorem poolExact_remove (port : Port) (qIndex : Queue) (psize : UInt32) (h : PoolExact m)
    (hheld : psize.toNat ≤ (m.ingressBytes port qIndex).toNat + (m.hdrmBytes port qIndex).toNat) :
    PoolExact (m.removeFromIngressAdmission port qIndex psize) := by
  have hgain := m.fromShared_toNat port qIndex psize hheld
  have hpool : (m.removeFromIngressAdmission port qIndex psize).sharedUsedBytes =
      m.sharedUsedBytes - m.fromShared port qIndex psize := rfl
  have hwidth := (m.fromShared port qIndex psize).toNat_lt
  apply poolExact_of_moves port qIndex h
  · intro p q hne
    simp only [aboveReserve]
    rw [(m.removeFromIngressAdmission_of_ne port qIndex psize hne).1]
    rfl
  · rw [hpool, UInt32.toNat_sub]
    omega

end SwitchMmu

namespace SwitchNode

open BEgressQueue (Counted)

/-- Every counter of the switch is zero. -/
structure Idle (n : SwitchNode) : Prop where
  bytes : ∀ inDev out q, n.bytes inDev out q = 0
  ingress : ∀ inDev q, n.mmu.ingressBytes inDev q = 0
  hdrm : ∀ inDev q, n.mmu.hdrmBytes inDev q = 0
  egress : ∀ out q, n.mmu.egressBytes out q = 0
  shared : n.mmu.sharedUsedBytes = 0
  total : ∀ out, (n.devices out).queue.bytesInQueueTotal = 0

/-- The counters of the switch say what its queues hold, and pauses do not outlive their packets. -/
structure Conserved (n : SwitchNode) : Prop where
  bytes : ∀ inDev out q, (n.bytes inDev out q).toNat = n.storedBytes inDev out q
  egress : ∀ out q, q ≠ 0 → (n.mmu.egressBytes out q).toNat = n.queueBytes out q
  ingress : ∀ inDev q, q ≠ 0 →
    (n.mmu.ingressBytes inDev q).toNat + (n.mmu.hdrmBytes inDev q).toNat = ∑ out, (n.bytes inDev out q).toNat
  paused : ∀ inDev q, PausedStored n inDev q
  drained : (∀ out q, ((n.devices out).queue.queues q).packets = []) → Idle n

/-- A step refunds what it takes out and stores what it charges. An admitted packet is accepted by its
egress queue, and neither the bytes from its port of entry nor those of the egress queue reach `2^32`.
The packet that leaves queue 0 is a PFC frame. A port that is taken down stores no packet. -/
def KeepsBytes (pauseTime : UInt32) (n : SwitchNode) : SwitchEvent → Prop
  | .arrive inDev idx qIndex size => (n.devices inDev).linkUp = true →
      ∀ n₁, n.admission pauseTime inDev idx qIndex size = some n₁ →
        (n₁.devices idx).queue.accepts ⟨size, .transit inDev⟩ qIndex = true ∧
        n.bytesFrom inDev qIndex + size.toNat < 2 ^ 32 ∧ BEgressQueue.maxBytes + size.toNat ≤ 2 ^ 32
  | .dequeue port => ∀ p, ((n.devices port).queue.queues 0).packets.head? = some p →
      ∀ inDev, p.kind ≠ .transit inDev
  | .recvPfc _ _ _ => True
  | .takeDown port => ∀ inDev q, n.stored inDev port q = []

/-- What the steps of a conserving run keep. -/
structure Kept (n : SwitchNode) : Prop where
  counted : ∀ out, Counted (n.devices out).queue
  transit : DataTransit n
  bytes : ∀ inDev out q, (n.bytes inDev out q).toNat = n.storedBytes inDev out q
  egress : ∀ out q, q ≠ 0 → (n.mmu.egressBytes out q).toNat = n.queueBytes out q
  ingress : ∀ inDev q, q ≠ 0 → IngressExact n inDev q
  paused : ∀ inDev q, q ≠ 0 → PausedStored n inDev q
  pool : n.mmu.PoolExact
  top : ∀ port, n.mmu.ingressBytes port 0 = 0 ∧ n.mmu.hdrmBytes port 0 = 0 ∧ n.mmu.egressBytes port 0 = 0 ∧
    n.mmu.paused port 0 = false

variable {pauseTime : UInt32} {n n' : SwitchNode} {inDev idx port : Port} {qIndex : Queue} {size : UInt32}

/-! ### The counters of the egress queues -/

theorem setDevice_counted {device : SwitchDevice} (h : ∀ out, Counted (n.devices out).queue)
    (hdevice : Counted device.queue) (out : Port) : Counted ((n.setDevice port device).devices out).queue := by
  by_cases hout : out = port
  · subst hout
    rwa [setDevice_self]
  · rw [setDevice_of_ne _ hout]
    exact h out

theorem switchSend_counted {p : SwitchPacket} (h : ∀ out, Counted (n.devices out).queue)
    (hsize : BEgressQueue.maxBytes + p.size.toNat ≤ 2 ^ 32) (out : Port) :
    Counted ((n.switchSend port qIndex p).devices out).queue := by
  have hbounded := (h port).bounded
  apply setDevice_counted h
  exact (h port).enqueue (by omega)

theorem sendPfc_counted {type : PfcType} (h : ∀ out, Counted (n.devices out).queue) (out : Port) :
    Counted ((n.sendPfc pauseTime port qIndex type).devices out).queue :=
  switchSend_counted h (show _ + pfcSize.toNat ≤ _ by decide) out

theorem admission_counted {n₁ : SwitchNode} (h : ∀ out, Counted (n.devices out).queue)
    (hadm : n.admission pauseTime inDev idx qIndex size = some n₁) (out : Port) :
    Counted (n₁.devices out).queue := by
  rcases admission_cases hadm with ⟨-, rfl⟩ | ⟨-, rfl⟩
  · simp only [checkAndSendPfc]
    split
    · exact sendPfc_counted (n := n.charge inDev idx qIndex size) h out
    · exact h out
  · exact h out

theorem sendToDev_counted {n₁ : SwitchNode} (h : ∀ out, Counted (n.devices out).queue)
    (hadm : n.admission pauseTime inDev idx qIndex size = some n₁)
    (hsize : BEgressQueue.maxBytes + size.toNat ≤ 2 ^ 32) (out : Port) :
    Counted ((n.sendToDev pauseTime inDev idx qIndex size).devices out).queue := by
  simp only [sendToDev, hadm]
  exact switchSend_counted (n := n₁.setBytes inDev idx qIndex (n₁.bytes inDev idx qIndex + size))
    (fun out => admission_counted h hadm out) hsize out

theorem dequeue_counted {p : SwitchPacket} (h : ∀ out, Counted (n.devices out).queue)
    (hout : n.dequeue pauseTime port = some (p, n')) (out : Port) : Counted (n'.devices out).queue := by
  obtain ⟨q, eq', hspec, rfl⟩ := dequeue_cases hout
  have hset : ∀ out, Counted ((n.setQueue port eq').devices out).queue :=
    setDevice_counted h (hspec.counted (h port))
  simp only [switchNotifyDequeue]
  split
  · split
    · simp only [checkAndSendResume]
      split
      · exact sendPfc_counted (n := (n.setQueue port eq').refund ..) hset out
      · exact hset out
    · exact hset out
  · exact hset out

theorem takeDown_counted (h : ∀ out, Counted (n.devices out).queue) (out : Port) :
    Counted ((n.takeDown port).devices out).queue := by
  apply setDevice_counted h
  exact BEgressQueue.counted_drain (h port)

theorem packetBytes_filter_le (f : SwitchPacket → Bool) (packets : List SwitchPacket) :
    packetBytes (packets.filter f) ≤ packetBytes packets := by
  induction packets with
  | nil => exact Nat.le_refl _
  | cons p rest ih =>
      rw [packetBytes_cons, List.filter_cons]
      split
      · rw [packetBytes_cons]
        omega
      · omega

theorem storedBytes_le_queueBytes (n : SwitchNode) (inDev out : Port) (q : Queue) :
    n.storedBytes inDev out q ≤ n.queueBytes out q := packetBytes_filter_le _ _

theorem queueBytes_lt (h : ∀ out, Counted (n.devices out).queue) (out : Port) (q : Queue) :
    n.queueBytes out q < 2 ^ 32 := by
  have hbounded : (n.devices out).queue.storedBytes < 2 ^ 32 := (h out).bounded.trans (by decide)
  exact (Finset.single_le_sum (f := fun q => packetBytes ((n.devices out).queue.queues q).packets)
    (fun _ _ => Nat.zero_le _) (Finset.mem_univ q)).trans_lt hbounded

/-! ### One step -/

theorem Arrived.bytes_eq (harr : Arrived n n' inDev idx qIndex size true)
    (hcounted : ∀ out, Counted (n'.devices out).queue) (i o : Port) (q : Queue)
    (hold : (n.bytes i o q).toNat = n.storedBytes i o q) : (n'.bytes i o q).toNat = n'.storedBytes i o q := by
  have hwidth := (storedBytes_le_queueBytes n' i o q).trans_lt (queueBytes_lt hcounted o q)
  simp only [storedBytes] at hold hwidth ⊢
  rw [harr.bytes, setBytes_apply]
  rw [harr.stored] at hwidth ⊢
  by_cases hcell : i = inDev ∧ o = idx ∧ q = qIndex
  · obtain ⟨rfl, rfl, rfl⟩ := hcell
    rw [if_pos ⟨rfl, rfl, rfl, rfl⟩, packetBytes_append] at hwidth
    rw [if_pos ⟨rfl, rfl, rfl⟩, if_pos ⟨rfl, rfl, rfl, rfl⟩, packetBytes_append, UInt32.toNat_add, hold]
    exact Nat.mod_eq_of_lt hwidth
  · rw [if_neg hcell, if_neg (fun hc => hcell hc.2), hold]

theorem Arrived.egress_eq (harr : Arrived n n' inDev idx qIndex size true)
    (hcounted : ∀ out, Counted (n'.devices out).queue) (o : Port) {q : Queue} (hq : q ≠ 0)
    (hold : (n.mmu.egressBytes o q).toNat = n.queueBytes o q) : (n'.mmu.egressBytes o q).toNat = n'.queueBytes o q := by
  have hwidth := queueBytes_lt hcounted o q
  simp only [queueBytes] at hold hwidth ⊢
  rw [harr.data o q hq] at hwidth ⊢
  rw [harr.mmu]
  change ((n.charged inDev idx qIndex size).mmu.egressBytes o q).toNat = _
  by_cases hcell : o = idx ∧ q = qIndex
  · obtain ⟨rfl, rfl⟩ := hcell
    rw [if_pos ⟨rfl, rfl, rfl⟩, packetBytes_append] at hwidth ⊢
    rw [charged, if_pos hq, charge_egress, if_pos ⟨rfl, rfl⟩, UInt32.toNat_add, hold]
    exact Nat.mod_eq_of_lt hwidth
  · rw [if_neg (fun hc => hcell hc.2), ← hold]
    simp only [charged]
    split
    · rw [charge_egress, if_neg hcell]
    · rfl

/-- The highest priority is never charged. -/
theorem Arrived.top_eq {accepted : Bool} (harr : Arrived n n' inDev idx qIndex size accepted) (port : Port) :
    n'.mmu.ingressBytes port 0 = n.mmu.ingressBytes port 0 ∧ n'.mmu.hdrmBytes port 0 = n.mmu.hdrmBytes port 0 ∧
      n'.mmu.egressBytes port 0 = n.mmu.egressBytes port 0 := by
  rw [harr.mmu]
  change (n.charged inDev idx qIndex size).mmu.ingressBytes port 0 = _ ∧
    (n.charged inDev idx qIndex size).mmu.hdrmBytes port 0 = _ ∧
    (n.charged inDev idx qIndex size).mmu.egressBytes port 0 = _
  simp only [charged]
  split
  · rename_i hq
    have hsame := n.mmu.updateIngressAdmission_of_ne inDev qIndex size
      (fun hc => hq hc.2.symm : ¬(port = inDev ∧ (0 : Queue) = qIndex))
    have hegress := charge_egress (n := n) inDev idx qIndex size port 0
    rw [if_neg (fun hc => hq hc.2.symm)] at hegress
    exact ⟨hsame.1, hsame.2, hegress⟩
  · exact ⟨rfl, rfl, rfl⟩

theorem Kept.arrived (h : Kept n) (harr : Arrived n n' inDev idx qIndex size true)
    (hcounted : ∀ out, Counted (n'.devices out).queue) (hfits : n.bytesFrom inDev qIndex + size.toNat < 2 ^ 32) :
    Kept n' where
  counted := hcounted
  transit := harr.dataTransit h.transit
  bytes := fun i o q => harr.bytes_eq hcounted i o q (h.bytes i o q)
  egress := fun o q hq => harr.egress_eq hcounted o hq (h.egress o q hq)
  ingress := by
    intro i q hq
    apply harr.ingressExact hq (h.ingress i q hq)
    rintro rfl rfl
    exact ⟨rfl, hfits⟩
  paused := fun i q hq => harr.pausedStored (h.paused i q hq) fun _ _ => rfl
  pool := by
    rw [harr.mmu]
    change (n.charged inDev idx qIndex size).mmu.PoolExact
    simp only [charged]
    split
    · rename_i hq
      have hcell := h.ingress inDev qIndex hq
      simp only [IngressExact] at hcell
      exact SwitchMmu.poolExact_update inDev qIndex size h.pool (by omega)
    · exact h.pool
  top := by
    intro p
    obtain ⟨hing, hhdrm, heg, hpaused⟩ := h.top p
    obtain ⟨hing', hhdrm', heg'⟩ := harr.top_eq p
    exact ⟨hing'.trans hing, hhdrm'.trans hhdrm, heg'.trans heg, (harr.paused_top p).trans hpaused⟩

theorem Departed.held {p : SwitchPacket} (h : Departed n n' port qIndex p) (hkind : p.kind = .transit inDev) :
    n.storedBytes inDev port qIndex = p.size.toNat + n'.storedBytes inDev port qIndex := by
  simp only [storedBytes]
  rw [h.stored, if_pos ⟨hkind, rfl, rfl⟩, packetBytes_cons]

/-- A PFC frame leaves, and nothing is refunded. -/
theorem Kept.departed_top {p : SwitchPacket} (h : Kept n) (hout : Departed n n' port 0 p)
    (hcounted : ∀ out, Counted (n'.devices out).queue) (hpfc : ∀ inDev, p.kind ≠ .transit inDev) : Kept n' := by
  obtain ⟨hmmu, hbytes⟩ := hout.untouched fun inDev _ => hpfc inDev
  have hstored : ∀ i o q, n'.stored i o q = n.stored i o q := by
    intro i o q
    rw [hout.stored i o q, if_neg (fun hc => hpfc i hc.1)]
  have hdata : ∀ o q, q ≠ 0 →
      ((n'.devices o).queue.queues q).packets = ((n.devices o).queue.queues q).packets := by
    intro o q hq'
    rw [hout.data o q hq', if_neg (fun hc => hq' hc.2)]
  exact {
    counted := hcounted
    transit := hout.dataTransit h.transit
    bytes := fun i o q => by
      rw [hbytes, storedBytes, hstored]
      exact h.bytes i o q
    egress := fun o q hq' => by
      rw [hmmu, queueBytes, hdata o q hq']
      exact h.egress o q hq'
    ingress := fun i q hq' => hout.ingressExact hq' (h.ingress i q hq')
    paused := fun i q hq' => hout.pausedStored hq' (h.ingress i q hq') (h.paused i q hq')
    pool := hmmu ▸ h.pool
    top := fun port => by
      rw [hmmu]
      exact h.top port }

theorem Departed.bytes_eq {p : SwitchPacket} (hout : Departed n n' port qIndex p) (hq : qIndex ≠ 0)
    (hkind : p.kind = .transit inDev) (i o : Port) (q : Queue)
    (hold : (n.bytes i o q).toNat = n.storedBytes i o q) : (n'.bytes i o q).toNat = n'.storedBytes i o q := by
  have hheld := hout.held hkind
  rw [(hout.refunded inDev hq hkind).2.1]
  change ((n.setBytes inDev port qIndex (n.bytes inDev port qIndex - p.size)).bytes i o q).toNat = _
  rw [setBytes_apply]
  by_cases hhere : i = inDev ∧ o = port ∧ q = qIndex
  · obtain ⟨rfl, rfl, rfl⟩ := hhere
    rw [if_pos ⟨rfl, rfl, rfl⟩, UInt32.toNat_sub_of_le _ _ (UInt32.le_iff_toNat_le.mpr (by omega))]
    omega
  · rw [if_neg hhere, hold]
    simp only [storedBytes]
    rw [hout.stored i o q, if_neg]
    rintro ⟨hkind', ho, hq'⟩
    exact hhere ⟨PacketKind.transit.inj (hkind'.symm.trans hkind), ho, hq'⟩

theorem Departed.egress_eq {p : SwitchPacket} (hout : Departed n n' port qIndex p) (hq : qIndex ≠ 0)
    (hkind : p.kind = .transit inDev) (o : Port) {q : Queue} (hq' : q ≠ 0)
    (hold : (n.mmu.egressBytes o q).toNat = n.queueBytes o q) : (n'.mmu.egressBytes o q).toNat = n'.queueBytes o q := by
  rw [(hout.refunded inDev hq hkind).1]
  change ((n.refund inDev port qIndex p.size).mmu.egressBytes o q).toNat = _
  simp only [queueBytes] at hold ⊢
  rw [hout.data o q hq'] at hold
  rw [refund_egress]
  by_cases hhere : o = port ∧ q = qIndex
  · obtain ⟨rfl, rfl⟩ := hhere
    rw [if_pos ⟨rfl, rfl⟩, packetBytes_cons] at hold
    rw [if_pos ⟨rfl, rfl⟩, UInt32.toNat_sub_of_le _ _ (UInt32.le_iff_toNat_le.mpr (by omega))]
    omega
  · rw [if_neg hhere] at hold
    rw [if_neg hhere, hold]

theorem Departed.top_eq {p : SwitchPacket} (hout : Departed n n' port qIndex p) (hq : qIndex ≠ 0)
    (hkind : p.kind = .transit inDev) (i : Port) :
    n'.mmu.ingressBytes i 0 = n.mmu.ingressBytes i 0 ∧ n'.mmu.hdrmBytes i 0 = n.mmu.hdrmBytes i 0 ∧
      n'.mmu.egressBytes i 0 = n.mmu.egressBytes i 0 := by
  have hsame := n.mmu.removeFromIngressAdmission_of_ne inDev qIndex p.size
    (fun hc => hq hc.2.symm : ¬(i = inDev ∧ (0 : Queue) = qIndex))
  have hegress := refund_egress (n := n) inDev port qIndex p.size i 0
  rw [if_neg (fun hc => hq hc.2.symm)] at hegress
  rw [(hout.refunded inDev hq hkind).1]
  exact ⟨hsame.1, hsame.2, hegress⟩

/-- A packet leaves that was switched, and what it was charged is refunded. -/
theorem Kept.departed_data {p : SwitchPacket} (h : Kept n) (hout : Departed n n' port qIndex p)
    (hcounted : ∀ out, Counted (n'.devices out).queue) (hq : qIndex ≠ 0) (hkind : p.kind = .transit inDev) :
    Kept n' where
  counted := hcounted
  transit := hout.dataTransit h.transit
  bytes := fun i o q => hout.bytes_eq hq hkind i o q (h.bytes i o q)
  egress := fun o q hq' => hout.egress_eq hq hkind o hq' (h.egress o q hq')
  ingress := fun i q hq' => hout.ingressExact hq' (h.ingress i q hq')
  paused := fun i q hq' => hout.pausedStored hq' (h.ingress i q hq') (h.paused i q hq')
  pool := by
    have hcell := h.ingress inDev qIndex hq
    simp only [IngressExact] at hcell
    have hbytes := hout.bytesFrom inDev qIndex
    rw [if_pos ⟨hkind, rfl⟩] at hbytes
    rw [(hout.refunded inDev hq hkind).1]
    exact SwitchMmu.poolExact_remove inDev qIndex p.size h.pool (by omega)
  top := by
    intro i
    obtain ⟨hing, hhdrm, heg, hpaused⟩ := h.top i
    obtain ⟨hing', hhdrm', heg'⟩ := hout.top_eq hq hkind i
    exact ⟨hing'.trans hing, hhdrm'.trans hhdrm, heg'.trans heg, (hout.paused_top i).trans hpaused⟩

theorem Kept.departed {p : SwitchPacket} (h : Kept n) (hout : Departed n n' port qIndex p)
    (hcounted : ∀ out, Counted (n'.devices out).queue) (htop : qIndex = 0 → ∀ inDev, p.kind ≠ .transit inDev) :
    Kept n' := by
  by_cases hq : qIndex = 0
  · subst hq
    exact h.departed_top hout hcounted (htop rfl)
  · have hmem : p ∈ ((n.devices port).queue.queues qIndex).packets := by
      rw [hout.data port qIndex hq, if_pos ⟨rfl, rfl⟩]
      exact List.mem_cons_self
    obtain ⟨inDev, hkind⟩ := h.transit port qIndex hq p hmem
    exact h.departed_data hout hcounted hq hkind

/-- A step that leaves the store and the flags alone. -/
theorem Kept.same (h : Kept n) (hsame : SameStore n n') (hpaused : n'.mmu.paused = n.mmu.paused)
    (hcounted : ∀ out, Counted (n'.devices out).queue) : Kept n' := by
  have hmmu : n'.mmu = n.mmu := by
    rw [hsame.mmu, hpaused]
  exact {
    counted := hcounted
    transit := hsame.dataTransit h.transit
    bytes := fun i o q => by
      rw [hsame.bytes, storedBytes, hsame.stored]
      exact h.bytes i o q
    egress := fun o q hq => by
      rw [hmmu, queueBytes, hsame.data o q hq]
      exact h.egress o q hq
    ingress := fun i q hq => by
      simp only [IngressExact]
      rw [hmmu, hsame.bytesFrom]
      exact h.ingress i q hq
    paused := fun i q hq hflag => by
      rw [hmmu] at hflag
      obtain ⟨out, hout⟩ := h.paused i q hq hflag
      exact ⟨out, by rwa [hsame.stored]⟩
    pool := hmmu ▸ h.pool
    top := fun port => by
      rw [hmmu]
      exact h.top port }

/-- Taking down a port that stores nothing is such a step. -/
theorem takeDown_same (h : Kept n) (hnone : ∀ inDev q, n.stored inDev port q = []) :
    SameStore n (n.takeDown port) where
  mmu := rfl
  bytes := rfl
  stored := fun inDev out q => takeDown_stored (hnone inDev q) out
  data := by
    intro out q hq
    by_cases hout : out = port
    · have hempty : ∀ packets : List SwitchPacket,
          (∀ p ∈ packets, p ∈ ((n.devices port).queue.queues q).packets) → packets = [] := by
        intro packets hsub
        apply List.eq_nil_iff_forall_not_mem.mpr
        intro p hp
        obtain ⟨inDev, hkind⟩ := h.transit port q hq p (hsub p hp)
        have hmem : p ∈ n.stored inDev port q := List.mem_filter.mpr ⟨hsub p hp, decide_eq_true hkind⟩
        rw [hnone] at hmem
        cases hmem
      subst hout
      rw [hempty _ (fun p hp => takeDown_packets out out q hp), hempty _ (fun p hp => hp)]
    · simp only [takeDown]
      rw [setDevice_of_ne _ hout]

theorem kept_step {e : SwitchEvent} (h : Kept n) (hkeeps : KeepsBytes pauseTime n e)
    (hnext : switchNext pauseTime n e = some n') : Kept n' := by
  cases switchNext_step hnext with
  | ignored => exact h
  | arrive hup hadm =>
      obtain ⟨haccepts, hfits, hsize⟩ := hkeeps hup _ hadm
      exact h.arrived (haccepts ▸ sendToDev_arrived hadm)
        (fun out => sendToDev_counted h.counted hadm hsize out) hfits
  | dequeue hout =>
      obtain ⟨qIndex, hdeparted, hhead⟩ := dequeue_departed hout
      exact h.departed hdeparted (fun out => dequeue_counted h.counted hout out)
        fun hq => hkeeps _ (hhead hq)
  | recvPfc hrecv =>
      obtain ⟨hsame, hpaused, hqueue⟩ := recvPfc_same hrecv
      exact h.same hsame hpaused fun out => by
        rw [hqueue]
        exact h.counted out
  | takeDown port => exact h.same (takeDown_same h hkeeps) rfl fun out => takeDown_counted h.counted out

theorem kept_start (cfg : MmuConfig) : Kept (start cfg) where
  counted := fun _ => Counted.empty
  transit := by simp [DataTransit, start, BEgressQueue.empty]
  bytes := fun _ _ _ => rfl
  egress := fun _ _ _ => rfl
  ingress := fun i q _ => by simp [IngressExact, bytesFrom, storedBytes, stored, packetBytes, start,
    SwitchMmu.start, BEgressQueue.empty]
  paused := fun i q _ h => by simp [start, SwitchMmu.start] at h
  pool := by simp [SwitchMmu.PoolExact, SwitchMmu.aboveReserve, start, SwitchMmu.start]
  top := fun _ => ⟨rfl, rfl, rfl, rfl⟩

/-! ### Runs -/

/-- Without packets there is nothing left to count. -/
theorem Kept.idle (h : Kept n) (hempty : ∀ out q, ((n.devices out).queue.queues q).packets = []) : Idle n := by
  have hstored : ∀ i o q, n.storedBytes i o q = 0 := fun i o q => by
    simp [storedBytes, stored, hempty, packetBytes]
  have hcell : ∀ i q, n.mmu.ingressBytes i q = 0 ∧ n.mmu.hdrmBytes i q = 0 := by
    intro i q
    by_cases hq : q = 0
    · subst hq
      exact ⟨(h.top i).1, (h.top i).2.1⟩
    · have hexact := h.ingress i q hq
      simp only [IngressExact, bytesFrom, hstored, Finset.sum_const_zero, Nat.add_eq_zero_iff] at hexact
      exact ⟨UInt32.toNat_inj.mp hexact.1, UInt32.toNat_inj.mp hexact.2⟩
  refine ⟨fun i o q => UInt32.toNat_inj.mp ((h.bytes i o q).trans (hstored i o q)), fun i q => (hcell i q).1,
    fun i q => (hcell i q).2, ?_, ?_, ?_⟩
  · intro o q
    by_cases hq : q = 0
    · subst hq
      exact (h.top o).2.2.1
    · apply UInt32.toNat_inj.mp
      rw [h.egress o q hq, queueBytes, hempty]
      rfl
  · apply UInt32.toNat_inj.mp
    have hpool := h.pool
    simpa [SwitchMmu.PoolExact, SwitchMmu.aboveReserve, (hcell _ _).1] using hpool
  · intro out
    apply UInt32.toNat_inj.mp
    rw [(h.counted out).total]
    simp [BEgressQueue.storedBytes, hempty, packetBytes]

theorem Kept.toConserved (h : Kept n) : Conserved n where
  bytes := h.bytes
  egress := h.egress
  ingress := fun i q hq => by
    have hexact := h.ingress i q hq
    simp only [IngressExact, bytesFrom] at hexact
    rw [hexact]
    exact Finset.sum_congr rfl fun o _ => (h.bytes i o q).symm
  paused := fun i q hflag => by
    by_cases hq : q = 0
    · subst hq
      rw [(h.top i).2.2.2] at hflag
      cases hflag
    · exact h.paused i q hq hflag
  drained := h.idle

/-- The counters of a switch agree with what it stores in every run whose steps refund what they take
out and store what they charge. -/
theorem conserved {cfg : MmuConfig} {trace : List (Transition SwitchNode SwitchEvent)}
    (hrun : (switchSystem pauseTime cfg).Run (start cfg) trace n)
    (hkeeps : ∀ x ∈ trace, KeepsBytes pauseTime x.pre x.label) : Conserved n :=
  (hrun.invariant_of_guard (P := Kept) (C := KeepsBytes pauseTime)
    (fun _ _ _ h hguard hnext => kept_step h hguard hnext) hkeeps (kept_start cfg)).1.toConserved

/-- A packet of queue 3 that comes in over port 1 and leaves through port 2. -/
theorem conserved_one_packet :
    ∃ trace n, (switchSystem 5 SwitchMmu.zeroConfig).Run (start SwitchMmu.zeroConfig) trace n ∧
      trace.map Transition.label = [.arrive 1 2 3 1000, .dequeue 2] ∧ Conserved n := by
  have hrun : (switchSystem 5 SwitchMmu.zeroConfig).Run (start SwitchMmu.zeroConfig) _ _ :=
    .cons (a := .arrive 1 2 3 1000) rfl (.cons (a := .dequeue 2) rfl (.nil _))
  refine ⟨_, _, hrun, rfl, conserved hrun ?_⟩
  simp only [List.forall_mem_cons]
  refine ⟨?_, ?_, by simp⟩
  · intro _ n₁ hadm
    have hfresh : (start SwitchMmu.zeroConfig).bytesFrom 1 3 = 0 :=
      ((kept_start SwitchMmu.zeroConfig).ingress 1 3 (by decide)).symm
    rw [hfresh]
    obtain rfl := Option.some.inj hadm
    exact ⟨by decide, by decide, by decide⟩
  · intro p hp
    cases hp

/-- A packet of the highest priority that has left is still in `m_bytes`, and so is a packet that was
lost when its port was taken down, which the unit goes on counting. -/
theorem not_conserved_top_priority :
    (∃ n, (switchSystem 5 SwitchMmu.zeroConfig).Reachable n ∧ n.bytes 1 2 0 = 60 ∧ n.storedBytes 1 2 0 = 0 ∧
      ¬ Conserved n) ∧
    ∃ n, (switchSystem 5 SwitchMmu.zeroConfig).Reachable n ∧ n.mmu.ingressBytes 1 1 = 1000 ∧
      n.bytes 1 2 1 = 1000 ∧ n.storedBytes 1 2 1 = 0 ∧ ¬ Conserved n := by
  constructor
  · refine ⟨_, System.reachable_of_exec [.arrive 1 2 0 60, .dequeue 2] rfl, by decide, by decide, ?_⟩
    intro h
    exact absurd (h.bytes 1 2 0) (by decide)
  · refine ⟨_, System.reachable_of_exec [.arrive 1 2 1 1000, .takeDown 2] rfl, by decide, by decide, by decide, ?_⟩
    intro h
    exact absurd (h.bytes 1 2 1) (by decide)

end SwitchNode

end Lcmp
