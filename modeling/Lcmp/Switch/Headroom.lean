import Lcmp.Mmu.Admission
import Lcmp.Switch.Steps

/-!
# Headroom and lossless classes

An ingress queue that is not paused has its whole headroom free, whatever the threshold does, and one
that is paused has used no more of it than what came in since the arrival that caused the pause. So a
class whose upstream stops in time never loses a packet to admission control.
-/

namespace Lcmp

namespace SwitchNode

/-- The bytes a step brings in for a port and class; a port whose link is down receives nothing. -/
def arrivedBytes (port : Port) (q : Queue) (n : SwitchNode) : SwitchEvent → Nat
  | .arrive inDev _ qIndex size =>
      if inDev = port ∧ qIndex = q ∧ (n.devices inDev).linkUp = true then size.toNat else 0
  | _ => 0

/-- The bytes the steps of a trace bring in. -/
def totalArrived (port : Port) (q : Queue) (trace : List (Transition SwitchNode SwitchEvent)) : Nat :=
  (trace.map fun x => arrivedBytes port q x.pre x.label).sum

/-- The step sends a pause for the port and class. -/
def Pauses (port : Port) (q : Queue) (x : Transition SwitchNode SwitchEvent) : Prop :=
  x.pre.mmu.paused port q = false ∧ x.post.mmu.paused port q = true

/-- The step sends a resume for the port and class. -/
def Resumes (port : Port) (q : Queue) (x : Transition SwitchNode SwitchEvent) : Prop :=
  x.pre.mmu.paused port q = true ∧ x.post.mmu.paused port q = false

variable {pauseTime : UInt32} {n n' : SwitchNode} {port : Port} {q : Queue}

/-! ### One step -/

/-- What a step does to the headroom of a port and class: it takes at most what comes in, and it gives
everything back before it leaves the class running. -/
structure HdrmStep (port : Port) (q : Queue) (arrived : Nat) (n n' : SwitchNode) : Prop where
  config : n'.mmu.toMmuConfig = n.mmu.toMmuConfig
  bound : (n'.mmu.hdrmBytes port q).toNat ≤ (n.mmu.hdrmBytes port q).toNat + arrived
  running : n'.mmu.paused port q = false → n.mmu.paused port q = true ∨ n.mmu.hdrmBytes port q = 0 →
    n'.mmu.hdrmBytes port q = 0

theorem HdrmStep.of_mmu_eq {arrived : Nat} (h : n'.mmu = n.mmu) : HdrmStep port q arrived n n' := by
  refine ⟨by rw [h], by rw [h]; omega, ?_⟩
  rw [h]
  rintro hrunning (hpaused | hzero)
  · rw [hrunning] at hpaused
    cases hpaused
  · exact hzero

theorem charge_hdrm (n : SwitchNode) (inDev idx : Port) (qIndex : Queue) (size : UInt32) :
    ((n.charge inDev idx qIndex size).mmu.hdrmBytes inDev qIndex).toNat ≤
      (n.mmu.hdrmBytes inDev qIndex).toNat + size.toNat := by
  have hcharge : (n.charge inDev idx qIndex size).mmu.hdrmBytes =
      (n.mmu.updateIngressAdmission inDev qIndex size).hdrmBytes := rfl
  rw [hcharge, n.mmu.updateIngressAdmission_hdrm ⟨inDev, qIndex, size⟩]
  split
  · rw [Grid.set_self, UInt32.toNat_add]
    exact Nat.mod_le ..
  · omega

theorem charged_config (n : SwitchNode) (inDev idx : Port) (qIndex : Queue) (size : UInt32) :
    (n.charged inDev idx qIndex size).mmu.toMmuConfig = n.mmu.toMmuConfig := by
  unfold charged
  split
  · exact n.mmu.updateIngressAdmission_config inDev qIndex size
  · rfl

/-- An arrival at another port or class. -/
theorem charged_hdrm_of_ne (n : SwitchNode) {inDev : Port} (idx : Port) {qIndex : Queue} (size : UInt32)
    (hcell : ¬(port = inDev ∧ q = qIndex)) :
    (n.charged inDev idx qIndex size).mmu.hdrmBytes port q = n.mmu.hdrmBytes port q := by
  unfold charged
  split
  · exact (n.mmu.updateIngressAdmission_of_ne inDev qIndex size hcell).2
  · rfl

/-- If the check after an arrival sends no pause to a running class, then its headroom is empty. -/
theorem hdrm_eq_zero_of_not_checkShouldPause {m : SwitchMmu} (hrunning : m.paused port q = false)
    (hno : ¬ m.checkShouldPause port q = true) : m.hdrmBytes port q = 0 := by
  apply UInt32.toNat_inj.mp
  by_contra hpos
  apply hno
  have hlt : m.hdrmBytes port q > 0 := UInt32.lt_iff_toNat_lt.mpr (Nat.pos_of_ne_zero hpos)
  simp [SwitchMmu.checkShouldPause, hrunning, hlt]

theorem sendToDev_hdrmStep {inDev idx : Port} {qIndex : Queue} {size : UInt32} {n₁ : SwitchNode}
    (hup : (n.devices inDev).linkUp = true) (hadm : n.admission pauseTime inDev idx qIndex size = some n₁) :
    HdrmStep port q (arrivedBytes port q n (.arrive inDev idx qIndex size)) n
      (n.sendToDev pauseTime inDev idx qIndex size) := by
  obtain ⟨hsame, hpaused⟩ := admission_same hadm
  have hmmu : (n.sendToDev pauseTime inDev idx qIndex size).mmu = n₁.mmu := by
    simp only [sendToDev, hadm]
    rfl
  have hhdrm : n₁.mmu.hdrmBytes = (n.charged inDev idx qIndex size).mmu.hdrmBytes := by
    rw [hsame.mmu]
  have hconfig : n₁.mmu.toMmuConfig = n.mmu.toMmuConfig := by
    rw [hsame.mmu]
    exact n.charged_config inDev idx qIndex size
  by_cases hcell : port = inDev ∧ q = qIndex
  · obtain ⟨rfl, rfl⟩ := hcell
    have harrived : arrivedBytes port q n (.arrive port idx q size) = size.toNat := if_pos ⟨rfl, rfl, hup⟩
    rw [harrived]
    by_cases hq : q = 0
    · rw [charged, if_neg (fun hc => hc hq)] at hhdrm
      rw [if_neg (fun hc => hc.1 hq)] at hpaused
      refine ⟨hmmu ▸ hconfig, by rw [hmmu, hhdrm]; omega, ?_⟩
      rw [hmmu, hhdrm, hpaused]
      rintro hrunning (hflag | hzero)
      · rw [hrunning] at hflag
        cases hflag
      · exact hzero
    · rw [charged, if_pos hq] at hhdrm
      refine ⟨hmmu ▸ hconfig, by rw [hmmu, hhdrm]; exact n.charge_hdrm port idx q size, ?_⟩
      rw [hmmu, hhdrm, hpaused]
      have hflags : (n.charge port idx q size).mmu.paused = n.mmu.paused :=
        (n.mmu.updateIngressAdmission_frame port q size).1
      intro hrunning _
      split at hrunning
      · simp at hrunning
      · rename_i hno
        exact hdrm_eq_zero_of_not_checkShouldPause (by rwa [hflags]) fun hc => hno ⟨hq, hc⟩
  · have hsamehdrm := n.charged_hdrm_of_ne idx size hcell
    have hsameflag : n₁.mmu.paused port q = n.mmu.paused port q := by
      rw [hpaused]
      split
      · exact Grid.set_of_ne hcell
      · rfl
    refine ⟨hmmu ▸ hconfig, by rw [hmmu, hhdrm, hsamehdrm]; omega, ?_⟩
    rw [hmmu, hhdrm, hsamehdrm, hsameflag]
    rintro hrunning (hflag | hzero)
    · rw [hrunning] at hflag
      cases hflag
    · exact hzero

theorem Departed.hdrmStep {out : Port} {qIndex : Queue} {p : SwitchPacket} (h : Departed n n' out qIndex p) :
    HdrmStep port q 0 n n' := by
  by_cases hrefund : ∃ inDev, qIndex ≠ 0 ∧ p.kind = .transit inDev
  · obtain ⟨inDev, hq, hkind⟩ := hrefund
    obtain ⟨hmmu, -, hflag⟩ := h.refunded inDev hq hkind
    have hhdrm : n'.mmu.hdrmBytes = (n.mmu.removeFromIngressAdmission inDev qIndex p.size).hdrmBytes := by
      rw [hmmu]
      rfl
    have hconfig : n'.mmu.toMmuConfig = n.mmu.toMmuConfig := by
      rw [hmmu]
      rfl
    have hle : (n'.mmu.hdrmBytes port q).toNat ≤ (n.mmu.hdrmBytes port q).toNat := by
      rw [hhdrm]
      by_cases hcell : port = inDev ∧ q = qIndex
      · obtain ⟨rfl, rfl⟩ := hcell
        have hfrom := n.mmu.fromHdrm_toNat port q p.size
        simp only [SwitchMmu.removeFromIngressAdmission, Grid.set_self]
        rw [UInt32.toNat_sub_of_le _ _ (UInt32.le_iff_toNat_le.mpr (by omega))]
        omega
      · rw [(n.mmu.removeFromIngressAdmission_of_ne inDev qIndex p.size hcell).2]
    refine ⟨hconfig, hle, ?_⟩
    rintro hrunning (hpaused | hzero)
    · rw [hflag] at hrunning
      split at hrunning
      · rename_i hshould
        by_cases hcell : port = inDev ∧ q = qIndex
        · obtain ⟨rfl, rfl⟩ := hcell
          have hempty : (n.refund port out q p.size).mmu.hdrmBytes port q = 0 := by
            unfold SwitchMmu.checkShouldResume at hshould
            split at hshould
            · cases hshould
            · rw [Bool.and_eq_true, beq_iff_eq] at hshould
              exact hshould.1
          rw [hmmu]
          exact hempty
        · rw [Grid.set_of_ne hcell, hpaused] at hrunning
          cases hrunning
      · rw [hpaused] at hrunning
        cases hrunning
    · rw [hzero, UInt32.toNat_zero] at hle
      exact UInt32.toNat_inj.mp (by rw [UInt32.toNat_zero]; omega)
  · exact HdrmStep.of_mmu_eq (h.untouched fun inDev hq hkind => hrefund ⟨inDev, hq, hkind⟩).1

/-- An arrival sends no resume. -/
theorem arrive_not_resumes {inDev idx : Port} {qIndex : Queue} {size : UInt32}
    (hnext : switchNext pauseTime n (.arrive inDev idx qIndex size) = some n')
    (hpaused : n.mmu.paused port q = true) : n'.mmu.paused port q = true := by
  cases switchNext_step hnext with
  | ignored => exact hpaused
  | arrive hup hadm =>
      obtain ⟨-, hflag⟩ := admission_same hadm
      have hmmu : (n.sendToDev pauseTime inDev idx qIndex size).mmu.paused = _ :=
        (congrArg SwitchMmu.paused (by simp only [sendToDev, hadm]; rfl)).trans hflag
      rw [hmmu]
      split
      · simp only [Grid.set]
        split
        · rfl
        · exact hpaused
      · exact hpaused

theorem switchNext_hdrmStep {e : SwitchEvent} (hnext : switchNext pauseTime n e = some n') :
    HdrmStep port q (arrivedBytes port q n e) n n' := by
  cases switchNext_step hnext with
  | ignored => exact HdrmStep.of_mmu_eq rfl
  | arrive hup hadm => exact sendToDev_hdrmStep hup hadm
  | dequeue hout =>
      obtain ⟨qIndex, hdeparted, -⟩ := dequeue_departed hout
      exact hdeparted.hdrmStep
  | recvPfc hrecv =>
      obtain ⟨hsame, hpaused, -⟩ := recvPfc_same hrecv
      exact HdrmStep.of_mmu_eq (by rw [hsame.mmu, hpaused])
  | takeDown out => exact HdrmStep.of_mmu_eq rfl

/-! ### Whole runs -/

/-- The headroom in use was taken since the last pause. -/
structure HdrmHistory (cfg : MmuConfig) (port : Port) (q : Queue)
    (before : List (Transition SwitchNode SwitchEvent)) (n : SwitchNode) : Prop where
  config : n.mmu.toMmuConfig = cfg
  running : n.mmu.paused port q = false → n.mmu.hdrmBytes port q = 0
  paused : n.mmu.paused port q = true → ∃ earlier x mid, before = earlier ++ x :: mid ∧ Pauses port q x ∧
    (∀ y ∈ mid, ¬ Resumes port q y) ∧
    (n.mmu.hdrmBytes port q).toNat ≤ arrivedBytes port q x.pre x.label + totalArrived port q mid

theorem totalArrived_snoc (trace : List (Transition SwitchNode SwitchEvent)) (x : Transition SwitchNode SwitchEvent) :
    totalArrived port q (trace ++ [x]) = totalArrived port q trace + arrivedBytes port q x.pre x.label := by
  simp [totalArrived]

theorem hdrmHistory_step {cfg : MmuConfig} {before : List (Transition SwitchNode SwitchEvent)} {e : SwitchEvent}
    (h : HdrmHistory cfg port q before n) (hnext : switchNext pauseTime n e = some n') :
    HdrmHistory cfg port q (before ++ [⟨n, e, n'⟩]) n' := by
  have hstep : HdrmStep port q (arrivedBytes port q n e) n n' := switchNext_hdrmStep hnext
  have hbound := hstep.bound
  refine ⟨hstep.config.trans h.config, ?_, ?_⟩
  · intro hrunning
    apply hstep.running hrunning
    cases hflag : n.mmu.paused port q with
    | true => exact .inl rfl
    | false => exact .inr (h.running hflag)
  · intro hpaused'
    cases hflag : n.mmu.paused port q with
    | false =>
        -- this step is the pause
        refine ⟨before, ⟨n, e, n'⟩, [], rfl, ⟨hflag, hpaused'⟩, by simp, ?_⟩
        rw [h.running hflag, UInt32.toNat_zero] at hbound
        simpa [totalArrived] using hbound
    | true =>
        obtain ⟨earlier, x, mid, rfl, hpauses, hmid, hused⟩ := h.paused hflag
        refine ⟨earlier, x, mid ++ [⟨n, e, n'⟩], by simp, hpauses, ?_, ?_⟩
        · intro y hy
          rcases List.mem_append.mp hy with hy | hy
          · exact hmid y hy
          · obtain rfl := List.mem_singleton.mp hy
            intro hresumes
            have hrunning : n'.mmu.paused port q = false := hresumes.2
            rw [hpaused'] at hrunning
            cases hrunning
        · rw [totalArrived_snoc]
          dsimp only
          omega

theorem hdrmHistory_start (cfg : MmuConfig) : HdrmHistory cfg port q [] (start cfg) where
  config := rfl
  running := fun _ => rfl
  paused := fun h => by simp [start, SwitchMmu.start] at h

/-- Headroom makes a class lossless. If no packet of the class is larger than the headroom of its port,
and what comes in from a pause to the resume, the packet that caused the pause included, is not more than
that either, then admission control refuses no packet of the class. -/
theorem headroom_lossless {cfg : MmuConfig} {trace : List (Transition SwitchNode SwitchEvent)}
    (hrun : (switchSystem pauseTime cfg).Run (start cfg) trace n)
    (hsize : ∀ x ∈ trace, arrivedBytes port q x.pre x.label ≤ (cfg.headroom port).toNat)
    (hbudget : ∀ before x mid after, trace = before ++ x :: mid ++ after → Pauses port q x →
      (∀ y ∈ mid, ¬ Resumes port q y) →
      arrivedBytes port q x.pre x.label + totalArrived port q mid ≤ (cfg.headroom port).toNat) :
    ∀ x ∈ trace, ∀ idx size, x.label = .arrive port idx q size → (x.pre.devices port).linkUp = true →
      x.pre.mmu.checkIngressAdmission port q size = true := by
  intro x hx idx size hlabel hup
  obtain ⟨before, after, rfl⟩ := List.append_of_mem hx
  obtain ⟨hbefore, hnext, -⟩ := hrun.of_append_cons
  have hhistory : HdrmHistory cfg port q before x.pre := hbefore.history (hdrmHistory_start cfg)
    fun _ _ _ _ h hstep => hdrmHistory_step h hstep
  have harrived : arrivedBytes port q x.pre x.label = size.toNat := by
    rw [hlabel]
    exact if_pos ⟨rfl, rfl, hup⟩
  have hfree : size.toNat + (x.pre.mmu.hdrmBytes port q).toNat ≤ (cfg.headroom port).toNat := by
    cases hflag : x.pre.mmu.paused port q with
    | false =>
        rw [hhistory.running hflag, UInt32.toNat_zero, Nat.add_zero, ← harrived]
        exact hsize x (by simp)
    | true =>
        obtain ⟨earlier, y, mid, rfl, hpauses, hmid, hused⟩ := hhistory.paused hflag
        have hspent := hbudget earlier y (mid ++ [x]) after (by simp) hpauses (by
          intro z hz
          rcases List.mem_append.mp hz with hz | hz
          · exact hmid z hz
          · obtain rfl := List.mem_singleton.mp hz
            intro hresumes
            have hstays : z.post.mmu.paused port q = true := arrive_not_resumes (hlabel ▸ hnext) hflag
            rw [hresumes.2] at hstays
            cases hstays)
        rw [totalArrived_snoc] at hspent
        omega
  have hheadroom : x.pre.mmu.headroom = cfg.headroom := congrArg MmuConfig.headroom hhistory.config
  have hwidth := (cfg.headroom port).toNat_lt
  have hfits : ¬ size + x.pre.mmu.hdrmBytes port q > x.pre.mmu.headroom port := by
    rw [hheadroom, gt_iff_lt, UInt32.lt_iff_toNat_lt, UInt32.toNat_add]
    omega
  simp [SwitchMmu.checkIngressAdmission, hfits]

/-- Two packets of 3000 bytes: the first one causes the pause, the second one goes to the headroom. -/
theorem headroom_lossless_two_packets :
    ∃ trace n, (switchSystem 5 tightConfig).Run (start tightConfig) trace n ∧
      trace.map Transition.label = [.arrive 1 2 3 3000, .arrive 1 2 3 3000] ∧
      n.mmu.paused 1 3 = true ∧ n.mmu.hdrmBytes 1 3 = 3000 ∧
      ∀ x ∈ trace, ∀ idx size, x.label = .arrive 1 idx 3 size → (x.pre.devices 1).linkUp = true →
        x.pre.mmu.checkIngressAdmission 1 3 size = true := by
  have hrun : (switchSystem 5 tightConfig).Run (start tightConfig) _ _ :=
    .cons (a := .arrive 1 2 3 3000) rfl (.cons (a := .arrive 1 2 3 3000) rfl (.nil _))
  refine ⟨_, _, hrun, rfl, by decide, by decide, headroom_lossless hrun ?_ ?_⟩
  · simp only [List.forall_mem_cons]
    exact ⟨by decide, by decide, by simp⟩
  · intro before x mid after htrace _ _
    have htotal := congrArg (totalArrived 1 3) htrace
    have hall : totalArrived 1 3 (before ++ x :: mid ++ after) = totalArrived 1 3 before +
        (arrivedBytes 1 3 x.pre x.label + totalArrived 1 3 mid) + totalArrived 1 3 after := by
      simp [totalArrived, Nat.add_assoc]
    rw [hall] at htotal
    have hsix : 6000 ≤ (tightConfig.headroom 1).toNat := by decide
    refine le_trans ?_ hsix
    change 3000 + (3000 + 0) = _ at htotal
    omega

end SwitchNode

end Lcmp
