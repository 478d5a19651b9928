import Mathlib.Algebra.GroupWithZero.Nat
import Mathlib.Data.List.Perm.Subperm
import Lcmp.Lib.Rank
import Lcmp.Routing.DciSwitch

/-!
# Which candidate is chosen

Mode 2 sorts the candidates by cost and port, keeps the first half of them, or all when the half is less
than two, drops the expensive ones and chooses among the rest by hash. The hash has 32 bits.
-/

namespace Lcmp

/-- The number of candidates that come strictly before `x` in the order of cost and port. -/
def candidateRank (pairs : List (UInt32 × UInt32)) (x : UInt32 × UInt32) : Nat := Rank.rank PairLe pairs x

/-- Among the candidates that are considered, and cheap. -/
def Preferred (pairs : List (UInt32 × UInt32)) (x : UInt32 × UInt32) : Prop :=
  x ∈ pairs ∧ x.1 < costThreshold ∧ candidateRank pairs x < keptCandidates pairs.length

theorem PairLe.refl (x : UInt32 × UInt32) : PairLe x x := Or.inr ⟨rfl, UInt32.le_refl _⟩

theorem PairLe.antisymm (x y : UInt32 × UInt32) (hxy : PairLe x y) (hyx : PairLe y x) : x = y := by
  rcases hxy with hlt | ⟨heq, hle⟩ <;> rcases hyx with hlt' | ⟨heq', hle'⟩
  · exact absurd (UInt32.lt_trans hlt hlt') (UInt32.lt_irrefl _)
  · rw [heq'] at hlt
    exact absurd hlt (UInt32.lt_irrefl _)
  · rw [heq] at hlt'
    exact absurd hlt' (UInt32.lt_irrefl _)
  · exact Prod.ext heq (UInt32.le_antisymm hle hle')

theorem PairLe.trans (x y z : UInt32 × UInt32) (hxy : PairLe x y) (hyz : PairLe y z) : PairLe x z := by
  rcases hxy with hlt | ⟨heq, hle⟩
  · rcases hyz with hlt' | ⟨heq', hle'⟩
    · exact Or.inl (UInt32.lt_trans hlt hlt')
    · exact Or.inl (heq' ▸ hlt)
  · rcases hyz with hlt' | ⟨heq', hle'⟩
    · exact Or.inl (heq ▸ hlt')
    · exact Or.inr ⟨heq.trans heq', UInt32.le_trans hle hle'⟩

theorem PairLe.total (x y : UInt32 × UInt32) : PairLe x y ∨ PairLe y x := by
  by_cases hlt : x.1 < y.1
  · exact Or.inl (Or.inl hlt)
  · by_cases hgt : y.1 < x.1
    · exact Or.inr (Or.inl hgt)
    · have heq : x.1 = y.1 := UInt32.le_antisymm (UInt32.not_lt.mp hgt) (UInt32.not_lt.mp hlt)
      rcases UInt32.le_total x.2 y.2 with hle | hle
      · exact Or.inl (Or.inr ⟨heq, hle⟩)
      · exact Or.inr (Or.inr ⟨heq.symm, hle⟩)

instance : Std.Total PairLe := ⟨PairLe.total⟩

instance : IsTrans (UInt32 × UInt32) PairLe := ⟨PairLe.trans⟩

theorem keptCandidates_pos {n : Nat} (h : 0 < n) : 0 < keptCandidates n := by
  rw [keptCandidates]
  split <;> omega

variable {pairs : List (UInt32 × UInt32)}

/-- The ports that the hash chooses from. -/
theorem mem_availablePaths_iff {port : UInt32} :
    port ∈ availablePaths (pairs.insertionSort PairLe) ↔ ∃ x, Preferred pairs x ∧ x.2 = port := by
  have hperm := pairs.perm_insertionSort PairLe
  have hsorted := List.pairwise_insertionSort PairLe pairs
  rw [availablePaths, List.mem_map]
  refine exists_congr fun x => and_congr_left fun _ => ?_
  rw [List.mem_filter, Rank.mem_take_iff_rank_lt PairLe.refl PairLe.antisymm hsorted,
    Rank.rank_perm PairLe hperm, hperm.mem_iff, hperm.length_eq, decide_eq_true_eq]
  constructor
  · intro h
    exact ⟨h.1.1, h.2, h.1.2⟩
  · intro h
    exact ⟨⟨h.1, h.2.2⟩, h.2.1⟩

/-- Where some candidate is cheap, the cheapest one is preferred. -/
theorem exists_preferred (hcheap : ∃ x ∈ pairs, x.1 < costThreshold) : ∃ x, Preferred pairs x := by
  obtain ⟨y, hy, hlow⟩ := hcheap
  have hperm := pairs.perm_insertionSort PairLe
  have hsorted := List.pairwise_insertionSort PairLe pairs
  have hpos := List.length_pos_of_mem hy
  cases hlist : pairs.insertionSort PairLe with
  | nil =>
      rw [hlist] at hperm
      rw [← hperm.length_eq] at hpos
      exact absurd hpos (Nat.lt_irrefl 0)
  | cons x rest =>
      rw [hlist] at hperm hsorted
      have hleast : ∀ z ∈ pairs, PairLe x z := by
        intro z hz
        rcases List.mem_cons.mp (hperm.mem_iff.mpr hz) with rfl | hz
        · exact PairLe.refl z
        · exact (List.pairwise_cons.mp hsorted).1 z hz
      refine ⟨x, hperm.mem_iff.mp List.mem_cons_self, ?_, ?_⟩
      · rcases hleast y hy with hlt | ⟨heq, -⟩
        · exact UInt32.lt_trans hlt hlow
        · exact heq ▸ hlow
      · rw [candidateRank, Rank.rank_eq_zero hleast]
        exact keptCandidates_pos hpos

theorem selectPath_of_available (h : pairs ≠ [])
    (havail : availablePaths (pairs.insertionSort PairLe) ≠ []) (hash : UInt32) :
    selectPath pairs h hash = pick _ havail hash := by
  rw [selectPath]
  exact dif_pos havail

theorem availablePaths_ne_nil (hcheap : ∃ x ∈ pairs, x.1 < costThreshold) :
    availablePaths (pairs.insertionSort PairLe) ≠ [] := by
  obtain ⟨x, hx⟩ := exists_preferred hcheap
  exact List.ne_nil_of_mem (mem_availablePaths_iff.mpr ⟨x, hx, rfl⟩)

/-- A list entry that some hash chooses. -/
theorem exists_pick_eq {α : Type} {l : List α} (hl : l ≠ []) (hlen : l.length ≤ 2 ^ 32) {x : α} (hx : x ∈ l) :
    ∃ hash, pick l hl hash = x := by
  obtain ⟨i, hi, rfl⟩ := List.mem_iff_getElem.mp hx
  refine ⟨UInt32.ofNat i, ?_⟩
  have hidx : (UInt32.ofNat i).toNat % l.length = i := by
    rw [UInt32.toNat_ofNat', Nat.mod_eq_of_lt (Nat.lt_of_lt_of_le hi hlen), Nat.mod_eq_of_lt hi]
  simp only [pick, List.get_eq_getElem, hidx]

theorem availablePaths_length_le :
    (availablePaths (pairs.insertionSort PairLe)).length ≤
      min (keptCandidates pairs.length) (pairs.countP fun x => x.1 < costThreshold) := by
  have hperm := pairs.perm_insertionSort PairLe
  rw [availablePaths, List.length_map]
  refine Nat.le_min.mpr ⟨?_, ?_⟩
  · calc _ ≤ ((pairs.insertionSort PairLe).take _).length := List.length_filter_le _ _
      _ ≤ keptCandidates (pairs.insertionSort PairLe).length := List.length_take_le _ _
      _ = keptCandidates pairs.length := by rw [hperm.length_eq]
  · rw [← List.countP_eq_length_filter, ← hperm.countP_eq]
    exact (List.take_sublist _ _).countP_le

/-- There are no more than `2 ^ 32` ports. -/
theorem length_le_of_nodup (hports : (pairs.map Prod.snd).Nodup) : pairs.length ≤ 2 ^ 32 := by
  have hvalues : ((pairs.map Prod.snd).map UInt32.toNat).Nodup := hports.map fun _ _ h => UInt32.toNat_inj.mp h
  have hbelow : (pairs.map Prod.snd).map UInt32.toNat ⊆ List.range (2 ^ 32) := by
    intro k hk
    obtain ⟨port, -, rfl⟩ := List.mem_map.mp hk
    exact List.mem_range.mpr port.toNat_lt
  have hlen := (List.subperm_of_subset hvalues hbelow).length_le
  rwa [List.length_map, List.length_map, List.length_range] at hlen

/-- The choice is one of the candidates. If any candidate is cheap, the choice is a preferred one, and
every preferred one is chosen for some hash, as the ports are distinct or no more than `2 ^ 32`
candidates compete; another candidate is chosen only if none is cheap. -/
theorem selectPath_rule (h : pairs ≠ []) :
    (∀ hash, selectPath pairs h hash ∈ pairs.map Prod.snd) ∧
    ((∃ x ∈ pairs, x.1 < costThreshold) →
      (∀ hash, ∃ x, Preferred pairs x ∧ x.2 = selectPath pairs h hash) ∧
      ((pairs.map Prod.snd).Nodup ∨
          min (keptCandidates pairs.length) (pairs.countP fun x => x.1 < costThreshold) ≤ 2 ^ 32 →
        ∀ x, Preferred pairs x → ∃ hash, selectPath pairs h hash = x.2)) ∧
    ∀ hash, (∀ x, Preferred pairs x → x.2 ≠ selectPath pairs h hash) → ∀ x ∈ pairs, costThreshold ≤ x.1 := by
  have hpreferred : (∃ x ∈ pairs, x.1 < costThreshold) →
      ∀ hash, ∃ x, Preferred pairs x ∧ x.2 = selectPath pairs h hash := by
    intro hcheap hash
    have havail := availablePaths_ne_nil hcheap
    rw [selectPath_of_available h havail]
    exact mem_availablePaths_iff.mp (pick_mem havail hash)
  refine ⟨fun hash => selectPath_mem h hash, fun hcheap => ⟨hpreferred hcheap, fun hfew x hx => ?_⟩,
    fun hash hother x hx => ?_⟩
  · have havail := availablePaths_ne_nil hcheap
    have hfits : (availablePaths (pairs.insertionSort PairLe)).length ≤ 2 ^ 32 := by
      rcases hfew with hports | hfew
      · calc (availablePaths (pairs.insertionSort PairLe)).length ≤ _ := availablePaths_length_le
          _ ≤ pairs.countP fun x => x.1 < costThreshold := Nat.min_le_right _ _
          _ ≤ pairs.length := List.countP_le_length
          _ ≤ 2 ^ 32 := length_le_of_nodup hports
      · exact Nat.le_trans availablePaths_length_le hfew
    obtain ⟨hash, hpick⟩ := exists_pick_eq havail hfits (mem_availablePaths_iff.mpr ⟨x, hx, rfl⟩)
    exact ⟨hash, (selectPath_of_available h havail hash).trans hpick⟩
  · by_contra hcheap
    obtain ⟨y, hy, hport⟩ := hpreferred ⟨x, hx, UInt32.not_le.mp hcheap⟩ hash
    exact hother y hy hport

theorem selectPath_rule_three_ports :
    ∃ hash, selectPath [(40, 7), (250, 3), (40, 5)] (by decide) hash = 5 :=
  ((selectPath_rule (by decide : [((40 : UInt32), (7 : UInt32)), (250, 3), (40, 5)] ≠ [])).2.1 (by decide)).2 (.inl (by decide))
    (40, 5) ⟨by decide, by decide, by decide⟩

/-- The first packet of a flow in mode 2 goes to the choice among the costs of its next hops. -/
theorem DciSwitch.getOutDev_eq_selectPath {cfg : DciConfig} {env : SwitchEnv} {ch : CustomHeader}
    {sw : DciSwitch} {nexthops : NextHops} (hmode : cfg.routingMode = .lcmp)
    (htable : sw.rtTable.lookup ch.dip = some nexthops) (hfirst : sw.remembered cfg env ch = none) :
    (sw.getOutDev cfg env ch).2 = some (selectPath (costLoop cfg.toCostConfig env sw.congState nexthops.ports).2
      (costLoop_ne_nil _ _ _ nexthops.nonempty) (DciSwitch.flowHash cfg env ch)) := by
  rw [getOutDev_lcmp_none hmode htable hfirst]

end Lcmp
