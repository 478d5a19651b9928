import Mathlib.Algebra.Order.Group.Nat
import Mathlib.Data.Nat.Count
import Mathlib.Data.Nat.ModEq
import Mathlib.Logic.Function.Iterate

/-!
# Following a target

A value that is moved half the way to its target at every turn, in whole numbers, while the target is pushed towards a
ceiling at every turn from some stage on. The stages are counted and wrap. Rounding costs the value one at most, and once
the target has been pushed to the ceiling the value is as near to it as rounding allows after logarithmically many turns.
-/

structure Chase where
  value : Nat
  target : Nat
  stage : Nat

namespace Chase

structure Rule where
  ceiling : Nat
  threshold : Nat
  first : Nat
  later : Nat
  /-- How many stages there are. -/
  size : Nat

variable (r : Rule) (c : Chase)

/-- The target of a turn. -/
def pushed : Nat :=
  if c.stage < r.threshold then c.target
  else min r.ceiling (c.target + if c.stage = r.threshold then r.first else r.later)

def next : Chase where
  value := c.value / 2 + pushed r c / 2
  target := pushed r c
  stage := (c.stage + 1) % r.size

/-- The value is not above the target, nor the target above the ceiling. -/
structure Below : Prop where
  value : c.value ≤ c.target
  target : c.target ≤ r.ceiling

variable {r c}

theorem Below.le_pushed (h : Below r c) : c.target ≤ pushed r c ∧ pushed r c ≤ r.ceiling := by
  have htarget := h.target
  unfold pushed
  split
  · exact ⟨Nat.le_refl _, htarget⟩
  · exact ⟨Nat.le_min.mpr ⟨htarget, Nat.le_add_right _ _⟩, Nat.min_le_left _ _⟩

theorem Below.next (h : Below r c) : Below r (next r c) := by
  obtain ⟨hpushed, hceiling⟩ := h.le_pushed
  have hvalue := h.value
  refine ⟨?_, hceiling⟩
  show c.value / 2 + pushed r c / 2 ≤ pushed r c
  omega

theorem Below.iterate (h : Below r c) (k : Nat) : Below r ((Chase.next r)^[k] c) := by
  induction k with
  | zero => exact h
  | succ k ih =>
      rw [Function.iterate_succ_apply']
      exact ih.next

theorem Below.target_iterate (h : Below r c) (k : Nat) : c.target ≤ ((Chase.next r)^[k] c).target := by
  induction k with
  | zero => exact Nat.le_refl _
  | succ k ih =>
      rw [Function.iterate_succ_apply']
      exact ih.trans (h.iterate k).le_pushed.1

/-! ### What rounding costs -/

/-- Nothing has been lost since `c`, or one, and then the value is below its target. -/
def Holds (c c' : Chase) : Prop := c.value ≤ c'.value ∨ c.value ≤ c'.value + 1 ∧ c'.value < c'.target

/-- A value that equals its target and is odd loses one, and nothing after that. -/
theorem Holds.next {c' : Chase} (h : Holds c c') (hbelow : Below r c') : Holds c (next r c') := by
  have hpushed := hbelow.le_pushed.1
  have hvalue := hbelow.value
  show c.value ≤ c'.value / 2 + pushed r c' / 2 ∨
    c.value ≤ c'.value / 2 + pushed r c' / 2 + 1 ∧ c'.value / 2 + pushed r c' / 2 < pushed r c'
  rcases h with h | ⟨hlost, hless⟩
  · omega
  · right
    omega

theorem Below.holds (h : Below r c) (k : Nat) : Holds c ((Chase.next r)^[k] c) := by
  induction k with
  | zero => exact .inl (Nat.le_refl _)
  | succ k ih =>
      rw [Function.iterate_succ_apply']
      exact ih.next (h.iterate k)

/-! ### How the target gets to the ceiling -/

theorem stage_iterate (hstage : c.stage < r.size) (k : Nat) : ((next r)^[k] c).stage = (c.stage + k) % r.size := by
  induction k with
  | zero => exact (Nat.mod_eq_of_lt hstage).symm
  | succ k ih =>
      rw [Function.iterate_succ_apply']
      show (((next r)^[k] c).stage + 1) % r.size = _
      rw [ih, Nat.mod_add_mod, Nat.add_assoc]

/-- How many of the first turns push the target. -/
def pushes (r : Rule) (c : Chase) (k : Nat) : Nat := Nat.count (fun j => ¬ (c.stage + j) % r.size < r.threshold) k

/-- No stage comes twice before all have come, so all but a threshold of the turns do. -/
theorem le_pushes {k : Nat} (hk : k ≤ r.size) : k ≤ r.threshold + pushes r c k := by
  let quiet := (Finset.range k).filter fun j => (c.stage + j) % r.size < r.threshold
  have hquiet : quiet.card ≤ (Finset.range r.threshold).card := by
    apply Finset.card_le_card_of_injOn fun j => (c.stage + j) % r.size
    · intro j hj
      have hlow := (Finset.mem_filter.mp hj).2
      exact Finset.mem_coe.mpr (Finset.mem_range.mpr hlow)
    · intro i hi j hj hij
      have hi' := Finset.mem_range.mp (Finset.mem_filter.mp hi).1
      have hj' := Finset.mem_range.mp (Finset.mem_filter.mp hj).1
      have hsame : i ≡ j [MOD r.size] := Nat.ModEq.add_left_cancel' c.stage hij
      exact hsame.eq_of_lt_of_lt (hi'.trans_le hk) (hj'.trans_le hk)
  have hall : quiet.card + pushes r c k = k := by
    unfold pushes
    rw [Nat.count_eq_card_filter_range, Finset.card_filter_add_card_filter_not, Finset.card_range]
  rw [Finset.card_range] at hquiet
  omega

variable {inc : Nat}

theorem le_target (hstage : c.stage < r.size) (hfirst : inc ≤ r.first) (hlater : inc ≤ r.later) (k : Nat) :
    min r.ceiling (inc * pushes r c k) ≤ ((next r)^[k] c).target := by
  induction k with
  | zero =>
      unfold pushes
      rw [Nat.count_zero, Nat.mul_zero, Nat.min_zero]
      exact Nat.zero_le _
  | succ k ih =>
      rw [Function.iterate_succ_apply']
      show _ ≤ pushed r ((next r)^[k] c)
      unfold pushes at ih ⊢
      unfold pushed
      rw [stage_iterate hstage, Nat.count_succ]
      by_cases hquiet : (c.stage + k) % r.size < r.threshold
      · rw [if_pos hquiet, if_neg (not_not.mpr hquiet), Nat.add_zero]
        exact ih
      · have hinc : inc ≤ if (c.stage + k) % r.size = r.threshold then r.first else r.later := by
          split
          · exact hfirst
          · exact hlater
        rw [if_neg hquiet, if_pos hquiet, Nat.mul_add, Nat.mul_one]
        omega

/-! ### How the value gets to the target -/

/-- A turn halves the distance to the ceiling, up to one. -/
theorem two_mul_gap_le (hceiling : pushed r c = r.ceiling) : 2 * (r.ceiling - (next r c).value) ≤ r.ceiling - c.value + 2 := by
  show 2 * (r.ceiling - (c.value / 2 + pushed r c / 2)) ≤ _
  rw [hceiling]
  omega

/-- What is left of the distance, `m` turns after the target has got there. -/
theorem gap_le {k : Nat} (htarget : ∀ j, k < j → ((next r)^[j] c).target = r.ceiling) (m : Nat) :
    2 ^ m * (r.ceiling - ((next r)^[k + m] c).value) + 2 ≤ r.ceiling + 2 * 2 ^ m := by
  induction m with
  | zero => omega
  | succ m ih =>
      have hceiling := htarget (k + m + 1) (by omega)
      rw [Function.iterate_succ_apply'] at hceiling
      have hgap := Nat.mul_le_mul_left (2 ^ m) (two_mul_gap_le hceiling)
      rw [Nat.mul_add] at hgap
      rw [← Nat.add_assoc, Function.iterate_succ_apply', Nat.pow_succ, Nat.mul_assoc]
      omega

/-- After a threshold of turns, as many more as it takes to push the target to the ceiling and as many more as the
ceiling has bits, value and target are at the ceiling, up to two for the value, and stay there. -/
theorem recovers (h : Below r c) (hstage : c.stage < r.size) (hfirst : inc ≤ r.first) (hlater : inc ≤ r.later) {n m : Nat}
    (hpush : r.ceiling ≤ inc * n) (hroom : r.threshold + n ≤ r.size) (hbits : r.ceiling ≤ 2 ^ m) {k : Nat}
    (hk : r.threshold + n + m ≤ k) :
    ((next r)^[k] c).target = r.ceiling ∧ ((next r)^[k] c).value ≤ r.ceiling ∧
      r.ceiling ≤ ((next r)^[k] c).value + 2 := by
  have htarget : ∀ j, r.threshold + n ≤ j → ((next r)^[j] c).target = r.ceiling := by
    intro j hj
    have hpushes : n ≤ pushes r c j := by
      have hfew := le_pushes (c := c) hroom
      have hmono : pushes r c (r.threshold + n) ≤ pushes r c j := Nat.count_monotone _ hj
      omega
    have hreached := le_target hstage hfirst hlater j
    rw [Nat.min_eq_left (hpush.trans (Nat.mul_le_mul_left inc hpushes))] at hreached
    exact Nat.le_antisymm (h.iterate j).target hreached
  obtain ⟨m', rfl⟩ := Nat.exists_eq_add_of_le hk
  have hbelow := h.iterate (r.threshold + n + m + m')
  refine ⟨htarget _ (by omega), hbelow.value.trans hbelow.target, ?_⟩
  have hgap := gap_le (k := r.threshold + n + m') (fun j hj => htarget j (by omega)) m
  have horder : r.threshold + n + m' + m = r.threshold + n + m + m' := by omega
  rw [horder] at hgap
  by_contra hfar
  have hthree : 2 ^ m * 3 ≤ 2 ^ m * (r.ceiling - ((next r)^[r.threshold + n + m + m'] c).value) :=
    Nat.mul_le_mul_left _ (by omega)
  omega

end Chase
