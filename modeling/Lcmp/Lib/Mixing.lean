import Mathlib.Data.Int.CardIntervalMod
import Mathlib.Data.Set.Card
import Mathlib.Logic.Function.Basic

/-!
# Mixing and spreading

The steps that a hash function is made of lose nothing: each of them is injective on words of a fixed width. A hash
that takes every value once, and is then reduced modulo the length of a list, spreads over the places of the list as
evenly as can be.
-/

namespace Mixing

/-! ### Mixing -/

variable {w : Nat}

/-- The exclusive or of a word with itself, some bits lower. -/
def xorShift (s : Nat) (x : BitVec w) : BitVec w := x ^^^ (x >>> s)

/-- The bits are recovered from the highest one down. -/
theorem xorShift_injective {s : Nat} (hs : 0 < s) : Function.Injective (xorShift s : BitVec w → BitVec w) := by
  intro x y h
  have hbits : ∀ k i, w ≤ i + k → x.getLsbD i = y.getLsbD i := by
    intro k
    induction k with
    | zero =>
        intro i hi
        rw [BitVec.getLsbD_of_ge x i hi, BitVec.getLsbD_of_ge y i hi]
    | succ k ih =>
        intro i hi
        have hhigh := ih (s + i) (by omega)
        have hsum := congrArg (fun z => z.getLsbD i) h
        simp only [xorShift, BitVec.getLsbD_xor, BitVec.getLsbD_ushiftRight] at hsum
        rw [hhigh] at hsum
        exact Bool.xor_left_inj.mp hsum
  apply BitVec.eq_of_getLsbD_eq
  intro i _
  exact hbits w i (Nat.le_add_left w i)

def rotate (r : Nat) (x : BitVec w) : BitVec w := (x <<< r) ||| (x >>> (w - r))

theorem getLsbD_rotate_low {r i : Nat} (x : BitVec w) (hi : i + r < w) : (rotate r x).getLsbD (i + r) = x.getLsbD i := by
  have hhigh : w ≤ w - r + (i + r) := by omega
  unfold rotate
  rw [BitVec.getLsbD_or, BitVec.getLsbD_shiftLeft, BitVec.getLsbD_ushiftRight, BitVec.getLsbD_of_ge x _ hhigh]
  simp [hi]

theorem getLsbD_rotate_high {r i : Nat} (x : BitVec w) (hi : i < r) :
    (rotate r x).getLsbD i = x.getLsbD (w - r + i) := by
  unfold rotate
  rw [BitVec.getLsbD_or, BitVec.getLsbD_shiftLeft, BitVec.getLsbD_ushiftRight]
  simp [hi]

theorem rotate_injective {r : Nat} (hr : r ≤ w) : Function.Injective (rotate r : BitVec w → BitVec w) := by
  intro x y h
  apply BitVec.eq_of_getLsbD_eq
  intro i hi
  by_cases hlow : i + r < w
  · rw [← getLsbD_rotate_low x hlow, ← getLsbD_rotate_low y hlow, h]
  · obtain ⟨j, rfl⟩ : ∃ j, i = w - r + j := ⟨i - (w - r), by omega⟩
    have hj : j < r := by omega
    rw [← getLsbD_rotate_high x hj, ← getLsbD_rotate_high y hj, h]

/-- A factor that has an inverse is lost in no product. -/
theorem mul_injective {c inv : BitVec w} (h : c * inv = 1#w) : Function.Injective fun x : BitVec w => x * c := by
  intro x y hxy
  have hback : ∀ z : BitVec w, z * c * inv = z := by
    intro z
    rw [BitVec.mul_assoc, h, BitVec.mul_one]
  rw [← hback x, ← hback y]
  exact congrArg (· * inv) hxy

/-- A word and a multiple of it by a power of two are a multiple of it. -/
theorem add_shiftLeft_injective {s : Nat} {inv k : BitVec w} (h : (1#w + BitVec.twoPow w s) * inv = 1#w) :
    Function.Injective fun x : BitVec w => x + ((x <<< s) + k) := by
  have hmul : ∀ x : BitVec w, x + ((x <<< s) + k) = x * (1#w + BitVec.twoPow w s) + k := by
    intro x
    rw [BitVec.shiftLeft_eq_mul_twoPow, BitVec.mul_add, BitVec.mul_one, BitVec.add_assoc]
  intro x y hxy
  dsimp only at hxy
  rw [hmul, hmul] at hxy
  exact mul_injective h ((BitVec.add_left_inj k).mp hxy)

/-! ### Spreading -/

variable {α β : Type*} {f : α → Nat} {size : Nat}

/-- How often a residue is hit by a function that takes every value below a bound once. -/
theorem ncard_mod (hinj : Function.Injective f) (hrange : Set.range f = Set.Iio size) {m i : Nat} (hi : i < m) :
    {a | f a % m = i}.ncard = size / m + if i < size % m then 1 else 0 := by
  have himage : f '' {a | f a % m = i} = ((Finset.range size).filter fun k => k ≡ i [MOD m] : Finset Nat) := by
    ext k
    have hk : (∃ a, f a = k) ↔ k < size := Set.ext_iff.mp hrange k
    rw [Finset.mem_coe, Finset.mem_filter, Finset.mem_range, ← hk]
    constructor
    · rintro ⟨a, ha, rfl⟩
      exact ⟨⟨a, rfl⟩, ha.trans (Nat.mod_eq_of_lt hi).symm⟩
    · rintro ⟨⟨a, rfl⟩, ha⟩
      exact ⟨a, Eq.trans ha (Nat.mod_eq_of_lt hi), rfl⟩
  rw [← Set.ncard_image_of_injective _ hinj, himage, Set.ncard_coe_finset, ← Nat.count_eq_card_filter_range,
    Nat.count_modEq_card _ (Nat.zero_lt_of_lt hi), Nat.mod_eq_of_lt hi]

/-- How often a place of a list is hit by the remainders of all the numbers below a bound. -/
def share [DecidableEq β] (size : Nat) (l : List β) (x : β) : Nat :=
  size / l.length + if l.idxOf x < size % l.length then 1 else 0

/-- A list is chosen from evenly. -/
theorem ncard_getElem? [DecidableEq β] (hinj : Function.Injective f) (hrange : Set.range f = Set.Iio size) {l : List β}
    (hnodup : l.Nodup) {x : β} (hx : x ∈ l) : {a | l[f a % l.length]? = some x}.ncard = share size l x := by
  have hidx := List.idxOf_lt_length_of_mem hx
  have hplace : {a | l[f a % l.length]? = some x} = {a | f a % l.length = l.idxOf x} := by
    ext a
    have hlt : f a % l.length < l.length := Nat.mod_lt _ (List.length_pos_of_mem hx)
    rw [Set.mem_ofPred_eq, Set.mem_ofPred_eq, List.getElem?_eq_getElem hlt, Option.some_inj]
    constructor
    · intro h
      rw [← h, hnodup.idxOf_getElem]
    · intro h
      simp only [h, List.getElem_idxOf]
  rw [hplace]
  exact ncard_mod hinj hrange hidx

end Mixing
