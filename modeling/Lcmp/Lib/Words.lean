import Mathlib.Algebra.Order.Group.Nat

/-!
# Machine words as numbers

The order of machine words is that of the numbers they stand for, and so is their minimum. Three words
packed side by side into one are the digits of its number.
-/

namespace Words

universe u

theorem map_smaller {α : Type u} [LE α] [DecidableRel (· ≤ · : α → α → Prop)] (value : α → Nat)
    (hle : ∀ a b, a ≤ b ↔ value a ≤ value b) (a b : α) : value (if a ≤ b then a else b) = min (value a) (value b) := by
  split
  · rename_i h
    exact (Nat.min_eq_left ((hle a b).mp h)).symm
  · rename_i h
    exact (Nat.min_eq_right (Nat.le_of_not_le fun hge => h ((hle a b).mpr hge))).symm

theorem min32_toNat (a b : UInt32) : (min a b).toNat = min a.toNat b.toNat :=
  map_smaller UInt32.toNat (fun _ _ => UInt32.le_iff_toNat_le) a b

theorem min64_toNat (a b : UInt64) : (min a b).toNat = min a.toNat b.toNat :=
  map_smaller UInt64.toNat (fun _ _ => UInt64.le_iff_toNat_le) a b

/-- A word and two half words in the 64 bits of one. -/
theorem pack_toNat (a : UInt32) (b c : UInt16) :
    ((a.toUInt64 <<< 32) ||| (b.toUInt64 <<< 16) ||| c.toUInt64).toNat =
      a.toNat * 2 ^ 32 + b.toNat * 2 ^ 16 + c.toNat := by
  have ha := a.toNat_lt
  have hb := b.toNat_lt
  have hc := c.toNat_lt
  have hhigh : (a.toUInt64 <<< 32).toNat = a.toNat <<< 32 := by
    rw [UInt64.toNat_shiftLeft, UInt32.toNat_toUInt64]
    show a.toNat <<< 32 % 2 ^ 64 = _
    rw [Nat.shiftLeft_eq]
    omega
  have hmid : (b.toUInt64 <<< 16).toNat = b.toNat <<< 16 := by
    rw [UInt64.toNat_shiftLeft, UInt16.toNat_toUInt64]
    show b.toNat <<< 16 % 2 ^ 64 = _
    rw [Nat.shiftLeft_eq]
    omega
  rw [UInt64.toNat_or, UInt64.toNat_or, hhigh, hmid, UInt16.toNat_toUInt64, Nat.or_assoc]
  rw [← Nat.shiftLeft_add_eq_or_of_lt hc, ← Nat.shiftLeft_add_eq_or_of_lt (by rw [Nat.shiftLeft_eq]; omega)]
  rw [Nat.shiftLeft_eq, Nat.shiftLeft_eq, Nat.add_assoc]

theorem pack_inj {a a' : UInt32} {b b' c c' : UInt16}
    (h : (a.toUInt64 <<< 32) ||| (b.toUInt64 <<< 16) ||| c.toUInt64 =
      (a'.toUInt64 <<< 32) ||| (b'.toUInt64 <<< 16) ||| c'.toUInt64) : a = a' ∧ b = b' ∧ c = c' := by
  have hnum := congrArg UInt64.toNat h
  rw [pack_toNat, pack_toNat] at hnum
  have hb := b.toNat_lt
  have hb' := b'.toNat_lt
  have hc := c.toNat_lt
  have hc' := c'.toNat_lt
  refine ⟨UInt32.toNat_inj.mp ?_, UInt16.toNat_inj.mp ?_, UInt16.toNat_inj.mp ?_⟩
  · omega
  · omega
  · omega

end Words
