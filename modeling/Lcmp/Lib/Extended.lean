import Mathlib.Data.Rat.Floor

/-!
# Numbers with infinities and NaN

The values of floating point numbers with the arithmetic they have where nothing is rounded. A zero has no sign: what is
divided by it becomes an infinity of its own sign, and a zero becomes NaN.
-/

inductive Extended where
  | nan
  | inf (negative : Bool)
  | fin (x : ℚ)
  deriving DecidableEq

namespace Extended

/-- Whether the number is below zero. -/
def sign : Extended → Bool
  | .nan => false
  | .inf negative => negative
  | .fin x => decide (x < 0)

protected def add : Extended → Extended → Extended
  | .fin x, .fin y => .fin (x + y)
  | .fin _, .inf t => .inf t
  | .inf s, .fin _ => .inf s
  | .inf s, .inf t => if s = t then .inf s else .nan
  | _, _ => .nan

protected def neg : Extended → Extended
  | .nan => .nan
  | .inf s => .inf !s
  | .fin x => .fin (-x)

protected def mul (a b : Extended) : Extended :=
  match a, b with
  | .fin x, .fin y => .fin (x * y)
  | .nan, _ => .nan
  | _, .nan => .nan
  | a, b => if a = .fin 0 ∨ b = .fin 0 then .nan else .inf (a.sign != b.sign)

protected def div (a b : Extended) : Extended :=
  match a, b with
  | .fin x, .fin y => if y ≠ 0 then .fin (x / y) else if x = 0 then .nan else .inf (decide (x < 0))
  | .fin _, .inf _ => .fin 0
  | .inf s, .fin y => .inf (s != decide (y < 0))
  | _, _ => .nan

/-- Every comparison with NaN is false. -/
def blt : Extended → Extended → Bool
  | .fin x, .fin y => decide (x < y)
  | .fin _, .inf t => !t
  | .inf s, .fin _ => s
  | .inf s, .inf t => s && !t
  | _, _ => false

def ble : Extended → Extended → Bool
  | .fin x, .fin y => decide (x ≤ y)
  | .fin _, .inf t => !t
  | .inf s, .fin _ => s
  | .inf s, .inf t => s || !t
  | _, _ => false

instance : Add Extended := ⟨Extended.add⟩

instance : Sub Extended := ⟨fun a b => a + b.neg⟩

instance : Mul Extended := ⟨Extended.mul⟩

instance : Div Extended := ⟨Extended.div⟩

instance : LT Extended := ⟨fun a b => a.blt b = true⟩

instance : LE Extended := ⟨fun a b => a.ble b = true⟩

instance (a b : Extended) : Decidable (a < b) := inferInstanceAs (Decidable (a.blt b = true))

instance (a b : Extended) : Decidable (a ≤ b) := inferInstanceAs (Decidable (a.ble b = true))

variable {x y : ℚ}

@[simp] theorem fin_add_fin : fin x + fin y = fin (x + y) := rfl

@[simp] theorem fin_sub_fin : fin x - fin y = fin (x - y) := congrArg fin (sub_eq_add_neg x y).symm

@[simp] theorem fin_mul_fin : fin x * fin y = fin (x * y) := rfl

theorem fin_div_fin (hy : y ≠ 0) : fin x / fin y = fin (x / y) := if_pos hy

@[simp] theorem fin_lt_fin : fin x < fin y ↔ x < y := decide_eq_true_iff

@[simp] theorem fin_le_fin : fin x ≤ fin y ↔ x ≤ y := decide_eq_true_iff

/-- A product with a number is one only if the other factor is. -/
theorem mul_eq_fin {a : Extended} (h : fin x * a = fin y) : ∃ z, a = fin z ∧ y = x * z := by
  cases a with
  | nan => cases h
  | inf s =>
      change (if fin x = fin 0 ∨ inf s = fin 0 then nan else _) = fin y at h
      split at h
      · cases h
      · cases h
  | fin z => exact ⟨z, rfl, (fin.inj h).symm⟩

/-- A number less a product that is not negative. What is finite of it is no more than the number. -/
theorem le_of_sub_mul_eq {a : Extended} {c : ℚ} (hy : 0 ≤ y) (ha : ¬ a ≤ fin 0) (h : fin x - fin y * a = fin c) : c ≤ x := by
  cases a with
  | nan => cases h
  | inf s =>
      change fin x - (if fin y = fin 0 ∨ inf s = fin 0 then nan else _) = fin c at h
      split at h
      · cases h
      · cases h
  | fin g =>
      rw [fin_le_fin, not_le] at ha
      rw [fin_mul_fin, fin_sub_fin] at h
      obtain rfl := fin.inj h
      exact sub_le_self x (mul_nonneg hy ha.le)

end Extended
