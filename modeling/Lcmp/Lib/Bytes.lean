import Mathlib.Algebra.GroupWithZero.Nat
import Mathlib.Data.Nat.Bitwise

/-!
# Numbers as bytes

A number of a fixed width is written as its low bytes, least or most significant first, and read back by
shifting in a byte at a time. A reader takes its bytes from the front of what is left and returns the rest.
-/

namespace Bytes

/-- The `n` low bytes, least significant first. -/
def toLe : Nat → Nat → List UInt8
  | 0, _ => []
  | n + 1, x => UInt8.ofNat x :: toLe n (x >>> 8)

def toBe (n x : Nat) : List UInt8 := (toLe n x).reverse

/-- The number with these bytes, least significant first. -/
def ofLe : List UInt8 → Nat
  | [] => 0
  | b :: bs => ofLe bs <<< 8 ||| b.toNat

def ofBe (bs : List UInt8) : Nat := ofLe bs.reverse

@[simp] theorem length_toLe (n x : Nat) : (toLe n x).length = n := by
  induction n generalizing x with
  | zero => rfl
  | succ n ih => rw [toLe, List.length_cons, ih]

@[simp] theorem length_toBe (n x : Nat) : (toBe n x).length = n := by
  rw [toBe, List.length_reverse, length_toLe]

theorem ofLe_cons (b : UInt8) (bs : List UInt8) : ofLe (b :: bs) = 2 ^ 8 * ofLe bs + b.toNat := by
  rw [ofLe, ← Nat.shiftLeft_add_eq_or_of_lt b.toNat_lt, Nat.shiftLeft_eq, Nat.mul_comm]

theorem ofLe_toLe (n x : Nat) : ofLe (toLe n x) = x % 2 ^ (8 * n) := by
  induction n generalizing x with
  | zero => rw [toLe, ofLe, Nat.mul_zero, Nat.pow_zero, Nat.mod_one]
  | succ n ih =>
      have hsplit : 2 ^ (8 * (n + 1)) = 2 ^ 8 * 2 ^ (8 * n) := by
        rw [← Nat.pow_add]
        congr 1
        omega
      rw [toLe, ofLe_cons, ih, UInt8.toNat_ofNat', Nat.shiftRight_eq_div_pow, hsplit, Nat.mod_mul, Nat.add_comm]

theorem ofBe_toBe (n x : Nat) : ofBe (toBe n x) = x % 2 ^ (8 * n) := by
  rw [ofBe, toBe, List.reverse_reverse, ofLe_toLe]

/-! ### Readers -/

/-- The first `n` bytes and the rest. -/
def take (n : Nat) (i : List UInt8) : Option (List UInt8 × List UInt8) :=
  if n ≤ i.length then some (i.take n, i.drop n) else none

def readLe (n : Nat) (i : List UInt8) : Option (Nat × List UInt8) := (take n i).map fun p => (ofLe p.1, p.2)

def readBe (n : Nat) (i : List UInt8) : Option (Nat × List UInt8) := (take n i).map fun p => (ofBe p.1, p.2)

def skip (n : Nat) (i : List UInt8) : Option (List UInt8) := (take n i).map Prod.snd

theorem take_append {n : Nat} {bs : List UInt8} (hlen : bs.length = n) (rest : List UInt8) :
    take n (bs ++ rest) = some (bs, rest) := by
  subst hlen
  rw [take, if_pos (by rw [List.length_append]; exact Nat.le_add_right _ _), List.take_left, List.drop_left]

/-- Skipping past what stands in front. -/
theorem skip_add_append {k : Nat} {bs : List UInt8} (hlen : bs.length = k) (n : Nat) (rest : List UInt8) :
    skip (n + k) (bs ++ rest) = skip n rest := by
  subst hlen
  have hdrop : (bs ++ rest).drop (n + bs.length) = rest.drop n := by
    rw [Nat.add_comm, List.drop_length_add_append]
  simp only [skip, take, List.length_append, hdrop]
  by_cases hn : n ≤ rest.length
  · rw [if_pos hn, if_pos (by omega)]
    rfl
  · rw [if_neg hn, if_neg (by omega)]

theorem readLe_toLe {n x : Nat} (hx : x < 2 ^ (8 * n)) (rest : List UInt8) :
    readLe n (toLe n x ++ rest) = some (x, rest) := by
  rw [readLe, take_append (length_toLe n x), Option.map_some, ofLe_toLe, Nat.mod_eq_of_lt hx]

theorem readBe_toBe {n x : Nat} (hx : x < 2 ^ (8 * n)) (rest : List UInt8) :
    readBe n (toBe n x ++ rest) = some (x, rest) := by
  rw [readBe, take_append (length_toBe n x), Option.map_some, ofBe_toBe, Nat.mod_eq_of_lt hx]

/-! ### Bytes in place -/

/-- The number in the `n` bytes at a position. -/
def peekLe (n pos : Nat) (i : List UInt8) : Nat := ofLe ((i.drop pos).take n)

/-- The bytes at a position replaced. -/
def overwrite (i : List UInt8) (pos : Nat) (bs : List UInt8) : List UInt8 := i.take pos ++ (bs ++ i.drop (pos + bs.length))

theorem peekLe_append {n pos x : Nat} {front : List UInt8} (hfront : front.length = pos) (rest : List UInt8) :
    peekLe n pos (front ++ (toLe n x ++ rest)) = x % 2 ^ (8 * n) := by
  subst hfront
  unfold peekLe
  rw [List.drop_left, List.take_left' (length_toLe n x), ofLe_toLe]

theorem overwrite_append {pos : Nat} {front before after : List UInt8} (hfront : front.length = pos)
    (hlen : before.length = after.length) (rest : List UInt8) :
    overwrite (front ++ (before ++ rest)) pos after = front ++ (after ++ rest) := by
  subst hfront
  unfold overwrite
  rw [List.take_left, ← hlen, List.drop_length_add_append, List.drop_left]

theorem toLe_add (m n x : Nat) : toLe (m + n) x = toLe m x ++ toLe n (x >>> (8 * m)) := by
  induction m generalizing x with
  | zero =>
      rw [Nat.zero_add]
      rfl
  | succ m ih =>
      have hshift : x >>> (8 * (m + 1)) = (x >>> 8) >>> (8 * m) := by
        rw [← Nat.shiftRight_add]
        congr 1
        omega
      rw [Nat.add_right_comm, toLe, toLe, ih, hshift]
      rfl

/-- Only the low bytes are written. -/
theorem toLe_mod (n x : Nat) : toLe n (x % 2 ^ (8 * n)) = toLe n x := by
  induction n generalizing x with
  | zero => rfl
  | succ n ih =>
      have hsplit : 2 ^ (8 * (n + 1)) = 2 ^ 8 * 2 ^ (8 * n) := by
        rw [← Nat.pow_add, Nat.mul_succ, Nat.add_comm]
      have hlow : UInt8.ofNat (x % 2 ^ (8 * (n + 1))) = UInt8.ofNat x := by
        apply UInt8.toNat_inj.mp
        rw [UInt8.toNat_ofNat', UInt8.toNat_ofNat', hsplit, Nat.mod_mul_right_mod]
      have hhigh : (x % 2 ^ (8 * (n + 1))) >>> 8 = (x >>> 8) % 2 ^ (8 * n) := by
        rw [Nat.shiftRight_eq_div_pow, Nat.shiftRight_eq_div_pow, hsplit, Nat.mod_mul_right_div_self]
      rw [toLe, toLe, hlow, hhigh, ih]

/-! ### Bit fields -/

/-- The field of `width` bits from bit `shift` on. -/
def field (shift width x : Nat) : Nat := x >>> shift % 2 ^ width

theorem field_lt (shift width x : Nat) : field shift width x < 2 ^ width := Nat.mod_lt _ (Nat.two_pow_pos width)

/-- The lowest field of a packed word. -/
theorem field_zero {width v : Nat} (hv : v < 2 ^ width) (high : Nat) : field 0 width (v + 2 ^ width * high) = v := by
  rw [field, Nat.shiftRight_zero, Nat.add_mul_mod_self_left, Nat.mod_eq_of_lt hv]

/-- A field above the lowest one. -/
theorem field_add {low below pos : Nat} (hlow : low < 2 ^ below) (shift : Nat) (hpos : pos = below + shift)
    (width high : Nat) :
    field pos width (low + 2 ^ below * high) = field shift width high := by
  rw [field, field, hpos, Nat.shiftRight_add, Nat.shiftRight_eq_div_pow _ below,
    Nat.add_mul_div_left _ _ (Nat.two_pow_pos below), Nat.div_eq_of_lt hlow, Nat.zero_add]

theorem field_self {width v : Nat} (hv : v < 2 ^ width) : field 0 width v = v := by
  rw [field, Nat.shiftRight_zero, Nat.mod_eq_of_lt hv]

end Bytes
