import Mathlib.Data.List.Basic

/-!
# Segments of a byte stream

A segment is a position and a length. Segments are contiguous when each starts where the one before
it ends, and ascending when none starts before the one before it ends.
-/

namespace Segments

abbrev Segment := Nat × Nat

/-- The segments run from `a` to `b` without a gap. -/
def Contiguous : Nat → List Segment → Nat → Prop
  | a, [], b => a = b
  | a, x :: rest, b => x.1 = a ∧ Contiguous (a + x.2) rest b

/-- The segments run from `a` to `b`, possibly with gaps. -/
def Ascending : Nat → List Segment → Nat → Prop
  | a, [], b => a ≤ b
  | a, x :: rest, b => a ≤ x.1 ∧ Ascending (x.1 + x.2) rest b

/-- The positions the segments cover, in order. -/
def bytes (segs : List Segment) : List Nat := segs.flatMap fun x => List.range' x.1 x.2

theorem Contiguous.le {a b : Nat} {segs : List Segment} (h : Contiguous a segs b) : a ≤ b := by
  induction segs generalizing a with
  | nil => exact Nat.le_of_eq h
  | cons x rest ih => exact Nat.le_trans (Nat.le_add_right a x.2) (ih h.2)

theorem Contiguous.snoc {a b : Nat} {segs : List Segment} (h : Contiguous a segs b) (len : Nat) :
    Contiguous a (segs ++ [(b, len)]) (b + len) := by
  induction segs generalizing a with
  | nil =>
      obtain rfl : a = b := h
      exact ⟨rfl, rfl⟩
  | cons x rest ih => exact ⟨h.1, ih h.2⟩

theorem Contiguous.bytes_eq {a b : Nat} {segs : List Segment} (h : Contiguous a segs b) :
    bytes segs = List.range' a (b - a) := by
  induction segs generalizing a with
  | nil =>
      obtain rfl : a = b := h
      rw [Nat.sub_self]
      rfl
  | cons x rest ih =>
      obtain ⟨hx, hrest⟩ := h
      have hle := hrest.le
      have hsplit : b - a = x.2 + (b - (a + x.2)) := by omega
      rw [hsplit, ← List.range'_append_1, ← ih hrest, ← hx]
      rfl

/-- Contiguous segments from 0 are the bytes of a prefix, each once and in order. -/
theorem Contiguous.bytes_prefix {n : Nat} {segs : List Segment} (h : Contiguous 0 segs n) :
    bytes segs = List.range n := by
  rw [h.bytes_eq, Nat.sub_zero, List.range_eq_range']

/-- Segments that are not empty and end where they start are no segments. -/
theorem Contiguous.eq_nil {a : Nat} {segs : List Segment} (h : Contiguous a segs a)
    (hpos : ∀ x ∈ segs, 0 < x.2) : segs = [] := by
  cases segs with
  | nil => rfl
  | cons x rest =>
      have hle := h.2.le
      have hx := hpos x List.mem_cons_self
      omega

theorem Ascending.le {a b : Nat} {segs : List Segment} (h : Ascending a segs b) : a ≤ b := by
  induction segs generalizing a with
  | nil => exact h
  | cons x rest ih =>
      have hrest := ih h.2
      have hx := h.1
      omega

theorem Ascending.snoc {a b pos : Nat} {segs : List Segment} (h : Ascending a segs b) (hpos : b ≤ pos)
    (len : Nat) : Ascending a (segs ++ [(pos, len)]) (pos + len) := by
  induction segs generalizing a with
  | nil => exact ⟨Nat.le_trans h hpos, Nat.le_refl _⟩
  | cons x rest ih => exact ⟨h.1, ih h.2⟩

theorem Ascending.mono_left {a a' b : Nat} {segs : List Segment} (h : Ascending a segs b)
    (ha : a' ≤ a) : Ascending a' segs b := by
  cases segs with
  | nil => exact Nat.le_trans ha h
  | cons x rest => exact ⟨Nat.le_trans ha h.1, h.2⟩

theorem Ascending.of_mem {a b : Nat} {segs : List Segment} (h : Ascending a segs b) {x : Segment}
    (hx : x ∈ segs) : a ≤ x.1 ∧ x.1 + x.2 ≤ b := by
  induction segs generalizing a with
  | nil => cases hx
  | cons y rest ih =>
      rcases List.mem_cons.mp hx with rfl | hx
      · exact ⟨h.1, h.2.le⟩
      · obtain ⟨hlow, hhigh⟩ := ih h.2 hx
        have hy := h.1
        exact ⟨by omega, hhigh⟩

theorem Ascending.of_erase {a b : Nat} {segs : List Segment} (h : Ascending a segs b) (i : Nat) :
    Ascending a (segs.eraseIdx i) b := by
  induction segs generalizing a i with
  | nil => exact h
  | cons x rest ih =>
      obtain ⟨hx, hrest⟩ := h
      cases i with
      | zero => exact hrest.mono_left (by omega)
      | succ i => exact ⟨hx, ih hrest i⟩

end Segments
