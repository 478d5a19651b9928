import Mathlib.Algebra.BigOperators.Group.List.Basic
import Mathlib.Algebra.GroupWithZero.Nat
import Mathlib.Data.List.Basic

/-!
# One thing after another

A line on which things are sent one after the other. Each takes some time to be sent and arrives a fixed time after
that, so what is on the line says how long the sender has been busy with it.
-/

namespace Serial

variable {α : Type*} (cost : α → Nat)

/-- What is on the line, each thing with the time at which it arrives. No two of them were sent at the same time, and
the last one arrives by `last`. -/
def Spaced : List (Nat × α) → Nat → Prop
  | [], _ => True
  | [x], last => x.1 ≤ last
  | x :: y :: rest, last => x.1 + cost y.2 ≤ y.1 ∧ Spaced (y :: rest) last

/-- The time it took to send those of the things that are counted. -/
def work (counted : α → Bool) (line : List (Nat × α)) : Nat :=
  ((line.filter fun x => counted x.2).map fun x => cost x.2).sum

variable {cost} {line : List (Nat × α)} {x : Nat × α} {last : Nat} {counted : α → Bool}

theorem Spaced.tail (h : Spaced cost (x :: line) last) : Spaced cost line last := by
  cases line with
  | nil => trivial
  | cons y rest => exact h.2

/-- What is sent next arrives after the time it takes. -/
theorem Spaced.snoc (h : Spaced cost line last) (hx : last + cost x.2 ≤ x.1) : Spaced cost (line ++ [x]) x.1 := by
  induction line with
  | nil => exact Nat.le_refl x.1
  | cons y rest ih =>
      cases rest with
      | nil =>
          have hy : y.1 ≤ last := h
          exact ⟨by omega, Nat.le_refl x.1⟩
      | cons z rest => exact ⟨h.1, ih h.2⟩

theorem work_cons : work cost counted (x :: line) = (if counted x.2 then cost x.2 else 0) + work cost counted line := by
  unfold work
  by_cases hx : counted x.2 = true
  · rw [List.filter_cons_of_pos (by simpa using hx), List.map_cons, List.sum_cons, if_pos hx]
  · rw [List.filter_cons_of_neg (by simpa using hx), if_neg hx, Nat.zero_add]

theorem work_snoc : work cost counted (line ++ [x]) = work cost counted line + if counted x.2 then cost x.2 else 0 := by
  unfold work
  rw [List.filter_append, List.map_append, List.sum_append]
  by_cases hx : counted x.2 = true
  · simp [hx]
  · simp [hx]

/-- Between the arrival of the first thing and that of the last one, the sender was busy with all but the first. -/
theorem Spaced.work_le (h : Spaced cost (x :: line) last) : x.1 + work cost counted line ≤ last := by
  induction line generalizing x with
  | nil => exact h
  | cons y rest ih =>
      have hrest := ih h.2
      have hgap := h.1
      rw [work_cons]
      split
      · omega
      · omega

end Serial
