import Mathlib.Data.List.Basic

/-!
# A flag and the messages that carry it

A sender keeps a flag and sends the new value whenever it changes; a receiver takes over the values in
the order they were sent. What is under way between the two is a chain of values, each the negation of
the one before it, from the receiver's copy to the sender's flag.
-/

namespace Toggle

/-- Each value of the list is the negation of its predecessor, the first one of `start`, and the last
one is `stop`. -/
def Chain (start : Bool) : List Bool → Bool → Prop
  | [], stop => start = stop
  | b :: rest, stop => b = !start ∧ Chain b rest stop

variable {start stop b : Bool} {values : List Bool}

theorem Chain.snoc (h : Chain start values stop) : Chain start (values ++ [!stop]) (!stop) := by
  induction values generalizing start with
  | nil =>
      obtain rfl : start = stop := h
      exact ⟨rfl, rfl⟩
  | cons b rest ih => exact ⟨h.1, ih h.2⟩

/-- From a chain that starts with `start`, the values at even places are the negations of `start`. -/
theorem Chain.getElem? (h : Chain start values stop) {i : Nat} (hb : values[i]? = some b) :
    b = !start ↔ i % 2 = 0 := by
  induction values generalizing start i with
  | nil => simp at hb
  | cons first rest ih =>
      obtain ⟨hfirst, hrest⟩ := h
      cases i with
      | zero =>
          obtain rfl : first = b := by simpa using hb
          simp [hfirst]
      | succ i =>
          have hlater := ih hrest (i := i) (by simpa using hb)
          subst hfirst
          have hflip : b = !start ↔ ¬ b = !!start := by
            cases b <;> cases start <;> decide
          rw [hflip, hlater]
          omega

end Toggle
