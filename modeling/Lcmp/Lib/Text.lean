import Mathlib.Data.List.Basic

/-!
# Text

Characters in lines and words, and decimal numbers.
-/

namespace Text

/-- `isspace` of the C locale. -/
def isSpace (c : Char) : Bool :=
  c == ' ' || c == '\t' || c == '\n' || c == Char.ofNat 11 || c == Char.ofNat 12 || c == '\r'

/-- The runs of characters between white space. -/
def words (s : List Char) : List (List Char) := (s.splitOnP isSpace).filter fun word => !word.isEmpty

def lines (s : List Char) : List (List Char) := s.splitOn '\n'

def decimal (n : ℕ) : List Char := Nat.toDigits 10 n

/-- A run without white space that is not empty. -/
def IsWord (word : List Char) : Prop := word ≠ [] ∧ ∀ c ∈ word, isSpace c = false

variable {word : List Char}

theorem words_of_isWord (h : IsWord word) : words word = [word] := by
  rw [words, List.splitOnP_eq_singleton h.2, List.filter_cons_of_pos, List.filter_nil]
  simpa using h.1

theorem words_append (h : IsWord word) {c : Char} (hc : isSpace c) (rest : List Char) :
    words (word ++ c :: rest) = word :: words rest := by
  rw [words, List.splitOnP_append_cons_of_forall_mem h.2 c hc, List.filter_cons_of_pos, words]
  simpa using h.1

/-- Lines that are written one after the other leave an empty one behind the last of them. -/
theorem lines_flatMap {ls : List (List Char)} (h : ∀ l ∈ ls, '\n' ∉ l) :
    lines (ls.flatMap (· ++ ['\n'])) = ls ++ [[]] := by
  induction ls with
  | nil => rfl
  | cons l ls ih =>
      have hl : ∀ c ∈ l, (c == '\n') = false := fun c hc =>
        beq_false_of_ne fun heq => h l List.mem_cons_self (heq ▸ hc)
      rw [lines] at ih ⊢
      rw [List.flatMap_cons, List.append_assoc, List.singleton_append, List.splitOn,
        List.splitOnP_append_cons_of_forall_mem hl '\n' (beq_self_eq_true '\n'), List.cons_append,
        ← ih fun l' hl' => h l' (List.mem_cons_of_mem _ hl'), List.splitOn]

/-! ### Decimal numbers -/

theorem isDigit_of_mem_decimal {n : ℕ} {c : Char} (h : c ∈ decimal n) : c.isDigit :=
  Nat.isDigit_of_mem_toDigits (by decide) (by decide) h

theorem decimal_ne_nil (n : ℕ) : decimal n ≠ [] := Nat.toDigits_ne_nil

theorem ofDigitChars_decimal (n : ℕ) : Nat.ofDigitChars 10 (decimal n) 0 = n := Nat.ofDigitChars_ten_toDigits

theorem isSpace_of_isDigit {c : Char} (h : c.isDigit) : isSpace c = false := by
  have hne : ∀ space : Char, space.isDigit = false → (c == space) = false := fun space hspace =>
    beq_false_of_ne fun heq => absurd h (by rw [heq, hspace]; decide)
  rw [isSpace, hne ' ' rfl, hne '\t' rfl, hne '\n' rfl, hne (Char.ofNat 11) rfl, hne (Char.ofNat 12) rfl,
    hne '\r' rfl]
  rfl

theorem isWord_decimal (n : ℕ) : IsWord (decimal n) :=
  ⟨decimal_ne_nil n, fun _ hc => isSpace_of_isDigit (isDigit_of_mem_decimal hc)⟩

end Text
