import Mathlib.Data.List.TakeWhile
import Mathlib.Algebra.Group.Nat.Defs
import Lcmp.Lib.Text

/-!
# Formatted extraction

Numbers taken from the front of a stream of characters as `operator>>` of the C locale does: white space in front
is skipped, line ends with it, and the characters that belong to the number are taken. A reader returns what is
left of the stream.
-/

namespace Extraction

open Text

universe u

def skipSpace (s : List Char) : List Char := s.dropWhile isSpace

/-- An optional sign, and what follows it. -/
def sign (s : List Char) : List Char × List Char :=
  match s with
  | '-' :: s => (['-'], s)
  | '+' :: s => (['+'], s)
  | s => ([], s)

/-- An unsigned number of `w` bits, which is negated behind a minus. There is no result without digits or when
the digits overflow. -/
def getUnsigned (w : ℕ) (s : List Char) : Option (ℕ × List Char) :=
  let (minus, s) := sign (skipSpace s)
  let digits := s.takeWhile Char.isDigit
  let n := Nat.ofDigitChars 10 digits 0
  if digits = [] ∨ 2 ^ w ≤ n then none
  else some (if minus = ['-'] then (2 ^ w - n) % 2 ^ w else n, s.dropWhile Char.isDigit)

/-- The characters of a floating point number behind its sign. `mantissa`, `dec` and `sci` say whether a digit,
the point and the exponent were met, and `exp` that the exponent begins here, where it may have a sign. -/
def floatText (mantissa dec sci exp : Bool) : List Char → List Char × List Char
  | [] => ([], [])
  | c :: s =>
      if c.isDigit then
        let (text, rest) := floatText true dec sci false s
        (c :: text, rest)
      else if exp ∧ (c = '+' ∨ c = '-') then
        let (text, rest) := floatText mantissa dec sci false s
        (c :: text, rest)
      else if c = '.' ∧ ¬ dec ∧ ¬ sci then
        let (text, rest) := floatText mantissa true sci false s
        (c :: text, rest)
      else if (c = 'e' ∨ c = 'E') ∧ ¬ sci ∧ mantissa then
        let (text, rest) := floatText mantissa dec true true s
        (c :: text, rest)
      else ([], c :: s)

variable {D : Type u}

/-- A floating point number: `strtod` converts the characters, where it can. -/
def getDouble (strtod : List Char → Option D) (s : List Char) : Option (D × List Char) :=
  let (minus, s) := sign (skipSpace s)
  let (text, rest) := floatText false false false false s
  if text = [] then none else (strtod (minus ++ text)).map fun x => (x, rest)

/-! ### What is left -/

theorem length_sign_le (s : List Char) : (sign s).2.length ≤ s.length := by
  unfold sign
  split
  · exact Nat.le_succ _
  · exact Nat.le_succ _
  · exact Nat.le_refl _

theorem length_skipSpace_le (s : List Char) : (skipSpace s).length ≤ s.length := (List.dropWhile_sublist _).length_le

theorem length_getUnsigned {w n : ℕ} {s rest : List Char} (h : getUnsigned w s = some (n, rest)) :
    rest.length < s.length := by
  simp only [getUnsigned] at h
  split at h
  · cases h
  · next hdigits =>
      rw [not_or] at hdigits
      obtain ⟨-, rfl⟩ := Prod.mk.injEq _ _ _ _ ▸ Option.some_inj.mp h
      have hsplit := List.takeWhile_append_dropWhile (p := Char.isDigit) (l := (sign (skipSpace s)).2)
      have hlen := congrArg List.length hsplit
      rw [List.length_append] at hlen
      have hpos := List.length_pos_of_ne_nil hdigits.1
      have hsign := length_sign_le (skipSpace s)
      have hspace := length_skipSpace_le s
      omega

theorem length_floatText_le (mantissa dec sci exp : Bool) (s : List Char) :
    (floatText mantissa dec sci exp s).2.length ≤ s.length := by
  fun_induction floatText mantissa dec sci exp s with
  | case1 => exact Nat.le_refl _
  | case2 mantissa dec sci exp c s hdigit text rest htext ih =>
      rw [htext] at ih
      exact Nat.le_succ_of_le ih
  | case3 mantissa dec sci exp c s hdigit hsign text rest htext ih =>
      rw [htext] at ih
      exact Nat.le_succ_of_le ih
  | case4 mantissa dec sci exp c s hdigit hsign hpoint text rest htext ih =>
      rw [htext] at ih
      exact Nat.le_succ_of_le ih
  | case5 mantissa dec sci exp c s hdigit hsign hpoint hexp text rest htext ih =>
      rw [htext] at ih
      exact Nat.le_succ_of_le ih
  | case6 => exact Nat.le_refl _

theorem length_getDouble_le {strtod : List Char → Option D} {x : D} {s rest : List Char}
    (h : getDouble strtod s = some (x, rest)) : rest.length ≤ s.length := by
  simp only [getDouble] at h
  split at h
  · cases h
  · obtain ⟨y, -, hy⟩ := Option.map_eq_some_iff.mp h
    obtain ⟨-, rfl⟩ := Prod.mk.injEq _ _ _ _ ▸ hy
    have htext := length_floatText_le false false false false (sign (skipSpace s)).2
    have hsign := length_sign_le (skipSpace s)
    have hspace := length_skipSpace_le s
    omega

/-! ### Line ends

A number that is found in a line is found there whatever follows the line. -/

section Line

variable (rest : List Char)

theorem takeWhile_line {p : Char → Bool} (hp : p '\n' = false) (l : List Char) :
    (l ++ '\n' :: rest).takeWhile p = l.takeWhile p := by
  induction l with
  | nil => rw [List.nil_append, List.takeWhile_cons, hp]; rfl
  | cons c l ih => rw [List.cons_append, List.takeWhile_cons, List.takeWhile_cons, ih]

theorem dropWhile_line {p : Char → Bool} (hp : p '\n' = false) (l : List Char) :
    (l ++ '\n' :: rest).dropWhile p = l.dropWhile p ++ '\n' :: rest := by
  induction l with
  | nil => rw [List.nil_append, List.dropWhile_cons, hp]; rfl
  | cons c l ih =>
      rw [List.cons_append, List.dropWhile_cons, List.dropWhile_cons, ih]
      split
      · rfl
      · rfl

theorem skipSpace_line {l : List Char} (hl : skipSpace l ≠ []) :
    skipSpace (l ++ '\n' :: rest) = skipSpace l ++ '\n' :: rest := by
  rw [skipSpace, List.dropWhile_append, if_neg (by simpa [skipSpace] using hl), skipSpace]

theorem sign_line (l : List Char) :
    sign (l ++ '\n' :: rest) = ((sign l).1, (sign l).2 ++ '\n' :: rest) := by
  unfold sign
  cases l with
  | nil => rfl
  | cons c l =>
      rw [List.cons_append]
      split
      · next heq =>
          obtain ⟨rfl, rfl⟩ := List.cons.inj heq
          rfl
      · next heq =>
          obtain ⟨rfl, rfl⟩ := List.cons.inj heq
          rfl
      · next hminus hplus =>
          split
          · next heq =>
              obtain ⟨rfl, rfl⟩ := List.cons.inj heq
              exact absurd rfl (hminus _)
          · next heq =>
              obtain ⟨rfl, rfl⟩ := List.cons.inj heq
              exact absurd rfl (hplus _)
          · rfl

theorem getUnsigned_line {w n : ℕ} {l tail : List Char} (h : getUnsigned w l = some (n, tail)) :
    getUnsigned w (l ++ '\n' :: rest) = some (n, tail ++ '\n' :: rest) := by
  have hspace : skipSpace l ≠ [] := by
    intro hnil
    simp [getUnsigned, hnil, sign] at h
  have hdigit : Char.isDigit '\n' = false := rfl
  simp only [getUnsigned] at h ⊢
  rw [skipSpace_line rest hspace, sign_line, takeWhile_line rest hdigit, dropWhile_line rest hdigit]
  split at h
  · cases h
  · next hdigits =>
      obtain ⟨hn, htail⟩ := Prod.mk.injEq _ _ _ _ ▸ Option.some_inj.mp h
      rw [if_neg hdigits, hn, htail]

theorem floatText_line (mantissa dec sci exp : Bool) (l : List Char) :
    floatText mantissa dec sci exp (l ++ '\n' :: rest) =
      ((floatText mantissa dec sci exp l).1, (floatText mantissa dec sci exp l).2 ++ '\n' :: rest) := by
  fun_induction floatText mantissa dec sci exp l with
  | case1 => simp [floatText]
  | case2 mantissa dec sci exp c l hdigit text tail htext ih =>
      rw [htext] at ih
      rw [List.cons_append, floatText, if_pos hdigit, ih]
  | case3 mantissa dec sci exp c l hdigit hsign text tail htext ih =>
      rw [htext] at ih
      rw [List.cons_append, floatText, if_neg hdigit, if_pos hsign, ih]
  | case4 mantissa dec sci exp c l hdigit hsign hpoint text tail htext ih =>
      rw [htext] at ih
      rw [List.cons_append, floatText, if_neg hdigit, if_neg hsign, if_pos hpoint, ih]
  | case5 mantissa dec sci exp c l hdigit hsign hpoint hexp text tail htext ih =>
      rw [htext] at ih
      rw [List.cons_append, floatText, if_neg hdigit, if_neg hsign, if_neg hpoint, if_pos hexp, ih]
  | case6 mantissa dec sci exp c l hdigit hsign hpoint hexp =>
      rw [List.cons_append, floatText, if_neg hdigit, if_neg hsign, if_neg hpoint, if_neg hexp]

theorem getDouble_line {strtod : List Char → Option D} {x : D} {l tail : List Char}
    (h : getDouble strtod l = some (x, tail)) :
    getDouble strtod (l ++ '\n' :: rest) = some (x, tail ++ '\n' :: rest) := by
  have hspace : skipSpace l ≠ [] := by
    intro hnil
    simp [getDouble, hnil, sign, floatText] at h
  simp only [getDouble] at h ⊢
  rw [skipSpace_line rest hspace, sign_line, floatText_line]
  split at h
  · cases h
  · next htext =>
      obtain ⟨y, hy, hpair⟩ := Option.map_eq_some_iff.mp h
      obtain ⟨rfl, htail⟩ := Prod.mk.injEq _ _ _ _ ▸ hpair
      rw [if_neg htext, hy, Option.map_some, htail]

end Line

/-! ### Numbers that were written

A run of digits is read up to its end.
-/

section Digits

variable {digits rest : List Char} {c : Char}

theorem skipSpace_of_isDigit (hc : c.isDigit) (s : List Char) : skipSpace (c :: s) = c :: s := by
  rw [skipSpace, List.dropWhile_cons, isSpace_of_isDigit hc]
  rfl

theorem sign_of_isDigit (hc : c.isDigit) (s : List Char) : sign (c :: s) = ([], c :: s) := by
  unfold sign
  split
  · next heq => exact absurd ((List.cons.inj heq).1 ▸ hc) (by decide)
  · next heq => exact absurd ((List.cons.inj heq).1 ▸ hc) (by decide)
  · rfl

/-- Digits have neither white space nor a sign in front. -/
theorem sign_digits (hdigits : ∀ c ∈ digits, c.isDigit) (hne : digits ≠ []) (rest : List Char) :
    sign (skipSpace (digits ++ rest)) = ([], digits ++ rest) := by
  cases digits with
  | nil => exact absurd rfl hne
  | cons c digits =>
      have hc := hdigits c List.mem_cons_self
      rw [List.cons_append, skipSpace_of_isDigit hc, sign_of_isDigit hc]

theorem takeWhile_digits (hdigits : ∀ c ∈ digits, c.isDigit) (hrest : ∀ c ∈ rest.head?, c.isDigit = false) :
    (digits ++ rest).takeWhile Char.isDigit = digits ∧ (digits ++ rest).dropWhile Char.isDigit = rest := by
  rw [List.takeWhile_append_of_pos hdigits, List.dropWhile_append_of_pos hdigits]
  cases rest with
  | nil => exact ⟨List.append_nil _, rfl⟩
  | cons c rest =>
      have hc : c.isDigit = false := hrest c rfl
      rw [List.takeWhile_cons, List.dropWhile_cons, hc]
      exact ⟨List.append_nil _, rfl⟩

/-- A number is read when it fits. -/
theorem getUnsigned_decimal (w n : ℕ) (hrest : ∀ c ∈ rest.head?, c.isDigit = false) :
    getUnsigned w (decimal n ++ rest) = if 2 ^ w ≤ n then none else some (n, rest) := by
  have hdigits : ∀ c ∈ decimal n, c.isDigit := fun c hc => isDigit_of_mem_decimal hc
  obtain ⟨htake, hdrop⟩ := takeWhile_digits hdigits hrest
  simp only [getUnsigned, sign_digits hdigits (decimal_ne_nil n), htake, hdrop, ofDigitChars_decimal,
    decimal_ne_nil n, false_or]
  rfl

theorem getUnsigned_space (w : ℕ) (s : List Char) : getUnsigned w (' ' :: s) = getUnsigned w s := rfl

theorem floatText_digits (hdigits : ∀ c ∈ digits, c.isDigit) (dec sci : Bool) (s : List Char) :
    floatText true dec sci false (digits ++ s) =
      (digits ++ (floatText true dec sci false s).1, (floatText true dec sci false s).2) := by
  induction digits with
  | nil => rfl
  | cons c digits ih =>
      rw [List.forall_mem_cons] at hdigits
      rw [List.cons_append, floatText, if_pos hdigits.1, ih hdigits.2]
      rfl

variable {D : Type u} {whole frac : List Char}

/-- A number with a point is read as a whole. -/
theorem getDouble_point (strtod : List Char → Option D) (hwhole : ∀ c ∈ whole, c.isDigit) (hne : whole ≠ [])
    (hfrac : ∀ c ∈ frac, c.isDigit) :
    getDouble strtod (whole ++ '.' :: frac) = (strtod (whole ++ '.' :: frac)).map fun x => (x, []) := by
  have htext : floatText false false false false (whole ++ '.' :: frac) = (whole ++ '.' :: frac, []) := by
    have hafter := floatText_digits hfrac true false []
    rw [List.append_nil] at hafter
    cases whole with
    | nil => exact absurd rfl hne
    | cons c whole =>
        rw [List.forall_mem_cons] at hwhole
        have hpoint : floatText true false false false ('.' :: frac) = ('.' :: frac, []) := by
          rw [floatText, if_neg (by decide), if_neg (by decide), if_pos (by decide), hafter]
          simp only [floatText, List.append_nil]
        rw [List.cons_append, floatText, if_pos hwhole.1, floatText_digits hwhole.2, hpoint]
  have hcons : whole ++ '.' :: frac ≠ [] := List.append_ne_nil_of_left_ne_nil hne _
  simp only [getDouble, sign_digits hwhole hne, htext, if_neg hcons, List.nil_append]

theorem getDouble_space (strtod : List Char → Option D) (s : List Char) :
    getDouble strtod (' ' :: s) = getDouble strtod s := rfl

end Digits

end Extraction
