import Lcmp.Lib.Extended
import Lcmp.Lib.Extraction
import Mathlib.Data.Int.Log
import Mathlib.Data.Rat.Floor
import Mathlib.Tactic.Linarith
import Mathlib.Tactic.NormNum
import Mathlib.Tactic.Positivity
import Mathlib.Tactic.Ring

/-!
# Floating point numbers

Binary floating point numbers as the rational numbers they are, rounded to the nearest with ties to even, and their
decimal texts: printed with a fixed number of digits behind the point, and read back.
-/

namespace Floats

open Text

/-- The nearest integer, and of two the even one. -/
def halfEven (x : ℚ) : ℤ :=
  let n := ⌊x⌋
  if x - n < 1 / 2 then n
  else if 1 / 2 < x - n then n + 1
  else if n % 2 = 0 then n
  else n + 1

/-- The distance between the numbers of `prec` bits around `x`, whose exponents begin with `emin`. -/
def ulp (prec : ℕ) (emin : ℤ) (x : ℚ) : ℚ := 2 ^ (max (Int.log 2 |x|) emin + 1 - prec)

/-- The nearest number of `prec` bits, where none is too large. -/
def rounded (prec : ℕ) (emin : ℤ) (x : ℚ) : ℚ := halfEven (x / ulp prec emin x) * ulp prec emin x

def double (x : ℚ) : ℚ := rounded 53 (-1022) x

/-- The floating point number nearest to a number, or an infinity where that is too large. -/
def nearest : Extended → Extended
  | .fin x => if |double x| < 2 ^ 1024 then .fin (double x) else .inf (decide (x < 0))
  | x => x

/-- `n` in at least `k` digits. -/
def padded (k n : ℕ) : List Char := List.replicate (k - (decimal n).length) '0' ++ decimal n

/-- A number that is not negative, with `k` digits behind the point. -/
def fixed (k : ℕ) (x : ℚ) : List Char :=
  let n := (halfEven (x * 10 ^ k)).toNat
  decimal (n / 10 ^ k) ++ '.' :: padded k (n % 10 ^ k)

/-- What is written behind a mantissa. -/
def exponent : List Char → Option ℤ
  | [] => some 0
  | c :: s =>
      if c = 'e' ∨ c = 'E' then
        let (minus, digits) := Extraction.sign s
        let n : ℤ := Nat.ofDigitChars 10 digits 0
        if digits ≠ [] ∧ digits.all Char.isDigit then some (if minus = ['-'] then -n else n) else none
      else none

/-- The number that is the whole text. Numbers that are too large have no conversion. -/
def strtod (text : List Char) : Option ℚ :=
  let (minus, s) := Extraction.sign text
  let whole := s.takeWhile Char.isDigit
  let (frac, s) :=
    match s.dropWhile Char.isDigit with
    | '.' :: s => (s.takeWhile Char.isDigit, s.dropWhile Char.isDigit)
    | s => ([], s)
  if whole = [] ∧ frac = [] then none
  else
    (exponent s).bind fun e =>
      let x := double (Nat.ofDigitChars 10 (whole ++ frac) 0 * 10 ^ (e - frac.length))
      if 2 ^ 1024 ≤ x then none else some (if minus = ['-'] then -x else x)

variable {prec k n : ℕ} {emin : ℤ} {x y : ℚ}

/-! ### Rounding -/

theorem abs_halfEven_sub_le (x : ℚ) : |(halfEven x : ℚ) - x| ≤ 1 / 2 := by
  have hlo := Int.floor_le x
  have hhi := Int.lt_floor_add_one x
  rw [abs_le]
  simp only [halfEven]
  split
  · constructor <;> linarith
  · split
    · push_cast
      constructor <;> linarith
    · split
      · constructor <;> linarith
      · push_cast
        constructor <;> linarith

/-- What is less than half a unit away is rounded to. -/
theorem halfEven_eq {n : ℤ} (h : |x - n| < 1 / 2) : halfEven x = n := by
  have hround := abs_halfEven_sub_le x
  have hsum : |((halfEven x - n : ℤ) : ℚ)| < 1 := by
    have htri := abs_add_le ((halfEven x : ℚ) - x) (x - n)
    rw [sub_add_sub_cancel] at htri
    push_cast
    linarith
  have hzero : |halfEven x - n| < 1 := by exact_mod_cast hsum
  have := Int.abs_lt_one_iff.mp hzero
  omega

theorem halfEven_intCast (n : ℤ) : halfEven n = n := by
  apply halfEven_eq
  rw [sub_self, abs_zero]
  norm_num

theorem floor_le_halfEven (x : ℚ) : ⌊x⌋ ≤ halfEven x := by
  simp only [halfEven]
  split
  · exact le_refl _
  · split
    · exact (Int.lt_succ _).le
    · split
      · exact le_refl _
      · exact (Int.lt_succ _).le

theorem ulp_pos (prec : ℕ) (emin : ℤ) (x : ℚ) : 0 < ulp prec emin x := zpow_pos (by norm_num) _

theorem abs_rounded_sub_le (prec : ℕ) (emin : ℤ) (x : ℚ) : |rounded prec emin x - x| ≤ ulp prec emin x / 2 := by
  have hpos := ulp_pos prec emin x
  have hround := abs_halfEven_sub_le (x / ulp prec emin x)
  have hsplit : rounded prec emin x - x =
      (halfEven (x / ulp prec emin x) - x / ulp prec emin x) * ulp prec emin x := by
    rw [sub_mul, div_mul_cancel₀ x hpos.ne']
    rfl
  rw [hsplit, abs_mul, abs_of_pos hpos]
  calc |(halfEven (x / ulp prec emin x) : ℚ) - x / ulp prec emin x| * ulp prec emin x
      ≤ 1 / 2 * ulp prec emin x := mul_le_mul_of_nonneg_right hround hpos.le
    _ = ulp prec emin x / 2 := by ring

/-- `y` is `x` up to a relative error. -/
def Near (δ x y : ℚ) : Prop := |y - x| ≤ δ * |x|

/-- The relative error of a rounding, where the numbers have all their bits. -/
theorem near_rounded (hx : 2 ^ emin ≤ |x|) : Near (1 / 2 ^ prec) x (rounded prec emin x) := by
  have hpos : (0 : ℚ) < |x| := lt_of_lt_of_le (zpow_pos (by norm_num) _) hx
  have hlog : emin ≤ Int.log 2 |x| := (Int.zpow_le_iff_le_log (by decide) hpos).mp hx
  have hulp : ulp prec emin x / 2 = 1 / 2 ^ prec * 2 ^ Int.log 2 |x| := by
    rw [ulp, max_eq_left hlog, zpow_sub₀ (by norm_num), zpow_add₀ (by norm_num), zpow_natCast, zpow_one]
    ring
  have hself : (2 : ℚ) ^ Int.log 2 |x| ≤ |x| := Int.zpow_log_le_self (by decide) hpos
  calc |rounded prec emin x - x| ≤ ulp prec emin x / 2 := abs_rounded_sub_le _ _ _
    _ = 1 / 2 ^ prec * 2 ^ Int.log 2 |x| := hulp
    _ ≤ 1 / 2 ^ prec * |x| := by gcongr

/-- Numbers that are not tiny have all their bits. -/
theorem near_double (hx : 1 / 2 ^ 32 ≤ x) : Near (1 / 2 ^ 53) x (double x) := by
  have htiny : (2 : ℚ) ^ (-1022 : ℤ) ≤ 2 ^ (-32 : ℤ) := zpow_le_zpow_right₀ (by norm_num) (by norm_num)
  have hle : (2 : ℚ) ^ (-32 : ℤ) ≤ |x| := le_trans (by norm_num at hx ⊢; exact hx) (le_abs_self x)
  exact near_rounded (htiny.trans hle)

theorem Near.abs_le_mul {δ : ℚ} (h : Near δ x y) : |y| ≤ (1 + δ) * |x| := by
  have htri := abs_add_le (y - x) x
  rw [sub_add_cancel] at htri
  rw [Near] at h
  linarith

theorem Near.bounds {δ : ℚ} (h : Near δ x y) (hx : 0 ≤ x) : x - δ * x ≤ y ∧ y ≤ x + δ * x := by
  rw [Near, abs_of_nonneg hx, abs_sub_le_iff] at h
  constructor <;> linarith

theorem Near.trans {δ ε z : ℚ} (hε : 0 ≤ ε) (hxy : Near δ x y) (hyz : Near ε y z) :
    Near (δ + ε * (1 + δ)) x z := by
  have htri := abs_add_le (z - y) (y - x)
  rw [sub_add_sub_cancel] at htri
  calc |z - x| ≤ |z - y| + |y - x| := htri
    _ ≤ ε * |y| + δ * |x| := add_le_add hyz hxy
    _ ≤ ε * ((1 + δ) * |x|) + δ * |x| := add_le_add_left (mul_le_mul_of_nonneg_left hxy.abs_le_mul hε) _
    _ = (δ + ε * (1 + δ)) * |x| := by ring

theorem Near.mul {δ ε x' y' : ℚ} (hx : Near δ x x') (hy : Near ε y y') :
    Near (δ + ε * (1 + δ)) (x * y) (x' * y') := by
  have hsplit : x' * y' - x * y = x' * (y' - y) + (x' - x) * y := by ring
  rw [Near, hsplit]
  calc |x' * (y' - y) + (x' - x) * y| ≤ |x'| * |y' - y| + |x' - x| * |y| := by
        rw [← abs_mul, ← abs_mul]
        exact abs_add_le _ _
    _ ≤ (1 + δ) * |x| * (ε * |y|) + δ * |x| * |y| :=
        add_le_add (mul_le_mul hx.abs_le_mul hy (abs_nonneg _) ((abs_nonneg _).trans hx.abs_le_mul))
          (mul_le_mul_of_nonneg_right hx (abs_nonneg _))
    _ = (δ + ε * (1 + δ)) * |x * y| := by
        rw [abs_mul]
        ring

/-- A number between two powers of two is rounded to a multiple of their distance. -/
theorem rounded_eq {e m : ℤ} (he : emin ≤ e) (hlo : 2 ^ e ≤ x) (hhi : x < 2 ^ (e + 1))
    (hm : |x / 2 ^ (e + 1 - prec) - m| < 1 / 2) : rounded prec emin x = m * 2 ^ (e + 1 - prec) := by
  have hpos : 0 < x := lt_of_lt_of_le (zpow_pos (by norm_num) _) hlo
  have hle : e ≤ Int.log 2 |x| := (Int.zpow_le_iff_le_log (by decide) (abs_pos_of_pos hpos)).mp
    (by rw [abs_of_pos hpos]; exact hlo)
  have hlt : Int.log 2 |x| < e + 1 := (Int.lt_zpow_iff_log_lt (by decide) (abs_pos_of_pos hpos)).mp
    (by rw [abs_of_pos hpos]; exact hhi)
  have hlog : max (Int.log 2 |x|) emin = e := by omega
  rw [rounded, ulp, hlog, halfEven_eq hm]

theorem double_eq {e m : ℤ} (he : -1022 ≤ e) (hlo : 2 ^ e ≤ x) (hhi : x < 2 ^ (e + 1))
    (hm : |x / 2 ^ (e - 52) - m| < 1 / 2) : double x = m * 2 ^ (e - 52) := by
  have hexp : e + 1 - (53 : ℕ) = e - 52 := by omega
  rw [double, rounded_eq he hlo hhi (hexp.symm ▸ hm), hexp]

/-! ### The numbers themselves -/

/-- A multiple of the distance is rounded to itself. -/
theorem rounded_eq_self {n : ℤ} (h : x = n * ulp prec emin x) : rounded prec emin x = x := by
  have hn : x / ulp prec emin x = n := (div_eq_iff (ulp_pos prec emin x).ne').mpr h
  rw [rounded, hn, halfEven_intCast, ← h]

/-- A number of 53 bits. -/
def IsDouble (x : ℚ) : Prop := ∃ m e : ℤ, -1074 ≤ e ∧ |m| < 2 ^ 53 ∧ x = m * 2 ^ e

theorem isDouble_zero : IsDouble 0 := ⟨0, 0, by norm_num, by norm_num, by simp⟩

theorem IsDouble.mul_two_pow (h : IsDouble x) (k : ℕ) : IsDouble (x * 2 ^ k) := by
  obtain ⟨m, e, he, hm, rfl⟩ := h
  refine ⟨m, e + k, by omega, hm, ?_⟩
  rw [zpow_add₀ (by norm_num), zpow_natCast, mul_assoc]

theorem log_mul_two_zpow_lt {m e : ℤ} (hne : m ≠ 0) (hm : |m| < 2 ^ 53) : Int.log 2 |(m : ℚ) * 2 ^ e| < 53 + e := by
  have htwo : (2 : ℚ) ≠ 0 := by norm_num
  have hcast : |(m : ℚ)| < 2 ^ 53 := by exact_mod_cast hm
  apply (Int.lt_zpow_iff_log_lt (by decide) (abs_pos.mpr (mul_ne_zero (Int.cast_ne_zero.mpr hne) (zpow_ne_zero _ htwo)))).mp
  rw [abs_mul, abs_of_pos (zpow_pos (by norm_num : (0 : ℚ) < 2) e), Nat.cast_ofNat, zpow_add₀ htwo]
  exact mul_lt_mul_of_pos_right (by exact_mod_cast hcast) (zpow_pos (by norm_num) e)

/-- A number of 53 bits is rounded to itself. -/
theorem IsDouble.double_eq (h : IsDouble x) : double x = x := by
  obtain ⟨m, e, he, hm, rfl⟩ := h
  by_cases hne : m = 0
  · subst hne
    exact rounded_eq_self (n := 0) (by simp)
  · have hlog := log_mul_two_zpow_lt (e := e) hne hm
    obtain ⟨k, hk⟩ : ∃ k : ℕ, e = k + (max (Int.log 2 |(m : ℚ) * 2 ^ e|) (-1022) + 1 - (53 : ℕ)) :=
      ⟨(e - (max (Int.log 2 |(m : ℚ) * 2 ^ e|) (-1022) + 1 - (53 : ℕ))).toNat, by omega⟩
    apply rounded_eq_self (n := m * 2 ^ k)
    rw [ulp, Int.cast_mul, Int.cast_pow, Int.cast_ofNat, mul_assoc, ← zpow_natCast, ← zpow_add₀ (by norm_num), ← hk]

theorem IsDouble.of_le {m e : ℤ} (he : -1074 ≤ e) (hm : |m| ≤ 2 ^ 53) : IsDouble (m * 2 ^ e) := by
  rcases hm.lt_or_eq with hlt | heq
  · exact ⟨m, e, he, hlt, rfl⟩
  · have hhalf : (2 : ℚ) ^ (e + 1) = 2 ^ e * 2 := zpow_add_one₀ (by norm_num) e
    rcases (abs_eq (by norm_num)).mp heq with rfl | rfl
    · refine ⟨2 ^ 52, e + 1, by omega, by norm_num, ?_⟩
      rw [hhalf]
      push_cast
      ring
    · refine ⟨-2 ^ 52, e + 1, by omega, by norm_num, ?_⟩
      rw [hhalf]
      push_cast
      ring

theorem isDouble_double (x : ℚ) : IsDouble (double x) := by
  have hpos := ulp_pos 53 (-1022) x
  have hquot : |x / ulp 53 (-1022) x| < 2 ^ 53 := by
    rw [abs_div, abs_of_pos hpos, div_lt_iff₀ hpos, ulp, ← zpow_natCast, ← zpow_add₀ (by norm_num)]
    calc |x| < 2 ^ (Int.log 2 |x| + 1) := Int.lt_zpow_succ_log_self (by decide) _
      _ ≤ 2 ^ (((53 : ℕ) : ℤ) + (max (Int.log 2 |x|) (-1022) + 1 - (53 : ℕ))) :=
        zpow_le_zpow_right₀ (by norm_num) (by omega)
  have hround := abs_halfEven_sub_le (x / ulp 53 (-1022) x)
  have hle : |((halfEven (x / ulp 53 (-1022) x) : ℤ) : ℚ)| < 2 ^ 53 + 1 := by
    have htri := abs_add_le ((halfEven (x / ulp 53 (-1022) x) : ℚ) - x / ulp 53 (-1022) x) (x / ulp 53 (-1022) x)
    rw [sub_add_cancel] at htri
    linarith
  have hint : |halfEven (x / ulp 53 (-1022) x)| < 2 ^ 53 + 1 := by exact_mod_cast hle
  exact IsDouble.of_le (by omega) (Int.lt_add_one_iff.mp hint)

/-- The error of a rounding is relative to the number, or at most half the least one. -/
theorem abs_double_sub_le (x : ℚ) : |double x - x| ≤ |x| / 2 ^ 53 + 2 ^ (-1075 : ℤ) := by
  have hleast : (0 : ℚ) < 2 ^ (-1075 : ℤ) := zpow_pos (by norm_num) _
  rcases le_or_gt (2 ^ (-1022 : ℤ)) |x| with hbig | hsmall
  · have hnear : |double x - x| ≤ 1 / 2 ^ 53 * |x| := near_rounded hbig
    linarith
  · rcases eq_or_ne x 0 with rfl | hne
    · rw [isDouble_zero.double_eq, sub_zero, abs_zero, zero_div, zero_add]
      exact hleast.le
    · have hlog : Int.log 2 |x| < -1022 := (Int.lt_zpow_iff_log_lt (by decide) (abs_pos.mpr hne)).mp hsmall
      have hulp : ulp 53 (-1022) x = 2 ^ (-1075 : ℤ) * 2 := by
        rw [ulp, max_eq_right hlog.le, ← zpow_add_one₀ (by norm_num)]
        rfl
      have herror : |double x - x| ≤ ulp 53 (-1022) x / 2 := abs_rounded_sub_le 53 (-1022) x
      have hrel : 0 ≤ |x| / 2 ^ 53 := by positivity
      linarith

theorem double_nonneg (hx : 0 ≤ x) : 0 ≤ double x := by
  have hpos := ulp_pos 53 (-1022) x
  have hfloor := (Int.floor_nonneg.mpr (div_nonneg hx hpos.le)).trans (floor_le_halfEven _)
  exact mul_nonneg (Int.cast_nonneg hfloor) hpos.le

theorem le_two_mul_double (hx : 0 ≤ x) : x ≤ 2 * double x + 1 := by
  have htiny : (2 : ℚ) ^ (-1075 : ℤ) ≤ 2 ^ (-1 : ℤ) := zpow_le_zpow_right₀ (by norm_num) (by norm_num)
  have hhalf : (2 : ℚ) ^ (-1 : ℤ) = 1 / 2 := by norm_num
  have hnonneg := double_nonneg hx
  have herror := (abs_double_sub_le x).trans (add_le_add_right (htiny.trans hhalf.le) _)
  rw [abs_of_nonneg hx, abs_sub_le_iff] at herror
  linarith

/-- A rounding that reaches one has a small relative error. -/
theorem double_bounds (hx : 0 ≤ x) (hone : 1 ≤ double x) :
    double x * (1 - 1 / 2 ^ 50) ≤ x ∧ x ≤ double x * (1 + 1 / 2 ^ 50) := by
  have htiny : (2 : ℚ) ^ (-1075 : ℤ) ≤ 2 ^ (-53 : ℤ) := zpow_le_zpow_right₀ (by norm_num) (by norm_num)
  have hleast : (2 : ℚ) ^ (-53 : ℤ) = 1 / 2 ^ 53 := by norm_num
  have herror := (abs_double_sub_le x).trans (add_le_add_right (htiny.trans hleast.le) _)
  rw [abs_of_nonneg hx, abs_sub_le_iff] at herror
  constructor
  · linarith
  · linarith

theorem nearest_fin (h : |double x| < 2 ^ 1024) : nearest (.fin x) = .fin (double x) := if_pos h

theorem nearest_eq_fin {a : Extended} (h : nearest a = .fin y) : ∃ x, a = .fin x ∧ y = double x ∧ |y| < 2 ^ 1024 := by
  cases a with
  | nan => cases h
  | inf s => cases h
  | fin x =>
      rw [nearest] at h
      split at h
      case isTrue hlt =>
        cases h
        exact ⟨x, rfl, rfl, hlt⟩
      case isFalse => cases h

/-! ### Texts -/

theorem isDigit_padded (k n : ℕ) : ∀ c ∈ padded k n, c.isDigit := by
  intro c hc
  rcases List.mem_append.mp hc with hc | hc
  · rw [List.eq_of_mem_replicate hc]
    rfl
  · exact isDigit_of_mem_decimal hc

theorem length_padded (hk : 0 < k) (hn : n < 10 ^ k) : (padded k n).length = k := by
  have hle : (decimal n).length ≤ k := (Nat.length_toDigits_le_iff (by decide) hk).mpr hn
  rw [padded, List.length_append, List.length_replicate, Nat.sub_add_cancel hle]

theorem ofDigitChars_padded (k n : ℕ) : Nat.ofDigitChars 10 (padded k n) 0 = n := by
  rw [padded, Nat.ofDigitChars_append, Nat.ofDigitChars_replicate_zero, Nat.mul_zero, ofDigitChars_decimal]

/-- The digits before and behind the point are those of one number. -/
theorem ofDigitChars_point (hk : 0 < k) (n : ℕ) :
    Nat.ofDigitChars 10 (decimal (n / 10 ^ k) ++ padded k (n % 10 ^ k)) 0 = n := by
  rw [Nat.ofDigitChars_append, ofDigitChars_decimal, Nat.ofDigitChars_eq_ofDigitChars_zero,
    length_padded hk (Nat.mod_lt _ (by positivity)), ofDigitChars_padded, Nat.div_add_mod]

theorem newline_fixed (k : ℕ) (x : ℚ) : '\n' ∉ fixed k x := by
  intro hmem
  rcases List.mem_append.mp hmem with hmem | hmem
  · exact absurd (isDigit_of_mem_decimal hmem) (by decide)
  · rcases List.mem_cons.mp hmem with hpoint | hmem
    · exact absurd hpoint (by decide)
    · exact absurd (isDigit_padded _ _ _ hmem) (by decide)

/-- A text with a point is converted to the nearest floating point number. -/
theorem strtod_point (hk : 0 < k) (n : ℕ) (hlt : double (n / 10 ^ k) < 2 ^ 1024) :
    strtod (decimal (n / 10 ^ k) ++ '.' :: padded k (n % 10 ^ k)) = some (double (n / 10 ^ k)) := by
  have hwhole : ∀ c ∈ decimal (n / 10 ^ k), c.isDigit := fun c hc => isDigit_of_mem_decimal hc
  have hpoint : ∀ c ∈ ('.' :: padded k (n % 10 ^ k)).head?, c.isDigit = false := by
    rintro c ⟨rfl⟩
    rfl
  have hend : ∀ c ∈ ([] : List Char).head?, c.isDigit = false := fun c hc => absurd hc (Option.not_mem_none c)
  have hsign := Extraction.sign_digits hwhole (decimal_ne_nil _) ('.' :: padded k (n % 10 ^ k))
  have hspace : Extraction.skipSpace (decimal (n / 10 ^ k) ++ '.' :: padded k (n % 10 ^ k)) =
      decimal (n / 10 ^ k) ++ '.' :: padded k (n % 10 ^ k) := by
    cases hdecimal : decimal (n / 10 ^ k) with
    | nil => exact absurd hdecimal (decimal_ne_nil _)
    | cons c digits => exact Extraction.skipSpace_of_isDigit (hwhole c (hdecimal ▸ List.mem_cons_self)) _
  rw [hspace] at hsign
  obtain ⟨htake, hdrop⟩ := Extraction.takeWhile_digits hwhole hpoint
  obtain ⟨htake', hdrop'⟩ := Extraction.takeWhile_digits (isDigit_padded k (n % 10 ^ k)) hend
  rw [List.append_nil] at htake' hdrop'
  have hlen := length_padded hk (Nat.mod_lt n (Nat.pow_pos (n := k) (by decide : 0 < 10)))
  have hvalue : ((n : ℕ) : ℚ) * 10 ^ ((0 : ℤ) - k) = n / 10 ^ k := by
    rw [zero_sub, zpow_neg, zpow_natCast, div_eq_mul_inv]
  simp only [strtod, hsign, htake, hdrop, htake', hdrop', decimal_ne_nil, false_and, if_false, exponent,
    Option.bind_some, ofDigitChars_point hk, hlen, hvalue, if_neg (not_le.mpr hlt)]
  rfl

end Floats
