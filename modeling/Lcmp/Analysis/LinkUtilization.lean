import Lcmp.Lib.Floats
import Mathlib.Algebra.Order.Floor.Ring
import Mathlib.Data.List.Dedup
import Mathlib.Data.List.Infix
import Mathlib.Data.List.Sort
import Mathlib.Data.List.TakeWhile
import Mathlib.Data.Rat.Floor
import Mathlib.Logic.Function.Basic
import Mathlib.Tactic.Linarith
import Mathlib.Tactic.NormNum

/-!
# The utilisation of links

`plot_link_utilization.py` reads the rates of the links from the topology file with a parser of its own, and
divides what a link carried in both directions by the time and the rate. The simulator parses the same rates in
`data-rate.cc`. Both parsers work with floating point numbers; the quotient is exact here.
-/

namespace Lcmp

/-! ### Numbers -/

def isNumeric (c : Char) : Bool := c.isDigit || c == '.'

def digitsValue (digits : List Char) : ℚ := (Nat.ofDigitChars 10 digits 0 : ℕ)

/-- A number given by the digits on both sides of its point. -/
def decimalValue (whole fraction : List Char) : ℚ := digitsValue whole + digitsValue fraction / 10 ^ fraction.length

/-- The largest floating point number, which extraction leaves for what is larger. -/
def maxDouble : ℚ := (2 ^ 53 - 1) * 2 ^ 971

/-- Extraction of a `double` from digits and points: up to a second point. Nothing is read from an empty string. -/
def readDouble (s : List Char) : Option ℚ :=
  match s.dropWhile Char.isDigit with
  | [] => if s = [] then none else some (min (Floats.double (decimalValue s [])) maxDouble)
  | _ :: rest =>
      some (min (Floats.double (decimalValue (s.takeWhile Char.isDigit) (rest.takeWhile Char.isDigit))) maxDouble)

/-- `float`, for a string of digits and points. -/
def float (s : List Char) : Option Extended :=
  match s.dropWhile Char.isDigit with
  | [] => if s = [] then none else some (Floats.nearest (.fin (decimalValue s [])))
  | point :: rest =>
      if point = '.' ∧ rest.all Char.isDigit ∧ ¬ (s.takeWhile Char.isDigit = [] ∧ rest = []) then
        some (Floats.nearest (.fin (decimalValue (s.takeWhile Char.isDigit) rest)))
      else none

/-- The product of a number and whole numbers, rounded after each of them. -/
def product (x : Extended) (factors : List ℕ) : Extended := factors.foldl (fun y n => Floats.nearest (y * .fin n)) x

/-! ### The parser of the simulator -/

namespace DataRate

/-- The trailers, and what a number in front of one is multiplied with. -/
def trailers : List (List Char × List ℕ) :=
  [("bps".toList, []), ("b/s".toList, []), ("Bps".toList, [8]), ("B/s".toList, [8]),
    ("kbps".toList, [1000]), ("kb/s".toList, [1000]), ("Kbps".toList, [1000]), ("Kb/s".toList, [1000]),
    ("kBps".toList, [8000]), ("kB/s".toList, [8000]), ("KBps".toList, [8000]), ("KB/s".toList, [8000]),
    ("Kib/s".toList, [1024]), ("KiB/s".toList, [8192]),
    ("Mbps".toList, [1000000]), ("Mb/s".toList, [1000000]), ("MBps".toList, [8000000]), ("MB/s".toList, [8000000]),
    ("Mib/s".toList, [1048576]), ("MiB/s".toList, [1048576, 8]),
    ("Gbps".toList, [1000000000]), ("Gb/s".toList, [1000000000]),
    ("GBps".toList, [8, 1000000000]), ("GB/s".toList, [8, 1000000000]),
    ("Gib/s".toList, [1048576, 1024]), ("GiB/s".toList, [1048576, 1024, 8])]

/-- The conversion to `uint64_t`, which is only defined for values that fit. -/
def toUint64 : Extended → Option UInt64
  | .fin r => if -1 < r ∧ r < 2 ^ 64 then some (UInt64.ofNat ⌊r⌋₊) else none
  | _ => none

/-- Without a trailer a whole number is extracted, which is 0 when there is none and stays at the largest one. -/
def doParse (s : List Char) : Option UInt64 :=
  let number := s.takeWhile isNumeric
  match s.dropWhile isNumeric with
  | [] =>
      if s = [] then none
      else some (UInt64.ofNat (min (Nat.ofDigitChars 10 (number.takeWhile Char.isDigit) 0) (2 ^ 64 - 1)))
  | trailer => do
      let factors ← trailers.lookup trailer
      let r ← readDouble number
      toUint64 (product (.fin r) factors)

end DataRate

/-! ### The parser of the plots -/

/-- The first match of the pattern is the first run of digits and points. -/
def parseBandwidth (bwStr : List Char) : Option Extended := do
  let bwStr := bwStr.map Char.toLower
  let val ← float ((bwStr.dropWhile fun c => !isNumeric c).takeWhile isNumeric)
  if "gbps".toList <:+: bwStr then return product val [1024, 1024, 1024]
  else if "mbps".toList <:+: bwStr then return product val [1024, 1024]
  else if "kbps".toList <:+: bwStr then return product val [1024]
  else return val

def linkPair (src dst : ℕ) : ℕ × ℕ := (min src dst, max src dst)

/-- The first three fields of a line of the topology file. -/
structure LinkLine where
  src : ℕ
  dst : ℕ
  bwStr : List Char

/-- A line whose rate cannot be parsed is skipped. -/
def loadLine (bandwidths : ℕ × ℕ → Option Extended) (line : LinkLine) : ℕ × ℕ → Option Extended :=
  match parseBandwidth line.bwStr with
  | some bw => Function.update bandwidths (linkPair line.src line.dst) (some bw)
  | none => bandwidths

def loadBandwidths (lines : List LinkLine) : ℕ × ℕ → Option Extended := lines.foldl loadLine fun _ => none

/-! ### The utilisation -/

/-- A resampled record, with the bytes that went from `src` to `dst` so far. The time is in nanoseconds. -/
structure LinkSample where
  timestamp : ℕ
  src : ℕ
  dst : ℕ
  cumBytes : ℕ

/-- The records of a link, grouped by time and summed up, in the order of time. -/
def aggregate (df : List LinkSample) (pair : ℕ × ℕ) : List (ℕ × ℕ) :=
  let group := df.filter fun row => linkPair row.src row.dst = pair
  ((group.map LinkSample.timestamp).dedup.insertionSort (· ≤ ·)).map fun t =>
    (t, ((group.filter fun row => row.timestamp = t).map LinkSample.cumBytes).sum)

/-- The utilisation between two consecutive sums of a link. -/
def utilization (bandwidthBps : Extended) (last next : ℕ × ℕ) : Extended :=
  let timeDiffNs : ℚ := next.1 - last.1
  let bytesDiff : ℚ := next.2 - last.2
  if .fin 0 < bandwidthBps then .fin (bytesDiff * 8) / (.fin (timeDiffNs * 1e-9) * bandwidthBps) else .fin 0

/-- The utilisations of a link, one for every two consecutive sums. -/
def utilizations (bandwidths : ℕ × ℕ → Option Extended) (df : List LinkSample) (pair : ℕ × ℕ) : List Extended :=
  List.zipWith (utilization ((bandwidths pair).getD (.fin 0))) (aggregate df pair) (aggregate df pair).tail

/-! ### The two parsers -/

/-- The units that both parsers know. -/
inductive RateUnit where
  | bps
  | kbps
  | mbps
  | gbps
  deriving DecidableEq

namespace RateUnit

def text : RateUnit → List Char
  | .bps => "bps".toList
  | .kbps => "Kbps".toList
  | .mbps => "Mbps".toList
  | .gbps => "Gbps".toList

/-- The bits per second of one, for the simulator. -/
def decimal : RateUnit → ℕ
  | .bps => 1
  | .kbps => 1000
  | .mbps => 1000000
  | .gbps => 1000000000

/-- How often the plots multiply with 1024. -/
def power : RateUnit → ℕ
  | .bps => 0
  | .kbps => 1
  | .mbps => 2
  | .gbps => 3

/-- The bits per second of one, for the plots. -/
def binary (unit : RateUnit) : ℕ := 1024 ^ unit.power

/-- What the simulator multiplies with. -/
def factors : RateUnit → List ℕ
  | .bps => []
  | .kbps => [1000]
  | .mbps => [1000000]
  | .gbps => [1000000000]

theorem lookup_text (unit : RateUnit) : DataRate.trailers.lookup unit.text = some unit.factors := by
  cases unit <;> rfl

theorem binary_pos (unit : RateUnit) : 0 < unit.binary := Nat.pow_pos (by decide)

theorem decimal_pos (unit : RateUnit) : 0 < unit.decimal := by
  cases unit <;> decide

theorem power_le (unit : RateUnit) : unit.power ≤ 3 := by
  cases unit <;> decide

theorem exists_text (unit : RateUnit) : ∃ c rest, unit.text = c :: rest ∧ isNumeric c = false := by
  cases unit <;> exact ⟨_, _, rfl, rfl⟩

end RateUnit

variable {number : List Char} {unit : RateUnit}

theorem digitsValue_nonneg (digits : List Char) : 0 ≤ digitsValue digits := Nat.cast_nonneg _

theorem decimalValue_nonneg (whole fraction : List Char) : 0 ≤ decimalValue whole fraction :=
  add_nonneg (digitsValue_nonneg whole) (div_nonneg (digitsValue_nonneg fraction) (by positivity))

/-- What `float` accepts is extracted whole. -/
theorem readDouble_of_float {s : List Char} {v : Extended} (h : float s = some v) :
    ∃ x, 0 ≤ x ∧ v = Floats.nearest (.fin x) ∧ readDouble s = some (min (Floats.double x) maxDouble) := by
  rw [float] at h
  rw [readDouble]
  cases hdrop : s.dropWhile Char.isDigit with
  | nil =>
      simp only [hdrop] at h ⊢
      by_cases hs : s = []
      · rw [if_pos hs] at h
        cases h
      · rw [if_neg hs] at h ⊢
        exact ⟨_, decimalValue_nonneg _ _, (Option.some.inj h).symm, rfl⟩
  | cons point rest =>
      simp only [hdrop] at h ⊢
      split at h
      case isTrue hpoint =>
        have hrest : rest.takeWhile Char.isDigit = rest := List.takeWhile_eq_self_iff.mpr (List.all_eq_true.mp hpoint.2.1)
        rw [hrest]
        exact ⟨_, decimalValue_nonneg _ _, (Option.some.inj h).symm, rfl⟩
      case isFalse => cases h

theorem takeWhile_number (unit : RateUnit) (hnumber : ∀ c ∈ number, isNumeric c) :
    (number ++ unit.text).takeWhile isNumeric = number ∧ (number ++ unit.text).dropWhile isNumeric = unit.text := by
  obtain ⟨c, rest, htext, hc⟩ := unit.exists_text
  rw [List.takeWhile_append_of_pos hnumber, List.dropWhile_append_of_pos hnumber, htext,
    List.takeWhile_cons_of_neg (by simp [hc]), List.dropWhile_cons_of_neg (by simp [hc]), List.append_nil]
  exact ⟨rfl, rfl⟩

theorem doParse_rate (hnumber : ∀ c ∈ number, isNumeric c) :
    DataRate.doParse (number ++ unit.text) =
      (readDouble number).bind fun r => DataRate.toUint64 (product (.fin r) unit.factors) := by
  obtain ⟨htake, hdrop⟩ := takeWhile_number unit hnumber
  obtain ⟨c, rest, htext, hc⟩ := unit.exists_text
  rw [DataRate.doParse, htake, hdrop]
  have hlookup := unit.lookup_text
  rw [htext] at hlookup ⊢
  simp only [hlookup, Option.bind_eq_bind, Option.bind_some]

theorem le_nine {c : Char} (hc : isNumeric c) : c.val ≤ '9'.val := by
  rw [isNumeric, Bool.or_eq_true, beq_iff_eq] at hc
  rcases hc with hdigit | rfl
  · rw [Char.isDigit, Bool.and_eq_true, decide_eq_true_eq, decide_eq_true_eq] at hdigit
    exact hdigit.2
  · decide

/-- Lower case leaves numbers alone. -/
theorem toLower_of_isNumeric {c : Char} (hc : isNumeric c) : c.toLower = c := by
  refine dif_neg ?_
  rintro ⟨hupper, -⟩
  exact absurd (UInt32.le_trans hupper (le_nine hc)) (by decide)

theorem map_toLower_number (hnumber : ∀ c ∈ number, isNumeric c) : number.map Char.toLower = number := by
  conv_rhs => rw [← List.map_id number]
  exact List.map_congr_left fun c hc => toLower_of_isNumeric (hnumber c hc)

/-- A unit that starts with a letter of its own is found in no other rate. -/
theorem not_infix_of_not_mem (hnumber : ∀ c ∈ number, isNumeric c) {letter : Char} {rest text : List Char}
    (hletter : isNumeric letter = false) (htext : letter ∉ text) : ¬ letter :: rest <:+: number ++ text := by
  intro hfound
  rcases List.mem_append.mp (hfound.subset List.mem_cons_self) with hmem | hmem
  · have hnumeric := hnumber letter hmem
    rw [hletter] at hnumeric
    cases hnumeric
  · exact htext hmem

/-- The first run of digits and points is the number in front. -/
theorem firstRun_number (hnumber : ∀ c ∈ number, isNumeric c) {text : List Char}
    (htext : ∀ c ∈ text, isNumeric c = false) :
    ((number ++ text).dropWhile fun c => !isNumeric c).takeWhile isNumeric = number := by
  have hrest : text.takeWhile isNumeric = [] := by
    cases text with
    | nil => rfl
    | cons c rest => exact List.takeWhile_cons_of_neg (by rw [htext c List.mem_cons_self]; decide)
  cases number with
  | nil =>
      have hdrop : text.dropWhile (fun c => !isNumeric c) = [] :=
        List.dropWhile_eq_nil_iff.mpr fun c hc => by rw [htext c hc]; rfl
      rw [List.nil_append, hdrop]
      rfl
  | cons c rest =>
      have hc := hnumber c List.mem_cons_self
      rw [List.cons_append, List.dropWhile_cons_of_neg (by simp [hc]), ← List.cons_append,
        List.takeWhile_append_of_pos hnumber, hrest, List.append_nil]

theorem parseBandwidth_rate (hnumber : ∀ c ∈ number, isNumeric c) :
    parseBandwidth (number ++ unit.text) = (float number).map fun v => product v (List.replicate unit.power 1024) := by
  have hlower : (number ++ unit.text).map Char.toLower = number ++ unit.text.map Char.toLower := by
    rw [List.map_append, map_toLower_number hnumber]
  have hletters : ∀ c ∈ unit.text.map Char.toLower, isNumeric c = false := by
    have hall : (unit.text.map Char.toLower).all (fun c => !isNumeric c) = true := by cases unit <;> rfl
    exact fun c hc => Bool.not_eq_true' _ ▸ List.all_eq_true.mp hall c hc
  rw [parseBandwidth]
  simp only [hlower, firstRun_number hnumber hletters, Option.bind_eq_bind]
  cases hfloat : float number with
  | none => rfl
  | some val =>
      simp only [Option.bind_some, Option.map_some]
      have hgbps : 'g' ∉ unit.text.map Char.toLower → ¬ "gbps".toList <:+: number ++ unit.text.map Char.toLower :=
        not_infix_of_not_mem hnumber (by decide)
      have hmbps : 'm' ∉ unit.text.map Char.toLower → ¬ "mbps".toList <:+: number ++ unit.text.map Char.toLower :=
        not_infix_of_not_mem hnumber (by decide)
      have hkbps : 'k' ∉ unit.text.map Char.toLower → ¬ "kbps".toList <:+: number ++ unit.text.map Char.toLower :=
        not_infix_of_not_mem hnumber (by decide)
      cases unit with
      | bps =>
          rw [if_neg (hgbps (by decide)), if_neg (hmbps (by decide)), if_neg (hkbps (by decide))]
          rfl
      | kbps =>
          have hhere : "kbps".toList <:+: number ++ RateUnit.kbps.text.map Char.toLower := List.infix_append_right
          rw [if_neg (hgbps (by decide)), if_neg (hmbps (by decide)), if_pos hhere]
          rfl
      | mbps =>
          have hhere : "mbps".toList <:+: number ++ RateUnit.mbps.text.map Char.toLower := List.infix_append_right
          rw [if_neg (hgbps (by decide)), if_pos hhere]
          rfl
      | gbps =>
          have hhere : "gbps".toList <:+: number ++ RateUnit.gbps.text.map Char.toLower := List.infix_append_right
          rw [if_pos hhere]
          rfl

theorem toNat_toUint64 {a : Extended} {v : UInt64} (h : DataRate.toUint64 a = some v) :
    ∃ r, a = .fin r ∧ r < 2 ^ 64 ∧ v.toNat = ⌊r⌋₊ := by
  cases a with
  | nan => cases h
  | inf s => cases h
  | fin r =>
      rw [DataRate.toUint64] at h
      split at h
      case isTrue hfits =>
        have hfloor : ⌊r⌋₊ < 2 ^ 64 := by
          rcases le_or_gt 0 r with hpos | hneg
          · exact (Nat.floor_lt hpos).mpr (by exact_mod_cast hfits.2)
          · rw [Nat.floor_of_nonpos hneg.le]
            decide
        refine ⟨r, rfl, hfits.2, ?_⟩
        rw [← Option.some.inj h, UInt64.toNat_ofNat', Nat.mod_eq_of_lt hfloor]
      case isFalse => cases h

theorem isDouble_maxDouble : Floats.IsDouble maxDouble := by
  have hexp : (2 : ℚ) ^ (971 : ℤ) = 2 ^ 971 := zpow_natCast 2 971
  refine ⟨2 ^ 53 - 1, 971, by decide, by decide, ?_⟩
  rw [hexp, maxDouble]
  congr 1
  norm_num

theorem lt_maxDouble {r : ℚ} (hr : r < 2 ^ 66) : r < maxDouble := by
  have hle : (2 : ℚ) ^ 66 ≤ 2 ^ 971 := pow_le_pow_right₀ (by norm_num) (by norm_num)
  have hmax : (2 : ℚ) ^ 971 ≤ maxDouble := le_mul_of_one_le_left (by positivity) (by norm_num)
  exact hr.trans_le (hle.trans hmax)

/-- Products with 1024 are exact. -/
theorem product_replicate {r : ℚ} (hr : Floats.IsDouble r) (k : ℕ) (hsmall : |r| * 1024 ^ k < 2 ^ 1024) :
    product (.fin r) (List.replicate k 1024) = .fin (r * 1024 ^ k) := by
  induction k generalizing r with
  | zero => rw [pow_zero, mul_one]; rfl
  | succ k ih =>
      have hten : (1024 : ℚ) = 2 ^ 10 := by norm_num
      have hnext : Floats.IsDouble (r * 1024) := hten ▸ hr.mul_two_pow 10
      have habs : |r * 1024| * 1024 ^ k = |r| * 1024 ^ (k + 1) := by
        rw [abs_mul, abs_of_pos (by norm_num : (0 : ℚ) < 1024)]
        ring
      have hlt : |Floats.double (r * 1024)| < 2 ^ 1024 := by
        rw [hnext.double_eq]
        refine lt_of_le_of_lt (le_mul_of_one_le_right (abs_nonneg _) (one_le_pow₀ (by norm_num))) (habs ▸ hsmall)
      have hstep : Floats.nearest (.fin r * .fin (1024 : ℕ)) = .fin (r * 1024) := by
        rw [Extended.fin_mul_fin, Nat.cast_ofNat, Floats.nearest_fin hlt, hnext.double_eq]
      rw [List.replicate_succ, product, List.foldl_cons, hstep]
      rw [← habs] at hsmall
      rw [← product, ih hnext hsmall]
      congr 1
      ring

/-- The simulator multiplies at most once. -/
theorem product_factors {r : ℚ} (hr : Floats.IsDouble r) {d : ℚ} (h : product (.fin r) unit.factors = .fin d) :
    d = Floats.double (r * unit.decimal) := by
  have honce : ∀ n : ℕ, product (.fin r) [n] = .fin d → d = Floats.double (r * n) := by
    intro n hproduct
    have hnearest : Floats.nearest (.fin (r * n)) = .fin d := hproduct
    obtain ⟨x, hx, hd, -⟩ := Floats.nearest_eq_fin hnearest
    rw [hd, Extended.fin.inj hx]
  cases unit with
  | bps =>
      rw [← Extended.fin.inj h, RateUnit.decimal, Nat.cast_one, mul_one, hr.double_eq]
  | kbps => exact honce _ h
  | mbps => exact honce _ h
  | gbps => exact honce _ h

section ReadNumber

variable {x r : ℚ}

theorem isDouble_read (x : ℚ) : Floats.IsDouble (min (Floats.double x) maxDouble) := by
  rcases min_choice (Floats.double x) maxDouble with hmin | hmin
  · rw [hmin]
    exact Floats.isDouble_double x
  · rw [hmin]
    exact isDouble_maxDouble

theorem read_nonneg (hx : 0 ≤ x) : 0 ≤ min (Floats.double x) maxDouble :=
  le_min (Floats.double_nonneg hx) (lt_maxDouble (by norm_num)).le

/-- A small number is what Python reads too. -/
theorem read_eq (hsmall : min (Floats.double x) maxDouble < 2 ^ 66) : min (Floats.double x) maxDouble = Floats.double x := by
  rcases min_choice (Floats.double x) maxDouble with hmin | hmin
  · exact hmin
  · rw [hmin] at hsmall
    exact absurd (lt_maxDouble hsmall) (lt_irrefl _)

/-- The number is small if its product fits 64 bits. -/
theorem lt_of_product (hr : 0 ≤ r) (hfits : Floats.double (r * unit.decimal) < 2 ^ 64) : r < 2 ^ 66 := by
  have hle : r ≤ r * unit.decimal := le_mul_of_one_le_right hr (Nat.one_le_cast.mpr unit.decimal_pos)
  have hbound := Floats.le_two_mul_double (mul_nonneg hr (Nat.cast_nonneg unit.decimal))
  linarith

theorem binary_lt (unit : RateUnit) (hr : 0 ≤ r) (hsmall : r < 2 ^ 66) : |r| * 1024 ^ unit.power < 2 ^ 1024 := by
  have hpower : (1024 : ℚ) ^ unit.power ≤ 1024 ^ 3 := pow_le_pow_right₀ (by norm_num) unit.power_le
  have hlarge : (2 : ℚ) ^ 96 ≤ 2 ^ 1024 := pow_le_pow_right₀ (by norm_num) (by norm_num)
  rw [abs_of_nonneg hr]
  calc r * 1024 ^ unit.power ≤ r * 1024 ^ 3 := mul_le_mul_of_nonneg_left hpower hr
    _ < 2 ^ 66 * 1024 ^ 3 := mul_lt_mul_of_pos_right hsmall (by norm_num)
    _ = 2 ^ 96 := by norm_num
    _ ≤ 2 ^ 1024 := hlarge

end ReadNumber

/-- What the two parsers make of a rate they both accept. -/
theorem accepted_rate (hnumber : ∀ c ∈ number, isNumeric c) {rate : UInt64} {bw : Extended}
    (hsim : DataRate.doParse (number ++ unit.text) = some rate)
    (hplot : parseBandwidth (number ++ unit.text) = some bw) :
    ∃ r, float number = some (.fin r) ∧ 0 ≤ r ∧ Floats.IsDouble r ∧ bw = .fin (r * unit.binary) ∧
      rate.toNat = ⌊Floats.double (r * unit.decimal)⌋₊ := by
  rw [parseBandwidth_rate hnumber] at hplot
  obtain ⟨v, hv, hbw⟩ := Option.map_eq_some_iff.mp hplot
  obtain ⟨x, hx, rfl, hread⟩ := readDouble_of_float hv
  rw [doParse_rate hnumber, hread, Option.bind_some] at hsim
  obtain ⟨d, hd, hlt, hrate⟩ := toNat_toUint64 hsim
  have hproduct := product_factors (isDouble_read x) hd
  have hsmall := lt_of_product (read_nonneg hx) (hproduct ▸ hlt)
  have hdouble := Floats.isDouble_double x
  have hnonneg := Floats.double_nonneg hx
  rw [read_eq hsmall] at hproduct hsmall
  have hfits := binary_lt unit hnonneg hsmall
  have hfinite : |Floats.double x| < 2 ^ 1024 :=
    lt_of_le_of_lt (le_mul_of_one_le_right (abs_nonneg _) (one_le_pow₀ (by norm_num))) hfits
  rw [Floats.nearest_fin hfinite] at hv hbw
  refine ⟨Floats.double x, hv, hnonneg, hdouble, ?_, hproduct ▸ hrate⟩
  rw [← hbw, product_replicate hdouble _ hfits, RateUnit.binary, Nat.cast_pow, Nat.cast_ofNat]

-- the product with 1000 is rounded to less than 1001
example : DataRate.doParse "1.001Kbps".toList = some 1000 := by decide +kernel

-- the nearest number does not fit
example : DataRate.doParse "18446744073709551615bps".toList = none := by decide +kernel

namespace RateUnit

variable {r : ℚ}

/-- The units of 1024 exceed those of 1000, by no more than a tenth. -/
theorem binary_bounds (hunit : unit ≠ .bps) :
    1024 * unit.decimal ≤ 1000 * unit.binary ∧ 10 * unit.binary ≤ 11 * unit.decimal := by
  cases unit with
  | bps => exact absurd rfl hunit
  | kbps => decide
  | mbps => decide
  | gbps => decide

/-- The rounded product of the simulator stays below the product of the plots, which is not much larger. -/
theorem double_bounds (hunit : unit ≠ .bps) (hr : 0 ≤ r) (hone : 1 ≤ Floats.double (r * unit.decimal)) :
    Floats.double (r * unit.decimal) < r * unit.binary ∧
      5 * (r * unit.binary) ≤ 6 * Floats.double (r * unit.decimal) := by
  obtain ⟨hlower, hupper⟩ := binary_bounds hunit
  have hlower' : (1024 : ℚ) * unit.decimal ≤ 1000 * unit.binary := by exact_mod_cast hlower
  have hupper' : (10 : ℚ) * unit.binary ≤ 11 * unit.decimal := by exact_mod_cast hupper
  have hmore := mul_le_mul_of_nonneg_left hlower' hr
  have hless := mul_le_mul_of_nonneg_left hupper' hr
  obtain ⟨hlo, hhi⟩ := Floats.double_bounds (mul_nonneg hr (Nat.cast_nonneg unit.decimal)) hone
  constructor
  · linarith
  · linarith

theorem binary_bps (r : ℚ) : r * RateUnit.bps.binary = r := by
  rw [binary, power, pow_zero, Nat.cast_one, mul_one]

theorem decimal_bps (hr : Floats.IsDouble r) : Floats.double (r * RateUnit.bps.decimal) = r := by
  rw [decimal, Nat.cast_one, mul_one, hr.double_eq]

theorem binary_eq_floor_iff (hr : 0 ≤ r) (hdouble : Floats.IsDouble r) :
    r * unit.binary = ⌊Floats.double (r * unit.decimal)⌋₊ ↔ r = 0 ∨ unit = .bps ∧ ∃ n : ℕ, r = n := by
  by_cases hunit : unit = .bps
  · subst hunit
    rw [binary_bps, decimal_bps hdouble]
    constructor
    · exact fun h => .inr ⟨rfl, _, h⟩
    · rintro (rfl | ⟨-, n, rfl⟩)
      · rw [Nat.floor_zero, Nat.cast_zero]
      · rw [Nat.floor_natCast]
  · have hfloor := Nat.floor_le (Floats.double_nonneg (mul_nonneg hr (Nat.cast_nonneg unit.decimal)))
    constructor
    · intro h
      left
      rcases Nat.eq_zero_or_pos ⌊Floats.double (r * unit.decimal)⌋₊ with hzero | hpos
      · rw [hzero, Nat.cast_zero] at h
        exact (mul_eq_zero.mp h).resolve_right (Nat.cast_ne_zero.mpr unit.binary_pos.ne')
      · have hbounds := double_bounds hunit hr (Nat.floor_pos.mp hpos)
        linarith
    · rintro (rfl | ⟨hbps, -⟩)
      · rw [zero_mul, zero_mul, Floats.isDouble_zero.double_eq, Nat.floor_zero, Nat.cast_zero]
      · exact absurd hbps hunit

/-- The only rate that is twice the one of the simulator has two bits in units of 1024, and one in the others. -/
theorem binary_eq_two_mul_floor_iff (hr : 0 ≤ r) (hdouble : Floats.IsDouble r)
    (hpos : 0 < ⌊Floats.double (r * unit.decimal)⌋₊) :
    r * unit.binary = 2 * ⌊Floats.double (r * unit.decimal)⌋₊ ↔ unit ≠ .bps ∧ r * unit.binary = 2 := by
  have hlt := Nat.lt_floor_add_one (Floats.double (r * unit.decimal))
  have hone : (1 : ℚ) ≤ ⌊Floats.double (r * unit.decimal)⌋₊ := by exact_mod_cast hpos
  by_cases hunit : unit = .bps
  · subst hunit
    rw [decimal_bps hdouble] at hlt hone ⊢
    rw [binary_bps]
    constructor
    · intro h
      linarith
    · exact fun h => absurd rfl h.1
  · have hbounds := double_bounds hunit hr (Nat.floor_pos.mp hpos)
    rw [and_iff_right hunit]
    have hfloor : Floats.double (r * unit.decimal) < 2 → ⌊Floats.double (r * unit.decimal)⌋₊ = 1 := by
      intro hless
      apply (Nat.floor_eq_iff (zero_le_one.trans (Nat.floor_pos.mp hpos))).mpr
      push_cast
      exact ⟨Nat.floor_pos.mp hpos, by linarith⟩
    constructor
    · intro h
      have hless : (⌊Floats.double (r * unit.decimal)⌋₊ : ℚ) < 2 := by linarith
      have htwo : ⌊Floats.double (r * unit.decimal)⌋₊ < 2 := by exact_mod_cast hless
      have hexact : ⌊Floats.double (r * unit.decimal)⌋₊ = 1 := by omega
      rw [h, hexact, Nat.cast_one, mul_one]
    · intro h
      rw [h, hfloor (h ▸ hbounds.1), Nat.cast_one, mul_one]

end RateUnit

/-! ### What a link carries -/

/-- The bytes of one direction, up to a time. -/
def cumBytes (df : List LinkSample) (src dst timestamp : ℕ) : ℕ :=
  ((df.filter fun row => row.src = src ∧ row.dst = dst ∧ row.timestamp = timestamp).map LinkSample.cumBytes).sum

/-- The bits of one direction between two times. -/
def carried (df : List LinkSample) (src dst : ℕ) (last next : ℕ × ℕ) : ℚ :=
  8 * ((cumBytes df src dst next.1 : ℚ) - cumBytes df src dst last.1)

/-- The time between two sums, in seconds. -/
def interval (last next : ℕ × ℕ) : ℚ := (next.1 - last.1) * 1e-9

theorem linkPair_eq_iff {a b src dst : ℕ} :
    linkPair src dst = linkPair a b ↔ (src = a ∧ dst = b) ∨ (src = b ∧ dst = a) := by
  simp only [linkPair, Prod.mk.injEq]
  omega

/-- A sum over two kinds of records that exclude each other. -/
theorem sum_filter_or (p q s : LinkSample → Prop) [DecidablePred p] [DecidablePred q] [DecidablePred s]
    (hs : ∀ row, s row ↔ p row ∨ q row) (hexcl : ∀ row, p row → ¬ q row) (df : List LinkSample) :
    ((df.filter s).map LinkSample.cumBytes).sum =
      ((df.filter p).map LinkSample.cumBytes).sum + ((df.filter q).map LinkSample.cumBytes).sum := by
  induction df with
  | nil => rfl
  | cons row df ih =>
      by_cases hp : p row
      · have hq := hexcl row hp
        rw [List.filter_cons_of_pos (by simp [hs, hp]), List.filter_cons_of_pos (by simp [hp]),
          List.filter_cons_of_neg (by simp [hq]), List.map_cons, List.map_cons, List.sum_cons, List.sum_cons, ih,
          Nat.add_assoc]
      · by_cases hq : q row
        · rw [List.filter_cons_of_pos (by simp [hs, hq]), List.filter_cons_of_neg (by simp [hp]),
            List.filter_cons_of_pos (by simp [hq]), List.map_cons, List.map_cons, List.sum_cons, List.sum_cons, ih,
            Nat.add_left_comm]
        · rw [List.filter_cons_of_neg (by simp [hs, hp, hq]), List.filter_cons_of_neg (by simp [hp]),
            List.filter_cons_of_neg (by simp [hq]), ih]

/-- A sum of a link takes the records of both directions. -/
theorem sum_group {a b : ℕ} (hne : a ≠ b) (df : List LinkSample) (t : ℕ) :
    (((df.filter fun row => linkPair row.src row.dst = linkPair a b).filter fun row =>
      row.timestamp = t).map LinkSample.cumBytes).sum = cumBytes df a b t + cumBytes df b a t := by
  rw [List.filter_filter, cumBytes, cumBytes]
  simp only [← Bool.decide_and]
  refine sum_filter_or _ _ _ (fun row => ?_) (fun row h h' => hne (h.1.symm.trans h'.1)) df
  rw [linkPair_eq_iff]
  tauto

/-- Every entry of the sums of a link holds what went in both directions, and later entries are later. -/
theorem aggregate_spec {a b : ℕ} (hne : a ≠ b) (df : List LinkSample) :
    (∀ sample ∈ aggregate df (linkPair a b), sample.2 = cumBytes df a b sample.1 + cumBytes df b a sample.1) ∧
      (aggregate df (linkPair a b)).Pairwise fun last next => last.1 < next.1 := by
  simp only [aggregate]
  generalize htimes : ((df.filter fun row => linkPair row.src row.dst = linkPair a b).map
    LinkSample.timestamp).dedup.insertionSort (· ≤ ·) = times
  constructor
  · intro sample hsample
    obtain ⟨t, -, rfl⟩ := List.mem_map.mp hsample
    exact sum_group hne df t
  · have hsorted : times.Pairwise fun t t' => t ≤ t' := by
      rw [← htimes]
      exact List.pairwise_insertionSort _ _
    have hnodup : times.Nodup := by
      rw [← htimes]
      exact (List.perm_insertionSort _ _).nodup_iff.mpr (List.nodup_dedup _)
    rw [List.pairwise_map]
    exact (hsorted.and hnodup).imp fun h => lt_of_le_of_ne h.1 h.2

/-- The difference of two sums of a link is what both directions carried between them. -/
theorem utilization_eq {a b : ℕ} (hne : a ≠ b) (df : List LinkSample) {last next : ℕ × ℕ} {bw : ℚ} (hbw : 0 ≤ bw)
    (hlast : last ∈ aggregate df (linkPair a b)) (hnext : next ∈ aggregate df (linkPair a b))
    (htime : 0 < interval last next) :
    utilization (.fin bw) last next =
      .fin ((carried df a b last next + carried df b a last next) / (interval last next * bw)) := by
  have hsums := (aggregate_spec hne df).1
  have hbits : ((next.2 : ℚ) - last.2) * 8 = carried df a b last next + carried df b a last next := by
    rw [hsums last hlast, hsums next hnext, carried, carried]
    push_cast
    ring
  simp only [utilization, hbits, Extended.fin_lt_fin, Extended.fin_mul_fin]
  rcases hbw.eq_or_lt with rfl | hpos
  · rw [if_neg (lt_irrefl _), mul_zero, div_zero]
  · rw [if_pos hpos]
    exact Extended.fin_div_fin (mul_pos htime hpos).ne'

theorem loadLine_of_ne {line : LinkLine} {pair : ℕ × ℕ} (hne : linkPair line.src line.dst ≠ pair)
    (bandwidths : ℕ × ℕ → Option Extended) : loadLine bandwidths line pair = bandwidths pair := by
  rw [loadLine]
  cases parseBandwidth line.bwStr with
  | none => rfl
  | some bw => exact Function.update_of_ne hne.symm _ _

theorem foldl_loadLine_of_ne {lines : List LinkLine} {pair : ℕ × ℕ}
    (hne : ∀ line ∈ lines, linkPair line.src line.dst ≠ pair) (bandwidths : ℕ × ℕ → Option Extended) :
    lines.foldl loadLine bandwidths pair = bandwidths pair := by
  induction lines generalizing bandwidths with
  | nil => rfl
  | cons line lines ih =>
      rw [List.foldl_cons, ih fun other hmem => hne other (List.mem_cons_of_mem _ hmem),
        loadLine_of_ne (hne line List.mem_cons_self)]

/-- A link has the rate of its last line. -/
theorem loadBandwidths_apply (before after : List LinkLine) (line : LinkLine) {bw : Extended}
    (hbw : parseBandwidth line.bwStr = some bw)
    (hafter : ∀ other ∈ after, linkPair other.src other.dst ≠ linkPair line.src line.dst) :
    loadBandwidths (before ++ line :: after) (linkPair line.src line.dst) = some bw := by
  rw [loadBandwidths, List.foldl_append, List.foldl_cons, foldl_loadLine_of_ne hafter]
  simp only [loadLine, hbw]
  exact Function.update_self _ _ _

/-- Two consecutive samples of a link during which neither direction carried more than its rate. -/
structure WithinRate (df : List LinkSample) (src dst : ℕ) (rate : ℚ) (last next : ℕ × ℕ) : Prop where
  forwardNonneg : 0 ≤ carried df src dst last next
  forwardLe : carried df src dst last next ≤ rate * interval last next
  backNonneg : 0 ≤ carried df dst src last next
  backLe : carried df dst src last next ≤ rate * interval last next

theorem consecutive {a b : ℕ} (hne : a ≠ b) {df : List LinkSample} {k : ℕ} {last next : ℕ × ℕ}
    (hlast : (aggregate df (linkPair a b))[k]? = some last)
    (hnext : (aggregate df (linkPair a b))[k + 1]? = some next) :
    last ∈ aggregate df (linkPair a b) ∧ next ∈ aggregate df (linkPair a b) ∧ 0 < interval last next := by
  obtain ⟨hk, rfl⟩ := List.getElem?_eq_some_iff.mp hlast
  obtain ⟨hk', rfl⟩ := List.getElem?_eq_some_iff.mp hnext
  refine ⟨List.getElem_mem hk, List.getElem_mem hk', ?_⟩
  have hlater := List.pairwise_iff_getElem.mp (aggregate_spec hne df).2 k (k + 1) hk hk' (Nat.lt_succ_self k)
  have hcast := Nat.cast_lt (α := ℚ) |>.mpr hlater
  rw [interval]
  exact mul_pos (sub_pos.mpr hcast) (by norm_num)

/-- The rate the plots divide by is right where there is nothing to divide, or where it is twice the rate of one
direction. -/
theorem shares_iff {bits time r bw : ℚ} {rate : ℕ} (htime : 0 < time) (hbits : 0 ≤ bits)
    (hle : bits ≤ time * (2 * rate)) (hr : 0 ≤ r) (hdouble : Floats.IsDouble r) (hbw : bw = r * unit.binary)
    (hrate : rate = ⌊Floats.double (r * unit.decimal)⌋₊) :
    bits / (time * bw) = bits / (time * (2 * rate)) ∧ 0 ≤ bits / (time * bw) ∧ bits / (time * bw) ≤ 1 ↔
      bits = 0 ∨ unit ≠ .bps ∧ r * unit.binary = 2 := by
  rcases hbits.eq_or_lt with rfl | hpos
  · simp
  · have hratePos : 0 < (rate : ℚ) := by
      by_contra hzero
      have hnone : time * (2 * (rate : ℚ)) ≤ 0 := mul_nonpos_of_nonneg_of_nonpos htime.le (by linarith)
      linarith
    have htwice := RateUnit.binary_eq_two_mul_floor_iff hr hdouble (hrate ▸ Nat.cast_pos.mp hratePos)
    rw [← hrate, ← hbw] at htwice
    rw [or_iff_right hpos.ne', ← hbw, ← htwice]
    constructor
    · rintro ⟨heq, -⟩
      rw [div_eq_mul_inv, div_eq_mul_inv] at heq
      exact mul_left_cancel₀ htime.ne' (inv_injective (mul_left_cancel₀ hpos.ne' heq))
    · intro h
      rw [h]
      have hprod : 0 < time * (2 * (rate : ℚ)) := by positivity
      exact ⟨rfl, by positivity, (div_le_one hprod).mpr hle⟩

/-- The plots take the rate of a line as the simulator does exactly where the number that both read is zero, or a
whole number of bits per second. Between consecutive samples they compute the share of what both directions could have
carried exactly where nothing was carried, or where the line says two bits per second in a unit of 1024, which is one
bit per second for the simulator. -/
theorem plots_agree_iff {before after : List LinkLine} {line : LinkLine} (hends : line.src ≠ line.dst)
    (hafter : ∀ other ∈ after, linkPair other.src other.dst ≠ linkPair line.src line.dst)
    (hnumber : ∀ c ∈ number, isNumeric c) (hline : line.bwStr = number ++ unit.text) {rate : UInt64} {bw : Extended}
    (hsim : DataRate.doParse line.bwStr = some rate) (hplot : parseBandwidth line.bwStr = some bw) :
    ∃ r, float number = some (.fin r) ∧ (bw = .fin rate.toNat ↔ r = 0 ∨ unit = .bps ∧ ∃ n : ℕ, r = n) ∧
      ∀ df k last next, (aggregate df (linkPair line.src line.dst))[k]? = some last →
        (aggregate df (linkPair line.src line.dst))[k + 1]? = some next →
        WithinRate df line.src line.dst rate.toNat last next →
        ((∃ u, (utilizations (loadBandwidths (before ++ line :: after)) df
              (linkPair line.src line.dst))[k]? = some (.fin u) ∧
            u = (carried df line.src line.dst last next + carried df line.dst line.src last next) /
              (interval last next * (2 * rate.toNat)) ∧ 0 ≤ u ∧ u ≤ 1) ↔
          carried df line.src line.dst last next + carried df line.dst line.src last next = 0 ∨
            unit ≠ .bps ∧ r * unit.binary = 2) := by
  have hbandwidth := loadBandwidths_apply before after line hplot hafter
  rw [hline] at hsim hplot
  obtain ⟨r, hr, hpos, hdouble, rfl, hrate⟩ := accepted_rate hnumber hsim hplot
  refine ⟨r, hr, ?_, fun df k last next hlast hnext hwithin => ?_⟩
  · rw [hrate, Extended.fin.injEq]
    exact RateUnit.binary_eq_floor_iff hpos hdouble
  · obtain ⟨hlastMem, hnextMem, htime⟩ := consecutive hends hlast hnext
    have hbwPos : 0 ≤ r * unit.binary := mul_nonneg hpos (Nat.cast_nonneg _)
    have hreported : (utilizations (loadBandwidths (before ++ line :: after)) df (linkPair line.src line.dst))[k]? =
        some (.fin ((carried df line.src line.dst last next + carried df line.dst line.src last next) /
          (interval last next * (r * unit.binary)))) := by
      rw [utilizations, hbandwidth, Option.getD_some, List.getElem?_zipWith, hlast, List.getElem?_tail, hnext]
      exact congrArg some (utilization_eq hends df hbwPos hlastMem hnextMem htime)
    rw [hreported]
    have htotal : 0 ≤ carried df line.src line.dst last next + carried df line.dst line.src last next :=
      add_nonneg hwithin.forwardNonneg hwithin.backNonneg
    have hbound := add_le_add hwithin.forwardLe hwithin.backLe
    generalize carried df line.src line.dst last next + carried df line.dst line.src last next = bits at htotal hbound ⊢
    rw [← shares_iff htime htotal (by linarith) hpos hdouble rfl hrate]
    constructor
    · rintro ⟨u, hu, h⟩
      rw [Extended.fin.inj (Option.some.inj hu)]
      exact h
    · exact fun h => ⟨_, rfl, h⟩

/-! ### A full link of 200 Gbps -/

def fullLine : LinkLine where
  src := 176
  dst := 177
  bwStr := "200Gbps".toList

/-- Ten milliseconds at the full rate in both directions. -/
def fullSamples : List LinkSample :=
  [⟨2000000000, 176, 177, 0⟩, ⟨2010000000, 176, 177, 250000000⟩, ⟨2000000000, 177, 176, 0⟩,
    ⟨2010000000, 177, 176, 250000000⟩]

/-- The rate is 7% too large and the utilisation 186%. -/
theorem not_plots_agree_fullLine :
    DataRate.doParse fullLine.bwStr = some 200000000000 ∧ parseBandwidth fullLine.bwStr = some (.fin 214748364800) ∧
      WithinRate fullSamples 176 177 200000000000 (2000000000, 0) (2010000000, 500000000) ∧
      utilizations (loadBandwidths [fullLine]) fullSamples (176, 177) = [.fin (1953125 / 1048576)] ∧
      ¬ (1953125 / 1048576 : ℚ) ≤ 1 := by
  refine ⟨by decide +kernel, by decide +kernel, ⟨?_, ?_, ?_, ?_⟩, by decide +kernel, by norm_num⟩
  · decide +kernel
  · decide +kernel
  · decide +kernel
  · decide +kernel

theorem plots_agree_iff_fullLine :
    ∃ r, float "200".toList = some (.fin r) ∧ (Extended.fin 214748364800 = .fin (200000000000 : UInt64).toNat ↔ r = 0 ∨
        RateUnit.gbps = .bps ∧ ∃ n : ℕ, r = n) ∧
      ((∃ u, (utilizations (loadBandwidths ([] ++ fullLine :: [])) fullSamples (176, 177))[0]? = some (.fin u) ∧
          u = (carried fullSamples 176 177 (2000000000, 0) (2010000000, 500000000) +
              carried fullSamples 177 176 (2000000000, 0) (2010000000, 500000000)) /
            (interval (2000000000, 0) (2010000000, 500000000) * (2 * (200000000000 : UInt64).toNat)) ∧
          0 ≤ u ∧ u ≤ 1) ↔
        carried fullSamples 176 177 (2000000000, 0) (2010000000, 500000000) +
            carried fullSamples 177 176 (2000000000, 0) (2010000000, 500000000) = 0 ∨
          RateUnit.gbps ≠ .bps ∧ r * RateUnit.gbps.binary = 2) := by
  have hafter : ∀ other ∈ ([] : List LinkLine), linkPair other.src other.dst ≠ linkPair fullLine.src fullLine.dst := by
    simp
  have hnumber : ∀ c ∈ "200".toList, isNumeric c := List.all_eq_true.mp rfl
  have hline : fullLine.bwStr = "200".toList ++ RateUnit.gbps.text := rfl
  have hsim : DataRate.doParse fullLine.bwStr = some 200000000000 := by decide +kernel
  have hplot : parseBandwidth fullLine.bwStr = some (.fin 214748364800) := by decide +kernel
  obtain ⟨r, hr, hparse, hshares⟩ := plots_agree_iff (by decide) hafter hnumber hline hsim hplot
  refine ⟨r, hr, hparse, hshares fullSamples 0 (2000000000, 0) (2010000000, 500000000) (by decide +kernel)
    (by decide +kernel) ⟨?_, ?_, ?_, ?_⟩⟩
  · decide +kernel
  · decide +kernel
  · decide +kernel
  · decide +kernel

end Lcmp
