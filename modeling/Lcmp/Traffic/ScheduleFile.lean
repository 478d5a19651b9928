import Lcmp.Driver.FlowSchedule
import Lcmp.Traffic.InterDc

/-!
# The file of the generated flows

What the generators write, and what the driver makes of it. Start times pass through floating point numbers and nine
decimals on the way, from nanoseconds to seconds and back.
-/

namespace Lcmp

open Text Floats

/-- `t * 1e-9` with nine decimals. -/
def startText (t : ℕ) : List Char := fixed 9 (double (double t * double (1 / 10 ^ 9)))

/-- A line of the file, without its end. -/
def TrafficFlow.line (f : TrafficFlow) : List Char :=
  decimal f.src ++ ' ' :: (decimal f.dst ++ " 3 100 ".toList ++ decimal f.size ++ ' ' :: startText f.t)

/-- The two comments. -/
def header : List (List Char) :=
  ["# 流源IP 目的IP 优先级pg 目的端口 数据量(Bytes) 流开始时间(s)".toList,
    "# src \t\tdst \tpg    \t\tdport  \t size\t\t\t\tstart_time".toList]

/-- The file, in which the number of flows has replaced the line that kept its place. -/
def TrafficGen.text (s : TrafficGen) : List Char :=
  FlowReader.fileOf (header ++ decimal s.nFlow :: s.flows.map TrafficFlow.line) []

/-- `int64x64_t` of a `double`: a number with 64 bits behind the point, of which sign and amount are apart. -/
def int64x64 (value : ℚ) : Int :=
  if value < 0 then -⌊-value * 2 ^ 64⌋ else ⌊value * 2 ^ 64⌋

/-- `GetHigh`. -/
def getHigh (v : Int) : Int :=
  if v < 0 then -(-v / 2 ^ 64) else v / 2 ^ 64

/-- `Seconds` in nanoseconds. -/
def seconds (x : ℚ) : Int := getHigh (int64x64 x * 10 ^ 9)

theorem seconds_of_nonneg {x : ℚ} (hx : 0 ≤ x) : seconds x = ⌊x * 2 ^ 64⌋ * 10 ^ 9 / 2 ^ 64 := by
  have hfloor : 0 ≤ ⌊x * 2 ^ 64⌋ := Int.floor_nonneg.mpr (mul_nonneg hx (by norm_num))
  rw [seconds, int64x64, if_neg (not_lt.mpr hx), getHigh, if_neg (not_lt.mpr (mul_nonneg hfloor (by norm_num)))]

/-- The reader of the driver, for a topology with these hosts. -/
def driverReader (isHost : UInt32 → Bool) : FlowReader ℚ where
  isHost
  strtod
  zero := 0
  seconds

/-! ### Start times -/

/-- The nanoseconds in the text of a start time. -/
def written (t : ℕ) : ℕ := (halfEven (double (double t * double (1 / 10 ^ 9)) * 10 ^ 9)).toNat

/-- The start time that is read, in seconds. -/
def readStart (t : ℕ) : ℚ := double (written t / 10 ^ 9)

variable {isHost : UInt32 → Bool} {f : TrafficFlow} {flows : List TrafficFlow} {s : TrafficGen} {t : ℕ}

theorem startText_eq (t : ℕ) : startText t = decimal (written t / 10 ^ 9) ++ '.' :: padded 9 (written t % 10 ^ 9) := rfl

/-- Up to 2⁵⁰ ns the decimals are those of the nanosecond. -/
theorem written_eq (hpos : 1 ≤ t) (hle : t ≤ 2 ^ 50) : written t = t := by
  have ht : (1 : ℚ) ≤ t := by exact_mod_cast hpos
  have ht' : (t : ℚ) ≤ 2 ^ 50 := by exact_mod_cast hle
  have hproduct : (0 : ℚ) ≤ t * (1 / 10 ^ 9) := by positivity
  have hfactors := (near_double (x := (t : ℚ)) (by linarith)).mul (near_double (x := (1 : ℚ) / 10 ^ 9) (by norm_num))
  have hlo := (hfactors.bounds hproduct).1
  have hnear := hfactors.trans (by norm_num) (near_double (by linarith))
  rw [Near, abs_of_nonneg hproduct] at hnear
  have hround : halfEven (double (double t * double (1 / 10 ^ 9)) * 10 ^ 9) = t := by
    apply halfEven_eq
    have hscale : double (double t * double (1 / 10 ^ 9)) * 10 ^ 9 - ((t : ℤ) : ℚ) =
        (double (double t * double (1 / 10 ^ 9)) - t * (1 / 10 ^ 9)) * 10 ^ 9 := by
      push_cast
      ring
    rw [hscale, abs_mul, abs_of_pos (by norm_num : (0 : ℚ) < 10 ^ 9)]
    linarith
  rw [written, hround, Int.toNat_natCast]

/-- Conversion to nanoseconds loses less than one of them. -/
theorem seconds_bounds {x : ℚ} (hx : 0 ≤ x) (hlo : t - 1 / 2 ≤ x * 10 ^ 9) (hhi : x * 10 ^ 9 < t + 1) :
    t - 1 ≤ seconds x ∧ seconds x ≤ t := by
  have hfloor := Int.floor_le (x * 2 ^ 64)
  have hfloor' := Int.lt_floor_add_one (x * 2 ^ 64)
  rw [seconds_of_nonneg hx]
  constructor
  · rw [Int.le_ediv_iff_mul_le (by norm_num)]
    have hle : ((t : ℚ) - 1) * 2 ^ 64 ≤ ⌊x * 2 ^ 64⌋ * 10 ^ 9 := by linarith
    exact_mod_cast hle
  · rw [← Int.lt_add_one_iff, Int.ediv_lt_iff_lt_mul (by norm_num)]
    have hlt : (⌊x * 2 ^ 64⌋ : ℚ) * 10 ^ 9 < ((t : ℚ) + 1) * 2 ^ 64 := by linarith
    exact_mod_cast hlt

theorem readStart_bounds (hpos : 1 ≤ t) (hle : t ≤ 2 ^ 50) :
    (t : ℚ) - 1 / 2 ^ 3 ≤ readStart t * 10 ^ 9 ∧ readStart t * 10 ^ 9 ≤ t + 1 / 2 ^ 3 := by
  have ht : (1 : ℚ) ≤ t := by exact_mod_cast hpos
  have ht' : (t : ℚ) ≤ 2 ^ 50 := by exact_mod_cast hle
  obtain ⟨hlo, hhi⟩ := (near_double (x := (t : ℚ) / 10 ^ 9) (by linarith)).bounds (by linarith)
  rw [readStart, written_eq hpos hle]
  constructor <;> linarith

theorem seconds_readStart (hpos : 1 ≤ t) (hle : t ≤ 2 ^ 50) :
    t - 1 ≤ seconds (readStart t) ∧ seconds (readStart t) ≤ t := by
  have ht : (1 : ℚ) ≤ t := by exact_mod_cast hpos
  obtain ⟨hlo, hhi⟩ := readStart_bounds hpos hle
  exact seconds_bounds (by linarith) (by linarith) (by linarith)

theorem readStart_lt (hpos : 1 ≤ t) (hle : t ≤ 2 ^ 50) : readStart t < 2 ^ 1024 := by
  have ht' : (t : ℚ) ≤ 2 ^ 50 := by exact_mod_cast hle
  have hhi := (readStart_bounds hpos hle).2
  have hlt : readStart t < 2 ^ 50 := by linarith
  exact hlt.trans_le (pow_le_pow_right₀ (by norm_num) (by norm_num))

theorem getDouble_startText (hlt : readStart t < 2 ^ 1024) :
    Extraction.getDouble strtod (startText t) = some (readStart t, []) := by
  rw [startText_eq, Extraction.getDouble_point strtod (fun c hc => isDigit_of_mem_decimal hc) (decimal_ne_nil _)
    (isDigit_padded _ _)]
  have hconvert := strtod_point (k := 9) (by decide) (written t) hlt
  rw [hconvert]
  rfl

/-! ### Lines -/

/-- What the reader takes from a line. -/
def TrafficFlow.input (f : TrafficFlow) : FlowInput where
  src := UInt32.ofNat f.src
  dst := UInt32.ofNat f.dst
  pg := 3
  dport := 100
  flowSize := UInt64.ofNat f.size

def TrafficFlow.timed (f : TrafficFlow) : TimedFlow ℚ := ⟨f.input, readStart f.t⟩

/-- The numbers of a flow fit the variables of the reader. -/
structure TrafficFlow.Fits (f : TrafficFlow) : Prop where
  src : f.src < 2 ^ 32
  dst : f.dst < 2 ^ 32
  size : f.size < 2 ^ 64
  start : readStart f.t < 2 ^ 1024

theorem newline_decimal (n : ℕ) : '\n' ∉ decimal n := fun h =>
  absurd (isDigit_of_mem_decimal h) (by decide)

theorem TrafficFlow.newline_line (f : TrafficFlow) : '\n' ∉ f.line := by
  have hfixed : '\n' ∉ " 3 100 ".toList := by decide
  have hstart : '\n' ∉ startText f.t := newline_fixed _ _
  simp only [TrafficFlow.line, List.mem_append, List.mem_cons, newline_decimal, hstart, hfixed, or_false]
  decide

/-- A line that begins with a number is kept. -/
theorem isSkipped_decimal (n : ℕ) (rest : List Char) : isSkipped (decimal n ++ rest) = false := by
  cases hdecimal : decimal n with
  | nil => exact absurd hdecimal (decimal_ne_nil n)
  | cons c digits =>
      have hdigit : c.isDigit := isDigit_of_mem_decimal (hdecimal ▸ List.mem_cons_self)
      have hne : ∀ x : Char, x.isDigit = false → (c == x) = false := fun x hx =>
        beq_false_of_ne fun heq => absurd hdigit (by rw [heq, hx]; decide)
      have hfront : (c == ' ' || c == '\t' || c == '\r' || c == '\n') = false := by
        rw [hne ' ' rfl, hne '\t' rfl, hne '\r' rfl, hne '\n' rfl]
        rfl
      rw [isSkipped, List.cons_append, List.dropWhile_cons, hfront]
      exact hne '#' rfl

theorem header_skipped : ∀ l ∈ header, FlowReader.IsSkippedLine l := by
  intro l hl
  rcases List.mem_cons.mp hl with rfl | hl
  · exact ⟨by decide, by decide⟩
  · rw [List.mem_singleton.mp hl]
    exact ⟨by decide, by decide⟩

theorem isCountLine_decimal {n : ℕ} (hn : n < 2 ^ 32) : FlowReader.IsCountLine (decimal n) n where
  line := newline_decimal n
  kept := by
    have hkept := isSkipped_decimal n []
    rwa [List.append_nil] at hkept
  reads := by
    have hend : ∀ c ∈ ([] : List Char).head?, c.isDigit = false := fun c hc => absurd hc (Option.not_mem_none c)
    have hread := Extraction.getUnsigned_decimal 32 n hend
    rw [List.append_nil, if_neg (Nat.not_le.mpr hn)] at hread
    exact ⟨[], hread, by simp, rfl⟩

/-- Reading a line up to its size, whatever follows it. -/
theorem TrafficFlow.readFlow_line (f : TrafficFlow) (isHost : UInt32 → Bool) (hsrc : f.src < 2 ^ 32)
    (hdst : f.dst < 2 ^ 32) (rest : List Char) :
    (driverReader isHost).readFlow (f.line ++ rest) =
      (Extraction.getUnsigned 64 (decimal f.size ++ ' ' :: (startText f.t ++ rest))).bind fun size =>
        (Extraction.getDouble strtod size.2).bind fun start =>
          some (⟨⟨UInt32.ofNat f.src, UInt32.ofNat f.dst, 3, 100, UInt64.ofNat size.1⟩, start.1⟩, start.2) := by
  have hblank : ∀ s : List Char, ∀ c ∈ (' ' :: s).head?, c.isDigit = false := by
    rintro s c ⟨rfl⟩
    rfl
  have hline : f.line ++ rest = decimal f.src ++ ' ' :: (decimal f.dst ++
      ' ' :: ("3 100 ".toList ++ (decimal f.size ++ ' ' :: (startText f.t ++ rest)))) := by
    simp only [TrafficFlow.line, List.append_assoc, List.cons_append]
    rfl
  have hread := Extraction.getUnsigned_decimal 32 f.src (hblank (decimal f.dst ++
    ' ' :: ("3 100 ".toList ++ (decimal f.size ++ ' ' :: (startText f.t ++ rest)))))
  have hread' := Extraction.getUnsigned_decimal 32 f.dst (hblank ("3 100 ".toList ++
    (decimal f.size ++ ' ' :: (startText f.t ++ rest))))
  have hpg : Extraction.getUnsigned 32 (' ' :: ("3 100 ".toList ++
      (decimal f.size ++ ' ' :: (startText f.t ++ rest)))) =
        some (3, " 100 ".toList ++ (decimal f.size ++ ' ' :: (startText f.t ++ rest))) := rfl
  have hdport : Extraction.getUnsigned 32 (" 100 ".toList ++
      (decimal f.size ++ ' ' :: (startText f.t ++ rest))) =
        some (100, ' ' :: (decimal f.size ++ ' ' :: (startText f.t ++ rest))) := rfl
  rw [if_neg (Nat.not_le.mpr hsrc)] at hread
  rw [if_neg (Nat.not_le.mpr hdst)] at hread'
  simp only [FlowReader.readFlow, hline, hread, Option.bind_eq_bind, Option.bind_some, Extraction.getUnsigned_space,
    hread', hpg, hdport]
  rfl

/-- A line is read as its flow. -/
theorem TrafficFlow.Fits.isFlowLine (h : f.Fits) : (driverReader isHost).IsFlowLine f.line f.timed where
  line := f.newline_line
  kept := isSkipped_decimal f.src _
  reads := by
    have hblank : ∀ c ∈ (' ' :: startText f.t).head?, c.isDigit = false := by
      rintro c ⟨rfl⟩
      rfl
    have hsize := Extraction.getUnsigned_decimal 64 f.size hblank
    rw [if_neg (Nat.not_le.mpr h.size)] at hsize
    have hread := f.readFlow_line isHost h.src h.dst []
    rw [List.append_nil, List.append_nil, hsize, Option.bind_some, Extraction.getDouble_space,
      getDouble_startText h.start] at hread
    exact ⟨[], hread, by simp, rfl⟩

theorem flowLines (h : ∀ f ∈ flows, f.Fits) :
    (driverReader isHost).FlowLines (flows.map TrafficFlow.line) (flows.map TrafficFlow.timed) := by
  induction flows with
  | nil => exact .nil
  | cons f flows ih =>
      rw [List.forall_mem_cons] at h
      exact .flow h.1.isFlowLine (ih h.2)

/-- The file is read as the flows that were generated. -/
theorem TrafficGen.flows_text (hnFlow : s.nFlow = s.flows.length) (hcount : s.flows.length < 2 ^ 32)
    (hfits : ∀ f ∈ s.flows, f.Fits) : (driverReader isHost).flows s.text = s.flows.map TrafficFlow.timed := by
  have hnil : (driverReader isHost).allFlows [] = [] := rfl
  rw [TrafficGen.text, FlowReader.flows_fileOf header_skipped (isCountLine_decimal (hnFlow ▸ hcount)) (flowLines hfits),
    hnil, List.append_nil, List.take_of_length_le]
  rw [List.length_map, hnFlow]

/-- The lines of the file. -/
theorem TrafficGen.lines_text (s : TrafficGen) :
    lines s.text = header ++ decimal s.nFlow :: s.flows.map TrafficFlow.line ++ [[]] := by
  rw [TrafficGen.text, FlowReader.fileOf, List.append_nil]
  apply lines_flatMap
  intro l hl
  rcases List.mem_append.mp hl with hl | hl
  · exact (header_skipped l hl).1
  · rcases List.mem_cons.mp hl with rfl | hl
    · exact newline_decimal _
    · obtain ⟨f, -, rfl⟩ := List.mem_map.mp hl
      exact f.newline_line

end Lcmp
