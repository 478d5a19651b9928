import Lcmp.Lib.Blocks
import Lcmp.Lib.Floats
import Lcmp.Lib.Text
import Mathlib.Algebra.Order.Floor.Ring
import Mathlib.Data.List.Lex
import Mathlib.Data.List.Pairwise
import Mathlib.Data.List.Sort
import Mathlib.Data.List.TakeWhile
import Mathlib.Data.Rat.Floor

/-!
# Statistics of flow completion times

`fct_analysis_py3_batch.py` lets `awk` and `sort` turn a log into lines of a slowdown and a size, reads the lines
back and puts them in buckets of some percent each. For each bucket it reports the largest size and two
percentiles of the slowdown.
-/

namespace Lcmp

/-- The fields of a line of the log that are looked at. The ideal time is never zero. -/
structure FctRecord where
  dport : ℕ
  size : ℕ
  startTime : ℕ
  fct : ℕ
  standaloneFct : ℕ
  standalonePos : 0 < standaloneFct

/-- The option `type`. -/
inductive FctType where
  | normal
  | incast
  | all

/-- How `awk` prints a number, and `float` reads it. -/
structure NumberText where
  print : ℚ → List Char
  read : List Char → Option ℚ
  isWord : ∀ q, Text.IsWord (print q)
  readable : ∀ q, ∃ q', read (print q) = some q'

namespace Fct

/-- The condition of the `awk` program. The one for all flows has a parenthesis too many, so that nothing is
printed. -/
def passes (type : FctType) (timeLimit : ℕ) (record : FctRecord) : Bool :=
  match type with
  | .normal => record.dport = 100 ∧ record.startTime + record.fct < timeLimit
  | .incast => record.dport = 200 ∧ record.startTime + record.fct < timeLimit
  | .all => false

def slow (record : FctRecord) : ℚ :=
  let slow : ℚ := record.fct / record.standaloneFct
  if slow < 1 then 1 else slow

/-- `int`, for numbers without a sign. -/
def int (s : List Char) : Option ℕ := if s ≠ [] ∧ s.all Char.isDigit then some (Nat.ofDigitChars 10 s 0) else none

/-- The key `-n -k 2` of `sort`. -/
def sortKey (line : List Char) : ℕ :=
  Nat.ofDigitChars 10 (((Text.words line).getD 1 []).takeWhile Char.isDigit) 0

/-- `sort`, which compares whole lines when their keys are equal. -/
def sortsBefore (line other : List Char) : Prop :=
  sortKey line < sortKey other ∨ sortKey line = sortKey other ∧ line.le other

instance (line other : List Char) : Decidable (sortsBefore line other) := inferInstanceAs (Decidable (_ ∨ _))

/-- `get_pctl`. The length and the product are rounded. -/
def getPctl (a : List ℚ) (p : ℚ) : Option ℚ := a[⌊Floats.double (Floats.double a.length * Floats.double p)⌋₊]?

/-- What is reported of a bucket. -/
structure Row where
  flowSize : ℕ
  p50 : ℚ
  p99 : ℚ
  deriving DecidableEq

variable (text : NumberText)

/-- What `awk` prints for a record. -/
def awkLine (record : FctRecord) : List Char := text.print (slow record) ++ ' ' :: Text.decimal record.size

/-- The sorted lines of the records that pass the filter. -/
def sortedLines (type : FctType) (timeLimit : ℕ) (log : List FctRecord) : List (List Char) :=
  ((log.filter (passes type timeLimit)).map (awkLine text)).insertionSort sortsBefore

def output (type : FctType) (timeLimit : ℕ) (log : List FctRecord) : List Char :=
  (sortedLines text type timeLimit log).flatMap (· ++ ['\n'])

/-- `a`: the lines of the output without the last two. -/
def recordLines (type : FctType) (timeLimit : ℕ) (log : List FctRecord) : List (List Char) :=
  (Text.lines (output text type timeLimit log)).dropLast.dropLast

/-- `range(0, 100, step)`. -/
def percents (step : ℕ) : List ℕ := (List.range ((99 + step) / step)).map (· * step)

/-- The lines of the bucket from the percent `i` on. -/
def bucket (a : List (List Char)) (step i : ℕ) : List (List Char) :=
  Blocks.slice a (i * a.length / 100) ((i + step) * a.length / 100)

def parseLine (line : List Char) : Option (ℚ × ℕ) :=
  match Text.words line with
  | slow :: size :: _ => do return (← text.read slow, ← int size)
  | _ => none

/-- The report of a bucket. An empty one has no last entry, which is an error. -/
def bucketRow (lines : List (List Char)) : Option Row := do
  let d ← lines.mapM (parseLine text)
  let fct := (d.map Prod.fst).insertionSort (· ≤ ·)
  let last ← d.getLast?
  let p50 ← getPctl fct (1 / 2)
  let p99 ← getPctl fct (99 / 100)
  return { flowSize := last.2, p50, p99 }

/-- The loop over the buckets. -/
def bucketRows (a : List (List Char)) (step : ℕ) : Option (List Row) :=
  (percents step).mapM fun i => bucketRow text (bucket a step i)

/-! ### The lines -/

variable {text} {type : FctType} {timeLimit step : ℕ} {log : List FctRecord}

theorem isSpace_of_mem_awkLine {record : FctRecord} {c : Char} (hc : c ∈ awkLine text record) :
    c = ' ' ∨ Text.isSpace c = false := by
  rcases List.mem_append.mp hc with hslow | hsize
  · exact .inr ((text.isWord _).2 c hslow)
  · rcases List.mem_cons.mp hsize with rfl | hsize
    · exact .inl rfl
    · exact .inr ((Text.isWord_decimal _).2 c hsize)

theorem words_awkLine (record : FctRecord) :
    Text.words (awkLine text record) = [text.print (slow record), Text.decimal record.size] := by
  rw [awkLine, Text.words_append (text.isWord _) rfl, Text.words_of_isWord (Text.isWord_decimal _)]

theorem sortKey_awkLine (record : FctRecord) : sortKey (awkLine text record) = record.size := by
  have hdigits : (Text.decimal record.size).takeWhile Char.isDigit = Text.decimal record.size :=
    List.takeWhile_eq_self_iff.mpr fun _ hc => Text.isDigit_of_mem_decimal hc
  rw [sortKey, words_awkLine]
  simp only [List.getD_cons_succ, List.getD_cons_zero]
  rw [hdigits, Text.ofDigitChars_decimal]

theorem int_decimal (n : ℕ) : int (Text.decimal n) = some n := by
  rw [int, if_pos, Text.ofDigitChars_decimal]
  exact ⟨Text.decimal_ne_nil n, List.all_eq_true.mpr fun _ hc => Text.isDigit_of_mem_decimal hc⟩

theorem parseLine_awkLine (text : NumberText) (record : FctRecord) :
    ∃ q, parseLine text (awkLine text record) = some (q, sortKey (awkLine text record)) := by
  obtain ⟨q, hq⟩ := text.readable (slow record)
  refine ⟨q, ?_⟩
  rw [parseLine, words_awkLine, sortKey_awkLine]
  simp only [hq, int_decimal, Option.bind_eq_bind, Option.bind_some]
  rfl

instance : Std.Total sortsBefore := by
  refine ⟨fun line other => ?_⟩
  rcases Nat.lt_trichotomy (sortKey line) (sortKey other) with hless | hsame | hless
  · exact .inl (.inl hless)
  · rcases List.le_total line other with hle | hle
    · exact .inl (.inr ⟨hsame, hle⟩)
    · exact .inr (.inr ⟨hsame.symm, hle⟩)
  · exact .inr (.inl hless)

instance : IsTrans (List Char) sortsBefore := by
  refine ⟨fun line other third h h' => ?_⟩
  rcases h with hless | ⟨hsame, hle⟩
  · rcases h' with hless' | ⟨hsame', -⟩
    · exact .inl (hless.trans hless')
    · exact .inl (hsame' ▸ hless)
  · rcases h' with hless' | ⟨hsame', hle'⟩
    · exact .inl (hsame ▸ hless')
    · exact .inr ⟨hsame.trans hsame', List.le_trans hle hle'⟩

theorem sortedLines_perm (text : NumberText) (type : FctType) (timeLimit : ℕ) (log : List FctRecord) :
    (sortedLines text type timeLimit log).Perm ((log.filter (passes type timeLimit)).map (awkLine text)) :=
  List.perm_insertionSort _ _

theorem exists_record {line : List Char} (h : line ∈ sortedLines text type timeLimit log) :
    ∃ record, line = awkLine text record := by
  obtain ⟨record, -, rfl⟩ := List.mem_map.mp ((sortedLines_perm text type timeLimit log).mem_iff.mp h)
  exact ⟨record, rfl⟩

/-- The slice that takes off the empty line behind the last newline takes off the last record as well. -/
theorem recordLines_eq (text : NumberText) (type : FctType) (timeLimit : ℕ) (log : List FctRecord) :
    recordLines text type timeLimit log = (sortedLines text type timeLimit log).dropLast := by
  rw [recordLines, output, Text.lines_flatMap, List.dropLast_concat]
  intro line hline hnewline
  obtain ⟨record, rfl⟩ := exists_record hline
  rcases isSpace_of_mem_awkLine hnewline with hblank | hspace
  · exact absurd hblank (by decide)
  · cases hspace

theorem length_recordLines (text : NumberText) (type : FctType) (timeLimit : ℕ) (log : List FctRecord) :
    (recordLines text type timeLimit log).length = (log.filter (passes type timeLimit)).length - 1 := by
  rw [recordLines_eq, List.length_dropLast, (sortedLines_perm text type timeLimit log).length_eq, List.length_map]

/-! ### The buckets -/

/-- The buckets are all lines that were read, one block after the other. -/
theorem flatMap_bucket (a : List (List Char)) (hstep : 0 < step) : (percents step).flatMap (bucket a step) = a := by
  have hborder : ∀ k, k * step * a.length / 100 ≤ (k + 1) * step * a.length / 100 := fun k =>
    Nat.div_le_div_right (Nat.mul_le_mul_right _ (Nat.mul_le_mul_right _ (Nat.le_succ k)))
  have hend : a.length ≤ (99 + step) / step * step * a.length / 100 := by
    have hcount : 100 ≤ (99 + step) / step * step := by
      have hmod := Nat.mod_lt (99 + step) hstep
      have hdiv := Nat.div_add_mod (99 + step) step
      rw [Nat.mul_comm] at hdiv
      omega
    rw [Nat.le_div_iff_mul_le (by decide), Nat.mul_comm]
    exact Nat.mul_le_mul_right _ hcount
  have hblocks := Blocks.flatMap_slice a hborder ((99 + step) / step)
  rw [percents, List.flatMap_map]
  simp only [bucket, ← Nat.succ_mul]
  rw [hblocks, Nat.zero_mul, Nat.zero_mul, Nat.zero_div, Blocks.slice, List.take_of_length_le hend, List.drop_zero]

theorem mem_percents {i : ℕ} (hi : i ∈ percents step) : i < 100 := by
  obtain ⟨k, hk, rfl⟩ := List.mem_map.mp hi
  have hmul : (k + 1) * step ≤ 99 + step := by
    calc (k + 1) * step ≤ (99 + step) / step * step := Nat.mul_le_mul_right _ (List.mem_range.mp hk)
      _ ≤ 99 + step := Nat.div_mul_le_self _ _
  rw [Nat.succ_mul] at hmul
  omega

theorem zero_mem_percents (hstep : 0 < step) : 0 ∈ percents step := by
  refine List.mem_map.mpr ⟨0, List.mem_range.mpr ?_, Nat.zero_mul _⟩
  exact Nat.div_pos (Nat.le_add_left _ _) hstep

/-- No bucket is empty exactly when the first is not. -/
theorem bucket_ne_nil_iff (a : List (List Char)) (hstep : 0 < step) :
    (∀ i ∈ percents step, bucket a step i ≠ []) ↔ 100 ≤ step * a.length := by
  constructor
  · intro h
    have hfirst := (Blocks.slice_ne_nil_iff _ _ _).mp (h 0 (zero_mem_percents hstep))
    have hpos : 0 < step * a.length / 100 := by
      have hless := hfirst.1
      rw [Nat.zero_mul, Nat.zero_div, Nat.zero_add] at hless
      exact hless
    exact (Nat.div_pos_iff.mp hpos).2
  · intro h i hi
    have hlt := mem_percents hi
    refine (Blocks.slice_ne_nil_iff _ _ _).mpr ⟨?_, ?_⟩
    · calc i * a.length / 100 < (i * a.length + 100) / 100 := by omega
        _ ≤ (i + step) * a.length / 100 := by
          rw [Nat.add_mul]
          exact Nat.div_le_div_right (Nat.add_le_add_left h _)
    · have hpos : 0 < a.length := Nat.pos_of_ne_zero fun hzero => by simp [hzero] at h
      rw [Nat.div_lt_iff_lt_mul (by decide), Nat.mul_comm a.length]
      exact Nat.mul_lt_mul_of_pos_right hlt hpos

/-! ### The report -/

/-- A loop of steps that may fail. -/
theorem mapM_eq_some_iff {α β : Type} {f : α → Option β} {l : List α} {ys : List β} :
    l.mapM f = some ys ↔ List.Forall₂ (fun x y => f x = some y) l ys := by
  induction l generalizing ys with
  | nil =>
      rw [List.mapM_nil, List.forall₂_nil_left_iff]
      exact ⟨fun h => (Option.some.inj h).symm, fun h => h ▸ rfl⟩
  | cons x l ih =>
      rw [List.mapM_cons, List.forall₂_cons_left_iff]
      simp only [Option.bind_eq_bind, Option.bind_eq_some_iff]
      constructor
      · rintro ⟨y, hy, ys', hys', hpure⟩
        exact ⟨y, ys', hy, ih.mp hys', (Option.some.inj hpure).symm⟩
      · rintro ⟨y, ys', hy, hys', rfl⟩
        exact ⟨y, hy, ys', ih.mpr hys', rfl⟩

theorem exists_mapM {α β : Type} {f : α → Option β} {l : List α} (h : ∀ x ∈ l, ∃ y, f x = some y) :
    ∃ ys, l.mapM f = some ys := by
  induction l with
  | nil => exact ⟨[], rfl⟩
  | cons x l ih =>
      obtain ⟨y, hy⟩ := h x List.mem_cons_self
      obtain ⟨ys, hys⟩ := ih fun x' hx' => h x' (List.mem_cons_of_mem _ hx')
      exact ⟨y :: ys, mapM_eq_some_iff.mpr (.cons hy (mapM_eq_some_iff.mp hys))⟩

theorem exists_of_mapM {α β : Type} {f : α → Option β} {l : List α} {ys : List β} (h : l.mapM f = some ys) :
    ∀ x ∈ l, ∃ y, f x = some y := by
  have hall := mapM_eq_some_iff.mp h
  clear h
  induction hall with
  | nil => simp
  | cons hy _ ih =>
      intro x hx
      rcases List.mem_cons.mp hx with rfl | hx
      · exact ⟨_, hy⟩
      · exact ih x hx

/-- The size in a row is the largest one of its bucket. -/
def ReportsLargest (lines : List (List Char)) (row : Row) : Prop :=
  (∃ line ∈ lines, sortKey line = row.flowSize) ∧ ∀ line ∈ lines, sortKey line ≤ row.flowSize

/-- The roundings do not lead out of the list. -/
theorem getPctl_of_le {a : List ℚ} {p : ℚ} (ha : a ≠ []) (hp : 1 / 2 ≤ p) (hle : p ≤ 99 / 100) :
    ∃ q, getPctl a p = some q := by
  have hlength : (1 : ℚ) ≤ a.length := Nat.one_le_cast.mpr (List.length_pos_iff.mpr ha)
  have hexact : 1 / 2 ≤ a.length * p := hp.trans (le_mul_of_one_le_left (by linarith) hlength)
  have hprod := (Floats.near_double (x := a.length) (by linarith)).mul (Floats.near_double (x := p) (by linarith))
  have hbounds := hprod.bounds (by linarith)
  have hround := (hprod.trans (by norm_num) (Floats.near_double (by linarith))).bounds (by linarith)
  have hindex : ⌊Floats.double (Floats.double a.length * Floats.double p)⌋₊ < a.length := by
    have hshort : a.length * p ≤ a.length * (99 / 100) := mul_le_mul_of_nonneg_left hle (by linarith)
    rw [Nat.floor_lt (by linarith)]
    linarith
  exact ⟨_, List.getElem?_eq_getElem hindex⟩

/-- The sizes that are read from lines are their keys. -/
theorem map_snd_parsed {lines : List (List Char)} {d : List (ℚ × ℕ)}
    (hlines : ∀ line ∈ lines, ∃ record, line = awkLine text record)
    (hd : List.Forall₂ (fun line entry => parseLine text line = some entry) lines d) :
    d.map Prod.snd = lines.map sortKey := by
  induction hd with
  | nil => rfl
  | cons hentry hrest ih =>
      rename_i line entry rest d
      obtain ⟨record, rfl⟩ := hlines _ List.mem_cons_self
      obtain ⟨q, hq⟩ := parseLine_awkLine text record
      obtain rfl := Option.some.inj (hq.symm.trans hentry)
      rw [List.map_cons, List.map_cons, ih fun line hline => hlines line (List.mem_cons_of_mem _ hline)]

/-- A bucket of sorted lines has a report unless it is empty, and the last line has the largest size. -/
theorem exists_bucketRow {lines : List (List Char)} (hlines : ∀ line ∈ lines, ∃ record, line = awkLine text record)
    (hsorted : lines.Pairwise sortsBefore) (hne : lines ≠ []) :
    ∃ row, bucketRow text lines = some row ∧ ReportsLargest lines row := by
  have hparse : ∀ line ∈ lines, ∃ entry, parseLine text line = some entry := by
    intro line hline
    obtain ⟨record, rfl⟩ := hlines line hline
    obtain ⟨q, hq⟩ := parseLine_awkLine text record
    exact ⟨_, hq⟩
  obtain ⟨d, hd⟩ := exists_mapM hparse
  have hsizes := map_snd_parsed hlines (mapM_eq_some_iff.mp hd)
  have hfct : (d.map Prod.fst).insertionSort (· ≤ ·) ≠ [] := by
    intro hnil
    have hlength := congrArg List.length hsizes
    have hzero := congrArg List.length hnil
    rw [List.length_insertionSort, List.length_map, List.length_nil] at hzero
    rw [List.length_map, List.length_map, hzero] at hlength
    exact hne (List.length_eq_zero_iff.mp hlength.symm)
  obtain ⟨p50, hp50⟩ := getPctl_of_le (p := 1 / 2) hfct (by norm_num) (by norm_num)
  obtain ⟨p99, hp99⟩ := getPctl_of_le (p := 99 / 100) hfct (by norm_num) (by norm_num)
  have hlastSize := congrArg List.getLast? hsizes
  rw [List.getLast?_map, List.getLast?_map, List.getLast?_eq_some_getLast hne, Option.map_some] at hlastSize
  obtain ⟨last, hlast, hsize⟩ := Option.map_eq_some_iff.mp hlastSize
  refine ⟨⟨last.2, p50, p99⟩, ?_, ⟨lines.getLast hne, List.getLast_mem hne, hsize.symm⟩, fun line hline => ?_⟩
  · rw [bucketRow, hd]
    simp only [Option.bind_eq_bind, Option.bind_some, hlast, hp50, hp99]
    rfl
  · rw [hsize]
    rcases hsorted.rel_getLast hline with hless | ⟨hsame, -⟩
    · exact hless.le
    · exact hsame.le

theorem bucket_sublist (a : List (List Char)) (step i : ℕ) : (bucket a step i).Sublist a :=
  (List.drop_sublist _ _).trans (List.take_sublist _ _)

/-- The loop reads its lines without an error exactly when no bucket is empty. -/
theorem bucketRows_spec {a : List (List Char)} (hlines : ∀ line ∈ a, ∃ record, line = awkLine text record)
    (hsorted : a.Pairwise sortsBefore) (hstep : 0 < step) :
    (bucketRows text a step = none ↔ step * a.length < 100) ∧
      (100 ≤ step * a.length → ∃ rows, bucketRows text a step = some rows ∧
        List.Forall₂ (fun i row => ReportsLargest (bucket a step i) row) (percents step) rows) := by
  have hrow : ∀ i, bucket a step i ≠ [] →
      ∃ row, bucketRow text (bucket a step i) = some row ∧ ReportsLargest (bucket a step i) row := fun i hne =>
    exists_bucketRow (fun line hline => hlines line ((bucket_sublist a step i).subset hline))
      (hsorted.sublist (bucket_sublist a step i)) hne
  have hrows : 100 ≤ step * a.length → ∃ rows, bucketRows text a step = some rows ∧
      List.Forall₂ (fun i row => ReportsLargest (bucket a step i) row) (percents step) rows := by
    intro hfull
    have hne := (bucket_ne_nil_iff a hstep).mpr hfull
    obtain ⟨rows, hrows⟩ := exists_mapM fun i hi => (hrow i (hne i hi)).imp fun row h => h.1
    refine ⟨rows, hrows, ?_⟩
    have hall := (List.forall₂_and_left (p := fun i => i ∈ percents step) _ _).mpr
      ⟨fun i hi => hi, mapM_eq_some_iff.mp hrows⟩
    refine hall.imp fun i row h => ?_
    obtain ⟨row', hrow', hlargest⟩ := hrow i (hne i h.1)
    obtain rfl := Option.some.inj (hrow'.symm.trans h.2)
    exact hlargest
  refine ⟨⟨fun hnone => ?_, fun hfew => ?_⟩, hrows⟩
  · by_contra hfull
    obtain ⟨rows, hsome, -⟩ := hrows (not_lt.mp hfull)
    rw [hnone] at hsome
    cases hsome
  · by_contra hsome
    obtain ⟨rows, hsome⟩ := Option.ne_none_iff_exists'.mp hsome
    refine absurd ((bucket_ne_nil_iff a hstep).mp fun i hi hempty => ?_) hfew.not_ge
    obtain ⟨row, hbucket⟩ := exists_of_mapM hsome i hi
    rw [hempty] at hbucket
    cases hbucket

/-- The statistics are about every record: each is in one bucket, the buckets follow each other in the sorted
records, and every bucket has a report with its largest size. -/
structure CoversEveryFlow (text : NumberText) (type : FctType) (timeLimit : ℕ) (log : List FctRecord) (step : ℕ) :
    Prop where
  everyOnce : ((percents step).flatMap (bucket (recordLines text type timeLimit log) step)).Perm
    ((log.filter (passes type timeLimit)).map (awkLine text))
  consecutive : (percents step).flatMap (bucket (recordLines text type timeLimit log) step) <:+:
    sortedLines text type timeLimit log
  reported : ∃ rows, bucketRows text (recordLines text type timeLimit log) step = some rows ∧
    List.Forall₂ (fun i row => ReportsLargest (bucket (recordLines text type timeLimit log) step i) row)
      (percents step) rows

/-- For every log with a record that passes the filter the statistics miss the record with the largest size, and
no other. A bucket access fails exactly when less than a whole record is left for a bucket. -/
theorem not_coversEveryFlow (text : NumberText) (type : FctType) (timeLimit : ℕ) (log : List FctRecord)
    (hpass : ∃ record ∈ log, passes type timeLimit record) (hstep : 1 ≤ step) :
    ¬ CoversEveryFlow text type timeLimit log step ∧
      (percents step).flatMap (bucket (recordLines text type timeLimit log) step) =
        (sortedLines text type timeLimit log).dropLast ∧
      (bucketRows text (recordLines text type timeLimit log) step = none ↔
        step * ((log.filter (passes type timeLimit)).length - 1) < 100) ∧
      (100 ≤ step * ((log.filter (passes type timeLimit)).length - 1) →
        ∃ rows, bucketRows text (recordLines text type timeLimit log) step = some rows ∧
          List.Forall₂ (fun i row => ReportsLargest (bucket (recordLines text type timeLimit log) step i) row)
            (percents step) rows) := by
  have hlength := length_recordLines text type timeLimit log
  have hlines : ∀ line ∈ recordLines text type timeLimit log, ∃ record, line = awkLine text record := by
    intro line hline
    rw [recordLines_eq] at hline
    exact exists_record (List.dropLast_subset _ hline)
  have hsorted : (recordLines text type timeLimit log).Pairwise sortsBefore := by
    rw [recordLines_eq]
    exact (List.pairwise_insertionSort _ _).sublist (List.dropLast_sublist _)
  have hrows := bucketRows_spec hlines hsorted hstep
  rw [hlength] at hrows
  refine ⟨fun hcovers => ?_, ?_, hrows⟩
  · obtain ⟨record, hmem, hrecord⟩ := hpass
    have hpos := List.length_pos_of_mem (List.mem_filter.mpr ⟨hmem, hrecord⟩)
    have hsame := hcovers.everyOnce.length_eq
    rw [flatMap_bucket _ hstep, hlength, List.length_map] at hsame
    omega
  · rw [flatMap_bucket _ hstep, recordLines_eq]

/-! ### Three flows -/

/-- Whole numbers as `awk` prints them and `float` reads them. -/
def wholeText : NumberText where
  print q := Text.decimal q.num.toNat
  read s := (int s).map (Nat.cast : ℕ → ℚ)
  isWord q := Text.isWord_decimal _
  readable q := ⟨_, by rw [int_decimal, Option.map_some]⟩

/-- A flow of so many bytes that took twice the ideal time. -/
def flowOf (size : ℕ) : FctRecord where
  dport := 100
  size := size
  startTime := 2000000000
  fct := 2 * (size + 1)
  standaloneFct := size + 1
  standalonePos := Nat.succ_pos size

def threeFlows : List FctRecord := [flowOf 1000, flowOf 3000, flowOf 2000]

/-- Two buckets of 50 percent report 1000 and 2000 bytes as their largest sizes. -/
theorem not_coversEveryFlow_dropped :
    bucketRows wholeText (recordLines wholeText .normal 300000000000000000 threeFlows) 50 =
        some [⟨1000, 2, 2⟩, ⟨2000, 2, 2⟩] ∧
      ¬ CoversEveryFlow wholeText .normal 300000000000000000 threeFlows 50 := by
  refine ⟨by decide +kernel, fun hcovers => ?_⟩
  have hlength := hcovers.everyOnce.length_eq
  revert hlength
  decide +kernel

/-- With the usual step of 5 percent, three flows leave a bucket without a line. -/
theorem not_coversEveryFlow_threeFlows :
    ¬ CoversEveryFlow wholeText .normal 300000000000000000 threeFlows 5 ∧
      bucketRows wholeText (recordLines wholeText .normal 300000000000000000 threeFlows) 5 = none := by
  have hstep : 1 ≤ 5 := by decide
  obtain ⟨hcovers, -, hfails, -⟩ := not_coversEveryFlow wholeText .normal 300000000000000000 threeFlows
    ⟨flowOf 1000, List.mem_cons_self, by decide⟩ hstep
  exact ⟨hcovers, hfails.mpr (by decide)⟩

end Fct

end Lcmp
