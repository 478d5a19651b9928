import Lcmp.Driver.FlowNet
import Lcmp.Lib.Extraction

/-!
# The reader of the flow file

The driver takes the numbers of a flow from the file one after the other, and skips blank lines and comments in
front of the first of them only: where a line ends in the middle of a flow, the numbers of the next one are taken.
-/

namespace Lcmp

open Extraction

/-- What the reader needs besides the file: which nodes are hosts, the conversion of floating point numbers, of
which it keeps the number `0.0`, and `Seconds` in the time steps of the simulator, which are nanoseconds. -/
structure FlowReader (D : Type) where
  isHost : UInt32 → Bool
  strtod : List Char → Option D
  zero : D
  seconds : D → Int

/-- `FlowInput` with its start time. -/
structure TimedFlow (D : Type) extends FlowInput where
  startTime : D

/-- Blank lines and lines that begin with `#`. -/
def isSkipped (line : List Char) : Bool :=
  match line.dropWhile fun c => c == ' ' || c == '\t' || c == '\r' || c == '\n' with
  | [] => true
  | c :: _ => c == '#'

/-- The stream from the first line on that is not skipped. -/
def skipComments (is : List Char) : List Char := ['\n'].intercalate ((Text.lines is).dropWhile isSkipped)

namespace FlowReader

variable {D : Type} (env : FlowReader D)

/-- The extraction of the six numbers of a flow. -/
def readFlow (is : List Char) : Option (TimedFlow D × List Char) := do
  let (src, is) ← getUnsigned 32 is
  let (dst, is) ← getUnsigned 32 is
  let (pg, is) ← getUnsigned 32 is
  let (dport, is) ← getUnsigned 32 is
  let (flowSize, is) ← getUnsigned 64 is
  let (startTime, is) ← getDouble env.strtod is
  some ({
    src := UInt32.ofNat src
    dst := UInt32.ofNat dst
    pg := UInt32.ofNat pg
    dport := UInt32.ofNat dport
    flowSize := UInt64.ofNat flowSize
    startTime }, is)

/-- The flows that up to `n` reads in a row find. -/
def readFlows : Nat → List Char → List (TimedFlow D)
  | 0, _ => []
  | n + 1, is =>
      match env.readFlow (skipComments is) with
      | none => []
      | some (input, is) => input :: readFlows n is

/-- All the flows that are found before the first read fails. -/
def allFlows (is : List Char) : List (TimedFlow D) := env.readFlows is.length is

/-- The flows of a file: the first of what follows the number of flows, as many as this says. -/
def flows (text : List Char) : List (TimedFlow D) :=
  match getUnsigned 32 (skipComments text) with
  | none => []
  | some (flowNum, is) => (env.allFlows is).take flowNum

end FlowReader

/-! ### Lines -/

theorem lines_line {l : List Char} (hl : '\n' ∉ l) (rest : List Char) :
    Text.lines (l ++ '\n' :: rest) = l :: Text.lines rest := by
  have hne : ∀ c ∈ l, (c == '\n') = false := fun c hc => beq_false_of_ne fun heq => hl (heq ▸ hc)
  rw [Text.lines, List.splitOn, List.splitOnP_append_cons_of_forall_mem hne '\n' (beq_self_eq_true '\n')]
  rfl

theorem skipComments_skipped {l : List Char} (hl : '\n' ∉ l) (hskip : isSkipped l = true) (rest : List Char) :
    skipComments (l ++ '\n' :: rest) = skipComments rest := by
  rw [skipComments, lines_line hl, List.dropWhile_cons, hskip]
  rfl

theorem skipComments_line {l : List Char} (hl : '\n' ∉ l) (hskip : isSkipped l = false) (rest : List Char) :
    skipComments (l ++ '\n' :: rest) = l ++ '\n' :: rest := by
  have hdrop : (Text.lines (l ++ '\n' :: rest)).dropWhile isSkipped = Text.lines (l ++ '\n' :: rest) := by
    rw [lines_line hl, List.dropWhile_cons, hskip]
    rfl
  rw [skipComments, hdrop, Text.lines, List.intercalate_splitOn]

theorem length_intercalate_dropWhile_le (p : List Char → Bool) (ls : List (List Char)) :
    (['\n'].intercalate (ls.dropWhile p)).length ≤ (['\n'].intercalate ls).length := by
  induction ls with
  | nil => exact Nat.le_refl _
  | cons l ls ih =>
      rw [List.dropWhile_cons]
      split
      · refine Nat.le_trans ih ?_
        cases ls with
        | nil => exact Nat.zero_le _
        | cons l' ls =>
            rw [List.intercalate_cons_cons, List.length_append]
            exact Nat.le_add_left _ _
      · exact Nat.le_refl _

theorem length_skipComments_le (is : List Char) : (skipComments is).length ≤ is.length := by
  have hle := length_intercalate_dropWhile_le isSkipped (Text.lines is)
  rwa [Text.lines, List.intercalate_splitOn] at hle

namespace FlowReader

variable {D : Type} {env : FlowReader D}

theorem readFlow_eq_some {is rest : List Char} {input : TimedFlow D} (h : env.readFlow is = some (input, rest)) :
    rest.length < is.length := by
  simp only [readFlow, Option.bind_eq_bind, Option.bind_eq_some_iff, Prod.exists, Option.some_inj,
    Prod.mk.injEq] at h
  obtain ⟨_, _, hsrc, _, _, hdst, _, _, hpg, _, _, hdport, _, _, hsize, _, _, hstart, -, rfl⟩ := h
  have hsrc := length_getUnsigned hsrc
  have hdst := length_getUnsigned hdst
  have hpg := length_getUnsigned hpg
  have hdport := length_getUnsigned hdport
  have hsize := length_getUnsigned hsize
  have hstart := length_getDouble_le hstart
  omega

theorem readFlow_line {l tail : List Char} {input : TimedFlow D} (h : env.readFlow l = some (input, tail))
    (rest : List Char) : env.readFlow (l ++ '\n' :: rest) = some (input, tail ++ '\n' :: rest) := by
  simp only [readFlow, Option.bind_eq_bind, Option.bind_eq_some_iff, Prod.exists, Option.some_inj,
    Prod.mk.injEq] at h
  obtain ⟨_, _, hsrc, _, _, hdst, _, _, hpg, _, _, hdport, _, _, hsize, _, _, hstart, rfl, rfl⟩ := h
  simp only [readFlow, Option.bind_eq_bind, Option.bind_some, getUnsigned_line rest hsrc, getUnsigned_line rest hdst,
    getUnsigned_line rest hpg, getUnsigned_line rest hdport, getUnsigned_line rest hsize, getDouble_line rest hstart]

theorem readFlow_skipComments {is rest : List Char} {input : TimedFlow D}
    (h : env.readFlow (skipComments is) = some (input, rest)) : rest.length < is.length :=
  Nat.lt_of_lt_of_le (readFlow_eq_some h) (length_skipComments_le is)

/-- More reads than characters find nothing more. -/
theorem readFlows_of_length_le {n m : Nat} {is : List Char} (hn : is.length ≤ n) (hm : is.length ≤ m) :
    env.readFlows n is = env.readFlows m is := by
  induction n generalizing m is with
  | zero =>
      cases m with
      | zero => rfl
      | succ m =>
          rw [readFlows, readFlows]
          split
          · rfl
          · next input rest hread =>
              have hlt := readFlow_skipComments hread
              omega
  | succ n ih =>
      cases m with
      | zero =>
          rw [readFlows, readFlows]
          split
          · rfl
          · next input rest hread =>
              have hlt := readFlow_skipComments hread
              omega
      | succ m =>
          rw [readFlows, readFlows]
          split
          · rfl
          · next input rest hread =>
              have hlt := readFlow_skipComments hread
              rw [ih (m := m) (by omega) (by omega)]

theorem allFlows_of_none {is : List Char} (h : env.readFlow (skipComments is) = none) : env.allFlows is = [] := by
  rw [allFlows, readFlows_of_length_le (Nat.le_refl _) (Nat.le_succ _), readFlows, h]

theorem allFlows_of_some {is rest : List Char} {input : TimedFlow D}
    (h : env.readFlow (skipComments is) = some (input, rest)) :
    env.allFlows is = input :: env.allFlows rest := by
  have hlt := readFlow_skipComments h
  rw [allFlows, readFlows_of_length_le (Nat.le_refl _) (Nat.le_succ _), readFlows, h]
  exact congrArg (input :: ·) (readFlows_of_length_le (by omega) (Nat.le_refl _))

theorem allFlows_congr {is is' : List Char} (h : skipComments is = skipComments is') :
    env.allFlows is = env.allFlows is' := by
  cases hread : env.readFlow (skipComments is) with
  | none =>
      have hread' : env.readFlow (skipComments is') = none := h ▸ hread
      rw [allFlows_of_none hread, allFlows_of_none hread']
  | some p =>
      have hread' : env.readFlow (skipComments is') = some (p.1, p.2) := h ▸ hread
      rw [allFlows_of_some hread, allFlows_of_some hread']

variable (env)

/-- A line that holds the six numbers of a flow and no more. -/
structure IsFlowLine (l : List Char) (input : TimedFlow D) : Prop where
  line : '\n' ∉ l
  kept : isSkipped l = false
  reads : ∃ tail, env.readFlow l = some (input, tail) ∧ '\n' ∉ tail ∧ isSkipped tail = true

/-- A line that holds the number of flows. -/
structure IsCountLine (l : List Char) (flowNum : Nat) : Prop where
  line : '\n' ∉ l
  kept : isSkipped l = false
  reads : ∃ tail, getUnsigned 32 l = some (flowNum, tail) ∧ '\n' ∉ tail ∧ isSkipped tail = true

/-- A comment or a blank line. -/
def IsSkippedLine (l : List Char) : Prop := '\n' ∉ l ∧ isSkipped l = true

/-- Well-formed lines, with the flows they hold. -/
inductive FlowLines : List (List Char) → List (TimedFlow D) → Prop where
  | nil : FlowLines [] []
  | skipped {l : List Char} {ls : List (List Char)} {inputs : List (TimedFlow D)} (hl : IsSkippedLine l)
      (hrest : FlowLines ls inputs) : FlowLines (l :: ls) inputs
  | flow {l : List Char} {input : TimedFlow D} {ls : List (List Char)} {inputs : List (TimedFlow D)}
      (hl : env.IsFlowLine l input) (hrest : FlowLines ls inputs) : FlowLines (l :: ls) (input :: inputs)

/-- Lines in a file. -/
def fileOf (ls : List (List Char)) (tail : List Char) : List Char := ls.flatMap (· ++ ['\n']) ++ tail

theorem fileOf_cons (l : List Char) (ls : List (List Char)) (tail : List Char) :
    fileOf (l :: ls) tail = l ++ '\n' :: fileOf ls tail := by
  rw [fileOf, fileOf, List.flatMap_cons, List.append_assoc, List.append_assoc]
  rfl

variable {env}

/-- Well-formed lines are read as the flows they hold. -/
theorem allFlows_fileOf {ls : List (List Char)} {inputs : List (TimedFlow D)} (hlines : env.FlowLines ls inputs)
    (tail : List Char) : env.allFlows (fileOf ls tail) = inputs ++ env.allFlows tail := by
  induction hlines with
  | nil => rfl
  | skipped hl _ ih => rw [fileOf_cons, allFlows_congr (skipComments_skipped hl.1 hl.2 _), ih]
  | @flow l input ls inputs hl _ ih =>
      obtain ⟨rest, hread, hrest, hblank⟩ := hl.reads
      have hread' : env.readFlow (skipComments (fileOf (l :: ls) tail)) = some (input, rest ++ '\n' :: fileOf ls tail) := by
        rw [fileOf_cons, skipComments_line hl.line hl.kept, readFlow_line hread]
      rw [allFlows_of_some hread', allFlows_congr (skipComments_skipped hrest hblank _), ih, List.cons_append]

theorem flows_eq {text is : List Char} {flowNum : Nat} (h : getUnsigned 32 (skipComments text) = some (flowNum, is)) :
    env.flows text = (env.allFlows is).take flowNum := by
  rw [flows, h]

/-- A file with well-formed lines up to some place: comments, the number of flows, and lines with flows. -/
theorem flows_fileOf {front ls : List (List Char)} {count : List Char} {flowNum : Nat} {inputs : List (TimedFlow D)}
    (hfront : ∀ l ∈ front, IsSkippedLine l) (hcount : IsCountLine count flowNum) (hlines : env.FlowLines ls inputs)
    (tail : List Char) :
    env.flows (fileOf (front ++ count :: ls) tail) = (inputs ++ env.allFlows tail).take flowNum := by
  induction front with
  | nil =>
      obtain ⟨rest, hread, hrest, hblank⟩ := hcount.reads
      have hread' : getUnsigned 32 (skipComments (fileOf (count :: ls) tail)) =
          some (flowNum, rest ++ '\n' :: fileOf ls tail) := by
        rw [fileOf_cons, skipComments_line hcount.line hcount.kept, getUnsigned_line _ hread]
      rw [List.nil_append, flows_eq hread', allFlows_congr (skipComments_skipped hrest hblank _),
        allFlows_fileOf hlines]
  | cons l front ih =>
      rw [List.forall_mem_cons] at hfront
      rw [List.cons_append, fileOf_cons, flows, skipComments_skipped hfront.1.1 hfront.1.2]
      exact ih hfront.2

end FlowReader

end Lcmp
