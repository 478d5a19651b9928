import Lcmp.Driver.FlowReader
import Lcmp.Lib.While

/-!
# The chain of events that schedules the flows

`ScheduleFlowInputs` installs the flows that are due and schedules itself for the next one, which it has read
already. `qp_finish` counts the flows that complete and stops the simulation when their number is that of the
flows, which the reader may have made smaller meanwhile. The two events come in any order that their times allow.
-/

namespace Lcmp

open Extraction

/-- The globals of the driver that the chain uses, with what was installed and when, which flows completed and
when, and the times at which the simulation was stopped. `event` is the time of the event that is scheduled. -/
structure FlowSchedule (D : Type) where
  now : Int
  event : Option Int
  flowInput : TimedFlow D
  idx : Nat
  flowNum : Nat
  flowf : List Char
  scheduledFlows : Nat
  allFlowsScheduled : Bool
  completedFlows : Nat
  installed : List (TimedFlow D × Int)
  finished : List (Nat × Int)
  stops : List Int

inductive ScheduleEvent where
  | scheduleFlowInputs
  /-- The queue pair of an installed flow is finished. -/
  | qpFinish (flow : Nat) (time : Int)
  deriving DecidableEq

namespace FlowSchedule

variable {D : Type} (env : FlowReader D)

/-- The result is `none` when the assertion fails. What a read that fails has changed in `flow_input` is not used
any more. -/
def readFlowInput (s : FlowSchedule D) : Option (Bool × FlowSchedule D) :=
  if s.idx < s.flowNum then
    match env.readFlow (skipComments s.flowf) with
    | none => some (false, { s with flowNum := s.idx })
    | some (input, flowf) =>
        if env.isHost input.src ∧ env.isHost input.dst then
          some (true, { s with flowInput := input, flowf := flowf })
        else none
  else some (false, s)

/-- The flow that was read is installed. -/
def install (s : FlowSchedule D) : FlowSchedule D :=
  { s with
    scheduledFlows := s.scheduledFlows + 1
    installed := s.installed ++ [(s.flowInput, s.now)]
    idx := s.idx + 1 }

/-- A turn of the loop, with a tolerance of 1 ns. -/
def turn (s : FlowSchedule D) : FlowSchedule D ⊕ Option (FlowSchedule D) :=
  if s.idx < s.flowNum ∧ env.seconds s.flowInput.startTime ≤ s.now + 1 then
    match readFlowInput env s.install with
    | none => .inr none
    | some (false, s) => .inr (some s)
    | some (true, s) => .inl s
  else .inr (some s)

/-- What follows the loop. -/
def reschedule (s : FlowSchedule D) : FlowSchedule D :=
  if s.idx < s.flowNum then
    let delta := env.seconds s.flowInput.startTime - s.now
    let delta := if delta ≤ 0 then 1 else delta
    { s with event := some (s.now + delta) }
  else { s with allFlowsScheduled := true }

/-- There are no more turns than flows. -/
def scheduleFlowInputs (s : FlowSchedule D) : Option (FlowSchedule D) := do
  let left ← While.run (turn env) (s.flowNum - s.idx + 1) s
  let s ← left
  some (s.reschedule env)

/-- The counter at the end of `qp_finish`. -/
def qpFinish (flow : Nat) (s : FlowSchedule D) : FlowSchedule D :=
  let s := { s with finished := s.finished ++ [(flow, s.now)], completedFlows := s.completedFlows + 1 }
  if s.completedFlows = s.flowNum then { s with stops := s.stops ++ [s.now] } else s

/-- Events are processed in the order of their times. A flow completes once. -/
def next (s : FlowSchedule D) : ScheduleEvent → Option (FlowSchedule D)
  | .scheduleFlowInputs =>
      match s.event with
      | none => none
      | some time => scheduleFlowInputs env { s with now := time, event := none }
  | .qpFinish flow time =>
      if flow < s.installed.length ∧ flow ∉ s.finished.map Prod.fst ∧ s.now ≤ time ∧ ∀ t ∈ s.event, time ≤ t then
        some (qpFinish flow { s with now := time })
      else none

/-- The part of `main` about the flows. A number of flows that cannot be read is 0, or too large, and then no flow
is read either. An event cannot be scheduled for a time that is past. -/
def main (text : List Char) : Option (FlowSchedule D) := do
  let (flowNum, flowf) := (getUnsigned 32 (skipComments text)).getD (0, [])
  let s : FlowSchedule D := {
    now := 0
    event := none
    flowInput := ⟨⟨0, 0, 0, 0, 0⟩, env.zero⟩
    idx := 0
    flowNum
    flowf
    scheduledFlows := 0
    allFlowsScheduled := false
    completedFlows := 0
    installed := []
    finished := []
    stops := [] }
  if s.flowNum > 0 then
    match ← readFlowInput env s with
    | (false, s) => some { s with flowNum := 0 }
    | (true, s) =>
        let delta := env.seconds s.flowInput.startTime - s.now
        if 0 ≤ delta then some { s with event := some (s.now + delta) } else none
  else some s

def system (s₀ : FlowSchedule D) : System (FlowSchedule D) ScheduleEvent where
  init := s₀
  next := next env

/-! ### One event -/

/-- The nodes of the flows are hosts. -/
def Hosts (flows : List (TimedFlow D)) : Prop :=
  ∀ input ∈ flows, env.isHost input.src = true ∧ env.isHost input.dst = true

/-- What was installed are the first flows, none of them more than 1 ns early. -/
structure Logged (flows : List (TimedFlow D)) (s : FlowSchedule D) : Prop where
  installed : s.installed.map Prod.fst = flows.take s.idx
  length : s.installed.length = s.idx
  scheduledFlows : s.scheduledFlows = s.idx
  early : ∀ x ∈ s.installed, env.seconds x.1.startTime ≤ x.2 + 1

/-- The next flow was read. -/
structure Ahead (flows : List (TimedFlow D)) (s : FlowSchedule D) : Prop where
  idx_lt : s.idx < s.flowNum
  drop : flows.drop s.idx = s.flowInput :: (env.allFlows s.flowf).take (s.flowNum - (s.idx + 1))

/-- All flows were read, and the reader knows. -/
structure Exhausted (flows : List (TimedFlow D)) (s : FlowSchedule D) : Prop where
  idx : s.idx = flows.length
  flowNum : s.flowNum = flows.length

/-- What the loop leaves alone, and when it installs flows. -/
structure Extends (s t : FlowSchedule D) : Prop where
  installed : ∃ added, t.installed = s.installed ++ added ∧ ∀ x ∈ added, x.2 = s.now
  now : t.now = s.now
  event : t.event = s.event
  allFlowsScheduled : t.allFlowsScheduled = s.allFlowsScheduled
  completedFlows : t.completedFlows = s.completedFlows
  finished : t.finished = s.finished
  stops : t.stops = s.stops

variable {env} {flows : List (TimedFlow D)} {s t : FlowSchedule D}

theorem Extends.refl (s : FlowSchedule D) : Extends s s :=
  ⟨⟨[], (List.append_nil _).symm, fun _ hx => absurd hx List.not_mem_nil⟩, rfl, rfl, rfl, rfl, rfl, rfl⟩

theorem Extends.trans {u : FlowSchedule D} (h : Extends s t) (h' : Extends t u) : Extends s u := by
  obtain ⟨added, hadded, hnow⟩ := h.installed
  obtain ⟨added', hadded', hnow'⟩ := h'.installed
  refine ⟨⟨added ++ added', by rw [hadded', hadded, List.append_assoc], fun x hx => ?_⟩, h'.now.trans h.now,
    h'.event.trans h.event, h'.allFlowsScheduled.trans h.allFlowsScheduled, h'.completedFlows.trans h.completedFlows,
    h'.finished.trans h.finished, h'.stops.trans h.stops⟩
  rcases List.mem_append.mp hx with hx | hx
  · exact hnow x hx
  · exact (hnow' x hx).trans h.now

theorem Extends.install (s : FlowSchedule D) : Extends s s.install :=
  ⟨⟨[(s.flowInput, s.now)], rfl, fun _ hx => by rw [List.mem_singleton.mp hx]⟩, rfl, rfl, rfl, rfl, rfl, rfl⟩

theorem Ahead.lt_length (h : Ahead env flows s) : s.idx < flows.length := by
  have hlen := congrArg List.length h.drop
  rw [List.length_drop, List.length_cons] at hlen
  omega

/-- Reading on: the next flow, or the end of the flows, which sets their number. -/
theorem readFlowInput_spec (hhosts : Hosts env flows) (hle : s.idx ≤ s.flowNum) (hlength : s.idx ≤ flows.length)
    (hdrop : flows.drop s.idx = (env.allFlows s.flowf).take (s.flowNum - s.idx)) :
    (∃ input flowf, readFlowInput env s = some (true, { s with flowInput := input, flowf := flowf }) ∧
      Ahead env flows { s with flowInput := input, flowf := flowf }) ∨
    (∃ flowNum, readFlowInput env s = some (false, { s with flowNum := flowNum }) ∧
      Exhausted flows { s with flowNum := flowNum }) := by
  have hend : flows.drop s.idx = [] → s.idx = flows.length := fun hnil =>
    Nat.le_antisymm hlength (List.drop_eq_nil_iff.mp hnil)
  by_cases hidx : s.idx < s.flowNum
  · cases hread : env.readFlow (skipComments s.flowf) with
    | none =>
        right
        refine ⟨s.idx, ?_, ?_⟩
        · rw [readFlowInput, if_pos hidx, hread]
        · rw [FlowReader.allFlows_of_none hread, List.take_nil] at hdrop
          exact ⟨hend hdrop, hend hdrop⟩
    | some p =>
        left
        obtain ⟨input, flowf⟩ := p
        have hnum : s.flowNum - s.idx = s.flowNum - (s.idx + 1) + 1 := by omega
        rw [FlowReader.allFlows_of_some hread, hnum, List.take_succ_cons] at hdrop
        have hmem : input ∈ flows := List.mem_of_mem_drop (hdrop ▸ List.mem_cons_self)
        refine ⟨input, flowf, ?_, ⟨hidx, hdrop⟩⟩
        rw [readFlowInput, if_pos hidx, hread]
        exact if_pos (hhosts input hmem)
  · right
    have hnum : s.flowNum - s.idx = 0 := by omega
    rw [hnum, List.take_zero] at hdrop
    refine ⟨s.flowNum, ?_, ⟨hend hdrop, ?_⟩⟩
    · rw [readFlowInput, if_neg hidx]
    · have hlen := hend hdrop
      show s.flowNum = flows.length
      omega

theorem Logged.install (h : Logged env flows s) (hahead : Ahead env flows s)
    (hdue : env.seconds s.flowInput.startTime ≤ s.now + 1) : Logged env flows s.install := by
  have hlt := hahead.lt_length
  have hget : flows[s.idx] = s.flowInput := by
    have hdrop := hahead.drop
    rw [List.drop_eq_getElem_cons hlt] at hdrop
    exact (List.cons.inj hdrop).1
  refine ⟨?_, ?_, ?_, fun x hx => ?_⟩
  · show (s.installed ++ [(s.flowInput, s.now)]).map Prod.fst = flows.take (s.idx + 1)
    rw [List.map_append, h.installed, List.take_succ_eq_append_getElem hlt, hget]
    rfl
  · show (s.installed ++ [(s.flowInput, s.now)]).length = s.idx + 1
    rw [List.length_append, h.length]
    rfl
  · show s.scheduledFlows + 1 = s.idx + 1
    rw [h.scheduledFlows]
  · rcases List.mem_append.mp hx with hx | hx
    · exact h.early x hx
    · rw [List.mem_singleton.mp hx]
      exact hdue

/-- The invariant of the loop that begins in `s`. -/
structure LoopInv (env : FlowReader D) (flows : List (TimedFlow D)) (s t : FlowSchedule D) : Prop where
  logged : Logged env flows t
  ahead : Ahead env flows t
  same : Extends s t
  flowNum : t.flowNum = s.flowNum
  grown : t = s ∨ s.idx < t.idx

/-- What a turn can do: stop before a flow that is not due yet, or install one and go on, or install the last
one. -/
theorem turn_spec {r : FlowSchedule D} (hhosts : Hosts env flows) (h : LoopInv env flows s r) :
    (¬ env.seconds r.flowInput.startTime ≤ r.now + 1 ∧ turn env r = .inr (some r)) ∨
    (∃ t, turn env r = .inl t ∧ LoopInv env flows s t ∧ t.idx = r.idx + 1) ∨
    (∃ t, turn env r = .inr (some t) ∧ Logged env flows t ∧ Exhausted flows t ∧ Extends s t ∧ s.idx < t.idx) := by
  by_cases hdue : env.seconds r.flowInput.startTime ≤ r.now + 1
  · right
    have hlogged := h.logged.install h.ahead hdue
    have hdrop : flows.drop (r.idx + 1) = (env.allFlows r.flowf).take (r.flowNum - (r.idx + 1)) := by
      rw [← List.tail_drop, h.ahead.drop, List.tail_cons]
    have hsame : Extends s r.install := h.same.trans (.install r)
    have hgrown : s.idx < r.idx + 1 := by
      rcases h.grown with rfl | hlt
      · exact Nat.lt_succ_self _
      · exact Nat.lt_succ_of_lt hlt
    have hpos : r.idx < r.flowNum ∧ env.seconds r.flowInput.startTime ≤ r.now + 1 := ⟨h.ahead.idx_lt, hdue⟩
    rcases readFlowInput_spec (s := r.install) hhosts h.ahead.idx_lt h.ahead.lt_length hdrop with
      ⟨input, flowf, hread, hahead⟩ | ⟨flowNum, hread, hend⟩
    · left
      refine ⟨{ r.install with flowInput := input, flowf := flowf }, ?_, ⟨?_, hahead,
        ⟨hsame.installed, hsame.now, hsame.event, hsame.allFlowsScheduled, hsame.completedFlows, hsame.finished,
          hsame.stops⟩, h.flowNum, .inr hgrown⟩, rfl⟩
      · rw [turn, if_pos hpos, hread]
      · exact ⟨hlogged.installed, hlogged.length, hlogged.scheduledFlows, hlogged.early⟩
    · right
      refine ⟨{ r.install with flowNum := flowNum }, ?_, ?_, hend, ⟨hsame.installed, hsame.now, hsame.event,
        hsame.allFlowsScheduled, hsame.completedFlows, hsame.finished, hsame.stops⟩, hgrown⟩
      · rw [turn, if_pos hpos, hread]
      · exact ⟨hlogged.installed, hlogged.length, hlogged.scheduledFlows, hlogged.early⟩
  · left
    refine ⟨hdue, ?_⟩
    rw [turn, if_neg fun hpos => hdue hpos.2]

/-- The event installs at least the flow it was scheduled for. It schedules the next one for the time at which the
next flow starts, or was the last of its kind. -/
theorem scheduleFlowInputs_spec (hhosts : Hosts env flows) (hlogged : Logged env flows s) (hahead : Ahead env flows s)
    (hdue : env.seconds s.flowInput.startTime ≤ s.now + 1) :
    ∃ t, scheduleFlowInputs env s = some t ∧ s.idx < t.idx ∧ Logged env flows t ∧
      Extends { s with event := t.event, allFlowsScheduled := t.allFlowsScheduled } t ∧
      ((t.event = some (env.seconds t.flowInput.startTime) ∧ Ahead env flows t ∧
          s.now + 1 < env.seconds t.flowInput.startTime ∧ t.allFlowsScheduled = s.allFlowsScheduled) ∨
        (t.event = s.event ∧ Exhausted flows t ∧ t.allFlowsScheduled = true)) := by
  have hstart : LoopInv env flows s s := ⟨hlogged, hahead, .refl s, rfl, .inl rfl⟩
  have hstep : ∀ r t, LoopInv env flows s r → turn env r = .inl t →
      LoopInv env flows s t ∧ t.flowNum - t.idx < r.flowNum - r.idx := by
    intro r t hr hturn
    rcases turn_spec hhosts hr with ⟨-, hexit⟩ | ⟨t', hnext, ht', hidx⟩ | ⟨t', hexit, -⟩
    · rw [hexit] at hturn
      cases hturn
    · rw [hnext] at hturn
      obtain rfl := Sum.inl.inj hturn
      have hlt := hr.ahead.idx_lt
      refine ⟨ht', ?_⟩
      rw [ht'.flowNum, hr.flowNum] at *
      omega
    · rw [hexit] at hturn
      cases hturn
  obtain ⟨left, hrun⟩ := While.run_of_measure (fun r => r.flowNum - r.idx) hstep hstart (Nat.lt_succ_self _)
  obtain ⟨r, hr, hexit⟩ := While.exit_of_run (fun r t hr hturn => (hstep r t hr hturn).1) hstart hrun
  rcases turn_spec hhosts hr with ⟨hnot, hleave⟩ | ⟨t', hnext, -⟩ | ⟨t', hleave, hlog, hend, hsame, hlt⟩
  · -- The loop was left before a flow that is not due, so this one is not the first.
    rw [hleave] at hexit
    obtain rfl := Sum.inr.inj hexit
    have hlt : s.idx < r.idx := by
      rcases hr.grown with rfl | hlt
      · exact absurd hdue hnot
      · exact hlt
    have hnow := hr.same.now
    have hdelta : ¬ env.seconds r.flowInput.startTime - r.now ≤ 0 := by omega
    have htime : r.now + (env.seconds r.flowInput.startTime - r.now) = env.seconds r.flowInput.startTime := by omega
    refine ⟨{ r with event := some (env.seconds r.flowInput.startTime) }, ?_, hlt,
      ⟨hr.logged.installed, hr.logged.length, hr.logged.scheduledFlows, hr.logged.early⟩,
      ⟨hr.same.installed, hnow, rfl, rfl, hr.same.completedFlows, hr.same.finished, hr.same.stops⟩,
      .inl ⟨rfl, ⟨hr.ahead.idx_lt, hr.ahead.drop⟩, ?_, hr.same.allFlowsScheduled⟩⟩
    · rw [scheduleFlowInputs, hrun]
      simp only [Option.bind_eq_bind, Option.bind_some, reschedule, if_pos hr.ahead.idx_lt, if_neg hdelta, htime]
    · show s.now + 1 < env.seconds r.flowInput.startTime
      omega
  · rw [hnext] at hexit
    cases hexit
  · rw [hleave] at hexit
    obtain rfl := Sum.inr.inj hexit
    have hdone : ¬ t'.idx < t'.flowNum := by
      rw [hend.idx, hend.flowNum]
      exact Nat.lt_irrefl _
    refine ⟨{ t' with allFlowsScheduled := true }, ?_, hlt,
      ⟨hlog.installed, hlog.length, hlog.scheduledFlows, hlog.early⟩,
      ⟨hsame.installed, hsame.now, rfl, rfl, hsame.completedFlows, hsame.finished, hsame.stops⟩,
      .inr ⟨hsame.event, ⟨hend.idx, hend.flowNum⟩, rfl⟩⟩
    rw [scheduleFlowInputs, hrun]
    simp only [Option.bind_eq_bind, Option.bind_some, reschedule, if_neg hdone]

/-! ### Every run -/

/-- The invariant of the two events. -/
structure Inv (env : FlowReader D) (flows : List (TimedFlow D)) (s : FlowSchedule D) : Prop where
  logged : Logged env flows s
  chain : (s.event = some (env.seconds s.flowInput.startTime) ∧ Ahead env flows s ∧
      s.now ≤ env.seconds s.flowInput.startTime ∧ s.allFlowsScheduled = false) ∨
    (s.event = none ∧ Exhausted flows s ∧ (s.allFlowsScheduled = true ↔ flows ≠ []))
  completedFlows : s.completedFlows = s.finished.length
  nodup : (s.finished.map Prod.fst).Nodup
  below : ∀ f ∈ s.finished.map Prod.fst, f < s.idx
  stops : s.stops = (s.finished.drop (flows.length - 1)).map Prod.snd

/-- What an event installs is not before the flow it begins with. -/
theorem Ahead.le_of_mem_added (h : Ahead env flows s)
    (hsorted : flows.Pairwise fun a b => env.seconds a.startTime ≤ env.seconds b.startTime)
    (hs : Logged env flows s) (ht : Logged env flows t) {added : List (TimedFlow D × Int)}
    (hadded : t.installed = s.installed ++ added) {x : TimedFlow D × Int} (hx : x ∈ added) :
    env.seconds s.flowInput.startTime ≤ env.seconds x.1.startTime := by
  have hmap : added.map Prod.fst = (flows.take t.idx).drop s.idx := by
    have hlen : (s.installed.map Prod.fst).length = s.idx := by rw [List.length_map, hs.length]
    rw [← ht.installed, hadded, List.map_append, ← hlen, List.drop_left]
  have hmem : x.1 ∈ flows.drop s.idx := by
    have hmem : x.1 ∈ (flows.take t.idx).drop s.idx := hmap ▸ List.mem_map_of_mem hx
    rw [List.drop_take] at hmem
    exact List.mem_of_mem_take hmem
  have hdrop := hsorted.sublist (List.drop_sublist s.idx flows)
  rw [h.drop] at hmem hdrop
  rcases List.mem_cons.mp hmem with heq | hrest
  · rw [heq]
  · exact (List.pairwise_cons.mp hdrop).1 x.1 hrest

theorem Inv.idx_le (h : Inv env flows s) : s.idx ≤ flows.length ∧ s.idx ≤ s.flowNum := by
  rcases h.chain with ⟨-, hahead, -⟩ | ⟨-, hend, -⟩
  · exact ⟨Nat.le_of_lt hahead.lt_length, Nat.le_of_lt hahead.idx_lt⟩
  · rw [hend.idx, hend.flowNum]
    exact ⟨Nat.le_refl _, Nat.le_refl _⟩

theorem length_le_of_nodup {l : List Nat} {n : Nat} (hnodup : l.Nodup) (hbelow : ∀ f ∈ l, f < n) : l.length ≤ n := by
  have hsub : l ⊆ List.range n := fun f hf => List.mem_range.mpr (hbelow f hf)
  have hlen := (hnodup.subperm hsub).length_le
  rwa [List.length_range] at hlen

theorem Inv.of_scheduleFlowInputs (hhosts : Hosts env flows) (h : Inv env flows s) {time : Int}
    (hevent : s.event = some time) :
    ∃ t, next env s .scheduleFlowInputs = some t ∧ Inv env flows t ∧ s.idx < t.idx ∧ Ahead env flows s ∧
      ∃ added, t.installed = s.installed ++ added ∧ ∀ x ∈ added, x.2 = env.seconds s.flowInput.startTime := by
  rcases h.chain with ⟨hevent', hahead, hnow, hflag⟩ | ⟨hevent', -⟩
  · rw [hevent] at hevent'
    obtain rfl := Option.some.inj hevent'
    have hdue : env.seconds s.flowInput.startTime ≤ env.seconds s.flowInput.startTime + 1 := by omega
    obtain ⟨t, hstep, hlt, hlogged, hsame, hchain⟩ := scheduleFlowInputs_spec
      (s := { s with now := env.seconds s.flowInput.startTime, event := none }) hhosts
      ⟨h.logged.installed, h.logged.length, h.logged.scheduledFlows, h.logged.early⟩
      ⟨hahead.idx_lt, hahead.drop⟩ hdue
    refine ⟨t, ?_, ⟨hlogged, ?_, ?_, ?_, ?_, ?_⟩, hlt, hahead, hsame.installed⟩
    · rw [next, hevent]
      exact hstep
    · rcases hchain with ⟨hnext, hahead', hlate, hflag'⟩ | ⟨hnone, hend, hflag'⟩
      · refine .inl ⟨hnext, hahead', ?_, hflag'.trans hflag⟩
        have htime : t.now = env.seconds s.flowInput.startTime := hsame.now
        have hlate' : env.seconds s.flowInput.startTime + 1 < env.seconds t.flowInput.startTime := hlate
        omega
      · refine .inr ⟨hnone, hend, iff_of_true hflag' ?_⟩
        exact List.ne_nil_of_length_pos (Nat.lt_of_le_of_lt (Nat.zero_le _) hahead.lt_length)
    · rw [hsame.completedFlows, hsame.finished]
      exact h.completedFlows
    · rw [hsame.finished]
      exact h.nodup
    · rw [hsame.finished]
      exact fun f hf => Nat.lt_trans (h.below f hf) hlt
    · rw [hsame.stops, hsame.finished]
      exact h.stops
  · rw [hevent] at hevent'
    cases hevent'

theorem Inv.of_qpFinish (h : Inv env flows s) {flow : Nat} {time : Int} (hflow : flow < s.installed.length)
    (hfresh : flow ∉ s.finished.map Prod.fst) (htime : ∀ t ∈ s.event, time ≤ t) :
    Inv env flows (qpFinish flow { s with now := time }) := by
  have hidx := h.idx_le
  rw [h.logged.length] at hflow
  have hnodup : ((s.finished ++ [(flow, time)]).map Prod.fst).Nodup := by
    rw [List.map_append, List.nodup_append]
    refine ⟨h.nodup, List.nodup_singleton _, fun f hf g hg => ?_⟩
    rw [List.mem_singleton.mp hg]
    rintro rfl
    exact hfresh hf
  have hbelow : ∀ f ∈ (s.finished ++ [(flow, time)]).map Prod.fst, f < s.idx := by
    intro f hf
    rw [List.map_append, List.mem_append] at hf
    rcases hf with hf | hf
    · exact h.below f hf
    · rw [List.mem_singleton.mp hf]
      exact hflow
  have hcount : s.finished.length + 1 ≤ s.idx := by
    have hlen := length_le_of_nodup hnodup hbelow
    rwa [List.length_map, List.length_append] at hlen
  have hold : s.stops = [] := by
    rw [h.stops, List.drop_eq_nil_of_le (by omega), List.map_nil]
  -- The two numbers of flows agree as soon as all flows can have completed.
  have hlast : s.finished.length + 1 = s.flowNum ↔ s.finished.length + 1 = flows.length := by
    rcases h.chain with ⟨-, hahead, -⟩ | ⟨-, hend, -⟩
    · have hlt := hahead.idx_lt
      have hlt' := hahead.lt_length
      omega
    · rw [hend.flowNum]
  have hchain : (s.event = some (env.seconds s.flowInput.startTime) ∧ Ahead env flows s ∧
        time ≤ env.seconds s.flowInput.startTime ∧ s.allFlowsScheduled = false) ∨
      (s.event = none ∧ Exhausted flows s ∧ (s.allFlowsScheduled = true ↔ flows ≠ [])) := by
    rcases h.chain with ⟨hevent, hahead, -, hflag⟩ | hdone
    · exact .inl ⟨hevent, hahead, htime _ hevent, hflag⟩
    · exact .inr hdone
  have hcompleted : s.completedFlows + 1 = (s.finished ++ [(flow, time)]).length := by
    rw [h.completedFlows, List.length_append]
    rfl
  have hstops : ∀ stops, stops = ((s.finished ++ [(flow, time)]).drop (flows.length - 1)).map Prod.snd →
      Inv env flows { s with
        now := time, finished := s.finished ++ [(flow, time)], completedFlows := s.completedFlows + 1, stops := stops } := by
    intro stops hstops
    refine ⟨⟨h.logged.installed, h.logged.length, h.logged.scheduledFlows, h.logged.early⟩, ?_, hcompleted, hnodup,
      hbelow, hstops⟩
    rcases hchain with ⟨hevent, hahead, hnow, hflag⟩ | ⟨hevent, hend, hflag⟩
    · exact .inl ⟨hevent, ⟨hahead.idx_lt, hahead.drop⟩, hnow, hflag⟩
    · exact .inr ⟨hevent, ⟨hend.idx, hend.flowNum⟩, hflag⟩
  rw [qpFinish]
  simp only [h.completedFlows]
  by_cases hfull : s.finished.length + 1 = s.flowNum
  · rw [if_pos hfull]
    have hlen : flows.length - 1 = s.finished.length := by
      have heq := hlast.mp hfull
      omega
    have hinv := hstops (s.stops ++ [time]) (by rw [hold, hlen, List.drop_left]; rfl)
    rwa [h.completedFlows] at hinv
  · rw [if_neg hfull]
    have hne := mt hlast.mpr hfull
    have hinv := hstops s.stops (by
      rw [hold, List.drop_eq_nil_of_le (by rw [List.length_append, List.length_singleton]; omega), List.map_nil])
    rwa [h.completedFlows] at hinv

theorem event_of_next (hnext : next env s .scheduleFlowInputs = some t) : ∃ time, s.event = some time := by
  cases hevent : s.event with
  | none =>
      rw [next, hevent] at hnext
      cases hnext
  | some time => exact ⟨time, rfl⟩

theorem next_qpFinish {flow : Nat} {time : Int} (hnext : next env s (.qpFinish flow time) = some t) :
    t = FlowSchedule.qpFinish flow { s with now := time } ∧ flow < s.installed.length ∧
      flow ∉ s.finished.map Prod.fst ∧ ∀ t ∈ s.event, time ≤ t := by
  simp only [next] at hnext
  split at hnext
  · next hguard => exact ⟨(Option.some.inj hnext).symm, hguard.1, hguard.2.1, hguard.2.2.2⟩
  · cases hnext

theorem installed_qpFinish (flow : Nat) (s : FlowSchedule D) : (qpFinish flow s).installed = s.installed := by
  simp only [qpFinish]
  split
  · rfl
  · rfl

theorem Inv.of_next (hhosts : Hosts env flows) (h : Inv env flows s) {a : ScheduleEvent}
    (hnext : next env s a = some t) : Inv env flows t := by
  cases a with
  | scheduleFlowInputs =>
      obtain ⟨time, hevent⟩ := event_of_next hnext
      obtain ⟨t', hnext', ht', -⟩ := h.of_scheduleFlowInputs hhosts hevent
      obtain rfl := Option.some.inj (hnext.symm.trans hnext')
      exact ht'
  | qpFinish flow time =>
      obtain ⟨rfl, hflow, hfresh, htime⟩ := next_qpFinish hnext
      exact h.of_qpFinish hflow hfresh htime

/-- Before the first event. -/
theorem Inv.of_start (hstart : s.installed = [] ∧ s.idx = 0 ∧ s.scheduledFlows = 0 ∧ s.completedFlows = 0 ∧
      s.finished = [] ∧ s.stops = [])
    (hchain : (s.event = some (env.seconds s.flowInput.startTime) ∧ Ahead env flows s ∧
        s.now ≤ env.seconds s.flowInput.startTime ∧ s.allFlowsScheduled = false) ∨
      (s.event = none ∧ Exhausted flows s ∧ (s.allFlowsScheduled = true ↔ flows ≠ []))) : Inv env flows s := by
  obtain ⟨hinstalled, hidx, hscheduled, hcompleted, hfinished, hstops⟩ := hstart
  refine ⟨⟨?_, ?_, hscheduled.trans hidx.symm, fun x hx => ?_⟩, hchain, ?_, ?_, fun f hf => ?_, ?_⟩
  · rw [hinstalled, hidx, List.map_nil, List.take_zero]
  · rw [hinstalled, hidx, List.length_nil]
  · rw [hinstalled] at hx
    exact absurd hx List.not_mem_nil
  · rw [hcompleted, hfinished, List.length_nil]
  · rw [hfinished]
    exact List.nodup_nil
  · rw [hfinished] at hf
    exact absurd hf List.not_mem_nil
  · rw [hstops, hfinished, List.drop_nil, List.map_nil]

theorem Inv.of_empty (hstart : s.installed = [] ∧ s.idx = 0 ∧ s.scheduledFlows = 0 ∧ s.completedFlows = 0 ∧
      s.finished = [] ∧ s.stops = []) (hevent : s.event = none) (hnum : s.flowNum = 0)
    (hflag : s.allFlowsScheduled = false) : Inv env [] s :=
  .of_start hstart (.inr ⟨hevent, ⟨hstart.2.1, hnum⟩, iff_of_false (by rw [hflag]; decide) (not_not_intro rfl)⟩)

/-- What `main` leaves. -/
theorem main_inv {text : List Char} (hhosts : Hosts env (env.flows text)) (hmain : main env text = some s) :
    Inv env (env.flows text) s ∧ s.installed = [] := by
  cases hcount : getUnsigned 32 (skipComments text) with
  | none =>
      have hflows : env.flows text = [] := by rw [FlowReader.flows, hcount]
      rw [main, hcount] at hmain
      obtain rfl := Option.some.inj hmain
      rw [hflows]
      exact ⟨.of_empty ⟨rfl, rfl, rfl, rfl, rfl, rfl⟩ rfl rfl rfl, rfl⟩
  | some p =>
      obtain ⟨flowNum, flowf⟩ := p
      have hflows : env.flows text = (env.allFlows flowf).take flowNum := FlowReader.flows_eq hcount
      rw [main, hcount] at hmain
      simp only [Option.getD_some] at hmain
      rw [hflows] at hhosts ⊢
      by_cases hnum : flowNum > 0
      · rw [if_pos hnum] at hmain
        rcases readFlowInput_spec (s := ⟨0, none, ⟨⟨0, 0, 0, 0, 0⟩, env.zero⟩, 0, flowNum, flowf, 0, false, 0, [], [],
          []⟩) hhosts (Nat.zero_le _) (Nat.zero_le _) rfl with
          ⟨input, flowf', hread, hahead⟩ | ⟨flowNum', hread, hend⟩
        · rw [hread] at hmain
          simp only [Option.bind_eq_bind, Option.bind_some] at hmain
          split at hmain
          · next hdelta =>
              obtain rfl := Option.some.inj hmain
              have htime : (0 : Int) + (env.seconds input.startTime - 0) = env.seconds input.startTime := by omega
              refine ⟨.of_start ⟨rfl, rfl, rfl, rfl, rfl, rfl⟩ (.inl ⟨congrArg some htime, ?_, ?_, rfl⟩), rfl⟩
              · exact ⟨hahead.idx_lt, hahead.drop⟩
              · show (0 : Int) ≤ env.seconds input.startTime
                omega
          · cases hmain
        · rw [hread] at hmain
          obtain rfl := Option.some.inj hmain
          have hnil := List.eq_nil_of_length_eq_zero hend.idx.symm
          rw [hnil]
          exact ⟨.of_empty ⟨rfl, rfl, rfl, rfl, rfl, rfl⟩ rfl rfl rfl, rfl⟩
      · rw [if_neg hnum] at hmain
        obtain rfl := Option.some.inj hmain
        have hzero : flowNum = 0 := by omega
        rw [hzero, List.take_zero]
        exact ⟨.of_empty ⟨rfl, rfl, rfl, rfl, rfl, rfl⟩ rfl rfl rfl, rfl⟩

/-- Nothing fails where no flow starts before 0. -/
theorem exists_main {text : List Char} (hhosts : Hosts env (env.flows text))
    (hstart : ∀ input ∈ env.flows text, 0 ≤ env.seconds input.startTime) : ∃ s, main env text = some s := by
  cases hcount : getUnsigned 32 (skipComments text) with
  | none =>
      rw [main, hcount]
      exact ⟨_, rfl⟩
  | some p =>
      obtain ⟨flowNum, flowf⟩ := p
      have hflows : env.flows text = (env.allFlows flowf).take flowNum := FlowReader.flows_eq hcount
      rw [hflows] at hhosts hstart
      rw [main, hcount]
      simp only [Option.getD_some]
      by_cases hnum : flowNum > 0
      · rw [if_pos hnum]
        rcases readFlowInput_spec (s := ⟨0, none, ⟨⟨0, 0, 0, 0, 0⟩, env.zero⟩, 0, flowNum, flowf, 0, false, 0, [], [],
          []⟩) hhosts (Nat.zero_le _) (Nat.zero_le _) rfl with
          ⟨input, flowf', hread, hahead⟩ | ⟨flowNum', hread, hend⟩
        · have hmem : input ∈ (env.allFlows flowf).take flowNum :=
            List.mem_of_mem_drop (hahead.drop ▸ List.mem_cons_self)
          have hdelta : 0 ≤ env.seconds input.startTime - 0 := by
            have := hstart input hmem
            omega
          rw [hread]
          simp only [Option.bind_eq_bind, Option.bind_some, if_pos hdelta]
          exact ⟨_, rfl⟩
        · rw [hread]
          exact ⟨_, rfl⟩
      · rw [if_neg hnum]
        exact ⟨_, rfl⟩

/-- The flows as the lines of a file. -/
def fileOf (flows : List (TimedFlow D)) : FlowFile where
  flowNum := flows.length
  line := fun i => (flows[i]?.map TimedFlow.toFlowInput).getD ⟨0, 0, 0, 0, 0⟩

variable (env flows) in
/-- What the chain does in a run, up to a state `s`. -/
structure ScheduledOnce (s : FlowSchedule D) : Prop where
  inOrder : s.installed.map Prod.fst <+: flows
  notEarly : ∀ x ∈ s.installed, env.seconds x.1.startTime ≤ x.2 + 1
  goesOn : s.event ≠ none → ∃ t, next env s .scheduleFlowInputs = some t ∧ s.installed.length < t.installed.length
  ends : s.event = none → s.installed.map Prod.fst = flows ∧ s.scheduledFlows = s.flowNum ∧
    (s.allFlowsScheduled = true ↔ flows ≠ [])
  completes : (s.finished.map Prod.fst).Nodup ∧ ∀ f ∈ s.finished.map Prod.fst, f < s.installed.length
  /-- The simulation is stopped with the completion that makes their number that of the flows. -/
  stops : s.stops = (s.finished.drop (flows.length - 1)).map Prod.snd

theorem Inv.scheduledOnce (hhosts : Hosts env flows) (h : Inv env flows s) : ScheduledOnce env flows s where
  inOrder := by
    rw [h.logged.installed]
    exact List.take_prefix _ _
  notEarly := h.logged.early
  goesOn := by
    intro hevent
    obtain ⟨time, htime⟩ := Option.ne_none_iff_exists'.mp hevent
    obtain ⟨t, hnext, ht, hlt, -⟩ := h.of_scheduleFlowInputs hhosts htime
    rw [← h.logged.length, ← ht.logged.length] at hlt
    exact ⟨t, hnext, hlt⟩
  ends := by
    intro hevent
    rcases h.chain with ⟨hsome, -⟩ | ⟨-, hend, hflag⟩
    · rw [hevent] at hsome
      cases hsome
    · refine ⟨?_, ?_, hflag⟩
      · rw [h.logged.installed, hend.idx, List.take_length]
      · rw [h.logged.scheduledFlows, hend.idx, hend.flowNum]
  completes := by
    refine ⟨h.nodup, fun f hf => ?_⟩
    rw [h.logged.length]
    exact h.below f hf
  stops := h.stops

/-- An event of the chain installs a flow, and a completion leaves what was installed. -/
theorem Inv.countP_le (hhosts : Hosts env flows) (h : Inv env flows s) {n : Nat} (hn : n ≤ s.installed.length)
    {a : ScheduleEvent} (hnext : next env s a = some t) :
    n + (if decide (a = .scheduleFlowInputs) = true then 1 else 0) ≤ t.installed.length := by
  cases a with
  | scheduleFlowInputs =>
      rw [if_pos (decide_eq_true rfl)]
      obtain ⟨time, htime⟩ := event_of_next hnext
      obtain ⟨t', hnext', hlt⟩ := (h.scheduledOnce hhosts).goesOn (by rw [htime]; exact Option.some_ne_none _)
      rw [hnext] at hnext'
      obtain rfl := Option.some.inj hnext'
      omega
  | qpFinish flow time =>
      rw [if_neg fun heq => nomatch of_decide_eq_true heq]
      obtain ⟨rfl, -⟩ := next_qpFinish hnext
      rw [installed_qpFinish]
      exact hn

theorem inv_of_reachable {text : List Char} {s₀ : FlowSchedule D} (hhosts : Hosts env (env.flows text))
    (hmain : main env text = some s₀) (hs : (system env s₀).Reachable s) : Inv env (env.flows text) s :=
  hs.invariant (main_inv hhosts hmain).1 fun _ _ _ h hnext => h.of_next hhosts hnext

/-- The chain installs the flows that the reader finds, each once, in the order of the file and not more than 1 ns
early; it ends with all of them installed, and the simulation is stopped when the last of them completes. Lines that
are well formed are read as the flows they hold. -/
theorem schedules_once (env : FlowReader D) {text : List Char} {s₀ : FlowSchedule D}
    (hmain : main env text = some s₀) (hhosts : Hosts env (env.flows text)) :
    (∀ s, (system env s₀).Reachable s → ScheduledOnce env (env.flows text) s) ∧
      (∀ trace s, (system env s₀).Run s₀ trace s →
        trace.countP (fun x => x.label = .scheduleFlowInputs) ≤ s.installed.length) ∧
      ∀ front count flowNum ls inputs tail, (∀ l ∈ front, FlowReader.IsSkippedLine l) →
        FlowReader.IsCountLine count flowNum → env.FlowLines ls inputs →
        text = FlowReader.fileOf (front ++ count :: ls) tail →
        env.flows text = (inputs ++ env.allFlows tail).take flowNum := by
  refine ⟨fun s hs => (inv_of_reachable hhosts hmain hs).scheduledOnce hhosts, fun trace s hrun => ?_, ?_⟩
  · have hcount := hrun.history (P := fun trace s => Inv env (env.flows text) s ∧
        trace.countP (fun x => x.label = .scheduleFlowInputs) ≤ s.installed.length)
      ⟨(main_inv hhosts hmain).1, Nat.zero_le _⟩ fun before s a t h hnext => ⟨h.1.of_next hhosts hnext, by
        rw [List.countP_append, List.countP_singleton]
        exact h.1.countP_le hhosts h.2 hnext⟩
    exact hcount.2
  · rintro front count flowNum ls inputs tail hfront hcount hlines rfl
    exact FlowReader.flows_fileOf hfront hcount hlines tail

/-- With start times in order no flow is late: what the event installs starts no earlier than the flow for which
it was scheduled. -/
theorem never_late (env : FlowReader D) {text : List Char} {s₀ : FlowSchedule D} (hmain : main env text = some s₀)
    (hhosts : Hosts env (env.flows text))
    (hsorted : (env.flows text).Pairwise fun a b => env.seconds a.startTime ≤ env.seconds b.startTime) :
    ∀ s, (system env s₀).Reachable s → ∀ x ∈ s.installed, x.2 ≤ env.seconds x.1.startTime := by
  intro s hs
  obtain ⟨hinv, hempty⟩ := main_inv hhosts hmain
  refine (hs.invariant (P := fun s => Inv env (env.flows text) s ∧ ∀ x ∈ s.installed, x.2 ≤ env.seconds x.1.startTime)
    ⟨hinv, fun x hx => ?_⟩ fun s a t h hnext => ⟨h.1.of_next hhosts hnext, ?_⟩).2
  · exact absurd (hempty ▸ hx) List.not_mem_nil
  · obtain ⟨h, hlate⟩ := h
    change next env s a = some t at hnext
    cases a with
    | scheduleFlowInputs =>
        obtain ⟨time, htime⟩ := event_of_next hnext
        obtain ⟨t', hnext', ht, hlt, hahead, added, hadded, hnow⟩ := h.of_scheduleFlowInputs hhosts htime
        obtain rfl := Option.some.inj (hnext.symm.trans hnext')
        intro x hx
        rw [hadded, List.mem_append] at hx
        rcases hx with hx | hx
        · exact hlate x hx
        · rw [hnow x hx]
          exact hahead.le_of_mem_added hsorted h.logged ht.logged hadded hx
    | qpFinish flow time =>
        obtain ⟨rfl, -⟩ := next_qpFinish hnext
        rw [installed_qpFinish]
        exact hlate

/-- The steps of the flow model that the installed flows are. -/
theorem exec_scheduleFlow (cfg : FlowNetConfig) (hcfg : cfg.isHost = env.isHost) (hhosts : Hosts env flows) {k : Nat}
    (net : FlowNet) (hk : net.idx + k ≤ flows.length) :
    ∃ net', (FlowNet.flowSystem cfg (fileOf flows)).exec net (List.replicate k .scheduleFlow) = some net' ∧
      net'.idx = net.idx + k := by
  induction k generalizing net with
  | zero => exact ⟨net, rfl, rfl⟩
  | succ k ih =>
      have hlt : net.idx < flows.length := by omega
      have hline : (fileOf flows).line net.idx = flows[net.idx].toFlowInput := by
        show (flows[net.idx]?.map TimedFlow.toFlowInput).getD ⟨0, 0, 0, 0, 0⟩ = _
        rw [List.getElem?_eq_getElem hlt]
        rfl
      have hhost := hhosts _ (List.getElem_mem hlt)
      have hnext : ∃ mid, FlowNet.flowNext cfg (fileOf flows) net .scheduleFlow = some mid ∧ mid.idx = net.idx + 1 := by
        rw [FlowNet.flowNext, FlowNet.scheduleFlow, if_pos (by exact hlt), hline, hcfg]
        exact ⟨_, if_pos hhost, rfl⟩
      obtain ⟨mid, hmid, hidx⟩ := hnext
      obtain ⟨net', hexec, hidx'⟩ := ih mid (by omega)
      refine ⟨net', ?_, by omega⟩
      rw [List.replicate_succ, System.exec]
      exact (congrArg (Option.bind · _) hmid).trans hexec

/-- What is installed in a run is installed in the flow model too, where the flows get their ports and keys. -/
theorem exec_installed (cfg : FlowNetConfig) (hcfg : cfg.isHost = env.isHost) (hhosts : Hosts env flows)
    (h : Inv env flows s) :
    ∃ net, (FlowNet.flowSystem cfg (fileOf flows)).exec (FlowNet.start cfg)
        (List.replicate s.installed.length .scheduleFlow) = some net ∧ net.idx = s.installed.length := by
  have hidx : (FlowNet.start cfg).idx = 0 := rfl
  have hle := h.idx_le.1
  rw [← h.logged.length] at hle
  obtain ⟨net, hexec, hnet⟩ := exec_scheduleFlow (k := s.installed.length) cfg hcfg hhosts (FlowNet.start cfg) (by omega)
  exact ⟨net, hexec, by omega⟩

/-! ### Files that are read differently -/

/-- The lines of the file end here: there is no line, or one that holds no flow. -/
def EndsLines (env : FlowReader D) (rest : List Char) : Prop :=
  rest = [] ∨ ∃ l rest', rest = l ++ '\n' :: rest' ∧ '\n' ∉ l ∧ isSkipped l = false ∧
    ∀ input, ¬ env.IsFlowLine l input

/-- Every line holds a flow or ends the file, and the chain ends in every file with its flag set. -/
def SchedulesLines (env : FlowReader D) (text : List Char) : Prop :=
  ∀ front count flowNum ls inputs rest, (∀ l ∈ front, FlowReader.IsSkippedLine l) →
    FlowReader.IsCountLine count flowNum → env.FlowLines ls inputs → EndsLines env rest →
    text = FlowReader.fileOf (front ++ count :: ls) rest →
    ∀ s₀, main env text = some s₀ → ∀ s, (system env s₀).Reachable s → s.event = none →
      s.installed.map Prod.fst = inputs.take flowNum ∧ s.allFlowsScheduled = true ∧ s.scheduledFlows = s.flowNum

/-- Start times in whole seconds. -/
def wholeSeconds : FlowReader Nat where
  isHost := fun _ => true
  strtod := fun text => if text.all Char.isDigit then some (Nat.ofDigitChars 10 text 0) else none
  zero := 0
  seconds := fun x => x * 1000000000

def noFlows : List Char := "0\n".toList

/-- The first line lacks its start time. -/
def shortLine : List Char := "2\n0 1 3 100 5000\n2 1 3 100 70 2\n".toList

/-- For no flows the flag is never set, and a line that ends early takes the number it lacks from the next one. -/
theorem not_schedulesLines : ¬ SchedulesLines wholeSeconds noFlows ∧ ¬ SchedulesLines wholeSeconds shortLine := by
  constructor
  · intro h
    have hcount : FlowReader.IsCountLine "0".toList 0 := ⟨by decide, by decide, [], by decide, by decide, by decide⟩
    have hmain : (main wholeSeconds noFlows).isSome = true := by decide
    obtain ⟨s₀, hs₀⟩ := Option.isSome_iff_exists.mp hmain
    have hstate : (main wholeSeconds noFlows).map (fun s => (s.event, s.allFlowsScheduled)) = some (none, false) := by
      decide
    rw [hs₀, Option.map_some, Option.some_inj, Prod.mk.injEq] at hstate
    have hend := h [] _ 0 [] [] [] (by simp) hcount .nil (.inl rfl) (by decide) s₀ hs₀ s₀ .init hstate.1
    rw [hstate.2] at hend
    exact absurd hend.2.1 (by decide)
  · intro h
    have hcount : FlowReader.IsCountLine "2".toList 2 := ⟨by decide, by decide, [], by decide, by decide, by decide⟩
    have hends : EndsLines wholeSeconds "0 1 3 100 5000\n2 1 3 100 70 2\n".toList := by
      refine .inr ⟨"0 1 3 100 5000".toList, "2 1 3 100 70 2\n".toList, by decide, by decide, by decide, ?_⟩
      rintro input ⟨-, -, tail, hread, -⟩
      have hnone : (wholeSeconds.readFlow "0 1 3 100 5000".toList).isNone = true := by decide
      rw [hread] at hnone
      cases hnone
    have hrun : ((main wholeSeconds shortLine).bind fun s => (system wholeSeconds s).exec s [.scheduleFlowInputs]).map
        (fun s => (s.event, s.installed.length)) = some (none, 1) := by decide
    obtain ⟨s, hs, hstate⟩ := Option.map_eq_some_iff.mp hrun
    obtain ⟨s₀, hs₀, hexec⟩ := Option.bind_eq_some_iff.mp hs
    rw [Prod.mk.injEq] at hstate
    have hend := h [] _ 2 [] [] _ (by simp) hcount .nil hends (by decide) s₀ hs₀ s
      (System.reachable_of_exec (M := system wholeSeconds s₀) _ hexec) hstate.1
    have hlen := congrArg List.length hend.1
    rw [List.length_map, hstate.2] at hlen
    exact absurd hlen (by decide)

/-- More flows are announced than there are, and the last one is late. -/
def lateFlow : List Char := "# flows\n5\n0 1 3 100 5000 2\n\n1 0 3 100 70 3\n0 2 3 100 1 2\n".toList

theorem schedules_once_lateFlow : ∃ s₀, main wholeSeconds lateFlow = some s₀ ∧
    (wholeSeconds.flows lateFlow).length = 3 ∧
    ∀ s, (system wholeSeconds s₀).Reachable s → ScheduledOnce wholeSeconds (wholeSeconds.flows lateFlow) s := by
  have hmain : (main wholeSeconds lateFlow).isSome = true := by decide
  obtain ⟨s₀, hs₀⟩ := Option.isSome_iff_exists.mp hmain
  exact ⟨s₀, hs₀, by decide, (schedules_once wholeSeconds hs₀ fun _ _ => ⟨rfl, rfl⟩).1⟩

end FlowSchedule

end Lcmp
