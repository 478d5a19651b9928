import Lcmp.Lib.Floats
import Lcmp.Lib.MinQueue
import Lcmp.Lib.While
import Mathlib.Data.Prod.Lex

/-!
# The traffic between data centres

The generation loops of `traffic_gen_only_for_interDC.py` and of its variant for two data centres: a heap holds for
every host the time of its next flow. A host drops out when the flow after the next one would be too late.

What is drawn is arbitrary: a number chooses the element at this number modulo the length.
-/

namespace Lcmp

/-- What is drawn: for each host the time before its first flow, and in each turn of the loop the time to the next
flow of the host, the data centre, the host in it and the size. -/
structure TrafficDraws where
  first : ℕ → ℕ
  inter : ℕ → ℕ
  dc : ℕ → ℕ
  host : ℕ → ℕ
  size : ℕ → ℤ

/-- A line of the file, with the turn that wrote it. -/
structure TrafficFlow where
  src : ℕ
  dst : ℕ
  size : ℕ
  t : ℕ
  turn : ℕ
  deriving DecidableEq

structure TrafficGen where
  hostHeap : List (ℕ ×ₗ ℕ)
  turn : ℕ
  nFlow : ℕ
  flows : List TrafficFlow

/-- In nanoseconds. -/
def baseT : ℕ := 2000000000

/-! ### Python's lists and draws -/

/-- `list.remove`, with `none` for its exception. -/
def listRemove (xs : List ℕ) (x : ℕ) : Option (List ℕ) := if x ∈ xs then some (xs.erase x) else none

/-- `random.choice`. -/
def choice (xs : List ℕ) (r : ℕ) : Option ℕ := xs[r % xs.length]?

/-- `random.randint`, with both ends. -/
def randint (a b r : ℕ) : Option ℕ := if a ≤ b then some (a + r % (b - a + 1)) else none

namespace TrafficGen

variable (draws : TrafficDraws)

/-- A turn of the loop. `pick` chooses the destination. -/
def step (limit : ℚ) (pick : ℕ → ℕ → Option ℕ) (s : TrafficGen) : TrafficGen ⊕ Option TrafficGen :=
  match MinQueue.pop s.hostHeap with
  | none => .inr (some s)
  | some (e, hostHeap) =>
      let t := (ofLex e).1
      let src := (ofLex e).2
      let nextT := t + draws.inter s.turn
      if nextT > limit then .inl { s with hostHeap := hostHeap, turn := s.turn + 1 }
      else
        match pick s.turn src with
        | none => .inr none
        | some dst =>
            let size := draws.size s.turn
            let size := if size ≤ 0 then 1 else size.toNat
            .inl {
              hostHeap := toLex (nextT, src) :: hostHeap
              turn := s.turn + 1
              nFlow := s.nFlow + 1
              flows := s.flows ++ [⟨src, dst, size, t, s.turn⟩] }

def start (hosts : List ℕ) : TrafficGen where
  hostHeap := hosts.map fun i => toLex (baseT + draws.first i, i)
  turn := 0
  nFlow := 0
  flows := []

/-- A data centre other than that of the source, and a host in it. -/
def pickOtherDc (dcCount dcNnodes turn src : ℕ) : Option ℕ := do
  let otherDcs ← listRemove (List.range dcCount) (src / dcNnodes)
  let dstDc ← choice otherDcs (draws.dc turn)
  randint (dstDc * dcNnodes) ((dstDc + 1) * dcNnodes - 1) (draws.host turn)

/-- The sum of the floating point number `time` and `base_t`. -/
def endT (time : ℚ) : ℚ := Floats.double (time + baseT)

/-- The loop of `traffic_gen_only_for_interDC.py`, with so many turns at most. -/
def interDc (dcCount dcNnodes : ℕ) (time : ℚ) (turns : ℕ) : Option (Option TrafficGen) :=
  While.run (step draws (endT time) (pickOtherDc draws dcCount dcNnodes)) turns
    (start draws (List.range (dcCount * dcNnodes)))

/-- The hosts of a data centre. -/
def hostsOf (dcNnodes dc : ℕ) : List ℕ := List.range' (dc * dcNnodes) dcNnodes

def userSrcDc : ℕ := 0

def userDstDc : ℕ := 7

/-- The loop of the variant, for two data centres. It exits when these do not exist. -/
def twoDcs (dcCount dcNnodes : ℕ) (time : ℚ) (turns : ℕ) : Option (Option TrafficGen) :=
  if userSrcDc ≥ dcCount ∨ userDstDc ≥ dcCount ∨ userSrcDc = userDstDc then some none
  else
    While.run (step draws (endT time) fun turn _ => choice (hostsOf dcNnodes userDstDc) (draws.host turn)) turns
      (start draws (hostsOf dcNnodes userSrcDc))

/-! ### One turn -/

/-- When the next flow of a host starts: its first one after what was drawn at the start, the others after what was
drawn with the one before. -/
def due (flows : List TrafficFlow) (i : ℕ) : ℕ :=
  match (flows.filter fun f => f.src = i).getLast? with
  | none => baseT + draws.first i
  | some f => f.t + draws.inter f.turn

/-- The lines that were written. -/
structure Scheduled (limit : ℚ) (hosts : List ℕ) (Dst : ℕ → ℕ → Prop) (flows : List TrafficFlow) : Prop where
  sorted : flows.Pairwise fun f g => f.t ≤ g.t
  turns : flows.Pairwise fun f g => f.turn < g.turn
  inside : ∀ f ∈ flows, baseT ≤ f.t ∧ f.t ≤ limit
  gaps : ∀ before f after, flows = before ++ f :: after → f.t = due draws before f.src
  src : ∀ f ∈ flows, f.src ∈ hosts
  dst : ∀ f ∈ flows, Dst f.src f.dst
  size : ∀ f ∈ flows, 1 ≤ f.size

/-- The heap holds hosts, each once with the time of its next flow, and nothing before what was written. -/
structure Inv (limit : ℚ) (hosts : List ℕ) (Dst : ℕ → ℕ → Prop) (s : TrafficGen) : Prop where
  scheduled : Scheduled draws limit hosts Dst s.flows
  nFlow : s.nFlow = s.flows.length
  nodup : (s.hostHeap.map fun e => (ofLex e).2).Nodup
  mem : ∀ e ∈ s.hostHeap, (ofLex e).2 ∈ hosts
  due : ∀ e ∈ s.hostHeap, (ofLex e).1 = due draws s.flows (ofLex e).2
  behind : ∀ f ∈ s.flows, ∀ e ∈ s.hostHeap, f.t ≤ (ofLex e).1
  turn : ∀ f ∈ s.flows, f.turn < s.turn

variable {draws} {limit : ℚ} {hosts : List ℕ} {Dst : ℕ → ℕ → Prop} {pick : ℕ → ℕ → Option ℕ} {s t : TrafficGen}

theorem due_of_forall_ne {flows : List TrafficFlow} {i : ℕ} (hne : ∀ f ∈ flows, f.src ≠ i) :
    TrafficGen.due draws flows i = baseT + draws.first i := by
  have hnone : flows.filter (fun f => f.src = i) = [] := List.filter_eq_nil_iff.mpr (by simpa using hne)
  rw [TrafficGen.due, hnone]
  rfl

theorem due_append_cons (before : List TrafficFlow) {f : TrafficFlow} {between : List TrafficFlow}
    (hne : ∀ g ∈ between, g.src ≠ f.src) :
    TrafficGen.due draws (before ++ f :: between) f.src = f.t + draws.inter f.turn := by
  have hself : (f :: between).filter (fun g => g.src = f.src) = [f] := by
    rw [List.filter_cons_of_pos (by simp), List.filter_eq_nil_iff.mpr (by simpa using hne)]
  rw [TrafficGen.due, List.filter_append, hself, List.getLast?_append]
  rfl

theorem due_append_of_ne (flows : List TrafficFlow) {f : TrafficFlow} {i : ℕ} (hne : f.src ≠ i) :
    TrafficGen.due draws (flows ++ [f]) i = TrafficGen.due draws flows i := by
  rw [TrafficGen.due, List.filter_append, List.filter_cons_of_neg (by simpa using hne), List.filter_nil,
    List.append_nil, TrafficGen.due]

theorem Scheduled.baseT_le_due (h : Scheduled draws limit hosts Dst s.flows) (i : ℕ) :
    baseT ≤ TrafficGen.due draws s.flows i := by
  rw [TrafficGen.due]
  split
  · exact Nat.le_add_right _ _
  · next f hf =>
      have hmem : f ∈ s.flows := (List.mem_filter.mp (List.mem_of_getLast? hf)).1
      exact Nat.le_add_right_of_le (h.inside f hmem).1

theorem Inv.start (hnodup : hosts.Nodup) : Inv draws limit hosts Dst (start draws hosts) where
  scheduled := ⟨.nil, .nil, by simp [TrafficGen.start], fun before f after h => by
    exact absurd (congrArg List.length h) (by simp [TrafficGen.start]), by simp [TrafficGen.start],
    by simp [TrafficGen.start], by simp [TrafficGen.start]⟩
  nFlow := rfl
  nodup := by
    simp only [TrafficGen.start, List.map_map]
    exact (List.map_id hosts).symm ▸ hnodup
  mem := by
    intro e he
    obtain ⟨i, hi, rfl⟩ := List.mem_map.mp he
    exact hi
  due := by
    intro e he
    obtain ⟨i, hi, rfl⟩ := List.mem_map.mp he
    rfl
  behind := by simp [TrafficGen.start]
  turn := by simp [TrafficGen.start]

/-- One more line. -/
theorem Scheduled.append {flows : List TrafficFlow} {f : TrafficFlow} (h : Scheduled draws limit hosts Dst flows)
    (hbehind : ∀ g ∈ flows, g.t ≤ f.t) (hturn : ∀ g ∈ flows, g.turn < f.turn) (hbase : baseT ≤ f.t)
    (hlimit : f.t ≤ limit) (hdue : f.t = TrafficGen.due draws flows f.src) (hsrc : f.src ∈ hosts)
    (hdst : Dst f.src f.dst) (hsize : 1 ≤ f.size) : Scheduled draws limit hosts Dst (flows ++ [f]) := by
  have hall : ∀ {p : TrafficFlow → Prop}, (∀ g ∈ flows, p g) → p f → ∀ g ∈ flows ++ [f], p g := by
    intro p hp hpf g hg
    rcases List.mem_append.mp hg with hg | hg
    · exact hp g hg
    · rw [List.mem_singleton.mp hg]
      exact hpf
  refine ⟨?_, ?_, hall h.inside ⟨hbase, hlimit⟩, fun before g after hsplit => ?_, hall h.src hsrc, hall h.dst hdst,
    hall h.size hsize⟩
  · rw [List.pairwise_append]
    exact ⟨h.sorted, List.pairwise_singleton _ _, fun g hg g' hg' => List.mem_singleton.mp hg' ▸ hbehind g hg⟩
  · rw [List.pairwise_append]
    exact ⟨h.turns, List.pairwise_singleton _ _, fun g hg g' hg' => List.mem_singleton.mp hg' ▸ hturn g hg⟩
  · -- The line is the new one, or it was there before.
    rcases List.append_eq_append_iff.mp hsplit with ⟨rest, hbefore, hrest⟩ | ⟨rest, hflows, hrest⟩
    · cases rest with
      | nil =>
          obtain ⟨rfl, -⟩ := List.cons.inj hrest
          rw [hbefore, List.append_nil]
          exact hdue
      | cons g' rest =>
          have hnil := (List.cons.inj hrest).2
          exact absurd hnil.symm (List.append_ne_nil_of_right_ne_nil rest (List.cons_ne_nil _ _))
    · cases rest with
      | nil =>
          obtain ⟨rfl, -⟩ := List.cons.inj hrest
          rw [List.append_nil] at hflows
          rw [← hflows]
          exact hdue
      | cons g' rest =>
          obtain ⟨rfl, -⟩ := List.cons.inj hrest
          exact h.gaps before g rest hflows

/-- What a turn does: nothing when the heap is empty; else a host drops out or a line is written. -/
theorem Inv.step (h : Inv draws limit hosts Dst s)
    (hpick : ∀ turn, ∀ i ∈ hosts, ∃ dst, pick turn i = some dst ∧ Dst i dst) :
    TrafficGen.step draws limit pick s = .inr (some s) ∨
      ∃ t, TrafficGen.step draws limit pick s = .inl t ∧ Inv draws limit hosts Dst t := by
  cases hpop : MinQueue.pop s.hostHeap with
  | none =>
      left
      rw [TrafficGen.step, hpop]
  | some p =>
      right
      obtain ⟨e, hostHeap⟩ := p
      have hperm := MinQueue.perm_of_pop hpop
      have hlater := MinQueue.behind_of_pop hpop
      have he : e ∈ s.hostHeap := hperm.mem_iff.mpr List.mem_cons_self
      have hrest : ∀ e' ∈ hostHeap, e' ∈ s.hostHeap := fun e' he' => hperm.mem_iff.mpr (List.mem_cons_of_mem _ he')
      have hmap := hperm.map fun e : ℕ ×ₗ ℕ => (ofLex e).2
      have hnodup := hmap.nodup_iff.mp h.nodup
      have hturn : ∀ f ∈ s.flows, f.turn < s.turn + 1 := fun f hf => Nat.lt_succ_of_lt (h.turn f hf)
      by_cases hlimit : (((ofLex e).1 + draws.inter s.turn : ℕ) : ℚ) > limit
      · refine ⟨{ s with hostHeap := hostHeap, turn := s.turn + 1 }, ?_, h.scheduled, h.nFlow, hnodup.of_cons,
          fun e' he' => h.mem e' (hrest e' he'), fun e' he' => h.due e' (hrest e' he'),
          fun f hf e' he' => h.behind f hf e' (hrest e' he'), hturn⟩
        simp only [TrafficGen.step, hpop]
        exact if_pos hlimit
      · obtain ⟨dst, hdst, hDst⟩ := hpick s.turn _ (h.mem e he)
        have hnext : (((ofLex e).1 + draws.inter s.turn : ℕ) : ℚ) ≤ limit := not_lt.mp hlimit
        have hle : (((ofLex e).1 : ℕ) : ℚ) ≤ limit := le_trans (Nat.cast_le.mpr (Nat.le_add_right _ _)) hnext
        obtain ⟨size, hsize⟩ : ∃ size : ℕ, size = if draws.size s.turn ≤ 0 then 1 else (draws.size s.turn).toNat :=
          ⟨_, rfl⟩
        have hpos : 1 ≤ size := by
          rw [hsize]
          split
          · exact Nat.le_refl _
          · omega
        have hdue := h.due e he
        have hbase : baseT ≤ (ofLex e).1 := hdue ▸ h.scheduled.baseT_le_due _
        have hother : ∀ e' ∈ hostHeap, (ofLex e).2 ≠ (ofLex e').2 := fun e' he' heq =>
          (List.nodup_cons.mp hnodup).1 (List.mem_map.mpr ⟨e', he', heq.symm⟩)
        refine ⟨{
          hostHeap := toLex ((ofLex e).1 + draws.inter s.turn, (ofLex e).2) :: hostHeap
          turn := s.turn + 1
          nFlow := s.nFlow + 1
          flows := s.flows ++ [⟨(ofLex e).2, dst, size, (ofLex e).1, s.turn⟩] }, ?_, ?_, ?_, hnodup, ?_, ?_, ?_, ?_⟩
        · simp only [TrafficGen.step, hpop, if_neg hlimit, hdst, hsize]
        · exact h.scheduled.append (fun g hg => h.behind g hg e he) h.turn hbase hle hdue (h.mem e he) hDst hpos
        · show s.nFlow + 1 = (s.flows ++ [_]).length
          rw [h.nFlow, List.length_append]
          rfl
        · intro e' he'
          rcases List.mem_cons.mp he' with rfl | he'
          · exact h.mem e he
          · exact h.mem e' (hrest e' he')
        · intro e' he'
          rcases List.mem_cons.mp he' with rfl | he'
          · exact (due_append_cons s.flows (f := ⟨(ofLex e).2, dst, size, (ofLex e).1, s.turn⟩) (by simp)).symm
          · rw [due_append_of_ne _ (hother e' he')]
            exact h.due e' (hrest e' he')
        · intro f hf e' he'
          rcases List.mem_append.mp hf with hf | hf
          · rcases List.mem_cons.mp he' with rfl | he'
            · exact Nat.le_add_right_of_le (h.behind f hf e he)
            · exact h.behind f hf e' (hrest e' he')
          · rw [List.mem_singleton.mp hf]
            rcases List.mem_cons.mp he' with rfl | he'
            · exact Nat.le_add_right _ _
            · exact Prod.Lex.monotone_fst _ _ (hlater e' he')
        · intro f hf
          rcases List.mem_append.mp hf with hf | hf
          · exact hturn f hf
          · rw [List.mem_singleton.mp hf]
            exact Nat.lt_succ_self _

/-! ### A whole run -/

/-- Where the loop ends no host is left, and the count is that of the lines. -/
theorem run_spec {turns : ℕ} {r : Option TrafficGen} (hnodup : hosts.Nodup)
    (hpick : ∀ turn, ∀ i ∈ hosts, ∃ dst, pick turn i = some dst ∧ Dst i dst)
    (hrun : While.run (TrafficGen.step draws limit pick) turns (TrafficGen.start draws hosts) = some r) :
    ∃ s, r = some s ∧ Scheduled draws limit hosts Dst s.flows ∧ s.nFlow = s.flows.length := by
  have hkeeps : ∀ s t, Inv draws limit hosts Dst s → TrafficGen.step draws limit pick s = .inl t →
      Inv draws limit hosts Dst t := by
    intro s t h hstep
    rcases h.step hpick with hexit | ⟨t', hnext, ht'⟩
    · rw [hexit] at hstep
      cases hstep
    · rw [hnext] at hstep
      exact Sum.inl.inj hstep ▸ ht'
  obtain ⟨s, h, hexit⟩ := While.exit_of_run hkeeps (Inv.start hnodup) hrun
  rcases h.step hpick with hleave | ⟨t, hnext, -⟩
  · rw [hleave] at hexit
    exact ⟨s, (Sum.inr.inj hexit).symm, h.scheduled, h.nFlow⟩
  · rw [hnext] at hexit
    cases hexit

/-! ### Destinations -/

theorem choice_eq_some {xs : List ℕ} (hne : xs ≠ []) (r : ℕ) : ∃ x, choice xs r = some x ∧ x ∈ xs := by
  have hlt : r % xs.length < xs.length := Nat.mod_lt _ (List.length_pos_of_ne_nil hne)
  exact ⟨xs[r % xs.length], List.getElem?_eq_getElem hlt, List.getElem_mem hlt⟩

theorem randint_eq_some {a b : ℕ} (hle : a ≤ b) (r : ℕ) : ∃ x, randint a b r = some x ∧ a ≤ x ∧ x ≤ b := by
  have hmod : r % (b - a + 1) < b - a + 1 := Nat.mod_lt r (Nat.succ_pos (b - a))
  exact ⟨a + r % (b - a + 1), if_pos hle, Nat.le_add_right _ _, by omega⟩

/-- The destination is a host of another data centre. -/
def OtherDc (dcCount dcNnodes src dst : ℕ) : Prop := dst < dcCount * dcNnodes ∧ dst / dcNnodes ≠ src / dcNnodes

variable {dcCount dcNnodes dc src dst : ℕ}

/-- The hosts of a data centre are those whose quotient it is. -/
theorem otherDc_of_range (hdc : dc < dcCount) (hne : dc ≠ src / dcNnodes) (hlo : dc * dcNnodes ≤ dst)
    (hhi : dst < (dc + 1) * dcNnodes) : OtherDc dcCount dcNnodes src dst := by
  have hdiv : dst / dcNnodes = dc := Nat.div_eq_of_lt_le hlo hhi
  exact ⟨lt_of_lt_of_le hhi (Nat.mul_le_mul_right _ hdc), hdiv ▸ hne⟩

theorem exists_pickOtherDc (hcount : 2 ≤ dcCount) (hnodes : 1 ≤ dcNnodes) (turn : ℕ)
    (hsrc : src < dcCount * dcNnodes) :
    ∃ dst, pickOtherDc draws dcCount dcNnodes turn src = some dst ∧ OtherDc dcCount dcNnodes src dst := by
  have hmem : src / dcNnodes ∈ List.range dcCount := List.mem_range.mpr (Nat.div_lt_of_lt_mul (by rwa [Nat.mul_comm]))
  have hlen := List.length_erase_of_mem hmem
  rw [List.length_range] at hlen
  have hne : (List.range dcCount).erase (src / dcNnodes) ≠ [] := List.ne_nil_of_length_pos (by omega)
  obtain ⟨dc, hchoice, hdc⟩ := choice_eq_some hne (draws.dc turn)
  obtain ⟨hother, hrange⟩ := (List.nodup_range.mem_erase_iff).mp hdc
  have hsucc : (dc + 1) * dcNnodes = dc * dcNnodes + dcNnodes := Nat.succ_mul dc dcNnodes
  obtain ⟨dst, hrandint, hlo, hhi⟩ := randint_eq_some (a := dc * dcNnodes) (b := (dc + 1) * dcNnodes - 1) (by omega)
    (draws.host turn)
  refine ⟨dst, ?_, otherDc_of_range (List.mem_range.mp hrange) hother hlo (by omega)⟩
  rw [pickOtherDc, listRemove, if_pos hmem, Option.bind_eq_bind, Option.bind_some, hchoice]
  exact hrandint

theorem interDc_spec {time : ℚ} {turns : ℕ} {r : Option TrafficGen} (hcount : 2 ≤ dcCount) (hnodes : 1 ≤ dcNnodes)
    (hrun : interDc draws dcCount dcNnodes time turns = some r) :
    ∃ s, r = some s ∧ s.nFlow = s.flows.length ∧
      Scheduled draws (endT time) (List.range (dcCount * dcNnodes)) (OtherDc dcCount dcNnodes) s.flows := by
  have hpick : ∀ turn, ∀ i ∈ List.range (dcCount * dcNnodes),
      ∃ dst, pickOtherDc draws dcCount dcNnodes turn i = some dst ∧ OtherDc dcCount dcNnodes i dst :=
    fun turn i hi => exists_pickOtherDc hcount hnodes turn (List.mem_range.mp hi)
  obtain ⟨s, rfl, hscheduled, hnFlow⟩ := run_spec List.nodup_range hpick hrun
  exact ⟨s, rfl, hnFlow, hscheduled⟩

theorem twoDcs_spec {time : ℚ} {turns : ℕ} {s : TrafficGen} (hnodes : 1 ≤ dcNnodes)
    (hrun : twoDcs draws dcCount dcNnodes time turns = some (some s)) :
    s.nFlow = s.flows.length ∧ (∀ i ∈ hostsOf dcNnodes userSrcDc, i < dcCount * dcNnodes) ∧
      Scheduled draws (endT time) (hostsOf dcNnodes userSrcDc) (OtherDc dcCount dcNnodes) s.flows := by
  rw [twoDcs] at hrun
  split at hrun
  · cases hrun
  · next hdcs =>
      rw [not_or, not_or] at hdcs
      have hnodup : (hostsOf dcNnodes userSrcDc).Nodup := List.nodup_range'
      have hpick : ∀ turn, ∀ i ∈ hostsOf dcNnodes userSrcDc,
          ∃ dst, choice (hostsOf dcNnodes userDstDc) (draws.host turn) = some dst ∧ OtherDc dcCount dcNnodes i dst := by
        intro turn i hi
        rw [hostsOf, List.mem_range'_1] at hi
        have hsrc : i / dcNnodes = userSrcDc := Nat.div_eq_of_lt_le hi.1 (by rw [Nat.succ_mul]; exact hi.2)
        have hne : hostsOf dcNnodes userDstDc ≠ [] :=
          List.ne_nil_of_length_pos (by rw [hostsOf, List.length_range']; exact hnodes)
        obtain ⟨dst, hchoice, hdst⟩ := choice_eq_some hne (draws.host turn)
        rw [hostsOf, List.mem_range'_1] at hdst
        refine ⟨dst, hchoice, otherDc_of_range (Nat.lt_of_not_ge hdcs.2.1) ?_ hdst.1 ?_⟩
        · rw [hsrc]
          exact fun heq => hdcs.2.2 heq.symm
        · rw [Nat.succ_mul]
          exact hdst.2
      obtain ⟨s', hs', hscheduled, hnFlow⟩ := run_spec hnodup hpick hrun
      obtain rfl := Option.some.inj hs'
      refine ⟨hnFlow, fun i hi => ?_, hscheduled⟩
      rw [hostsOf, List.mem_range'_1, ← Nat.succ_mul] at hi
      exact lt_of_lt_of_le hi.2 (Nat.mul_le_mul_right _ (Nat.lt_of_not_ge hdcs.1))

end TrafficGen

end Lcmp
