import Lcmp.Traffic.ScheduleFile

/-!
# Generated files are schedules

What a generator writes is in order, and the reader of the driver, which goes through the file line by line while the
simulation runs, is never behind it.
-/

namespace Lcmp

open Text Floats

namespace TrafficGen

variable {isHost : UInt32 → Bool} {flows : List TrafficFlow} {s : TrafficGen} {t : FlowSchedule ℚ}

/-- The chain of events of the driver has installed flows in their order, at most 2 ns before they start and none of
them late. It goes on to the next flow, and ends after the last one. -/
structure OnTime (isHost : UInt32 → Bool) (flows : List TrafficFlow) (t : FlowSchedule ℚ) : Prop where
  installed : ∀ (i : ℕ) x, t.installed[i]? = some x →
    ∃ f, flows[i]? = some f ∧ x.1.toFlowInput = f.input ∧ (f.t : Int) ≤ x.2 + 2 ∧ x.2 ≤ f.t
  goesOn : t.event ≠ none → ∃ u, FlowSchedule.next (driverReader isHost) t .scheduleFlowInputs = some u ∧
    t.installed.length < u.installed.length
  ends : t.event = none → t.installed.length = flows.length

/-- The driver schedules the flows of the file on time, whatever happens. -/
def SchedulesOnTime (isHost : UInt32 → Bool) (s : TrafficGen) : Prop :=
  ∃ s₀, FlowSchedule.main (driverReader isHost) s.text = some s₀ ∧
    ∀ t, (FlowSchedule.system (driverReader isHost) s₀).Reachable t → OnTime isHost s.flows t

/-- The numbers of the flows fit the variables of the reader, their ends are hosts of the topology, and they start
within 2⁵⁰ ns, which is nearly two weeks. -/
structure Readable (isHost : UInt32 → Bool) (flows : List TrafficFlow) : Prop where
  length : flows.length < 2 ^ 32
  src : ∀ f ∈ flows, f.src < 2 ^ 32 ∧ isHost (UInt32.ofNat f.src) = true
  dst : ∀ f ∈ flows, f.dst < 2 ^ 32 ∧ isHost (UInt32.ofNat f.dst) = true
  size : ∀ f ∈ flows, f.size < 2 ^ 64
  t : ∀ f ∈ flows, f.t ≤ 2 ^ 50

theorem Readable.fits (h : Readable isHost flows) (hpos : ∀ f ∈ flows, 1 ≤ f.t) : ∀ f ∈ flows, f.Fits := fun f hf =>
  ⟨(h.src f hf).1, (h.dst f hf).1, h.size f hf, readStart_lt (hpos f hf) (h.t f hf)⟩

/-- Start times that are read are in order where those that were generated are. -/
theorem Readable.sorted (h : Readable isHost flows) (hpos : ∀ f ∈ flows, 1 ≤ f.t)
    (hsorted : flows.Pairwise fun f g => f.t ≤ g.t) :
    (flows.map TrafficFlow.timed).Pairwise fun x y => seconds x.startTime ≤ seconds y.startTime := by
  rw [List.pairwise_map]
  refine hsorted.imp_of_mem fun {f g} hf hg hle => ?_
  have hupper := (seconds_readStart (hpos f hf) (h.t f hf)).2
  have hlower := (seconds_readStart (hpos g hg) (h.t g hg)).1
  show seconds (readStart f.t) ≤ seconds (readStart g.t)
  rcases Nat.eq_or_lt_of_le hle with heq | hlt
  · rw [heq]
  · omega

theorem Readable.hosts (h : Readable isHost flows) :
    FlowSchedule.Hosts (driverReader isHost) (flows.map TrafficFlow.timed) := by
  intro input hinput
  obtain ⟨f, hf, rfl⟩ := List.mem_map.mp hinput
  exact ⟨(h.src f hf).2, (h.dst f hf).2⟩

/-- What the chain does with the flows of the file. -/
theorem Readable.onTime (h : Readable isHost flows) (hpos : ∀ f ∈ flows, 1 ≤ f.t)
    (honce : FlowSchedule.ScheduledOnce (driverReader isHost) (flows.map TrafficFlow.timed) t)
    (hlate : ∀ x ∈ t.installed, x.2 ≤ seconds x.1.startTime) : OnTime isHost flows t where
  installed := by
    intro i x hx
    have hmem : x ∈ t.installed := List.mem_of_getElem? hx
    obtain ⟨hlt, rfl⟩ := List.getElem?_eq_some_iff.mp hx
    have hprefix := List.prefix_iff_getElem?.mp honce.inOrder i (by rwa [List.length_map])
    rw [List.getElem?_map, List.getElem_map] at hprefix
    obtain ⟨f, hf, htimed⟩ := Option.map_eq_some_iff.mp hprefix
    have hflow : f ∈ flows := List.mem_of_getElem? hf
    obtain ⟨hlower, hupper⟩ := seconds_readStart (hpos f hflow) (h.t f hflow)
    have hearly : seconds t.installed[i].1.startTime ≤ t.installed[i].2 + 1 := honce.notEarly _ hmem
    have hlate := hlate _ hmem
    rw [← htimed] at hearly hlate
    change seconds (readStart f.t) ≤ _ at hearly
    change _ ≤ seconds (readStart f.t) at hlate
    refine ⟨f, hf, ?_, by omega, by omega⟩
    rw [← htimed]
    rfl
  goesOn := honce.goesOn
  ends := by
    intro hevent
    have hlen := congrArg List.length (honce.ends hevent).1
    rwa [List.length_map, List.length_map] at hlen

theorem schedulesOnTime (hnFlow : s.nFlow = s.flows.length) (hpos : ∀ f ∈ s.flows, 1 ≤ f.t)
    (hsorted : s.flows.Pairwise fun f g => f.t ≤ g.t) (h : Readable isHost s.flows) : SchedulesOnTime isHost s := by
  have hflows : (driverReader isHost).flows s.text = s.flows.map TrafficFlow.timed :=
    flows_text hnFlow h.length (h.fits hpos)
  have hhosts : FlowSchedule.Hosts (driverReader isHost) ((driverReader isHost).flows s.text) := hflows ▸ h.hosts
  have hstart : ∀ input ∈ (driverReader isHost).flows s.text, 0 ≤ (driverReader isHost).seconds input.startTime := by
    intro input hinput
    rw [hflows] at hinput
    obtain ⟨f, hf, rfl⟩ := List.mem_map.mp hinput
    have hlower := (seconds_readStart (hpos f hf) (h.t f hf)).1
    have hone := hpos f hf
    show 0 ≤ seconds (readStart f.t)
    omega
  obtain ⟨s₀, hmain⟩ := FlowSchedule.exists_main hhosts hstart
  have honce : ∀ t, (FlowSchedule.system (driverReader isHost) s₀).Reachable t →
      FlowSchedule.ScheduledOnce (driverReader isHost) (s.flows.map TrafficFlow.timed) t := fun t ht =>
    hflows ▸ (FlowSchedule.inv_of_reachable hhosts hmain ht).scheduledOnce hhosts
  exact ⟨s₀, hmain, fun t ht => h.onTime hpos (honce t ht)
    (FlowSchedule.never_late _ hmain hhosts (hflows ▸ h.sorted hpos hsorted) t ht)⟩

/-- What was written is a schedule: the lines are in the order of their start times, which are inside the time of the
run, the first flow of a host and the gaps between the next ones are those that were drawn, each in a turn of its
own, the ends of a flow are hosts of different data centres, and the third line holds the number of flows. -/
structure WellFormed (draws : TrafficDraws) (dcCount dcNnodes : ℕ) (time : ℚ) (s : TrafficGen) : Prop where
  sorted : s.flows.Pairwise fun f g => f.t ≤ g.t
  inside : ∀ f ∈ s.flows, baseT ≤ f.t ∧ f.t ≤ endT time
  turns : s.flows.Pairwise fun f g => f.turn < g.turn
  first : ∀ before f after, s.flows = before ++ f :: after → (∀ g ∈ before, g.src ≠ f.src) →
    f.t = baseT + draws.first f.src
  gaps : ∀ before f between g after, s.flows = before ++ f :: between ++ g :: after → g.src = f.src →
    (∀ x ∈ between, x.src ≠ f.src) → g.t = f.t + draws.inter f.turn
  src : ∀ f ∈ s.flows, f.src < dcCount * dcNnodes
  dst : ∀ f ∈ s.flows, f.dst < dcCount * dcNnodes ∧ f.dst / dcNnodes ≠ f.src / dcNnodes
  size : ∀ f ∈ s.flows, 1 ≤ f.size
  lines : lines s.text = header ++ decimal s.flows.length :: s.flows.map TrafficFlow.line ++ [[]]

/-- What a generator writes when its loop ends. -/
def Written (draws : TrafficDraws) (dcCount dcNnodes : ℕ) (time : ℚ) (s : TrafficGen) : Prop :=
  (∃ turns, interDc draws dcCount dcNnodes time turns = some (some s)) ∨
    ∃ turns, twoDcs draws dcCount dcNnodes time turns = some (some s)

variable {draws : TrafficDraws} {dcCount dcNnodes : ℕ} {time : ℚ} {hosts : List ℕ}

theorem Scheduled.wellFormed (hnFlow : s.nFlow = s.flows.length) (hhosts : ∀ i ∈ hosts, i < dcCount * dcNnodes)
    (h : Scheduled draws (endT time) hosts (OtherDc dcCount dcNnodes) s.flows) :
    WellFormed draws dcCount dcNnodes time s where
  sorted := h.sorted
  inside := h.inside
  turns := h.turns
  first := by
    intro before f after hflows hfirst
    rw [h.gaps before f after hflows, due_of_forall_ne hfirst]
  gaps := by
    intro before f between g after hflows hsrc hbetween
    rw [h.gaps _ g after hflows, hsrc, due_append_cons before hbetween]
  src := fun f hf => hhosts _ (h.src f hf)
  dst := h.dst
  size := h.size
  lines := by rw [lines_text, hnFlow]

/-- What the generators write is a schedule, and the driver schedules its flows on time when it can read it. Nothing
fails on the way. -/
theorem writes_schedule (draws : TrafficDraws) {dcCount dcNnodes : ℕ} {time : ℚ} (hcount : 2 ≤ dcCount)
    (hnodes : 1 ≤ dcNnodes) :
    (∀ turns, interDc draws dcCount dcNnodes time turns ≠ some none) ∧
      ∀ s, Written draws dcCount dcNnodes time s → WellFormed draws dcCount dcNnodes time s ∧
        ∀ isHost, Readable isHost s.flows → SchedulesOnTime isHost s := by
  constructor
  · intro turns hrun
    obtain ⟨s, hs, -⟩ := interDc_spec hcount hnodes hrun
    cases hs
  · intro s hwritten
    obtain ⟨hnFlow, hwell⟩ : s.nFlow = s.flows.length ∧ WellFormed draws dcCount dcNnodes time s := by
      rcases hwritten with ⟨turns, hrun⟩ | ⟨turns, hrun⟩
      · obtain ⟨s', hs', hnFlow, hscheduled⟩ := interDc_spec hcount hnodes hrun
        obtain rfl := Option.some.inj hs'
        exact ⟨hnFlow, hscheduled.wellFormed hnFlow fun i hi => List.mem_range.mp hi⟩
      · obtain ⟨hnFlow, hhosts, hscheduled⟩ := twoDcs_spec hnodes hrun
        exact ⟨hnFlow, hscheduled.wellFormed hnFlow hhosts⟩
    exact ⟨hwell, fun isHost hreadable => schedulesOnTime hnFlow
      (fun f hf => le_trans (by decide) (hwell.inside f hf).1) hwell.sorted hreadable⟩

/-- The first flows of two hosts start after the same time, and there are no others. -/
def drawn (first : ℕ) (size : ℤ) : TrafficDraws where
  first := fun _ => first
  inter := fun turn => if turn < 2 then 10 else 2 ^ 60
  dc := fun _ => 0
  host := fun _ => 0
  size := fun _ => size

def longTime : ℚ := 2 ^ 56 - baseT

theorem endT_longTime : endT longTime = 2 ^ 56 := by
  have hround : double (2 ^ 56) = (2 ^ 52 : ℤ) * 2 ^ (56 - 52 : ℤ) :=
    double_eq (by norm_num) (by norm_num) (by norm_num) (by norm_num)
  rw [endT, longTime, sub_add_cancel, hround]
  norm_num

/-- A run of five turns. -/
theorem exists_written {n : ℕ} (hrun : (interDc draws 2 1 longTime 5).map (Option.map fun s => (s.flows, s.nFlow)) =
    some (some (flows, n))) : ∃ s, Written draws 2 1 longTime s ∧ s.flows = flows ∧ s.nFlow = n := by
  obtain ⟨r, hr, hmap⟩ := Option.map_eq_some_iff.mp hrun
  obtain ⟨s, rfl, hs⟩ := Option.map_eq_some_iff.mp hmap
  obtain ⟨hflows, hnFlow⟩ := Prod.mk.injEq _ _ _ _ ▸ hs
  exact ⟨s, .inl ⟨5, hr⟩, hflows, hnFlow⟩

theorem writes_schedule_drawn : ∃ s, Written (drawn 0 1500) 2 1 longTime s ∧ s.flows.length = 2 ∧
    WellFormed (drawn 0 1500) 2 1 longTime s ∧ SchedulesOnTime (fun _ => true) s := by
  have hrun : (interDc (drawn 0 1500) 2 1 longTime 5).map (Option.map fun s => (s.flows, s.nFlow)) =
      some (some ([⟨0, 1, 1500, baseT, 0⟩, ⟨1, 0, 1500, baseT, 1⟩], 2)) := by
    rw [interDc, endT_longTime]
    decide +kernel
  obtain ⟨s, hwritten, hflows, -⟩ := exists_written hrun
  obtain ⟨hwell, htime⟩ := (writes_schedule (drawn 0 1500) (by decide) (by decide)).2 s hwritten
  have hreadable : Readable (fun _ => true) s.flows := by
    rw [hflows]
    exact ⟨by decide, by decide, by decide, by decide, by decide⟩
  exact ⟨s, hwritten, by rw [hflows]; rfl, hwell, htime _ hreadable⟩

/-! ### Files that are read differently -/

/-- A first flow is installed. -/
theorem SchedulesOnTime.first (h : SchedulesOnTime isHost s) (hne : s.flows ≠ [])
    (hhosts : FlowSchedule.Hosts (driverReader isHost) ((driverReader isHost).flows s.text)) :
    ∃ input ∈ (driverReader isHost).flows s.text, ∃ time, ∃ f ∈ s.flows,
      seconds input.startTime ≤ time + 1 ∧ time ≤ f.t := by
  obtain ⟨s₀, hmain, honTime⟩ := h
  obtain ⟨-, hempty⟩ := FlowSchedule.main_inv hhosts hmain
  have hevent : s₀.event ≠ none := by
    intro hnone
    have hlen := (honTime s₀ .init).ends hnone
    rw [hempty, List.length_nil] at hlen
    exact hne (List.eq_nil_of_length_eq_zero hlen.symm)
  obtain ⟨u, hnext, hlt⟩ := (honTime s₀ .init).goesOn hevent
  have hinit : (FlowSchedule.system (driverReader isHost) s₀).Reachable s₀ := .init
  have hu : (FlowSchedule.system (driverReader isHost) s₀).Reachable u := hinit.step (a := .scheduleFlowInputs) hnext
  have hpos : 0 < u.installed.length := by omega
  obtain ⟨f, hf, -, -, hlate⟩ := (honTime u hu).installed 0 u.installed[0] (List.getElem?_eq_getElem hpos)
  have honce := (FlowSchedule.inv_of_reachable hhosts hmain hu).scheduledOnce hhosts
  have hmem : u.installed[0].1 ∈ u.installed.map Prod.fst := List.mem_map.mpr ⟨_, List.getElem_mem hpos, rfl⟩
  exact ⟨_, honce.inOrder.subset hmem, _, f, List.mem_of_getElem? hf, honce.notEarly _ (List.getElem_mem hpos), hlate⟩

/-- A size that does not fit ends the flows. -/
theorem flows_text_nil {f : TrafficFlow} (hnFlow : s.nFlow < 2 ^ 32) (hflows : s.flows = f :: flows)
    (hsrc : f.src < 2 ^ 32) (hdst : f.dst < 2 ^ 32) (hsize : 2 ^ 64 ≤ f.size) :
    (driverReader isHost).flows s.text = [] := by
  have hblank : ∀ rest, ∀ c ∈ (' ' :: (startText f.t ++ rest)).head?, c.isDigit = false := by
    rintro rest c ⟨rfl⟩
    rfl
  have hread : (driverReader isHost).readFlow
      (skipComments (FlowReader.fileOf (f.line :: flows.map TrafficFlow.line) [])) = none := by
    rw [FlowReader.fileOf_cons, skipComments_line f.newline_line (isSkipped_decimal f.src _), f.readFlow_line _ hsrc hdst,
      Extraction.getUnsigned_decimal 64 f.size (hblank _), if_pos hsize]
    rfl
  have htext : s.text = FlowReader.fileOf (header ++ [decimal s.nFlow])
      (FlowReader.fileOf (f.line :: flows.map TrafficFlow.line) []) := by
    rw [text, hflows, FlowReader.fileOf, FlowReader.fileOf, FlowReader.fileOf, List.map_cons, List.append_nil,
      List.append_nil, ← List.flatMap_append, List.append_assoc]
    rfl
  rw [htext, FlowReader.flows_fileOf header_skipped (isCountLine_decimal hnFlow) .nil,
    FlowReader.allFlows_of_none hread, List.append_nil, List.take_nil]

/-- More than two years after the start of the simulation. -/
def lateT : ℕ := 67140707718825379

theorem written_lateT : written lateT = 67140707718825385 := by
  have ht : double lateT = (8392588464853172 : ℤ) * 2 ^ (55 - 52 : ℤ) :=
    double_eq (by norm_num) (by norm_num [lateT]) (by norm_num [lateT]) (by norm_num [lateT, abs_lt])
  have hunit : double (1 / 10 ^ 9) = (4835703278458517 : ℤ) * 2 ^ (-30 - 52 : ℤ) :=
    double_eq (by norm_num) (by norm_num) (by norm_num) (by norm_num [abs_lt])
  have hproduct : double (double lateT * double (1 / 10 ^ 9)) = (4505736623166403 : ℤ) * 2 ^ (26 - 52 : ℤ) := by
    rw [ht, hunit]
    exact double_eq (by norm_num) (by norm_num) (by norm_num) (by norm_num [abs_lt])
  have hround : halfEven (double (double lateT * double (1 / 10 ^ 9)) * 10 ^ 9) = 67140707718825385 := by
    rw [hproduct]
    exact halfEven_eq (by norm_num [abs_lt])
  rw [written, hround]
  rfl

theorem readStart_lateT : readStart lateT = 4505736623166403 / 2 ^ 26 := by
  have hread : double (67140707718825385 / 10 ^ 9) = (4505736623166403 : ℤ) * 2 ^ (26 - 52 : ℤ) :=
    double_eq (by norm_num) (by norm_num) (by norm_num) (by norm_num [abs_lt])
  rw [readStart, written_lateT]
  norm_num at hread ⊢
  exact hread

/-- It is scheduled 5 ns later. -/
theorem seconds_lateT : seconds (readStart lateT) = lateT + 5 := by
  have hfloor : ⌊(4505736623166403 / 2 ^ 26 : ℚ) * 2 ^ 64⌋ = 4505736623166403 * 2 ^ 38 := by
    rw [Int.floor_eq_iff]
    norm_num
  rw [readStart_lateT, seconds_of_nonneg (by norm_num)]
  simp only [hfloor, lateT]
  norm_num

/-- A size of 2⁶⁴ is not read, and a time after more than two years is read as a later one. -/
theorem not_schedulesOnTime :
    (∃ s, Written (drawn 0 (2 ^ 64)) 2 1 longTime s ∧ ¬ SchedulesOnTime (fun _ => true) s) ∧
      ∃ s, Written (drawn (lateT - baseT) 1) 2 1 longTime s ∧ ¬ SchedulesOnTime (fun _ => true) s := by
  have hhosts : ∀ flows, FlowSchedule.Hosts (driverReader fun _ => true) flows := fun _ _ _ => ⟨rfl, rfl⟩
  constructor
  · have hrun : (interDc (drawn 0 (2 ^ 64)) 2 1 longTime 5).map (Option.map fun s => (s.flows, s.nFlow)) =
        some (some ([⟨0, 1, 2 ^ 64, baseT, 0⟩, ⟨1, 0, 2 ^ 64, baseT, 1⟩], 2)) := by
      rw [interDc, endT_longTime]
      decide +kernel
    obtain ⟨s, hwritten, hflows, hnFlow⟩ := exists_written hrun
    refine ⟨s, hwritten, fun h => ?_⟩
    have hne : s.flows ≠ [] := by rw [hflows]; exact List.cons_ne_nil _ _
    obtain ⟨input, hinput, -⟩ := h.first hne (hhosts _)
    rw [flows_text_nil (by rw [hnFlow]; decide) hflows (by decide) (by decide) (Nat.le_refl _)] at hinput
    exact absurd hinput List.not_mem_nil
  · have hrun : (interDc (drawn (lateT - baseT) 1) 2 1 longTime 5).map (Option.map fun s => (s.flows, s.nFlow)) =
        some (some ([⟨0, 1, 1, lateT, 0⟩, ⟨1, 0, 1, lateT, 1⟩], 2)) := by
      rw [interDc, endT_longTime]
      decide +kernel
    obtain ⟨s, hwritten, hflows, hnFlow⟩ := exists_written hrun
    refine ⟨s, hwritten, fun h => ?_⟩
    have hne : s.flows ≠ [] := by rw [hflows]; exact List.cons_ne_nil _ _
    have htimes : ∀ f ∈ s.flows, f.t = lateT := by rw [hflows]; decide
    have hstart : readStart lateT < 2 ^ 1024 := by
      rw [readStart_lateT]
      exact lt_of_lt_of_le (b := 2 ^ 27) (by norm_num) (pow_le_pow_right₀ (by norm_num) (by norm_num))
    have hfits : ∀ f ∈ s.flows, f.Fits := by
      rw [hflows, List.forall_mem_cons, List.forall_mem_singleton]
      exact ⟨⟨by decide, by decide, by decide, hstart⟩, ⟨by decide, by decide, by decide, hstart⟩⟩
    obtain ⟨input, hinput, time, f, hf, hearly, hlate⟩ := h.first hne (hhosts _)
    rw [flows_text (by rw [hnFlow, hflows]; rfl) (by rw [hflows]; decide) hfits] at hinput
    obtain ⟨g, hg, rfl⟩ := List.mem_map.mp hinput
    change seconds (readStart g.t) ≤ time + 1 at hearly
    rw [htimes g hg, seconds_lateT] at hearly
    rw [htimes f hf] at hlate
    omega

end TrafficGen

end Lcmp
