import Lcmp.Lib.While
import Lcmp.Traffic.CustomRand
import Mathlib.Algebra.Order.Floor.Ring
import Mathlib.Data.List.Sort
import Mathlib.Data.Rat.Floor

/-!
# The bins of flow sizes

`flow_bins.py` walks down a distribution of flow sizes, a percent at a time, and inserts the half of a size where
a percent takes it further down.
-/

namespace Lcmp

/-- `int`: truncation towards zero. -/
def truncate (v : ℚ) : Int := if 0 ≤ v then ⌊v⌋ else ⌈v⌉

/-- The variables of the loop. -/
structure FlowBins where
  x : Int
  p : ℚ
  bins : List Int

/-- How the program leaves the loop. Without a value, `int` raises an exception; without a percentage, `p1 < 0` is
true. -/
inductive FlowBinsExit where
  | finished (bins : List Int)
  | error (p1 : Option ℚ) (bins : List Int)
  | exception

namespace FlowBins

/-- `bins` with the size of this turn. -/
def append (s : FlowBins) : List Int := if s.bins.getLast? = some s.x then s.bins else s.bins ++ [s.x]

variable (r : CustomRand ℚ)

/-- The rest of a turn, for the percentage `p1`. -/
def lower (x : Int) (bins : List Int) (p1 : ℚ) : FlowBins ⊕ FlowBinsExit :=
  match r.getValueFromPercentile p1 with
  | none => .inr .exception
  | some v =>
      if truncate v < x / 2 ∧ 1000 < x then
        match r.getPercentileFromValue (x / 2 : Int) with
        | none => .inr (.error none bins)
        | some p1 => if p1 < 0 then .inr (.error (some p1) bins) else .inl ⟨x / 2, p1, bins⟩
      else if p1 < 0 then .inr (.error (some p1) bins) else .inl ⟨truncate v, p1, bins⟩

def turn (s : FlowBins) : FlowBins ⊕ FlowBinsExit :=
  if 0 < s.x then
    if 2 < s.p then lower r s.x s.append (s.p - 1)
    else if 1 < s.p then lower r s.x s.append 1
    else .inr (.finished s.append)
  else .inr (.finished s.bins)

def start : Option FlowBins := (r.getValueFromPercentile 100).map fun v => ⟨truncate v, 100, []⟩

/-- `bins.sort()` and the lines that are printed. -/
def output (bins : List Int) : List (Int × Option ℚ) :=
  (bins.insertionSort (· ≤ ·)).map fun x => (x, r.getPercentileFromValue x)

/-! ### Truncation -/

theorem truncate_of_nonneg {v : ℚ} (hv : 0 ≤ v) : truncate v = ⌊v⌋ := if_pos hv

theorem truncate_nonneg {v : ℚ} (hv : 0 ≤ v) : 0 ≤ truncate v := by
  rw [truncate_of_nonneg hv]
  exact Int.floor_nonneg.mpr hv

theorem truncate_mono {v w : ℚ} (hv : 0 ≤ v) (hvw : v ≤ w) : truncate v ≤ truncate w := by
  rw [truncate_of_nonneg hv, truncate_of_nonneg (hv.trans hvw)]
  exact Int.floor_le_floor hvw

theorem truncate_intCast (x : Int) : truncate x = x := by
  rw [truncate, Int.floor_intCast, Int.ceil_intCast, ite_self]

theorem truncate_le {v : ℚ} (hv : 0 ≤ v) : (truncate v : ℚ) ≤ v := by
  rw [truncate_of_nonneg hv]
  exact Int.floor_le v

theorem lt_of_truncate_lt {v : ℚ} {x : Int} (hv : 0 ≤ v) (h : truncate v < x) : v < x := by
  rw [truncate_of_nonneg hv] at h
  exact Int.floor_lt.mp h

/-! ### A turn -/

/-- A bin and the next one downwards. -/
def Follows (b c : Int) : Prop := c < b ∧ (1000 < b → b / 2 ≤ c)

/-- What holds at the head of every turn. -/
structure Descent (s : FlowBins) : Prop where
  oneLe : 1 ≤ s.p
  leHundred : s.p ≤ 100
  value : ∃ v, r.getValueFromPercentile s.p = some v ∧ truncate v = s.x
  chain : s.bins.IsChain Follows
  fromLast : ∀ b ∈ s.bins.getLast?, s.x = b ∨ Follows b s.x
  leLast : ∀ b ∈ s.bins, (b : ℚ) ≤ r.last.1
  first : s.bins.head?.getD s.x = truncate r.last.1

variable {r} {s t : FlowBins}

theorem value_nonneg (hfirst : 0 ≤ r.first.1) {p v : ℚ} (hp : 0 ≤ p) (hv : r.getValueFromPercentile p = some v) :
    0 ≤ v :=
  hfirst.trans (CustomRand.getValueFromPercentile_mono hp r.getValueFromPercentile_zero hv)

theorem Descent.exists_value (hfirst : 0 ≤ r.first.1) (h : Descent r s) :
    ∃ v, r.getValueFromPercentile s.p = some v ∧ truncate v = s.x ∧ 0 ≤ v ∧ (s.x : ℚ) ≤ v := by
  obtain ⟨v, hv, hx⟩ := h.value
  have hpos := value_nonneg hfirst (zero_le_one.trans h.oneLe) hv
  exact ⟨v, hv, hx, hpos, hx ▸ truncate_le hpos⟩

theorem Descent.nonneg (hfirst : 0 ≤ r.first.1) (h : Descent r s) : 0 ≤ s.x := by
  obtain ⟨v, -, hx, hpos, -⟩ := h.exists_value hfirst
  rw [← hx]
  exact truncate_nonneg hpos

theorem Descent.le_last (hfirst : 0 ≤ r.first.1) (h : Descent r s) : (s.x : ℚ) ≤ r.last.1 := by
  obtain ⟨v, hv, -, -, hxv⟩ := h.exists_value hfirst
  exact hxv.trans (CustomRand.getValueFromPercentile_mono h.leHundred hv r.getValueFromPercentile_hundred)

/-- A percentage `p1` below that of the turn: the loop goes on there, or where the half of the size is if `p1`
takes it further down. -/
theorem lower_spec (hfirst : 0 ≤ r.first.1) (h : Descent r s) (bins : List Int) {p1 : ℚ}
    (hone : 1 ≤ p1) (hlt : p1 < s.p) :
    ∃ x p v, lower r s.x bins p1 = .inl ⟨x, p, bins⟩ ∧ (x < s.x ∨ p = p1) ∧ p1 ≤ p ∧ p < s.p ∧ x ≤ s.x ∧
      (1000 < s.x → s.x / 2 ≤ x) ∧ r.getValueFromPercentile p = some v ∧ truncate v = x := by
  obtain ⟨top, htop, hxtop, htopPos, hxle⟩ := h.exists_value hfirst
  have hnonneg : 0 ≤ p1 := zero_le_one.trans hone
  obtain ⟨v, hv⟩ := r.exists_getValueFromPercentile (hlt.le.trans h.leHundred)
  have hvpos := value_nonneg hfirst hnonneg hv
  rw [lower, hv]
  simp only
  by_cases hhalf : truncate v < s.x / 2 ∧ 1000 < s.x
  · -- the half lies between the value at `p1` and the size, so its percentage lies between `p1` and that of the turn
    have hvhalf : v < (s.x / 2 : Int) := lt_of_truncate_lt hvpos hhalf.1
    have hlesser : s.x / 2 < s.x := by omega
    have hcast : ((s.x / 2 : Int) : ℚ) < s.x := Int.cast_lt.mpr hlesser
    have hlow : r.first.1 ≤ (s.x / 2 : Int) :=
      (CustomRand.getValueFromPercentile_mono hnonneg r.getValueFromPercentile_zero hv).trans hvhalf.le
    obtain ⟨p, hp, -, hpercentile, hvalue⟩ :=
      CustomRand.exists_getPercentileFromValue hfirst hlow (hcast.le.trans (h.le_last hfirst))
    have hup := CustomRand.lt_of_getValueFromPercentile_lt hv hvalue hvhalf
    have hdown := CustomRand.lt_of_getValueFromPercentile_lt hvalue htop (hcast.trans_le hxle)
    rw [if_pos hhalf, hpercentile]
    simp only
    rw [if_neg hp.not_gt]
    exact ⟨_, _, _, rfl, .inl hlesser, hup.le, hdown, hlesser.le, fun _ => le_rfl, hvalue, truncate_intCast _⟩
  · rw [if_neg hhalf, if_neg hnonneg.not_gt]
    have hvtop := CustomRand.getValueFromPercentile_strictMono hlt hv htop
    refine ⟨_, _, v, rfl, .inr rfl, le_rfl, hlt, ?_, fun hlarge => ?_, hv, rfl⟩
    · rw [← hxtop]
      exact truncate_mono hvpos hvtop.le
    · by_contra hsmall
      exact hhalf ⟨not_le.mp hsmall, hlarge⟩

/-- The size of the turn is in the list when the turn ends, at its end. -/
theorem getLast?_append (s : FlowBins) : s.append.getLast? = some s.x := by
  rw [append]
  split
  case isTrue h => exact h
  case isFalse h => exact List.getLast?_concat

theorem head?_append (s : FlowBins) : s.append.head? = some (s.bins.head?.getD s.x) := by
  rw [append]
  cases hbins : s.bins with
  | nil => rfl
  | cons b bins =>
      split
      case isTrue => rfl
      case isFalse => rfl

theorem Descent.append_chain (h : Descent r s) : s.append.IsChain Follows := by
  rw [append]
  split
  case isTrue => exact h.chain
  case isFalse hnew =>
    refine List.isChain_append.mpr ⟨h.chain, List.isChain_singleton _, fun b hb c hc => ?_⟩
    obtain rfl : s.x = c := Option.some.inj hc
    refine (h.fromLast b hb).resolve_left fun hsame => hnew ?_
    rw [hsame]
    exact hb

theorem Descent.append_le (hfirst : 0 ≤ r.first.1) (h : Descent r s) : ∀ b ∈ s.append, (b : ℚ) ≤ r.last.1 := by
  rw [append]
  split
  case isTrue => exact h.leLast
  case isFalse =>
    intro b hb
    rcases List.mem_append.mp hb with hold | hnew
    · exact h.leLast b hold
    · rw [List.mem_singleton.mp hnew]
      exact h.le_last hfirst

/-- The percentage a turn looks at. -/
def next (p : ℚ) : ℚ := if 2 < p then p - 1 else 1

theorem next_spec {p : ℚ} (hp : 1 < p) : 1 ≤ next p ∧ next p < p ∧ ⌈next p⌉ < ⌈p⌉ := by
  rw [next]
  split
  case isTrue h =>
    refine ⟨by linarith, by linarith, ?_⟩
    rw [Int.ceil_sub_one]
    exact sub_one_lt _
  case isFalse =>
    refine ⟨le_rfl, hp, ?_⟩
    rw [Int.ceil_one]
    exact Int.lt_ceil.mpr (by exact_mod_cast hp)

/-- Every turn goes on with an invariant state, no larger size, and a smaller size or a smaller whole number of
percents; or it leaves the loop with a list of bins. -/
theorem turn_spec (hfirst : 0 ≤ r.first.1) (h : Descent r s) :
    (∃ t, turn r s = .inl t ∧ Descent r t ∧ t.x ≤ s.x ∧ t.p < s.p ∧ (t.x < s.x ∨ ⌈t.p⌉ < ⌈s.p⌉)) ∨
      ∃ bins, turn r s = .inr (.finished bins) ∧ bins.IsChain Follows ∧ (∀ b ∈ bins, (b : ℚ) ≤ r.last.1) ∧
        (0 < truncate r.last.1 → bins.head? = some (truncate r.last.1)) := by
  by_cases hpos : 0 < s.x
  · by_cases hone : 1 < s.p
    · left
      obtain ⟨hnext, hnextLt, hceil⟩ := next_spec hone
      obtain ⟨x, p, v, hlower, hless, hp, hps, hxs, hhalf, hv, hvx⟩ :=
        lower_spec hfirst h s.append hnext hnextLt
      have hturn : turn r s = lower r s.x s.append (next s.p) := by
        rw [turn, if_pos hpos, next]
        split
        case isTrue => rfl
        case isFalse => rfl
      refine ⟨⟨x, p, s.append⟩, hturn.trans hlower, ?_, hxs, hps, ?_⟩
      · refine ⟨hnext.trans hp, hps.le.trans h.leHundred, ⟨v, hv, hvx⟩, h.append_chain, fun b hb => ?_,
          h.append_le hfirst, by rw [head?_append, h.first, Option.getD_some]⟩
        obtain rfl := Option.some.inj ((getLast?_append s).symm.trans hb)
        rcases hxs.eq_or_lt with heq | hlt
        · exact .inl heq
        · exact .inr ⟨hlt, hhalf⟩
      · rcases hless with hlt | rfl
        · exact .inl hlt
        · exact .inr hceil
    · right
      have htwo : ¬ 2 < s.p := fun htwo => hone (one_lt_two.trans htwo)
      refine ⟨s.append, ?_, h.append_chain, h.append_le hfirst, fun _ => by rw [head?_append, h.first]⟩
      rw [turn, if_pos hpos, if_neg htwo, if_neg hone]
  · right
    refine ⟨s.bins, ?_, h.chain, h.leLast, fun hlast => ?_⟩
    · rw [turn, if_neg hpos]
    · -- a loop that has not turned has the largest size still to come
      have hfirst := h.first
      cases hhead : s.bins.head? with
      | none =>
          rw [hhead, Option.getD_none] at hfirst
          exact absurd (hfirst ▸ hlast) hpos
      | some b =>
          rw [hhead, Option.getD_some] at hfirst
          rw [hfirst]

theorem Descent.turn (hfirst : 0 ≤ r.first.1) (h : Descent r s) (ht : turn r s = .inl t) :
    Descent r t ∧ t.x ≤ s.x ∧ t.x.toNat + ⌈t.p⌉.toNat < s.x.toNat + ⌈s.p⌉.toNat := by
  rcases turn_spec hfirst h with ⟨t', ht', hdescent, hx, hp, hless⟩ | ⟨bins, hbins, -⟩
  · obtain rfl := Sum.inl.inj (ht.symm.trans ht')
    have hceil := Int.ceil_le_ceil hp.le
    have hxpos := hdescent.nonneg hfirst
    have hppos : 1 ≤ ⌈t.p⌉ := Int.one_le_ceil_iff.mpr (zero_lt_one.trans_le hdescent.oneLe)
    refine ⟨hdescent, hx, ?_⟩
    omega
  · rw [ht] at hbins
    cases hbins

theorem start_descent (r : CustomRand ℚ) :
    start r = some ⟨truncate r.last.1, 100, []⟩ ∧ Descent r ⟨truncate r.last.1, 100, []⟩ := by
  constructor
  · rw [start, r.getValueFromPercentile_hundred, Option.map_some]
  · refine ⟨by norm_num, le_rfl, ⟨r.last.1, r.getValueFromPercentile_hundred, rfl⟩, List.isChain_nil, ?_, ?_, rfl⟩
    · intro b hb
      cases hb
    · intro b hb
      cases hb

/-! ### The whole loop -/

variable (r) in
/-- The printed bins rise up to the largest size, and the sizes above 1000 are at most twice the one before, up to
rounding. -/
structure Covering (bins : List Int) : Prop where
  rising : bins.Pairwise (· < ·)
  leLast : ∀ b ∈ bins, (b : ℚ) ≤ r.last.1
  halves : bins.IsChain fun c b => 1000 < b → b / 2 ≤ c
  largest : 0 < truncate r.last.1 → bins.getLast? = some (truncate r.last.1)

/-- Sorting a list that goes down turns it around. -/
theorem map_fst_output (r : CustomRand ℚ) {bins : List Int} (hchain : bins.IsChain Follows) :
    (output r bins).map Prod.fst = bins.reverse ∧ bins.reverse.Pairwise (· < ·) := by
  have hdown : bins.IsChain (· > ·) := hchain.imp fun _ _ h => h.1
  have hrising : bins.reverse.Pairwise (· < ·) := List.pairwise_reverse.mpr (List.isChain_iff_pairwise.mp hdown)
  refine ⟨?_, hrising⟩
  have hmap : (output r bins).map Prod.fst = bins.insertionSort (· ≤ ·) := by
    rw [output, List.map_map]
    exact List.map_id _
  rw [hmap]
  exact List.Perm.eq_of_pairwise (fun a b _ _ (hab : a ≤ b) hba => le_antisymm hab hba) (List.pairwise_insertionSort _ bins)
    (hrising.imp le_of_lt) ((List.perm_insertionSort _ bins).trans bins.reverse_perm.symm)

theorem covering_output {bins : List Int} (hchain : bins.IsChain Follows) (hle : ∀ b ∈ bins, (b : ℚ) ≤ r.last.1)
    (hlargest : 0 < truncate r.last.1 → bins.head? = some (truncate r.last.1)) :
    Covering r ((output r bins).map Prod.fst) := by
  obtain ⟨hmap, hrising⟩ := map_fst_output r hchain
  rw [hmap]
  refine ⟨hrising, fun b hb => hle b (List.mem_reverse.mp hb), List.isChain_reverse.mpr (hchain.imp fun _ _ h => h.2), ?_⟩
  rw [List.getLast?_reverse]
  exact hlargest

/-- For every accepted distribution without negative sizes the loop ends with a list of bins, and its size never
grows from one turn to the next. -/
theorem loop_covering {cdf : List (ℚ × ℚ)} {r : CustomRand ℚ} (hset : setCdf cdf = some r)
    (hfirst : ∀ p ∈ cdf.head?, 0 ≤ p.1) :
    ∃ s, start r = some s ∧
      (∃ n bins, While.run (turn r) n s = some (.finished bins) ∧ Covering r ((output r bins).map Prod.fst)) ∧
      ∀ s' t, While.Steps (turn r) s s' → turn r s' = .inl t → t.x ≤ s'.x := by
  have hpos := CustomRand.first_nonneg hset hfirst
  obtain ⟨hstart, hdescent⟩ := start_descent r
  have hkeep : ∀ s t, Descent r s → turn r s = .inl t → Descent r t := fun s t h ht => (h.turn hpos ht).1
  refine ⟨_, hstart, ?_, fun s' t hsteps ht => ?_⟩
  · obtain ⟨n, exit, hrun⟩ := While.exists_run_of_measure (fun s : FlowBins => s.x.toNat + ⌈s.p⌉.toNat)
      (fun s t h ht => ⟨(h.turn hpos ht).1, (h.turn hpos ht).2.2⟩) hdescent
    obtain ⟨s, hs, hexit⟩ := While.exit_of_run hkeep hdescent hrun
    rcases turn_spec hpos hs with ⟨t, ht, -⟩ | ⟨bins, hbins, hchain, hle, hlargest⟩
    · rw [ht] at hexit
      cases hexit
    · obtain rfl := Sum.inr.inj (hbins.symm.trans hexit)
      exact ⟨n, bins, hrun, covering_output hchain hle hlargest⟩
  · exact ((hsteps.invariant hkeep hdescent).turn hpos ht).2.1

/-- From 51 to 50 percent the size falls to less than its half. -/
theorem loop_covering_twoSegments :
    ∃ s, start CustomRand.twoSegments = some s ∧
      (∃ n bins, While.run (turn CustomRand.twoSegments) n s = some (.finished bins) ∧
        Covering CustomRand.twoSegments ((output CustomRand.twoSegments bins).map Prod.fst)) ∧
      ∀ s' t, While.Steps (turn CustomRand.twoSegments) s s' → turn CustomRand.twoSegments s' = .inl t →
        t.x ≤ s'.x :=
  loop_covering CustomRand.twoSegments.setCdf_cdf (by decide +kernel)

end FlowBins

end Lcmp
