import Lcmp.Lib.Polyline

/-!
# The sampler of flow sizes

`CustomRand` of the traffic generators: a distribution function given by points `[x, y]`, a size and the
percentage of the flows that are no larger, read in both directions. Numbers are those of an ordered field, the
rational ones for instance, where the source has floating point.
-/

universe u

namespace Lcmp

section Cdf

variable {K : Type u} [Field K] [LinearOrder K]

/-- The loop of `testCdf`. -/
def testCdfSteps : List (K × K) → Bool
  | last :: c :: rest => if c.2 ≤ last.2 ∨ c.1 ≤ last.1 then false else testCdfSteps (c :: rest)
  | _ => true

/-- The first and the last point of an empty list are an error. -/
def testCdf (cdf : List (K × K)) : Option Bool :=
  match cdf.head?, cdf.getLast? with
  | some first, some last =>
      if first.2 ≠ 0 then some false
      else if last.2 ≠ 100 then some false
      else some (testCdfSteps cdf)
  | _, _ => none

end Cdf

/-- A sampler whose distribution was accepted. -/
structure CustomRand (K : Type u) [Field K] [LinearOrder K] where
  cdf : List (K × K)
  accepted : testCdf cdf = some true

section Readings

variable {K : Type u} [Field K] [LinearOrder K]

def setCdf (cdf : List (K × K)) : Option (CustomRand K) :=
  if h : testCdf cdf = some true then some ⟨cdf, h⟩ else none

/-- The loop of `getAvg`. -/
def getAvgFrom (s lastX lastY : K) : List (K × K) → K
  | [] => s
  | (x, y) :: rest => getAvgFrom (s + (x + lastX) / 2 * (y - lastY)) x y rest

/-- The loop of `getPercentileFromValue`. -/
def percentileFrom : List (K × K) → K → Option K
  | (x0, y0) :: (x1, y1) :: rest, x =>
      if x ≤ x1 then some (y0 + (y1 - y0) / (x1 - x0) * (x - x0)) else percentileFrom ((x1, y1) :: rest) x
  | _, _ => none

/-- The loop of `getValueFromPercentile`. -/
def valueFrom : List (K × K) → K → Option K
  | (x0, y0) :: (x1, y1) :: rest, y =>
      if y ≤ y1 then some (x0 + (x1 - x0) / (y1 - y0) * (y - y0)) else valueFrom ((x1, y1) :: rest) y
  | _, _ => none

/-- The loop of `getIntegralY`. -/
def integralFrom (s : K) : List (K × K) → K → K
  | (x0, y0) :: (x1, y1) :: rest, y =>
      if y ≤ y1 then s + 0.5 * (x0 + x0 + (x1 - x0) / (y1 - y0) * (y - y0)) * (y - y0) / 100
      else integralFrom (s + 0.5 * (x1 + x0) * (y1 - y0) / 100) ((x1, y1) :: rest) y
  | _, _ => s

end Readings

namespace CustomRand

variable {K : Type u} [Field K] [LinearOrder K]

theorem cdf_ne_nil (r : CustomRand K) : r.cdf ≠ [] := by
  intro hnil
  have haccepted := r.accepted
  rw [hnil] at haccepted
  cases haccepted

/-- The first point `cdf[0]`. -/
def first (r : CustomRand K) : K × K := r.cdf.head r.cdf_ne_nil

/-- The last point `cdf[-1]`. -/
def last (r : CustomRand K) : K × K := r.cdf.getLast r.cdf_ne_nil

def getAvg (r : CustomRand K) : K := getAvgFrom 0 r.first.1 r.first.2 r.cdf.tail / 100

def getPercentileFromValue (r : CustomRand K) (x : K) : Option K :=
  if x < 0 ∨ r.last.1 < x then some (-1) else percentileFrom r.cdf x

def getValueFromPercentile (r : CustomRand K) (y : K) : Option K := valueFrom r.cdf y

/-- `rand`, for what `random.random()` returns. -/
def rand (r : CustomRand K) (random : K) : Option K := r.getValueFromPercentile (random * 100)

def getIntegralY (r : CustomRand K) (y : K) : K := integralFrom 0 r.cdf y

theorem setCdf_cdf (r : CustomRand K) : setCdf r.cdf = some r := dif_pos r.accepted

theorem first_nonneg {cdf : List (K × K)} {r : CustomRand K} (hset : setCdf cdf = some r)
    (hfirst : ∀ p ∈ cdf.head?, 0 ≤ p.1) : 0 ≤ r.first.1 := by
  have hcdf : cdf = r.cdf := by
    rw [setCdf] at hset
    split at hset
    case isTrue => rw [← Option.some.inj hset]
    case isFalse => cases hset
  refine hfirst r.first ?_
  rw [hcdf, first, List.head?_eq_some_head r.cdf_ne_nil]
  rfl

/-! ### The two polylines of a distribution -/

theorem percentileFrom_eq (cdf : List (K × K)) (x : K) : percentileFrom cdf x = Polyline.eval cdf x := by
  induction cdf with
  | nil => rfl
  | cons p rest ih =>
      cases rest with
      | nil => rfl
      | cons q rest => rw [percentileFrom, Polyline.eval, ih, Polyline.lerp]

theorem valueFrom_eq (cdf : List (K × K)) (y : K) : valueFrom cdf y = Polyline.eval (cdf.map Prod.swap) y := by
  induction cdf with
  | nil => rfl
  | cons p rest ih =>
      cases rest with
      | nil => rfl
      | cons q rest =>
          rw [valueFrom, ih]
          rfl

omit [Field K] in
theorem testCdfSteps_iff (p : K × K) (rest : List (K × K)) :
    testCdfSteps (p :: rest) = true ↔ Polyline.Rising p rest := by
  induction rest generalizing p with
  | nil => exact iff_of_true rfl (List.isChain_singleton p)
  | cons q rest ih =>
      rw [testCdfSteps, Polyline.rising_cons, ← ih q]
      by_cases hdown : q.2 ≤ p.2 ∨ q.1 ≤ p.1
      · rw [if_pos hdown]
        refine iff_of_false Bool.false_ne_true fun h => ?_
        rcases hdown with hdown | hdown
        · exact absurd h.1.2 hdown.not_gt
        · exact absurd h.1.1 hdown.not_gt
      · rw [if_neg hdown]
        obtain ⟨hy, hx⟩ := not_or.mp hdown
        exact ⟨fun h => ⟨⟨not_le.mp hx, not_le.mp hy⟩, h⟩, fun h => h.2⟩

/-- What an accepted distribution looks like. -/
theorem exists_rising [IsStrictOrderedRing K] (r : CustomRand K) :
    ∃ rest, r.cdf = r.first :: rest ∧ rest ≠ [] ∧ Polyline.Rising r.first rest ∧ r.first.2 = 0 ∧
      r.last = Polyline.last r.first rest ∧ r.last.2 = 100 := by
  obtain ⟨cdf, haccepted⟩ := r
  cases cdf with
  | nil => cases haccepted
  | cons p rest =>
      have hlast : (p :: rest).getLast (List.cons_ne_nil p rest) = Polyline.last p rest :=
        Option.some.inj ((List.getLast?_eq_some_getLast _).symm.trans (Polyline.getLast?_cons p rest))
      simp only [first, last, List.head_cons, hlast]
      rw [testCdf, List.head?_cons, Polyline.getLast?_cons] at haccepted
      by_cases hzero : p.2 = 0
      · by_cases hhundred : (Polyline.last p rest).2 = 100
        · simp only [hzero, hhundred, ne_eq, not_true_eq_false, if_false, Option.some.injEq] at haccepted
          refine ⟨rest, rfl, ?_, (testCdfSteps_iff p rest).mp haccepted, hzero, rfl, hhundred⟩
          rintro rfl
          rw [Polyline.last, hzero] at hhundred
          norm_num at hhundred
        · simp [hzero, hhundred] at haccepted
      · simp [hzero] at haccepted

section Order

variable [IsStrictOrderedRing K] {r : CustomRand K} {x x' y y' : K}

/-- The values over the percentages. -/
theorem exists_values (r : CustomRand K) :
    ∃ rest, r.cdf.map Prod.swap = r.first.swap :: rest ∧ rest ≠ [] ∧ Polyline.Rising r.first.swap rest ∧
      r.first.2 = 0 ∧ Polyline.last r.first.swap rest = r.last.swap ∧ r.last.2 = 100 := by
  obtain ⟨rest, hcdf, hrest, hrising, hzero, hlast, hhundred⟩ := r.exists_rising
  refine ⟨rest.map Prod.swap, by rw [hcdf, List.map_cons], fun hnil => ?_, hrising.swap, hzero, ?_, hhundred⟩
  · exact hrest (List.map_eq_nil_iff.mp hnil)
  · rw [hlast, Polyline.last_swap]

theorem exists_getValueFromPercentile (r : CustomRand K) (hy : y ≤ 100) :
    ∃ x, r.getValueFromPercentile y = some x := by
  obtain ⟨rest, hvalues, hrest, -, -, hlast, hhundred⟩ := r.exists_values
  rw [getValueFromPercentile, valueFrom_eq, hvalues]
  refine Polyline.exists_eval hrest ?_
  rwa [hlast, Prod.fst_swap, hhundred]

theorem getValueFromPercentile_strictMono (hyy : y < y') (hx : r.getValueFromPercentile y = some x)
    (hx' : r.getValueFromPercentile y' = some x') : x < x' := by
  obtain ⟨rest, hvalues, -, hrising, -⟩ := r.exists_values
  rw [getValueFromPercentile, valueFrom_eq, hvalues] at hx hx'
  exact hrising.eval_strictMono hyy hx hx'

theorem getValueFromPercentile_mono (hyy : y ≤ y') (hx : r.getValueFromPercentile y = some x)
    (hx' : r.getValueFromPercentile y' = some x') : x ≤ x' := by
  rcases hyy.eq_or_lt with rfl | hlt
  · exact (Option.some.inj (hx.symm.trans hx')).le
  · exact (getValueFromPercentile_strictMono hlt hx hx').le

theorem lt_of_getValueFromPercentile_lt (hx : r.getValueFromPercentile y = some x)
    (hx' : r.getValueFromPercentile y' = some x') (hxx : x < x') : y < y' := by
  by_contra hge
  exact absurd (getValueFromPercentile_mono (not_lt.mp hge) hx' hx) hxx.not_ge

theorem getValueFromPercentile_zero (r : CustomRand K) : r.getValueFromPercentile 0 = some r.first.1 := by
  obtain ⟨rest, hvalues, hrest, hrising, hzero, -⟩ := r.exists_values
  have hfirst := Polyline.eval_first hrising hrest
  rw [Prod.fst_swap, hzero] at hfirst
  rw [getValueFromPercentile, valueFrom_eq, hvalues, hfirst, Prod.snd_swap]

theorem getValueFromPercentile_hundred (r : CustomRand K) : r.getValueFromPercentile 100 = some r.last.1 := by
  obtain ⟨rest, hvalues, hrest, hrising, -, hlast, hhundred⟩ := r.exists_values
  have heval := hrising.eval_last hrest
  rw [hlast, Prod.fst_swap, hhundred] at heval
  rw [getValueFromPercentile, valueFrom_eq, hvalues, heval, Prod.snd_swap]

/-- A value of a distribution with no negative sizes lies within it, and its percentage is found again. -/
theorem getPercentileFromValue_of_value (hfirst : 0 ≤ r.first.1) (hy : 0 ≤ y) (hy' : y ≤ 100)
    (hx : r.getValueFromPercentile y = some x) : r.getPercentileFromValue x = some y := by
  have hlow := getValueFromPercentile_mono hy r.getValueFromPercentile_zero hx
  have hhigh := getValueFromPercentile_mono hy' hx r.getValueFromPercentile_hundred
  have hrange : ¬ (x < 0 ∨ r.last.1 < x) := by
    rintro (hneg | hlarge)
    · exact absurd (hfirst.trans hlow) hneg.not_ge
    · exact absurd hhigh hlarge.not_ge
  obtain ⟨rest, hvalues, -, hrising, -⟩ := r.exists_values
  rw [getValueFromPercentile, valueFrom_eq, hvalues] at hx
  have hback := hrising.eval_swap hx
  have hswap : r.first.swap.swap :: rest.map Prod.swap = r.cdf := by
    rw [← List.map_cons, ← hvalues, List.map_map, Prod.swap_swap_eq, List.map_id]
  rw [getPercentileFromValue, if_neg hrange, percentileFrom_eq, ← hswap, hback]

/-- Between the first and the last size every one has a percentage, whose value it is. -/
theorem exists_getPercentileFromValue (hfirst : 0 ≤ r.first.1) (hx : r.first.1 ≤ x) (hx' : x ≤ r.last.1) :
    ∃ y, 0 ≤ y ∧ y ≤ 100 ∧ r.getPercentileFromValue x = some y ∧ r.getValueFromPercentile y = some x := by
  obtain ⟨rest, hcdf, hrest, hrising, hzero, hlast, hhundred⟩ := r.exists_rising
  obtain ⟨y, hy⟩ := Polyline.exists_eval (s := x) hrest (hx'.trans_eq (congrArg Prod.fst hlast))
  have hvalue : r.getValueFromPercentile y = some x := by
    rw [getValueFromPercentile, valueFrom_eq, hcdf, List.map_cons]
    exact hrising.eval_swap hy
  have hlow : 0 ≤ y := hzero.symm.le.trans (hrising.le_eval hx hy)
  have hhigh : y ≤ 100 := by
    by_contra hlarge
    have hless := getValueFromPercentile_strictMono (not_le.mp hlarge) r.getValueFromPercentile_hundred hvalue
    exact absurd hx' hless.not_ge
  exact ⟨y, hlow, hhigh, getPercentileFromValue_of_value hfirst hlow hhigh hvalue, hvalue⟩

/-! ### The mean -/

theorem getAvgFrom_eq (s : K) (p : K × K) (rest : List (K × K)) (h : Polyline.Rising p.swap (rest.map Prod.swap)) :
    getAvgFrom s p.1 p.2 rest =
      s + Polyline.area ((p :: rest).map Prod.swap) (Polyline.last p.swap (rest.map Prod.swap)).1 := by
  induction rest generalizing p s with
  | nil => exact (add_zero s).symm
  | cons q rest ih =>
      obtain ⟨hpq, hrest⟩ := Polyline.rising_cons.mp h
      have hturn : getAvgFrom s p.1 p.2 (q :: rest) =
          getAvgFrom (s + (q.1 + p.1) / 2 * (q.2 - p.2)) q.1 q.2 rest := rfl
      rw [hturn, ih _ q hrest, List.map_cons, List.map_cons, List.map_cons, Polyline.area_cons_last hpq hrest]
      simp only [Prod.fst_swap, Prod.snd_swap]
      ring

theorem integralFrom_eq (s : K) (cdf : List (K × K)) (y : K) :
    integralFrom s cdf y = s + Polyline.area (cdf.map Prod.swap) y / 100 := by
  induction cdf generalizing s with
  | nil => simp [integralFrom, Polyline.area]
  | cons p rest ih =>
      cases rest with
      | nil => simp [integralFrom, Polyline.area]
      | cons q rest =>
          rw [integralFrom, ih]
          simp only [List.map_cons, Polyline.area, Polyline.lerp, Prod.fst_swap, Prod.snd_swap]
          by_cases hle : y ≤ q.2
          · rw [if_pos hle, if_pos hle]
            ring
          · rw [if_neg hle, if_neg hle]
            ring

/-- The integral grows by at least the lower and at most the upper value of a stretch of percentages. -/
theorem getIntegralY_bounds (hy : 0 ≤ y) (hyy : y ≤ y') (hx : r.getValueFromPercentile y = some x)
    (hx' : r.getValueFromPercentile y' = some x') :
    x * (y' - y) / 100 ≤ r.getIntegralY y' - r.getIntegralY y ∧
      r.getIntegralY y' - r.getIntegralY y ≤ x' * (y' - y) / 100 := by
  obtain ⟨rest, hvalues, -, hrising, hzero, -⟩ := r.exists_values
  rw [getValueFromPercentile, valueFrom_eq, hvalues] at hx hx'
  have hbounds := hrising.area_bounds (by rwa [Prod.fst_swap, hzero]) hyy hx hx'
  have hdiff : r.getIntegralY y' - r.getIntegralY y =
      (Polyline.area (r.first.swap :: rest) y' - Polyline.area (r.first.swap :: rest) y) / 100 := by
    rw [getIntegralY, getIntegralY, integralFrom_eq, integralFrom_eq, hvalues]
    ring
  rw [hdiff]
  constructor
  · exact div_le_div_of_nonneg_right hbounds.1 (by norm_num)
  · exact div_le_div_of_nonneg_right hbounds.2 (by norm_num)

theorem getIntegralY_of_le (r : CustomRand K) (hy : 100 ≤ y) : r.getIntegralY y = r.getIntegralY 100 := by
  obtain ⟨rest, hvalues, -, hrising, -, hlast, hhundred⟩ := r.exists_values
  have hconst := hrising.area_eq_last (s := y) (by rwa [hlast, Prod.fst_swap, hhundred])
  rw [hlast, Prod.fst_swap, hhundred] at hconst
  rw [getIntegralY, getIntegralY, integralFrom_eq, integralFrom_eq, hvalues, hconst]

theorem getIntegralY_mono (hfirst : 0 ≤ r.first.1) (hy : 0 ≤ y) (hyy : y ≤ y') :
    r.getIntegralY y ≤ r.getIntegralY y' := by
  -- the part of the stretch up to 100
  have hwithin : ∀ {z z' : K}, 0 ≤ z → z ≤ z' → z' ≤ 100 → r.getIntegralY z ≤ r.getIntegralY z' := by
    intro z z' hz hzz hz'
    obtain ⟨x, hx⟩ := r.exists_getValueFromPercentile (hzz.trans hz')
    obtain ⟨x', hx'⟩ := r.exists_getValueFromPercentile hz'
    have hpos := hfirst.trans (getValueFromPercentile_mono hz r.getValueFromPercentile_zero hx)
    have hprod : 0 ≤ x * (z' - z) / 100 := div_nonneg (mul_nonneg hpos (sub_nonneg.mpr hzz)) (by norm_num)
    exact sub_nonneg.mp (hprod.trans (getIntegralY_bounds hz hzz hx hx').1)
  rcases le_total y' 100 with hy' | hy'
  · exact hwithin hy hyy hy'
  · rw [r.getIntegralY_of_le hy']
    rcases le_total y 100 with hlow | hlow
    · exact hwithin hy hlow le_rfl
    · rw [r.getIntegralY_of_le hlow]

theorem getIntegralY_hundred (r : CustomRand K) : r.getIntegralY 100 = r.getAvg := by
  obtain ⟨rest, hcdf, -, hrising, -, hlast, hhundred⟩ := r.exists_rising
  have hend : (Polyline.last r.first.swap (rest.map Prod.swap)).1 = 100 := by
    rw [Polyline.last_swap, ← hlast, Prod.fst_swap, hhundred]
  have havg := getAvgFrom_eq 0 r.first rest hrising.swap
  rw [hend, zero_add, ← hcdf] at havg
  rw [getIntegralY, integralFrom_eq, zero_add, getAvg, hcdf, List.tail_cons, ← hcdf, havg]

variable (r) in
/-- The two readings are inverse to each other, and the integral of the values up to 100 is the mean size. -/
structure Consistent : Prop where
  defined : ∀ y, 0 ≤ y → y ≤ 100 → ∃ x, r.getValueFromPercentile y = some x
  increasing : ∀ y y' x x', 0 ≤ y → y < y' → y' ≤ 100 → r.getValueFromPercentile y = some x →
    r.getValueFromPercentile y' = some x' → x < x'
  percentileOfValue : ∀ y, 0 ≤ y → y ≤ 100 →
    (r.getValueFromPercentile y).bind r.getPercentileFromValue = some y
  valueOfPercentile : ∀ x, r.first.1 ≤ x → x ≤ r.last.1 →
    (r.getPercentileFromValue x).bind r.getValueFromPercentile = some x
  integralMono : ∀ y y', 0 ≤ y → y ≤ y' → r.getIntegralY y ≤ r.getIntegralY y'
  integralHundred : r.getIntegralY 100 = r.getAvg
  /-- The mean is that of the values: every stretch of percentages adds no less than its lowest and no more than
  its highest value. -/
  integralBounds : ∀ y y' x x', 0 ≤ y → y ≤ y' → y' ≤ 100 → r.getValueFromPercentile y = some x →
    r.getValueFromPercentile y' = some x' → x * (y' - y) / 100 ≤ r.getIntegralY y' - r.getIntegralY y ∧
      r.getIntegralY y' - r.getIntegralY y ≤ x' * (y' - y) / 100

/-- Every accepted distribution without negative sizes is sampled consistently. -/
theorem sampling_consistent {cdf : List (K × K)} {r : CustomRand K} (hset : setCdf cdf = some r)
    (hfirst : ∀ p ∈ cdf.head?, 0 ≤ p.1) : r.Consistent := by
  have hpos := first_nonneg hset hfirst
  refine ⟨fun y _ hy' => r.exists_getValueFromPercentile hy', fun y y' x x' _ hyy _ hx hx' =>
    getValueFromPercentile_strictMono hyy hx hx', fun y hy hy' => ?_, fun x hx hx' => ?_, fun y y' hy hyy =>
    getIntegralY_mono hpos hy hyy, r.getIntegralY_hundred, fun y y' x x' hy hyy _ hx hx' =>
    getIntegralY_bounds hy hyy hx hx'⟩
  · obtain ⟨x, hx⟩ := r.exists_getValueFromPercentile hy'
    rw [hx, Option.bind_some, getPercentileFromValue_of_value hpos hy hy' hx]
  · obtain ⟨y, -, -, hy, hvalue⟩ := exists_getPercentileFromValue hpos hx hx'
    rw [hy, Option.bind_some, hvalue]

end Order

/-- Half of the flows have up to 100 bytes, the others up to a million. -/
def twoSegments : CustomRand ℚ where
  cdf := [(10, 0), (100, 50), (1000000, 100)]
  accepted := by decide +kernel

theorem sampling_consistent_twoSegments : twoSegments.Consistent :=
  sampling_consistent twoSegments.setCdf_cdf (by decide +kernel)

end CustomRand

end Lcmp
