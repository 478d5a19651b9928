import Mathlib.Algebra.Order.Field.Basic
import Mathlib.Data.List.Chain
import Mathlib.Tactic.FieldSimp
import Mathlib.Tactic.Linarith
import Mathlib.Tactic.Positivity
import Mathlib.Tactic.Ring

/-!
# Rising polylines

A polyline through points whose abscissas and ordinates both rise, read at an abscissa by a search for the
first point that is not before it. Such a reading is strictly increasing, is undone by the reading of the
reflected polyline, and grows the area below it by at least its lower and at most its upper value.
-/

universe u

namespace Polyline

variable {K : Type u} [Field K] [LinearOrder K] [IsStrictOrderedRing K]

/-- The line through two points. -/
def lerp (p q : K × K) (s : K) : K := p.2 + (q.2 - p.2) / (q.1 - p.1) * (s - p.1)

def eval : List (K × K) → K → Option K
  | p :: q :: rest, s => if s ≤ q.1 then some (lerp p q s) else eval (q :: rest) s
  | _, _ => none

/-- The area between the polyline and the axis, from the first point up to an abscissa. -/
def area : List (K × K) → K → K
  | p :: q :: rest, s =>
      if s ≤ q.1 then (p.2 + lerp p q s) / 2 * (s - p.1)
      else (p.2 + q.2) / 2 * (q.1 - p.1) + area (q :: rest) s
  | _, _ => 0

def Below (p q : K × K) : Prop := p.1 < q.1 ∧ p.2 < q.2

def last (p : K × K) : List (K × K) → K × K
  | [] => p
  | q :: rest => last q rest

/-- The polyline from `p` through the points of `rest`. -/
def Rising (p : K × K) (rest : List (K × K)) : Prop := List.IsChain Below (p :: rest)

variable {p q : K × K} {rest : List (K × K)} {s t u v : K}

omit [Field K] [LinearOrder K] [IsStrictOrderedRing K] in
theorem getLast?_cons (p : K × K) (rest : List (K × K)) : (p :: rest).getLast? = some (last p rest) := by
  induction rest generalizing p with
  | nil => rfl
  | cons q rest ih => rw [List.getLast?_cons_cons, ih, last]

omit [Field K] [IsStrictOrderedRing K] in
theorem rising_cons : Rising p (q :: rest) ↔ Below p q ∧ Rising q rest := List.isChain_cons_cons

omit [Field K] [IsStrictOrderedRing K] in
theorem Rising.le_last (h : Rising p rest) : p.1 ≤ (last p rest).1 ∧ p.2 ≤ (last p rest).2 := by
  induction rest generalizing p with
  | nil => exact ⟨le_rfl, le_rfl⟩
  | cons q rest ih =>
      obtain ⟨hpq, hrest⟩ := rising_cons.mp h
      exact ⟨hpq.1.le.trans (ih hrest).1, hpq.2.le.trans (ih hrest).2⟩

/-! ### One segment -/

omit [LinearOrder K] [IsStrictOrderedRing K] in
theorem lerp_left (p q : K × K) : lerp p q p.1 = p.2 := by
  rw [lerp, sub_self, mul_zero, add_zero]

omit [IsStrictOrderedRing K] in
theorem lerp_right (h : Below p q) : lerp p q q.1 = q.2 := by
  have hne : q.1 - p.1 ≠ 0 := sub_ne_zero.mpr h.1.ne'
  rw [lerp, div_mul_cancel₀ _ hne, add_sub_cancel]

theorem lerp_lt_lerp (h : Below p q) (hst : s < t) : lerp p q s < lerp p q t := by
  have hslope : 0 < (q.2 - p.2) / (q.1 - p.1) := div_pos (sub_pos.mpr h.2) (sub_pos.mpr h.1)
  have hmul := mul_lt_mul_of_pos_left (sub_lt_sub_right hst p.1) hslope
  exact add_lt_add_right hmul p.2

theorem lerp_le_lerp (h : Below p q) (hst : s ≤ t) : lerp p q s ≤ lerp p q t := by
  rcases hst.eq_or_lt with rfl | hlt
  · exact le_rfl
  · exact (lerp_lt_lerp h hlt).le

theorem lerp_le (h : Below p q) (hs : s ≤ q.1) : lerp p q s ≤ q.2 := by
  calc lerp p q s ≤ lerp p q q.1 := lerp_le_lerp h hs
    _ = q.2 := lerp_right h

omit [IsStrictOrderedRing K] in
/-- The reflected line is the inverse. -/
theorem lerp_swap (h : Below p q) (s : K) : lerp p.swap q.swap (lerp p q s) = s := by
  have habscissa : q.1 - p.1 ≠ 0 := sub_ne_zero.mpr h.1.ne'
  have hordinate : q.2 - p.2 ≠ 0 := sub_ne_zero.mpr h.2.ne'
  simp only [lerp, Prod.fst_swap, Prod.snd_swap]
  field_simp
  ring

/-- A trapezoid is at least as large as the rectangle below its lower side, and at most as large as the one
below its upper side. -/
theorem trapezoid_bounds (huv : u ≤ v) (hst : s ≤ t) :
    u * (t - s) ≤ (u + v) / 2 * (t - s) ∧ (u + v) / 2 * (t - s) ≤ v * (t - s) := by
  have hwidth : 0 ≤ t - s := sub_nonneg.mpr hst
  constructor
  · exact mul_le_mul_of_nonneg_right (by linarith) hwidth
  · exact mul_le_mul_of_nonneg_right (by linarith) hwidth

omit [IsStrictOrderedRing K] in
/-- A trapezoid under a segment cut in two. -/
theorem trapezoid_split (h : Below p q) (s : K) :
    (p.2 + q.2) / 2 * (q.1 - p.1) =
      (p.2 + lerp p q s) / 2 * (s - p.1) + (lerp p q s + q.2) / 2 * (q.1 - s) := by
  have hright := lerp_right h
  simp only [lerp] at hright ⊢
  generalize (q.2 - p.2) / (q.1 - p.1) = slope at hright ⊢
  rw [← hright]
  ring

/-! ### Reading a polyline -/

omit [IsStrictOrderedRing K] in
theorem eval_of_le (hs : s ≤ q.1) : eval (p :: q :: rest) s = some (lerp p q s) := if_pos hs

omit [IsStrictOrderedRing K] in
theorem eval_of_lt (hs : q.1 < s) : eval (p :: q :: rest) s = eval (q :: rest) s := if_neg hs.not_ge

omit [IsStrictOrderedRing K] in
/-- There is a reading up to the last point. -/
theorem exists_eval (hrest : rest ≠ []) (hs : s ≤ (last p rest).1) : ∃ u, eval (p :: rest) s = some u := by
  induction rest generalizing p with
  | nil => exact absurd rfl hrest
  | cons q rest ih =>
      rcases le_or_gt s q.1 with hle | hlt
      · exact ⟨_, eval_of_le hle⟩
      · rw [eval_of_lt hlt]
        refine ih (fun hnil => ?_) hs
        subst hnil
        exact absurd hs hlt.not_ge

/-- A reading behind the first point is above it. -/
theorem Rising.lt_eval (h : Rising p rest) (hs : p.1 < s) (hu : eval (p :: rest) s = some u) : p.2 < u := by
  induction rest generalizing p with
  | nil => cases hu
  | cons q rest ih =>
      obtain ⟨hpq, hrest⟩ := rising_cons.mp h
      rcases le_or_gt s q.1 with hle | hlt
      · rw [eval_of_le hle] at hu
        obtain rfl := Option.some.inj hu
        calc p.2 = lerp p q p.1 := (lerp_left p q).symm
          _ < lerp p q s := lerp_lt_lerp hpq hs
      · rw [eval_of_lt hlt] at hu
        exact hpq.2.trans (ih hrest hlt hu)

theorem Rising.le_eval (h : Rising p rest) (hs : p.1 ≤ s) (hu : eval (p :: rest) s = some u) : p.2 ≤ u := by
  cases rest with
  | nil => cases hu
  | cons q rest =>
      obtain ⟨hpq, -⟩ := rising_cons.mp h
      rcases hs.eq_or_lt with rfl | hlt
      · rw [eval_of_le hpq.1.le, lerp_left] at hu
        exact (Option.some.inj hu).le
      · exact (h.lt_eval hlt hu).le

theorem Rising.eval_strictMono (h : Rising p rest) (hst : s < t) (hu : eval (p :: rest) s = some u)
    (hv : eval (p :: rest) t = some v) : u < v := by
  induction rest generalizing p with
  | nil => cases hu
  | cons q rest ih =>
      obtain ⟨hpq, hrest⟩ := rising_cons.mp h
      rcases le_or_gt s q.1 with hs | hs
      · rw [eval_of_le hs] at hu
        obtain rfl := Option.some.inj hu
        rcases le_or_gt t q.1 with ht | ht
        · rw [eval_of_le ht] at hv
          obtain rfl := Option.some.inj hv
          exact lerp_lt_lerp hpq hst
        · rw [eval_of_lt ht] at hv
          exact (lerp_le hpq hs).trans_lt (hrest.lt_eval ht hv)
      · rw [eval_of_lt hs] at hu
        rw [eval_of_lt (hs.trans hst)] at hv
        exact ih hrest hu hv

omit [IsStrictOrderedRing K] in
theorem eval_first (h : Rising p rest) (hrest : rest ≠ []) : eval (p :: rest) p.1 = some p.2 := by
  cases rest with
  | nil => exact absurd rfl hrest
  | cons q rest => rw [eval_of_le (rising_cons.mp h).1.1.le, lerp_left]

omit [IsStrictOrderedRing K] in
theorem Rising.eval_last (h : Rising p rest) (hrest : rest ≠ []) :
    eval (p :: rest) (last p rest).1 = some (last p rest).2 := by
  induction rest generalizing p with
  | nil => exact absurd rfl hrest
  | cons q rest ih =>
      obtain ⟨hpq, htail⟩ := rising_cons.mp h
      cases rest with
      | nil =>
          simp only [last]
          rw [eval_of_le le_rfl, lerp_right hpq]
      | cons r rest =>
          have hlt : q.1 < (last p (q :: r :: rest)).1 :=
            (rising_cons.mp htail).1.1.trans_le (rising_cons.mp htail).2.le_last.1
          rw [eval_of_lt hlt]
          exact ih htail (List.cons_ne_nil r rest)

/-! ### Reflection -/

omit [Field K] [IsStrictOrderedRing K] in
theorem Rising.swap (h : Rising p rest) : Rising p.swap (rest.map Prod.swap) := by
  induction rest generalizing p with
  | nil => exact List.isChain_singleton _
  | cons q rest ih =>
      obtain ⟨hpq, hrest⟩ := rising_cons.mp h
      exact rising_cons.mpr ⟨⟨hpq.2, hpq.1⟩, ih hrest⟩

omit [Field K] [LinearOrder K] [IsStrictOrderedRing K] in
theorem last_swap (p : K × K) (rest : List (K × K)) : last p.swap (rest.map Prod.swap) = (last p rest).swap := by
  induction rest generalizing p with
  | nil => rfl
  | cons q rest ih => exact ih q

/-- A reading from the first point on is undone by the reflected polyline. -/
theorem Rising.eval_swap (h : Rising p rest) (hu : eval (p :: rest) s = some u) :
    eval (p.swap :: rest.map Prod.swap) u = some s := by
  induction rest generalizing p with
  | nil => cases hu
  | cons q rest ih =>
      obtain ⟨hpq, hrest⟩ := rising_cons.mp h
      rw [List.map_cons]
      rcases le_or_gt s q.1 with hs | hs
      · rw [eval_of_le hs] at hu
        obtain rfl := Option.some.inj hu
        rw [eval_of_le (lerp_le hpq hs), lerp_swap hpq]
      · rw [eval_of_lt hs] at hu
        rw [eval_of_lt (hrest.lt_eval hs hu)]
        exact ih hrest hu

/-! ### The area -/

omit [IsStrictOrderedRing K] in
theorem area_of_le (hs : s ≤ q.1) :
    area (p :: q :: rest) s = (p.2 + lerp p q s) / 2 * (s - p.1) := if_pos hs

omit [IsStrictOrderedRing K] in
theorem area_of_lt (hs : q.1 < s) :
    area (p :: q :: rest) s = (p.2 + q.2) / 2 * (q.1 - p.1) + area (q :: rest) s := if_neg hs.not_ge

omit [IsStrictOrderedRing K] in
theorem area_first (h : Rising p rest) : area (p :: rest) p.1 = 0 := by
  cases rest with
  | nil => rfl
  | cons q rest => rw [area_of_le (rising_cons.mp h).1.1.le, sub_self, mul_zero]

omit [IsStrictOrderedRing K] in
/-- The whole area is the first trapezoid and the area of the rest. -/
theorem area_cons_last (hpq : Below p q) (hrest : Rising q rest) :
    area (p :: q :: rest) (last p (q :: rest)).1 =
      (p.2 + q.2) / 2 * (q.1 - p.1) + area (q :: rest) (last q rest).1 := by
  rcases hrest.le_last.1.eq_or_lt with heq | hlt
  · rw [last, ← heq, area_of_le le_rfl, lerp_right hpq, area_first hrest, add_zero]
  · exact area_of_lt hlt

/-- What a stretch adds to the area lies between the rectangles of its lower and its upper reading. -/
theorem Rising.area_bounds (h : Rising p rest) (hs : p.1 ≤ s) (hst : s ≤ t) (hu : eval (p :: rest) s = some u)
    (hv : eval (p :: rest) t = some v) :
    u * (t - s) ≤ area (p :: rest) t - area (p :: rest) s ∧
      area (p :: rest) t - area (p :: rest) s ≤ v * (t - s) := by
  induction rest generalizing p s u with
  | nil => cases hu
  | cons q rest ih =>
      obtain ⟨hpq, hrest⟩ := rising_cons.mp h
      rcases le_or_gt t q.1 with ht | ht
      · -- both ends on the first segment: the difference of two trapezoids is a trapezoid
        have hs' := hst.trans ht
        rw [eval_of_le ht] at hv
        rw [eval_of_le hs'] at hu
        obtain rfl := Option.some.inj hu
        obtain rfl := Option.some.inj hv
        have hdiff : area (p :: q :: rest) t - area (p :: q :: rest) s =
            (lerp p q s + lerp p q t) / 2 * (t - s) := by
          rw [area_of_le ht, area_of_le hs']
          simp only [lerp]
          ring
        rw [hdiff]
        exact trapezoid_bounds (lerp_le_lerp hpq hst) hst
      · rw [eval_of_lt ht] at hv
        rcases le_or_gt s q.1 with hs' | hs'
        · -- the rest of the first segment, then the rest of the polyline from its first point
          have hnil : rest ≠ [] := by
            rintro rfl
            cases hv
          have hrestBounds := ih hrest le_rfl ht.le (eval_first hrest hnil) hv
          rw [area_first hrest, sub_zero] at hrestBounds
          rw [eval_of_le hs'] at hu
          obtain rfl := Option.some.inj hu
          have hdiff : area (p :: q :: rest) t - area (p :: q :: rest) s =
              (lerp p q s + q.2) / 2 * (q.1 - s) + area (q :: rest) t := by
            rw [area_of_lt ht, area_of_le hs', trapezoid_split hpq s]
            ring
          rw [hdiff]
          have hle := lerp_le hpq hs'
          have hfirst := trapezoid_bounds hle hs'
          have hqv := (hrest.lt_eval ht hv).le
          have hlow := mul_le_mul_of_nonneg_right hle (sub_nonneg.mpr ht.le)
          have hhigh := mul_le_mul_of_nonneg_right hqv (sub_nonneg.mpr hs')
          constructor
          · linarith [hfirst.1, hrestBounds.1]
          · linarith [hfirst.2, hrestBounds.2]
        · rw [eval_of_lt hs'] at hu
          have hdiff : area (p :: q :: rest) t - area (p :: q :: rest) s =
              area (q :: rest) t - area (q :: rest) s := by
            rw [area_of_lt ht, area_of_lt hs']
            ring
          rw [hdiff]
          exact ih hrest hs'.le hst hu hv

omit [IsStrictOrderedRing K] in
/-- Behind the last point the area does not change. -/
theorem Rising.area_eq_last (h : Rising p rest) (hs : (last p rest).1 ≤ s) :
    area (p :: rest) s = area (p :: rest) (last p rest).1 := by
  induction rest generalizing p with
  | nil => rfl
  | cons q rest ih =>
      obtain ⟨hpq, hrest⟩ := rising_cons.mp h
      cases rest with
      | nil =>
          simp only [last] at hs ⊢
          rcases hs.eq_or_lt with rfl | hlt
          · rfl
          · have hpoint : area [q] s = 0 := rfl
            rw [area_of_lt hlt, area_of_le le_rfl, lerp_right hpq, hpoint, add_zero]
      | cons r rest =>
          have hlt : q.1 < (last p (q :: r :: rest)).1 :=
            (rising_cons.mp hrest).1.1.trans_le (rising_cons.mp hrest).2.le_last.1
          rw [area_of_lt hlt, area_of_lt (hlt.trans_le hs), ih hrest hs]
          rfl

end Polyline
