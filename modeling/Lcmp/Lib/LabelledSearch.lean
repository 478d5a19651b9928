import Lcmp.Lib.BreadthFirst

/-!
# Breadth-first search with labels

A breadth-first search that also lists, for every node, a label for each way the node was reached: the
labels of a node one hop nearer are extended over the link. A node is only gone on from once all nodes
nearer than it are done, so what is extended is complete: at the end the labels of a node are those of all
its shortest paths.
-/

universe u v

namespace BreadthFirst

variable {V : Type u} {L : Type v}

structure LabelledSearch (V : Type u) (L : Type v) where
  search : Search V
  labels : V → List L

/-- A path through relays and the label it has. -/
inductive Route (adj : V → List V) (relay : V → Bool) (source : V) (extend : V → V → L → L) (first : L) :
    Nat → V → L → Prop where
  | source : Route adj relay source extend first 0 source first
  | step {k : Nat} {a b : V} {l : L} (hroute : Route adj relay source extend first k a l)
      (hrelay : k = 0 ∨ relay a = true) (hadj : b ∈ adj a) : Route adj relay source extend first (k + 1) b (extend a b l)

section Search

variable [DecidableEq V] (adj : V → List V) (relay : V → Bool) (extend : V → V → L → L)

/-- Look from `a`, which is `d` hops away, at its neighbour `b`: unless `b` is nearer, the labels of `a`
lead on to it. -/
def visit (a : V) (d : Nat) (s : LabelledSearch V L) (b : V) : LabelledSearch V L where
  search := relax relay a d s.search b
  labels := if s.search.dist b = none ∨ s.search.dist b = some (d + 1) then
      Function.update s.labels b (s.labels b ++ (s.labels a).map (extend a b))
    else s.labels

def visitAll (s : LabelledSearch V L) (a : V) : LabelledSearch V L :=
  (adj a).foldl (visit relay extend a ((s.search.dist a).getD 0)) s

def labelledSearch : Nat → Nat → LabelledSearch V L → LabelledSearch V L
  | 0, _, s => s
  | fuel + 1, i, s =>
      match s.search.queue[i]? with
      | some a => labelledSearch fuel (i + 1) (visitAll adj relay extend s a)
      | none => s

def labelledStart (source : V) (first : L) : LabelledSearch V L where
  search := start source
  labels := Function.update (fun _ => []) source [first]

end Search

variable {adj : V → List V} {relay : V → Bool} {source : V} {extend : V → V → L → L} {first : L}

theorem Route.path {k : Nat} {v : V} {l : L} (h : Route adj relay source extend first k v l) :
    Path adj relay source k v := by
  induction h with
  | source => exact .source
  | step _ hrelay hadj ih => exact .step ih hrelay hadj

/-- Every path has a label. -/
theorem Path.exists_route {k : Nat} {v : V} (h : Path adj relay source k v) (extend : V → V → L → L) (first : L) :
    ∃ l, Route adj relay source extend first k v l := by
  induction h with
  | source => exact ⟨first, .source⟩
  | @step k a b _ hrelay hadj ih =>
      obtain ⟨l, hl⟩ := ih
      exact ⟨extend a b l, .step hl hrelay hadj⟩

/-- What comes before the last hop of a shortest path is a shortest path. -/
theorem IsDist.of_succ {k : Nat} {a b : V} (h : IsDist adj relay source (k + 1) b) (hpath : Path adj relay source k a)
    (hrelay : k = 0 ∨ relay a = true) (hadj : b ∈ adj a) : IsDist adj relay source k a := by
  refine ⟨hpath, fun j hj => ?_⟩
  rcases hrelay with rfl | hrelay
  · exact Nat.zero_le j
  · exact Nat.le_of_succ_le_succ (h.shortest (j + 1) (.step hj (.inr hrelay) hadj))

/-- Every label is the first one, or extends one of a node that has looked at this one from one hop
nearer; and all of those are there. -/
def LabelInv (source : V) (extend : V → V → L → L) (first : L) (seen : V → V → Prop) (s : LabelledSearch V L) : Prop :=
  ∀ b l, l ∈ s.labels b ↔ (b = source ∧ l = first) ∨
    ∃ a, seen a b ∧ (∃ k, s.search.dist a = some k ∧ s.search.dist b = some (k + 1)) ∧ ∃ l' ∈ s.labels a, extend a b l' = l

variable {seen seen' : V → V → Prop} {s : LabelledSearch V L}

theorem LabelInv.congr (h : LabelInv source extend first seen s) (hiff : ∀ a b, seen a b ↔ seen' a b) :
    LabelInv source extend first seen' s := by
  intro b l
  rw [h b l]
  simp only [hiff]

/-! ### A search that is done -/

section Exhausted

variable {d : Nat} (hinv : Inv adj relay source d (fun a b => a ∈ s.search.queue ∧ b ∈ adj a) s.search)
  (h : LabelInv source extend first (fun a b => a ∈ s.search.queue ∧ b ∈ adj a) s)
include hinv h

theorem LabelInv.exists_route {k : Nat} {v : V} {l : L} (hk : s.search.dist v = some k) (hl : l ∈ s.labels v) :
    Route adj relay source extend first k v l := by
  induction k generalizing v l with
  | zero =>
      rcases (h v l).mp hl with ⟨rfl, rfl⟩ | ⟨a, -, ⟨j, -, hj⟩, -⟩
      · exact .source
      · rw [hk] at hj
        cases hj
  | succ k ih =>
      rcases (h v l).mp hl with ⟨rfl, -⟩ | ⟨a, ⟨hqueue, hadj⟩, ⟨j, ha, hj⟩, l', hl', rfl⟩
      · rw [hinv.atSource] at hk
        cases hk
      · obtain rfl := Nat.succ.inj (Option.some.inj (hk.symm.trans hj))
        exact .step (ih ha hl') (hinv.relays hqueue ha) hadj

theorem LabelInv.mem_of_route {k : Nat} {v : V} {l : L} (hroute : Route adj relay source extend first k v l)
    (hdist : IsDist adj relay source k v) : l ∈ s.labels v := by
  induction hroute with
  | source => exact (h source first).mpr (.inl ⟨rfl, rfl⟩)
  | @step k a b l hroute hrelay hadj ih =>
      have ha := hdist.of_succ hroute.path hrelay hadj
      have hadist := hinv.dist_iff.mpr ha
      have hqueue : a ∈ s.search.queue := by
        apply hinv.queued a k hadist
        rcases hrelay with rfl | hrelay
        · exact .inl hroute.path.eq_source
        · exact .inr hrelay
      exact (h b _).mpr (.inr ⟨a, ⟨hqueue, hadj⟩, ⟨k, hadist, hinv.dist_iff.mpr hdist⟩, l, ih ha, rfl⟩)

theorem LabelInv.mem_labels_iff {v : V} {l : L} :
    l ∈ s.labels v ↔ ∃ k, IsDist adj relay source k v ∧ Route adj relay source extend first k v l := by
  constructor
  · intro hl
    have hfound : ∃ k, s.search.dist v = some k := by
      rcases (h v l).mp hl with ⟨rfl, -⟩ | ⟨a, -, ⟨k, -, hk⟩, -⟩
      · exact ⟨0, hinv.atSource⟩
      · exact ⟨k + 1, hk⟩
    obtain ⟨k, hk⟩ := hfound
    exact ⟨k, hinv.dist_iff.mp hk, h.exists_route hinv hk hl⟩
  · rintro ⟨k, hdist, hroute⟩
    exact h.mem_of_route hinv hroute hdist

end Exhausted

variable [DecidableEq V]

/-! ### One neighbour -/

/-- A neighbour that is not nearer is one hop further away afterwards. -/
theorem relax_dist_self {s : Search V} {a b : V} {d : Nat} (hb : s.dist b = none ∨ s.dist b = some (d + 1)) :
    (relax relay a d s b).dist b = some (d + 1) := by
  rcases hb with hb | hb
  · simp only [relax]
    rw [hb]
    exact Function.update_self ..
  · exact relax_dist_of_some hb

/-- A nearer neighbour is left as it is. -/
theorem relax_eq_self {s : Search V} {a b : V} {d : Nat} (hb : ¬ (s.dist b = none ∨ s.dist b = some (d + 1))) :
    relax relay a d s b = s := by
  simp only [relax]
  split
  · rename_i hnone
    exact absurd (.inl hnone) hb
  · rename_i k hk
    rw [if_neg]
    rintro ⟨rfl, -⟩
    exact hb (.inr hk)

/-- The nodes that have looked at others are found, no further away than `d`, and so are the others. -/
def Settled (d : Nat) (seen : V → V → Prop) (s : Search V) : Prop :=
  ∀ x y, seen x y → (∃ j ≤ d, s.dist x = some j) ∧ ∃ k, s.dist y = some k

theorem Settled.relax {a b : V} {d : Nat} {s : Search V} (h : Settled d seen s) (ha : s.dist a = some d) :
    Settled d (fun x y => seen x y ∨ (x = a ∧ y = b)) (relax relay a d s b) := by
  rintro x y (hseen | ⟨rfl, rfl⟩)
  · obtain ⟨⟨j, hj, hx⟩, k, hy⟩ := h x y hseen
    exact ⟨⟨j, hj, relax_dist_of_some hx⟩, k, relax_dist_of_some hy⟩
  · refine ⟨⟨d, le_refl d, relax_dist_of_some ha⟩, ?_⟩
    by_cases hy : s.dist y = none ∨ s.dist y = some (d + 1)
    · exact ⟨d + 1, relax_dist_self hy⟩
    · rw [relax_eq_self hy]
      exact Option.ne_none_iff_exists'.mp fun hnone => hy (.inl hnone)

theorem visit_labels_of_ne {a b x : V} {d : Nat} (hx : x ≠ b) :
    (visit relay extend a d s b).labels x = s.labels x := by
  unfold visit
  dsimp only
  split
  · exact Function.update_of_ne hx ..
  · rfl

/-- The labels after looking at a neighbour that is not nearer. -/
theorem mem_visit_labels {a b : V} {d : Nat} (hb : s.search.dist b = none ∨ s.search.dist b = some (d + 1)) (y : V) (l : L) :
    l ∈ (visit relay extend a d s b).labels y ↔ l ∈ s.labels y ∨ (y = b ∧ ∃ l' ∈ s.labels a, extend a b l' = l) := by
  by_cases hy : y = b
  · subst hy
    unfold visit
    dsimp only
    rw [if_pos hb, Function.update_self, List.mem_append, List.mem_map]
    exact or_congr Iff.rfl (and_iff_right rfl).symm
  · rw [visit_labels_of_ne hy]
    exact (or_iff_left fun h => hy h.1).symm

section Visit

variable {a b : V} {d : Nat} (h : LabelInv source extend first seen s) (hsettled : Settled d seen s.search)
  (ha : s.search.dist a = some d)
include h hsettled ha

/-- A neighbour that is not nearer. The nodes that have looked so far are no further away than `a`, so none
of them is the neighbour, and none of the labels they have led on has changed. -/
theorem LabelInv.visit_new (hb : s.search.dist b = none ∨ s.search.dist b = some (d + 1)) :
    LabelInv source extend first (fun x y => seen x y ∨ (x = a ∧ y = b)) (visit relay extend a d s b) := by
  have hnew : (BreadthFirst.visit relay extend a d s b).search.dist b = some (d + 1) := relax_dist_self hb
  have hold : ∀ {x k}, s.search.dist x = some k →
      (BreadthFirst.visit relay extend a d s b).search.dist x = some k := fun hx => relax_dist_of_some hx
  have hne : ∀ {x j}, s.search.dist x = some j → j ≤ d → x ≠ b := by
    rintro x j hx hj rfl
    rw [hx] at hb
    rcases hb with hb | hb
    · cases hb
    · obtain rfl := Option.some.inj hb
      omega
  have hlooked : ∀ {x z}, seen x z → x ≠ b := by
    intro x z hx
    obtain ⟨⟨j, hj, hdist⟩, -⟩ := hsettled x z hx
    exact hne hdist hj
  have hkeep : ∀ {x z}, seen x z → (BreadthFirst.visit relay extend a d s b).labels x = s.labels x :=
    fun hx => visit_labels_of_ne (hlooked hx)
  have hfrom : (BreadthFirst.visit relay extend a d s b).labels a = s.labels a :=
    visit_labels_of_ne (hne ha (le_refl d))
  intro y l
  rw [mem_visit_labels hb, h y l]
  constructor
  · rintro ((hfirst | ⟨x, hx, ⟨k, hxk, hyk⟩, hlead⟩) | ⟨rfl, hlead⟩)
    · exact .inl hfirst
    · rw [← hkeep hx] at hlead
      exact .inr ⟨x, .inl hx, ⟨k, hold hxk, hold hyk⟩, hlead⟩
    · rw [← hfrom] at hlead
      exact .inr ⟨a, .inr ⟨rfl, rfl⟩, ⟨d, hold ha, hnew⟩, hlead⟩
  · rintro (hfirst | ⟨x, hx | ⟨rfl, rfl⟩, ⟨k, hxk, hyk⟩, hlead⟩)
    · exact .inl (.inl hfirst)
    · -- the distances of both were there before
      obtain ⟨⟨i, -, hi⟩, j, hj⟩ := hsettled x y hx
      rw [hold hi] at hxk
      rw [hold hj] at hyk
      rw [hkeep hx] at hlead
      exact .inl (.inr ⟨x, hx, ⟨k, hi.trans hxk, hj.trans hyk⟩, hlead⟩)
    · rw [hfrom] at hlead
      exact .inr ⟨rfl, hlead⟩

omit hsettled in
/-- A nearer neighbour gets no labels. -/
theorem LabelInv.visit_nearer (hb : ¬ (s.search.dist b = none ∨ s.search.dist b = some (d + 1))) :
    LabelInv source extend first (fun x y => seen x y ∨ (x = a ∧ y = b)) (visit relay extend a d s b) := by
  have hsame : BreadthFirst.visit relay extend a d s b = s := by
    unfold BreadthFirst.visit
    rw [if_neg hb, relax_eq_self hb]
  rw [hsame]
  intro y l
  rw [h y l]
  apply or_congr Iff.rfl
  constructor
  · rintro ⟨x, hx, hlead⟩
    exact ⟨x, .inl hx, hlead⟩
  · rintro ⟨x, hx | ⟨rfl, rfl⟩, ⟨k, hxk, hyk⟩, hlead⟩
    · exact ⟨x, hx, ⟨k, hxk, hyk⟩, hlead⟩
    · obtain rfl := Option.some.inj (ha.symm.trans hxk)
      exact absurd (.inr hyk) hb

theorem LabelInv.visit :
    LabelInv source extend first (fun x y => seen x y ∨ (x = a ∧ y = b)) (visit relay extend a d s b) := by
  by_cases hb : s.search.dist b = none ∨ s.search.dist b = some (d + 1)
  · exact h.visit_new hsettled ha hb
  · exact h.visit_nearer ha hb

end Visit

/-! ### The search -/

theorem foldl_visit_search (a : V) (d : Nat) (bs : List V) (s : LabelledSearch V L) :
    (bs.foldl (visit relay extend a d) s).search = bs.foldl (relax relay a d) s.search := by
  induction bs generalizing s with
  | nil => rfl
  | cons b bs ih => exact ih (visit relay extend a d s b)

theorem visitAll_search (s : LabelledSearch V L) (a : V) :
    (visitAll adj relay extend s a).search = expand adj relay s.search a :=
  foldl_visit_search a _ (adj a) s

/-- The labels are carried along by the plain search. -/
theorem labelledSearch_search (fuel i : Nat) (s : LabelledSearch V L) :
    (labelledSearch adj relay extend fuel i s).search = BreadthFirst.search adj relay fuel i s.search := by
  induction fuel generalizing i s with
  | zero => rfl
  | succ fuel ih =>
      simp only [labelledSearch, BreadthFirst.search]
      cases s.search.queue[i]? with
      | none => rfl
      | some a =>
          dsimp only
          rw [ih, visitAll_search]

/-- Looking at a list of neighbours. -/
theorem LabelInv.visitAll {a : V} {d : Nat} (bs : List V) (h : LabelInv source extend first seen s)
    (hsettled : Settled d seen s.search) (ha : s.search.dist a = some d) :
    LabelInv source extend first (fun x y => seen x y ∨ (x = a ∧ y ∈ bs)) (bs.foldl (BreadthFirst.visit relay extend a d) s) := by
  induction bs generalizing s seen with
  | nil => exact h.congr (by simp)
  | cons b bs ih =>
      have hfirst : LabelInv source extend first (fun x y => seen x y ∨ (x = a ∧ y = b))
          (BreadthFirst.visit relay extend a d s b) := h.visit hsettled ha
      have hrest := ih hfirst (hsettled.relax ha) (relax_dist_of_some ha)
      apply hrest.congr
      intro x y
      rw [List.mem_cons]
      tauto

/-- The invariant at position `i` of the queue. -/
def LabelledAt (adj : V → List V) (relay : V → Bool) (source : V) (extend : V → V → L → L) (first : L) (i : Nat)
    (s : LabelledSearch V L) : Prop :=
  AtPosition adj relay source i s.search ∧
    LabelInv source extend first (fun a b => a ∈ s.search.queue.take i ∧ b ∈ adj a) s

theorem labelledAt_start : LabelledAt adj relay source extend first 0 (labelledStart source first) := by
  refine ⟨atPosition_start, fun b l => ?_⟩
  have hdist : ∀ k, (labelledStart source first).search.dist b ≠ some (k + 1) := by
    intro k hk
    change (start source).dist b = some (k + 1) at hk
    rw [start_dist] at hk
    split at hk <;> simp at hk
  have hlabels : (labelledStart source first).labels b = if b = source then [first] else [] := by
    unfold labelledStart
    dsimp only
    rw [Function.update_apply]
  rw [hlabels]
  constructor
  · intro hl
    split at hl
    · rename_i hb
      exact .inl ⟨hb, List.mem_singleton.mp hl⟩
    · cases hl
  · rintro (⟨rfl, rfl⟩ | ⟨-, -, ⟨k, -, hk⟩, -⟩)
    · rw [if_pos rfl]
      exact List.mem_singleton_self l
    · exact absurd hk (hdist k)

omit [DecidableEq V] in
/-- The nodes before position `i` are no further away than the one there. -/
theorem AtPosition.settled {i : Nat} {s : Search V} (h : AtPosition adj relay source i s) {a : V} (hi : s.queue[i]? = some a)
    {k : Nat} (hk : s.dist a = some k) : Settled k (fun x y => x ∈ s.queue.take i ∧ y ∈ adj x) s := by
  obtain ⟨d, hinv, -⟩ := h
  obtain ⟨hlt, hget⟩ := List.getElem?_eq_some_iff.mp hi
  have hdrop : a ∈ s.queue.drop i := by
    rw [List.drop_eq_getElem_cons hlt, hget]
    exact List.mem_cons_self
  rintro x y ⟨hx, hy⟩
  obtain ⟨j, k', hj, hk', -, -⟩ := hinv.complete x y ⟨hx, hy⟩
  have hsorted := hinv.sorted
  rw [← List.take_append_drop i s.queue, List.pairwise_append] at hsorted
  exact ⟨⟨j, hsorted.2.2 x hx a hdrop j k hj hk, hj⟩, k', hk'⟩

theorem LabelledAt.visitAll {i : Nat} {a : V} (h : LabelledAt adj relay source extend first i s)
    (hi : s.search.queue[i]? = some a) :
    LabelledAt adj relay source extend first (i + 1) (visitAll adj relay extend s a) := by
  obtain ⟨hat, hlabels⟩ := h
  have hat' := hat.expand hi
  obtain ⟨d, hinv, -⟩ := id hat
  obtain ⟨k, hk⟩ := hinv.found a (List.mem_of_getElem? hi)
  have hsearch : (BreadthFirst.visitAll adj relay extend s a).search = expand adj relay s.search a := visitAll_search s a
  have hafter : LabelInv source extend first (fun x y => (x ∈ s.search.queue.take i ∧ y ∈ adj x) ∨ (x = a ∧ y ∈ adj a))
      (BreadthFirst.visitAll adj relay extend s a) := by
    unfold BreadthFirst.visitAll
    rw [hk, Option.getD_some]
    exact hlabels.visitAll (adj a) (hat.settled hi hk) hk
  unfold LabelledAt
  rw [hsearch]
  exact ⟨hat', hafter.congr fun x y => looked_expand_iff hi⟩

theorem labelledSearch_labelledAt [Fintype V] (fuel i : Nat) (hfuel : Fintype.card V ≤ i + fuel)
    (h : LabelledAt adj relay source extend first i s) :
    ∃ i', LabelledAt adj relay source extend first i' (labelledSearch adj relay extend fuel i s) ∧
      (labelledSearch adj relay extend fuel i s).search.queue.length ≤ i' := by
  induction fuel generalizing i s with
  | zero =>
      obtain ⟨d, hinv, -⟩ := id h.1
      exact ⟨i, h, hinv.nodup.length_le_card.trans hfuel⟩
  | succ fuel ih =>
      simp only [labelledSearch]
      cases hi : s.search.queue[i]? with
      | some a => exact ih (i + 1) (by omega) (h.visitAll hi)
      | none => exact ⟨i, h, List.getElem?_eq_none_iff.mp hi⟩

/-- With fuel for every node, the labels of a node are those of its shortest paths. -/
theorem labelledSearch_spec [Fintype V] (adj : V → List V) (relay : V → Bool) (source : V) (extend : V → V → L → L)
    (first : L) (v : V) (l : L) :
    l ∈ (labelledSearch adj relay extend (Fintype.card V) 0 (labelledStart source first)).labels v ↔
      ∃ k, IsDist adj relay source k v ∧ Route adj relay source extend first k v l := by
  have hstart : LabelledAt adj relay source extend first 0 (labelledStart source first) := labelledAt_start
  obtain ⟨i, ⟨⟨d, hinv, -⟩, hlabels⟩, hlength⟩ :=
    labelledSearch_labelledAt (Fintype.card V) 0 (Nat.le_add_left _ _) hstart
  rw [List.take_of_length_le hlength] at hinv hlabels
  exact hlabels.mem_labels_iff hinv

end BreadthFirst
