import Mathlib.Data.Fintype.Card
import Mathlib.Data.List.Nodup
import Mathlib.Logic.Function.Basic

/-!
# Breadth-first search through relays

A search from a source that goes on only from nodes that relay, and records for every node it finds
how many hops away it is and which neighbours are one hop nearer. With fuel for every node the search
is exhausted: the distances it records are the lengths of the shortest paths whose inner nodes relay,
and the neighbours it records are all that lie on one of them, each once.
-/

universe u

namespace BreadthFirst

variable {V : Type u}

/-- The nodes to go on from in the order they were found, the distances, and the nearer neighbours. -/
structure Search (V : Type u) where
  queue : List V
  dist : V → Option Nat
  parents : V → List V

/-- A path of some number of hops from the source whose inner nodes relay. -/
inductive Path (adj : V → List V) (relay : V → Bool) (source : V) : Nat → V → Prop where
  | source : Path adj relay source 0 source
  | step {k : Nat} {a b : V} (hpath : Path adj relay source k a) (hrelay : k = 0 ∨ relay a = true) (hadj : b ∈ adj a) :
      Path adj relay source (k + 1) b

/-- The length of a shortest path. -/
structure IsDist (adj : V → List V) (relay : V → Bool) (source : V) (k : Nat) (v : V) : Prop where
  path : Path adj relay source k v
  shortest : ∀ j, Path adj relay source j v → k ≤ j

section Search

variable [DecidableEq V] (adj : V → List V) (relay : V → Bool)

def start (source : V) : Search V where
  queue := [source]
  dist := Function.update (fun _ => none) source (some 0)
  parents := fun _ => []

/-- `b` is found from `a`, which is `d` hops away. -/
def discover (a : V) (d : Nat) (s : Search V) (b : V) : Search V where
  queue := if relay b then s.queue ++ [b] else s.queue
  dist := Function.update s.dist b (some (d + 1))
  parents := Function.update s.parents b (s.parents b ++ [a])

def addParent (a : V) (s : Search V) (b : V) : Search V :=
  { s with parents := Function.update s.parents b (s.parents b ++ [a]) }

/-- Look from `a`, which is `d` hops away, at its neighbour `b`. -/
def relax (a : V) (d : Nat) (s : Search V) (b : V) : Search V :=
  match s.dist b with
  | none => discover relay a d s b
  | some k => if d + 1 = k ∧ a ∉ s.parents b then addParent a s b else s

def expand (s : Search V) (a : V) : Search V := (adj a).foldl (relax relay a ((s.dist a).getD 0)) s

/-- Go on from the node at position `i` of the queue, and the ones behind it. -/
def search : Nat → Nat → Search V → Search V
  | 0, _, s => s
  | fuel + 1, i, s =>
      match s.queue[i]? with
      | some a => search fuel (i + 1) (expand adj relay s a)
      | none => s

end Search

variable {adj : V → List V} {relay : V → Bool} {source : V}

theorem IsDist.unique {j k : Nat} {v : V} (hj : IsDist adj relay source j v) (hk : IsDist adj relay source k v) :
    j = k :=
  Nat.le_antisymm (hj.shortest k hk.path) (hk.shortest j hj.path)

theorem Path.eq_source {v : V} (h : Path adj relay source 0 v) : v = source := by
  cases h with
  | source => rfl

theorem isDist_source : IsDist adj relay source 0 source := ⟨.source, fun _ _ => Nat.zero_le _⟩

/-- A shortest path ends with a shortest path to a neighbour. -/
theorem IsDist.pred {k : Nat} {b : V} (h : IsDist adj relay source (k + 1) b) :
    ∃ a, b ∈ adj a ∧ (a = source ∨ relay a = true) ∧ IsDist adj relay source k a := by
  cases h.path with
  | @step _ a _ hpath hrelay hadj =>
      rcases hrelay with rfl | hrelay
      · obtain rfl := hpath.eq_source
        exact ⟨a, hadj, .inl rfl, isDist_source⟩
      · refine ⟨a, hadj, .inr hrelay, hpath, fun j hj => ?_⟩
        exact Nat.le_of_succ_le_succ (h.shortest (j + 1) (.step hj (.inr hrelay) hadj))

/-! ### What a search keeps -/

/-- The invariant while the node being looked from is `d` hops away; `seen a b` says that `a` has looked
at `b`. -/
structure Inv (adj : V → List V) (relay : V → Bool) (source : V) (d : Nat) (seen : V → V → Prop) (s : Search V) :
    Prop where
  nodup : s.queue.Nodup
  atSource : s.dist source = some 0
  expandable : ∀ v ∈ s.queue, v = source ∨ relay v = true
  queued : ∀ v k, s.dist v = some k → v = source ∨ relay v = true → v ∈ s.queue
  found : ∀ v ∈ s.queue, ∃ k, s.dist v = some k
  sorted : s.queue.Pairwise fun a b => ∀ j k, s.dist a = some j → s.dist b = some k → j ≤ k
  sound : ∀ v k, s.dist v = some k → Path adj relay source k v
  bounded : ∀ v k, s.dist v = some k → k ≤ d + 1
  complete : ∀ a b, seen a b →
    ∃ j k, s.dist a = some j ∧ s.dist b = some k ∧ k ≤ j + 1 ∧ (k = j + 1 → a ∈ s.parents b)
  nearer : ∀ a b, a ∈ s.parents b → seen a b ∧ ∃ j, s.dist a = some j ∧ s.dist b = some (j + 1)
  unique : ∀ b, (s.parents b).Nodup

variable {d d' : Nat} {seen seen' : V → V → Prop} {s : Search V} {a b : V}

theorem Inv.mono (h : Inv adj relay source d seen s) (hle : d ≤ d') : Inv adj relay source d' seen s :=
  { h with bounded := fun v k hk => (h.bounded v k hk).trans (Nat.succ_le_succ hle) }

theorem Inv.congr (h : Inv adj relay source d seen s) (hiff : ∀ a b, seen a b ↔ seen' a b) :
    Inv adj relay source d seen' s :=
  { h with
    complete := fun a b hseen => h.complete a b ((hiff a b).mpr hseen)
    nearer := fun a b hmem => ⟨(hiff a b).mp (h.nearer a b hmem).1, (h.nearer a b hmem).2⟩ }

/-- A node found `d` hops away may be gone on from. -/
theorem Inv.relays (h : Inv adj relay source d seen s) (hmem : a ∈ s.queue) {k : Nat} (hk : s.dist a = some k) :
    k = 0 ∨ relay a = true := by
  rcases h.expandable a hmem with rfl | hrelay
  · exact .inl (Option.some.inj (hk.symm.trans h.atSource))
  · exact .inr hrelay

theorem ne_of_dist (hb : s.dist b = none) {v : V} {k : Nat} (hv : s.dist v = some k) : v ≠ b := by
  rintro rfl
  rw [hb] at hv
  cases hv

/-! ### A search that is done -/

section Exhausted

variable (h : Inv adj relay source d (fun a b => a ∈ s.queue ∧ b ∈ adj a) s)
include h

/-- Every path leads to a node that was found no further away. -/
theorem Inv.dist_le {k : Nat} {v : V} (hpath : Path adj relay source k v) : ∃ j, s.dist v = some j ∧ j ≤ k := by
  induction hpath with
  | source => exact ⟨0, h.atSource, Nat.le_refl 0⟩
  | @step k a b hpath hrelay hadj ih =>
      obtain ⟨j, hj, hle⟩ := ih
      have hmem : a ∈ s.queue := by
        apply h.queued a j hj
        rcases hrelay with rfl | hrelay
        · exact .inl hpath.eq_source
        · exact .inr hrelay
      obtain ⟨j', k', hj', hk', hle', -⟩ := h.complete a b ⟨hmem, hadj⟩
      obtain rfl := Option.some.inj (hj.symm.trans hj')
      exact ⟨k', hk', by omega⟩

theorem Inv.dist_iff {v : V} {k : Nat} : s.dist v = some k ↔ IsDist adj relay source k v := by
  constructor
  · intro hk
    refine ⟨h.sound v k hk, fun j hpath => ?_⟩
    obtain ⟨j', hj', hle⟩ := h.dist_le hpath
    obtain rfl := Option.some.inj (hk.symm.trans hj')
    exact hle
  · intro hdist
    obtain ⟨j, hj, hle⟩ := h.dist_le hdist.path
    rw [Nat.le_antisymm (hdist.shortest j (h.sound v j hj)) hle]
    exact hj

theorem Inv.mem_parents_iff {a b : V} :
    a ∈ s.parents b ↔ b ∈ adj a ∧ (a = source ∨ relay a = true) ∧
      ∃ k, IsDist adj relay source k a ∧ IsDist adj relay source (k + 1) b := by
  constructor
  · intro hmem
    obtain ⟨⟨hqueue, hadj⟩, k, ha, hb⟩ := h.nearer a b hmem
    exact ⟨hadj, h.expandable a hqueue, k, h.dist_iff.mp ha, h.dist_iff.mp hb⟩
  · rintro ⟨hadj, hrelay, k, ha, hb⟩
    have hdist := h.dist_iff.mpr ha
    obtain ⟨j, k', hj, hk', -, hlast⟩ := h.complete a b ⟨h.queued a k hdist hrelay, hadj⟩
    apply hlast
    obtain rfl := Option.some.inj (hdist.symm.trans hj)
    exact Option.some.inj (hk'.symm.trans (h.dist_iff.mpr hb))

end Exhausted

/-! ### The start -/

variable [DecidableEq V]

theorem start_dist (v : V) : (start source).dist v = if v = source then some 0 else none := by
  unfold start
  dsimp only
  rw [Function.update_apply]

theorem inv_start : Inv adj relay source 0 (fun _ _ => False) (start source) := by
  have hdist : ∀ v k, (start source).dist v = some k → v = source ∧ k = 0 := by
    intro v k hk
    rw [start_dist] at hk
    split at hk
    · rename_i hv
      exact ⟨hv, (Option.some.inj hk).symm⟩
    · cases hk
  have hsource : (start source).dist source = some 0 := by rw [start_dist, if_pos rfl]
  have hqueue : ∀ v ∈ (start source).queue, v = source := fun v hv => List.mem_singleton.mp hv
  constructor
  · exact List.nodup_singleton _
  · exact hsource
  · exact fun v hv => .inl (hqueue v hv)
  · intro v k hk _
    rw [(hdist v k hk).1]
    exact List.mem_cons_self
  · intro v hv
    rw [hqueue v hv]
    exact ⟨0, hsource⟩
  · exact List.pairwise_singleton _ _
  · intro v k hk
    obtain ⟨rfl, rfl⟩ := hdist v k hk
    exact .source
  · intro v k hk
    rw [(hdist v k hk).2]
    exact Nat.zero_le _
  · exact fun _ _ hseen => hseen.elim
  · intro a b hmem
    cases hmem
  · exact fun _ => List.nodup_nil

/-! ### One neighbour -/

section Discover

variable (hb : s.dist b = none)
include hb

/-- What was found stays found. -/
theorem discover_dist_of_some {v : V} {k : Nat} (hv : s.dist v = some k) :
    (discover relay a d s b).dist v = some k :=
  (Function.update_of_ne (ne_of_dist hb hv) ..).trans hv

omit hb in
theorem discover_dist_cases {v : V} {k : Nat} (hv : (discover relay a d s b).dist v = some k) :
    (v = b ∧ k = d + 1) ∨ s.dist v = some k := by
  change Function.update s.dist b (some (d + 1)) v = some k at hv
  rw [Function.update_apply] at hv
  split at hv
  · rename_i hvb
    exact .inl ⟨hvb, (Option.some.inj hv).symm⟩
  · exact .inr hv

omit hb in
theorem mem_discover_queue {v : V} :
    v ∈ (discover relay a d s b).queue ↔ v ∈ s.queue ∨ (relay b = true ∧ v = b) := by
  unfold discover
  dsimp only
  cases hrelay : relay b with
  | false => simp
  | true => simp

/-- A node that had not been found has no nearer neighbours yet. -/
theorem Inv.discover_parents (h : Inv adj relay source d seen s) (v : V) :
    (discover relay a d s b).parents v = if v = b then [a] else s.parents v := by
  have hempty : s.parents b = [] := by
    apply List.eq_nil_iff_forall_not_mem.mpr
    intro x hx
    obtain ⟨-, j, -, hdist⟩ := h.nearer x b hx
    exact ne_of_dist hb hdist rfl
  unfold discover
  dsimp only
  rw [Function.update_apply, hempty, List.nil_append]

theorem Inv.discover_nodup (h : Inv adj relay source d seen s) : (discover relay a d s b).queue.Nodup := by
  unfold discover
  dsimp only
  split
  · apply h.nodup.append (List.nodup_singleton b)
    intro x hx hxb
    obtain rfl := List.mem_singleton.mp hxb
    obtain ⟨k, hk⟩ := h.found x hx
    exact ne_of_dist hb hk rfl
  · exact h.nodup

/-- The new node is at the end, and nothing is further away. -/
theorem Inv.discover_sorted (h : Inv adj relay source d seen s) :
    (discover relay a d s b).queue.Pairwise fun x y =>
      ∀ j k, (discover relay a d s b).dist x = some j → (discover relay a d s b).dist y = some k → j ≤ k := by
  have hsame : ∀ {x k}, x ∈ s.queue → (discover relay a d s b).dist x = some k → s.dist x = some k := by
    intro x k hx hk
    obtain ⟨j, hj⟩ := h.found x hx
    rw [discover_dist_of_some hb hj] at hk
    exact hj.trans hk
  have hold := h.sorted.imp_of_mem fun {x y} hx hy hle j k hj hk => hle j k (hsame hx hj) (hsame hy hk)
  have hqueue : (discover relay a d s b).queue = if relay b then s.queue ++ [b] else s.queue := rfl
  rw [hqueue]
  split
  · refine List.pairwise_append.mpr ⟨hold, List.pairwise_singleton _ _, ?_⟩
    intro x hx y hy j k hj hk
    obtain rfl := List.mem_singleton.mp hy
    have hjd := h.bounded x j (hsame hx hj)
    rcases discover_dist_cases hk with ⟨-, rfl⟩ | hk
    · exact hjd
    · exact absurd rfl (ne_of_dist hb hk)
  · exact hold

/-- A node that is found for the first time. -/
theorem Inv.discover (h : Inv adj relay source d seen s) (ha : s.dist a = some d) (hmem : a ∈ s.queue)
    (hadj : b ∈ adj a) :
    Inv adj relay source d (fun x y => seen x y ∨ (x = a ∧ y = b)) (discover relay a d s b) := by
  have hnew : (BreadthFirst.discover relay a d s b).dist b = some (d + 1) := Function.update_self ..
  constructor
  · exact h.discover_nodup hb
  · exact discover_dist_of_some hb h.atSource
  · intro v hv
    rcases mem_discover_queue.mp hv with hv | ⟨hrelay, rfl⟩
    · exact h.expandable v hv
    · exact .inr hrelay
  · intro v k hk hrelay
    rcases discover_dist_cases hk with ⟨rfl, -⟩ | hold
    · refine mem_discover_queue.mpr (.inr ⟨?_, rfl⟩)
      rcases hrelay with rfl | hrelay
      · exact absurd rfl (ne_of_dist hb h.atSource)
      · exact hrelay
    · exact mem_discover_queue.mpr (.inl (h.queued v k hold hrelay))
  · intro v hv
    rcases mem_discover_queue.mp hv with hv | ⟨-, rfl⟩
    · obtain ⟨k, hk⟩ := h.found v hv
      exact ⟨k, discover_dist_of_some hb hk⟩
    · exact ⟨d + 1, hnew⟩
  · exact h.discover_sorted hb
  · intro v k hk
    rcases discover_dist_cases hk with ⟨rfl, rfl⟩ | hold
    · exact .step (h.sound a d ha) (h.relays hmem ha) hadj
    · exact h.sound v k hold
  · intro v k hk
    rcases discover_dist_cases hk with ⟨-, rfl⟩ | hold
    · exact Nat.le_refl _
    · exact h.bounded v k hold
  · rintro x y (hseen | ⟨rfl, rfl⟩)
    · obtain ⟨j, k, hj, hk, hle, hlast⟩ := h.complete x y hseen
      refine ⟨j, k, discover_dist_of_some hb hj, discover_dist_of_some hb hk, hle, fun heq => ?_⟩
      rw [h.discover_parents hb, if_neg (ne_of_dist hb hk)]
      exact hlast heq
    · refine ⟨d, d + 1, discover_dist_of_some hb ha, hnew, Nat.le_refl _, fun _ => ?_⟩
      rw [h.discover_parents hb, if_pos rfl]
      exact List.mem_cons_self
  · intro x y hx
    rw [h.discover_parents hb] at hx
    split at hx
    · rename_i hy
      subst hy
      obtain rfl := List.mem_singleton.mp hx
      exact ⟨.inr ⟨rfl, rfl⟩, d, discover_dist_of_some hb ha, hnew⟩
    · obtain ⟨hseen, j, hj, hk⟩ := h.nearer x y hx
      exact ⟨.inl hseen, j, discover_dist_of_some hb hj, discover_dist_of_some hb hk⟩
  · intro v
    rw [h.discover_parents hb]
    split
    · exact List.nodup_singleton a
    · exact h.unique v

end Discover

/-- Another neighbour as near as the first one. -/
theorem Inv.addParent (h : Inv adj relay source d seen s) (ha : s.dist a = some d) (hb : s.dist b = some (d + 1))
    (hnew : a ∉ s.parents b) :
    Inv adj relay source d (fun x y => seen x y ∨ (x = a ∧ y = b)) (addParent a s b) := by
  have hparents : ∀ v, (BreadthFirst.addParent a s b).parents v = if v = b then s.parents b ++ [a] else s.parents v :=
    fun v => Function.update_apply ..
  have hmem : ∀ x y, x ∈ s.parents y → x ∈ (BreadthFirst.addParent a s b).parents y := by
    intro x y hx
    rw [hparents]
    split
    · rename_i hy
      subst hy
      exact List.mem_append_left _ hx
    · exact hx
  refine { h with complete := ?_, nearer := ?_, unique := ?_ }
  · rintro x y (hseen | ⟨rfl, rfl⟩)
    · obtain ⟨j, k, hj, hk, hle, hlast⟩ := h.complete x y hseen
      exact ⟨j, k, hj, hk, hle, fun heq => hmem x y (hlast heq)⟩
    · refine ⟨d, d + 1, ha, hb, Nat.le_refl _, fun _ => ?_⟩
      rw [hparents, if_pos rfl]
      exact List.mem_append_right _ (List.mem_singleton_self x)
  · intro x y hx
    rw [hparents] at hx
    split at hx
    · rename_i hy
      subst hy
      rcases List.mem_append.mp hx with hx | hx
      · exact ⟨.inl (h.nearer x y hx).1, (h.nearer x y hx).2⟩
      · obtain rfl := List.mem_singleton.mp hx
        exact ⟨.inr ⟨rfl, rfl⟩, d, ha, hb⟩
    · exact ⟨.inl (h.nearer x y hx).1, (h.nearer x y hx).2⟩
  · intro v
    rw [hparents]
    split
    · apply (h.unique b).append (List.nodup_singleton a)
      intro x hx hxa
      rw [List.mem_singleton.mp hxa] at hx
      exact hnew hx
    · exact h.unique v

/-- Looking at one neighbour keeps the invariant. -/
theorem Inv.relax (h : Inv adj relay source d seen s) (ha : s.dist a = some d) (hmem : a ∈ s.queue) (hadj : b ∈ adj a) :
    Inv adj relay source d (fun x y => seen x y ∨ (x = a ∧ y = b)) (relax relay a d s b) := by
  simp only [BreadthFirst.relax]
  cases hb : s.dist b with
  | none => exact h.discover hb ha hmem hadj
  | some k =>
      dsimp only
      split
      · rename_i hnew
        obtain ⟨rfl, hnew⟩ := hnew
        exact h.addParent ha hb hnew
      · rename_i hnot
        refine { h with complete := ?_, nearer := ?_ }
        · rintro x y (hseen | ⟨rfl, rfl⟩)
          · exact h.complete x y hseen
          · refine ⟨d, k, ha, hb, h.bounded y k hb, fun heq => ?_⟩
            by_contra hold
            exact hnot ⟨heq.symm, hold⟩
        · intro x y hx
          exact ⟨.inl (h.nearer x y hx).1, (h.nearer x y hx).2⟩

/-! ### The search -/

theorem relax_queue (relay : V → Bool) (a : V) (d : Nat) (s : Search V) (b : V) :
    ∃ new, (BreadthFirst.relax relay a d s b).queue = s.queue ++ new := by
  simp only [BreadthFirst.relax]
  split
  · unfold BreadthFirst.discover
    dsimp only
    split
    · exact ⟨[b], rfl⟩
    · exact ⟨[], (List.append_nil _).symm⟩
  · split
    · exact ⟨[], (List.append_nil _).symm⟩
    · exact ⟨[], (List.append_nil _).symm⟩

theorem relax_dist_of_some {v : V} {k : Nat} (hv : s.dist v = some k) :
    (BreadthFirst.relax relay a d s b).dist v = some k := by
  simp only [BreadthFirst.relax]
  split
  · rename_i hb
    exact discover_dist_of_some hb hv
  · split
    · exact hv
    · exact hv

/-- Looking at a neighbour again changes nothing. -/
theorem relax_relax (relay : V → Bool) (a : V) (d : Nat) (s : Search V) (b : V) :
    BreadthFirst.relax relay a d (BreadthFirst.relax relay a d s b) b = BreadthFirst.relax relay a d s b := by
  have hsettled : ∀ s' : Search V, s'.dist b = some (d + 1) → a ∈ s'.parents b →
      BreadthFirst.relax relay a d s' b = s' := by
    intro s' hdist hmem
    simp only [BreadthFirst.relax]
    rw [hdist]
    exact if_neg fun h => h.2 hmem
  cases hb : s.dist b with
  | none =>
      have hfirst : BreadthFirst.relax relay a d s b = BreadthFirst.discover relay a d s b := by
        simp only [BreadthFirst.relax]
        rw [hb]
      rw [hfirst]
      apply hsettled
      · exact Function.update_self ..
      · unfold BreadthFirst.discover
        dsimp only
        rw [Function.update_self]
        exact List.mem_append_right _ (List.mem_singleton_self a)
  | some k =>
      by_cases hnew : d + 1 = k ∧ a ∉ s.parents b
      · have hfirst : BreadthFirst.relax relay a d s b = BreadthFirst.addParent a s b := by
          unfold BreadthFirst.relax
          rw [hb]
          exact if_pos hnew
        rw [hfirst]
        apply hsettled
        · rw [hnew.1]
          exact hb
        · unfold BreadthFirst.addParent
          dsimp only
          rw [Function.update_self]
          exact List.mem_append_right _ (List.mem_singleton_self a)
      · have hfirst : BreadthFirst.relax relay a d s b = s := by
          simp only [BreadthFirst.relax]
          rw [hb]
          exact if_neg hnew
        rw [hfirst, hfirst]

/-- Looking at a list of neighbours. -/
theorem Inv.relaxAll (bs : List V) (hadj : ∀ b ∈ bs, b ∈ adj a) (h : Inv adj relay source d seen s)
    (ha : s.dist a = some d) (hmem : a ∈ s.queue) :
    Inv adj relay source d (fun x y => seen x y ∨ (x = a ∧ y ∈ bs)) (bs.foldl (BreadthFirst.relax relay a d) s) ∧
      (bs.foldl (BreadthFirst.relax relay a d) s).dist a = some d := by
  induction bs generalizing s seen with
  | nil => exact ⟨h.congr (by simp), ha⟩
  | cons b bs ih =>
      obtain ⟨front, hfront⟩ := relax_queue relay a d s b
      have hmem' : a ∈ (BreadthFirst.relax relay a d s b).queue := by
        rw [hfront]
        exact List.mem_append_left _ hmem
      obtain ⟨hinv, hdist⟩ := ih (fun b hb => hadj b (List.mem_cons_of_mem _ hb))
        (h.relax ha hmem (hadj b List.mem_cons_self)) (relax_dist_of_some ha) hmem'
      refine ⟨hinv.congr fun x y => ?_, hdist⟩
      rw [List.mem_cons]
      tauto

/-- New nodes are queued behind those that are there. -/
theorem expand_queue (adj : V → List V) (relay : V → Bool) (s : Search V) (a : V) :
    ∃ new, (expand adj relay s a).queue = s.queue ++ new := by
  unfold expand
  generalize (s.dist a).getD 0 = d
  generalize adj a = bs
  induction bs generalizing s with
  | nil => exact ⟨[], (List.append_nil _).symm⟩
  | cons b bs ih =>
      obtain ⟨front, hfront⟩ := relax_queue relay a d s b
      obtain ⟨new, hnew⟩ := ih (BreadthFirst.relax relay a d s b)
      refine ⟨front ++ new, ?_⟩
      rw [List.foldl_cons, hnew, hfront, List.append_assoc]

/-- The nodes that are done, after the one at position `i`. -/
theorem mem_take_expand {i : Nat} (hi : s.queue[i]? = some a) {x : V} :
    x ∈ (expand adj relay s a).queue.take (i + 1) ↔ x ∈ s.queue.take i ∨ x = a := by
  obtain ⟨new, hnew⟩ := expand_queue adj relay s a
  obtain ⟨hlt, -⟩ := List.getElem?_eq_some_iff.mp hi
  rw [hnew, List.take_append_of_le_length hlt, List.take_add_one, hi, Option.toList_some, List.mem_append,
    List.mem_singleton]

/-- Who has looked at whom, after the node at position `i`. -/
theorem looked_expand_iff {i : Nat} (hi : s.queue[i]? = some a) {x y : V} :
    (x ∈ s.queue.take i ∧ y ∈ adj x) ∨ (x = a ∧ y ∈ adj a) ↔
      x ∈ (expand adj relay s a).queue.take (i + 1) ∧ y ∈ adj x := by
  rw [mem_take_expand hi]
  constructor
  · rintro (⟨hx, hy⟩ | ⟨rfl, hy⟩)
    · exact ⟨.inl hx, hy⟩
    · exact ⟨.inr rfl, hy⟩
  · rintro ⟨hx | rfl, hy⟩
    · exact .inl ⟨hx, hy⟩
    · exact .inr ⟨rfl, hy⟩

/-- The invariant at position `i` of the queue: the nodes before it have looked at all their neighbours,
and the ones from it on are as far away as the last of those. -/
def AtPosition (adj : V → List V) (relay : V → Bool) (source : V) (i : Nat) (s : Search V) : Prop :=
  ∃ d, Inv adj relay source d (fun a b => a ∈ s.queue.take i ∧ b ∈ adj a) s ∧
    ∀ v ∈ s.queue.drop i, ∀ k, s.dist v = some k → d ≤ k

theorem atPosition_start : AtPosition adj relay source 0 (start source) :=
  ⟨0, inv_start.congr (by simp), fun _ _ _ _ => Nat.zero_le _⟩

theorem AtPosition.expand {i : Nat} (h : AtPosition adj relay source i s) (hi : s.queue[i]? = some a) :
    AtPosition adj relay source (i + 1) (expand adj relay s a) := by
  obtain ⟨d, hinv, hahead⟩ := h
  obtain ⟨hlt, hget⟩ := List.getElem?_eq_some_iff.mp hi
  have hmem : a ∈ s.queue := hget ▸ List.getElem_mem hlt
  have hdrop : a ∈ s.queue.drop i := by
    rw [List.drop_eq_getElem_cons hlt, hget]
    exact List.mem_cons_self
  obtain ⟨k, hk⟩ := hinv.found a hmem
  obtain ⟨hafter, hdist⟩ := (hinv.mono (hahead a hdrop k hk)).relaxAll (adj a) (fun _ hb => hb) hk hmem
  have hexpand : BreadthFirst.expand adj relay s a = (adj a).foldl (BreadthFirst.relax relay a k) s := by
    unfold BreadthFirst.expand
    rw [hk, Option.getD_some]
  rw [← hexpand] at hafter hdist
  refine ⟨k, hafter.congr fun x y => looked_expand_iff hi, fun v hv j hj => ?_⟩
  have hsorted := hafter.sorted
  rw [← List.take_append_drop (i + 1) (BreadthFirst.expand adj relay s a).queue, List.pairwise_append] at hsorted
  exact hsorted.2.2 a ((mem_take_expand hi).mpr (.inr rfl)) v hv k j hdist hj

/-- With fuel for every node the search comes to the end of its queue. -/
theorem search_atPosition [Fintype V] (fuel i : Nat) (hfuel : Fintype.card V ≤ i + fuel)
    (h : AtPosition adj relay source i s) :
    ∃ i', AtPosition adj relay source i' (search adj relay fuel i s) ∧
      (search adj relay fuel i s).queue.length ≤ i' := by
  induction fuel generalizing i s with
  | zero =>
      obtain ⟨d, hinv, hahead⟩ := h
      exact ⟨i, ⟨d, hinv, hahead⟩, (hinv.nodup.length_le_card).trans hfuel⟩
  | succ fuel ih =>
      simp only [search]
      cases hi : s.queue[i]? with
      | some a => exact ih (i + 1) (by omega) (h.expand hi)
      | none => exact ⟨i, h, List.getElem?_eq_none_iff.mp hi⟩

/-- What a search finds: the distances, and for each node the neighbours one hop nearer, each once. -/
theorem search_spec [Fintype V] (adj : V → List V) (relay : V → Bool) (source : V) :
    (∀ v k, (search adj relay (Fintype.card V) 0 (start source)).dist v = some k ↔ IsDist adj relay source k v) ∧
    ∀ b, ((search adj relay (Fintype.card V) 0 (start source)).parents b).Nodup ∧
      ∀ a, a ∈ (search adj relay (Fintype.card V) 0 (start source)).parents b ↔
        b ∈ adj a ∧ (a = source ∨ relay a = true) ∧
          ∃ k, IsDist adj relay source k a ∧ IsDist adj relay source (k + 1) b := by
  have hstart : AtPosition adj relay source 0 (start source) := atPosition_start
  obtain ⟨i, ⟨d, hinv, -⟩, hlength⟩ := search_atPosition (Fintype.card V) 0 (Nat.le_add_left _ _) hstart
  rw [List.take_of_length_le hlength] at hinv
  exact ⟨fun v k => hinv.dist_iff, fun b => ⟨hinv.unique b, fun a => hinv.mem_parents_iff⟩⟩

end BreadthFirst
