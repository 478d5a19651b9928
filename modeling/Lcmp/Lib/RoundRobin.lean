import Mathlib.Data.List.Rotate
import Mathlib.Data.List.Nodup

/-!
# Round robin over a compacted list

A scheduler keeps the position it served last. A turn visits the positions after it, and around, until
an item is ready; from the first stale item it passed on, it then removes the items that are done and
moves the position it found along. The visit is a search through the list rotated to the position
after the last, and an item ahead of another in that rotation is served before it.
-/

universe u v

namespace RoundRobin

variable {α : Type u} {β : Type v}

/-- The positions of `n` items in the order of a turn. -/
def positions (last n : Nat) : List Nat := (List.range' 1 n).map fun k => (k + last) % n

/-- The position of the first ready item, and the least position of the stale items passed. -/
def search (ready stale : α → Bool) (xs : List α) : List Nat → Option Nat → Option Nat × Option Nat
  | [], least => (none, least)
  | pos :: todo, least =>
      match xs[pos]? with
      | none => search ready stale xs todo least
      | some x =>
          if ready x then (some pos, least)
          else if stale x then
            search ready stale xs todo (some (least.elim pos fun m => if pos < m then pos else m))
          else search ready stale xs todo least

/-- Remove what is done from position `i` on. What is kept moves up to `nxt`, and the target follows
its item. -/
def compact (done : α → Bool) : Option Nat → Nat → Nat → List α → Option Nat × List α
  | target, _, _, [] => (target, [])
  | target, i, nxt, x :: rest =>
      if done x then compact done target (i + 1) nxt rest
      else
        let (target, kept) := compact done (if target = some i then some nxt else target) (i + 1) (nxt + 1) rest
        (target, x :: kept)

def turn (ready stale done : α → Bool) (last : Nat) (xs : List α) : Option Nat × List α :=
  let (found, least) := search ready stale xs (positions last xs.length) none
  match least with
  | none => (found, xs)
  | some k =>
      let (found, kept) := compact done found (k + 1) k (xs.drop (k + 1))
      (found, xs.take k ++ kept)

/-- The items in the order of a turn. -/
def cycle (last : Nat) (xs : List α) : List α := xs.rotate (last + 1)

variable {ready stale done : α → Bool} {last : Nat} {xs ys : List α}

/-! ### The order of a turn -/

theorem length_positions (last n : Nat) : (positions last n).length = n := by
  rw [positions, List.length_map, List.length_range']

theorem getElem?_positions (last : Nat) {n k : Nat} (hk : k < n) :
    (positions last n)[k]? = some ((k + (last + 1)) % n) := by
  rw [positions, List.getElem?_map, List.getElem?_range' hk]
  simp only [Option.map_some, Option.some.injEq]
  congr 1
  omega

theorem mem_positions {last n pos : Nat} (hpos : pos < n) : pos ∈ positions last n := by
  have hr := Nat.mod_lt last (Nat.zero_lt_of_lt hpos)
  rw [positions, List.mem_map]
  by_cases hlt : last % n < pos
  · refine ⟨pos - last % n, List.mem_range'_1.mpr ⟨by omega, by omega⟩, ?_⟩
    rw [← Nat.add_mod_mod, Nat.sub_add_cancel (Nat.le_of_lt hlt), Nat.mod_eq_of_lt hpos]
  · refine ⟨pos + n - last % n, List.mem_range'_1.mpr ⟨by omega, by omega⟩, ?_⟩
    rw [← Nat.add_mod_mod, Nat.sub_add_cancel (by omega), Nat.add_mod_right, Nat.mod_eq_of_lt hpos]

/-- The visit reads the rotated list. -/
theorem getElem?_cycle {k : Nat} (hk : k < xs.length) :
    (cycle last xs)[k]? = xs[(k + (last + 1)) % xs.length]? := by
  have hpos : (k + (last + 1)) % xs.length < xs.length := Nat.mod_lt _ (Nat.zero_lt_of_lt hk)
  rw [cycle, List.getElem?_eq_getElem (by rw [List.length_rotate]; exact hk), List.getElem_rotate,
    List.getElem?_eq_getElem hpos]

theorem mem_cycle {x : α} : x ∈ cycle last xs ↔ x ∈ xs := List.mem_rotate

/-! ### The search -/

theorem search_found {todo : List Nat} {m m' : Option Nat} {pos : Nat}
    (h : search ready stale xs todo m = (some pos, m')) :
    ∃ before after x, todo = before ++ pos :: after ∧ xs[pos]? = some x ∧ ready x = true ∧
      ∀ p ∈ before, ∀ y, xs[p]? = some y → ready y = false := by
  induction todo generalizing m with
  | nil => cases h
  | cons first rest ih =>
      -- a position that is passed joins `before`
      have hpass : ∀ {m}, search ready stale xs rest m = (some pos, m') →
          (∀ y, xs[first]? = some y → ready y = false) →
          ∃ before after x, first :: rest = before ++ pos :: after ∧ xs[pos]? = some x ∧ ready x = true ∧
            ∀ p ∈ before, ∀ y, xs[p]? = some y → ready y = false := by
        intro m hrest hfirst
        obtain ⟨before, after, x, htodo, hx, hready, hbefore⟩ := ih hrest
        refine ⟨first :: before, after, x, by rw [htodo]; rfl, hx, hready, fun p hp => ?_⟩
        rcases List.mem_cons.mp hp with rfl | hp
        · exact hfirst
        · exact hbefore p hp
      rw [search] at h
      cases hget : xs[first]? with
      | none =>
          simp only [hget] at h
          exact hpass h (by simp [hget])
      | some x =>
          simp only [hget] at h
          cases hready : ready x with
          | true =>
              simp only [hready, if_true] at h
              obtain ⟨hpos, -⟩ := Prod.mk.inj h
              obtain rfl := Option.some.inj hpos
              exact ⟨[], rest, x, rfl, hget, hready, by simp⟩
          | false =>
              simp only [hready, Bool.false_eq_true, if_false] at h
              have hfirst : ∀ y, xs[first]? = some y → ready y = false := by
                intro y hy
                obtain rfl := Option.some.inj (hget.symm.trans hy)
                exact hready
              split at h
              · exact hpass h hfirst
              · exact hpass h hfirst

theorem search_nothing {todo : List Nat} {m m' : Option Nat}
    (h : search ready stale xs todo m = (none, m')) :
    ∀ p ∈ todo, ∀ y, xs[p]? = some y → ready y = false := by
  induction todo generalizing m with
  | nil => simp
  | cons first rest ih =>
      rw [search] at h
      intro p hp y hy
      rcases List.mem_cons.mp hp with rfl | hp
      · simp only [hy] at h
        cases hready : ready y with
        | true =>
            simp only [hready, if_true] at h
            cases h
        | false => rfl
      · split at h
        · exact ih h p hp y hy
        · split at h
          · cases h
          · split at h
            · exact ih h p hp y hy
            · exact ih h p hp y hy

/-- The position is that of a stale item. -/
def StaleAt (ready stale : α → Bool) (xs : List α) (k : Nat) : Prop :=
  ∃ x, xs[k]? = some x ∧ stale x = true ∧ ready x = false

theorem search_least {todo : List Nat} {m m' found : Option Nat}
    (h : search ready stale xs todo m = (found, m')) (hm : ∀ k, m = some k → StaleAt ready stale xs k) :
    ∀ k, m' = some k → StaleAt ready stale xs k := by
  induction todo generalizing m with
  | nil =>
      obtain rfl : m = m' := congrArg Prod.snd h
      exact hm
  | cons first rest ih =>
      rw [search] at h
      cases hget : xs[first]? with
      | none =>
          simp only [hget] at h
          exact ih h hm
      | some x =>
          simp only [hget] at h
          cases hready : ready x with
          | true =>
              simp only [hready, if_true] at h
              obtain rfl : m = m' := congrArg Prod.snd h
              exact hm
          | false =>
              simp only [hready, Bool.false_eq_true, if_false] at h
              cases hstale : stale x with
              | false =>
                  simp only [hstale, Bool.false_eq_true, if_false] at h
                  exact ih h hm
              | true =>
                  simp only [hstale, if_true] at h
                  refine ih h fun k hk => ?_
                  obtain rfl := Option.some.inj hk
                  have hfirst : StaleAt ready stale xs first := ⟨x, hget, hstale, hready⟩
                  cases m with
                  | none => exact hfirst
                  | some j =>
                      show StaleAt ready stale xs (if first < j then first else j)
                      split
                      · exact hfirst
                      · exact hm j rfl

/-- The least position with one more, which may be the first. -/
theorem least_le (m : Option Nat) (first : Nat) :
    (m.elim first fun j => if first < j then first else j) ≤ first ∧
      ∀ j, m = some j → (m.elim first fun j => if first < j then first else j) ≤ j := by
  cases m with
  | none => exact ⟨Nat.le_refl first, fun j hj => by cases hj⟩
  | some k =>
      dsimp only [Option.elim]
      split
      · rename_i hlt
        refine ⟨Nat.le_refl first, fun j hj => ?_⟩
        obtain rfl := Option.some.inj hj
        exact Nat.le_of_lt hlt
      · rename_i hge
        refine ⟨Nat.le_of_not_lt hge, fun j hj => ?_⟩
        exact Nat.le_of_eq (Option.some.inj hj)

/-- A search that finds nothing has passed every stale item, and keeps the least position. -/
theorem search_nothing_le {todo : List Nat} {m m' : Option Nat} (h : search ready stale xs todo m = (none, m'))
    {pos : Nat} (hpos : (∃ j, m = some j ∧ j ≤ pos) ∨ pos ∈ todo ∧ StaleAt ready stale xs pos) :
    ∃ k, m' = some k ∧ k ≤ pos := by
  induction todo generalizing m with
  | nil =>
      obtain rfl : m = m' := congrArg Prod.snd h
      rcases hpos with hpos | ⟨hpos, -⟩
      · exact hpos
      · cases hpos
  | cons first rest ih =>
      -- an item that is not stale leaves the least position as it is
      have hpass : search ready stale xs rest m = (none, m') → ¬ StaleAt ready stale xs first →
          ∃ k, m' = some k ∧ k ≤ pos := by
        intro hrest hnot
        apply ih hrest
        rcases hpos with hpos | ⟨hmem, hat⟩
        · exact .inl hpos
        · rcases List.mem_cons.mp hmem with rfl | hmem
          · exact absurd hat hnot
          · exact .inr ⟨hmem, hat⟩
      rw [search] at h
      cases hget : xs[first]? with
      | none =>
          simp only [hget] at h
          refine hpass h fun hat => ?_
          obtain ⟨x, hx, -⟩ := hat
          rw [hget] at hx
          cases hx
      | some x =>
          simp only [hget] at h
          split at h
          · cases h
          · split at h
            · apply ih h
              rcases hpos with ⟨j, hm, hj⟩ | ⟨hmem, hat⟩
              · exact .inl ⟨_, rfl, ((least_le m first).2 j hm).trans hj⟩
              · rcases List.mem_cons.mp hmem with rfl | hmem
                · exact .inl ⟨_, rfl, (least_le m pos).1⟩
                · exact .inr ⟨hmem, hat⟩
            · rename_i hstale
              refine hpass h fun hat => hstale ?_
              obtain ⟨x', hx', hstale', -⟩ := hat
              obtain rfl := Option.some.inj (hget.symm.trans hx')
              exact hstale'

/-- The item a turn finds is the first ready one of the rotated list. -/
theorem search_cycle {pos : Nat} {m' : Option Nat}
    (h : search ready stale xs (positions last xs.length) none = (some pos, m')) :
    ∃ k x, k < xs.length ∧ pos = (k + (last + 1)) % xs.length ∧ xs[pos]? = some x ∧ ready x = true ∧
      (cycle last xs)[k]? = some x ∧ ∀ y ∈ (cycle last xs).take k, ready y = false := by
  obtain ⟨before, after, x, htodo, hx, hready, hbefore⟩ := search_found h
  have hk : before.length < xs.length := by
    rw [← length_positions last xs.length, htodo, List.length_append, List.length_cons]
    omega
  have hpos : pos = (before.length + (last + 1)) % xs.length := by
    have hat := getElem?_positions last hk
    rw [htodo, List.getElem?_append_right (Nat.le_refl _), Nat.sub_self] at hat
    exact Option.some.inj hat
  refine ⟨before.length, x, hk, hpos, hx, hready, by rw [getElem?_cycle hk, ← hpos, hx], fun y hy => ?_⟩
  obtain ⟨j, hj, hy⟩ := List.mem_take_iff_getElem.mp hy
  rw [Nat.lt_min] at hj
  have hjn : j < xs.length := Nat.lt_trans hj.1 hk
  have hvisited : before[j]? = some ((j + (last + 1)) % xs.length) := by
    rw [← getElem?_positions last hjn, htodo, List.getElem?_append_left hj.1]
  refine hbefore _ (List.mem_of_getElem? hvisited) y ?_
  rw [← getElem?_cycle hjn, List.getElem?_eq_getElem hj.2, hy]

/-! ### The compaction -/

theorem compact_snd (target : Option Nat) (i nxt : Nat) (xs : List α) :
    (compact done target i nxt xs).2 = xs.filter fun x => !done x := by
  induction xs generalizing target i nxt with
  | nil => rfl
  | cons x rest ih =>
      rw [compact]
      cases hdone : done x with
      | true => rw [if_pos rfl, ih, List.filter_cons_of_neg (by rw [hdone]; decide)]
      | false =>
          rw [if_neg (by decide), List.filter_cons_of_pos (by rw [hdone]; rfl)]
          dsimp only
          rw [ih]

theorem compact_isSome (done : α → Bool) (target : Option Nat) (i nxt : Nat) (xs : List α) :
    (compact done target i nxt xs).1.isSome = target.isSome := by
  induction xs generalizing target i nxt with
  | nil => rfl
  | cons x rest ih =>
      rw [compact]
      split
      · exact ih target (i + 1) nxt
      · dsimp only
        rw [ih]
        split
        · rename_i htarget
          rw [htarget]
          rfl
        · rfl

/-- A target in front of the compaction stays. -/
theorem compact_front {t i nxt : Nat} (ht : t < i) (xs : List α) :
    (compact done (some t) i nxt xs).1 = some t := by
  induction xs generalizing i nxt with
  | nil => rfl
  | cons x rest ih =>
      rw [compact]
      split
      · exact ih (Nat.lt_succ_of_lt ht)
      · have hne : ¬ some t = some i := fun he => absurd (Option.some.inj he) (Nat.ne_of_lt ht)
        rw [if_neg hne]
        exact ih (Nat.lt_succ_of_lt ht)

/-- A target that is kept moves by what is removed in front of it. -/
theorem compact_target {x : α} (hx : done x = false) (front back : List α) {i nxt : Nat} (hnxt : nxt ≤ i) :
    (compact done (some (i + front.length)) i nxt (front ++ x :: back)).1 =
      some (nxt + (front.filter fun x => !done x).length) := by
  induction front generalizing i nxt with
  | nil =>
      rw [List.nil_append, compact, hx, if_neg (by decide), List.length_nil, Nat.add_zero, if_pos rfl]
      exact compact_front (Nat.lt_succ_of_le hnxt) back
  | cons y rest ih =>
      have hmoved : i + (y :: rest).length = i + 1 + rest.length := by
        rw [List.length_cons]
        omega
      rw [List.cons_append, compact, hmoved]
      cases hy : done y with
      | true =>
          rw [if_pos rfl, List.filter_cons_of_neg (by rw [hy]; decide)]
          exact ih (Nat.le_succ_of_le hnxt)
      | false =>
          have hne : ¬ some (i + 1 + rest.length) = some i := fun he => by
            have heq := Option.some.inj he
            omega
          rw [if_neg (by decide), if_neg hne, List.filter_cons_of_pos (by rw [hy]; rfl), List.length_cons]
          dsimp only
          rw [ih (Nat.succ_le_succ hnxt)]
          congr 1
          omega

theorem filter_drop_sublist (p : α → Bool) (xs : List α) (j : Nat) :
    ((xs.drop (j + 1)).filter p).Sublist (xs.drop j) := by
  apply List.filter_sublist.trans
  rw [← List.drop_drop]
  exact List.drop_sublist 1 _

theorem take_append_sublist {j : Nat} (h : ys.Sublist (xs.drop j)) : (xs.take j ++ ys).Sublist xs := by
  have hall := (List.Sublist.refl (xs.take j)).append h
  rwa [List.take_append_drop] at hall

/-- The item `x` between `front` and `back` is still in the list, and `found` is its position. -/
def Tracks (x : α) (front back : List α) (found : Option Nat) (ys : List α) : Prop :=
  ∃ front' back', ys = front' ++ x :: back' ∧ found = some front'.length ∧ front'.Sublist front ∧ back'.Sublist back

/-- What is removed starts in front of the target. -/
theorem compact_tracks_of_lt {x : α} {front back : List α} {j : Nat} (hx : done x = false) (hj : j < front.length) :
    Tracks x front back (compact done (some front.length) (j + 1) j ((front ++ x :: back).drop (j + 1))).1
      ((front ++ x :: back).take j ++ ((front ++ x :: back).drop (j + 1)).filter fun x => !done x) := by
  have hlen : j + 1 + (front.drop (j + 1)).length = front.length := by
    rw [List.length_drop]
    omega
  have htarget := compact_target hx (front.drop (j + 1)) back (Nat.le_succ j)
  rw [Nat.succ_eq_add_one, hlen] at htarget
  rw [List.drop_append_of_le_length hj, List.take_append_of_le_length (Nat.le_of_lt hj), List.filter_append,
    List.filter_cons_of_pos (by rw [hx]; rfl), htarget]
  refine ⟨front.take j ++ (front.drop (j + 1)).filter fun x => !done x, _, (List.append_assoc _ _ _).symm, ?_,
    take_append_sublist (filter_drop_sublist _ front j), List.filter_sublist⟩
  rw [List.length_append, List.length_take_of_le (Nat.le_of_lt hj)]

/-- What is removed is behind the target. -/
theorem compact_tracks_of_gt {x : α} {front back : List α} {j : Nat} (hj : front.length < j) :
    Tracks x front back (compact done (some front.length) (j + 1) j ((front ++ x :: back).drop (j + 1))).1
      ((front ++ x :: back).take j ++ ((front ++ x :: back).drop (j + 1)).filter fun x => !done x) := by
  obtain ⟨i, rfl⟩ := Nat.exists_eq_add_of_lt hj
  have htake : (front ++ x :: back).take (front.length + i + 1) = front ++ x :: back.take i := by
    rw [Nat.add_assoc, List.take_length_add_append, List.take_succ_cons]
  have hdrop : (front ++ x :: back).drop (front.length + i + 1 + 1) = back.drop (i + 1) := by
    rw [Nat.add_assoc, Nat.add_assoc, List.drop_length_add_append, ← Nat.add_assoc, List.drop_succ_cons]
  rw [compact_front (by omega), htake, hdrop, List.append_assoc, List.cons_append]
  exact ⟨front, _, rfl, rfl, .refl _, take_append_sublist (filter_drop_sublist _ back i)⟩

/-! ### A turn -/

/-- What a turn leaves: everything, or what stands in front of a stale item and what is not done behind it. -/
inductive Cleaned (ready stale done : α → Bool) (xs : List α) : List α → Prop where
  | all : Cleaned ready stale done xs xs
  | behind (k : Nat) (hk : StaleAt ready stale xs k) :
      Cleaned ready stale done xs (xs.take k ++ (xs.drop (k + 1)).filter fun x => !done x)

theorem turn_cleaned (ready stale done : α → Bool) (last : Nat) (xs : List α) :
    Cleaned ready stale done xs (turn ready stale done last xs).2 := by
  rw [turn]
  cases hsearch : search ready stale xs (positions last xs.length) none with
  | mk found least =>
  cases least with
  | none => exact .all
  | some k =>
      dsimp only
      rw [compact_snd]
      exact .behind k (search_least hsearch (by simp) k rfl)

theorem Cleaned.sublist (h : Cleaned ready stale done xs ys) : ys.Sublist xs := by
  cases h with
  | all => exact .refl xs
  | behind k hk => exact take_append_sublist (filter_drop_sublist _ xs k)

/-- Only what is done is removed. -/
theorem Cleaned.filter (hstale : ∀ x, stale x = true → done x = true) (h : Cleaned ready stale done xs ys) :
    (ys.filter fun x => !done x) = xs.filter fun x => !done x := by
  cases h with
  | all => rfl
  | behind k hk =>
      obtain ⟨x, hx, hstalex, -⟩ := hk
      obtain ⟨hlt, hx⟩ := List.getElem?_eq_some_iff.mp hx
      have hdrop : ((xs.drop k).filter fun x => !done x) = (xs.drop (k + 1)).filter fun x => !done x := by
        rw [List.drop_eq_getElem_cons hlt, List.filter_cons_of_neg]
        rw [hx, hstale x hstalex]
        decide
      calc ((xs.take k ++ (xs.drop (k + 1)).filter fun x => !done x).filter fun x => !done x)
          = (xs.take k ++ xs.drop k).filter fun x => !done x := by
            rw [List.filter_append, List.filter_filter, List.filter_append, hdrop]
            simp only [Bool.and_self]
        _ = xs.filter fun x => !done x := by rw [List.take_append_drop]

theorem Cleaned.mem (hstale : ∀ x, stale x = true → done x = true) (h : Cleaned ready stale done xs ys) {x : α}
    (hx : x ∈ xs) (hdone : done x = false) : x ∈ ys := by
  have hkept : x ∈ xs.filter fun x => !done x := List.mem_filter.mpr ⟨hx, by rw [hdone]; rfl⟩
  rw [← h.filter hstale] at hkept
  exact (List.mem_filter.mp hkept).1

/-- A turn finds nothing exactly where nothing is ready. -/
theorem turn_none_iff : (turn ready stale done last xs).1 = none ↔ ∀ x ∈ xs, ready x = false := by
  rw [turn]
  cases hsearch : search ready stale xs (positions last xs.length) none with
  | mk found least =>
  have hfound : found = none ↔ ∀ x ∈ xs, ready x = false := by
    cases found with
    | none =>
        refine ⟨fun _ x hx => ?_, fun _ => rfl⟩
        obtain ⟨pos, hpos, rfl⟩ := List.getElem_of_mem hx
        exact search_nothing hsearch pos (mem_positions hpos) _ (List.getElem?_eq_getElem hpos)
    | some pos =>
        obtain ⟨-, -, x, -, hx, hready, -⟩ := search_found hsearch
        refine ⟨fun h => absurd h (by simp), fun h => ?_⟩
        rw [h x (List.mem_of_getElem? hx)] at hready
        cases hready
  cases least with
  | none => exact hfound
  | some k =>
      dsimp only
      rw [← hfound, ← Option.isNone_iff_eq_none, ← Option.isNone_iff_eq_none, ← Option.not_isSome,
        ← Option.not_isSome, compact_isSome]

/-- A turn that finds nothing removes from the first stale item on. -/
theorem turn_nothing (h : turn ready stale done last xs = (none, ys)) :
    (ys = xs ∧ ∀ pos, ¬ StaleAt ready stale xs pos) ∨
      ∃ k, StaleAt ready stale xs k ∧ (∀ pos, StaleAt ready stale xs pos → k ≤ pos) ∧
        ys = xs.take k ++ (xs.drop (k + 1)).filter fun x => !done x := by
  have hnone := turn_none_iff.mp (congrArg Prod.fst h)
  rw [turn] at h
  cases hsearch : search ready stale xs (positions last xs.length) none with
  | mk found least =>
  rw [hsearch] at h
  cases found with
  | some pos =>
      obtain ⟨-, -, x, -, hx, hready, -⟩ := search_found hsearch
      rw [hnone x (List.mem_of_getElem? hx)] at hready
      cases hready
  | none =>
      have hpassed : ∀ pos, StaleAt ready stale xs pos → ∃ k, least = some k ∧ k ≤ pos := by
        intro pos hat
        have hlt : pos < xs.length := by
          obtain ⟨x, hx, -⟩ := hat
          exact (List.getElem?_eq_some_iff.mp hx).1
        exact search_nothing_le hsearch (.inr ⟨mem_positions hlt, hat⟩)
      cases least with
      | none =>
          refine .inl ⟨(Prod.mk.inj h).2.symm, fun pos hat => ?_⟩
          obtain ⟨k, hk, -⟩ := hpassed pos hat
          cases hk
      | some k =>
          have hys := (Prod.mk.inj h).2
          rw [compact_snd] at hys
          refine .inr ⟨k, search_least hsearch (by simp) k rfl, fun pos hat => ?_, hys.symm⟩
          obtain ⟨k', hk', hle⟩ := hpassed pos hat
          obtain rfl := Option.some.inj hk'
          exact hle

/-- The `k`-th item of the turn is the first ready one. -/
structure Picks (ready : α → Bool) (last : Nat) (xs : List α) (k : Nat) (x : α) : Prop where
  visited : (cycle last xs)[k]? = some x
  isReady : ready x = true
  earlier : ∀ y ∈ (cycle last xs).take k, ready y = false

theorem Picks.unique {k k' : Nat} {x x' : α} (h : Picks ready last xs k x) (h' : Picks ready last xs k' x') :
    k = k' := by
  have hle : ∀ {k k' x x'}, Picks ready last xs k x → Picks ready last xs k' x' → k ≤ k' := by
    intro k k' x x' h h'
    by_contra hlt
    obtain ⟨hlen, hx'⟩ := List.getElem?_eq_some_iff.mp h'.visited
    have hmem : x' ∈ (cycle last xs).take k :=
      List.mem_take_iff_getElem.mpr ⟨k', by omega, hx'⟩
    have hnot := h.earlier x' hmem
    rw [h'.isReady] at hnot
    cases hnot
  exact Nat.le_antisymm (hle h h') (hle h' h)

/-- A turn that finds something finds the first ready item, and follows it where it is not done. -/
theorem turn_some {idx : Nat} (h : turn ready stale done last xs = (some idx, ys)) :
    ∃ k x, Picks ready last xs k x ∧ (done x = false → ∃ front back, xs = front ++ x :: back ∧
      front.length = (k + (last + 1)) % xs.length ∧ Tracks x front back (some idx) ys) := by
  rw [turn] at h
  cases hsearch : search ready stale xs (positions last xs.length) none with
  | mk found least =>
  rw [hsearch] at h
  have hsome : found.isSome := by
    cases least with
    | none =>
        rw [(Prod.mk.inj h).1]
        rfl
    | some j =>
        rw [← compact_isSome done found (j + 1) j (xs.drop (j + 1)), (Prod.mk.inj h).1]
        rfl
  obtain ⟨pos, rfl⟩ := Option.isSome_iff_exists.mp hsome
  obtain ⟨k, x, hk, hpos, hx, hready, hvisited, hearlier⟩ := search_cycle hsearch
  refine ⟨k, x, ⟨hvisited, hready, hearlier⟩, fun hdone => ?_⟩
  obtain ⟨hlt, hget⟩ := List.getElem?_eq_some_iff.mp hx
  have hlen : (xs.take pos).length = pos := List.length_take_of_le (Nat.le_of_lt hlt)
  have hsplit : xs = xs.take pos ++ x :: xs.drop (pos + 1) := by
    rw [← hget, ← List.drop_eq_getElem_cons hlt, List.take_append_drop]
  refine ⟨xs.take pos, xs.drop (pos + 1), hsplit, by rw [hlen, hpos], ?_⟩
  generalize xs.take pos = front at hsplit hlen
  generalize xs.drop (pos + 1) = back at hsplit
  subst hsplit hlen
  cases least with
  | none =>
      obtain ⟨hidx, hys⟩ := Prod.mk.inj h
      exact ⟨front, back, hys.symm, hidx.symm, .refl _, .refl _⟩
  | some j =>
      obtain ⟨hidx, hys⟩ := Prod.mk.inj h
      rw [compact_snd] at hys
      obtain ⟨z, hz, -, hnot⟩ := search_least hsearch (by simp) j rfl
      have hne : j ≠ front.length := by
        rintro rfl
        obtain rfl := Option.some.inj (hx.symm.trans hz)
        rw [hready] at hnot
        cases hnot
      rw [← hidx, ← hys]
      rcases Nat.lt_or_gt_of_ne hne with hj | hj
      · exact compact_tracks_of_lt hdone hj
      · exact compact_tracks_of_gt hj

/-! ### Waiting for a turn -/

/-- The first `y` of the list has no `x` in front of it. -/
def Ahead (y x : α) (xs : List α) : Prop := ∃ before after, xs = before ++ y :: after ∧ x ∉ before

theorem Ahead.sublist {x y : α} (h : Ahead y x xs) (hsub : ys.Sublist xs) (hnodup : xs.Nodup) (hy : y ∈ ys) :
    Ahead y x ys := by
  obtain ⟨before, after, rfl, hx⟩ := h
  obtain ⟨before', rest, rfl, hbefore, hrest⟩ := List.sublist_append_iff.mp hsub
  rw [List.nodup_append'] at hnodup
  obtain ⟨-, hafter, hdisjoint⟩ := hnodup
  have hyrest : y ∈ rest := by
    rcases List.mem_append.mp hy with hy | hy
    · exact absurd List.mem_cons_self (hdisjoint (hbefore.subset hy))
    · exact hy
  cases hrest with
  | cons _ hrest => exact absurd (hrest.subset hyrest) (List.nodup_cons.mp hafter).1
  | cons_cons _ hrest => exact ⟨before', _, rfl, fun hmem => hx (hbefore.subset hmem)⟩

/-- The rotation to a position: what is behind it, what is in front of it and, last, its item. -/
theorem cycle_at {x : α} (front back : List α) :
    cycle front.length (front ++ x :: back) = back ++ (front ++ [x]) := by
  have hsplit : front ++ x :: back = (front ++ [x]) ++ back := by
    rw [List.append_assoc, List.singleton_append]
  have hlen : front.length + 1 = (front ++ [x]).length := by
    rw [List.length_append, List.length_singleton]
  rw [cycle, hsplit, hlen, List.rotate_append_length_eq]

theorem nodup_cycle (hnodup : xs.Nodup) : (cycle last xs).Nodup := List.nodup_rotate.mpr hnodup

/-- The rotation to the `k`-th item of a turn. -/
theorem cycle_turn {k pos : Nat} (hk : k < xs.length) (hpos : pos = (k + (last + 1)) % xs.length) :
    cycle pos xs = (cycle last xs).drop (k + 1) ++ (cycle last xs).take (k + 1) := by
  have hlen : k + 1 ≤ (cycle last xs).length := by
    rw [cycle, List.length_rotate]
    exact hk
  rw [← List.rotate_eq_drop_append_take hlen, cycle, cycle, List.rotate_rotate, hpos, ← List.rotate_mod,
    Nat.mod_add_mod, List.rotate_mod]
  congr 1
  omega

/-- The item served last waits for all others. -/
theorem ahead_of_served {x y : α} {idx : Nat} (hnodup : ys.Nodup) (hidx : ys[idx]? = some x) (hy : y ∈ ys)
    (hne : y ≠ x) : Ahead y x (cycle idx ys) := by
  obtain ⟨hlt, hx⟩ := List.getElem?_eq_some_iff.mp hidx
  have hsplit : ys = ys.take idx ++ x :: ys.drop (idx + 1) := by
    rw [← hx, ← List.drop_eq_getElem_cons hlt, List.take_append_drop]
  have hlen : (ys.take idx).length = idx := List.length_take_of_le (Nat.le_of_lt hlt)
  generalize ys.take idx = front at hsplit hlen
  generalize ys.drop (idx + 1) = back at hsplit
  subst hsplit hlen
  have hothers : y ∈ back ++ front := by
    rw [List.mem_append]
    rcases List.mem_append.mp hy with hy | hy
    · exact .inr hy
    · rcases List.mem_cons.mp hy with hy | hy
      · exact absurd hy hne
      · exact .inl hy
  have hx : x ∉ back ++ front := by
    have hmoved := (List.perm_middle.trans (List.perm_append_comm.cons x)).nodup hnodup
    exact (List.nodup_cons.mp hmoved).1
  obtain ⟨before, after, hsplit⟩ := List.append_of_mem hothers
  refine ⟨before, after ++ [x], ?_, fun hmem => hx ?_⟩
  · rw [cycle_at, ← List.append_assoc, hsplit, List.append_assoc, List.cons_append]
  · rw [hsplit]
    exact List.mem_append_left _ hmem

/-- A turn that serves another item: it is not the one that waits longer, and the order stays. -/
theorem Ahead.turn_some {x y z : α} {idx : Nat} (hstale : ∀ x, stale x = true → done x = true)
    (hnodup : xs.Nodup) (hahead : Ahead y x (cycle last xs)) (hready : ready y = true) (hdone : done y = false)
    (h : turn ready stale done last xs = (some idx, ys)) (hpick : ∀ k z, Picks ready last xs k z → done z = false)
    (hz : ys[idx]? = some z) (hne : z ≠ y) : z ≠ x ∧ Ahead y x (cycle idx ys) := by
  obtain ⟨k, w, hw, htracks⟩ := RoundRobin.turn_some h
  obtain ⟨front, back, hxs, hlen, front', back', hys, hidx, hfront, hback⟩ := htracks (hpick k w hw)
  obtain rfl := Option.some.inj hidx
  have hwz : w = z := by
    rw [hys, List.getElem?_append_right (Nat.le_refl _), Nat.sub_self] at hz
    exact Option.some.inj hz
  subst hwz
  obtain ⟨before, after, hcycle, hx⟩ := hahead
  obtain ⟨hk, hget⟩ := List.getElem?_eq_some_iff.mp hw.visited
  have hkxs : k < xs.length := by
    rw [cycle, List.length_rotate] at hk
    exact hk
  -- `y` is ready, so the item found is in front of it
  have hlt : k < before.length := by
    by_contra hge
    rcases Nat.lt_or_eq_of_le (Nat.not_lt.mp hge) with hbehind | hat
    · have hy : y ∈ (cycle last xs).take k := by
        rw [hcycle, List.take_append, List.mem_append]
        right
        obtain ⟨j, hj⟩ := Nat.exists_eq_add_of_lt hbehind
        rw [hj, show before.length + j + 1 - before.length = j + 1 by omega, List.take_succ_cons]
        exact List.mem_cons_self
      rw [hw.earlier y hy] at hready
      cases hready
    · have hvisited := hw.visited
      rw [hcycle, ← hat, List.getElem?_append_right (Nat.le_refl _), Nat.sub_self] at hvisited
      exact hne (Option.some.inj hvisited).symm
  have hwx : w ∈ before := by
    have hvisited := hw.visited
    rw [hcycle, List.getElem?_append_left hlt] at hvisited
    exact List.mem_of_getElem? hvisited
  refine ⟨fun h => hx (h ▸ hwx), ?_⟩
  have hmoved : Ahead y x (cycle front.length xs) := by
    rw [cycle_turn hkxs hlen, hcycle, List.drop_append_of_le_length hlt, List.append_assoc, List.cons_append]
    exact ⟨before.drop (k + 1), _, rfl, fun hmem => hx (List.mem_of_mem_drop hmem)⟩
  have hyxs : y ∈ xs := mem_cycle.mp (hcycle ▸ List.mem_append_right _ List.mem_cons_self)
  have hleft : Cleaned ready stale done xs ys := by
    have hcleaned := turn_cleaned ready stale done last xs
    rwa [h] at hcleaned
  refine hmoved.sublist ?_ (nodup_cycle hnodup) (mem_cycle.mpr (hleft.mem hstale hyxs hdone))
  rw [hxs, hys, cycle_at, cycle_at]
  exact hback.append (hfront.append (.refl _))

/-- A turn that finds nothing keeps the order where it removes nothing up to the last position. -/
theorem Ahead.turn_none {x y : α} (hstale : ∀ x, stale x = true → done x = true) (hnodup : xs.Nodup)
    (hahead : Ahead y x (cycle last xs)) (hdone : done y = false) (hlast : last < xs.length)
    (h : turn ready stale done last xs = (none, ys)) (hfront : ∀ k ≤ last, ∀ z, xs[k]? = some z → stale z = false) :
    last < ys.length ∧ Ahead y x (cycle last ys) := by
  have hleft : Cleaned ready stale done xs ys := by
    have hcleaned := turn_cleaned ready stale done last xs
    rwa [h] at hcleaned
  have hy : y ∈ ys := by
    obtain ⟨before, after, hcycle, -⟩ := hahead
    exact hleft.mem hstale (mem_cycle.mp (hcycle ▸ List.mem_append_right _ List.mem_cons_self)) hdone
  have hkeeps : ∃ rest, ys = xs.take (last + 1) ++ rest ∧ rest.Sublist (xs.drop (last + 1)) := by
    cases hleft with
    | all => exact ⟨_, (List.take_append_drop _ _).symm, .refl _⟩
    | behind k hk =>
        obtain ⟨z, hz, hstalez, -⟩ := hk
        have hlt : last < k := by
          by_contra hge
          rw [hfront k (Nat.not_lt.mp hge) z hz] at hstalez
          cases hstalez
        obtain ⟨j, rfl⟩ := Nat.exists_eq_add_of_lt hlt
        refine ⟨(xs.drop (last + 1)).take j ++ ((xs.drop (last + 1)).drop (j + 1)).filter fun x => !done x, ?_,
          take_append_sublist (filter_drop_sublist _ _ j)⟩
        have htake : last + j + 1 = last + 1 + j := by omega
        have hdrop : last + 1 + j + 1 = last + 1 + (j + 1) := by omega
        rw [← List.append_assoc, ← List.take_add, List.drop_drop, htake, hdrop]
  obtain ⟨rest, rfl, hrest⟩ := hkeeps
  have hlen : (xs.take (last + 1)).length = last + 1 := List.length_take_of_le hlast
  have hcycle : cycle last xs = xs.drop (last + 1) ++ xs.take (last + 1) := List.rotate_eq_drop_append_take hlast
  have hcycle' : cycle last (xs.take (last + 1) ++ rest) = rest ++ xs.take (last + 1) := by
    have hrotate := List.rotate_append_length_eq (xs.take (last + 1)) rest
    rwa [hlen] at hrotate
  refine ⟨?_, hahead.sublist ?_ (nodup_cycle hnodup) (mem_cycle.mpr hy)⟩
  · rw [List.length_append, hlen]
    omega
  · rw [hcycle, hcycle']
    exact hrest.append (.refl _)

/-! ### Relabelled items -/

variable (ready stale done : β → Bool) (f : α → β)

theorem search_map (todo : List Nat) (m : Option Nat) :
    search ready stale (xs.map f) todo m = search (ready ∘ f) (stale ∘ f) xs todo m := by
  induction todo generalizing m with
  | nil => rfl
  | cons first rest ih =>
      rw [search, search, List.getElem?_map]
      cases xs[first]? with
      | none => exact ih m
      | some x =>
          simp only [Option.map_some, Function.comp_apply]
          split
          · rfl
          · split
            · exact ih _
            · exact ih _

theorem compact_map (target : Option Nat) (i nxt : Nat) (xs : List α) :
    compact done target i nxt (xs.map f) =
      ((compact (done ∘ f) target i nxt xs).1, (compact (done ∘ f) target i nxt xs).2.map f) := by
  induction xs generalizing target i nxt with
  | nil => rfl
  | cons x rest ih =>
      rw [List.map_cons, compact, compact]
      simp only [Function.comp_apply]
      split
      · exact ih _ _ _
      · simp only [ih, List.map_cons]

/-- A turn reads the items through the three predicates only. -/
theorem turn_map (last : Nat) (xs : List α) : turn ready stale done last (xs.map f) =
    ((turn (ready ∘ f) (stale ∘ f) (done ∘ f) last xs).1,
      (turn (ready ∘ f) (stale ∘ f) (done ∘ f) last xs).2.map f) := by
  rw [turn, turn, search_map, List.length_map]
  cases search (ready ∘ f) (stale ∘ f) xs (positions last xs.length) none with
  | mk found least =>
  cases least with
  | none => rfl
  | some k =>
      dsimp only
      rw [← List.map_drop, compact_map, List.map_append, List.map_take]

end RoundRobin
