import Lcmp.Lib.LabelledSearch
import Lcmp.Routing.Topology

/-!
# The search of the routes

`CalculateRoute` is a breadth-first search over the links that are up, in which hosts do not relay and
every path of fewest hops is listed with what it adds up to. What is recorded for one destination comes
from its own search only.
-/

namespace Lcmp

open BreadthFirst (Search LabelledSearch)

variable {n : Nat}

namespace Topology

/-- The neighbours over links that are up, in the order they are visited. -/
def upNeighbours (t : Topology n) (a : Fin n) : List (Fin n) := t.order.filter (t.linkUp a)

/-- `k` hops is the distance between a node and a host over paths whose inner nodes are switches. -/
def IsDist (t : Topology n) (host : Fin n) (k : Nat) (v : Fin n) : Prop :=
  BreadthFirst.IsDist t.upNeighbours t.isSwitch host k v

variable {t : Topology n}

theorem mem_upNeighbours {a b : Fin n} : b ∈ t.upNeighbours a ↔ t.linkUp a b = true := by
  simp only [upNeighbours]
  rw [List.mem_filter]
  exact and_iff_right (t.mem_order b)

theorem upNeighbours_nodup (t : Topology n) (a : Fin n) : (t.upNeighbours a).Nodup := t.order_nodup.filter _

theorem not_isSwitch {v : Fin n} (h : t.nodeType v = .host) : t.isSwitch v = false := by
  simp only [isSwitch]
  rw [h]
  rfl

end Topology

namespace RouteSearch

/-- What is left of the search without the paths. -/
def erase (s : RouteSearch n) : Search (Fin n) where
  queue := s.q
  dist := s.dis
  parents := s.nextHop

/-- There is a path to every node in the queue. -/
def Pathed (s : RouteSearch n) : Prop := ∀ v ∈ s.q, s.nodePaths v ≠ []

end RouteSearch

namespace Topology

variable (t : Topology n) (packetPayloadSize : UInt32)

theorem erase_visitPath (now : Fin n) (d : Nat) (next : Fin n) (iface : Interface) (s : RouteSearch n) (p : PathInfo n) :
    (t.visitPath packetPayloadSize now d next iface s p).erase =
      BreadthFirst.relax t.isSwitch now d s.erase next := by
  simp only [visitPath, BreadthFirst.relax]
  have hdist : s.erase.dist next = s.dis next := rfl
  rw [hdist]
  cases s.dis next with
  | none => rfl
  | some k =>
      dsimp only
      by_cases hk : d + 1 = k
      · rw [if_pos hk]
        by_cases hmem : now ∈ s.nextHop next
        · have hskip : ¬ (d + 1 = k ∧ now ∉ s.erase.parents next) := fun h => h.2 hmem
          rw [if_neg hskip]
          simp only [hmem, decide_true, if_true]
          rfl
        · have hadd : d + 1 = k ∧ now ∉ s.erase.parents next := ⟨hk, hmem⟩
          rw [if_pos hadd]
          simp only [hmem, decide_false, Bool.false_eq_true, if_false]
          rfl
      · have hskip : ¬ (d + 1 = k ∧ now ∉ s.erase.parents next) := fun h => hk h.1
        rw [if_neg hk, if_neg hskip]

theorem pathed_visitPath {now : Fin n} {d : Nat} {next : Fin n} {iface : Interface} {s : RouteSearch n} {p : PathInfo n}
    {v : Fin n} (hv : s.nodePaths v ≠ []) : (t.visitPath packetPayloadSize now d next iface s p).nodePaths v ≠ [] := by
  have hupdate : Function.update s.nodePaths next
      (s.nodePaths next ++ [extendPath packetPayloadSize iface next p]) v ≠ [] := by
    rw [Function.update_apply]
    split
    · simp
    · exact hv
  unfold visitPath
  dsimp only
  split
  · exact hupdate
  · split
    · exact hupdate
    · exact hv

theorem visitPath_pathed {now : Fin n} {d : Nat} {next : Fin n} {iface : Interface} {s : RouteSearch n} {p : PathInfo n}
    (hs : s.Pathed) : (t.visitPath packetPayloadSize now d next iface s p).Pathed := by
  intro v hv
  by_cases hold : v ∈ s.q
  · exact pathed_visitPath t packetPayloadSize (hs v hold)
  · -- only a node found now is new in the queue, and it has the path it was found by
    unfold visitPath at hv ⊢
    dsimp only at hv ⊢
    split at hv
    · split at hv
      · rcases List.mem_append.mp hv with hv | hv
        · exact absurd hv hold
        · obtain rfl := List.mem_singleton.mp hv
          dsimp only
          rw [Function.update_self]
          simp
      · exact absurd hv hold
    · split at hv
      · exact absurd hv hold
      · exact absurd hv hold

/-- All paths to a node together have the effect of one look at the neighbour. -/
theorem erase_visitPaths (now : Fin n) (d : Nat) (next : Fin n) (iface : Interface) (paths : List (PathInfo n))
    (hpaths : paths ≠ []) (s : RouteSearch n) :
    (paths.foldl (t.visitPath packetPayloadSize now d next iface) s).erase =
      BreadthFirst.relax t.isSwitch now d s.erase next := by
  have hrest : ∀ (paths : List (PathInfo n)) (s : RouteSearch n),
      BreadthFirst.relax t.isSwitch now d s.erase next = s.erase →
      (paths.foldl (t.visitPath packetPayloadSize now d next iface) s).erase = s.erase := by
    intro paths
    induction paths with
    | nil => exact fun _ _ => rfl
    | cons p paths ih =>
        intro s hs
        have hsame := (t.erase_visitPath packetPayloadSize now d next iface s p).trans hs
        rw [List.foldl_cons, ih _ (by rw [hsame]; exact hs), hsame]
  cases paths with
  | nil => exact absurd rfl hpaths
  | cons p paths =>
      have hfirst := t.erase_visitPath packetPayloadSize now d next iface s p
      rw [List.foldl_cons, hrest paths _ (by rw [hfirst, BreadthFirst.relax_relax]), hfirst]

theorem erase_visitNeighbour {now : Fin n} (d : Nat) {s : RouteSearch n} (hpaths : s.nodePaths now ≠ []) (next : Fin n) :
    (t.visitNeighbour packetPayloadSize now d s next).erase =
      if t.linkUp now next then BreadthFirst.relax t.isSwitch now d s.erase next else s.erase := by
  unfold visitNeighbour linkUp Lcmp.linkUp
  cases t.nbr2if now next with
  | none => rfl
  | some iface =>
      dsimp only [Option.any]
      split
      · exact t.erase_visitPaths packetPayloadSize now d next iface _ hpaths s
      · rfl

theorem visitNeighbour_pathed {now : Fin n} (d : Nat) {s : RouteSearch n} (hs : s.Pathed)
    (hpaths : s.nodePaths now ≠ []) (next : Fin n) :
    (t.visitNeighbour packetPayloadSize now d s next).Pathed ∧
      (t.visitNeighbour packetPayloadSize now d s next).nodePaths now ≠ [] := by
  have hfold : ∀ (iface : Interface) (paths : List (PathInfo n)) (s : RouteSearch n), s.Pathed → s.nodePaths now ≠ [] →
      (paths.foldl (t.visitPath packetPayloadSize now d next iface) s).Pathed ∧
        (paths.foldl (t.visitPath packetPayloadSize now d next iface) s).nodePaths now ≠ [] := by
    intro iface paths
    induction paths with
    | nil => exact fun s hs hpaths => ⟨hs, hpaths⟩
    | cons p paths ih =>
        exact fun s hs hpaths => ih _ (t.visitPath_pathed packetPayloadSize hs)
          (t.pathed_visitPath packetPayloadSize hpaths)
  simp only [visitNeighbour]
  split
  · exact ⟨hs, hpaths⟩
  · split
    · exact hfold _ _ s hs hpaths
    · exact ⟨hs, hpaths⟩

/-! ### The paths -/

/-- The path of the host to itself. -/
def firstPath (host : Fin n) : PathInfo n := ⟨0, 0, 0xffffffffffffffff, [host]⟩

/-- A path and the link from `a` to `b`. -/
def overLink (a b : Fin n) (p : PathInfo n) : PathInfo n :=
  match t.nbr2if a b with
  | none => p
  | some iface => extendPath packetPayloadSize iface b p

/-- A path of `k` hops from the host to a node, with what it adds up to. -/
def IsRoute (host : Fin n) : Nat → Fin n → PathInfo n → Prop :=
  BreadthFirst.Route t.upNeighbours t.isSwitch host (t.overLink packetPayloadSize) (firstPath host)

theorem nodePaths_visitPath (now : Fin n) (d : Nat) (next : Fin n) (iface : Interface) (s : RouteSearch n)
    (p : PathInfo n) :
    (t.visitPath packetPayloadSize now d next iface s p).nodePaths =
      if s.dis next = none ∨ s.dis next = some (d + 1) then
        Function.update s.nodePaths next (s.nodePaths next ++ [extendPath packetPayloadSize iface next p])
      else s.nodePaths := by
  simp only [visitPath]
  cases s.dis next with
  | none => exact (if_pos (Or.inl rfl)).symm
  | some k =>
      dsimp only
      by_cases hk : d + 1 = k
      · subst hk
        rw [if_pos rfl]
        exact (if_pos (Or.inr rfl)).symm
      · rw [if_neg hk, if_neg]
        rintro (h | h)
        · cases h
        · exact hk (Option.some.inj h).symm

/-- All paths to a node are listed with one hop more at a neighbour that is not nearer. -/
theorem nodePaths_visitPaths (now : Fin n) (d : Nat) (next : Fin n) (iface : Interface) (paths : List (PathInfo n))
    (s : RouteSearch n) :
    (paths.foldl (t.visitPath packetPayloadSize now d next iface) s).nodePaths =
      if s.dis next = none ∨ s.dis next = some (d + 1) then
        Function.update s.nodePaths next (s.nodePaths next ++ paths.map (extendPath packetPayloadSize iface next))
      else s.nodePaths := by
  induction paths generalizing s with
  | nil => simp
  | cons p paths ih =>
      have hsearch := congrArg Search.dist (t.erase_visitPath packetPayloadSize now d next iface s p)
      have hpaths := t.nodePaths_visitPath packetPayloadSize now d next iface s p
      rw [List.foldl_cons, ih]
      by_cases hnext : s.dis next = none ∨ s.dis next = some (d + 1)
      · rw [if_pos hnext] at hpaths ⊢
        have hfound : (t.visitPath packetPayloadSize now d next iface s p).dis next = some (d + 1) :=
          (congrFun hsearch next).trans (BreadthFirst.relax_dist_self (s := s.erase) hnext)
        rw [if_pos (.inr hfound), hpaths, Function.update_idem, Function.update_self, List.append_assoc, List.map_cons]
        rfl
      · rw [if_neg hnext] at hpaths ⊢
        have hsame : (t.visitPath packetPayloadSize now d next iface s p).dis next = s.dis next := by
          rw [BreadthFirst.relax_eq_self (s := s.erase) hnext] at hsearch
          exact congrFun hsearch next
        rw [hsame, if_neg hnext, hpaths]

end Topology

/-- The search and the paths it has listed. -/
def RouteSearch.labelled (s : RouteSearch n) : LabelledSearch (Fin n) (PathInfo n) where
  search := s.erase
  labels := s.nodePaths

namespace Topology

variable (t : Topology n) (packetPayloadSize : UInt32)

theorem labelled_visitNeighbour {now : Fin n} (d : Nat) {s : RouteSearch n} (hpaths : s.nodePaths now ≠ []) (next : Fin n) :
    (t.visitNeighbour packetPayloadSize now d s next).labelled =
      if t.linkUp now next then BreadthFirst.visit t.isSwitch (t.overLink packetPayloadSize) now d s.labelled next
      else s.labelled := by
  have herase := t.erase_visitNeighbour packetPayloadSize d hpaths next
  have hlabels : (t.visitNeighbour packetPayloadSize now d s next).nodePaths =
      if t.linkUp now next then (BreadthFirst.visit t.isSwitch (t.overLink packetPayloadSize) now d s.labelled next).labels
      else s.nodePaths := by
    unfold visitNeighbour linkUp Lcmp.linkUp
    cases hiface : t.nbr2if now next with
    | none => rfl
    | some iface =>
        dsimp only [Option.any]
        split
        · have hextend : t.overLink packetPayloadSize now next = extendPath packetPayloadSize iface next := by
            funext p
            unfold overLink
            rw [hiface]
          rw [t.nodePaths_visitPaths]
          unfold BreadthFirst.visit
          rw [hextend]
          rfl
        · rfl
  unfold RouteSearch.labelled
  rw [herase, hlabels]
  split
  · rfl
  · rfl

/-- One node of the queue. -/
theorem visitNode_labelled {now : Fin n} {s : RouteSearch n} (hs : s.Pathed) (hmem : now ∈ s.q) :
    (t.visitNode packetPayloadSize s now).labelled =
        BreadthFirst.visitAll t.upNeighbours t.isSwitch (t.overLink packetPayloadSize) s.labelled now ∧
      (t.visitNode packetPayloadSize s now).Pathed := by
  have hfold : ∀ (d : Nat) (nodes : List (Fin n)) (s : RouteSearch n), s.Pathed → s.nodePaths now ≠ [] →
      (nodes.foldl (t.visitNeighbour packetPayloadSize now d) s).labelled =
        (nodes.filter (t.linkUp now)).foldl (BreadthFirst.visit t.isSwitch (t.overLink packetPayloadSize) now d)
          s.labelled ∧
      (nodes.foldl (t.visitNeighbour packetPayloadSize now d) s).Pathed := by
    intro d nodes
    induction nodes with
    | nil => exact fun s hs _ => ⟨rfl, hs⟩
    | cons next nodes ih =>
        intro s hs hpaths
        obtain ⟨hs', hpaths'⟩ := t.visitNeighbour_pathed packetPayloadSize d hs hpaths next
        obtain ⟨hlabelled, hend⟩ := ih _ hs' hpaths'
        refine ⟨?_, hend⟩
        rw [List.foldl_cons, hlabelled, t.labelled_visitNeighbour packetPayloadSize d hpaths, List.filter_cons]
        split
        · rw [List.foldl_cons]
        · rfl
  exact hfold _ t.order s hs (hs now hmem)

/-- The whole loop. -/
theorem routeLoop_labelled (fuel i : Nat) {s : RouteSearch n} (hs : s.Pathed) :
    (t.routeLoop packetPayloadSize fuel i s).labelled =
      BreadthFirst.labelledSearch t.upNeighbours t.isSwitch (t.overLink packetPayloadSize) fuel i s.labelled := by
  induction fuel generalizing i s with
  | zero => rfl
  | succ fuel ih =>
      simp only [routeLoop, BreadthFirst.labelledSearch]
      have hqueue : s.labelled.search.queue = s.q := rfl
      rw [hqueue]
      cases hi : s.q[i]? with
      | none => rfl
      | some now =>
          obtain ⟨hlabelled, hs'⟩ := t.visitNode_labelled packetPayloadSize hs (List.mem_of_getElem? hi)
          dsimp only
          rw [ih (i + 1) hs', hlabelled]

/-- The plain search from a host. -/
def search (host : Fin n) : Search (Fin n) :=
  BreadthFirst.search t.upNeighbours t.isSwitch (Fintype.card (Fin n)) 0 (BreadthFirst.start host)

/-- With no next hops yet, the search is one with labels. -/
theorem searchRoutes_labelled {r : RouteTables n} {host : Fin n} (hempty : ∀ v, r.nextHop v host = []) :
    (t.searchRoutes packetPayloadSize r host).labelled =
      BreadthFirst.labelledSearch t.upNeighbours t.isSwitch (t.overLink packetPayloadSize) (Fintype.card (Fin n)) 0
        (BreadthFirst.labelledStart host (firstPath host)) := by
  have hnextHop : (fun v => r.nextHop v host) = fun _ => [] := funext hempty
  simp only [searchRoutes]
  rw [Fintype.card_fin, t.routeLoop_labelled, hnextHop]
  · rfl
  · intro v hv
    obtain rfl := List.mem_singleton.mp hv
    dsimp only
    rw [Function.update_self]
    exact List.cons_ne_nil _ _

theorem searchRoutes_nextHop {r : RouteTables n} {host : Fin n} (hempty : ∀ v, r.nextHop v host = []) :
    (t.searchRoutes packetPayloadSize r host).nextHop = (t.search host).parents := by
  have hsearch := congrArg LabelledSearch.search (t.searchRoutes_labelled packetPayloadSize hempty)
  rw [BreadthFirst.labelledSearch_search] at hsearch
  exact congrArg Search.parents hsearch

/-- The paths listed for a node are those of fewest hops. -/
theorem mem_nodePaths_iff {r : RouteTables n} {host : Fin n} (hempty : ∀ v, r.nextHop v host = []) {v : Fin n}
    {p : PathInfo n} : p ∈ (t.searchRoutes packetPayloadSize r host).nodePaths v ↔
      ∃ k, t.IsDist host k v ∧ t.IsRoute packetPayloadSize host k v p := by
  have hlabels := congrArg LabelledSearch.labels (t.searchRoutes_labelled packetPayloadSize hempty)
  change (t.searchRoutes packetPayloadSize r host).nodePaths = _ at hlabels
  rw [hlabels]
  exact BreadthFirst.labelledSearch_spec ..

/-! ### What is recorded for a destination -/

end Topology

namespace RouteTables

/-- All that the tables hold for one destination. -/
structure Column (n : Nat) where
  nextHop : Fin n → List (Fin n)
  pairDelay : Fin n → UInt64
  pairTxDelay : Fin n → UInt64
  pairBw : Fin n → UInt64

def column (r : RouteTables n) (dst : Fin n) : Column n where
  nextHop := fun node => r.nextHop node dst
  pairDelay := fun node => r.pairDelay node dst
  pairTxDelay := fun node => r.pairTxDelay node dst
  pairBw := fun node => r.pairBw node dst

end RouteTables

namespace Topology

variable (t : Topology n) (packetPayloadSize : UInt32)

theorem calculateRoute_column_of_ne (r : RouteTables n) {host dst : Fin n} (hne : dst ≠ host) :
    (t.calculateRoute packetPayloadSize r host).column dst = r.column dst := by
  simp only [RouteTables.column, calculateRoute]
  simp only [hne, false_and, if_false]

/-- The search for a host reads nothing but the column of the host. -/
theorem calculateRoute_column_congr {r r' : RouteTables n} {host : Fin n} (h : r.column host = r'.column host) :
    (t.calculateRoute packetPayloadSize r host).column host = (t.calculateRoute packetPayloadSize r' host).column host := by
  have hnextHop := congrArg RouteTables.Column.nextHop h
  have hdelay := congrArg RouteTables.Column.pairDelay h
  have htxDelay := congrArg RouteTables.Column.pairTxDelay h
  have hbw := congrArg RouteTables.Column.pairBw h
  simp only [RouteTables.column] at hnextHop hdelay htxDelay hbw
  have hsearch : t.searchRoutes packetPayloadSize r host = t.searchRoutes packetPayloadSize r' host := by
    simp only [searchRoutes]
    rw [hnextHop]
  simp only [RouteTables.column, calculateRoute]
  rw [hsearch]
  simp only [if_true, congrFun hdelay, congrFun htxDelay, congrFun hbw]

/-- Every host's column is computed once, from what it was before. -/
theorem calculateRoutes_column (r : RouteTables n) (dst : Fin n) :
    (t.calculateRoutes packetPayloadSize r).column dst =
      if t.nodeType dst = .host then (t.calculateRoute packetPayloadSize r dst).column dst else r.column dst := by
  have hother : ∀ (nodes : List (Fin n)) (r : RouteTables n), dst ∉ nodes →
      (nodes.foldl (fun r node => if t.nodeType node = .host then t.calculateRoute packetPayloadSize r node else r)
        r).column dst = r.column dst := by
    intro nodes
    induction nodes with
    | nil => exact fun _ _ => rfl
    | cons node nodes ih =>
        intro r hnot
        rw [List.mem_cons, not_or] at hnot
        rw [List.foldl_cons, ih _ hnot.2]
        split
        · exact t.calculateRoute_column_of_ne packetPayloadSize r hnot.1
        · rfl
  obtain ⟨front, back, hsplit⟩ := List.append_of_mem (List.mem_finRange dst)
  have hnodup := List.nodup_finRange n
  rw [hsplit, List.nodup_append] at hnodup
  obtain ⟨-, hback, hdisjoint⟩ := hnodup
  have hfront : dst ∉ front := fun h => hdisjoint dst h dst List.mem_cons_self rfl
  unfold calculateRoutes
  rw [hsplit, List.foldl_append, List.foldl_cons, hother back _ (List.nodup_cons.mp hback).1]
  split
  · exact t.calculateRoute_column_congr packetPayloadSize (hother front r hfront)
  · exact hother front r hfront

/-- From empty tables, the next hops are what the search from each host finds. -/
theorem calculateRoutes_nextHop {r : RouteTables n} (hempty : ∀ v host, r.nextHop v host = []) (v dst : Fin n) :
    (t.calculateRoutes packetPayloadSize r).nextHop v dst =
      if t.nodeType dst = .host then (t.search dst).parents v else [] := by
  have hcolumn := congrArg RouteTables.Column.nextHop (t.calculateRoutes_column packetPayloadSize r dst)
  have hv := congrFun hcolumn v
  change (t.calculateRoutes packetPayloadSize r).nextHop v dst = _ at hv
  rw [hv]
  split
  · rw [← t.searchRoutes_nextHop packetPayloadSize fun v => hempty v dst]
    exact if_pos rfl
  · exact hempty v dst

/-- What is recorded for two nodes with a path between them. -/
theorem calculateRoutes_pair {r : RouteTables n} {v dst : Fin n} (hhost : t.nodeType dst = .host)
    (hpaths : (t.searchRoutes packetPayloadSize r dst).nodePaths v ≠ []) :
    (t.calculateRoutes packetPayloadSize r).pairDelay v dst =
        minDelay ((t.searchRoutes packetPayloadSize r dst).nodePaths v) ∧
      (t.calculateRoutes packetPayloadSize r).pairTxDelay v dst =
        (bestPath ((t.searchRoutes packetPayloadSize r dst).nodePaths v)).2 ∧
      (t.calculateRoutes packetPayloadSize r).pairBw v dst =
        (bestPath ((t.searchRoutes packetPayloadSize r dst).nodePaths v)).1 := by
  have hcolumn := t.calculateRoutes_column packetPayloadSize r dst
  rw [if_pos hhost] at hcolumn
  refine ⟨?_, ?_, ?_⟩
  · exact (congrFun (congrArg RouteTables.Column.pairDelay hcolumn) v).trans (if_pos ⟨rfl, hpaths⟩)
  · exact (congrFun (congrArg RouteTables.Column.pairTxDelay hcolumn) v).trans (if_pos ⟨rfl, hpaths⟩)
  · exact (congrFun (congrArg RouteTables.Column.pairBw hcolumn) v).trans (if_pos ⟨rfl, hpaths⟩)

end Topology

end Lcmp
