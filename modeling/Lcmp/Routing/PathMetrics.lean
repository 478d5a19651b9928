import Lcmp.Routing.Candidates

/-!
# The metrics of a search

What `CalculateRoute` records for a node: of the paths of fewest hops through switches, the least delay, the
largest bandwidth at that delay, and the transmission delays of a path that has both. The sums have 64 bits.
-/

namespace Lcmp

variable {n : Nat}

namespace Topology

variable (t : Topology n) (packetPayloadSize : UInt32)

/-! ### Paths through switches -/

/-- The nodes after `host` on a way to another node over links that are up; the nodes between are switches. -/
inductive SwitchPath (host : Fin n) : Fin n → List (Fin n) → Prop where
  | start : SwitchPath host host []
  | hop {a b : Fin n} {path : List (Fin n)} (hpath : SwitchPath host a path)
      (hrelay : path = [] ∨ t.isSwitch a = true) (hlink : t.linkUp a b = true) : SwitchPath host b (path ++ [b])

/-- No path through switches has fewer hops. -/
structure MinHop (host u : Fin n) (path : List (Fin n)) : Prop where
  switched : t.SwitchPath host u path
  least : ∀ other, t.SwitchPath host u other → path.length ≤ other.length

/-- The transmission delay that is counted for a link. -/
def linkTxDelay (iface : Interface) : Nat := packetPayloadSize.toNat * (8 * 10 ^ 9) % 2 ^ 64 / iface.bw.toNat

/-- The transmission delays that are counted for a path. -/
def countedTxDelay (u : Fin n) (path : List (Fin n)) : Nat :=
  ((hops u path).map fun hop => t.onLink (linkTxDelay packetPayloadSize) hop.1 hop.2).sum

variable {t packetPayloadSize}

theorem SwitchPath.last {host u : Fin n} {path : List (Fin n)} (h : t.SwitchPath host u path) :
    ∃ front, host :: path = front ++ [u] := by
  cases h with
  | start => exact ⟨[], rfl⟩
  | @hop a _ path _ _ _ => exact ⟨host :: path, rfl⟩

/-- One hop more at the far end of a path. -/
theorem SwitchPath.hops_append {host a : Fin n} {path : List (Fin n)} (h : t.SwitchPath host a path) (b : Fin n) :
    hops host (path ++ [b]) = hops host path ++ [(a, b)] := by
  obtain ⟨front, hfront⟩ := h.last
  have hlength : front.length = path.length := by
    have hboth := congrArg List.length hfront
    rw [List.length_cons, List.length_append, List.length_singleton] at hboth
    exact (Nat.succ.inj hboth).symm
  have hold : hops host path = front.zip path := by
    have hpad : (front ++ [a]).zip (path ++ []) = front.zip path ++ [a].zip [] := List.zip_append hlength
    rw [List.append_nil, List.zip_nil_right, List.append_nil] at hpad
    unfold hops
    rw [hfront, hpad]
  have hnew : hops host (path ++ [b]) = (front ++ [a, b]).zip (path ++ [b]) := by
    unfold hops
    rw [← List.cons_append, hfront, List.append_assoc]
    rfl
  rw [hnew, hold, List.zip_append hlength]
  rfl

/-- A link more at the far end, for the bottleneck. -/
theorem foldr_min_start (l : List Nat) (a b : Nat) : l.foldr min (min a b) = min (l.foldr min b) a := by
  induction l with
  | nil => exact Nat.min_comm a b
  | cons x l ih =>
      rw [List.foldr_cons, List.foldr_cons, ih, Nat.min_assoc]

theorem onLink_eq {a b : Fin n} {iface : Interface} (h : t.nbr2if a b = some iface) (value : Interface → Nat) :
    t.onLink value a b = value iface := by
  unfold onLink
  rw [h]
  rfl

variable (t packetPayloadSize) in
/-- A path that was listed, and its numbers. -/
structure Lists (host : Fin n) (path : List (Fin n)) (p : PathInfo n) : Prop where
  nodes : p.path = host :: path
  delay : p.delay.toNat = t.pathDelay host path % 2 ^ 64
  txDelay : p.txDelay.toNat = t.countedTxDelay packetPayloadSize host path % 2 ^ 64
  bw : p.bw.toNat = t.pathBw host path

theorem lists_firstPath (host : Fin n) : t.Lists packetPayloadSize host [] (firstPath host) := ⟨rfl, rfl, rfl, rfl⟩

theorem linkTxDelay_toNat (iface : Interface) :
    (packetPayloadSize.toUInt64 * 1000000000 * 8 / iface.bw).toNat = linkTxDelay packetPayloadSize iface := by
  have hthousand : (1000000000 : UInt64).toNat = 1000000000 := rfl
  have height : (8 : UInt64).toNat = 8 := rfl
  have hunit : 1000000000 * 8 = 8 * 10 ^ 9 := rfl
  rw [UInt64.toNat_div, UInt64.toNat_mul, UInt64.toNat_mul, UInt32.toNat_toUInt64, hthousand, height, Nat.mod_mul_mod,
    Nat.mul_assoc, hunit]
  rfl

/-- One hop more. -/
theorem Lists.overLink {host a b : Fin n} {path : List (Fin n)} {p : PathInfo n} (h : t.Lists packetPayloadSize host path p)
    (hpath : t.SwitchPath host a path) (hlink : t.linkUp a b = true) :
    t.Lists packetPayloadSize host (path ++ [b]) (t.overLink packetPayloadSize a b p) := by
  obtain ⟨iface, hiface⟩ := exists_nbr2if_of_linkUp hlink
  have hextend : t.overLink packetPayloadSize a b p = extendPath packetPayloadSize iface b p := by
    unfold Topology.overLink
    rw [hiface]
  rw [hextend]
  refine ⟨?_, ?_, ?_, ?_⟩
  · simp only [extendPath]
    rw [h.nodes, List.cons_append]
  · unfold pathDelay
    rw [hpath.hops_append, List.map_append, List.sum_append, List.map_singleton, List.sum_singleton, onLink_eq hiface]
    simp only [extendPath]
    rw [UInt64.toNat_add, h.delay, Nat.mod_add_mod]
    rfl
  · unfold countedTxDelay
    rw [hpath.hops_append, List.map_append, List.sum_append, List.map_singleton, List.sum_singleton, onLink_eq hiface]
    simp only [extendPath]
    rw [UInt64.toNat_add, h.txDelay, linkTxDelay_toNat, Nat.mod_add_mod]
    rfl
  · unfold pathBw
    rw [hpath.hops_append, List.map_append, List.map_singleton, onLink_eq hiface]
    simp only [extendPath]
    rw [Words.min64_toNat, h.bw, List.foldr_append, List.foldr_cons, List.foldr_nil, foldr_min_start]
    rfl

/-! ### What the search lists -/

/-- Two searches have come equally far, whatever next hops they record. -/
def SamePaths (s s' : RouteSearch n) : Prop := s.q = s'.q ∧ s.dis = s'.dis ∧ s.nodePaths = s'.nodePaths

theorem SamePaths.visitPath {s s' : RouteSearch n} (h : SamePaths s s') (now : Fin n) (d : Nat) (next : Fin n)
    (iface : Interface) (p : PathInfo n) :
    SamePaths (t.visitPath packetPayloadSize now d next iface s p) (t.visitPath packetPayloadSize now d next iface s' p) := by
  obtain ⟨q, dis, nodePaths, nextHop⟩ := s
  obtain ⟨q', dis', nodePaths', nextHop'⟩ := s'
  obtain ⟨rfl, rfl, rfl⟩ : q = q' ∧ dis = dis' ∧ nodePaths = nodePaths' := h
  simp only [Topology.visitPath]
  cases dis next with
  | none => exact ⟨rfl, rfl, rfl⟩
  | some k =>
      dsimp only
      split
      · exact ⟨rfl, rfl, rfl⟩
      · exact ⟨rfl, rfl, rfl⟩

theorem SamePaths.visitNode {s s' : RouteSearch n} (h : SamePaths s s') (now : Fin n) :
    SamePaths (t.visitNode packetPayloadSize s now) (t.visitNode packetPayloadSize s' now) := by
  unfold Topology.visitNode
  rw [h.2.1]
  refine List.foldl_rel (r := SamePaths) h fun next _ c c' hc => ?_
  unfold visitNeighbour
  cases t.nbr2if now next with
  | none => exact hc
  | some iface =>
      dsimp only
      split
      · rw [hc.2.2]
        exact List.foldl_rel (r := SamePaths) hc fun p _ _ _ hp => hp.visitPath now _ next iface p
      · exact hc

theorem SamePaths.routeLoop {s s' : RouteSearch n} (h : SamePaths s s') (fuel i : Nat) :
    SamePaths (t.routeLoop packetPayloadSize fuel i s) (t.routeLoop packetPayloadSize fuel i s') := by
  induction fuel generalizing i s s' with
  | zero => exact h
  | succ fuel ih =>
      simp only [Topology.routeLoop]
      rw [← h.1]
      cases s.q[i]? with
      | none => exact h
      | some now => exact ih (h.visitNode now) (i + 1)

variable (t packetPayloadSize) in
theorem searchRoutes_nodePaths (r : RouteTables n) (host : Fin n) :
    (t.searchRoutes packetPayloadSize r host).nodePaths = (t.searchRoutes packetPayloadSize .empty host).nodePaths := by
  unfold searchRoutes
  apply And.right (And.right (SamePaths.routeLoop _ n 0))
  exact ⟨rfl, rfl, rfl⟩

/-- A route of the search is a path through switches. -/
theorem IsRoute.exists_lists {host u : Fin n} {k : Nat} {p : PathInfo n} (h : t.IsRoute packetPayloadSize host k u p) :
    ∃ path, path.length = k ∧ t.SwitchPath host u path ∧ t.Lists packetPayloadSize host path p := by
  induction h with
  | source => exact ⟨[], rfl, .start, lists_firstPath host⟩
  | @step k a b p _ hrelay hadj ih =>
      obtain ⟨path, hlength, hpath, hlists⟩ := ih
      have hlink := mem_upNeighbours.mp hadj
      refine ⟨path ++ [b], ?_, .hop hpath ?_ hlink, hlists.overLink hpath hlink⟩
      · rw [List.length_append, hlength, List.length_singleton]
      · rcases hrelay with rfl | hrelay
        · exact .inl (List.length_eq_zero_iff.mp hlength)
        · exact .inr hrelay

variable (packetPayloadSize) in
/-- Every path through switches is a route of the search. -/
theorem SwitchPath.exists_route {host u : Fin n} {path : List (Fin n)} (h : t.SwitchPath host u path) :
    ∃ p, t.IsRoute packetPayloadSize host path.length u p ∧ t.Lists packetPayloadSize host path p := by
  induction h with
  | start => exact ⟨_, .source, lists_firstPath host⟩
  | @hop a b path hpath hrelay hlink ih =>
      obtain ⟨p, hroute, hlists⟩ := ih
      refine ⟨_, ?_, hlists.overLink hpath hlink⟩
      rw [List.length_append, List.length_singleton]
      refine .step hroute ?_ (mem_upNeighbours.mpr hlink)
      rcases hrelay with rfl | hrelay
      · exact .inl rfl
      · exact .inr hrelay

theorem SwitchPath.path {host u : Fin n} {path : List (Fin n)} (h : t.SwitchPath host u path) :
    BreadthFirst.Path t.upNeighbours t.isSwitch host path.length u := by
  obtain ⟨p, hroute, -⟩ := h.exists_route 0
  exact hroute.path

theorem SwitchPath.exists_minHop {host u : Fin n} {path : List (Fin n)} (h : t.SwitchPath host u path) :
    ∃ best, t.MinHop host u best := by
  classical
  have hsome : ∃ k path, t.SwitchPath host u path ∧ path.length = k := ⟨path.length, path, h, rfl⟩
  obtain ⟨best, hbest, hlength⟩ := Nat.find_spec hsome
  refine ⟨best, hbest, fun other hother => ?_⟩
  rw [hlength]
  exact Nat.find_min' hsome ⟨other, hother, rfl⟩

/-- What is listed for a node are paths of fewest hops, -/
theorem exists_minHop_of_listed {r : RouteTables n} {host u : Fin n} {p : PathInfo n}
    (hp : p ∈ (t.searchRoutes packetPayloadSize r host).nodePaths u) :
    p.bw ≠ 0 ∧ ∃ path, t.MinHop host u path ∧ t.Lists packetPayloadSize host path p := by
  rw [searchRoutes_nodePaths] at hp
  obtain ⟨k, hdist, hroute⟩ := (t.mem_nodePaths_iff packetPayloadSize fun _ => rfl).mp hp
  obtain ⟨path, rfl, hpath, hlists⟩ := hroute.exists_lists
  exact ⟨hroute.bw_ne_zero, path, ⟨hpath, fun other hother => hdist.shortest _ hother.path⟩, hlists⟩

variable (packetPayloadSize) in
/-- and all of them are. -/
theorem MinHop.exists_listed {host u : Fin n} {path : List (Fin n)} (h : t.MinHop host u path) (r : RouteTables n) :
    ∃ p ∈ (t.searchRoutes packetPayloadSize r host).nodePaths u, t.Lists packetPayloadSize host path p := by
  obtain ⟨p, hroute, hlists⟩ := h.switched.exists_route packetPayloadSize
  refine ⟨p, ?_, hlists⟩
  rw [searchRoutes_nodePaths]
  refine (t.mem_nodePaths_iff packetPayloadSize fun _ => rfl).mpr ⟨path.length, ⟨h.switched.path, fun j hj => ?_⟩, hroute⟩
  obtain ⟨q, hq⟩ := hj.exists_route (t.overLink packetPayloadSize) (firstPath host)
  obtain ⟨other, rfl, hother, -⟩ := IsRoute.exists_lists hq
  exact h.least other hother

variable (t packetPayloadSize) in
/-- What the call for a host records for a node that the search comes to. -/
theorem calculateRoute_pair (r : RouteTables n) {host u : Fin n}
    (hpaths : (t.searchRoutes packetPayloadSize r host).nodePaths u ≠ []) :
    (t.calculateRoute packetPayloadSize r host).pairDelay u host =
        minDelay ((t.searchRoutes packetPayloadSize r host).nodePaths u) ∧
      (t.calculateRoute packetPayloadSize r host).pairTxDelay u host =
        (bestPath ((t.searchRoutes packetPayloadSize r host).nodePaths u)).2 ∧
      (t.calculateRoute packetPayloadSize r host).pairBw u host =
        (bestPath ((t.searchRoutes packetPayloadSize r host).nodePaths u)).1 :=
  ⟨if_pos ⟨rfl, hpaths⟩, if_pos ⟨rfl, hpaths⟩, if_pos ⟨rfl, hpaths⟩⟩

variable (t packetPayloadSize) in
/-- For a node that can be reached through switches, one path of fewest hops has all that is recorded: no other
has less delay, nor the same delay and more bandwidth. -/
theorem calculateRoute_metrics (r : RouteTables n) {host u : Fin n} (hreach : ∃ path, t.SwitchPath host u path) :
    ∃ best, t.MinHop host u best ∧
      ((t.calculateRoute packetPayloadSize r host).pairDelay u host).toNat = t.pathDelay host best % 2 ^ 64 ∧
      ((t.calculateRoute packetPayloadSize r host).pairTxDelay u host).toNat =
        t.countedTxDelay packetPayloadSize host best % 2 ^ 64 ∧
      ((t.calculateRoute packetPayloadSize r host).pairBw u host).toNat = t.pathBw host best ∧
      ∀ path, t.MinHop host u path → t.pathDelay host best % 2 ^ 64 ≤ t.pathDelay host path % 2 ^ 64 ∧
        (t.pathDelay host path % 2 ^ 64 = t.pathDelay host best % 2 ^ 64 → t.pathBw host path ≤ t.pathBw host best) := by
  obtain ⟨path, hpath⟩ := hreach
  obtain ⟨shortest, hshortest⟩ := hpath.exists_minHop
  obtain ⟨p, hp, -⟩ := hshortest.exists_listed packetPayloadSize r
  have hne := List.ne_nil_of_mem hp
  obtain ⟨best, hbest, hdelay, hpair, hleast, hwidest⟩ :=
    exists_bestPath hne fun p hp => (exists_minHop_of_listed hp).1
  obtain ⟨-, ref, href, hlists⟩ := exists_minHop_of_listed hbest
  obtain ⟨hpairDelay, hpairTxDelay, hpairBw⟩ := t.calculateRoute_pair packetPayloadSize r hne
  refine ⟨ref, href, ?_, ?_, ?_, fun path hpath => ?_⟩
  · rw [hpairDelay, hdelay, hlists.delay]
  · rw [hpairTxDelay, hpair, hlists.txDelay]
  · rw [hpairBw, hpair, hlists.bw]
  · obtain ⟨p, hp, hlists'⟩ := hpath.exists_listed packetPayloadSize r
    rw [← hlists.delay, ← hlists'.delay, ← hlists.bw, ← hlists'.bw]
    refine ⟨hleast p hp, fun hsame => ?_⟩
    exact UInt64.le_iff_toNat_le.mp (hwidest p hp (UInt64.toNat_inj.mp hsame))

/-! ### Three links with the longest delay a file can give -/

theorem rate_ne_zero : (100000000000 : UInt64) ≠ 0 := by decide

theorem four_nodes : 4 < 2 ^ 32 := by decide

def slowLineLink (a b : Fin 4) : Option TopologyLink :=
  if a.val + 1 = b.val ∨ b.val + 1 = a.val then some ⟨9223372036854774784, 100000000000, rate_ne_zero⟩ else none

def slowLine : Topology 4 :=
  .ofLinks four_nodes (fun v => if v.val = 0 ∨ v.val = 3 then .host else .switch) slowLineLink (by
    intro a b
    exact if_congr or_comm rfl rfl)

theorem slowLine_path : slowLine.SwitchPath 0 3 [1, 2, 3] := by
  have hfirst : slowLine.SwitchPath 0 1 ([] ++ [1]) := .hop .start (.inl rfl) (by decide)
  have hsecond : slowLine.SwitchPath 0 2 ([1] ++ [2]) := .hop hfirst (.inr (by decide)) (by decide)
  have hthird : slowLine.SwitchPath 0 3 ([1, 2] ++ [3]) := .hop hsecond (.inr (by decide)) (by decide)
  exact hthird

theorem calculateRoute_metrics_slowLine : ∃ best, slowLine.MinHop 0 3 best ∧
      ((slowLine.calculateRoute 1000 .empty 0).pairDelay 3 0).toNat = slowLine.pathDelay 0 best % 2 ^ 64 ∧
      ((slowLine.calculateRoute 1000 .empty 0).pairTxDelay 3 0).toNat = slowLine.countedTxDelay 1000 0 best % 2 ^ 64 ∧
      ((slowLine.calculateRoute 1000 .empty 0).pairBw 3 0).toNat = slowLine.pathBw 0 best ∧
      ∀ path, slowLine.MinHop 0 3 path → slowLine.pathDelay 0 best % 2 ^ 64 ≤ slowLine.pathDelay 0 path % 2 ^ 64 ∧
        (slowLine.pathDelay 0 path % 2 ^ 64 = slowLine.pathDelay 0 best % 2 ^ 64 →
          slowLine.pathBw 0 path ≤ slowLine.pathBw 0 best) :=
  calculateRoute_metrics slowLine 1000 .empty ⟨_, slowLine_path⟩

/-- Every link of the line has the same delay, and leads one node further at most. -/
theorem slowLine_delay {u : Fin 4} {path : List (Fin 4)} (h : slowLine.SwitchPath 0 u path) :
    u.val ≤ path.length ∧ slowLine.pathDelay 0 path = path.length * (2 ^ 63 - 2 ^ 10) := by
  have hlinks : ∀ a b : Fin 4, slowLine.linkUp a b = true →
      b.val ≤ a.val + 1 ∧ slowLine.onLink (fun iface => iface.delay.toNat) a b = 2 ^ 63 - 2 ^ 10 := by decide
  induction h with
  | start => exact ⟨Nat.le_refl 0, rfl⟩
  | @hop a b path hpath _ hlink ih =>
      obtain ⟨hnear, hdelay⟩ := ih
      obtain ⟨hnext, hlink⟩ := hlinks a b hlink
      unfold pathDelay at hdelay ⊢
      rw [hpath.hops_append, List.map_append, List.sum_append, List.map_singleton, List.sum_singleton, List.length_append,
        List.length_singleton, Nat.add_mul, Nat.one_mul, hdelay, hlink]
      exact ⟨by omega, rfl⟩

/-- The delays add up to more than 64 bits hold. -/
theorem slowLine_pairDelay : slowLine.SwitchPath 0 3 [1, 2, 3] ∧ ∀ path, slowLine.MinHop 0 3 path →
    ((slowLine.calculateRoute 1000 .empty 0).pairDelay 3 0).toNat ≠ slowLine.pathDelay 0 path := by
  refine ⟨slowLine_path, fun path hpath hsame => ?_⟩
  obtain ⟨hlength, hdelay⟩ := slowLine_delay hpath.switched
  have hword := ((slowLine.calculateRoute 1000 .empty 0).pairDelay 3 0).toNat_lt
  have hthree : (3 : Fin 4).val = 3 := rfl
  rw [hthree] at hlength
  omega

end Topology

end Lcmp
