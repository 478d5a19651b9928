import Lcmp.Lib.Words
import Lcmp.Routing.ShortestPath

/-!
# The candidates for a pair of hosts

The paths that the installed tables allow from one host to another are those the search has listed, and what
is recorded for the pair are delay, bandwidth and transmission delay of one of them: of those with the least
delay, one with the largest bandwidth.
-/

namespace Lcmp

variable {n : Nat}

/-! ### The best of the listed paths -/

/-- The least delay bounds all delays, and unless it is the one the loop starts with it is one of them. -/
theorem foldl_minDelay (paths : List (PathInfo n)) (least : UInt64) :
    ((paths.foldl (fun least p => min least p.delay) least).toNat ≤ least.toNat ∧
      ∀ p ∈ paths, (paths.foldl (fun least p => min least p.delay) least).toNat ≤ p.delay.toNat) ∧
    (paths.foldl (fun least p => min least p.delay) least = least ∨
      ∃ p ∈ paths, paths.foldl (fun least p => min least p.delay) least = p.delay) := by
  induction paths generalizing least with
  | nil => simp
  | cons p paths ih =>
      obtain ⟨⟨hstart, hall⟩, hattained⟩ := ih (min least p.delay)
      have hmin := Words.min64_toNat least p.delay
      simp only [List.foldl_cons, List.forall_mem_cons]
      refine ⟨⟨by omega, by omega, hall⟩, ?_⟩
      rcases hattained with hmax | ⟨p', hp', hval⟩
      · rw [hmax]
        rcases Nat.le_total least.toNat p.delay.toNat with hle | hle
        · exact .inl (UInt64.toNat_inj.mp (by omega))
        · exact .inr ⟨p, List.mem_cons_self, UInt64.toNat_inj.mp (by omega)⟩
      · exact .inr ⟨p', List.mem_cons_of_mem _ hp', hval⟩

theorem minDelay_spec {paths : List (PathInfo n)} (hne : paths ≠ []) :
    (∀ p ∈ paths, (minDelay paths).toNat ≤ p.delay.toNat) ∧ ∃ p ∈ paths, p.delay = minDelay paths := by
  obtain ⟨⟨hstart, hall⟩, hattained⟩ := foldl_minDelay paths 0xffffffffffffffff
  refine ⟨hall, ?_⟩
  rcases hattained with hfirst | ⟨p, hp, hval⟩
  · obtain ⟨p, hp⟩ := List.exists_mem_of_ne_nil _ hne
    refine ⟨p, hp, UInt64.toNat_inj.mp (Nat.le_antisymm ?_ (hall p hp))⟩
    unfold minDelay
    rw [hfirst]
    exact Nat.le_of_lt_succ p.delay.toNat_lt
  · exact ⟨p, hp, hval.symm⟩

/-- The loop that looks for the largest bandwidth at a given delay. -/
theorem foldl_bestPath (least : UInt64) (paths : List (PathInfo n)) (best : UInt64 × UInt64) :
    let r := paths.foldl (fun best p => if p.delay = least ∧ p.bw > best.1 then (p.bw, p.txDelay) else best) best
    (best.1 ≤ r.1 ∧ ∀ p ∈ paths, p.delay = least → p.bw ≤ r.1) ∧
      (r = best ∨ ∃ p ∈ paths, p.delay = least ∧ r = (p.bw, p.txDelay)) := by
  induction paths generalizing best with
  | nil => simp
  | cons p paths ih =>
      dsimp only at ih ⊢
      rw [List.foldl_cons, List.forall_mem_cons]
      split
      · rename_i hbetter
        obtain ⟨⟨hstart, hall⟩, hattained⟩ := ih (p.bw, p.txDelay)
        refine ⟨⟨UInt64.le_trans (UInt64.le_of_lt hbetter.2) hstart, fun _ => hstart, hall⟩, .inr ?_⟩
        rcases hattained with hsame | ⟨p', hp', hval⟩
        · exact ⟨p, List.mem_cons_self, hbetter.1, hsame⟩
        · exact ⟨p', List.mem_cons_of_mem _ hp', hval⟩
      · rename_i hnot
        obtain ⟨⟨hstart, hall⟩, hattained⟩ := ih best
        refine ⟨⟨hstart, fun hdelay => ?_, hall⟩, ?_⟩
        · exact UInt64.le_trans (UInt64.not_lt.mp fun hgt => hnot ⟨hdelay, hgt⟩) hstart
        · rcases hattained with hsame | ⟨p', hp', hval⟩
          · exact .inl hsame
          · exact .inr ⟨p', List.mem_cons_of_mem _ hp', hval⟩

/-- What is recorded is one path's: of the paths with the least delay, one with the largest bandwidth. -/
theorem exists_bestPath {paths : List (PathInfo n)} (hne : paths ≠ []) (hbw : ∀ p ∈ paths, p.bw ≠ 0) :
    ∃ best ∈ paths, minDelay paths = best.delay ∧ bestPath paths = (best.bw, best.txDelay) ∧
      (∀ p ∈ paths, best.delay.toNat ≤ p.delay.toNat) ∧ ∀ p ∈ paths, p.delay = best.delay → p.bw ≤ best.bw := by
  obtain ⟨hleast, p, hp, hdelay⟩ := minDelay_spec hne
  obtain ⟨⟨-, hall⟩, hattained⟩ := foldl_bestPath (minDelay paths) paths (0, 0)
  rcases hattained with hnone | ⟨best, hbest, hbestDelay, hval⟩
  · have hzero := hall p hp hdelay
    rw [hnone] at hzero
    exact absurd (UInt64.le_zero_iff.mp hzero) (hbw p hp)
  · rw [hval] at hall
    refine ⟨best, hbest, hbestDelay.symm, hval, fun p hp => ?_, fun p hp hsame => ?_⟩
    · rw [hbestDelay]
      exact hleast p hp
    · exact hall p hp (hsame.trans hbestDelay)

/-! ### What a path adds up to -/

namespace Topology

variable (t : Topology n) (packetPayloadSize : UInt32)

/-- Both ends of a link are set up from one line of the topology file, with one delay and one rate. -/
def Duplex : Prop :=
  ∀ a b i j, t.nbr2if a b = some i → t.nbr2if b a = some j → i.delay = j.delay ∧ i.bw = j.bw

/-- The links that a packet takes from `u` through the nodes of a path. -/
def hops (u : Fin n) (path : List (Fin n)) : List (Fin n × Fin n) := (u :: path).zip path

/-- A number of the device with which `a` sends to `b`. -/
def onLink (value : Interface → Nat) (a b : Fin n) : Nat := ((t.nbr2if a b).map value).getD 0

/-- The propagation delay of a path, in nanoseconds. -/
def pathDelay (u : Fin n) (path : List (Fin n)) : Nat :=
  ((hops u path).map fun hop => t.onLink (fun iface => iface.delay.toNat) hop.1 hop.2).sum

/-- The time it takes to put a packet on every link of a path. -/
def pathTxDelay (u : Fin n) (path : List (Fin n)) : Nat :=
  ((hops u path).map fun hop =>
    t.onLink (fun iface => packetPayloadSize.toNat * (8 * 10 ^ 9) / iface.bw.toNat) hop.1 hop.2).sum

/-- The bottleneck bandwidth of a path, with the value the search has for a path without links. -/
def pathBw (u : Fin n) (path : List (Fin n)) : Nat :=
  ((hops u path).map fun hop => t.onLink (fun iface => iface.bw.toNat) hop.1 hop.2).foldr min (2 ^ 64 - 1)

def pathRtt (u : Fin n) (path : List (Fin n)) : Nat := 2 * t.pathDelay u path + t.pathTxDelay packetPayloadSize u path

/-- The time that some number of bytes take over a path: a round trip, and all bytes at the bottleneck. -/
def pathFct (bytes : Nat) (u : Fin n) (path : List (Fin n)) : Nat :=
  t.pathRtt packetPayloadSize u path + bytes * (8 * 10 ^ 9) / t.pathBw u path

/-- The search has listed a path with its numbers, as far as they fit. The search starts at the host, so
it has the nodes in the opposite order. -/
structure Records (u : Fin n) (path : List (Fin n)) (p : PathInfo n) : Prop where
  nodes : p.path = (u :: path).reverse
  delay : p.delay.toNat = t.pathDelay u path % 2 ^ 64
  txDelay : p.txDelay.toNat = t.pathTxDelay packetPayloadSize u path % 2 ^ 64
  bw : p.bw.toNat = t.pathBw u path

variable {t packetPayloadSize}

theorem records_firstPath (host : Fin n) : t.Records packetPayloadSize host [] (firstPath host) :=
  ⟨rfl, rfl, rfl, rfl⟩

theorem exists_nbr2if_of_linkUp {a b : Fin n} (h : t.linkUp a b = true) : ∃ iface, t.nbr2if a b = some iface := by
  unfold linkUp Lcmp.linkUp at h
  cases hiface : t.nbr2if a b with
  | none =>
      rw [hiface] at h
      cases h
  | some iface => exact ⟨iface, rfl⟩

theorem linkUp_symm {a b : Fin n} (h : t.linkUp a b = true) : t.linkUp b a = true := by
  unfold linkUp at h ⊢
  rw [← t.symm a b]
  exact h

/-- One hop more, in the direction of the search from `a` to `b`. -/
theorem Records.overLink (hduplex : t.Duplex) (hproduct : packetPayloadSize.toNat * (8 * 10 ^ 9) < 2 ^ 64) {a b : Fin n}
    {path : List (Fin n)} {p : PathInfo n} (h : t.Records packetPayloadSize a path p) (hlink : t.linkUp a b = true) :
    t.Records packetPayloadSize b (a :: path) (t.overLink packetPayloadSize a b p) := by
  obtain ⟨iface, hiface⟩ := exists_nbr2if_of_linkUp hlink
  obtain ⟨back, hback⟩ := exists_nbr2if_of_linkUp (linkUp_symm hlink)
  obtain ⟨hdelay, hbw⟩ := hduplex a b iface back hiface hback
  have hextend : t.overLink packetPayloadSize a b p = extendPath packetPayloadSize iface b p := by
    unfold Topology.overLink
    rw [hiface]
  have hhops : hops b (a :: path) = (b, a) :: hops a path := rfl
  have honLink : ∀ value, t.onLink value b a = value back := by
    intro value
    unfold onLink
    rw [hback]
    rfl
  rw [hextend]
  refine ⟨?_, ?_, ?_, ?_⟩
  · simp only [extendPath]
    rw [h.nodes, List.reverse_cons, List.reverse_cons, List.reverse_cons]
  · unfold pathDelay
    rw [hhops, List.map_cons, List.sum_cons, honLink, ← hdelay]
    simp only [extendPath]
    rw [UInt64.toNat_add, h.delay, Nat.mod_add_mod, Nat.add_comm]
    rfl
  · unfold pathTxDelay
    rw [hhops, List.map_cons, List.sum_cons, honLink, ← hbw]
    have hword : (packetPayloadSize.toUInt64 * 1000000000 * 8 / iface.bw).toNat =
        packetPayloadSize.toNat * (8 * 10 ^ 9) / iface.bw.toNat := by
      have hthousand : (1000000000 : UInt64).toNat = 1000000000 := rfl
      have height : (8 : UInt64).toNat = 8 := rfl
      have hunit : 1000000000 * 8 = 8 * 10 ^ 9 := rfl
      rw [UInt64.toNat_div, UInt64.toNat_mul, UInt64.toNat_mul, UInt32.toNat_toUInt64, hthousand, height, Nat.mod_mul_mod,
        Nat.mul_assoc, hunit, Nat.mod_eq_of_lt hproduct]
    simp only [extendPath]
    rw [UInt64.toNat_add, h.txDelay, hword, Nat.mod_add_mod, Nat.add_comm]
    rfl
  · unfold pathBw
    rw [hhops, List.map_cons, List.foldr_cons, honLink, ← hbw]
    simp only [extendPath]
    rw [Words.min64_toNat, h.bw, Nat.min_comm]
    rfl

theorem IsRoute.bw_ne_zero {host v : Fin n} {k : Nat} {p : PathInfo n} (h : t.IsRoute packetPayloadSize host k v p) :
    p.bw ≠ 0 := by
  induction h with
  | source =>
      have hfirst : (0xffffffffffffffff : UInt64) ≠ 0 := by decide
      exact hfirst
  | @step k a b p _ _ hadj ih =>
      obtain ⟨iface, hiface⟩ := exists_nbr2if_of_linkUp (mem_upNeighbours.mp hadj)
      intro hzero
      unfold Topology.overLink at hzero
      rw [hiface] at hzero
      have hmin := congrArg UInt64.toNat hzero
      simp only [extendPath] at hmin
      rw [Words.min64_toNat] at hmin
      have hpath : p.bw.toNat ≠ 0 := fun h => ih (UInt64.toNat_inj.mp h)
      have hlink : iface.bw.toNat ≠ 0 := fun h => iface.hasRate (UInt64.toNat_inj.mp h)
      have hnone : (0 : UInt64).toNat = 0 := rfl
      omega

end Topology

/-! ### What the tables allow -/

namespace RouteDriver

/-- One of the ports of a node for an address leads to another. -/
def Forwards (d : RouteDriver n) (dip : UInt32) (u v : Fin n) : Prop :=
  ∃ port ∈ (d.rtTable u).ports dip, d.peer u port = some v

/-- The nodes that a packet for `dst` may come to from a node on, whatever the hashes. -/
inductive Permitted (d : RouteDriver n) (dst : Fin n) : Fin n → List (Fin n) → Prop where
  | arrived : Permitted d dst dst []
  | hop {u v : Fin n} {path : List (Fin n)} (hforward : d.Forwards (Topology.dstAddr dst) u v)
      (hrest : Permitted d dst v path) : Permitted d dst u (v :: path)

variable {packetPayloadSize : UInt32} {t : Topology n} {d : RouteDriver n}

theorem Installed.forwards_iff (h : Installed t d) (hdistinct : t.DistinctAddresses) {host : Fin n}
    (hhost : d.topo.nodeType host = .host) {u v : Fin n} :
    d.Forwards (Topology.dstAddr host) u v ↔ v ∈ d.routes.nextHop u host := by
  constructor
  · rintro ⟨port, hport, hpeer⟩
    obtain ⟨v', hv', rfl⟩ := h.exists_of_mem_ports hdistinct hhost hport
    rw [peer_ifIdx ((h.mem_nextHop_iff hhost u v').mp hv').1] at hpeer
    obtain rfl := Option.some.inj hpeer
    exact hv'
  · intro hv
    refine ⟨d.topo.ifIdx u v, (h.mem_ports_iff u _ _).mpr ⟨host, rfl, v, hv, rfl⟩, ?_⟩
    exact peer_ifIdx ((h.mem_nextHop_iff hhost u v).mp hv).1

section Candidates

variable (h : Installed t d) (hdistinct : t.DistinctAddresses) {host : Fin n} (hhost : d.topo.nodeType host = .host)
  (hduplex : d.topo.Duplex) (hproduct : packetPayloadSize.toNat * (8 * 10 ^ 9) < 2 ^ 64)
include h hdistinct hhost hduplex hproduct

/-- Every path the tables allow is listed. -/
theorem Permitted.exists_route {u : Fin n} {path : List (Fin n)} (hpermitted : d.Permitted host u path) :
    ∃ k p, d.topo.IsDist host k u ∧ d.topo.IsRoute packetPayloadSize host k u p ∧
      d.topo.Records packetPayloadSize u path p := by
  induction hpermitted with
  | arrived => exact ⟨0, _, BreadthFirst.isDist_source, .source, Topology.records_firstPath host⟩
  | @hop u v path hforward _ ih =>
      obtain ⟨k, p, hdist, hroute, hrecords⟩ := ih
      have hnext := (h.forwards_iff hdistinct hhost).mp hforward
      obtain ⟨hlink, hrelay, j, hj, hsucc⟩ := (h.mem_nextHop_iff hhost u v).mp hnext
      obtain rfl := hj.unique hdist
      have hback := Topology.linkUp_symm hlink
      refine ⟨j + 1, _, hsucc, .step hroute ?_ (Topology.mem_upNeighbours.mpr hback),
        hrecords.overLink hduplex hproduct hback⟩
      rcases hrelay with rfl | hrelay
      · exact .inl (hdist.unique BreadthFirst.isDist_source)
      · exact .inr hrelay

/-- Every path that is listed is one the tables allow. -/
theorem exists_permitted {k : Nat} {u : Fin n} {p : PathInfo n} (hdist : d.topo.IsDist host k u)
    (hroute : d.topo.IsRoute packetPayloadSize host k u p) :
    ∃ path, d.Permitted host u path ∧ d.topo.Records packetPayloadSize u path p := by
  induction hroute with
  | source => exact ⟨[], .arrived, Topology.records_firstPath host⟩
  | @step k a b p hroute hrelay hadj ih =>
      have ha := hdist.of_succ hroute.path hrelay hadj
      obtain ⟨path, hpermitted, hrecords⟩ := ih ha
      have hlink := Topology.mem_upNeighbours.mp hadj
      refine ⟨a :: path, .hop ?_ hpermitted, hrecords.overLink hduplex hproduct hlink⟩
      apply (h.forwards_iff hdistinct hhost).mpr
      refine (h.mem_nextHop_iff hhost b a).mpr ⟨Topology.linkUp_symm hlink, ?_, k, ha, hdist⟩
      rcases hrelay with rfl | hrelay
      · exact .inl hroute.path.eq_source
      · exact .inr hrelay

variable {r : RouteTables n} (hempty : ∀ v host, r.nextHop v host = [])
include hempty

theorem Permitted.exists_listed {u : Fin n} {path : List (Fin n)} (hpath : d.Permitted host u path) :
    ∃ p ∈ (d.topo.searchRoutes packetPayloadSize r host).nodePaths u, d.topo.Records packetPayloadSize u path p := by
  obtain ⟨k, p, hdist, hroute, hrecords⟩ := hpath.exists_route h hdistinct hhost hduplex hproduct
  have hlisted := (d.topo.mem_nodePaths_iff packetPayloadSize fun v => hempty v host).mpr ⟨k, hdist, hroute⟩
  exact ⟨p, hlisted, hrecords⟩

theorem exists_permitted_of_listed {u : Fin n} {p : PathInfo n}
    (hp : p ∈ (d.topo.searchRoutes packetPayloadSize r host).nodePaths u) :
    p.bw ≠ 0 ∧ ∃ path, d.Permitted host u path ∧ d.topo.Records packetPayloadSize u path p := by
  obtain ⟨k, hdist, hroute⟩ := (d.topo.mem_nodePaths_iff packetPayloadSize fun v => hempty v host).mp hp
  exact ⟨hroute.bw_ne_zero, exists_permitted h hdistinct hhost hduplex hproduct hdist hroute⟩

/-- What is recorded for a pair is the path with the least delay of all that the tables allow, and of several
with the least delay, one with the largest bandwidth. -/
theorem exists_reference (hroutes : d.routes = d.topo.calculateRoutes packetPayloadSize r) {u : Fin n}
    (hfits : ∀ path, d.Permitted host u path →
      d.topo.pathDelay u path < 2 ^ 64 ∧ d.topo.pathTxDelay packetPayloadSize u path < 2 ^ 64)
    (hsome : ∃ path, d.Permitted host u path) :
    ∃ ref, d.Permitted host u ref ∧
      (d.routes.pairDelay u host).toNat = d.topo.pathDelay u ref ∧
      (d.routes.pairTxDelay u host).toNat = d.topo.pathTxDelay packetPayloadSize u ref ∧
      (d.routes.pairBw u host).toNat = d.topo.pathBw u ref ∧ d.routes.pairBw u host ≠ 0 ∧
      ∀ path, d.Permitted host u path → d.topo.pathDelay u ref ≤ d.topo.pathDelay u path ∧
        (d.topo.pathDelay u path = d.topo.pathDelay u ref → d.topo.pathBw u path ≤ d.topo.pathBw u ref) := by
  obtain ⟨path, hpath⟩ := hsome
  obtain ⟨p, hp, -⟩ := hpath.exists_listed h hdistinct hhost hduplex hproduct hempty
  have hne := List.ne_nil_of_mem hp
  obtain ⟨best, hbest, hdelay, hpair, hleast, hwidest⟩ := exists_bestPath hne fun p hp =>
    (exists_permitted_of_listed h hdistinct hhost hduplex hproduct hempty hp).1
  obtain ⟨hrate, ref, href, hrecords⟩ := exists_permitted_of_listed h hdistinct hhost hduplex hproduct hempty hbest
  obtain ⟨hpairDelay, hpairTxDelay, hpairBw⟩ := d.topo.calculateRoutes_pair packetPayloadSize hhost hne
  rw [← hroutes] at hpairDelay hpairTxDelay hpairBw
  rw [hdelay] at hpairDelay
  rw [hpair] at hpairTxDelay hpairBw
  have hexact : ∀ {path p}, d.Permitted host u path → d.topo.Records packetPayloadSize u path p →
      p.delay.toNat = d.topo.pathDelay u path := by
    intro path p hpath hp
    rw [hp.delay, Nat.mod_eq_of_lt (hfits path hpath).1]
  refine ⟨ref, href, ?_, ?_, ?_, ?_, fun path hpath => ?_⟩
  · rw [hpairDelay, hexact href hrecords]
  · rw [hpairTxDelay, hrecords.txDelay, Nat.mod_eq_of_lt (hfits ref href).2]
  · rw [hpairBw, hrecords.bw]
  · rw [hpairBw]
    exact hrate
  · obtain ⟨p, hp, hrecords'⟩ := hpath.exists_listed h hdistinct hhost hduplex hproduct hempty
    rw [← hexact hpath hrecords', ← hexact href hrecords, ← hrecords.bw, ← hrecords'.bw]
    refine ⟨hleast p hp, fun hsame => ?_⟩
    exact UInt64.le_iff_toNat_le.mp (hwidest p hp (UInt64.toNat_inj.mp hsame))

end Candidates

theorem Permitted.cases_hop {d : RouteDriver n} {dst u : Fin n} {path : List (Fin n)} (h : d.Permitted dst u path)
    (hne : u ≠ dst) : ∃ v rest, path = v :: rest ∧ d.Forwards (Topology.dstAddr dst) u v ∧ d.Permitted dst v rest := by
  cases h with
  | arrived => exact absurd rfl hne
  | @hop _ v rest hforward hrest => exact ⟨v, rest, rfl, hforward, hrest⟩

end RouteDriver

/-! ### A topology from its links -/

/-- A line of the topology file. -/
structure TopologyLink where
  delay : UInt64
  bw : UInt64
  hasRate : bw ≠ 0

/-- A device at the end of a link, with the number of the neighbour for its index. -/
def TopologyLink.interface (link : TopologyLink) (neighbour : Fin n) : Interface where
  idx := UInt32.ofNat neighbour.val
  up := true
  delay := link.delay
  bw := link.bw
  hasRate := link.hasRate

/-- Each link is set up with a device at either end. -/
def Topology.ofLinks (hn : n < 2 ^ 32) (nodeType : Fin n → NodeType) (link : Fin n → Fin n → Option TopologyLink)
    (hsymm : ∀ a b, link a b = link b a) : Topology n where
  nodeType := nodeType
  nbr2if := fun a b => (link a b).map fun l => l.interface b
  order := List.finRange n
  order_nodup := List.nodup_finRange n
  mem_order := List.mem_finRange
  symm := by
    intro a b
    unfold Lcmp.linkUp
    dsimp only
    rw [hsymm a b, Option.any_map, Option.any_map]
    rfl
  device := by
    intro a b c i j hi hj hidx
    obtain ⟨l, -, rfl⟩ := Option.map_eq_some_iff.mp hi
    obtain ⟨l', -, rfl⟩ := Option.map_eq_some_iff.mp hj
    exact ofNat_val_inj hn hidx

theorem Topology.duplex_ofLinks (hn : n < 2 ^ 32) (nodeType : Fin n → NodeType) (link : Fin n → Fin n → Option TopologyLink)
    (hsymm : ∀ a b, link a b = link b a) : (ofLinks hn nodeType link hsymm).Duplex := by
  intro a b i j hi hj
  obtain ⟨l, hl, rfl⟩ := Option.map_eq_some_iff.mp hi
  obtain ⟨l', hl', rfl⟩ := Option.map_eq_some_iff.mp hj
  rw [hsymm] at hl
  obtain rfl := Option.some.inj (hl.symm.trans hl')
  exact ⟨rfl, rfl⟩

end Lcmp
