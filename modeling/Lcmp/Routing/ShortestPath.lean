import Lcmp.Routing.RouteSearch
import Mathlib.Algebra.Order.BigOperators.Group.List
import Mathlib.Algebra.Order.Ring.Nat
import Mathlib.Algebra.Group.Action.Defs

/-!
# Routes are shortest paths

The next hops of a node are the neighbours one hop nearer to the host, and every choice among them takes a
packet there.
-/

namespace Lcmp

variable {n : Nat}

/-- No two hosts have the same address. -/
def Topology.DistinctAddresses (t : Topology n) : Prop :=
  ∀ a b, t.nodeType a = .host → t.nodeType b = .host → dstAddr a = dstAddr b → a = b

/-- Up to `2 ^ 24` nodes have distinct addresses. -/
theorem Topology.distinctAddresses_of_le (t : Topology n) (h : n ≤ 2 ^ 24) : t.DistinctAddresses := by
  intro a b _ _ haddr
  have ha := a.isLt
  have hb := b.isLt
  simp only [dstAddr, nodeIdToIp] at haddr
  have hnat := congrArg UInt32.toNat haddr
  simp only [UInt32.toNat_add, UInt32.toNat_mul, UInt32.toNat_div, UInt32.toNat_mod, UInt32.toNat_ofNat',
    UInt32.reduceToNat] at hnat
  apply Fin.ext
  omega

/-! ### The tables -/

namespace RtTable

theorem ports_addTableEntry (table : RtTable) (dip intfIdx dip' : UInt32) :
    (table.addTableEntry dip intfIdx).ports dip' =
      if dip' = dip then table.ports dip ++ [intfIdx] else table.ports dip' := by
  simp only [addTableEntry]
  split
  · rename_i h
    subst h
    conv_lhs => unfold ports
    rw [AList.lookup_insert]
    rfl
  · rename_i h
    conv_lhs => unfold ports
    rw [AList.lookup_insert_ne h]
    rfl

/-- The ports of an address are those of the entries with that address. -/
theorem ports_foldl (entries : List (UInt32 × UInt32)) (table : RtTable) (dip : UInt32) :
    (entries.foldl (fun table e => table.addTableEntry e.1 e.2) table).ports dip =
      table.ports dip ++ (entries.filter fun e => e.1 = dip).map Prod.snd := by
  induction entries generalizing table with
  | nil => simp
  | cons e entries ih =>
      rw [List.foldl_cons, ih, ports_addTableEntry, List.filter_cons]
      by_cases h : e.1 = dip
      · rw [if_pos h.symm, if_pos (decide_eq_true h), List.map_cons, h, List.append_assoc, List.singleton_append]
      · rw [if_neg (Ne.symm h), if_neg (by simpa using h)]

@[simp] theorem ports_empty (dip : UInt32) : ports ∅ dip = [] := by
  simp only [ports]
  rw [AList.lookup_empty]

theorem getOutDev_isSome {table : RtTable} {dip : UInt32} (h : table.ports dip ≠ []) (hash : UInt32) :
    ∃ port ∈ table.ports dip, table.getOutDev dip hash = some port := by
  simp only [ports] at h ⊢
  simp only [getOutDev]
  split at h
  · exact absurd rfl h
  · rename_i hops hlookup
    rw [hlookup]
    exact ⟨pick hops.ports hops.nonempty hash, pick_mem _ _, rfl⟩

/-- Every port of an address is taken for some hash. -/
theorem exists_hash {table : RtTable} {dip port : UInt32} (hport : port ∈ table.ports dip)
    (hlength : (table.ports dip).length ≤ 2 ^ 32) : ∃ hash, table.getOutDev dip hash = some port := by
  simp only [ports] at hport hlength
  simp only [getOutDev]
  split at hport
  · cases hport
  · rename_i hops hlookup
    rw [hlookup] at hlength ⊢
    dsimp only at hlength
    obtain ⟨i, hi, hget⟩ := List.getElem_of_mem hport
    refine ⟨UInt32.ofNat i, ?_⟩
    have hword : (UInt32.ofNat i).toNat = i := UInt32.toNat_ofNat_of_lt' (Nat.lt_of_lt_of_le hi hlength)
    have hindex : (UInt32.ofNat i).toNat % hops.ports.length = i := by
      rw [hword, Nat.mod_eq_of_lt hi]
    show some (pick hops.ports hops.nonempty (UInt32.ofNat i)) = some port
    unfold pick
    rw [← hget, List.get_eq_getElem]
    simp only [hindex]

theorem getOutDev_eq_none {table : RtTable} {dip : UInt32} (h : table.ports dip = []) (hash : UInt32) :
    table.getOutDev dip hash = none := by
  unfold ports at h
  unfold getOutDev
  split at h
  · rename_i hlookup
    rw [hlookup]
    rfl
  · rename_i hops _
    exact absurd h hops.nonempty

end RtTable

namespace RouteDriver

variable (packetPayloadSize : UInt32) {t : Topology n} {d : RouteDriver n}

/-- Routes and tables belong to the topology as it is. -/
structure Installed (t : Topology n) (d : RouteDriver n) : Prop where
  nodeType : d.topo.nodeType = t.nodeType
  nextHop : ∀ v dst, d.routes.nextHop v dst =
    if d.topo.nodeType dst = .host then (d.topo.search dst).parents v else []
  rtTable : d.rtTable = d.topo.setRoutingEntries d.routes.nextHop fun _ => ∅

theorem installed_start (t : Topology n) : Installed t (start packetPayloadSize t) where
  nodeType := rfl
  nextHop := t.calculateRoutes_nextHop packetPayloadSize fun _ _ => rfl
  rtTable := rfl

/-- Taking a link down and doing the routing again. -/
theorem Installed.takeDownLink (h : Installed t d) (a b : Fin n) :
    Installed t (d.takeDownLink packetPayloadSize a b) := by
  simp only [RouteDriver.takeDownLink]
  split
  · exact ⟨h.nodeType, (d.topo.withoutLink a b).calculateRoutes_nextHop packetPayloadSize fun _ _ => rfl, rfl⟩
  · exact h

theorem installed_of_reachable (hreach : (driverSystem packetPayloadSize t).Reachable d) : Installed t d := by
  apply hreach.invariant (installed_start packetPayloadSize t)
  intro s link s' hs hnext
  obtain rfl := Option.some.inj hnext
  exact hs.takeDownLink packetPayloadSize link.1 link.2

variable {packetPayloadSize}

/-- The next hops of a node towards a host. -/
theorem Installed.mem_nextHop_iff (h : Installed t d) {host : Fin n} (hhost : d.topo.nodeType host = .host) (u v : Fin n) :
    v ∈ d.routes.nextHop u host ↔ d.topo.linkUp u v = true ∧ (v = host ∨ d.topo.isSwitch v = true) ∧
      ∃ k, d.topo.IsDist host k v ∧ d.topo.IsDist host (k + 1) u := by
  obtain ⟨-, hparents⟩ := BreadthFirst.search_spec d.topo.upNeighbours d.topo.isSwitch host
  have hlink : u ∈ d.topo.upNeighbours v ↔ d.topo.linkUp u v = true := by
    rw [Topology.mem_upNeighbours]
    show Lcmp.linkUp _ v u = true ↔ Lcmp.linkUp _ u v = true
    rw [d.topo.symm]
  rw [h.nextHop, if_pos hhost, ← hlink]
  exact (hparents u).2 v

theorem Installed.nextHop_nodup (h : Installed t d) (u dst : Fin n) : (d.routes.nextHop u dst).Nodup := by
  rw [h.nextHop]
  split
  · exact ((BreadthFirst.search_spec d.topo.upNeighbours d.topo.isSwitch dst).2 u).1
  · exact List.nodup_nil

/-- The ports of a node for an address. -/
theorem Installed.mem_ports_iff (h : Installed t d) (u : Fin n) (dip port : UInt32) :
    port ∈ (d.rtTable u).ports dip ↔
      ∃ dst, Topology.dstAddr dst = dip ∧ ∃ v ∈ d.routes.nextHop u dst, d.topo.ifIdx u v = port := by
  rw [h.rtTable]
  simp only [Topology.setRoutingEntries]
  rw [RtTable.ports_foldl, RtTable.ports_empty, List.nil_append, List.mem_map]
  simp only [Topology.routingEntries]
  constructor
  · rintro ⟨e, he, rfl⟩
    obtain ⟨hmem, haddr⟩ := List.mem_filter.mp he
    obtain ⟨dst, -, hdst⟩ := List.mem_flatMap.mp hmem
    obtain ⟨v, hv, rfl⟩ := List.mem_map.mp hdst
    exact ⟨dst, of_decide_eq_true haddr, v, hv, rfl⟩
  · rintro ⟨dst, haddr, v, hv, rfl⟩
    refine ⟨(Topology.dstAddr dst, d.topo.ifIdx u v), List.mem_filter.mpr ⟨?_, decide_eq_true haddr⟩, rfl⟩
    exact List.mem_flatMap.mpr ⟨dst, d.topo.mem_order dst, List.mem_map_of_mem hv⟩

/-- The port towards a neighbour over a link that is up leads there. -/
theorem peer_ifIdx {u v : Fin n} (hup : d.topo.linkUp u v = true) : d.peer u (d.topo.ifIdx u v) = some v := by
  obtain ⟨iface, hiface, hifaceUp⟩ : ∃ iface, d.topo.nbr2if u v = some iface ∧ iface.up = true := by
    unfold Topology.linkUp Lcmp.linkUp at hup
    cases hiface : d.topo.nbr2if u v with
    | none =>
        rw [hiface] at hup
        cases hup
    | some iface =>
        rw [hiface] at hup
        exact ⟨iface, rfl, hup⟩
  have hidx : d.topo.ifIdx u v = iface.idx := by
    simp only [Topology.ifIdx]
    rw [hiface]
    rfl
  unfold peer
  rw [hidx]
  cases hfind : d.topo.order.find? fun w => (d.topo.nbr2if u w).any fun i => i.up && i.idx == iface.idx with
  | none =>
      have hnone := List.find?_eq_none.mp hfind v (d.topo.mem_order v)
      rw [hiface] at hnone
      simp [hifaceUp] at hnone
  | some w =>
      have hw := List.find?_some hfind
      cases hother : d.topo.nbr2if u w with
      | none =>
          rw [hother] at hw
          cases hw
      | some iface' =>
          rw [hother] at hw
          have hsame : iface'.up = true ∧ iface'.idx = iface.idx := by simpa using hw
          rw [d.topo.device u w v iface' iface hother hiface hsame.2]

/-- With distinct addresses, the ports for a host lead to its next hops. -/
theorem Installed.exists_of_mem_ports (h : Installed t d) (hdistinct : t.DistinctAddresses) {host : Fin n}
    (hhost : d.topo.nodeType host = .host) {u : Fin n} {port : UInt32}
    (hport : port ∈ (d.rtTable u).ports (Topology.dstAddr host)) :
    ∃ v ∈ d.routes.nextHop u host, d.topo.ifIdx u v = port := by
  obtain ⟨dst, haddr, v, hv, hidx⟩ := (h.mem_ports_iff u _ port).mp hport
  have hdst : d.topo.nodeType dst = .host := by
    by_contra hother
    rw [h.nextHop, if_neg hother] at hv
    cases hv
  obtain rfl := hdistinct dst host (h.nodeType ▸ hdst) (h.nodeType ▸ hhost) haddr
  exact ⟨v, hv, hidx⟩

/-- The ports for a host lead to its next hops. -/
theorem Installed.peer_of_mem_ports (h : Installed t d) (hdistinct : t.DistinctAddresses) {host : Fin n}
    (hhost : d.topo.nodeType host = .host) {u : Fin n} {port : UInt32}
    (hport : port ∈ (d.rtTable u).ports (Topology.dstAddr host)) :
    ∃ v ∈ d.routes.nextHop u host, d.peer u port = some v := by
  obtain ⟨v, hv, rfl⟩ := h.exists_of_mem_ports hdistinct hhost hport
  exact ⟨v, hv, peer_ifIdx ((h.mem_nextHop_iff hhost u v).mp hv).1⟩

/-- A node without a next hop has no port for the host. -/
theorem Installed.ports_eq_nil (h : Installed t d) (hdistinct : t.DistinctAddresses) {host : Fin n}
    (hhost : d.topo.nodeType host = .host) {u : Fin n} (hnone : d.routes.nextHop u host = []) :
    (d.rtTable u).ports (Topology.dstAddr host) = [] := by
  apply List.eq_nil_iff_forall_not_mem.mpr
  intro port hport
  obtain ⟨w, hw, -⟩ := h.exists_of_mem_ports hdistinct hhost hport
  rw [hnone] at hw
  cases hw

theorem Installed.ports_ne_nil (h : Installed t d) {host u : Fin n} (hhops : d.routes.nextHop u host ≠ []) :
    (d.rtTable u).ports (Topology.dstAddr host) ≠ [] := by
  obtain ⟨v, hv⟩ := List.exists_mem_of_ne_nil _ hhops
  exact List.ne_nil_of_mem ((h.mem_ports_iff u _ _).mpr ⟨host, rfl, v, hv, rfl⟩)

/-- Then a node sends a packet for a host to one of its next hops towards it, whatever the hash. -/
theorem Installed.nextNode_mem (h : Installed t d) (hdistinct : t.DistinctAddresses) {host : Fin n}
    (hhost : d.topo.nodeType host = .host) {u : Fin n} (hne : d.routes.nextHop u host ≠ []) (hash : UInt32) :
    ∃ v ∈ d.routes.nextHop u host, d.nextNode (Topology.dstAddr host) hash u = some v := by
  obtain ⟨port, hport, hout⟩ := RtTable.getOutDev_isSome (h.ports_ne_nil hne) hash
  obtain ⟨v, hv, rfl⟩ := h.exists_of_mem_ports hdistinct hhost hport
  refine ⟨v, hv, ?_⟩
  simp only [nextNode]
  rw [hout]
  exact peer_ifIdx ((h.mem_nextHop_iff hhost u v).mp hv).1

theorem Installed.mem_nextHop_of_nextNode (h : Installed t d) (hdistinct : t.DistinctAddresses) {host : Fin n}
    (hhost : d.topo.nodeType host = .host) {u v : Fin n} {hash : UInt32}
    (hnext : d.nextNode (Topology.dstAddr host) hash u = some v) : v ∈ d.routes.nextHop u host := by
  have hne : d.routes.nextHop u host ≠ [] := by
    intro hnone
    unfold nextNode at hnext
    rw [RtTable.getOutDev_eq_none (h.ports_eq_nil hdistinct hhost hnone)] at hnext
    cases hnext
  obtain ⟨w, hw, hsome⟩ := h.nextNode_mem hdistinct hhost hne hash
  rw [hnext] at hsome
  exact Option.some.inj hsome ▸ hw

/-- Nothing leads on from the host itself. -/
theorem Installed.nextNode_host (h : Installed t d) (hdistinct : t.DistinctAddresses) {host : Fin n}
    (hhost : d.topo.nodeType host = .host) (hash : UInt32) : d.nextNode (Topology.dstAddr host) hash host = none := by
  have hnone : (d.rtTable host).ports (Topology.dstAddr host) = [] := by
    apply List.eq_nil_iff_forall_not_mem.mpr
    intro port hport
    obtain ⟨v, hv, -⟩ := h.exists_of_mem_ports hdistinct hhost hport
    obtain ⟨-, -, k, -, hk⟩ := (h.mem_nextHop_iff hhost host v).mp hv
    cases hk.unique BreadthFirst.isDist_source
  simp only [nextNode]
  rw [RtTable.getOutDev_eq_none hnone]
  rfl

theorem Installed.journey_host (h : Installed t d) (hdistinct : t.DistinctAddresses) {host : Fin n}
    (hhost : d.topo.nodeType host = .host) (hash : Fin n → UInt32) (fuel : Nat) :
    d.journey (Topology.dstAddr host) hash fuel host = [] := by
  cases fuel with
  | zero => rfl
  | succ fuel =>
      unfold journey
      rw [h.nextNode_host hdistinct hhost]

/-- The first hop of a packet: it gets one hop nearer. -/
theorem Installed.journey_succ (h : Installed t d) (hdistinct : t.DistinctAddresses) {host : Fin n}
    (hhost : d.topo.nodeType host = .host) (hash : Fin n → UInt32) {k : Nat} {u : Fin n}
    (hdist : d.topo.IsDist host (k + 1) u) (fuel : Nat) :
    ∃ v, d.topo.IsDist host k v ∧ d.journey (Topology.dstAddr host) hash (fuel + 1) u =
      v :: d.journey (Topology.dstAddr host) hash fuel v := by
  obtain ⟨a, hadj, hrelay, ha⟩ := hdist.pred
  have hlink : d.topo.linkUp u a = true := by
    have hback := Topology.mem_upNeighbours.mp hadj
    simp only [Topology.linkUp] at hback ⊢
    rw [d.topo.symm]
    exact hback
  have hne := List.ne_nil_of_mem ((h.mem_nextHop_iff hhost u a).mpr ⟨hlink, hrelay, k, ha, hdist⟩)
  obtain ⟨v, hv, hnext⟩ := h.nextNode_mem hdistinct hhost hne (hash u)
  obtain ⟨-, hswitch, j, hj, hj'⟩ := (h.mem_nextHop_iff hhost u v).mp hv
  obtain rfl := Nat.succ.inj (hj'.unique hdist)
  refine ⟨v, hj, ?_⟩
  conv_lhs => unfold journey
  rw [hnext]
  dsimp only
  split
  · rfl
  · rename_i hnot
    obtain rfl := hswitch.resolve_right hnot
    rw [h.journey_host hdistinct hhost]

/-- The way of a packet, by induction on the distance that is left. -/
theorem Installed.journey_spec (h : Installed t d) (hdistinct : t.DistinctAddresses) {host : Fin n}
    (hhost : d.topo.nodeType host = .host) (hash : Fin n → UInt32) {k : Nat} {u : Fin n} (hdist : d.topo.IsDist host k u)
    {fuel : Nat} (hfuel : k ≤ fuel) :
    (u :: d.journey (Topology.dstAddr host) hash fuel u).Nodup ∧
      (d.journey (Topology.dstAddr host) hash fuel u).length = k ∧
      (u :: d.journey (Topology.dstAddr host) hash fuel u).getLast? = some host ∧
      ∀ v ∈ d.journey (Topology.dstAddr host) hash fuel u, ∃ j < k, d.topo.IsDist host j v := by
  induction k generalizing u fuel with
  | zero =>
      obtain rfl := hdist.path.eq_source
      rw [h.journey_host hdistinct hhost]
      exact ⟨List.nodup_singleton u, rfl, rfl, by simp⟩
  | succ k ih =>
      obtain ⟨fuel, rfl⟩ : ∃ f, fuel = f + 1 := ⟨fuel - 1, by omega⟩
      obtain ⟨v, hv, hjourney⟩ := h.journey_succ hdistinct hhost hash hdist fuel
      obtain ⟨hnodup, hlength, hlast, hnearer⟩ := ih hv (Nat.le_of_succ_le_succ hfuel)
      rw [hjourney]
      have hbelow : ∀ w ∈ v :: d.journey (Topology.dstAddr host) hash fuel v, ∃ j < k + 1, d.topo.IsDist host j w := by
        intro w hw
        rcases List.mem_cons.mp hw with rfl | hw
        · exact ⟨k, Nat.lt_succ_self k, hv⟩
        · obtain ⟨j, hj, hw⟩ := hnearer w hw
          exact ⟨j, Nat.lt_succ_of_lt hj, hw⟩
      refine ⟨List.nodup_cons.mpr ⟨fun hmem => ?_, hnodup⟩, by rw [List.length_cons, hlength], ?_, hbelow⟩
      · obtain ⟨j, hj, hsame⟩ := hbelow u hmem
        exact absurd (hsame.unique hdist) (Nat.ne_of_lt hj)
      · rw [List.getLast?_cons_cons]
        exact hlast

/-! ### Shared addresses -/

/-- A node has no more ports for an address than nodes times neighbours. -/
theorem Installed.ports_length_le (h : Installed t d) (u : Fin n) (dip : UInt32) :
    ((d.rtTable u).ports dip).length ≤ n * (d.topo.upNeighbours u).length := by
  have hhops : ∀ dst, (d.routes.nextHop u dst).length ≤ (d.topo.upNeighbours u).length := by
    intro dst
    apply List.Subperm.length_le
    apply List.subperm_of_subset (h.nextHop_nodup u dst)
    intro v hv
    have hhost : d.topo.nodeType dst = .host := by
      by_contra hother
      rw [h.nextHop, if_neg hother] at hv
      cases hv
    exact Topology.mem_upNeighbours.mpr ((h.mem_nextHop_iff hhost u v).mp hv).1
  rw [h.rtTable]
  simp only [Topology.setRoutingEntries]
  rw [RtTable.ports_foldl, RtTable.ports_empty, List.nil_append, List.length_map]
  calc _ ≤ (d.topo.routingEntries d.routes.nextHop u).length := List.length_filter_le _ _
    _ = (d.topo.order.map fun dst => (d.routes.nextHop u dst).length).sum := by
        simp only [Topology.routingEntries]
        rw [List.length_flatMap]
        simp only [List.length_map]
    _ ≤ d.topo.order.length * (d.topo.upNeighbours u).length := by
        have hsum := List.sum_le_card_nsmul (d.topo.order.map fun dst => (d.routes.nextHop u dst).length)
          (d.topo.upNeighbours u).length (by
            intro x hx
            obtain ⟨dst, -, rfl⟩ := List.mem_map.mp hx
            exact hhops dst)
        rwa [List.length_map, smul_eq_mul] at hsum
    _ ≤ n * (d.topo.upNeighbours u).length := by
        apply Nat.mul_le_mul_right
        have hcard := d.topo.order_nodup.length_le_card
        rwa [Fintype.card_fin] at hcard

/-- Of two hosts with one address, a neighbour of the one may send it what is for the other. -/
theorem exists_journey_other (packetPayloadSize : UInt32) (t : Topology n) {u a b : Fin n} (hhost : t.nodeType b = .host)
    (haddr : Topology.dstAddr b = Topology.dstAddr a) (hlink : t.linkUp u b = true) (hdist : t.IsDist b 1 u)
    (hfew : n * (t.upNeighbours u).length ≤ 2 ^ 32) :
    ∃ hash, (start packetPayloadSize t).journey (Topology.dstAddr a) hash 1 u = [b] := by
  have hinstalled := installed_start packetPayloadSize t
  have hnext : b ∈ (start packetPayloadSize t).routes.nextHop u b :=
    (hinstalled.mem_nextHop_iff hhost u b).mpr ⟨hlink, .inl rfl, 0, BreadthFirst.isDist_source, hdist⟩
  have hport : t.ifIdx u b ∈ ((start packetPayloadSize t).rtTable u).ports (Topology.dstAddr a) :=
    (hinstalled.mem_ports_iff u _ _).mpr ⟨b, haddr, b, hnext, rfl⟩
  obtain ⟨hash, hout⟩ := RtTable.exists_hash hport ((hinstalled.ports_length_le u _).trans hfew)
  have hpeer : (start packetPayloadSize t).peer u (t.ifIdx u b) = some b := peer_ifIdx hlink
  have hend : (start packetPayloadSize t).topo.isSwitch b = false := Topology.not_isSwitch hhost
  refine ⟨fun _ => hash, ?_⟩
  simp only [journey, nextNode]
  rw [hout, Option.bind_some, hpeer]
  dsimp only
  rw [hend]
  rfl

/-! ### Every topology -/

/-- Route computation yields exactly the shortest paths through switches. Whatever the topology and
whichever links have been taken down: the next hops of a node towards a host are, each once, the
neighbours over a link that is up that are the host or a switch and one hop nearer to it; and if no two
hosts have the same address, a packet for a host gets there in as many hops as it is away, whatever hash
each node uses, and visits no node twice. -/
theorem routes_are_shortest (hreach : (driverSystem packetPayloadSize t).Reachable d) {host : Fin n}
    (hhost : d.topo.nodeType host = .host) (u : Fin n) :
    (d.routes.nextHop u host).Nodup ∧
    (∀ v, v ∈ d.routes.nextHop u host ↔ d.topo.linkUp u v = true ∧ (v = host ∨ d.topo.isSwitch v = true) ∧
      ∃ k, d.topo.IsDist host k v ∧ d.topo.IsDist host (k + 1) u) ∧
    (t.DistinctAddresses → ∀ k, d.topo.IsDist host k u → ∀ (hash : Fin n → UInt32) (fuel : Nat), k ≤ fuel →
      (u :: d.journey (Topology.dstAddr host) hash fuel u).Nodup ∧
        (d.journey (Topology.dstAddr host) hash fuel u).length = k ∧
        (u :: d.journey (Topology.dstAddr host) hash fuel u).getLast? = some host) := by
  have hinstalled := installed_of_reachable packetPayloadSize hreach
  refine ⟨hinstalled.nextHop_nodup u host, hinstalled.mem_nextHop_iff hhost u,
    fun hdistinct k hdist hash fuel hfuel => ?_⟩
  obtain ⟨hnodup, hlength, hlast, -⟩ := hinstalled.journey_spec hdistinct hhost hash hdist hfuel
  exact ⟨hnodup, hlength, hlast⟩

end RouteDriver

/-! ### Sample topologies -/

theorem sampleBw_ne_zero : (100000000000 : UInt64) ≠ 0 := by decide

/-- A link of 100 Gb/s that is up. -/
def Interface.sample (idx : UInt32) : Interface where
  idx := idx
  up := true
  delay := 1000
  bw := 100000000000
  hasRate := sampleBw_ne_zero

/-- The ids of nodes are different words. -/
theorem ofNat_val_inj (hn : n < 2 ^ 32) {b c : Fin n} (h : UInt32.ofNat b.val = UInt32.ofNat c.val) : b = c := by
  have hb := b.isLt
  have hc := c.isLt
  have hnat := congrArg UInt32.toNat h
  simp only [UInt32.toNat_ofNat'] at hnat
  apply Fin.ext
  omega

/-- A topology in which every port has the number of the neighbour it leads to. -/
def Topology.ofGraph (hn : n < 2 ^ 32) (nodeType : Fin n → NodeType) (linked : Fin n → Fin n → Bool)
    (hsymm : ∀ a b, linked a b = linked b a) : Topology n where
  nodeType := nodeType
  nbr2if := fun a b => if linked a b then some (.sample (UInt32.ofNat b.val)) else none
  order := List.finRange n
  order_nodup := List.nodup_finRange n
  mem_order := List.mem_finRange
  symm := by
    intro a b
    unfold Lcmp.linkUp
    dsimp only
    rw [hsymm a b]
    split
    · rfl
    · rfl
  device := by
    intro a b c i j hi hj hidx
    split at hi
    · split at hj
      · obtain rfl := Option.some.inj hi
        obtain rfl := Option.some.inj hj
        exact ofNat_val_inj hn hidx
      · cases hj
    · cases hi

namespace RouteDriver

/-- Two hosts and two switches between them. -/
def diamond : Topology 4 :=
  .ofGraph (by decide) (fun v => if v = 0 ∨ v = 3 then .host else .switch)
    (fun a b => decide ((a = 0 ∨ a = 3) ↔ (b = 1 ∨ b = 2))) (by decide)

/-- With one of the four links down, a packet from host 0 to host 3 goes through switch 2, whatever the
hashes. -/
theorem routes_are_shortest_diamond :
    ∃ d, (driverSystem 1000 diamond).exec (start 1000 diamond) [(0, 1)] = some d ∧ d.topo.IsDist 3 2 0 ∧
      ∀ hash : Fin 4 → UInt32,
        (0 :: d.journey (Topology.dstAddr (3 : Fin 4)) hash 5 0).Nodup ∧
          (d.journey (Topology.dstAddr (3 : Fin 4)) hash 5 0).length = 2 ∧
          (0 :: d.journey (Topology.dstAddr (3 : Fin 4)) hash 5 0).getLast? = some 3 := by
  refine ⟨_, rfl, ?_⟩
  have hreach := System.reachable_of_exec (M := driverSystem 1000 diamond) [(0, 1)] rfl
  have hdist : (takeDownLink 1000 (start 1000 diamond) 0 1).topo.IsDist 3 2 0 := by
    refine ⟨.step (.step .source (.inl rfl) (by decide : (2 : Fin 4) ∈ _)) (.inr (by decide)) (by decide), ?_⟩
    intro j hpath
    by_contra hlt
    cases hpath with
    | @step j a _ hfirst _ hadj =>
        obtain rfl : j = 0 := by omega
        obtain rfl := hfirst.eq_source
        exact absurd hadj (by decide)
  exact ⟨hdist, fun hash =>
    (routes_are_shortest hreach rfl 0).2.2 (diamond.distinctAddresses_of_le (by decide)) 2 hdist hash 5 (by decide)⟩

def near : Fin (2 ^ 24 + 1) := ⟨0, by decide⟩

def hub : Fin (2 ^ 24 + 1) := ⟨1, by decide⟩

def far : Fin (2 ^ 24 + 1) := ⟨2 ^ 24, by decide⟩

/-- One switch between two hosts, in a topology so large that the addresses of the two are the same. -/
def sharedAddress : Topology (2 ^ 24 + 1) :=
  .ofGraph (by decide) (fun v => if v = hub then .switch else .host)
    (fun a b => decide ((a = hub ∧ (b = near ∨ b = far)) ∨ (b = hub ∧ (a = near ∨ a = far))))
    (fun _ _ => decide_eq_decide.mpr or_comm)

theorem near_ne_hub : near ≠ hub := fun h => absurd (congrArg Fin.val h) (by decide)

theorem far_ne_hub : far ≠ hub := fun h => absurd (congrArg Fin.val h) (by decide)

theorem sharedAddress_linkUp (a b : Fin (2 ^ 24 + 1)) : sharedAddress.linkUp a b = true ↔
    (a = hub ∧ (b = near ∨ b = far)) ∨ (b = hub ∧ (a = near ∨ a = far)) := by
  unfold Topology.linkUp Lcmp.linkUp sharedAddress Topology.ofGraph
  dsimp only
  split
  · rename_i h
    exact iff_of_true rfl (of_decide_eq_true h)
  · rename_i h
    exact iff_of_false Bool.false_ne_true fun hlinked => h (decide_eq_true hlinked)

/-- Each host is one hop away from the switch. -/
theorem sharedAddress_isDist {host : Fin (2 ^ 24 + 1)} (hhost : host = near ∨ host = far) :
    sharedAddress.IsDist host 1 hub := by
  refine ⟨.step .source (.inl rfl) ?_, fun j hpath => ?_⟩
  · exact Topology.mem_upNeighbours.mpr ((sharedAddress_linkUp host hub).mpr (.inr ⟨rfl, hhost⟩))
  · by_contra hlt
    obtain rfl : j = 0 := by omega
    have heq := hpath.eq_source
    rcases hhost with rfl | rfl
    · exact near_ne_hub heq.symm
    · exact far_ne_hub heq.symm

theorem sharedAddress_upNeighbours_length : (sharedAddress.upNeighbours hub).length ≤ 2 := by
  have hsubset : sharedAddress.upNeighbours hub ⊆ [near, far] := by
    intro v hv
    rcases (sharedAddress_linkUp hub v).mp (Topology.mem_upNeighbours.mp hv) with ⟨-, rfl | rfl⟩ | ⟨-, hhub | hhub⟩
    · simp
    · simp
    · exact absurd hhub.symm near_ne_hub
    · exact absurd hhub.symm far_ne_hub
  exact (List.subperm_of_subset (sharedAddress.upNeighbours_nodup hub) hsubset).length_le

/-- A packet for the first host can end at the other one. -/
theorem not_shortest_shared_address : ∃ (d : RouteDriver (2 ^ 24 + 1)) (hash : Fin (2 ^ 24 + 1) → UInt32),
    (driverSystem 1000 sharedAddress).Reachable d ∧ d.topo.nodeType near = .host ∧ d.topo.IsDist near 1 hub ∧
      d.journey (Topology.dstAddr near) hash 1 hub = [far] ∧ far ≠ near := by
  have hhost : ∀ v, v ≠ hub → sharedAddress.nodeType v = .host := fun v hv => if_neg hv
  have hlink : sharedAddress.linkUp hub far = true := (sharedAddress_linkUp hub far).mpr (.inl ⟨rfl, .inr rfl⟩)
  have hfew : (2 ^ 24 + 1) * (sharedAddress.upNeighbours hub).length ≤ 2 ^ 32 := by
    have hlength := sharedAddress_upNeighbours_length
    omega
  have haddr : Topology.dstAddr far = Topology.dstAddr near := by decide
  obtain ⟨hash, hjourney⟩ := exists_journey_other 1000 sharedAddress (hhost far far_ne_hub) haddr hlink
    (sharedAddress_isDist (.inr rfl)) hfew
  exact ⟨start 1000 sharedAddress, hash, .init, hhost near near_ne_hub, sharedAddress_isDist (.inl rfl), hjourney,
    fun h => absurd (congrArg Fin.val h) (by decide)⟩

end RouteDriver

end Lcmp
