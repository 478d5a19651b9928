import Lcmp.Lib.Mixing
import Lcmp.Routing.Selection
import Lcmp.Routing.ShortestPath

/-!
# How flows are spread

`EcmpHash` loses nothing of a word of its key, so the flows between two hosts, as many as there are pairs of ports, have
as many hashes. The remainders of these are spread as evenly as can be, and so are the flows over next hops.
-/

namespace Lcmp

/-! ### The hash -/

/-- What is true of the bits is true of the word. -/
theorem injective_of_toBitVec {f : UInt32 → UInt32} {g : BitVec 32 → BitVec 32} (hg : Function.Injective g)
    (h : ∀ x, (f x).toBitVec = g x.toBitVec) : Function.Injective f := by
  intro x y hxy
  apply UInt32.toBitVec_inj.mp
  apply hg
  rw [← h, ← h, hxy]

theorem xor_injective (k : UInt32) : Function.Injective fun h : UInt32 => h ^^^ k := by
  intro x y hxy
  exact UInt32.xor_left_inj k |>.mp hxy

theorem ecmpScramble_injective : Function.Injective ecmpScramble := by
  have hfirst : (0xcc9e2d51 * 0xdee13bb1 : BitVec 32) = 1#32 := by decide
  have hlast : (0x1b873593 * 0x56ed309b : BitVec 32) = 1#32 := by decide
  have hbits := (Mixing.mul_injective hlast).comp ((Mixing.rotate_injective (r := 15) (by decide)).comp
    (Mixing.mul_injective hfirst))
  exact injective_of_toBitVec hbits fun k => rfl

/-- The part of a round behind the key. -/
def ecmpStir (h : UInt32) : UInt32 :=
  let h := (h <<< 13) ||| (h >>> 19)
  h + ((h <<< 2) + 0xe6546b64)

theorem ecmpStir_injective : Function.Injective ecmpStir := by
  have hfive : ((1#32 + BitVec.twoPow 32 2) * 0xcccccccd : BitVec 32) = 1#32 := by decide
  have hbits := (Mixing.add_shiftLeft_injective (k := 0xe6546b64) hfive).comp
    (Mixing.rotate_injective (w := 32) (r := 13) (by decide))
  exact injective_of_toBitVec hbits fun h => rfl

theorem ecmpRound_eq (h k : UInt32) : ecmpRound h k = ecmpStir (h ^^^ ecmpScramble k) := rfl

/-- The end of the hash. -/
def ecmpFinish (h : UInt32) : UInt32 :=
  let h := h ^^^ (h >>> 16)
  let h := h * 0x85ebca6b
  let h := h ^^^ (h >>> 13)
  let h := h * 0xc2b2ae35
  h ^^^ (h >>> 16)

theorem ecmpFinish_injective : Function.Injective ecmpFinish := by
  have hfirst : (0x85ebca6b * 0xa5cb9243 : BitVec 32) = 1#32 := by decide
  have hlast : (0xc2b2ae35 * 0x7ed1b41d : BitVec 32) = 1#32 := by decide
  have hbits := (Mixing.xorShift_injective (w := 32) (s := 16) (by decide)).comp ((Mixing.mul_injective hlast).comp
    ((Mixing.xorShift_injective (s := 13) (by decide)).comp ((Mixing.mul_injective hfirst).comp
      (Mixing.xorShift_injective (s := 16) (by decide)))))
  exact injective_of_toBitVec hbits fun h => rfl

theorem foldl_ecmpRound_injective (words : List UInt32) : Function.Injective fun h => words.foldl ecmpRound h := by
  induction words with
  | nil => exact Function.injective_id
  | cons k words ih =>
      intro x y hxy
      dsimp only at hxy
      rw [List.foldl_cons, List.foldl_cons] at hxy
      have hround := ih hxy
      rw [ecmpRound_eq, ecmpRound_eq] at hround
      exact xor_injective (ecmpScramble k) (ecmpStir_injective hround)

theorem ecmpHash_eq (words : List UInt32) (seed : UInt32) :
    ecmpHash words [] seed = ecmpFinish (words.foldl ecmpRound seed ^^^ UInt32.ofNat (4 * words.length)) := rfl

/-- Two switches with different seeds never agree on a hash. -/
theorem ecmpHash_seed_injective (words : List UInt32) : Function.Injective fun seed => ecmpHash words [] seed := by
  intro x y hxy
  exact foldl_ecmpRound_injective words (xor_injective _ (ecmpFinish_injective hxy))

/-- Nor do two keys that differ in one word. -/
theorem ecmpHash_word_injective (front back : List UInt32) (seed : UInt32) :
    Function.Injective fun k => ecmpHash (front ++ k :: back) [] seed := by
  intro x y hxy
  dsimp only at hxy
  rw [ecmpHash_eq, ecmpHash_eq, List.foldl_append, List.foldl_append, List.foldl_cons, List.foldl_cons,
    List.length_append, List.length_append, List.length_cons, List.length_cons] at hxy
  have hrounds := foldl_ecmpRound_injective back (xor_injective _ (ecmpFinish_injective hxy))
  have hscrambled := ecmpStir_injective hrounds
  exact ecmpScramble_injective (UInt32.xor_right_inj _ |>.mp hscrambled)

/-- What loses nothing of a word takes every value. -/
theorem bijective_of_injective {f : UInt32 → UInt32} (hf : Function.Injective f) : Function.Bijective f := by
  have hfinite : Finite UInt32 := Finite.of_injective (fun x : UInt32 => x.toFin) fun x y h => UInt32.toFin_inj.mp h
  exact Finite.injective_iff_bijective.mp hf

/-! ### Pairs of ports -/

/-- The third word of a key. -/
def portWord (ports : UInt16 × UInt16) : UInt32 := ports.1.toUInt32 ||| (ports.2.toUInt32 <<< 16)

theorem portWord_toNat (ports : UInt16 × UInt16) : (portWord ports).toNat = 2 ^ 16 * ports.2.toNat + ports.1.toNat := by
  obtain ⟨sport, dport⟩ := ports
  have hsport := sport.toNat_lt
  have hdport := dport.toNat_lt
  have hshift : (dport.toUInt32 <<< 16).toNat = dport.toNat <<< 16 := by
    have hlt : dport.toNat <<< 16 < 2 ^ 32 := by
      rw [Nat.shiftLeft_eq]
      omega
    rw [UInt32.toNat_shiftLeft]
    exact Nat.mod_eq_of_lt hlt
  unfold portWord
  rw [UInt32.toNat_or, hshift, Nat.or_comm]
  dsimp only
  rw [UInt16.toNat_toUInt32, ← Nat.shiftLeft_add_eq_or_of_lt hsport, Nat.shiftLeft_eq, Nat.mul_comm]

theorem portWord_bijective : Function.Bijective portWord := by
  constructor
  · intro p q hpq
    have hnat := congrArg UInt32.toNat hpq
    rw [portWord_toNat, portWord_toNat] at hnat
    have hp := p.1.toNat_lt
    have hq := q.1.toNat_lt
    exact Prod.ext (UInt16.toNat_inj.mp (by omega)) (UInt16.toNat_inj.mp (by omega))
  · intro word
    have hword := word.toNat_lt
    have hsize : UInt16.size = 2 ^ 16 := rfl
    refine ⟨(UInt16.ofNat (word.toNat % 2 ^ 16), UInt16.ofNat (word.toNat / 2 ^ 16)), UInt32.toNat_inj.mp ?_⟩
    rw [portWord_toNat]
    dsimp only
    rw [UInt16.toNat_ofNat_of_lt' (by omega), UInt16.toNat_ofNat_of_lt' (by omega)]
    exact Nat.div_add_mod _ _

namespace CustomHeader

def withPorts (ch : CustomHeader) (ports : UInt16 × UInt16) : CustomHeader :=
  { ch with sport := ports.1, dport := ports.2 }

variable {ch : CustomHeader}

theorem withPorts_hashKey (hports : ch.hasPorts = true) (ports : UInt16 × UInt16) (uninit : UInt32) :
    (ch.withPorts ports).hashKey uninit = [ch.sip, ch.dip, portWord ports] := by
  have hports' : (ch.withPorts ports).hasPorts = true := hports
  unfold hashKey
  rw [if_pos hports']
  rfl

/-- The hash of a flow between two hosts, by its ports. -/
def portHash (ch : CustomHeader) (uninit seed : UInt32) (ports : UInt16 × UInt16) : Nat :=
  (ecmpHash ((ch.withPorts ports).hashKey uninit) [] seed).toNat

theorem portHash_injective (hports : ch.hasPorts = true) (uninit seed : UInt32) :
    Function.Injective (ch.portHash uninit seed) := by
  intro p q hpq
  unfold portHash at hpq
  rw [withPorts_hashKey hports, withPorts_hashKey hports] at hpq
  have hword := ecmpHash_word_injective [ch.sip, ch.dip] [] seed (UInt32.toNat_inj.mp hpq)
  exact portWord_bijective.injective hword

/-- Every word is the hash of one pair of ports. -/
theorem portHash_range (hports : ch.hasPorts = true) (uninit seed : UInt32) :
    Set.range (ch.portHash uninit seed) = Set.Iio (2 ^ 32) := by
  have hsurjective := (bijective_of_injective (ecmpHash_word_injective [ch.sip, ch.dip] [] seed)).surjective
  ext k
  rw [Set.mem_range, Set.mem_Iio]
  constructor
  · rintro ⟨ports, rfl⟩
    exact UInt32.toNat_lt _
  · intro hk
    obtain ⟨word, hword⟩ := hsurjective (UInt32.ofNat k)
    obtain ⟨ports, rfl⟩ := portWord_bijective.surjective word
    refine ⟨ports, ?_⟩
    unfold portHash
    rw [withPorts_hashKey hports]
    exact (congrArg UInt32.toNat hword).trans (UInt32.toNat_ofNat_of_lt' hk)

/-- The flows between two hosts are spread evenly over a list. -/
theorem ncard_pick (hports : ch.hasPorts = true) (uninit seed : UInt32) {α : Type} [DecidableEq α] {l : List α} (hl : l ≠ [])
    (hnodup : l.Nodup) {x : α} (hx : x ∈ l) :
    {ports | pick l hl (ecmpHash ((ch.withPorts ports).hashKey uninit) [] seed) = x}.ncard = Mixing.share (2 ^ 32) l x := by
  rw [← Mixing.ncard_getElem? (portHash_injective hports uninit seed) (portHash_range hports uninit seed) hnodup hx]
  congr 1
  ext ports
  have hlt : ch.portHash uninit seed ports % l.length < l.length := Nat.mod_lt _ (List.length_pos_of_ne_nil hl)
  rw [Set.mem_ofPred_eq, Set.mem_ofPred_eq, List.getElem?_eq_getElem hlt, Option.some_inj]
  rfl

end CustomHeader

/-! ### New flows at a DCI switch -/

theorem pick_map {α β : Type} (f : α → β) {l : List α} (hl : l ≠ []) (hmap : l.map f ≠ []) (hash : UInt32) :
    pick (l.map f) hmap hash = f (pick l hl hash) := by
  simp [pick]

namespace DciSwitch

/-- The ports that a new flow is hashed over: all next hops, those of the highest rate, or those of low cost. -/
def candidates (cfg : DciConfig) (env : SwitchEnv) (sw : DciSwitch) (nexthops : NextHops) : List UInt32 :=
  let sorted := (costLoop cfg.toCostConfig env sw.congState nexthops.ports).2.insertionSort PairLe
  match cfg.routingMode with
  | .ecmp => nexthops.ports
  | .ucmp => bestPaths cfg nexthops.ports
  | .lcmp => if availablePaths sorted ≠ [] then availablePaths sorted else sorted.map Prod.snd

variable {cfg : DciConfig} {env : SwitchEnv} {sw : DciSwitch} {ch : CustomHeader} {nexthops : NextHops}

variable (cfg) in
/-- The maximum is reached, or it is what it was. -/
theorem foldl_linkBw_cases (ports : List UInt32) (best : UInt64) :
    let top := ports.foldl (fun best intf => if cfg.linkBw intf > best then cfg.linkBw intf else best) best
    (∃ intf ∈ ports, cfg.linkBw intf = top) ∨ top = best ∧ ∀ intf ∈ ports, cfg.linkBw intf ≤ best := by
  induction ports generalizing best with
  | nil => exact .inr ⟨rfl, by simp⟩
  | cons intf ports ih =>
      intro top
      by_cases hmore : cfg.linkBw intf > best
      · have htop : top = ports.foldl _ (cfg.linkBw intf) := congrArg (ports.foldl _) (if_pos hmore)
        left
        rcases ih (cfg.linkBw intf) with ⟨other, hother, hmax⟩ | ⟨hsame, -⟩
        · exact ⟨other, List.mem_cons_of_mem _ hother, hmax.trans htop.symm⟩
        · exact ⟨intf, List.mem_cons_self, (htop.trans hsame).symm⟩
      · have htop : top = ports.foldl _ best := congrArg (ports.foldl _) (if_neg hmore)
        rcases ih best with ⟨other, hother, hmax⟩ | ⟨hsame, hle⟩
        · exact .inl ⟨other, List.mem_cons_of_mem _ hother, hmax.trans htop.symm⟩
        · exact .inr ⟨htop.trans hsame, List.forall_mem_cons.mpr ⟨UInt64.not_lt.mp hmore, hle⟩⟩

/-- There is always a path of the highest rate, so the fallback of mode 1 is never taken. -/
theorem bestPaths_ne_nil (cfg : DciConfig) (nexthops : NextHops) : bestPaths cfg nexthops.ports ≠ [] := by
  obtain ⟨intf, hintf, hmax⟩ : ∃ intf ∈ nexthops.ports, cfg.linkBw intf = maxLinkBw cfg nexthops.ports := by
    rcases foldl_linkBw_cases cfg nexthops.ports 0 with hreached | ⟨hzero, hle⟩
    · exact hreached
    · have hhead := List.head_mem nexthops.nonempty
      exact ⟨_, hhead, (UInt64.le_antisymm (hle _ hhead) UInt64.zero_le).trans hzero.symm⟩
  apply List.ne_nil_of_mem
  exact List.mem_map.mpr ⟨(cfg.linkBw intf, intf), List.mem_filter.mpr ⟨List.mem_map_of_mem hintf, decide_eq_true hmax⟩, rfl⟩

/-- `GetOutDev` hashes a new flow over the candidates. -/
theorem getOutDev_new (hentry : sw.rtTable.lookup ch.dip = some nexthops) (hnew : sw.remembered cfg env ch = none) :
    ∃ h : candidates cfg env sw nexthops ≠ [],
      (sw.getOutDev cfg env ch).2 = some (pick (candidates cfg env sw nexthops) h (flowHash cfg env ch)) := by
  have hchoice : ∀ {l : List UInt32} (hl : l ≠ []), candidates cfg env sw nexthops = l →
      (sw.getOutDev cfg env ch).2 = some (pick l hl (flowHash cfg env ch)) →
      ∃ h : candidates cfg env sw nexthops ≠ [],
        (sw.getOutDev cfg env ch).2 = some (pick (candidates cfg env sw nexthops) h (flowHash cfg env ch)) := by
    rintro l hl rfl hout
    exact ⟨hl, hout⟩
  cases hmode : cfg.routingMode with
  | ecmp =>
      apply hchoice nexthops.nonempty
      · unfold candidates
        rw [hmode]
      · unfold getOutDev
        rw [hentry]
        dsimp only
        rw [hmode]
  | ucmp =>
      have hbest := bestPaths_ne_nil cfg nexthops
      apply hchoice hbest
      · unfold candidates
        rw [hmode]
      · unfold remembered at hnew
        rw [hmode] at hnew
        unfold getOutDev getOutDevUcmp
        rw [hentry]
        dsimp only at hnew ⊢
        rw [hmode, hnew]
        exact congrArg some (dif_pos hbest)
  | lcmp =>
      rw [getOutDev_eq_selectPath hmode hentry hnew] at hchoice ⊢
      by_cases havail : availablePaths ((costLoop cfg.toCostConfig env sw.congState nexthops.ports).2.insertionSort PairLe) ≠ []
      · apply hchoice havail
        · unfold candidates
          rw [hmode]
          exact if_pos havail
        · exact congrArg some (selectPath_of_available _ havail _)
      · have hsorted : (costLoop cfg.toCostConfig env sw.congState nexthops.ports).2.insertionSort PairLe ≠ [] := fun hnil =>
          costLoop_ne_nil cfg.toCostConfig env sw.congState nexthops.nonempty
            (List.perm_nil.mp (hnil ▸ (List.perm_insertionSort PairLe _).symm))
        apply hchoice (mt List.map_eq_nil_iff.mp hsorted)
        · unfold candidates
          rw [hmode]
          exact if_neg havail
        · rw [pick_map Prod.snd hsorted]
          exact congrArg some (dif_neg havail)

/-- The candidates are some of the next hops, in another order. -/
theorem candidates_sublist (cfg : DciConfig) (env : SwitchEnv) (sw : DciSwitch) (nexthops : NextHops) :
    ∃ l : List UInt32, l.Perm nexthops.ports ∧ (candidates cfg env sw nexthops).Sublist l := by
  have hsorted := (List.perm_insertionSort PairLe (costLoop cfg.toCostConfig env sw.congState nexthops.ports).2).map Prod.snd
  rw [costLoop_ports] at hsorted
  cases hmode : cfg.routingMode with
  | ecmp =>
      refine ⟨nexthops.ports, List.Perm.refl _, ?_⟩
      unfold candidates
      rw [hmode]
  | ucmp =>
      refine ⟨nexthops.ports, List.Perm.refl _, ?_⟩
      have hports : (nexthops.ports.map fun intf => (cfg.linkBw intf, intf)).map Prod.snd = nexthops.ports := by
        rw [List.map_map]
        exact List.map_id _
      unfold candidates bestPaths
      rw [hmode]
      conv_rhs => rw [← hports]
      exact List.filter_sublist.map Prod.snd
  | lcmp =>
      refine ⟨_, hsorted, ?_⟩
      unfold candidates
      rw [hmode]
      dsimp only
      split
      · exact (List.filter_sublist.trans (List.take_sublist _ _)).map Prod.snd
      · exact List.Sublist.refl _

/-- New flows are spread evenly. Whatever a DCI switch knows of its links and remembers of other flows, a new flow is
sent to one of the candidates of its mode, and of the flows between two hosts, one for each pair of ports, every
candidate is chosen for as many as every other one, up to one. -/
theorem new_flows_spread (hports : ch.hasPorts = true) (hentry : sw.rtTable.lookup ch.dip = some nexthops)
    (hnodup : nexthops.ports.Nodup) (hnew : ∀ ports, sw.remembered cfg env (ch.withPorts ports) = none) :
    candidates cfg env sw nexthops ≠ [] ∧ candidates cfg env sw nexthops ⊆ nexthops.ports ∧
      ∀ port, {ports | (sw.getOutDev cfg env (ch.withPorts ports)).2 = some port}.ncard =
        if port ∈ candidates cfg env sw nexthops then Mixing.share (2 ^ 32) (candidates cfg env sw nexthops) port else 0 := by
  obtain ⟨l, hperm, hsublist⟩ := candidates_sublist cfg env sw nexthops
  have hone := (hperm.nodup_iff.mpr hnodup).sublist hsublist
  have hentry' : ∀ ports, sw.rtTable.lookup (ch.withPorts ports).dip = some nexthops := fun _ => hentry
  obtain ⟨hsome, _⟩ := getOutDev_new (hentry' (0, 0)) (hnew (0, 0))
  refine ⟨hsome, fun x hx => hperm.subset (hsublist.subset hx), fun port => ?_⟩
  have hout : {ports | (sw.getOutDev cfg env (ch.withPorts ports)).2 = some port} = {ports |
      pick _ hsome (ecmpHash ((ch.withPorts ports).hashKey env.uninit) [] cfg.ecmpSeed) = port} := by
    ext ports
    obtain ⟨_, hpick⟩ := getOutDev_new (hentry' ports) (hnew ports)
    rw [Set.mem_ofPred_eq, hpick, Option.some_inj]
    rfl
  rw [hout]
  split
  · rename_i hmem
    exact ch.ncard_pick hports env.uninit cfg.ecmpSeed hsome hone hmem
  · rename_i hmem
    have hnever : {ports | pick _ hsome (ecmpHash ((ch.withPorts ports).hashKey env.uninit) [] cfg.ecmpSeed) = port} = ∅ := by
      apply Set.eq_empty_of_forall_notMem
      rintro ports rfl
      exact hmem (pick_mem _ _)
    rw [hnever, Set.ncard_empty]

/-- A switch that has just been set up, with two ports towards host 1. -/
def twoPorts : DciSwitch := (DciSwitch.new.addTableEntry (nodeIdToIp 1) 1).addTableEntry (nodeIdToIp 1) 2

/-- With empty queues, half of the flows from host 0 to host 1 go through each of them. -/
theorem new_flows_spread_two_ports :
    {ports | (twoPorts.getOutDev lcmpConfig (quietEnv 0 []) (flowPacket.withPorts ports)).2 = some 2}.ncard = 2 ^ 31 := by
  have hentry : twoPorts.rtTable.lookup flowPacket.dip = some ⟨[1, 2], by decide⟩ := rfl
  have hnew : ∀ ports, twoPorts.remembered lcmpConfig (quietEnv 0 []) (flowPacket.withPorts ports) = none := fun _ => rfl
  obtain ⟨-, -, hshare⟩ := new_flows_spread rfl hentry (by decide) hnew
  rw [hshare 2]
  decide

end DciSwitch

/-! ### The shortest paths -/

namespace RouteDriver

variable {packetPayloadSize : UInt32} {n : Nat} {t : Topology n} {d : RouteDriver n}

/-- The ports for a host are those of the next hops towards it. -/
theorem Installed.ports_eq (h : Installed t d) (hdistinct : t.DistinctAddresses) {host : Fin n}
    (hhost : d.topo.nodeType host = .host) (u : Fin n) :
    (d.rtTable u).ports (Topology.dstAddr host) = (d.routes.nextHop u host).map (d.topo.ifIdx u) := by
  have hentries : ∀ dst, ((d.routes.nextHop u dst).map fun next => (Topology.dstAddr dst, d.topo.ifIdx u next)).filter
      (fun e => e.1 = Topology.dstAddr host) =
        if dst = host then (d.routes.nextHop u host).map fun next => (Topology.dstAddr host, d.topo.ifIdx u next) else [] := by
    intro dst
    split
    · rename_i hsame
      subst hsame
      exact List.filter_eq_self.mpr (by simp)
    · rename_i hother
      apply List.filter_eq_nil_iff.mpr
      intro e he
      obtain ⟨next, hnext, rfl⟩ := List.mem_map.mp he
      have hdst : d.topo.nodeType dst = .host := by
        by_contra hnot
        rw [h.nextHop, if_neg hnot] at hnext
        cases hnext
      simp only [decide_eq_true_eq]
      exact fun haddr => hother (hdistinct dst host (h.nodeType ▸ hdst) (h.nodeType ▸ hhost) haddr)
  obtain ⟨front, back, hsplit⟩ := List.append_of_mem (d.topo.mem_order host)
  have hunique := d.topo.order_nodup
  rw [hsplit] at hunique
  have hskip : ∀ l : List (Fin n), host ∉ l → l.flatMap (fun dst => if dst = host then
      (d.routes.nextHop u host).map fun next => (Topology.dstAddr host, d.topo.ifIdx u next) else []) = [] := by
    intro l hl
    apply List.flatMap_eq_nil_iff.mpr
    intro dst hdst
    have hother : dst ≠ host := fun hsame => hl (hsame ▸ hdst)
    exact if_neg hother
  rw [h.rtTable]
  simp only [Topology.setRoutingEntries]
  rw [RtTable.ports_foldl, RtTable.ports_empty, List.nil_append]
  simp only [Topology.routingEntries]
  rw [List.filter_flatMap]
  simp only [hentries]
  obtain ⟨-, hback, hdisjoint⟩ := List.nodup_append.mp hunique
  have hfront : host ∉ front := fun hmem => hdisjoint host hmem host List.mem_cons_self rfl
  rw [hsplit, List.flatMap_append, List.flatMap_cons, if_pos rfl, hskip front hfront,
    hskip back (List.nodup_cons.mp hback).1, List.nil_append, List.append_nil, List.map_map]
  rfl

/-- A node hashes a packet for a host over its next hops. -/
theorem Installed.nextNode_eq (h : Installed t d) (hdistinct : t.DistinctAddresses) {host : Fin n}
    (hhost : d.topo.nodeType host = .host) {u : Fin n} (hne : d.routes.nextHop u host ≠ []) (hash : UInt32) :
    d.nextNode (Topology.dstAddr host) hash u = some (pick (d.routes.nextHop u host) hne hash) := by
  have hports := h.ports_eq hdistinct hhost u
  have hsome := h.ports_ne_nil hne
  have hout : (d.rtTable u).getOutDev (Topology.dstAddr host) hash =
      some (d.topo.ifIdx u (pick (d.routes.nextHop u host) hne hash)) := by
    unfold RtTable.ports at hports hsome
    unfold RtTable.getOutDev
    cases hlookup : (d.rtTable u).lookup (Topology.dstAddr host) with
    | none =>
        rw [hlookup] at hsome
        exact absurd rfl hsome
    | some nexthops =>
        rw [hlookup] at hports
        obtain ⟨ports, hnonempty⟩ := nexthops
        dsimp only at hports
        subst hports
        exact congrArg some (pick_map _ hne hnonempty hash)
  unfold nextNode
  rw [hout]
  exact peer_ifIdx ((h.mem_nextHop_iff hhost u _).mp (pick_mem hne hash)).1

/-- Flows are spread evenly over the shortest paths. Whichever links have been taken down: of the flows between two
hosts, one for each pair of ports, a node sends to every neighbour that is one hop nearer as many as to every other one,
up to one, and none to anyone else. The hash takes each value once over each word of its key, and over the seed. -/
theorem shortest_paths_shared (hreach : (driverSystem packetPayloadSize t).Reachable d) (hdistinct : t.DistinctAddresses)
    {host : Fin n} (hhost : d.topo.nodeType host = .host) (u : Fin n) {ch : CustomHeader} (hports : ch.hasPorts = true)
    (hdip : ch.dip = Topology.dstAddr host) (uninit seed : UInt32) :
    (∃ hops : List (Fin n), hops.Nodup ∧
      (∀ v, v ∈ hops ↔ d.topo.linkUp u v = true ∧ (v = host ∨ d.topo.isSwitch v = true) ∧
        ∃ k, d.topo.IsDist host k v ∧ d.topo.IsDist host (k + 1) u) ∧
      ∀ v, {ports | d.nextNode ch.dip (ecmpHash ((ch.withPorts ports).hashKey uninit) [] seed) u = some v}.ncard =
        if v ∈ hops then Mixing.share (2 ^ 32) hops v else 0) ∧
      (∀ front back : List UInt32, Function.Bijective fun k => ecmpHash (front ++ k :: back) [] seed) ∧
      ∀ words : List UInt32, Function.Bijective fun seed => ecmpHash words [] seed := by
  have hinstalled := installed_of_reachable packetPayloadSize hreach
  have hnodup := hinstalled.nextHop_nodup u host
  refine ⟨⟨d.routes.nextHop u host, hnodup, hinstalled.mem_nextHop_iff hhost u, fun v => ?_⟩,
    fun front back => bijective_of_injective (ecmpHash_word_injective front back seed),
    fun words => bijective_of_injective (ecmpHash_seed_injective words)⟩
  rw [hdip]
  split
  · rename_i hv
    have hne := List.ne_nil_of_mem hv
    simp only [hinstalled.nextNode_eq hdistinct hhost hne, Option.some_inj]
    exact ch.ncard_pick hports uninit seed hne hnodup hv
  · rename_i hv
    have hnever : ∀ hash, d.nextNode (Topology.dstAddr host) hash u ≠ some v := fun hash hnext =>
      hv (hinstalled.mem_nextHop_of_nextNode hdistinct hhost hnext)
    have hempty : {ports | d.nextNode (Topology.dstAddr host) (ecmpHash ((ch.withPorts ports).hashKey uninit) [] seed) u =
        some v} = ∅ := Set.eq_empty_of_forall_notMem fun ports => hnever _
    rw [hempty, Set.ncard_empty]

/-- Half of the flows from host 0 to host 3 go through switch 1. -/
theorem shortest_paths_shared_diamond :
    {ports | (start 1000 diamond).nextNode (Topology.dstAddr (3 : Fin 4))
      (ecmpHash (({ flowPacket with dip := Topology.dstAddr (3 : Fin 4) }.withPorts ports).hashKey 0) [] 0) 0 =
        some 1}.ncard = 2 ^ 31 := by
  have hreach : (driverSystem 1000 diamond).Reachable (start 1000 diamond) := System.reachable_of_exec [] rfl
  have hnext : (start 1000 diamond).routes.nextHop 0 3 = [1, 2] := rfl
  have hhost : (start 1000 diamond).topo.nodeType 3 = .host := rfl
  have hports : CustomHeader.hasPorts { flowPacket with dip := Topology.dstAddr (3 : Fin 4) } = true := rfl
  obtain ⟨⟨hops, hnodup, hchar, hshare⟩, -⟩ := shortest_paths_shared hreach (diamond.distinctAddresses_of_le (by decide)) hhost 0
    hports rfl 0 0
  have hmem : ∀ v, v ∈ hops ↔ v ∈ [1, 2] := by
    intro v
    rw [hchar v, ← hnext]
    exact ((installed_start 1000 diamond).mem_nextHop_iff rfl 0 v).symm
  have hlength : hops.length = 2 := (List.perm_ext_iff_of_nodup hnodup (by decide) |>.mpr hmem).length_eq
  rw [hshare 1, if_pos ((hmem 1).mpr (by decide))]
  unfold Mixing.share
  rw [hlength, if_neg (by omega)]
  rfl

end RouteDriver

end Lcmp
