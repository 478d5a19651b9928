import Lcmp.Network.Stages
import Lcmp.Routing.ShortestPath

/-!
# The line of a stream

The packets of a flow that travel one way are a stream. If each switch sends all of a stream's packets to one
neighbour, then they go through one line of stages, from the NIC of the source to the destination.
-/

namespace Lcmp

open Pipeline

/-- The packets of a tuple and priority group that travel one way: the data segments, or the ACKs and NACKs. -/
structure Stream where
  sip : UInt32
  dip : UInt32
  sport : UInt16
  dport : UInt16
  pg : Queue
  acks : Bool
  deriving DecidableEq

variable {n : Nat} {α : Type}

namespace Stream

def contains (f : Stream) (p : NetPacket α) : Bool :=
  decide (p.ch.sip = f.sip ∧ p.ch.dip = f.dip ∧ p.ch.sport = f.sport ∧ p.ch.dport = f.dport ∧ p.pg = f.pg ∧
    if f.acks then p.ch.l3Prot = 0xFC ∨ p.ch.l3Prot = 0xFD else p.ch.l3Prot = 0x11)

/-- The header of a packet of the stream, up to the difference between an ACK and a NACK. -/
def header (f : Stream) : CustomHeader where
  sip := f.sip
  dip := f.dip
  l3Prot := if f.acks then 0xFC else 0x11
  sport := f.sport
  dport := f.dport

/-- The queue of the stream at a switch. -/
def classAt (f : Stream) (fab : Fabric n) (v : Fin n) : Queue := egressClass (fab.ackHighPrio v) f.header f.pg

variable {f : Stream} {p : NetPacket α}

theorem contains_iff : f.contains p = true ↔ p.ch.sip = f.sip ∧ p.ch.dip = f.dip ∧ p.ch.sport = f.sport ∧
    p.ch.dport = f.dport ∧ p.pg = f.pg ∧ if f.acks then p.ch.l3Prot = 0xFC ∨ p.ch.l3Prot = 0xFD else p.ch.l3Prot = 0x11 :=
  decide_eq_true_iff

theorem l3Prot_cases (h : f.contains p = true) :
    (f.acks = true ∧ (p.ch.l3Prot = 0xFC ∨ p.ch.l3Prot = 0xFD)) ∨ (f.acks = false ∧ p.ch.l3Prot = 0x11) := by
  obtain ⟨-, -, -, -, -, hprot⟩ := contains_iff.mp h
  by_cases hacks : f.acks = true
  · rw [if_pos hacks] at hprot
    exact .inl ⟨hacks, hprot⟩
  · rw [if_neg hacks] at hprot
    exact .inr ⟨by simpa using hacks, hprot⟩

theorem hasPorts (h : f.contains p = true) : p.ch.hasPorts = true := by
  unfold CustomHeader.hasPorts
  rcases l3Prot_cases h with ⟨-, hack | hnack⟩ | ⟨-, hdata⟩
  · rw [hack]
    rfl
  · rw [hnack]
    rfl
  · rw [hdata]
    rfl

theorem header_hasPorts (f : Stream) : f.header.hasPorts = true := by
  unfold CustomHeader.hasPorts header
  dsimp only
  split
  · rfl
  · rfl

/-- The packets of a stream have one hash, one flow id, one NIC and one queue at each switch. -/
theorem hashKey_eq (h : f.contains p = true) (uninit uninit' : UInt32) :
    p.ch.hashKey uninit = f.header.hashKey uninit' := by
  obtain ⟨hsip, hdip, hsport, hdport, -, -⟩ := contains_iff.mp h
  exact CustomHeader.hashKey_congr (hasPorts h) (header_hasPorts f) hsip hdip hsport hdport uninit uninit'

theorem flowId_eq (h : f.contains p = true) : p.ch.flowId = f.header.flowId := by
  obtain ⟨hsip, hdip, hsport, hdport, -, -⟩ := contains_iff.mp h
  exact CustomHeader.flowId_congr ((hasPorts h).trans (header_hasPorts f).symm) hsip hdip hsport hdport

theorem nicPeer_eq (fab : Fabric n) (h : f.contains p = true) (u : Fin n) : fab.nicPeer u p.ch = fab.nicPeer u f.header := by
  obtain ⟨hsip, hdip, hsport, hdport, -, -⟩ := contains_iff.mp h
  simp only [Fabric.nicPeer, Fabric.nicHash]
  rw [hsip, hdip, hsport, hdport]
  rfl

theorem classAt_eq (fab : Fabric n) (h : f.contains p = true) (v : Fin n) : fab.classAt v p = f.classAt fab v := by
  obtain ⟨-, -, -, -, hpg, -⟩ := contains_iff.mp h
  unfold Fabric.classAt classAt egressClass header
  rcases l3Prot_cases h with ⟨hacks, hack | hnack⟩ | ⟨hacks, hdata⟩
  · simp [hacks, hack, hpg]
  · simp [hacks, hnack, hpg]
  · simp [hacks, hdata, hpg]

end Stream

/-! ### The line -/

variable (fab : Fabric n) (f : Stream) (via : Fin n → Fin n)

/-- The stages behind switch `v`, which is `k` hops from the destination. -/
def lineFrom : Nat → Fin n → List (Stage n)
  | 0, _ => []
  | k + 1, v => .egress v (fab.port v (via v)) (f.classAt fab v) :: .wire v (via v) :: lineFrom k (via v)

/-- The stages of a stream whose source is `k + 1` hops from the destination. -/
def streamLine (a : Fin n) (k : Nat) : List (Stage n) :=
  (if f.acks then [.ack a (via a)] else []) ++ .wire a (via a) :: lineFrom fab f via k (via a)

/-- The stage after a stage. -/
def nextStage : Stage n → Option (Stage n)
  | .ack u _ => some (.wire u (via u))
  | .egress u _ _ => some (.wire u (via u))
  | .wire _ v => if fab.isHost v then none else some (.egress v (fab.port v (via v)) (f.classAt fab v))

/-- Each node of the stream sends it one hop nearer to the destination. -/
structure Leads (a b : Fin n) : Prop where
  source : fab.isHost a = true
  sink : fab.isHost b = true
  sip : f.sip = Topology.dstAddr a
  nic : fab.nicPeer a f.header = some (via a)
  hop : ∀ k u, fab.driver.topo.IsDist b (k + 1) u → (u = a ∨ fab.isHost u = false) →
    fab.driver.topo.IsDist b k (via u) ∧ (via u = b ∨ fab.isHost (via u) = false) ∧ fab.driver.topo.linkUp u (via u) = true

/-- What a stage of the line is. -/
def OnLine (a b : Fin n) : Stage n → Prop
  | .ack u v => u = a ∧ v = via a
  | .egress u out _ => out = fab.port u (via u) ∧ fab.driver.topo.linkUp u (via u) = true
  | .wire u v => v = via u ∧ (v = b ∨ fab.isHost v = false)

/-- The node that a stage belongs to. -/
def Stage.node : Stage n → Fin n
  | .ack u _ => u
  | .egress v _ _ => v
  | .wire u _ => u

variable {fab f via} {a b : Fin n}

/-- A node on the way that is not the destination is a switch and hands the stream on. -/
theorem Leads.forwards (h : Leads fab f via a b) {k : Nat} {v : Fin n} (hdist : fab.driver.topo.IsDist b (k + 1) v)
    (hv : v = b ∨ fab.isHost v = false) : fab.isHost v = false ∧ fab.driver.topo.IsDist b k (via v) ∧
      (via v = b ∨ fab.isHost (via v) = false) ∧ fab.driver.topo.linkUp v (via v) = true := by
  have hswitch : fab.isHost v = false := by
    apply hv.resolve_left
    rintro rfl
    cases hdist.unique BreadthFirst.isDist_source
  exact ⟨hswitch, h.hop k v hdist (.inr hswitch)⟩

theorem mem_lineFrom (h : Leads fab f via a b) {k : Nat} {v : Fin n} (hdist : fab.driver.topo.IsDist b k v)
    (hv : v = b ∨ fab.isHost v = false) {i : Stage n} (hi : i ∈ lineFrom fab f via k v) :
    OnLine fab via a b i ∧ ∃ j, 0 < j ∧ j ≤ k ∧ fab.driver.topo.IsDist b j i.node := by
  induction k generalizing v with
  | zero => cases hi
  | succ k ih =>
      obtain ⟨-, hnear, hkind, hlink⟩ := h.forwards hdist hv
      rcases List.mem_cons.mp hi with rfl | hi
      · exact ⟨⟨rfl, hlink⟩, k + 1, Nat.succ_pos k, Nat.le_refl _, hdist⟩
      · rcases List.mem_cons.mp hi with rfl | hi
        · exact ⟨⟨rfl, hkind⟩, k + 1, Nat.succ_pos k, Nat.le_refl _, hdist⟩
        · obtain ⟨hon, j, hpos, hle, hj⟩ := ih hnear hkind hi
          exact ⟨hon, j, hpos, Nat.le_succ_of_le hle, hj⟩

/-- A node further away is not on the rest of the line. -/
theorem node_ne_of_mem (h : Leads fab f via a b) {k : Nat} {u v : Fin n} (hdist : fab.driver.topo.IsDist b k v)
    (hv : v = b ∨ fab.isHost v = false) (hu : fab.driver.topo.IsDist b (k + 1) u) {i : Stage n}
    (hi : i ∈ lineFrom fab f via k v) : i.node ≠ u := by
  rintro rfl
  obtain ⟨-, j, -, hle, hj⟩ := mem_lineFrom h hdist hv hi
  have hsame := hj.unique hu
  omega

theorem lineFrom_nodup (h : Leads fab f via a b) {k : Nat} {v : Fin n} (hdist : fab.driver.topo.IsDist b k v)
    (hv : v = b ∨ fab.isHost v = false) : (lineFrom fab f via k v).Nodup := by
  induction k generalizing v with
  | zero => exact List.nodup_nil
  | succ k ih =>
      obtain ⟨-, hnear, hkind, -⟩ := h.forwards hdist hv
      have hout : ∀ i ∈ lineFrom fab f via k (via v), i.node ≠ v := fun i hi => node_ne_of_mem h hnear hkind hdist hi
      apply List.nodup_cons.mpr
      refine ⟨fun hmem => ?_, List.nodup_cons.mpr ⟨fun hmem => hout _ hmem rfl, ih hnear hkind⟩⟩
      rcases List.mem_cons.mp hmem with heq | hmem
      · cases heq
      · exact hout _ hmem rfl

theorem lineFrom_line (h : Leads fab f via a b) {k : Nat} {u v : Fin n} (hdist : fab.driver.topo.IsDist b k v)
    (hv : v = b ∨ fab.isHost v = false) : Line (nextStage fab f via) (.wire u v :: lineFrom fab f via k v) := by
  induction k generalizing u v with
  | zero =>
      obtain rfl := hdist.path.eq_source
      exact if_pos h.sink
  | succ k ih =>
      obtain ⟨hswitch, hnear, hkind, -⟩ := h.forwards hdist hv
      refine ⟨if_neg (by simp [hswitch]), rfl, ih hnear hkind⟩

variable {k : Nat}

theorem streamLine_line (h : Leads fab f via a b) (hdist : fab.driver.topo.IsDist b (k + 1) a) :
    Line (nextStage fab f via) (streamLine fab f via a k) := by
  obtain ⟨hnear, hkind, -⟩ := h.hop k a hdist (.inl rfl)
  have hline : Line (nextStage fab f via) (.wire a (via a) :: lineFrom fab f via k (via a)) := lineFrom_line h hnear hkind
  unfold streamLine
  split
  · exact ⟨rfl, hline⟩
  · exact hline

theorem streamLine_nodup (h : Leads fab f via a b) (hdist : fab.driver.topo.IsDist b (k + 1) a) :
    (streamLine fab f via a k).Nodup := by
  obtain ⟨hnear, hkind, -⟩ := h.hop k a hdist (.inl rfl)
  have hout : ∀ i ∈ lineFrom fab f via k (via a), i.node ≠ a := fun i hi => node_ne_of_mem h hnear hkind hdist hi
  have hrest : (Stage.wire a (via a) :: lineFrom fab f via k (via a)).Nodup :=
    List.nodup_cons.mpr ⟨fun hmem => hout _ hmem rfl, lineFrom_nodup h hnear hkind⟩
  unfold streamLine
  split
  · apply List.nodup_cons.mpr
    refine ⟨fun hmem => ?_, hrest⟩
    rcases List.mem_cons.mp hmem with heq | hmem
    · cases heq
    · exact hout _ hmem rfl
  · exact hrest

theorem mem_streamLine (h : Leads fab f via a b) (hdist : fab.driver.topo.IsDist b (k + 1) a) {i : Stage n}
    (hi : i ∈ streamLine fab f via a k) : OnLine fab via a b i := by
  obtain ⟨hnear, hkind, -⟩ := h.hop k a hdist (.inl rfl)
  rcases List.mem_append.mp hi with hi | hi
  · split at hi
    · obtain rfl := List.mem_singleton.mp hi
      exact ⟨rfl, rfl⟩
    · cases hi
  · rcases List.mem_cons.mp hi with rfl | hi
    · exact ⟨rfl, hkind⟩
    · exact (mem_lineFrom h hnear hkind hi).1

/-! ### The stream stays on its line -/

/-- Neighbours over links that are up are behind different ports. -/
theorem Fabric.port_inj {u v w : Fin n} (hv : fab.driver.topo.linkUp u v = true) (hw : fab.driver.topo.linkUp u w = true)
    (hport : fab.port u v = fab.port u w) : v = w := by
  have hiface : ∀ x, fab.driver.topo.linkUp u x = true → ∃ i, fab.driver.topo.nbr2if u x = some i ∧
      (fab.port u x).val = i.idx.toNat := by
    intro x hx
    cases hi : fab.driver.topo.nbr2if u x with
    | none => simp [Topology.linkUp, Lcmp.linkUp, hi] at hx
    | some i =>
        refine ⟨i, rfl, ?_⟩
        have hidx : fab.driver.topo.ifIdx u x = i.idx := by simp [Topology.ifIdx, hi]
        rw [Fabric.port, hidx]
        exact Nat.mod_eq_of_lt (fab.ports u x i hi)
  obtain ⟨i, hi, hival⟩ := hiface v hv
  obtain ⟨j, hj, hjval⟩ := hiface w hw
  apply fab.driver.topo.device u v w i j hi hj
  apply UInt32.toNat_inj.mp
  rw [← hival, ← hjval, hport]

/-- The switches send the stream's packets to the neighbours that `via` names. -/
def SentVia (fab : Fabric n) (f : Stream) (via : Fin n → Fin n) (s : FabricState n α) (e : FabricEvent n α) : Prop :=
  ∀ v uninit p w, Arrival fab s e v uninit p → f.contains p = true → s.route fab v uninit p.ch = some w → w = via v

theorem Happens.follows {s : FabricState n α} {e : FabricEvent n α} {event : Happening (Stage n) (Fin n) (NetPacket α)}
    (h : Happens fab s e event) (hdistinct : fab.driver.topo.DistinctAddresses) (hleads : Leads fab f via a b)
    (hdist : fab.driver.topo.IsDist b (k + 1) a) (hvia : SentVia fab f via s e) {p : NetPacket α}
    (hitem : event.item = some p) (hp : f.contains p = true) :
    Traffic.Follows (nextStage fab f via) (streamLine fab f via a k) b event := by
  obtain ⟨hsip, -, -, -, -, -⟩ := Stream.contains_iff.mp hp
  have hsource : ∀ u, fab.isHost u = true → p.ch.sip = Topology.dstAddr u → u = a := fun u hu hu' =>
    hdistinct u a (of_decide_eq_true hu) (of_decide_eq_true hleads.source) (hu'.symm.trans (hsip.trans hleads.sip))
  have hfirst : ∀ u v, u = a → fab.nicPeer u p.ch = some v → v = via a := by
    rintro u v rfl hnic
    rw [Stream.nicPeer_eq fab hp, hleads.nic] at hnic
    exact (Option.some.inj hnic).symm
  cases h with
  | nothing => cases hitem
  | @send u v q hhost hprot hfrom hnic =>
      obtain rfl := Option.some.inj hitem
      obtain rfl := hsource u hhost hfrom
      obtain rfl := hfirst u v rfl hnic
      have hacks : ¬ f.acks = true := by
        rcases Stream.l3Prot_cases hp with ⟨-, hack | hnack⟩ | ⟨hno, -⟩
        · rw [hprot] at hack
          cases hack
        · rw [hprot] at hnack
          cases hnack
        · simp [hno]
      show (streamLine fab f via u k).head? = some _
      unfold streamLine
      rw [if_neg hacks]
      rfl
  | @queueAck u v q hhost hprot hfrom hnic =>
      obtain rfl := Option.some.inj hitem
      obtain rfl := hsource u hhost hfrom
      obtain rfl := hfirst u v rfl hnic
      have hacks : f.acks = true := by
        rcases Stream.l3Prot_cases hp with ⟨hyes, -⟩ | ⟨-, hdata⟩
        · exact hyes
        · rw [hdata] at hprot
          rcases hprot with hack | hnack
          · cases hack
          · cases hnack
      show (streamLine fab f via u k).head? = some _
      unfold streamLine
      rw [if_pos hacks]
      rfl
  | refuse => trivial
  | @sendAck u v q =>
      intro hi
      obtain ⟨rfl, rfl⟩ := mem_streamLine hleads hdist hi
      rfl
  | @dequeue u v q x hlink =>
      intro hi
      obtain ⟨hport, hup⟩ := mem_streamLine hleads hdist hi
      obtain rfl := Fabric.port_inj hlink hup hport
      rfl
  | @forward u v w uninit x harrival hroute hlink =>
      obtain rfl := Option.some.inj hitem
      intro hi
      obtain rfl := hvia v uninit x w harrival hp hroute
      show (if fab.isHost v then none else _) = _
      rw [if_neg (by simp [harrival.1]), Stream.classAt_eq fab hp]
  | @receive u v x hhost =>
      intro hi
      obtain ⟨-, hkind⟩ := mem_streamLine hleads hdist hi
      refine ⟨if_pos hhost, hkind.resolve_right fun hswitch => ?_⟩
      rw [hhost] at hswitch
      cases hswitch
  | lose => trivial

/-- The traffic of a stream. -/
def FabricState.stream (s : FabricState n α) (f : Stream) : Traffic (Stage n) (Fin n) (NetPacket α) :=
  s.traffic.share f.contains

/-- What one event does to the order of a stream. -/
theorem FabricStep.ordered {s s' : FabricState n α} {e : FabricEvent n α} (h : FabricStep fab s e s')
    (hdistinct : fab.driver.topo.DistinctAddresses) (hleads : Leads fab f via a b) (hdist : fab.driver.topo.IsDist b (k + 1) a)
    (hvia : SentVia fab f via s e) (hordered : (s.stream f).Ordered (streamLine fab f via a k) b) :
    (s'.stream f).Ordered (streamLine fab f via a k) b := by
  obtain ⟨event, hstep, hhappens⟩ := h.traffic
  by_cases hmine : ∃ p, event.item = some p ∧ f.contains p = true
  · obtain ⟨p, hitem, hp⟩ := hmine
    exact hordered.step (streamLine_line hleads hdist) (streamLine_nodup hleads hdist) (hstep.share_of_mem hitem hp)
      (hhappens.follows hdistinct hleads hdist hvia hitem hp)
  · have hsame := hstep.share_of_not_mem (p := f.contains) fun p hitem hp => hmine ⟨p, hitem, hp⟩
    unfold FabricState.stream at hordered ⊢
    rw [hsame]
    exact hordered

end Lcmp
