import Lcmp.Network.HostedFlow
import Lcmp.Transport.Lossless

/-!
# What the fabric is to a flow

Whatever the fabric does, a flow through it is a flow over the arbitrary network: what arrives has been sent. If its
two streams stay on their lines and lose nothing, it is a flow over a path that keeps the order and loses nothing.
-/

namespace Lcmp

open RouteDriver Segments

variable {n : Nat} {fab : Fabric n} {h : FlowHosts n} {qp : RdmaQueuePair}

/-! ### The packets of the flow -/

namespace FlowHosts

theorem ownData_dataPacket (h : FlowHosts n) (frame : DataFrame) : h.ownData (h.dataPacket frame) = true :=
  Bool.and_eq_true_iff.mpr ⟨decide_eq_true ⟨rfl, rfl, rfl, rfl⟩, decide_eq_true rfl⟩

theorem ownAck_ackPacket (h : FlowHosts n) (frame : AckFrame) : h.ownAck (h.ackPacket frame) = true := by
  refine Bool.and_eq_true_iff.mpr ⟨decide_eq_true ⟨?_, rfl, rfl, rfl⟩, decide_eq_true rfl⟩
  unfold ackPacket
  dsimp only
  split
  · exact .inr rfl
  · exact .inl rfl

theorem contains_dataPacket (h : FlowHosts n) (frame : DataFrame) : h.dataStream.contains (h.dataPacket frame) = true :=
  decide_eq_true ⟨rfl, rfl, rfl, rfl, rfl, rfl⟩

theorem contains_ackPacket (h : FlowHosts n) (frame : AckFrame) : h.ackStream.contains (h.ackPacket frame) = true := by
  have hprot : (h.ackPacket frame).ch.l3Prot = 0xFC ∨ (h.ackPacket frame).ch.l3Prot = 0xFD :=
    (of_decide_eq_true (isAck_of_ownAck (h.ownAck_ackPacket frame))).1
  have hacks : h.ackStream.acks = true := rfl
  refine decide_eq_true ⟨rfl, rfl, rfl, rfl, rfl, ?_⟩
  rw [if_pos hacks]
  exact hprot

theorem ownData_of_contains {p : NetPacket Payload} (hp : h.dataStream.contains p = true) : h.ownData p = true := by
  obtain ⟨hsip, hdip, hsport, -, hpg, hprot⟩ := Stream.contains_iff.mp hp
  exact Bool.and_eq_true_iff.mpr ⟨decide_eq_true ⟨hprot, hsip, hsport, hpg⟩, decide_eq_true hdip⟩

theorem ownAck_of_contains {p : NetPacket Payload} (hp : h.ackStream.contains p = true) : h.ownAck p = true := by
  obtain ⟨hsip, hdip, -, hdport, hpg, hprot⟩ := Stream.contains_iff.mp hp
  exact Bool.and_eq_true_iff.mpr ⟨decide_eq_true ⟨hprot, hsip, hdport, hpg⟩, decide_eq_true hdip⟩

/-- A packet is not both, since its protocol tells. -/
theorem l3Prot_of_ownData {p : NetPacket Payload} (hp : h.ownData p = true) : p.ch.l3Prot = 0x11 :=
  (of_decide_eq_true (isData_of_ownData hp)).1

theorem l3Prot_of_ownAck {p : NetPacket Payload} (hp : h.ownAck p = true) : p.ch.l3Prot = 0xFC ∨ p.ch.l3Prot = 0xFD :=
  (of_decide_eq_true (isAck_of_ownAck hp)).1

theorem ownAck_eq_false {p : NetPacket Payload} (hprot : p.ch.l3Prot = 0x11) : h.ownAck p = false := by
  by_contra hack
  rcases l3Prot_of_ownAck (by simpa using hack) with hfc | hfd
  · rw [hprot] at hfc
    cases hfc
  · rw [hprot] at hfd
    cases hfd

theorem ownData_eq_false {p : NetPacket Payload} (hprot : p.ch.l3Prot = 0xFC ∨ p.ch.l3Prot = 0xFD) : h.ownData p = false := by
  by_contra hdata
  have hudp := l3Prot_of_ownData (h := h) (p := p) (by simpa using hdata)
  rw [hudp] at hprot
  rcases hprot with hfc | hfd
  · cases hfc
  · cases hfd

end FlowHosts

open FlowHosts

/-- The packets between the hosts with the keys of the flow are its own, and what is on its way was sent. -/
structure Keyed (h : FlowHosts n) (s : HostedFlow n) : Prop where
  data : ∀ p ∈ s.net.sent, h.ownData p = true → ∃ frame, p = h.dataPacket frame
  acks : ∀ p ∈ s.net.sent, h.ownAck p = true → ∃ frame, p = h.ackPacket frame
  stages : ∀ i, s.net.stage i ⊆ s.net.sent

/-- What enters the fabric at an event that the flow has no part in. -/
theorem entering_other {s : FabricState n Payload} {net : FabricState n Payload} {e : FabricEvent n Payload}
    (hstep : FabricStep fab s e net) (hsend : ∀ u p, e = .send u p → h.ownData p = false)
    (hack : ∀ u p, e = .queueAck u p → h.ownAck p = false) : ∀ p ∈ e.entering, h.ownData p = false ∧ h.ownAck p = false := by
  intro p hp
  cases hstep with
  | @send u v q hhost hprot hsip hnic =>
      obtain rfl := List.mem_singleton.mp hp
      exact ⟨hsend u p rfl, ownAck_eq_false hprot⟩
  | @queueAck u v q hhost hprot hsip hnic =>
      obtain rfl := List.mem_singleton.mp hp
      exact ⟨ownData_eq_false hprot, hack u p rfl⟩
  | @refuseAck u q hprot =>
      obtain rfl := List.mem_singleton.mp hp
      exact ⟨ownData_eq_false hprot, hack u p rfl⟩
  | _ => cases hp

theorem keyed_start (fab : Fabric n) (h : FlowHosts n) (qp : RdmaQueuePair) : Keyed h (hostedSystem fab h qp).init where
  data := fun _ hp => absurd hp List.not_mem_nil
  acks := fun _ hp => absurd hp List.not_mem_nil
  stages := by
    intro i
    cases i with
    | _ => exact List.nil_subset _

theorem Keyed.step {s t : HostedFlow n} {e : FabricEvent n Payload} {net : FabricState n Payload} (hkeyed : Keyed h s)
    (hstep : FabricStep fab s.net e net) (hhosted : HostedStep fab h s e net t) : Keyed h t := by
  have hnet := hhosted.net_eq
  -- what enters belongs to the flow, has other keys or goes elsewhere
  have hnew : ∀ p ∈ e.entering, (h.ownData p = true → ∃ frame, p = h.dataPacket frame) ∧
      (h.ownAck p = true → ∃ frame, p = h.ackPacket frame) := by
    have hfree : e.entering = [] → ∀ p ∈ e.entering, (h.ownData p = true → ∃ frame, p = h.dataPacket frame) ∧
        (h.ownAck p = true → ∃ frame, p = h.ackPacket frame) := by
      intro hnone p hp
      rw [hnone] at hp
      cases hp
    have hdeliver : ∀ v p, s.net.receives fab e = some (v, p) → e.entering = [] := by
      intro v p hreceive
      obtain ⟨-, u, uninit, rest, rfl, -⟩ := receives_spec hreceive
      rfl
    cases hhosted with
    | @answer ack hpending henter =>
        intro p hp
        rw [henter] at hp
        obtain rfl := List.mem_singleton.mp hp
        refine ⟨fun hdata => ?_, fun _ => ⟨ack, rfl⟩⟩
        rw [ownData_eq_false (l3Prot_of_ownAck (h.ownAck_ackPacket ack))] at hdata
        cases hdata
    | @send frame flow hpending hsend henter =>
        intro p hp
        rw [henter] at hp
        obtain rfl := List.mem_singleton.mp hp
        refine ⟨fun _ => ⟨frame, rfl⟩, fun hack => ?_⟩
        rw [ownAck_eq_false (l3Prot_of_ownData (h.ownData_dataPacket frame))] at hack
        cases hack
    | data hpending hreceive => exact hfree (hdeliver _ _ hreceive)
    | ack hpending hreceive => exact hfree (hdeliver _ _ hreceive)
    | other hpending hsend hack hreceive =>
        intro p hp
        obtain ⟨hdata, hack⟩ := entering_other hstep hsend hack p hp
        exact ⟨fun hyes => absurd (hyes.symm.trans hdata) (by simp), fun hyes => absurd (hyes.symm.trans hack) (by simp)⟩
  refine ⟨fun p hp => ?_, fun p hp => ?_, ?_⟩
  · rw [hnet, hstep.sent_eq] at hp
    rcases List.mem_append.mp hp with hp | hp
    · exact hkeyed.data p hp
    · exact (hnew p hp).1
  · rw [hnet, hstep.sent_eq] at hp
    rcases List.mem_append.mp hp with hp | hp
    · exact hkeyed.acks p hp
    · exact (hnew p hp).2
  · obtain ⟨event, htraffic, -⟩ := hstep.traffic
    rw [hnet]
    exact htraffic.stage_subset_sent hkeyed.stages

/-- What a host receives has been sent. -/
theorem Keyed.sent_of_receives {s : HostedFlow n} {e : FabricEvent n Payload} (hkeyed : Keyed h s) {v : Fin n}
    {p : NetPacket Payload} (hreceive : s.net.receives fab e = some (v, p)) : p ∈ s.net.sent ∧ e.entering = [] := by
  obtain ⟨-, u, uninit, rest, rfl, hwire⟩ := receives_spec hreceive
  refine ⟨hkeyed.stages (.wire u v) ?_, rfl⟩
  rw [FabricState.stage_wire, hwire]
  exact List.mem_cons_self

/-! ### An arbitrary network -/

/-- A packet with this segment has been received by the destination. -/
def Arrived (h : FlowHosts n) (s : HostedFlow n) (x : Segment) : Prop :=
  ∃ frame, h.dataPacket frame ∈ s.net.received h.b ∧ frame.segment = x

/-- The flow over the fabric and the flow over the arbitrary network. -/
structure OverNet (h : FlowHosts n) (s : HostedFlow n) (v : NetState) : Prop where
  flow : v.flow = s.flow
  clock : v.clock ≤ s.net.clock
  data : ∀ frame, h.dataPacket frame ∈ s.net.sent → frame ∈ v.sent
  acks : ∀ frame, h.ackPacket frame ∈ s.net.sent → frame ∈ v.acks
  pending : ∀ frame, s.pending = some frame → frame ∈ v.acks
  accepted : ∀ x ∈ v.retired.flatten ++ v.accepted, Arrived h s x

theorem dataPacket_inj {x y : DataFrame} (hsame : h.dataPacket x = h.dataPacket y) : x = y :=
  Payload.data.inj (congrArg NetPacket.payload hsame)

theorem ackPacket_inj {x y : AckFrame} (hsame : h.ackPacket x = h.ackPacket y) : x = y :=
  Payload.ack.inj (congrArg NetPacket.payload hsame)

theorem dataPacket_ne_ackPacket (x : DataFrame) (y : AckFrame) : h.dataPacket x ≠ h.ackPacket y := by
  intro hsame
  cases congrArg NetPacket.payload hsame

theorem Arrived.step {s t : HostedFlow n} {e : FabricEvent n Payload} {net : FabricState n Payload}
    (hstep : FabricStep fab s.net e net) (hhosted : HostedStep fab h s e net t) {x : Segment} (hx : Arrived h s x) :
    Arrived h t x := by
  obtain ⟨frame, hframe, hsegment⟩ := hx
  refine ⟨frame, ?_, hsegment⟩
  rw [hhosted.net_eq, hstep.received_eq]
  exact List.mem_append_left _ hframe

/-- What is accepted has arrived. -/
theorem Arrived.accepted {s t : HostedFlow n} {e : FabricEvent n Payload} {net : FabricState n Payload} {v : NetState}
    {frame : DataFrame} (hstep : FabricStep fab s.net e net) (hhosted : HostedStep fab h s e net t)
    (hreceive : s.net.receives fab e = some (h.b, h.dataPacket frame))
    (haccepted : ∀ x ∈ v.retired.flatten ++ v.accepted, Arrived h s x) :
    ∀ x ∈ v.retired.flatten ++ acceptedAfter v frame, Arrived h t x := by
  intro x hx
  have hcases : x ∈ v.retired.flatten ++ v.accepted ∨ x = frame.segment := by
    rcases List.mem_append.mp hx with hretired | hlast
    · exact .inl (List.mem_append_left _ hretired)
    · unfold acceptedAfter at hlast
      split at hlast
      · rcases List.mem_append.mp hlast with hold | hnew
        · exact .inl (List.mem_append_right _ hold)
        · exact .inr (List.mem_singleton.mp hnew)
      · exact .inl (List.mem_append_right _ hlast)
  rcases hcases with hold | rfl
  · exact (haccepted x hold).step hstep hhosted
  · refine ⟨frame, ?_, rfl⟩
    rw [hhosted.net_eq, hstep.received_eq, hreceive]
    simp

/-- Every step of the flow is a step over the arbitrary network or none. -/
theorem OverNet.step {s t : HostedFlow n} {e : FabricEvent n Payload} {net : FabricState n Payload} {v : NetState}
    (hover : OverNet h s v) (hkeyed : Keyed h s) (hstep : FabricStep fab s.net e net)
    (hhosted : HostedStep fab h s e net t) :
    ∃ v', (v' = v ∨ ∃ event, netNext h.hw v event = some v') ∧ OverNet h t v' := by
  have hclock := hover.clock.trans hstep.clock_le
  have hsent := hstep.sent_eq
  have hold : ∀ x ∈ v.retired.flatten ++ v.accepted, Arrived h t x := fun x hx => (hover.accepted x hx).step hstep hhosted
  have hstepped := hhosted
  cases hhosted with
  | @answer ack hpending henter =>
      refine ⟨v, .inl rfl, hover.flow, hclock, fun frame hframe => ?_, fun frame hframe => ?_, fun frame hnone => ?_, hold⟩
      · rw [hsent, henter] at hframe
        rcases List.mem_append.mp hframe with hold | hnew
        · exact hover.data frame hold
        · exact absurd (List.mem_singleton.mp hnew) (dataPacket_ne_ackPacket frame ack)
      · rw [hsent, henter] at hframe
        rcases List.mem_append.mp hframe with hold | hnew
        · exact hover.acks frame hold
        · obtain rfl := ackPacket_inj (List.mem_singleton.mp hnew)
          exact hover.pending frame hpending
      · cases hnone
  | @send frame₁ flow hpending hsend henter =>
      refine ⟨{ v with flow := flow, sent := frame₁ :: v.sent }, .inr ⟨.send, ?_⟩, rfl, hclock, fun frame hframe => ?_,
        fun frame hframe => ?_, hover.pending, hold⟩
      · simp only [netNext, hover.flow, hsend]
      · rw [hsent, henter] at hframe
        rcases List.mem_append.mp hframe with hold | hnew
        · exact List.mem_cons_of_mem _ (hover.data frame hold)
        · exact dataPacket_inj (List.mem_singleton.mp hnew) ▸ List.mem_cons_self
      · rw [hsent, henter] at hframe
        rcases List.mem_append.mp hframe with hold | hnew
        · exact hover.acks frame hold
        · exact absurd (List.mem_singleton.mp hnew).symm (dataPacket_ne_ackPacket frame₁ frame)
  | @data p frame₁ ack flow hpending hreceive hmine hpayload hrecv =>
      obtain ⟨hp, hnone⟩ := hkeyed.sent_of_receives hreceive
      obtain ⟨frame', rfl⟩ := hkeyed.data p hp hmine
      obtain rfl := Payload.data.inj hpayload
      rw [hnone, List.append_nil] at hsent
      refine ⟨{ v with
        flow := flow
        clock := s.net.clock
        acks := ack.toList ++ v.acks
        accepted := acceptedAfter v frame'
        largest := max v.largest flow.expected.toNat }, .inr ⟨.data frame' s.net.clock, ?_⟩, rfl, hstep.clock_le,
        fun frame hframe => hover.data frame (hsent ▸ hframe),
        fun frame hframe => List.mem_append_right _ (hover.acks frame (hsent ▸ hframe)), fun frame hframe => ?_,
        Arrived.accepted hstep hstepped hreceive hover.accepted⟩
      · simp only [netNext, hover.flow, hrecv]
        rw [if_pos ⟨hover.data frame' hp, hover.clock⟩]
      · dsimp only at hframe
        rw [hframe]
        exact List.mem_cons_self
  | @ack p frame₁ flow hpending hreceive hmine hpayload hrecv =>
      obtain ⟨hp, hnone⟩ := hkeyed.sent_of_receives hreceive
      obtain ⟨frame', rfl⟩ := hkeyed.acks p hp hmine
      obtain rfl := Payload.ack.inj hpayload
      rw [hnone, List.append_nil] at hsent
      have hpend : ∀ (w : NetState), w.acks = v.acks → ∀ frame, s.pending = some frame → frame ∈ w.acks := by
        intro w hw frame hframe
        rw [hpending] at hframe
        cases hframe
      by_cases hsame : flow.completions = v.flow.completions
      · refine ⟨{ v with flow := flow }, .inr ⟨.ack frame', ?_⟩, rfl, hclock, fun frame hframe => hover.data frame (hsent ▸ hframe),
          fun frame hframe => hover.acks frame (hsent ▸ hframe), hpend _ rfl, hold⟩
        simp only [netNext]
        rw [if_pos (hover.acks frame' hp), hover.flow, hrecv]
        dsimp only
        rw [if_pos (hover.flow ▸ hsame)]
      · refine ⟨{ v with flow := flow, accepted := [], retired := v.accepted :: v.retired }, .inr ⟨.ack frame', ?_⟩, rfl, hclock,
          fun frame hframe => hover.data frame (hsent ▸ hframe), fun frame hframe => hover.acks frame (hsent ▸ hframe),
          hpend _ rfl, fun x hx => hold x ?_⟩
        · simp only [netNext]
          rw [if_pos (hover.acks frame' hp), hover.flow, hrecv]
          dsimp only
          rw [if_neg (hover.flow ▸ hsame)]
        · dsimp only at hx
          rw [List.flatten_cons, List.append_nil] at hx
          rcases List.mem_append.mp hx with hlast | hretired
          · exact List.mem_append_right _ hlast
          · exact List.mem_append_left _ hretired
  | other hpending hsend hack hreceive =>
      have hnew := entering_other hstep hsend hack
      refine ⟨v, .inl rfl, hover.flow, hclock, fun frame hframe => ?_, fun frame hframe => ?_, hover.pending, hold⟩
      · rw [hsent] at hframe
        rcases List.mem_append.mp hframe with hold | hin
        · exact hover.data frame hold
        · have hno := (hnew _ hin).1
          rw [h.ownData_dataPacket frame] at hno
          cases hno
      · rw [hsent] at hframe
        rcases List.mem_append.mp hframe with hold | hin
        · exact hover.acks frame hold
        · have hno := (hnew _ hin).2
          rw [h.ownAck_ackPacket frame] at hno
          cases hno

theorem exists_overNet {s : HostedFlow n} (hreach : (hostedSystem fab h qp).Reachable s) :
    ∃ v, (netSystem h.hw qp).Reachable v ∧ OverNet h s v := by
  have hinv := hreach.invariant
    (P := fun s => Keyed h s ∧ ∃ v, (netSystem h.hw qp).Reachable v ∧ OverNet h s v) ?_ ?_
  · exact hinv.2
  · refine ⟨keyed_start fab h qp, _, .init, rfl, Int.le_refl 0, fun frame hframe => ?_, fun frame hframe => ?_,
      fun frame hframe => ?_, fun x hx => ?_⟩
    · cases hframe
    · cases hframe
    · cases hframe
    · cases hx
  · intro s e t ⟨hkeyed, v, hv, hover⟩ hnext
    obtain ⟨net, hnet, hhosted⟩ := hosted_step hnext
    have hstep := fabricNext_step hnet
    obtain ⟨v', hmoves, hover'⟩ := hover.step hkeyed hstep hhosted
    refine ⟨hkeyed.step hstep hhosted, v', ?_, hover'⟩
    rcases hmoves with rfl | ⟨event, hevent⟩
    · exact hv
    · exact hv.step hevent

/-- Whatever the fabric does to the packets of a flow of fewer than `2^32` bytes: every byte that the source takes as
acknowledged is in a packet that the destination has received, the flow completes at most once, and only when all of
its bytes have been received. -/
theorem acknowledged_arrived (hsize : qp.mSize.toNat < 2 ^ 32) {s : HostedFlow n}
    (hreach : (hostedSystem fab h qp).Reachable s) :
    (∀ byte < s.flow.qp.sndUna.toNat, ∃ x, Arrived h s x ∧ x.1 ≤ byte ∧ byte < x.1 + x.2) ∧
    s.flow.completions ≤ 1 ∧
    (s.flow.completions = 1 → ∀ byte < qp.mSize.toNat, ∃ x, Arrived h s x ∧ x.1 ≤ byte ∧ byte < x.1 + x.2) := by
  obtain ⟨v, hv, hover⟩ := exists_overNet hreach
  have hinv : NetInv qp.mSize v := hv.invariant (netInv_start qp) fun _ _ _ hv hnext => netInv_step hsize hv hnext
  have hcovered : ∀ byte < v.largest, ∃ x, Arrived h s x ∧ x.1 ≤ byte ∧ byte < x.1 + x.2 := by
    intro byte hbyte
    obtain ⟨x, hx, hin⟩ := hinv.covered byte hbyte
    exact ⟨x, hover.accepted x hx, hin⟩
  rw [← hover.flow]
  refine ⟨fun byte hbyte => hcovered byte (hbyte.trans_le hinv.sndUna), ?_, fun hone byte hbyte => ?_⟩
  · cases hmap : v.flow.inMap with
    | true => exact (hinv.live hmap).trans_le (Nat.zero_le 1)
    | false => exact (hinv.done hmap).1.le
  · cases hmap : v.flow.inMap with
    | true =>
        have hzero := hinv.live hmap
        omega
    | false => exact hcovered byte ((hinv.done hmap).2.symm ▸ hbyte)

/-- The sample flow has completed, so its bytes have arrived. -/
theorem acknowledged_arrived_thereAndBack :
    ∃ s, (hostedSystem twoWaysFabric sampleFlow (plainQp 2000)).exec
        (hostedSystem twoWaysFabric sampleFlow (plainQp 2000)).init thereAndBack = some s ∧
      ∀ byte < 2000, ∃ x, Arrived sampleFlow s x ∧ x.1 ≤ byte ∧ byte < x.1 + x.2 := by
  have hexec := (Option.some_get thereAndBack_runs).symm
  refine ⟨_, hexec, ?_⟩
  exact (acknowledged_arrived (by decide) (System.reachable_of_exec thereAndBack hexec)).2.2 (by decide +kernel)

/-! ### A path that keeps the order -/

/-- What has been sent of a stream and not received by its destination. -/
def FabricState.inFlight (s : FabricState n Payload) (f : Stream) (b : Fin n) : List (NetPacket Payload) :=
  (s.sent.filter f.contains).drop ((s.received b).filter f.contains).length

/-- What an event delivers of a stream. -/
def FabricState.arriving (fab : Fabric n) (s : FabricState n Payload) (e : FabricEvent n Payload) (f : Stream) (b : Fin n) :
    List (NetPacket Payload) :=
  (((s.receives fab e).toList.filter fun x => x.1 = b).map Prod.snd).filter f.contains

/-- What has been received of a stream is the first part of what has been sent. -/
def FabricState.InOrder (s : FabricState n Payload) (f : Stream) (b : Fin n) : Prop :=
  (s.received b).filter f.contains <+: s.sent.filter f.contains

theorem FabricState.InOrder.split {s : FabricState n Payload} {f : Stream} {b : Fin n} (hs : s.InOrder f b) :
    s.sent.filter f.contains = (s.received b).filter f.contains ++ s.inFlight f b := by
  obtain ⟨rest, hrest⟩ := hs
  unfold FabricState.inFlight
  rw [← hrest, List.drop_left]

/-- What enters joins the end, and what is delivered leaves the head. -/
theorem inFlight_step {s net : FabricState n Payload} {e : FabricEvent n Payload} (hstep : FabricStep fab s e net) {f : Stream}
    {b : Fin n} (hbefore : s.InOrder f b) (hafter : net.InOrder f b) :
    s.inFlight f b ++ e.entering.filter f.contains = s.arriving fab e f b ++ net.inFlight f b := by
  have hsplit := hafter.split
  rw [hstep.sent_eq, hstep.received_eq b, List.filter_append, List.filter_append, hbefore.split, List.append_assoc,
    List.append_assoc] at hsplit
  exact List.append_cancel_left hsplit

theorem arriving_of_none {s : FabricState n Payload} {e : FabricEvent n Payload} (hnone : s.receives fab e = none) (f : Stream)
    (b : Fin n) : s.arriving fab e f b = [] := by
  unfold FabricState.arriving
  rw [hnone]
  rfl

theorem arriving_of_some {s : FabricState n Payload} {e : FabricEvent n Payload} {b : Fin n} {p : NetPacket Payload}
    (hsome : s.receives fab e = some (b, p)) {f : Stream} (hp : f.contains p = true) : s.arriving fab e f b = [p] := by
  unfold FabricState.arriving
  rw [hsome]
  simp [hp]

theorem arriving_of_other {s : FabricState n Payload} {e : FabricEvent n Payload} {f : Stream} {b : Fin n}
    (hother : ∀ v p, s.receives fab e = some (v, p) → v = b → f.contains p = false) : s.arriving fab e f b = [] := by
  unfold FabricState.arriving
  cases hreceive : s.receives fab e with
  | none => rfl
  | some x =>
      by_cases hv : x.1 = b
      · simp [hv, hother x.1 x.2 hreceive hv]
      · simp [hv]

/-- What is delivered is a packet of another stream. -/
theorem arriving_of_not_contains {s : FabricState n Payload} {e : FabricEvent n Payload} {v b : Fin n} {p : NetPacket Payload}
    (hsome : s.receives fab e = some (v, p)) {f : Stream} (hp : f.contains p = false) : s.arriving fab e f b = [] := by
  apply arriving_of_other
  intro v' p' hreceive _
  rw [hsome] at hreceive
  obtain ⟨-, rfl⟩ := Prod.mk.inj (Option.some.inj hreceive)
  exact hp

/-- An event that puts something in delivers nothing. -/
theorem receives_of_entering {s : FabricState n Payload} {e : FabricEvent n Payload} (henter : e.entering ≠ []) :
    s.receives fab e = none := by
  cases e with
  | deliver u v corrupt uninit => exact absurd rfl henter
  | _ => rfl

theorem ackStream_dataPacket (h : FlowHosts n) (frame : DataFrame) : h.ackStream.contains (h.dataPacket frame) = false := by
  by_contra hyes
  have hack := ownAck_of_contains (h := h) (p := h.dataPacket frame) (by simpa using hyes)
  rw [ownAck_eq_false (l3Prot_of_ownData (h.ownData_dataPacket frame))] at hack
  cases hack

theorem dataStream_ackPacket (h : FlowHosts n) (frame : AckFrame) : h.dataStream.contains (h.ackPacket frame) = false := by
  by_contra hyes
  have hdata := ownData_of_contains (h := h) (p := h.ackPacket frame) (by simpa using hyes)
  rw [ownData_eq_false (l3Prot_of_ownAck (h.ownAck_ackPacket frame))] at hdata
  cases hdata

/-- The flow over the fabric and the flow over the path. An answer that is not queued yet is the last one there. -/
structure OverFifo (h : FlowHosts n) (s : HostedFlow n) (q : FifoState) : Prop where
  flow : q.flow = s.flow
  clock : q.clock ≤ s.net.clock
  data : q.dataQ.map h.dataPacket = s.net.inFlight h.dataStream h.b
  acks : q.ackQ.map h.ackPacket = s.net.inFlight h.ackStream h.a ++ s.pending.toList.map h.ackPacket

/-- Every step of the flow is a step over the path or none. -/
theorem OverFifo.step {s t : HostedFlow n} {e : FabricEvent n Payload} {net : FabricState n Payload} {q : FifoState}
    (hover : OverFifo h s q) (hkeyed : Keyed h s) (hstep : FabricStep fab s.net e net) (hhosted : HostedStep fab h s e net t)
    (hdata : s.net.InOrder h.dataStream h.b) (hdata' : net.InOrder h.dataStream h.b) (hacks : s.net.InOrder h.ackStream h.a)
    (hacks' : net.InOrder h.ackStream h.a) :
    ∃ q', (q' = q ∨ ∃ event, fifoNext h.hw false false q event = some q') ∧ OverFifo h t q' := by
  have hclock := hover.clock.trans hstep.clock_le
  have hdataStep := inFlight_step hstep hdata hdata'
  have hacksStep := inFlight_step hstep hacks hacks'
  cases hhosted with
  | @answer ack hpending henter =>
      have hnone : s.net.receives fab e = none := receives_of_entering (by simp [henter])
      rw [henter, arriving_of_none hnone, List.filter_cons_of_neg (by simp [dataStream_ackPacket]), List.filter_nil,
        List.append_nil, List.nil_append] at hdataStep
      rw [henter, arriving_of_none hnone, List.filter_cons_of_pos (h.contains_ackPacket ack), List.filter_nil,
        List.nil_append] at hacksStep
      refine ⟨q, .inl rfl, hover.flow, hclock, hover.data.trans hdataStep, ?_⟩
      rw [hover.acks, hpending]
      exact hacksStep.trans (List.append_nil _).symm
  | @send frame flow hpending hsend henter =>
      have hnone : s.net.receives fab e = none := receives_of_entering (by simp [henter])
      rw [henter, arriving_of_none hnone, List.filter_cons_of_pos (h.contains_dataPacket frame), List.filter_nil,
        List.nil_append] at hdataStep
      rw [henter, arriving_of_none hnone, List.filter_cons_of_neg (by simp [ackStream_dataPacket]), List.filter_nil,
        List.append_nil, List.nil_append] at hacksStep
      refine ⟨{ q with flow := flow, dataQ := q.dataQ ++ [frame] }, .inr ⟨.send, ?_⟩, rfl, hclock, ?_, ?_⟩
      · simp only [fifoNext, hover.flow, hsend]
        rfl
      · rw [List.map_append, hover.data]
        exact hdataStep
      · rw [hover.acks, hacksStep]
  | @data p frame ack flow hpending hreceive hmine hpayload hrecv =>
      obtain ⟨hp, hnone⟩ := hkeyed.sent_of_receives hreceive
      obtain ⟨frame', rfl⟩ := hkeyed.data p hp hmine
      obtain rfl := Payload.data.inj hpayload
      have hno : s.net.arriving fab e h.ackStream h.a = [] :=
        arriving_of_not_contains hreceive (ackStream_dataPacket h frame')
      rw [hnone, arriving_of_some hreceive (h.contains_dataPacket frame'), List.filter_nil, List.append_nil] at hdataStep
      rw [hnone, hno, List.filter_nil, List.append_nil, List.nil_append] at hacksStep
      have hqueue : q.dataQ.map h.dataPacket = h.dataPacket frame' :: net.inFlight h.dataStream h.b := hover.data.trans hdataStep
      obtain ⟨head, rest, hqueue', hhead, hrest⟩ := List.map_eq_cons_iff.mp hqueue
      obtain rfl := dataPacket_inj hhead
      refine ⟨{
        flow := flow
        clock := s.net.clock
        dataQ := rest
        ackQ := q.ackQ ++ ack.toList
        nacks := recordNack q.nacks ack }, .inr ⟨.data s.net.clock, ?_⟩, rfl, hstep.clock_le, hrest, ?_⟩
      · simp only [fifoNext, hqueue']
        rw [if_pos hover.clock, hover.flow, hrecv]
      · rw [List.map_append, hover.acks, hpending, hacksStep]
        simp
  | @ack p frame flow hpending hreceive hmine hpayload hrecv =>
      obtain ⟨hp, hnone⟩ := hkeyed.sent_of_receives hreceive
      obtain ⟨frame', rfl⟩ := hkeyed.acks p hp hmine
      obtain rfl := Payload.ack.inj hpayload
      have hno : s.net.arriving fab e h.dataStream h.b = [] :=
        arriving_of_not_contains hreceive (dataStream_ackPacket h frame')
      rw [hnone, hno, List.filter_nil, List.append_nil, List.nil_append] at hdataStep
      rw [hnone, arriving_of_some hreceive (h.contains_ackPacket frame'), List.filter_nil, List.append_nil] at hacksStep
      have hqueue : q.ackQ.map h.ackPacket = h.ackPacket frame' :: net.inFlight h.ackStream h.a := by
        rw [hover.acks, hpending, hacksStep]
        exact List.append_nil _
      obtain ⟨head, rest, hqueue', hhead, hrest⟩ := List.map_eq_cons_iff.mp hqueue
      obtain rfl := ackPacket_inj hhead
      refine ⟨{ q with flow := flow, ackQ := rest }, .inr ⟨.ack, ?_⟩, rfl, hclock, hover.data.trans hdataStep, ?_⟩
      · simp only [fifoNext, hqueue']
        rw [hover.flow, hrecv]
      · rw [hpending]
        exact hrest.trans (List.append_nil _).symm
  | other hpending hsend hack hreceive =>
      have hnew := entering_other hstep hsend hack
      have hdataNone : e.entering.filter h.dataStream.contains = [] := by
        apply List.filter_eq_nil_iff.mpr
        intro p hp hyes
        have hno := (hnew p hp).1
        rw [ownData_of_contains hyes] at hno
        cases hno
      have hacksNone : e.entering.filter h.ackStream.contains = [] := by
        apply List.filter_eq_nil_iff.mpr
        intro p hp hyes
        have hno := (hnew p hp).2
        rw [ownAck_of_contains hyes] at hno
        cases hno
      have hdataArriving : s.net.arriving fab e h.dataStream h.b = [] := by
        apply arriving_of_other
        intro v p hvp hv
        by_contra hyes
        exact (hreceive v p hvp).1 ⟨hv, ownData_of_contains (by simpa using hyes)⟩
      have hacksArriving : s.net.arriving fab e h.ackStream h.a = [] := by
        apply arriving_of_other
        intro v p hvp hv
        by_contra hyes
        exact (hreceive v p hvp).2 ⟨hv, ownAck_of_contains (by simpa using hyes)⟩
      rw [hdataNone, hdataArriving, List.append_nil, List.nil_append] at hdataStep
      rw [hacksNone, hacksArriving, List.append_nil, List.nil_append] at hacksStep
      exact ⟨q, .inl rfl, hover.flow, hclock, hover.data.trans hdataStep, by rw [hover.acks, hacksStep]⟩

/-! ### Every run -/

/-- What the fabric does at a transition of the flow. -/
def inFabric (x : Transition (HostedFlow n) (FabricEvent n Payload)) : Transition (FabricState n Payload) (FabricEvent n Payload) :=
  ⟨x.pre.net, x.label, x.post.net⟩

theorem hosted_run {s t : HostedFlow n} {trace : List (Transition (HostedFlow n) (FabricEvent n Payload))}
    (hrun : (hostedSystem fab h qp).Run s trace t) : (fabricSystem Payload fab).Run s.net (trace.map inFabric) t.net := by
  induction hrun with
  | nil => exact .nil _
  | @cons s t u e trace hnext _ ih =>
      obtain ⟨net, hnet, hhosted⟩ := hosted_step hnext
      obtain rfl := hhosted.net_eq
      exact .cons hnet ih

/-- Both streams of the flow are remembered, and none of their packets has been lost. -/
structure Undisturbed (fab : Fabric n) (h : FlowHosts n) (trace : FabricTrace n Payload) (s : FabricState n Payload) : Prop where
  data : Remembered fab h.dataStream trace
  acks : Remembered fab h.ackStream trace
  dataLost : s.lost.filter h.dataStream.contains = []
  acksLost : s.lost.filter h.ackStream.contains = []

theorem Remembered.front {f : Stream} {before : FabricTrace n Payload}
    {x : Transition (FabricState n Payload) (FabricEvent n Payload)} (hx : Remembered fab f (before ++ [x])) :
    Remembered fab f before where
  oneDestination := fun v hnode hmode => (hx.oneDestination v hnode hmode).front
  gaps := fun v hnode hmode => (hx.gaps v hnode hmode).front

theorem filter_nil_of_prefix {f : Stream} {l m : List (NetPacket Payload)} (hfront : l <+: m) (hnil : m.filter f.contains = []) :
    l.filter f.contains = [] := by
  apply List.filter_eq_nil_iff.mpr
  intro p hp
  exact List.filter_eq_nil_iff.mp hnil p (hfront.subset hp)

theorem Undisturbed.front {before : FabricTrace n Payload} {x : Transition (FabricState n Payload) (FabricEvent n Payload)}
    (hx : Undisturbed fab h (before ++ [x]) x.post) (hstep : FabricStep fab x.pre x.label x.post) :
    Undisturbed fab h before x.pre where
  data := hx.data.front
  acks := hx.acks.front
  dataLost := filter_nil_of_prefix hstep.lost_prefix hx.dataLost
  acksLost := filter_nil_of_prefix hstep.lost_prefix hx.acksLost

variable {t : Topology n}

/-- The two streams arrive in order. -/
theorem Undisturbed.inOrder (hinstalled : Installed t fab.driver) (hdistinct : t.DistinctAddresses)
    (ha : fab.isHost h.a = true) (hb : fab.isHost h.b = true) {s : FabricState n Payload} {trace : FabricTrace n Payload}
    (hrun : (fabricSystem Payload fab).Run (fabricSystem Payload fab).init trace s) (hquiet : Undisturbed fab h trace s) :
    s.InOrder h.dataStream h.b ∧ s.InOrder h.ackStream h.a := by
  obtain ⟨line, hordered, -⟩ := exists_ordered hinstalled hdistinct ha hb rfl rfl hrun hquiet.data
  obtain ⟨line', hordered', -⟩ := exists_ordered hinstalled hdistinct hb ha rfl rfl hrun hquiet.acks
  have hall : _ ++ _ = s.sent.filter h.dataStream.contains := hordered.eq_of_lost_nil hquiet.dataLost
  have hall' : _ ++ _ = s.sent.filter h.ackStream.contains := hordered'.eq_of_lost_nil hquiet.acksLost
  unfold FabricState.InOrder
  rw [← hall, ← hall']
  exact ⟨List.prefix_append _ _, List.prefix_append _ _⟩

theorem exists_overFifo (hinstalled : Installed t fab.driver) (hdistinct : t.DistinctAddresses) (ha : fab.isHost h.a = true)
    (hb : fab.isHost h.b = true) {s : HostedFlow n} {trace : List (Transition (HostedFlow n) (FabricEvent n Payload))}
    (hrun : (hostedSystem fab h qp).Run (hostedSystem fab h qp).init trace s)
    (hquiet : Undisturbed fab h (trace.map inFabric) s.net) :
    ∃ q, (fifoSystem h.hw false false qp).Reachable q ∧ OverFifo h s q := by
  have hinv := hrun.history (P := fun before s => (hostedSystem fab h qp).Run (hostedSystem fab h qp).init before s ∧ Keyed h s ∧
    (Undisturbed fab h (before.map inFabric) s.net → ∃ q, (fifoSystem h.hw false false qp).Reachable q ∧ OverFifo h s q)) ?_ ?_
  · exact hinv.2.2 hquiet
  · refine ⟨.nil _, keyed_start fab h qp, fun _ => ⟨_, .init, rfl, Int.le_refl 0, rfl, rfl⟩⟩
  · intro before s e t' ⟨hbefore, hkeyed, ih⟩ hnext
    obtain ⟨net, hnet, hhosted⟩ := hosted_step hnext
    have hstep := fabricNext_step hnet
    refine ⟨hbefore.snoc hnext, hkeyed.step hstep hhosted, fun hquiet' => ?_⟩
    have hrun' := hosted_run (hbefore.snoc hnext)
    have horder' := hquiet'.inOrder hinstalled hdistinct ha hb hrun'
    obtain rfl := hhosted.net_eq
    rw [List.map_append] at hquiet'
    have hquiet : Undisturbed fab h (before.map inFabric) s.net := hquiet'.front hstep
    have horder := hquiet.inOrder hinstalled hdistinct ha hb (hosted_run hbefore)
    obtain ⟨q, hq, hover⟩ := ih hquiet
    obtain ⟨q', hmoves, hover'⟩ := hover.step hkeyed hstep hhosted horder.1 horder'.1 horder.2 horder'.2
    refine ⟨q', ?_, hover'⟩
    rcases hmoves with rfl | ⟨event, hevent⟩
    · exact hq
    · exact hq.step hevent

end Lcmp
