import Lcmp.Network.Fabric

/-!
# Where the packets are

A packet on its way is in the ACK queue of a NIC, in an egress queue of a switch or on a link. Each event of the
fabric takes one packet one stage further, puts one in, takes one out or loses one, or does nothing of the kind.
-/

namespace Lcmp

open Pipeline

inductive Stage (n : Nat) where
  | ack (u v : Fin n)
  | egress (v : Fin n) (out : Port) (q : Queue)
  | wire (u v : Fin n)
  deriving DecidableEq

variable {n : Nat} {α : Type}

namespace FabricState

def stage (s : FabricState n α) : Stage n → List (NetPacket α)
  | .ack u v => s.ackQ u v
  | .egress v out q => ((s.switches v).contents out q).map Prod.fst
  | .wire u v => (s.wires u v).filterMap Frame.toPacket

/-- The packets of the fabric, without the frames and the state of the nodes. -/
def traffic (s : FabricState n α) : Traffic (Stage n) (Fin n) (NetPacket α) where
  stage := s.stage
  sent := s.sent
  received := s.received
  lost := s.lost

end FabricState

/-- Packet `p` arrives at switch `v`, which finds `uninit` on its stack. -/
def Arrival (fab : Fabric n) (s : FabricState n α) (e : FabricEvent n α) (v : Fin n) (uninit : UInt32) (p : NetPacket α) :
    Prop :=
  fab.isHost v = false ∧ ∃ u rest, e = .deliver u v false uninit ∧ s.wires u v = .packet p :: rest

/-- What an event makes happen to the packets. -/
inductive Happens (fab : Fabric n) (s : FabricState n α) (e : FabricEvent n α) :
    Happening (Stage n) (Fin n) (NetPacket α) → Prop where
  | nothing : Happens fab s e .nothing
  | send {u v : Fin n} {p : NetPacket α} (hhost : fab.isHost u = true) (hprot : p.ch.l3Prot = 0x11)
      (hsip : p.ch.sip = Topology.dstAddr u) (hnic : fab.nicPeer u p.ch = some v) : Happens fab s e (.enter (.wire u v) p)
  | queueAck {u v : Fin n} {p : NetPacket α} (hhost : fab.isHost u = true)
      (hprot : p.ch.l3Prot = 0xFC ∨ p.ch.l3Prot = 0xFD) (hsip : p.ch.sip = Topology.dstAddr u)
      (hnic : fab.nicPeer u p.ch = some v) : Happens fab s e (.enter (.ack u v) p)
  | refuse {p : NetPacket α} : Happens fab s e (.refuse p)
  | sendAck {u v : Fin n} {p : NetPacket α} : Happens fab s e (.move (.ack u v) (.wire u v) p)
  | dequeue {u v : Fin n} {q : Queue} {p : NetPacket α} (hlink : fab.driver.topo.linkUp u v = true) :
      Happens fab s e (.move (.egress u (fab.port u v) q) (.wire u v) p)
  | forward {u v w : Fin n} {uninit : UInt32} {p : NetPacket α} (harrival : Arrival fab s e v uninit p)
      (hroute : s.route fab v uninit p.ch = some w) (hlink : fab.driver.topo.linkUp v w = true) :
      Happens fab s e (.move (.wire u v) (.egress v (fab.port v w) (fab.classAt v p)) p)
  | receive {u v : Fin n} {p : NetPacket α} (hhost : fab.isHost v = true) : Happens fab s e (.arrive (.wire u v) v p)
  | lose {u v : Fin n} {p : NetPacket α} : Happens fab s e (.lose (.wire u v) p)

/-! ### Stages and steps -/

namespace FabricState

variable {s : FabricState n α} {u v : Fin n}

@[simp] theorem stage_ack : s.stage (.ack u v) = s.ackQ u v := rfl

@[simp] theorem stage_egress (out : Port) (q : Queue) :
    s.stage (.egress v out q) = ((s.switches v).contents out q).map Prod.fst := rfl

@[simp] theorem stage_wire : s.stage (.wire u v) = (s.wires u v).filterMap Frame.toPacket := rfl

/-- Two states with the same stages, which differ in other things. -/
theorem traffic_congr {s s' : FabricState n α} (hack : s'.ackQ = s.ackQ)
    (hcontents : ∀ v out q, (s'.switches v).contents out q = (s.switches v).contents out q)
    (hwires : ∀ u v, (s'.wires u v).filterMap Frame.toPacket = (s.wires u v).filterMap Frame.toPacket)
    (hsent : s'.sent = s.sent) (hreceived : s'.received = s.received) (hlost : s'.lost = s.lost) :
    s'.traffic = s.traffic := by
  have hstage : s'.stage = s.stage := by
    funext k
    cases k with
    | ack u v => rw [stage_ack, stage_ack, hack]
    | egress v out q => rw [stage_egress, stage_egress, hcontents]
    | wire u v => rw [stage_wire, stage_wire, hwires]
  unfold traffic
  rw [hstage, hsent, hreceived, hlost]

/-- What is left on a wire after its first frame. -/
theorem wire_take {frame : Frame α} {rest : List (Frame α)} (hwire : s.wires u v = frame :: rest) (a b : Fin n) :
    (s.wires a b).filterMap Frame.toPacket =
      if a = u ∧ b = v then frame.toPacket.toList ++ ((s.take u v rest).wires a b).filterMap Frame.toPacket
      else ((s.take u v rest).wires a b).filterMap Frame.toPacket := by
  unfold take
  dsimp only
  by_cases hcell : a = u ∧ b = v
  · obtain ⟨rfl, rfl⟩ := hcell
    rw [if_pos ⟨rfl, rfl⟩, Grid.set_self, hwire]
    cases frame with
    | packet p => rfl
    | pfc time q => rfl
  · rw [if_neg hcell, Grid.set_of_ne hcell]

/-- What is on a wire after another frame was put on it. -/
theorem wire_transmit (frame : Frame α) (a b : Fin n) :
    ((s.transmit u v frame).wires a b).filterMap Frame.toPacket =
      if a = u ∧ b = v then (s.wires a b).filterMap Frame.toPacket ++ frame.toPacket.toList
      else (s.wires a b).filterMap Frame.toPacket := by
  unfold transmit
  dsimp only
  by_cases hcell : a = u ∧ b = v
  · obtain ⟨rfl, rfl⟩ := hcell
    rw [if_pos ⟨rfl, rfl⟩, Grid.set_self, List.filterMap_append]
    cases frame with
    | packet p => rfl
    | pfc time q => rfl
  · rw [if_neg hcell, Grid.set_of_ne hcell]

theorem wire_transmit_self (frame : Frame α) :
    ((s.transmit u v frame).wires u v).filterMap Frame.toPacket =
      (s.wires u v).filterMap Frame.toPacket ++ frame.toPacket.toList := by
  rw [wire_transmit, if_pos ⟨rfl, rfl⟩]

theorem wire_transmit_of_ne (frame : Frame α) {a b : Fin n} (h : Stage.wire a b ≠ .wire u v) :
    ((s.transmit u v frame).wires a b).filterMap Frame.toPacket = (s.wires a b).filterMap Frame.toPacket := by
  rw [wire_transmit, if_neg]
  rintro ⟨rfl, rfl⟩
  exact h rfl

theorem set_ackQ_of_ne (packets : List (NetPacket α)) {a b : Fin n} (h : Stage.ack a b ≠ .ack u v) :
    Grid.set s.ackQ u v packets a b = s.ackQ a b := by
  apply Grid.set_of_ne
  rintro ⟨rfl, rfl⟩
  exact h rfl

/-- The packets on the wires without a PFC frame. -/
theorem wire_take_pfc {time : UInt32} {q : Queue} {rest : List (Frame α)} (hwire : s.wires u v = .pfc time q :: rest)
    (a b : Fin n) : ((s.take u v rest).wires a b).filterMap Frame.toPacket = (s.wires a b).filterMap Frame.toPacket := by
  rw [wire_take hwire a b]
  split
  · rfl
  · rfl

/-- A switch that holds the same packets. -/
theorem contents_update {sw : NetSwitch α} (hsame : sw.contents = (s.switches v).contents) (w : Fin n) (out : Port)
    (q : Queue) : (Function.update s.switches v sw w).contents out q = (s.switches w).contents out q := by
  by_cases hw : w = v
  · subst hw
    rw [Function.update_self, hsame]
  · rw [Function.update_of_ne hw]

end FabricState

open FabricState

variable {fab : Fabric n} {s s' : FabricState n α} {e : FabricEvent n α} {u v : Fin n}

/-- A packet leaves the wire between two nodes. -/
theorem left_wire {p : NetPacket α} {rest : List (Frame α)} (hwire : s.wires u v = .packet p :: rest)
    {into : Option (Stage n)} (hack : s'.ackQ = s.ackQ) (hwires : s'.wires = (s.take u v rest).wires)
    (hegress : ∀ w out q, into ≠ some (.egress w out q) → (s'.switches w).contents out q = (s.switches w).contents out q) :
    Left s.stage s'.stage (.wire u v) p into where
  head := by
    rw [stage_wire, stage_wire, wire_take hwire, if_pos ⟨rfl, rfl⟩, hwires]
    rfl
  others := by
    intro k hk hinto
    cases k with
    | ack a b => rw [stage_ack, stage_ack, hack]
    | egress w out q => rw [stage_egress, stage_egress, hegress w out q hinto]
    | wire a b =>
        have hcell : ¬ (a = u ∧ b = v) := by
          rintro ⟨rfl, rfl⟩
          exact hk rfl
        rw [stage_wire, stage_wire, wire_take hwire a b, if_neg hcell, hwires]

/-- The queues of the other switches and of this one after an arrival. -/
theorem contents_sendToDev {p : NetPacket α} {inDev idx : Port} {qIndex : Queue} (a : Fin n) (out : Port)
    (q : Queue) :
    (((Function.update s.switches v ((s.switches v).sendToDev fab.pauseTime inDev idx qIndex p)) a).contents out q) =
      if (s.switches v).node.stores fab.pauseTime inDev idx qIndex p.size = true ∧ a = v ∧ out = idx ∧ q = qIndex then
        (s.switches a).contents out q ++ [(p, inDev)]
      else (s.switches a).contents out q := by
  by_cases ha : a = v
  · subst ha
    rw [Function.update_self, NetSwitch.sendToDev_contents]
    by_cases hcell : (s.switches a).node.stores fab.pauseTime inDev idx qIndex p.size = true ∧ out = idx ∧ q = qIndex
    · obtain ⟨hstores, rfl, rfl⟩ := hcell
      rw [if_pos ⟨hstores, rfl, rfl⟩, if_pos ⟨hstores, rfl, rfl, rfl⟩]
    · rw [if_neg hcell, if_neg fun hc => hcell ⟨hc.1, hc.2.2⟩]
  · rw [Function.update_of_ne ha, if_neg fun hc => ha hc.2.1]

/-- Every event of the fabric is a step of its traffic. -/
theorem FabricStep.traffic (h : FabricStep fab s e s') :
    ∃ event, Traffic.Step s.traffic s'.traffic event ∧ Happens fab s e event := by
  cases h with
  | advance dt => exact ⟨.nothing, .nothing rfl, .nothing⟩
  | @send u v p hhost hprot hsip hnic =>
      refine ⟨.enter (.wire u v) p, .enter ?_ ?_ rfl rfl rfl, .send hhost hprot hsip hnic⟩
      · exact wire_transmit_self (.packet p)
      · intro k hk
        cases k with
        | ack a b => rfl
        | egress w out q => rfl
        | wire a b => exact wire_transmit_of_ne (.packet p) hk
  | @queueAck u v p hhost hprot hsip hnic =>
      refine ⟨.enter (.ack u v) p, .enter ?_ ?_ rfl rfl rfl, .queueAck hhost hprot hsip hnic⟩
      · exact Grid.set_self ..
      · intro k hk
        cases k with
        | ack a b => exact set_ackQ_of_ne _ hk
        | egress w out q => rfl
        | wire a b => rfl
  | @refuseAck u p hprot => exact ⟨.refuse p, .refuse rfl rfl rfl rfl, .refuse⟩
  | @sendAck u v p rest hhead =>
      refine ⟨.move (.ack u v) (.wire u v) p, .move (by simp) ⟨?_, ?_⟩ ?_ rfl rfl rfl, .sendAck⟩
      · have hleft : (Grid.set s.ackQ u v rest) u v = rest := Grid.set_self ..
        exact hhead.trans (congrArg (List.cons p) hleft.symm)
      · intro k hk hother
        cases k with
        | ack a b => exact set_ackQ_of_ne rest hk
        | egress w out q => rfl
        | wire a b => exact wire_transmit_of_ne (.packet p) fun he => hother (congrArg some he.symm)
      · exact wire_transmit_self (.packet p)
  | @dequeue u v frame sw hswitch hlink hout =>
      cases NetSwitch.dequeue_departure hout with
      | @pfc time q node =>
          refine ⟨.nothing, .nothing (traffic_congr rfl (contents_update rfl) ?_ rfl rfl rfl), .nothing⟩
          intro a b
          refine (wire_transmit (.pfc time q) a b).trans ?_
          simp [Frame.toPacket]
      | @packet p inDev qIndex rest node hhead =>
          refine ⟨.move (.egress u (fab.port u v) qIndex) (.wire u v) p, .move (by simp) ⟨?_, ?_⟩ ?_ rfl rfl rfl,
            .dequeue hlink⟩
          · show ((s.switches u).contents (fab.port u v) qIndex).map Prod.fst = _ :: List.map Prod.fst
              ((Function.update s.switches u _ u).contents (fab.port u v) qIndex)
            rw [hhead, Function.update_self]
            dsimp only
            rw [Grid.set_self]
            rfl
          · intro k hk hother
            cases k with
            | ack a b => rfl
            | egress w out q =>
                show List.map Prod.fst ((Function.update s.switches u _ w).contents out q) = _
                by_cases hw : w = u
                · subst hw
                  have hcell : ¬ (out = fab.port w v ∧ q = qIndex) := by
                    rintro ⟨rfl, rfl⟩
                    exact hk rfl
                  rw [Function.update_self]
                  dsimp only
                  rw [Grid.set_of_ne hcell]
                  rfl
                · rw [Function.update_of_ne hw]
                  rfl
            | wire a b => exact wire_transmit_of_ne (.packet p) fun he => hother (congrArg some he.symm)
          · exact wire_transmit_self (.packet p)
  | @corrupt u v uninit frame rest hwire =>
      cases frame with
      | packet p =>
          exact ⟨.lose (.wire u v) p, .lose (left_wire hwire rfl rfl fun _ _ _ _ => rfl) rfl rfl rfl, .lose⟩
      | pfc time q =>
          exact ⟨.nothing, .nothing (traffic_congr rfl (fun _ _ _ => rfl) (wire_take_pfc hwire) rfl rfl (List.append_nil _)),
            .nothing⟩
  | @pfcHost u v uninit time q rest paused hwire hhost hrecv =>
      exact ⟨.nothing, .nothing (traffic_congr rfl (fun _ _ _ => rfl) (wire_take_pfc hwire) rfl rfl rfl), .nothing⟩
  | @pfcSwitch u v uninit time q rest node hwire hswitch hrecv =>
      exact ⟨.nothing, .nothing (traffic_congr rfl (contents_update rfl) (wire_take_pfc hwire) rfl rfl rfl), .nothing⟩
  | @noRoute u v uninit p rest hwire hswitch hnone =>
      exact ⟨.lose (.wire u v) p, .lose (left_wire hwire rfl rfl fun _ _ _ _ => rfl) rfl rfl rfl, .lose⟩
  | @forward u v w uninit p rest hwire hswitch hroute hlink =>
      by_cases hstores : (s.switches v).node.stores fab.pauseTime (fab.port v u) (fab.port v w) (fab.classAt v p) p.size = true
      · refine ⟨.move (.wire u v) (.egress v (fab.port v w) (fab.classAt v p)) p, .move (by simp)
          (left_wire hwire rfl rfl ?_) ?_ rfl rfl (if_pos hstores), .forward ⟨hswitch, u, rest, rfl, hwire⟩ hroute hlink⟩
        · intro a out q hother
          refine (contents_sendToDev a out q).trans (if_neg ?_)
          rintro ⟨-, rfl, rfl, rfl⟩
          exact hother rfl
        · have hin := @contents_sendToDev _ _ fab s v p (fab.port v u) (fab.port v w) (fab.classAt v p) v (fab.port v w)
            (fab.classAt v p)
          rw [if_pos ⟨hstores, rfl, rfl, rfl⟩] at hin
          exact (congrArg (List.map Prod.fst) hin).trans List.map_append
      · refine ⟨.lose (.wire u v) p, .lose (left_wire hwire rfl rfl ?_) rfl rfl (if_neg hstores), .lose⟩
        intro a out q _
        exact (contents_sendToDev a out q).trans (if_neg fun hc => hstores hc.1)
  | @receive u v uninit p rest hwire hhost =>
      refine ⟨.arrive (.wire u v) v p, .arrive (left_wire hwire rfl rfl fun _ _ _ _ => rfl) rfl ?_ ?_ rfl, .receive hhost⟩
      · exact Function.update_self ..
      · intro k hk
        exact Function.update_of_ne hk ..

end Lcmp
