import Lcmp.Lib.Toggle
import Lcmp.Switch.Steps

/-!
# Pause and resume between a port and its peer

A switch, the link from one of its ports and the pause flags of the device at the other end. The flag
of the memory management unit, the frames in queue 0 of the port, the frames on the wire and the flag
of the peer are one chain of toggles. Data may be switched, refused and delivered in between in any
order.
-/

namespace Lcmp

open Toggle (Chain)

/-- `peerPaused` is `m_paused` of the device the link of the port leads to. -/
structure PfcLink where
  node : SwitchNode
  wire : List SwitchPacket
  peerPaused : Queue → Bool

inductive LinkEvent where
  | switch (event : SwitchNode.SwitchEvent)
  | deliver
  deriving DecidableEq

namespace SwitchNode

variable (pauseTime : UInt32)

/-- What a step puts onto the wire of a port. -/
def transmits (n : SwitchNode) (port : Port) : SwitchEvent → List SwitchPacket
  | .dequeue out => if out = port then ((n.dequeue pauseTime out).map Prod.fst).toList else []
  | _ => []

/-- The calls of `SendPfc` for a port and class, in order. -/
def sent (n : SwitchNode) (port : Port) (qIndex : Queue) : List PfcType :=
  (n.pfcLog.filter fun r => r.port = port ∧ r.qIndex = qIndex).map PfcRecord.type

end SwitchNode

namespace PfcLink

variable (pauseTime : UInt32) (port : Port)

def start (cfg : MmuConfig) : PfcLink where
  node := SwitchNode.start cfg
  wire := []
  peerPaused := fun _ => false

/-- The link delivers in order and loses nothing. Data that reaches the peer is none of its pause
flags' business. -/
def linkNext (s : PfcLink) : LinkEvent → Option PfcLink
  | .switch e => (SwitchNode.switchNext pauseTime s.node e).map fun node =>
      { s with node := node, wire := s.wire ++ s.node.transmits pauseTime port e }
  | .deliver =>
      match s.wire with
      | [] => none
      | p :: rest =>
          match p.kind with
          | .transit _ => some { s with wire := rest }
          | .pfc time qIndex => (receivePfc s.peerPaused qIndex time).map fun paused =>
              { s with wire := rest, peerPaused := paused }

def linkSystem (cfg : MmuConfig) : System PfcLink LinkEvent where
  init := start cfg
  next := linkNext pauseTime port

/-- What a PFC frame of class `qIndex` does to the flag of that class. -/
def frame? (qIndex : Queue) (p : SwitchPacket) : Option Bool :=
  match p.kind with
  | .transit _ => none
  | .pfc time q => if q = qIndex then some (time > 0) else none

/-- The frames of class `qIndex` among some packets. -/
def frames (qIndex : Queue) (packets : List SwitchPacket) : List Bool := packets.filterMap (frame? qIndex)

/-- The frames of a class on the wire and behind them the ones that wait in queue 0 of the port. -/
def pending (s : PfcLink) (qIndex : Queue) : List Bool :=
  frames qIndex s.wire ++ frames qIndex ((s.node.devices port).queue.queues 0).packets

end PfcLink

namespace SwitchNode

open PfcLink (frame? frames)

variable {pauseTime : UInt32} {n n' n'' : SwitchNode} {inDev idx port out : Port} {qIndex q : Queue}
  {size : UInt32} {gone : List Bool}

/-- The values of the flag that `SendPfc` was called for. -/
def sentFlags (n : SwitchNode) (port : Port) (qIndex : Queue) : List Bool :=
  (n.sent port qIndex).map fun type => decide (type = .pause)

/-- The frames of a class that wait at a port. -/
def waiting (n : SwitchNode) (port : Port) (qIndex : Queue) : List Bool :=
  frames qIndex ((n.devices port).queue.queues 0).packets

/-- A step that makes the frames `gone` leave the port and does nothing else to its class. -/
structure Quiet (n n' : SwitchNode) (port : Port) (q : Queue) (gone : List Bool) : Prop where
  paused : n'.mmu.paused port q = n.mmu.paused port q
  sent : n'.sentFlags port q = n.sentFlags port q
  waiting : gone ++ n'.waiting port q = n.waiting port q

/-- The same for a step that may flip the flag, in which case it sends the new value. -/
def Toggles (n n' : SwitchNode) (port : Port) (q : Queue) (gone : List Bool) : Prop :=
  ∃ news, (news = [] ∧ n'.mmu.paused port q = n.mmu.paused port q ∨
      news = [!n.mmu.paused port q] ∧ n'.mmu.paused port q = !n.mmu.paused port q) ∧
    n'.sentFlags port q = n.sentFlags port q ++ news ∧ gone ++ n'.waiting port q = n.waiting port q ++ news

theorem Quiet.toggles (h : Quiet n n' port q gone) : Toggles n n' port q gone :=
  ⟨[], .inl ⟨rfl, h.paused⟩, by simp [h.sent], by simp [h.waiting]⟩

theorem Toggles.of_quiet (h : Quiet n n' port q gone) (h' : Toggles n' n'' port q []) :
    Toggles n n'' port q gone := by
  obtain ⟨news, hflag, hsent, hwaiting⟩ := h'
  refine ⟨news, ?_, ?_, ?_⟩
  · rwa [h.paused] at hflag
  · rwa [h.sent] at hsent
  · rw [List.nil_append] at hwaiting
    rw [hwaiting, ← List.append_assoc, h.waiting]

theorem Toggles.quiet (h : Toggles n n' port q gone) (h' : Quiet n' n'' port q []) :
    Toggles n n'' port q gone := by
  obtain ⟨news, hflag, hsent, hwaiting⟩ := h
  refine ⟨news, ?_, ?_, ?_⟩
  · rwa [h'.paused]
  · rwa [h'.sent]
  · have hsame := h'.waiting
    rw [List.nil_append] at hsame
    rwa [hsame]

/-- A step that touches neither the flags, nor the log, nor the queues. -/
theorem Quiet.of_eq (hpaused : n'.mmu.paused = n.mmu.paused) (hlog : n'.pfcLog = n.pfcLog)
    (hqueue : ((n'.devices port).queue.queues 0).packets = ((n.devices port).queue.queues 0).packets) :
    Quiet n n' port q [] where
  paused := by rw [hpaused]
  sent := by rw [sentFlags, SwitchNode.sent, hlog, sentFlags, SwitchNode.sent]
  waiting := by rw [List.nil_append, SwitchNode.waiting, hqueue, SwitchNode.waiting]

/-! ### Frames -/

theorem frames_append (q : Queue) (left right : List SwitchPacket) :
    frames q (left ++ right) = frames q left ++ frames q right := List.filterMap_append ..

theorem frames_transit (q : Queue) {p : SwitchPacket} (h : p.kind = .transit inDev) : frames q [p] = [] := by
  simp [frames, frame?, h]


/-- Packets that came in over a port join a queue without changing the frames. -/
theorem switchSend_waiting (n : SwitchNode) (idx : Port) (qIndex : Queue) {p : SwitchPacket}
    (hkind : p.kind = .transit inDev) : (n.switchSend idx qIndex p).waiting port q = n.waiting port q := by
  simp only [waiting]
  rw [switchSend_packets]
  split
  · rw [frames_append, frames_transit q hkind, List.append_nil]
  · rfl

/-- A call of `SendPfc` whose frame is accepted. -/
theorem sendPfc_waiting {type : PfcType} (hpause : 0 < pauseTime)
    (haccepted : inDev = port →
      (n.devices inDev).queue.accepts (pfcFrame pauseTime qIndex type) 0 = true) :
    (n.sendPfc pauseTime inDev qIndex type).waiting port q =
      n.waiting port q ++ if port = inDev ∧ q = qIndex then [decide (type = .pause)] else [] := by
  have hframe : frames q [pfcFrame pauseTime qIndex type] =
      if q = qIndex then [decide (type = .pause)] else [] := by
    by_cases hq : q = qIndex
    · cases type with
      | pause => simp [frames, frame?, pfcFrame, hq, hpause]
      | resume => simp [frames, frame?, pfcFrame, hq]
    · have hq' : ¬ qIndex = q := fun he => hq he.symm
      simp [frames, frame?, pfcFrame, hq, hq']
  have hpackets := switchSend_packets (n := n) inDev 0 (pfcFrame pauseTime qIndex type) port 0
  change frames q (((n.switchSend inDev 0 (pfcFrame pauseTime qIndex type)).devices port).queue.queues 0).packets = _
  rw [hpackets]
  by_cases hport : port = inDev
  · rw [if_pos ⟨hport, rfl, haccepted hport.symm⟩, frames_append, hframe]
    simp [waiting, hport]
  · rw [if_neg (fun hc => hport hc.1), if_neg (fun hc => hport hc.1), List.append_nil]
    rfl

theorem sendPfc_sent (n : SwitchNode) (inDev port : Port) (qIndex q : Queue) (type : PfcType) :
    (n.sendPfc pauseTime inDev qIndex type).sentFlags port q =
      n.sentFlags port q ++ if port = inDev ∧ q = qIndex then [decide (type = .pause)] else [] := by
  have hlog : (n.sendPfc pauseTime inDev qIndex type).pfcLog = n.pfcLog ++
      [⟨inDev, qIndex, type, (n.devices inDev).queue.accepts (pfcFrame pauseTime qIndex type) 0⟩] := rfl
  simp only [sentFlags, sent]
  rw [hlog]
  by_cases hcell : port = inDev ∧ q = qIndex
  · obtain ⟨rfl, rfl⟩ := hcell
    simp
  · have hcell' : ¬(inDev = port ∧ qIndex = q) := fun hc => hcell ⟨hc.1.symm, hc.2.symm⟩
    simp [hcell, hcell']

/-- Every frame that was sent for the port found room in its queue 0. -/
def FramesAccepted (n : SwitchNode) (port : Port) : Prop := ∀ r ∈ n.pfcLog, r.port = port → r.accepted = true

instance (n : SwitchNode) (port : Port) : Decidable (FramesAccepted n port) :=
  inferInstanceAs (Decidable (∀ r ∈ n.pfcLog, r.port = port → r.accepted = true))

theorem FramesAccepted.sendPfc {type : PfcType}
    (h : FramesAccepted (n.sendPfc pauseTime inDev qIndex type) port) (hport : inDev = port) :
    (n.devices inDev).queue.accepts (pfcFrame pauseTime qIndex type) 0 = true :=
  h _ (List.mem_append.mpr (.inr (List.mem_singleton.mpr rfl))) hport

/-- A frame that says what its flag becomes, when the flag said the opposite. -/
theorem sendPfc_toggles {type : PfcType} (hpause : 0 < pauseTime)
    (haccepted : FramesAccepted (n.sendPfc pauseTime inDev qIndex type) port) {m : SwitchMmu}
    (hbefore : n.mmu.paused inDev qIndex = !decide (type = .pause))
    (hafter : m.paused = Grid.set n.mmu.paused inDev qIndex (decide (type = .pause))) :
    Toggles n { n.sendPfc pauseTime inDev qIndex type with mmu := m } port q [] := by
  refine ⟨if port = inDev ∧ q = qIndex then [decide (type = .pause)] else [], ?_,
    sendPfc_sent n inDev port qIndex q type, ?_⟩
  · show _ ∧ m.paused port q = _ ∨ _ ∧ m.paused port q = _
    rw [hafter]
    by_cases hcell : port = inDev ∧ q = qIndex
    · obtain ⟨rfl, rfl⟩ := hcell
      right
      simp [hbefore]
    · left
      rw [if_neg hcell]
      exact ⟨rfl, Grid.set_of_ne hcell⟩
  · exact sendPfc_waiting hpause fun hport => FramesAccepted.sendPfc haccepted hport

theorem checkAndSendPfc_toggles (hpause : 0 < pauseTime)
    (haccepted : FramesAccepted (n.checkAndSendPfc pauseTime inDev qIndex) port) :
    Toggles n (n.checkAndSendPfc pauseTime inDev qIndex) port q [] := by
  simp only [checkAndSendPfc] at haccepted ⊢
  split
  · rename_i hshould
    rw [if_pos hshould] at haccepted
    have hflag : n.mmu.paused inDev qIndex = false := by
      simp only [SwitchMmu.checkShouldPause] at hshould
      rw [Bool.and_eq_true, Bool.not_eq_true'] at hshould
      exact hshould.1
    exact sendPfc_toggles hpause haccepted hflag rfl
  · exact (Quiet.of_eq rfl rfl rfl).toggles

theorem checkAndSendResume_toggles (hpause : 0 < pauseTime)
    (haccepted : FramesAccepted (n.checkAndSendResume pauseTime inDev qIndex) port) :
    Toggles n (n.checkAndSendResume pauseTime inDev qIndex) port q [] := by
  unfold checkAndSendResume at haccepted ⊢
  split
  · rename_i hshould
    rw [if_pos hshould] at haccepted
    have hflag : n.mmu.paused inDev qIndex = true := by
      unfold SwitchMmu.checkShouldResume at hshould
      by_contra hno
      simp [hno] at hshould
    exact sendPfc_toggles hpause haccepted hflag rfl
  · exact (Quiet.of_eq rfl rfl rfl).toggles

/-! ### One step of the switch -/

theorem sendToDev_toggles (hpause : 0 < pauseTime)
    (haccepted : FramesAccepted (n.sendToDev pauseTime inDev idx qIndex size) port) :
    Toggles n (n.sendToDev pauseTime inDev idx qIndex size) port q [] := by
  simp only [sendToDev] at haccepted ⊢
  cases hadm : n.admission pauseTime inDev idx qIndex size with
  | none => exact (Quiet.of_eq rfl rfl rfl).toggles
  | some n₁ =>
      rw [hadm] at haccepted
      have hafter : Quiet n₁ ((n₁.setBytes inDev idx qIndex (n₁.bytes inDev idx qIndex + size)).switchSend idx
          qIndex ⟨size, .transit inDev⟩) port q [] :=
        ⟨rfl, rfl, switchSend_waiting _ idx qIndex (rfl : SwitchPacket.kind ⟨size, .transit inDev⟩ = .transit inDev)⟩
      refine Toggles.quiet ?_ hafter
      rcases admission_cases hadm with ⟨-, rfl⟩ | ⟨-, rfl⟩
      · have hcharge : Quiet n (n.charge inDev idx qIndex size) port q [] :=
          Quiet.of_eq (n.mmu.updateIngressAdmission_frame inDev qIndex size).1 rfl rfl
        exact Toggles.of_quiet hcharge (checkAndSendPfc_toggles hpause haccepted)
      · exact (Quiet.of_eq rfl rfl rfl).toggles

theorem dequeue_toggles {p : SwitchPacket} (hpause : 0 < pauseTime) (hdata : DataTransit n)
    (hout : n.dequeue pauseTime out = some (p, n')) (haccepted : FramesAccepted n' port) :
    Toggles n n' port q (if out = port then frames q [p] else []) := by
  obtain ⟨qIndex, eq', hspec, rfl⟩ := dequeue_cases hout
  have htaken : Quiet n (n.setQueue out eq') port q (if out = port then frames q [p] else []) := by
    refine ⟨rfl, rfl, ?_⟩
    unfold waiting setQueue
    by_cases hport : out = port
    · subst hport
      rw [if_pos rfl, setDevice_self]
      by_cases hq : qIndex = 0
      · subst hq
        rw [hspec.head]
        exact (frames_append q [p] _).symm
      · obtain ⟨i, hkind⟩ := hdata out qIndex hq p (by rw [hspec.head]; exact List.mem_cons_self)
        rw [frames_transit q hkind, List.nil_append, hspec.others 0 fun h0 => hq h0.symm]
    · rw [if_neg hport, List.nil_append, setDevice_of_ne _ fun hp => hport hp.symm]
  apply Toggles.of_quiet htaken
  by_cases hrefund : ∃ i, qIndex ≠ 0 ∧ p.kind = .transit i
  · obtain ⟨i, hq, hkind⟩ := hrefund
    have hrefund : Quiet (n.setQueue out eq') ((n.setQueue out eq').refund i out qIndex p.size) port q [] :=
      Quiet.of_eq rfl rfl rfl
    rw [switchNotifyDequeue_transit hq hkind] at haccepted ⊢
    exact Toggles.of_quiet hrefund (checkAndSendResume_toggles hpause haccepted)
  · rw [switchNotifyDequeue_other hrefund]
    exact (Quiet.of_eq rfl rfl rfl).toggles

theorem switchNext_toggles {e : SwitchEvent} (hpause : 0 < pauseTime) (hdata : DataTransit n)
    (hlink : ∀ out, e ≠ .takeDown out) (hnext : switchNext pauseTime n e = some n')
    (haccepted : FramesAccepted n' port) :
    Toggles n n' port q (frames q (n.transmits pauseTime port e)) := by
  cases switchNext_step hnext with
  | ignored e hother =>
      have hgone : n.transmits pauseTime port e = [] := by
        cases e with
        | dequeue out => exact absurd rfl (hother out).1
        | arrive _ _ _ _ => rfl
        | recvPfc _ _ _ => rfl
        | takeDown _ => rfl
      rw [hgone]
      exact (Quiet.of_eq rfl rfl rfl).toggles
  | arrive hup hadm => exact sendToDev_toggles hpause haccepted
  | @dequeue out p _ hout =>
      have htoggles := dequeue_toggles (q := q) hpause hdata hout haccepted
      have hgone : frames q (n.transmits pauseTime port (.dequeue out)) =
          if out = port then frames q [p] else [] := by
        simp only [transmits, hout]
        split <;> rfl
      rwa [hgone]
  | recvPfc hrecv =>
      obtain ⟨-, hpaused, hqueue⟩ := recvPfc_same hrecv
      obtain ⟨paused, -, rfl⟩ := Option.map_eq_some_iff.mp hrecv
      exact (Quiet.of_eq hpaused rfl (by rw [hqueue])).toggles
  | takeDown out => exact absurd rfl (hlink out)

/-! ### The log -/

theorem checkAndSendPfc_pfcLog (n : SwitchNode) (inDev : Port) (qIndex : Queue) :
    n.pfcLog ⊆ (n.checkAndSendPfc pauseTime inDev qIndex).pfcLog := by
  unfold checkAndSendPfc
  split
  · exact List.subset_append_left ..
  · exact List.Subset.refl _

theorem checkAndSendResume_pfcLog (n : SwitchNode) (inDev : Port) (qIndex : Queue) :
    n.pfcLog ⊆ (n.checkAndSendResume pauseTime inDev qIndex).pfcLog := by
  unfold checkAndSendResume
  split
  · exact List.subset_append_left ..
  · exact List.Subset.refl _

theorem switchNotifyDequeue_pfcLog (n : SwitchNode) (ifIndex : Port) (qIndex : Queue) (p : SwitchPacket) :
    n.pfcLog ⊆ (n.switchNotifyDequeue pauseTime ifIndex qIndex p).pfcLog := by
  unfold switchNotifyDequeue
  split
  · split
    · exact checkAndSendResume_pfcLog (n.refund ..) ..
    · exact List.Subset.refl _
  · exact List.Subset.refl _

theorem switchNext_pfcLog {e : SwitchEvent} (hnext : switchNext pauseTime n e = some n') :
    n.pfcLog ⊆ n'.pfcLog := by
  cases switchNext_step hnext with
  | ignored => exact List.Subset.refl _
  | @arrive inDev idx qIndex size n₁ hup hadm =>
      simp only [sendToDev, hadm]
      rcases admission_cases hadm with ⟨-, rfl⟩ | ⟨-, rfl⟩
      · exact checkAndSendPfc_pfcLog (n.charge inDev idx qIndex size) inDev qIndex
      · exact List.Subset.refl _
  | @dequeue port p _ hout =>
      obtain ⟨qIndex, eq', -, rfl⟩ := dequeue_cases hout
      exact switchNotifyDequeue_pfcLog (n.setQueue ..) ..
  | recvPfc hrecv =>
      obtain ⟨paused, -, rfl⟩ := Option.map_eq_some_iff.mp hrecv
      exact List.Subset.refl _
  | takeDown port => exact List.Subset.refl _

/-! ### The ingress queue -/

/-- An arrival at an ingress queue that is admitted is accepted by its egress queue, and the bytes
stored from that ingress queue stay below `2^32`. -/
def StoresCell (pauseTime : UInt32) (port : Port) (q : Queue) (n : SwitchNode) : SwitchEvent → Prop
  | .arrive inDev idx qIndex size => inDev = port → qIndex = q →
      ∀ n₁, n.admission pauseTime inDev idx qIndex size = some n₁ →
        (n₁.devices idx).queue.accepts ⟨size, .transit inDev⟩ qIndex = true ∧
        n.bytesFrom inDev qIndex + size.toNat < 2 ^ 32
  | _ => True

/-- What an ingress queue keeps as long as its packets are stored. -/
structure CellKept (n : SwitchNode) (port : Port) (q : Queue) : Prop where
  top : n.mmu.paused port 0 = false
  exact : q ≠ 0 → IngressExact n port q
  stored : q ≠ 0 → PausedStored n port q

theorem cellKept_step {e : SwitchEvent} (h : CellKept n port q) (hlink : ∀ out, e ≠ .takeDown out)
    (hstores : StoresCell pauseTime port q n e) (hnext : switchNext pauseTime n e = some n') :
    CellKept n' port q := by
  cases switchNext_step hnext with
  | ignored => exact h
  | arrive hup hadm =>
      have harr := sendToDev_arrived hadm
      refine ⟨(harr.paused_top port).trans h.top, fun hq => harr.ingressExact hq (h.exact hq) ?_,
        fun hq => harr.pausedStored (h.stored hq) ?_⟩
      · rintro rfl rfl
        exact hstores rfl rfl _ hadm
      · rintro rfl rfl
        exact (hstores rfl rfl _ hadm).1
  | dequeue hout =>
      obtain ⟨qIndex, hdeparted, -⟩ := dequeue_departed hout
      exact ⟨(hdeparted.paused_top port).trans h.top, fun hq => hdeparted.ingressExact hq (h.exact hq),
        fun hq => hdeparted.pausedStored hq (h.exact hq) (h.stored hq)⟩
  | recvPfc hrecv =>
      obtain ⟨hsame, hpaused, -⟩ := recvPfc_same hrecv
      have hmmu : n'.mmu = n.mmu := by
        rw [hsame.mmu, hpaused]
      refine ⟨hmmu ▸ h.top, fun hq => ?_, fun hq hflag => ?_⟩
      · unfold IngressExact
        rw [hmmu, hsame.bytesFrom]
        exact h.exact hq
      · rw [hmmu] at hflag
        obtain ⟨out, hout⟩ := h.stored hq hflag
        exact ⟨out, by rwa [hsame.stored]⟩
  | takeDown out => exact absurd rfl (hlink out)

theorem CellKept.pausedStored (h : CellKept n port q) : PausedStored n port q := by
  intro hflag
  by_cases hq : q = 0
  · subst hq
    rw [h.top] at hflag
    cases hflag
  · exact h.stored hq hflag

end SwitchNode

namespace PfcLink

open SwitchNode (FramesAccepted DataTransit Toggles CellKept StoresCell tightConfig)

variable {pauseTime : UInt32} {port : Port} {s t : PfcLink} {q : Queue}

theorem receivePfc_eq {paused paused' : Queue → Bool} {qIndex : Queue} {time : UInt32}
    (h : receivePfc paused qIndex time = some paused') :
    paused' = Function.update paused qIndex (decide (time > 0)) := by
  unfold receivePfc at h
  split at h
  · rename_i htime
    rw [decide_eq_true htime]
    exact (Option.some.inj h).symm
  · rename_i htime
    split at h
    · rw [decide_eq_false htime]
      exact (Option.some.inj h).symm
    · cases h

theorem toggles_chain {n n' : SwitchNode} {gone before : List Bool} {first : Bool}
    (h : Toggles n n' port q gone) (hchain : Chain first (before ++ n.waiting port q) (n.mmu.paused port q)) :
    Chain first (before ++ gone ++ n'.waiting port q) (n'.mmu.paused port q) := by
  obtain ⟨news, hflag, -, hwaiting⟩ := h
  rw [List.append_assoc, hwaiting, ← List.append_assoc]
  rcases hflag with ⟨rfl, hsame⟩ | ⟨rfl, hflip⟩
  · rwa [List.append_nil, hsame]
  · rw [hflip]
    exact hchain.snoc

theorem toggles_sentFlags {n n' : SwitchNode} {gone : List Bool} (h : Toggles n n' port q gone)
    (hchain : Chain false (n.sentFlags port q) (n.mmu.paused port q)) :
    Chain false (n'.sentFlags port q) (n'.mmu.paused port q) := by
  obtain ⟨news, hflag, hsent, -⟩ := h
  rw [hsent]
  rcases hflag with ⟨rfl, hsame⟩ | ⟨rfl, hflip⟩
  · rwa [List.append_nil, hsame]
  · rw [hflip]
    exact hchain.snoc

/-- The chain from the peer's flag over the wire and queue 0 to the flag of the unit. -/
structure Linked (port : Port) (s : PfcLink) : Prop where
  transit : DataTransit s.node
  sent : FramesAccepted s.node port → ∀ q, Chain false (s.node.sentFlags port q) (s.node.mmu.paused port q)
  pending : FramesAccepted s.node port → ∀ q,
    Chain (s.peerPaused q) (s.pending port q) (s.node.mmu.paused port q)

theorem linked_switch {e : SwitchNode.SwitchEvent} {n' : SwitchNode} (hpause : 0 < pauseTime) (h : Linked port s)
    (hlink : ∀ out, e ≠ .takeDown out) (hnext : SwitchNode.switchNext pauseTime s.node e = some n') :
    Linked port { s with node := n', wire := s.wire ++ s.node.transmits pauseTime port e } := by
  have hbefore : FramesAccepted n' port → FramesAccepted s.node port := fun haccepted r hr =>
    haccepted r (SwitchNode.switchNext_pfcLog hnext hr)
  refine ⟨SwitchNode.switchNext_dataTransit h.transit hnext, ?_, ?_⟩
  · intro haccepted q
    have htoggles := SwitchNode.switchNext_toggles (q := q) hpause h.transit hlink hnext haccepted
    exact toggles_sentFlags htoggles (h.sent (hbefore haccepted) q)
  · intro haccepted q
    have htoggles := SwitchNode.switchNext_toggles (q := q) hpause h.transit hlink hnext haccepted
    have hchain := toggles_chain htoggles (h.pending (hbefore haccepted) q)
    simp only [pending]
    rw [SwitchNode.frames_append]
    exact hchain

theorem linked_deliver (h : Linked port s) (hnext : linkNext pauseTime port s .deliver = some t) :
    Linked port t := by
  unfold linkNext at hnext
  dsimp only at hnext
  cases hwire : s.wire with
  | nil => simp [hwire] at hnext
  | cons p rest =>
      rw [hwire] at hnext
      cases hkind : p.kind with
      | transit i =>
          simp only [hkind, Option.some.injEq] at hnext
          subst hnext
          refine ⟨h.transit, h.sent, fun haccepted q => ?_⟩
          have hchain := h.pending haccepted q
          have hframe : frame? q p = none := by simp [frame?, hkind]
          unfold pending frames at hchain ⊢
          rwa [hwire, List.filterMap_cons_none hframe] at hchain
      | pfc time qIndex =>
          simp only [hkind] at hnext
          obtain ⟨paused, hpeer, rfl⟩ := Option.map_eq_some_iff.mp hnext
          refine ⟨h.transit, h.sent, fun haccepted q => ?_⟩
          have hchain := h.pending haccepted q
          rw [receivePfc_eq hpeer]
          unfold pending frames at hchain ⊢
          rw [hwire] at hchain
          dsimp only
          by_cases hq : qIndex = q
          · subst hq
            have hframe : frame? qIndex p = some (decide (time > 0)) := by simp [frame?, hkind]
            rw [List.filterMap_cons_some hframe] at hchain
            rw [Function.update_self]
            exact hchain.2
          · have hframe : frame? q p = none := by simp [frame?, hkind, hq]
            rw [List.filterMap_cons_none hframe] at hchain
            rwa [Function.update_of_ne (fun he => hq he.symm)]

/-- A step without take-down. -/
def LinkStays : LinkEvent → Prop
  | .switch (.takeDown _) => False
  | _ => True

/-- The guard of `StoresCell` as one on the steps of the link. -/
def Stores (pauseTime : UInt32) (port : Port) (q : Queue) (s : PfcLink) : LinkEvent → Prop
  | .switch e => StoresCell pauseTime port q s.node e
  | .deliver => True

theorem linked_step {e : LinkEvent} (hpause : 0 < pauseTime) (h : Linked port s) (hlink : LinkStays e)
    (hnext : linkNext pauseTime port s e = some t) : Linked port t := by
  cases e with
  | switch e =>
      obtain ⟨n', hnode, rfl⟩ := Option.map_eq_some_iff.mp hnext
      exact linked_switch hpause h (fun out he => by subst he; exact hlink) hnode
  | deliver => exact linked_deliver h hnext

theorem cellKept_link {e : LinkEvent} (h : CellKept s.node port q) (hlink : LinkStays e)
    (hstores : Stores pauseTime port q s e) (hnext : linkNext pauseTime port s e = some t) :
    CellKept t.node port q := by
  cases e with
  | switch e =>
      obtain ⟨n', hnode, rfl⟩ := Option.map_eq_some_iff.mp hnext
      exact SwitchNode.cellKept_step h (fun out he => by subst he; exact hlink) hstores hnode
  | deliver =>
      have hnode : t.node = s.node := by
        unfold linkNext at hnext
        dsimp only at hnext
        split at hnext
        · cases hnext
        · split at hnext
          · obtain rfl := Option.some.inj hnext
            rfl
          · obtain ⟨paused, -, rfl⟩ := Option.map_eq_some_iff.mp hnext
            rfl
      rwa [hnode]

theorem linked_start (cfg : MmuConfig) : Linked port (start cfg) where
  transit := by simp [DataTransit, start, SwitchNode.start, BEgressQueue.empty]
  sent := fun _ _ => rfl
  pending := fun _ _ => rfl

theorem cellKept_start (cfg : MmuConfig) : CellKept (start cfg).node port q where
  top := rfl
  exact := fun _ => by simp [SwitchNode.IngressExact, SwitchNode.bytesFrom, SwitchNode.storedBytes,
    SwitchNode.stored, packetBytes, start, SwitchNode.start, SwitchMmu.start, BEgressQueue.empty]
  stored := fun _ h => by simp [start, SwitchNode.start, SwitchMmu.start] at h

/-- The protocol between a port and its peer in every run without take-down in which queue 0 takes
every frame. Frames alternate and begin with a pause, a resume that comes in finds the class paused, and
without frames under way the two flags agree. A pause ends with the traffic that caused it as long as
the packets of the class that are admitted are also stored. -/
theorem pfc_protocol {cfg : MmuConfig} {trace : List (Transition PfcLink LinkEvent)} (hpause : 0 < pauseTime)
    (hrun : (linkSystem pauseTime port cfg).Run (start cfg) trace s) (hlink : ∀ x ∈ trace, LinkStays x.label)
    (hframes : FramesAccepted s.node port) (q : Queue) :
    (∀ i type, (s.node.sent port q)[i]? = some type → (type = .pause ↔ i % 2 = 0)) ∧
    (∀ p rest, s.wire = p :: rest → p.kind = .pfc 0 q → s.peerPaused q = true) ∧
    (s.pending port q = [] → s.peerPaused q = s.node.mmu.paused port q) ∧
    ((∀ x ∈ trace, Stores pauseTime port q x.pre x.label) → SwitchNode.PausedStored s.node port q) := by
  have hlinked : Linked port s := (hrun.invariant_of_guard (P := Linked port) (C := fun _ e => LinkStays e)
    (fun _ _ _ h hguard hnext => linked_step hpause h hguard hnext) hlink (linked_start cfg)).1
  have hchain := hlinked.pending hframes q
  refine ⟨?_, ?_, ?_, ?_⟩
  · intro i type htype
    have hflag : (s.node.sentFlags port q)[i]? = some (decide (type = .pause)) := by
      simp only [SwitchNode.sentFlags]
      rw [List.getElem?_map, htype]
      rfl
    have hplace := (hlinked.sent hframes q).getElem? hflag
    rwa [Bool.not_false, decide_eq_true_iff] at hplace
  · intro p rest hwire hkind
    have hframe : frame? q p = some false := by simp [frame?, hkind]
    unfold pending frames at hchain
    rw [hwire, List.filterMap_cons_some hframe] at hchain
    have hhead := hchain.1
    cases hpeer : s.peerPaused q with
    | true => rfl
    | false =>
        rw [hpeer] at hhead
        cases hhead
  · intro hnone
    rw [hnone] at hchain
    exact hchain
  · intro hstores
    exact (hrun.invariant_of_guard (P := fun s => CellKept s.node port q)
      (C := fun s e => LinkStays e ∧ Stores pauseTime port q s e)
      (fun _ _ _ h hguard hnext => cellKept_link h hguard.1 hguard.2 hnext)
      (fun x hx => ⟨hlink x hx, hstores x hx⟩) (cellKept_start cfg)).1.pausedStored

/-- One packet: the pause, its way to the peer, the departure and the resume. -/
theorem pfc_protocol_one_packet :
    ∃ trace s, (linkSystem 5 1 tightConfig).Run (start tightConfig) trace s ∧
      trace.map Transition.label = [.switch (.arrive 1 2 3 1000), .switch (.dequeue 1), .deliver,
        .switch (.dequeue 2), .switch (.dequeue 1), .deliver] ∧
      s.node.sent 1 3 = [.pause, .resume] ∧
      ((∀ i type, (s.node.sent 1 3)[i]? = some type → (type = .pause ↔ i % 2 = 0)) ∧
        (∀ p rest, s.wire = p :: rest → p.kind = .pfc 0 3 → s.peerPaused 3 = true) ∧
        (s.pending 1 3 = [] → s.peerPaused 3 = s.node.mmu.paused 1 3) ∧
        SwitchNode.PausedStored s.node 1 3) := by
  have hrun : (linkSystem 5 1 tightConfig).Run (start tightConfig) _ _ :=
    .cons (a := .switch (.arrive 1 2 3 1000)) rfl (.cons (a := .switch (.dequeue 1)) rfl
      (.cons (a := .deliver) rfl (.cons (a := .switch (.dequeue 2)) rfl
        (.cons (a := .switch (.dequeue 1)) rfl (.cons (a := .deliver) rfl (.nil _))))))
  have hprotocol := pfc_protocol (by decide) hrun (by simp [LinkStays]) (by decide) 3
  refine ⟨_, _, hrun, rfl, by decide, hprotocol.1, hprotocol.2.1, hprotocol.2.2.1, hprotocol.2.2.2 ?_⟩
  simp only [List.forall_mem_cons]
  refine ⟨?_, by trivial, by trivial, by trivial, by trivial, by trivial, by simp⟩
  intro _ _ n₁ hadm
  have hfresh : (start tightConfig).node.bytesFrom 1 3 = 0 := ((cellKept_start tightConfig).exact (by decide)).symm
  rw [hfresh]
  obtain rfl := Option.some.inj hadm
  exact ⟨by decide, by decide⟩

/-- A unit with 1000 MB, all of them shared. -/
def sharedConfig : MmuConfig := { SwitchMmu.zeroConfig with bufferSize := 1000 * 1024 * 1024 }

set_option maxRecDepth 4096 in
/-- Traffic from port 3 fills the egress queue of port 2. The packets of port 1 and class 3 are then
admitted and refused by that queue; the second one is a reason to pause, and none is stored. -/
theorem not_pausedStored_refused :
    ∃ trace s, (linkSystem 5 1 sharedConfig).Run (start sharedConfig) trace s ∧
      trace.map Transition.label = [.switch (.arrive 3 2 1 4096), .switch (.arrive 3 2 1 1048570904),
        .switch (.arrive 1 2 3 4096), .switch (.arrive 1 2 3 5096)] ∧
      (∀ x ∈ trace, LinkStays x.label) ∧ FramesAccepted s.node 1 ∧
      s.node.mmu.paused 1 3 = true ∧ ¬ SwitchNode.PausedStored s.node 1 3 := by
  have hrun : (linkSystem 5 1 sharedConfig).Run (start sharedConfig) _ _ :=
    .cons (a := .switch (.arrive 3 2 1 4096)) rfl (.cons (a := .switch (.arrive 3 2 1 1048570904)) rfl
      (.cons (a := .switch (.arrive 1 2 3 4096)) rfl (.cons (a := .switch (.arrive 1 2 3 5096)) rfl (.nil _))))
  refine ⟨_, _, hrun, rfl, by simp [LinkStays], by decide, by decide, ?_⟩
  intro hstored
  obtain ⟨out, hout⟩ := hstored (by decide)
  apply hout
  revert out
  decide

end PfcLink

end Lcmp
