import Lcmp.Switch.Headroom
import Lcmp.Switch.TimedLink

/-!
# Headroom in time

The peer stops sending a class within a bounded time after the port has decided to pause it: the port finishes the
packet it is busy with, sends what waits in queue 0 and the frame, and the frame crosses the link. What the peer can
send in that time and what was on the link by then is all that comes in after a pause, so a headroom of that size
makes the class lossless.
-/

namespace Lcmp

open Toggle (Chain)
open PfcLink (frame? frames)

namespace SwitchNode

variable {pauseTime : UInt32} {n n' : SwitchNode} {inDev idx port out : Port} {qIndex q : Queue} {size : UInt32}
  {F : UInt32 → Prop}

/-! ### What joins the queues -/

/-- Packets join the ends of the queues, and all of them are of certain sizes. -/
def Grows (F : UInt32 → Prop) (n n' : SwitchNode) : Prop :=
  ∀ out q, ∃ news, ((n'.devices out).queue.queues q).packets = ((n.devices out).queue.queues q).packets ++ news ∧
    ∀ p ∈ news, F p.size

theorem Grows.of_devices (h : n'.devices = n.devices) : Grows F n n' := by
  intro out q
  refine ⟨[], ?_, fun p hp => ?_⟩
  · rw [h, List.append_nil]
  · cases hp

theorem Grows.trans {n'' : SwitchNode} (h : Grows F n n') (h' : Grows F n' n'') : Grows F n n'' := by
  intro out q
  obtain ⟨news, hnews, hok⟩ := h out q
  obtain ⟨news', hnews', hok'⟩ := h' out q
  refine ⟨news ++ news', ?_, fun p hp => ?_⟩
  · rw [hnews', hnews, List.append_assoc]
  · rcases List.mem_append.mp hp with hp | hp
    · exact hok p hp
    · exact hok' p hp

theorem switchSend_grows {p : SwitchPacket} (hp : F p.size) : Grows F n (n.switchSend port qIndex p) := by
  intro out q
  by_cases hhere : out = port ∧ q = qIndex ∧ (n.devices port).queue.accepts p qIndex = true
  · refine ⟨[p], ?_, fun x hx => ?_⟩
    · rw [switchSend_packets, if_pos hhere]
    · obtain rfl := List.mem_singleton.mp hx
      exact hp
  · refine ⟨[], ?_, fun x hx => ?_⟩
    · rw [switchSend_packets, if_neg hhere, List.append_nil]
    · cases hx

theorem sendPfc_grows {type : PfcType} (hpfc : F pfcSize) : Grows F n (n.sendPfc pauseTime port qIndex type) :=
  switchSend_grows (p := pfcFrame pauseTime qIndex type) hpfc

theorem checkAndSendPfc_grows (hpfc : F pfcSize) : Grows F n (n.checkAndSendPfc pauseTime inDev qIndex) := by
  unfold checkAndSendPfc
  split
  · exact sendPfc_grows hpfc
  · exact .of_devices rfl

theorem checkAndSendResume_grows (hpfc : F pfcSize) : Grows F n (n.checkAndSendResume pauseTime inDev qIndex) := by
  unfold checkAndSendResume
  split
  · exact sendPfc_grows hpfc
  · exact .of_devices rfl

theorem admission_grows {n₁ : SwitchNode} (hpfc : F pfcSize)
    (hadm : n.admission pauseTime inDev idx qIndex size = some n₁) : Grows F n n₁ := by
  rcases admission_cases hadm with ⟨-, rfl⟩ | ⟨-, rfl⟩
  · have hcharge : Grows F n (n.charge inDev idx qIndex size) := .of_devices rfl
    exact hcharge.trans (checkAndSendPfc_grows hpfc)
  · exact .of_devices rfl

theorem sendToDev_grows (hpfc : F pfcSize) (hsize : F size) : Grows F n (n.sendToDev pauseTime inDev idx qIndex size) := by
  cases hadm : n.admission pauseTime inDev idx qIndex size with
  | none =>
      rw [sendToDev_dropped hadm]
      exact .of_devices rfl
  | some n₁ =>
      rw [sendToDev_admitted hadm]
      have hbytes : Grows F n₁ (n₁.setBytes inDev idx qIndex (n₁.bytes inDev idx qIndex + size)) := .of_devices rfl
      exact (admission_grows hpfc hadm).trans
        (hbytes.trans (switchSend_grows (p := ⟨size, .transit inDev⟩) hsize))

theorem switchNotifyDequeue_grows {p : SwitchPacket} (hpfc : F pfcSize) :
    Grows F n (n.switchNotifyDequeue pauseTime port qIndex p) := by
  by_cases hrefund : ∃ i, qIndex ≠ 0 ∧ p.kind = .transit i
  · obtain ⟨i, hq, hkind⟩ := hrefund
    rw [switchNotifyDequeue_transit hq hkind]
    have hcounters : Grows F n (n.refund i port qIndex p.size) := .of_devices rfl
    exact hcounters.trans (checkAndSendResume_grows hpfc)
  · rw [switchNotifyDequeue_other hrefund]
    exact .of_devices rfl

/-- The packets of a port in a queue. -/
def packetsOf (n : SwitchNode) (out : Port) (q : Queue) : List SwitchPacket := ((n.devices out).queue.queues q).packets

/-- At a port that sends nothing, packets only join. -/
theorem switchNext_packetsOf {e : SwitchEvent} (hpfc : F pfcSize)
    (hsize : ∀ i o qi size, e = .arrive i o qi size → F size) (hstays : ∀ out, e ≠ .takeDown out)
    (hquiet : e ≠ .dequeue port) (hnext : switchNext pauseTime n e = some n') (q : Queue) :
    ∃ news, n'.packetsOf port q = n.packetsOf port q ++ news ∧ ∀ p ∈ news, F p.size := by
  cases switchNext_step hnext with
  | ignored => exact Grows.of_devices rfl port q
  | @arrive inDev idx qIndex size n₁ hup hadm => exact sendToDev_grows hpfc (hsize inDev idx qIndex size rfl) port q
  | @dequeue out p _ hout =>
      obtain ⟨qIndex, eq', -, rfl⟩ := dequeue_cases hout
      have hgrows : Grows F (n.setQueue out eq') ((n.setQueue out eq').switchNotifyDequeue pauseTime out qIndex p) :=
        switchNotifyDequeue_grows hpfc
      obtain ⟨news, hnews, hok⟩ := hgrows port q
      refine ⟨news, ?_, hok⟩
      have hne : port ≠ out := fun he => hquiet (by rw [he])
      unfold packetsOf
      rw [hnews, setQueue, setDevice_of_ne _ hne]
  | recvPfc hrecv =>
      refine ⟨[], ?_, fun p hp => ?_⟩
      · unfold packetsOf
        rw [(recvPfc_same hrecv).2.2 port, List.append_nil]
      · cases hp
  | takeDown out => exact absurd rfl (hstays out)

/-- Queue 0 goes first. -/
theorem dequeueRR_top {eq eq' : BEgressQueue} {paused : Queue → Bool} {p : SwitchPacket}
    (h : eq.dequeueRR paused = some (p, qIndex, eq')) (htop : (eq.queues 0).packets ≠ []) : qIndex = 0 := by
  simp only [BEgressQueue.dequeueRR, BEgressQueue.nextQueue, if_pos (List.length_pos_iff.mpr htop)] at h
  split at h
  · cases h
  · split at h
    · cases h
    · exact (Prod.mk.inj (Prod.mk.inj (Option.some.inj h)).2).1.symm

/-- What a port sends leaves the head of a queue, of queue 0 if there is something in it. -/
theorem dequeue_packetsOf {p : SwitchPacket} (hpfc : F pfcSize) (hout : n.dequeue pauseTime port = some (p, n')) :
    ∃ qIndex, (n.packetsOf port 0 ≠ [] → qIndex = 0) ∧ ∀ q, ∃ rest news,
      n.packetsOf port q = (if q = qIndex then p :: rest else rest) ∧ n'.packetsOf port q = rest ++ news ∧
      ∀ x ∈ news, F x.size := by
  unfold dequeue at hout
  split at hout
  · cases hout
  · rename_i p₀ qIndex eq' hrr
    obtain ⟨rfl, rfl⟩ := Prod.mk.inj (Option.some.inj hout)
    have hspec := BEgressQueue.dequeueRR_spec hrr
    refine ⟨qIndex, dequeueRR_top hrr, fun q => ?_⟩
    have hgrows : Grows F (n.setQueue port eq') ((n.setQueue port eq').switchNotifyDequeue pauseTime port qIndex p₀) :=
      switchNotifyDequeue_grows hpfc
    obtain ⟨news, hnews, hok⟩ := hgrows port q
    refine ⟨(eq'.queues q).packets, news, ?_, ?_, hok⟩
    · have htaken := dequeued_packets hspec port q
      unfold packetsOf
      rw [htaken, setQueue, setDevice_self]
      simp
    · unfold packetsOf
      rw [hnews, setQueue, setDevice_self]

/-- With exact counters, something in queue 0 goes out. -/
theorem dequeue_isSome (hcounted : BEgressQueue.Counted (n.devices port).queue)
    (hsize : ∀ p ∈ n.packetsOf port 0, 0 < p.size) (htop : n.packetsOf port 0 ≠ []) :
    n.dequeue pauseTime port ≠ none := by
  obtain ⟨p, rest, hqueue⟩ := List.exists_cons_of_ne_nil htop
  have hqueue' : ((n.devices port).queue.queues 0).packets = p :: rest := hqueue
  have hpositive : 0 < p.size.toNat := UInt32.lt_iff_toNat_lt.mp (hsize p (by rw [hqueue]; exact List.mem_cons_self))
  have hstored : p.size.toNat ≤ (n.devices port).queue.storedBytes := by
    have hone := Finset.single_le_sum (f := fun q => packetBytes ((n.devices port).queue.queues q).packets)
      (fun _ _ => Nat.zero_le _) (Finset.mem_univ (0 : Queue))
    rw [hqueue', packetBytes_cons] at hone
    exact (Nat.le_add_right _ _).trans hone
  have htotal : (n.devices port).queue.bytesInQueueTotal ≠ 0 := by
    intro hzero
    have hcount := hcounted.total
    rw [hzero, UInt32.toNat_zero] at hcount
    omega
  have hnext : (n.devices port).queue.nextQueue (n.devices port).paused = some 0 := by
    rw [BEgressQueue.nextQueue, if_pos (by simp [hqueue'])]
  unfold dequeue BEgressQueue.dequeueRR
  rw [if_neg htotal, hnext]
  dsimp only
  rw [hqueue']
  exact Option.some_ne_none _

/-! ### The flag of a class -/

/-- Only an arrival at the port in the class sets the flag. -/
theorem paused_of_paused {e : SwitchEvent} (hnext : switchNext pauseTime n e = some n')
    (hother : ∀ idx size, e ≠ .arrive port idx q size) (hpaused : n'.mmu.paused port q = true) :
    n.mmu.paused port q = true := by
  cases switchNext_step hnext with
  | ignored => exact hpaused
  | @arrive inDev idx qIndex size n₁ hup hadm =>
      obtain ⟨-, hflag⟩ := admission_same hadm
      have hsent : (n.sendToDev pauseTime inDev idx qIndex size).mmu.paused = n₁.mmu.paused := by
        rw [sendToDev_admitted hadm]
        rfl
      rw [hsent, hflag] at hpaused
      split at hpaused
      · rwa [Grid.set_of_ne fun hc => hother idx size (by rw [hc.1, hc.2])] at hpaused
      · exact hpaused
  | @dequeue out p _ hout =>
      obtain ⟨qIndex, hdeparted, -⟩ := dequeue_departed hout
      by_cases hrefund : ∃ i, qIndex ≠ 0 ∧ p.kind = .transit i
      · obtain ⟨i, hq, hkind⟩ := hrefund
        rw [(hdeparted.refunded i hq hkind).2.2] at hpaused
        split at hpaused
        · by_cases hcell : port = i ∧ q = qIndex
          · obtain ⟨rfl, rfl⟩ := hcell
            rw [Grid.set_self] at hpaused
            cases hpaused
          · rwa [Grid.set_of_ne hcell] at hpaused
        · exact hpaused
      · rwa [(hdeparted.untouched fun i hq hkind => hrefund ⟨i, hq, hkind⟩).1] at hpaused
  | recvPfc hrecv =>
      rwa [(recvPfc_same hrecv).2.1] at hpaused
  | takeDown out => exact hpaused

/-- The arrival that sets it puts one frame in queue 0. -/
theorem pauses_top (hnext : switchNext pauseTime n (.arrive port idx q size) = some n')
    (hrunning : n.mmu.paused port q = false) (hpaused : n'.mmu.paused port q = true) (haccepted : FramesAccepted n' port) :
    n'.packetsOf port 0 = n.packetsOf port 0 ++ [pfcFrame pauseTime q .pause] := by
  cases switchNext_step hnext with
  | ignored =>
      rw [hrunning] at hpaused
      cases hpaused
  | @arrive _ _ _ _ n₁ hup hadm =>
      obtain ⟨-, hflag⟩ := admission_same hadm
      have hsent : (n.sendToDev pauseTime port idx q size).mmu.paused = n₁.mmu.paused := by
        rw [sendToDev_admitted hadm]
        rfl
      rw [hsent, hflag] at hpaused
      split at hpaused
      · rename_i hshould
        obtain ⟨hq, hshould⟩ := hshould
        obtain ⟨-, rfl⟩ | ⟨hzero, -⟩ := admission_cases hadm
        · rw [sendToDev_admitted hadm] at haccepted ⊢
          simp only [checkAndSendPfc, if_pos hshould] at haccepted ⊢
          have hroom : FramesAccepted ((n.charge port idx q size).sendPfc pauseTime port q .pause) port := haccepted
          unfold packetsOf
          rw [switchSend_packets, if_neg fun hc => hq hc.2.1.symm]
          have hframe := switchSend_packets (n := n.charge port idx q size) port 0 (pfcFrame pauseTime q .pause) port 0
          rw [if_pos ⟨rfl, rfl, FramesAccepted.sendPfc hroom rfl⟩] at hframe
          exact hframe
        · exact absurd hzero hq
      · rw [hrunning] at hpaused
        cases hpaused

end SwitchNode

namespace TimedLink

open SwitchNode (packetsOf FramesAccepted DataTransit)

/-- How fast the link is: a packet takes at most `txMax`, and `rate` bytes of the class take no less than `unit`
nanoseconds. `backlog` is the time that what waits in queue 0 may take. -/
structure Pace where
  txMax : Nat
  rate : Nat
  unit : Nat
  backlog : Nat

namespace Pace

variable (pace : Pace) (cfg : LinkConfig)

/-- A packet of the link. -/
structure Fits (size : UInt32) : Prop where
  positive : 0 < size
  room : BEgressQueue.maxBytes + size.toNat ≤ 2 ^ 32
  time : cfg.txTime size ≤ pace.txMax

/-- A packet of the class does not come in faster than that. -/
def Covers (q : Queue) (p : Inbound) : Prop := p.qIndex = q → p.size.toNat * pace.unit ≤ pace.rate * cfg.txTime p.size

/-- From the decision to pause to the arrival of the frame. -/
def reach : Nat := pace.txMax + pace.backlog + cfg.txTime pfcSize + cfg.delay

/-- What a peer sends from the packet that causes a pause to its last one. -/
def braking : Nat := 3 * pace.txMax + pace.backlog + cfg.txTime pfcSize + 2 * cfg.delay

end Pace

variable {cfg : LinkConfig} {pace : Pace} {s s' : TimedLink} {e : TimedEvent} {q : Queue}

/-! ### What is on the link -/

/-- What holds at any time: nothing is late, and both devices are busy with one packet at most. -/
structure Timed (cfg : LinkConfig) (pace : Pace) (s : TimedLink) : Prop where
  downDue : ∀ x ∈ s.down, s.clock ≤ x.1
  upDue : ∀ x ∈ s.up, s.clock ≤ x.1
  peerReady : s.peerReady ≤ s.clock + pace.txMax
  portReady : s.portReady ≤ s.clock + pace.txMax
  spaced : Serial.Spaced (fun p : Inbound => cfg.txTime p.size) s.down (s.peerReady + cfg.delay)
  down : ∀ x ∈ s.down, pace.Fits cfg x.2.size
  stocked : ∀ q, ∀ p ∈ s.node.packetsOf cfg.port q, pace.Fits cfg p.size
  counted : ∀ out, BEgressQueue.Counted (s.node.devices out).queue

theorem timed_start : Timed cfg pace (start cfg) where
  downDue := fun _ hx => absurd hx List.not_mem_nil
  upDue := fun _ hx => absurd hx List.not_mem_nil
  peerReady := Nat.zero_le _
  portReady := Nat.zero_le _
  spaced := trivial
  down := fun _ hx => absurd hx List.not_mem_nil
  stocked := fun _ _ hp => absurd hp List.not_mem_nil
  counted := fun _ => BEgressQueue.Counted.empty

theorem switchNext_counted {pauseTime : UInt32} {n n' : SwitchNode} {e : SwitchNode.SwitchEvent}
    (hnext : SwitchNode.switchNext pauseTime n e = some n') (hcounted : ∀ out, BEgressQueue.Counted (n.devices out).queue)
    (hsize : ∀ i o qi size, e = .arrive i o qi size → BEgressQueue.maxBytes + size.toNat ≤ 2 ^ 32) (out : Port) :
    BEgressQueue.Counted (n'.devices out).queue := by
  cases SwitchNode.switchNext_step hnext with
  | ignored => exact hcounted out
  | @arrive inDev idx qIndex size n₁ hup hadm =>
      exact SwitchNode.sendToDev_counted hcounted hadm (hsize inDev idx qIndex size rfl) out
  | dequeue hout => exact SwitchNode.dequeue_counted hcounted hout out
  | recvPfc hrecv =>
      rw [(SwitchNode.recvPfc_same hrecv).2.2 out]
      exact hcounted out
  | takeDown port => exact SwitchNode.takeDown_counted hcounted out

/-- The switch does something else than sending over the link. -/
theorem Timed.switch (htimed : Timed cfg pace s) (hpfc : pace.Fits cfg pfcSize) {e : SwitchNode.SwitchEvent} {node : SwitchNode}
    (hnext : SwitchNode.switchNext cfg.pauseTime s.node e = some node)
    (hsize : ∀ i o qi size, e = .arrive i o qi size → pace.Fits cfg size) (hstays : ∀ out, e ≠ .takeDown out)
    (hquiet : e ≠ .dequeue cfg.port) : Timed cfg pace { s with node := node } :=
  { htimed with
    stocked := by
      intro q p hp
      obtain ⟨news, hnews, hok⟩ := SwitchNode.switchNext_packetsOf (F := pace.Fits cfg) hpfc hsize hstays hquiet hnext q
      have hp' : p ∈ node.packetsOf cfg.port q := hp
      rw [hnews] at hp'
      rcases List.mem_append.mp hp' with hold | hnew
      · exact htimed.stocked q p hold
      · exact hok p hnew
    counted := switchNext_counted hnext htimed.counted fun i o qi size he => (hsize i o qi size he).room }

theorem elsewhere_stays {e : SwitchNode.SwitchEvent} {port : Port} (h : e.elsewhere port = true) :
    (∀ out, e ≠ .takeDown out) ∧ e ≠ .dequeue port ∧ ∀ idx qIndex size, e ≠ .arrive port idx qIndex size := by
  cases e with
  | arrive inDev idx qIndex size =>
      have hne : inDev ≠ port := by simpa [SwitchNode.SwitchEvent.elsewhere] using h
      simp [hne]
  | dequeue out =>
      have hne : out ≠ port := by simpa [SwitchNode.SwitchEvent.elsewhere] using h
      simp [hne]
  | recvPfc => simp
  | takeDown => cases h

theorem Timed.step (htimed : Timed cfg pace s) (hpfc : pace.Fits cfg pfcSize) (hsizes : ∀ size, e.size? = some size → pace.Fits cfg size)
    (hstep : Step cfg s e s') : Timed cfg pace s' := by
  have hpeer := htimed.peerReady
  have hport := htimed.portReady
  cases hstep with
  | @advance dt hdown hup hidle =>
      exact { htimed with
        downDue := hdown
        upDue := hup
        peerReady := by
          dsimp only
          omega
        portReady := by
          dsimp only
          omega }
  | @transmit p hready hpaused =>
      have hfits := hsizes p.size rfl
      have htime := hfits.time
      exact { htimed with
        downDue := by
          intro x hx
          rcases List.mem_append.mp hx with hx | hx
          · exact htimed.downDue x hx
          · obtain rfl := List.mem_singleton.mp hx
            dsimp only
            omega
        peerReady := by
          dsimp only
          omega
        spaced := htimed.spaced.snoc (by
          dsimp only
          omega)
        down := by
          intro x hx
          rcases List.mem_append.mp hx with hx | hx
          · exact htimed.down x hx
          · obtain rfl := List.mem_singleton.mp hx
            exact hfits }
  | @receive x rest node hdown hdue hnext =>
      have hmem : ∀ y ∈ rest, y ∈ s.down := fun y hy => hdown ▸ List.mem_cons_of_mem x hy
      have hswitch : Timed cfg pace { s with node := node } := by
        apply htimed.switch hpfc hnext
        · intro i o qi size he
          obtain ⟨-, -, -, rfl⟩ := SwitchNode.SwitchEvent.arrive.inj he
          exact htimed.down x (by rw [hdown]; exact List.mem_cons_self)
        · intro out he
          cases he
        · intro he
          cases he
      exact { hswitch with
        downDue := fun y hy => htimed.downDue y (hmem y hy)
        spaced := by
          have hspaced := htimed.spaced
          rw [hdown] at hspaced
          exact hspaced.tail
        down := fun y hy => htimed.down y (hmem y hy) }
  | @reply p node hlink hready hout =>
      obtain ⟨qIndex, -, hqueues⟩ := SwitchNode.dequeue_packetsOf (F := pace.Fits cfg) hpfc hout
      have hfits : pace.Fits cfg p.size := by
        obtain ⟨rest, news, hbefore, -, -⟩ := hqueues qIndex
        rw [if_pos rfl] at hbefore
        exact htimed.stocked qIndex p (by rw [hbefore]; exact List.mem_cons_self)
      have htime := hfits.time
      exact { htimed with
        upDue := by
          intro x hx
          rcases List.mem_append.mp hx with hx | hx
          · exact htimed.upDue x hx
          · obtain rfl := List.mem_singleton.mp hx
            dsimp only
            omega
        portReady := by
          dsimp only
          omega
        stocked := by
          intro q x hx
          obtain ⟨rest, news, hbefore, hafter, hok⟩ := hqueues q
          have hx' : x ∈ node.packetsOf cfg.port q := hx
          rw [hafter] at hx'
          rcases List.mem_append.mp hx' with hold | hnew
          · apply htimed.stocked q x
            rw [hbefore]
            split
            · exact List.mem_cons_of_mem p hold
            · exact hold
          · exact hok x hnew
        counted := SwitchNode.dequeue_counted htimed.counted hout }
  | @data x rest inDev hup hdue hkind =>
      exact { htimed with upDue := fun y hy => htimed.upDue y (hup ▸ List.mem_cons_of_mem x hy) }
  | @pfc x rest time qIndex paused hup hdue hkind hpaused =>
      exact { htimed with upDue := fun y hy => htimed.upDue y (hup ▸ List.mem_cons_of_mem x hy) }
  | @switch event node helsewhere hnext =>
      obtain ⟨hstays, hquiet, -⟩ := elsewhere_stays helsewhere
      apply htimed.switch hpfc hnext ?_ hstays hquiet
      intro i o qi size he
      subst he
      exact hsizes size rfl

/-! ### The frame that stops the peer -/

/-- The last frame of the class is a pause that reaches the peer by `due`, unless it already has. -/
inductive StopsBy (cfg : LinkConfig) (s : TimedLink) (q : Queue) (due : Nat) : Prop where
  | stopped (hpeer : s.peerPaused q = true) (hup : frames q (s.up.map Prod.snd) = [])
      (htop : frames q (s.node.packetsOf cfg.port 0) = []) : StopsBy cfg s q due
  | onLink {l r : List (Nat × SwitchPacket)} {x : Nat × SwitchPacket} (hup : s.up = l ++ x :: r)
      (hframe : frame? q x.2 = some true) (hlast : frames q (r.map Prod.snd) = [])
      (htop : frames q (s.node.packetsOf cfg.port 0) = []) (hdue : x.1 ≤ due) : StopsBy cfg s q due
  | waiting {l r : List SwitchPacket} {p : SwitchPacket} (htop : s.node.packetsOf cfg.port 0 = l ++ p :: r)
      (hframe : frame? q p = some true) (hlast : frames q r = [])
      (hdue : max s.clock s.portReady + (l.map fun p => cfg.txTime p.size).sum + cfg.txTime p.size + cfg.delay ≤ due) :
      StopsBy cfg s q due

theorem frames_cons (q : Queue) (p : SwitchPacket) (rest : List SwitchPacket) :
    frames q (p :: rest) = (frame? q p).toList ++ frames q rest := by
  unfold frames
  cases hframe : frame? q p with
  | none => rw [List.filterMap_cons_none hframe, Option.toList_none, List.nil_append]
  | some b => rw [List.filterMap_cons_some hframe, Option.toList_some, List.singleton_append]

theorem frames_singleton (q : Queue) (p : SwitchPacket) : frames q [p] = (frame? q p).toList := by
  rw [frames_cons]
  exact List.append_nil _

/-- While the class stays paused, no frame of it joins. -/
theorem waiting_of_paused {n n' : SwitchNode} {port : Port} {gone : List Bool} (htoggles : SwitchNode.Toggles n n' port q gone)
    (hbefore : n.mmu.paused port q = true) (hafter : n'.mmu.paused port q = true) :
    gone ++ frames q (n'.packetsOf port 0) = frames q (n.packetsOf port 0) := by
  obtain ⟨news, hflag, -, hwaiting⟩ := htoggles
  rcases hflag with ⟨rfl, -⟩ | ⟨rfl, hflip⟩
  · rw [List.append_nil] at hwaiting
    exact hwaiting
  · rw [hbefore, hafter] at hflip
    cases hflip

variable {due : Nat}

/-- What does not concern the port's side of the link. -/
theorem StopsBy.of_same (h : StopsBy cfg s q due) (hup : s'.up = s.up) (hpeer : s'.peerPaused = s.peerPaused)
    (hclock : s'.clock = s.clock) (hport : s'.portReady = s.portReady) {news : List SwitchPacket}
    (hjoin : s'.node.packetsOf cfg.port 0 = s.node.packetsOf cfg.port 0 ++ news) (hsilent : frames q news = []) :
    StopsBy cfg s' q due := by
  cases h with
  | stopped hpaused hnone htop =>
      refine .stopped (hpeer ▸ hpaused) (hup ▸ hnone) ?_
      rw [hjoin, SwitchNode.frames_append, htop, hsilent, List.append_nil]
  | onLink hsplit hframe hlast htop hdue =>
      refine .onLink (hup ▸ hsplit) hframe hlast ?_ hdue
      rw [hjoin, SwitchNode.frames_append, htop, hsilent, List.append_nil]
  | @waiting front back p htop hframe hlast hdue =>
      refine .waiting (l := front) (r := back ++ news) (p := p) ?_ hframe ?_ ?_
      · rw [hjoin, htop, List.append_assoc, List.cons_append]
      · rw [SwitchNode.frames_append, hlast, hsilent, List.append_nil]
      · rw [hclock, hport]
        exact hdue

/-- The switch does something else than sending over the link, and the class stays paused. -/
theorem StopsBy.switch (h : StopsBy cfg s q due) (hpause : 0 < cfg.pauseTime) (hdata : DataTransit s.node)
    {e : SwitchNode.SwitchEvent} {node : SwitchNode} (hnext : SwitchNode.switchNext cfg.pauseTime s.node e = some node)
    (hstays : ∀ out, e ≠ .takeDown out) (hquiet : e ≠ .dequeue cfg.port) (haccepted : FramesAccepted node cfg.port)
    (hbefore : s.node.mmu.paused cfg.port q = true) (hafter : node.mmu.paused cfg.port q = true) :
    StopsBy cfg { s with node := node } q due := by
  obtain ⟨news, hjoin, -⟩ := SwitchNode.switchNext_packetsOf (F := fun _ => True) trivial (fun _ _ _ _ _ => trivial) hstays
    hquiet hnext 0
  have htoggles := SwitchNode.switchNext_toggles (q := q) hpause hdata hstays hnext haccepted
  have hgone : s.node.transmits cfg.pauseTime cfg.port e = [] := by
    cases e with
    | dequeue out => exact if_neg fun he => hquiet (by rw [he])
    | _ => rfl
  have hsame := waiting_of_paused htoggles hbefore hafter
  rw [hgone, hjoin, SwitchNode.frames_append] at hsame
  exact h.of_same rfl rfl rfl rfl hjoin (List.append_cancel_left (hsame.trans (List.append_nil _).symm))

/-- The port sends something, and the class stays paused. -/
theorem StopsBy.reply (h : StopsBy cfg s q due) (hpause : 0 < cfg.pauseTime) (hdata : DataTransit s.node) {p : SwitchPacket}
    {node : SwitchNode} (hlink : (s.node.devices cfg.port).linkUp = true) (hready : s.portReady ≤ s.clock)
    (hout : s.node.dequeue cfg.pauseTime cfg.port = some (p, node)) (haccepted : FramesAccepted node cfg.port)
    (hbefore : s.node.mmu.paused cfg.port q = true) (hafter : node.mmu.paused cfg.port q = true) :
    StopsBy cfg { s with
      node := node
      portReady := s.clock + cfg.txTime p.size
      up := s.up ++ [(s.clock + cfg.txTime p.size + cfg.delay, p)] } q due := by
  obtain ⟨qIndex, hfirst, hqueues⟩ := SwitchNode.dequeue_packetsOf (F := fun _ => True) trivial hout
  obtain ⟨rest, news, htop, htop', -⟩ := hqueues 0
  have hnext : SwitchNode.switchNext cfg.pauseTime s.node (.dequeue cfg.port) = some node := by
    simp [SwitchNode.switchNext, hlink, hout]
  have htoggles := SwitchNode.switchNext_toggles (q := q) hpause hdata (fun _ he => by cases he) hnext haccepted
  have hsame := waiting_of_paused htoggles hbefore hafter
  have hgone : s.node.transmits cfg.pauseTime cfg.port (.dequeue cfg.port) = [p] := by
    simp [SwitchNode.transmits, hout]
  rw [hgone] at hsame
  have hnothing : frames q (s.node.packetsOf cfg.port 0) = [] →
      frames q [p] = [] ∧ frames q (node.packetsOf cfg.port 0) = [] := by
    intro hnone
    rw [hnone] at hsame
    exact List.append_eq_nil_iff.mp hsame
  cases h with
  | stopped hpeer hup hnone =>
      obtain ⟨hp, hrest⟩ := hnothing hnone
      refine .stopped hpeer ?_ hrest
      rw [List.map_append, SwitchNode.frames_append, hup, List.map_singleton, hp, List.append_nil]
  | @onLink front back x hup hframe hlast hnone hdue =>
      obtain ⟨hp, hrest⟩ := hnothing hnone
      refine .onLink (l := front) (r := back ++ [(s.clock + cfg.txTime p.size + cfg.delay, p)]) (x := x) ?_ hframe ?_ hrest hdue
      · rw [hup, List.append_assoc, List.cons_append]
      · rw [List.map_append, SwitchNode.frames_append, hlast, List.map_singleton, hp, List.append_nil]
  | @waiting front back first hsplit hframe hlast hdue =>
      rw [htop', SwitchNode.frames_append, frames_singleton] at hsame
      -- queue 0 is not empty, so its head is what is sent
      have hzero := hfirst (by rw [hsplit]; exact List.append_ne_nil_of_right_ne_nil _ (List.cons_ne_nil _ _))
      rw [if_pos hzero.symm] at htop
      have hsilent : frames q news = [] := by
        rw [htop, frames_cons] at hsame
        have hcancel := List.append_cancel_left hsame
        exact List.append_cancel_left (hcancel.trans (List.append_nil _).symm)
      rw [htop] at hsplit
      cases front with
      | nil =>
          rw [List.nil_append] at hsplit
          obtain ⟨rfl, rfl⟩ := List.cons.inj hsplit
          refine .onLink (l := s.up) (r := []) (x := (s.clock + cfg.txTime p.size + cfg.delay, p)) rfl hframe rfl ?_ ?_
          · dsimp only
            rw [htop', SwitchNode.frames_append, hlast, hsilent, List.append_nil]
          · rw [List.map_nil, List.sum_nil] at hdue
            dsimp only
            omega
      | cons y front =>
          rw [List.cons_append] at hsplit
          obtain ⟨rfl, rfl⟩ := List.cons.inj hsplit
          refine .waiting (l := front) (r := back ++ news) (p := first) ?_ hframe ?_ ?_
          · dsimp only
            rw [htop', List.append_assoc, List.cons_append]
          · rw [SwitchNode.frames_append, hlast, hsilent, List.append_nil]
          · rw [List.map_cons, List.sum_cons] at hdue
            dsimp only
            omega

/-- Time passes. A frame in queue 0 waits for nothing but the packet that the port is busy with. -/
theorem StopsBy.advance (h : StopsBy cfg s q due) (htimed : Timed cfg pace s) {dt : Nat}
    (hidle : s.clock + dt ≤ s.portReady ∨ s.node.dequeue cfg.pauseTime cfg.port = none) :
    StopsBy cfg { s with clock := s.clock + dt } q due := by
  cases h with
  | stopped hpeer hup htop => exact .stopped hpeer hup htop
  | onLink hup hframe hlast htop hdue => exact .onLink hup hframe hlast htop hdue
  | @waiting front back p htop hframe hlast hdue =>
      refine .waiting htop hframe hlast ?_
      have hbusy : s.clock + dt ≤ s.portReady := by
        refine hidle.resolve_right ?_
        apply SwitchNode.dequeue_isSome (htimed.counted cfg.port) fun x hx => (htimed.stocked 0 x hx).positive
        rw [htop]
        exact List.append_ne_nil_of_right_ne_nil _ (List.cons_ne_nil _ _)
      dsimp only
      omega

/-- The peer receives something. -/
theorem StopsBy.deliver (h : StopsBy cfg s q due) {x : Nat × SwitchPacket} {rest : List (Nat × SwitchPacket)}
    (hhead : s.up = x :: rest) {paused : Queue → Bool}
    (hpeer : ∀ b, frame? q x.2 = some b → paused q = b) (hkeep : frame? q x.2 = none → paused q = s.peerPaused q) :
    StopsBy cfg { s with up := rest, peerPaused := paused } q due := by
  cases h with
  | stopped hstopped hup htop =>
      rw [hhead, List.map_cons, frames_cons] at hup
      obtain ⟨hnone, hrest⟩ := List.append_eq_nil_iff.mp hup
      exact .stopped ((hkeep (Option.toList_eq_nil_iff.mp hnone)).trans hstopped) hrest htop
  | @onLink front back y hup hframe hlast htop hdue =>
      rw [hhead] at hup
      cases front with
      | nil =>
          rw [List.nil_append] at hup
          obtain ⟨rfl, rfl⟩ := List.cons.inj hup
          exact .stopped (hpeer true hframe) hlast htop
      | cons z front =>
          rw [List.cons_append] at hup
          obtain ⟨rfl, rfl⟩ := List.cons.inj hup
          exact .onLink rfl hframe hlast htop hdue
  | waiting htop hframe hlast hdue => exact .waiting htop hframe hlast hdue

/-- As long as the peer may send, the frame has not arrived, and it is not late. -/
theorem StopsBy.clock_le (h : StopsBy cfg s q due) (htimed : Timed cfg pace s) (hpeer : s.peerPaused q = false) :
    s.clock ≤ due := by
  cases h with
  | stopped hpaused =>
      rw [hpeer] at hpaused
      cases hpaused
  | @onLink front back x hup hframe hlast htop hdue =>
      have harrives := htimed.upDue x (by rw [hup]; exact List.mem_append_right _ List.mem_cons_self)
      omega
  | waiting htop hframe hlast hdue => omega

/-! ### What comes in after a pause -/

/-- The class has been paused since `since`, and `arrived` is the time that it took to send what has come in of it
after that. -/
structure Braking (cfg : LinkConfig) (pace : Pace) (q : Queue) (since arrived : Nat) (s : TimedLink) : Prop where
  hdrm : (s.node.mmu.hdrmBytes cfg.port q).toNat * pace.unit ≤ pace.rate * (pace.txMax + arrived)
  sent : arrived + s.onTheWay cfg q + since ≤ s.peerReady + cfg.delay
  total : arrived + s.onTheWay cfg q ≤ pace.reach cfg + pace.txMax + cfg.delay
  stops : StopsBy cfg s q (since + pace.reach cfg)

/-- The headroom of a class that is not paused is empty, and what a paused class uses of it came in after the pause. -/
structure Braked (cfg : LinkConfig) (pace : Pace) (q : Queue) (s : TimedLink) : Prop where
  config : s.node.mmu.toMmuConfig = cfg.mmu
  covers : ∀ x ∈ s.down, pace.Covers cfg q x.2
  running : s.node.mmu.paused cfg.port q = false → s.node.mmu.hdrmBytes cfg.port q = 0
  braking : s.node.mmu.paused cfg.port q = true → ∃ since arrived, Braking cfg pace q since arrived s

theorem braked_start : Braked cfg pace q (start cfg) where
  config := rfl
  covers := fun _ hx => absurd hx List.not_mem_nil
  running := fun _ => rfl
  braking := fun h => by simp [start, SwitchNode.start, SwitchMmu.start] at h

/-- What a step of the switch does to the two flags. -/
theorem Braked.of_node (h : Braked cfg pace q s) {n' : SwitchNode} {bytes : Nat}
    (hstep : SwitchNode.HdrmStep cfg.port q bytes s.node n') (hnode : s'.node = n')
    (hcovers : ∀ x ∈ s'.down, pace.Covers cfg q x.2)
    (hbraking : n'.mmu.paused cfg.port q = true → ∃ since arrived, Braking cfg pace q since arrived s') : Braked cfg pace q s' where
  config := by
    rw [hnode]
    exact hstep.config.trans h.config
  covers := hcovers
  running := by
    intro hrunning
    rw [hnode] at hrunning ⊢
    apply hstep.running hrunning
    cases hflag : s.node.mmu.paused cfg.port q with
    | true => exact .inl rfl
    | false => exact .inr (h.running hflag)
  braking := by
    rw [hnode]
    exact hbraking

/-- A packet of the class comes in while it is paused. -/
theorem hdrm_mul_le {before after size arrived : Nat} (hgrow : after ≤ before + size)
    (hbefore : before * pace.unit ≤ pace.rate * (pace.txMax + arrived)) {time : Nat} (hsize : size * pace.unit ≤ pace.rate * time) :
    after * pace.unit ≤ pace.rate * (pace.txMax + (arrived + time)) := by
  calc after * pace.unit ≤ (before + size) * pace.unit := Nat.mul_le_mul_right _ hgrow
    _ = before * pace.unit + size * pace.unit := Nat.add_mul ..
    _ ≤ pace.rate * (pace.txMax + arrived) + pace.rate * time := Nat.add_le_add hbefore hsize
    _ = pace.rate * (pace.txMax + (arrived + time)) := by rw [← Nat.mul_add, Nat.add_assoc]

theorem arrivedBytes_le (port : Port) (q : Queue) (n : SwitchNode) (inDev idx : Port) (qIndex : Queue) (size : UInt32) :
    SwitchNode.arrivedBytes port q n (.arrive inDev idx qIndex size) ≤ if qIndex = q then size.toNat else 0 := by
  unfold SwitchNode.arrivedBytes
  dsimp only
  by_cases hq : qIndex = q
  · rw [if_pos hq]
    split
    · exact Nat.le_refl _
    · exact Nat.zero_le _
  · rw [if_neg fun hc => hq hc.2.1, if_neg hq]

/-- The time of a packet, if it is one of the class. -/
def timeOf (cfg : LinkConfig) (q : Queue) (p : Inbound) : Nat := if p.qIndex = q then cfg.txTime p.size else 0

theorem onTheWay_cons {x : Nat × Inbound} {rest : List (Nat × Inbound)} (hdown : s.down = x :: rest) :
    s.onTheWay cfg q = timeOf cfg q x.2 + Serial.work (fun p => cfg.txTime p.size) (fun p => p.qIndex = q) rest := by
  unfold onTheWay timeOf
  rw [hdown, Serial.work_cons]
  simp

theorem onTheWay_snoc (down : List (Nat × Inbound)) (x : Nat × Inbound) :
    Serial.work (fun p : Inbound => cfg.txTime p.size) (fun p => p.qIndex = q) (down ++ [x]) =
      Serial.work (fun p => cfg.txTime p.size) (fun p => p.qIndex = q) down + timeOf cfg q x.2 := by
  unfold timeOf
  rw [Serial.work_snoc]
  simp

/-- The bytes that come in take their time. -/
theorem arrivedBytes_mul_le (n : SwitchNode) {x : Inbound} (hcovers : pace.Covers cfg q x) :
    SwitchNode.arrivedBytes cfg.port q n (.arrive cfg.port x.idx x.qIndex x.size) * pace.unit ≤
      pace.rate * timeOf cfg q x := by
  have hle := arrivedBytes_le cfg.port q n cfg.port x.idx x.qIndex x.size
  unfold timeOf
  split
  · rename_i hq
    rw [if_pos hq] at hle
    exact (Nat.mul_le_mul_right _ hle).trans (hcovers hq)
  · rename_i hq
    rw [if_neg hq, Nat.le_zero] at hle
    rw [hle, Nat.zero_mul]
    exact Nat.zero_le _

theorem Braking.receive {since arrived : Nat} (h : Braking cfg pace q since arrived s)
    (hcovers : ∀ x ∈ s.down, pace.Covers cfg q x.2) (hpause : 0 < cfg.pauseTime) (hdata : DataTransit s.node) {x : Nat × Inbound} {rest : List (Nat × Inbound)}
    {node : SwitchNode} (hdown : s.down = x :: rest)
    (hnext : SwitchNode.switchNext cfg.pauseTime s.node (.arrive cfg.port x.2.idx x.2.qIndex x.2.size) = some node)
    (haccepted : FramesAccepted node cfg.port) (hbefore : s.node.mmu.paused cfg.port q = true)
    (hafter : node.mmu.paused cfg.port q = true) :
    Braking cfg pace q since (arrived + timeOf cfg q x.2) { s with node := node, down := rest } := by
  have hcover := hcovers x (by rw [hdown]; exact List.mem_cons_self)
  have hway : s.onTheWay cfg q = timeOf cfg q x.2 + _ := onTheWay_cons hdown
  have hsent := h.sent
  have htotal := h.total
  rw [hway] at hsent htotal
  exact {
    hdrm := hdrm_mul_le (SwitchNode.switchNext_hdrmStep hnext).bound h.hdrm (arrivedBytes_mul_le s.node hcover)
    sent := by
      unfold onTheWay
      dsimp only
      omega
    total := by
      unfold onTheWay
      dsimp only
      omega
    stops := (h.stops.switch hpause hdata hnext (fun _ he => by cases he) (fun he => by cases he) haccepted hbefore
      hafter).of_same rfl rfl rfl rfl (List.append_nil _).symm rfl }

/-- The packet that causes a pause. All that is on the link has been sent after it. -/
theorem braking_of_pauses (hbraked : Braked cfg pace q s) (htimed : Timed cfg pace s) (hpause : 0 < cfg.pauseTime)
    {x : Nat × Inbound} {rest : List (Nat × Inbound)} {node : SwitchNode} (hdown : s.down = x :: rest) (hdue : x.1 ≤ s.clock)
    (hnext : SwitchNode.switchNext cfg.pauseTime s.node (.arrive cfg.port x.2.idx x.2.qIndex x.2.size) = some node)
    (haccepted : FramesAccepted node cfg.port) (hbefore : s.node.mmu.paused cfg.port q = false)
    (hafter : node.mmu.paused cfg.port q = true)
    (hbacklog : ((s.node.packetsOf cfg.port 0).map fun p => cfg.txTime p.size).sum ≤ pace.backlog) :
    Braking cfg pace q s.clock 0 { s with node := node, down := rest } := by
  have hmine : x.2.qIndex = q := by
    by_contra hne
    have hpaused := SwitchNode.paused_of_paused (q := q) hnext (fun idx size he => ?_) hafter
    · rw [hbefore] at hpaused
      cases hpaused
    · exact hne (SwitchNode.SwitchEvent.arrive.inj he).2.2.1
  have hfits := htimed.down x (by rw [hdown]; exact List.mem_cons_self)
  have hcover := hbraked.covers x (by rw [hdown]; exact List.mem_cons_self)
  have harrives := htimed.downDue x (by rw [hdown]; exact List.mem_cons_self)
  have hpeer := htimed.peerReady
  have hport := htimed.portReady
  have hspaced := htimed.spaced
  rw [hdown] at hspaced
  have hwork : x.1 + Serial.work (fun p : Inbound => cfg.txTime p.size) (fun p => p.qIndex = q) rest ≤ s.peerReady + cfg.delay :=
    hspaced.work_le
  subst hmine
  have htop := SwitchNode.pauses_top hnext hbefore hafter haccepted
  have hframe : frame? x.2.qIndex (SwitchNode.pfcFrame cfg.pauseTime x.2.qIndex .pause) = some true := by
    simp [frame?, SwitchNode.pfcFrame, hpause]
  have hpfc : (SwitchNode.pfcFrame cfg.pauseTime x.2.qIndex .pause).size = pfcSize := rfl
  exact {
    hdrm := by
      have hzero := hbraked.running hbefore
      have hhdrm : SwitchNode.HdrmStep cfg.port x.2.qIndex _ s.node node := SwitchNode.switchNext_hdrmStep hnext
      have hgrow := hhdrm.bound
      rw [hzero, UInt32.toNat_zero, Nat.zero_add] at hgrow
      have hbytes := (Nat.mul_le_mul_right pace.unit hgrow).trans (arrivedBytes_mul_le s.node hcover)
      refine hbytes.trans (Nat.mul_le_mul_left _ ?_)
      unfold timeOf
      rw [if_pos rfl]
      exact hfits.time
    sent := by
      unfold onTheWay
      dsimp only
      omega
    total := by
      unfold onTheWay
      dsimp only
      omega
    stops := by
      refine .waiting (l := s.node.packetsOf cfg.port 0) (r := []) htop hframe rfl ?_
      rw [hpfc]
      unfold Pace.reach
      dsimp only
      omega }

/-- The peer sends another packet. It would not send one of the class if the frame had arrived. -/
theorem Braking.transmit {since arrived : Nat} (h : Braking cfg pace q since arrived s) (htimed : Timed cfg pace s) {p : Inbound}
    (hfits : pace.Fits cfg p.size) (hready : s.peerReady ≤ s.clock) (hpaused : s.peerPaused p.qIndex = false) :
    Braking cfg pace q since arrived { s with
      peerReady := s.clock + cfg.txTime p.size
      down := s.down ++ [(s.clock + cfg.txTime p.size + cfg.delay, p)] } := by
  have hsent := h.sent
  have htotal := h.total
  have hmine : timeOf cfg q p = 0 ∨ timeOf cfg q p = cfg.txTime p.size ∧ s.clock ≤ since + pace.reach cfg := by
    by_cases hq : p.qIndex = q
    · exact .inr ⟨if_pos hq, h.stops.clock_le htimed (hq ▸ hpaused)⟩
    · exact .inl (if_neg hq)
  have htime := hfits.time
  unfold onTheWay at hsent htotal
  exact {
    hdrm := h.hdrm
    sent := by
      unfold onTheWay
      rw [onTheWay_snoc]
      dsimp only
      omega
    total := by
      unfold onTheWay
      rw [onTheWay_snoc]
      dsimp only
      omega
    stops := h.stops.of_same rfl rfl rfl rfl (List.append_nil _).symm rfl }

theorem Braked.step (h : Braked cfg pace q s) (htimed : Timed cfg pace s) (hpause : 0 < cfg.pauseTime)
    (hdata : DataTransit s.node) (hsizes : ∀ size, e.size? = some size → pace.Fits cfg size)
    (hcovers : ∀ p, e = .transmit p → pace.Covers cfg q p) (hstep : Step cfg s e s') (haccepted : FramesAccepted s'.node cfg.port)
    (hbacklog : s.node.mmu.paused cfg.port q = false → s'.node.mmu.paused cfg.port q = true →
      ((s.node.packetsOf cfg.port 0).map fun p => cfg.txTime p.size).sum ≤ pace.backlog) : Braked cfg pace q s' := by
  -- a step that the switch has no part in
  have hkeep : ∀ t : TimedLink, t.node = s.node → (∀ x ∈ t.down, pace.Covers cfg q x.2) →
      (∀ since arrived, Braking cfg pace q since arrived s → Braking cfg pace q since arrived t) → Braked cfg pace q t := by
    intro t hnode hcover hbraking
    have hsame : SwitchNode.HdrmStep cfg.port q 0 s.node s.node := .of_mmu_eq rfl
    refine h.of_node hsame hnode hcover fun hflag => ?_
    obtain ⟨since, arrived, hold⟩ := h.braking hflag
    exact ⟨since, arrived, hbraking since arrived hold⟩
  cases hstep with
  | advance hdown hup hidle =>
      refine hkeep _ ?_ h.covers fun since arrived hold => ?_
      · rfl
      exact ⟨hold.hdrm, hold.sent, hold.total, hold.stops.advance htimed hidle⟩
  | @transmit p hready hpaused =>
      refine hkeep _ ?_ (fun x hx => ?_) fun since arrived hold => ?_
      · rfl
      · rcases List.mem_append.mp hx with hx | hx
        · exact h.covers x hx
        · obtain rfl := List.mem_singleton.mp hx
          exact hcovers p rfl
      exact hold.transmit htimed (hsizes p.size rfl) hready hpaused
  | @data x rest inDev hup hdue hkind =>
      refine hkeep _ ?_ h.covers fun since arrived hold => ?_
      · rfl
      have hnone : frame? q x.2 = none := by simp [frame?, hkind]
      refine ⟨hold.hdrm, hold.sent, hold.total, hold.stops.deliver hup (fun b hb => ?_) fun _ => rfl⟩
      rw [hnone] at hb
      cases hb
  | @pfc x rest time qIndex paused hup hdue hkind hpaused =>
      refine hkeep _ ?_ h.covers fun since arrived hold => ?_
      · rfl
      have hflag := PfcLink.receivePfc_eq hpaused
      refine ⟨hold.hdrm, hold.sent, hold.total, hold.stops.deliver hup (fun b hb => ?_) fun hnone => ?_⟩
      · rw [hflag]
        simp only [frame?, hkind] at hb
        split at hb
        · rename_i hq
          rw [hq, Function.update_self]
          exact Option.some.inj hb
        · cases hb
      · rw [hflag]
        simp only [frame?, hkind] at hnone
        split at hnone
        · cases hnone
        · rename_i hq
          exact Function.update_of_ne (Ne.symm hq) ..
  | @receive x rest node hdown hdue hnext =>
      refine h.of_node (SwitchNode.switchNext_hdrmStep hnext) rfl (fun y hy => ?_) fun hafter => ?_
      · exact h.covers y (by rw [hdown]; exact List.mem_cons_of_mem x hy)
      cases hbefore : s.node.mmu.paused cfg.port q with
      | true =>
          obtain ⟨since, arrived, hold⟩ := h.braking hbefore
          exact ⟨since, _, hold.receive h.covers hpause hdata hdown hnext haccepted hbefore hafter⟩
      | false =>
          exact ⟨s.clock, 0, braking_of_pauses h htimed hpause hdown hdue hnext haccepted hbefore hafter
            (hbacklog hbefore hafter)⟩
  | @reply p node hlink hready hout =>
      have hnext : SwitchNode.switchNext cfg.pauseTime s.node (.dequeue cfg.port) = some node := by
        simp [SwitchNode.switchNext, hlink, hout]
      have hhdrm : SwitchNode.HdrmStep cfg.port q _ s.node node := SwitchNode.switchNext_hdrmStep hnext
      refine h.of_node hhdrm rfl h.covers fun hafter => ?_
      have hbefore := SwitchNode.paused_of_paused hnext (fun _ _ he => by cases he) hafter
      obtain ⟨since, arrived, hold⟩ := h.braking hbefore
      exact ⟨since, arrived, (Nat.mul_le_mul_right _ hhdrm.bound).trans hold.hdrm, hold.sent, hold.total,
        hold.stops.reply hpause hdata hlink hready hout haccepted hbefore hafter⟩
  | @switch event node helsewhere hnext =>
      obtain ⟨hstays, hquiet, hother⟩ := elsewhere_stays helsewhere
      have hhdrm : SwitchNode.HdrmStep cfg.port q _ s.node node := SwitchNode.switchNext_hdrmStep hnext
      refine h.of_node hhdrm rfl h.covers fun hafter => ?_
      have hbefore := SwitchNode.paused_of_paused hnext (fun idx size he => hother idx q size he) hafter
      obtain ⟨since, arrived, hold⟩ := h.braking hbefore
      have hnothing : SwitchNode.arrivedBytes cfg.port q s.node event = 0 := by
        cases event with
        | arrive inDev idx qIndex size => exact if_neg fun hc => hother idx qIndex size (by rw [hc.1])
        | _ => rfl
      have hbound := hhdrm.bound
      rw [hnothing, Nat.add_zero] at hbound
      exact ⟨since, arrived, (Nat.mul_le_mul_right _ hbound).trans hold.hdrm, hold.sent, hold.total,
        hold.stops.switch hpause hdata hnext hstays hquiet haccepted hbefore hafter⟩

end TimedLink

end Lcmp
