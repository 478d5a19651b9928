import Lcmp.Switch.Node

/-!
# What the steps of a switch do

One specification for an arrival that is stored and one for a departure. Each says what becomes of the
packets, of `m_bytes` and of the counters of the unit, and hides the PFC frame that may go with it.
From these follows what one ingress queue keeps: its counters say what is stored, and it is paused
only while something is stored.
-/

namespace Lcmp

namespace SwitchNode

variable {pauseTime : UInt32} {n n' : SwitchNode} {inDev idx : Port} {qIndex : Queue} {size : UInt32}

/-- The node once the unit has charged a packet; the highest priority is not charged. -/
def charged (n : SwitchNode) (inDev idx : Port) (qIndex : Queue) (size : UInt32) : SwitchNode :=
  if qIndex ≠ 0 then n.charge inDev idx qIndex size else n

/-- All that an admitted arrival does; `accepted` says whether the egress queue takes the packet. -/
structure Arrived (n n' : SwitchNode) (inDev idx : Port) (qIndex : Queue) (size : UInt32) (accepted : Bool) :
    Prop where
  stored : ∀ i o q, n'.stored i o q =
    if accepted = true ∧ i = inDev ∧ o = idx ∧ q = qIndex then n.stored i o q ++ [⟨size, .transit inDev⟩]
    else n.stored i o q
  data : ∀ o q, q ≠ 0 → ((n'.devices o).queue.queues q).packets =
    if accepted = true ∧ o = idx ∧ q = qIndex then
      ((n.devices o).queue.queues q).packets ++ [⟨size, .transit inDev⟩]
    else ((n.devices o).queue.queues q).packets
  bytes : n'.bytes = (n.setBytes inDev idx qIndex (n.bytes inDev idx qIndex + size)).bytes
  mmu : n'.mmu = { (n.charged inDev idx qIndex size).mmu with paused := n'.mmu.paused }
  pausedOff : ∀ i q, ¬(i = inDev ∧ q = qIndex) → n'.mmu.paused i q = n.mmu.paused i q
  pausedTop : qIndex = 0 → n'.mmu.paused = n.mmu.paused

/-- All that a departure does. What it leaves in queue 0 is not said: a resume frame may have joined
it. -/
structure Departed (n n' : SwitchNode) (port : Port) (qIndex : Queue) (p : SwitchPacket) : Prop where
  stored : ∀ i o q, n.stored i o q =
    if p.kind = .transit i ∧ o = port ∧ q = qIndex then p :: n'.stored i o q else n'.stored i o q
  data : ∀ o q, q ≠ 0 → ((n.devices o).queue.queues q).packets =
    if o = port ∧ q = qIndex then p :: ((n'.devices o).queue.queues q).packets
    else ((n'.devices o).queue.queues q).packets
  untouched : (∀ inDev, qIndex ≠ 0 → p.kind ≠ .transit inDev) → n'.mmu = n.mmu ∧ n'.bytes = n.bytes
  refunded : ∀ inDev, qIndex ≠ 0 → p.kind = .transit inDev →
    n'.mmu = { (n.refund inDev port qIndex p.size).mmu with paused := n'.mmu.paused } ∧
    n'.bytes = (n.refund inDev port qIndex p.size).bytes ∧
    n'.mmu.paused = if (n.refund inDev port qIndex p.size).mmu.checkShouldResume inDev qIndex then
      Grid.set n.mmu.paused inDev qIndex false else n.mmu.paused

/-! ### Arrivals -/

/-- A packet that admission control lets through is charged, unless it has the highest priority. -/
theorem admission_cases {n₁ : SwitchNode} (h : n.admission pauseTime inDev idx qIndex size = some n₁) :
    qIndex ≠ 0 ∧ n₁ = (n.charge inDev idx qIndex size).checkAndSendPfc pauseTime inDev qIndex ∨
      qIndex = 0 ∧ n₁ = n := by
  unfold admission at h
  split at h
  · rename_i hq
    split at h
    · exact .inl ⟨hq, (Option.some.inj h).symm⟩
    · cases h
  · rename_i hq
    exact .inr ⟨not_not.mp hq, (Option.some.inj h).symm⟩

theorem admission_same {n₁ : SwitchNode} (h : n.admission pauseTime inDev idx qIndex size = some n₁) :
    SameStore (n.charged inDev idx qIndex size) n₁ ∧
      n₁.mmu.paused =
        if qIndex ≠ 0 ∧ (n.charge inDev idx qIndex size).mmu.checkShouldPause inDev qIndex = true then
          Grid.set n.mmu.paused inDev qIndex true
        else n.mmu.paused := by
  have hpaused : (n.charge inDev idx qIndex size).mmu.paused = n.mmu.paused :=
    (n.mmu.updateIngressAdmission_frame inDev qIndex size).1
  rcases admission_cases h with ⟨hq, rfl⟩ | ⟨hq, rfl⟩
  · rw [charged, if_pos hq]
    refine ⟨checkAndSendPfc_same inDev qIndex, ?_⟩
    rw [checkAndSendPfc_paused, hpaused]
    simp [hq]
  · rw [charged, if_neg (not_not.mpr hq), if_neg (fun hc => hc.1 hq)]
    exact ⟨SameStore.refl _, rfl⟩

theorem sendToDev_dropped (h : n.admission pauseTime inDev idx qIndex size = none) :
    n.sendToDev pauseTime inDev idx qIndex size = n := by
  simp only [sendToDev, h]

theorem charged_store (n : SwitchNode) (inDev idx : Port) (qIndex : Queue) (size : UInt32) :
    (n.charged inDev idx qIndex size).bytes = n.bytes ∧ (n.charged inDev idx qIndex size).devices = n.devices := by
  simp only [charged]
  split
  · exact ⟨rfl, rfl⟩
  · exact ⟨rfl, rfl⟩

theorem sendToDev_admitted {n₁ : SwitchNode} (h : n.admission pauseTime inDev idx qIndex size = some n₁) :
    n.sendToDev pauseTime inDev idx qIndex size =
      (n₁.setBytes inDev idx qIndex (n₁.bytes inDev idx qIndex + size)).switchSend idx qIndex
        ⟨size, .transit inDev⟩ := by
  simp only [sendToDev, h]

theorem sendToDev_arrived {n₁ : SwitchNode} (h : n.admission pauseTime inDev idx qIndex size = some n₁) :
    Arrived n (n.sendToDev pauseTime inDev idx qIndex size) inDev idx qIndex size
      ((n₁.devices idx).queue.accepts ⟨size, .transit inDev⟩ qIndex) := by
  obtain ⟨hsame, hpaused⟩ := admission_same h
  obtain ⟨hbytes, hdevices⟩ := n.charged_store inDev idx qIndex size
  rw [sendToDev_admitted h]
  constructor
  · intro i o q
    have hsend := switchSend_stored (n := n₁.setBytes inDev idx qIndex (n₁.bytes inDev idx qIndex + size))
      idx qIndex ⟨size, .transit inDev⟩ i o q
    have hbefore : (n₁.setBytes inDev idx qIndex (n₁.bytes inDev idx qIndex + size)).stored i o q =
        n.stored i o q := (hsame.stored i o q).trans (by unfold stored; rw [hdevices])
    rw [hsend, hbefore]
    by_cases hcell : (n₁.devices idx).queue.accepts ⟨size, .transit inDev⟩ qIndex = true ∧
        i = inDev ∧ o = idx ∧ q = qIndex
    · obtain ⟨haccepts, rfl, rfl, rfl⟩ := hcell
      rw [if_pos ⟨⟨rfl, rfl, haccepts⟩, rfl⟩, if_pos ⟨haccepts, rfl, rfl, rfl⟩]
    · rw [if_neg hcell, if_neg]
      rintro ⟨⟨ho, hq, haccepts⟩, hkind⟩
      exact hcell ⟨haccepts, (PacketKind.transit.inj hkind).symm, ho, hq⟩
  · intro o q hq
    have hsend := switchSend_packets (n := n₁.setBytes inDev idx qIndex (n₁.bytes inDev idx qIndex + size))
      idx qIndex ⟨size, .transit inDev⟩ o q
    have hbefore : (((n₁.setBytes inDev idx qIndex (n₁.bytes inDev idx qIndex + size)).devices o).queue.queues
        q).packets = ((n.devices o).queue.queues q).packets :=
      (hsame.data o q hq).trans (by rw [hdevices])
    rw [hsend, hbefore]
    by_cases hcell : (n₁.devices idx).queue.accepts ⟨size, .transit inDev⟩ qIndex = true ∧ o = idx ∧ q = qIndex
    · rw [if_pos hcell, if_pos ⟨hcell.2.1, hcell.2.2, hcell.1⟩]
    · rw [if_neg hcell, if_neg (fun hc => hcell ⟨hc.2.2, hc.1, hc.2.1⟩)]
  · rw [switchSend_bytes]
    unfold setBytes
    rw [hsame.bytes, hbytes]
  · exact hsame.mmu
  · intro i q hcell
    change n₁.mmu.paused i q = _
    rw [hpaused]
    split
    · exact Grid.set_of_ne hcell
    · rfl
  · intro hq
    change n₁.mmu.paused = _
    rw [hpaused, if_neg (fun hc => hc.1 hq)]

/-! ### Departures -/

theorem dequeue_cases {port : Port} {p : SwitchPacket} (h : n.dequeue pauseTime port = some (p, n')) :
    ∃ qIndex eq', BEgressQueue.Dequeued (n.devices port).queue eq' p qIndex ∧
      n' = (n.setQueue port eq').switchNotifyDequeue pauseTime port qIndex p := by
  unfold dequeue at h
  split at h
  · cases h
  · rename_i hnext
    obtain ⟨rfl, rfl⟩ := Prod.mk.inj (Option.some.inj h)
    exact ⟨_, _, BEgressQueue.dequeueRR_spec hnext, rfl⟩

theorem dequeued_packets {port : Port} {p : SwitchPacket} {eq' : BEgressQueue}
    (h : BEgressQueue.Dequeued (n.devices port).queue eq' p qIndex) (o : Port) (q : Queue) :
    ((n.devices o).queue.queues q).packets =
      if o = port ∧ q = qIndex then p :: (((n.setQueue port eq').devices o).queue.queues q).packets
      else (((n.setQueue port eq').devices o).queue.queues q).packets := by
  by_cases ho : o = port
  · subst ho
    by_cases hq : q = qIndex
    · subst hq
      simp [setQueue, h.head]
    · simp [setQueue, hq, h.others q hq]
  · simp [setQueue, setDevice_of_ne _ ho, ho]

theorem dequeued_stored {port : Port} {p : SwitchPacket} {eq' : BEgressQueue}
    (h : BEgressQueue.Dequeued (n.devices port).queue eq' p qIndex) (i o : Port) (q : Queue) :
    n.stored i o q =
      if p.kind = .transit i ∧ o = port ∧ q = qIndex then p :: (n.setQueue port eq').stored i o q
      else (n.setQueue port eq').stored i o q := by
  unfold stored
  rw [dequeued_packets h o q]
  by_cases hhere : o = port ∧ q = qIndex
  · by_cases hkind : p.kind = .transit i
    · simp [hhere, hkind]
    · simp [hhere, hkind]
  · rw [if_neg hhere, if_neg (fun hc => hhere hc.2)]

/-- A switched packet below the highest priority is refunded. -/
theorem switchNotifyDequeue_transit {port : Port} {p : SwitchPacket} (hq : qIndex ≠ 0) (hkind : p.kind = .transit inDev) :
    n.switchNotifyDequeue pauseTime port qIndex p =
      (n.refund inDev port qIndex p.size).checkAndSendResume pauseTime inDev qIndex := by
  simp only [switchNotifyDequeue, hkind, if_pos hq]

/-- Nothing else is. -/
theorem switchNotifyDequeue_other {port : Port} {p : SwitchPacket}
    (h : ¬ ∃ inDev, qIndex ≠ 0 ∧ p.kind = .transit inDev) : n.switchNotifyDequeue pauseTime port qIndex p = n := by
  unfold switchNotifyDequeue
  by_cases hq : qIndex ≠ 0
  · cases hkind : p.kind with
    | transit inDev => exact absurd ⟨inDev, hq, hkind⟩ h
    | pfc _ _ => simp only [if_pos hq]
  · rw [if_neg hq]

/-- What the switch is told of a packet that has left its egress queue. -/
theorem dequeued_departed {port : Port} {p : SwitchPacket} {eq' : BEgressQueue}
    (h : BEgressQueue.Dequeued (n.devices port).queue eq' p qIndex) :
    Departed n ((n.setQueue port eq').switchNotifyDequeue pauseTime port qIndex p) port qIndex p := by
  by_cases hrefund : ∃ inDev, qIndex ≠ 0 ∧ p.kind = .transit inDev
  · obtain ⟨inDev, hq, hkind⟩ := hrefund
    have hsame : SameStore ((n.setQueue port eq').refund inDev port qIndex p.size)
        (((n.setQueue port eq').refund inDev port qIndex p.size).checkAndSendResume pauseTime inDev qIndex) :=
      checkAndSendResume_same inDev qIndex
    rw [switchNotifyDequeue_transit hq hkind]
    refine ⟨?_, ?_, fun hnone => absurd hkind (hnone inDev hq), ?_⟩
    · intro i o q
      rw [hsame.stored i o q]
      exact dequeued_stored h i o q
    · intro o q hq'
      rw [hsame.data o q hq']
      exact dequeued_packets h o q
    · intro inDev' _ hkind'
      obtain rfl : inDev = inDev' := PacketKind.transit.inj (hkind.symm.trans hkind')
      exact ⟨hsame.mmu, hsame.bytes, checkAndSendResume_paused inDev qIndex⟩
  · rw [switchNotifyDequeue_other hrefund]
    refine ⟨dequeued_stored h, fun o q _ => dequeued_packets h o q, fun _ => ⟨rfl, rfl⟩, ?_⟩
    intro inDev hq hkind
    exact absurd ⟨inDev, hq, hkind⟩ hrefund

theorem dequeue_departed {port : Port} {p : SwitchPacket} (h : n.dequeue pauseTime port = some (p, n')) :
    ∃ qIndex, Departed n n' port qIndex p ∧
      (qIndex = 0 → ((n.devices port).queue.queues 0).packets.head? = some p) := by
  obtain ⟨qIndex, eq', hspec, rfl⟩ := dequeue_cases h
  refine ⟨qIndex, dequeued_departed hspec, fun hq => ?_⟩
  subst hq
  rw [hspec.head]
  rfl

/-! ### Links -/

theorem recvPfc_same {port : Port} {time : UInt32} (h : n.recvPfc port qIndex time = some n') :
    SameStore n n' ∧ n'.mmu.paused = n.mmu.paused ∧ ∀ out, (n'.devices out).queue = (n.devices out).queue := by
  have hset : ∀ paused, SameStore n (n.setDevice port { n.devices port with paused := paused }) ∧
      (n.setDevice port { n.devices port with paused := paused }).mmu.paused = n.mmu.paused ∧
      ∀ out, ((n.setDevice port { n.devices port with paused := paused }).devices out).queue =
        (n.devices out).queue := by
    intro paused
    have hqueue : ∀ out, ((n.setDevice port { n.devices port with paused := paused }).devices out).queue =
        (n.devices out).queue := by
      intro out
      by_cases hout : out = port
      · subst hout
        rw [setDevice_self]
      · rw [setDevice_of_ne _ hout]
    exact ⟨⟨rfl, rfl, fun i o q => by unfold stored; rw [hqueue], fun o q _ => by rw [hqueue]⟩, rfl, hqueue⟩
  obtain ⟨paused, -, rfl⟩ := Option.map_eq_some_iff.mp h
  exact hset paused

theorem takeDown_packets (port out : Port) (q : Queue) {p : SwitchPacket}
    (h : p ∈ (((n.takeDown port).devices out).queue.queues q).packets) :
    p ∈ ((n.devices out).queue.queues q).packets := by
  by_cases hout : out = port
  · subst hout
    rw [takeDown, setDevice_self] at h
    exact BEgressQueue.mem_drain h
  · rwa [takeDown, setDevice_of_ne _ hout] at h

/-- Taking down a port that stores nothing from `inDev`. -/
theorem takeDown_stored {port : Port} {q : Queue} (h : n.stored inDev port q = []) (out : Port) :
    (n.takeDown port).stored inDev out q = n.stored inDev out q := by
  by_cases hout : out = port
  · subst hout
    rw [h]
    apply List.eq_nil_iff_forall_not_mem.mpr
    intro p hp
    obtain ⟨hmem, hkind⟩ := List.mem_filter.mp hp
    have hbefore : p ∈ n.stored inDev out q := List.mem_filter.mpr ⟨takeDown_packets out out q hmem, hkind⟩
    rw [h] at hbefore
    cases hbefore
  · simp only [stored, takeDown]
    rw [setDevice_of_ne _ hout]

/-! ### The steps of the system -/

/-- What a step of the system can be. -/
inductive Step (pauseTime : UInt32) (n : SwitchNode) : SwitchEvent → SwitchNode → Prop where
  | ignored (e : SwitchEvent) (h : ∀ port, e ≠ .dequeue port ∧ e ≠ .takeDown port) : Step pauseTime n e n
  | arrive {inDev idx : Port} {qIndex : Queue} {size : UInt32} {n₁ : SwitchNode}
      (hup : (n.devices inDev).linkUp = true) (hadm : n.admission pauseTime inDev idx qIndex size = some n₁) :
      Step pauseTime n (.arrive inDev idx qIndex size) (n.sendToDev pauseTime inDev idx qIndex size)
  | dequeue {port : Port} {p : SwitchPacket} {n' : SwitchNode} (h : n.dequeue pauseTime port = some (p, n')) :
      Step pauseTime n (.dequeue port) n'
  | recvPfc {port : Port} {qIndex : Queue} {time : UInt32} {n' : SwitchNode}
      (h : n.recvPfc port qIndex time = some n') : Step pauseTime n (.recvPfc port qIndex time) n'
  | takeDown (port : Port) : Step pauseTime n (.takeDown port) (n.takeDown port)

theorem switchNext_step {e : SwitchEvent} (h : switchNext pauseTime n e = some n') : Step pauseTime n e n' := by
  cases e with
  | arrive inDev idx qIndex size =>
      simp only [switchNext] at h
      split at h
      · obtain rfl := Option.some.inj h
        exact .ignored _ fun _ => ⟨SwitchEvent.noConfusion, SwitchEvent.noConfusion⟩
      · rename_i hup
        split at h
        · cases h
        · obtain rfl := Option.some.inj h
          cases hadm : n.admission pauseTime inDev idx qIndex size with
          | none =>
              rw [sendToDev_dropped hadm]
              exact .ignored _ fun _ => ⟨SwitchEvent.noConfusion, SwitchEvent.noConfusion⟩
          | some n₁ => exact .arrive (by simpa using hup) hadm
  | dequeue port =>
      simp only [switchNext] at h
      split at h
      · cases h
      · obtain ⟨⟨p, n₁⟩, hout, rfl⟩ := Option.map_eq_some_iff.mp h
        exact .dequeue hout
  | recvPfc port qIndex time =>
      simp only [switchNext] at h
      split at h
      · obtain rfl := Option.some.inj h
        exact .ignored _ fun _ => ⟨SwitchEvent.noConfusion, SwitchEvent.noConfusion⟩
      · exact .recvPfc h
  | takeDown port =>
      obtain rfl := Option.some.inj h
      exact .takeDown port

/-! ### What every step keeps -/

/-- The queues 1 to 7 hold packets that came in over a port, and no PFC frames. -/
def DataTransit (n : SwitchNode) : Prop :=
  ∀ out q, q ≠ 0 → ∀ p ∈ ((n.devices out).queue.queues q).packets, ∃ inDev, p.kind = .transit inDev

theorem Arrived.dataTransit {accepted : Bool} (h : Arrived n n' inDev idx qIndex size accepted)
    (hdata : DataTransit n) : DataTransit n' := by
  intro out q hq p hp
  rw [h.data out q hq] at hp
  split at hp
  · rcases List.mem_append.mp hp with hp | hp
    · exact hdata out q hq p hp
    · obtain rfl := List.mem_singleton.mp hp
      exact ⟨inDev, rfl⟩
  · exact hdata out q hq p hp

theorem Departed.dataTransit {port : Port} {p : SwitchPacket} (h : Departed n n' port qIndex p)
    (hdata : DataTransit n) : DataTransit n' := by
  intro out q hq p' hp'
  apply hdata out q hq p'
  rw [h.data out q hq]
  split
  · exact List.mem_cons_of_mem _ hp'
  · exact hp'

theorem SameStore.dataTransit (h : SameStore n n') (hdata : DataTransit n) : DataTransit n' := by
  intro out q hq
  rw [h.data out q hq]
  exact hdata out q hq

theorem switchNext_dataTransit {e : SwitchEvent} (hdata : DataTransit n)
    (hnext : switchNext pauseTime n e = some n') : DataTransit n' := by
  cases switchNext_step hnext with
  | ignored => exact hdata
  | arrive hup hadm => exact (sendToDev_arrived hadm).dataTransit hdata
  | dequeue hout =>
      obtain ⟨qIndex, hdeparted, -⟩ := dequeue_departed hout
      exact hdeparted.dataTransit hdata
  | recvPfc hrecv => exact (recvPfc_same hrecv).1.dataTransit hdata
  | takeDown port => exact fun out q hq p hp => hdata out q hq p (takeDown_packets port out q hp)

/-- The highest priority is never paused. -/
theorem Arrived.paused_top {accepted : Bool} (h : Arrived n n' inDev idx qIndex size accepted) (i : Port) :
    n'.mmu.paused i 0 = n.mmu.paused i 0 := by
  by_cases hq : qIndex = 0
  · rw [h.pausedTop hq]
  · exact h.pausedOff i 0 fun hc => hq hc.2.symm

theorem Departed.paused_top {port : Port} {p : SwitchPacket} (h : Departed n n' port qIndex p) (i : Port) :
    n'.mmu.paused i 0 = n.mmu.paused i 0 := by
  by_cases hrefund : ∃ inDev, qIndex ≠ 0 ∧ p.kind = .transit inDev
  · obtain ⟨inDev, hq, hkind⟩ := hrefund
    rw [(h.refunded inDev hq hkind).2.2]
    split
    · exact Grid.set_of_ne fun hc => hq hc.2.symm
    · rfl
  · rw [(h.untouched fun inDev hq hkind => hrefund ⟨inDev, hq, hkind⟩).1]

/-! ### One ingress queue -/

theorem Arrived.bytesFrom {accepted : Bool} (h : Arrived n n' inDev idx qIndex size accepted) (i : Port)
    (q : Queue) :
    n'.bytesFrom i q = n.bytesFrom i q + if accepted = true ∧ i = inDev ∧ q = qIndex then size.toNat else 0 := by
  by_cases hcell : accepted = true ∧ i = inDev ∧ q = qIndex
  · obtain ⟨rfl, rfl, rfl⟩ := hcell
    have hsum := Grid.sum_of_eq_except (fun o => n'.storedBytes i o q) (fun o => n.storedBytes i o q) idx (by
      intro o ho
      simp only [storedBytes]
      rw [h.stored, if_neg (fun hc => ho hc.2.2.1)])
    have hself : n'.storedBytes i idx q = n.storedBytes i idx q + size.toNat := by
      unfold storedBytes
      rw [h.stored, if_pos ⟨rfl, rfl, rfl, rfl⟩, packetBytes_append]
      simp [packetBytes]
    rw [if_pos ⟨rfl, rfl, rfl⟩]
    simp only [SwitchNode.bytesFrom]
    omega
  · rw [if_neg hcell, Nat.add_zero]
    apply Finset.sum_congr rfl
    intro o _
    simp only [storedBytes]
    rw [h.stored, if_neg (fun hc => hcell ⟨hc.1, hc.2.1, hc.2.2.2⟩)]

theorem Departed.bytesFrom {port : Port} {p : SwitchPacket} (h : Departed n n' port qIndex p) (i : Port)
    (q : Queue) :
    n.bytesFrom i q = n'.bytesFrom i q + if p.kind = .transit i ∧ q = qIndex then p.size.toNat else 0 := by
  by_cases hcell : p.kind = .transit i ∧ q = qIndex
  · obtain ⟨hkind, rfl⟩ := hcell
    have hsum := Grid.sum_of_eq_except (fun o => n.storedBytes i o q) (fun o => n'.storedBytes i o q) port (by
      intro o ho
      simp only [storedBytes]
      rw [h.stored, if_neg (fun hc => ho hc.2.1)])
    have hself : n.storedBytes i port q = p.size.toNat + n'.storedBytes i port q := by
      simp only [storedBytes]
      rw [h.stored, if_pos ⟨hkind, rfl, rfl⟩, packetBytes_cons]
    rw [if_pos ⟨hkind, rfl⟩]
    unfold SwitchNode.bytesFrom
    omega
  · rw [if_neg hcell, Nat.add_zero]
    apply Finset.sum_congr rfl
    intro o _
    simp only [storedBytes]
    rw [h.stored, if_neg (fun hc => hcell ⟨hc.1, hc.2.2⟩)]

/-- The two counters of an ingress queue add up to what is stored of its packets. -/
def IngressExact (n : SwitchNode) (inDev : Port) (qIndex : Queue) : Prop :=
  (n.mmu.ingressBytes inDev qIndex).toNat + (n.mmu.hdrmBytes inDev qIndex).toNat = n.bytesFrom inDev qIndex

/-- A paused ingress queue has a packet in the switch. -/
def PausedStored (n : SwitchNode) (inDev : Port) (qIndex : Queue) : Prop :=
  n.mmu.paused inDev qIndex = true → ∃ out, n.stored inDev out qIndex ≠ []

theorem SameStore.bytesFrom (h : SameStore n n') (i : Port) (q : Queue) : n'.bytesFrom i q = n.bytesFrom i q := by
  apply Finset.sum_congr rfl
  intro o _
  simp only [storedBytes]
  rw [h.stored]

theorem Arrived.ingressExact {accepted : Bool} (h : Arrived n n' inDev idx qIndex size accepted) {i : Port}
    {q : Queue} (hq : q ≠ 0) (hexact : IngressExact n i q)
    (hfits : i = inDev → q = qIndex → accepted = true ∧ n.bytesFrom i q + size.toNat < 2 ^ 32) :
    IngressExact n' i q := by
  simp only [IngressExact] at hexact ⊢
  rw [h.bytesFrom, h.mmu]
  by_cases hcell : i = inDev ∧ q = qIndex
  · obtain ⟨rfl, rfl⟩ := hcell
    obtain ⟨haccepted, hroom⟩ := hfits rfl rfl
    have hself := n.mmu.updateIngressAdmission_self i q size (by omega)
    rw [if_pos ⟨haccepted, rfl, rfl⟩, charged, if_pos hq]
    exact hself.trans (by omega)
  · rw [if_neg (fun hc => hcell hc.2), Nat.add_zero]
    simp only [charged]
    split
    · have hsame := n.mmu.updateIngressAdmission_of_ne inDev qIndex size hcell
      have hoff : ((n.mmu.updateIngressAdmission inDev qIndex size).ingressBytes i q).toNat +
          ((n.mmu.updateIngressAdmission inDev qIndex size).hdrmBytes i q).toNat = n.bytesFrom i q := by
        rw [hsame.1, hsame.2, hexact]
      exact hoff
    · exact hexact

theorem Departed.ingressExact {port : Port} {p : SwitchPacket} (h : Departed n n' port qIndex p) {i : Port}
    {q : Queue} (hq : q ≠ 0) (hexact : IngressExact n i q) : IngressExact n' i q := by
  have hbytes := h.bytesFrom i q
  simp only [IngressExact] at hexact ⊢
  by_cases hrefund : ∃ inDev, qIndex ≠ 0 ∧ p.kind = .transit inDev
  · obtain ⟨inDev, hq', hkind⟩ := hrefund
    obtain ⟨hmmu, -, -⟩ := h.refunded inDev hq' hkind
    rw [hmmu]
    by_cases hcell : i = inDev ∧ q = qIndex
    · obtain ⟨rfl, rfl⟩ := hcell
      rw [if_pos ⟨hkind, rfl⟩] at hbytes
      have hself := n.mmu.removeFromIngressAdmission_self i q p.size (by omega)
      change ((n.mmu.removeFromIngressAdmission i q p.size).ingressBytes i q).toNat +
        ((n.mmu.removeFromIngressAdmission i q p.size).hdrmBytes i q).toNat = _
      omega
    · rw [if_neg (fun hc => hcell ⟨PacketKind.transit.inj (hc.1.symm.trans hkind), hc.2⟩)] at hbytes
      have hsame := n.mmu.removeFromIngressAdmission_of_ne inDev qIndex p.size hcell
      change ((n.mmu.removeFromIngressAdmission inDev qIndex p.size).ingressBytes i q).toNat +
        ((n.mmu.removeFromIngressAdmission inDev qIndex p.size).hdrmBytes i q).toNat = _
      rw [hsame.1, hsame.2, hexact, hbytes, Nat.add_zero]
  · have hnone : ∀ inDev, qIndex ≠ 0 → p.kind ≠ .transit inDev := fun inDev hq' hkind =>
      hrefund ⟨inDev, hq', hkind⟩
    have hoff : ¬(p.kind = .transit i ∧ q = qIndex) := by
      rintro ⟨hkind, rfl⟩
      exact hnone i hq hkind
    rw [if_neg hoff] at hbytes
    rw [(h.untouched hnone).1, hexact, hbytes, Nat.add_zero]

theorem Arrived.pausedStored {accepted : Bool} (h : Arrived n n' inDev idx qIndex size accepted) {i : Port}
    {q : Queue} (hstored : PausedStored n i q) (haccepted : i = inDev → q = qIndex → accepted = true) :
    PausedStored n' i q := by
  intro hpaused
  by_cases hcell : i = inDev ∧ q = qIndex
  · obtain ⟨rfl, rfl⟩ := hcell
    refine ⟨idx, ?_⟩
    rw [h.stored, if_pos ⟨haccepted rfl rfl, rfl, rfl, rfl⟩]
    simp
  · rw [h.pausedOff i q hcell] at hpaused
    obtain ⟨out, hout⟩ := hstored hpaused
    refine ⟨out, ?_⟩
    rwa [h.stored, if_neg (fun hc => hcell ⟨hc.2.1, hc.2.2.2⟩)]

theorem exists_stored_of_bytesFrom {i : Port} {q : Queue} (h : 0 < n.bytesFrom i q) :
    ∃ out, n.stored i out q ≠ [] := by
  obtain ⟨out, -, hout⟩ := Finset.exists_ne_zero_of_sum_ne_zero (s := Finset.univ)
    (f := fun o => n.storedBytes i o q) (Nat.pos_iff_ne_zero.mp h)
  refine ⟨out, fun hnone => hout ?_⟩
  simp [storedBytes, hnone, packetBytes]

/-- If a departure leaves its queue paused, then the counters say that something is left. -/
theorem Departed.pausedStored {port : Port} {p : SwitchPacket} (h : Departed n n' port qIndex p) {i : Port}
    {q : Queue} (hq : q ≠ 0) (hexact : IngressExact n i q) (hstored : PausedStored n i q) :
    PausedStored n' i q := by
  intro hpaused
  by_cases hcell : p.kind = .transit i ∧ q = qIndex
  · obtain ⟨hkind, rfl⟩ := hcell
    obtain ⟨hmmu, -, hflag⟩ := h.refunded i hq hkind
    have hexact' : IngressExact n' i q := h.ingressExact hq hexact
    apply exists_stored_of_bytesFrom
    simp only [IngressExact] at hexact'
    rw [← hexact']
    rw [hflag] at hpaused
    split at hpaused
    · simp at hpaused
    · rename_i hno
      have hpaused' : (n.refund i port q p.size).mmu.paused i q = true := hpaused
      rw [hmmu]
      change 0 < ((n.refund i port q p.size).mmu.ingressBytes i q).toNat +
        ((n.refund i port q p.size).mmu.hdrmBytes i q).toNat
      by_contra hzero
      have hing : (n.refund i port q p.size).mmu.ingressBytes i q = 0 := UInt32.toNat_inj.mp (by
        rw [UInt32.toNat_zero]
        omega)
      have hhdrm : (n.refund i port q p.size).mmu.hdrmBytes i q = 0 := UInt32.toNat_inj.mp (by
        rw [UInt32.toNat_zero]
        omega)
      apply hno
      simp [SwitchMmu.checkShouldResume, SwitchMmu.getSharedUsed, hpaused', hing, hhdrm]
  · have hsame : ∀ out, n'.stored i out q = n.stored i out q := by
      intro out
      rw [h.stored i out q, if_neg (fun hc => hcell ⟨hc.1, hc.2.2⟩)]
    have hflag : n.mmu.paused i q = true := by
      by_cases hrefund : ∃ inDev, qIndex ≠ 0 ∧ p.kind = .transit inDev
      · obtain ⟨inDev, hq', hkind⟩ := hrefund
        rw [(h.refunded inDev hq' hkind).2.2] at hpaused
        split at hpaused
        · have hoff : ¬(i = inDev ∧ q = qIndex) := by
            rintro ⟨rfl, hq⟩
            exact hcell ⟨hkind, hq⟩
          rwa [Grid.set_of_ne hoff] at hpaused
        · exact hpaused
      · rwa [(h.untouched fun inDev hq' hkind => hrefund ⟨inDev, hq', hkind⟩).1] at hpaused
    obtain ⟨out, hout⟩ := hstored hflag
    exact ⟨out, by rwa [hsame]⟩

/-- No shared pool, so that the first packet of every class is a reason to pause. -/
def tightConfig : MmuConfig := { SwitchMmu.zeroConfig with bufferSize := 0, headroom := fun _ => 9000 }

end SwitchNode

end Lcmp
