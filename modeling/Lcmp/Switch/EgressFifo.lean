import Lcmp.Lib.Transition
import Lcmp.Switch.EgressQueue

/-!
# Runs of an egress queue

The egress queue of a switch port with the counters its base class keeps, its own and those of the eight
inner queues, in any sequence of `Enqueue` and `DequeueRR` calls. Packets have at least one byte, and at
most so many that the byte counter of a port cannot wrap.
-/

namespace Lcmp

/-- The counters `m_nBytes` and `m_nPackets` of a `Queue`. -/
structure QueueBase where
  nBytes : UInt32
  nPackets : UInt32

namespace QueueBase

def added (base : QueueBase) (size : UInt32) : QueueBase := ⟨base.nBytes + size, base.nPackets + 1⟩

def removed (base : QueueBase) (size : UInt32) : QueueBase := ⟨base.nBytes - size, base.nPackets - 1⟩

/-- The counters describe a list of packets. -/
structure Counts (base : QueueBase) (packets : List SwitchPacket) : Prop where
  bytes : base.nBytes.toNat = packetBytes packets
  packets : base.nPackets.toNat = packets.length

end QueueBase

/-- A `BEgressQueue` with the base of each queue object. -/
structure PortQueue where
  beq : BEgressQueue
  base : QueueBase
  innerBase : Queue → QueueBase

namespace PortQueue

def empty : PortQueue where
  beq := .empty
  base := ⟨0, 0⟩
  innerBase := fun _ => ⟨0, 0⟩

/-- The packets stored for a queue. -/
def stored (pq : PortQueue) (qIndex : Queue) : List SwitchPacket := (pq.beq.queues qIndex).packets

/-- `Enqueue`. What the inner queue says is ignored. -/
def enqueue (pq : PortQueue) (p : SwitchPacket) (qIndex : Queue) : PortQueue × Bool :=
  if pq.beq.hasRoom p then
    ({ beq := pq.beq.enqueue p qIndex
       base := pq.base.added p.size
       innerBase := if (pq.beq.queues qIndex).accepts p then
           Function.update pq.innerBase qIndex ((pq.innerBase qIndex).added p.size)
         else pq.innerBase }, true)
  else (pq, false)

def nextQueue (pq : PortQueue) (paused : Queue → Bool) : Option Queue :=
  if (pq.innerBase 0).nPackets > 0 then some 0
  else (BEgressQueue.rrOrder pq.beq.rrlast).find? fun q => !paused q && (pq.innerBase q).nPackets > 0

/-- `DequeueRR`. An inner queue that counts packets and has none would make the source follow a null
pointer. -/
def dequeueRR (pq : PortQueue) (paused : Queue → Bool) : Option (SwitchPacket × Queue × PortQueue) :=
  if pq.beq.bytesInQueueTotal = 0 then none
  else
    match pq.nextQueue paused with
    | none => none
    | some qIndex =>
        match pq.stored qIndex with
        | [] => none
        | p :: rest => some (p, qIndex,
            { beq := {
                bytesInQueueTotal := pq.beq.bytesInQueueTotal - p.size
                bytesInQueue :=
                  Function.update pq.beq.bytesInQueue qIndex (pq.beq.bytesInQueue qIndex - p.size)
                rrlast := if qIndex ≠ 0 then qIndex else pq.beq.rrlast
                queues := Function.update pq.beq.queues qIndex
                  { packets := rest, bytesInQueue := (pq.beq.queues qIndex).bytesInQueue - p.size } }
              base := pq.base.removed p.size
              innerBase := Function.update pq.innerBase qIndex ((pq.innerBase qIndex).removed p.size) })

end PortQueue

/-! ### Runs -/

inductive QueueEvent where
  | enqueue (p : SwitchPacket) (qIndex : Queue)
  | dequeue (paused : Queue → Bool)

/-- Both calls always return; a refused packet and a fruitless dequeue change nothing. -/
def portQueueNext (pq : PortQueue) : QueueEvent → Option PortQueue
  | .enqueue p qIndex => some (pq.enqueue p qIndex).1
  | .dequeue paused =>
      match pq.dequeueRR paused with
      | none => some pq
      | some (_, _, pq') => some pq'

def portQueueSystem : System PortQueue QueueEvent where
  init := .empty
  next := portQueueNext

/-- The packet and queue of an `Enqueue` that returned true. -/
def acceptedBy (x : Transition PortQueue QueueEvent) : Option (SwitchPacket × Queue) :=
  match x.label with
  | .enqueue p qIndex => if (x.pre.enqueue p qIndex).2 then some (p, qIndex) else none
  | .dequeue _ => none

/-- The packet a `DequeueRR` returned and its queue. -/
def returnedBy (x : Transition PortQueue QueueEvent) : Option (SwitchPacket × Queue) :=
  match x.label with
  | .enqueue _ _ => none
  | .dequeue paused => (x.pre.dequeueRR paused).map fun r => (r.1, r.2.1)

/-- The packets of one queue among the outcomes of a run, in order. -/
def packetsOf (outcome : Transition PortQueue QueueEvent → Option (SwitchPacket × Queue)) (qIndex : Queue)
    (trace : List (Transition PortQueue QueueEvent)) : List SwitchPacket :=
  trace.filterMap fun x => (outcome x).bind fun r => if r.2 = qIndex then some r.1 else none

/-- A packet has a byte, and room for it above the limit of the port is left in a 32-bit counter. -/
def QueueEvent.Fits : QueueEvent → Prop
  | .enqueue p _ => 1 ≤ p.size.toNat ∧ BEgressQueue.maxBytes + p.size.toNat ≤ 2 ^ 32
  | .dequeue _ => True

/-- Every counter describes what is stored. -/
structure PortQueue.Consistent (pq : PortQueue) : Prop where
  counted : pq.beq.Counted
  perQueue : ∀ q, (pq.beq.bytesInQueue q).toNat = packetBytes (pq.stored q)
  bytes : pq.base.nBytes.toNat = pq.beq.storedBytes
  packets : pq.base.nPackets.toNat = pq.beq.packetCount
  inner : ∀ q, (pq.innerBase q).Counts (pq.stored q)
  positive : ∀ q, ∀ p ∈ pq.stored q, 1 ≤ p.size.toNat

/-- Taking `p` out of a queue leaves no counter below zero. -/
structure PortQueue.NoUnderflow (pq : PortQueue) (p : SwitchPacket) (qIndex : Queue) : Prop where
  total : p.size ≤ pq.beq.bytesInQueueTotal
  perQueue : p.size ≤ pq.beq.bytesInQueue qIndex
  bytes : p.size ≤ pq.base.nBytes
  packets : 0 < pq.base.nPackets
  innerQueue : p.size ≤ (pq.beq.queues qIndex).bytesInQueue
  innerBytes : p.size ≤ (pq.innerBase qIndex).nBytes
  innerPackets : 0 < (pq.innerBase qIndex).nPackets

namespace PortQueue

variable {pq pq' : PortQueue} {p : SwitchPacket} {qIndex : Queue} {paused : Queue → Bool}

theorem stored_length_le (pq : PortQueue) (q : Queue) : (pq.stored q).length ≤ pq.beq.packetCount :=
  Finset.single_le_sum (f := fun q => (pq.stored q).length) (fun _ _ => Nat.zero_le _) (Finset.mem_univ q)

theorem packetBytes_stored_le (pq : PortQueue) (q : Queue) :
    packetBytes (pq.stored q) ≤ pq.beq.storedBytes :=
  Finset.single_le_sum (f := fun q => packetBytes (pq.stored q)) (fun _ _ => Nat.zero_le _)
    (Finset.mem_univ q)

theorem length_le_packetBytes {packets : List SwitchPacket} (h : ∀ p ∈ packets, 1 ≤ p.size.toNat) :
    packets.length ≤ packetBytes packets := by
  induction packets with
  | nil => exact Nat.zero_le _
  | cons p packets ih =>
      have hp := h p List.mem_cons_self
      have hrest := ih fun p hp => h p (List.mem_cons_of_mem _ hp)
      rw [packetBytes_cons, List.length_cons]
      omega

/-- There are no more packets than bytes. -/
theorem Consistent.packetCount_le (h : pq.Consistent) : pq.beq.packetCount ≤ pq.beq.storedBytes :=
  Finset.sum_le_sum fun q _ => length_le_packetBytes (h.positive q)

theorem Consistent.nPackets_pos_iff (h : pq.Consistent) (q : Queue) :
    (pq.innerBase q).nPackets > 0 ↔ (pq.stored q).length > 0 := by
  rw [gt_iff_lt, UInt32.lt_iff_toNat_lt, (h.inner q).packets]
  rfl

/-- The packet counters of the inner queues tell where there is a packet. -/
theorem Consistent.nextQueue_eq (h : pq.Consistent) (paused : Queue → Bool) :
    pq.nextQueue paused = pq.beq.nextQueue paused := by
  rw [nextQueue, BEgressQueue.nextQueue]
  simp only [h.nPackets_pos_iff]
  rfl

/-- All that a successful `DequeueRR` does. -/
structure Served (pq pq' : PortQueue) (p : SwitchPacket) (qIndex : Queue) (paused : Queue → Bool) : Prop where
  next : pq.nextQueue paused = some qIndex
  dequeued : BEgressQueue.Dequeued pq.beq pq'.beq p qIndex
  perQueue : pq'.beq.bytesInQueue = Function.update pq.beq.bytesInQueue qIndex (pq.beq.bytesInQueue qIndex - p.size)
  rrlast : pq'.beq.rrlast = if qIndex ≠ 0 then qIndex else pq.beq.rrlast
  base : pq'.base = pq.base.removed p.size
  innerBase : pq'.innerBase = Function.update pq.innerBase qIndex ((pq.innerBase qIndex).removed p.size)

theorem dequeueRR_served (h : pq.dequeueRR paused = some (p, qIndex, pq')) : Served pq pq' p qIndex paused := by
  simp only [dequeueRR] at h
  split at h
  · cases h
  · cases hnext : pq.nextQueue paused with
    | none => simp [hnext] at h
    | some q =>
        simp only [hnext] at h
        cases hpackets : pq.stored q with
        | nil => simp [hpackets] at h
        | cons first rest =>
            simp only [hpackets, Option.some.injEq, Prod.mk.injEq] at h
            obtain ⟨rfl, rfl, rfl⟩ := h
            refine ⟨hnext, ⟨?_, fun q' hne => Function.update_of_ne hne .., rfl, by simp⟩, rfl, rfl, rfl, rfl⟩
            dsimp only
            rw [Function.update_self]
            exact hpackets

/-- Where a queue is chosen, `DequeueRR` returns a packet from it. -/
theorem Consistent.exists_served (h : pq.Consistent) {q : Queue} (hnext : pq.nextQueue paused = some q) :
    ∃ p pq', pq.dequeueRR paused = some (p, q, pq') := by
  have hsome : 0 < (pq.stored q).length := by
    rw [h.nextQueue_eq, BEgressQueue.nextQueue] at hnext
    split at hnext
    · rename_i hzero
      rw [← Option.some.inj hnext]
      exact hzero
    · have hfound := List.find?_some hnext
      simp only [Bool.and_eq_true, decide_eq_true_eq] at hfound
      exact hfound.2
  cases hpackets : pq.stored q with
  | nil =>
      rw [hpackets] at hsome
      exact absurd hsome (Nat.lt_irrefl 0)
  | cons p rest =>
      have hpositive := h.positive q p (by rw [hpackets]; exact List.mem_cons_self)
      have hbytes := packetBytes_stored_le pq q
      rw [hpackets, packetBytes_cons, ← h.counted.total] at hbytes
      have htotal : pq.beq.bytesInQueueTotal ≠ 0 := by
        intro hzero
        rw [hzero] at hbytes
        change _ ≤ 0 at hbytes
        omega
      simp only [dequeueRR, if_neg htotal, hnext, hpackets]
      exact ⟨_, _, rfl⟩

theorem Served.stored_self (h : Served pq pq' p qIndex paused) :
    pq.stored qIndex = p :: pq'.stored qIndex := h.dequeued.head

theorem Served.stored_of_ne (h : Served pq pq' p qIndex paused) {q : Queue} (hq : q ≠ qIndex) :
    pq'.stored q = pq.stored q := congrArg DropTailQueue.packets (h.dequeued.others q hq)

theorem Consistent.noUnderflow (h : pq.Consistent) (hserved : Served pq pq' p qIndex paused) :
    pq.NoUnderflow p qIndex := by
  have hqueue : p.size.toNat ≤ packetBytes (pq.stored qIndex) := by
    rw [hserved.stored_self, packetBytes_cons]
    exact Nat.le_add_right _ _
  have hlength : 0 < (pq.stored qIndex).length := by
    rw [hserved.stored_self]
    exact Nat.zero_lt_succ _
  have hall := Nat.le_trans hqueue (packetBytes_stored_le pq qIndex)
  refine ⟨?_, ?_, ?_, ?_, ?_, ?_, ?_⟩
  · rw [UInt32.le_iff_toNat_le, h.counted.total]
    exact hall
  · rw [UInt32.le_iff_toNat_le, h.perQueue]
    exact hqueue
  · rw [UInt32.le_iff_toNat_le, h.bytes]
    exact hall
  · rw [UInt32.lt_iff_toNat_lt, h.packets]
    exact Nat.lt_of_lt_of_le hlength (stored_length_le pq qIndex)
  · rw [UInt32.le_iff_toNat_le, h.counted.inner]
    exact hqueue
  · rw [UInt32.le_iff_toNat_le, (h.inner qIndex).bytes]
    exact hqueue
  · rw [UInt32.lt_iff_toNat_lt, (h.inner qIndex).packets]
    exact hlength

theorem counts_removed {base : QueueBase} {packets : List SwitchPacket} (h : base.Counts (p :: packets)) :
    (base.removed p.size).Counts packets := by
  have hbytes := h.bytes
  have hpackets := h.packets
  rw [packetBytes_cons] at hbytes
  rw [List.length_cons] at hpackets
  have hone : (1 : UInt32).toNat = 1 := rfl
  constructor
  · rw [QueueBase.removed, UInt32.toNat_sub_of_le _ _ (UInt32.le_iff_toNat_le.mpr (by omega))]
    omega
  · rw [QueueBase.removed, UInt32.toNat_sub_of_le _ _ (UInt32.le_iff_toNat_le.mpr (by omega))]
    omega

theorem Consistent.dequeue (h : pq.Consistent) (hserved : Served pq pq' p qIndex paused) : pq'.Consistent := by
  have hsafe := h.noUnderflow hserved
  have hbytes := hserved.dequeued.storedBytes
  have hcount := hserved.dequeued.packetCount
  refine ⟨hserved.dequeued.counted h.counted, fun q => ?_, ?_, ?_, fun q => ?_, fun q x hx => ?_⟩
  · rw [hserved.perQueue]
    by_cases hq : q = qIndex
    · subst hq
      have hold := h.perQueue q
      rw [hserved.stored_self, packetBytes_cons] at hold
      rw [Function.update_self, UInt32.toNat_sub_of_le _ _ hsafe.perQueue]
      omega
    · rw [Function.update_of_ne hq, hserved.stored_of_ne hq]
      exact h.perQueue q
  · have hold := h.bytes
    rw [hserved.base, QueueBase.removed, UInt32.toNat_sub_of_le _ _ hsafe.bytes]
    omega
  · have hold := h.packets
    have hone : (1 : UInt32) ≤ pq.base.nPackets := by
      rw [UInt32.le_iff_toNat_le]
      exact UInt32.lt_iff_toNat_lt.mp hsafe.packets
    rw [hserved.base, QueueBase.removed, UInt32.toNat_sub_of_le _ _ hone]
    change pq.base.nPackets.toNat - 1 = _
    omega
  · rw [hserved.innerBase]
    by_cases hq : q = qIndex
    · subst hq
      have hold := h.inner q
      rw [hserved.stored_self] at hold
      rw [Function.update_self]
      exact counts_removed hold
    · rw [Function.update_of_ne hq, hserved.stored_of_ne hq]
      exact h.inner q
  · refine h.positive q x ?_
    by_cases hq : q = qIndex
    · subst hq
      rw [hserved.stored_self]
      exact List.mem_cons_of_mem _ hx
    · rwa [hserved.stored_of_ne hq] at hx

/-! A packet that `Enqueue` takes is stored: the inner queue does not refuse it. -/

theorem Consistent.hasRoom_iff (h : pq.Consistent) (hfits : BEgressQueue.maxBytes + p.size.toNat ≤ 2 ^ 32) :
    pq.beq.hasRoom p = true ↔ pq.beq.storedBytes + p.size.toNat < BEgressQueue.maxBytes := by
  have hbounded := h.counted.bounded
  have htotal := h.counted.total
  rw [BEgressQueue.hasRoom, decide_eq_true_eq, UInt32.toNat_add]
  omega

theorem Consistent.accepts_of_hasRoom (h : pq.Consistent) (qIndex : Queue)
    (hfits : BEgressQueue.maxBytes + p.size.toNat ≤ 2 ^ 32) (hroom : pq.beq.hasRoom p = true) :
    pq.beq.accepts p qIndex = true ∧ (pq.beq.queues qIndex).accepts p = true := by
  have hbounded := h.counted.bounded
  have hlt := (h.hasRoom_iff hfits).mp hroom
  have haccepts : pq.beq.accepts p qIndex = true := (h.counted.accepts_iff (by omega)).mpr hlt
  refine ⟨haccepts, ?_⟩
  rw [BEgressQueue.accepts, Bool.and_eq_true] at haccepts
  exact haccepts.2

theorem enqueue_of_not_hasRoom (hroom : ¬ pq.beq.hasRoom p = true) (qIndex : Queue) : pq.enqueue p qIndex = (pq, false) := by
  rw [enqueue, if_neg hroom]

/-- All that a successful `Enqueue` does. -/
structure Added (pq pq' : PortQueue) (p : SwitchPacket) (qIndex : Queue) : Prop where
  beq : pq'.beq = pq.beq.enqueue p qIndex
  stored : ∀ q, pq'.stored q = if q = qIndex then pq.stored q ++ [p] else pq.stored q
  perQueue : pq'.beq.bytesInQueue =
    Function.update pq.beq.bytesInQueue qIndex (pq.beq.bytesInQueue qIndex + p.size)
  rrlast : pq'.beq.rrlast = pq.beq.rrlast
  base : pq'.base = pq.base.added p.size
  innerBase : pq'.innerBase = Function.update pq.innerBase qIndex ((pq.innerBase qIndex).added p.size)

theorem Consistent.enqueue_added (h : pq.Consistent) (qIndex : Queue) (hfits : BEgressQueue.maxBytes + p.size.toNat ≤ 2 ^ 32)
    (hroom : pq.beq.hasRoom p = true) :
    (pq.enqueue p qIndex).2 = true ∧ Added pq (pq.enqueue p qIndex).1 p qIndex := by
  obtain ⟨haccepts, hinner⟩ := h.accepts_of_hasRoom qIndex hfits hroom
  have henqueue : pq.enqueue p qIndex = ({ beq := pq.beq.enqueue p qIndex
                                           base := pq.base.added p.size
                                           innerBase := Function.update pq.innerBase qIndex
                                             ((pq.innerBase qIndex).added p.size) }, true) := by
    rw [enqueue, if_pos hroom, if_pos hinner]
  rw [henqueue]
  refine ⟨rfl, rfl, fun q => ?_, ?_, ?_, rfl, rfl⟩
  · rw [stored, BEgressQueue.enqueue_packets, haccepts]
    simp only [and_true]
    rfl
  · simp only [BEgressQueue.enqueue, if_pos hroom]
  · simp only [BEgressQueue.enqueue, if_pos hroom]

theorem packetBytes_append_singleton (packets : List SwitchPacket) (p : SwitchPacket) :
    packetBytes (packets ++ [p]) = packetBytes packets + p.size.toNat := by
  rw [packetBytes_append, packetBytes_cons]
  rfl

theorem counts_added {base : QueueBase} {packets : List SwitchPacket} (h : base.Counts packets)
    (hbytes : packetBytes packets + p.size.toNat < 2 ^ 32) (hpackets : packets.length + 1 < 2 ^ 32) :
    (base.added p.size).Counts (packets ++ [p]) := by
  have hold := h.bytes
  have hcount := h.packets
  constructor
  · rw [packetBytes_append_singleton, QueueBase.added, UInt32.toNat_add]
    omega
  · rw [List.length_append, List.length_singleton, QueueBase.added, UInt32.toNat_add]
    change (base.nPackets.toNat + 1) % 2 ^ 32 = _
    omega

theorem Added.storedBytes {pq' : PortQueue} (h : Added pq pq' p qIndex) :
    pq'.beq.storedBytes = pq.beq.storedBytes + p.size.toNat := by
  have hsum := Grid.sum_of_eq_except (fun q => packetBytes (pq'.stored q)) (fun q => packetBytes (pq.stored q))
    qIndex (fun q hq => by rw [h.stored q, if_neg hq])
  have hself : packetBytes (pq'.stored qIndex) = packetBytes (pq.stored qIndex) + p.size.toNat := by
    rw [h.stored qIndex, if_pos rfl, packetBytes_append_singleton]
  change (∑ q, packetBytes (pq'.stored q)) = (∑ q, packetBytes (pq.stored q)) + _
  omega

theorem Added.packetCount {pq' : PortQueue} (h : Added pq pq' p qIndex) :
    pq'.beq.packetCount = pq.beq.packetCount + 1 := by
  have hsum := Grid.sum_of_eq_except (fun q => (pq'.stored q).length) (fun q => (pq.stored q).length)
    qIndex (fun q hq => by rw [h.stored q, if_neg hq])
  have hself : (pq'.stored qIndex).length = (pq.stored qIndex).length + 1 := by
    rw [h.stored qIndex, if_pos rfl, List.length_append, List.length_singleton]
  change (∑ q, (pq'.stored q).length) = (∑ q, (pq.stored q).length) + 1
  omega

theorem Consistent.added (h : pq.Consistent) {pq' : PortQueue} (hadded : Added pq pq' p qIndex)
    (hpositive : 1 ≤ p.size.toNat) (hroom : pq.beq.storedBytes + p.size.toNat < BEgressQueue.maxBytes) :
    pq'.Consistent := by
  have hmax : BEgressQueue.maxBytes < 2 ^ 32 := by decide
  have hcount := h.packetCount_le
  have hbytesq := fun q => packetBytes_stored_le pq q
  have hlengthq := fun q => stored_length_le pq q
  refine ⟨?_, fun q => ?_, ?_, ?_, fun q => ?_, fun q x hx => ?_⟩
  · rw [hadded.beq]
    exact h.counted.enqueue (by omega)
  · rw [hadded.perQueue, hadded.stored q]
    by_cases hq : q = qIndex
    · subst hq
      have hold := h.perQueue q
      have hle := hbytesq q
      rw [Function.update_self, if_pos rfl, packetBytes_append_singleton, UInt32.toNat_add]
      omega
    · rw [Function.update_of_ne hq, if_neg hq]
      exact h.perQueue q
  · have hold := h.bytes
    rw [hadded.base, QueueBase.added, UInt32.toNat_add, hadded.storedBytes]
    omega
  · have hold := h.packets
    rw [hadded.base, QueueBase.added, UInt32.toNat_add, hadded.packetCount]
    change (pq.base.nPackets.toNat + 1) % 2 ^ 32 = _
    omega
  · rw [hadded.innerBase, hadded.stored q]
    by_cases hq : q = qIndex
    · subst hq
      have hbytes := hbytesq q
      have hlength := hlengthq q
      rw [Function.update_self, if_pos rfl]
      exact counts_added (h.inner q) (by omega) (by omega)
    · rw [Function.update_of_ne hq, if_neg hq]
      exact h.inner q
  · rw [hadded.stored q] at hx
    split at hx
    · rcases List.mem_append.mp hx with hx | hx
      · exact h.positive q x hx
      · rw [List.mem_singleton.mp hx]
        exact hpositive
    · exact h.positive q x hx

/-! ### What one call does -/

theorem Consistent.empty : empty.Consistent where
  counted := BEgressQueue.Counted.empty
  perQueue := fun _ => rfl
  bytes := by simp [PortQueue.empty, BEgressQueue.empty, BEgressQueue.storedBytes, packetBytes]
  packets := by simp [PortQueue.empty, BEgressQueue.empty, BEgressQueue.packetCount]
  inner := fun _ => ⟨rfl, rfl⟩
  positive := fun _ p hp => absurd hp List.not_mem_nil

/-- A call stores a packet, returns one, or leaves the queue as it is. -/
theorem Consistent.next_cases (h : pq.Consistent) {a : QueueEvent} (hfits : a.Fits)
    (hnext : portQueueSystem.next pq a = some pq') :
    (∃ p q, a = .enqueue p q ∧ acceptedBy ⟨pq, a, pq'⟩ = some (p, q) ∧ returnedBy ⟨pq, a, pq'⟩ = none ∧
      Added pq pq' p q ∧ pq'.Consistent) ∨
    (∃ p q paused, a = .dequeue paused ∧ acceptedBy ⟨pq, a, pq'⟩ = none ∧
      returnedBy ⟨pq, a, pq'⟩ = some (p, q) ∧ Served pq pq' p q paused ∧ pq'.Consistent) ∨
    (acceptedBy ⟨pq, a, pq'⟩ = none ∧ returnedBy ⟨pq, a, pq'⟩ = none ∧ pq' = pq) := by
  cases a with
  | enqueue p q =>
      obtain rfl := Option.some.inj hnext
      by_cases hroom : pq.beq.hasRoom p = true
      · obtain ⟨haccepted, hadded⟩ := h.enqueue_added q hfits.2 hroom
        have hconsistent := h.added hadded hfits.1 ((h.hasRoom_iff hfits.2).mp hroom)
        exact .inl ⟨p, q, rfl, if_pos haccepted, rfl, hadded, hconsistent⟩
      · have hrefused := enqueue_of_not_hasRoom hroom q
        refine .inr (.inr ⟨?_, rfl, by rw [hrefused]⟩)
        simp only [acceptedBy, hrefused, Bool.false_eq_true, if_false]
  | dequeue paused =>
      simp only [portQueueSystem, portQueueNext] at hnext
      cases hout : pq.dequeueRR paused with
      | none =>
          rw [hout] at hnext
          refine .inr (.inr ⟨rfl, ?_, (Option.some.inj hnext).symm⟩)
          simp only [returnedBy, hout, Option.map_none]
      | some r =>
          obtain ⟨p, q, pq''⟩ := r
          rw [hout] at hnext
          obtain rfl := Option.some.inj hnext
          have hserved := dequeueRR_served hout
          refine .inr (.inl ⟨p, q, paused, rfl, rfl, ?_, hserved, h.dequeue hserved⟩)
          simp only [returnedBy, hout, Option.map_some]

theorem mem_rrOrder (rrlast q : Queue) : q ∈ BEgressQueue.rrOrder rrlast := by
  revert rrlast q
  decide

/-- Nothing to return: queue 0 is empty, the others are empty or paused. -/
theorem Consistent.dequeueRR_eq_none (h : pq.Consistent) (hnone : pq.dequeueRR paused = none) :
    pq.stored 0 = [] ∧ ∀ q, q ≠ 0 → pq.stored q = [] ∨ paused q = true := by
  have hnext : pq.nextQueue paused = none := by
    cases hnext : pq.nextQueue paused with
    | none => rfl
    | some q =>
        obtain ⟨p, pq', hsome⟩ := h.exists_served hnext
        rw [hnone] at hsome
        cases hsome
  rw [h.nextQueue_eq, BEgressQueue.nextQueue] at hnext
  split at hnext
  · cases hnext
  · rename_i hzero
    refine ⟨List.length_eq_zero_iff.mp (Nat.eq_zero_of_not_pos hzero), fun q _ => ?_⟩
    have hskipped := List.find?_eq_none.mp hnext q (mem_rrOrder _ q)
    by_cases hpaused : paused q = true
    · exact Or.inr hpaused
    · refine Or.inl (List.length_eq_zero_iff.mp (Nat.eq_zero_of_not_pos fun hpos => hskipped ?_))
      simp only [Bool.not_eq_true] at hpaused
      rw [hpaused]
      exact decide_eq_true hpos

/-- Queue 0 is served first, paused or not. -/
theorem Consistent.dequeueRR_zero (h : pq.Consistent) (hzero : pq.stored 0 ≠ []) (paused : Queue → Bool) :
    ∃ p pq', pq.dequeueRR paused = some (p, 0, pq') := by
  refine h.exists_served ?_
  rw [h.nextQueue_eq, BEgressQueue.nextQueue]
  exact if_pos (List.length_pos_of_ne_nil hzero)

/-! ### Rounds -/

/-- How many queues of `1 .. 7` the round visits before `q`. -/
def ahead (rrlast q : Queue) : Nat :=
  ((BEgressQueue.rrOrder rrlast).takeWhile (· ≠ q)).countP (· ≠ 0)

theorem ahead_le (rrlast q : Queue) (hq : q ≠ 0) : ahead rrlast q ≤ 6 := by
  revert rrlast q
  decide

theorem ahead_lt {rrlast q r : Queue} (hr : r ≠ 0)
    (hbefore : r ∈ (BEgressQueue.rrOrder rrlast).takeWhile (· ≠ q)) : ahead r q < ahead rrlast q := by
  revert rrlast q r
  decide +kernel

theorem mem_takeWhile_of_find? {l : List Queue} {P : Queue → Bool} {q r : Queue} (hfound : l.find? P = some r)
    (hq : P q = true) (hne : r ≠ q) : r ∈ l.takeWhile (· ≠ q) := by
  induction l with
  | nil => cases hfound
  | cons first rest ih =>
      rw [List.find?_cons] at hfound
      cases hfirst : P first with
      | true =>
          rw [hfirst] at hfound
          obtain rfl := Option.some.inj hfound
          rw [List.takeWhile_cons, if_pos (decide_eq_true hne)]
          exact List.mem_cons_self
      | false =>
          rw [hfirst] at hfound
          have hskip : first ≠ q := by
            rintro rfl
            rw [hfirst] at hq
            cases hq
          rw [List.takeWhile_cons, if_pos (decide_eq_true hskip)]
          exact List.mem_cons_of_mem _ (ih hfound)

/-- Serving another queue of `1 .. 7` brings the round closer to a queue that waits. -/
theorem Consistent.ahead_served (h : pq.Consistent) {r q : Queue} (hserved : Served pq pq' p r paused)
    (hr : r ≠ 0) (hrq : r ≠ q) (hwaits : pq.stored q ≠ []) (hpaused : paused q = false) :
    ahead pq'.beq.rrlast q < ahead pq.beq.rrlast q := by
  have hnext := hserved.next
  rw [h.nextQueue_eq, BEgressQueue.nextQueue] at hnext
  split at hnext
  · exact absurd (Option.some.inj hnext).symm hr
  · rw [hserved.rrlast, if_pos hr]
    refine ahead_lt hr (mem_takeWhile_of_find? hnext ?_ hrq)
    rw [hpaused]
    exact decide_eq_true (List.length_pos_of_ne_nil hwaits)

end PortQueue

/-! ### Whole runs -/

/-- A packet was returned from one of the queues `1 .. 7`. -/
def roundServes (x : Transition PortQueue QueueEvent) : Bool := (returnedBy x).any fun r => r.2 ≠ 0

/-- The call is no dequeue that pauses `q`, and it returns nothing from `q`. -/
def PassesOver (q : Queue) (x : Transition PortQueue QueueEvent) : Prop :=
  (∀ paused, x.label = .dequeue paused → paused q = false) ∧ ∀ p, returnedBy x ≠ some (p, q)

variable {pq pq' : PortQueue} {trace : List (Transition PortQueue QueueEvent)}

theorem packetsOf_snoc (outcome : Transition PortQueue QueueEvent → Option (SwitchPacket × Queue)) (q : Queue)
    (trace : List (Transition PortQueue QueueEvent)) (x : Transition PortQueue QueueEvent) :
    packetsOf outcome q (trace ++ [x]) = packetsOf outcome q trace ++
      ((outcome x).bind fun r => if r.2 = q then some r.1 else none).toList := by
  rw [packetsOf, List.filterMap_append, packetsOf, List.filterMap_cons]
  cases (outcome x).bind fun r => if r.2 = q then some r.1 else none with
  | none => rfl
  | some p => rfl

theorem portQueue_consistent (hrun : portQueueSystem.Run pq trace pq') (hpq : pq.Consistent)
    (hfits : ∀ x ∈ trace, x.label.Fits) : pq'.Consistent ∧ ∀ x ∈ trace, x.pre.Consistent ∧ x.post.Consistent := by
  refine hrun.invariant_of_guard (C := fun _ a => a.Fits) (fun s a t hs ha hnext => ?_) hfits hpq
  obtain ⟨-, -, -, -, -, -, ht⟩ | ⟨-, -, -, -, -, -, -, ht⟩ | ⟨-, -, rfl⟩ := hs.next_cases ha hnext
  · exact ht
  · exact ht
  · exact hs

/-- What a queue has accepted is what it has returned and what it stores, in order. -/
theorem portQueue_fifo (hrun : portQueueSystem.Run .empty trace pq) (hfits : ∀ x ∈ trace, x.label.Fits)
    (q : Queue) : packetsOf acceptedBy q trace = packetsOf returnedBy q trace ++ pq.stored q := by
  suffices h : (∀ x ∈ trace, x.label.Fits) → pq.Consistent ∧
      packetsOf acceptedBy q trace = packetsOf returnedBy q trace ++ pq.stored q from (h hfits).2
  refine hrun.history (P := fun trace pq => (∀ x ∈ trace, x.label.Fits) → pq.Consistent ∧
    packetsOf acceptedBy q trace = packetsOf returnedBy q trace ++ pq.stored q)
    (fun _ => ⟨PortQueue.Consistent.empty, rfl⟩) fun before s a t ih hnext hfits => ?_
  obtain ⟨hs, hfifo⟩ := ih fun x hx => hfits x (List.mem_append_left _ hx)
  have ha : a.Fits := hfits ⟨s, a, t⟩ (List.mem_append_right _ (List.mem_singleton_self _))
  rw [packetsOf_snoc, packetsOf_snoc, hfifo]
  obtain ⟨p, r, -, haccepted, hreturned, hadded, ht⟩ |
    ⟨p, r, paused, -, haccepted, hreturned, hserved, ht⟩ | ⟨haccepted, hreturned, rfl⟩ := hs.next_cases ha hnext
  · refine ⟨ht, ?_⟩
    rw [haccepted, hreturned, hadded.stored q]
    by_cases hq : q = r
    · subst hq
      simp
    · simp [hq, Ne.symm hq]
  · refine ⟨ht, ?_⟩
    rw [haccepted, hreturned]
    by_cases hq : q = r
    · subst hq
      rw [hserved.stored_self]
      simp
    · rw [hserved.stored_of_ne hq]
      simp [Ne.symm hq]
  · rw [haccepted, hreturned]
    exact ⟨hs, by simp⟩

/-- While a queue waits, every packet from another queue of `1 .. 7` brings its turn closer. -/
theorem portQueue_waits {q : Queue} (hrun : portQueueSystem.Run pq trace pq') (hpq : pq.Consistent)
    (hwaits : pq.stored q ≠ []) (hfits : ∀ x ∈ trace, x.label.Fits) (hover : ∀ x ∈ trace, PassesOver q x) :
    pq'.stored q ≠ [] ∧
      trace.countP roundServes + PortQueue.ahead pq'.beq.rrlast q ≤ PortQueue.ahead pq.beq.rrlast q := by
  induction hrun with
  | nil => exact ⟨hwaits, by simp⟩
  | @cons s t u a trace hnext _ ih =>
      have hrest := fun ht hwaits => ih ht hwaits (fun x hx => hfits x (List.mem_cons_of_mem _ hx))
        (fun x hx => hover x (List.mem_cons_of_mem _ hx))
      obtain ⟨hpaused, hnot⟩ := hover _ List.mem_cons_self
      rw [List.countP_cons]
      obtain ⟨p, r, -, -, hreturned, hadded, ht⟩ | ⟨p, r, paused, ha, -, hreturned, hserved, ht⟩ |
        ⟨-, hreturned, rfl⟩ := hpq.next_cases (hfits _ List.mem_cons_self) hnext
      · have hwaits' : t.stored q ≠ [] := by
          rw [hadded.stored q]
          split
          · exact List.append_ne_nil_of_left_ne_nil hwaits _
          · exact hwaits
        obtain ⟨hend, hcount⟩ := hrest ht hwaits'
        rw [hadded.rrlast] at hcount
        refine ⟨hend, ?_⟩
        simp only [roundServes, hreturned, Option.any_none]
        simpa using hcount
      · have hrq : r ≠ q := by
          rintro rfl
          exact hnot p hreturned
        have hwaits' : t.stored q ≠ [] := by rwa [hserved.stored_of_ne hrq.symm]
        obtain ⟨hend, hcount⟩ := hrest ht hwaits'
        refine ⟨hend, ?_⟩
        simp only [roundServes, hreturned, Option.any_some]
        by_cases hr : r = 0
        · rw [hserved.rrlast, if_neg (by simpa using hr)] at hcount
          simpa [hr] using hcount
        · have hcloser := hpq.ahead_served hserved hr hrq hwaits (hpaused paused ha)
          simp only [hr, ne_eq, not_false_eq_true, decide_true, if_true]
          omega
      · obtain ⟨hend, hcount⟩ := hrest hpq hwaits
        refine ⟨hend, ?_⟩
        simp only [roundServes, hreturned, Option.any_none]
        simpa using hcount

/-- Every run of an egress queue, cut in two: the counters describe the contents and no dequeue takes one
below zero; each queue is FIFO and returns what it accepted once; a dequeue returns nothing only when queue
0 is empty and the others are empty or paused, and queue 0 comes first; and a queue of `1 .. 7` that holds a
packet at the cut and is neither paused nor served after it sees at most six packets of the others. -/
theorem portQueue_run {before after : List (Transition PortQueue QueueEvent)}
    (hbefore : portQueueSystem.Run .empty before pq) (hafter : portQueueSystem.Run pq after pq')
    (hfits : ∀ x ∈ before ++ after, x.label.Fits) :
    pq'.Consistent ∧
    (∀ x ∈ before ++ after, ∀ p q, returnedBy x = some (p, q) → x.pre.NoUnderflow p q) ∧
    (∀ q, packetsOf acceptedBy q (before ++ after) =
      packetsOf returnedBy q (before ++ after) ++ pq'.stored q) ∧
    (∀ paused, pq'.dequeueRR paused = none →
      pq'.stored 0 = [] ∧ ∀ q, q ≠ 0 → pq'.stored q = [] ∨ paused q = true) ∧
    (pq'.stored 0 ≠ [] → ∀ paused, ∃ p rest, pq'.dequeueRR paused = some (p, 0, rest)) ∧
    ∀ q, q ≠ 0 → pq.stored q ≠ [] → (∀ x ∈ after, PassesOver q x) → after.countP roundServes ≤ 6 := by
  have hrun := hbefore.append hafter
  have hall := portQueue_consistent hrun .empty hfits
  refine ⟨hall.1, fun x hx p q hreturned => ?_, portQueue_fifo hrun hfits,
    fun _ => hall.1.dequeueRR_eq_none, hall.1.dequeueRR_zero, fun q hq hwaits hover => ?_⟩
  · obtain ⟨-, -, -, -, hnone, -⟩ | ⟨p', q', paused, -, -, hsome, hserved, -⟩ | ⟨-, hnone, -⟩ :=
      (hall.2 x hx).1.next_cases (hfits x hx) (hrun.next_of_mem x hx)
    · rw [hreturned] at hnone
      cases hnone
    · rw [hreturned, Option.some.injEq, Prod.mk.injEq] at hsome
      obtain ⟨rfl, rfl⟩ := hsome
      exact (hall.2 x hx).1.noUnderflow hserved
    · rw [hreturned] at hnone
      cases hnone
  · have hpq := (portQueue_consistent hbefore .empty fun x hx => hfits x (List.mem_append_left _ hx)).1
    have hcount := (portQueue_waits hafter hpq hwaits (fun x hx => hfits x (List.mem_append_right _ hx)) hover).2
    exact Nat.le_trans (Nat.le_add_right _ _) (Nat.le_trans hcount (PortQueue.ahead_le _ q hq))

/-- Two packets for a queue, one for each of two others, and a frame for the first queue. -/
def fiveArrivals (inDev : Port) (first q r t : Queue) : List QueueEvent :=
  [.enqueue ⟨1000, .transit inDev⟩ q, .enqueue ⟨1048, .transit inDev⟩ r, .enqueue ⟨700, .transit inDev⟩ t,
    .enqueue ⟨1048, .transit inDev⟩ q, .enqueue ⟨64, .pfc 0 r⟩ first]

/-- While all queues but `t` are paused, while `r` is and while none is. -/
def threeDequeues (r t : Queue) : List QueueEvent :=
  [.dequeue fun q => q != t, .dequeue fun q => q == r, .dequeue fun _ => false]

/-- The call leaves the queue `q` alone, as `PassesOver` has it. -/
def passesOver (q : Queue) (x : Transition PortQueue QueueEvent) : Bool :=
  (returnedBy x).all (fun r => r.2 ≠ q) &&
    match x.label with
    | .dequeue paused => !paused q
    | .enqueue _ _ => true

theorem passesOver_spec {q : Queue} {x : Transition PortQueue QueueEvent} (h : passesOver q x = true) : PassesOver q x := by
  obtain ⟨pre, label, post⟩ := x
  rw [passesOver, Bool.and_eq_true, Option.all_eq_true] at h
  obtain ⟨hreturned, hpaused⟩ := h
  constructor
  · rintro paused rfl
    exact Bool.not_eq_true' _ ▸ hpaused
  · intro p hp
    exact absurd rfl (of_decide_eq_true (hreturned _ hp))

/-- Queue 0 is served though it is paused, then queue 1, and queue 3 when it is not paused any more. -/
theorem portQueue_run_paused : ∃ before after pq pq', portQueueSystem.Run .empty before pq ∧
    portQueueSystem.Run pq after pq' ∧ before.map Transition.label = fiveArrivals 2 0 1 3 5 ∧
    after.map Transition.label = threeDequeues 3 5 ∧ pq'.stored 1 = [⟨1048, .transit 2⟩] ∧ pq'.stored 3 = [] ∧
    pq'.Consistent ∧ packetsOf acceptedBy 1 (before ++ after) = packetsOf returnedBy 1 (before ++ after) ++ pq'.stored 1 ∧
    pq.stored 5 ≠ [] ∧ after.countP roundServes ≤ 6 := by
  have hstart : ∃ pq, portQueueSystem.exec .empty (fiveArrivals 2 0 1 3 5) = some pq ∧ pq.stored 5 ≠ [] ∧
      portQueueSystem.checked (passesOver 5) pq (threeDequeues 3 5) = true ∧
      (portQueueSystem.exec pq (threeDequeues 3 5)).map (fun pq' => (pq'.stored 1, pq'.stored 3)) =
        some ([⟨1048, .transit 2⟩], []) :=
    ⟨_, rfl, by decide, by decide +kernel, by decide +kernel⟩
  obtain ⟨pq, hexec, hwaits, hchecked, hstored⟩ := hstart
  obtain ⟨before, hbefore, hlabels⟩ := System.Run.of_exec _ hexec
  obtain ⟨after, pq', hafter, hlabels', hexec', hover⟩ := System.Run.of_checked _ hchecked
  rw [hexec'] at hstored
  obtain ⟨hone, hthree⟩ := Prod.mk.inj (Option.some.inj hstored)
  have hsizes : ∀ e ∈ fiveArrivals 2 0 1 3 5 ++ threeDequeues 3 5, e.Fits := by
    simp only [fiveArrivals, threeDequeues, List.cons_append, List.nil_append, List.forall_mem_cons]
    refine ⟨⟨?_, ?_⟩, ⟨?_, ?_⟩, ⟨?_, ?_⟩, ⟨?_, ?_⟩, ⟨?_, ?_⟩, trivial, trivial, trivial, by simp⟩
    all_goals decide
  have hfits : ∀ x ∈ before ++ after, x.label.Fits := by
    intro x hx
    have hlabel := List.mem_map_of_mem (f := Transition.label) hx
    rw [List.map_append, hlabels, hlabels'] at hlabel
    exact hsizes x.label hlabel
  obtain ⟨hconsistent, -, hfifo, -, -, hround⟩ := portQueue_run hbefore hafter hfits
  exact ⟨before, after, pq, pq', hbefore, hafter, hlabels, hlabels', hone, hthree, hconsistent, hfifo 1, hwaits,
    hround 5 (by decide) hwaits fun x hx => passesOver_spec (hover x hx)⟩

/-- A run that stores one packet of `size` bytes for queue 3. -/
def oneStored (size : UInt32) : PortQueue := (PortQueue.empty.enqueue ⟨size, .pfc 0 3⟩ 3).1

theorem run_oneStored (size : UInt32) :
    portQueueSystem.Run .empty [⟨.empty, .enqueue ⟨size, .pfc 0 3⟩ 3, oneStored size⟩] (oneStored size) :=
  .cons rfl (.nil _)

/-- An empty packet is stored and never returned: the port counts no bytes. -/
theorem not_dequeueRR_complete :
    ¬ ∀ trace pq, portQueueSystem.Run .empty trace pq → ∀ paused, pq.dequeueRR paused = none →
      pq.stored 0 = [] ∧ ∀ q, q ≠ 0 → pq.stored q = [] ∨ paused q = true := by
  intro h
  have hempty := (h _ _ (run_oneStored 0) (fun _ => false) rfl).2 3 (by decide)
  exact absurd hempty (by decide)

end Lcmp
