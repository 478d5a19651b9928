import Lcmp.Mmu.Code

/-!
# The egress queue of a switch port

`BEgressQueue` of `broadcom-egress-queue.cc`: eight drop-tail queues behind one limit on their bytes.
Queue 0 is served first, the others in round-robin order unless they are paused. The inner queues have
a limit of their own, whose verdict the outer queue ignores.
-/

namespace Lcmp

/-- What a switch stores: a packet that came in over a port, whose number it is tagged with, or a PFC
frame the switch made itself. -/
inductive PacketKind where
  | transit (inDev : Port)
  | pfc (time : UInt32) (qIndex : Queue)
  deriving DecidableEq

structure SwitchPacket where
  size : UInt32
  kind : PacketKind
  deriving DecidableEq

/-- The packets of an inner queue in the order they leave, and its byte counter. -/
structure DropTailQueue where
  packets : List SwitchPacket
  bytesInQueue : UInt32

structure BEgressQueue where
  bytesInQueueTotal : UInt32
  bytesInQueue : Queue → UInt32
  rrlast : Queue
  queues : Queue → DropTailQueue

/-- The bytes of a list of packets. -/
def packetBytes (packets : List SwitchPacket) : Nat := (packets.map fun p => p.size.toNat).sum

theorem packetBytes_cons (p : SwitchPacket) (packets : List SwitchPacket) :
    packetBytes (p :: packets) = p.size.toNat + packetBytes packets := by
  simp [packetBytes]

theorem packetBytes_append (left right : List SwitchPacket) :
    packetBytes (left ++ right) = packetBytes left + packetBytes right := by
  simp [packetBytes]

namespace DropTailQueue

/-- The default of `MaxBytes`; the default mode counts bytes. -/
def maxBytes : UInt32 := 30000 * 65535

def accepts (dt : DropTailQueue) (p : SwitchPacket) : Bool := !(dt.bytesInQueue + p.size ≥ maxBytes)

def enqueue (dt : DropTailQueue) (p : SwitchPacket) : DropTailQueue :=
  if dt.accepts p then { packets := dt.packets ++ [p], bytesInQueue := dt.bytesInQueue + p.size } else dt

end DropTailQueue

namespace BEgressQueue

/-- The default of `MaxBytes`, a floating-point number of 1000 MB. -/
def maxBytes : Nat := 1000 * 1024 * 1024

def empty : BEgressQueue where
  bytesInQueueTotal := 0
  bytesInQueue := fun _ => 0
  rrlast := 0
  queues := fun _ => { packets := [], bytesInQueue := 0 }

/-- The test of `DoEnqueue`. -/
def hasRoom (eq : BEgressQueue) (p : SwitchPacket) : Bool :=
  (eq.bytesInQueueTotal + p.size).toNat < maxBytes

def enqueue (eq : BEgressQueue) (p : SwitchPacket) (qIndex : Queue) : BEgressQueue :=
  if eq.hasRoom p then
    { eq with
      queues := Function.update eq.queues qIndex ((eq.queues qIndex).enqueue p)
      bytesInQueueTotal := eq.bytesInQueueTotal + p.size
      bytesInQueue := Function.update eq.bytesInQueue qIndex (eq.bytesInQueue qIndex + p.size) }
  else eq

/-- The packet ends up in its queue: neither limit refuses it. -/
def accepts (eq : BEgressQueue) (p : SwitchPacket) (qIndex : Queue) : Bool :=
  eq.hasRoom p && (eq.queues qIndex).accepts p

/-- The queues in the order the round visits them. -/
def rrOrder (rrlast : Queue) : List Queue := (List.range' 1 qCnt).map fun i => Fin.ofNat qCnt (i + rrlast)

def nextQueue (eq : BEgressQueue) (paused : Queue → Bool) : Option Queue :=
  if (eq.queues 0).packets.length > 0 then some 0
  else (rrOrder eq.rrlast).find? fun q => !paused q && (eq.queues q).packets.length > 0

/-- `DoDequeueRR`: the packet, the queue it comes from, which is `m_qlast`, and what is left. -/
def dequeueRR (eq : BEgressQueue) (paused : Queue → Bool) : Option (SwitchPacket × Queue × BEgressQueue) :=
  if eq.bytesInQueueTotal = 0 then none
  else
    match eq.nextQueue paused with
    | none => none
    | some qIndex =>
        match (eq.queues qIndex).packets with
        | [] => none
        | p :: rest => some (p, qIndex,
            { bytesInQueueTotal := eq.bytesInQueueTotal - p.size
              bytesInQueue := Function.update eq.bytesInQueue qIndex (eq.bytesInQueue qIndex - p.size)
              rrlast := if qIndex ≠ 0 then qIndex else eq.rrlast
              queues := Function.update eq.queues qIndex
                { packets := rest, bytesInQueue := (eq.queues qIndex).bytesInQueue - p.size } })

def packetCount (eq : BEgressQueue) : Nat := ∑ q, (eq.queues q).packets.length

/-- The loop that takes packets out until there is none to be had. -/
def drain : Nat → BEgressQueue → BEgressQueue
  | 0, eq => eq
  | n + 1, eq =>
      match eq.dequeueRR (fun _ => false) with
      | none => eq
      | some (_, _, eq') => drain n eq'

/-- The bytes of everything the port stores. -/
def storedBytes (eq : BEgressQueue) : Nat := ∑ q, packetBytes (eq.queues q).packets

/-- The counters say what is stored, and the limit is kept. -/
structure Counted (eq : BEgressQueue) : Prop where
  bounded : eq.storedBytes < maxBytes
  total : eq.bytesInQueueTotal.toNat = eq.storedBytes
  inner : ∀ q, (eq.queues q).bytesInQueue.toNat = packetBytes (eq.queues q).packets

/-! ### Taking a packet out -/

variable {eq eq' : BEgressQueue} {p : SwitchPacket} {qIndex : Queue} {paused : Queue → Bool}

/-- All that a dequeue does. -/
structure Dequeued (eq eq' : BEgressQueue) (p : SwitchPacket) (qIndex : Queue) : Prop where
  head : (eq.queues qIndex).packets = p :: (eq'.queues qIndex).packets
  others : ∀ q, q ≠ qIndex → eq'.queues q = eq.queues q
  total : eq'.bytesInQueueTotal = eq.bytesInQueueTotal - p.size
  inner : (eq'.queues qIndex).bytesInQueue = (eq.queues qIndex).bytesInQueue - p.size

theorem dequeueRR_spec (h : eq.dequeueRR paused = some (p, qIndex, eq')) : Dequeued eq eq' p qIndex := by
  simp only [dequeueRR] at h
  split at h
  · cases h
  · cases hnext : eq.nextQueue paused with
    | none => simp [hnext] at h
    | some q =>
        simp only [hnext] at h
        cases hpackets : (eq.queues q).packets with
        | nil => simp [hpackets] at h
        | cons first rest =>
            simp only [hpackets, Option.some.injEq, Prod.mk.injEq] at h
            obtain ⟨rfl, rfl, rfl⟩ := h
            refine ⟨by simp [hpackets], ?_, rfl, by simp⟩
            intro q' hne
            exact Function.update_of_ne hne ..

theorem Dequeued.packetCount (h : Dequeued eq eq' p qIndex) : eq'.packetCount + 1 = eq.packetCount := by
  have hsum := Grid.sum_of_eq_except (fun q => (eq'.queues q).packets.length)
    (fun q => (eq.queues q).packets.length) qIndex (fun q hq => by rw [h.others q hq])
  have hlength := congrArg List.length h.head
  rw [List.length_cons] at hlength
  simp only [BEgressQueue.packetCount]
  omega

theorem Dequeued.storedBytes (h : Dequeued eq eq' p qIndex) :
    eq'.storedBytes + p.size.toNat = eq.storedBytes := by
  have hsum := Grid.sum_of_eq_except (fun q => packetBytes (eq'.queues q).packets)
    (fun q => packetBytes (eq.queues q).packets) qIndex (fun q hq => by rw [h.others q hq])
  have hbytes := congrArg packetBytes h.head
  rw [packetBytes_cons] at hbytes
  simp only [BEgressQueue.storedBytes]
  omega

theorem Dequeued.counted (h : Dequeued eq eq' p qIndex) (hcounted : Counted eq) : Counted eq' := by
  have hstored := h.storedBytes
  have hbytes := congrArg packetBytes h.head
  rw [packetBytes_cons] at hbytes
  have hbounded := hcounted.bounded
  have htotal := hcounted.total
  have hinner := hcounted.inner qIndex
  refine ⟨by omega, ?_, ?_⟩
  · rw [h.total, UInt32.toNat_sub_of_le _ _ (UInt32.le_iff_toNat_le.mpr (by omega))]
    omega
  · intro q
    by_cases hq : q = qIndex
    · subst hq
      rw [h.inner, UInt32.toNat_sub_of_le _ _ (UInt32.le_iff_toNat_le.mpr (by omega))]
      omega
    · rw [h.others q hq]
      exact hcounted.inner q

/-- The loop of `TakeDown` has run to its end when it has run as often as there are packets. -/
theorem dequeueRR_drain (n : Nat) (eq : BEgressQueue) (h : eq.packetCount ≤ n) :
    (eq.drain n).dequeueRR (fun _ => false) = none := by
  induction n generalizing eq with
  | zero =>
      cases hnext : eq.dequeueRR (fun _ => false) with
      | none => exact hnext
      | some r =>
          obtain ⟨p, qIndex, eq'⟩ := r
          have hcount := (dequeueRR_spec hnext).packetCount
          omega
  | succ n ih =>
      rw [drain]
      cases hnext : eq.dequeueRR (fun _ => false) with
      | none => exact hnext
      | some r =>
          obtain ⟨p, qIndex, eq'⟩ := r
          have hcount := (dequeueRR_spec hnext).packetCount
          exact ih eq' (by omega)

/-- Draining only takes packets away. -/
theorem mem_drain {n : Nat} {q : Queue} (h : p ∈ ((eq.drain n).queues q).packets) :
    p ∈ (eq.queues q).packets := by
  induction n generalizing eq with
  | zero => exact h
  | succ n ih =>
      rw [drain] at h
      cases hnext : eq.dequeueRR (fun _ => false) with
      | none =>
          rw [hnext] at h
          exact h
      | some r =>
          rw [hnext] at h
          have hout := dequeueRR_spec hnext
          have hmem := ih h
          by_cases hq : q = r.2.1
          · subst hq
            rw [hout.head]
            exact List.mem_cons_of_mem _ hmem
          · rwa [hout.others q hq] at hmem

theorem counted_drain {n : Nat} (h : Counted eq) : Counted (eq.drain n) := by
  induction n generalizing eq with
  | zero => exact h
  | succ n ih =>
      rw [drain]
      cases hnext : eq.dequeueRR (fun _ => false) with
      | none => exact h
      | some r => exact ih ((dequeueRR_spec hnext).counted h)

/-! ### Putting a packet in -/

theorem enqueue_packets (eq : BEgressQueue) (p : SwitchPacket) (qIndex q : Queue) :
    ((eq.enqueue p qIndex).queues q).packets =
      if q = qIndex ∧ eq.accepts p qIndex = true then (eq.queues q).packets ++ [p] else (eq.queues q).packets := by
  simp only [enqueue, accepts]
  by_cases hroom : eq.hasRoom p = true
  · by_cases hq : q = qIndex
    · subst hq
      by_cases hinner : (eq.queues q).accepts p = true
      · simp [hroom, hinner, DropTailQueue.enqueue]
      · simp [hroom, hinner, DropTailQueue.enqueue]
    · simp [hroom, hq]
  · simp [hroom]

theorem Counted.empty : Counted BEgressQueue.empty where
  bounded := by simp [BEgressQueue.empty, storedBytes, packetBytes, maxBytes]
  total := by simp [BEgressQueue.empty, storedBytes, packetBytes]
  inner := fun _ => rfl

/-- With exact counters a packet that fits below the limit is accepted by both queues. -/
theorem Counted.accepts_iff (h : Counted eq) (hfits : eq.storedBytes + p.size.toNat < 2 ^ 32) :
    eq.accepts p qIndex = true ↔ eq.storedBytes + p.size.toNat < maxBytes := by
  have hle : packetBytes (eq.queues qIndex).packets ≤ eq.storedBytes :=
    Finset.single_le_sum (f := fun q => packetBytes (eq.queues q).packets) (fun _ _ => Nat.zero_le _)
      (Finset.mem_univ qIndex)
  have htotal := h.total
  have hinner := h.inner qIndex
  have hinnermax : DropTailQueue.maxBytes.toNat = 1966050000 := rfl
  simp only [accepts, hasRoom, DropTailQueue.accepts, Bool.and_eq_true, decide_eq_true_eq, Bool.not_eq_true',
    decide_eq_false_iff_not, ge_iff_le, UInt32.le_iff_toNat_le, UInt32.toNat_add, hinnermax, maxBytes]
  omega

theorem enqueue_eq_of_not_hasRoom (h : eq.hasRoom p = false) : eq.enqueue p qIndex = eq := by
  simp [enqueue, h]

theorem Counted.enqueue (h : Counted eq) (hfits : eq.storedBytes + p.size.toNat < 2 ^ 32) :
    Counted (eq.enqueue p qIndex) := by
  by_cases hroom : eq.hasRoom p = true
  · have hlt : eq.storedBytes + p.size.toNat < maxBytes := by
      have htotal := h.total
      simp only [hasRoom, decide_eq_true_eq, UInt32.toNat_add] at hroom
      omega
    have hacc : eq.accepts p qIndex = true := (h.accepts_iff hfits).mpr hlt
    have hinner : (eq.queues qIndex).accepts p = true := by
      simp only [accepts] at hacc
      exact (Bool.and_eq_true _ _ ▸ hacc).2
    have hpackets := enqueue_packets eq p qIndex
    have hstored : (eq.enqueue p qIndex).storedBytes = eq.storedBytes + p.size.toNat := by
      have hsum := Grid.sum_of_eq_except (fun q => packetBytes ((eq.enqueue p qIndex).queues q).packets)
        (fun q => packetBytes (eq.queues q).packets) qIndex
        (fun q hq => by rw [hpackets q, if_neg (fun hc => hq hc.1)])
      have hself : packetBytes ((eq.enqueue p qIndex).queues qIndex).packets =
          packetBytes (eq.queues qIndex).packets + p.size.toNat := by
        rw [hpackets qIndex, if_pos ⟨rfl, hacc⟩, packetBytes_append, packetBytes_cons]
        rfl
      simp only [BEgressQueue.storedBytes]
      omega
    have hle : packetBytes (eq.queues qIndex).packets ≤ eq.storedBytes :=
      Finset.single_le_sum (f := fun q => packetBytes (eq.queues q).packets) (fun _ _ => Nat.zero_le _)
        (Finset.mem_univ qIndex)
    refine ⟨by omega, ?_, ?_⟩
    · have htotal := h.total
      rw [hstored]
      simp only [BEgressQueue.enqueue, hroom, if_true, UInt32.toNat_add]
      omega
    · intro q
      by_cases hq : q = qIndex
      · subst hq
        have hold := h.inner q
        rw [hpackets q, if_pos ⟨rfl, hacc⟩, packetBytes_append, packetBytes_cons]
        simp only [BEgressQueue.enqueue, hroom, if_true, Function.update_self, DropTailQueue.enqueue, hinner,
          UInt32.toNat_add, packetBytes, List.map_nil, List.sum_nil]
        simp only [packetBytes] at hold hle
        omega
      · rw [hpackets q, if_neg (fun hc => hq hc.1)]
        simp only [BEgressQueue.enqueue, hroom, if_true, Function.update_of_ne hq]
        exact h.inner q
  · rw [enqueue_eq_of_not_hasRoom (by simpa using hroom)]
    exact h

end BEgressQueue

end Lcmp
