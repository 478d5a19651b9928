import Lcmp.Nic.Device

/-!
# Wake-ups of a host

A queue pair that may send later needs a pending `m_nextSend`. `DequeueAndTransmit` schedules one at
the earliest `m_nextAvail` of all queue pairs with bytes left, and only when none is pending and that
time is in the future. So a wake-up is lost when a queue pair that is paused or window-bound has a past
`m_nextAvail`, and it is late when an event is pending that was scheduled for another queue pair.
-/

namespace Lcmp

open QbbNetDevice RdmaEgressQueue

/-- A queue pair that waits for nothing but its `m_nextAvail`. -/
def Throttled (dev : QbbNetDevice) (qp : RdmaQueuePair) : Prop :=
  canSend dev.paused qp = true ∧ dev.now < qp.mNextAvail

/-- With the link up and the transmitter ready, a wake-up is pending for the throttled queue pairs. -/
def WakeupPending (dev : QbbNetDevice) : Prop :=
  dev.linkUp = true → dev.txComplete = none → ∀ qp ∈ dev.rdmaEQ.qps, Throttled dev qp →
    ∃ ts, dev.nextSend = some ts ∧ ∀ other ∈ dev.rdmaEQ.qps, Throttled dev other → ts ≤ other.mNextAvail

/-- There is nothing to send now. -/
structure NothingToSend (dev : QbbNetDevice) : Prop where
  up : dev.linkUp = true
  ready : dev.txComplete = none
  ack : dev.paused ackQIdx = true ∨ dev.rdmaEQ.ackQ = []
  wait : ∀ qp ∈ dev.rdmaEQ.qps, canSend dev.paused qp = true → dev.now < qp.mNextAvail

/-- The queue pairs that are left when there is nothing to send and that have bytes left. -/
def Unsent (dev : QbbNetDevice) (qp : RdmaQueuePair) : Prop :=
  qp ∈ survivors dev.paused dev.rdmaEQ.qps ∧ qp.getBytesLeft ≠ 0

/-- For a queue pair that may send, an event that is already pending is not late, and if none is
pending then no queue pair with bytes left has a past `m_nextAvail`. -/
def WakeupPossible (dev : QbbNetDevice) : Prop :=
  ∀ qp, Unsent dev qp → canSend dev.paused qp = true →
    match dev.nextSend with
    | some ts => ts ≤ qp.mNextAvail
    | none => (∀ other, Unsent dev other → dev.now < other.mNextAvail) ∧
        ∃ other, Unsent dev other ∧ other.mNextAvail < maximumSimulationTime

variable {cfg : NicConfig}

theorem bytesLeft_of_canSend {paused : Queue → Bool} {qp : RdmaQueuePair}
    (h : canSend paused qp = true) : qp.getBytesLeft ≠ 0 := by
  rw [canSend, Bool.and_eq_true, Bool.and_eq_true, decide_eq_true_eq] at h
  intro hzero
  rw [hzero] at h
  exact absurd h.1.2 (by decide)

/-- The idle branch of a call leaves a wake-up exactly when one is possible. -/
theorem scheduleNextSend_wakeup {dev : QbbNetDevice} (h : NothingToSend dev) :
    WakeupPending (dev.setQps (survivors dev.paused dev.rdmaEQ.qps)).scheduleNextSend ↔
      WakeupPossible dev := by
  have hthrottled : ∀ qp ∈ survivors dev.paused dev.rdmaEQ.qps, canSend dev.paused qp = true →
      dev.now < qp.mNextAvail := fun qp hqp => h.wait qp (mem_of_mem_survivors hqp)
  by_cases hguard : dev.nextSend = none ∧
      earliestAvail (survivors dev.paused dev.rdmaEQ.qps) < maximumSimulationTime ∧
      earliestAvail (survivors dev.paused dev.rdmaEQ.qps) > dev.now
  · have hscheduled : (dev.setQps (survivors dev.paused dev.rdmaEQ.qps)).scheduleNextSend =
        { dev.setQps (survivors dev.paused dev.rdmaEQ.qps) with
          nextSend := some (earliestAvail (survivors dev.paused dev.rdmaEQ.qps)) } := if_pos hguard
    rw [hscheduled]
    obtain ⟨hnone, hbefore, hafter⟩ := hguard
    have hlater := lt_earliestAvail_iff.mp hafter
    apply iff_of_true
    · intro _ _ qp hqp hthr
      refine ⟨_, rfl, ?_⟩
      intro other hother hthr'
      exact earliestAvail_le hother (bytesLeft_of_canSend hthr'.1)
    · intro qp hqp hsend
      rw [hnone]
      obtain ⟨other, hmem, hleft, hearly⟩ := earliestAvail_lt_iff.mp hbefore
      exact ⟨fun other hother => hlater.2 other hother.1 hother.2, other, ⟨hmem, hleft⟩, hearly⟩
  · have hkept : (dev.setQps (survivors dev.paused dev.rdmaEQ.qps)).scheduleNextSend =
        dev.setQps (survivors dev.paused dev.rdmaEQ.qps) := if_neg hguard
    rw [hkept]
    constructor
    · intro hpending qp hqp hsend
      obtain ⟨ts, hts, hle⟩ := hpending h.up h.ready qp hqp.1 ⟨hsend, hthrottled qp hqp.1 hsend⟩
      change dev.nextSend = some ts at hts
      rw [hts]
      exact hle qp hqp.1 ⟨hsend, hthrottled qp hqp.1 hsend⟩
    · intro hpossible _ _ qp hqp hthr
      have hunsent : Unsent dev qp := ⟨hqp, bytesLeft_of_canSend hthr.1⟩
      cases hts : dev.nextSend with
      | some ts =>
          refine ⟨ts, hts, ?_⟩
          intro other hother hthr'
          have hcover := hpossible other ⟨hother, bytesLeft_of_canSend hthr'.1⟩ hthr'.1
          rw [hts] at hcover
          exact hcover
      | none =>
          have hcover := hpossible qp hunsent hthr.1
          rw [hts] at hcover
          obtain ⟨hfuture, other, hother, hearly⟩ := hcover
          have hbefore := earliestAvail_lt_iff.mpr ⟨other, hother.1, hother.2, hearly⟩
          have hnow : dev.now < maximumSimulationTime := Int.lt_trans (hfuture other hother) hearly
          have hafter := lt_earliestAvail_iff.mpr
            ⟨hnow, fun other hmem hleft => hfuture other ⟨hmem, hleft⟩⟩
          exact absurd ⟨hts, hbefore, hafter⟩ hguard

/-- One call of `DequeueAndTransmit`. -/
theorem dequeueAndTransmit_wakeup {dev dev' : QbbNetDevice}
    (h : dev.dequeueAndTransmit cfg = some dev') :
    WakeupPending dev' ↔ (NothingToSend dev → WakeupPossible dev) := by
  cases dequeueAndTransmit_outcome h with
  | unchanged hclosed =>
      apply iff_of_true
      · intro hup hready
        rcases hclosed with hdown | hbusy
        · rw [hdown] at hup
          cases hup
        · exact absurd hready hbusy
      · intro hnothing
        rcases hclosed with hdown | hbusy
        · rw [hnothing.up] at hdown
          cases hdown
        · exact absurd hnothing.ready hbusy
  | started hready hwork hbusy =>
      apply iff_of_true (fun _ hready' => absurd hready' hbusy)
      intro hnothing
      rcases hwork with ⟨hpaused, hackQ⟩ | ⟨qp, hqp, hsend, havail⟩
      · rcases hnothing.ack with hpaused' | hempty
        · rw [hpaused] at hpaused'
          cases hpaused'
        · exact absurd hempty hackQ
      · have hlater := hnothing.wait qp hqp hsend
        omega
  | idle hup hready hack hwait =>
      have hnothing : NothingToSend dev := ⟨hup, hready, hack, hwait⟩
      rw [scheduleNextSend_wakeup hnothing]
      exact ⟨fun h _ => h, fun h => h hnothing⟩

/-- In a run of a host NIC, every call of `DequeueAndTransmit` leaves the wake-up it should exactly when
every call that finds nothing to send can schedule it. -/
theorem wakeup_iff (cfg : NicConfig) {s : QbbNetDevice} {trace : List (Transition QbbNetDevice NicEvent)}
    (hrun : (nicSystem cfg).Run (nicSystem cfg).init trace s) :
    (∀ x ∈ trace, x.label.transmits = true → WakeupPending x.post) ↔
      ∀ x ∈ trace, x.label.transmits = true → ∀ dev, nicEffect cfg x.pre x.label = some dev →
        NothingToSend dev → WakeupPossible dev := by
  refine forall₂_congr fun x hx => forall_congr' fun htransmits => ?_
  have hnext : nicNext cfg x.pre x.label = some x.post := hrun.next_of_mem x hx
  unfold nicNext at hnext
  split at hnext
  · cases hnext
  · rename_i dev heffect
    rw [if_pos htransmits] at hnext
    rw [dequeueAndTransmit_wakeup hnext]
    constructor
    · intro h dev' heffect'
      obtain rfl := Option.some.inj (heffect.symm.trans heffect')
      exact h
    · intro h
      exact h dev heffect

/-- A NIC with one queue pair can always schedule its wake-up. -/
theorem wakeupPossible_single {dev : QbbNetDevice} {qp : RdmaQueuePair} (hqps : dev.rdmaEQ.qps = [qp])
    (hexpired : dev.nextSend = none) (hearly : qp.mNextAvail < maximumSimulationTime)
    (hnothing : NothingToSend dev) : WakeupPossible dev := by
  have honly : ∀ other, Unsent dev other → other = qp := by
    intro other hother
    have hmem := mem_of_mem_survivors hother.1
    rw [hqps] at hmem
    exact List.mem_singleton.mp hmem
  intro qp' hqp' hsend
  obtain rfl := honly qp' hqp'
  rw [hexpired]
  refine ⟨?_, qp', hqp', hearly⟩
  intro other hother
  obtain rfl := honly other hother
  exact hnothing.wait other (mem_of_mem_survivors hother.1) hsend

/-! ### A lost wake-up -/

/-- A NIC at 8 Gb/s, so that a byte takes a nanosecond. -/
def byteClock : NicConfig where
  hw := everySegment
  mRateBound := true
  mBps := 8000000000
  mTInterframeGap := 0
  headerSize := 48
  txTime := fun rate bytes => bytes.toNat * 8 * 10 ^ 9 / rate.toNat

/-- The ACK of the first packet reduces the rate of its queue pair to a hundredth. -/
def slowAck : NicEvent := .recvAck 0 ⟨false, 1000⟩ [.changeRate 80000000]

/-- A queue pair that is slowed down while its second packet is sent. -/
def slowFlow : List NicEvent :=
  [.attach, .newQp (plainQp 3000), .advance 1048, .transmitComplete, .advance 2000, slowAck, .advance 2096,
    .transmitComplete]

theorem wakeup_slowFlow : ∃ trace s,
    (nicSystem byteClock).Run (nicSystem byteClock).init trace s ∧
    trace.map Transition.label = slowFlow ∧ s.nextSend = some 105848 ∧
    ∀ x ∈ trace, x.label.transmits = true → WakeupPending x.post := by
  have hrun : (nicSystem byteClock).Run (nicSystem byteClock).init _ _ :=
    .cons (a := .attach) rfl (.cons (a := .newQp (plainQp 3000)) rfl (.cons (a := .advance 1048) rfl
      (.cons (a := .transmitComplete) rfl (.cons (a := .advance 2000) rfl (.cons (a := slowAck) rfl
        (.cons (a := .advance 2096) rfl (.cons (a := .transmitComplete) rfl (.nil _))))))))
  refine ⟨_, _, hrun, rfl, rfl, (wakeup_iff byteClock hrun).mpr ?_⟩
  intro x hx
  simp only [List.mem_cons, List.not_mem_nil, or_false] at hx
  rcases hx with rfl | rfl | rfl | rfl | rfl | rfl | rfl | rfl
  · intro htransmits
    cases htransmits
  · intro _ dev heffect
    obtain rfl := Option.some.inj heffect
    exact wakeupPossible_single rfl rfl (by decide)
  · intro htransmits
    cases htransmits
  · intro _ dev heffect
    obtain rfl := Option.some.inj heffect
    exact wakeupPossible_single rfl rfl (by decide)
  · intro htransmits
    cases htransmits
  · intro _ dev heffect
    obtain rfl := Option.some.inj heffect
    exact wakeupPossible_single rfl rfl (by decide)
  · intro htransmits
    cases htransmits
  · intro _ dev heffect
    obtain rfl := Option.some.inj heffect
    exact wakeupPossible_single rfl rfl (by decide)

/-- Two queue pairs: the window of the second stops it after one packet, and the first is slowed down
meanwhile. -/
def slowAndBound : List NicEvent :=
  [.attach, .newQp (plainQp 3000), .newQp { plainQp 3000 with mWin := 1000 }, .advance 1048,
    .transmitComplete, .advance 2000, slowAck, .advance 2096, .transmitComplete]

/-- The slow queue pair at the end of that run. -/
def slowQp : RdmaQueuePair := { plainQp 3000 with
  sndNxt := 1000
  sndUna := 1000
  mRate := 80000000
  mMaxRate := 8000000000
  mNextAvail := 104800
  lastPktSize := 1048 }

/-- When the last call returns, the slow queue pair waits for its `m_nextAvail` and no event is
pending. -/
theorem not_wakeupPending_slowAndBound :
    ∃ s, (nicSystem byteClock).exec (nicSystem byteClock).init slowAndBound = some s ∧
      slowQp ∈ s.rdmaEQ.qps ∧ s.nextSend = none ∧ ¬ WakeupPending s := by
  have hmem : slowQp ∈ [slowQp, { plainQp 3000 with
      sndNxt := 1000
      mWin := 1000
      mRate := 8000000000
      mMaxRate := 8000000000
      mNextAvail := 2096
      lastPktSize := 1048 }] := List.mem_cons_self
  refine ⟨_, rfl, hmem, rfl, ?_⟩
  intro hpending
  obtain ⟨ts, hts, -⟩ := hpending rfl rfl slowQp hmem ⟨by decide, by decide⟩
  cases hts

end Lcmp
