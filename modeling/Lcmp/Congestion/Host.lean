import Lcmp.Congestion.Dcqcn
import Lcmp.Congestion.Feedback
import Lcmp.Lib.Transition

/-!
# The sender's side of a host

`RdmaHw` with its queue pairs, the map that finds them and the timers it has scheduled. Acknowledgements
come in with any contents and in any order, and a pending timer may fire at any time, so the schedules
of the simulator are among the runs.
-/

namespace Lcmp

/-- The fields of an ACK or NACK that `ReceiveAck` reads. -/
structure AckPacket where
  sip : UInt32
  dport : UInt16
  pg : UInt16
  frame : AckFrame
  cnp : Bool
  ih : IntHeader

/-- A queue pair is never freed while an event holds a pointer to it, so the list only grows. -/
structure CcHost where
  qps : List CcQueuePair
  qpMap : UInt64 → Option Nat
  timers : Timers

namespace CcHost

def empty : CcHost where
  qps := []
  qpMap := fun _ => none
  timers := EventQueue.empty

def getQpKey (dip : UInt32) (sport pg : UInt16) : UInt64 :=
  (dip.toUInt64 <<< 32) ||| (sport.toUInt64 <<< 16) ||| pg.toUInt64

/-- The key a queue pair is stored under. -/
def keyOf (q : CcQueuePair) : UInt64 := getQpKey q.dip q.sport (UInt16.ofNat q.qp.mPg.val)

variable (cfg : CcConfig)

def addQueuePair (h : CcHost) (q : CcQueuePair) : CcHost where
  qps := h.qps ++ [q]
  qpMap := Function.update h.qpMap (keyOf q) (some h.qps.length)
  timers := h.timers

/-- What the mode makes of an acknowledgement once the transport and the CNP flag are dealt with. -/
def handleAck (q : CcQueuePair) (p : AckPacket) (now : UInt64) (rand uninit : UInt32) : Option CcQueuePair :=
  if cfg.mCcMode = 3 then q.handleAckHp cfg p.frame.seq p.ih uninit
  else if cfg.mCcMode = 7 then q.handleAckTimely cfg p.frame.seq now p.ih
  else if cfg.mCcMode = 8 then q.handleAckDctcp cfg p.frame.seq p.cnp
  else if cfg.mCcMode = 10 then q.handleAckHpPint cfg p.frame.seq p.ih rand
  else some q

/-- The queue pair an acknowledgement is for, after the transport has seen it, and whether it is now
finished. -/
def ackedQp (h : CcHost) (p : AckPacket) : Option (Nat × CcQueuePair × Bool) := do
  let i ← h.qpMap (getQpKey p.sip p.dport p.pg)
  let q ← h.qps[i]?
  let (qp, finished) ← receiveAck cfg.toRdmaHwConfig p.frame q.qp
  some (i, { q with qp := qp }, finished)

/-- `QpComplete` for a queue pair that is finished. -/
def completeIf (finished : Bool) (q : CcQueuePair) (timers : Timers) : CcQueuePair × Timers :=
  if finished then q.qpComplete cfg timers else (q, timers)

/-- The CNP flag, which is looked at whether or not the queue pair is complete. -/
def cnpIf (cnp : Bool) (i : Nat) (q : CcQueuePair) (timers : Timers) : CcQueuePair × Timers :=
  if cnp = true ∧ cfg.mCcMode = 1 then q.cnpReceivedMlx cfg i timers else (q, timers)

/-- An acknowledgement that finds no queue pair is ignored. -/
def receiveAck (h : CcHost) (p : AckPacket) (now : UInt64) (rand uninit : UInt32) : Option CcHost :=
  if (h.qpMap (getQpKey p.sip p.dport p.pg)).isNone then some h
  else do
    let (i, q, finished) ← h.ackedQp cfg p
    let (q, timers) := completeIf cfg finished q h.timers
    let (q, timers) := cnpIf cfg p.cnp i q timers
    let q ← handleAck cfg q p now rand uninit
    some {
      qps := h.qps.set i q
      qpMap := if finished then Function.update h.qpMap (keyOf q) none else h.qpMap
      timers := timers }

/-- The lazy initialisation of `ReceiveCnp`, which sets the rates the mode uses. -/
def initRates (q : CcQueuePair) : CcQueuePair :=
  let q := { q with mRate := cfg.lineRate }
  if cfg.mCcMode = 1 then { q with mlx := { q.mlx with mTargetRate := cfg.lineRate } }
  else if cfg.mCcMode = 3 then
    let hopState := if cfg.mMultipleRate then fun i => { q.hp.hopState i with rc := cfg.lineRate } else q.hp.hopState
    { q with hp := { q.hp with mCurRate := cfg.lineRate, hopState := hopState } }
  else if cfg.mCcMode = 7 then { q with tmly := { q.tmly with mCurRate := cfg.lineRate } }
  else if cfg.mCcMode = 10 then { q with hpccPint := { q.hpccPint with mCurRate := cfg.lineRate } }
  else q

/-- A CNP of its own for a flow that is not there is a null pointer. -/
def receiveCnp (h : CcHost) (sip : UInt32) (fid qIndex : UInt16) : Option CcHost :=
  if qIndex = 1 then some h
  else do
    let i ← h.qpMap (getQpKey sip fid qIndex)
    let q ← h.qps[i]?
    if q.mRate = 0 then some { h with qps := h.qps.set i (initRates cfg q) } else some h

/-- The NIC asks for the next packet of a queue pair while bytes are left. -/
def send (h : CcHost) (i : Nat) : Option CcHost := do
  let q ← h.qps[i]?
  if q.qp.getBytesLeft > 0 then
    some { h with qps := h.qps.set i { q with qp := (getNxtPacket cfg.toRdmaHwConfig q.qp).2 } }
  else none

/-- The simulator runs a pending timer. -/
def fire (h : CcHost) (uid : Nat) : Option CcHost := do
  let ((kind, i), timers) ← h.timers.fire uid
  let q ← h.qps[i]?
  let (q, timers) := q.runTimer cfg i timers kind
  some { h with qps := h.qps.set i q, timers := timers }

inductive HostEvent where
  | addQueuePair (dip : UInt32) (sport : UInt16) (size : UInt64) (pg : Queue) (win : UInt32) (baseRtt : UInt64)
      (hop : Nat → IntHop)
  | send (i : Nat)
  | ack (p : AckPacket) (now : UInt64) (rand uninit : UInt32)
  | cnp (sip : UInt32) (fid qIndex : UInt16)
  | fire (uid : Nat)

def hostNext (h : CcHost) : HostEvent → Option CcHost
  | .addQueuePair dip sport size pg win baseRtt hop =>
      some (h.addQueuePair (CcQueuePair.new cfg dip sport size pg win baseRtt hop))
  | .send i => h.send cfg i
  | .ack p now rand uninit => h.receiveAck cfg p now rand uninit
  | .cnp sip fid qIndex => h.receiveCnp cfg sip fid qIndex
  | .fire uid => h.fire cfg uid

def hostSystem : System CcHost HostEvent where
  init := empty
  next := hostNext cfg

/-! ### Steps -/

/-- The queue pair and the timers once completion and the CNP flag are dealt with. -/
def afterFlags (p : AckPacket) (i : Nat) (finished : Bool) (q : CcQueuePair) (timers : Timers) : CcQueuePair × Timers :=
  cnpIf cfg p.cnp i (completeIf cfg finished q timers).1 (completeIf cfg finished q timers).2

/-- All that an event can do. -/
inductive Step (h : CcHost) : HostEvent → CcHost → Prop where
  | added (dip : UInt32) (sport : UInt16) (size : UInt64) (pg : Queue) (win : UInt32) (baseRtt : UInt64)
      (hop : Nat → IntHop) : Step h (.addQueuePair dip sport size pg win baseRtt hop)
        (h.addQueuePair (CcQueuePair.new cfg dip sport size pg win baseRtt hop))
  | sent {i : Nat} {q : CcQueuePair} (hq : h.qps[i]? = some q) :
      Step h (.send i) { h with qps := h.qps.set i { q with qp := (getNxtPacket cfg.toRdmaHwConfig q.qp).2 } }
  | unknown {p : AckPacket} {now : UInt64} {rand uninit : UInt32}
      (hkey : h.qpMap (getQpKey p.sip p.dport p.pg) = none) : Step h (.ack p now rand uninit) h
  | acked {p : AckPacket} {now : UInt64} {rand uninit : UInt32} {i : Nat} {q q' : CcQueuePair} {qp : RdmaQueuePair}
      {finished : Bool} (hkey : h.qpMap (getQpKey p.sip p.dport p.pg) = some i) (hq : h.qps[i]? = some q)
      (hack : Lcmp.receiveAck cfg.toRdmaHwConfig p.frame q.qp = some (qp, finished))
      (hhandle : handleAck cfg (afterFlags cfg p i finished { q with qp := qp } h.timers).1 p now rand uninit = some q') :
      Step h (.ack p now rand uninit) {
        qps := h.qps.set i q'
        qpMap := if finished then Function.update h.qpMap (keyOf q') none else h.qpMap
        timers := (afterFlags cfg p i finished { q with qp := qp } h.timers).2 }
  | idle (sip : UInt32) (fid qIndex : UInt16) : Step h (.cnp sip fid qIndex) h
  | initialised (sip : UInt32) (fid qIndex : UInt16) {i : Nat} {q : CcQueuePair} (hq : h.qps[i]? = some q)
      (hzero : q.mRate = 0) : Step h (.cnp sip fid qIndex) { h with qps := h.qps.set i (initRates cfg q) }
  | fired {uid : Nat} {kind : TimerKind} {i : Nat} {timers : Timers} {q : CcQueuePair}
      (hfire : h.timers.fire uid = some ((kind, i), timers)) (hq : h.qps[i]? = some q) :
      Step h (.fire uid) { h with
        qps := h.qps.set i (q.runTimer cfg i timers kind).1
        timers := (q.runTimer cfg i timers kind).2 }

variable {cfg} {h h' : CcHost}

theorem receiveAck_step {p : AckPacket} {now : UInt64} {rand uninit : UInt32}
    (hstep : h.receiveAck cfg p now rand uninit = some h') : Step cfg h (.ack p now rand uninit) h' := by
  simp only [receiveAck] at hstep
  split at hstep
  · rename_i hnone
    obtain rfl := Option.some.inj hstep
    exact .unknown (Option.isNone_iff_eq_none.mp hnone)
  · obtain ⟨⟨i, q, finished⟩, hacked, hstep⟩ := Option.bind_eq_some_iff.mp hstep
    obtain ⟨q', hhandle, hstep⟩ := Option.bind_eq_some_iff.mp hstep
    obtain ⟨j, hkey, hacked⟩ := Option.bind_eq_some_iff.mp hacked
    obtain ⟨q₀, hq, hacked⟩ := Option.bind_eq_some_iff.mp hacked
    obtain ⟨⟨qp, finished'⟩, hack, hacked⟩ := Option.bind_eq_some_iff.mp hacked
    cases hacked
    obtain rfl := Option.some.inj hstep
    exact .acked hkey hq hack hhandle

theorem hostNext_step {e : HostEvent} (hstep : hostNext cfg h e = some h') : Step cfg h e h' := by
  cases e with
  | addQueuePair dip sport size pg win baseRtt hop =>
      obtain rfl := Option.some.inj hstep
      exact .added dip sport size pg win baseRtt hop
  | send i =>
      obtain ⟨q, hq, hstep⟩ := Option.bind_eq_some_iff.mp hstep
      split at hstep
      · obtain rfl := Option.some.inj hstep
        exact .sent hq
      · cases hstep
  | ack p now rand uninit => exact receiveAck_step hstep
  | cnp sip fid qIndex =>
      change h.receiveCnp cfg sip fid qIndex = some h' at hstep
      simp only [receiveCnp] at hstep
      split at hstep
      · obtain rfl := Option.some.inj hstep
        exact .idle sip fid qIndex
      · obtain ⟨i, -, hstep⟩ := Option.bind_eq_some_iff.mp hstep
        obtain ⟨q, hq, hstep⟩ := Option.bind_eq_some_iff.mp hstep
        split at hstep
        · rename_i hzero
          obtain rfl := Option.some.inj hstep
          exact .initialised sip fid qIndex hq hzero
        · obtain rfl := Option.some.inj hstep
          exact .idle sip fid qIndex
  | fire uid =>
      obtain ⟨⟨⟨kind, i⟩, timers⟩, hfire, hstep⟩ := Option.bind_eq_some_iff.mp hstep
      obtain ⟨q, hq, hstep⟩ := Option.bind_eq_some_iff.mp hstep
      obtain rfl := Option.some.inj hstep
      exact .fired hfire hq

/-! ### A sample configuration and flow -/

/-- DCQCN at 100 Gb/s with an ACK for every segment. -/
def dcqcn : CcConfig where
  toRdmaHwConfig := everySegment
  mCcMode := 1
  lineRate := 100000000000
  mMinRate := 100000000
  mRai := 5000000
  mRhai := 50000000
  mDctcpRai := 1000000000
  mG := 1 / 16
  mRateOnFirstCnp := 1
  mEcnClampTgtRate := false
  mRpgThreshold := 5
  mTargetUtil := 19 / 20
  mMiThresh := 5
  mMultipleRate := true
  mSampleFeedback := false
  mFastReact := true
  mTmlyAlpha := 7 / 8
  mTmlyBeta := 4 / 5
  mTmlyTLow := 50000
  mTmlyTHigh := 500000
  mTmlyMinRtt := 20000
  pintSmplThresh := 65536
  multi := 1
  decodeU := fun power => .fin power.toNat
  undefinedRate := fun _ => some (2 ^ 63)

theorem time_pos : 0 < 2 ^ 24 := Nat.two_pow_pos 24

theorem bytes_pos : 0 < 2 ^ 20 := Nat.two_pow_pos 20

theorem qlen_pos : 0 < 2 ^ 17 := Nat.two_pow_pos 17

/-- The telemetry of a link that carried nothing. -/
def idleHop : IntHop := { lineRate := 0, time := ⟨0, time_pos⟩, bytes := ⟨0, bytes_pos⟩, qlen := ⟨0, qlen_pos⟩ }

/-- An ACK with the CNP flag. -/
def markedAck (seq : UInt32) : HostEvent :=
  .ack { sip := 0x0b000101, dport := 10000, pg := 3, frame := ⟨false, seq⟩, cnp := true
         ih := { hop := fun _ => idleHop, nhop := 0, ts := 0, power := 0 } } 0 0 0

/-- A flow of one segment and its acknowledgement, with the CNP flag or without. -/
def oneSegment (cnp : Bool) : List HostEvent :=
  [.addQueuePair 0x0b000101 10000 1000 3 0 8000 (fun _ => ⟨0, 0, 0, 0⟩), .send 0,
    .ack { sip := 0x0b000101, dport := 10000, pg := 3, frame := ⟨false, 1000⟩, cnp := cnp
           ih := { hop := fun _ => ⟨0, 0, 0, 0⟩, nhop := 0, ts := 0, power := 0 } } 0 0 0]

end CcHost

end Lcmp
