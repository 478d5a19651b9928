import Lcmp.Congestion.DataRate
import Lcmp.Transport.RdmaHw

/-!
# What congestion control keeps

The attributes of `RdmaHw`, the INT header and the fields of a queue pair that the algorithms of
`rdma-hw.cc` read and write. A `double` is a rational number, and where it can come from a division by zero an
`Extended` one. Pacing (`m_nextAvail`) is left out.
-/

namespace Lcmp

/-- `lineRate` is the rate of every port of the host. `decodeU` is `Pint::decode_u`, a power of a base
that is set at run time; `multi` is `IntHop::multi`. `undefinedRate` is what a rate becomes that is computed
as a value without a conversion to `uint64_t`; it may be different for each value, and nothing at all. The
intervals of the timers are left out, as timers may fire at any time. -/
structure CcConfig extends RdmaHwConfig where
  mCcMode : UInt32
  lineRate : DataRate
  mMinRate : DataRate
  mRai : DataRate
  mRhai : DataRate
  mDctcpRai : DataRate
  mG : Rat
  mRateOnFirstCnp : Rat
  mEcnClampTgtRate : Bool
  mRpgThreshold : UInt32
  mTargetUtil : Rat
  mMiThresh : UInt32
  mMultipleRate : Bool
  mSampleFeedback : Bool
  mFastReact : Bool
  mTmlyAlpha : Rat
  mTmlyBeta : Rat
  mTmlyTLow : UInt64
  mTmlyTHigh : UInt64
  mTmlyMinRtt : UInt64
  pintSmplThresh : UInt32
  multi : UInt32
  decodeU : UInt16 → Extended
  undefinedRate : Extended → Option DataRate

/-! ### The INT header -/

/-- The bit fields of a hop. -/
structure IntHop where
  lineRate : Fin 8
  time : Fin (2 ^ 24)
  bytes : Fin (2 ^ 20)
  qlen : Fin (2 ^ 17)

namespace IntHop

def lineRateValues : List Nat :=
  [25000000000, 40000000000, 50000000000, 100000000000, 200000000000, 400000000000, 600000000000, 800000000000]

def byteUnit : UInt32 := 128

def qlenUnit : UInt32 := 80

def getLineRate (h : IntHop) : Nat := lineRateValues.get h.lineRate

def getQlen (multi : UInt32) (h : IntHop) : UInt32 := UInt32.ofNat h.qlen.val * qlenUnit * multi

/-- The bit fields are promoted to `int`, so that the product has 32 bits. -/
def getBytesDelta (multi : UInt32) (h b : IntHop) : UInt64 :=
  let bytes := UInt32.ofNat (if h.bytes ≥ b.bytes then h.bytes.val - b.bytes.val else h.bytes.val + 2 ^ 20 - b.bytes.val)
  (bytes * byteUnit * multi).toUInt64

def getTimeDelta (h b : IntHop) : UInt64 :=
  UInt64.ofNat (if h.time ≥ b.time then h.time.val - b.time.val else h.time.val + 2 ^ 24 - b.time.val)

end IntHop

/-- The header is a union: the hops, the time stamp or the power, whichever the mode uses. -/
structure IntHeader where
  hop : Nat → IntHop
  nhop : UInt16
  ts : UInt64
  power : UInt16

namespace IntHeader

def maxHop : Nat := 64

end IntHeader

/-! ### Queue pairs -/

inductive TimerKind where
  | updateAlphaMlx
  | checkRateDecreaseMlx
  | rateIncEventTimerMlx
  deriving DecidableEq

/-- DCQCN. An `EventId` is the number of a scheduled event, if there was one. -/
structure Mlx where
  mTargetRate : DataRate
  mEventUpdateAlpha : Option Nat
  mAlpha : Rat
  mAlphaCnpArrived : Bool
  mFirstCnp : Bool
  mEventDecreaseRate : Option Nat
  mDecreaseCnpArrived : Bool
  mRpTimeStage : UInt32
  mRpTimer : Option Nat

structure HopState where
  u : Extended
  rc : DataRate
  incStage : UInt32

/-- HPCC. -/
structure Hp where
  mLastUpdateSeq : UInt32
  mCurRate : DataRate
  hop : Nat → IntHop
  mIncStage : UInt32
  u : Extended
  hopState : Nat → HopState

/-- TIMELY. -/
structure Tmly where
  mLastUpdateSeq : UInt32
  mCurRate : DataRate
  mIncStage : UInt32
  lastRtt : UInt64
  rttDiff : Rat

structure Dctcp where
  mLastUpdateSeq : UInt32
  mCaState : UInt32
  mHighSeq : UInt32
  mAlpha : Rat
  mEcnCnt : UInt32
  mBatchSizeOfAlpha : UInt32

/-- HPCC-PINT. -/
structure HpccPint where
  mLastUpdateSeq : UInt32
  mCurRate : DataRate
  mIncStage : UInt32

/-- A queue pair: its transport, whose two words for rates are not read here, its address, its rates
and the state of each algorithm. `completed` says that `QpComplete` was called for it; no function
reads it. -/
structure CcQueuePair where
  qp : RdmaQueuePair
  dip : UInt32
  sport : UInt16
  mBaseRtt : UInt64
  mRate : DataRate
  mMaxRate : DataRate
  mlx : Mlx
  hp : Hp
  tmly : Tmly
  dctcp : Dctcp
  hpccPint : HpccPint
  completed : Bool

namespace CcQueuePair

/-- The constructor, and `AddQueuePair` on the rates; a rate that neither of them sets is zero. `hop` is
what memory holds in the array of hops. -/
def new (cfg : CcConfig) (dip : UInt32) (sport : UInt16) (size : UInt64) (pg : Queue) (win : UInt32)
    (baseRtt : UInt64) (hop : Nat → IntHop) : CcQueuePair where
  qp := { mSize := size, sndNxt := 0, sndUna := 0, mWin := win, mVarWin := false, mRate := 0, mMaxRate := 0
          mPg := pg, mNextAvail := 0, lastPktSize := 0 }
  dip := dip
  sport := sport
  mBaseRtt := baseRtt
  mRate := cfg.lineRate
  mMaxRate := cfg.lineRate
  mlx := {
    mTargetRate := if cfg.mCcMode = 1 then cfg.lineRate else 0
    mEventUpdateAlpha := none, mAlpha := 1, mAlphaCnpArrived := false, mFirstCnp := true
    mEventDecreaseRate := none, mDecreaseCnpArrived := false, mRpTimeStage := 0, mRpTimer := none }
  hp := {
    mLastUpdateSeq := 0
    mCurRate := if cfg.mCcMode = 3 then cfg.lineRate else 0
    hop := hop
    mIncStage := 0, u := .fin 1
    hopState := fun _ =>
      { u := .fin 1, rc := if cfg.mCcMode = 3 ∧ cfg.mMultipleRate = true then cfg.lineRate else 0, incStage := 0 } }
  tmly := {
    mLastUpdateSeq := 0
    mCurRate := if cfg.mCcMode = 7 then cfg.lineRate else 0
    mIncStage := 0, lastRtt := 0, rttDiff := 0 }
  dctcp := { mLastUpdateSeq := 0, mCaState := 0, mHighSeq := 0, mAlpha := 1, mEcnCnt := 0, mBatchSizeOfAlpha := 0 }
  hpccPint := {
    mLastUpdateSeq := 0
    mCurRate := if cfg.mCcMode = 10 then cfg.lineRate else 0
    mIncStage := 0 }
  completed := false

/-- `ChangeRate` without the pacing. -/
def changeRate (q : CcQueuePair) (newRate : DataRate) : CcQueuePair := { q with mRate := newRate }

end CcQueuePair

end Lcmp
