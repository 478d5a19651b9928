import Lcmp.Congestion.QueuePair

/-!
# HPCC, TIMELY, DCTCP and HPCC-PINT

What an acknowledgement does to the rates in these modes. A flow without a window, a hop that is read twice at one
time and attributes that are zero make quotients by zero, which are infinite or NaN and go on as such.
-/

namespace Lcmp

namespace CcQueuePair

variable (cfg : CcConfig) (q : CcQueuePair)

/-! ### HPCC -/

def boundRate (maxRate newRate : DataRate) : DataRate :=
  let newRate := if newRate < cfg.mMinRate then cfg.mMinRate else newRate
  if newRate > maxRate then maxRate else newRate

/-- The rule for a new rate and stage from the reference rate and the normalised utilisation `c`, which
the code spells out for the aggregate, for each hop and for PINT. -/
def hpccRate (maxRate curRate : DataRate) (incStage : UInt32) (c : Extended) : Option (DataRate × UInt32) :=
  if c ≥ .fin 1 ∨ incStage ≥ cfg.mMiThresh then do
    let rate ← DataRate.ofDouble cfg.undefinedRate (.fin curRate / c)
    some (boundRate cfg maxRate (rate + cfg.mRai), 0)
  else some (boundRate cfg maxRate (curRate + cfg.mRai), incStage + 1)

/-- `u / m_targetUtil`. -/
def normalised (u : Extended) : Extended := u / .fin cfg.mTargetUtil

/-- What the loop over the hops has gathered. -/
structure HopScan where
  hp : Hp
  maxU : Extended
  dt : UInt64
  updated : Nat → Bool
  updatedAny : Bool

/-- The utilisation of a hop, from the reading of this acknowledgement and the stored one. -/
def hopUtilisation (hop stored : IntHop) : Extended :=
  let tau := hop.getTimeDelta stored
  let duration : Rat := tau.toNat / 1000000000
  let txRate : Extended := .fin ((hop.getBytesDelta cfg.multi stored).toNat * 8) / .fin duration
  let qlen := min (hop.getQlen cfg.multi) (stored.getQlen cfg.multi)
  txRate / .fin hop.getLineRate + .fin ((qlen.toNat : Rat) * q.mMaxRate / hop.getLineRate) / .fin q.qp.mWin.toNat

/-- The average of `old` and `u` in which `u` counts for `tau` of the base RTT. -/
def smoothed (old u : Extended) (tau : UInt64) : Extended :=
  let tau := if tau > q.mBaseRtt then q.mBaseRtt else tau
  (old * .fin (q.mBaseRtt - tau).toNat + u * .fin tau.toNat) / .fin q.mBaseRtt.toNat

def scanHop (ih : IntHeader) (fastReact : Bool) (s : HopScan) (i : Nat) : HopScan :=
  if cfg.mSampleFeedback ∧ (ih.hop i).getQlen cfg.multi = 0 ∧ fastReact then s
  else
    let tau := (ih.hop i).getTimeDelta (s.hp.hop i)
    let u := hopUtilisation cfg q (ih.hop i) (s.hp.hop i)
    let s := { s with updated := Function.update s.updated i true, updatedAny := true }
    let s :=
      if cfg.mMultipleRate then
        let hopU := smoothed q (s.hp.hopState i).u u tau
        { s with hp := { s.hp with
          hopState := Function.update s.hp.hopState i { s.hp.hopState i with u := hopU } } }
      else if u > s.maxU then { s with maxU := u, dt := tau }
      else s
    { s with hp := { s.hp with hop := Function.update s.hp.hop i (ih.hop i) } }

/-- The new rate and what each hop is to keep, as far as the loop has come. -/
structure HopRates where
  newRate : DataRate
  rate : Nat → DataRate
  incStage : Nat → UInt32

def hopRateStep (s : HopScan) (r : HopRates) (i : Nat) : Option HopRates :=
  let state := s.hp.hopState i
  if s.updated i then do
    let (rate, incStage) ← hpccRate cfg q.mMaxRate state.rc state.incStage (normalised cfg state.u)
    some {
      newRate := if rate < r.newRate then rate else r.newRate
      rate := Function.update r.rate i rate
      incStage := Function.update r.incStage i incStage }
  else some { r with newRate := if state.rc < r.newRate then state.rc else r.newRate }

/-- `multipleRate` is off: one rate for the path. -/
def applyAggregate (fastReact : Bool) (s : HopScan) : Option CcQueuePair := do
  let u := smoothed q s.hp.u s.maxU s.dt
  let maxC := normalised cfg u
  let (newRate, incStage) ← hpccRate cfg q.mMaxRate s.hp.mCurRate s.hp.mIncStage maxC
  let q := { q with hp := { s.hp with u := u } }.changeRate newRate
  if fastReact then some q
  else some { q with hp := { q.hp with mCurRate := newRate, mIncStage := incStage } }

/-- `multipleRate` is on: a rate for each hop. The stage of the aggregate is then a local variable the
code has not set; `uninit` is its value. -/
def applyPerHop (nhop : Nat) (fastReact : Bool) (uninit : UInt32) (s : HopScan) : Option CcQueuePair := do
  let r ← (List.range nhop).foldlM (hopRateStep cfg q s)
    { newRate := q.mMaxRate, rate := fun _ => 0, incStage := fun _ => 0 }
  let q := { q with hp := s.hp }
  let q := if s.updatedAny then q.changeRate r.newRate else q
  if fastReact then some q
  else
    let hp := if s.updatedAny then { q.hp with mCurRate := r.newRate, mIncStage := uninit } else q.hp
    let hopState := fun i =>
      if i < nhop ∧ s.updated i then { hp.hopState i with rc := r.rate i, incStage := r.incStage i }
      else hp.hopState i
    some { q with hp := { hp with hopState := hopState } }

/-- The `if` on the number of hops. -/
def applyInt (ih : IntHeader) (fastReact : Bool) (uninit : UInt32) : Option CcQueuePair :=
  let s := (List.range ih.nhop.toNat).foldl (scanHop cfg q ih fastReact)
    { hp := q.hp, maxU := .fin 0, dt := 0, updated := fun _ => false, updatedAny := false }
  if cfg.mMultipleRate then applyPerHop cfg q ih.nhop.toNat fastReact uninit s
  else if s.updatedAny then applyAggregate cfg q fastReact s
  else some { q with hp := s.hp }

/-- The first RTT asserts that the hops fit in the array. -/
def updateRateHp (ih : IntHeader) (fastReact : Bool) (uninit : UInt32) : Option CcQueuePair :=
  let nextSeq := q.qp.sndNxt.toUInt32
  if q.hp.mLastUpdateSeq = 0 then
    if ih.nhop.toNat > IntHeader.maxHop then none
    else some { q with hp := { q.hp with
      mLastUpdateSeq := nextSeq
      hop := fun i => if i < ih.nhop.toNat then ih.hop i else q.hp.hop i } }
  else do
    let q ← if ih.nhop.toNat ≤ IntHeader.maxHop then applyInt cfg q ih fastReact uninit else some q
    if fastReact = false ∧ nextSeq > q.hp.mLastUpdateSeq then
      some { q with hp := { q.hp with mLastUpdateSeq := nextSeq } }
    else some q

def handleAckHp (ackSeq : UInt32) (ih : IntHeader) (uninit : UInt32) : Option CcQueuePair :=
  if ackSeq > q.hp.mLastUpdateSeq then updateRateHp cfg q ih false uninit
  else if cfg.mFastReact then updateRateHp cfg q ih true uninit
  else some q

/-! ### TIMELY -/

/-- The factor that the rate is multiplied with, if it is not increased. -/
def timelyFactor (rtt : UInt64) (rttDiff : Rat) : Option Extended :=
  let gradient : Extended := .fin rttDiff / .fin cfg.mTmlyMinRtt.toNat
  if rtt < cfg.mTmlyTLow then none
  else if rtt > cfg.mTmlyTHigh then
    some (.fin (1 - cfg.mTmlyBeta * (1 - (cfg.mTmlyTHigh.toNat : Rat) / rtt.toNat)))
  else if gradient ≤ .fin 0 then none
  else
    let c := .fin 1 - .fin cfg.mTmlyBeta * gradient
    some (if c < .fin 0 then .fin 0 else c)

/-- The rate and the stage that follow. -/
def timelyRate (factor : Option Extended) : Option (DataRate × UInt32) :=
  match factor with
  | none =>
      let rate := q.tmly.mCurRate + if q.tmly.mIncStage < 5 then cfg.mRai else cfg.mRhai
      some (if rate > q.mMaxRate then q.mMaxRate else rate, q.tmly.mIncStage + 1)
  | some c => do
      let rate ← DataRate.ofDouble cfg.undefinedRate (.fin q.tmly.mCurRate * c)
      some (max cfg.mMinRate rate, 0)

def updateRateTimely (now : UInt64) (ih : IntHeader) (us : Bool) : Option CcQueuePair := do
  let nextSeq := q.qp.sndNxt.toUInt32
  let rtt := now - ih.ts
  let q ← if q.tmly.mLastUpdateSeq ≠ 0 then do
      let newRttDiff := (rtt.toInt64 - q.tmly.lastRtt.toInt64).toInt
      let rttDiff := (1 - cfg.mTmlyAlpha) * q.tmly.rttDiff + cfg.mTmlyAlpha * newRttDiff
      let (rate, incStage) ← timelyRate cfg q (timelyFactor cfg rtt rttDiff)
      some { q with
        mRate := rate
        tmly := if us then q.tmly
          else { q.tmly with mCurRate := rate, mIncStage := incStage, rttDiff := rttDiff } }
    else some q
  if us = false ∧ nextSeq > q.tmly.mLastUpdateSeq then
    some { q with tmly := { q.tmly with mLastUpdateSeq := nextSeq, lastRtt := rtt } }
  else some q

/-- `FastReactTimely` does nothing. -/
def handleAckTimely (ackSeq : UInt32) (now : UInt64) (ih : IntHeader) : Option CcQueuePair :=
  if ackSeq > q.tmly.mLastUpdateSeq then updateRateTimely cfg q now ih false else some q

/-! ### DCTCP -/

/-- The marked part of a batch. A batch of size zero divides to infinity or to no number at all, and the
minimum with one is one in both cases. -/
def dctcpFrac : Rat :=
  if q.dctcp.mBatchSizeOfAlpha = 0 then 1
  else min 1 ((q.dctcp.mEcnCnt.toNat : Rat) / q.dctcp.mBatchSizeOfAlpha.toNat)

/-- The update of alpha at the end of a batch. -/
def dctcpBatch (ackSeq : UInt32) : Option CcQueuePair :=
  if cfg.mMtu = 0 then none
  else if q.dctcp.mLastUpdateSeq = 0 then
    some { q with dctcp := { q.dctcp with
      mLastUpdateSeq := q.qp.sndNxt.toUInt32
      mBatchSizeOfAlpha := (q.qp.sndNxt / cfg.mMtu.toUInt64 + 1).toUInt32 } }
  else
    some { q with dctcp := { q.dctcp with
      mAlpha := (1 - cfg.mG) * q.dctcp.mAlpha + cfg.mG * q.dctcpFrac
      mLastUpdateSeq := q.qp.sndNxt.toUInt32
      mEcnCnt := 0
      mBatchSizeOfAlpha := ((q.qp.sndNxt - ackSeq.toUInt64) / cfg.mMtu.toUInt64 + 1).toUInt32 } }

/-- The way out of the reduced window. -/
def dctcpExitCwr (ackSeq : UInt32) : CcQueuePair :=
  if q.dctcp.mCaState = 1 ∧ ackSeq > q.dctcp.mHighSeq then { q with dctcp := { q.dctcp with mCaState := 0 } } else q

def dctcpReduce (cnp : Bool) : CcQueuePair :=
  if cnp = true ∧ q.dctcp.mCaState = 0 then
    { q with
      mRate := max cfg.mMinRate (q.mRate.mul (1 - q.dctcp.mAlpha / 2))
      dctcp := { q.dctcp with mCaState := 1, mHighSeq := q.qp.sndNxt.toUInt32 } }
  else q

def dctcpIncrease (newBatch : Bool) : CcQueuePair :=
  if q.dctcp.mCaState = 0 ∧ newBatch = true then { q with mRate := min q.mMaxRate (q.mRate + cfg.mDctcpRai) } else q

def handleAckDctcp (ackSeq : UInt32) (cnp : Bool) : Option CcQueuePair := do
  let q := { q with dctcp := { q.dctcp with mEcnCnt := q.dctcp.mEcnCnt + if cnp then 1 else 0 } }
  let newBatch := decide (ackSeq > q.dctcp.mLastUpdateSeq)
  let q ← if newBatch then dctcpBatch cfg q ackSeq else some q
  some (((q.dctcpExitCwr ackSeq).dctcpReduce cfg cnp).dctcpIncrease cfg newBatch)

/-! ### HPCC-PINT -/

def updateRateHpPint (ih : IntHeader) (fastReact : Bool) : Option CcQueuePair :=
  let nextSeq := q.qp.sndNxt.toUInt32
  if q.hpccPint.mLastUpdateSeq = 0 then some { q with hpccPint := { q.hpccPint with mLastUpdateSeq := nextSeq } }
  else do
    let maxC := normalised cfg (cfg.decodeU ih.power)
    let (newRate, incStage) ← hpccRate cfg q.mMaxRate q.hpccPint.mCurRate q.hpccPint.mIncStage maxC
    let q := q.changeRate newRate
    if fastReact then some q
    else some { q with hpccPint := {
      mCurRate := newRate
      mIncStage := incStage
      mLastUpdateSeq := if nextSeq > q.hpccPint.mLastUpdateSeq then nextSeq else q.hpccPint.mLastUpdateSeq } }

/-- `rand` is the random number of the sampling. -/
def handleAckHpPint (ackSeq : UInt32) (ih : IntHeader) (rand : UInt32) : Option CcQueuePair :=
  if rand % 65536 ≥ cfg.pintSmplThresh then some q
  else updateRateHpPint cfg q ih (!decide (ackSeq > q.hpccPint.mLastUpdateSeq))

end CcQueuePair

end Lcmp
