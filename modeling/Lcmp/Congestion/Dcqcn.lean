import Lcmp.Congestion.QueuePair
import Lcmp.Lib.EventQueue

/-!
# DCQCN

The timers of Mellanox's version: the update of alpha, the check for a rate decrease and the rate
increase, each of which schedules itself again. A queue pair is an object; its number stands for the
pointer that the scheduled calls hold.
-/

namespace Lcmp

abbrev Timers := EventQueue (TimerKind × Nat)

namespace CcQueuePair

variable (cfg : CcConfig) (i : Nat) (q : CcQueuePair) (timers : Timers)

def scheduleUpdateAlphaMlx : CcQueuePair × Timers :=
  let (id, timers) := timers.schedule (.updateAlphaMlx, i)
  ({ q with mlx := { q.mlx with mEventUpdateAlpha := some id } }, timers)

def updateAlphaMlx : CcQueuePair × Timers :=
  let alpha := if q.mlx.mAlphaCnpArrived then (1 - cfg.mG) * q.mlx.mAlpha + cfg.mG else (1 - cfg.mG) * q.mlx.mAlpha
  scheduleUpdateAlphaMlx i { q with mlx := { q.mlx with mAlpha := alpha, mAlphaCnpArrived := false } } timers

def scheduleDecreaseRateMlx : CcQueuePair × Timers :=
  let (id, timers) := timers.schedule (.checkRateDecreaseMlx, i)
  ({ q with mlx := { q.mlx with mEventDecreaseRate := some id } }, timers)

def cnpReceivedMlx : CcQueuePair × Timers :=
  let q := { q with mlx := { q.mlx with mAlphaCnpArrived := true, mDecreaseCnpArrived := true } }
  if q.mlx.mFirstCnp then
    let q := { q with mlx := { q.mlx with mAlpha := 1, mAlphaCnpArrived := false } }
    let (q, timers) := scheduleUpdateAlphaMlx i q timers
    let (q, timers) := scheduleDecreaseRateMlx i q timers
    let rate := q.mRate.mul cfg.mRateOnFirstCnp
    ({ q with mRate := rate, mlx := { q.mlx with mTargetRate := rate, mFirstCnp := false } }, timers)
  else (q, timers)

def scheduleRateIncEventTimerMlx : CcQueuePair × Timers :=
  let (id, timers) := timers.schedule (.rateIncEventTimerMlx, i)
  ({ q with mlx := { q.mlx with mRpTimer := some id } }, timers)

/-- The body of the `if` of `CheckRateDecreaseMlx` up to the timer. -/
def decreaseRateMlx : CcQueuePair :=
  let clamp := cfg.mEcnClampTgtRate || q.mlx.mRpTimeStage != 0
  { q with
    mRate := max cfg.mMinRate (q.mRate.mul (1 - q.mlx.mAlpha / 2))
    mlx := { q.mlx with
      mTargetRate := if clamp then q.mRate else q.mlx.mTargetRate
      mRpTimeStage := 0
      mDecreaseCnpArrived := false } }

def checkRateDecreaseMlx : CcQueuePair × Timers :=
  let (q, timers) := scheduleDecreaseRateMlx i q timers
  if q.mlx.mDecreaseCnpArrived then
    let q := decreaseRateMlx cfg q
    scheduleRateIncEventTimerMlx i q (timers.cancel q.mlx.mRpTimer)
  else (q, timers)

def fastRecoveryMlx : CcQueuePair := { q with mRate := q.mRate.div 2 + q.mlx.mTargetRate.div 2 }

/-- `ActiveIncreaseMlx` and `HyperIncreaseMlx` differ in the increment. -/
def increaseMlx (increment : DataRate) : CcQueuePair :=
  let target := q.mlx.mTargetRate + increment
  let target := if target > cfg.lineRate then cfg.lineRate else target
  { q with mRate := q.mRate.div 2 + target.div 2, mlx := { q.mlx with mTargetRate := target } }

def activeIncreaseMlx : CcQueuePair := increaseMlx cfg q cfg.mRai

def hyperIncreaseMlx : CcQueuePair := increaseMlx cfg q cfg.mRhai

def rateIncEventMlx : CcQueuePair :=
  if q.mlx.mRpTimeStage < cfg.mRpgThreshold then fastRecoveryMlx q
  else if q.mlx.mRpTimeStage = cfg.mRpgThreshold then activeIncreaseMlx cfg q
  else hyperIncreaseMlx cfg q

def rateIncEventTimerMlx : CcQueuePair × Timers :=
  let (q, timers) := scheduleRateIncEventTimerMlx i q timers
  let q := rateIncEventMlx cfg q
  ({ q with mlx := { q.mlx with mRpTimeStage := q.mlx.mRpTimeStage + 1 } }, timers)

/-- The call a pending event stands for. -/
def runTimer (kind : TimerKind) : CcQueuePair × Timers :=
  match kind with
  | .updateAlphaMlx => updateAlphaMlx cfg i q timers
  | .checkRateDecreaseMlx => checkRateDecreaseMlx cfg i q timers
  | .rateIncEventTimerMlx => rateIncEventTimerMlx cfg i q timers

/-- What `QpComplete` does to the queue pair and the timers. -/
def qpComplete : CcQueuePair × Timers :=
  ({ q with completed := true },
    if cfg.mCcMode = 1 then
      ((timers.cancel q.mlx.mEventUpdateAlpha).cancel q.mlx.mEventDecreaseRate).cancel q.mlx.mRpTimer
    else timers)

end CcQueuePair

end Lcmp
