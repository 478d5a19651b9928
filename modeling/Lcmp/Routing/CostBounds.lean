import Lcmp.Lib.Words
import Lcmp.Routing.Congestion

/-!
# Bounds and order of the path cost

The cost the loop over the next hops computes for one port, as a function of what the port looks like at
that moment. No step of it leaves its word, but for the duration counter at its last value, and the cost
grows with delay, queue, trend and counter and falls with bandwidth.
-/

namespace Lcmp

/-- What the cost of a port is computed from: delay (ns) and bandwidth (bps) of its link, the sampled
length of its queue, the trend after that sample, and the duration counter before it is updated. -/
structure PortSignals where
  delay : UInt64
  bw : UInt64
  queueBytes : UInt32
  trend : Int32
  durCounter : UInt32

namespace PortSignals

variable (w : CostWeights) (now : Int) (x : PortSignals)

def config : CostConfig where
  weights := w
  linkDelay := fun _ => x.delay
  linkBw := fun _ => x.bw

/-- The congestion state the loop finds right after the sample. -/
def state : CongestionState where
  queueBytesCur := x.queueBytes
  queueBytesPrev := x.queueBytes
  trend := x.trend
  durCounter := x.durCounter
  lastTrendSampleTime := now

def delayMs : UInt16 := (x.delay / 1000000).toUInt16

def rateGbps : UInt32 := (x.bw / 1000000000).toUInt32

def qLevel : UInt8 := calcQLevel (x.state now)

def trendLevel : UInt8 := calcTrendLevel now (x.state now) x.bw

def durationPenalty : UInt8 := calcDurationPenalty (stepDuration (x.state now))

def staticScore : UInt32 :=
  w.wDl * (calcDelayCost x.delayMs).toUInt32 + w.wBw * (calcBwCost x.bw).toUInt32

def congScore : UInt32 :=
  w.wQl * (x.qLevel now).toUInt32 + w.wTl * (x.trendLevel now).toUInt32 +
    w.wDp * (x.durationPenalty now).toUInt32

def cStatic : UInt32 := staticCost (x.config w) 0

def cCong : UInt32 := congCost (x.config w) now 0 (stepDuration (x.state now))

def totalScore : UInt32 := w.alpha * x.cStatic w + w.beta * x.cCong w now

def cCost : UInt32 := totalCost (x.config w) now 0 (stepDuration (x.state now))

end PortSignals

/-- The signals of a port that has just been sampled. -/
def signalsOf (cfg : CostConfig) (intf : UInt32) (s : CongestionState) : PortSignals where
  delay := cfg.linkDelay intf
  bw := cfg.linkBw intf
  queueBytes := s.queueBytesCur
  trend := s.trend
  durCounter := s.durCounter

/-- The weights do not let a score leave 32 bits. -/
structure CostWeights.Fits (w : CostWeights) : Prop where
  static : (w.wDl.toNat + w.wBw.toNat) * 255 < 2 ^ 32
  cong : (w.wQl.toNat + w.wTl.toNat + w.wDp.toNat) * 255 < 2 ^ 32
  total : (w.alpha.toNat + w.beta.toNat) * 255 < 2 ^ 32
  sStatic : w.sStatic.toNat < 32
  sCong : w.sCong.toNat < 32
  sTotal : w.sTotal.toNat < 32

/-- Links below 65536 ms and up to 10 Tb/s. -/
structure PortSignals.InRange (x : PortSignals) : Prop where
  delay : x.delay.toNat < 65536 * 1000000
  bw : x.bw.toNat ≤ 10000000000000

/-- The increment of the duration counter does not wrap. -/
def PortSignals.CounterFits (x : PortSignals) (now : Int) : Prop :=
  x.qLevel now ≥ 204 → x.durCounter.toNat + 1 < 2 ^ 32

/-- `x` is at least as good as `y` in every respect. -/
structure PortSignals.Better (x y : PortSignals) : Prop where
  delay : x.delay ≤ y.delay
  bw : y.bw ≤ x.bw
  queueBytes : x.queueBytes ≤ y.queueBytes
  trend : x.trend ≤ y.trend
  durCounter : x.durCounter ≤ y.durCounter

/-- Every step of the computation gives the exact number. -/
structure PortSignals.Exact (w : CostWeights) (now : Int) (x : PortSignals) : Prop where
  delayMs : x.delayMs.toNat = x.delay.toNat / 1000000
  delayCost : (calcDelayCost x.delayMs).toNat =
    if 32 < x.delayMs.toNat then 255 else x.delayMs.toNat * 255 / 32
  bwCost : ∀ i < kClassNum, (255 - levelScore i).toNat = 255 - (levelScore i).toNat
  staticScore : (x.staticScore w).toNat =
    w.wDl.toNat * (calcDelayCost x.delayMs).toNat + w.wBw.toNat * (calcBwCost x.bw).toNat
  cStatic : (x.cStatic w).toNat = min ((x.staticScore w).toNat / 2 ^ w.sStatic.toNat) 255
  rateGbps : x.rateGbps.toNat = x.bw.toNat / 1000000000
  trendThresh : ∀ i < kClassNum, (trendThresh x.rateGbps i).toNat =
    x.rateGbps.toNat * 1000000000 / 8 / 1000 * (i + 1) / kClassNum
  trendBound : ∀ i < kClassNum, (doubleToInt32 ((Lcmp.trendThresh x.rateGbps i).toNat * 1)).toInt =
    (Lcmp.trendThresh x.rateGbps i).toNat
  durCounter : (stepDuration (x.state now)).durCounter.toNat =
    if x.qLevel now ≥ 204 then x.durCounter.toNat + 1
    else if x.qLevel now ≤ 102 then x.durCounter.toNat - 1 else x.durCounter.toNat
  durationPenalty : (x.durationPenalty now).toNat =
    min ((stepDuration (x.state now)).durCounter.toNat / 4) 255
  congScore : (x.congScore w now).toNat = w.wQl.toNat * (x.qLevel now).toNat +
    w.wTl.toNat * (x.trendLevel now).toNat + w.wDp.toNat * (x.durationPenalty now).toNat
  cCong : (x.cCong w now).toNat = min ((x.congScore w now).toNat / 2 ^ w.sCong.toNat) 255
  totalScore : (x.totalScore w now).toNat =
    w.alpha.toNat * (x.cStatic w).toNat + w.beta.toNat * (x.cCong w now).toNat
  cCost : (x.cCost w now).toNat = min ((x.totalScore w now).toNat / 2 ^ w.sTotal.toNat) 255

/-! ### Words -/

theorem normalise_toNat {shift : UInt32} (hshift : shift.toNat < 32) (score : UInt32) :
    (normalise score shift).toNat = min (score.toNat / 2 ^ shift.toNat) 255 := by
  rw [normalise, Words.min32_toNat, UInt32.toNat_shiftRight, Nat.mod_eq_of_lt hshift,
    Nat.shiftRight_eq_div_pow]
  rfl

theorem normalise_le (score shift : UInt32) : (normalise score shift).toNat ≤ 255 := by
  rw [normalise, Words.min32_toNat]
  exact Nat.min_le_right _ _

private theorem mul_score_le (w : Nat) {score : Nat} (hscore : score ≤ 255) : w * score ≤ w * 255 :=
  Nat.mul_le_mul_left w hscore

/-- A weighted sum of two scores. -/
theorem weighted_toNat {w v x y : UInt32} (hx : x.toNat ≤ 255) (hy : y.toNat ≤ 255)
    (h : (w.toNat + v.toNat) * 255 < 2 ^ 32) :
    (w * x + v * y).toNat = w.toNat * x.toNat + v.toNat * y.toNat := by
  have hwx := mul_score_le w.toNat hx
  have hvy := mul_score_le v.toNat hy
  rw [Nat.add_mul] at h
  rw [UInt32.toNat_add, UInt32.toNat_mul, UInt32.toNat_mul, Nat.mod_eq_of_lt (by omega : w.toNat * x.toNat < _),
    Nat.mod_eq_of_lt (by omega : v.toNat * y.toNat < _), Nat.mod_eq_of_lt (by omega)]

/-- A weighted sum of three scores. -/
theorem weighted_toNat₃ {w v u x y z : UInt32} (hx : x.toNat ≤ 255) (hy : y.toNat ≤ 255)
    (hz : z.toNat ≤ 255) (h : (w.toNat + v.toNat + u.toNat) * 255 < 2 ^ 32) :
    (w * x + v * y + u * z).toNat = w.toNat * x.toNat + v.toNat * y.toNat + u.toNat * z.toNat := by
  have hpair : (w.toNat + v.toNat) * 255 < 2 ^ 32 :=
    Nat.lt_of_le_of_lt (Nat.mul_le_mul_right 255 (Nat.le_add_right _ _)) h
  have hsum := weighted_toNat hx hy hpair
  have hwx := mul_score_le w.toNat hx
  have hvy := mul_score_le v.toNat hy
  have huz := mul_score_le u.toNat hz
  rw [Nat.add_mul, Nat.add_mul] at h
  rw [UInt32.toNat_add, UInt32.toNat_mul, hsum, Nat.mod_eq_of_lt (by omega : u.toNat * z.toNat < _),
    Nat.mod_eq_of_lt (by omega)]

theorem toUInt32_toNat_le (x : UInt8) : x.toUInt32.toNat ≤ 255 := by
  rw [UInt8.toNat_toUInt32]
  exact Nat.le_of_lt_succ x.toNat_lt

/-! ### The scores of a port -/

section Scores

variable {w : CostWeights} {now : Int} {x y : PortSignals}

theorem levelScore_toNat {i : Nat} (hi : i < kClassNum) :
    (levelScore i).toNat = 255 * (i + 1) / kClassNum := by
  rw [kClassNum] at hi
  rw [levelScore, UInt8.toNat_ofNat', kClassNum]
  omega

theorem complement_toNat (score : UInt8) : (255 - score).toNat = 255 - score.toNat := by
  have hlt := score.toNat_lt
  rw [UInt8.toNat_sub]
  change (2 ^ 8 - score.toNat + 255) % 2 ^ 8 = _
  omega

theorem highestClass_lt {reached : Nat → Bool} {n i : Nat} (h : highestClass reached n = some i) : i < n := by
  induction n with
  | zero => exact absurd h (by simp [highestClass])
  | succ n ih =>
      rw [highestClass] at h
      split at h
      · rw [← Option.some.inj h]
        exact Nat.lt_succ_self n
      · exact Nat.lt_succ_of_lt (ih h)

/-- Where every class reached by one is reached by the other, the other's highest class is no lower. -/
theorem highestClass_mono {reached reached' : Nat → Bool} {n i : Nat}
    (hsub : ∀ i < n, reached i = true → reached' i = true) (h : highestClass reached n = some i) :
    ∃ j, i ≤ j ∧ highestClass reached' n = some j := by
  induction n with
  | zero => exact absurd h (by simp [highestClass])
  | succ n ih =>
      have hbelow := highestClass_lt h
      rw [highestClass] at h ⊢
      by_cases htop : reached' n = true
      · rw [if_pos htop]
        exact ⟨n, Nat.le_of_lt_succ hbelow, rfl⟩
      · have hnot : ¬ reached n = true := fun hreached => htop (hsub n (Nat.lt_succ_self n) hreached)
        rw [if_neg hnot] at h
        rw [if_neg htop]
        exact ih (fun i hi => hsub i (Nat.lt_succ_of_lt hi)) h

theorem levelScore_mono {i j : Nat} (hij : i ≤ j) (hj : j < kClassNum) :
    (levelScore i).toNat ≤ (levelScore j).toNat := by
  rw [levelScore_toNat hj, levelScore_toNat (Nat.lt_of_le_of_lt hij hj)]
  exact Nat.div_le_div_right (Nat.mul_le_mul_left 255 (Nat.succ_le_succ hij))

/-- The score of the highest class reached, or 0. -/
theorem scoreOf_mono {reached reached' : Nat → Bool}
    (hsub : ∀ i < kClassNum, reached i = true → reached' i = true) :
    (match highestClass reached kClassNum with | some i => levelScore i | none => 0).toNat ≤
      (match highestClass reached' kClassNum with | some i => levelScore i | none => 0).toNat := by
  cases h : highestClass reached kClassNum with
  | none => exact Nat.zero_le _
  | some i =>
      obtain ⟨j, hij, hj⟩ := highestClass_mono hsub h
      rw [hj]
      exact levelScore_mono hij (highestClass_lt hj)

theorem delayMs_toNat (hx : x.InRange) : x.delayMs.toNat = x.delay.toNat / 1000000 := by
  have hdelay := hx.delay
  rw [PortSignals.delayMs, UInt64.toNat_toUInt16, UInt64.toNat_div]
  change x.delay.toNat / 1000000 % 65536 = _
  omega

theorem calcDelayCost_toNat (ms : UInt16) :
    (calcDelayCost ms).toNat = if 32 < ms.toNat then 255 else ms.toNat * 255 / 32 := by
  have hcmp : ms.toUInt32 > 1 <<< maxDelayShift ↔ 32 < ms.toNat := by
    rw [gt_iff_lt, UInt32.lt_iff_toNat_lt, UInt16.toNat_toUInt32]
    rfl
  rw [calcDelayCost]
  by_cases hlong : 32 < ms.toNat
  · rw [if_pos hlong, if_pos (hcmp.mpr hlong)]
    rfl
  · rw [if_neg hlong, if_neg (fun h => hlong (hcmp.mp h)), UInt32.toNat_toUInt8,
      UInt32.toNat_shiftRight, UInt32.toNat_mul, UInt16.toNat_toUInt32]
    change (ms.toNat * 255 % 2 ^ 32) >>> 5 % 2 ^ 8 = _
    rw [Nat.shiftRight_eq_div_pow, Nat.mod_eq_of_lt (by omega : ms.toNat * 255 < 2 ^ 32)]
    omega

theorem calcDelayCost_mono {ms ms' : UInt16} (h : ms.toNat ≤ ms'.toNat) :
    (calcDelayCost ms).toNat ≤ (calcDelayCost ms').toNat := by
  rw [calcDelayCost_toNat, calcDelayCost_toNat]
  split
  · rw [if_pos (by omega)]
  · split
    · omega
    · exact Nat.div_le_div_right (Nat.mul_le_mul_right 255 h)

theorem calcBwCost_anti {bw bw' : UInt64} (h : bw ≤ bw') :
    (calcBwCost bw').toNat ≤ (calcBwCost bw).toNat := by
  have hdiv : bw / 1000000000 ≤ bw' / 1000000000 := by
    rw [UInt64.le_iff_toNat_le] at h ⊢
    rw [UInt64.toNat_div, UInt64.toNat_div]
    exact Nat.div_le_div_right h
  rw [calcBwCost, calcBwCost]
  cases hclass : highestClass (fun i => bw / 1000000000 ≥ bwThresh i) kClassNum with
  | none => exact Nat.le_of_lt_succ (UInt8.toNat_lt _)
  | some i =>
      obtain ⟨j, hij, hj⟩ := highestClass_mono
        (fun i _ hi => decide_eq_true (UInt64.le_trans (of_decide_eq_true hi) hdiv :
          bw' / 1000000000 ≥ bwThresh i)) hclass
      rw [hj]
      have hscore := levelScore_mono hij (highestClass_lt hj)
      dsimp only
      rw [complement_toNat, complement_toNat]
      exact Nat.sub_le_sub_left hscore 255

theorem calcQLevel_mono {s s' : CongestionState} (h : s.queueBytesCur ≤ s'.queueBytesCur) :
    (calcQLevel s).toNat ≤ (calcQLevel s').toNat := by
  rw [calcQLevel]
  split
  · exact Nat.zero_le _
  · rename_i hpos
    rw [calcQLevel, if_neg fun hle => hpos (UInt32.le_trans h hle)]
    exact scoreOf_mono fun i _ hi => decide_eq_true (UInt32.le_trans (of_decide_eq_true hi) h)

theorem rateGbps_toNat (hx : x.InRange) : x.rateGbps.toNat = x.bw.toNat / 1000000000 := by
  have hbw := hx.bw
  rw [PortSignals.rateGbps, UInt64.toNat_toUInt32, UInt64.toNat_div]
  change x.bw.toNat / 1000000000 % 2 ^ 32 = _
  omega

theorem rateGbps_le (hx : x.InRange) : x.rateGbps.toNat ≤ 10000 := by
  have hbw := hx.bw
  rw [rateGbps_toNat hx]
  omega

theorem trendThresh_toNat {rate : UInt32} (hrate : rate.toNat ≤ 10000) {i : Nat} (hi : i < kClassNum) :
    (trendThresh rate i).toNat = rate.toNat * 1000000000 / 8 / 1000 * (i + 1) / kClassNum := by
  rw [kClassNum] at hi
  have hbytes : rate.toNat * 1000000000 / 8 / 1000 * (i + 1) ≤ 1250000000 * 10 :=
    Nat.mul_le_mul (by omega) hi
  simp only [trendThresh, UInt64.toNat_toUInt32, UInt64.toNat_div, UInt64.toNat_mul,
    UInt32.toNat_toUInt64, UInt64.toNat_add, UInt64.toNat_ofNat', kClassNum]
  change rate.toNat * 1000000000 % 2 ^ 64 / 8 / 1000 * ((i % 2 ^ 64 + 1) % 2 ^ 64) % 2 ^ 64 /
    10 % 2 ^ 32 = _
  rw [Nat.mod_eq_of_lt (by omega : rate.toNat * 1000000000 < 2 ^ 64),
    (by omega : (i % 2 ^ 64 + 1) % 2 ^ 64 = i + 1),
    Nat.mod_eq_of_lt (Nat.lt_of_le_of_lt hbytes (by decide) :
      rate.toNat * 1000000000 / 8 / 1000 * (i + 1) < 2 ^ 64)]
  refine Nat.mod_eq_of_lt (Nat.lt_of_le_of_lt (Nat.div_le_div_right hbytes) (by decide))

theorem trendThresh_le {rate : UInt32} (hrate : rate.toNat ≤ 10000) {i : Nat} (hi : i < kClassNum) :
    (trendThresh rate i).toNat ≤ 1250000000 := by
  rw [trendThresh_toNat hrate hi]
  rw [kClassNum] at hi ⊢
  have hbytes : rate.toNat * 1000000000 / 8 / 1000 * (i + 1) ≤ 1250000000 * 10 :=
    Nat.mul_le_mul (by omega) hi
  omega

theorem trendThresh_mono {rate rate' : UInt32} (hrate : rate.toNat ≤ rate'.toNat)
    (hrate' : rate'.toNat ≤ 10000) {i : Nat} (hi : i < kClassNum) :
    (trendThresh rate i).toNat ≤ (trendThresh rate' i).toNat := by
  rw [trendThresh_toNat hrate' hi, trendThresh_toNat (Nat.le_trans hrate hrate') hi]
  refine Nat.div_le_div_right (Nat.mul_le_mul_right (i + 1) ?_)
  omega

theorem doubleToInt32_toInt {x : Int} (hlow : -2 ^ 31 ≤ x) (hhigh : x < 2 ^ 31) :
    (doubleToInt32 x).toInt = x := by
  rw [doubleToInt32, if_pos ⟨hlow, hhigh⟩]
  exact Int32.toInt_ofInt_of_le hlow hhigh

/-- The bound a trend is compared with right after a sample. -/
theorem trendBound_toInt {rate : UInt32} (hrate : rate.toNat ≤ 10000) {i : Nat} (hi : i < kClassNum) :
    (doubleToInt32 ((trendThresh rate i).toNat * 1)).toInt = (trendThresh rate i).toNat := by
  have hle := trendThresh_le hrate hi
  rw [Int.mul_one]
  exact doubleToInt32_toInt (by omega) (by omega)

theorem calcTrendLevel_now (now : Int) (s : CongestionState) (hnow : s.lastTrendSampleTime = now)
    (bw : UInt64) :
    calcTrendLevel now s bw = if s.trend ≤ 0 then 0
      else match highestClass
          (fun i => s.trend ≥ doubleToInt32 ((trendThresh (bw / 1000000000).toUInt32 i).toNat * 1))
          kClassNum with
        | some i => levelScore i
        | none => 0 := by
  rw [calcTrendLevel, hnow, Int.sub_self]
  rfl

theorem trendLevel_mono (now : Int) (hx : x.InRange) (hy : y.InRange) (hbw : y.bw ≤ x.bw) (htrend : x.trend ≤ y.trend) :
    (x.trendLevel now).toNat ≤ (y.trendLevel now).toNat := by
  have hrate : y.rateGbps.toNat ≤ x.rateGbps.toNat := by
    rw [rateGbps_toNat hx, rateGbps_toNat hy]
    exact Nat.div_le_div_right (UInt64.le_iff_toNat_le.mp hbw)
  rw [PortSignals.trendLevel, PortSignals.trendLevel, calcTrendLevel_now now (x.state now) rfl,
    calcTrendLevel_now now (y.state now) rfl]
  change (if x.trend ≤ 0 then 0 else _ : UInt8).toNat ≤ (if y.trend ≤ 0 then 0 else _ : UInt8).toNat
  by_cases hpos : x.trend ≤ 0
  · rw [if_pos hpos]
    exact Nat.zero_le _
  · rw [if_neg hpos, if_neg fun hle => hpos (Int32.le_trans htrend hle)]
    refine scoreOf_mono fun i hi hreached => decide_eq_true ?_
    have hbound := Int32.le_iff_toInt_le.mp (of_decide_eq_true hreached)
    have hmono := trendThresh_mono hrate (rateGbps_le hx) hi
    refine Int32.le_iff_toInt_le.mpr ?_
    calc _ = ((trendThresh y.rateGbps i).toNat : Int) := trendBound_toInt (rateGbps_le hy) hi
      _ ≤ (trendThresh x.rateGbps i).toNat := Int.ofNat_le.mpr hmono
      _ = _ := (trendBound_toInt (rateGbps_le hx) hi).symm
      _ ≤ x.trend.toInt := hbound
      _ ≤ y.trend.toInt := Int32.le_iff_toInt_le.mp htrend

/-! The duration counter. -/

theorem stepDuration_durCounter (s : CongestionState) :
    (stepDuration s).durCounter = nextDurCounter (calcQLevel s) s.durCounter := by
  rw [stepDuration, updateDurationPenalty_eq]

theorem nextDurCounter_toNat {level : UInt8} {counter : UInt32}
    (hfits : level ≥ 204 → counter.toNat + 1 < 2 ^ 32) :
    (nextDurCounter level counter).toNat = if level ≥ 204 then counter.toNat + 1
      else if level ≤ 102 then counter.toNat - 1 else counter.toNat := by
  rw [nextDurCounter]
  by_cases hhigh : level ≥ 204
  · rw [if_pos hhigh, if_pos hhigh, UInt32.toNat_add]
    exact Nat.mod_eq_of_lt (hfits hhigh)
  · rw [if_neg hhigh, if_neg hhigh]
    by_cases hlow : level ≤ 102
    · rw [if_pos hlow, if_pos hlow]
      by_cases hpos : counter > 0
      · have hone : (1 : UInt32) ≤ counter := by
          rw [gt_iff_lt, UInt32.lt_iff_toNat_lt] at hpos
          rw [UInt32.le_iff_toNat_le]
          exact hpos
        rw [if_pos hpos, UInt32.toNat_sub_of_le _ _ hone]
        rfl
      · have hzero : counter.toNat ≤ 0 := UInt32.le_iff_toNat_le.mp (UInt32.not_lt.mp hpos)
        rw [if_neg hpos]
        change 0 = _
        omega
    · rw [if_neg hlow, if_neg hlow]

/-- The counter does not overtake one that starts no lower and sees a level no lower. -/
theorem nextDurCounter_mono {level level' : UInt8} {counter counter' : UInt32} (hlevel : level ≤ level')
    (hcounter : counter.toNat ≤ counter'.toNat) (hfits : level' ≥ 204 → counter'.toNat + 1 < 2 ^ 32) :
    (nextDurCounter level counter).toNat ≤ (nextDurCounter level' counter').toNat := by
  have hfits' : level ≥ 204 → counter.toNat + 1 < 2 ^ 32 := fun h =>
    Nat.lt_of_le_of_lt (Nat.succ_le_succ hcounter) (hfits (UInt8.le_trans h hlevel))
  rw [nextDurCounter_toNat hfits, nextDurCounter_toNat hfits']
  by_cases hhigh : level ≥ 204
  · rw [if_pos hhigh, if_pos (UInt8.le_trans hhigh hlevel)]
    omega
  · rw [if_neg hhigh]
    by_cases hlow : level ≤ 102
    · rw [if_pos hlow]
      split
      · omega
      · split <;> omega
    · rw [if_neg hlow]
      split
      · omega
      · rw [if_neg fun h => hlow (UInt8.le_trans hlevel h)]
        exact hcounter

theorem calcDurationPenalty_toNat (s : CongestionState) :
    (calcDurationPenalty s).toNat = min (s.durCounter.toNat / 4) 255 := by
  have hmin : (min (s.durCounter >>> 2) 255).toNat = min (s.durCounter.toNat / 4) 255 := by
    rw [Words.min32_toNat, UInt32.toNat_shiftRight, Nat.shiftRight_eq_div_pow]
    rfl
  rw [calcDurationPenalty, UInt32.toNat_toUInt8, hmin]
  omega

theorem PortSignals.Better.qLevel (h : x.Better y) (now : Int) : x.qLevel now ≤ y.qLevel now :=
  UInt8.le_iff_toNat_le.mpr (calcQLevel_mono h.queueBytes)

theorem PortSignals.Better.counterFits (h : x.Better y) (hfits : y.CounterFits now) :
    x.CounterFits now := fun hhigh =>
  Nat.lt_of_le_of_lt (Nat.succ_le_succ (UInt32.le_iff_toNat_le.mp h.durCounter))
    (hfits (UInt8.le_trans hhigh (h.qLevel now)))

theorem durationPenalty_mono (h : x.Better y) (hfits : y.CounterFits now) :
    (x.durationPenalty now).toNat ≤ (y.durationPenalty now).toNat := by
  have hcounter := nextDurCounter_mono (h.qLevel now) (UInt32.le_iff_toNat_le.mp h.durCounter) hfits
  rw [PortSignals.durationPenalty, PortSignals.durationPenalty, calcDurationPenalty_toNat,
    calcDurationPenalty_toNat, stepDuration_durCounter, stepDuration_durCounter]
  exact min_le_min_right 255 (Nat.div_le_div_right hcounter)

/-! ### The cost -/

theorem staticScore_toNat (hw : w.Fits) (x : PortSignals) : (x.staticScore w).toNat =
    w.wDl.toNat * (calcDelayCost x.delayMs).toNat + w.wBw.toNat * (calcBwCost x.bw).toNat := by
  rw [PortSignals.staticScore, weighted_toNat (toUInt32_toNat_le _) (toUInt32_toNat_le _) hw.static,
    UInt8.toNat_toUInt32, UInt8.toNat_toUInt32]

theorem congScore_toNat (hw : w.Fits) (now : Int) (x : PortSignals) : (x.congScore w now).toNat =
    w.wQl.toNat * (x.qLevel now).toNat + w.wTl.toNat * (x.trendLevel now).toNat +
      w.wDp.toNat * (x.durationPenalty now).toNat := by
  rw [PortSignals.congScore, weighted_toNat₃ (toUInt32_toNat_le _) (toUInt32_toNat_le _)
    (toUInt32_toNat_le _) hw.cong, UInt8.toNat_toUInt32, UInt8.toNat_toUInt32, UInt8.toNat_toUInt32]

theorem totalScore_toNat (hw : w.Fits) (now : Int) (x : PortSignals) : (x.totalScore w now).toNat =
    w.alpha.toNat * (x.cStatic w).toNat + w.beta.toNat * (x.cCong w now).toNat :=
  weighted_toNat (normalise_le _ _) (normalise_le _ _) hw.total

/-- The three scores are the clamped quotients of the three sums. -/
theorem cStatic_toNat (hw : w.Fits) (x : PortSignals) :
    (x.cStatic w).toNat = min ((x.staticScore w).toNat / 2 ^ w.sStatic.toNat) 255 :=
  normalise_toNat hw.sStatic _

theorem qLevel_stepDuration (s : CongestionState) : calcQLevel (stepDuration s) = calcQLevel s :=
  calcQLevel_congr (by rw [stepDuration, updateDurationPenalty_eq])

theorem trendLevel_stepDuration (now : Int) (s : CongestionState) (bw : UInt64) :
    calcTrendLevel now (stepDuration s) bw = calcTrendLevel now s bw := by
  rw [stepDuration, updateDurationPenalty_eq]
  rfl

theorem cCong_toNat (hw : w.Fits) (now : Int) (x : PortSignals) :
    (x.cCong w now).toNat = min ((x.congScore w now).toNat / 2 ^ w.sCong.toNat) 255 := by
  rw [PortSignals.cCong, congCost, qLevel_stepDuration, trendLevel_stepDuration]
  exact normalise_toNat hw.sCong _

theorem cCost_toNat (hw : w.Fits) (now : Int) (x : PortSignals) :
    (x.cCost w now).toNat = min ((x.totalScore w now).toNat / 2 ^ w.sTotal.toNat) 255 :=
  normalise_toNat hw.sTotal _

theorem PortSignals.InRange.exact (hx : x.InRange) (hw : w.Fits) (hfits : x.CounterFits now) :
    x.Exact w now where
  delayMs := delayMs_toNat hx
  delayCost := calcDelayCost_toNat x.delayMs
  bwCost := fun i _ => complement_toNat (levelScore i)
  staticScore := staticScore_toNat hw x
  cStatic := cStatic_toNat hw x
  rateGbps := rateGbps_toNat hx
  trendThresh := fun _ hi => trendThresh_toNat (rateGbps_le hx) hi
  trendBound := fun _ hi => trendBound_toInt (rateGbps_le hx) hi
  durCounter := by
    rw [stepDuration_durCounter]
    exact nextDurCounter_toNat hfits
  durationPenalty := calcDurationPenalty_toNat _
  congScore := congScore_toNat hw now x
  cCong := cCong_toNat hw now x
  totalScore := totalScore_toNat hw now x
  cCost := cCost_toNat hw now x

/-- A larger sum gives a score at least as large. -/
private theorem clamp_mono {m n k : Nat} (h : m ≤ n) : min (m / 2 ^ k) 255 ≤ min (n / 2 ^ k) 255 :=
  min_le_min_right 255 (Nat.div_le_div_right h)

theorem cStatic_mono (hw : w.Fits) (hx : x.InRange) (hy : y.InRange) (h : x.Better y) :
    (x.cStatic w).toNat ≤ (y.cStatic w).toNat := by
  have hdelay : x.delayMs.toNat ≤ y.delayMs.toNat := by
    rw [delayMs_toNat hx, delayMs_toNat hy]
    exact Nat.div_le_div_right (UInt64.le_iff_toNat_le.mp h.delay)
  rw [cStatic_toNat hw, cStatic_toNat hw, staticScore_toNat hw, staticScore_toNat hw]
  exact clamp_mono (Nat.add_le_add (Nat.mul_le_mul_left _ (calcDelayCost_mono hdelay))
    (Nat.mul_le_mul_left _ (calcBwCost_anti h.bw)))

theorem cCong_mono (hw : w.Fits) (hx : x.InRange) (hy : y.InRange) (h : x.Better y)
    (hfits : y.CounterFits now) : (x.cCong w now).toNat ≤ (y.cCong w now).toNat := by
  have hlevel := UInt8.le_iff_toNat_le.mp (h.qLevel now)
  have htrend := trendLevel_mono now hx hy h.bw h.trend
  have hduration := durationPenalty_mono h hfits
  rw [cCong_toNat hw, cCong_toNat hw, congScore_toNat hw, congScore_toNat hw]
  exact clamp_mono (Nat.add_le_add (Nat.add_le_add (Nat.mul_le_mul_left _ hlevel)
    (Nat.mul_le_mul_left _ htrend)) (Nat.mul_le_mul_left _ hduration))

end Scores

/-- The cost the loop computes for a port that its sampling round reaches. -/
theorem evalCandidate_cost (cfg : CostConfig) (env : SwitchEnv) (cong : UInt32 → CongestionState)
    {intf : UInt32} (hmonitored : Monitored env intf) :
    (evalCandidate cfg env cong intf).2 =
      (signalsOf cfg intf (sampleAt env intf (cong intf))).cCost cfg.weights env.now := by
  obtain ⟨hrange, hdevice⟩ := hmonitored
  obtain ⟨qlen, hqlen⟩ := Option.ne_none_iff_exists'.mp hdevice
  rw [evalCandidate_eq, sampleAt, if_pos hrange, sampleDevice, hqlen]
  rfl

/-- A port that is at least as good in every respect costs no more, and no step of either computation
leaves its word, unless the worse port's counter wraps. -/
theorem cCost_monotone_bounded {w : CostWeights} (hw : w.Fits) (now : Int) {x y : PortSignals}
    (hx : x.InRange) (hy : y.InRange) (h : x.Better y) (hfits : y.CounterFits now) :
    x.cCost w now ≤ y.cCost w now ∧
      ∀ z, z = x ∨ z = y → z.Exact w now ∧ (z.cStatic w).toNat ≤ 255 ∧ (z.cCong w now).toNat ≤ 255 ∧
        (z.cCost w now).toNat ≤ 255 := by
  refine ⟨UInt32.le_iff_toNat_le.mpr ?_, fun z hz => ?_⟩
  · rw [cCost_toNat hw, cCost_toNat hw, totalScore_toNat hw, totalScore_toNat hw]
    exact clamp_mono (Nat.add_le_add (Nat.mul_le_mul_left _ (cStatic_mono hw hx hy h))
      (Nat.mul_le_mul_left _ (cCong_mono hw hx hy h hfits)))
  · have hexact : z.Exact w now := by
      rcases hz with rfl | rfl
      · exact hx.exact hw (h.counterFits hfits)
      · exact hy.exact hw hfits
    exact ⟨hexact, normalise_le _ _, normalise_le _ _, normalise_le _ _⟩

theorem defaultWeights_fits : ({} : CostWeights).Fits := by
  constructor <;> decide

/-- A 100 Gb/s port with 50 ms of delay, once idle and once with a queue. -/
def idlePort : PortSignals := ⟨50000000, 100000000000, 0, 0, 0⟩

def queuedPort (durCounter : UInt32) : PortSignals := ⟨50000000, 100000000000, 300000000, 20000000, durCounter⟩

theorem cCost_monotone_queued : idlePort.cCost {} 7 ≤ (queuedPort 3).cCost {} 7 :=
  (cCost_monotone_bounded defaultWeights_fits 7 (x := idlePort) (y := queuedPort 3)
    ⟨by decide, by decide⟩ ⟨by decide, by decide⟩
    ⟨by decide, by decide, by decide, by decide, by decide⟩ fun _ => by decide).1

/-- The counter at its last value wraps to 0, and the port becomes cheaper. -/
theorem not_cCost_monotone :
    ¬ ∀ (w : CostWeights) (now : Int) (x y : PortSignals), w.Fits → x.InRange → y.InRange →
      x.Better y → x.cCost w now ≤ y.cCost w now := by
  intro h
  have hcost := h {} 7 (queuedPort 4294967294) (queuedPort 4294967295) defaultWeights_fits
    ⟨by decide, by decide⟩ ⟨by decide, by decide⟩
    ⟨by decide, by decide, by decide, by decide, by decide⟩
  exact absurd hcost (by decide +kernel)

end Lcmp
