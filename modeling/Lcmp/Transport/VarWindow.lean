import Lcmp.Lib.WrappedQuotient
import Lcmp.Transport.QueuePair

/-!
# The variable window

`GetWin` and `HpGetCurWin` scale the window with a rate: the product of a 32-bit window and a bit rate
is formed in 64 bits and then divided by the full rate. The window is the exact quotient as long as
the product fits.
-/

namespace Lcmp

namespace RdmaQueuePair

/-- The window at a rate. -/
def winAtRate (qp : RdmaQueuePair) (rate : UInt64) : UInt64 :=
  if qp.mWin = 0 then 0
  else if qp.mVarWin then
    let w := qp.mWin.toUInt64 * rate / qp.mMaxRate
    if w = 0 then 1 else w
  else qp.mWin.toUInt64

/-- `HpGetCurWin`, for the value of `hp.m_curRate`. -/
def hpGetCurWin (qp : RdmaQueuePair) (curRate : UInt64) : UInt64 := qp.winAtRate curRate

/-- The window over the integers. -/
def exactWin (qp : RdmaQueuePair) (rate : UInt64) : Nat :=
  max 1 (qp.mWin.toNat * rate.toNat / qp.mMaxRate.toNat)

/-- The product fits in 64 bits, or is so small beside the full rate that the window is one byte
anyway. -/
def ProductFits (qp : RdmaQueuePair) (rate : UInt64) : Prop :=
  qp.mWin.toNat * rate.toNat < 2 ^ 64 ∨ qp.mWin.toNat * rate.toNat < 2 * qp.mMaxRate.toNat

variable {qp : RdmaQueuePair} {rate : UInt64}

/-- The window as the code computes it, in numbers. -/
theorem winAtRate_toNat (hvar : qp.mVarWin = true) (hwin : qp.mWin ≠ 0) :
    (qp.winAtRate rate).toNat = max 1 (qp.mWin.toNat * rate.toNat % 2 ^ 64 / qp.mMaxRate.toNat) := by
  have hquot : (qp.mWin.toUInt64 * rate / qp.mMaxRate).toNat =
      qp.mWin.toNat * rate.toNat % 2 ^ 64 / qp.mMaxRate.toNat := by
    rw [UInt64.toNat_div, UInt64.toNat_mul, UInt32.toNat_toUInt64]
  simp only [winAtRate, if_neg hwin, hvar, if_true]
  rw [← hquot]
  split
  · rename_i hzero
    rw [hzero]
    rfl
  · rename_i hzero
    have hpos : (qp.mWin.toUInt64 * rate / qp.mMaxRate).toNat ≠ 0 := fun h => hzero (UInt64.toNat_inj.mp h)
    omega

theorem winAtRate_exact_iff (hvar : qp.mVarWin = true) (hwin : qp.mWin ≠ 0) (hmax : 0 < qp.mMaxRate) :
    (qp.winAtRate rate).toNat = qp.exactWin rate ↔ qp.ProductFits rate := by
  have hpos : 0 < qp.mMaxRate.toNat := UInt64.lt_iff_toNat_lt.mp hmax
  have hlt := qp.mMaxRate.toNat_lt
  rw [winAtRate_toNat hvar hwin]
  simp only [exactWin, ProductFits]
  by_cases hfits : qp.mWin.toNat * rate.toNat < 2 ^ 64
  · rw [Nat.mod_eq_of_lt hfits]
    exact iff_of_true rfl (.inl hfits)
  · have hwrapped := WrappedQuotient.wrapped_div_lt hpos hlt.le (not_lt.mp hfits)
    have hsmall : qp.mWin.toNat * rate.toNat / qp.mMaxRate.toNat < 2 ↔
        qp.mWin.toNat * rate.toNat < 2 * qp.mMaxRate.toNat := Nat.div_lt_iff_lt_mul hpos
    rw [← hsmall]
    omega

theorem exactWin_le (hwin : qp.mWin ≠ 0) (hmax : 0 < qp.mMaxRate) (hrate : rate ≤ qp.mMaxRate) :
    qp.exactWin rate ≤ qp.mWin.toNat := by
  have hpos : 0 < qp.mMaxRate.toNat := UInt64.lt_iff_toNat_lt.mp hmax
  have hone : 1 ≤ qp.mWin.toNat := Nat.one_le_iff_ne_zero.mpr fun h => hwin (UInt32.toNat_inj.mp h)
  apply max_le hone
  rw [UInt64.le_iff_toNat_le] at hrate
  calc qp.mWin.toNat * rate.toNat / qp.mMaxRate.toNat
      ≤ qp.mWin.toNat * qp.mMaxRate.toNat / qp.mMaxRate.toNat :=
        Nat.div_le_div_right (Nat.mul_le_mul_left _ hrate)
    _ = qp.mWin.toNat := Nat.mul_div_cancel _ hpos

theorem exactWin_full (hwin : qp.mWin ≠ 0) (hmax : 0 < qp.mMaxRate) :
    qp.exactWin qp.mMaxRate = qp.mWin.toNat := by
  have hpos : 0 < qp.mMaxRate.toNat := UInt64.lt_iff_toNat_lt.mp hmax
  have hone : 1 ≤ qp.mWin.toNat := Nat.one_le_iff_ne_zero.mpr fun h => hwin (UInt32.toNat_inj.mp h)
  rw [exactWin, Nat.mul_div_cancel _ hpos, max_eq_right hone]

theorem exactWin_mono {low high : UInt64} (h : low ≤ high) : qp.exactWin low ≤ qp.exactWin high := by
  rw [UInt64.le_iff_toNat_le] at h
  exact max_le_max le_rfl (Nat.div_le_div_right (Nat.mul_le_mul_left _ h))

theorem ProductFits.of_le {low high : UInt64} (h : qp.ProductFits high) (hle : low ≤ high) :
    qp.ProductFits low := by
  have hmul : qp.mWin.toNat * low.toNat ≤ qp.mWin.toNat * high.toNat :=
    Nat.mul_le_mul_left _ (UInt64.le_iff_toNat_le.mp hle)
  simp only [ProductFits] at h ⊢
  omega

/-- What the window at a rate must satisfy. -/
structure WindowExact (qp : RdmaQueuePair) (window : UInt64) (rate : UInt64) : Prop where
  value : window.toNat = qp.exactWin rate
  pos : 1 ≤ window.toNat
  le_win : window.toNat ≤ qp.mWin.toNat
  full : rate = qp.mMaxRate → window.toNat = qp.mWin.toNat

theorem windowExact_iff (hvar : qp.mVarWin = true) (hwin : qp.mWin ≠ 0) (hmax : 0 < qp.mMaxRate)
    (hrate : rate ≤ qp.mMaxRate) : WindowExact qp (qp.winAtRate rate) rate ↔ qp.ProductFits rate := by
  constructor
  · intro h
    exact (winAtRate_exact_iff hvar hwin hmax).mp h.value
  · intro hfits
    have hvalue := (winAtRate_exact_iff hvar hwin hmax).mpr hfits
    refine ⟨hvalue, ?_, ?_, ?_⟩
    · rw [hvalue]
      exact le_max_left _ _
    · rw [hvalue]
      exact exactWin_le hwin hmax hrate
    · intro hfull
      rw [hvalue, hfull, exactWin_full hwin hmax]

/-- The variable window is exact, between one byte and `m_win` and equal to it at full rate, exactly
when the product fits; and it grows with the rate as long as the product at the higher rate fits. -/
theorem getWin_exact_iff (hvar : qp.mVarWin = true) (hwin : qp.mWin ≠ 0) (hmax : 0 < qp.mMaxRate)
    (hrate : qp.mRate ≤ qp.mMaxRate) {curRate : UInt64} (hcur : curRate ≤ qp.mMaxRate) :
    (WindowExact qp qp.getWin qp.mRate ↔ qp.ProductFits qp.mRate) ∧
    (WindowExact qp (qp.hpGetCurWin curRate) curRate ↔ qp.ProductFits curRate) ∧
    (∀ low high, low ≤ high → qp.ProductFits high →
      ({ qp with mRate := low }.getWin ≤ { qp with mRate := high }.getWin) ∧
      qp.hpGetCurWin low ≤ qp.hpGetCurWin high) := by
  refine ⟨windowExact_iff hvar hwin hmax hrate, windowExact_iff hvar hwin hmax hcur, ?_⟩
  intro low high hle hhigh
  have hlow := hhigh.of_le hle
  have hmono : qp.winAtRate low ≤ qp.winAtRate high := by
    rw [UInt64.le_iff_toNat_le, (winAtRate_exact_iff hvar hwin hmax).mpr hlow,
      (winAtRate_exact_iff hvar hwin hmax).mpr hhigh]
    exact exactWin_mono hle
  exact ⟨hmono, hmono⟩

/-- A queue pair at full rate on a link of 100 Gb/s with the given window. -/
def fullRateQp (win : UInt32) : RdmaQueuePair where
  mSize := 1000000
  sndNxt := 0
  sndUna := 0
  mWin := win
  mVarWin := true
  mRate := 100000000000
  mMaxRate := 100000000000
  mPg := 3
  mNextAvail := 0
  lastPktSize := 0

/-- A window of 100 kB, the product of 100 Gb/s and 8 microseconds. -/
theorem getWin_exact_short_rtt :
    WindowExact (fullRateQp 100000) (fullRateQp 100000).getWin (fullRateQp 100000).mRate :=
  (@getWin_exact_iff (fullRateQp 100000) rfl (by decide) (by decide) (by decide) 0 (by decide)).1.mpr
    (.inl (by decide))

/-- A window of 375 MB, the product of 100 Gb/s and 30 ms: at full rate it shrinks to 6 MB. -/
theorem not_windowExact_long_rtt :
    (fullRateQp 375000000).getWin = 6065118 ∧ (fullRateQp 375000000).exactWin 100000000000 = 375000000 ∧
      ¬ WindowExact (fullRateQp 375000000) (fullRateQp 375000000).getWin (fullRateQp 375000000).mRate := by
  refine ⟨by decide, by decide, fun h => ?_⟩
  exact absurd h.value (by decide)

end RdmaQueuePair

end Lcmp
