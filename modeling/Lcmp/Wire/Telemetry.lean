import Lcmp.Lib.Counter
import Lcmp.Wire.Headers

/-!
# Telemetry of a hop

`IntHop::Set` puts the time, the bytes sent, the queue length and the rate of a port into 64 bits. Differences of
two samples are exact up to a unit, however often the counters have wrapped; a queue length and a rate come back
only if they fit.
-/

namespace Lcmp

namespace IntHop

/-- The `switch` over the rates. A rate that is not known leaves the field as it is. -/
def setLineRate (lineRate : Fin 8) (rate : UInt64) : Fin 8 :=
  if rate = 25000000000 then 0
  else if rate = 40000000000 then 1
  else if rate = 50000000000 then 2
  else if rate = 100000000000 then 3
  else if rate = 200000000000 then 4
  else if rate = 400000000000 then 5
  else if rate = 600000000000 then 6
  else if rate = 800000000000 then 7
  else lineRate

/-- `IntHop::Set`. There is no result if a unit is 0, in 32 bits: the code divides by both. -/
def set (multi : UInt32) (h : IntHop) (time bytes : UInt64) (qlen : UInt32) (rate : UInt64) : Option IntHop :=
  if byteUnit * multi = 0 ∨ qlenUnit * multi = 0 then none
  else some {
    lineRate := setLineRate h.lineRate rate
    time := ⟨time.toNat % 2 ^ 24, Nat.mod_lt _ (Nat.two_pow_pos 24)⟩
    bytes := ⟨(bytes / (byteUnit * multi).toUInt64).toNat % 2 ^ 20, Nat.mod_lt _ (Nat.two_pow_pos 20)⟩
    qlen := ⟨(qlen / (qlenUnit * multi)).toNat % 2 ^ 17, Nat.mod_lt _ (Nat.two_pow_pos 17)⟩ }

theorem toNat_byteUnit (multi : UInt32) : (byteUnit * multi).toNat = 128 * multi.toNat % 2 ^ 32 := UInt32.toNat_mul ..

theorem toNat_qlenUnit (multi : UInt32) : (qlenUnit * multi).toNat = 80 * multi.toNat % 2 ^ 32 := UInt32.toNat_mul ..

/-- 80 is 5 * 2 ^ 4. -/
theorem dvd_of_qlenUnit_zero {m : Nat} (h : 80 * m % 2 ^ 32 = 0) : 2 ^ 25 ∣ m := by
  have hdvd : 2 ^ 4 * 2 ^ 28 ∣ 2 ^ 4 * (5 * m) := by
    rw [← Nat.mul_assoc]
    exact Nat.dvd_of_mod_eq_zero h
  have hfive : 2 ^ 28 ∣ m :=
    Nat.Coprime.dvd_of_dvd_mul_left (by decide) (Nat.dvd_of_mul_dvd_mul_left (Nat.two_pow_pos 4) hdvd)
  exact Nat.dvd_trans (Nat.pow_dvd_pow 2 (by decide)) hfive

/-- One of the divisors is 0 exactly when the larger one is. -/
theorem unit_zero_iff (multi : UInt32) : (byteUnit * multi = 0 ∨ qlenUnit * multi = 0) ↔ 2 ^ 25 ∣ multi.toNat := by
  have hbyte : byteUnit * multi = 0 ↔ 128 * multi.toNat % 2 ^ 32 = 0 := by
    rw [← UInt32.toNat_inj, toNat_byteUnit, UInt32.toNat_zero]
  have hqlen : qlenUnit * multi = 0 ↔ 80 * multi.toNat % 2 ^ 32 = 0 := by
    rw [← UInt32.toNat_inj, toNat_qlenUnit, UInt32.toNat_zero]
  rw [hbyte, hqlen]
  constructor
  · rintro (h | h)
    · exact Nat.dvd_of_mul_dvd_mul_left (k := 2 ^ 7) (Nat.two_pow_pos 7) (Nat.dvd_of_mod_eq_zero h)
    · exact dvd_of_qlenUnit_zero h
  · intro h
    exact .inl (Nat.mod_eq_zero_of_dvd (Nat.mul_dvd_mul_left (2 ^ 7) h))

theorem set_of_not_dvd {multi : UInt32} (hmulti : ¬ 2 ^ 25 ∣ multi.toNat) (h : IntHop) (time bytes : UInt64) (qlen : UInt32)
    (rate : UInt64) : ∃ h', h.set multi time bytes qlen rate = some h' ∧ h'.lineRate = setLineRate h.lineRate rate ∧
      h'.time.val = time.toNat % 2 ^ 24 ∧ h'.bytes.val = bytes.toNat / (128 * multi.toNat % 2 ^ 32) % 2 ^ 20 ∧
      h'.qlen.val = qlen.toNat / (80 * multi.toNat % 2 ^ 32) % 2 ^ 17 := by
  have hunits := mt (unit_zero_iff multi).mp hmulti
  refine ⟨_, if_neg hunits, rfl, rfl, ?_, ?_⟩
  · dsimp only
    rw [UInt64.toNat_div, UInt32.toNat_toUInt64, toNat_byteUnit]
  · dsimp only
    rw [UInt32.toNat_div, toNat_qlenUnit]

theorem set_of_dvd {multi : UInt32} (hmulti : 2 ^ 25 ∣ multi.toNat) (h : IntHop) (time bytes : UInt64) (qlen : UInt32)
    (rate : UInt64) : h.set multi time bytes qlen rate = none :=
  if_pos ((unit_zero_iff multi).mpr hmulti)

/-! ### Differences of samples -/

theorem toNat_getTimeDelta (h b : IntHop) : (h.getTimeDelta b).toNat = Counter.delta (2 ^ 24) h.time.val b.time.val := by
  have hh := h.time.isLt
  have hb := b.time.isLt
  unfold getTimeDelta Counter.delta
  rw [UInt64.toNat_ofNat', Nat.mod_eq_of_lt]
  · rfl
  · split
    · omega
    · omega

theorem toNat_getBytesDelta {multi : UInt32} (hmulti : multi.toNat ≤ 31) {h b : IntHop} {d : Nat}
    (hd : Counter.delta (2 ^ 20) h.bytes.val b.bytes.val = d) (hfits : d < 2 ^ 20) :
    (h.getBytesDelta multi b).toNat = 128 * multi.toNat * d := by
  have hdelta : (if h.bytes ≥ b.bytes then h.bytes.val - b.bytes.val else h.bytes.val + 2 ^ 20 - b.bytes.val) = d := hd
  have hunit : byteUnit.toNat = 128 := rfl
  have hproduct : d * 128 * multi.toNat ≤ (2 ^ 20 - 1) * 128 * 31 :=
    Nat.mul_le_mul (Nat.mul_le_mul_right 128 (Nat.le_sub_one_of_lt hfits)) hmulti
  unfold getBytesDelta
  rw [hdelta, UInt32.toNat_toUInt64, UInt32.toNat_mul, UInt32.toNat_mul, UInt32.toNat_ofNat', hunit, Nat.mod_mul_mod,
    Nat.mod_eq_of_lt (Nat.lt_trans hfits (by decide)), Nat.mod_eq_of_lt (Nat.lt_of_le_of_lt hproduct (by decide)),
    Nat.mul_comm 128, Nat.mul_assoc, Nat.mul_comm d, Nat.mul_comm 128]

/-- Two samples of a port give back the time and, up to a unit, the bytes between them, as long as these fit in the
fields: whatever the counters were, and whatever the hops held before. -/
theorem deltas_exact {multi : UInt32} (hpos : 1 ≤ multi.toNat) (hmulti : multi.toNat ≤ 31) (h h' : IntHop)
    {t t' b b' : UInt64} (qlen qlen' : UInt32) (rate rate' : UInt64) (htime : t ≤ t') (hbytes : b ≤ b') :
    ∃ first second, h.set multi t b qlen rate = some first ∧ h'.set multi t' b' qlen' rate' = some second ∧
      (t'.toNat - t.toNat < 2 ^ 24 → (second.getTimeDelta first).toNat = t'.toNat - t.toNat) ∧
      (b'.toNat - b.toNat < (2 ^ 20 - 1) * 128 * multi.toNat →
        |((second.getBytesDelta multi first).toNat : Int) - (b'.toNat - b.toNat)| < 128 * multi.toNat) := by
  have hdvd : ¬ 2 ^ 25 ∣ multi.toNat := fun h => absurd (Nat.le_of_dvd hpos h) (by omega)
  have hunit : 128 * multi.toNat % 2 ^ 32 = 128 * multi.toNat := Nat.mod_eq_of_lt (by omega)
  have hunitPos : 0 < 128 * multi.toNat := by omega
  obtain ⟨first, hset, -, hfirstTime, hfirstBytes, -⟩ := set_of_not_dvd hdvd h t b qlen rate
  obtain ⟨second, hset', -, hsecondTime, hsecondBytes, -⟩ := set_of_not_dvd hdvd h' t' b' qlen' rate'
  have hle : b.toNat ≤ b'.toNat := UInt64.le_iff_toNat_le.mp hbytes
  refine ⟨first, second, hset, hset', fun hnear => ?_, fun hnear => ?_⟩
  · rw [toNat_getTimeDelta, hfirstTime, hsecondTime]
    exact Counter.delta_mod (UInt64.le_iff_toNat_le.mp htime) hnear
  · rw [hunit] at hfirstBytes hsecondBytes
    rw [Nat.mul_assoc] at hnear
    have hfits := Counter.div_sub_div_lt (k := 2 ^ 20) hunitPos (Nat.two_pow_pos 20) hnear
    have hdelta := Counter.delta_mod (Nat.div_le_div_right (c := 128 * multi.toNat) hle) hfits
    rw [← hfirstBytes, ← hsecondBytes] at hdelta
    have herror := Counter.unit_error hunitPos hle
    rw [toNat_getBytesDelta hmulti hdelta hfits, abs_lt]
    omega

/-- Across a wrap of both fields. -/
theorem deltas_exact_wrapped : ∃ first second : IntHop,
    (IntHop.ofWord 0).set 1 16777000 134217000 0 100000000000 = some first ∧
      (IntHop.ofWord 0).set 1 16778000 134218500 0 100000000000 = some second ∧
      (second.getTimeDelta first).toNat = 1000 ∧ |((second.getBytesDelta 1 first).toNat : Int) - 1500| < 128 := by
  have hpos : 1 ≤ (1 : UInt32).toNat := by decide
  have hnear : (16777000 : UInt64) ≤ 16778000 ∧ (134217000 : UInt64) ≤ 134218500 := by decide
  obtain ⟨first, second, hset, hset', htime, hbytes⟩ := deltas_exact hpos (by decide) (IntHop.ofWord 0) (IntHop.ofWord 0) 0 0
    100000000000 100000000000 hnear.1 hnear.2
  exact ⟨first, second, hset, hset', htime (by decide), hbytes (by decide)⟩

/-! ### Queue lengths and rates -/

/-- The three factors have 32 bits, but the product is at most the queue length. -/
theorem toNat_getQlen {multi : UInt32} {h : IntHop} {qlen : Nat} (hqlen : qlen < 2 ^ 32)
    (hle : 80 * multi.toNat % 2 ^ 32 * h.qlen.val ≤ qlen) :
    (h.getQlen multi).toNat = 80 * multi.toNat % 2 ^ 32 * h.qlen.val := by
  have hfield := h.qlen.isLt
  have hunit : (qlenUnit * multi).toNat = 80 * multi.toNat % 2 ^ 32 := toNat_qlenUnit multi
  unfold getQlen
  rw [UInt32.mul_assoc, UInt32.toNat_mul, hunit, UInt32.toNat_ofNat', Nat.mod_eq_of_lt (Nat.lt_trans hfield (by decide)),
    Nat.mul_comm, Nat.mod_eq_of_lt (Nat.lt_of_le_of_lt hle hqlen)]

/-- A queue length comes back, up to a unit, exactly when it is below 2 ^ 17 units. -/
theorem set_qlen_iff (multi : UInt32) (h : IntHop) (time bytes : UInt64) (qlen : UInt32) (rate : UInt64) :
    (∃ h', h.set multi time bytes qlen rate = some h' ∧ (h'.getQlen multi).toNat ≤ qlen.toNat ∧
        qlen.toNat < (h'.getQlen multi).toNat + 80 * multi.toNat) ↔
      ¬ 2 ^ 25 ∣ multi.toNat ∧ qlen.toNat < 80 * multi.toNat * 2 ^ 17 := by
  by_cases hdvd : 2 ^ 25 ∣ multi.toNat
  · rw [set_of_dvd hdvd]
    constructor
    · rintro ⟨h', hset, -⟩
      cases hset
    · exact fun h => absurd hdvd h.1
  · obtain ⟨h', hset, -, -, -, hqlen⟩ := set_of_not_dvd hdvd h time bytes qlen rate
    have hunit : 0 < 80 * multi.toNat % 2 ^ 32 := Nat.pos_of_ne_zero fun hzero => hdvd (dvd_of_qlenUnit_zero hzero)
    obtain ⟨hle, hiff⟩ := Counter.sample_spec (x := qlen.toNat) hunit (Nat.two_pow_pos 17)
    rw [← hqlen] at hle hiff
    have hget := toNat_getQlen qlen.toNat_lt hle
    have hexact : (qlen.toNat < (h'.getQlen multi).toNat + 80 * multi.toNat) ↔ qlen.toNat < 80 * multi.toNat * 2 ^ 17 := by
      have hword := qlen.toNat_lt
      rw [hget]
      rcases Nat.lt_or_ge (80 * multi.toNat) (2 ^ 32) with hfits | hlarge
      · rw [Nat.mod_eq_of_lt hfits] at hiff ⊢
        exact hiff
      · -- a unit that does not fit is more than any queue length
        exact iff_of_true (by omega) (by omega)
    constructor
    · rintro ⟨h'', hset', -, hlt⟩
      obtain rfl := Option.some.inj (hset.symm.trans hset')
      exact ⟨hdvd, hexact.mp hlt⟩
    · rintro ⟨-, hlt⟩
      refine ⟨h', hset, ?_, hexact.mpr hlt⟩
      rw [hget]
      exact hle

/-- The field stands for the rate that was written exactly when the table has it. -/
theorem lineRateValues_setLineRate (lineRate : Fin 8) (rate : UInt64) :
    lineRateValues.get (setLineRate lineRate rate) = rate.toNat ↔ rate.toNat ∈ lineRateValues := by
  constructor
  · intro h
    rw [← h]
    exact List.get_mem _ _
  · intro h
    have hrate : rate = 25000000000 ∨ rate = 40000000000 ∨ rate = 50000000000 ∨ rate = 100000000000 ∨
        rate = 200000000000 ∨ rate = 400000000000 ∨ rate = 600000000000 ∨ rate = 800000000000 := by
      simp only [← UInt64.toNat_inj]
      simp only [lineRateValues, List.mem_cons, List.not_mem_nil, or_false] at h
      exact h
    rcases hrate with rfl | rfl | rfl | rfl | rfl | rfl | rfl | rfl <;> rfl

/-- A rate comes back exactly when the table has it. -/
theorem set_rate_iff (multi : UInt32) (h : IntHop) (time bytes : UInt64) (qlen : UInt32) (rate : UInt64) :
    (∃ h', h.set multi time bytes qlen rate = some h' ∧ h'.getLineRate = rate.toNat) ↔
      ¬ 2 ^ 25 ∣ multi.toNat ∧ rate.toNat ∈ lineRateValues := by
  by_cases hdvd : 2 ^ 25 ∣ multi.toNat
  · rw [set_of_dvd hdvd]
    constructor
    · rintro ⟨h', hset, -⟩
      cases hset
    · exact fun h => absurd hdvd h.1
  · obtain ⟨h', hset, hrate, -, -, -⟩ := set_of_not_dvd hdvd h time bytes qlen rate
    have hiff := lineRateValues_setLineRate h.lineRate rate
    rw [← hrate] at hiff
    constructor
    · rintro ⟨h'', hset', hsame⟩
      obtain rfl := Option.some.inj (hset.symm.trans hset')
      exact ⟨hdvd, hiff.mp hsame⟩
    · rintro ⟨-, hmem⟩
      exact ⟨h', hset, hiff.mpr hmem⟩

/-- Every queue length up to the size of the buffer comes back, up to a unit. -/
def FaithfulQlen (multi bufferSize : UInt32) : Prop :=
  ∀ (h : IntHop) (time bytes : UInt64) (qlen : UInt32) (rate : UInt64), qlen ≤ bufferSize →
    ∃ h', h.set multi time bytes qlen rate = some h' ∧ (h'.getQlen multi).toNat ≤ qlen.toNat ∧
      qlen.toNat < (h'.getQlen multi).toNat + 80 * multi.toNat

/-- Every rate of the maps for ECN comes back. -/
def FaithfulRates (multi : UInt32) (rates : List UInt64) : Prop :=
  ∀ (h : IntHop) (time bytes : UInt64) (qlen : UInt32), ∀ rate ∈ rates,
    ∃ h', h.set multi time bytes qlen rate = some h' ∧ h'.getLineRate = rate.toNat

/-- The telemetry is faithful exactly when the units are not 0, the field holds the length of a full buffer, and
the table has the rates. -/
theorem telemetry_faithful_iff (multi bufferSize : UInt32) (rates : List UInt64) :
    (FaithfulQlen multi bufferSize ∧ FaithfulRates multi rates) ↔
      ¬ 2 ^ 25 ∣ multi.toNat ∧ bufferSize.toNat < 80 * multi.toNat * 2 ^ 17 ∧
        ∀ rate ∈ rates, rate.toNat ∈ lineRateValues := by
  constructor
  · rintro ⟨hqlen, hrates⟩
    have hfull := hqlen (ofWord 0) 0 0 bufferSize 0 (UInt32.le_refl _)
    obtain ⟨hunits, hfits⟩ := (set_qlen_iff ..).mp hfull
    exact ⟨hunits, hfits, fun rate hrate => ((set_rate_iff ..).mp (hrates (ofWord 0) 0 0 0 rate hrate)).2⟩
  · rintro ⟨hunits, hfits, hknown⟩
    refine ⟨fun h time bytes qlen rate hle => ?_, fun h time bytes qlen rate hrate => ?_⟩
    · exact (set_qlen_iff ..).mpr ⟨hunits, Nat.lt_of_le_of_lt (UInt32.le_iff_toNat_le.mp hle) hfits⟩
    · exact (set_rate_iff ..).mpr ⟨hunits, hknown rate hrate⟩

/-- The buffer of a DCI switch of the shipped configuration, 128 MB. -/
def dciBuffer : UInt32 := 128 * 1024 * 1024

/-- The rates of its maps. -/
def mappedRates : List UInt64 := [25000000000, 40000000000, 50000000000, 75000000000, 100000000000, 200000000000,
  400000000000, 600000000000, 800000000000]

/-- 10 MB in the queue are read as an empty queue, and 75 Gbps as whatever rate was there before. -/
theorem shipped_telemetry : ¬ FaithfulQlen 1 dciBuffer ∧ ¬ FaithfulRates 1 mappedRates := by
  refine ⟨fun h => ?_, fun h => ?_⟩
  · obtain ⟨h', hset, -, hlt⟩ := h (ofWord 0) 0 0 10485760 100000000000 (by decide)
    cases hset
    exact absurd hlt (by decide)
  · obtain ⟨h', hset, hrate⟩ := h (ofWord 0) 0 0 0 75000000000 (by decide)
    cases hset
    exact absurd hrate (by decide)

end IntHop

end Lcmp
