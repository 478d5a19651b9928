import Lcmp.Mmu.Code
import Mathlib.Algebra.BigOperators.Group.List.Basic

/-!
# The config switch step

`third.cc` sizes the PFC headroom of every port from the rate and the delay of its link, adds the
sizes up and sets the buffer. The quantities live in 64 and 32 bit words. This module relates them to
the integers they stand for.
-/

namespace Lcmp

/-- What the step reads of a port: the bit rate of its device and the delay of its channel in
nanoseconds. -/
structure Link where
  rate : UInt64
  delay : UInt64
  deriving DecidableEq

/-- The rates that have an entry in each ECN map of the config file. -/
structure EcnMaps where
  rate2kmin : List UInt64
  rate2kmax : List UInt64
  rate2pmax : List UInt64

inductive ConfigError where
  /-- An assertion that fails stops the program with its message. -/
  | assertFailed (message : String)
  /-- A write behind the last element of a per-port array. -/
  | portOutOfRange
  deriving DecidableEq

namespace SwitchMmu

/-- The loop that halves `rate` and takes one off the shift until the rate is down to that of a
host. The first argument is the shift. -/
def lowerShift (nicRate : UInt64) : Nat → UInt64 → Nat
  | 0, _ => 0
  | shift + 1, rate => if rate > nicRate then lowerShift nicRate shift (rate / 2) else shift + 1

def headroomOf (link : Link) : UInt32 := (link.rate * link.delay / 8 / 1000000000 * 3).toUInt32

def setPfcAShift (m : SwitchMmu) (port : Port) (shift : Nat) : SwitchMmu :=
  { m with pfcAShift := Function.update m.pfcAShift port (UInt32.ofNat shift) }

def checkEcn (maps : EcnMaps) (rate : UInt64) : Except ConfigError Unit :=
  if rate ∉ maps.rate2kmin then .error (.assertFailed "must set kmin for each link speed")
  else if rate ∉ maps.rate2kmax then .error (.assertFailed "must set kmax for each link speed")
  else if rate ∉ maps.rate2pmax then .error (.assertFailed "must set pmax for each link speed")
  else .ok ()

/-- The body of the loop over the ports. -/
def configPort (maps : EcnMaps) (nicRate : UInt64) (m : SwitchMmu) (j : Port) (link : Link) :
    Except ConfigError SwitchMmu :=
  match checkEcn maps link.rate with
  | .error e => .error e
  | .ok () => .ok ((m.configHdrm j (headroomOf link)).setPfcAShift j (lowerShift nicRate 3 link.rate))

/-- The loop over the ports from `j` on, whose links are given in order. -/
def configPorts (maps : EcnMaps) (nicRate : UInt64) :
    SwitchMmu → Nat → List Link → Except ConfigError SwitchMmu
  | m, _, [] => .ok m
  | m, j, link :: links =>
      if h : j < pCnt then
        match configPort maps nicRate m ⟨j, h⟩ link with
        | .error e => .error e
        | .ok m' => configPorts maps nicRate m' (j + 1) links
      else .error .portOutOfRange

def configNPort (m : SwitchMmu) : Nat → Except ConfigError SwitchMmu
  | 0 => .ok { m with totalHdrm := 0, totalRsrv := 0 }
  | i + 1 =>
      match configNPort m i with
      | .error e => .error e
      | .ok m' =>
          if h : i + 1 < pCnt then
            .ok { m' with
              totalHdrm := m'.totalHdrm + m'.headroom ⟨i + 1, h⟩
              totalRsrv := m'.totalRsrv + m'.reserve }
          else .error .portOutOfRange

/-- What the buffer size in the config file, in MB, becomes in the unit. -/
def bufferBytes (bufferSize : UInt32) : UInt32 := bufferSize * 1024 * 1024

/-- The step for one switch: port 0 is the loopback device, the others have the given links.
`bufferSize` is `BUFFER_SIZE` for a switch in a data centre and `DCI_BUFFER_SIZE` for a DCI switch. -/
def configSwitch (maps : EcnMaps) (nicRate : UInt64) (bufferSize : UInt32) (m : SwitchMmu)
    (links : List Link) : Except ConfigError SwitchMmu :=
  match configPorts maps nicRate m 1 links with
  | .error e => .error e
  | .ok m₁ =>
      match m₁.configNPort links.length with
      | .error e => .error e
      | .ok m₂ => .ok (m₂.configBufferSize (bufferBytes bufferSize))

/-! ### The integers the words stand for -/

def exactHeadroom (link : Link) : Nat := 3 * (link.rate.toNat * link.delay.toNat / (8 * 10 ^ 9))

def Accepted (maps : EcnMaps) (links : List Link) : Prop :=
  ∀ link ∈ links, checkEcn maps link.rate = .ok ()

/-- The configuration of a switch is arithmetically sound. -/
structure ConfigSound (links : List Link) (m : SwitchMmu) : Prop where
  headroom : ∀ (port : Port) (i : Nat) (hi : i < links.length), port.val = i + 1 →
    (m.headroom port).toNat = exactHeadroom links[i]
  totalHdrm : m.totalHdrm.toNat = (links.map exactHeadroom).sum
  totalRsrv : m.totalRsrv.toNat = links.length * m.reserve.toNat
  fits : m.totalHdrm.toNat + m.totalRsrv.toNat ≤ m.bufferSize.toNat
  threshold : m.sharedUsedBytes = 0 → ∀ port : Port, 1 ≤ port.val → port.val ≤ links.length →
    ((m.getPfcThreshold port).toNat : Int) =
      ((m.bufferSize.toNat : Int) - (links.map exactHeadroom).sum - links.length * m.reserve.toNat) /
        2 ^ (m.pfcAShift port).toNat

/-- The headroom a port gets is exact when the exact value fits in 32 bits. A product of rate and
delay that wraps its 64 bits gives an exact value far above that. -/
theorem headroomOf_toNat (link : Link) (h : exactHeadroom link < 2 ^ 32) :
    (headroomOf link).toNat = exactHeadroom link := by
  unfold exactHeadroom at h ⊢
  have hproduct : link.rate.toNat * link.delay.toNat < 2 ^ 64 := by omega
  have hdiv : (link.rate * link.delay / 8 / 1000000000).toNat =
      link.rate.toNat * link.delay.toNat / (8 * 10 ^ 9) := by
    rw [UInt64.toNat_div, UInt64.toNat_div, UInt64.toNat_mul, Nat.mod_eq_of_lt hproduct, Nat.div_div_eq_div_mul]
    rfl
  rw [headroomOf, UInt64.toNat_toUInt32, UInt64.toNat_mul, hdiv]
  have hthree : (3 : UInt64).toNat = 3 := rfl
  rw [hthree]
  omega

theorem lowerShift_le (nicRate : UInt64) (shift : Nat) (rate : UInt64) :
    lowerShift nicRate shift rate ≤ shift := by
  induction shift generalizing rate with
  | zero => exact Nat.le_refl 0
  | succ shift ih =>
      rw [lowerShift]
      split
      · exact (ih (rate / 2)).trans (Nat.le_succ shift)
      · exact Nat.le_refl _

/-! ### The loop over the ports -/

/-- What the loop from port `j` on has written: the ports of `links` are set, nothing else is. -/
structure PortsConfigured (nicRate : UInt64) (m m' : SwitchMmu) (j : Nat) (links : List Link) :
    Prop where
  port : ∀ (port : Port) (i : Nat) (hi : i < links.length), port.val = j + i →
    m'.headroom port = headroomOf links[i] ∧
    m'.pfcAShift port = UInt32.ofNat (lowerShift nicRate 3 links[i].rate)
  before : ∀ port : Port, port.val < j →
    m'.headroom port = m.headroom port ∧ m'.pfcAShift port = m.pfcAShift port
  reserve : m'.reserve = m.reserve
  sharedUsed : m'.sharedUsedBytes = m.sharedUsedBytes

theorem configPort_ok {maps : EcnMaps} (nicRate : UInt64) (m : SwitchMmu) (j : Port) {link : Link}
    (h : checkEcn maps link.rate = .ok ()) :
    configPort maps nicRate m j link =
      .ok ((m.configHdrm j (headroomOf link)).setPfcAShift j (lowerShift nicRate 3 link.rate)) := by
  rw [configPort, h]

theorem configPorts_ok {maps : EcnMaps} (nicRate : UInt64) {links : List Link}
    (haccepted : Accepted maps links) (m : SwitchMmu) (j : Nat) (hports : j + links.length ≤ pCnt) :
    ∃ m', configPorts maps nicRate m j links = .ok m' ∧ PortsConfigured nicRate m m' j links := by
  induction links generalizing m j with
  | nil => exact ⟨m, rfl, by simp, fun _ _ => ⟨rfl, rfl⟩, rfl, rfl⟩
  | cons link links ih =>
      rw [List.length_cons] at hports
      have hj : j < pCnt := by omega
      have hlink := haccepted link List.mem_cons_self
      obtain ⟨m', hrest, hset⟩ := ih (fun l hl => haccepted l (List.mem_cons_of_mem _ hl))
        ((m.configHdrm ⟨j, hj⟩ (headroomOf link)).setPfcAShift ⟨j, hj⟩ (lowerShift nicRate 3 link.rate))
        (j + 1) (by omega)
      refine ⟨m', ?_, fun port i hi hport => ?_, fun port hport => ?_, hset.reserve, hset.sharedUsed⟩
      · rw [configPorts, dif_pos hj, configPort_ok nicRate m ⟨j, hj⟩ hlink]
        exact hrest
      · cases i with
        | zero =>
            obtain rfl : port = ⟨j, hj⟩ := Fin.ext hport
            obtain ⟨hhdrm, hshift⟩ := hset.before ⟨j, hj⟩ (Nat.lt_succ_self j)
            exact ⟨hhdrm.trans (Function.update_self ..), hshift.trans (Function.update_self ..)⟩
        | succ i =>
            rw [List.length_cons] at hi
            exact hset.port port i (by omega) (by omega)
      · have hne : port ≠ ⟨j, hj⟩ := Fin.ne_of_val_ne (show port.val ≠ j by omega)
        obtain ⟨hhdrm, hshift⟩ := hset.before port (by omega)
        exact ⟨hhdrm.trans (Function.update_of_ne hne ..), hshift.trans (Function.update_of_ne hne ..)⟩

/-! ### The sums over the ports -/

/-- The two totals after the first `n` ports, whose headrooms are `sizes`. -/
theorem configNPort_ok (m : SwitchMmu) (sizes : List Nat)
    (hsizes : ∀ (port : Port) (i : Nat) (hi : i < sizes.length), port.val = i + 1 →
      (m.headroom port).toNat = sizes[i])
    (n : Nat) (hn : n ≤ sizes.length) (hports : n < pCnt) :
    ∃ hdrm rsrv, m.configNPort n = .ok { m with totalHdrm := hdrm, totalRsrv := rsrv } ∧
      hdrm.toNat = (sizes.take n).sum % 2 ^ 32 ∧ rsrv.toNat = n * m.reserve.toNat % 2 ^ 32 := by
  induction n with
  | zero => exact ⟨0, 0, rfl, rfl, by simp⟩
  | succ n ih =>
      obtain ⟨hdrm, rsrv, hok, hhdrm, hrsrv⟩ := ih (by omega) (by omega)
      have hlast := hsizes ⟨n + 1, hports⟩ n (by omega) rfl
      refine ⟨hdrm + m.headroom ⟨n + 1, hports⟩, rsrv + m.reserve, ?_, ?_, ?_⟩
      · rw [configNPort, hok]
        exact dif_pos hports
      · rw [UInt32.toNat_add, hhdrm, hlast, List.sum_take_succ sizes n (by omega), Nat.mod_add_mod]
      · rw [UInt32.toNat_add, hrsrv, Nat.succ_mul, Nat.mod_add_mod]

theorem configNPort_fields (m : SwitchMmu) (n : Nat) (m' : SwitchMmu) (h : m.configNPort n = .ok m') :
    m'.reserve = m.reserve ∧ n < pCnt := by
  induction n generalizing m' with
  | zero =>
      obtain rfl := Except.ok.inj h
      exact ⟨rfl, by decide⟩
  | succ n ih =>
      rw [configNPort] at h
      split at h
      · cases h
      · rename_i mid hmid
        split at h
        · rename_i hn
          obtain rfl := Except.ok.inj h
          exact ⟨(ih mid hmid).1, hn⟩
        · cases h

/-! ### Soundness -/

theorem exactHeadroom_le_sum {links : List Link} {link : Link} (h : link ∈ links) :
    exactHeadroom link ≤ (links.map exactHeadroom).sum :=
  List.single_le_sum (fun _ _ => Nat.zero_le _) _ (List.mem_map_of_mem h)

/-- The threshold of an idle unit over the integers, once nothing in it wraps. -/
theorem getPfcThreshold_idle (m : SwitchMmu) (port : Port) (hidle : m.sharedUsedBytes = 0)
    (hfits : m.totalHdrm.toNat + m.totalRsrv.toNat ≤ m.bufferSize.toNat)
    (hshift : (m.pfcAShift port).toNat < 32) :
    ((m.getPfcThreshold port).toNat : Int) =
      ((m.bufferSize.toNat : Int) - m.totalHdrm.toNat - m.totalRsrv.toNat) / 2 ^ (m.pfcAShift port).toNat := by
  have hbuf := m.bufferSize.toNat_lt
  have hroom : (m.bufferSize - m.totalHdrm - m.totalRsrv - m.sharedUsedBytes).toNat =
      m.bufferSize.toNat - m.totalHdrm.toNat - m.totalRsrv.toNat := by
    simp only [hidle, UInt32.toNat_sub, UInt32.toNat_zero]
    omega
  rw [getPfcThreshold, UInt32.toNat_shiftRight, Nat.shiftRight_eq_div_pow, hroom, Nat.mod_eq_of_lt hshift]
  push_cast
  congr 1
  omega

/-- The config step makes a new unit sound exactly when the switch has at most 256 links and their
exact headrooms, with 4096 bytes of reserve a port, fit in the buffer it is given. -/
theorem configSwitch_sound_iff {maps : EcnMaps} {links : List Link} (haccepted : Accepted maps links)
    (nicRate : UInt64) (bufferSize : UInt32) (uninit : MmuConfig) :
    (∃ m, configSwitch maps nicRate bufferSize (new uninit) links = .ok m ∧ ConfigSound links m) ↔
      links.length < pCnt ∧
      (links.map exactHeadroom).sum + 4096 * links.length ≤ (bufferBytes bufferSize).toNat := by
  constructor
  · rintro ⟨m, hm, hsound⟩
    rw [configSwitch] at hm
    split at hm
    · cases hm
    · rename_i m₁ hports
      split at hm
      · cases hm
      · rename_i m₂ htotals
        obtain rfl := Except.ok.inj hm
        obtain ⟨hres, hn⟩ := configNPort_fields m₁ links.length m₂ htotals
        obtain ⟨m', hports', hset⟩ := configPorts_ok nicRate haccepted (new uninit) 1 (by omega)
        obtain rfl : m₁ = m' := Except.ok.inj (hports.symm.trans hports')
        have hreserve : m₂.reserve.toNat = 4096 := by rw [hres, hset.reserve]; rfl
        have hhdrm := hsound.totalHdrm
        have hrsrv := hsound.totalRsrv
        have hfits := hsound.fits
        simp only [configBufferSize] at hhdrm hrsrv hfits
        rw [hreserve] at hrsrv
        exact ⟨hn, by omega⟩
  · rintro ⟨hn, hroom⟩
    have hbuf := (bufferBytes bufferSize).toNat_lt
    obtain ⟨m₁, hports, hset⟩ := configPorts_ok nicRate haccepted (new uninit) 1 (by omega)
    have hexact : ∀ (port : Port) (i : Nat) (hi : i < links.length), port.val = i + 1 →
        (m₁.headroom port).toNat = exactHeadroom links[i] := by
      intro port i hi hport
      have hsmall := exactHeadroom_le_sum (List.getElem_mem hi)
      rw [(hset.port port i hi (by omega)).1, headroomOf_toNat _ (by omega)]
    obtain ⟨hdrm, rsrv, htotals, hhdrm, hrsrv⟩ := configNPort_ok m₁ (links.map exactHeadroom)
      (fun port i hi hport => by
        rw [List.getElem_map]
        exact hexact port i (by simpa using hi) hport)
      links.length (by rw [List.length_map]) hn
    have hreserve : m₁.reserve.toNat = 4096 := by rw [hset.reserve]; rfl
    have hidle : m₁.sharedUsedBytes = 0 := hset.sharedUsed
    rw [List.take_of_length_le (by rw [List.length_map]), Nat.mod_eq_of_lt (by omega)] at hhdrm
    rw [hreserve, Nat.mod_eq_of_lt (by omega)] at hrsrv
    refine ⟨_, by rw [configSwitch, hports]; dsimp only; rw [htotals], ?_⟩
    have hfits : hdrm.toNat + rsrv.toNat ≤ (bufferBytes bufferSize).toNat := by omega
    refine ⟨hexact, hhdrm, ?_, hfits, fun _ port hlow hhigh => ?_⟩
    · change rsrv.toNat = links.length * m₁.reserve.toNat
      rw [hreserve, hrsrv]
    · obtain ⟨i, hi⟩ := Nat.exists_eq_add_of_le hlow
      have hshift := (hset.port port i (by omega) hi).2
      have hle := lowerShift_le nicRate 3 links[i].rate
      have hthresh := getPfcThreshold_idle
        ({ m₁ with totalHdrm := hdrm, totalRsrv := rsrv }.configBufferSize (bufferBytes bufferSize))
        port hidle hfits (by
          change (m₁.pfcAShift port).toNat < 32
          rw [hshift, UInt32.toNat_ofNat']
          omega)
      rw [hthresh]
      change ((bufferBytes bufferSize).toNat - (hdrm.toNat : Int) - rsrv.toNat) / _ =
        ((bufferBytes bufferSize).toNat - ((links.map exactHeadroom).sum : Int) -
          links.length * m₁.reserve.toNat) / _
      have hcast : (rsrv.toNat : Int) = links.length * ((4096 : Nat) : Int) := by omega
      rw [hreserve, ← hhdrm, hcast]

/-- The rates of the shipped config file. -/
def shippedRates : List UInt64 :=
  [25000000000, 40000000000, 50000000000, 75000000000, 100000000000, 200000000000, 400000000000,
    600000000000, 800000000000]

/-- A leaf switch with two hosts at 100 Gb/s and a microsecond, with the shipped buffer of 32 MB. -/
theorem configSwitch_sound_two_hosts :
    ∃ m, configSwitch ⟨shippedRates, shippedRates, shippedRates⟩ 100000000000 32 (new zeroConfig)
        [⟨100000000000, 1000⟩, ⟨100000000000, 1000⟩] = .ok m ∧
      ConfigSound [⟨100000000000, 1000⟩, ⟨100000000000, 1000⟩] m :=
  (configSwitch_sound_iff (by unfold Accepted; decide) 100000000000 32 zeroConfig).mpr (by decide)

/-- The links of DCI switch 176 of the shipped topology, in the order of the file. -/
def dci176Links : List Link :=
  [⟨400000000000, 1000⟩, ⟨400000000000, 1000⟩, ⟨200000000000, 25000000⟩, ⟨200000000000, 250000000⟩,
    ⟨100000000000, 10000000⟩, ⟨100000000000, 100000000⟩, ⟨25000000000, 5000000⟩,
    ⟨25000000000, 50000000⟩]

/-- The shipped topology with the shipped buffer of 128 MB: the product for the fourth link wraps,
and the totals do not fit in the buffer. -/
theorem not_configSound_dci176 :
    ∃ m, configSwitch ⟨shippedRates, shippedRates, shippedRates⟩ 100000000000 128 (new zeroConfig)
        dci176Links = .ok m ∧
      m.headroom 4 = 619974647 ∧ exactHeadroom ⟨200000000000, 250000000⟩ = 18750000000 ∧
      m.bufferSize = 134217728 ∧ ¬ ConfigSound dci176Links m := by
  refine ⟨_, rfl, by decide, by decide, by decide, fun hsound => ?_⟩
  have hfour := hsound.headroom 4 3 (by decide) rfl
  exact absurd hfour (by decide)

end SwitchMmu

end Lcmp
