import Lcmp.Mmu.Config
import Lcmp.Switch.TimedHeadroom
import Mathlib.Tactic.Ring

/-!
# How much headroom a link needs

A class loses nothing to admission control when the headroom of its port holds what the peer sends from the packet
that causes a pause to its last one. `third.cc` gives a port three times what the link holds in one direction. Two of
these are on their way when the peer stops, so the third one is what the packets the devices are busy with, the frame
and what waits in front of it may take.
-/

namespace Lcmp

namespace TimedLink

open SwitchNode (packetsOf FramesAccepted DataTransit tightConfig)

/-- A step that keeps to the pace. Its packet fits, its frames found room in queue 0, and if it pauses the class then
little waits there. -/
structure Paced (cfg : LinkConfig) (pace : Pace) (q : Queue) (x : Transition TimedLink TimedEvent) : Prop where
  sizes : ∀ size, x.label.size? = some size → pace.Fits cfg size
  accepted : FramesAccepted x.post.node cfg.port
  backlog : x.pre.node.mmu.paused cfg.port q = false → x.post.node.mmu.paused cfg.port q = true →
    ((x.pre.node.packetsOf cfg.port 0).map fun p => cfg.txTime p.size).sum ≤ pace.backlog

/-- The packets of the class do not come in faster than the pace has it. -/
def Covered (cfg : LinkConfig) (pace : Pace) (q : Queue) (x : Transition TimedLink TimedEvent) : Prop :=
  ∀ p, x.label = .transmit p → pace.Covers cfg q p

variable {cfg : LinkConfig} {pace : Pace} {s : TimedLink} {q : Queue} {trace : List (Transition TimedLink TimedEvent)}

/-- The protocol, the times and what came in after a pause, in one. -/
structure Kept (cfg : LinkConfig) (pace : Pace) (q : Queue) (s : TimedLink) : Prop where
  linked : PfcLink.Linked cfg.port s.link
  timed : Timed cfg pace s
  braked : Braked cfg pace q s

theorem kept_of_run (hpause : 0 < cfg.pauseTime) (hpfc : pace.Fits cfg pfcSize)
    (hrun : (timedSystem cfg).Run (start cfg) trace s) (hpaced : ∀ x ∈ trace, Paced cfg pace q x)
    (hcovered : ∀ x ∈ trace, Covered cfg pace q x) : Kept cfg pace q s := by
  have hkept := hrun.history (P := fun before s => (∀ x ∈ before, Paced cfg pace q x ∧ Covered cfg pace q x) →
    Kept cfg pace q s) (fun _ => ?_)
    (fun before s e s' ih hnext hall => ?_)
  · exact hkept fun x hx => ⟨hpaced x hx, hcovered x hx⟩
  · exact ⟨PfcLink.linked_start cfg.mmu, timed_start, braked_start⟩
  · have hold := ih fun x hx => hall x (List.mem_append_left _ hx)
    obtain ⟨hmet, hcover⟩ := hall ⟨s, e, s'⟩ (List.mem_append_right _ List.mem_cons_self)
    have hstep := timedNext_step hnext
    exact ⟨link_step hpause hstep hold.linked, hold.timed.step hpfc hmet.sizes hstep,
      hold.braked.step hold.timed hpause hold.linked.transit hmet.sizes hcover hstep hmet.accepted hmet.backlog⟩

/-- What the next packet of the class finds in the headroom leaves room for it. -/
theorem Kept.room (h : Kept cfg pace q s) (hunit : 0 < pace.unit)
    (hroom : pace.rate * pace.braking cfg ≤ (cfg.mmu.headroom cfg.port).toNat * pace.unit) {x : Nat × Inbound}
    {rest : List (Nat × Inbound)} (hdown : s.down = x :: rest) (hq : x.2.qIndex = q) :
    (s.node.mmu.hdrmBytes cfg.port q).toNat + x.2.size.toNat ≤ (cfg.mmu.headroom cfg.port).toNat := by
  have hmem : x ∈ s.down := by
    rw [hdown]
    exact List.mem_cons_self
  have hsize := h.braked.covers x hmem hq
  have htime := (h.timed.down x hmem).time
  have hbraking : pace.braking cfg = 3 * pace.txMax + pace.backlog + cfg.txTime pfcSize + 2 * cfg.delay := rfl
  apply Nat.le_of_mul_le_mul_right ?_ hunit
  refine Nat.le_trans ?_ hroom
  cases hflag : s.node.mmu.paused cfg.port q with
  | false =>
      rw [h.braked.running hflag, UInt32.toNat_zero, Nat.zero_add]
      refine hsize.trans (Nat.mul_le_mul_left _ ?_)
      omega
  | true =>
      obtain ⟨since, arrived, hold⟩ := h.braked.braking hflag
      have htotal := hold.total
      have hreach : pace.reach cfg = pace.txMax + pace.backlog + cfg.txTime pfcSize + cfg.delay := rfl
      have hway : s.onTheWay cfg q = timeOf cfg q x.2 + _ := onTheWay_cons hdown
      have hmine : timeOf cfg q x.2 = cfg.txTime x.2.size := if_pos hq
      calc ((s.node.mmu.hdrmBytes cfg.port q).toNat + x.2.size.toNat) * pace.unit
          ≤ pace.rate * (pace.txMax + (arrived + cfg.txTime x.2.size)) := hdrm_mul_le (Nat.le_refl _) hold.hdrm hsize
        _ ≤ pace.rate * pace.braking cfg := by
            apply Nat.mul_le_mul_left
            omega

/-- A byte takes a nanosecond. -/
def bytePerNs (port : Port) : LinkConfig where
  mmu := { tightConfig with headroom := fun _ => 20000 }
  pauseTime := 5
  port := port
  delay := 10
  txTime := fun size => size.toNat

/-- Two packets of 3000 bytes. The first one causes the pause, the second one was sent before the frame arrived. -/
def intoHeadroom (idx : Port) : List TimedEvent :=
  [.transmit ⟨idx, 3, 3000⟩, .advance 3000, .transmit ⟨idx, 3, 3000⟩, .advance 10, .receive, .reply, .advance 53, .deliver,
    .advance 2947, .receive]

/-- What there is to check of a step of that run. -/
def bytePerNsChecks (port : Port) (x : Transition TimedLink TimedEvent) : Bool :=
  (x.label.size? = none ∨ x.label.size? = some 3000) ∧ FramesAccepted x.post.node port ∧
    (x.pre.node.mmu.paused port 3 = false → ((x.pre.node.packetsOf port 0).map fun p => p.size.toNat).sum ≤ 0)

end TimedLink

namespace SwitchMmu

theorem configNPort_headroom (m : SwitchMmu) (n : Nat) (m' : SwitchMmu) (h : m.configNPort n = .ok m') :
    m'.headroom = m.headroom := by
  induction n generalizing m' with
  | zero =>
      obtain rfl := Except.ok.inj h
      rfl
  | succ n ih =>
      rw [configNPort] at h
      split at h
      · cases h
      · rename_i mid hmid
        split at h
        · obtain rfl := Except.ok.inj h
          exact ih mid hmid
        · cases h

theorem configSwitch_headroom {maps : EcnMaps} {links : List Link} (haccepted : Accepted maps links) {nicRate : UInt64}
    {bufferSize : UInt32} {m m' : SwitchMmu} (hm : configSwitch maps nicRate bufferSize m links = .ok m') {port : Port}
    {i : Nat} (hi : i < links.length) (hport : port.val = i + 1) : m'.headroom port = headroomOf links[i] := by
  rw [configSwitch] at hm
  split at hm
  · cases hm
  · rename_i m₁ hports
    split at hm
    · cases hm
    · rename_i m₂ htotals
      obtain rfl := Except.ok.inj hm
      obtain ⟨-, hn⟩ := configNPort_fields m₁ links.length m₂ htotals
      obtain ⟨m₁', hports', hset⟩ := configPorts_ok nicRate haccepted m 1 (by omega)
      obtain rfl : m₁ = m₁' := Except.ok.inj (hports.symm.trans hports')
      have hsame := configNPort_headroom m₁ links.length m₂ htotals
      have hbuffer : (m₂.configBufferSize (bufferBytes bufferSize)).headroom = m₂.headroom := rfl
      rw [hbuffer, hsame]
      exact (hset.port port i hi (by omega)).1

end SwitchMmu

namespace TimedLink

open SwitchNode (packetsOf FramesAccepted)
open SwitchMmu (configSwitch exactHeadroom Accepted shippedRates)

/-- The pace of a link whose times are cut off to nanoseconds. A packet that takes at least `least` of them is faster
than the rate by one part in `least` at most. -/
def linkPace (link : Link) (least txMax backlog : Nat) : Pace where
  txMax := txMax
  rate := (least + 1) * link.rate.toNat
  unit := least * (8 * 10 ^ 9)
  backlog := backlog

theorem linkPace_covers {link : Link} {least txMax backlog : Nat} {p : Inbound}
    (htrunc : p.size.toNat * (8 * 10 ^ 9) ≤ link.rate.toNat * (cfg.txTime p.size + 1))
    (hleast : p.qIndex = q → least ≤ cfg.txTime p.size) : (linkPace link least txMax backlog).Covers cfg q p := by
  intro hq
  have hround : (cfg.txTime p.size + 1) * least ≤ (least + 1) * cfg.txTime p.size := by
    have hle := hleast hq
    rw [Nat.add_mul, Nat.one_mul, Nat.add_mul, Nat.one_mul, Nat.mul_comm]
    omega
  calc p.size.toNat * (least * (8 * 10 ^ 9)) = p.size.toNat * (8 * 10 ^ 9) * least := by
        rw [Nat.mul_comm least, Nat.mul_assoc p.size.toNat]
    _ ≤ link.rate.toNat * (cfg.txTime p.size + 1) * least := Nat.mul_le_mul_right _ htrunc
    _ = link.rate.toNat * ((cfg.txTime p.size + 1) * least) := Nat.mul_assoc ..
    _ ≤ link.rate.toNat * ((least + 1) * cfg.txTime p.size) := Nat.mul_le_mul_left _ hround
    _ = (least + 1) * link.rate.toNat * cfg.txTime p.size := by
        rw [← Nat.mul_assoc, Nat.mul_comm link.rate.toNat]

/-- Three times what the link holds, less what the division drops. -/
theorem exactHeadroom_ge (link : Link) (least : Nat) :
    3 * least * (link.rate.toNat * link.delay.toNat) ≤
      exactHeadroom link * (least * (8 * 10 ^ 9)) + 3 * least * (8 * 10 ^ 9) := by
  have hdiv := Nat.lt_div_mul_add (a := link.rate.toNat * link.delay.toNat) (b := 8 * 10 ^ 9) (by decide)
  unfold exactHeadroom
  calc 3 * least * (link.rate.toNat * link.delay.toNat)
      ≤ 3 * least * (link.rate.toNat * link.delay.toNat / (8 * 10 ^ 9) * (8 * 10 ^ 9) + 8 * 10 ^ 9) :=
        Nat.mul_le_mul_left _ hdiv.le
    _ = _ := by ring

/-- A leaf switch with two hosts at 100 Gb/s and a microsecond. -/
def twoHosts : List Link := [⟨100000000000, 1000⟩, ⟨100000000000, 1000⟩]

def configTwoHosts : Except ConfigError SwitchMmu :=
  configSwitch ⟨shippedRates, shippedRates, shippedRates⟩ 100000000000 32 (SwitchMmu.new SwitchMmu.zeroConfig) twoHosts

def twoHostsMmu : SwitchMmu :=
  match configTwoHosts with
  | .ok m => m
  | .error _ => SwitchMmu.new SwitchMmu.zeroConfig

/-- A packet of 1048 bytes takes 83 nanoseconds, and a frame takes 3. -/
def hostLink (port : Port) : LinkConfig where
  mmu := twoHostsMmu.toMmuConfig
  pauseTime := 5
  port := port
  delay := 1000
  txTime := fun size => size.toNat * 8 / 100

theorem hostLink_trunc (port : Port) (size : UInt32) :
    size.toNat * (8 * 10 ^ 9) ≤ (100000000000 : UInt64).toNat * ((hostLink port).txTime size + 1) := by
  have hrate : (100000000000 : UInt64).toNat = 100000000000 := rfl
  have htime : (hostLink port).txTime size = size.toNat * 8 / 100 := rfl
  rw [hrate, htime]
  omega

/-- What there is to check of a step of a run with packets of 1048 bytes. -/
def hostLinkChecks (port idx : Port) (x : Transition TimedLink TimedEvent) : Bool :=
  (x.label = .transmit ⟨idx, 3, 1048⟩ ∨ x.label.size? = none) ∧ FramesAccepted x.post.node port ∧
    ((x.pre.node.packetsOf port 0).map fun p => p.size.toNat * 8 / 100).sum ≤ 0

end TimedLink

end Lcmp
