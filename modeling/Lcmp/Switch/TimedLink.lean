import Lcmp.Lib.Serial
import Lcmp.Switch.Conservation
import Lcmp.Switch.Pfc

/-!
# A link in time

A switch, one of its ports and the device at the other end of the link, with the times at which packets are sent and
arrive. A device is busy while it sends and a packet arrives the propagation delay after that. The port sends a PFC
frame as soon as it may; the peer sends nothing of a class that it has been told to pause.
-/

namespace Lcmp

/-- Times are in nanoseconds. `txTime` is the time a packet of some size takes at the rate of the link. -/
structure LinkConfig where
  mmu : MmuConfig
  pauseTime : UInt32
  port : Port
  delay : Nat
  txTime : UInt32 → Nat

/-- A packet on its way to the switch, with the port and the queue it will be sent to. -/
structure Inbound where
  idx : Port
  qIndex : Queue
  size : UInt32
  deriving DecidableEq

/-- The devices are `READY` from `peerReady` and `portReady` on. What is on the link comes with the time of its
arrival. -/
structure TimedLink where
  node : SwitchNode
  clock : Nat
  peerReady : Nat
  peerPaused : Queue → Bool
  down : List (Nat × Inbound)
  portReady : Nat
  up : List (Nat × SwitchPacket)

inductive TimedEvent where
  | advance (dt : Nat)
  | transmit (p : Inbound)
  | receive
  | reply
  | deliver
  | switch (event : SwitchNode.SwitchEvent)
  deriving DecidableEq

/-- The size of a packet that appears at an event. -/
def TimedEvent.size? : TimedEvent → Option UInt32
  | .transmit p => some p.size
  | .switch (.arrive _ _ _ size) => some size
  | _ => none

/-- An event of the switch that is not one of this link. -/
def SwitchNode.SwitchEvent.elsewhere (port : Port) : SwitchNode.SwitchEvent → Bool
  | .arrive inDev _ _ _ => inDev != port
  | .dequeue out => out != port
  | .recvPfc _ _ _ => true
  | .takeDown _ => false

namespace TimedLink

variable (cfg : LinkConfig)

def start : TimedLink where
  node := SwitchNode.start cfg.mmu
  clock := 0
  peerReady := 0
  peerPaused := fun _ => false
  down := []
  portReady := 0
  up := []

/-- Time passes no arrival, and not while the port is `READY` and has something to send. The peer may send
whenever it is `READY`: it is a host or a switch with any traffic. -/
def timedNext (s : TimedLink) : TimedEvent → Option TimedLink
  | .advance dt =>
      if (∀ x ∈ s.down, s.clock + dt ≤ x.1) ∧ (∀ x ∈ s.up, s.clock + dt ≤ x.1) ∧
          (s.clock + dt ≤ s.portReady ∨ (s.node.dequeue cfg.pauseTime cfg.port).isNone = true) then
        some { s with clock := s.clock + dt }
      else none
  | .transmit p =>
      if s.peerReady ≤ s.clock ∧ s.peerPaused p.qIndex = false then
        some { s with
          peerReady := s.clock + cfg.txTime p.size
          down := s.down ++ [(s.clock + cfg.txTime p.size + cfg.delay, p)] }
      else none
  | .receive =>
      match s.down with
      | [] => none
      | x :: rest =>
          if x.1 ≤ s.clock then
            (SwitchNode.switchNext cfg.pauseTime s.node (.arrive cfg.port x.2.idx x.2.qIndex x.2.size)).map fun node =>
              { s with node := node, down := rest }
          else none
  | .reply =>
      if (s.node.devices cfg.port).linkUp = true ∧ s.portReady ≤ s.clock then
        match s.node.dequeue cfg.pauseTime cfg.port with
        | none => none
        | some (p, node) => some { s with
            node := node
            portReady := s.clock + cfg.txTime p.size
            up := s.up ++ [(s.clock + cfg.txTime p.size + cfg.delay, p)] }
      else none
  | .deliver =>
      match s.up with
      | [] => none
      | x :: rest =>
          if x.1 ≤ s.clock then
            match x.2.kind with
            | .transit _ => some { s with up := rest }
            | .pfc time qIndex => (receivePfc s.peerPaused qIndex time).map fun paused =>
                { s with up := rest, peerPaused := paused }
          else none
  | .switch e =>
      if e.elsewhere cfg.port then (SwitchNode.switchNext cfg.pauseTime s.node e).map fun node => { s with node := node }
      else none

def timedSystem : System TimedLink TimedEvent where
  init := start cfg
  next := timedNext cfg

/-- The packets in queue 0 of the port. -/
def top (s : TimedLink) : List SwitchPacket := ((s.node.devices cfg.port).queue.queues 0).packets

/-- The same without the times. -/
def link (s : TimedLink) : PfcLink where
  node := s.node
  wire := s.up.map Prod.snd
  peerPaused := s.peerPaused

/-- What the peer has been busy sending of a class that is still on the link. -/
def onTheWay (s : TimedLink) (q : Queue) : Nat := Serial.work (fun p => cfg.txTime p.size) (fun p => p.qIndex = q) s.down

/-- The events that happen, each with all that it does. -/
inductive Step (s : TimedLink) : TimedEvent → TimedLink → Prop where
  | advance {dt : Nat} (hdown : ∀ x ∈ s.down, s.clock + dt ≤ x.1) (hup : ∀ x ∈ s.up, s.clock + dt ≤ x.1)
      (hport : s.clock + dt ≤ s.portReady ∨ s.node.dequeue cfg.pauseTime cfg.port = none) :
      Step s (.advance dt) { s with clock := s.clock + dt }
  | transmit {p : Inbound} (hready : s.peerReady ≤ s.clock) (hpaused : s.peerPaused p.qIndex = false) :
      Step s (.transmit p) { s with
        peerReady := s.clock + cfg.txTime p.size
        down := s.down ++ [(s.clock + cfg.txTime p.size + cfg.delay, p)] }
  | receive {x : Nat × Inbound} {rest : List (Nat × Inbound)} {node : SwitchNode} (hdown : s.down = x :: rest)
      (hdue : x.1 ≤ s.clock)
      (hnext : SwitchNode.switchNext cfg.pauseTime s.node (.arrive cfg.port x.2.idx x.2.qIndex x.2.size) = some node) :
      Step s .receive { s with node := node, down := rest }
  | reply {p : SwitchPacket} {node : SwitchNode} (hlink : (s.node.devices cfg.port).linkUp = true)
      (hready : s.portReady ≤ s.clock) (hout : s.node.dequeue cfg.pauseTime cfg.port = some (p, node)) :
      Step s .reply { s with
        node := node
        portReady := s.clock + cfg.txTime p.size
        up := s.up ++ [(s.clock + cfg.txTime p.size + cfg.delay, p)] }
  | data {x : Nat × SwitchPacket} {rest : List (Nat × SwitchPacket)} {inDev : Port} (hup : s.up = x :: rest)
      (hdue : x.1 ≤ s.clock) (hkind : x.2.kind = .transit inDev) : Step s .deliver { s with up := rest }
  | pfc {x : Nat × SwitchPacket} {rest : List (Nat × SwitchPacket)} {time : UInt32} {qIndex : Queue}
      {paused : Queue → Bool} (hup : s.up = x :: rest) (hdue : x.1 ≤ s.clock) (hkind : x.2.kind = .pfc time qIndex)
      (hpaused : receivePfc s.peerPaused qIndex time = some paused) :
      Step s .deliver { s with up := rest, peerPaused := paused }
  | switch {e : SwitchNode.SwitchEvent} {node : SwitchNode} (helsewhere : e.elsewhere cfg.port = true)
      (hnext : SwitchNode.switchNext cfg.pauseTime s.node e = some node) : Step s (.switch e) { s with node := node }

variable {cfg} {s s' : TimedLink} {e : TimedEvent}

theorem timedNext_step (h : timedNext cfg s e = some s') : Step cfg s e s' := by
  cases e with
  | advance dt =>
      simp only [timedNext] at h
      split at h
      · rename_i hguard
        obtain rfl := Option.some.inj h
        exact .advance hguard.1 hguard.2.1 (hguard.2.2.imp id Option.isNone_iff_eq_none.mp)
      · cases h
  | transmit p =>
      simp only [timedNext] at h
      split at h
      · rename_i hguard
        obtain rfl := Option.some.inj h
        exact .transmit hguard.1 hguard.2
      · cases h
  | receive =>
      simp only [timedNext] at h
      split at h
      · cases h
      · rename_i hdown
        split at h
        · rename_i hdue
          obtain ⟨node, hnext, rfl⟩ := Option.map_eq_some_iff.mp h
          exact .receive hdown hdue hnext
        · cases h
  | reply =>
      simp only [timedNext] at h
      split at h
      · rename_i hready
        split at h
        · cases h
        · rename_i hout
          obtain rfl := Option.some.inj h
          exact .reply hready.1 hready.2 hout
      · cases h
  | deliver =>
      simp only [timedNext] at h
      split at h
      · cases h
      · rename_i hup
        split at h
        · rename_i hdue
          split at h
          · rename_i hkind
            obtain rfl := Option.some.inj h
            exact .data hup hdue hkind
          · rename_i hkind
            obtain ⟨paused, hpaused, rfl⟩ := Option.map_eq_some_iff.mp h
            exact .pfc hup hdue hkind hpaused
        · cases h
  | switch event =>
      simp only [timedNext] at h
      split at h
      · rename_i helsewhere
        obtain ⟨node, hnext, rfl⟩ := Option.map_eq_some_iff.mp h
        exact .switch helsewhere hnext
      · cases h

/-- Without the times, a step is one of the protocol of PFC or none. -/
theorem Step.link (h : Step cfg s e s') :
    s'.link = s.link ∨ ∃ e', PfcLink.LinkStays e' ∧ PfcLink.linkNext cfg.pauseTime cfg.port s.link e' = some s'.link := by
  cases h with
  | advance => exact .inl rfl
  | transmit => exact .inl rfl
  | @receive x rest node hdown hdue hnext =>
      refine .inr ⟨.switch (.arrive cfg.port x.2.idx x.2.qIndex x.2.size), trivial, ?_⟩
      simp only [PfcLink.linkNext, TimedLink.link]
      rw [hnext]
      simp [SwitchNode.transmits]
  | @reply p node hlink hready hout =>
      refine .inr ⟨.switch (.dequeue cfg.port), trivial, ?_⟩
      simp only [PfcLink.linkNext, TimedLink.link, SwitchNode.switchNext, SwitchNode.transmits]
      rw [hout]
      simp [hlink]
  | data hup hdue hkind =>
      refine .inr ⟨.deliver, trivial, ?_⟩
      simp only [PfcLink.linkNext, TimedLink.link]
      rw [hup, List.map_cons]
      simp [hkind]
  | pfc hup hdue hkind hpaused =>
      refine .inr ⟨.deliver, trivial, ?_⟩
      simp only [PfcLink.linkNext, TimedLink.link]
      rw [hup, List.map_cons]
      simp [hkind, hpaused]
  | @switch e node helsewhere hnext =>
      refine .inr ⟨.switch e, ?_, ?_⟩
      · cases e with
        | takeDown out => cases helsewhere
        | _ => trivial
      · simp only [PfcLink.linkNext, TimedLink.link]
        rw [hnext]
        cases e with
        | dequeue out =>
            have hne : out ≠ cfg.port := by simpa [SwitchNode.SwitchEvent.elsewhere] using helsewhere
            simp [SwitchNode.transmits, hne]
        | _ => simp [SwitchNode.transmits]

theorem link_step (hpause : 0 < cfg.pauseTime) (h : Step cfg s e s') (hlinked : PfcLink.Linked cfg.port s.link) :
    PfcLink.Linked cfg.port s'.link := by
  rcases h.link with hsame | ⟨e', hstays, hnext⟩
  · rwa [hsame]
  · exact PfcLink.linked_step hpause hlinked hstays hnext

end TimedLink

end Lcmp
