import Mathlib.Data.Nat.Count
import Lcmp.Driver.Reference
import Lcmp.Nic.Groups

/-!
# The flows of the driver and the maps of the hosts

The driver gives every flow of a host pair the next port number, hosts find queue pairs by their address,
port and class, and a receiver finds its state by the same three of the sender. All hosts are modelled
together here, with the packets and acknowledgements under way, each marked with the flow it belongs to.

Start times only say when a flow is scheduled. Packets may be delivered in any order or be lost.
-/

namespace Lcmp

/-- A line of the flow file. -/
structure FlowInput where
  src : UInt32
  dst : UInt32
  pg : UInt32
  dport : UInt32
  flowSize : UInt64

structure FlowFile where
  flowNum : Nat
  line : Nat → FlowInput

/-- The nodes below `node_num` that are hosts have a driver. -/
structure FlowNetConfig extends RdmaHwConfig where
  nodeNum : Nat
  isHost : UInt32 → Bool
  below : ∀ id, isHost id = true → id.toNat < nodeNum

/-- The attributes of the application that `RdmaClientHelper` installs. -/
structure RdmaClient where
  pg : UInt16
  sip : UInt32
  dip : UInt32
  sport : UInt16
  dport : UInt16
  size : UInt64

/-- A data packet of a flow. -/
structure DataPacket where
  sip : UInt32
  dip : UInt32
  sport : UInt16
  dport : UInt16
  pg : UInt16
  frame : DataFrame
  flow : Nat

/-- An ACK or NACK for a data packet of a flow. -/
structure ReplyPacket where
  sip : UInt32
  dip : UInt32
  sport : UInt16
  dport : UInt16
  pg : UInt16
  frame : AckFrame
  flow : Nat

/-- The state of a receiver, with the flow whose packet created it. -/
structure HostRxQp where
  sip : UInt32
  dip : UInt32
  sport : UInt16
  dport : UInt16
  rx : RdmaRxQueuePair
  flow : Nat

/-- Flows are numbered as in the flow file. `completed` says for which of them `QpComplete` was called. -/
structure FlowNet where
  idx : Nat
  portNumder : UInt32 → UInt32 → UInt16
  clients : Nat → Option RdmaClient
  qps : Nat → Option HostQp
  completed : Nat → Bool
  qpMap : UInt32 → UInt64 → Option Nat
  rxQpMap : UInt32 → UInt64 → Option HostRxQp
  data : List DataPacket
  acks : List ReplyPacket

def getRxQpKey (dip : UInt32) (pg dport : UInt16) : UInt64 :=
  (dip.toUInt64 <<< 32) ||| (pg.toUInt64 <<< 16) ||| dport.toUInt64

/-- The state `GetRxQp` creates for a packet. -/
def HostRxQp.new (p : DataPacket) : HostRxQp where
  sip := p.dip
  dip := p.sip
  sport := p.dport
  dport := p.sport
  rx := .new
  flow := p.flow

/-- The header of what `ReceiveUdp` sends back. -/
def DataPacket.reply (p : DataPacket) (frame : AckFrame) : ReplyPacket where
  sip := p.dip
  dip := p.sip
  sport := p.dport
  dport := p.sport
  pg := p.pg
  frame := frame
  flow := p.flow

/-- The packet a queue pair sends. -/
def HostQp.packet (q : HostQp) (frame : DataFrame) (f : Nat) : DataPacket where
  sip := q.sip
  dip := q.dip
  sport := q.sport
  dport := q.dport
  pg := UInt16.ofNat q.qp.mPg.val
  frame := frame
  flow := f

inductive FlowEvent where
  /-- One iteration of the loop of `ScheduleFlowInputs`. -/
  | scheduleFlow
  /-- `AddQueuePair`. The fields of the queue pair that are not set here are those of `qp`. -/
  | startApplication (f : Nat) (qp : RdmaQueuePair)
  | send (f : Nat)
  | receiveUdp (k : Nat) (host : UInt32) (now : Int)
  | receiveAck (k : Nat) (host : UInt32)
  | loseData (k : Nat)
  | loseAck (k : Nat)

namespace FlowNet

/-- Every pair of hosts starts at port 10000. -/
def start (cfg : FlowNetConfig) : FlowNet where
  idx := 0
  portNumder := fun i j => if cfg.isHost i && cfg.isHost j then 10000 else 0
  clients := fun _ => none
  qps := fun _ => none
  completed := fun _ => false
  qpMap := fun _ _ => none
  rxQpMap := fun _ _ => none
  data := []
  acks := []

section Code

variable (cfg : FlowNetConfig) (file : FlowFile)

/-- `ReadFlowInput` asserts that both nodes are hosts. -/
def scheduleFlow (s : FlowNet) : Option FlowNet :=
  if s.idx < file.flowNum then
    let input := file.line s.idx
    if cfg.isHost input.src ∧ cfg.isHost input.dst then
      let port := s.portNumder input.src input.dst
      some { s with
        idx := s.idx + 1
        portNumder := Grid.set s.portNumder input.src input.dst (port + 1)
        clients := Function.update s.clients s.idx (some {
          pg := input.pg.toUInt16
          sip := nodeIdToIp input.src
          dip := nodeIdToIp input.dst
          sport := port
          dport := input.dport.toUInt16
          size := input.flowSize }) }
    else none
  else none

/-- An application starts once. A device reads its flag for the class, of which there are `qCnt`. -/
def startApplication (f : Nat) (qp : RdmaQueuePair) (s : FlowNet) : Option FlowNet :=
  match s.clients f, s.qps f with
  | some c, none =>
      if hpg : c.pg.toNat < qCnt then
        let q : HostQp := {
          sip := c.sip
          dip := c.dip
          sport := c.sport
          dport := c.dport
          qp := { qp with mSize := c.size, sndNxt := 0, sndUna := 0, mPg := ⟨c.pg.toNat, hpg⟩ } }
        some { s with
          qps := Function.update s.qps f (some q)
          qpMap := Grid.set s.qpMap (file.line f).src q.key (some f) }
      else none
  | _, _ => none

/-- A device asks for the next packet of a queue pair while bytes are left, whether or not it is finished. -/
def send (f : Nat) (s : FlowNet) : Option FlowNet :=
  match s.qps f with
  | none => none
  | some q =>
      if q.qp.getBytesLeft > 0 then
        let (frame, qp) := getNxtPacket cfg.toRdmaHwConfig q.qp
        some { s with
          qps := Function.update s.qps f (some { q with qp := qp })
          data := s.data ++ [q.packet frame f] }
      else none

/-- A host has the address of a packet it receives. -/
def Addressed (host dip : UInt32) : Prop := cfg.isHost host = true ∧ nodeIdToIp host = dip

instance (host dip : UInt32) : Decidable (Addressed cfg host dip) := inferInstanceAs (Decidable (_ ∧ _))

def receiveUdp (k : Nat) (host : UInt32) (now : Int) (s : FlowNet) : Option FlowNet :=
  match s.data[k]? with
  | none => none
  | some p =>
      if Addressed cfg host p.dip then
        let key := getRxQpKey p.sip p.pg p.sport
        match Lcmp.receiveUdp cfg.toRdmaHwConfig now p.frame ((s.rxQpMap host key).map HostRxQp.rx) with
        | none => none
        | some (frame, rx) => some { s with
            data := s.data.eraseIdx k
            rxQpMap := Grid.set s.rxQpMap host key (some { (s.rxQpMap host key).getD (.new p) with rx := rx })
            acks := s.acks ++ frame.toList.map p.reply }
      else none

/-- `QpComplete`: `qp_finish` deletes the state of the receiver, then the queue pair leaves the map. A node
without a driver is a null pointer. -/
def qpComplete (host : UInt32) (f : Nat) (q : HostQp) (s : FlowNet) : Option FlowNet :=
  let did := ipToNodeId q.dip
  if cfg.isHost did then
    some { s with
      rxQpMap := Grid.set s.rxQpMap did (getRxQpKey q.sip (UInt16.ofNat q.qp.mPg.val) q.sport) none
      qpMap := Grid.set s.qpMap host q.key none
      completed := Function.update s.completed f true }
  else none

/-- An ACK that finds no queue pair is ignored. -/
def receiveAck (k : Nat) (host : UInt32) (s : FlowNet) : Option FlowNet :=
  match s.acks[k]? with
  | none => none
  | some a =>
      if Addressed cfg host a.dip then
        match s.qpMap host (CcHost.getQpKey a.sip a.dport a.pg) with
        | none => some { s with acks := s.acks.eraseIdx k }
        | some f =>
            match s.qps f with
            | none => none
            | some q =>
                match Lcmp.receiveAck cfg.toRdmaHwConfig a.frame q.qp with
                | none => none
                | some (qp, finished) =>
                    let s := { s with
                      acks := s.acks.eraseIdx k
                      qps := Function.update s.qps f (some { q with qp := qp }) }
                    if finished then s.qpComplete cfg host f { q with qp := qp } else some s
      else none

def flowNext (s : FlowNet) : FlowEvent → Option FlowNet
  | .scheduleFlow => s.scheduleFlow cfg file
  | .startApplication f qp => s.startApplication file f qp
  | .send f => s.send cfg f
  | .receiveUdp k host now => s.receiveUdp cfg k host now
  | .receiveAck k host => s.receiveAck cfg k host
  | .loseData k => some { s with data := s.data.eraseIdx k }
  | .loseAck k => some { s with acks := s.acks.eraseIdx k }

def flowSystem : System FlowNet FlowEvent where
  init := start cfg
  next := flowNext cfg file

end Code

end FlowNet

/-! ### Keys -/

/-- What a key is made of. -/
structure FlowTuple where
  sip : UInt32
  dip : UInt32
  sport : UInt16
  pg : UInt16

namespace FlowTuple

def qpKey (t : FlowTuple) : UInt64 := CcHost.getQpKey t.dip t.sport t.pg

def rxKey (t : FlowTuple) : UInt64 := getRxQpKey t.sip t.pg t.sport

theorem qpKey_inj {t t' : FlowTuple} :
    t.qpKey = t'.qpKey ↔ t.dip = t'.dip ∧ t.sport = t'.sport ∧ t.pg = t'.pg := by
  constructor
  · exact Words.pack_inj
  · rintro ⟨hdip, hsport, hpg⟩
    rw [qpKey, qpKey, hdip, hsport, hpg]

theorem rxKey_inj {t t' : FlowTuple} :
    t.rxKey = t'.rxKey ↔ t.sip = t'.sip ∧ t.pg = t'.pg ∧ t.sport = t'.sport := by
  constructor
  · exact Words.pack_inj
  · rintro ⟨hsip, hpg, hsport⟩
    rw [rxKey, rxKey, hsip, hpg, hsport]

end FlowTuple

def RdmaClient.tuple (c : RdmaClient) : FlowTuple := ⟨c.sip, c.dip, c.sport, c.pg⟩

def HostQp.tuple (q : HostQp) : FlowTuple := ⟨q.sip, q.dip, q.sport, UInt16.ofNat q.qp.mPg.val⟩

def DataPacket.tuple (p : DataPacket) : FlowTuple := ⟨p.sip, p.dip, p.sport, p.pg⟩

theorem HostQp.key_eq (q : HostQp) : q.key = q.tuple.qpKey := by
  rw [HostQp.key]
  rfl

/-- An ACK goes the other way. -/
def ReplyPacket.tuple (a : ReplyPacket) : FlowTuple := ⟨a.dip, a.sip, a.dport, a.pg⟩

namespace FlowFile

variable (file : FlowFile)

/-- How many flows of the same pair come before a flow. -/
def number (f : Nat) : Nat :=
  Nat.count (fun g => (file.line g).src = (file.line f).src ∧ (file.line g).dst = (file.line f).dst) f

/-- What the keys of a flow are made of. -/
def tuple (f : Nat) : FlowTuple where
  sip := nodeIdToIp (file.line f).src
  dip := nodeIdToIp (file.line f).dst
  sport := UInt16.ofNat (10000 + file.number f)
  pg := (file.line f).pg.toUInt16

/-- Two flows of one class whose numbers differ by a multiple of `2^16`, with the same address at the far
end of the same node. -/
structure SharesKey (f g : Nat) : Prop where
  pg : (file.line f).pg.toUInt16 = (file.line g).pg.toUInt16
  number : file.number f % 65536 = file.number g % 65536
  nodes : ((file.line f).src = (file.line g).src ∧ nodeIdToIp (file.line f).dst = nodeIdToIp (file.line g).dst) ∨
    ((file.line f).dst = (file.line g).dst ∧ nodeIdToIp (file.line f).src = nodeIdToIp (file.line g).src)

variable {file} {f g : Nat}

theorem port_inj {a b : Nat} : UInt16.ofNat (10000 + a) = UInt16.ofNat (10000 + b) ↔ a % 65536 = b % 65536 := by
  rw [← UInt16.toNat_inj, UInt16.toNat_ofNat', UInt16.toNat_ofNat']
  show (10000 + a) % 65536 = (10000 + b) % 65536 ↔ _
  omega

/-- Flows share a key exactly when one of the two maps of a host cannot hold both. -/
theorem sharesKey_iff : file.SharesKey f g ↔
    ((file.line f).src = (file.line g).src ∧ (file.tuple f).qpKey = (file.tuple g).qpKey) ∨
    ((file.line f).dst = (file.line g).dst ∧ (file.tuple f).rxKey = (file.tuple g).rxKey) := by
  rw [FlowTuple.qpKey_inj, FlowTuple.rxKey_inj]
  constructor
  · rintro ⟨hpg, hnumber, ⟨hsrc, hdip⟩ | ⟨hdst, hsip⟩⟩
    · exact .inl ⟨hsrc, hdip, port_inj.mpr hnumber, hpg⟩
    · exact .inr ⟨hdst, hsip, hpg, port_inj.mpr hnumber⟩
  · rintro (⟨hsrc, hdip, hsport, hpg⟩ | ⟨hdst, hsip, hpg, hsport⟩)
    · exact ⟨hpg, port_inj.mp hsport, .inl ⟨hsrc, hdip⟩⟩
    · exact ⟨hpg, port_inj.mp hsport, .inr ⟨hdst, hsip⟩⟩

theorem SharesKey.symm (h : file.SharesKey f g) : file.SharesKey g f where
  pg := h.pg.symm
  number := h.number.symm
  nodes := h.nodes.imp (fun h => ⟨h.1.symm, h.2.symm⟩) fun h => ⟨h.1.symm, h.2.symm⟩

end FlowFile

namespace FlowNet

open FlowFile

variable {cfg : FlowNetConfig} {file : FlowFile} {s s' : FlowNet} {f : Nat}

/-! ### What a step does -/

/-- `AddQueuePair` was called for a flow. -/
def Started (s : FlowNet) (f : Nat) : Prop := ∃ q, s.qps f = some q

/-- A flow that is started and not finished. -/
def Unfinished (s : FlowNet) (f : Nat) : Prop := s.Started f ∧ s.completed f = false

/-- A flow of the file between two hosts. -/
structure Known (cfg : FlowNetConfig) (file : FlowFile) (f : Nat) : Prop where
  line : f < file.flowNum
  src : cfg.isHost (file.line f).src = true
  dst : cfg.isHost (file.line f).dst = true

/-- What a step that goes through has done. -/
inductive Moved (cfg : FlowNetConfig) (file : FlowFile) (s : FlowNet) : FlowEvent → FlowNet → Prop where
  | scheduled (c : RdmaClient) (hknown : Known cfg file s.idx)
      (htuple : c.tuple = {
        sip := nodeIdToIp (file.line s.idx).src
        dip := nodeIdToIp (file.line s.idx).dst
        sport := s.portNumder (file.line s.idx).src (file.line s.idx).dst
        pg := (file.line s.idx).pg.toUInt16 }) :
      Moved cfg file s .scheduleFlow { s with
        idx := s.idx + 1
        portNumder := Grid.set s.portNumder (file.line s.idx).src (file.line s.idx).dst
          (s.portNumder (file.line s.idx).src (file.line s.idx).dst + 1)
        clients := Function.update s.clients s.idx (some c) }
  | started {f : Nat} {qp : RdmaQueuePair} {c : RdmaClient} {q : HostQp} (hclient : s.clients f = some c)
      (hnew : s.qps f = none) (htuple : q.tuple = c.tuple) :
      Moved cfg file s (.startApplication f qp) { s with
        qps := Function.update s.qps f (some q)
        qpMap := Grid.set s.qpMap (file.line f).src q.tuple.qpKey (some f) }
  | sent {f : Nat} {q q' : HostQp} {p : DataPacket} (hq : s.qps f = some q) (hleft : q.qp.getBytesLeft > 0)
      (htuple : q'.tuple = q.tuple) (hp : p.tuple = q.tuple) (hflow : p.flow = f) :
      Moved cfg file s (.send f) { s with
        qps := Function.update s.qps f (some q')
        data := s.data ++ [p] }
  | received {k : Nat} {host : UInt32} {now : Int} {p : DataPacket} {r : HostRxQp} {acks : List ReplyPacket}
      (hp : s.data[k]? = some p) (hhost : cfg.isHost host = true) (haddress : nodeIdToIp host = p.dip)
      (howner : r.flow = ((s.rxQpMap host p.tuple.rxKey).getD (.new p)).flow)
      (hacks : ∀ a ∈ acks, a.tuple = p.tuple ∧ a.flow = p.flow) :
      Moved cfg file s (.receiveUdp k host now) { s with
        data := s.data.eraseIdx k
        rxQpMap := Grid.set s.rxQpMap host p.tuple.rxKey (some r)
        acks := s.acks ++ acks }
  | unknown {k : Nat} {host : UInt32} {a : ReplyPacket} (ha : s.acks[k]? = some a)
      (hhost : cfg.isHost host = true) (haddress : nodeIdToIp host = a.dip)
      (hunknown : s.qpMap host a.tuple.qpKey = none) :
      Moved cfg file s (.receiveAck k host) { s with acks := s.acks.eraseIdx k }
  | acknowledged {k : Nat} {host : UInt32} {a : ReplyPacket} {f : Nat} {q q' : HostQp}
      (ha : s.acks[k]? = some a) (hhost : cfg.isHost host = true) (haddress : nodeIdToIp host = a.dip)
      (hfound : s.qpMap host a.tuple.qpKey = some f) (hq : s.qps f = some q) (htuple : q'.tuple = q.tuple) :
      Moved cfg file s (.receiveAck k host) { s with
        acks := s.acks.eraseIdx k
        qps := Function.update s.qps f (some q') }
  | finished {k : Nat} {host : UInt32} {a : ReplyPacket} {f : Nat} {q q' : HostQp}
      (ha : s.acks[k]? = some a) (hhost : cfg.isHost host = true) (haddress : nodeIdToIp host = a.dip)
      (hfound : s.qpMap host a.tuple.qpKey = some f) (hq : s.qps f = some q) (htuple : q'.tuple = q.tuple) :
      Moved cfg file s (.receiveAck k host) { s with
        acks := s.acks.eraseIdx k
        qps := Function.update s.qps f (some q')
        rxQpMap := Grid.set s.rxQpMap (ipToNodeId q.tuple.dip) q.tuple.rxKey none
        qpMap := Grid.set s.qpMap host q.tuple.qpKey none
        completed := Function.update s.completed f true }
  | lostData (k : Nat) : Moved cfg file s (.loseData k) { s with data := s.data.eraseIdx k }
  | lostAck (k : Nat) : Moved cfg file s (.loseAck k) { s with acks := s.acks.eraseIdx k }

theorem tuple_receiveAck {hw : RdmaHwConfig} {frame : AckFrame} {q : HostQp} {qp : RdmaQueuePair} {finished : Bool}
    (h : Lcmp.receiveAck hw frame q.qp = some (qp, finished)) : HostQp.tuple { q with qp := qp } = q.tuple := by
  rw [HostQp.tuple, receiveAck_mPg h]
  rfl

theorem qpComplete_eq {host : UInt32} {q q' : HostQp} (htuple : q'.tuple = q.tuple)
    (h : s.qpComplete cfg host f q' ≠ none) :
    s.qpComplete cfg host f q' = some { s with
      rxQpMap := Grid.set s.rxQpMap (ipToNodeId q.tuple.dip) q.tuple.rxKey none
      qpMap := Grid.set s.qpMap host q.tuple.qpKey none
      completed := Function.update s.completed f true } := by
  rw [← htuple]
  rw [qpComplete] at h ⊢
  split at h
  · rename_i hdriver
    rw [if_pos hdriver]
    rfl
  · exact absurd rfl h

theorem moved {event : FlowEvent} (h : flowNext cfg file s event = some s') : Moved cfg file s event s' := by
  cases event with
  | scheduleFlow =>
      rw [flowNext, scheduleFlow] at h
      split at h
      · rename_i hidx
        dsimp only at h
        split at h
        · rename_i hhosts
          obtain rfl := Option.some.inj h
          exact .scheduled _ ⟨hidx, hhosts.1, hhosts.2⟩ rfl
        · cases h
      · cases h
  | startApplication f qp =>
      rw [flowNext, startApplication] at h
      split at h
      · rename_i c hclient hnew
        split at h
        · rename_i hpg
          obtain rfl := Option.some.inj h
          refine .started hclient hnew ?_
          have hword : UInt16.ofNat c.pg.toNat = c.pg := UInt16.ofNat_toNat
          rw [HostQp.tuple, hword]
          rfl
        · cases h
      · cases h
  | send f =>
      rw [flowNext, send] at h
      split at h
      · cases h
      · rename_i q hq
        split at h
        · rename_i hleft
          obtain rfl := Option.some.inj h
          exact .sent hq hleft rfl rfl rfl
        · cases h
  | receiveUdp k host now =>
      rw [flowNext, receiveUdp] at h
      split at h
      · cases h
      · rename_i p hp
        split at h
        · rename_i haddressed
          dsimp only at h
          split at h
          · cases h
          · rename_i frame rx hudp
            obtain rfl := Option.some.inj h
            refine .received hp haddressed.1 haddressed.2 rfl fun a ha => ?_
            obtain ⟨frame, -, rfl⟩ := List.mem_map.mp ha
            exact ⟨rfl, rfl⟩
        · cases h
  | receiveAck k host =>
      rw [flowNext, receiveAck] at h
      split at h
      · cases h
      · rename_i a ha
        split at h
        · rename_i haddressed
          split at h
          · rename_i hunknown
            obtain rfl := Option.some.inj h
            exact .unknown ha haddressed.1 haddressed.2 hunknown
          · rename_i f hfound
            split at h
            · cases h
            · rename_i q hq
              split at h
              · cases h
              · rename_i qp finished hack
                have htuple := tuple_receiveAck hack
                dsimp only at h
                split at h
                · rw [qpComplete_eq htuple (Option.ne_none_iff_exists'.mpr ⟨s', h⟩)] at h
                  obtain rfl := Option.some.inj h
                  exact .finished ha haddressed.1 haddressed.2 hfound hq htuple
                · obtain rfl := Option.some.inj h
                  exact .acknowledged ha haddressed.1 haddressed.2 hfound hq htuple
        · cases h
  | loseData k =>
      obtain rfl := Option.some.inj h
      exact .lostData k
  | loseAck k =>
      obtain rfl := Option.some.inj h
      exact .lostAck k

/-- What a step does to the queue pairs: nothing, or it moves the counters of one or adds one. -/
inductive QpsMoved (s : FlowNet) (event : FlowEvent) : (Nat → Option HostQp) → Prop where
  | same : QpsMoved s event s.qps
  | counted {f : Nat} {q q' : HostQp} (hq : s.qps f = some q) (htuple : q'.tuple = q.tuple) :
      QpsMoved s event (Function.update s.qps f (some q'))
  | added {f : Nat} {qp : RdmaQueuePair} {c : RdmaClient} {q : HostQp} (hlabel : event = .startApplication f qp)
      (hclient : s.clients f = some c) (hnew : s.qps f = none) (htuple : q.tuple = c.tuple) :
      QpsMoved s event (Function.update s.qps f (some q))

theorem qpsMoved {event : FlowEvent} (h : Moved cfg file s event s') : QpsMoved s event s'.qps := by
  cases h with
  | scheduled c hknown htuple => exact .same
  | started hclient hnew htuple => exact .added rfl hclient hnew htuple
  | sent hq hleft htuple hp hflow => exact .counted hq htuple
  | received hp hhost haddress howner hacks => exact .same
  | unknown ha hhost haddress hunknown => exact .same
  | acknowledged ha hhost haddress hfound hq htuple => exact .counted hq htuple
  | finished ha hhost haddress hfound hq htuple => exact .counted hq htuple
  | lostData k => exact .same
  | lostAck k => exact .same

/-- Only `AddQueuePair` starts a flow. -/
theorem started_of_moved {event : FlowEvent} {g : Nat} (h : Moved cfg file s event s') (hg : s'.Started g) :
    s.Started g ∨ ∃ qp, event = .startApplication g qp := by
  have hqps := qpsMoved h
  obtain ⟨r, hr⟩ := hg
  generalize s'.qps = qps at hqps hr
  cases hqps with
  | same => exact .inl ⟨r, hr⟩
  | @counted f q q' hq htuple =>
      by_cases hgf : g = f
      · subst hgf
        exact .inl ⟨q, hq⟩
      · rw [Function.update_of_ne hgf] at hr
        exact .inl ⟨r, hr⟩
  | @added f qp c q hlabel hclient hnew htuple =>
      by_cases hgf : g = f
      · subst hgf
        exact .inr ⟨qp, hlabel⟩
      · rw [Function.update_of_ne hgf] at hr
        exact .inl ⟨r, hr⟩

theorem started_update {q : HostQp} (f g : Nat) (h : s.Started g) :
    ∃ q', Function.update s.qps f (some q) g = some q' := by
  by_cases hg : g = f
  · subst hg
    exact ⟨q, Function.update_self ..⟩
  · obtain ⟨q', hq'⟩ := h
    exact ⟨q', by rw [Function.update_of_ne hg, hq']⟩

/-- A flow that is started stays so. -/
theorem started_kept {event : FlowEvent} (h : Moved cfg file s event s') (hf : s.Started f) : s'.Started f := by
  have hqps := qpsMoved h
  rw [Started]
  generalize s'.qps = qps at hqps
  cases hqps with
  | same => exact hf
  | counted hq htuple => exact started_update _ f hf
  | added hlabel hclient hnew htuple => exact started_update _ f hf

/-- What a step does to the flows that are finished: nothing, or it adds one that was started. -/
theorem completedMoved {event : FlowEvent} (h : Moved cfg file s event s') :
    s'.completed = s.completed ∨ ∃ f, s.Started f ∧ s'.completed = Function.update s.completed f true := by
  cases h with
  | scheduled c hknown htuple => exact .inl rfl
  | started hclient hnew htuple => exact .inl rfl
  | sent hq hleft htuple hp hflow => exact .inl rfl
  | received hp hhost haddress howner hacks => exact .inl rfl
  | unknown ha hhost haddress hunknown => exact .inl rfl
  | acknowledged ha hhost haddress hfound hq htuple => exact .inl rfl
  | @finished k host a f q q' ha hhost haddress hfound hq htuple => exact .inr ⟨f, ⟨q, hq⟩, rfl⟩
  | lostData k => exact .inl rfl
  | lostAck k => exact .inl rfl

/-- A flow that is finished stays so. -/
theorem completed_of_moved {event : FlowEvent} {g : Nat} (h : Moved cfg file s event s')
    (hopen : s'.completed g = false) : s.completed g = false := by
  rcases completedMoved h with hsame | ⟨f, -, hdone⟩
  · rwa [hsame] at hopen
  · rw [hdone] at hopen
    by_cases hgf : g = f
    · rw [hgf, Function.update_self] at hopen
      cases hopen
    · rwa [Function.update_of_ne hgf] at hopen

theorem unfinished_of_moved {event : FlowEvent} {g : Nat} (h : Moved cfg file s event s') (hg : s'.Unfinished g) :
    s.Unfinished g ∨ ∃ qp, event = .startApplication g qp :=
  (started_of_moved h hg.1).imp (fun hstarted => ⟨hstarted, completed_of_moved h hg.2⟩) id

/-! ### Numbers -/

/-- Ports count the flows of a pair, and everything a flow has is marked with what its line says. -/
structure Numbered (cfg : FlowNetConfig) (file : FlowFile) (s : FlowNet) : Prop where
  ports : ∀ i j, cfg.isHost i = true → cfg.isHost j = true → s.portNumder i j =
    UInt16.ofNat (10000 + Nat.count (fun g => (file.line g).src = i ∧ (file.line g).dst = j) s.idx)
  clients : ∀ f c, s.clients f = some c → Known cfg file f ∧ c.tuple = file.tuple f
  qps : ∀ f q, s.qps f = some q → Known cfg file f ∧ q.tuple = file.tuple f
  completed : ∀ f, s.completed f = true → s.Started f

theorem numbered_start (cfg : FlowNetConfig) (file : FlowFile) : Numbered cfg file (start cfg) where
  ports := fun i j hi hj => by
    show (if cfg.isHost i && cfg.isHost j then (10000 : UInt16) else 0) = _
    rw [hi, hj]
    rfl
  clients := fun f c h => by cases h
  qps := fun f q h => by cases h
  completed := fun f h => by cases h

/-- A queue pair written for a flow whose line it agrees with. -/
theorem Numbered.update (hn : Numbered cfg file s) {q : HostQp} (hknown : Known cfg file f)
    (htuple : q.tuple = file.tuple f) :
    ∀ g r, Function.update s.qps f (some q) g = some r → Known cfg file g ∧ r.tuple = file.tuple g := by
  intro g r hr
  by_cases hg : g = f
  · subst hg
    rw [Function.update_self] at hr
    obtain rfl := Option.some.inj hr
    exact ⟨hknown, htuple⟩
  · rw [Function.update_of_ne hg] at hr
    exact hn.qps g r hr

theorem Numbered.qps_moved (hn : Numbered cfg file s) {event : FlowEvent} (h : Moved cfg file s event s') :
    ∀ g r, s'.qps g = some r → Known cfg file g ∧ r.tuple = file.tuple g := by
  have hqps := qpsMoved h
  generalize s'.qps = qps at hqps
  cases hqps with
  | same => exact hn.qps
  | @counted f q q' hq htuple =>
      obtain ⟨hknown, hfile⟩ := hn.qps f q hq
      exact hn.update hknown (htuple.trans hfile)
  | @added f qp c q hlabel hclient hnew htuple =>
      obtain ⟨hknown, hfile⟩ := hn.clients f c hclient
      exact hn.update hknown (htuple.trans hfile)

theorem Numbered.completed_moved (hn : Numbered cfg file s) {event : FlowEvent} (h : Moved cfg file s event s')
    (g : Nat) (hdone : s'.completed g = true) : s'.Started g := by
  apply started_kept h
  rcases completedMoved h with hsame | ⟨f, hf, hfinished⟩
  · rw [hsame] at hdone
    exact hn.completed g hdone
  · rw [hfinished] at hdone
    by_cases hgf : g = f
    · rw [hgf]
      exact hf
    · rw [Function.update_of_ne hgf] at hdone
      exact hn.completed g hdone

/-- The next flow of a pair gets the next port. -/
theorem Numbered.scheduled (hn : Numbered cfg file s) (hknown : Known cfg file s.idx) :
    (∀ i j, cfg.isHost i = true → cfg.isHost j = true →
      Grid.set s.portNumder (file.line s.idx).src (file.line s.idx).dst
          (s.portNumder (file.line s.idx).src (file.line s.idx).dst + 1) i j =
        UInt16.ofNat (10000 + Nat.count (fun g => (file.line g).src = i ∧ (file.line g).dst = j) (s.idx + 1))) ∧
    s.portNumder (file.line s.idx).src (file.line s.idx).dst = (file.tuple s.idx).sport := by
  have hport := hn.ports _ _ hknown.src hknown.dst
  refine ⟨fun i j hi hj => ?_, hport⟩
  rw [Nat.count_succ]
  by_cases hpair : i = (file.line s.idx).src ∧ j = (file.line s.idx).dst
  · obtain ⟨rfl, rfl⟩ := hpair
    rw [Grid.set_self, hport, if_pos ⟨rfl, rfl⟩, ← Nat.add_assoc]
    exact (UInt16.ofNat_add _ 1).symm
  · rw [Grid.set_of_ne hpair, hn.ports i j hi hj, if_neg fun h => hpair ⟨h.1.symm, h.2.symm⟩, Nat.add_zero]

theorem numbered_step {event : FlowEvent} (hn : Numbered cfg file s) (h : Moved cfg file s event s') :
    Numbered cfg file s' := by
  have hqps := hn.qps_moved h
  have hcompleted := hn.completed_moved h
  cases h with
  | scheduled c hknown htuple =>
      obtain ⟨hports, hport⟩ := hn.scheduled hknown
      refine ⟨hports, fun f c' hc => ?_, hqps, hcompleted⟩
      have hclient : Function.update s.clients s.idx (some c) f = some c' := hc
      by_cases hf : f = s.idx
      · subst hf
        rw [Function.update_self] at hclient
        obtain rfl := Option.some.inj hclient
        refine ⟨hknown, ?_⟩
        rw [htuple, hport]
        rfl
      · rw [Function.update_of_ne hf] at hclient
        exact hn.clients f c' hclient
  | started hclient hnew htuple => exact ⟨hn.ports, hn.clients, hqps, hcompleted⟩
  | sent hq hleft htuple hp hflow => exact ⟨hn.ports, hn.clients, hqps, hcompleted⟩
  | received hp hhost haddress howner hacks => exact ⟨hn.ports, hn.clients, hqps, hcompleted⟩
  | unknown ha hhost haddress hunknown => exact ⟨hn.ports, hn.clients, hqps, hcompleted⟩
  | acknowledged ha hhost haddress hfound hq htuple => exact ⟨hn.ports, hn.clients, hqps, hcompleted⟩
  | finished ha hhost haddress hfound hq htuple => exact ⟨hn.ports, hn.clients, hqps, hcompleted⟩
  | lostData k => exact ⟨hn.ports, hn.clients, hqps, hcompleted⟩
  | lostAck k => exact ⟨hn.ports, hn.clients, hqps, hcompleted⟩

end FlowNet

end Lcmp
