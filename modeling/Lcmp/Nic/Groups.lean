import Lcmp.Congestion.Host
import Lcmp.Lib.Words
import Lcmp.Nic.Wakeup

/-!
# The queue pairs of a host and the groups of its NICs

A queue pair is known to `RdmaHw` by `m_qpMap` and to a NIC by the group it shares with its device. The
two are written at different moments: `QpComplete` takes a queue pair out of the map, the next search of
the device takes it out of the group, and `RedistributeQp` fills the groups anew while the devices search
them. Queue pairs are objects behind pointers here, so that both sides see the same one.
-/

namespace Lcmp

/-- A pointer to a queue pair. -/
abbrev QpPtr := Nat

/-- A queue pair with the addresses and ports it was created with. -/
structure HostQp where
  sip : UInt32
  dip : UInt32
  sport : UInt16
  dport : UInt16
  qp : RdmaQueuePair
  deriving DecidableEq

/-- What `DequeueAndTransmit` reads and writes of a device apart from the group. -/
structure HostDevice where
  linkUp : Bool
  busy : Bool
  paused : Queue → Bool
  rrlast : Nat
  ackQ : List UInt32

/-- `dev` is `NULL` for the loopback device. -/
structure RdmaInterfaceMgr where
  dev : Option HostDevice
  qpGrp : List QpPtr

/-- The pointers handed out so far are those below `created`. `qpMap` lists the entries of `m_qpMap`. -/
structure RdmaHw where
  now : Int
  qps : QpPtr → HostQp
  created : Nat
  nics : List RdmaInterfaceMgr
  qpMap : List (UInt64 × QpPtr)
  rtTable : UInt32 → List Nat

namespace HostQp

/-- The key a queue pair is stored under. -/
def key (q : HostQp) : UInt64 := CcHost.getQpKey q.dip q.sport (UInt16.ofNat q.qp.mPg.val)

end HostQp

namespace RdmaHw

/-- The group of a NIC. Behind the last NIC there is none. -/
def group (h : RdmaHw) (i : Nat) : List QpPtr := (h.nics[i]?).elim [] RdmaInterfaceMgr.qpGrp

def HasDevice (h : RdmaHw) (i : Nat) : Prop := ∃ nic dev, h.nics[i]? = some nic ∧ nic.dev = some dev

def isFinished (h : RdmaHw) (p : QpPtr) : Bool := (h.qps p).qp.isFinished

/-- `m_qpMap[key] = qp`. -/
def mapSet (m : List (UInt64 × QpPtr)) (key : UInt64) (p : QpPtr) : List (UInt64 × QpPtr) :=
  (key, p) :: m.filter fun e => e.1 ≠ key

def mapErase (m : List (UInt64 × QpPtr)) (key : UInt64) : List (UInt64 × QpPtr) :=
  m.filter fun e => e.1 ≠ key

def getQp (h : RdmaHw) (dip : UInt32) (sport pg : UInt16) : Option QpPtr :=
  (h.qpMap.find? fun e => e.1 = CcHost.getQpKey dip sport pg).map Prod.snd

def setNic (h : RdmaHw) (i : Nat) (nic : RdmaInterfaceMgr) : RdmaHw := { h with nics := h.nics.set i nic }

def setQp (h : RdmaHw) (p : QpPtr) (qp : RdmaQueuePair) : RdmaHw :=
  { h with qps := Function.update h.qps p { h.qps p with qp := qp } }

section Code

/- `hash` is `Hash32` of the addresses and ports. A NIC has its own rate. -/
variable (hash : UInt32 → UInt32 → UInt16 → UInt16 → UInt32) (cfg : Nat → NicConfig)

/-- The source asserts that the entry of the table is not empty. -/
def getNicIdxOfQp (h : RdmaHw) (q : HostQp) : Option Nat :=
  let v := h.rtTable q.dip
  v[(hash q.sip q.dip q.sport q.dport).toNat % v.length]?

/-- `GetNextQindex` on the group of a device. -/
def getNextQindex (h : RdmaHw) (dev : HostDevice) (grp : List QpPtr) : QIndex × List QpPtr :=
  if !dev.paused ackQIdx && dev.ackQ.length > 0 then (.highPrio, grp)
  else
    let (res, kept) := RoundRobin.turn
      (fun p => RdmaEgressQueue.eligible dev.paused h.now (h.qps p).qp)
      (fun p => RdmaEgressQueue.marked dev.paused (h.qps p).qp) h.isFinished dev.rrlast grp
    (res.elim .nothing .qp, kept)

/-- `DequeueAndTransmit` of the device of a NIC. The timer it sets when it finds nothing only calls it
again. -/
def dequeueAndTransmit (h : RdmaHw) (i : Nat) : Option RdmaHw := do
  let nic ← h.nics[i]?
  let dev ← nic.dev
  if dev.linkUp = false ∨ dev.busy = true then some h
  else
    match h.getNextQindex dev nic.qpGrp with
    | (.highPrio, grp) =>
        some (h.setNic i { dev := some { dev with ackQ := dev.ackQ.tail, busy := true }, qpGrp := grp })
    | (.qp qIndex, grp) =>
        match grp[qIndex]? with
        | none => none
        | some lastQp =>
            let (frame, qp) := getNxtPacket (cfg i).hw (h.qps lastQp).qp
            let size := frame.payloadSize + (cfg i).headerSize
            some ((h.setNic i { dev := some { dev with rrlast := qIndex, busy := true }, qpGrp := grp }).setQp lastQp
              (pktSent (cfg i) h.now size qp))
    | (.nothing, grp) => some (h.setNic i { nic with qpGrp := grp })

/-- `AddQp` and the call of the device that follows it, `NewQp` or `ReassignedQp`. -/
def assign (h : RdmaHw) (i : Nat) (p : QpPtr) : Option RdmaHw := do
  let nic ← h.nics[i]?
  let _ ← nic.dev
  (h.setNic i { nic with qpGrp := nic.qpGrp ++ [p] }).dequeueAndTransmit cfg i

def addQueuePair (q : HostQp) (h : RdmaHw) : Option RdmaHw := do
  let nicIdx ← h.getNicIdxOfQp hash q
  let qp := { q.qp with
    sndNxt := 0
    sndUna := 0
    mRate := (cfg nicIdx).mBps
    mMaxRate := (cfg nicIdx).mBps
    mNextAvail := h.now }
  { h with
    qps := Function.update h.qps h.created { q with qp := qp }
    created := h.created + 1
    qpMap := mapSet h.qpMap q.key h.created }.assign cfg nicIdx h.created

def deleteQueuePair (h : RdmaHw) (p : QpPtr) : RdmaHw := { h with qpMap := mapErase h.qpMap (h.qps p).key }

/-- `ReceiveAck`, with what congestion control makes of the rate and the time as inputs. -/
def receiveAck (sip : UInt32) (dport pg : UInt16) (frame : AckFrame) (rate : UInt64) (nextAvail : Int)
    (h : RdmaHw) : Option RdmaHw :=
  match h.getQp sip dport pg with
  | none => some h
  | some p => do
      let nicIdx ← h.getNicIdxOfQp hash (h.qps p)
      let (qp, finished) ← Lcmp.receiveAck (cfg nicIdx).hw frame (h.qps p).qp
      let h := h.setQp p { qp with mRate := rate, mNextAvail := nextAvail }
      (if finished then h.deleteQueuePair p else h).dequeueAndTransmit cfg nicIdx

/-- The loop over the NICs that empties the groups. -/
def clearGroups (h : RdmaHw) : RdmaHw :=
  { h with nics := h.nics.map fun nic => if nic.dev.isNone then nic else { nic with qpGrp := [] } }

/-- The body of the loop over `m_qpMap`. -/
def reassign (h : RdmaHw) (p : QpPtr) : Option RdmaHw := do
  let nicIdx ← h.getNicIdxOfQp hash (h.qps p)
  h.assign cfg nicIdx p

/-- `order` is the order in which the map hands out its entries. -/
def redistributeQp (order : List (UInt64 × QpPtr)) (h : RdmaHw) : Option RdmaHw :=
  if order.Perm h.qpMap then (order.map Prod.snd).foldlM (reassign hash cfg) h.clearGroups else none

/-! ### Runs -/

inductive HwEvent where
  | addQueuePair (q : HostQp)
  | receiveAck (sip : UInt32) (dport pg : UInt16) (frame : AckFrame) (rate : UInt64) (nextAvail : Int)
  /-- A call of `DequeueAndTransmit`, by a timer, a frame or the end of a transmission. -/
  | dequeueAndTransmit (i : Nat)
  /-- `ClearTable` and the calls of `AddTableEntry` after it. -/
  | setTable (rtTable : UInt32 → List Nat)
  | redistributeQp (order : List (UInt64 × QpPtr))
  /-- Whatever else happens to a device: its link, its transmitter, PFC frames and ACKs to send. -/
  | device (i : Nat) (dev : HostDevice)
  /-- A timer of congestion control. -/
  | rate (p : QpPtr) (rate : UInt64) (nextAvail : Int)
  | advance (now : Int)

def hwNext (h : RdmaHw) : HwEvent → Option RdmaHw
  | .addQueuePair q => h.addQueuePair hash cfg q
  | .receiveAck sip dport pg frame rate nextAvail => h.receiveAck hash cfg sip dport pg frame rate nextAvail
  | .dequeueAndTransmit i => h.dequeueAndTransmit cfg i
  | .setTable rtTable => some { h with rtTable := rtTable }
  | .redistributeQp order => h.redistributeQp hash cfg order
  | .device i dev => do
      let nic ← h.nics[i]?
      let _ ← nic.dev
      some (h.setNic i { nic with dev := some dev })
  | .rate p rate nextAvail => some (h.setQp p { (h.qps p).qp with mRate := rate, mNextAvail := nextAvail })
  | .advance now => some { h with now := now }

/-- A host with the given devices, without queue pairs. `uninit` is what memory holds elsewhere. -/
def start (devs : List (Option HostDevice)) (rtTable : UInt32 → List Nat) (uninit : HostQp) : RdmaHw where
  now := 0
  qps := fun _ => uninit
  created := 0
  nics := devs.map fun dev => { dev := dev, qpGrp := [] }
  qpMap := []
  rtTable := rtTable

def hwSystem (devs : List (Option HostDevice)) (rtTable : UInt32 → List Nat) (uninit : HostQp) :
    System RdmaHw HwEvent where
  init := start devs rtTable uninit
  next := hwNext hash cfg

end Code

/-! ### What a search leaves of the groups -/

/-- A queue pair keeps its identity and the counters that say whether it is finished. -/
structure SameFlow (q q' : HostQp) : Prop where
  addresses : q'.sip = q.sip ∧ q'.dip = q.dip ∧ q'.sport = q.sport ∧ q'.dport = q.dport
  key : q'.key = q.key
  isFinished : q'.qp.isFinished = q.qp.isFinished

theorem SameFlow.refl (q : HostQp) : SameFlow q q := ⟨⟨rfl, rfl, rfl, rfl⟩, rfl, rfl⟩

theorem SameFlow.trans {q q' q'' : HostQp} (h : SameFlow q q') (h' : SameFlow q' q'') : SameFlow q q'' where
  addresses := ⟨h'.addresses.1.trans h.addresses.1, h'.addresses.2.1.trans h.addresses.2.1,
    h'.addresses.2.2.1.trans h.addresses.2.2.1, h'.addresses.2.2.2.trans h.addresses.2.2.2⟩
  key := h'.key.trans h.key
  isFinished := h'.isFinished.trans h.isFinished

/-- A step that neither creates nor completes a queue pair. -/
structure Keeps (h h' : RdmaHw) : Prop where
  qpMap : h'.qpMap = h.qpMap
  created : h'.created = h.created
  rtTable : h'.rtTable = h.rtTable
  flow : ∀ p, SameFlow (h.qps p) (h'.qps p)
  hasDevice : ∀ i, h'.HasDevice i ↔ h.HasDevice i

/-- Such a step that only takes finished queue pairs out of the groups. -/
structure Serves (h h' : RdmaHw) : Prop extends Keeps h h' where
  sublist : ∀ i, (h'.group i).Sublist (h.group i)
  kept : ∀ i, ∀ p ∈ h.group i, h.isFinished p = false → p ∈ h'.group i

theorem Keeps.refl (h : RdmaHw) : Keeps h h := ⟨rfl, rfl, rfl, fun _ => .refl _, fun _ => Iff.rfl⟩

theorem Keeps.trans {h h' h'' : RdmaHw} (hk : Keeps h h') (hk' : Keeps h' h'') : Keeps h h'' where
  qpMap := hk'.qpMap.trans hk.qpMap
  created := hk'.created.trans hk.created
  rtTable := hk'.rtTable.trans hk.rtTable
  flow := fun p => (hk.flow p).trans (hk'.flow p)
  hasDevice := fun i => (hk'.hasDevice i).trans (hk.hasDevice i)

theorem Keeps.isFinished {h h' : RdmaHw} (hk : Keeps h h') (p : QpPtr) : h'.isFinished p = h.isFinished p :=
  (hk.flow p).isFinished

theorem Serves.refl (h : RdmaHw) : Serves h h := ⟨.refl h, fun _ => .refl _, fun _ _ hp _ => hp⟩

theorem Serves.trans {h h' h'' : RdmaHw} (hs : Serves h h') (hs' : Serves h' h'') : Serves h h'' where
  toKeeps := hs.toKeeps.trans hs'.toKeeps
  sublist := fun i => (hs'.sublist i).trans (hs.sublist i)
  kept := fun i p hp hopen => hs'.kept i p (hs.kept i p hp hopen) (by rw [hs.isFinished, hopen])

variable {hash : UInt32 → UInt32 → UInt16 → UInt16 → UInt32} {cfg : Nat → NicConfig} {h h' : RdmaHw}

theorem Keeps.getNicIdxOfQp (hk : Keeps h h') (p : QpPtr) :
    h'.getNicIdxOfQp hash (h'.qps p) = h.getNicIdxOfQp hash (h.qps p) := by
  obtain ⟨hsip, hdip, hsport, hdport⟩ := (hk.flow p).addresses
  rw [RdmaHw.getNicIdxOfQp, RdmaHw.getNicIdxOfQp, hk.rtTable, hsip, hdip, hsport, hdport]

theorem group_of_nic {i : Nat} {nic : RdmaInterfaceMgr} (hnic : h.nics[i]? = some nic) : h.group i = nic.qpGrp := by
  rw [group, hnic]
  rfl

theorem setNic_self {i : Nat} {nic nic' : RdmaInterfaceMgr} (hnic : h.nics[i]? = some nic) :
    (h.setNic i nic').nics[i]? = some nic' := by
  obtain ⟨hlt, -⟩ := List.getElem?_eq_some_iff.mp hnic
  exact List.getElem?_set_self hlt

theorem setNic_of_ne {i j : Nat} (nic : RdmaInterfaceMgr) (hne : i ≠ j) : (h.setNic i nic).nics[j]? = h.nics[j]? :=
  List.getElem?_set_ne hne

/-- Only the group of the NIC that is written changes. -/
theorem group_setNic {i : Nat} {nic nic' : RdmaInterfaceMgr} (hnic : h.nics[i]? = some nic) (j : Nat) :
    (h.setNic i nic').group j = if j = i then nic'.qpGrp else h.group j := by
  split
  · rename_i heq
    rw [heq, group_of_nic (setNic_self hnic)]
  · rename_i hne
    rw [group, group, setNic_of_ne nic' (Ne.symm hne)]

theorem hasDevice_setNic {i : Nat} {nic nic' : RdmaInterfaceMgr} {dev dev' : HostDevice}
    (hnic : h.nics[i]? = some nic) (hdev : nic.dev = some dev) (hdev' : nic'.dev = some dev') (j : Nat) :
    (h.setNic i nic').HasDevice j ↔ h.HasDevice j := by
  by_cases hj : j = i
  · subst hj
    exact iff_of_true ⟨nic', dev', setNic_self hnic, hdev'⟩ ⟨nic, dev, hnic, hdev⟩
  · rw [HasDevice, HasDevice, setNic_of_ne nic' (Ne.symm hj)]

theorem setQp_self (p : QpPtr) (qp : RdmaQueuePair) : (h.setQp p qp).qps p = { h.qps p with qp := qp } :=
  Function.update_self ..

theorem setQp_of_ne {p p' : QpPtr} (qp : RdmaQueuePair) (hne : p' ≠ p) : (h.setQp p qp).qps p' = h.qps p' :=
  Function.update_of_ne hne ..

theorem sameFlow_setQp (p : QpPtr) {qp : RdmaQueuePair} (hpg : qp.mPg = (h.qps p).qp.mPg)
    (hfinished : qp.isFinished = (h.qps p).qp.isFinished) (p' : QpPtr) :
    SameFlow (h.qps p') ((h.setQp p qp).qps p') := by
  by_cases hp : p' = p
  · subst hp
    rw [setQp_self]
    exact ⟨⟨rfl, rfl, rfl, rfl⟩, by rw [HostQp.key, HostQp.key, hpg], hfinished⟩
  · rw [setQp_of_ne qp hp]
    exact .refl _

theorem serves_setQp (p : QpPtr) {qp : RdmaQueuePair} (hpg : qp.mPg = (h.qps p).qp.mPg)
    (hfinished : qp.isFinished = (h.qps p).qp.isFinished) : Serves h (h.setQp p qp) where
  toKeeps := ⟨rfl, rfl, rfl, sameFlow_setQp p hpg hfinished, fun _ => Iff.rfl⟩
  sublist := fun _ => .refl _
  kept := fun _ _ hp _ => hp

theorem serves_setNic {i : Nat} {nic nic' : RdmaInterfaceMgr} {dev dev' : HostDevice}
    (hnic : h.nics[i]? = some nic) (hdev : nic.dev = some dev) (hdev' : nic'.dev = some dev')
    (hsub : nic'.qpGrp.Sublist nic.qpGrp) (hkept : ∀ p ∈ nic.qpGrp, h.isFinished p = false → p ∈ nic'.qpGrp) :
    Serves h (h.setNic i nic') where
  toKeeps := ⟨rfl, rfl, rfl, fun _ => .refl _, hasDevice_setNic hnic hdev hdev'⟩
  sublist := by
    intro j
    rw [group_setNic hnic]
    split
    · rename_i hj
      rw [hj, group_of_nic hnic]
      exact hsub
    · exact .refl _
  kept := by
    intro j p hp hopen
    rw [group_setNic hnic]
    split
    · rename_i hj
      rw [hj, group_of_nic hnic] at hp
      exact hkept p hp hopen
    · exact hp

/-- The search on pointers is the search on the queue pairs they lead to. -/
theorem getNextQindex_load (h : RdmaHw) (dev : HostDevice) (grp : List QpPtr) :
    RdmaEgressQueue.getNextQindex dev.paused h.now
        { rrlast := dev.rrlast, ackQ := dev.ackQ, qps := grp.map fun p => (h.qps p).qp } =
      ((h.getNextQindex dev grp).1,
        { rrlast := dev.rrlast, ackQ := dev.ackQ, qps := (h.getNextQindex dev grp).2.map fun p => (h.qps p).qp }) := by
  rw [getNextQindex]
  split
  · rename_i hserved
    rw [RdmaEgressQueue.getNextQindex, if_pos hserved]
  · rename_i hskip
    have hack : dev.paused ackQIdx = true ∨ dev.ackQ = [] := by
      by_contra hcontra
      rw [not_or, Bool.not_eq_true] at hcontra
      apply hskip
      rw [hcontra.1, Bool.not_false, Bool.true_and, decide_eq_true_eq]
      exact List.length_pos_iff.mpr hcontra.2
    have hturn := RoundRobin.turn_map (RdmaEgressQueue.eligible dev.paused h.now) (RdmaEgressQueue.marked dev.paused)
      RdmaQueuePair.isFinished (fun p => (h.qps p).qp) dev.rrlast grp
    rw [@RdmaEgressQueue.getNextQindex_turn _ _ ⟨dev.rrlast, dev.ackQ, _⟩ hack]
    simp only [hturn]
    rfl

/-- A search leaves a part of the group, and everything of it that is not finished. -/
theorem getNextQindex_kept (h : RdmaHw) (dev : HostDevice) (grp : List QpPtr) :
    (h.getNextQindex dev grp).2.Sublist grp ∧
      ∀ p ∈ grp, h.isFinished p = false → p ∈ (h.getNextQindex dev grp).2 := by
  rw [getNextQindex]
  split
  · exact ⟨.refl _, fun p hp _ => hp⟩
  · have hcleaned := RoundRobin.turn_cleaned
      (fun p => RdmaEgressQueue.eligible dev.paused h.now (h.qps p).qp)
      (fun p => RdmaEgressQueue.marked dev.paused (h.qps p).qp) h.isFinished dev.rrlast grp
    exact ⟨hcleaned.sublist,
      fun p hp hopen => hcleaned.mem (fun _ => RdmaEgressQueue.isFinished_of_marked) hp hopen⟩

theorem isFinished_pktSent (cfg : NicConfig) (now : Int) (size : UInt32) (qp : RdmaQueuePair) :
    (pktSent cfg now size (getNxtPacket cfg.hw qp).2).isFinished = qp.isFinished := rfl

theorem serves_dequeueAndTransmit {i : Nat} (hstep : h.dequeueAndTransmit cfg i = some h') : Serves h h' := by
  unfold dequeueAndTransmit at hstep
  obtain ⟨nic, hnic, hstep⟩ := Option.bind_eq_some_iff.mp hstep
  obtain ⟨dev, hdev, hstep⟩ := Option.bind_eq_some_iff.mp hstep
  split at hstep
  · obtain rfl := Option.some.inj hstep
    exact .refl h
  · obtain ⟨hsub, hkept⟩ := h.getNextQindex_kept dev nic.qpGrp
    generalize h.getNextQindex dev nic.qpGrp = answer at hstep hsub hkept
    obtain ⟨qIndex, grp⟩ := answer
    cases qIndex with
    | highPrio =>
        obtain rfl := Option.some.inj hstep
        exact serves_setNic hnic hdev rfl hsub hkept
    | qp idx =>
        dsimp only at hstep
        split at hstep
        · cases hstep
        · obtain rfl := Option.some.inj hstep
          exact (serves_setNic hnic hdev rfl hsub hkept).trans (serves_setQp _ rfl (isFinished_pktSent _ _ _ _))
    | nothing =>
        obtain rfl := Option.some.inj hstep
        exact serves_setNic hnic hdev hdev hsub hkept

/-- A search that finds something in a group without finished queue pairs finds an index of what it leaves. -/
theorem getNextQindex_found {dev : HostDevice} {grp kept : List QpPtr} {idx : Nat}
    (hopen : ∀ p ∈ grp, h.isFinished p = false) (hfound : h.getNextQindex dev grp = (.qp idx, kept)) :
    ∃ p, kept[idx]? = some p := by
  rw [getNextQindex] at hfound
  split at hfound
  · cases (Prod.mk.inj hfound).1
  · cases hturn : RoundRobin.turn (fun p => RdmaEgressQueue.eligible dev.paused h.now (h.qps p).qp)
      (fun p => RdmaEgressQueue.marked dev.paused (h.qps p).qp) h.isFinished dev.rrlast grp with
    | mk res ys =>
    rw [hturn] at hfound
    obtain ⟨hres, rfl⟩ := Prod.mk.inj hfound
    cases res with
    | none => cases hres
    | some idx' =>
        cases hres
        obtain ⟨k, p, hpick, htracks⟩ := RoundRobin.turn_some hturn
        have hmem : p ∈ grp := RoundRobin.mem_cycle.mp (List.mem_of_getElem? hpick.visited)
        obtain ⟨front, back, -, -, front', back', hkept, hidx, -, -⟩ := htracks (hopen p hmem)
        refine ⟨p, ?_⟩
        rw [hkept, Option.some.inj hidx, List.getElem?_append_right (Nat.le_refl _), Nat.sub_self]
        rfl

theorem dequeueAndTransmit_ne_none (cfg : Nat → NicConfig) {i : Nat} (hdevice : h.HasDevice i)
    (hopen : ∀ p ∈ h.group i, h.isFinished p = false) : ∃ h', h.dequeueAndTransmit cfg i = some h' := by
  obtain ⟨nic, dev, hnic, hdev⟩ := hdevice
  rw [group_of_nic hnic] at hopen
  unfold dequeueAndTransmit
  rw [hnic, Option.bind_eq_bind, Option.bind_some, hdev, Option.bind_eq_bind, Option.bind_some]
  split
  · exact ⟨h, rfl⟩
  · cases hanswer : h.getNextQindex dev nic.qpGrp with
    | mk qIndex grp =>
    cases qIndex with
    | highPrio => exact ⟨_, rfl⟩
    | qp idx =>
        obtain ⟨p, hp⟩ := getNextQindex_found hopen hanswer
        dsimp only
        rw [hp]
        exact ⟨_, rfl⟩
    | nothing => exact ⟨_, rfl⟩

/-! ### Groups without repetition -/

/-- No queue pair is in two places, and only a NIC with a device has queue pairs. -/
structure Grouped (h : RdmaHw) : Prop where
  nodup : ∀ i, (h.group i).Nodup
  apart : ∀ i j p, p ∈ h.group i → p ∈ h.group j → i = j
  hasDevice : ∀ i p, p ∈ h.group i → h.HasDevice i

/-- A queue pair occurs once in the group of one NIC and in no other group. -/
structure InOneGroup (h : RdmaHw) (p : QpPtr) (i : Nat) : Prop where
  once : (h.group i).count p = 1
  only : ∀ j, p ∈ h.group j → j = i

theorem Grouped.inOneGroup (hg : Grouped h) {p : QpPtr} {i : Nat} (hp : p ∈ h.group i) : InOneGroup h p i where
  once := List.count_eq_one_of_mem (hg.nodup i) hp
  only := fun j hj => hg.apart j i p hj hp

theorem Grouped.serves (hg : Grouped h) (hs : Serves h h') : Grouped h' where
  nodup := fun i => (hg.nodup i).sublist (hs.sublist i)
  apart := fun i j p hi hj => hg.apart i j p ((hs.sublist i).subset hi) ((hs.sublist j).subset hj)
  hasDevice := fun i p hp => (hs.hasDevice i).mpr (hg.hasDevice i p ((hs.sublist i).subset hp))

/-- What is in the groups after `AddQp`. -/
theorem mem_group_append {i : Nat} {nic : RdmaInterfaceMgr} (hnic : h.nics[i]? = some nic) (p : QpPtr) {j : Nat}
    {p' : QpPtr} : p' ∈ (h.setNic i { nic with qpGrp := nic.qpGrp ++ [p] }).group j ↔
      p' ∈ h.group j ∨ (p' = p ∧ j = i) := by
  rw [group_setNic hnic]
  split
  · rename_i hj
    rw [hj, group_of_nic hnic, List.mem_append, List.mem_singleton]
    simp
  · rename_i hj
    simp [hj]

theorem keeps_append {i : Nat} {nic : RdmaInterfaceMgr} {dev : HostDevice} (hnic : h.nics[i]? = some nic)
    (hdev : nic.dev = some dev) (p : QpPtr) : Keeps h (h.setNic i { nic with qpGrp := nic.qpGrp ++ [p] }) :=
  ⟨rfl, rfl, rfl, fun _ => .refl _, hasDevice_setNic hnic hdev hdev⟩

theorem Grouped.append (hg : Grouped h) {i : Nat} {nic : RdmaInterfaceMgr} {dev : HostDevice}
    (hnic : h.nics[i]? = some nic) (hdev : nic.dev = some dev) {p : QpPtr} (hnew : ∀ j, p ∉ h.group j) :
    Grouped (h.setNic i { nic with qpGrp := nic.qpGrp ++ [p] }) where
  nodup := by
    intro j
    rw [group_setNic hnic]
    split
    · have hnodup := hg.nodup i
      have hnot := hnew i
      rw [group_of_nic hnic] at hnodup hnot
      exact List.nodup_append.mpr ⟨hnodup, List.nodup_singleton p, fun a ha b hb hab => by
        rw [List.mem_singleton.mp hb] at hab
        exact hnot (hab ▸ ha)⟩
    · exact hg.nodup j
  apart := by
    intro j k p' hj hk
    rw [mem_group_append hnic] at hj hk
    rcases hj with hj | ⟨hp, rfl⟩
    · rcases hk with hk | ⟨rfl, -⟩
      · exact hg.apart j k p' hj hk
      · exact absurd hj (hnew j)
    · rcases hk with hk | ⟨-, rfl⟩
      · exact absurd (hp ▸ hk) (hnew k)
      · rfl
  hasDevice := by
    intro j p' hp'
    apply ((keeps_append hnic hdev p).hasDevice j).mpr
    rcases (mem_group_append hnic p).mp hp' with hp' | ⟨-, rfl⟩
    · exact hg.hasDevice j p' hp'
    · exact ⟨nic, dev, hnic, hdev⟩

theorem assign_eq_some {i : Nat} {p : QpPtr} (hstep : h.assign cfg i p = some h') :
    ∃ nic dev, h.nics[i]? = some nic ∧ nic.dev = some dev ∧
      Serves (h.setNic i { nic with qpGrp := nic.qpGrp ++ [p] }) h' := by
  unfold assign at hstep
  obtain ⟨nic, hnic, hstep⟩ := Option.bind_eq_some_iff.mp hstep
  obtain ⟨dev, hdev, hstep⟩ := Option.bind_eq_some_iff.mp hstep
  exact ⟨nic, dev, hnic, hdev, serves_dequeueAndTransmit hstep⟩

/-! ### The map and the groups -/

/-- The map holds exactly the queue pairs that are not finished, and each of them is in a group. -/
structure Placed (h : RdmaHw) : Prop where
  entry : ∀ e ∈ h.qpMap, e.1 = (h.qps e.2).key ∧ e.2 < h.created ∧ h.isFinished e.2 = false
  keys : (h.qpMap.map Prod.fst).Nodup
  live : ∀ p < h.created, h.isFinished p = false → ((h.qps p).key, p) ∈ h.qpMap
  grouped : Grouped h
  known : ∀ i, ∀ p ∈ h.group i, p < h.created
  held : ∀ e ∈ h.qpMap, ∃ i, e.2 ∈ h.group i

/-- A step that keeps the queue pairs only has to be followed in the groups. -/
theorem Placed.keeps (hp : Placed h) (hk : Keeps h h') (hgrouped : Grouped h')
    (hknown : ∀ i, ∀ p ∈ h'.group i, p < h.created) (hheld : ∀ e ∈ h.qpMap, ∃ i, e.2 ∈ h'.group i) : Placed h' where
  entry := by
    intro e he
    rw [hk.qpMap] at he
    obtain ⟨hkey, hlt, hopen⟩ := hp.entry e he
    exact ⟨hkey.trans (hk.flow e.2).key.symm, by rwa [hk.created], by rwa [hk.isFinished]⟩
  keys := by
    rw [hk.qpMap]
    exact hp.keys
  live := by
    intro p hlt hopen
    rw [hk.created] at hlt
    rw [hk.isFinished] at hopen
    rw [hk.qpMap, (hk.flow p).key]
    exact hp.live p hlt hopen
  grouped := hgrouped
  known := by
    rw [hk.created]
    exact hknown
  held := by
    rw [hk.qpMap]
    exact hheld

theorem Placed.serves (hp : Placed h) (hs : Serves h h') : Placed h' := by
  refine hp.keeps hs.toKeeps (hp.grouped.serves hs) (fun i p hmem => ?_) (fun e he => ?_)
  · exact hp.known i p ((hs.sublist i).subset hmem)
  · obtain ⟨i, hi⟩ := hp.held e he
    exact ⟨i, hs.kept i e.2 hi (hp.entry e he).2.2⟩

theorem Placed.eq_of_key (hp : Placed h) {p p' : QpPtr} {key : UInt64} (hm : (key, p) ∈ h.qpMap)
    (hm' : (key, p') ∈ h.qpMap) : p = p' :=
  (Prod.mk.inj (List.inj_on_of_nodup_map hp.keys hm hm' rfl)).2

/-- The pointers in the map are distinct. -/
theorem Placed.pointers (hp : Placed h) : (h.qpMap.map Prod.snd).Nodup := by
  have hnodup : h.qpMap.Nodup := List.Nodup.of_map _ hp.keys
  refine hnodup.map_on fun e he e' he' heq => ?_
  have hkey := (hp.entry e he).1
  rw [heq, ← (hp.entry e' he').1] at hkey
  exact Prod.ext hkey heq

theorem placed_start (devs : List (Option HostDevice)) (rtTable : UInt32 → List Nat) (uninit : HostQp) :
    Placed (start devs rtTable uninit) := by
  have hempty : ∀ i, (start devs rtTable uninit).group i = [] := by
    intro i
    rw [group, start, List.getElem?_map]
    cases devs[i]? with
    | none => rfl
    | some dev => rfl
  refine ⟨nofun, List.nodup_nil, nofun, ⟨fun i => ?_, fun i j p hi => ?_, fun i p hi => ?_⟩, fun i p hi => ?_, nofun⟩
  · rw [hempty]
    exact List.nodup_nil
  · rw [hempty] at hi
    cases hi
  · rw [hempty] at hi
    cases hi
  · rw [hempty] at hi
    cases hi

/-- The flows that are started: at least one byte, and no other unfinished flow of the host has the same
destination, source port and class. -/
def Starts (h : RdmaHw) : HwEvent → Prop
  | .addQueuePair q => 0 < q.qp.mSize ∧ ∀ p < h.created, h.isFinished p = false →
      ¬((h.qps p).dip = q.dip ∧ (h.qps p).sport = q.sport ∧ (h.qps p).qp.mPg = q.qp.mPg)
  | _ => True

theorem key_inj {q q' : HostQp} (hkey : q.key = q'.key) :
    q.dip = q'.dip ∧ q.sport = q'.sport ∧ q.qp.mPg = q'.qp.mPg := by
  obtain ⟨hdip, hsport, hpg⟩ := Words.pack_inj hkey
  refine ⟨hdip, hsport, Fin.ext ?_⟩
  have hword := congrArg UInt16.toNat hpg
  have hlt : q.qp.mPg.val < 8 := q.qp.mPg.isLt
  have hlt' : q'.qp.mPg.val < 8 := q'.qp.mPg.isLt
  rwa [UInt16.toNat_ofNat_of_lt' (by show _ < 2 ^ 16; omega), UInt16.toNat_ofNat_of_lt' (by show _ < 2 ^ 16; omega)]
    at hword

/-- The state in which a new queue pair is in the map and in the group of NIC `i`, before the device is
told. -/
theorem Placed.create (hp : Placed h) {q q' : HostQp} (hkey : q'.key = q.key) (hopen : q'.qp.isFinished = false)
    (hfresh : ∀ p < h.created, h.isFinished p = false → (h.qps p).key ≠ q.key) {i : Nat} {nic : RdmaInterfaceMgr}
    {dev : HostDevice} (hnic : h.nics[i]? = some nic) (hdev : nic.dev = some dev) :
    Placed ({ h with
      qps := Function.update h.qps h.created q'
      created := h.created + 1
      qpMap := mapSet h.qpMap q.key h.created }.setNic i { nic with qpGrp := nic.qpGrp ++ [h.created] }) := by
  have hnew : ∀ j, h.created ∉ h.group j := fun j hmem => Nat.lt_irrefl _ (hp.known j _ hmem)
  have hgrouped := hp.grouped.append hnic hdev hnew
  have hself : Function.update h.qps h.created q' h.created = q' := Function.update_self ..
  have hother : ∀ p, p < h.created → Function.update h.qps h.created q' p = h.qps p :=
    fun p hlt => Function.update_of_ne (Nat.ne_of_lt hlt) ..
  constructor
  case entry =>
    intro e he
    rcases List.mem_cons.mp he with rfl | he
    · refine ⟨?_, Nat.lt_succ_self _, ?_⟩
      · show q.key = (Function.update h.qps h.created q' h.created).key
        rw [hself, hkey]
      · show (Function.update h.qps h.created q' h.created).qp.isFinished = false
        rw [hself, hopen]
    · obtain ⟨he, -⟩ := List.mem_filter.mp he
      obtain ⟨hekey, hlt, heopen⟩ := hp.entry e he
      refine ⟨?_, Nat.lt_succ_of_lt hlt, ?_⟩
      · show e.1 = (Function.update h.qps h.created q' e.2).key
        rw [hother e.2 hlt, hekey]
      · show (Function.update h.qps h.created q' e.2).qp.isFinished = false
        rw [hother e.2 hlt]
        exact heopen
  case keys =>
    refine List.nodup_cons.mpr ⟨?_, hp.keys.sublist (List.Sublist.map _ List.filter_sublist)⟩
    intro hmem
    obtain ⟨e, he, heq⟩ := List.mem_map.mp hmem
    exact of_decide_eq_true (List.mem_filter.mp he).2 heq
  case live =>
    intro p hlt hpopen
    show ((Function.update h.qps h.created q' p).key, p) ∈ mapSet h.qpMap q.key h.created
    rcases Nat.lt_succ_iff_lt_or_eq.mp hlt with hlt | rfl
    · have hpopen' : (Function.update h.qps h.created q' p).qp.isFinished = false := hpopen
      rw [hother p hlt] at hpopen' ⊢
      refine List.mem_cons_of_mem _ (List.mem_filter.mpr ⟨hp.live p hlt hpopen', decide_eq_true ?_⟩)
      exact hfresh p hlt hpopen'
    · rw [hself, hkey]
      exact List.mem_cons_self
  case grouped => exact ⟨hgrouped.nodup, hgrouped.apart, hgrouped.hasDevice⟩
  case known =>
    intro j p hmem
    rcases (mem_group_append hnic _).mp hmem with hmem | ⟨rfl, -⟩
    · exact Nat.lt_succ_of_lt (hp.known j p hmem)
    · exact Nat.lt_succ_self _
  case held =>
    intro e he
    rcases List.mem_cons.mp he with rfl | he
    · exact ⟨i, (mem_group_append hnic _).mpr (.inr ⟨rfl, rfl⟩)⟩
    · obtain ⟨j, hj⟩ := hp.held e (List.mem_filter.mp he).1
      exact ⟨j, (mem_group_append hnic _).mpr (.inl hj)⟩

theorem placed_addQueuePair (hp : Placed h) {q : HostQp} (hstarts : Starts h (.addQueuePair q))
    (hstep : h.addQueuePair hash cfg q = some h') : Placed h' := by
  obtain ⟨hsize, hfresh⟩ := hstarts
  unfold addQueuePair at hstep
  obtain ⟨i, -, hstep⟩ := Option.bind_eq_some_iff.mp hstep
  obtain ⟨nic, dev, hnic, hdev, hserves⟩ := assign_eq_some hstep
  refine Placed.serves (hp.create rfl ?_ (fun p hlt hopen hkey => ?_) hnic hdev) hserves
  · rw [RdmaQueuePair.isFinished, decide_eq_false_iff_not, ge_iff_le, UInt64.not_le]
    exact hsize
  · exact hfresh p hlt hopen (key_inj hkey)

/-- What `ReceiveAck` reports is whether the queue pair is finished now. -/
theorem receiveAck_isFinished {hw : RdmaHwConfig} {frame : AckFrame} {qp qp' : RdmaQueuePair} {finished : Bool}
    (hopen : qp.isFinished = false) (hack : Lcmp.receiveAck hw frame qp = some (qp', finished)) :
    qp'.isFinished = finished ∧ qp'.mPg = qp.mPg := by
  refine ⟨?_, receiveAck_mPg hack⟩
  have hsettle : ∀ qp : RdmaQueuePair, (settle frame qp).isFinished = qp.isFinished := by
    intro qp
    rw [settle]
    split
    · rfl
    · rfl
  rw [Lcmp.receiveAck] at hack
  split at hack
  · obtain ⟨rfl, rfl⟩ := Prod.mk.inj (Option.some.inj hack)
    exact (hsettle qp).trans hopen
  · split at hack
    · cases hack
    · obtain ⟨rfl, rfl⟩ := Prod.mk.inj (Option.some.inj hack)
      exact hsettle _

/-- The queue pair that an ACK completes leaves the map. It stays in its group. -/
theorem Placed.complete (hp : Placed h) {p : QpPtr} (hmem : ((h.qps p).key, p) ∈ h.qpMap) {qp : RdmaQueuePair}
    (hpg : qp.mPg = (h.qps p).qp.mPg) (hfinished : qp.isFinished = true) :
    Placed ((h.setQp p qp).deleteQueuePair p) := by
  have hkey : ((h.setQp p qp).qps p).key = (h.qps p).key := by
    rw [setQp_self, HostQp.key, HostQp.key, hpg]
  have herased : ∀ e, e ∈ ((h.setQp p qp).deleteQueuePair p).qpMap ↔ e ∈ h.qpMap ∧ e.1 ≠ (h.qps p).key := by
    intro e
    rw [deleteQueuePair, mapErase, List.mem_filter, decide_eq_true_eq, hkey]
    rfl
  have hne : ∀ e ∈ h.qpMap, e.1 ≠ (h.qps p).key → e.2 ≠ p := by
    intro e he hdiff heq
    apply hdiff
    rw [(hp.entry e he).1, heq]
  constructor
  case entry =>
    intro e he
    obtain ⟨he, hdiff⟩ := (herased e).mp he
    obtain ⟨hekey, hlt, hopen⟩ := hp.entry e he
    have hsame := setQp_of_ne (h := h) qp (hne e he hdiff)
    refine ⟨?_, hlt, ?_⟩
    · show e.1 = ((h.setQp p qp).qps e.2).key
      rw [hsame, hekey]
    · show ((h.setQp p qp).qps e.2).qp.isFinished = false
      rw [hsame]
      exact hopen
  case keys => exact hp.keys.sublist (List.Sublist.map _ List.filter_sublist)
  case live =>
    intro p' hlt hopen
    have hopen' : ((h.setQp p qp).qps p').qp.isFinished = false := hopen
    have hdiff : p' ≠ p := by
      rintro rfl
      rw [setQp_self, hfinished] at hopen'
      cases hopen'
    rw [setQp_of_ne qp hdiff] at hopen'
    have hlive := hp.live p' hlt hopen'
    show (((h.setQp p qp).qps p').key, p') ∈ _
    rw [setQp_of_ne qp hdiff]
    refine (herased _).mpr ⟨hlive, fun heq => hdiff ?_⟩
    have heq' : (h.qps p').key = (h.qps p).key := heq
    rw [heq'] at hlive
    exact hp.eq_of_key hlive hmem
  case grouped => exact ⟨hp.grouped.nodup, hp.grouped.apart, hp.grouped.hasDevice⟩
  case known => exact hp.known
  case held =>
    intro e he
    exact hp.held e ((herased e).mp he).1

theorem placed_receiveAck (hp : Placed h) {sip : UInt32} {dport pg : UInt16} {frame : AckFrame} {rate : UInt64}
    {nextAvail : Int} (hstep : h.receiveAck hash cfg sip dport pg frame rate nextAvail = some h') : Placed h' := by
  unfold receiveAck at hstep
  split at hstep
  · obtain rfl := Option.some.inj hstep
    exact hp
  · rename_i p hfound
    obtain ⟨e, hfind, rfl⟩ := Option.map_eq_some_iff.mp hfound
    have he := List.mem_of_find?_eq_some hfind
    obtain ⟨hekey, -, hopen⟩ := hp.entry e he
    obtain ⟨i, -, hstep⟩ := Option.bind_eq_some_iff.mp hstep
    obtain ⟨⟨qp, finished⟩, hack, hstep⟩ := Option.bind_eq_some_iff.mp hstep
    obtain ⟨hfinished, hpg⟩ := receiveAck_isFinished hopen hack
    refine Placed.serves ?_ (serves_dequeueAndTransmit hstep)
    split
    · rename_i hdone
      refine hp.complete ?_ hpg (hfinished.trans hdone)
      rw [← hekey]
      exact he
    · rename_i hdone
      rw [Bool.not_eq_true] at hdone
      exact hp.serves (serves_setQp e.2 hpg (hfinished.trans (hdone.trans hopen.symm)))

/-! ### The redistribution -/

/-- The loop of `RedistributeQp` when it has seen the queue pairs of `seen`: these and no others are in
the groups, each where the table sends it. -/
structure Refilled (hash : UInt32 → UInt32 → UInt16 → UInt16 → UInt32) (h : RdmaHw) (seen : List QpPtr) : Prop where
  grouped : Grouped h
  only : ∀ i, ∀ p ∈ h.group i, p ∈ seen
  placed : ∀ p ∈ seen, ∃ i, h.getNicIdxOfQp hash (h.qps p) = some i ∧ p ∈ h.group i

theorem group_clearGroups (hg : Grouped h) (i : Nat) : h.clearGroups.group i = [] := by
  rw [group, clearGroups, List.getElem?_map]
  cases hnic : h.nics[i]? with
  | none => rfl
  | some nic =>
      cases hdev : nic.dev with
      | some dev => simp [hdev]
      | none =>
          simp only [Option.map_some, hdev, Option.isNone_none, if_true, Option.elim_some]
          apply List.eq_nil_iff_forall_not_mem.mpr
          intro p hp
          rw [← group_of_nic hnic] at hp
          obtain ⟨nic', dev, hnic', hdev'⟩ := hg.hasDevice i p hp
          obtain rfl := Option.some.inj (hnic.symm.trans hnic')
          rw [hdev] at hdev'
          cases hdev'

theorem keeps_clearGroups (h : RdmaHw) : Keeps h h.clearGroups where
  qpMap := rfl
  created := rfl
  rtTable := rfl
  flow := fun p => .refl _
  hasDevice := by
    intro i
    simp only [HasDevice, clearGroups, List.getElem?_map]
    cases hnic : h.nics[i]? with
    | none => simp
    | some nic =>
        cases hdev : nic.dev with
        | none => simp [hdev]
        | some dev => simp [hdev]

theorem refilled_clearGroups (hg : Grouped h) : Refilled hash h.clearGroups [] := by
  refine ⟨⟨fun i => ?_, fun i j p hi => ?_, fun i p hi => ?_⟩, fun i p hi => ?_, nofun⟩
  · rw [group_clearGroups hg]
    exact List.nodup_nil
  · rw [group_clearGroups hg] at hi
    cases hi
  · rw [group_clearGroups hg] at hi
    cases hi
  · rw [group_clearGroups hg] at hi
    cases hi

/-- One turn of the loop. The search it starts takes nothing out of the groups, for none of the queue
pairs seen so far is finished. -/
theorem Refilled.reassign {seen : List QpPtr} (hr : Refilled hash h seen) {p : QpPtr} (hnew : p ∉ seen)
    (hopen : ∀ p' ∈ seen ++ [p], h.isFinished p' = false) (hstep : h.reassign hash cfg p = some h') :
    Keeps h h' ∧ Refilled hash h' (seen ++ [p]) := by
  unfold RdmaHw.reassign at hstep
  obtain ⟨i, hidx, hstep⟩ := Option.bind_eq_some_iff.mp hstep
  obtain ⟨nic, dev, hnic, hdev, hserves⟩ := assign_eq_some hstep
  have hkeeps := (keeps_append hnic hdev p).trans hserves.toKeeps
  have hnone : ∀ j, p ∉ h.group j := fun j hmem => hnew (hr.only j p hmem)
  refine ⟨hkeeps, (hr.grouped.append hnic hdev hnone).serves hserves, fun j p' hmem => ?_, fun p' hp' => ?_⟩
  · rcases (mem_group_append hnic p).mp ((hserves.sublist j).subset hmem) with hmem | ⟨rfl, -⟩
    · exact List.mem_append_left _ (hr.only j p' hmem)
    · exact List.mem_append_right _ (List.mem_singleton_self p')
  · have hkept : ∀ j, (p' ∈ h.group j ∨ (p' = p ∧ j = i)) → p' ∈ h'.group j := fun j hj =>
      hserves.kept j p' ((mem_group_append hnic p).mpr hj) (hopen p' hp')
    rw [hkeeps.getNicIdxOfQp]
    rcases List.mem_append.mp hp' with hseen | hlast
    · obtain ⟨j, hj, hmem⟩ := hr.placed p' hseen
      exact ⟨j, hj, hkept j (.inl hmem)⟩
    · obtain rfl := List.mem_singleton.mp hlast
      exact ⟨i, hidx, hkept i (.inr ⟨rfl, rfl⟩)⟩

theorem Refilled.loop {seen : List QpPtr} (todo : List QpPtr) (hr : Refilled hash h seen)
    (hnodup : (seen ++ todo).Nodup) (hopen : ∀ p ∈ seen ++ todo, h.isFinished p = false)
    (hloop : todo.foldlM (RdmaHw.reassign hash cfg) h = some h') :
    Keeps h h' ∧ Refilled hash h' (seen ++ todo) := by
  induction todo generalizing h seen with
  | nil =>
      obtain rfl := Option.some.inj hloop
      rw [List.append_nil]
      exact ⟨.refl h, hr⟩
  | cons p todo ih =>
      rw [List.foldlM_cons] at hloop
      obtain ⟨mid, hstep, hloop⟩ := Option.bind_eq_some_iff.mp hloop
      rw [List.append_cons] at hnodup hopen ⊢
      have hnew : p ∉ seen := fun hmem =>
        (List.nodup_append.mp (List.nodup_append.mp hnodup).1).2.2 p hmem p (List.mem_singleton_self p) rfl
      obtain ⟨hkeeps, hmid⟩ := hr.reassign hnew (fun p' hp' => hopen p' (List.mem_append_left _ hp')) hstep
      obtain ⟨hrest, hend⟩ := ih hmid hnodup (fun p' hp' => by rw [hkeeps.isFinished, hopen p' hp']) hloop
      exact ⟨hkeeps.trans hrest, hend⟩

/-- The table sends the queue pair to a NIC with a device. -/
def Reachable (hash : UInt32 → UInt32 → UInt16 → UInt16 → UInt32) (h : RdmaHw) (p : QpPtr) : Prop :=
  ∃ i, h.getNicIdxOfQp hash (h.qps p) = some i ∧ h.HasDevice i

/-- The loop does not stop in the middle while the table reaches the queue pairs. -/
theorem Refilled.loop_ne_none (cfg : Nat → NicConfig) {seen : List QpPtr} (todo : List QpPtr) (hr : Refilled hash h seen)
    (hnodup : (seen ++ todo).Nodup) (hopen : ∀ p ∈ seen ++ todo, h.isFinished p = false)
    (hreach : ∀ p ∈ todo, Reachable hash h p) : ∃ h', todo.foldlM (RdmaHw.reassign hash cfg) h = some h' := by
  induction todo generalizing h seen with
  | nil => exact ⟨h, rfl⟩
  | cons p todo ih =>
      rw [List.append_cons] at hnodup hopen
      have hnew : p ∉ seen := fun hmem =>
        (List.nodup_append.mp (List.nodup_append.mp hnodup).1).2.2 p hmem p (List.mem_singleton_self p) rfl
      have hopen' : ∀ p' ∈ seen ++ [p], h.isFinished p' = false := fun p' hp' => hopen p' (List.mem_append_left _ hp')
      obtain ⟨i, hidx, nic, dev, hnic, hdev⟩ := hreach p List.mem_cons_self
      have hdevice := ((keeps_append hnic hdev p).hasDevice i).mpr ⟨nic, dev, hnic, hdev⟩
      obtain ⟨mid, hdequeue⟩ := dequeueAndTransmit_ne_none cfg hdevice fun p' hp' => by
        rcases (mem_group_append hnic p).mp hp' with hp' | ⟨rfl, -⟩
        · exact hopen' p' (List.mem_append_left _ (hr.only i p' hp'))
        · exact hopen' p' (List.mem_append_right _ (List.mem_singleton_self p'))
      have hassign : h.assign cfg i p = some mid :=
        Option.bind_eq_some_iff.mpr ⟨nic, hnic, Option.bind_eq_some_iff.mpr ⟨dev, hdev, hdequeue⟩⟩
      have hstep : h.reassign hash cfg p = some mid := Option.bind_eq_some_iff.mpr ⟨i, hidx, hassign⟩
      obtain ⟨hkeeps, hmid⟩ := hr.reassign hnew hopen' hstep
      obtain ⟨h', hrest⟩ := ih hmid hnodup (fun p' hp' => by rw [hkeeps.isFinished, hopen p' hp']) fun p' hp' => by
        obtain ⟨j, hj, hdevj⟩ := hreach p' (List.mem_cons_of_mem _ hp')
        exact ⟨j, by rw [hkeeps.getNicIdxOfQp, hj], (hkeeps.hasDevice j).mpr hdevj⟩
      refine ⟨h', ?_⟩
      rw [List.foldlM_cons, hstep]
      exact hrest

/-- What `RedistributeQp` leaves: each queue pair of the map in the group of the NIC the table selects,
once and in no other group, and nothing else in any group. -/
structure Redistributed (hash : UInt32 → UInt32 → UInt16 → UInt16 → UInt32) (h : RdmaHw) : Prop where
  selected : ∀ e ∈ h.qpMap, ∃ i, h.getNicIdxOfQp hash (h.qps e.2) = some i ∧ InOneGroup h e.2 i
  nothingElse : ∀ i, ∀ p ∈ h.group i, ∃ key, (key, p) ∈ h.qpMap

/-- The queue pairs of the map in the order the loop meets them. -/
theorem Placed.order (hp : Placed h) {order : List (UInt64 × QpPtr)} (horder : order.Perm h.qpMap) :
    ([] ++ order.map Prod.snd).Nodup ∧ ∀ p ∈ [] ++ order.map Prod.snd, h.clearGroups.isFinished p = false := by
  rw [List.nil_append]
  refine ⟨(horder.map Prod.snd).nodup_iff.mpr hp.pointers, fun p hmem => ?_⟩
  obtain ⟨e, he, rfl⟩ := List.mem_map.mp hmem
  exact (hp.entry e (horder.mem_iff.mp he)).2.2

theorem placed_redistributeQp (hp : Placed h) {order : List (UInt64 × QpPtr)}
    (hstep : h.redistributeQp hash cfg order = some h') : Placed h' ∧ Redistributed hash h' := by
  rw [redistributeQp] at hstep
  split at hstep
  · rename_i horder
    obtain ⟨hnodup, hopen⟩ := hp.order horder
    obtain ⟨hloop, hr⟩ := (refilled_clearGroups hp.grouped).loop _ hnodup hopen hstep
    have hkeeps := (keeps_clearGroups h).trans hloop
    have hseen : ∀ p ∈ [] ++ order.map Prod.snd, ∃ key, (key, p) ∈ h.qpMap := by
      intro p hmem
      obtain ⟨e, he, rfl⟩ := List.mem_map.mp hmem
      exact ⟨e.1, horder.mem_iff.mp he⟩
    have hplaced : ∀ e ∈ h.qpMap, ∃ i, h'.getNicIdxOfQp hash (h'.qps e.2) = some i ∧ e.2 ∈ h'.group i := fun e he =>
      hr.placed e.2 (List.mem_map.mpr ⟨e, horder.mem_iff.mpr he, rfl⟩)
    constructor
    · refine hp.keeps hkeeps hr.grouped (fun i p hmem => ?_) (fun e he => ?_)
      · obtain ⟨key, he⟩ := hseen p (hr.only i p hmem)
        exact (hp.entry _ he).2.1
      · obtain ⟨i, -, hmem⟩ := hplaced e he
        exact ⟨i, hmem⟩
    · constructor
      case selected =>
        intro e he
        rw [hkeeps.qpMap] at he
        obtain ⟨i, hidx, hmem⟩ := hplaced e he
        exact ⟨i, hidx, hr.grouped.inOneGroup hmem⟩
      case nothingElse =>
        intro i p hmem
        rw [hkeeps.qpMap]
        exact hseen p (hr.only i p hmem)
  · cases hstep

/-! ### Whole runs -/

theorem placed_step {event : HwEvent} (hp : Placed h) (hstarts : Starts h event)
    (hstep : hwNext hash cfg h event = some h') : Placed h' := by
  cases event with
  | addQueuePair q => exact placed_addQueuePair hp hstarts hstep
  | receiveAck sip dport pg frame rate nextAvail => exact placed_receiveAck hp hstep
  | dequeueAndTransmit i => exact hp.serves (serves_dequeueAndTransmit hstep)
  | setTable rtTable =>
      obtain rfl := Option.some.inj hstep
      exact ⟨hp.entry, hp.keys, hp.live, ⟨hp.grouped.nodup, hp.grouped.apart, hp.grouped.hasDevice⟩, hp.known, hp.held⟩
  | redistributeQp order => exact (placed_redistributeQp hp hstep).1
  | device i dev =>
      obtain ⟨nic, hnic, hstep⟩ := Option.bind_eq_some_iff.mp hstep
      obtain ⟨dev', hdev', hstep⟩ := Option.bind_eq_some_iff.mp hstep
      obtain rfl := Option.some.inj hstep
      exact hp.serves (serves_setNic hnic hdev' rfl (.refl _) fun _ hmem _ => hmem)
  | rate p rate nextAvail =>
      obtain rfl := Option.some.inj hstep
      exact hp.serves (serves_setQp p rfl rfl)
  | advance now =>
      obtain rfl := Option.some.inj hstep
      exact ⟨hp.entry, hp.keys, hp.live, ⟨hp.grouped.nodup, hp.grouped.apart, hp.grouped.hasDevice⟩, hp.known, hp.held⟩

/-- Every queue pair that is not finished is in the map, and every queue pair of the map is once in the
group of one NIC and in no other. Every call of `RedistributeQp` leaves it in the group of the NIC that
the table selects, with nothing else in any group; and where the table reaches the queue pairs the call
comes to its end, in whatever order the map hands them out. -/
theorem qp_in_one_group (devs : List (Option HostDevice)) (rtTable : UInt32 → List Nat) (uninit : HostQp)
    {trace : List (Transition RdmaHw HwEvent)}
    (hrun : (hwSystem hash cfg devs rtTable uninit).Run (hwSystem hash cfg devs rtTable uninit).init trace h)
    (hstarts : ∀ x ∈ trace, Starts x.pre x.label) :
    (∀ p < h.created, h.isFinished p = false → ((h.qps p).key, p) ∈ h.qpMap) ∧
    (∀ e ∈ h.qpMap, ∃ i, InOneGroup h e.2 i) ∧
    (∀ x ∈ trace, ∀ order, x.label = .redistributeQp order → Redistributed hash x.post) ∧
    (∀ order : List (UInt64 × QpPtr), order.Perm h.qpMap → (∀ e ∈ h.qpMap, Reachable hash h e.2) →
      ∃ h', hwNext hash cfg h (.redistributeQp order) = some h') := by
  obtain ⟨hp, hall⟩ := hrun.invariant_of_guard (P := Placed) (C := Starts)
    (fun _ _ _ hp hs hnext => placed_step hp hs hnext) hstarts (placed_start devs rtTable uninit)
  refine ⟨hp.live, fun e he => ?_, fun x hx order hlabel => ?_, fun order horder hreach => ?_⟩
  · obtain ⟨i, hi⟩ := hp.held e he
    exact ⟨i, hp.grouped.inOneGroup hi⟩
  · have hnext := hrun.next_of_mem x hx
    rw [hlabel] at hnext
    exact (placed_redistributeQp (hall x hx).1 hnext).2
  · obtain ⟨hnodup, hopen⟩ := hp.order horder
    obtain ⟨h', hloop⟩ := Refilled.loop_ne_none cfg _ (refilled_clearGroups hp.grouped) hnodup hopen fun p hmem => by
      obtain ⟨e, he, rfl⟩ := List.mem_map.mp hmem
      obtain ⟨i, hidx, hdevice⟩ := hreach e (horder.mem_iff.mp he)
      have hkeeps := keeps_clearGroups h
      exact ⟨i, by rw [hkeeps.getNicIdxOfQp, hidx], (hkeeps.hasDevice i).mpr hdevice⟩
    refine ⟨h', ?_⟩
    show h.redistributeQp hash cfg order = some h'
    rw [redistributeQp, if_pos horder]
    exact hloop

def readyDevice : HostDevice where
  linkUp := true
  busy := false
  paused := fun _ => false
  rrlast := 0
  ackQ := []

/-- A flow of 1500 bytes to the host `dip`. -/
def sampleFlow (dip : UInt32) : HostQp where
  sip := 1
  dip := dip
  sport := 10000
  dport := 100
  qp := plainQp 1500

/-- The loopback device and two NICs, the first of which the table selects. -/
def twoNics : System RdmaHw HwEvent :=
  hwSystem (fun _ _ _ _ => 0) (fun _ => byteClock) [none, some readyDevice, some readyDevice] (fun _ => [1])
    (sampleFlow 0)

instance (h : RdmaHw) (event : HwEvent) : Decidable (Starts h event) :=
  match event with
  | .addQueuePair _ => inferInstanceAs (Decidable (_ ∧ _))
  | .receiveAck .. => inferInstanceAs (Decidable True)
  | .dequeueAndTransmit _ => inferInstanceAs (Decidable True)
  | .setTable _ => inferInstanceAs (Decidable True)
  | .redistributeQp _ => inferInstanceAs (Decidable True)
  | .device _ _ => inferInstanceAs (Decidable True)
  | .rate _ _ _ => inferInstanceAs (Decidable True)
  | .advance _ => inferInstanceAs (Decidable True)

/-- Two flows share the first NIC. The first is acknowledged and finished when the table changes. -/
def oneFinished : List HwEvent :=
  [.addQueuePair (sampleFlow 2), .addQueuePair (sampleFlow 3), .device 1 readyDevice, .dequeueAndTransmit 1,
    .device 1 { readyDevice with rrlast := 1 }, .advance 2096, .dequeueAndTransmit 1, .device 1 readyDevice,
    .receiveAck 2 10000 3 ⟨false, 1500⟩ 8000000000 1596, .setTable fun _ => [2]]

/-- The other flow moves to the second NIC. -/
theorem qp_in_one_group_moved :
    ∃ trace h, twoNics.Run twoNics.init trace h ∧
      trace.map Transition.label = oneFinished ++ [.redistributeQp [((sampleFlow 3).key, 1)]] ∧
      h.isFinished 0 = true ∧ h.qpMap = [((sampleFlow 3).key, 1)] ∧ h.group 1 = [] ∧ h.group 2 = [1] ∧
      (∃ i, InOneGroup h 1 i) ∧ Redistributed (fun _ _ _ _ => 0) h := by
  have hchecked : twoNics.checked (fun x => decide (Starts x.pre x.label)) twoNics.init oneFinished = true := by
    decide +kernel
  have hfinal : ((twoNics.exec twoNics.init oneFinished).bind fun h =>
      twoNics.next h (.redistributeQp [((sampleFlow 3).key, 1)])).map
        (fun h => (h.isFinished 0, h.qpMap, h.group 1, h.group 2)) =
      some (true, [((sampleFlow 3).key, 1)], [], [1]) := by decide +kernel
  obtain ⟨trace, h₁, hrun, hlabels, hexec, hstarts⟩ := System.Run.of_checked _ hchecked
  rw [hexec, Option.bind_some] at hfinal
  obtain ⟨h, hnext, hfinal⟩ := Option.map_eq_some_iff.mp hfinal
  simp only [Prod.mk.injEq] at hfinal
  obtain ⟨hfinished, hqpMap, hfirst, hsecond⟩ := hfinal
  have hrun' := hrun.append (.cons hnext (.nil h))
  obtain ⟨-, hmap, hredistributed, -⟩ := qp_in_one_group [none, some readyDevice, some readyDevice] (fun _ => [1])
    (sampleFlow 0) hrun' (by
      intro x hx
      rcases List.mem_append.mp hx with hx | hx
      · exact of_decide_eq_true (hstarts x hx)
      · rw [List.mem_singleton.mp hx]
        trivial)
  refine ⟨_, h, hrun', ?_, hfinished, hqpMap, hfirst, hsecond, ?_, ?_⟩
  · rw [List.map_append, hlabels]
    rfl
  · exact hmap ((sampleFlow 3).key, 1) (hqpMap ▸ List.mem_cons_self)
  · exact hredistributed _ (List.mem_append_right _ List.mem_cons_self) _ rfl

end RdmaHw

end Lcmp
