import Lcmp.Lib.Grid

/-!
# The switch memory management unit

The shared-buffer accounting of `switch-mmu.cc`. The counters are the `uint32_t` fields of the
source, so every `+` and `-` below wraps exactly where the source wraps. The ECN thresholds of
`ConfigEcn` are left out: nothing here reads them.
-/

namespace Lcmp

/-- Number of ports used, the size of every per-port array. -/
abbrev pCnt : Nat := 257

/-- Number of queues (priorities) used. -/
abbrev qCnt : Nat := 8

abbrev Port := Fin pCnt

abbrev Queue := Fin qCnt

instance : NeZero qCnt := ⟨by decide⟩

/-- The configuration fields. The constructor sets the first three and leaves the others as they
are until the topology is known. -/
structure MmuConfig where
  bufferSize : UInt32
  reserve : UInt32
  resumeOffset : UInt32
  pfcAShift : Port → UInt32
  headroom : Port → UInt32
  totalHdrm : UInt32
  totalRsrv : UInt32

structure SwitchMmu extends MmuConfig where
  sharedUsedBytes : UInt32
  hdrmBytes : Port → Queue → UInt32
  ingressBytes : Port → Queue → UInt32
  paused : Port → Queue → Bool
  egressBytes : Port → Queue → UInt32

namespace SwitchMmu

/-- A unit with configuration `cfg` that holds no packet. -/
def start (cfg : MmuConfig) : SwitchMmu where
  toMmuConfig := cfg
  sharedUsedBytes := 0
  hdrmBytes := fun _ _ => 0
  ingressBytes := fun _ _ => 0
  paused := fun _ _ => false
  egressBytes := fun _ _ => 0

/-- The configuration of a new unit in which every field the constructor skips is zero. -/
def zeroConfig : MmuConfig where
  bufferSize := 12 * 1024 * 1024
  reserve := 4 * 1024
  resumeOffset := 3 * 1024
  pfcAShift := fun _ => 0
  headroom := fun _ => 0
  totalHdrm := 0
  totalRsrv := 0

/-- The constructor. `uninit` is what memory holds in the fields it does not set. -/
def new (uninit : MmuConfig) : SwitchMmu :=
  start { uninit with bufferSize := 12 * 1024 * 1024, reserve := 4 * 1024, resumeOffset := 3 * 1024 }

def getPfcThreshold (m : SwitchMmu) (port : Port) : UInt32 :=
  (m.bufferSize - m.totalHdrm - m.totalRsrv - m.sharedUsedBytes) >>> m.pfcAShift port

def getSharedUsed (m : SwitchMmu) (port : Port) (qIndex : Queue) : UInt32 :=
  let used := m.ingressBytes port qIndex
  if used > m.reserve then used - m.reserve else 0

def checkIngressAdmission (m : SwitchMmu) (port : Port) (qIndex : Queue) (psize : UInt32) : Bool :=
  !(psize + m.hdrmBytes port qIndex > m.headroom port &&
    psize + m.getSharedUsed port qIndex > m.getPfcThreshold port)

def checkEgressAdmission (_m : SwitchMmu) (_port : Port) (_qIndex : Queue) (_psize : UInt32) : Bool :=
  true

def updateIngressAdmission (m : SwitchMmu) (port : Port) (qIndex : Queue) (psize : UInt32) : SwitchMmu :=
  let newBytes := m.ingressBytes port qIndex + psize
  if newBytes ≤ m.reserve then
    { m with ingressBytes := Grid.set m.ingressBytes port qIndex newBytes }
  else
    let thresh := m.getPfcThreshold port
    if newBytes - m.reserve > thresh then
      { m with hdrmBytes := Grid.set m.hdrmBytes port qIndex (m.hdrmBytes port qIndex + psize) }
    else
      { m with
        ingressBytes := Grid.set m.ingressBytes port qIndex newBytes
        sharedUsedBytes := m.sharedUsedBytes + min psize (newBytes - m.reserve) }

def updateEgressAdmission (m : SwitchMmu) (port : Port) (qIndex : Queue) (psize : UInt32) : SwitchMmu :=
  { m with egressBytes := Grid.set m.egressBytes port qIndex (m.egressBytes port qIndex + psize) }

/-- The part of a departing packet that is taken out of the headroom counter. -/
def fromHdrm (m : SwitchMmu) (port : Port) (qIndex : Queue) (psize : UInt32) : UInt32 :=
  min (m.hdrmBytes port qIndex) psize

/-- The part of a departing packet that is given back to the shared pool. -/
def fromShared (m : SwitchMmu) (port : Port) (qIndex : Queue) (psize : UInt32) : UInt32 :=
  min (psize - m.fromHdrm port qIndex psize)
    (if m.ingressBytes port qIndex > m.reserve then m.ingressBytes port qIndex - m.reserve else 0)

def removeFromIngressAdmission (m : SwitchMmu) (port : Port) (qIndex : Queue) (psize : UInt32) :
    SwitchMmu :=
  { m with
    hdrmBytes := Grid.set m.hdrmBytes port qIndex
      (m.hdrmBytes port qIndex - m.fromHdrm port qIndex psize)
    ingressBytes := Grid.set m.ingressBytes port qIndex
      (m.ingressBytes port qIndex - (psize - m.fromHdrm port qIndex psize))
    sharedUsedBytes := m.sharedUsedBytes - m.fromShared port qIndex psize }

def removeFromEgressAdmission (m : SwitchMmu) (port : Port) (qIndex : Queue) (psize : UInt32) :
    SwitchMmu :=
  { m with egressBytes := Grid.set m.egressBytes port qIndex (m.egressBytes port qIndex - psize) }

def checkShouldPause (m : SwitchMmu) (port : Port) (qIndex : Queue) : Bool :=
  !m.paused port qIndex &&
    (m.hdrmBytes port qIndex > 0 || m.getSharedUsed port qIndex ≥ m.getPfcThreshold port)

def checkShouldResume (m : SwitchMmu) (port : Port) (qIndex : Queue) : Bool :=
  if !m.paused port qIndex then false
  else
    let sharedUsed := m.getSharedUsed port qIndex
    m.hdrmBytes port qIndex == 0 &&
      (sharedUsed == 0 || sharedUsed + m.resumeOffset ≤ m.getPfcThreshold port)

def setPause (m : SwitchMmu) (port : Port) (qIndex : Queue) : SwitchMmu :=
  { m with paused := Grid.set m.paused port qIndex true }

def setResume (m : SwitchMmu) (port : Port) (qIndex : Queue) : SwitchMmu :=
  { m with paused := Grid.set m.paused port qIndex false }

def configHdrm (m : SwitchMmu) (port : Port) (size : UInt32) : SwitchMmu :=
  { m with headroom := Function.update m.headroom port size }

def configBufferSize (m : SwitchMmu) (size : UInt32) : SwitchMmu := { m with bufferSize := size }

end SwitchMmu

end Lcmp
