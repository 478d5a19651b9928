import Lcmp.Wire.CustomHeader

/-!
# The headers in both modes of decoding

`CustomHeader` with all its fields: it also writes headers, and without `brief` it reads every field. The
members of its union are fields of their own, since each protocol has one of them; `ih` lies at the same place
in `udp` and in `ack`, and is one field here.
-/

namespace Lcmp.Wire

open Iterator

namespace FullHeader

structure Tcp where
  sport : UInt16
  dport : UInt16
  seq : UInt32
  ack : UInt32
  length : UInt8
  tcpFlags : UInt8
  windowSize : UInt16
  urgentPointer : UInt16
  optionBuf : Vector UInt8 32

structure Udp where
  sport : UInt16
  dport : UInt16
  payloadSize : UInt16
  pg : UInt16
  seq : UInt32

structure Ack where
  sport : UInt16
  dport : UInt16
  flags : UInt16
  pg : UInt16
  seq : UInt32

end FullHeader

/-- `CustomHeader`. -/
structure FullHeader where
  brief : UInt32
  headerType : UInt32
  getInt : UInt32
  pppProto : UInt16
  payloadSize : UInt16
  ipid : UInt16
  tos : UInt8
  ttl : UInt8
  l3Prot : UInt8
  ipv4Flags : BitVec 3
  fragmentOffset : UInt16
  sip : UInt32
  dip : UInt32
  checksum : UInt16
  headerSize : UInt16
  tcp : FullHeader.Tcp
  udp : FullHeader.Udp
  cnp : CustomHeader.Cnp
  ack : FullHeader.Ack
  pfc : CustomHeader.Pfc
  ih : IntHeader

namespace FullHeader

open Lcmp.Wire.CustomHeader (getUdpHeaderSize getAckSerializedSize)

def l2Header : UInt32 := 1

def l3Header : UInt32 := 2

def l4Header : UInt32 := 4

def dontFragment : BitVec 3 := 1 <<< 0

def moreFragments : BitVec 3 := 1 <<< 1

variable (int : IntStatic)

def getSerializedSize (h : FullHeader) : Nat :=
  let l2 := if h.headerType &&& l2Header ≠ 0 then 14 else 0
  let l3 := if h.headerType &&& l3Header ≠ 0 then 5 * 4 else 0
  let l4 :=
    if h.headerType &&& l4Header ≠ 0 then
      if h.l3Prot = 0x6 then h.tcp.length.toNat * 4
      else if h.l3Prot = 0x11 then getUdpHeaderSize int
      else if h.l3Prot = 0xfc ∨ h.l3Prot = 0xfd then getAckSerializedSize int
      else if h.l3Prot = 0xff then 8
      else if h.l3Prot = 0xfe then 9
      else 0
    else 0
  l2 + l3 + l4

/-! ### The writer -/

def serializePpp (h : FullHeader) : Iterator := writeHtonU16 h.pppProto ++ (writeU64 0 ++ writeU32 0)

def flagsFrag (h : FullHeader) : UInt8 :=
  let fragmentOffset := h.fragmentOffset.toUInt32 / 8
  let flagsFrag := (fragmentOffset >>> 8).toUInt8 &&& 0x1f
  let flagsFrag := if h.ipv4Flags &&& dontFragment ≠ 0 then flagsFrag ||| (1 : UInt8) <<< 6 else flagsFrag
  if h.ipv4Flags &&& moreFragments ≠ 0 then flagsFrag ||| (1 : UInt8) <<< 5 else flagsFrag

def serializeIpv4 (h : FullHeader) : Iterator :=
  let verIhl := (4 : UInt8) <<< 4 ||| 5
  let frag := (h.fragmentOffset.toUInt32 / 8 &&& 0xff).toUInt8
  writeU8 verIhl ++ (writeU8 h.tos ++ (writeHtonU16 (h.payloadSize + 5 * 4) ++ (writeHtonU16 h.ipid ++
    (writeU8 h.flagsFrag ++ (writeU8 frag ++ (writeU8 h.ttl ++ (writeU8 h.l3Prot ++ (writeHtonU16 0 ++
      (writeHtonU32 h.sip ++ writeHtonU32 h.dip)))))))))

namespace Tcp

/-- The 16 bits with the length and the flags. -/
def field (tcp : Tcp) : UInt16 := tcp.length.toUInt16 <<< 12 ||| tcp.tcpFlags.toUInt16

def optionLen (tcp : Tcp) : UInt32 := (tcp.length.toUInt32 - 5) * 4

/-- The options that are written: none when they do not fit in the buffer. -/
def options (tcp : Tcp) : Iterator :=
  if tcp.optionLen ≤ 32 then tcp.optionBuf.toList.take tcp.optionLen.toNat else []

def serialize (tcp : Tcp) : Iterator :=
  writeHtonU16 tcp.sport ++ (writeHtonU16 tcp.dport ++ (writeHtonU32 tcp.seq ++ (writeHtonU32 tcp.ack ++
    (writeHtonU16 tcp.field ++ (writeHtonU16 tcp.windowSize ++ (writeHtonU16 0 ++
      (writeHtonU16 tcp.urgentPointer ++ tcp.options)))))))

end Tcp

def Udp.serialize (ih : IntHeader) (udp : Udp) : Iterator :=
  writeHtonU16 udp.sport ++ (writeHtonU16 udp.dport ++ (writeHtonU16 udp.payloadSize ++ (writeHtonU16 0 ++
    (writeHtonU32 udp.seq ++ (writeHtonU16 udp.pg ++ ih.serialize int)))))

def serializeCnp (cnp : CustomHeader.Cnp) : Iterator :=
  writeU8 cnp.qIndex ++ (writeU16 cnp.fid ++ (writeU8 cnp.ecnBits ++ (writeU16 cnp.qfb ++ writeU16 cnp.total)))

def Ack.serialize (ih : IntHeader) (ack : Ack) : Iterator :=
  writeU16 ack.sport ++ (writeU16 ack.dport ++ (writeU16 ack.flags ++ (writeU16 ack.pg ++
    (writeU32 ack.seq ++ ih.serialize int))))

def serializePfc (pfc : CustomHeader.Pfc) : Iterator :=
  writeU32 pfc.time ++ (writeU32 pfc.qlen ++ writeU8 pfc.qIndex)

def serializeL4 (h : FullHeader) : Iterator :=
  if h.l3Prot = 0x6 then h.tcp.serialize
  else if h.l3Prot = 0x11 then h.udp.serialize int h.ih
  else if h.l3Prot = 0xff then serializeCnp h.cnp
  else if h.l3Prot = 0xfc ∨ h.l3Prot = 0xfd then h.ack.serialize int h.ih
  else if h.l3Prot = 0xfe then serializePfc h.pfc
  else []

def serialize (h : FullHeader) : Iterator :=
  (if h.headerType &&& l2Header ≠ 0 then h.serializePpp else []) ++
    ((if h.headerType &&& l3Header ≠ 0 then h.serializeIpv4 else []) ++
      (if h.headerType &&& l4Header ≠ 0 then h.serializeL4 int else []))

/-! ### The reader -/

/-- The branch for `brief`, behind the version. -/
def readIpv4Brief (i : Iterator) (ch : FullHeader) : Option (FullHeader × Iterator) := do
  let (tos, i) ← readU8 i
  let i ← next 2 i
  let (ipid, i) ← readNtohU16 i
  let i ← next 3 i
  let (l3Prot, i) ← readU8 i
  let i ← next 2 i
  let (sip, i) ← readNtohU32 i
  let (dip, i) ← readNtohU32 i
  some ({ ch with tos, ipid, l3Prot, sip, dip }, i)

/-- The other branch. -/
def readIpv4 (headerSize : UInt16) (i : Iterator) (ch : FullHeader) : Option (FullHeader × Iterator) := do
  let (tos, i) ← readU8 i
  let (size, i) ← readNtohU16 i
  let (ipid, i) ← readNtohU16 i
  -- `Prev` comes back to the byte of the flags.
  let (flags, _) ← readU8 i
  let ipv4Flags := if flags &&& (1 : UInt8) <<< 6 ≠ 0 then dontFragment else 0
  let ipv4Flags := if flags &&& (1 : UInt8) <<< 5 ≠ 0 then ipv4Flags ||| moreFragments else ipv4Flags
  let (high, i) ← readU8 i
  let (low, i) ← readU8 i
  let fragmentOffset := ((high &&& 0x1f).toUInt16 <<< 8 ||| low.toUInt16) <<< 3
  let (ttl, i) ← readU8 i
  let (l3Prot, i) ← readU8 i
  let (checksum, i) ← readU16 i
  let (sip, i) ← readNtohU32 i
  let (dip, i) ← readNtohU32 i
  some ({ ch with
    tos, payloadSize := size - headerSize, ipid, ipv4Flags, fragmentOffset, ttl, l3Prot, checksum, sip, dip,
    headerSize }, i)

/-- `Read`: `n` bytes into the front of the buffer. -/
def readOptions (n : Nat) (optionBuf : Vector UInt8 32) (i : Iterator) : Option (Vector UInt8 32) := do
  let (bs, _) ← Bytes.take n i
  some (Vector.ofFn fun j => bs.getD j optionBuf[j])

/-- The TCP branch, which returns from `Deserialize` when the options do not fit in the buffer. -/
def deserializeTcp (start : Iterator) (l23Size : Nat) (ch : FullHeader) : Option (Nat × FullHeader) := do
  let i ← next l23Size start
  let (sport, i) ← readNtohU16 i
  let (dport, i) ← readNtohU16 i
  let (seq, i) ← readNtohU32 i
  let (ack, i) ← readNtohU32 i
  let tcp := { ch.tcp with sport, dport, seq, ack }
  let (field, i) ← readNtohU16 i
  let tcp := { tcp with tcpFlags := (field &&& 0x3f).toUInt8 }
  if ch.brief ≠ 0 then some (l23Size + tcp.length.toNat * 4, { ch with tcp })
  else do
    let tcp := { tcp with length := (field >>> 12).toUInt8 }
    let (windowSize, i) ← readNtohU16 i
    let i ← next 2 i
    let (urgentPointer, i) ← readNtohU16 i
    let tcp := { tcp with windowSize, urgentPointer }
    if tcp.optionLen > 32 then some (20, { ch with tcp })
    else do
      let optionBuf ← readOptions tcp.optionLen.toNat tcp.optionBuf i
      some (l23Size + tcp.length.toNat * 4, { ch with tcp := { tcp with optionBuf } })

/-- `ih.Deserialize`, when it is asked for. -/
def readInt (i : Iterator) (ch : FullHeader) : Option IntHeader :=
  if ch.getInt ≠ 0 then ch.ih.deserialize int i else some ch.ih

def deserializeUdp (start : Iterator) (l23Size : Nat) (ch : FullHeader) : Option (Nat × FullHeader) := do
  let i ← next l23Size start
  let (sport, i) ← readNtohU16 i
  let (dport, i) ← readNtohU16 i
  let (payloadSize, i) ←
    if ch.brief ≠ 0 then (next 4 i).map fun i => (ch.udp.payloadSize, i)
    else do
      let (payloadSize, i) ← readNtohU16 i
      let i ← next 2 i
      some (payloadSize, i)
  let (seq, i) ← readNtohU32 i
  let (pg, i) ← readNtohU16 i
  let ih ← ch.readInt int i
  some (l23Size + getUdpHeaderSize int, { ch with udp := { sport, dport, payloadSize, pg, seq }, ih })

def deserializeCnp (l23Size : Nat) (i : Iterator) (ch : FullHeader) : Option (Nat × FullHeader) := do
  let (qIndex, i) ← readU8 i
  let (fid, i) ← readU16 i
  let (ecnBits, i) ← readU8 i
  let (qfb, i) ← readU16 i
  let (total, _) ← readU16 i
  some (l23Size + 8, { ch with cnp := { fid, qIndex, qfb, ecnBits, total } })

def deserializeAck (l23Size : Nat) (i : Iterator) (ch : FullHeader) : Option (Nat × FullHeader) := do
  let (sport, i) ← readU16 i
  let (dport, i) ← readU16 i
  let (flags, i) ← readU16 i
  let (pg, i) ← readU16 i
  let (seq, i) ← readU32 i
  let ih ← ch.readInt int i
  some (l23Size + getAckSerializedSize int, { ch with ack := { sport, dport, flags, pg, seq }, ih })

def deserializePfc (l23Size : Nat) (i : Iterator) (ch : FullHeader) : Option (Nat × FullHeader) := do
  let (time, i) ← readU32 i
  let (qlen, i) ← readU32 i
  let (qIndex, _) ← readU8 i
  some (l23Size + 9, { ch with pfc := { time, qlen, qIndex } })

/-- The branches over the protocol, from the iterator `i` behind the IPv4 header. TCP and UDP go there from the
start of the packet. -/
def deserializeL4 (start : Iterator) (l23Size : Nat) (i : Iterator) (ch : FullHeader) : Option (Nat × FullHeader) :=
  if ch.headerType &&& l4Header ≠ 0 then
    if ch.l3Prot = 0x6 then ch.deserializeTcp start l23Size
    else if ch.l3Prot = 0x11 then ch.deserializeUdp int start l23Size
    else if ch.l3Prot = 0xff then ch.deserializeCnp l23Size i
    else if ch.l3Prot = 0xfc ∨ ch.l3Prot = 0xfd then ch.deserializeAck int l23Size i
    else if ch.l3Prot = 0xfe then ch.deserializePfc l23Size i
    else some (l23Size, ch)
  else some (l23Size, ch)

/-- The L2 branch: the header, the iterator behind it and `l2Size`. -/
def readPpp (start : Iterator) (ch : FullHeader) : Option (FullHeader × Iterator × Nat) :=
  if ch.headerType &&& l2Header ≠ 0 then do
    let (pppProto, i) ← readNtohU16 start
    let i ← next 12 i
    some ({ ch with pppProto }, i, 14)
  else some (ch, start, 0)

/-- The size of the headers, 0 for a packet that is not IPv4, and what was read. -/
def deserialize (ch : FullHeader) (start : Iterator) : Option (Nat × FullHeader) := do
  let (ch, i, l2Size) ← ch.readPpp start
  if ch.headerType &&& l3Header ≠ 0 then do
    let i ← next l2Size start
    let (verIhl, i) ← readU8 i
    let l3Size := (verIhl &&& 0x0f).toNat * 4
    if verIhl >>> 4 ≠ 4 then some (0, ch)
    else do
      let (ch, i) ← if ch.brief ≠ 0 then ch.readIpv4Brief i else ch.readIpv4 (UInt16.ofNat l3Size) i
      ch.deserializeL4 int start (l2Size + l3Size) i
  else ch.deserializeL4 int start l2Size i

variable {int} {ch : FullHeader}

section Branches

variable {start : Iterator} {l23Size : Nat} {i : Iterator} (htype : ch.headerType = l2Header ||| l3Header ||| l4Header)

include htype

theorem deserializeL4_tcp (hprot : ch.l3Prot = 0x06) :
    ch.deserializeL4 int start l23Size i = ch.deserializeTcp start l23Size := by
  rw [deserializeL4, htype, hprot]
  rfl

theorem deserializeL4_udp (hprot : ch.l3Prot = 0x11) :
    ch.deserializeL4 int start l23Size i = ch.deserializeUdp int start l23Size := by
  rw [deserializeL4, htype, hprot]
  rfl

theorem deserializeL4_cnp (hprot : ch.l3Prot = 0xff) :
    ch.deserializeL4 int start l23Size i = ch.deserializeCnp l23Size i := by
  rw [deserializeL4, htype, hprot]
  rfl

theorem deserializeL4_ack (hprot : ch.l3Prot = 0xfc ∨ ch.l3Prot = 0xfd) :
    ch.deserializeL4 int start l23Size i = ch.deserializeAck int l23Size i := by
  rcases hprot with hprot | hprot
  · rw [deserializeL4, htype, hprot]
    rfl
  · rw [deserializeL4, htype, hprot]
    rfl

theorem deserializeL4_pfc (hprot : ch.l3Prot = 0xfe) :
    ch.deserializeL4 int start l23Size i = ch.deserializePfc l23Size i := by
  rw [deserializeL4, htype, hprot]
  rfl

end Branches

/-! ### The devices' view

With `brief` and `getInt` set this is the parser of the devices. -/

/-- The fields a device looks at. -/
def view (ch : FullHeader) : CustomHeader where
  pppProto := ch.pppProto
  ipid := ch.ipid
  tos := ch.tos
  l3Prot := ch.l3Prot
  sip := ch.sip
  dip := ch.dip
  udp := ⟨ch.udp.sport, ch.udp.dport, ch.udp.pg, ch.udp.seq, ch.ih⟩
  cnp := ch.cnp
  ack := ⟨ch.ack.sport, ch.ack.dport, ch.ack.flags, ch.ack.pg, ch.ack.seq, ch.ih⟩
  pfc := ch.pfc

/-- A device's header has the fields in front and the member of the protocol. -/
structure Shows (ch : FullHeader) (dev : CustomHeader) : Prop where
  front : (dev.pppProto, dev.ipid, dev.tos, dev.l3Prot, dev.sip, dev.dip) =
    (ch.pppProto, ch.ipid, ch.tos, ch.l3Prot, ch.sip, ch.dip)
  udp : ch.l3Prot = 0x11 → dev.udp = ch.view.udp
  ack : ch.l3Prot = 0xfc ∨ ch.l3Prot = 0xfd → dev.ack = ch.view.ack
  cnp : dev.cnp = ch.cnp
  pfc : dev.pfc = ch.pfc

theorem shows_view (ch : FullHeader) : ch.Shows ch.view := ⟨rfl, fun _ => rfl, fun _ => rfl, rfl, rfl⟩

theorem deserializeL4_view (htype : ch.headerType = l2Header ||| l3Header ||| l4Header) (hbrief : ch.brief ≠ 0)
    (hgetInt : ch.getInt ≠ 0) (hprot : ch.l3Prot ≠ 0x06) {start : Iterator} {l23Size : Nat} {i : Iterator}
    {size : Nat} {ch' : FullHeader} (hread : ch.deserializeL4 int start l23Size i = some (size, ch')) :
    ∃ l4Size dev, ch.view.deserializeL4 int start l23Size i = some (l4Size, dev) ∧ size = l23Size + l4Size ∧
      ch'.Shows dev := by
  have hbit : ch.headerType &&& l4Header ≠ 0 := by
    rw [htype]
    decide
  have hview : ch.view.l3Prot = ch.l3Prot := rfl
  rw [deserializeL4, if_pos hbit, if_neg hprot] at hread
  rw [CustomHeader.deserializeL4, hview, if_neg hprot]
  by_cases hudp : ch.l3Prot = 0x11
  · rw [if_pos hudp] at hread ⊢
    simp only [deserializeUdp, readInt, if_pos hbrief, if_pos hgetInt, Option.bind_eq_bind, Option.bind_eq_some_iff,
      Option.map_eq_some_iff, Prod.exists, Option.some_inj, Prod.mk.injEq] at hread
    obtain ⟨i₁, hstart, sport, i₂, hsport, dport, i₃, hdport, _, _, ⟨i₄, hskip, rfl, rfl⟩, seq, i₅, hseq, pg, i₆, hpg,
      ih, hih, rfl, rfl⟩ := hread
    refine ⟨_, { ch.view with udp := ⟨sport, dport, pg, seq, ih⟩ }, ?_, rfl, ⟨rfl, fun _ => rfl, ?_, rfl, rfl⟩⟩
    · simp only [hstart, hsport, hdport, hskip, hseq, hpg, Option.bind_eq_bind, Option.bind_some]
      rw [view, hih]
      rfl
    · intro hack
      have hne : ¬ (ch.l3Prot = 0xfc ∨ ch.l3Prot = 0xfd) := by
        rw [hudp]
        decide
      exact absurd hack hne
  · rw [if_neg hudp] at hread ⊢
    by_cases hcnp : ch.l3Prot = 0xff
    · rw [if_pos hcnp] at hread ⊢
      simp only [deserializeCnp, Option.bind_eq_bind, Option.bind_eq_some_iff, Prod.exists, Option.some_inj,
        Prod.mk.injEq] at hread
      obtain ⟨qIndex, i₁, hqIndex, fid, i₂, hfid, ecnBits, i₃, hecnBits, qfb, i₄, hqfb, total, i₅, htotal, rfl, rfl⟩ :=
        hread
      refine ⟨8, { ch.view with cnp := ⟨fid, qIndex, qfb, ecnBits, total⟩ }, ?_, rfl,
        ⟨rfl, fun _ => rfl, fun _ => rfl, rfl, rfl⟩⟩
      simp only [hqIndex, hfid, hecnBits, hqfb, htotal, Option.bind_eq_bind, Option.bind_some, hview]
    · rw [if_neg hcnp] at hread ⊢
      by_cases hack : ch.l3Prot = 0xfc ∨ ch.l3Prot = 0xfd
      · rw [if_pos hack] at hread ⊢
        simp only [deserializeAck, readInt, if_pos hgetInt, Option.bind_eq_bind, Option.bind_eq_some_iff, Prod.exists,
          Option.some_inj, Prod.mk.injEq] at hread
        obtain ⟨sport, i₁, hsport, dport, i₂, hdport, flags, i₃, hflags, pg, i₄, hpg, seq, i₅, hseq, ih, hih, rfl, rfl⟩ :=
          hread
        refine ⟨_, { ch.view with ack := ⟨sport, dport, flags, pg, seq, ih⟩ }, ?_, rfl,
          ⟨rfl, fun hudp' => absurd hudp' hudp, fun _ => rfl, rfl, rfl⟩⟩
        simp only [hsport, hdport, hflags, hpg, hseq, Option.bind_eq_bind, Option.bind_some]
        rw [view, hih]
        rfl
      · rw [if_neg hack] at hread ⊢
        by_cases hpfc : ch.l3Prot = 0xfe
        · rw [if_pos hpfc] at hread ⊢
          simp only [deserializePfc, Option.bind_eq_bind, Option.bind_eq_some_iff, Prod.exists, Option.some_inj,
            Prod.mk.injEq] at hread
          obtain ⟨time, i₁, htime, qlen, i₂, hqlen, qIndex, i₃, hqIndex, rfl, rfl⟩ := hread
          refine ⟨9, { ch.view with pfc := ⟨time, qlen, qIndex⟩ }, ?_, rfl,
            ⟨rfl, fun _ => rfl, fun _ => rfl, rfl, rfl⟩⟩
          simp only [htime, hqlen, hqIndex, Option.bind_eq_bind, Option.bind_some, hview]
        · rw [if_neg hpfc] at hread ⊢
          obtain ⟨rfl, rfl⟩ := Prod.mk.injEq _ _ _ _ ▸ Option.some_inj.mp hread
          exact ⟨0, ch.view, rfl, rfl, ch.shows_view⟩

theorem deserializeTcp_l3Prot (hbrief : ch.brief ≠ 0) {start : Iterator} {l23Size size : Nat} {ch' : FullHeader}
    (hread : ch.deserializeTcp start l23Size = some (size, ch')) : ch'.l3Prot = ch.l3Prot := by
  simp only [deserializeTcp, if_pos hbrief, Option.bind_eq_bind, Option.bind_eq_some_iff, Prod.exists,
    Option.some_inj, Prod.mk.injEq] at hread
  obtain ⟨_, -, _, _, -, _, _, -, _, _, -, _, _, -, _, _, -, -, rfl⟩ := hread
  rfl

/-- Every packet but TCP is read alike by the device's parser. -/
theorem deserialize_view (htype : ch.headerType = l2Header ||| l3Header ||| l4Header) (hbrief : ch.brief ≠ 0)
    (hgetInt : ch.getInt ≠ 0) {start : Iterator} {size : Nat} {ch' : FullHeader}
    (hread : ch.deserialize int start = some (size, ch')) (hprot : ch'.l3Prot ≠ 0x06) :
    ∃ dev, ch.view.deserialize int start = some (size, dev) ∧ ch'.Shows dev := by
  have hbits : ch.headerType &&& l2Header ≠ 0 ∧ ch.headerType &&& l3Header ≠ 0 := by
    rw [htype]
    decide
  simp only [deserialize, readPpp, if_pos hbits.1, Option.bind_eq_bind, Option.bind_eq_some_iff, Prod.exists,
    Option.some_inj, Prod.mk.injEq] at hread
  obtain ⟨_, _, _, ⟨pppProto, i₁, hppp, i₂, hskip, rfl, rfl, rfl⟩, hread⟩ := hread
  simp only [if_pos hbits.2, Option.bind_eq_some_iff, Prod.exists] at hread
  obtain ⟨i₃, hnext, verIhl, i₄, hverIhl, hread⟩ := hread
  simp only [CustomHeader.deserialize, hppp, hskip, hnext, hverIhl, Option.bind_eq_bind, Option.bind_some]
  by_cases hversion : verIhl >>> 4 ≠ 4
  · rw [if_pos hversion] at hread ⊢
    obtain ⟨rfl, rfl⟩ := Prod.mk.injEq _ _ _ _ ▸ Option.some_inj.mp hread
    exact ⟨_, rfl, shows_view _⟩
  · rw [if_neg hversion] at hread ⊢
    simp only [if_pos hbrief, readIpv4Brief, Option.bind_eq_bind, Option.bind_eq_some_iff, Prod.exists,
      Option.some_inj, Prod.mk.injEq] at hread
    obtain ⟨_, _, ⟨tos, i₅, htos, i₆, hskip₁, ipid, i₇, hipid, i₈, hskip₂, l3Prot, i₉, hl3Prot, i₁₀, hskip₃, sip, i₁₁,
      hsip, dip, i₁₂, hdip, rfl, rfl⟩, hread⟩ := hread
    obtain ⟨read, hch⟩ : ∃ read : FullHeader, read = { ch with pppProto, tos, ipid, l3Prot, sip, dip } := ⟨_, rfl⟩
    have htype' : read.headerType = l2Header ||| l3Header ||| l4Header := by rw [hch, htype]
    have hbrief' : read.brief ≠ 0 := by rwa [hch]
    have hgetInt' : read.getInt ≠ 0 := by rwa [hch]
    rw [← hch] at hread
    have hl4 : read.l3Prot ≠ 0x06 := by
      intro htcp
      rw [deserializeL4_tcp htype' htcp] at hread
      exact hprot ((deserializeTcp_l3Prot hbrief' hread).trans htcp)
    obtain ⟨l4Size, dev, hdev, rfl, hshows⟩ := deserializeL4_view htype' hbrief' hgetInt' hl4 hread
    refine ⟨dev, ?_, hshows⟩
    rw [hch, view] at hdev
    simp only [htos, hskip₁, hipid, hskip₂, hl3Prot, hskip₃, hsip, hdip, Option.bind_some]
    rw [view, hdev]
    rfl

end FullHeader

end Lcmp.Wire
