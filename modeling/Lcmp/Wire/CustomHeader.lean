import Lcmp.Transport.RdmaHw
import Lcmp.Wire.Headers

/-!
# The parser of whole packets

`CustomHeader` reads the headers of a packet in one pass. Every device parses all three layers with `brief` and
`getInt` set. The members of its union are fields of their own here: a packet is only read through the member of
its protocol, which is the only one the parser writes.
-/

namespace Lcmp.Wire

open Iterator

namespace CustomHeader

structure Udp where
  sport : UInt16
  dport : UInt16
  pg : UInt16
  seq : UInt32
  ih : IntHeader

structure Cnp where
  fid : UInt16
  qIndex : UInt8
  qfb : UInt16
  ecnBits : UInt8
  total : UInt16

structure Ack where
  sport : UInt16
  dport : UInt16
  flags : UInt16
  pg : UInt16
  seq : UInt32
  ih : IntHeader

structure Pfc where
  time : UInt32
  qlen : UInt32
  qIndex : UInt8

end CustomHeader

structure CustomHeader where
  pppProto : UInt16
  ipid : UInt16
  tos : UInt8
  l3Prot : UInt8
  sip : UInt32
  dip : UInt32
  udp : CustomHeader.Udp
  cnp : CustomHeader.Cnp
  ack : CustomHeader.Ack
  pfc : CustomHeader.Pfc

namespace CustomHeader

def getIpv4EcnBits (ch : CustomHeader) : UInt8 := ch.tos &&& 0x3

variable (int : IntStatic)

def getAckSerializedSize : Nat := 2 + 2 + 2 + 2 + 4 + int.getStaticSize

def getUdpHeaderSize : Nat := 8 + 2 + 4 + int.getStaticSize

/-- The branches over the protocol, from the iterator `i` behind the IPv4 header. Only the UDP branch goes there
from the start of the packet. The TCP branch, for which there are no packets, has no result. -/
def deserializeL4 (start : Iterator) (l23Size : Nat) (i : Iterator) (ch : CustomHeader) :
    Option (Nat × CustomHeader) :=
  if ch.l3Prot = 0x6 then none
  else if ch.l3Prot = 0x11 then do
    let i ← next l23Size start
    let (sport, i) ← readNtohU16 i
    let (dport, i) ← readNtohU16 i
    let i ← next 4 i
    let (seq, i) ← readNtohU32 i
    let (pg, i) ← readNtohU16 i
    let ih ← ch.udp.ih.deserialize int i
    some (getUdpHeaderSize int, { ch with udp := { sport, dport, pg, seq, ih } })
  else if ch.l3Prot = 0xff then do
    let (qIndex, i) ← readU8 i
    let (fid, i) ← readU16 i
    let (ecnBits, i) ← readU8 i
    let (qfb, i) ← readU16 i
    let (total, _) ← readU16 i
    some (8, { ch with cnp := { fid, qIndex, qfb, ecnBits, total } })
  else if ch.l3Prot = 0xfc ∨ ch.l3Prot = 0xfd then do
    let (sport, i) ← readU16 i
    let (dport, i) ← readU16 i
    let (flags, i) ← readU16 i
    let (pg, i) ← readU16 i
    let (seq, i) ← readU32 i
    let ih ← ch.ack.ih.deserialize int i
    some (getAckSerializedSize int, { ch with ack := { sport, dport, flags, pg, seq, ih } })
  else if ch.l3Prot = 0xfe then do
    let (time, i) ← readU32 i
    let (qlen, i) ← readU32 i
    let (qIndex, _) ← readU8 i
    some (9, { ch with pfc := { time, qlen, qIndex } })
  else some (0, ch)

/-- The size of the headers, 0 for a packet that is not IPv4, and what was read. -/
def deserialize (ch : CustomHeader) (start : Iterator) : Option (Nat × CustomHeader) := do
  let (pppProto, i) ← readNtohU16 start
  let _ ← next 12 i
  let ch := { ch with pppProto }
  let l2Size := 14
  let i ← next l2Size start
  let (verIhl, i) ← readU8 i
  let l3Size := (verIhl &&& 0x0f).toNat * 4
  if verIhl >>> 4 ≠ 4 then some (0, ch)
  else do
    let (tos, i) ← readU8 i
    let i ← next 2 i
    let (ipid, i) ← readNtohU16 i
    let i ← next 3 i
    let (l3Prot, i) ← readU8 i
    let i ← next 2 i
    let (sip, i) ← readNtohU32 i
    let (dip, i) ← readNtohU32 i
    let (l4Size, ch) ← { ch with tos, ipid, l3Prot, sip, dip }.deserializeL4 int start (l2Size + l3Size) i
    some (l2Size + l3Size + l4Size, ch)

def getSerializedSize (ch : CustomHeader) : Nat :=
  let l4 :=
    if ch.l3Prot = 0x11 then getUdpHeaderSize int
    else if ch.l3Prot = 0xfc ∨ ch.l3Prot = 0xfd then getAckSerializedSize int
    else if ch.l3Prot = 0xff then 8
    else if ch.l3Prot = 0xfe then 9
    else 0
  14 + 5 * 4 + l4

/-! ### What the parser recovers -/

/-- The fields of the last header or headers. -/
def RecoversL4 (ch : CustomHeader) : L4Header → Prop
  | .data udp seqTs => ch.udp.sport = udp.sourcePort ∧ ch.udp.dport = udp.destinationPort ∧
      ch.udp.seq = seqTs.seq ∧ ch.udp.pg = seqTs.pg ∧ IntHeader.SameContents int seqTs.ih ch.udp.ih
  | .ack qbb => ch.ack.sport = qbb.sport ∧ ch.ack.dport = qbb.dport ∧ ch.ack.flags = qbb.flags ∧
      ch.ack.pg = qbb.pg ∧ ch.ack.seq = qbb.seq ∧ IntHeader.SameContents int qbb.ih ch.ack.ih
  | .pfc pause => ch.pfc.time = pause.time ∧ ch.pfc.qlen = pause.qlen ∧ ch.pfc.qIndex = pause.qindex
  | .cnp cn => ch.cnp.qIndex = cn.qIndex ∧ ch.cnp.fid = cn.fid ∧ ch.cnp.ecnBits = cn.ecnBits ∧
      ch.cnp.qfb = cn.qfb ∧ ch.cnp.total = cn.total

/-- The fields of the headers in front. -/
structure Recovers (ppp : PppHeader) (ip : Ipv4Header) (l4 : L4Header) (ch : CustomHeader) : Prop where
  pppProto : ch.pppProto = ppp.protocol
  tos : ch.tos = ip.tos
  ecnBits : ch.getIpv4EcnBits = ip.getEcn
  ipid : ch.ipid = ip.identification
  l3Prot : ch.l3Prot = ip.protocol
  sip : ch.sip = ip.source
  dip : ch.dip = ip.destination
  l4 : ch.RecoversL4 int l4

variable {int} {ch : CustomHeader}

/-- What the parser has read when it reaches the last headers. -/
def withIpv4 (ch : CustomHeader) (ppp : PppHeader) (ip : Ipv4Header) : CustomHeader :=
  { ch with
    pppProto := ppp.protocol
    tos := ip.tos
    ipid := ip.identification
    l3Prot := ip.protocol
    sip := ip.source
    dip := ip.destination }

theorem deserialize_ipv4 {ch' : CustomHeader} {size : Nat} (ppp : PppHeader) (ip : Ipv4Header) (rest : Iterator)
    (hl4 : (ch.withIpv4 ppp ip).deserializeL4 int (ppp.serialize ++ (ip.serialize ++ rest)) (14 + 20) rest =
      some (size, ch')) :
    ch.deserialize int (ppp.serialize ++ (ip.serialize ++ rest)) = some (14 + 20 + size, ch') := by
  have hversion : ¬ ((4 : UInt8) <<< 4 ||| 5) >>> 4 ≠ 4 := by decide
  have hihl : (((4 : UInt8) <<< 4 ||| 5) &&& 0x0f).toNat * 4 = 20 := by decide
  simp only [PppHeader.serialize, Ipv4Header.serialize, List.append_assoc] at hl4 ⊢
  simp only [deserialize, readNtohU16_write, readNtohU32_write, readU8_write, Option.bind_eq_bind, Option.bind_some,
    next_writeU64 _ 4, next_writeU32 _ 0, next_writeHtonU16 _ 12, next_writeHtonU16 _ 0, next_writeU8 _ 2,
    next_writeU8 _ 1, next_writeU8 _ 0, next_zero, if_neg hversion, hihl]
  rw [withIpv4] at hl4
  rw [hl4]
  rfl

/-- The iterator behind the IPv4 header, reached from the start of the packet. -/
theorem next_ipv4 (ppp : PppHeader) (ip : Ipv4Header) (rest : Iterator) :
    next (14 + 20) (ppp.serialize ++ (ip.serialize ++ rest)) = some rest := by
  have hppp : next (20 + 14) (ppp.serialize ++ (ip.serialize ++ rest)) = next 20 (ip.serialize ++ rest) :=
    Bytes.skip_add_append ppp.length_serialize 20 _
  have hip : next (0 + 20) (ip.serialize ++ rest) = next 0 rest :=
    Bytes.skip_add_append ip.length_serialize 0 rest
  exact hppp.trans hip

theorem deserializeL4_data (hpint : int.pintBytes = 1 ∨ int.pintBytes = 2) (hprot : ch.l3Prot = 0x11)
    (udp : UdpHeader) (seqTs : SeqTsHeader) (size : Nat) {start : Iterator} {l23Size : Nat} (i rest : Iterator)
    (hstart : next l23Size start = some (udp.serialize size ++ (seqTs.serialize int ++ rest))) :
    ∃ ih, IntHeader.SameContents int seqTs.ih ih ∧ ch.deserializeL4 int start l23Size i =
      some (getUdpHeaderSize int, { ch with udp := ⟨udp.sourcePort, udp.destinationPort, seqTs.pg, seqTs.seq, ih⟩ }) := by
  obtain ⟨ih, hread, hsame⟩ := seqTs.ih.deserialize_serialize int hpint ch.udp.ih rest
  refine ⟨ih, hsame, ?_⟩
  rw [deserializeL4, if_neg (by rw [hprot]; decide), if_pos hprot, hstart]
  simp only [UdpHeader.serialize, SeqTsHeader.serialize, List.append_assoc, Option.bind_eq_bind, Option.bind_some,
    readNtohU16_write, readNtohU32_write, next_writeHtonU16 _ 2, next_writeU16 _ 0, next_zero, hread]

theorem deserializeL4_ack (hpint : int.pintBytes = 1 ∨ int.pintBytes = 2)
    (hprot : ch.l3Prot = 0xfc ∨ ch.l3Prot = 0xfd) (qbb : QbbHeader) (start : Iterator) (l23Size : Nat)
    (rest : Iterator) :
    ∃ ih, IntHeader.SameContents int qbb.ih ih ∧
      ch.deserializeL4 int start l23Size (qbb.serialize int ++ rest) = some (getAckSerializedSize int,
        { ch with ack := ⟨qbb.sport, qbb.dport, qbb.flags, qbb.pg, qbb.seq, ih⟩ }) := by
  obtain ⟨ih, hread, hsame⟩ := qbb.ih.deserialize_serialize int hpint ch.ack.ih rest
  refine ⟨ih, hsame, ?_⟩
  have hother : ch.l3Prot ≠ 0x6 ∧ ch.l3Prot ≠ 0x11 ∧ ch.l3Prot ≠ 0xff := by
    rcases hprot with hprot | hprot
    · rw [hprot]
      decide
    · rw [hprot]
      decide
  rw [deserializeL4, if_neg hother.1, if_neg hother.2.1, if_neg hother.2.2, if_pos hprot]
  simp only [QbbHeader.serialize, List.append_assoc, Option.bind_eq_bind, Option.bind_some, readU16_write,
    readU32_write, hread]

theorem deserializeL4_pfc (hprot : ch.l3Prot = 0xfe) (pause : PauseHeader) (start : Iterator) (l23Size : Nat)
    (rest : Iterator) :
    ch.deserializeL4 int start l23Size (pause.serialize ++ rest) =
      some (9, { ch with pfc := ⟨pause.time, pause.qlen, pause.qindex⟩ }) := by
  have hother : ch.l3Prot ≠ 0x6 ∧ ch.l3Prot ≠ 0x11 ∧ ch.l3Prot ≠ 0xff ∧
      ¬ (ch.l3Prot = 0xfc ∨ ch.l3Prot = 0xfd) := by
    rw [hprot]
    decide
  rw [deserializeL4, if_neg hother.1, if_neg hother.2.1, if_neg hother.2.2.1, if_neg hother.2.2.2, if_pos hprot]
  simp only [PauseHeader.serialize, List.append_assoc, Option.bind_eq_bind, Option.bind_some, readU32_write,
    readU8_write]

theorem deserializeL4_cnp (hprot : ch.l3Prot = 0xff) (cn : CnHeader) (start : Iterator) (l23Size : Nat)
    (rest : Iterator) :
    ch.deserializeL4 int start l23Size (cn.serialize ++ rest) =
      some (8, { ch with cnp := ⟨cn.fid, cn.qIndex, cn.qfb, cn.ecnBits, cn.total⟩ }) := by
  have hother : ch.l3Prot ≠ 0x6 ∧ ch.l3Prot ≠ 0x11 := by
    rw [hprot]
    decide
  rw [deserializeL4, if_neg hother.1, if_neg hother.2, if_pos hprot]
  simp only [CnHeader.serialize, List.append_assoc, Option.bind_eq_bind, Option.bind_some, readU16_write,
    readU8_write]

/-- What the parser counts for the last headers is what their writers ask room for. -/
theorem getSerializedSize_eq {l4 : L4Header} (hprot : l4.Protocol ch.l3Prot) :
    ch.getSerializedSize int = 14 + 20 + l4.size int := by
  rw [getSerializedSize]
  cases l4 with
  | data udp seqTs =>
      rw [L4Header.Protocol] at hprot
      rw [if_pos hprot, getUdpHeaderSize, L4Header.size, UdpHeader.getSerializedSize, SeqTsHeader.getHeaderSize]
      omega
  | ack qbb =>
      rw [L4Header.Protocol] at hprot
      have hother : ch.l3Prot ≠ 0x11 := by
        rcases hprot with hprot | hprot
        · rw [hprot]
          decide
        · rw [hprot]
          decide
      rw [if_neg hother, if_pos hprot, getAckSerializedSize, L4Header.size, QbbHeader.getSerializedSize,
        QbbHeader.getBaseSize]
  | pfc pause =>
      rw [L4Header.Protocol] at hprot
      rw [hprot]
      rfl
  | cnp cn =>
      rw [L4Header.Protocol] at hprot
      rw [hprot]
      rfl

/-- The last headers of a packet are read back. -/
theorem deserializeL4_add (hpint : int.pintBytes = 1 ∨ int.pintBytes = 2) (old : Nat → Nat → UInt8) {l4 : L4Header}
    (payload : Iterator) (hprot : l4.Protocol ch.l3Prot) {start : Iterator} {l23Size : Nat}
    (hstart : next l23Size start = some (l4.add int old payload)) :
    ∃ ch', ch.deserializeL4 int start l23Size (l4.add int old payload) = some (l4.size int, ch') ∧
      ch'.RecoversL4 int l4 ∧ ch'.pppProto = ch.pppProto ∧ ch'.tos = ch.tos ∧ ch'.ipid = ch.ipid ∧
      ch'.l3Prot = ch.l3Prot ∧ ch'.sip = ch.sip ∧ ch'.dip = ch.dip := by
  cases l4 with
  | data udp seqTs =>
      have hsize : getUdpHeaderSize int = (L4Header.data udp seqTs).size int := by
        rw [getUdpHeaderSize, L4Header.size, UdpHeader.getSerializedSize, SeqTsHeader.getHeaderSize]
        omega
      simp only [L4Header.add] at hstart ⊢
      rw [addHeader_full (udp.length_serialize _), addHeader] at hstart ⊢
      obtain ⟨ih, hsame, hread⟩ := deserializeL4_data hpint hprot udp seqTs _ _ _ hstart
      rw [hsize] at hread
      exact ⟨{ ch with udp := ⟨udp.sourcePort, udp.destinationPort, seqTs.pg, seqTs.seq, ih⟩ }, hread,
        ⟨rfl, rfl, rfl, rfl, hsame⟩, rfl, rfl, rfl, rfl, rfl, rfl⟩
  | ack qbb =>
      obtain ⟨ih, hsame, hread⟩ := deserializeL4_ack hpint hprot qbb start l23Size
        (unwritten (old 0) (QbbHeader.getSerializedSize int) (qbb.serialize int) ++ payload)
      exact ⟨{ ch with ack := ⟨qbb.sport, qbb.dport, qbb.flags, qbb.pg, qbb.seq, ih⟩ }, hread,
        ⟨rfl, rfl, rfl, rfl, rfl, hsame⟩, rfl, rfl, rfl, rfl, rfl, rfl⟩
  | pfc pause =>
      simp only [L4Header.add]
      rw [addHeader_full pause.length_serialize]
      exact ⟨_, deserializeL4_pfc hprot pause start l23Size payload, ⟨rfl, rfl, rfl⟩, rfl, rfl, rfl, rfl, rfl, rfl⟩
  | cnp cn =>
      simp only [L4Header.add]
      rw [addHeader_full cn.length_serialize]
      exact ⟨_, deserializeL4_cnp hprot cn start l23Size payload, ⟨rfl, rfl, rfl, rfl, rfl⟩, rfl, rfl, rfl, rfl, rfl,
        rfl⟩

/-- The parser reads a packet of each kind back, and returns the size of its headers. -/
theorem deserialize_packet (hpint : int.pintBytes = 1 ∨ int.pintBytes = 2) (ch : CustomHeader)
    (old : Nat → Nat → UInt8) (ppp : PppHeader) {ip : Ipv4Header} {l4 : L4Header} (payload : Iterator)
    (hprot : l4.Protocol ip.protocol) :
    ∃ ch', ch.deserialize int (packet int old ppp ip l4 payload) = some (14 + 20 + l4.size int, ch') ∧
      Recovers int ppp ip l4 ch' ∧ ch'.getSerializedSize int = 14 + 20 + l4.size int := by
  rw [packet_eq]
  have hprot' : l4.Protocol (ch.withIpv4 ppp ip).l3Prot := hprot
  obtain ⟨ch', hread, hl4, hppp, htos, hipid, hl3, hsip, hdip⟩ :=
    deserializeL4_add hpint old payload hprot' (next_ipv4 ppp ip _)
  have hecn : ch'.getIpv4EcnBits = ip.getEcn := by
    rw [getIpv4EcnBits, htos]
    rfl
  refine ⟨ch', deserialize_ipv4 ppp ip _ hread, ⟨hppp, htos, hecn, hipid, hl3, hsip, hdip, hl4⟩, ?_⟩
  rw [← hl3] at hprot'
  exact getSerializedSize_eq hprot'

/-! ### The payload -/

/-- What a queue pair puts in its packets besides the sequence number, and the time at which it does. -/
structure PacketFields where
  sip : UInt32
  dip : UInt32
  sport : UInt16
  dport : UInt16
  pg : UInt16
  ipid : UInt16
  now : UInt64

/-- The constructor of `IntHeader` clears the hops, which are all of its memory but `nhop`. -/
def newIntHeader : IntHeader where
  hop := fun _ => IntHop.ofWord 0
  nhop := 0
  ts := 0
  power := 0

/-- The constructor of `SeqTsHeader` notes the time in it. -/
def seqTsIntHeader (int : IntStatic) (now : UInt64) : IntHeader :=
  { newIntHeader with ts := if int.mode = .ts then now else 0 }

/-! The packet that `GetNxtPacket` returns. -/

def nxtPayload (hw : RdmaHwConfig) (qp : RdmaQueuePair) : Iterator :=
  List.replicate (getNxtPacket hw qp).1.payloadSize.toNat 0

def nxtUdp (int : IntStatic) (hw : RdmaHwConfig) (fields : PacketFields) (qp : RdmaQueuePair) : L4Header :=
  .data ⟨fields.sport, fields.dport⟩ ⟨(getNxtPacket hw qp).1.seq, fields.pg, seqTsIntHeader int fields.now⟩

def nxtIpv4 (int : IntStatic) (hw : RdmaHwConfig) (old : Nat → Nat → UInt8) (fields : PacketFields)
    (qp : RdmaQueuePair) : Ipv4Header where
  payloadSize := UInt16.ofNat ((nxtUdp int hw fields qp).add int old (nxtPayload hw qp)).length
  identification := fields.ipid
  tos := 0
  ttl := 64
  protocol := 0x11
  dontFragment := false
  moreFragments := false
  fragmentOffset := 0
  source := fields.sip
  destination := fields.dip

def nxtPacket (int : IntStatic) (hw : RdmaHwConfig) (old : Nat → Nat → UInt8) (fields : PacketFields)
    (qp : RdmaQueuePair) : Iterator :=
  packet int old ⟨0x0021⟩ (nxtIpv4 int hw old fields qp) (nxtUdp int hw fields qp) (nxtPayload hw qp)

/-- `payload_size` of `ReceiveUdp`: the size of the packet without that of its headers, in 32 bits. -/
def payloadSize (int : IntStatic) (ch : CustomHeader) (p : Iterator) : UInt32 :=
  UInt32.ofNat p.length - UInt32.ofNat (ch.getSerializedSize int)

theorem payloadSize_eq {ch : CustomHeader} {p : Iterator} {n : Nat}
    (hlen : p.length = ch.getSerializedSize int + n) : ch.payloadSize int p = UInt32.ofNat n := by
  rw [payloadSize, hlen, UInt32.ofNat_add, UInt32.add_comm, UInt32.add_sub_cancel]

/-- For every mode and with one or two bytes of PINT, the parser recovers the fields of every packet from what the
separate headers write, and returns their size; for a packet of `GetNxtPacket`, `ReceiveUdp` finds the sequence
number and the size of the payload that were put into it. -/
theorem parser_agrees (int : IntStatic) (hpint : int.pintBytes = 1 ∨ int.pintBytes = 2) (ch : CustomHeader)
    (old : Nat → Nat → UInt8) :
    (∀ (ppp : PppHeader) (ip : Ipv4Header) (l4 : L4Header) (payload : Iterator), l4.Protocol ip.protocol →
      ∃ ch', ch.deserialize int (packet int old ppp ip l4 payload) =
          some (PppHeader.getStaticSize + Ipv4Header.getSerializedSize + l4.size int, ch') ∧
        Recovers int ppp ip l4 ch') ∧
    ∀ (hw : RdmaHwConfig) (fields : PacketFields) (qp : RdmaQueuePair),
      ∃ size ch', ch.deserialize int (nxtPacket int hw old fields qp) = some (size, ch') ∧
        ch'.udp.seq = (getNxtPacket hw qp).1.seq ∧
        ch'.payloadSize int (nxtPacket int hw old fields qp) = (getNxtPacket hw qp).1.payloadSize := by
  refine ⟨fun ppp ip l4 payload hprot => ?_, fun hw fields qp => ?_⟩
  · obtain ⟨ch', hread, hrecovers, -⟩ := deserialize_packet hpint ch old ppp payload hprot
    exact ⟨ch', hread, hrecovers⟩
  · have hprot : (nxtUdp int hw fields qp).Protocol (nxtIpv4 int hw old fields qp).protocol := rfl
    obtain ⟨ch', hread, hrecovers, hsize⟩ := deserialize_packet hpint ch old ⟨0x0021⟩ (nxtPayload hw qp) hprot
    obtain ⟨-, -, hseq, -, -⟩ := hrecovers.l4
    refine ⟨_, ch', hread, hseq, ?_⟩
    have hlen : (nxtPacket int hw old fields qp).length =
        ch'.getSerializedSize int + (getNxtPacket hw qp).1.payloadSize.toNat := by
      rw [nxtPacket, length_packet, hsize, nxtPayload, List.length_replicate]
    rw [payloadSize_eq hlen, UInt32.ofNat_toNat]

/-- One byte of PINT, and a stale byte behind it. -/
def onePintByte : IntStatic where
  mode := .pint
  pintBytes := 1

def blank : CustomHeader where
  pppProto := 0
  ipid := 0
  tos := 0
  l3Prot := 0
  sip := 0
  dip := 0
  udp := ⟨0, 0, 0, 0, newIntHeader⟩
  cnp := ⟨0, 0, 0, 0, 0⟩
  ack := ⟨0, 0, 0, 0, 0, newIntHeader⟩
  pfc := ⟨0, 0, 0⟩

def nackIpv4 : Ipv4Header where
  payloadSize := 14
  identification := 7
  tos := 1
  ttl := 64
  protocol := 0xfd
  dontFragment := false
  moreFragments := false
  fragmentOffset := 0
  source := 0x0b000201
  destination := 0x0b000101

def nackHeader : QbbHeader where
  sport := 100
  dport := 10000
  flags := 1
  pg := 3
  seq := 4294966296
  ih := { newIntHeader with power := 0x1234 }

/-- A NACK, and the first packet of a flow. -/
theorem parser_agrees_nack :
    (∃ ch, blank.deserialize onePintByte
        (packet onePintByte (fun _ _ => 0xab) ⟨0x0021⟩ nackIpv4 (.ack nackHeader) [0, 0]) = some (48, ch) ∧
      Recovers onePintByte ⟨0x0021⟩ nackIpv4 (.ack nackHeader) ch) ∧
    ∃ size ch, blank.deserialize onePintByte (nxtPacket onePintByte everySegment (fun _ _ => 0xab)
        ⟨0x0b000101, 0x0b000201, 10000, 100, 3, 0, 0⟩ (plainQp 3000)) = some (size, ch) ∧ ch.udp.seq = 0 := by
  have hagrees := parser_agrees onePintByte (.inl rfl) blank fun _ _ => 0xab
  obtain ⟨ch, hread, hrecovers⟩ := hagrees.1 ⟨0x0021⟩ nackIpv4 (.ack nackHeader) [0, 0] (.inr rfl)
  obtain ⟨size, ch', hnext, hseq, -⟩ := hagrees.2 everySegment ⟨0x0b000101, 0x0b000201, 10000, 100, 3, 0, 0⟩
    (plainQp 3000)
  exact ⟨⟨ch, hread, hrecovers⟩, size, ch', hnext, hseq⟩

end CustomHeader

end Lcmp.Wire
