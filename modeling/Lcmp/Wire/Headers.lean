import Lcmp.Congestion.QueuePair
import Lcmp.Lib.Bytes

/-!
# The headers of a packet

The `Serialize` functions of the headers that the hosts and switches put in front of each other, and the
iterators of `buffer.cc` over the bytes. `Packet::AddHeader` makes room for `GetSerializedSize` bytes in front
of the packet, and what the header does not write keeps what was in the buffer. Checksums are never enabled.
-/

namespace Lcmp

/-- `Buffer::Iterator`: the bytes from the current one to the end. -/
abbrev Iterator := List UInt8

namespace Iterator

def writeU8 (data : UInt8) : Iterator := [data]

def writeU16 (data : UInt16) : Iterator := Bytes.toLe 2 data.toNat

def writeU32 (data : UInt32) : Iterator := Bytes.toLe 4 data.toNat

def writeU64 (data : UInt64) : Iterator := Bytes.toLe 8 data.toNat

def writeHtonU16 (data : UInt16) : Iterator := Bytes.toBe 2 data.toNat

def writeHtonU32 (data : UInt32) : Iterator := Bytes.toBe 4 data.toNat

def readU8 (i : Iterator) : Option (UInt8 × Iterator) :=
  match i with
  | [] => none
  | data :: i => some (data, i)

def readU16 (i : Iterator) : Option (UInt16 × Iterator) := (Bytes.readLe 2 i).map fun p => (UInt16.ofNat p.1, p.2)

def readU32 (i : Iterator) : Option (UInt32 × Iterator) := (Bytes.readLe 4 i).map fun p => (UInt32.ofNat p.1, p.2)

def readU64 (i : Iterator) : Option (UInt64 × Iterator) := (Bytes.readLe 8 i).map fun p => (UInt64.ofNat p.1, p.2)

def readNtohU16 (i : Iterator) : Option (UInt16 × Iterator) :=
  (Bytes.readBe 2 i).map fun p => (UInt16.ofNat p.1, p.2)

def readNtohU32 (i : Iterator) : Option (UInt32 × Iterator) :=
  (Bytes.readBe 4 i).map fun p => (UInt32.ofNat p.1, p.2)

def next (delta : Nat) (i : Iterator) : Option Iterator := Bytes.skip delta i

variable (rest : Iterator)

@[simp] theorem readU8_write (data : UInt8) : readU8 (writeU8 data ++ rest) = some (data, rest) := rfl

@[simp] theorem readU16_write (data : UInt16) : readU16 (writeU16 data ++ rest) = some (data, rest) := by
  rw [readU16, writeU16, Bytes.readLe_toLe data.toNat_lt, Option.map_some, UInt16.ofNat_toNat]

@[simp] theorem readU32_write (data : UInt32) : readU32 (writeU32 data ++ rest) = some (data, rest) := by
  rw [readU32, writeU32, Bytes.readLe_toLe data.toNat_lt, Option.map_some, UInt32.ofNat_toNat]

@[simp] theorem readU64_write (data : UInt64) : readU64 (writeU64 data ++ rest) = some (data, rest) := by
  rw [readU64, writeU64, Bytes.readLe_toLe data.toNat_lt, Option.map_some, UInt64.ofNat_toNat]

@[simp] theorem readNtohU16_write (data : UInt16) :
    readNtohU16 (writeHtonU16 data ++ rest) = some (data, rest) := by
  rw [readNtohU16, writeHtonU16, Bytes.readBe_toBe data.toNat_lt, Option.map_some, UInt16.ofNat_toNat]

@[simp] theorem readNtohU32_write (data : UInt32) :
    readNtohU32 (writeHtonU32 data ++ rest) = some (data, rest) := by
  rw [readNtohU32, writeHtonU32, Bytes.readBe_toBe data.toNat_lt, Option.map_some, UInt32.ofNat_toNat]

@[simp] theorem length_writeU8 (data : UInt8) : (writeU8 data).length = 1 := rfl

@[simp] theorem length_writeU16 (data : UInt16) : (writeU16 data).length = 2 := Bytes.length_toLe 2 _

@[simp] theorem length_writeU32 (data : UInt32) : (writeU32 data).length = 4 := Bytes.length_toLe 4 _

@[simp] theorem length_writeU64 (data : UInt64) : (writeU64 data).length = 8 := Bytes.length_toLe 8 _

@[simp] theorem length_writeHtonU16 (data : UInt16) : (writeHtonU16 data).length = 2 := Bytes.length_toBe 2 _

@[simp] theorem length_writeHtonU32 (data : UInt32) : (writeHtonU32 data).length = 4 := Bytes.length_toBe 4 _

@[simp] theorem next_zero (i : Iterator) : next 0 i = some i := rfl

variable (delta : Nat)

@[simp] theorem next_writeU8 (data : UInt8) : next (delta + 1) (writeU8 data ++ rest) = next delta rest :=
  Bytes.skip_add_append (length_writeU8 data) delta rest

@[simp] theorem next_writeU16 (data : UInt16) : next (delta + 2) (writeU16 data ++ rest) = next delta rest :=
  Bytes.skip_add_append (length_writeU16 data) delta rest

@[simp] theorem next_writeU32 (data : UInt32) : next (delta + 4) (writeU32 data ++ rest) = next delta rest :=
  Bytes.skip_add_append (length_writeU32 data) delta rest

@[simp] theorem next_writeU64 (data : UInt64) : next (delta + 8) (writeU64 data ++ rest) = next delta rest :=
  Bytes.skip_add_append (length_writeU64 data) delta rest

@[simp] theorem next_writeHtonU16 (data : UInt16) :
    next (delta + 2) (writeHtonU16 data ++ rest) = next delta rest :=
  Bytes.skip_add_append (length_writeHtonU16 data) delta rest

end Iterator

open Iterator

/-! ### The INT header -/

namespace IntHop

/-- The bit fields of the 64-bit word, from the lowest on. -/
def word (h : IntHop) : Nat :=
  h.lineRate.val + 2 ^ 3 * (h.time.val + 2 ^ 24 * (h.bytes.val + 2 ^ 20 * h.qlen.val))

/-- The view `buf` of the union: the low and the high half of the word. -/
def buf (h : IntHop) : UInt32 × UInt32 := (UInt32.ofNat h.word, UInt32.ofNat (h.word >>> 32))

def ofWord (word : Nat) : IntHop where
  lineRate := ⟨Bytes.field 0 3 word, Bytes.field_lt 0 3 word⟩
  time := ⟨Bytes.field 3 24 word, Bytes.field_lt 3 24 word⟩
  bytes := ⟨Bytes.field 27 20 word, Bytes.field_lt 27 20 word⟩
  qlen := ⟨Bytes.field 47 17 word, Bytes.field_lt 47 17 word⟩

/-- Writing the two halves of `buf`. -/
def ofBuf (buf0 buf1 : UInt32) : IntHop := ofWord (buf0.toNat + 2 ^ 32 * buf1.toNat)

theorem word_lt (h : IntHop) : h.word < 2 ^ 64 := by
  have hlineRate := h.lineRate.isLt
  have htime := h.time.isLt
  have hbytes := h.bytes.isLt
  have hqlen := h.qlen.isLt
  rw [word]
  omega

theorem buf_word (h : IntHop) : h.buf.1.toNat + 2 ^ 32 * h.buf.2.toNat = h.word := by
  have hlt := h.word_lt
  simp only [buf, UInt32.toNat_ofNat', Nat.shiftRight_eq_div_pow]
  omega

theorem ofWord_word (h : IntHop) : ofWord h.word = h := by
  have hlineRate : h.lineRate.val < 2 ^ 3 := h.lineRate.isLt
  have hword0 : Bytes.field 0 3 h.word = h.lineRate.val := Bytes.field_zero hlineRate _
  have hword3 : Bytes.field 3 24 h.word = h.time.val := by
    rw [word, Bytes.field_add hlineRate 0 rfl, Bytes.field_zero h.time.isLt]
  have hword27 : Bytes.field 27 20 h.word = h.bytes.val := by
    rw [word, Bytes.field_add hlineRate 24 rfl, Bytes.field_add h.time.isLt 0 rfl, Bytes.field_zero h.bytes.isLt]
  have hword47 : Bytes.field 47 17 h.word = h.qlen.val := by
    rw [word, Bytes.field_add hlineRate 44 rfl, Bytes.field_add h.time.isLt 20 rfl,
      Bytes.field_add h.bytes.isLt 0 rfl, Bytes.field_self h.qlen.isLt]
  generalize h.word = w at hword0 hword3 hword27 hword47
  obtain ⟨lineRate, time, bytes, qlen⟩ := h
  simp only [ofWord, IntHop.mk.injEq]
  exact ⟨Fin.ext hword0, Fin.ext hword3, Fin.ext hword27, Fin.ext hword47⟩

/-- The two words of the buffer hold the bit fields. -/
theorem ofBuf_buf (h : IntHop) : ofBuf h.buf.1 h.buf.2 = h := by
  rw [ofBuf, buf_word, ofWord_word]

end IntHop

/-- `IntHeader::Mode`. -/
inductive IntMode where
  | normal
  | ts
  | pint
  | none
  deriving DecidableEq

/-- The static members `mode` and `pint_bytes` of `IntHeader`. -/
structure IntStatic where
  mode : IntMode
  pintBytes : Int

namespace IntStatic

/-- `IntHeader::GetStaticSize`. The union `pint` has two bytes, whatever `pint_bytes` is. -/
def getStaticSize (int : IntStatic) : Nat :=
  match int.mode with
  | .normal => IntHeader.maxHop * 8 + 2
  | .ts => 8
  | .pint => 2
  | .none => 0

end IntStatic

namespace IntHeader

variable (int : IntStatic)

/-- The low byte of `power`. -/
def powerLo8 (ih : IntHeader) : UInt8 := ih.power.toUInt8

/-- Writing `power_lo8` keeps the high byte. -/
def setPowerLo8 (lo8 : UInt8) (ih : IntHeader) : IntHeader :=
  { ih with power := ih.power &&& 0xff00 ||| lo8.toUInt16 }

/-- `GetPower`, in the mode that has one. -/
def getPower (ih : IntHeader) : UInt16 := if int.pintBytes = 1 then ih.powerLo8.toUInt16 else ih.power

def writeHop (ih : IntHeader) (j : Nat) : Iterator := writeU32 (ih.hop j).buf.1 ++ writeU32 (ih.hop j).buf.2

def serialize (ih : IntHeader) : Iterator :=
  match int.mode with
  | .normal => (List.range maxHop).flatMap ih.writeHop ++ writeU16 ih.nhop
  | .ts => writeU64 ih.ts
  | .pint =>
      if int.pintBytes = 1 then writeU8 ih.powerLo8
      else if int.pintBytes = 2 then writeU16 ih.power
      else []
  | .none => []

/-- The loop over the hops. -/
def readHops (hop : Nat → IntHop) : List Nat → Iterator → Option ((Nat → IntHop) × Iterator)
  | [], i => some (hop, i)
  | j :: todo, i => do
      let (buf0, i) ← readU32 i
      let (buf1, i) ← readU32 i
      readHops (Function.update hop j (IntHop.ofBuf buf0 buf1)) todo i

/-- The iterator is passed by value: the caller's does not move. -/
def deserialize (ih : IntHeader) (start : Iterator) : Option IntHeader :=
  match int.mode with
  | .normal => do
      let (hop, i) ← readHops ih.hop (List.range maxHop) start
      let (nhop, _) ← readU16 i
      return { ih with hop := hop, nhop := nhop }
  | .ts => do
      let (ts, _) ← readU64 start
      return { ih with ts := ts }
  | .pint =>
      if int.pintBytes = 1 then do
        let (lo8, _) ← readU8 start
        return ih.setPowerLo8 lo8
      else if int.pintBytes = 2 then do
        let (power, _) ← readU16 start
        return { ih with power := power }
      else some ih
  | .none => some ih

/-- Two headers carry the same telemetry in the mode. -/
def SameContents (ih ih' : IntHeader) : Prop :=
  match int.mode with
  | .normal => (∀ j < maxHop, ih'.hop j = ih.hop j) ∧ ih'.nhop = ih.nhop
  | .ts => ih'.ts = ih.ts
  | .pint => ih'.getPower int = ih.getPower int
  | .none => True

theorem length_writeHops (ih : IntHeader) (todo : List Nat) : (todo.flatMap ih.writeHop).length = todo.length * 8 := by
  induction todo with
  | nil => rfl
  | cons j rest ih' =>
      rw [List.flatMap_cons, List.length_append, ih', writeHop, List.length_append, length_writeU32, length_writeU32,
        List.length_cons]
      omega

/-- What is written fits in the room that is made for it. -/
theorem length_serialize_le (ih : IntHeader) : (ih.serialize int).length ≤ int.getStaticSize := by
  simp only [serialize, IntStatic.getStaticSize]
  split
  · rw [List.length_append, length_writeHops, List.length_range, length_writeU16]
  · rw [length_writeU64]
  · split
    · rw [length_writeU8]
      decide
    · split
      · rw [length_writeU16]
      · exact Nat.zero_le _
  · exact Nat.le_refl _

theorem readHops_write (ih : IntHeader) (hop : Nat → IntHop) (todo : List Nat) (rest : Iterator) :
    ∃ hop', readHops hop todo (todo.flatMap ih.writeHop ++ rest) = some (hop', rest) ∧
      ∀ j, hop' j = if j ∈ todo then ih.hop j else hop j := by
  induction todo generalizing hop with
  | nil => exact ⟨hop, rfl, fun j => (if_neg List.not_mem_nil).symm⟩
  | cons j todo ih' =>
      obtain ⟨hop', hread, hhop⟩ := ih' (Function.update hop j (ih.hop j))
      refine ⟨hop', ?_, fun k => ?_⟩
      · rw [readHops, List.flatMap_cons, List.append_assoc, writeHop, List.append_assoc]
        simp only [readU32_write, Option.bind_eq_bind, Option.bind_some, IntHop.ofBuf_buf]
        exact hread
      · rw [hhop k]
        by_cases hk : k ∈ todo
        · rw [if_pos hk, if_pos (List.mem_cons_of_mem j hk)]
        · rw [if_neg hk]
          by_cases hj : k = j
          · subst hj
            rw [Function.update_self, if_pos List.mem_cons_self]
          · rw [Function.update_of_ne hj, if_neg (List.not_mem_cons_of_ne_of_not_mem hj hk)]

theorem powerLo8_set (lo8 : UInt8) (ih : IntHeader) : (ih.setPowerLo8 lo8).powerLo8 = lo8 := by
  have hlo8 : lo8.toNat % 2 ^ 8 = lo8.toNat := Nat.mod_eq_of_lt lo8.toNat_lt
  have hword : lo8.toUInt16.toNat % 2 ^ 8 = lo8.toNat := by rw [UInt8.toNat_toUInt16, hlo8]
  have hhigh : (ih.power.toNat &&& (0xff00 : UInt16).toNat) % 2 ^ 8 = 0 := by
    rw [Nat.and_mod_two_pow]
    exact Nat.and_zero _
  apply UInt8.toNat_inj.mp
  simp only [powerLo8, setPowerLo8]
  rw [UInt16.toNat_toUInt8, UInt16.toNat_or, UInt16.toNat_and, Nat.or_mod_two_pow, hhigh, hword, Nat.zero_or]

/-- The reader recovers the telemetry, whatever the header held before. -/
theorem deserialize_serialize (hpint : int.pintBytes = 1 ∨ int.pintBytes = 2) (ih ih₀ : IntHeader)
    (rest : Iterator) :
    ∃ ih', ih₀.deserialize int (ih.serialize int ++ rest) = some ih' ∧ SameContents int ih ih' := by
  simp only [deserialize, serialize, SameContents]
  cases int.mode with
  | normal =>
      obtain ⟨hop', hread, hhop⟩ := readHops_write ih ih₀.hop (List.range maxHop) (writeU16 ih.nhop ++ rest)
      refine ⟨{ ih₀ with hop := hop', nhop := ih.nhop }, ?_, fun j hj => ?_, rfl⟩
      · rw [List.append_assoc, hread]
        simp only [Option.bind_eq_bind, Option.bind_some, readU16_write]
        rfl
      · exact (hhop j).trans (if_pos (List.mem_range.mpr hj))
  | ts =>
      refine ⟨{ ih₀ with ts := ih.ts }, ?_, rfl⟩
      simp only [readU64_write, Option.bind_eq_bind, Option.bind_some]
      rfl
  | pint =>
      by_cases hone : int.pintBytes = 1
      · refine ⟨ih₀.setPowerLo8 ih.powerLo8, ?_, ?_⟩
        · simp only [if_pos hone, readU8_write, Option.bind_eq_bind, Option.bind_some]
          rfl
        · rw [getPower, getPower, if_pos hone, if_pos hone, powerLo8_set]
      · have htwo : int.pintBytes = 2 := hpint.resolve_left hone
        refine ⟨{ ih₀ with power := ih.power }, ?_, ?_⟩
        · simp only [if_neg hone, if_pos htwo, readU16_write, Option.bind_eq_bind, Option.bind_some]
          rfl
        · rw [getPower, getPower, if_neg hone, if_neg hone]
  | none => exact ⟨ih₀, rfl, trivial⟩

end IntHeader

/-! ### The other headers -/

structure PppHeader where
  protocol : UInt16

structure Ipv4Header where
  payloadSize : UInt16
  identification : UInt16
  tos : UInt8
  ttl : UInt8
  protocol : UInt8
  dontFragment : Bool
  moreFragments : Bool
  fragmentOffset : UInt16
  source : UInt32
  destination : UInt32

structure UdpHeader where
  sourcePort : UInt16
  destinationPort : UInt16

structure SeqTsHeader where
  seq : UInt32
  pg : UInt16
  ih : IntHeader

structure QbbHeader where
  sport : UInt16
  dport : UInt16
  flags : UInt16
  pg : UInt16
  seq : UInt32
  ih : IntHeader

structure PauseHeader where
  time : UInt32
  qlen : UInt32
  qindex : UInt8

structure CnHeader where
  qIndex : UInt8
  fid : UInt16
  ecnBits : UInt8
  qfb : UInt16
  total : UInt16

def PppHeader.getStaticSize : Nat := 14

def PppHeader.serialize (ppp : PppHeader) : Iterator :=
  writeHtonU16 ppp.protocol ++ (writeU64 0 ++ writeU32 0)

namespace Ipv4Header

def getSerializedSize : Nat := 5 * 4

def getEcn (ip : Ipv4Header) : UInt8 := ip.tos &&& 0x3

/-- The upper bits of the fragment offset, below the two flags. -/
def flagsFrag (ip : Ipv4Header) : UInt8 :=
  let fragmentOffset := ip.fragmentOffset / 8
  let flagsFrag := (fragmentOffset >>> 8).toUInt8 &&& 0x1f
  let flagsFrag := if ip.dontFragment then flagsFrag ||| (1 : UInt8) <<< 6 else flagsFrag
  if ip.moreFragments then flagsFrag ||| (1 : UInt8) <<< 5 else flagsFrag

def serialize (ip : Ipv4Header) : Iterator :=
  let verIhl := (4 : UInt8) <<< 4 ||| 5
  let frag : UInt8 := (ip.fragmentOffset / 8).toUInt8
  writeU8 verIhl ++ (writeU8 ip.tos ++ (writeHtonU16 (ip.payloadSize + 5 * 4) ++
    (writeHtonU16 ip.identification ++ (writeU8 ip.flagsFrag ++ (writeU8 frag ++ (writeU8 ip.ttl ++
      (writeU8 ip.protocol ++ (writeHtonU16 0 ++ (writeHtonU32 ip.source ++ writeHtonU32 ip.destination)))))))))

end Ipv4Header

def UdpHeader.getSerializedSize : Nat := 8

/-- `size` is the size of the buffer that begins with this header. -/
def UdpHeader.serialize (udp : UdpHeader) (size : Nat) : Iterator :=
  writeHtonU16 udp.sourcePort ++ (writeHtonU16 udp.destinationPort ++ (writeHtonU16 (UInt16.ofNat size) ++ writeU16 0))

def SeqTsHeader.getHeaderSize (int : IntStatic) : Nat := 6 + int.getStaticSize

def SeqTsHeader.serialize (int : IntStatic) (seqTs : SeqTsHeader) : Iterator :=
  writeHtonU32 seqTs.seq ++ (writeHtonU16 seqTs.pg ++ seqTs.ih.serialize int)

/-- The sizes of the fields without INT. -/
def QbbHeader.getBaseSize : Nat := 2 + 2 + 2 + 2 + 4

def QbbHeader.getSerializedSize (int : IntStatic) : Nat := getBaseSize + int.getStaticSize

def QbbHeader.serialize (int : IntStatic) (qbb : QbbHeader) : Iterator :=
  writeU16 qbb.sport ++ (writeU16 qbb.dport ++ (writeU16 qbb.flags ++ (writeU16 qbb.pg ++
    (writeU32 qbb.seq ++ qbb.ih.serialize int))))

def PauseHeader.getSerializedSize : Nat := 9

def PauseHeader.serialize (pause : PauseHeader) : Iterator :=
  writeU32 pause.time ++ (writeU32 pause.qlen ++ writeU8 pause.qindex)

def CnHeader.getSerializedSize : Nat := 8

def CnHeader.serialize (cn : CnHeader) : Iterator :=
  writeU8 cn.qIndex ++ (writeU16 cn.fid ++ (writeU8 cn.ecnBits ++ (writeU16 cn.qfb ++ writeU16 cn.total)))

/-! ### Packets -/

/-- What a header leaves unwritten of the room it asked for keeps the bytes `old` of the buffer. -/
def unwritten (old : Nat → UInt8) (size : Nat) (header : Iterator) : Iterator :=
  (List.range' header.length (size - header.length)).map old

/-- `Packet::AddHeader`: `size` bytes in front of the packet, from which the header is written. -/
def addHeader (old : Nat → UInt8) (size : Nat) (header packet : Iterator) : Iterator :=
  header ++ (unwritten old size header ++ packet)

theorem length_addHeader {old : Nat → UInt8} {size : Nat} {header packet : Iterator} (h : header.length ≤ size) :
    (addHeader old size header packet).length = size + packet.length := by
  rw [addHeader, unwritten, List.length_append, List.length_append, List.length_map, List.length_range']
  omega

/-- A header that fills its room. -/
theorem addHeader_full {old : Nat → UInt8} {size : Nat} {header packet : Iterator} (h : header.length = size) :
    addHeader old size header packet = header ++ packet := by
  rw [addHeader, unwritten, h, Nat.sub_self]
  rfl

/-- What follows the IPv4 header. -/
inductive L4Header where
  | data (udp : UdpHeader) (seqTs : SeqTsHeader)
  | ack (qbb : QbbHeader)
  | pfc (pause : PauseHeader)
  | cnp (cn : CnHeader)

namespace L4Header

def size (int : IntStatic) : L4Header → Nat
  | .data _ _ => UdpHeader.getSerializedSize + SeqTsHeader.getHeaderSize int
  | .ack _ => QbbHeader.getSerializedSize int
  | .pfc _ => PauseHeader.getSerializedSize
  | .cnp _ => CnHeader.getSerializedSize

/-- The protocol numbers the writers set. -/
def Protocol : L4Header → UInt8 → Prop
  | .data _ _, protocol => protocol = 0x11
  | .ack _, protocol => protocol = 0xfc ∨ protocol = 0xfd
  | .pfc _, protocol => protocol = 0xfe
  | .cnp _, protocol => protocol = 0xff

/-- The packet from this header on. `old` are the bytes in the buffer, for each header. -/
def add (int : IntStatic) (old : Nat → Nat → UInt8) (payload : Iterator) : L4Header → Iterator
  | .data udp seqTs =>
      let p := addHeader (old 0) (SeqTsHeader.getHeaderSize int) (seqTs.serialize int) payload
      addHeader (old 1) UdpHeader.getSerializedSize (udp.serialize (UdpHeader.getSerializedSize + p.length)) p
  | .ack qbb => addHeader (old 0) (QbbHeader.getSerializedSize int) (qbb.serialize int) payload
  | .pfc pause => addHeader (old 0) PauseHeader.getSerializedSize pause.serialize payload
  | .cnp cn => addHeader (old 0) CnHeader.getSerializedSize cn.serialize payload

end L4Header

/-- The bytes of a packet. -/
def packet (int : IntStatic) (old : Nat → Nat → UInt8) (ppp : PppHeader) (ip : Ipv4Header) (l4 : L4Header)
    (payload : Iterator) : Iterator :=
  let p := l4.add int old payload
  let p := addHeader (old 2) Ipv4Header.getSerializedSize ip.serialize p
  addHeader (old 3) PppHeader.getStaticSize ppp.serialize p

/-! ### Sizes -/

theorem PppHeader.length_serialize (ppp : PppHeader) : ppp.serialize.length = getStaticSize := by
  simp only [serialize, List.length_append, length_writeHtonU16, length_writeU64, length_writeU32, getStaticSize]

theorem Ipv4Header.length_serialize (ip : Ipv4Header) : ip.serialize.length = getSerializedSize := by
  simp only [serialize, List.length_append, length_writeU8, length_writeHtonU16, length_writeHtonU32,
    getSerializedSize]

theorem UdpHeader.length_serialize (udp : UdpHeader) (size : Nat) : (udp.serialize size).length = getSerializedSize := by
  simp only [serialize, List.length_append, length_writeHtonU16, length_writeU16, getSerializedSize]

theorem SeqTsHeader.length_serialize_le (int : IntStatic) (seqTs : SeqTsHeader) :
    (seqTs.serialize int).length ≤ getHeaderSize int := by
  have hint := seqTs.ih.length_serialize_le int
  simp only [serialize, List.length_append, length_writeHtonU32, length_writeHtonU16, getHeaderSize]
  omega

theorem QbbHeader.length_serialize_le (int : IntStatic) (qbb : QbbHeader) :
    (qbb.serialize int).length ≤ getSerializedSize int := by
  have hint := qbb.ih.length_serialize_le int
  simp only [serialize, List.length_append, length_writeU16, length_writeU32, getSerializedSize, getBaseSize]
  omega

theorem PauseHeader.length_serialize (pause : PauseHeader) : pause.serialize.length = getSerializedSize := by
  simp only [serialize, List.length_append, length_writeU32, length_writeU8, getSerializedSize]

theorem CnHeader.length_serialize (cn : CnHeader) : cn.serialize.length = getSerializedSize := by
  simp only [serialize, List.length_append, length_writeU8, length_writeU16, getSerializedSize]

theorem L4Header.length_add (int : IntStatic) (old : Nat → Nat → UInt8) (payload : Iterator) (l4 : L4Header) :
    (l4.add int old payload).length = l4.size int + payload.length := by
  cases l4 with
  | data udp seqTs =>
      simp only [add, size]
      rw [length_addHeader (Nat.le_of_eq (udp.length_serialize _)), length_addHeader (seqTs.length_serialize_le int),
        Nat.add_assoc]
  | ack qbb => exact length_addHeader (qbb.length_serialize_le int)
  | pfc pause => exact length_addHeader (Nat.le_of_eq pause.length_serialize)
  | cnp cn => exact length_addHeader (Nat.le_of_eq cn.length_serialize)

theorem packet_eq (int : IntStatic) (old : Nat → Nat → UInt8) (ppp : PppHeader) (ip : Ipv4Header) (l4 : L4Header)
    (payload : Iterator) :
    packet int old ppp ip l4 payload = ppp.serialize ++ (ip.serialize ++ l4.add int old payload) := by
  rw [packet, addHeader_full ip.length_serialize, addHeader_full ppp.length_serialize]

theorem length_packet (int : IntStatic) (old : Nat → Nat → UInt8) (ppp : PppHeader) (ip : Ipv4Header)
    (l4 : L4Header) (payload : Iterator) :
    (packet int old ppp ip l4 payload).length = 14 + 20 + l4.size int + payload.length := by
  rw [packet_eq, List.length_append, List.length_append, ppp.length_serialize, ip.length_serialize, l4.length_add,
    PppHeader.getStaticSize, Ipv4Header.getSerializedSize]
  omega

end Lcmp
