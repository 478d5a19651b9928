import Lcmp.Wire.CustomHeader
import Lcmp.Wire.Telemetry

/-!
# Telemetry in place

A switch adds its telemetry to a packet without parsing it: the bytes from a fixed offset on are taken for an
`IntHeader` and changed where they are. On a little-endian machine that lays out bit fields from the lowest bit
on, this is the same as reading the header, adding a hop and writing it back.
-/

namespace Lcmp

open Iterator

/-- What a switch writes for a hop. -/
structure HopReading where
  time : UInt64
  bytes : UInt64
  qlen : UInt32
  rate : UInt64

def IntHop.record (multi : UInt32) (h : IntHop) (r : HopReading) : Option IntHop :=
  h.set multi r.time r.bytes r.qlen r.rate

namespace IntHeader

variable (int : IntStatic) (multi : UInt32) (r : HopReading)

/-- `IntHeader::PushHop`. -/
def pushHop (ih : IntHeader) : Option IntHeader :=
  if int.mode = .normal then do
    let idx := ih.nhop.toNat % maxHop
    let hop ← (ih.hop idx).record multi r
    some { ih with hop := Function.update ih.hop idx hop, nhop := ih.nhop + 1 }
  else some ih

/-- `PushHop` on the bytes from `pos` on, taken for an `IntHeader`: the hops first, each a 64-bit word with its bit
fields, and `nhop` behind them. -/
def pushHopAt (pos : Nat) (buf : Iterator) : Option Iterator :=
  if int.mode = .normal then do
    let nhop := UInt16.ofNat (Bytes.peekLe 2 (pos + maxHop * 8) buf)
    let idx := nhop.toNat % maxHop
    let hop ← (IntHop.ofWord (Bytes.peekLe 8 (pos + idx * 8) buf)).record multi r
    let buf := Bytes.overwrite buf (pos + idx * 8) (Bytes.toLe 8 hop.word)
    some (Bytes.overwrite buf (pos + maxHop * 8) (Bytes.toLe 2 (nhop + 1).toNat))
  else some buf

/-- Read the header into any old one, push, write it back. -/
def recode (ih₀ : IntHeader) (pos : Nat) (buf : Iterator) : Option Iterator := do
  let ih ← ih₀.deserialize int (buf.drop pos)
  let ih ← ih.pushHop int multi r
  some (Bytes.overwrite buf pos (ih.serialize int))

variable {int multi r}

/-! ### The bytes of the hops -/

/-- The two halves of a hop are its word. -/
theorem writeHop_eq (ih : IntHeader) (j : Nat) : ih.writeHop j = Bytes.toLe 8 (ih.hop j).word := by
  have hlow : (UInt32.ofNat (ih.hop j).word).toNat = (ih.hop j).word % 2 ^ (8 * 4) := UInt32.toNat_ofNat'
  have hhigh : (UInt32.ofNat ((ih.hop j).word >>> 32)).toNat = ((ih.hop j).word >>> (8 * 4)) % 2 ^ (8 * 4) :=
    UInt32.toNat_ofNat'
  have hwhole : Bytes.toLe (4 + 4) (ih.hop j).word = _ := Bytes.toLe_add 4 4 _
  unfold writeHop writeU32 IntHop.buf
  rw [hlow, hhigh, Bytes.toLe_mod, Bytes.toLe_mod]
  exact hwhole.symm

theorem range_split {i n : Nat} (h : i < n) : List.range n = List.range i ++ i :: List.range' (i + 1) (n - 1 - i) := by
  have hrest : i :: List.range' (i + 1) (n - 1 - i) = List.range' (0 + i) (n - 1 - i + 1) := by
    rw [Nat.zero_add]
    rfl
  have hlength : i + (n - 1 - i + 1) = n := by omega
  rw [hrest, List.range_eq_range', List.range_eq_range', List.range'_append_1, hlength]

/-- The words before one, that word, and those behind it. -/
theorem hops_split (ih : IntHeader) {idx : Nat} (hidx : idx < maxHop) :
    (List.range maxHop).flatMap ih.writeHop = (List.range idx).flatMap ih.writeHop ++
      (Bytes.toLe 8 (ih.hop idx).word ++ (List.range' (idx + 1) (maxHop - 1 - idx)).flatMap ih.writeHop) := by
  rw [range_split hidx, List.flatMap_append, List.flatMap_cons, writeHop_eq]

theorem flatMap_writeHop_congr {ih ih' : IntHeader} {todo : List Nat} (h : ∀ j ∈ todo, ih'.hop j = ih.hop j) :
    todo.flatMap ih'.writeHop = todo.flatMap ih.writeHop := by
  apply List.flatMap_congr
  intro j hj
  unfold writeHop
  rw [h j hj]

theorem serialize_normal (hmode : int.mode = .normal) (ih : IntHeader) :
    ih.serialize int = (List.range maxHop).flatMap ih.writeHop ++ Bytes.toLe 2 ih.nhop.toNat := by
  unfold serialize
  rw [hmode]
  rfl

/-- What is written depends on the contents only. -/
theorem serialize_congr (hmode : int.mode = .normal) {ih ih' : IntHeader} (h : SameContents int ih ih') :
    ih'.serialize int = ih.serialize int := by
  unfold SameContents at h
  rw [hmode] at h
  rw [serialize_normal hmode, serialize_normal hmode, h.2, flatMap_writeHop_congr fun j hj => h.1 j (List.mem_range.mp hj)]

theorem length_serialize (hmode : int.mode = .normal) (ih : IntHeader) : (ih.serialize int).length = maxHop * 8 + 2 := by
  rw [serialize_normal hmode, List.length_append, length_writeHops, List.length_range, Bytes.length_toLe]

/-! ### One hop more -/

/-- The header with one hop more. -/
def pushed (ih : IntHeader) (hop : IntHop) : IntHeader :=
  { ih with hop := Function.update ih.hop (ih.nhop.toNat % maxHop) hop, nhop := ih.nhop + 1 }

theorem pushHop_normal (hmode : int.mode = .normal) (ih : IntHeader) :
    ih.pushHop int multi r = ((ih.hop (ih.nhop.toNat % maxHop)).record multi r).map ih.pushed := by
  unfold pushHop
  rw [if_pos hmode]
  dsimp only
  cases (ih.hop (ih.nhop.toNat % maxHop)).record multi r with
  | none => rfl
  | some hop => rfl

/-- Only the word of the hop is another. -/
theorem hops_pushed (ih : IntHeader) (hop : IntHop) :
    (List.range maxHop).flatMap (ih.pushed hop).writeHop =
      (List.range (ih.nhop.toNat % maxHop)).flatMap ih.writeHop ++ (Bytes.toLe 8 hop.word ++
        (List.range' (ih.nhop.toNat % maxHop + 1) (maxHop - 1 - ih.nhop.toNat % maxHop)).flatMap ih.writeHop) := by
  have hidx : ih.nhop.toNat % maxHop < maxHop := Nat.mod_lt _ (by decide)
  have hself : (ih.pushed hop).hop (ih.nhop.toNat % maxHop) = hop := Function.update_self ..
  have hother : ∀ j, j ≠ ih.nhop.toNat % maxHop → (ih.pushed hop).hop j = ih.hop j := fun j hj =>
    Function.update_of_ne hj ..
  have hbefore : (List.range (ih.nhop.toNat % maxHop)).flatMap (ih.pushed hop).writeHop = _ :=
    flatMap_writeHop_congr fun j hj => hother j (Nat.ne_of_lt (List.mem_range.mp hj))
  have hbehind : (List.range' (ih.nhop.toNat % maxHop + 1) (maxHop - 1 - ih.nhop.toNat % maxHop)).flatMap
      (ih.pushed hop).writeHop = _ :=
    flatMap_writeHop_congr fun j hj => hother j (Nat.ne_of_gt (List.mem_range'_1.mp hj).1)
  rw [hops_split _ hidx, hself, hbefore, hbehind]

/-- The cast, on a header that was written by `Serialize`. -/
theorem pushHopAt_serialize (hmode : int.mode = .normal) (ih : IntHeader) (front rest : Iterator) :
    pushHopAt int multi r front.length (front ++ (ih.serialize int ++ rest)) =
      (ih.pushHop int multi r).map fun ih => front ++ (ih.serialize int ++ rest) := by
  have hidx : ih.nhop.toNat % maxHop < maxHop := Nat.mod_lt _ (by decide)
  have hlayout : ∀ ih : IntHeader, front ++ (ih.serialize int ++ rest) =
      (front ++ (List.range maxHop).flatMap ih.writeHop) ++ (Bytes.toLe 2 ih.nhop.toNat ++ rest) := by
    intro ih
    rw [serialize_normal hmode, List.append_assoc, List.append_assoc]
  have hsize : ∀ ih : IntHeader,
      (front ++ (List.range maxHop).flatMap ih.writeHop).length = front.length + maxHop * 8 := by
    intro ih
    rw [List.length_append, length_writeHops, List.length_range]
  have hfront : (front ++ (List.range (ih.nhop.toNat % maxHop)).flatMap ih.writeHop).length =
      front.length + ih.nhop.toNat % maxHop * 8 := by
    rw [List.length_append, length_writeHops, List.length_range]
  have hnhop : Bytes.peekLe 2 (front.length + maxHop * 8) (front ++ (ih.serialize int ++ rest)) = ih.nhop.toNat := by
    rw [hlayout, Bytes.peekLe_append (hsize ih)]
    exact Nat.mod_eq_of_lt ih.nhop.toNat_lt
  have hsplit : front ++ (ih.serialize int ++ rest) =
      (front ++ (List.range (ih.nhop.toNat % maxHop)).flatMap ih.writeHop) ++
        (Bytes.toLe 8 (ih.hop (ih.nhop.toNat % maxHop)).word ++
          ((List.range' (ih.nhop.toNat % maxHop + 1) (maxHop - 1 - ih.nhop.toNat % maxHop)).flatMap ih.writeHop ++
            (Bytes.toLe 2 ih.nhop.toNat ++ rest))) := by
    rw [hlayout, hops_split ih hidx]
    simp only [List.append_assoc]
  have hword : IntHop.ofWord (Bytes.peekLe 8 (front.length + ih.nhop.toNat % maxHop * 8)
      (front ++ (ih.serialize int ++ rest))) = ih.hop (ih.nhop.toNat % maxHop) := by
    rw [hsplit, Bytes.peekLe_append hfront, Nat.mod_eq_of_lt (IntHop.word_lt _), IntHop.ofWord_word]
  rw [pushHop_normal hmode]
  unfold pushHopAt
  rw [if_pos hmode, hnhop, UInt16.ofNat_toNat]
  dsimp only
  rw [hword]
  cases (ih.hop (ih.nhop.toNat % maxHop)).record multi r with
  | none => rfl
  | some hop =>
      have hover : Bytes.overwrite (front ++ (ih.serialize int ++ rest)) (front.length + ih.nhop.toNat % maxHop * 8)
          (Bytes.toLe 8 hop.word) =
          (front ++ (List.range maxHop).flatMap (ih.pushed hop).writeHop) ++ (Bytes.toLe 2 ih.nhop.toNat ++ rest) := by
        rw [hsplit, Bytes.overwrite_append hfront ((Bytes.length_toLe 8 _).trans (Bytes.length_toLe 8 _).symm), hops_pushed]
        simp only [List.append_assoc]
      simp only [Option.bind_eq_bind, Option.bind_some, Option.map_some]
      rw [hover, Bytes.overwrite_append (hsize _) ((Bytes.length_toLe 2 _).trans (Bytes.length_toLe 2 _).symm), hlayout]
      rfl

/-- Two headers with the same contents have the same after a hop. -/
theorem pushHop_congr (hmode : int.mode = .normal) {ih ih' : IntHeader} (h : SameContents int ih ih') :
    (ih'.pushHop int multi r).map (fun ih => ih.serialize int) = (ih.pushHop int multi r).map fun ih => ih.serialize int := by
  have hcontents := h
  unfold SameContents at hcontents
  rw [hmode] at hcontents
  obtain ⟨hhop, hnhop⟩ := hcontents
  have hidx : ih.nhop.toNat % maxHop < maxHop := Nat.mod_lt _ (by decide)
  rw [pushHop_normal hmode, pushHop_normal hmode, hnhop, hhop _ hidx, Option.map_map, Option.map_map]
  congr 1
  funext hop
  apply serialize_congr hmode
  unfold SameContents
  rw [hmode]
  refine ⟨fun j hj => ?_, ?_⟩
  · unfold pushed
    dsimp only
    rw [hnhop, Function.update_apply, Function.update_apply, hhop j hj]
  · unfold pushed
    dsimp only
    rw [hnhop]

/-- In this mode the number of PINT bytes has no part. -/
theorem deserialize_normal (hmode : int.mode = .normal) (ih ih₀ : IntHeader) (rest : Iterator) :
    ∃ ih', ih₀.deserialize int (ih.serialize int ++ rest) = some ih' ∧ SameContents int ih ih' := by
  obtain ⟨mode, pintBytes⟩ := int
  subst hmode
  exact deserialize_serialize ⟨.normal, 2⟩ (.inr rfl) ih ih₀ rest

/-- The way through the parser, on a header that was written by `Serialize`. -/
theorem recode_serialize (hmode : int.mode = .normal) (ih₀ ih : IntHeader) (front rest : Iterator) :
    recode int multi r ih₀ front.length (front ++ (ih.serialize int ++ rest)) =
      (ih.pushHop int multi r).map fun ih => front ++ (ih.serialize int ++ rest) := by
  obtain ⟨ih', hread, hsame⟩ := deserialize_normal hmode ih ih₀ rest
  have hpush : (ih'.pushHop int multi r).map _ = _ := pushHop_congr hmode hsame
  unfold recode
  rw [List.drop_left, hread]
  simp only [Option.bind_eq_bind, Option.bind_some]
  cases hpush' : ih'.pushHop int multi r with
  | none =>
      rw [hpush'] at hpush
      rw [Option.map_eq_none_iff.mp hpush.symm]
      rfl
  | some after' =>
      rw [hpush', Option.map_some] at hpush
      obtain ⟨after, hafter, hbytes⟩ := Option.map_eq_some_iff.mp hpush.symm
      rw [hafter, Option.bind_some, Option.map_some, hbytes,
        Bytes.overwrite_append rfl ((length_serialize hmode ih).trans (length_serialize hmode after').symm)]

end IntHeader

/-! ### The mark of congestion -/

/-- The header, and how many bytes it takes. -/
def PppHeader.deserialize (start : Iterator) : Option (PppHeader × Nat) := do
  let (protocol, i) ← readNtohU16 start
  let _ ← next 12 i
  some (⟨protocol⟩, getStaticSize)

namespace Ipv4Header

/-- The second result is `m_headerSize`. -/
def deserialize (start : Iterator) : Option (Ipv4Header × Nat) := do
  let (verIhl, i) ← readU8 start
  let headerSize := (verIhl &&& 0x0f).toNat * 4
  if verIhl >>> 4 ≠ 4 then none
  else do
    let (tos, i) ← readU8 i
    let (size, i) ← readNtohU16 i
    let (identification, i) ← readNtohU16 i
    let (flags, i) ← readU8 i
    let (frag, i) ← readU8 i
    let (ttl, i) ← readU8 i
    let (protocol, i) ← readU8 i
    let (_, i) ← readU16 i
    let (source, i) ← readNtohU32 i
    let (destination, _) ← readNtohU32 i
    some ({
      payloadSize := size - UInt16.ofNat headerSize
      identification, tos, ttl, protocol, source, destination
      dontFragment := flags &&& (1 : UInt8) <<< 6 != 0
      moreFragments := flags &&& (1 : UInt8) <<< 5 != 0
      fragmentOffset := ((flags &&& 0x1f).toUInt16 <<< 8 ||| frag.toUInt16) <<< 3 }, headerSize)

def setEcn (ecn : UInt8) (ip : Ipv4Header) : Ipv4Header := { ip with tos := ip.tos &&& 0xfc ||| ecn }

/-- A header of a packet that is no fragment is read back. -/
theorem deserialize_serialize {ip : Ipv4Header} (hdont : ip.dontFragment = false) (hmore : ip.moreFragments = false)
    (hoffset : ip.fragmentOffset = 0) (rest : Iterator) :
    deserialize (ip.serialize ++ rest) = some (ip, getSerializedSize) := by
  have hversion : ¬ ((4 : UInt8) <<< 4 ||| 5) >>> 4 ≠ 4 := by decide
  have hihl : (((4 : UInt8) <<< 4 ||| 5) &&& 0x0f).toNat * 4 = 20 := by decide
  have hflags : ip.flagsFrag = 0 := by
    unfold flagsFrag
    rw [hdont, hmore, hoffset]
    rfl
  have hfrag : (ip.fragmentOffset / 8).toUInt8 = 0 := by
    rw [hoffset]
    rfl
  have hchecksum : writeHtonU16 0 = writeU16 0 := by decide
  have hsize : ip.payloadSize + 5 * 4 - UInt16.ofNat 20 = ip.payloadSize := UInt16.add_sub_cancel _ _
  obtain ⟨payloadSize, identification, tos, ttl, protocol, dontFragment, moreFragments, fragmentOffset, source,
    destination⟩ := ip
  subst hdont hmore hoffset
  simp only [serialize, hflags, hfrag, hchecksum, List.append_assoc]
  unfold deserialize
  -- one field after the other
  refine Option.bind_eq_some_iff.mpr ⟨_, readU8_write _ _, ?_⟩
  dsimp only
  rw [if_neg hversion, hihl]
  refine Option.bind_eq_some_iff.mpr ⟨_, readU8_write _ _, ?_⟩
  refine Option.bind_eq_some_iff.mpr ⟨_, readNtohU16_write _ _, ?_⟩
  refine Option.bind_eq_some_iff.mpr ⟨_, readNtohU16_write _ _, ?_⟩
  refine Option.bind_eq_some_iff.mpr ⟨_, readU8_write _ _, ?_⟩
  refine Option.bind_eq_some_iff.mpr ⟨_, readU8_write _ _, ?_⟩
  refine Option.bind_eq_some_iff.mpr ⟨_, readU8_write _ _, ?_⟩
  refine Option.bind_eq_some_iff.mpr ⟨_, readU8_write _ _, ?_⟩
  refine Option.bind_eq_some_iff.mpr ⟨_, readU16_write _ _, ?_⟩
  refine Option.bind_eq_some_iff.mpr ⟨_, readNtohU32_write _ _, ?_⟩
  refine Option.bind_eq_some_iff.mpr ⟨(destination, rest), readNtohU32_write _ _, ?_⟩
  dsimp only at hsize ⊢
  rw [hsize]
  rfl

end Ipv4Header

/-- Both headers are taken off, and put back with the mark. `RemoveHeader` drops as many bytes as were read. -/
def markCe (old : Nat → Nat → UInt8) (p : Iterator) : Option Iterator := do
  let (ppp, size) ← PppHeader.deserialize p
  let p := p.drop size
  let (h, headerSize) ← Ipv4Header.deserialize p
  let p := p.drop headerSize
  let p := addHeader (old 0) headerSize (h.setEcn 0x03).serialize p
  some (addHeader (old 1) PppHeader.getStaticSize ppp.serialize p)

theorem PppHeader.deserialize_serialize (ppp : PppHeader) (rest : Iterator) :
    deserialize (ppp.serialize ++ rest) = some (ppp, getStaticSize) := by
  simp only [deserialize, serialize, List.append_assoc, readNtohU16_write, Option.bind_eq_bind, Option.bind_some,
    next_writeU64 _ 4, next_writeU32 _ 0, next_zero]

/-- A packet that was put together from its headers comes back with another type of service. -/
theorem markCe_packet (int : IntStatic) (old old' : Nat → Nat → UInt8) (ppp : PppHeader) (ip : Ipv4Header)
    (hdont : ip.dontFragment = false) (hmore : ip.moreFragments = false) (hoffset : ip.fragmentOffset = 0) (l4 : L4Header)
    (payload : Iterator) :
    markCe old (packet int old' ppp ip l4 payload) = some (packet int old' ppp (ip.setEcn 0x03) l4 payload) := by
  have hppp : PppHeader.getStaticSize = ppp.serialize.length := ppp.length_serialize.symm
  have hip : Ipv4Header.getSerializedSize = ip.serialize.length := ip.length_serialize.symm
  rw [packet_eq, packet_eq]
  unfold markCe
  rw [ppp.deserialize_serialize]
  simp only [Option.bind_eq_bind, Option.bind_some]
  rw [hppp, List.drop_left, Ipv4Header.deserialize_serialize hdont hmore hoffset]
  simp only [Option.bind_some]
  rw [hip, List.drop_left, addHeader_full rfl, addHeader_full]
  exact (ip.setEcn 0x03).length_serialize.trans ip.length_serialize.symm

/-! ### A switch and a packet -/

/-- What a switch does with a packet depends on. -/
structure Visit where
  qIndex : UInt32
  ecnEnabled : Bool
  shouldSendCn : Bool
  reading : HopReading

/-- `egressCongested`, for a packet of a queue that is not the one of the highest priority. -/
def Visit.marks (v : Visit) : Bool := v.qIndex != 0 && v.ecnEnabled && v.shouldSendCn

/-- The bytes of a packet after `SwitchNotifyDequeue`, up to the telemetry. -/
def Visit.ecn (v : Visit) (old : Nat → Nat → UInt8) (p : Iterator) : Option Iterator :=
  if v.marks then markCe old p else some p

/-- Where the INT header is. -/
def intOffset : Nat := PppHeader.getStaticSize + 20 + 8 + 6

/-- The bytes of a packet after `SwitchNotifyDequeue` with `CcMode` 3. -/
def Visit.notifyDequeue (v : Visit) (int : IntStatic) (multi : UInt32) (old : Nat → Nat → UInt8) (p : Iterator) :
    Option Iterator := do
  let buf ← v.ecn old p
  if buf[PppHeader.getStaticSize + 9]? = some 0x11 then IntHeader.pushHopAt int multi v.reading intOffset buf
  else some buf

theorem Ipv4Header.protocol_byte (ip : Ipv4Header) : ip.serialize[9]? = some ip.protocol := by
  have hsplit : ip.serialize = (writeU8 ((4 : UInt8) <<< 4 ||| 5) ++ (writeU8 ip.tos ++ (writeHtonU16 (ip.payloadSize + 5 * 4) ++
      (writeHtonU16 ip.identification ++ (writeU8 ip.flagsFrag ++ (writeU8 (ip.fragmentOffset / 8).toUInt8 ++
        writeU8 ip.ttl)))))) ++ ip.protocol :: (writeHtonU16 0 ++ (writeHtonU32 ip.source ++ writeHtonU32 ip.destination)) := by
    simp only [serialize, List.append_assoc]
    rfl
  rw [hsplit, List.getElem?_append_right]
  · rfl
  · rfl

/-- What stands before the INT header of a data packet. -/
def beforeInt (ppp : PppHeader) (ip : Ipv4Header) (udp : UdpHeader) (size : Nat) (seq : UInt32) (pg : UInt16) : Iterator :=
  ppp.serialize ++ (ip.serialize ++ (udp.serialize size ++ (writeHtonU32 seq ++ writeHtonU16 pg)))

theorem length_beforeInt (ppp : PppHeader) (ip : Ipv4Header) (udp : UdpHeader) (size : Nat) (seq : UInt32) (pg : UInt16) :
    (beforeInt ppp ip udp size seq pg).length = intOffset := by
  unfold beforeInt
  rw [List.length_append, List.length_append, List.length_append, List.length_append, ppp.length_serialize,
    ip.length_serialize, udp.length_serialize, length_writeHtonU32, length_writeHtonU16]
  rfl

theorem dataPacket_eq {int : IntStatic} (hmode : int.mode = .normal) (old : Nat → Nat → UInt8) (ppp : PppHeader)
    (ip : Ipv4Header) (udp : UdpHeader) (seqTs : SeqTsHeader) (payload : Iterator) :
    packet int old ppp ip (.data udp seqTs) payload =
      beforeInt ppp ip udp (UdpHeader.getSerializedSize + (SeqTsHeader.getHeaderSize int + payload.length)) seqTs.seq
        seqTs.pg ++ (seqTs.ih.serialize int ++ payload) := by
  have hfull : (seqTs.serialize int).length = SeqTsHeader.getHeaderSize int := by
    unfold SeqTsHeader.serialize SeqTsHeader.getHeaderSize IntStatic.getStaticSize
    rw [List.length_append, List.length_append, IntHeader.length_serialize hmode, hmode, length_writeHtonU32,
      length_writeHtonU16]
    rfl
  rw [packet_eq]
  simp only [L4Header.add]
  rw [addHeader_full (udp.length_serialize _), addHeader_full hfull, List.length_append, hfull]
  unfold beforeInt SeqTsHeader.serialize
  simp only [List.append_assoc]

/-- The type of service after a switch. -/
def Visit.tos (v : Visit) (tos : UInt8) : UInt8 := if v.marks then tos &&& 0xfc ||| 0x03 else tos

/-- Everything of a data packet but what switches change. -/
structure UdpPacket where
  ppp : PppHeader
  ip : Ipv4Header
  udp : UdpHeader
  seq : UInt32
  pg : UInt16
  payload : Iterator
  old : Nat → Nat → UInt8
  udpProtocol : ip.protocol = 0x11
  noFragment : ip.dontFragment = false ∧ ip.moreFragments = false ∧ ip.fragmentOffset = 0

namespace UdpPacket

variable {int : IntStatic} {multi : UInt32} {old : Nat → Nat → UInt8} (f : UdpPacket)

/-- The packet with a type of service and telemetry. -/
def bytes (int : IntStatic) (tos : UInt8) (ih : IntHeader) : Iterator :=
  packet int f.old f.ppp { f.ip with tos := tos } (.data f.udp ⟨f.seq, f.pg, ih⟩) f.payload

theorem ecn_bytes (int : IntStatic) (v : Visit) (old : Nat → Nat → UInt8) (tos : UInt8) (ih : IntHeader) :
    v.ecn old (f.bytes int tos ih) = some (f.bytes int (v.tos tos) ih) := by
  obtain ⟨hdont, hmore, hoffset⟩ := f.noFragment
  unfold Visit.ecn Visit.tos bytes
  split
  · exact markCe_packet int old f.old f.ppp { f.ip with tos := tos } hdont hmore hoffset _ _
  · rfl

theorem protocol_byte (int : IntStatic) (tos : UInt8) (ih : IntHeader) :
    (f.bytes int tos ih)[PppHeader.getStaticSize + 9]? = some 0x11 := by
  unfold bytes
  rw [packet_eq, List.getElem?_append_right, List.getElem?_append_left, f.ppp.length_serialize, Nat.add_sub_cancel_left,
    Ipv4Header.protocol_byte, f.udpProtocol]
  · rw [f.ppp.length_serialize, Nat.add_sub_cancel_left, Ipv4Header.length_serialize]
    decide
  · rw [f.ppp.length_serialize]
    exact Nat.le_add_right _ _

variable (multi old) in
/-- What a switch does to a data packet: the cast and the way through the parser have the same result. -/
theorem notifyDequeue_bytes (hmode : int.mode = .normal) (v : Visit) (tos : UInt8) (ih ih₀ : IntHeader) :
    v.notifyDequeue int multi old (f.bytes int tos ih) =
        (ih.pushHop int multi v.reading).map (f.bytes int (v.tos tos)) ∧
      (v.ecn old (f.bytes int tos ih)).bind (IntHeader.recode int multi v.reading ih₀ intOffset) =
        (ih.pushHop int multi v.reading).map (f.bytes int (v.tos tos)) := by
  have hbytes : ∀ ih : IntHeader, f.bytes int (v.tos tos) ih = beforeInt f.ppp { f.ip with tos := v.tos tos } f.udp
      (UdpHeader.getSerializedSize + (SeqTsHeader.getHeaderSize int + f.payload.length)) f.seq f.pg ++
        (ih.serialize int ++ f.payload) := fun ih => dataPacket_eq hmode f.old f.ppp _ f.udp ⟨f.seq, f.pg, ih⟩ f.payload
  have hfunction : f.bytes int (v.tos tos) = _ := funext hbytes
  unfold Visit.notifyDequeue
  rw [f.ecn_bytes]
  simp only [Option.bind_eq_bind, Option.bind_some]
  rw [if_pos (f.protocol_byte int (v.tos tos) ih), hfunction]
  constructor
  · rw [← length_beforeInt f.ppp { f.ip with tos := v.tos tos } f.udp
      (UdpHeader.getSerializedSize + (SeqTsHeader.getHeaderSize int + f.payload.length)) f.seq f.pg]
    exact IntHeader.pushHopAt_serialize hmode ih _ _
  · rw [← length_beforeInt f.ppp { f.ip with tos := v.tos tos } f.udp
      (UdpHeader.getSerializedSize + (SeqTsHeader.getHeaderSize int + f.payload.length)) f.seq f.pg]
    exact IntHeader.recode_serialize hmode ih₀ ih _ _

end UdpPacket

/-! ### What a switch leaves as it is -/

/-- Two packets of one size that differ in the INT header and the ECN bits at most. -/
structure SameButInt (p p' : Iterator) : Prop where
  length : p'.length = p.length
  bytes : ∀ i, i ≠ PppHeader.getStaticSize + 1 → i < intOffset ∨ intOffset + (IntHeader.maxHop * 8 + 2) ≤ i → p'[i]? = p[i]?
  tos : ∃ b b', p[PppHeader.getStaticSize + 1]? = some b ∧ p'[PppHeader.getStaticSize + 1]? = some b' ∧
    b' &&& 0xfc = b &&& 0xfc

/-- One byte and, further behind, a block of bytes are replaced. -/
theorem getElem?_replaced {A B C I I' : Iterator} {b b' : UInt8} (hsize : I'.length = I.length) {i : Nat}
    (hbyte : i ≠ A.length) (hblock : i < A.length + 1 + B.length ∨ A.length + 1 + B.length + I.length ≤ i) :
    (A ++ b' :: (B ++ (I' ++ C)))[i]? = (A ++ b :: (B ++ (I ++ C)))[i]? := by
  rcases Nat.lt_or_gt_of_ne hbyte with hlow | hhigh
  · rw [List.getElem?_append_left hlow, List.getElem?_append_left hlow]
  · obtain ⟨j, rfl⟩ := Nat.exists_eq_add_of_lt hhigh
    have hstep : A.length + j + 1 - A.length = j + 1 := by omega
    rw [List.getElem?_append_right (Nat.le_of_lt hhigh), List.getElem?_append_right (Nat.le_of_lt hhigh), hstep,
      List.getElem?_cons_succ, List.getElem?_cons_succ]
    rcases hblock with hblock | hblock
    · rw [List.getElem?_append_left (by omega), List.getElem?_append_left (by omega)]
    · rw [List.getElem?_append_right (by omega), List.getElem?_append_right (by omega),
        List.getElem?_append_right (by omega), List.getElem?_append_right (by omega), hsize]

namespace UdpPacket

variable {int : IntStatic} {multi : UInt32} {old : Nat → Nat → UInt8} (f : UdpPacket)

/-- The byte with the type of service, and the block with the INT header. -/
theorem bytes_split (hmode : int.mode = .normal) : ∃ A B, A.length = PppHeader.getStaticSize + 1 ∧
    A.length + 1 + B.length = intOffset ∧
      ∀ tos ih, f.bytes int tos ih = A ++ tos :: (B ++ (ih.serialize int ++ f.payload)) := by
  refine ⟨f.ppp.serialize ++ writeU8 ((4 : UInt8) <<< 4 ||| 5), (f.ip.serialize.drop 2) ++
    (f.udp.serialize (UdpHeader.getSerializedSize + (SeqTsHeader.getHeaderSize int + f.payload.length)) ++
      (writeHtonU32 f.seq ++ writeHtonU16 f.pg)), ?_, ?_, fun tos ih => ?_⟩
  · rw [List.length_append, f.ppp.length_serialize, length_writeU8]
  · simp only [List.length_append, List.length_drop, f.ppp.length_serialize, f.ip.length_serialize, f.udp.length_serialize,
      length_writeU8, length_writeHtonU32, length_writeHtonU16]
    rfl
  · have hbytes : f.bytes int tos ih = _ := dataPacket_eq hmode f.old f.ppp _ f.udp ⟨f.seq, f.pg, ih⟩ f.payload
    rw [hbytes]
    unfold beforeInt
    simp only [List.append_assoc]
    rfl

theorem sameButInt (hmode : int.mode = .normal) {tos tos' : UInt8} (htos : tos' &&& 0xfc = tos &&& 0xfc) (ih ih' : IntHeader) :
    SameButInt (f.bytes int tos ih) (f.bytes int tos' ih') := by
  obtain ⟨A, B, hA, hB, hbytes⟩ := f.bytes_split hmode
  have hsize : (ih'.serialize int).length = (ih.serialize int).length :=
    (IntHeader.length_serialize hmode ih').trans (IntHeader.length_serialize hmode ih).symm
  have hat : ∀ tos ih, (f.bytes int tos ih)[PppHeader.getStaticSize + 1]? = some tos := by
    intro tos ih
    rw [hbytes, ← hA, List.getElem?_append_right (Nat.le_refl _), Nat.sub_self]
    rfl
  refine ⟨?_, fun i hi hblock => ?_, tos, tos', hat tos ih, hat tos' ih', htos⟩
  · rw [hbytes, hbytes]
    simp only [List.length_append, List.length_cons, hsize]
  · rw [hbytes, hbytes]
    apply getElem?_replaced hsize
    · rw [hA]
      exact hi
    · rw [hB, IntHeader.length_serialize hmode]
      exact hblock

/-- Only the two ECN bits are set. -/
theorem tos_and (v : Visit) (tos : UInt8) : v.tos tos &&& 0xfc = tos &&& 0xfc := by
  have hbytes : ∀ x : Fin 256, (x.val &&& 252 ||| 3) &&& 252 = x.val &&& 252 := by decide +kernel
  unfold Visit.tos
  split
  · apply UInt8.toNat_inj.mp
    rw [UInt8.toNat_and, UInt8.toNat_or, UInt8.toNat_and]
    exact hbytes ⟨tos.toNat, tos.toNat_lt⟩
  · rfl

end UdpPacket

/-! ### Several switches -/

/-- The bytes of a packet after some number of switches. -/
def passSwitches (int : IntStatic) (multi : UInt32) (old : Nat → Nat → UInt8) (visits : List Visit) (p : Iterator) :
    Option Iterator :=
  visits.foldlM (fun p v => v.notifyDequeue int multi old p) p

/-- The header after some number of switches. -/
def IntHeader.pushHops (int : IntStatic) (multi : UInt32) (visits : List Visit) (ih : IntHeader) : Option IntHeader :=
  visits.foldlM (fun ih v => ih.pushHop int multi v.reading) ih

variable {int : IntStatic} {multi : UInt32}

variable (int) in
theorem IntHeader.exists_pushHops (hmulti : ¬ 2 ^ 25 ∣ multi.toNat) (visits : List Visit) (ih : IntHeader) :
    ∃ ih', ih.pushHops int multi visits = some ih' := by
  induction visits generalizing ih with
  | nil => exact ⟨ih, rfl⟩
  | cons v visits ih' =>
      have hpush : ∃ after, ih.pushHop int multi v.reading = some after := by
        by_cases hmode : int.mode = .normal
        · obtain ⟨hop, hset, -⟩ := IntHop.set_of_not_dvd hmulti (ih.hop (ih.nhop.toNat % maxHop)) v.reading.time
            v.reading.bytes v.reading.qlen v.reading.rate
          refine ⟨ih.pushed hop, ?_⟩
          rw [pushHop_normal hmode]
          exact congrArg (Option.map ih.pushed) hset
        · exact ⟨ih, if_neg hmode⟩
      obtain ⟨after, hafter⟩ := hpush
      obtain ⟨last, hlast⟩ := ih' after
      refine ⟨last, ?_⟩
      unfold pushHops at hlast ⊢
      rw [List.foldlM_cons, hafter]
      exact hlast

/-- From `m` hops on, every switch adds the next one. -/
theorem IntHeader.pushHops_spec (hmode : int.mode = .normal) {visits : List Visit} {ih ih' : IntHeader} {m : Nat}
    (hpush : ih.pushHops int multi visits = some ih') (hm : ih.nhop.toNat = m) (hroom : m + visits.length ≤ maxHop)
    (hclear : ∀ j, m ≤ j → ih.hop j = .ofWord 0) :
    ih'.nhop.toNat = m + visits.length ∧ (∀ j < m, ih'.hop j = ih.hop j) ∧
      ∀ i (hi : i < visits.length), (IntHop.ofWord 0).record multi (visits.get ⟨i, hi⟩).reading = some (ih'.hop (m + i)) := by
  induction visits generalizing ih m with
  | nil =>
      obtain rfl := Option.some.inj hpush
      exact ⟨hm, fun _ _ => rfl, fun i hi => absurd hi (Nat.not_lt_zero i)⟩
  | cons v visits ihv =>
      unfold pushHops at hpush
      rw [List.foldlM_cons, pushHop_normal hmode] at hpush
      obtain ⟨after, hafter, hrest⟩ := Option.bind_eq_some_iff.mp hpush
      obtain ⟨hop, hhop, rfl⟩ := Option.map_eq_some_iff.mp hafter
      rw [List.length_cons] at hroom
      have hidx : ih.nhop.toNat % maxHop = m := by
        rw [hm]
        exact Nat.mod_eq_of_lt (by omega)
      rw [hidx, hclear m (Nat.le_refl m)] at hhop
      have hself : (ih.pushed hop).hop m = hop := by
        unfold pushed
        rw [hidx]
        exact Function.update_self ..
      have hother : ∀ j, j ≠ m → (ih.pushed hop).hop j = ih.hop j := by
        intro j hj
        unfold pushed
        rw [hidx]
        exact Function.update_of_ne hj ..
      have hnhop : (ih.pushed hop).nhop.toNat = m + 1 := by
        have hmax : maxHop = 64 := rfl
        have hone : (1 : UInt16).toNat = 1 := rfl
        unfold pushed
        rw [UInt16.toNat_add, hm, hone, Nat.mod_eq_of_lt (by omega)]
      obtain ⟨hcount, hkept, hrecords⟩ := ihv hrest hnhop (by omega) fun j hj =>
        (hother j (by omega)).trans (hclear j (by omega))
      refine ⟨?_, fun j hj => ?_, fun i hi => ?_⟩
      · rw [hcount, List.length_cons]
        omega
      · rw [hkept j (by omega), hother j (by omega)]
      · cases i with
        | zero =>
            rw [Nat.add_zero, hkept m (Nat.lt_succ_self m), hself]
            exact hhop
        | succ i =>
            have hnext := hrecords i (Nat.lt_of_succ_lt_succ hi)
            rw [Nat.add_assoc, Nat.add_comm 1 i] at hnext
            exact hnext

namespace UdpPacket

variable {old : Nat → Nat → UInt8} (f : UdpPacket)

/-- After some number of switches a packet is the one with the header after as many hops. -/
theorem passSwitches_bytes (hmode : int.mode = .normal) (visits : List Visit) (tos : UInt8) (ih : IntHeader) :
    passSwitches int multi old visits (f.bytes int tos ih) = (ih.pushHops int multi visits).map
      (f.bytes int (visits.foldl (fun tos v => v.tos tos) tos)) := by
  induction visits generalizing tos ih with
  | nil => rfl
  | cons v visits ihv =>
      unfold passSwitches IntHeader.pushHops at ihv ⊢
      rw [List.foldlM_cons, List.foldlM_cons, (f.notifyDequeue_bytes multi old hmode v tos ih ih).1, List.foldl_cons]
      cases ih.pushHop int multi v.reading with
      | none => rfl
      | some after => exact ihv (v.tos tos) after

/-- What the receiver reads. -/
theorem deserialize_bytes (hmode : int.mode = .normal) (ch : Wire.CustomHeader) (tos : UInt8) (ih : IntHeader) :
    ∃ size ch', ch.deserialize int (f.bytes int tos ih) = some (size, ch') ∧ ih.SameContents int ch'.udp.ih := by
  obtain ⟨mode, pintBytes⟩ := int
  subst hmode
  have hprot : (L4Header.data f.udp ⟨f.seq, f.pg, ih⟩).Protocol ({ f.ip with tos := tos } : Ipv4Header).protocol := f.udpProtocol
  have hpint : IntStatic.pintBytes ⟨.normal, 2⟩ = 1 ∨ IntStatic.pintBytes ⟨.normal, 2⟩ = 2 := .inr rfl
  obtain ⟨ch', hread, hrecovers, -⟩ := Wire.CustomHeader.deserialize_packet hpint ch f.old f.ppp f.payload hprot
  exact ⟨_, ch', hread, hrecovers.l4.2.2.2.2⟩

end UdpPacket

/-- The packet that `GetNxtPacket` returns. -/
def nxtUdpPacket (int : IntStatic) (hw : RdmaHwConfig) (old : Nat → Nat → UInt8) (fields : Wire.CustomHeader.PacketFields)
    (qp : RdmaQueuePair) : UdpPacket where
  ppp := ⟨0x0021⟩
  ip := Wire.CustomHeader.nxtIpv4 int hw old fields qp
  udp := ⟨fields.sport, fields.dport⟩
  seq := (getNxtPacket hw qp).1.seq
  pg := fields.pg
  payload := Wire.CustomHeader.nxtPayload hw qp
  old := old
  udpProtocol := rfl
  noFragment := ⟨rfl, rfl, rfl⟩

theorem nxtPacket_eq (int : IntStatic) (hw : RdmaHwConfig) (old : Nat → Nat → UInt8) (fields : Wire.CustomHeader.PacketFields)
    (qp : RdmaQueuePair) : Wire.CustomHeader.nxtPacket int hw old fields qp =
      (nxtUdpPacket int hw old fields qp).bytes int 0 (Wire.CustomHeader.seqTsIntHeader int fields.now) := rfl

/-- A packet of `GetNxtPacket` that has come through any switches: at the next one, the cast has the effect of the
parser and the writer, and leaves all other bytes but the ECN bits as they are; and as long as there are hops for
all switches, the receiver reads what they have written, in their order. No switch divides by 0 unless the unit of
bytes is 0 in 32 bits. -/
theorem int_in_place {int : IntStatic} (hmode : int.mode = .normal) (multi : UInt32) (hw : RdmaHwConfig)
    (old old' : Nat → Nat → UInt8) (fields : Wire.CustomHeader.PacketFields) (qp : RdmaQueuePair) (visits : List Visit) :
    (¬ 2 ^ 25 ∣ multi.toNat →
      ∃ p, passSwitches int multi old' visits (Wire.CustomHeader.nxtPacket int hw old fields qp) = some p) ∧
    ∀ p, passSwitches int multi old' visits (Wire.CustomHeader.nxtPacket int hw old fields qp) = some p →
      (∀ (v : Visit) (ih₀ : IntHeader), v.notifyDequeue int multi old' p =
        (v.ecn old' p).bind (IntHeader.recode int multi v.reading ih₀ intOffset)) ∧
      (∀ (v : Visit) (p' : Iterator), v.notifyDequeue int multi old' p = some p' → SameButInt p p') ∧
      (visits.length ≤ IntHeader.maxHop → ∀ ch : Wire.CustomHeader, ∃ size ch', ch.deserialize int p = some (size, ch') ∧
        ch'.udp.ih.nhop.toNat = visits.length ∧ ∀ i (hi : i < visits.length),
          (IntHop.ofWord 0).record multi (visits.get ⟨i, hi⟩).reading = some (ch'.udp.ih.hop i)) := by
  rw [nxtPacket_eq, UdpPacket.passSwitches_bytes _ hmode]
  refine ⟨fun hmulti => ?_, fun p hp => ?_⟩
  · obtain ⟨ih, hpush⟩ := IntHeader.exists_pushHops int hmulti visits (Wire.CustomHeader.seqTsIntHeader int fields.now)
    rw [hpush]
    exact ⟨_, rfl⟩
  · obtain ⟨ih, hpush, rfl⟩ := Option.map_eq_some_iff.mp hp
    refine ⟨fun v ih₀ => ?_, fun v p' hp' => ?_, fun hroom ch => ?_⟩
    · obtain ⟨hcast, hparser⟩ := (nxtUdpPacket int hw old fields qp).notifyDequeue_bytes multi old' hmode v
        (visits.foldl (fun tos v => v.tos tos) 0) ih ih₀
      rw [hcast, hparser]
    · rw [((nxtUdpPacket int hw old fields qp).notifyDequeue_bytes multi old' hmode v _ ih ih).1] at hp'
      obtain ⟨ih', -, rfl⟩ := Option.map_eq_some_iff.mp hp'
      exact UdpPacket.sameButInt _ hmode (UdpPacket.tos_and v _) ih ih'
    · obtain ⟨hcount, -, hrecords⟩ := IntHeader.pushHops_spec hmode hpush (m := 0) rfl (by omega) fun _ _ => rfl
      obtain ⟨size, ch', hread, hsame⟩ := (nxtUdpPacket int hw old fields qp).deserialize_bytes hmode ch
        (visits.foldl (fun tos v => v.tos tos) 0) ih
      unfold IntHeader.SameContents at hsame
      rw [hmode] at hsame
      obtain ⟨hhop, hnhop⟩ := hsame
      refine ⟨size, ch', hread, ?_, fun i hi => ?_⟩
      · rw [hnhop, hcount, Nat.zero_add]
      · rw [hrecords i hi, hhop i (by omega), Nat.zero_add]

/-- A switch that marks, and one that does not. -/
def markingVisit : Visit := ⟨3, true, true, ⟨16778000, 134218500, 1048, 100000000000⟩⟩

def plainVisit : Visit := ⟨3, true, false, ⟨16780000, 7000, 0, 400000000000⟩⟩

theorem int_in_place_two : ∃ p, passSwitches ⟨.normal, 2⟩ 1 (fun _ _ => 0) [markingVisit, plainVisit]
      (Wire.CustomHeader.nxtPacket ⟨.normal, 2⟩ everySegment (fun _ _ => 0) ⟨0x0b000101, 0x0b000201, 10000, 100, 3, 0, 0⟩
        (plainQp 3000)) = some p ∧
    ∃ size ch, Wire.CustomHeader.blank.deserialize ⟨.normal, 2⟩ p = some (size, ch) ∧ ch.udp.ih.nhop.toNat = 2 ∧
      (IntHop.ofWord 0).record 1 plainVisit.reading = some (ch.udp.ih.hop 1) := by
  have hmode : IntStatic.mode ⟨.normal, 2⟩ = .normal := rfl
  obtain ⟨hruns, hafter⟩ := int_in_place hmode 1 everySegment (fun _ _ => 0) (fun _ _ => 0)
    ⟨0x0b000101, 0x0b000201, 10000, 100, 3, 0, 0⟩ (plainQp 3000) [markingVisit, plainVisit]
  obtain ⟨p, hp⟩ := hruns (by decide)
  obtain ⟨-, -, hdecode⟩ := hafter p hp
  obtain ⟨size, ch, hread, hnhop, hrecords⟩ := hdecode (by decide) Wire.CustomHeader.blank
  exact ⟨p, hp, size, ch, hread, hnhop, hrecords 1 (by decide)⟩

end Lcmp
