import Lcmp.Wire.FullHeader

/-!
# Headers that come back

Which headers fill the room that is made for them, come back through the parser that reads every field, and are
found in their size by both parsers.
-/

namespace Lcmp.Wire.FullHeader

open Iterator

open Lcmp.Wire.CustomHeader (getUdpHeaderSize getAckSerializedSize)

/-! ### What is written -/

/-- All three layers, one of the protocols, and values that their units on the wire can express. -/
structure WellFormed (h : FullHeader) : Prop where
  headerType : h.headerType = l2Header ||| l3Header ||| l4Header
  l3Prot : h.l3Prot ∈ [0x06, 0x11, 0xfc, 0xfd, 0xfe, 0xff]
  length : h.l3Prot = 0x06 → 5 ≤ h.tcp.length ∧ h.tcp.length ≤ 15
  fragmentOffset : h.fragmentOffset % 8 = 0

/-- The protocols with telemetry. -/
def CarriesInt (h : FullHeader) : Prop := h.l3Prot = 0x11 ∨ h.l3Prot = 0xfc ∨ h.l3Prot = 0xfd

variable {int : IntStatic} {h : FullHeader}

theorem CarriesInt.ne_tcp (hcarries : h.CarriesInt) : h.l3Prot ≠ 0x06 := by
  rcases hcarries with hprot | hprot | hprot
  · rw [hprot]
    decide
  · rw [hprot]
    decide
  · rw [hprot]
    decide

theorem serialize_eq (htype : h.headerType = l2Header ||| l3Header ||| l4Header) :
    h.serialize int = h.serializePpp ++ (h.serializeIpv4 ++ h.serializeL4 int) := by
  have hbits : h.headerType &&& l2Header ≠ 0 ∧ h.headerType &&& l3Header ≠ 0 ∧ h.headerType &&& l4Header ≠ 0 := by
    rw [htype]
    decide
  rw [serialize, if_pos hbits.1, if_pos hbits.2.1, if_pos hbits.2.2]

theorem length_serializePpp (h : FullHeader) : h.serializePpp.length = 14 := by
  simp only [serializePpp, List.length_append, length_writeHtonU16, length_writeU64, length_writeU32]

theorem length_serializeIpv4 (h : FullHeader) : h.serializeIpv4.length = 20 := by
  simp only [serializeIpv4, List.length_append, length_writeU8, length_writeHtonU16, length_writeHtonU32]

/-- PINT writes the two bytes it has room for only when they are two. -/
theorem length_int_iff (ih : IntHeader) :
    (ih.serialize int).length = int.getStaticSize ↔ (int.mode = .pint → int.pintBytes = 2) := by
  simp only [IntHeader.serialize, IntStatic.getStaticSize]
  cases int.mode with
  | normal =>
      simp only [List.length_append, IntHeader.length_writeHops, List.length_range, length_writeU16, true_iff]
      exact fun hmode => absurd hmode (by decide)
  | ts =>
      simp only [length_writeU64, true_iff]
      exact fun hmode => absurd hmode (by decide)
  | pint =>
      simp only [forall_const]
      by_cases hone : int.pintBytes = 1
      · rw [if_pos hone, length_writeU8]
        exact iff_of_false (by decide) (by omega)
      · rw [if_neg hone]
        by_cases htwo : int.pintBytes = 2
        · rw [if_pos htwo, length_writeU16]
          exact iff_of_true rfl htwo
        · rw [if_neg htwo]
          exact iff_of_false (by decide) htwo
  | none =>
      simp only [List.length_nil, true_iff]
      exact fun hmode => absurd hmode (by decide)

namespace Tcp

variable {tcp : Tcp}

theorem optionLen_toNat (hlow : 5 ≤ tcp.length) : tcp.optionLen.toNat = (tcp.length.toNat - 5) * 4 := by
  have hlow' : 5 ≤ tcp.length.toNat := UInt8.le_iff_toNat_le.mp hlow
  have hlt := tcp.length.toNat_lt
  have hsub : (5 : UInt32) ≤ tcp.length.toUInt32 := by
    rw [UInt32.le_iff_toNat_le, UInt8.toNat_toUInt32]
    exact hlow'
  rw [optionLen, UInt32.toNat_mul, UInt32.toNat_sub_of_le _ _ hsub, UInt8.toNat_toUInt32]
  show (tcp.length.toNat - 5) * 4 % 2 ^ 32 = (tcp.length.toNat - 5) * 4
  omega

/-- The options fit in their buffer up to a length of 13 words. -/
theorem optionLen_le_iff (hlow : 5 ≤ tcp.length) : tcp.optionLen ≤ 32 ↔ tcp.length ≤ 13 := by
  have hlow' : 5 ≤ tcp.length.toNat := UInt8.le_iff_toNat_le.mp hlow
  rw [UInt32.le_iff_toNat_le, optionLen_toNat hlow, UInt8.le_iff_toNat_le]
  show (tcp.length.toNat - 5) * 4 ≤ 32 ↔ tcp.length.toNat ≤ 13
  omega

theorem length_options (hlow : 5 ≤ tcp.length) (hhigh : tcp.length ≤ 13) :
    tcp.options.length = (tcp.length.toNat - 5) * 4 := by
  have hhigh' : tcp.length.toNat ≤ 13 := UInt8.le_iff_toNat_le.mp hhigh
  rw [options, if_pos ((optionLen_le_iff hlow).mpr hhigh), List.length_take, Vector.length_toList,
    optionLen_toNat hlow]
  omega

theorem length_serialize (tcp : Tcp) : tcp.serialize.length = 20 + tcp.options.length := by
  simp only [serialize, List.length_append, length_writeHtonU16, length_writeHtonU32]
  omega

theorem length_serialize_iff (hlow : 5 ≤ tcp.length) :
    tcp.serialize.length = tcp.length.toNat * 4 ↔ tcp.length ≤ 13 := by
  have hlow' : 5 ≤ tcp.length.toNat := UInt8.le_iff_toNat_le.mp hlow
  rw [length_serialize]
  by_cases hhigh : tcp.length ≤ 13
  · rw [length_options hlow hhigh]
    exact iff_of_true (by omega) hhigh
  · have hhigh' : ¬ tcp.length.toNat ≤ 13 := fun hle => hhigh (UInt8.le_iff_toNat_le.mpr hle)
    rw [options, if_neg (fun hle => hhigh ((optionLen_le_iff hlow).mp hle)), List.length_nil]
    exact iff_of_false (by omega) hhigh

end Tcp

theorem getSerializedSize_eq (htype : h.headerType = l2Header ||| l3Header ||| l4Header) {size : Nat}
    (hsize : (if h.l3Prot = 0x6 then h.tcp.length.toNat * 4
      else if h.l3Prot = 0x11 then getUdpHeaderSize int
      else if h.l3Prot = 0xfc ∨ h.l3Prot = 0xfd then getAckSerializedSize int
      else if h.l3Prot = 0xff then 8
      else if h.l3Prot = 0xfe then 9
      else 0) = size) : h.getSerializedSize int = 14 + 20 + size := by
  have hbits : h.headerType &&& l2Header ≠ 0 ∧ h.headerType &&& l3Header ≠ 0 ∧ h.headerType &&& l4Header ≠ 0 := by
    rw [htype]
    decide
  simp only [getSerializedSize, if_pos hbits.1, if_pos hbits.2.1, if_pos hbits.2.2, hsize]

variable (int) in
/-- The protocols, with what is written behind the IPv4 header and the room for it. -/
theorem WellFormed.l4_cases (hwf : h.WellFormed) :
    (h.l3Prot = 0x06 ∧ h.serializeL4 int = h.tcp.serialize ∧
      h.getSerializedSize int = 14 + 20 + h.tcp.length.toNat * 4) ∨
    (h.l3Prot = 0x11 ∧ h.serializeL4 int = h.udp.serialize int h.ih ∧
      h.getSerializedSize int = 14 + 20 + getUdpHeaderSize int) ∨
    (h.l3Prot = 0xff ∧ h.serializeL4 int = serializeCnp h.cnp ∧ h.getSerializedSize int = 14 + 20 + 8) ∨
    ((h.l3Prot = 0xfc ∨ h.l3Prot = 0xfd) ∧ h.serializeL4 int = h.ack.serialize int h.ih ∧
      h.getSerializedSize int = 14 + 20 + getAckSerializedSize int) ∨
    (h.l3Prot = 0xfe ∧ h.serializeL4 int = serializePfc h.pfc ∧ h.getSerializedSize int = 14 + 20 + 9) := by
  have hprots := hwf.l3Prot
  simp only [List.mem_cons, List.not_mem_nil, or_false] at hprots
  rcases hprots with hprot | hprot | hprot | hprot | hprot | hprot
  · exact .inl ⟨hprot, if_pos hprot, getSerializedSize_eq hwf.headerType (if_pos hprot)⟩
  · refine .inr (.inl ⟨hprot, ?_, getSerializedSize_eq hwf.headerType ?_⟩)
    · rw [serializeL4, hprot]
      rfl
    · rw [hprot]
      rfl
  · refine .inr (.inr (.inr (.inl ⟨.inl hprot, ?_, getSerializedSize_eq hwf.headerType ?_⟩)))
    · rw [serializeL4, hprot]
      rfl
    · rw [hprot]
      rfl
  · refine .inr (.inr (.inr (.inl ⟨.inr hprot, ?_, getSerializedSize_eq hwf.headerType ?_⟩)))
    · rw [serializeL4, hprot]
      rfl
    · rw [hprot]
      rfl
  · refine .inr (.inr (.inr (.inr ⟨hprot, ?_, getSerializedSize_eq hwf.headerType ?_⟩)))
    · rw [serializeL4, hprot]
      rfl
    · rw [hprot]
      rfl
  · refine .inr (.inr (.inl ⟨hprot, ?_, getSerializedSize_eq hwf.headerType ?_⟩))
    · rw [serializeL4, hprot]
      rfl
    · rw [hprot]
      rfl

theorem length_serialize (hwf : h.WellFormed) : (h.serialize int).length = 14 + 20 + (h.serializeL4 int).length := by
  rw [serialize_eq hwf.headerType, List.length_append, List.length_append, length_serializePpp, length_serializeIpv4,
    Nat.add_assoc]

/-- What fills the room that is made for it. -/
theorem length_serialize_iff (hwf : h.WellFormed) :
    (h.serialize int).length = h.getSerializedSize int ↔
      (h.l3Prot = 0x06 → h.tcp.length ≤ 13) ∧ (h.CarriesInt → int.mode = .pint → int.pintBytes = 2) := by
  rw [length_serialize hwf]
  rcases hwf.l4_cases int with ⟨hprot, hwrite, hsize⟩ | ⟨hprot, hwrite, hsize⟩ | ⟨hprot, hwrite, hsize⟩ |
    ⟨hprot, hwrite, hsize⟩ | ⟨hprot, hwrite, hsize⟩
  · have hfits := Tcp.length_serialize_iff (hwf.length hprot).1
    rw [hwrite, hsize, Nat.add_left_cancel_iff, hfits]
    exact ⟨fun hlen => ⟨fun _ => hlen, fun hcarries => absurd hprot hcarries.ne_tcp⟩, fun hlen => hlen.1 hprot⟩
  · have hcarries : h.CarriesInt := .inl hprot
    have hudp : (h.udp.serialize int h.ih).length = getUdpHeaderSize int ↔
        (h.ih.serialize int).length = int.getStaticSize := by
      simp only [Udp.serialize, getUdpHeaderSize, List.length_append, length_writeHtonU16, length_writeHtonU32]
      omega
    rw [hwrite, hsize, Nat.add_left_cancel_iff, hudp, length_int_iff]
    exact ⟨fun hpint => ⟨fun htcp => absurd htcp hcarries.ne_tcp, fun _ => hpint⟩, fun hlen => hlen.2 hcarries⟩
  · rw [hwrite, hsize, CarriesInt, hprot]
    exact iff_of_true rfl ⟨fun htcp => absurd htcp (by decide), fun hcarries => absurd hcarries (by decide)⟩
  · have hcarries : h.CarriesInt := .inr hprot
    have hack : (h.ack.serialize int h.ih).length = getAckSerializedSize int ↔
        (h.ih.serialize int).length = int.getStaticSize := by
      simp only [Ack.serialize, getAckSerializedSize, List.length_append, length_writeU16, length_writeU32]
      omega
    rw [hwrite, hsize, Nat.add_left_cancel_iff, hack, length_int_iff]
    exact ⟨fun hpint => ⟨fun htcp => absurd htcp hcarries.ne_tcp, fun _ => hpint⟩, fun hlen => hlen.2 hcarries⟩
  · rw [hwrite, hsize, CarriesInt, hprot]
    exact iff_of_true rfl ⟨fun htcp => absurd htcp (by decide), fun hcarries => absurd hcarries (by decide)⟩

/-! ### What is read back -/

/-- The bits of a TCP word. -/
theorem Tcp.field_toNat {tcp : Tcp} (hhigh : tcp.length ≤ 15) :
    tcp.field.toNat = tcp.length.toNat * 2 ^ 12 + tcp.tcpFlags.toNat := by
  have hhigh' : tcp.length.toNat ≤ 15 := UInt8.le_iff_toNat_le.mp hhigh
  have hflags : tcp.tcpFlags.toNat < 2 ^ 12 := Nat.lt_trans tcp.tcpFlags.toNat_lt (by decide)
  have hshift : tcp.length.toNat <<< 12 % 2 ^ 16 = tcp.length.toNat <<< 12 := by
    rw [Nat.shiftLeft_eq]
    omega
  rw [Tcp.field, UInt16.toNat_or, UInt16.toNat_shiftLeft, UInt8.toNat_toUInt16, UInt8.toNat_toUInt16]
  show tcp.length.toNat <<< 12 % 2 ^ 16 ||| tcp.tcpFlags.toNat = _
  rw [hshift, ← Nat.shiftLeft_add_eq_or_of_lt hflags, Nat.shiftLeft_eq]

theorem Tcp.field_length {tcp : Tcp} (hhigh : tcp.length ≤ 15) : (tcp.field >>> 12).toUInt8 = tcp.length := by
  have hflags := tcp.tcpFlags.toNat_lt
  have hhigh' : tcp.length.toNat ≤ 15 := UInt8.le_iff_toNat_le.mp hhigh
  apply UInt8.toNat_inj.mp
  rw [UInt16.toNat_toUInt8, UInt16.toNat_shiftRight, Tcp.field_toNat hhigh]
  show (tcp.length.toNat * 2 ^ 12 + tcp.tcpFlags.toNat) >>> 12 % 2 ^ 8 = tcp.length.toNat
  rw [Nat.shiftRight_eq_div_pow]
  omega

/-- Six bits of the flags are read. -/
theorem Tcp.field_flags {tcp : Tcp} (hhigh : tcp.length ≤ 15) :
    (tcp.field &&& 0x3f).toUInt8 = tcp.tcpFlags &&& 0x3f := by
  have hflags := tcp.tcpFlags.toNat_lt
  apply UInt8.toNat_inj.mp
  rw [UInt16.toNat_toUInt8, UInt16.toNat_and, Tcp.field_toNat hhigh, UInt8.toNat_and]
  show (_ &&& (2 ^ 6 - 1)) % 2 ^ 8 = _ &&& (2 ^ 6 - 1)
  rw [Nat.and_two_pow_sub_one_eq_mod, Nat.and_two_pow_sub_one_eq_mod]
  omega

/-- The flags that are kept. -/
theorem and_flags_iff (flags : UInt8) : flags &&& 0x3f = flags ↔ flags < 64 := by
  have hmod : (flags &&& 0x3f).toNat = flags.toNat % 2 ^ 6 := Nat.and_two_pow_sub_one_eq_mod flags.toNat 6
  rw [← UInt8.toNat_inj, hmod, UInt8.lt_iff_toNat_lt]
  show flags.toNat % 2 ^ 6 = flags.toNat ↔ flags.toNat < 64
  omega

/-- The upper bits of the offset and the two flags share a byte without disturbing each other. -/
theorem flags_bits : ∀ n < 32, ∀ df mf : Bool,
    let frag := UInt8.ofNat n
    let frag' := if df then frag ||| (1 : UInt8) <<< 6 else frag
    let byte := if mf then frag' ||| (1 : UInt8) <<< 5 else frag'
    byte &&& 0x1f = frag ∧ (byte &&& (1 : UInt8) <<< 6 ≠ 0 ↔ df = true) ∧
      (byte &&& (1 : UInt8) <<< 5 ≠ 0 ↔ mf = true) := by
  decide

theorem flagsFrag_bits (h : FullHeader) :
    h.flagsFrag &&& 0x1f = ((h.fragmentOffset.toUInt32 / 8) >>> (8 : UInt32)).toUInt8 &&& 0x1f ∧
      (h.flagsFrag &&& (1 : UInt8) <<< 6 ≠ 0 ↔ h.ipv4Flags &&& dontFragment ≠ 0) ∧
      (h.flagsFrag &&& (1 : UInt8) <<< 5 ≠ 0 ↔ h.ipv4Flags &&& moreFragments ≠ 0) := by
  have hlt : (((h.fragmentOffset.toUInt32 / 8) >>> (8 : UInt32)).toUInt8 &&& 0x1f).toNat < 32 :=
    Nat.lt_of_le_of_lt Nat.and_le_right (by decide)
  have hbits := flags_bits _ hlt (h.ipv4Flags &&& dontFragment ≠ 0) (h.ipv4Flags &&& moreFragments ≠ 0)
  simp only [UInt8.ofNat_toNat, decide_eq_true_eq] at hbits
  exact hbits

/-- The two flags that have a bit on the wire. -/
theorem flags_read : ∀ ipv4Flags : BitVec 3,
    (let flags := if ipv4Flags &&& dontFragment ≠ 0 then dontFragment else 0
     if ipv4Flags &&& moreFragments ≠ 0 then flags ||| moreFragments else flags) = ipv4Flags &&& 3 := by
  decide

theorem and_ipv4Flags_iff : ∀ ipv4Flags : BitVec 3, ipv4Flags &&& 3 = ipv4Flags ↔ ipv4Flags < 4 := by decide

theorem fragmentOffset_read (hoffset : h.fragmentOffset % 8 = 0) :
    ((h.flagsFrag &&& 0x1f).toUInt16 <<< 8 ||| (h.fragmentOffset.toUInt32 / 8 &&& 0xff).toUInt8.toUInt16) <<< 3 =
      h.fragmentOffset := by
  have hmod : h.fragmentOffset.toNat % 8 = 0 := by
    have hnat : (h.fragmentOffset % 8).toNat = 0 := by
      rw [hoffset]
      rfl
    rwa [UInt16.toNat_mod] at hnat
  have hlt := h.fragmentOffset.toNat_lt
  have hword : (h.fragmentOffset.toUInt32 / 8).toNat = h.fragmentOffset.toNat / 8 := by
    rw [UInt32.toNat_div, UInt16.toNat_toUInt32]
    rfl
  have hhigh : (h.flagsFrag &&& 0x1f).toNat = h.fragmentOffset.toNat / 8 / 256 := by
    rw [(flagsFrag_bits h).1, UInt8.toNat_and, UInt32.toNat_toUInt8, UInt32.toNat_shiftRight, hword]
    show (h.fragmentOffset.toNat / 8) >>> 8 % 2 ^ 8 &&& (2 ^ 5 - 1) = _
    rw [Nat.and_two_pow_sub_one_eq_mod, Nat.shiftRight_eq_div_pow]
    omega
  have hlow : (h.fragmentOffset.toUInt32 / 8 &&& 0xff).toUInt8.toNat = h.fragmentOffset.toNat / 8 % 256 := by
    rw [UInt32.toNat_toUInt8, UInt32.toNat_and, hword]
    show (h.fragmentOffset.toNat / 8 &&& (2 ^ 8 - 1)) % 2 ^ 8 = _
    rw [Nat.and_two_pow_sub_one_eq_mod]
    omega
  apply UInt16.toNat_inj.mp
  rw [UInt16.toNat_shiftLeft, UInt16.toNat_or, UInt16.toNat_shiftLeft, UInt8.toNat_toUInt16, UInt8.toNat_toUInt16,
    hhigh, hlow]
  show ((h.fragmentOffset.toNat / 8 / 256) <<< 8 % 2 ^ 16 ||| h.fragmentOffset.toNat / 8 % 256) <<< 3 % 2 ^ 16 = _
  have hshift : (h.fragmentOffset.toNat / 8 / 256) <<< 8 % 2 ^ 16 = (h.fragmentOffset.toNat / 8 / 256) <<< 8 := by
    rw [Nat.shiftLeft_eq]
    omega
  have hbyte : h.fragmentOffset.toNat / 8 % 256 < 2 ^ 8 := Nat.mod_lt _ (by decide)
  rw [hshift, ← Nat.shiftLeft_add_eq_or_of_lt hbyte, Nat.shiftLeft_eq, Nat.shiftLeft_eq]
  omega

variable {ch : FullHeader} (rest : Iterator)

/-- What the branch for `brief` has read in front of the last header. -/
def withBrief (ch h : FullHeader) : FullHeader :=
  { ch with pppProto := h.pppProto, tos := h.tos, ipid := h.ipid, l3Prot := h.l3Prot, sip := h.sip, dip := h.dip }

/-- What the other branch has read. -/
def withIpv4 (ch h : FullHeader) : FullHeader :=
  { ch.withBrief h with
    payloadSize := h.payloadSize
    ipv4Flags := h.ipv4Flags &&& 3
    fragmentOffset := h.fragmentOffset
    ttl := h.ttl
    checksum := 0
    headerSize := 20 }

/-- The iterator behind the IPv4 header, reached from the start of the packet. -/
theorem next_ipv4 (h : FullHeader) : next (14 + 20) (h.serializePpp ++ (h.serializeIpv4 ++ rest)) = some rest := by
  have hppp : next (20 + 14) (h.serializePpp ++ (h.serializeIpv4 ++ rest)) = next 20 (h.serializeIpv4 ++ rest) :=
    Bytes.skip_add_append h.length_serializePpp 20 _
  have hip : next (0 + 20) (h.serializeIpv4 ++ rest) = next 0 rest :=
    Bytes.skip_add_append h.length_serializeIpv4 0 rest
  exact hppp.trans hip

theorem readPpp_serialize (htype : ch.headerType = l2Header ||| l3Header ||| l4Header) (h : FullHeader) :
    ch.readPpp (h.serializePpp ++ rest) = some ({ ch with pppProto := h.pppProto }, rest, 14) := by
  have hbit : ch.headerType &&& l2Header ≠ 0 := by
    rw [htype]
    decide
  rw [readPpp, if_pos hbit, serializePpp, List.append_assoc, List.append_assoc]
  simp only [readNtohU16_write, Option.bind_eq_bind, Option.bind_some, next_writeU64 _ 4, next_writeU32 _ 0, next_zero]

/-- Both modes come to the byte behind the version of the IPv4 header, and go on behind it to the last header. -/
theorem deserialize_layers (htype : ch.headerType = l2Header ||| l3Header ||| l4Header) {h : FullHeader} {i : Iterator}
    (hi : h.serializeIpv4 = writeU8 ((4 : UInt8) <<< 4 ||| 5) ++ i) :
    ch.deserialize int (h.serializePpp ++ (h.serializeIpv4 ++ rest)) =
      (if ch.brief ≠ 0 then { ch with pppProto := h.pppProto }.readIpv4Brief (i ++ rest)
        else { ch with pppProto := h.pppProto }.readIpv4 20 (i ++ rest)).bind fun read =>
          read.1.deserializeL4 int (h.serializePpp ++ (h.serializeIpv4 ++ rest)) (14 + 20) read.2 := by
  have hbit : ch.headerType &&& l3Header ≠ 0 := by
    rw [htype]
    decide
  have hversion : ¬ ((4 : UInt8) <<< 4 ||| 5) >>> 4 ≠ 4 := by decide
  have hihl : (((4 : UInt8) <<< 4 ||| 5) &&& 0x0f).toNat * 4 = 20 := by decide
  have hnext : next 14 (h.serializePpp ++ (h.serializeIpv4 ++ rest)) = some (h.serializeIpv4 ++ rest) :=
    Bytes.skip_add_append h.length_serializePpp 0 _
  rw [deserialize, readPpp_serialize _ htype]
  simp only [Option.bind_eq_bind, Option.bind_some, if_pos hbit, hnext]
  generalize h.serializePpp ++ (h.serializeIpv4 ++ rest) = start
  simp only [hi, List.append_assoc, readU8_write, Option.bind_some, if_neg hversion, hihl]
  split
  · rfl
  · rfl

theorem deserialize_brief (htype : ch.headerType = l2Header ||| l3Header ||| l4Header) (hbrief : ch.brief ≠ 0)
    (h : FullHeader) : ch.deserialize int (h.serializePpp ++ (h.serializeIpv4 ++ rest)) =
      (ch.withBrief h).deserializeL4 int (h.serializePpp ++ (h.serializeIpv4 ++ rest)) (14 + 20) rest := by
  rw [deserialize_layers rest htype rfl, if_pos hbrief]
  simp only [List.append_assoc, Option.bind_some, readIpv4Brief, next_writeHtonU16 _ 0, next_zero, readU8_write,
    readNtohU16_write, next_writeU8 _ 2, next_writeU8 _ 1, next_writeU8 _ 0, readNtohU32_write, Option.bind_eq_bind]
  rfl

theorem readU16_zero : readU16 (writeHtonU16 0 ++ rest) = some (0, rest) := by
  have horder : writeHtonU16 0 = writeU16 0 := by decide
  rw [horder, readU16_write]

variable (ch) in
theorem readIpv4_serialize (hoffset : h.fragmentOffset % 8 = 0) :
    ch.readIpv4 20 (writeU8 h.tos ++ (writeHtonU16 (h.payloadSize + 5 * 4) ++ (writeHtonU16 h.ipid ++
      (writeU8 h.flagsFrag ++ (writeU8 (h.fragmentOffset.toUInt32 / 8 &&& 0xff).toUInt8 ++ (writeU8 h.ttl ++
        (writeU8 h.l3Prot ++ (writeHtonU16 0 ++ (writeHtonU32 h.sip ++ (writeHtonU32 h.dip ++ rest)))))))))) =
      some ({ ch.withIpv4 h with pppProto := ch.pppProto }, rest) := by
  have hsize : h.payloadSize + 5 * 4 - 20 = h.payloadSize := UInt16.add_sub_cancel _ _
  have hflags : (if h.flagsFrag &&& (1 : UInt8) <<< 5 ≠ 0 then
        (if h.flagsFrag &&& (1 : UInt8) <<< 6 ≠ 0 then dontFragment else 0) ||| moreFragments
      else if h.flagsFrag &&& (1 : UInt8) <<< 6 ≠ 0 then dontFragment else 0) = h.ipv4Flags &&& 3 := by
    simp only [(flagsFrag_bits h).2.1, (flagsFrag_bits h).2.2]
    exact flags_read h.ipv4Flags
  rw [readIpv4, readU8_write]
  simp only [Option.bind_eq_bind, Option.bind_some, readU8_write, readNtohU16_write, readNtohU32_write, readU16_zero]
  rw [hsize, hflags, fragmentOffset_read hoffset]
  rfl

theorem deserialize_full (htype : ch.headerType = l2Header ||| l3Header ||| l4Header) (hbrief : ch.brief = 0)
    (hoffset : h.fragmentOffset % 8 = 0) : ch.deserialize int (h.serializePpp ++ (h.serializeIpv4 ++ rest)) =
      (ch.withIpv4 h).deserializeL4 int (h.serializePpp ++ (h.serializeIpv4 ++ rest)) (14 + 20) rest := by
  have hread := readIpv4_serialize { ch with pppProto := h.pppProto } rest hoffset
  rw [deserialize_layers rest htype rfl, if_neg (not_not_intro hbrief)]
  simp only [List.append_assoc]
  rw [hread]
  rfl

/-! ### The last header -/

variable (ch) in
/-- Telemetry that fills its room is read back where it is asked for, and else stays. -/
theorem readInt_serialize (hpint : int.mode = .pint → int.pintBytes = 2) (ih : IntHeader) :
    ∃ ih', ch.readInt int (ih.serialize int ++ rest) = some ih' ∧
      (IntHeader.SameContents int ih ih' ↔ ch.getInt ≠ 0 ∨ IntHeader.SameContents int ih ch.ih) := by
  by_cases hgetInt : ch.getInt ≠ 0
  · have hread : ∃ ih', ch.ih.deserialize int (ih.serialize int ++ rest) = some ih' ∧
        IntHeader.SameContents int ih ih' := by
      by_cases hmode : int.mode = .pint
      · exact ih.deserialize_serialize int (.inr (hpint hmode)) ch.ih rest
      · -- The number of bytes does not matter in the other modes.
        obtain ⟨ih', hread, hsame⟩ := ih.deserialize_serialize ⟨int.mode, 2⟩ (.inr rfl) ch.ih rest
        refine ⟨ih', ?_, ?_⟩
        · simp only [IntHeader.deserialize, IntHeader.serialize] at hread ⊢
          cases hint : int.mode with
          | normal => simpa only [hint] using hread
          | ts => simpa only [hint] using hread
          | pint => exact absurd hint hmode
          | none => simpa only [hint] using hread
        · simp only [IntHeader.SameContents] at hsame ⊢
          cases hint : int.mode with
          | normal => simpa only [hint] using hsame
          | ts => simpa only [hint] using hsame
          | pint => exact absurd hint hmode
          | none => trivial
    obtain ⟨ih', hread, hsame⟩ := hread
    exact ⟨ih', by rw [readInt, if_pos hgetInt, hread], iff_of_true hsame (.inl hgetInt)⟩
  · exact ⟨ch.ih, by rw [readInt, if_neg hgetInt], (or_iff_right hgetInt).symm⟩

variable (ch) in
theorem deserializeUdp_serialize (hpint : int.mode = .pint → int.pintBytes = 2) (udp : Udp) (ih : IntHeader)
    {start : Iterator} {l23Size : Nat} (hstart : next l23Size start = some (udp.serialize int ih ++ rest)) :
    ∃ udp' ih', ch.deserializeUdp int start l23Size =
        some (l23Size + getUdpHeaderSize int, { ch with udp := udp', ih := ih' }) ∧
      (ch.brief = 0 → udp' = udp) ∧
      (IntHeader.SameContents int ih ih' ↔ ch.getInt ≠ 0 ∨ IntHeader.SameContents int ih ch.ih) := by
  obtain ⟨ih', hread, hsame⟩ := readInt_serialize ch rest hpint ih
  by_cases hbrief : ch.brief ≠ 0
  · refine ⟨{ udp with payloadSize := ch.udp.payloadSize }, ih', ?_, fun hzero => absurd hzero hbrief, hsame⟩
    rw [deserializeUdp, hstart]
    simp only [Udp.serialize, List.append_assoc, Option.bind_eq_bind, Option.bind_some, readNtohU16_write,
      if_pos hbrief, next_writeHtonU16 _ 2, next_writeHtonU16 _ 0, next_zero, Option.map_some, readNtohU32_write,
      hread]
  · refine ⟨udp, ih', ?_, fun _ => rfl, hsame⟩
    rw [deserializeUdp, hstart]
    simp only [Udp.serialize, List.append_assoc, Option.bind_eq_bind, Option.bind_some, readNtohU16_write,
      if_neg hbrief, next_writeHtonU16 _ 0, next_zero, readNtohU32_write, hread]

variable (ch) in
theorem deserializeAck_serialize (hpint : int.mode = .pint → int.pintBytes = 2) (ack : Ack) (ih : IntHeader)
    (l23Size : Nat) :
    ∃ ih', ch.deserializeAck int l23Size (ack.serialize int ih ++ rest) =
        some (l23Size + getAckSerializedSize int, { ch with ack := ack, ih := ih' }) ∧
      (IntHeader.SameContents int ih ih' ↔ ch.getInt ≠ 0 ∨ IntHeader.SameContents int ih ch.ih) := by
  obtain ⟨ih', hread, hsame⟩ := readInt_serialize ch rest hpint ih
  refine ⟨ih', ?_, hsame⟩
  simp only [deserializeAck, Ack.serialize, List.append_assoc, Option.bind_eq_bind, Option.bind_some, readU16_write,
    readU32_write, hread]

theorem deserializeCnp_serialize (cnp : CustomHeader.Cnp) (l23Size : Nat) :
    ch.deserializeCnp l23Size (serializeCnp cnp ++ rest) = some (l23Size + 8, { ch with cnp := cnp }) := by
  simp only [deserializeCnp, serializeCnp, List.append_assoc, Option.bind_eq_bind, Option.bind_some, readU8_write,
    readU16_write]

theorem deserializePfc_serialize (pfc : CustomHeader.Pfc) (l23Size : Nat) :
    ch.deserializePfc l23Size (serializePfc pfc ++ rest) = some (l23Size + 9, { ch with pfc := pfc }) := by
  simp only [deserializePfc, serializePfc, List.append_assoc, Option.bind_eq_bind, Option.bind_some, readU8_write,
    readU32_write]

/-- With `brief` the length stays that of an earlier packet. -/
theorem deserializeTcp_brief (hbrief : ch.brief ≠ 0) (tcp : Tcp) {start : Iterator} {l23Size : Nat}
    (hstart : next l23Size start = some (tcp.serialize ++ rest)) :
    ∃ ch', ch.deserializeTcp start l23Size = some (l23Size + ch.tcp.length.toNat * 4, ch') := by
  refine ⟨{ ch with tcp := { ch.tcp with
    sport := tcp.sport, dport := tcp.dport, seq := tcp.seq, ack := tcp.ack,
    tcpFlags := (tcp.field &&& 0x3f).toUInt8 } }, ?_⟩
  rw [deserializeTcp, hstart]
  simp only [Tcp.serialize, List.append_assoc, Option.bind_eq_bind, Option.bind_some, readNtohU16_write,
    readNtohU32_write, if_pos hbrief]

/-- The fields that are written, of the options those that fit. -/
structure Tcp.Restored (tcp tcp' : Tcp) : Prop where
  sport : tcp'.sport = tcp.sport
  dport : tcp'.dport = tcp.dport
  seq : tcp'.seq = tcp.seq
  ack : tcp'.ack = tcp.ack
  length : tcp'.length = tcp.length
  tcpFlags : tcp'.tcpFlags = tcp.tcpFlags
  windowSize : tcp'.windowSize = tcp.windowSize
  urgentPointer : tcp'.urgentPointer = tcp.urgentPointer
  options : tcp'.options = tcp.options

/-- The front of the buffer is overwritten. -/
theorem readOptions_take {n : Nat} (hn : n ≤ 32) (optionBuf optionBuf' : Vector UInt8 32) :
    ∃ buf, readOptions n optionBuf' (optionBuf.toList.take n ++ rest) = some buf ∧
      buf.toList.take n = optionBuf.toList.take n := by
  have hlen : (optionBuf.toList.take n).length = n := by
    rw [List.length_take, Vector.length_toList, Nat.min_eq_left hn]
  refine ⟨Vector.ofFn fun j => (optionBuf.toList.take n).getD j optionBuf'[j], ?_, ?_⟩
  · rw [readOptions, Bytes.take_append hlen]
    rfl
  · apply List.ext_getElem
    · rw [List.length_take, Vector.length_toList, hlen, Nat.min_eq_left hn]
    · intro j hj hj'
      have hlt : j < (optionBuf.toList.take n).length := hj'
      rw [List.getElem_take, Vector.getElem_toList, Vector.getElem_ofFn, List.getD_eq_getElem _ _ hlt]

theorem deserializeTcp_full (hbrief : ch.brief = 0) {tcp : Tcp} (hlow : 5 ≤ tcp.length) (hhigh : tcp.length ≤ 13)
    {start : Iterator} {l23Size : Nat} (hstart : next l23Size start = some (tcp.serialize ++ rest)) :
    ∃ tcp', ch.deserializeTcp start l23Size = some (l23Size + tcp.length.toNat * 4, { ch with tcp := tcp' }) ∧
      (tcp.Restored tcp' ↔ tcp.tcpFlags < 64) := by
  have hfull : ¬ ch.brief ≠ 0 := not_not_intro hbrief
  have hhigh' : tcp.length ≤ 15 := UInt8.le_trans hhigh (by decide)
  have hfits : tcp.optionLen ≤ 32 := (Tcp.optionLen_le_iff hlow).mpr hhigh
  have hnot : ¬ tcp.optionLen > 32 := UInt32.not_lt.mpr hfits
  have hoptions : tcp.options = tcp.optionBuf.toList.take tcp.optionLen.toNat := if_pos hfits
  obtain ⟨buf, hread, hbuf⟩ := readOptions_take rest (UInt32.le_iff_toNat_le.mp hfits) tcp.optionBuf ch.tcp.optionBuf
  have hlen : ∀ flags buf, { tcp with tcpFlags := flags, optionBuf := buf }.optionLen = tcp.optionLen :=
    fun _ _ => rfl
  refine ⟨{ tcp with tcpFlags := tcp.tcpFlags &&& 0x3f, optionBuf := buf }, ?_, ?_⟩
  · rw [deserializeTcp, hstart]
    simp only [Tcp.serialize, List.append_assoc, Option.bind_eq_bind, Option.bind_some, readNtohU16_write,
      readNtohU32_write, if_neg hfull, next_writeHtonU16 _ 0, next_zero, Tcp.field_length hhigh',
      Tcp.field_flags hhigh', hoptions, hlen, if_neg hnot, hread]
  · rw [← and_flags_iff]
    refine ⟨fun hrestored => hrestored.tcpFlags, fun hflags => ⟨rfl, rfl, rfl, rfl, rfl, hflags, rfl, rfl, ?_⟩⟩
    rw [hoptions, Tcp.options, hlen, if_pos hfits]
    exact hbuf

/-! ### The round trip -/

/-- The fields of the last header that are written. -/
structure RestoresL4 (int : IntStatic) (h ch : FullHeader) : Prop where
  tcp : h.l3Prot = 0x06 → h.tcp.Restored ch.tcp
  udp : h.l3Prot = 0x11 → ch.udp = h.udp
  cnp : h.l3Prot = 0xff → ch.cnp = h.cnp
  ack : h.l3Prot = 0xfc ∨ h.l3Prot = 0xfd → ch.ack = h.ack
  pfc : h.l3Prot = 0xfe → ch.pfc = h.pfc
  ih : h.CarriesInt → IntHeader.SameContents int h.ih ch.ih

/-- `ch` has every field of `h` that `Serialize` writes. -/
structure Restores (int : IntStatic) (h ch : FullHeader) : Prop where
  pppProto : ch.pppProto = h.pppProto
  tos : ch.tos = h.tos
  payloadSize : ch.payloadSize = h.payloadSize
  ipid : ch.ipid = h.ipid
  ipv4Flags : ch.ipv4Flags = h.ipv4Flags
  fragmentOffset : ch.fragmentOffset = h.fragmentOffset
  ttl : ch.ttl = h.ttl
  l3Prot : ch.l3Prot = h.l3Prot
  sip : ch.sip = h.sip
  dip : ch.dip = h.dip
  l4 : RestoresL4 int h ch

theorem restoresL4_tcp {ch : FullHeader} (hprot : h.l3Prot = 0x06) :
    RestoresL4 int h ch ↔ h.tcp.Restored ch.tcp := by
  refine ⟨fun hl4 => hl4.tcp hprot, fun htcp => ?_⟩
  constructor <;> simp [CarriesInt, hprot, htcp]

theorem restoresL4_udp {ch : FullHeader} (hprot : h.l3Prot = 0x11) :
    RestoresL4 int h ch ↔ ch.udp = h.udp ∧ IntHeader.SameContents int h.ih ch.ih := by
  refine ⟨fun hl4 => ⟨hl4.udp hprot, hl4.ih (.inl hprot)⟩, fun hudp => ?_⟩
  constructor <;> simp [CarriesInt, hprot, hudp]

theorem restoresL4_cnp {ch : FullHeader} (hprot : h.l3Prot = 0xff) : RestoresL4 int h ch ↔ ch.cnp = h.cnp := by
  refine ⟨fun hl4 => hl4.cnp hprot, fun hcnp => ?_⟩
  constructor <;> simp [CarriesInt, hprot, hcnp]

theorem restoresL4_ack {ch : FullHeader} (hprot : h.l3Prot = 0xfc ∨ h.l3Prot = 0xfd) :
    RestoresL4 int h ch ↔ ch.ack = h.ack ∧ IntHeader.SameContents int h.ih ch.ih := by
  refine ⟨fun hl4 => ⟨hl4.ack hprot, hl4.ih (.inr hprot)⟩, fun hack => ?_⟩
  rcases hprot with hprot | hprot
  · constructor <;> simp [hprot, hack]
  · constructor <;> simp [hprot, hack]

theorem restoresL4_pfc {ch : FullHeader} (hprot : h.l3Prot = 0xfe) : RestoresL4 int h ch ↔ ch.pfc = h.pfc := by
  refine ⟨fun hl4 => hl4.pfc hprot, fun hpfc => ?_⟩
  constructor <;> simp [CarriesInt, hprot, hpfc]

/-- The header that parses all three layers, whatever else it held before. -/
def parser (brief : UInt32) (r : FullHeader) : FullHeader :=
  { r with brief, headerType := l2Header ||| l3Header ||| l4Header }

/-- `h` written in front of a packet, and read by `r` in the two modes. -/
structure RoundTrip (int : IntStatic) (h r : FullHeader) : Prop where
  written : (h.serialize int).length = h.getSerializedSize int
  full : ∀ rest, ∃ ch, (r.parser 0).deserialize int (h.serialize int ++ rest) = some (h.getSerializedSize int, ch) ∧
    Restores int h ch
  brief : ∀ rest, ∃ ch, (r.parser 1).deserialize int (h.serialize int ++ rest) = some (h.getSerializedSize int, ch)

variable {r : FullHeader}

theorem restores_iff {ch' : FullHeader} {tcp : Tcp} {udp : Udp} {cnp : CustomHeader.Cnp} {ack : Ack}
    {pfc : CustomHeader.Pfc} {ih : IntHeader} (hch : ch' = { ch.withIpv4 h with tcp, udp, cnp, ack, pfc, ih }) :
    Restores int h ch' ↔ h.ipv4Flags < 4 ∧ RestoresL4 int h ch' := by
  subst hch
  rw [← and_ipv4Flags_iff]
  exact ⟨fun hrestores => ⟨hrestores.ipv4Flags, hrestores.l4⟩,
    fun hkept => ⟨rfl, rfl, rfl, rfl, hkept.1, rfl, rfl, rfl, rfl, rfl, hkept.2⟩⟩

/-- Reading every field of what fills its room: what is lost are the third IPv4 flag, the upper TCP flags and
telemetry that is not asked for. -/
theorem deserialize_restores (hwf : h.WellFormed) (hlength : h.l3Prot = 0x06 → h.tcp.length ≤ 13)
    (hpint : h.CarriesInt → int.mode = .pint → int.pintBytes = 2) :
    ∃ ch, (r.parser 0).deserialize int (h.serialize int ++ rest) = some (h.getSerializedSize int, ch) ∧
      (Restores int h ch ↔ h.ipv4Flags < 4 ∧ (h.l3Prot = 0x06 → h.tcp.tcpFlags < 64) ∧
        (h.CarriesInt → r.getInt ≠ 0 ∨ IntHeader.SameContents int h.ih r.ih)) := by
  have hnext := fun l4 : Iterator => next_ipv4 (l4 ++ rest) h
  have htype : (r.parser 0).headerType = l2Header ||| l3Header ||| l4Header := rfl
  have htype' : ((r.parser 0).withIpv4 h).headerType = l2Header ||| l3Header ||| l4Header := rfl
  have hbrief : ((r.parser 0).withIpv4 h).brief = 0 := rfl
  rw [serialize_eq hwf.headerType, List.append_assoc, List.append_assoc,
    deserialize_full _ htype rfl hwf.fragmentOffset]
  rcases hwf.l4_cases int with ⟨hprot, hwrite, hsize⟩ | ⟨hprot, hwrite, hsize⟩ | ⟨hprot, hwrite, hsize⟩ |
    ⟨hprot, hwrite, hsize⟩ | ⟨hprot, hwrite, hsize⟩
  · obtain ⟨tcp', hread, hrestored⟩ := deserializeTcp_full rest hbrief
      (hwf.length hprot).1 (hlength hprot) (hnext _)
    rw [hwrite, hsize]
    refine ⟨_, (deserializeL4_tcp htype' hprot).trans hread, ?_⟩
    rw [restores_iff rfl, restoresL4_tcp hprot, hrestored]
    exact and_congr_right fun _ => ⟨fun hflags => ⟨fun _ => hflags, fun hcarries => absurd hprot hcarries.ne_tcp⟩,
      fun hkept => hkept.1 hprot⟩
  · have hcarries : h.CarriesInt := .inl hprot
    obtain ⟨udp', ih', hread, hudp, hsame⟩ := deserializeUdp_serialize ((r.parser 0).withIpv4 h) rest
      (hpint hcarries) h.udp h.ih (hnext _)
    rw [hwrite, hsize]
    refine ⟨_, (deserializeL4_udp htype' hprot).trans hread, ?_⟩
    rw [restores_iff rfl, restoresL4_udp hprot]
    exact and_congr_right fun _ => ⟨fun hl4 => ⟨fun htcp => absurd htcp hcarries.ne_tcp, fun _ => hsame.mp hl4.2⟩,
      fun hkept => ⟨hudp rfl, hsame.mpr (hkept.2 hcarries)⟩⟩
  · rw [hwrite, hsize]
    refine ⟨_, (deserializeL4_cnp htype' hprot).trans (deserializeCnp_serialize _ _ _), ?_⟩
    rw [restores_iff rfl, restoresL4_cnp hprot, CarriesInt, hprot]
    exact and_congr_right fun _ => iff_of_true rfl
      ⟨fun htcp => absurd htcp (by decide), fun hcarries => absurd hcarries (by decide)⟩
  · have hcarries : h.CarriesInt := .inr hprot
    obtain ⟨ih', hread, hsame⟩ := deserializeAck_serialize ((r.parser 0).withIpv4 h) rest (hpint hcarries)
      h.ack h.ih (14 + 20)
    rw [hwrite, hsize]
    refine ⟨_, (deserializeL4_ack htype' hprot).trans hread, ?_⟩
    rw [restores_iff rfl, restoresL4_ack hprot]
    exact and_congr_right fun _ => ⟨fun hl4 => ⟨fun htcp => absurd htcp hcarries.ne_tcp, fun _ => hsame.mp hl4.2⟩,
      fun hkept => ⟨rfl, hsame.mpr (hkept.2 hcarries)⟩⟩
  · rw [hwrite, hsize]
    refine ⟨_, (deserializeL4_pfc htype' hprot).trans (deserializePfc_serialize _ _ _), ?_⟩
    rw [restores_iff rfl, restoresL4_pfc hprot, CarriesInt, hprot]
    exact and_congr_right fun _ => iff_of_true rfl
      ⟨fun htcp => absurd htcp (by decide), fun hcarries => absurd hcarries (by decide)⟩

/-- The size that is found with `brief`. -/
theorem deserialize_size (hwf : h.WellFormed) (hpint : h.CarriesInt → int.mode = .pint → int.pintBytes = 2) :
    ∃ size ch, (r.parser 1).deserialize int (h.serialize int ++ rest) = some (size, ch) ∧
      (size = h.getSerializedSize int ↔ (h.l3Prot = 0x06 → r.tcp.length = h.tcp.length)) := by
  have hnext := fun l4 : Iterator => next_ipv4 (l4 ++ rest) h
  have htype : (r.parser 1).headerType = l2Header ||| l3Header ||| l4Header := rfl
  have htype' : ((r.parser 1).withBrief h).headerType = l2Header ||| l3Header ||| l4Header := rfl
  have hbrief : (r.parser 1).brief ≠ 0 := by
    show (1 : UInt32) ≠ 0
    decide
  have hbrief' : ((r.parser 1).withBrief h).brief ≠ 0 := hbrief
  rw [serialize_eq hwf.headerType, List.append_assoc, List.append_assoc, deserialize_brief _ htype hbrief]
  rcases hwf.l4_cases int with ⟨hprot, hwrite, hsize⟩ | ⟨hprot, hwrite, hsize⟩ | ⟨hprot, hwrite, hsize⟩ |
    ⟨hprot, hwrite, hsize⟩ | ⟨hprot, hwrite, hsize⟩
  · obtain ⟨ch', hread⟩ := deserializeTcp_brief rest hbrief' h.tcp (hnext _)
    rw [hwrite, hsize]
    refine ⟨_, ch', (deserializeL4_tcp htype' hprot).trans hread, ?_⟩
    have hstale : ((r.parser 1).withBrief h).tcp = r.tcp := rfl
    rw [hstale]
    refine ⟨fun hlen _ => ?_, fun hlen => by rw [hlen hprot]⟩
    apply UInt8.toNat_inj.mp
    omega
  · obtain ⟨udp', ih', hread, -⟩ := deserializeUdp_serialize ((r.parser 1).withBrief h) rest
      (hpint (.inl hprot)) h.udp h.ih (hnext _)
    rw [hwrite, hsize]
    refine ⟨_, _, (deserializeL4_udp htype' hprot).trans hread, ?_⟩
    exact iff_of_true rfl fun htcp => absurd htcp (CarriesInt.ne_tcp (.inl hprot))
  · rw [hwrite, hsize]
    refine ⟨_, _, (deserializeL4_cnp htype' hprot).trans (deserializeCnp_serialize _ _ _), ?_⟩
    rw [hprot]
    exact iff_of_true rfl fun htcp => absurd htcp (by decide)
  · obtain ⟨ih', hread, -⟩ := deserializeAck_serialize ((r.parser 1).withBrief h) rest (hpint (.inr hprot))
      h.ack h.ih (14 + 20)
    rw [hwrite, hsize]
    refine ⟨_, _, (deserializeL4_ack htype' hprot).trans hread, ?_⟩
    exact iff_of_true rfl fun htcp => absurd htcp (CarriesInt.ne_tcp (.inr hprot))
  · rw [hwrite, hsize]
    refine ⟨_, _, (deserializeL4_pfc htype' hprot).trans (deserializePfc_serialize _ _ _), ?_⟩
    rw [hprot]
    exact iff_of_true rfl fun htcp => absurd htcp (by decide)

/-- The header comes back, and its size is found in both modes, exactly when it fills its room (TCP options up to
32 bytes, PINT of two bytes), has no flag that is not kept, and the parser asks for the telemetry and, to be brief,
already has the length of a TCP header. -/
theorem roundTrip_iff (int : IntStatic) (h r : FullHeader) (hwf : h.WellFormed) :
    RoundTrip int h r ↔ h.ipv4Flags < 4 ∧
      (h.l3Prot = 0x06 → h.tcp.length ≤ 13 ∧ h.tcp.tcpFlags < 64 ∧ r.tcp.length = h.tcp.length) ∧
      (h.CarriesInt → (int.mode = .pint → int.pintBytes = 2) ∧
        (r.getInt ≠ 0 ∨ IntHeader.SameContents int h.ih r.ih)) := by
  constructor
  · intro hround
    obtain ⟨hlength, hpint⟩ := (length_serialize_iff hwf).mp hround.written
    obtain ⟨ch, hfull, hrestores⟩ := hround.full []
    obtain ⟨ch₀, hfull₀, hkept⟩ := deserialize_restores (r := r) [] hwf hlength hpint
    obtain ⟨ch', hbrief⟩ := hround.brief []
    obtain ⟨size, ch₁, hbrief₁, hsize⟩ := deserialize_size (r := r) [] hwf hpint
    rw [hfull, Option.some_inj, Prod.mk.injEq] at hfull₀
    rw [hbrief, Option.some_inj, Prod.mk.injEq] at hbrief₁
    obtain ⟨hflags, htcp, hint⟩ := hkept.mp (hfull₀.2 ▸ hrestores)
    have hstale := hsize.mp hbrief₁.1.symm
    exact ⟨hflags, fun hprot => ⟨hlength hprot, htcp hprot, hstale hprot⟩,
      fun hcarries => ⟨hpint hcarries, hint hcarries⟩⟩
  · rintro ⟨hflags, htcp, hint⟩
    have hlength : h.l3Prot = 0x06 → h.tcp.length ≤ 13 := fun hprot => (htcp hprot).1
    have hpint : h.CarriesInt → int.mode = .pint → int.pintBytes = 2 := fun hcarries => (hint hcarries).1
    refine ⟨(length_serialize_iff hwf).mpr ⟨hlength, hpint⟩, fun rest => ?_, fun rest => ?_⟩
    · obtain ⟨ch, hfull, hkept⟩ := deserialize_restores (r := r) rest hwf hlength hpint
      exact ⟨ch, hfull, hkept.mpr ⟨hflags, fun hprot => (htcp hprot).2.1, fun hcarries => (hint hcarries).2⟩⟩
    · obtain ⟨size, ch, hbrief, hsize⟩ := deserialize_size (r := r) rest hwf hpint
      rw [hsize.mpr fun hprot => (htcp hprot).2.2] at hbrief
      exact ⟨ch, hbrief⟩

/-- A TCP header with 36 bytes of options. -/
def longOptions : FullHeader where
  brief := 0
  headerType := l2Header ||| l3Header ||| l4Header
  getInt := 1
  pppProto := 0x0021
  payloadSize := 1000
  ipid := 7
  tos := 0
  ttl := 64
  l3Prot := 0x06
  ipv4Flags := dontFragment
  fragmentOffset := 0
  sip := 0x0b000101
  dip := 0x0b000201
  checksum := 0
  headerSize := 20
  tcp := ⟨100, 200, 1, 2, 14, 0x10, 4096, 0, Vector.replicate 32 1⟩
  udp := ⟨0, 0, 0, 0, 0⟩
  cnp := ⟨0, 0, 0, 0, 0⟩
  ack := ⟨0, 0, 0, 0, 0⟩
  pfc := ⟨0, 0, 0⟩
  ih := CustomHeader.newIntHeader

def intNone : IntStatic where
  mode := .none
  pintBytes := 2

/-- Of its 90 bytes 54 are written, and the reader that reads every field returns 20. -/
theorem not_roundTrip_longOptions :
    longOptions.WellFormed ∧ longOptions.getSerializedSize intNone = 90 ∧
      (longOptions.serialize intNone).length = 54 ∧
      ((longOptions.parser 0).deserialize intNone (longOptions.serialize intNone)).map Prod.fst = some 20 ∧
      ¬ ∀ (int : IntStatic) (h r : FullHeader), h.WellFormed → RoundTrip int h r := by
  have hwf : longOptions.WellFormed := ⟨rfl, by decide, fun _ => by decide, rfl⟩
  refine ⟨hwf, rfl, rfl, rfl, fun hround => ?_⟩
  exact absurd (hround intNone longOptions longOptions hwf).written (by decide)

/-- The same header with 32 bytes of options, for a parser that holds that length. -/
theorem roundTrip_iff_fullOptions :
    RoundTrip intNone { longOptions with tcp.length := 13 } { longOptions with tcp.length := 13 } :=
  (roundTrip_iff intNone { longOptions with tcp.length := 13 } { longOptions with tcp.length := 13 }
    ⟨rfl, by decide, fun _ => by decide, rfl⟩).mpr
    ⟨by decide, fun _ => ⟨by decide, by decide, rfl⟩, fun hcarries => absurd rfl hcarries.ne_tcp⟩

end Lcmp.Wire.FullHeader
