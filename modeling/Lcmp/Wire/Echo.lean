import Lcmp.Congestion.Host
import Lcmp.Wire.InPlace

/-!
# A packet and its answer

A data packet on its way to the receiver, the ACK or NACK that the receiver makes of it, and what the sender reads of
that. As far as the transport goes, the bytes say what its frames say. What else comes back are the marks and the
telemetry of the switches that the data packet has passed; those on the way back add nothing.
-/

namespace Lcmp

namespace Wire.CustomHeader

variable (int : IntStatic)

/-- `FLAG_CNP` is bit 0 of the flags. -/
def qbbHeader (ch : CustomHeader) (seq : UInt32) : QbbHeader where
  sport := ch.udp.dport
  dport := ch.udp.sport
  flags := if ch.getIpv4EcnBits ≠ 0 then 1 else 0
  pg := ch.udp.pg
  seq := seq
  ih := ch.udp.ih

/-- What fills a frame of 60 bytes. -/
def ackPayload : Iterator := List.replicate (60 - 14 - 20 - QbbHeader.getSerializedSize int) 0

def ackIpv4 (old : Nat → Nat → UInt8) (ipid : UInt16) (ch : CustomHeader) (ack : AckFrame) : Ipv4Header where
  payloadSize := UInt16.ofNat ((L4Header.ack (ch.qbbHeader ack.seq)).add int old (ackPayload int)).length
  identification := ipid
  tos := 0
  ttl := 64
  protocol := if ack.isNack then 0xfd else 0xfc
  dontFragment := false
  moreFragments := false
  fragmentOffset := 0
  source := ch.dip
  destination := ch.sip

/-- The packet that `ReceiveUdp` sends back. -/
def answer (old : Nat → Nat → UInt8) (ipid : UInt16) (ch : CustomHeader) (ack : AckFrame) : Iterator :=
  packet int old ⟨0x0021⟩ (ch.ackIpv4 int old ipid ack) (.ack (ch.qbbHeader ack.seq)) (ackPayload int)

/-- The frame that the transport reads of a data packet. -/
def dataFrame (ch : CustomHeader) (p : Iterator) : DataFrame := ⟨ch.udp.seq, ch.payloadSize int p⟩

/-- `ReceiveUdp` on the bytes of a packet and what the parser has read of them. -/
def receiveUdp (hw : RdmaHwConfig) (old : Nat → Nat → UInt8) (now : Int) (ipid : UInt16) (rxQp : Option RdmaRxQueuePair)
    (ch : CustomHeader) (p : Iterator) : Option (Option Iterator × RdmaRxQueuePair) :=
  match Lcmp.receiveUdp hw now (ch.dataFrame int p) rxQp with
  | none => none
  | some (ack, q) => some (ack.map (ch.answer int old ipid), q)

/-- What `ReceiveAck` reads. -/
def ackPacket (ch : CustomHeader) : AckPacket where
  sip := ch.sip
  dport := ch.ack.dport
  pg := ch.ack.pg
  frame := ⟨decide (ch.l3Prot = 0xfd), ch.ack.seq⟩
  cnp := decide (ch.ack.flags >>> 0 &&& 1 = 1)
  ih := ch.ack.ih

end Wire.CustomHeader

variable {int : IntStatic} {multi : UInt32}

/-! ### The marks -/

theorem Visit.tos_ecn (v : Visit) (tos : UInt8) : v.tos tos &&& 0x3 ≠ 0 ↔ tos &&& 0x3 ≠ 0 ∨ v.marks = true := by
  have hmarked : ∀ x : Fin 256, (x.val &&& 252 ||| 3) &&& 3 = 3 := by decide +kernel
  unfold Visit.tos
  split
  · rename_i hmarks
    refine iff_of_true (fun hzero => ?_) (.inr hmarks)
    have hthree := congrArg UInt8.toNat hzero
    rw [UInt8.toNat_and, UInt8.toNat_or, UInt8.toNat_and] at hthree
    exact absurd ((hmarked ⟨tos.toNat, tos.toNat_lt⟩).symm.trans hthree) (by decide)
  · rename_i hmarks
    exact (or_iff_left hmarks).symm

/-- A packet is marked if one of the switches has marked it. -/
theorem foldl_tos_ecn (visits : List Visit) (tos : UInt8) :
    visits.foldl (fun tos v => v.tos tos) tos &&& 0x3 ≠ 0 ↔ tos &&& 0x3 ≠ 0 ∨ visits.any Visit.marks = true := by
  induction visits generalizing tos with
  | nil => simp
  | cons v visits ih =>
      rw [List.foldl_cons, ih, v.tos_ecn, List.any_cons, Bool.or_eq_true, or_assoc]

/-! ### The way there -/

namespace UdpPacket

/-- What the receiver reads of a data packet. -/
theorem recovers_bytes (f : UdpPacket) (hmode : int.mode = .normal) (ch : Wire.CustomHeader) (tos : UInt8) (ih : IntHeader) :
    ∃ size ch', ch.deserialize int (f.bytes int tos ih) = some (size, ch') ∧
      Wire.CustomHeader.Recovers int f.ppp { f.ip with tos := tos } (.data f.udp ⟨f.seq, f.pg, ih⟩) ch' ∧
      ch'.payloadSize int (f.bytes int tos ih) = UInt32.ofNat f.payload.length := by
  obtain ⟨mode, pintBytes⟩ := int
  subst hmode
  have hprot : (L4Header.data f.udp ⟨f.seq, f.pg, ih⟩).Protocol ({ f.ip with tos := tos } : Ipv4Header).protocol := f.udpProtocol
  have hpint : IntStatic.pintBytes ⟨.normal, 2⟩ = 1 ∨ IntStatic.pintBytes ⟨.normal, 2⟩ = 2 := .inr rfl
  obtain ⟨ch', hread, hrecovers, hsize⟩ := Wire.CustomHeader.deserialize_packet hpint ch f.old f.ppp f.payload hprot
  refine ⟨_, ch', hread, ⟨hrecovers.pppProto, hrecovers.tos, hrecovers.ecnBits, hrecovers.ipid, hrecovers.l3Prot, hrecovers.sip,
    hrecovers.dip, hrecovers.l4⟩, ?_⟩
  apply Wire.CustomHeader.payloadSize_eq
  have hlength : (f.bytes ⟨.normal, 2⟩ tos ih).length = _ := length_packet _ f.old f.ppp _ _ f.payload
  rw [← hsize] at hlength
  exact hlength

end UdpPacket

/-! ### The way back -/

/-- A switch may mark an ACK, and does nothing else to it. -/
theorem notifyDequeue_ack (int : IntStatic) (multi : UInt32) (old old' : Nat → Nat → UInt8) (ppp : PppHeader) {ip : Ipv4Header}
    (hprot : ip.protocol ≠ 0x11) (hwhole : ip.dontFragment = false ∧ ip.moreFragments = false ∧ ip.fragmentOffset = 0)
    (qbb : QbbHeader) (payload : Iterator) (v : Visit) :
    v.notifyDequeue int multi old (packet int old' ppp ip (.ack qbb) payload) =
      some (packet int old' ppp { ip with tos := v.tos ip.tos } (.ack qbb) payload) := by
  have hecn : v.ecn old (packet int old' ppp ip (.ack qbb) payload) =
      some (packet int old' ppp { ip with tos := v.tos ip.tos } (.ack qbb) payload) := by
    unfold Visit.ecn Visit.tos
    split
    · exact markCe_packet int old old' ppp ip hwhole.1 hwhole.2.1 hwhole.2.2 _ _
    · rfl
  have hbyte : (packet int old' ppp { ip with tos := v.tos ip.tos } (.ack qbb) payload)[PppHeader.getStaticSize + 9]? =
      some ip.protocol := by
    rw [packet_eq, List.getElem?_append_right, List.getElem?_append_left, ppp.length_serialize, Nat.add_sub_cancel_left,
      Ipv4Header.protocol_byte]
    · rw [ppp.length_serialize, Nat.add_sub_cancel_left, Ipv4Header.length_serialize]
      decide
    · rw [ppp.length_serialize]
      exact Nat.le_add_right _ _
  unfold Visit.notifyDequeue
  rw [hecn]
  simp only [Option.bind_eq_bind, Option.bind_some]
  rw [hbyte, if_neg fun hudp => hprot (Option.some.inj hudp)]

theorem passSwitches_ack (int : IntStatic) (multi : UInt32) (old old' : Nat → Nat → UInt8) (ppp : PppHeader) {ip : Ipv4Header}
    (hprot : ip.protocol ≠ 0x11) (hwhole : ip.dontFragment = false ∧ ip.moreFragments = false ∧ ip.fragmentOffset = 0)
    (qbb : QbbHeader) (payload : Iterator) (visits : List Visit) :
    passSwitches int multi old visits (packet int old' ppp ip (.ack qbb) payload) =
      some (packet int old' ppp { ip with tos := visits.foldl (fun tos v => v.tos tos) ip.tos } (.ack qbb) payload) := by
  induction visits generalizing ip with
  | nil => rfl
  | cons v visits ih =>
      unfold passSwitches at ih ⊢
      rw [List.foldlM_cons, notifyDequeue_ack int multi old old' ppp hprot hwhole qbb payload v, List.foldl_cons]
      have hrest := @ih { ip with tos := v.tos ip.tos } hprot hwhole
      exact hrest

/-- An answer is an ACK or a NACK, and whole. -/
theorem protocol_ackIpv4 (int : IntStatic) (old : Nat → Nat → UInt8) (ipid : UInt16) (ch : Wire.CustomHeader) (ack : AckFrame) :
    (ch.ackIpv4 int old ipid ack).protocol = 0xfc ∨ (ch.ackIpv4 int old ipid ack).protocol = 0xfd := by
  have hack : (ch.ackIpv4 int old ipid ack).protocol = if ack.isNack then 0xfd else 0xfc := rfl
  rw [hack]
  split
  · exact .inr rfl
  · exact .inl rfl

theorem passSwitches_answer (int : IntStatic) (multi : UInt32) (old old' : Nat → Nat → UInt8) (ipid : UInt16)
    (ch : Wire.CustomHeader) (ack : AckFrame) (visits : List Visit) :
    ∃ tos, passSwitches int multi old visits (ch.answer int old' ipid ack) =
      some (packet int old' ⟨0x0021⟩ { ch.ackIpv4 int old' ipid ack with tos := tos } (.ack (ch.qbbHeader ack.seq))
        (Wire.CustomHeader.ackPayload int)) := by
  have hprot : (ch.ackIpv4 int old' ipid ack).protocol ≠ 0x11 := by
    intro hudp
    rcases protocol_ackIpv4 int old' ipid ch ack with hack | hnack
    · rw [hudp] at hack
      cases hack
    · rw [hudp] at hnack
      cases hnack
  exact ⟨_, passSwitches_ack int multi old old' ⟨0x0021⟩ hprot ⟨rfl, rfl, rfl⟩ (ch.qbbHeader ack.seq)
    (Wire.CustomHeader.ackPayload int) visits⟩

/-- What the sender reads of an answer. -/
theorem ackPacket_answer (hmode : int.mode = .normal) (old : Nat → Nat → UInt8) (ipid : UInt16) (tos : UInt8)
    (ch ch₀ : Wire.CustomHeader) (ack : AckFrame) :
    ∃ size ch', ch₀.deserialize int (packet int old ⟨0x0021⟩ { ch.ackIpv4 int old ipid ack with tos := tos }
        (.ack (ch.qbbHeader ack.seq)) (Wire.CustomHeader.ackPayload int)) = some (size, ch') ∧
      ch'.l3Prot = (if ack.isNack then 0xfd else 0xfc) ∧ ch'.ackPacket.sip = ch.dip ∧
      ch'.ackPacket.dport = ch.udp.sport ∧ ch'.ackPacket.pg = ch.udp.pg ∧
      ch'.ackPacket.frame = ack ∧ ch'.ackPacket.cnp = decide (ch.getIpv4EcnBits ≠ 0) ∧
      ch.udp.ih.SameContents int ch'.ackPacket.ih := by
  obtain ⟨mode, pintBytes⟩ := int
  subst hmode
  have hpint : IntStatic.pintBytes ⟨.normal, 2⟩ = 1 ∨ IntStatic.pintBytes ⟨.normal, 2⟩ = 2 := .inr rfl
  have hprot : (L4Header.ack (ch.qbbHeader ack.seq)).Protocol
      ({ ch.ackIpv4 ⟨.normal, pintBytes⟩ old ipid ack with tos := tos } : Ipv4Header).protocol :=
    protocol_ackIpv4 ⟨.normal, pintBytes⟩ old ipid ch ack
  obtain ⟨ch', hread, hrecovers, -⟩ := Wire.CustomHeader.deserialize_packet hpint ch₀ old ⟨0x0021⟩
    (Wire.CustomHeader.ackPayload ⟨.normal, pintBytes⟩) hprot
  obtain ⟨-, hdport, hflags, hpg, hseq, hih⟩ := hrecovers.l4
  have hl3 : ch'.l3Prot = if ack.isNack then 0xfd else 0xfc := hrecovers.l3Prot
  refine ⟨_, ch', hread, hl3, hrecovers.sip, hdport, hpg, ?_, ?_, hih⟩
  · obtain ⟨isNack, seq⟩ := ack
    have hseq' : ch'.ack.seq = seq := hseq
    unfold Wire.CustomHeader.ackPacket
    rw [hl3, hseq']
    cases isNack with
    | true => rfl
    | false => rfl
  · have hflags' : ch'.ack.flags = if ch.getIpv4EcnBits ≠ 0 then 1 else 0 := hflags
    unfold Wire.CustomHeader.ackPacket
    rw [hflags']
    by_cases hecn : ch.getIpv4EcnBits ≠ 0
    · rw [if_pos hecn]
      exact (decide_eq_true hecn).symm
    · rw [if_neg hecn]
      exact (decide_eq_false hecn).symm

/-! ### There and back -/

/-- What an ACK or a NACK tells the sender of a flow, when the data packet has come through some switches. -/
structure Echoes (multi : UInt32) (fields : Wire.CustomHeader.PacketFields) (there : List Visit) (ack : AckFrame)
    (p : AckPacket) : Prop where
  sip : p.sip = fields.dip
  dport : p.dport = fields.sport
  pg : p.pg = fields.pg
  frame : p.frame = ack
  cnp : p.cnp = there.any Visit.marks
  nhop : p.ih.nhop.toNat = there.length
  hops : ∀ i (hi : i < there.length),
    (IntHop.ofWord 0).record multi (there.get ⟨i, hi⟩).reading = some (p.ih.hop i)

/-- The bytes refine the frames. A data packet of `GetNxtPacket` comes through any switches; `ReceiveUdp` finds the flow
and the frame in it, so it decides as the transport does; and what it sends back comes through any switches and tells
the sender whose the answer is, the frame, whether one of the switches on the way there has marked the packet, and what
they have recorded, in their order. -/
theorem wire_refines_frames (hmode : int.mode = .normal) (hmulti : ¬ 2 ^ 25 ∣ multi.toNat) (hw hw' : RdmaHwConfig)
    (old old₁ old₂ old₃ : Nat → Nat → UInt8) (fields : Wire.CustomHeader.PacketFields) (qp : RdmaQueuePair) (now : Int)
    (ipid : UInt16) (rxQp : Option RdmaRxQueuePair) (there back : List Visit) (hroom : there.length ≤ IntHeader.maxHop)
    (ch₀ ch₁ : Wire.CustomHeader) :
    ∃ p size ch, passSwitches int multi old₁ there (Wire.CustomHeader.nxtPacket int hw old fields qp) = some p ∧
      ch₀.deserialize int p = some (size, ch) ∧ ch.l3Prot = 0x11 ∧ ch.sip = fields.sip ∧ ch.udp.sport = fields.sport ∧
      ch.udp.pg = fields.pg ∧ ch.dataFrame int p = (getNxtPacket hw qp).1 ∧
      ∀ ack q, receiveUdp hw' now (getNxtPacket hw qp).1 rxQp = some (some ack, q) → ∃ a p' size' ch',
        ch.receiveUdp int hw' old₂ now ipid rxQp p = some (some a, q) ∧
        passSwitches int multi old₃ back a = some p' ∧ ch₁.deserialize int p' = some (size', ch') ∧
        ch'.l3Prot = (if ack.isNack then 0xfd else 0xfc) ∧ Echoes multi fields there ack ch'.ackPacket := by
  obtain ⟨ih, hpush⟩ := IntHeader.exists_pushHops int hmulti there (Wire.CustomHeader.seqTsIntHeader int fields.now)
  obtain ⟨hcount, -, hrecords⟩ := IntHeader.pushHops_spec hmode hpush (m := 0) rfl (by omega) fun _ _ => rfl
  have hpass : passSwitches int multi old₁ there (Wire.CustomHeader.nxtPacket int hw old fields qp) =
      some ((nxtUdpPacket int hw old fields qp).bytes int (there.foldl (fun tos v => v.tos tos) 0) ih) := by
    rw [nxtPacket_eq, UdpPacket.passSwitches_bytes _ hmode, hpush]
    rfl
  obtain ⟨size, ch, hread, hrecovers, hpayload⟩ := (nxtUdpPacket int hw old fields qp).recovers_bytes hmode ch₀
    (there.foldl (fun tos v => v.tos tos) 0) ih
  obtain ⟨hsport, -, hseq, hpg, hih⟩ := hrecovers.l4
  have hframe : ch.dataFrame int ((nxtUdpPacket int hw old fields qp).bytes int
      (there.foldl (fun tos v => v.tos tos) 0) ih) = (getNxtPacket hw qp).1 := by
    have hlength : (nxtUdpPacket int hw old fields qp).payload.length = (getNxtPacket hw qp).1.payloadSize.toNat :=
      List.length_replicate
    unfold Wire.CustomHeader.dataFrame
    rw [hpayload, hlength, UInt32.ofNat_toNat, hseq]
    rfl
  refine ⟨_, size, ch, hpass, hread, hrecovers.l3Prot, hrecovers.sip, hsport, hpg, hframe, fun ack q hanswer => ?_⟩
  have hreceive : ch.receiveUdp int hw' old₂ now ipid rxQp ((nxtUdpPacket int hw old fields qp).bytes int
      (there.foldl (fun tos v => v.tos tos) 0) ih) = some (some (ch.answer int old₂ ipid ack), q) := by
    unfold Wire.CustomHeader.receiveUdp
    rw [hframe, hanswer]
    rfl
  obtain ⟨tos, hback⟩ := passSwitches_answer int multi old₃ old₂ ipid ch ack back
  obtain ⟨size', ch', hread', hprot, hsip, hdport, hqIndex, hack, hcnp, hcontents⟩ :=
    ackPacket_answer hmode old₂ ipid tos ch ch₁ ack
  refine ⟨_, _, size', ch', hreceive, hback, hread', hprot, ?_⟩
  unfold IntHeader.SameContents at hih hcontents
  rw [hmode] at hih hcontents
  exact {
    sip := hsip.trans hrecovers.dip
    dport := hdport.trans hsport
    pg := hqIndex.trans hpg
    frame := hack
    cnp := by
      have hmarked := (foldl_tos_ecn there 0).trans (or_iff_right (by decide))
      rw [hcnp, hrecovers.ecnBits, Bool.eq_iff_iff, decide_eq_true_iff]
      exact hmarked
    nhop := by rw [hcontents.2, hih.2, hcount, Nat.zero_add]
    hops := fun i hi => by rw [hrecords i hi, hcontents.1 i (by omega), hih.1 i (by omega), Nat.zero_add] }

/-- The first of two switches marks the packet, and so the ACK says. -/
theorem wire_refines_frames_two :
    ∃ p size ch a q p' size' ch', passSwitches ⟨.normal, 2⟩ 1 (fun _ _ => 0) [markingVisit, plainVisit]
        (Wire.CustomHeader.nxtPacket ⟨.normal, 2⟩ everySegment (fun _ _ => 0) ⟨0x0b000101, 0x0b000201, 10000, 100, 3, 0, 0⟩
          (plainQp 3000)) = some p ∧
      Wire.CustomHeader.blank.deserialize ⟨.normal, 2⟩ p = some (size, ch) ∧
      ch.receiveUdp ⟨.normal, 2⟩ everySegment (fun _ _ => 0) 0 7 none p = some (some a, q) ∧
      passSwitches ⟨.normal, 2⟩ 1 (fun _ _ => 0) [plainVisit] a = some p' ∧
      Wire.CustomHeader.blank.deserialize ⟨.normal, 2⟩ p' = some (size', ch') ∧ ch'.ackPacket.cnp = true ∧
      ch'.ackPacket.frame = ⟨false, 1000⟩ ∧ ch'.ackPacket.ih.nhop.toNat = 2 := by
  have hmode : IntStatic.mode ⟨.normal, 2⟩ = .normal := rfl
  have hmulti : ¬ 2 ^ 25 ∣ (1 : UInt32).toNat := by decide
  obtain ⟨p, size, ch, hpass, hread, -, -, -, -, -, hanswer⟩ := wire_refines_frames hmode hmulti everySegment
    everySegment (fun _ _ => 0) (fun _ _ => 0) (fun _ _ => 0) (fun _ _ => 0)
    ⟨0x0b000101, 0x0b000201, 10000, 100, 3, 0, 0⟩ (plainQp 3000) 0 7 none [markingVisit, plainVisit] [plainVisit] (by decide)
    Wire.CustomHeader.blank Wire.CustomHeader.blank
  obtain ⟨a, p', size', ch', hreceive, hback, hread', -, hechoes⟩ := hanswer ⟨false, 1000⟩ _ rfl
  exact ⟨p, size, ch, a, _, p', size', ch', hpass, hread, hreceive, hback, hread', hechoes.cnp, hechoes.frame, hechoes.nhop⟩

end Lcmp
