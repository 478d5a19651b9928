import Mathlib.Data.List.Basic

/-!
# Packet headers, flow ids and hashes

What the switches read of a packet, the key under which they remember its flow and the hash that
spreads flows over ports.
-/

namespace Lcmp

/-- The header fields that routing reads. The members `tcp`, `udp` and `ack` of the source share one
union and start with the same two fields, so they have one pair of ports here. -/
structure CustomHeader where
  sip : UInt32
  dip : UInt32
  l3Prot : UInt8
  sport : UInt16
  dport : UInt16
  deriving DecidableEq

namespace CustomHeader

/-- The protocols whose ports are read: TCP, UDP, ACK and NACK. -/
def hasPorts (ch : CustomHeader) : Bool :=
  ch.l3Prot == 0x6 || ch.l3Prot == 0x11 || ch.l3Prot == 0xFC || ch.l3Prot == 0xFD

def flowPorts (ch : CustomHeader) : UInt32 × UInt32 :=
  if ch.hasPorts then (ch.sport.toUInt32, ch.dport.toUInt32) else (0, 0)

/-- The three words of the hash key. The third one is only written for the protocols above; `uninit`
is what the stack holds there otherwise. -/
def hashKey (ch : CustomHeader) (uninit : UInt32) : List UInt32 :=
  [ch.sip, ch.dip, if ch.hasPorts then ch.sport.toUInt32 ||| (ch.dport.toUInt32 <<< 16) else uninit]

end CustomHeader

def generateFlowId (sip dip sport dport : UInt32) : UInt32 := (sip <<< 16) ||| (dip ^^^ sport ^^^ dport)

def CustomHeader.flowId (ch : CustomHeader) : UInt64 :=
  (generateFlowId ch.sip ch.dip ch.flowPorts.1 ch.flowPorts.2).toUInt64

def nodeIdToIp (id : UInt32) : UInt32 :=
  0x0b000001 + ((id / 256) * 0x00010000) + ((id % 256) * 0x00000100)

/-! ### EcmpHash -/

def ecmpScramble (k : UInt32) : UInt32 :=
  let k := k * 0xcc9e2d51
  let k := (k <<< 15) ||| (k >>> 17)
  k * 0x1b873593

def ecmpRound (h k : UInt32) : UInt32 :=
  let h := h ^^^ ecmpScramble k
  let h := (h <<< 13) ||| (h >>> 19)
  h + ((h <<< 2) + 0xe6546b64)

/-- The hash of a key given as its whole words and the bytes that are left, fewer than four. -/
def ecmpHash (words : List UInt32) (rest : List UInt8) (seed : UInt32) : UInt32 :=
  let h := words.foldl ecmpRound seed
  let h := if rest = [] then h else
    h ^^^ ecmpScramble (rest.foldr (fun b k => (k <<< 8) ||| b.toUInt32) 0)
  let h := h ^^^ UInt32.ofNat (4 * words.length + rest.length)
  let h := h ^^^ (h >>> 16)
  let h := h * 0x85ebca6b
  let h := h ^^^ (h >>> 13)
  let h := h * 0xc2b2ae35
  h ^^^ (h >>> 16)

/-- A non-empty list entry chosen by a hash. -/
def pick {α : Type} (l : List α) (h : l ≠ []) (hash : UInt32) : α :=
  l.get ⟨hash.toNat % l.length, Nat.mod_lt _ (List.length_pos_of_ne_nil h)⟩

theorem pick_mem {α : Type} {l : List α} (h : l ≠ []) (hash : UInt32) : pick l h hash ∈ l :=
  List.get_mem l _

/-- Two packets of one tuple have the same key, whatever their protocols. -/
theorem CustomHeader.hashKey_congr {ch ch' : CustomHeader} (hports : ch.hasPorts = true)
    (hports' : ch'.hasPorts = true) (hsip : ch.sip = ch'.sip) (hdip : ch.dip = ch'.dip)
    (hsport : ch.sport = ch'.sport) (hdport : ch.dport = ch'.dport) (uninit uninit' : UInt32) :
    ch.hashKey uninit = ch'.hashKey uninit' := by
  simp only [hashKey, hports, hports', hsip, hdip, hsport, hdport, if_true]

theorem CustomHeader.flowId_congr {ch ch' : CustomHeader} (hports : ch.hasPorts = ch'.hasPorts)
    (hsip : ch.sip = ch'.sip) (hdip : ch.dip = ch'.dip) (hsport : ch.sport = ch'.sport)
    (hdport : ch.dport = ch'.dport) : ch.flowId = ch'.flowId := by
  simp only [flowId, flowPorts, hports, hsip, hdip, hsport, hdport]

end Lcmp
