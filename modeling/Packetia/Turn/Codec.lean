import Packetia.Net.SocketAddr

/-!
# TURN messages

`TurnCodec` (`protocol/turn/TurnCodec.cpp`): the messages of TURN are STUN messages that fill
their datagram, and channel data, a channel number and a length before the payload.
-/

namespace Packetia.Turn

open Stun Net

def kFirstChannel : ℕ := 0x4000

def kLastChannel : ℕ := 0x4FFF

def kUdpTransport : Byte := 17

def kChannelHeaderBytes : ℕ := 4

def ValidChannel (channel : BitVec 16) : Prop :=
  channel.toNat ≥ kFirstChannel ∧ channel.toNat ≤ kLastChannel
  deriving Decidable

def parseStunDatagram (data : List Byte) : Option StunMessageInfo := do
  let parsed ← parse data
  guard ¬parsed.raw.length ≠ data.length
  pure parsed

structure TurnChannelData where
  channel : BitVec 16
  data : List Byte

/-- What is behind the payload is padding. -/
def parseChannelDataDatagram (data : List Byte) : Option TurnChannelData := do
  guard ¬data.length < kChannelHeaderBytes
  let channel := u16At data 0
  let payloadSize := (u16At data 2).toNat
  guard ¬(¬ValidChannel channel ∨ payloadSize > data.length - kChannelHeaderBytes)
  pure { channel, data := (data.drop kChannelHeaderBytes).take payloadSize }

/-- `BuildChannelData`. A stream has its frames padded to a multiple of four bytes. -/
def buildChannelData (channel : BitVec 16) (data : List Byte) (padToFour : Bool := false) :
    Option (List Byte) := do
  guard ¬(¬ValidChannel channel ∨ data.length > 0xFFFF)
  let buf := u16Bytes channel ++ u16Bytes (BitVec.ofNat 16 data.length) ++ data
  pure (if padToFour then buf ++ List.replicate (pad4 buf.length - buf.length) 0 else buf)

/-- The header of a datagram that has one. -/
theorem eq_header_append {p : List Byte} (h : ¬p.length < kChannelHeaderBytes) :
    p = u16Bytes (u16At p 0) ++ u16Bytes (u16At p 2) ++ p.drop kChannelHeaderBytes := by
  have hbytes (x y : Byte) : u16Bytes (x ++ y) = [x, y] := by
    rw [u16Bytes, BitVec.extractLsb'_append_eq_left, BitVec.extractLsb'_append_eq_right]
  obtain ⟨a, b, c, d, rest, rfl⟩ : ∃ a b c d rest, p = a :: b :: c :: d :: rest := by
    match p, h with
    | a :: b :: c :: d :: rest, _ => exact ⟨a, b, c, d, rest, rfl⟩
    | [], h | [_], h | [_, _], h | [_, _, _], h => cases h (by simp [kChannelHeaderBytes])
  rw [u16At, u16At, hbytes, hbytes]
  rfl

/-- A datagram is read as channel data exactly if it is what is written for it, and padding. -/
theorem parseChannelDataDatagram_eq_some {p : List Byte} {d : TurnChannelData} :
    parseChannelDataDatagram p = some d ↔
      ∃ frame padding, buildChannelData d.channel d.data = some frame ∧ p = frame ++ padding := by
  obtain ⟨channel, data⟩ := d
  simp only [parseChannelDataDatagram, buildChannelData, Bool.false_eq_true, if_false,
    Option.bind_eq_bind, Option.bind_eq_some_iff, Option.guard_eq_some', Option.pure_def,
    Option.some.injEq, TurnChannelData.mk.injEq]
  constructor
  · rintro ⟨-, hlen, -, hvalid, rfl, rfl⟩
    have hdata : ((p.drop kChannelHeaderBytes).take (u16At p 2).toNat).length =
        (u16At p 2).toNat := by
      rw [List.length_take, List.length_drop]
      omega
    refine ⟨_, (p.drop kChannelHeaderBytes).drop (u16At p 2).toNat, ⟨(), ?_, rfl⟩, ?_⟩
    · rw [hdata]
      exact fun h => hvalid (h.imp_right fun h => absurd (u16At p 2).isLt (by omega))
    · rw [hdata, BitVec.ofNat_toNat, BitVec.setWidth_eq, List.append_assoc, List.take_append_drop]
      exact eq_header_append hlen
  · rintro ⟨_, padding, ⟨-, hvalid, rfl⟩, rfl⟩
    obtain ⟨hchannel, hsize⟩ := not_or.1 hvalid
    have hsize : data.length % 65536 = data.length := Nat.mod_eq_of_lt (by omega)
    simpa [u16At, byteAt, u16Bytes, extractLsb_append, kChannelHeaderBytes, hsize] using hchannel

/-- A frame that is padded is one that is not, with zeros behind it. -/
theorem buildChannelData_true {channel : BitVec 16} {data padded : List Byte} :
    buildChannelData channel data true = some padded ↔
      ∃ frame, buildChannelData channel data = some frame ∧
        padded = frame ++ List.replicate (pad4 frame.length - frame.length) 0 := by
  simp only [buildChannelData, Option.bind_eq_bind, Option.bind_eq_some_iff, Option.pure_def,
    Option.some.injEq, Bool.false_eq_true, if_false, if_true]
  constructor
  · rintro ⟨u, hguard, rfl⟩
    exact ⟨_, ⟨u, hguard, rfl⟩, rfl⟩
  · rintro ⟨_, ⟨u, hguard, rfl⟩, rfl⟩
    exact ⟨u, hguard, rfl⟩

/-- A datagram is read as channel data exactly if it is what is written for it, and padding. A
    padded frame has a multiple of four bytes, and is read back. -/
theorem channel_data_exact (p : List Byte) (d : TurnChannelData) :
    (parseChannelDataDatagram p = some d ↔ ∃ frame padding,
      buildChannelData d.channel d.data = some frame ∧ p = frame ++ padding) ∧
    (buildChannelData d.channel d.data true = some p →
      4 ∣ p.length ∧ parseChannelDataDatagram p = some d) := by
  refine ⟨parseChannelDataDatagram_eq_some, fun hpadded => ?_⟩
  obtain ⟨frame, hframe, rfl⟩ := buildChannelData_true.1 hpadded
  refine ⟨?_, parseChannelDataDatagram_eq_some.2 ⟨frame, _, hframe, rfl⟩⟩
  rw [List.length_append, List.length_replicate, Nat.add_sub_cancel' (le_pad4 _)]
  exact Nat.dvd_of_mod_eq_zero (pad4_mod _)

/-! ## Attributes -/

/-- `UInt32Attribute`. -/
def uInt32Attribute (type : AttrType) (value : ℕ) : StunAttribute :=
  { type := type.code, value := u32Bytes (BitVec.ofNat 32 value) }

def xorAddressAttribute (type : AttrType) (ep : IpEndpoint) (txid : TxId) :
    Option StunAttribute := do
  guard ¬(type ≠ .xorMappedAddress ∧ type ≠ .xorPeerAddress ∧ type ≠ .xorRelayedAddress)
  pure { type := type.code, value := encodeXorAddress ep txid }

variable (msg : StunMessageInfo)

def fourByteAttribute (type : AttrType) : Option AttrView := do
  let attr ← msg.findAttr type
  guard ¬(attr.len ≠ 4 ∨ (msg.attrValue attr).length ≠ 4)
  pure attr

def decodeUInt32 (type : AttrType) : Option (BitVec 32) := do
  let attr ← fourByteAttribute msg type
  pure (u32At msg.raw attr.valueOffset)

/-- Only the first byte counts. -/
def decodeRequestedTransport : Option Byte := do
  let attr ← fourByteAttribute msg .requestedTransport
  pure (byteAt msg.raw attr.valueOffset)

def decodeChannelNumber : Option (BitVec 16) := do
  let attr ← fourByteAttribute msg .channelNumber
  let channel := u16At msg.raw attr.valueOffset
  guard (ValidChannel channel)
  pure channel

end Packetia.Turn
