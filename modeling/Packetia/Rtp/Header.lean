import Packetia.Lib.Bytes
import Packetia.Lib.Partial

/-!
# The readers of RTP headers

An RTP packet is a fixed header of 12 bytes, up to 15 contributing sources of 4
bytes, an optional extension block, the payload and optional padding, whose
length is in the last byte. The repository has four readers of this layout:

* `rtpPayloadBounds` (`Rtsp/Rtp/RtpRtx.h`), the bounds of the payload;
* `parseRtpHeader` (`RtpSenderTrack::ParseRtpHeader`), before a packet is
  forwarded;
* `inputRtp` (`RtpVideoTracker::inputRtp`), on reception, for the packets of
  one track;
* `pushRange` (`VideoResumeBuffer::Push`), before a payload is examined.

Each is stated here as it is written, and then characterised by the same layout
(`Framed`, `payloadStart`) and the room it gives to the padding (`PaddingIn`).
Three of them leave the padding the payload only. `parseRtpHeader` does not
subtract the extension block, and lets the padding reach into it. This is the
only difference (`readers_agree_iff`).
-/

namespace Packetia.Rtp

open Option

/-- `RtpHeader`, the fixed header. -/
structure Header where
  version : Byte
  padding : Bool
  ext : Bool
  csrc : Byte
  marker : Bool
  payloadType : Byte
  seq : BitVec 16
  timestamp : BitVec 32
  ssrc : BitVec 32
  deriving DecidableEq

/-- `RtpHeader::kSize`. -/
def kSize : ℕ := 12

/-- The fields of a header, at their places in the first 12 bytes. -/
def Header.read (buf : List Byte) : Header where
  version := (byteAt buf 0 >>> 6) &&& 0x03
  padding := (byteAt buf 0 >>> 5) &&& 0x01 ≠ 0
  ext := (byteAt buf 0 >>> 4) &&& 0x01 ≠ 0
  csrc := byteAt buf 0 &&& 0x0F
  marker := (byteAt buf 1 >>> 7) &&& 0x01 ≠ 0
  payloadType := byteAt buf 1 &&& 0x7F
  seq := u16At buf 2
  timestamp := u32At buf 4
  ssrc := u32At buf 8

def Header.inputFromBuffer (buf : List Byte) : Option Header :=
  if buf.length < kSize then none else some (.read buf)

def Header.headerSize (h : Header) : ℕ := kSize + h.csrc.toNat * 4

/-! ## The readers -/

/-- `RtpPayloadBounds`: where the payload begins and ends. -/
def rtpPayloadBounds (data : List Byte) : Option (ℕ × ℕ) := do
  guard ¬(data.length < 12 ∨ byteAt data 0 >>> 6 ≠ 2)
  let fixed := 12 + 4 * (byteAt data 0 &&& 15).toNat
  guard ¬(fixed > data.length)
  let first ←
    if byteAt data 0 &&& 0x10 ≠ 0 then do
      guard ¬(data.length - fixed < 4)
      let first := fixed + (4 + 4 * (u16At data (fixed + 2)).toNat)
      guard ¬(first > data.length)
      pure first
    else pure fixed
  if byteAt data 0 &&& 0x20 ≠ 0 then
    let padding := (byteAt data (data.length - 1)).toNat
    guard ¬(padding = 0 ∨ padding > data.length - first)
    pure (first, data.length - padding)
  else pure (first, data.length)

/-- `RtpSenderTrack::ParseRtpHeader`. -/
def parseRtpHeader (data : List Byte) : Option Header := do
  let header ← Header.inputFromBuffer data
  guard ¬(header.version ≠ 2)
  guard ¬(data.length < header.headerSize)
  if header.ext then
    guard ¬(data.length < header.headerSize + 4)
    let extSize := 4 + (u16At data (header.headerSize + 2)).toNat * 4
    guard ¬(data.length < header.headerSize + extSize)
  if header.padding then
    let padding := byteAt data (data.length - 1)
    guard ¬(padding = 0 ∨ padding.toNat > data.length - header.headerSize)
  pure header

/-- The identity of a receiver's track; the defaults accept every packet. -/
structure TrackInfo where
  payloadType : Byte := 0xFF
  ssrc : BitVec 32 := 0

/-- The packet belongs to the track. -/
def TrackInfo.Accepts (info : TrackInfo) (h : Header) : Prop :=
  ¬((info.payloadType ≠ 0xFF ∧ h.payloadType ≠ info.payloadType) ∨
    (info.ssrc ≠ 0 ∧ h.ssrc ≠ info.ssrc))
  deriving Decidable

/-- `RtpVideoTracker::inputRtp`, up to the copy of the packet: its header, the
    length of its header and that of its payload. -/
def inputRtp (info : TrackInfo) (data : List Byte) : Option (Header × ℕ × ℕ) := do
  guard ¬(data.length < kSize)
  let hdr ← Header.inputFromBuffer data
  guard ¬(hdr.version ≠ 2)
  guard (info.Accepts hdr)
  guard ¬(data.length < hdr.headerSize)
  let headerLen ←
    if hdr.ext then do
      guard ¬(data.length < hdr.headerSize + 4)
      let extTotalLen := 4 + (u16At data (hdr.headerSize + 2)).toNat * 4
      guard ¬(data.length < hdr.headerSize + extTotalLen)
      pure (hdr.headerSize + extTotalLen)
    else pure hdr.headerSize
  let payloadLen := data.length - headerLen
  if hdr.padding then
    let padLen := byteAt data (data.length - 1)
    guard ¬(padLen = 0 ∨ padLen.toNat > payloadLen)
    pure (hdr, headerLen, payloadLen - padLen.toNat)
  else pure (hdr, headerLen, payloadLen)

/-- The payload `VideoResumeBuffer::Push` examines: its offset and its end. -/
def pushRange (data : List Byte) : Option (ℕ × ℕ) := do
  guard ¬(data.length < 12 ∨ byteAt data 0 >>> 6 ≠ 2)
  let fixed := 12 + (byteAt data 0 &&& 15).toNat * 4
  guard ¬(fixed > data.length)
  let offset ←
    if byteAt data 0 &&& 0x10 ≠ 0 then do
      guard ¬(fixed + 4 > data.length)
      -- Unlike the others, no check that the block fits: the range is then empty.
      pure (fixed + (4 + (u16At data (fixed + 2)).toNat * 4))
    else pure fixed
  let stop ←
    if byteAt data 0 &&& 0x20 ≠ 0 then do
      let last := byteAt data (data.length - 1)
      guard ¬(last = 0 ∨ last.toNat > data.length - min data.length offset)
      pure (data.length - last.toNat)
    else pure data.length
  guard ¬(offset ≥ stop)
  pure (offset, stop)

/-! ## The layout -/

variable (data : List Byte)

/-- The bits of the first byte, and the end of the contributing sources. -/
def Extended : Prop := byteAt data 0 &&& 0x10 ≠ 0
  deriving Decidable

def Padded : Prop := byteAt data 0 &&& 0x20 ≠ 0
  deriving Decidable

def fixedEnd : ℕ := 12 + 4 * (byteAt data 0 &&& 15).toNat

/-- Where the payload starts. -/
def payloadStart : ℕ :=
  if Extended data then fixedEnd data + (4 + 4 * (u16At data (fixedEnd data + 2)).toNat)
  else fixedEnd data

/-- The headers of the packet are complete. -/
def Framed : Prop :=
  12 ≤ data.length ∧ byteAt data 0 >>> 6 = 2 ∧ fixedEnd data ≤ data.length ∧
    (Extended data → fixedEnd data + 4 ≤ data.length) ∧ payloadStart data ≤ data.length
  deriving Decidable

/-- The length the last byte gives to the padding. -/
def paddingLength : ℕ := (byteAt data (data.length - 1)).toNat

/-- The padding, if any, is not empty and fits in `room` bytes. -/
def PaddingIn (room : ℕ) : Prop :=
  Padded data → paddingLength data ≠ 0 ∧ paddingLength data ≤ room
  deriving Decidable

/-- Where the payload ends. -/
def payloadStop : ℕ :=
  if Padded data then data.length - paddingLength data else data.length

/-! ## What the readers accept -/

theorem read_version : (Header.read data).version = byteAt data 0 >>> 6 := by
  have h : ∀ b : Byte, (b >>> 6) &&& 0x03 = b >>> 6 := by decide +kernel
  exact h _

theorem read_ext : (Header.read data).ext = decide (Extended data) := by
  have h : ∀ b : Byte, decide ((b >>> 4) &&& 0x01 ≠ 0) = decide (b &&& 0x10 ≠ 0) := by
    decide +kernel
  exact h _

theorem read_padding : (Header.read data).padding = decide (Padded data) := by
  have h : ∀ b : Byte, decide ((b >>> 5) &&& 0x01 ≠ 0) = decide (b &&& 0x20 ≠ 0) := by
    decide +kernel
  exact h _

theorem read_headerSize : (Header.read data).headerSize = fixedEnd data :=
  congrArg (12 + ·) (Nat.mul_comm _ _)

theorem fixedEnd_eq : 12 + (byteAt data 0 &&& 15).toNat * 4 = fixedEnd data :=
  congrArg (12 + ·) (Nat.mul_comm _ _)

theorem last_eq_zero : (byteAt data (data.length - 1) = 0) = (paddingLength data = 0) :=
  propext ⟨fun h => congrArg BitVec.toNat h, fun h => BitVec.eq_of_toNat_eq h⟩

theorem not_framed (hlen : data.length < 12) : ¬Framed data :=
  fun h => absurd h.1 (not_le.2 hlen)

/-- The notions of the layout, in the terms of the code. -/
theorem layout :
    (byteAt data 0 &&& 0x10 ≠ 0) = Extended data ∧ (byteAt data 0 &&& 0x20 ≠ 0) = Padded data ∧
      12 + 4 * (byteAt data 0 &&& 15).toNat = fixedEnd data ∧
      (byteAt data (data.length - 1)).toNat = paddingLength data := ⟨rfl, rfl, rfl, rfl⟩

theorem rtpPayloadBounds_eq : rtpPayloadBounds data =
    if Framed data ∧ PaddingIn data (data.length - payloadStart data) then
      some (payloadStart data, payloadStop data) else none := by
  obtain ⟨hx, hp, hf, hl⟩ := layout data
  simp only [rtpPayloadBounds, guard_bind, pure_bind, hx, hp, hf, hl]
  simp only [Framed, PaddingIn, payloadStart, payloadStop]
  by_cases hX : Extended data <;> by_cases hP : Padded data <;>
    simp only [hX, hP, if_true, if_false] <;> grind

/-- The reader of the sender leaves the padding all that follows the contributing
    sources, the extension block included. -/
theorem parseRtpHeader_eq : parseRtpHeader data =
    if Framed data ∧ PaddingIn data (data.length - fixedEnd data) then some (.read data)
    else none := by
  obtain ⟨-, -, -, hl⟩ := layout data
  have hz := last_eq_zero data
  simp only [parseRtpHeader, Header.inputFromBuffer, kSize]
  by_cases hlen : data.length < 12
  · simp [hlen, not_framed data hlen]
  simp only [hlen, if_false, bind_eq_bind, bind_some, guard_bind, read_version,
    read_ext, read_padding, read_headerSize, hz, hl, decide_eq_true_eq]
  simp only [Framed, PaddingIn, payloadStart]
  by_cases hX : Extended data <;> by_cases hP : Padded data <;>
    simp only [hX, hP, if_true, if_false] <;> grind

theorem inputRtp_eq (info : TrackInfo) (hinfo : info.Accepts (.read data)) :
    inputRtp info data =
      if Framed data ∧ PaddingIn data (data.length - payloadStart data) then
        some (.read data, payloadStart data, payloadStop data - payloadStart data)
      else none := by
  obtain ⟨-, -, -, hl⟩ := layout data
  have hz := last_eq_zero data
  simp only [inputRtp, Header.inputFromBuffer, kSize]
  by_cases hlen : data.length < 12
  · simp [hlen, not_framed data hlen]
  simp only [hlen, if_false, bind_eq_bind, bind_some, guard_bind, read_version,
    read_ext, read_padding, read_headerSize, hz, hl, decide_eq_true_eq, hinfo]
  simp only [Framed, PaddingIn, payloadStart, payloadStop]
  by_cases hX : Extended data <;> by_cases hP : Padded data <;>
    simp only [hX, hP, if_true, if_false] <;> grind

theorem pushRange_eq : pushRange data =
    if Framed data ∧ PaddingIn data (data.length - payloadStart data) ∧
      payloadStart data < payloadStop data then some (payloadStart data, payloadStop data)
    else none := by
  obtain ⟨hx, hp, -, hl⟩ := layout data
  have hz := last_eq_zero data
  simp only [pushRange, guard_bind, pure_bind, hx, hp, hl, hz, fixedEnd_eq]
  simp only [Framed, PaddingIn, payloadStart, payloadStop]
  by_cases hX : Extended data <;> by_cases hP : Padded data <;>
    simp only [hX, hP, if_true, if_false] <;> grind

/-! ## Agreement -/

/-- The four readers accept the packet together, and those that give its payload
    give the same one, on reception for every track the packet belongs to. -/
def ReadersAgree : Prop :=
  ((rtpPayloadBounds data).isSome ↔ (parseRtpHeader data).isSome) ∧
    (∀ info : TrackInfo, info.Accepts (.read data) →
      (inputRtp info data).map Prod.snd = (rtpPayloadBounds data).map fun b => (b.1, b.2 - b.1)) ∧
    pushRange data = (rtpPayloadBounds data).filter fun b => b.1 < b.2

/-- The padding is longer than the payload, but not longer than what follows the
    contributing sources: it ends in the extension block. -/
def PaddingInExtension : Prop :=
  Framed data ∧ Padded data ∧ paddingLength data ≠ 0 ∧
    data.length - payloadStart data < paddingLength data ∧
    paddingLength data ≤ data.length - fixedEnd data

theorem fixedEnd_le_payloadStart : fixedEnd data ≤ payloadStart data := by
  rw [payloadStart]
  split_ifs
  · exact Nat.le_add_right _ _
  · exact le_rfl

theorem inputRtp_agrees (info : TrackInfo) (hinfo : info.Accepts (.read data)) :
    (inputRtp info data).map Prod.snd = (rtpPayloadBounds data).map fun b => (b.1, b.2 - b.1) := by
  rw [inputRtp_eq data info hinfo, rtpPayloadBounds_eq]
  split_ifs <;> rfl

theorem pushRange_agrees : pushRange data = (rtpPayloadBounds data).filter fun b => b.1 < b.2 := by
  rw [pushRange_eq, rtpPayloadBounds_eq]
  by_cases hf : Framed data ∧ PaddingIn data (data.length - payloadStart data)
  · by_cases hlt : payloadStart data < payloadStop data
    · rw [if_pos ⟨hf.1, hf.2, hlt⟩, if_pos hf]
      simp [Option.filter, hlt]
    · rw [if_neg fun h => hlt h.2.2, if_pos hf]
      simp [Option.filter, hlt]
  · rw [if_neg fun h => hf ⟨h.1, h.2.1⟩, if_neg hf]
    rfl

/-- The readers agree on every packet but those whose padding reaches into the
    extension block, which the sender alone accepts. -/
theorem readers_agree_iff (data : List Byte) : ReadersAgree data ↔ ¬PaddingInExtension data := by
  have hroom := fixedEnd_le_payloadStart data
  have hsome (p : Prop) [Decidable p] {β : Type} (b : β) :
      (if p then some b else none).isSome ↔ p := by split_ifs <;> simp [*]
  have hfirst : ((rtpPayloadBounds data).isSome ↔ (parseRtpHeader data).isSome) ↔
      ¬PaddingInExtension data := by
    rw [rtpPayloadBounds_eq, parseRtpHeader_eq, hsome, hsome, PaddingInExtension]
    -- Both ask for the same headers; the room for the padding is what differs.
    constructor
    · rintro hiff ⟨hf, hp, hne, hlt, hle⟩
      exact absurd ((hiff.2 ⟨hf, fun _ => ⟨hne, hle⟩⟩).2 hp).2 (not_le.2 hlt)
    · intro hno
      refine ⟨fun ⟨hf, hin⟩ => ⟨hf, fun hp => ⟨(hin hp).1, (hin hp).2.trans (by omega)⟩⟩,
        fun ⟨hf, hin⟩ => ⟨hf, fun hp => ⟨(hin hp).1, ?_⟩⟩⟩
      by_contra hlt
      exact hno ⟨hf, hp, (hin hp).1, not_le.1 hlt, (hin hp).2⟩
  exact ⟨fun h => hfirst.1 h.1,
    fun h => ⟨hfirst.2 h, fun info hinfo => inputRtp_agrees data info hinfo, pushRange_agrees data⟩⟩

/-- An empty extension block, one byte of payload and three bytes of padding. -/
theorem padding_in_extension_block :
    let data : List Byte := [0xB0, 96, 0, 1, 0, 0, 0, 0, 0, 0, 0, 1, 0xBE, 0xDE, 0, 0, 3]
    rtpPayloadBounds data = none ∧ (parseRtpHeader data).isSome ∧ inputRtp {} data = none ∧
      pushRange data = none := by decide

end Packetia.Rtp
