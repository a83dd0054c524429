import Packetia.Lib.Access
import Packetia.Twcc.Generator

/-!
# The readers of RTCP packets

An RTCP compound is a sequence of packets, each with its length in its header and an
optional padding, whose length is in the last byte. The repository reads compounds in
two places:

* `onRtcpPacket` (`protocol/Rtcp/RtcpReciver.cpp`) tells an observer what the packets
  say. It goes over the compound twice: the first pass checks the headers and decodes
  the transport feedback (`parseTransportFeedback`), the second calls the observer
  (`handleSingleRtcpPacket` for everything else).
* `inspectRtcpPacket` (`protocol/Rtcp/RtcpContext.cpp`) checks the headers and picks out
  the sources for routing.

The functions are readers of a byte string: the calls of the observer are part of what
they compute, and the bytes they look at can be stated.
-/

namespace Packetia.Rtcp

open Access Twcc

/-- `RtcpHeader`, after a `Parse` that succeeds. -/
structure Header where
  version : Byte
  padding : Bool
  countOrFmt : Byte
  packetType : Byte
  wordsMinusOne : BitVec 16
  /-- With the header and the padding. -/
  packetSize : ℕ
  /-- With the header, without the padding. -/
  contentSize : ℕ

/-- `RtcpHeader::kHeaderSize`. -/
def kHeaderSize : ℕ := 4

/-- The fields of the four bytes of a header. The padding is not subtracted yet. -/
def Header.read (first packetType : Byte) (wordsMinusOne : BitVec 16) : Header where
  version := first >>> 6
  padding := first &&& 0x20 ≠ 0
  countOrFmt := first &&& 0x1F
  packetType
  wordsMinusOne
  packetSize := (wordsMinusOne.toNat + 1) * 4
  contentSize := (wordsMinusOne.toNat + 1) * 4

/-- `RtcpHeader::Parse`, of the `len` bytes from the pointer on. -/
def Header.parse (len : ℕ) : Access (Option Header) :=
  if len < kHeaderSize then pure none
  else do
    let first ← byte 0
    let packetType ← byte 1
    let wordsMinusOne ← u16 2
    let header := Header.read first packetType wordsMinusOne
    if header.version ≠ 2 then pure none
    else if header.packetSize < kHeaderSize then pure none
    else if header.packetSize > len then pure none
    else if header.padding then do
      let paddingSize ← byte (header.packetSize - 1)
      if paddingSize = 0 then pure none
      else if paddingSize.toNat > header.packetSize then pure none
      else if header.packetSize - paddingSize.toNat < kHeaderSize then pure none
      else pure (some { header with contentSize := header.packetSize - paddingSize.toNat })
    else pure (some header)

/-! ## Transport feedback -/

/-- The packet statuses of a chunk: a run of one status, or a vector of them with two
    bits or one bit each. -/
def chunkSymbols (chunk : BitVec 16) : List Byte :=
  if chunk &&& 0x8000 = 0 then
    List.replicate (chunk &&& 0x1FFF).toNat (((chunk >>> 13) &&& 0x03).setWidth 8)
  else if chunk &&& 0x4000 ≠ 0 then
    [12, 10, 8, 6, 4, 2, 0].map fun shift => ((chunk >>> shift) &&& 0x03).setWidth 8
  else
    [13, 12, 11, 10, 9, 8, 7, 6, 5, 4, 3, 2, 1, 0].map fun shift =>
      ((chunk >>> shift) &&& 0x01).setWidth 8

/-- The loop over the chunks: the statuses, at most `count` of them, and where the
    chunks end. Every round reads a chunk of 2 bytes, so `n ≥ len` is no limit. -/
def readStatuses (len count : ℕ) : (n off : ℕ) → List Byte → Access (List Byte × ℕ)
  | 0, off, statuses => pure (statuses, off)
  | n + 1, off, statuses =>
    if statuses.length < count ∧ off + 2 ≤ len then do
      let chunk ← u16 off
      readStatuses len count n (off + 2)
        (statuses ++ (chunkSymbols chunk).take (count - statuses.length))
    else pure (statuses, off)

/-- The loop over the statuses: the reports of the packets from the `i`-th on, whose
    deltas begin at `off`. -/
def readDeltas (len : ℕ) (baseSequence : BitVec 16) (referenceTimeMs : ℕ) :
    List Byte → (i off : ℕ) → ℤ → Access (Option (List FeedbackPacket))
  | [], _, _, _ => pure (some [])
  | status :: statuses, i, off, receiveDeltaUs =>
    let transportSequence := baseSequence + BitVec.ofNat 16 i
    let received (deltaUs : ℤ) : FeedbackPacket :=
      let receiveTimeUs := (referenceTimeMs : ℤ) * 1000 + (receiveDeltaUs + deltaUs)
      { transportSequence
        received := true
        receiveTimeUs
        receiveTimeMs := if receiveTimeUs > 0 then receiveTimeUs.toNat / 1000 else 0 }
    if status = 0 then do
      let rest ← readDeltas len baseSequence referenceTimeMs statuses (i + 1) off receiveDeltaUs
      pure (rest.map ({ transportSequence } :: ·))
    else if status = 1 then
      if off + 1 > len then pure none
      else do
        let delta ← byte off
        let deltaUs : ℤ := delta.toNat * 250
        let rest ← readDeltas len baseSequence referenceTimeMs statuses (i + 1) (off + 1)
          (receiveDeltaUs + deltaUs)
        pure (rest.map (received deltaUs :: ·))
    else if status = 2 then
      if off + 2 > len then pure none
      else do
        let delta ← u16 off
        let deltaUs := delta.toInt * 250
        let rest ← readDeltas len baseSequence referenceTimeMs statuses (i + 1) (off + 2)
          (receiveDeltaUs + deltaUs)
        pure (rest.map (received deltaUs :: ·))
    else pure none

/-- `ParseTransportFeedback`, of a packet whose content has `len` bytes. -/
def parseTransportFeedback (len : ℕ) : Access (Option FeedbackReport) :=
  if len < 20 then pure none
  else do
    let senderSsrc ← u32 4
    let mediaSsrc ← u32 8
    let baseSequence ← u16 12
    let packetStatusCount ← u16 14
    let referenceTime ← u24 16
    let referenceTimeMs := referenceTime.toNat * 64
    let feedbackPacketCount ← byte 19
    let (statuses, off) ← readStatuses len packetStatusCount.toNat len 20 []
    if statuses.length < packetStatusCount.toNat then pure none
    else do
      let packets ← readDeltas len baseSequence referenceTimeMs statuses 0 off 0
      pure (packets.map fun packets =>
        { senderSsrc, mediaSsrc, baseSequence, packetStatusCount, feedbackPacketCount,
          referenceTimeMs, packets })

/-! ## The receiver -/

/-- The calls of `IRtcpObserver` the receiver makes. -/
inductive Event
  | senderReport (senderSsrc : BitVec 32) (ntp : BitVec 64)
      (rtpTs packetCount octetCount : BitVec 32)
  | receiverReport (senderSsrc mediaSsrc : BitVec 32) (fractionLost : Byte)
      (cumulativeLost highestSeq jitter lsr dlsr : BitVec 32)
  | nack (senderSsrc mediaSsrc : BitVec 32) (seqs : List (BitVec 16))
  | pli (senderSsrc mediaSsrc : BitVec 32)
  | fir (senderSsrc mediaSsrc : BitVec 32) (seqNr : Byte)
  | transportFeedback (report : FeedbackReport)
  | bye (senderSsrc : BitVec 32)

/-- A word of 24 bits as an `int32_t`. -/
def extend24 (raw : BitVec 24) : BitVec 32 :=
  let value := raw.setWidth 32
  if value &&& 0x00800000 ≠ 0 then value ||| 0xFF000000 else value

/-- `ReadInt24BE`. -/
def int24 (i : ℕ) : Access (BitVec 32) := do
  let raw ← u24 i
  pure (extend24 raw)

/-- The report block at `rb`. -/
def reportBlock (senderSsrc : BitVec 32) (rb : ℕ) : Access Event := do
  let mediaSsrc ← u32 rb
  let fractionLost ← byte (rb + 4)
  let cumulativeLost ← int24 (rb + 5)
  let highestSeq ← u32 (rb + 8)
  let jitter ← u32 (rb + 12)
  let lsr ← u32 (rb + 16)
  let dlsr ← u32 (rb + 20)
  pure (.receiverReport senderSsrc mediaSsrc fractionLost cumulativeLost highestSeq jitter lsr dlsr)

/-- Up to `count` entries of `size` bytes from `off` on, as many as `len` has room for. -/
def entries (size : ℕ) (entry : ℕ → Access Event) (len : ℕ) : (count off : ℕ) → Access (List Event)
  | 0, _ => pure []
  | count + 1, off =>
    if off + size ≤ len then do
      let event ← entry off
      let rest ← entries size entry len count (off + size)
      pure (event :: rest)
    else pure []

/-- `ExpandNackPair`: the number and those after it whose bit is set. -/
def expandNackPair (pid blp : BitVec 16) : List (BitVec 16) :=
  pid :: ((List.range 16).filter fun i => blp &&& (1 : BitVec 16) <<< i ≠ 0).map fun i =>
    pid + BitVec.ofNat 16 i + 1

/-- The loop over the pairs of a NACK, in a content of `len` bytes. -/
def readNackPairs (len : ℕ) : (n off : ℕ) → Access (List (BitVec 16))
  | 0, _ => pure []
  | n + 1, off =>
    if off + 4 ≤ len then do
      let pid ← u16 off
      let blp ← u16 (off + 2)
      let rest ← readNackPairs len n (off + 4)
      pure (expandNackPair pid blp ++ rest)
    else pure []

def firEntry (senderSsrc mediaSsrc : BitVec 32) (off : ℕ) : Access Event := do
  let firMediaSsrc ← u32 off
  let seqNr ← byte (off + 4)
  pure (.fir senderSsrc (if firMediaSsrc ≠ 0 then firMediaSsrc else mediaSsrc) seqNr)

def byeEntry (off : ℕ) : Access Event := do
  let ssrc ← u32 off
  pure (.bye ssrc)

/-- `HandleSingleRtcpPacket`, of a packet whose content has `len` bytes: the calls of the
    observer, if there is one. -/
def handleSingleRtcpPacket (observer : Bool) (len : ℕ) (fmt pt : Byte) : Access (List Event) :=
  if ¬observer ∨ len < 4 then pure []
  else if pt = 200 then
    if len ≥ 28 then do
      let senderSsrc ← u32 4
      let ntp ← u64 8
      let rtpTs ← u32 16
      let packetCount ← u32 20
      let octetCount ← u32 24
      let blocks ← entries 24 (reportBlock senderSsrc) len fmt.toNat 28
      pure (.senderReport senderSsrc ntp rtpTs packetCount octetCount :: blocks)
    else pure []
  else if pt = 201 then
    if len ≥ 8 then do
      let senderSsrc ← u32 4
      entries 24 (reportBlock senderSsrc) len fmt.toNat 8
    else pure []
  else if pt = 203 then
    entries 4 byeEntry len fmt.toNat 4
  else if pt = 205 then
    if len ≥ 12 ∧ fmt = 1 then do
      let senderSsrc ← u32 4
      let mediaSsrc ← u32 8
      let seqs ← readNackPairs len len 12
      pure (if seqs ≠ [] then [.nack senderSsrc mediaSsrc seqs] else [])
    else if len ≥ 20 ∧ fmt = 15 then do
      let report ← parseTransportFeedback len
      pure (report.toList.map .transportFeedback)
    else pure []
  else if pt = 206 then
    if len ≥ 12 then do
      let senderSsrc ← u32 4
      let mediaSsrc ← u32 8
      if fmt = 1 then pure [.pli senderSsrc mediaSsrc]
      else if fmt = 4 then entries 8 (firEntry senderSsrc mediaSsrc) len len 12
      else pure []
    else pure []
  else pure []

/-- `PendingPacket`: a packet of the compound that has passed the first pass. -/
structure PendingPacket where
  /-- Where the packet begins. -/
  offset : ℕ
  header : Header
  transportFeedback : Option FeedbackReport

/-- The packet is transport feedback. -/
def Header.IsTransportCc (header : Header) : Prop :=
  header.packetType = 205 ∧ header.countOrFmt = 15
  deriving Decidable

/-- What the first pass does with the packet at `offset`. -/
def validatePacket (len offset : ℕ) : Access (Option PendingPacket) := do
  match ← (Header.parse (len - offset)).shift offset with
  | none => pure none
  | some header =>
    if header.IsTransportCc then do
      let report ← (parseTransportFeedback header.contentSize).shift offset
      pure (report.map fun report => ⟨offset, header, some report⟩)
    else pure (some ⟨offset, header, none⟩)

/-- The first pass: the packets from `offset` on, and where the last one ends. A packet
    has at least 4 bytes, so `n ≥ len` is no limit. -/
def validate (len : ℕ) : (n offset : ℕ) → Access (Option (List PendingPacket × ℕ))
  | 0, offset => pure (some ([], offset))
  | n + 1, offset =>
    if offset + kHeaderSize ≤ len then do
      match ← validatePacket len offset with
      | none => pure none
      | some packet => do
        let rest ← validate len n (offset + packet.header.packetSize)
        pure (rest.map fun rest => (packet :: rest.1, rest.2))
    else pure (some ([], offset))

/-- What the second pass does with a packet. -/
def publishPacket (observer : Bool) (packet : PendingPacket) : Access (List Event) :=
  match packet.transportFeedback with
  | some report => pure (if observer then [.transportFeedback report] else [])
  | none =>
    (handleSingleRtcpPacket observer packet.header.contentSize packet.header.countOrFmt
      packet.header.packetType).shift packet.offset

/-- The second pass. -/
def publish (observer : Bool) : List PendingPacket → Access (List Event)
  | [] => pure []
  | packet :: packets => do
    let events ← publishPacket observer packet
    let rest ← publish observer packets
    pure (events ++ rest)

/-- `OnRtcpPacket`: the value returned and the calls of the observer. -/
def onRtcpPacket (observer : Bool) (len : ℕ) : Access (Bool × List Event) :=
  if len < kHeaderSize then pure (false, [])
  else do
    match ← validate len len 0 with
    | none => pure (false, [])
    | some (packets, offset) =>
      if packets.isEmpty ∨ offset ≠ len then pure (false, [])
      else do
        let events ← publish observer packets
        pure (true, events)

/-! ## The inspection -/

/-- `RtcpPacketInfo`. -/
structure PacketInfo where
  valid : Bool := false
  hasMediaSsrc : Bool := false
  hasSenderSsrc : Bool := false
  firstPacketType : Byte := 0
  firstCountOrFmt : Byte := 0
  senderSsrc : BitVec 32 := 0
  mediaSsrc : BitVec 32 := 0

/-- The kind of the first packet. -/
def noteFirst (parsedAny : Bool) (header : Header) (info : PacketInfo) : PacketInfo :=
  if ¬parsedAny then
    { info with firstPacketType := header.packetType, firstCountOrFmt := header.countOrFmt }
  else info

/-- The source that sends the packet. -/
def inspectSender (len : ℕ) (pt : Byte) (info : PacketInfo) : Access PacketInfo :=
  if (pt = 200 ∨ pt = 201 ∨ pt = 205 ∨ pt = 206) ∧ len ≥ 8 then do
    let senderSsrc ← u32 4
    pure { info with senderSsrc, hasSenderSsrc := true }
  else pure info

/-- The source the packet is about. -/
def inspectMedia (len : ℕ) (fmt pt : Byte) (info : PacketInfo) : Access PacketInfo :=
  if (pt = 205 ∨ pt = 206) ∧ len ≥ 12 then do
    let mediaSsrc ← u32 8
    if pt = 206 ∧ fmt = 4 ∧ mediaSsrc = 0 ∧ len ≥ 20 then do
      let entrySsrc ← u32 12
      pure { info with mediaSsrc := entrySsrc, hasMediaSsrc := true }
    else pure { info with mediaSsrc, hasMediaSsrc := true }
  else if pt = 201 ∧ fmt > 0 ∧ len ≥ 8 + 24 then do
    let mediaSsrc ← u32 8
    pure { info with mediaSsrc, hasMediaSsrc := true }
  else if pt = 200 ∧ fmt > 0 ∧ len ≥ 28 + 24 then do
    let mediaSsrc ← u32 28
    pure { info with mediaSsrc, hasMediaSsrc := true }
  else if pt = 200 ∧ len ≥ 8 then do
    let mediaSsrc ← u32 4
    pure { info with mediaSsrc, hasMediaSsrc := true }
  else if pt = 203 ∧ fmt > 0 ∧ len ≥ 8 then do
    let ssrc ← u32 4
    pure { info with
      senderSsrc := ssrc, mediaSsrc := ssrc, hasSenderSsrc := true, hasMediaSsrc := true }
  else pure info

/-- The loop of `InspectRtcpPacket` from `offset` on: what is known at the end of it,
    unless a header is refused. -/
def inspectPackets (len : ℕ) : (n offset : ℕ) → (parsedAny : Bool) → PacketInfo →
    Access (Option (Bool × ℕ × PacketInfo))
  | 0, offset, parsedAny, info => pure (some (parsedAny, offset, info))
  | n + 1, offset, parsedAny, info =>
    if offset < len then do
      match ← (Header.parse (len - offset)).shift offset with
      | none => pure none
      | some header => do
        let info := noteFirst parsedAny header info
        let info ← (inspectSender header.contentSize header.packetType info).shift offset
        let info ← (inspectMedia header.contentSize header.countOrFmt header.packetType
          info).shift offset
        inspectPackets len n (offset + header.packetSize) true info
    else pure (some (parsedAny, offset, info))

/-- `InspectRtcpPacket`: the value returned and `*out`. -/
def inspectRtcpPacket (len : ℕ) : Access (Bool × PacketInfo) :=
  if len < kHeaderSize then pure (false, {})
  else do
    match ← inspectPackets len len 0 false {} with
    | none => pure (false, {})
    | some (parsedAny, offset, info) =>
      if ¬parsedAny ∨ offset ≠ len then pure (false, {})
      else pure (true, { info with valid := true })

end Packetia.Rtcp
