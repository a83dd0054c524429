import Packetia.Lib.Run
import Packetia.Lib.Word
import Packetia.Rtp.Header

/-!
# The sender of a track

`RtpSenderTrack` (`Rtsp/RtpSenderTrack.cpp`) forwards the packets of a source
to one subscriber. It gives them its own SSRC, sequence numbers and timestamps,
stamps them with a number of the transport (`Transport-CC`), keeps a copy for
retransmission, and fills the stream up with padding on request:

* a source packet is sent with the number `baseOutSeq + (seq - baseInSeq)`;
* padding takes the number after the furthest one sent, and shifts the base by
  one, as it has no source number;
* after `beginDiscontinuity` the next packet that is sent is the new base, and
  gets the number after the furthest one sent. The track then drops packets older
  than it, with timestamps unwrapped around the newest one sent.

The transport may refuse a packet at any point. What it accepted is the list
`sent`. The number of the transport comes from an allocator shared with other
tracks. Counters and unwrapped timestamps are not bounded here.
-/

namespace Packetia.Sender

open Rtp

structure Config where
  localSsrc : BitVec 32 := 0
  rewritePayloadType : Bool := false
  payloadType : Byte := 96
  rtpCacheSize : ℕ := 512
  minRetransmitIntervalMs : ℕ := 30
  maxRetransmitCount : ℕ := 3
  /-- The negotiated id of the Transport-CC extension; zero disables it. -/
  transportCcExtensionId : Byte := 0
  rewriteHeaderExtensions : Bool := false
  midExtensionId : Byte := 0
  mid : List Byte := []
  /-- Whether an allocator of transport numbers has been provided. -/
  hasAllocator : Bool := false
  /-- Zero disables expiry. -/
  maxRetransmitAgeMs : ℕ := 500

/-! ## Header extensions -/

variable (packet : List Byte)

/-- Where the contributing sources of a packet end. -/
def baseHeaderSize : ℕ := kSize + (byteAt packet 0 &&& 0x0F).toNat * 4

/-- `packet[0] |= 0x10`. -/
def setExtensionBit : List Byte := packet.set 0 (byteAt packet 0 ||| 0x10)

/-- The extension block is erased; fails when it does not fit. -/
def dropExtensions : Option (List Byte) := do
  guard ¬(packet.length < baseHeaderSize packet)
  if byteAt packet 0 &&& 0x10 ≠ 0 then
    guard ¬(packet.length < baseHeaderSize packet + 4)
    let stop := baseHeaderSize packet + 4 + 4 * (u16At packet (baseHeaderSize packet + 2)).toNat
    guard ¬(stop > packet.length)
    let erased := eraseRange packet (baseHeaderSize packet) stop
    pure (erased.set 0 (byteAt erased 0 &&& ~~~(0x10 : Byte)))
  else pure packet

/-- Zeros up to a multiple of four bytes. -/
def padToWord (bytes : List Byte) : List Byte :=
  bytes ++ List.replicate ((4 - bytes.length % 4) % 4) 0

/-- The extension block with the media id of the track only. -/
def midBlock (cfg : Config) : List Byte :=
  let element := (cfg.midExtensionId <<< 4) ||| BitVec.ofNat 8 (cfg.mid.length - 1)
  let block := padToWord (0xBE :: 0xDE :: 0 :: 0 :: element :: cfg.mid)
  overwrite block 2 (u16Bytes (BitVec.ofNat 16 ((block.length - 4) / 4)))

/-- `RewriteHeaderExtensions`. -/
def rewriteHeaderExtensions (cfg : Config) (packet : List Byte) : Option (List Byte) := do
  let base := baseHeaderSize packet
  let packet ← dropExtensions packet
  if cfg.midExtensionId = 0 then
    guard cfg.mid.isEmpty
    pure packet
  else
    guard ¬(cfg.midExtensionId.toNat > 14 ∨ cfg.mid.isEmpty ∨ cfg.mid.length > 16 ∨
      cfg.midExtensionId = cfg.transportCcExtensionId)
    pure (setExtensionBit (insertAt packet base (midBlock cfg)))

/-- What a scan of one-byte extension elements finds. -/
inductive Scan
  | found (offset : ℕ)
  | absent
  | malformed

/-- Scan the elements from `offset` on, up to `stop`, for the id. -/
def scanElements (id : Byte) (packet : List Byte) (stop : ℕ) : ℕ → ℕ → Scan
  | 0, _ => .absent
  | fuel + 1, offset =>
    if offset < stop then
      let header := byteAt packet offset
      if header = 0 then scanElements id packet stop fuel (offset + 1)
      else if header >>> 4 = 15 then .absent
      else
        let elementSize := (header &&& 0x0F).toNat + 1
        if offset + 1 + elementSize > stop then .malformed
        else if header >>> 4 = id then
          if elementSize ≠ 2 then .malformed else .found offset
        else scanElements id packet stop fuel (offset + 1 + elementSize)
    else .absent

/-- The element that carries a transport number, with a byte of padding. -/
def transportElement (id : Byte) (number : BitVec 16) : List Byte :=
  ((id <<< 4) ||| 0x01) :: u16Bytes number ++ [0x00]

/-- `WriteTransportCcExtension`: a new block, an element updated in place, or an
    element added to the block. -/
def writeTransportCcExtension (cfg : Config) (packet : List Byte) (number : BitVec 16) :
    Option (List Byte) := do
  let id := cfg.transportCcExtensionId
  guard ¬(id = 0 ∨ id.toNat > 14 ∨ packet.length < kSize)
  let base := baseHeaderSize packet
  guard ¬(packet.length < base)
  if byteAt packet 0 &&& 0x10 = 0 then
    pure (setExtensionBit
      (insertAt packet base ([0xBE, 0xDE, 0x00, 0x01] ++ transportElement id number)))
  else
    guard ¬(packet.length < base + 4)
    guard ¬(u16At packet base ≠ 0xBEDE)
    let words := u16At packet (base + 2)
    let stop := base + 4 + words.toNat * 4
    guard ¬(packet.length < stop)
    match scanElements id packet stop (stop - (base + 4)) (base + 4) with
    | .malformed => failure
    | .found offset => pure (overwrite packet (offset + 1) (u16Bytes number))
    | .absent =>
      pure (overwrite (insertAt packet stop (transportElement id number)) (base + 2)
        (u16Bytes (words + 1)))

/-! ## The state -/

/-- What a packet carries: a packet of the source, with its number there, or
    padding. A media packet `resumes` the stream when it is the first one after a
    discontinuity. -/
inductive Content
  | media (source : BitVec 16) (resumes : Bool)
  | padding
  deriving DecidableEq

/-- A packet the transport has accepted, and its extended transport number. -/
structure Sent where
  content : Content
  retransmit : Bool
  transport : ℤ
  packet : List Byte

/-- The sequence number a packet carries on the wire. -/
def Sent.number (s : Sent) : BitVec 16 := u16At s.packet 2

/-- The copy of a packet for retransmission, with what it carries. -/
structure CachedRtpPacket where
  content : Content
  packet : List Byte
  firstSendMs : ℕ
  lastRetransmitMs : ℕ := 0
  retransmitCount : ℕ := 0

structure Track where
  started : Bool := false
  hasSent : Bool := false
  rebasePending : Bool := false
  hasResumeFloor : Bool := false
  lastOutSeq : BitVec 16 := 0
  lastOutTimestamp : BitVec 32 := 0
  resumeFloorSeq : BitVec 16 := 0
  resumeFloorTimestamp : ℤ := 0
  latestSourceTimestamp : ℤ := 0
  baseInSeq : BitVec 16 := 0
  baseOutSeq : BitVec 16 := 0
  baseInTimestamp : BitVec 32 := 0
  baseOutTimestamp : BitVec 32 := 0
  packetCount : ℕ := 0
  octetCount : ℕ := 0
  cacheOrder : List (BitVec 16) := []
  rtpCache : List (BitVec 16 × CachedRtpPacket) := []
  /-- The next number of the shared allocator. -/
  nextTransport : ℕ := 0
  sent : List Sent := []

/-- How the transport and the memory meet a call: whether the transport is there,
    open and writable when the call begins, whether it takes the packet at its
    end, whether there is memory for a copy, and the time. -/
structure Env where
  ready : Bool := true
  accepts : Bool := true
  copies : Bool := true
  now : ℕ := 0

namespace Track

variable (cfg : Config)

/-! ## Sending -/

/-- `PrepareTransportCc`: the packet with its transport number. The extension is
    first written with a placeholder, so that a packet it does not fit takes no
    number. -/
def prepareTransportCc (packet : List Byte) (t : Track) : Option (List Byte × ℤ) × Track :=
  if cfg.transportCcExtensionId = 0 then (some (packet, -1), t)
  else if ¬cfg.hasAllocator then (none, t)
  else match writeTransportCcExtension cfg packet 0 with
    | none => (none, t)
    | some packet =>
      ((writeTransportCcExtension cfg packet (BitVec.ofNat 16 t.nextTransport)).map
          fun packet => (packet, (t.nextTransport : ℤ)),
        { t with nextTransport := t.nextTransport + 1 })

/-- `SendRtpPacket`: whether the transport took the packet. -/
def sendRtpPacket (accepts : Bool) (s : Sent) (t : Track) : Bool × Track :=
  if s.packet.isEmpty ∨ ¬accepts then (false, t) else (true, { t with sent := t.sent ++ [s] })

/-- Stamp a packet and send it: the packet as it went out. -/
def stampAndSend (accepts retransmit : Bool) (content : Content) (packet : List Byte) (t : Track) :
    Option (List Byte) × Track :=
  match t.prepareTransportCc cfg packet with
  | (none, t) => (none, t)
  | (some (packet, transport), t) =>
    match t.sendRtpPacket accepts { content, retransmit, transport, packet } with
    | (false, t) => (none, t)
    | (true, t) => (some packet, t)

/-- The extensions are rewritten where the track does so. -/
def extensionsFor (packet : List Byte) : Option (List Byte) :=
  if cfg.rewriteHeaderExtensions then rewriteHeaderExtensions cfg packet else some packet

/-- Drop the oldest copies beyond the size of the cache. -/
def trimCache (t : Track) : Track :=
  loop (fun t : Track => t.rtpCache.length > cfg.rtpCacheSize ∧ t.cacheOrder ≠ [])
    (fun t => { t with
      cacheOrder := t.cacheOrder.tail
      rtpCache := t.rtpCache.filter fun e => some e.1 ≠ t.cacheOrder.head? })
    t.cacheOrder.length t

/-- `_rtp_cache[seq] = cached`. -/
def assign (seq : BitVec 16) (cached : CachedRtpPacket)
    (cache : List (BitVec 16 × CachedRtpPacket)) : List (BitVec 16 × CachedRtpPacket) :=
  if cache.any (·.1 = seq) then cache.map fun e => if e.1 = seq then (seq, cached) else e
  else cache ++ [(seq, cached)]

/-- `CacheRtpPacket`. -/
def cacheRtpPacket (env : Env) (outSeq : BitVec 16) (content : Content) (packet : List Byte)
    (t : Track) : Track :=
  if cfg.rtpCacheSize = 0 ∨ ¬env.copies then t
  else trimCache cfg { t with
    cacheOrder := if t.rtpCache.any (·.1 = outSeq) then t.cacheOrder else t.cacheOrder ++ [outSeq]
    rtpCache := assign outSeq { content, packet, firstSendMs := env.now } t.rtpCache }

/-- `RtpPayloadOffset`, for the count of octets. -/
def rtpPayloadOffset : ℕ :=
  if packet.length < kSize then packet.length
  else if packet.length < baseHeaderSize packet ∨ byteAt packet 0 &&& 0x10 = 0 then
    baseHeaderSize packet
  else if packet.length < baseHeaderSize packet + 4 then packet.length
  else min packet.length
    (baseHeaderSize packet + 4 + (u16At packet (baseHeaderSize packet + 2)).toNat * 4)

/-! ## Source packets -/

/-- The timestamp of a source packet, unwrapped around the newest one sent since
    the stream resumed. -/
def sourceTimestamp (h : Header) (t : Track) : ℤ :=
  if t.hasResumeFloor ∧ ¬t.rebasePending then nearest t.latestSourceTimestamp h.timestamp
  else h.timestamp.toNat

/-- The packet is older than the one the stream resumed with. -/
def BelowFloor (h : Header) (t : Track) : Prop :=
  (t.hasResumeFloor ∧ ¬t.rebasePending) ∧
    (t.sourceTimestamp h < t.resumeFloorTimestamp ∨
      (t.sourceTimestamp h = t.resumeFloorTimestamp ∧ (h.seq - t.resumeFloorSeq).toNat ≥ 0x8000))
  deriving Decidable

/-- The timestamp a packet is sent with. -/
def mapTimestamp (timestamp : BitVec 32) (t : Track) : BitVec 32 :=
  t.baseOutTimestamp + (timestamp - t.baseInTimestamp)

/-- The stream would go back in time with the packet that resumes it. -/
def ResumesBehind (h : Header) (t : Track) : Prop :=
  t.rebasePending ∧ t.started ∧ t.hasSent ∧
    (t.mapTimestamp h.timestamp - t.lastOutTimestamp).toNat ≥ 0x80000000
  deriving Decidable

/-- The number after the furthest one sent, or `first` when nothing was sent. -/
def nextOutSeq (first : BitVec 16) (t : Track) : BitVec 16 :=
  if t.hasSent then t.lastOutSeq + 1 else first

/-- After a discontinuity, the packet is the new base and the floor. -/
def rebase (h : Header) (t : Track) : Track :=
  if t.rebasePending then
    { t with
      baseInSeq := h.seq
      baseOutSeq := t.nextOutSeq h.seq
      resumeFloorSeq := h.seq
      resumeFloorTimestamp := h.timestamp.toNat
      latestSourceTimestamp := t.sourceTimestamp h
      hasResumeFloor := true }
  else t

/-- What `RewriteSeq` does on the first packet. -/
def startSeq (seq : BitVec 16) (t : Track) : Track :=
  if ¬t.started ∧ ¬t.rebasePending then
    { t with baseInSeq := seq, baseOutSeq := t.nextOutSeq seq }
  else t

/-- What `RewriteTimestamp` does on the first packet. -/
def startTimestamp (timestamp : BitVec 32) (t : Track) : Track :=
  if ¬t.started then
    { t with baseInTimestamp := timestamp, baseOutTimestamp := timestamp, started := true }
  else t

/-- The number a packet is sent with. -/
def mapSeq (seq : BitVec 16) (t : Track) : BitVec 16 := t.baseOutSeq + (seq - t.baseInSeq)

/-- The track when a source packet has been accepted. -/
def accept (h : Header) (t : Track) : Track :=
  ((t.rebase h).startSeq h.seq).startTimestamp h.timestamp

/-- The packet as `RewriteRtpPacket` leaves it. -/
def rewriteRtpPacket (h : Header) (packet : List Byte) (t : Track) : List Byte :=
  let payloadType := if cfg.rewritePayloadType then cfg.payloadType &&& 0x7F else h.payloadType
  let packet := packet.set 1 ((byteAt packet 1 &&& 0x80) ||| payloadType)
  let packet := overwrite packet 2 (u16Bytes (t.mapSeq h.seq))
  let packet := overwrite packet 4 (u32Bytes (t.mapTimestamp h.timestamp))
  overwrite packet 8 (u32Bytes cfg.localSsrc)

/-- The packet is not behind the furthest one sent, around the circle. -/
def Advances (outSeq : BitVec 16) (t : Track) : Prop :=
  ¬t.hasSent ∨ (outSeq - t.lastOutSeq).toNat < 0x8000
  deriving Decidable

/-- The place in the stream after a source packet went out. -/
def recordOut (h : Header) (sourceTimestamp : ℤ) (t : Track) : Track :=
  { t with
    lastOutSeq := if t.Advances (t.mapSeq h.seq) then t.mapSeq h.seq else t.lastOutSeq
    lastOutTimestamp :=
      if t.Advances (t.mapSeq h.seq) then t.mapTimestamp h.timestamp else t.lastOutTimestamp
    hasSent := true
    rebasePending := false
    latestSourceTimestamp :=
      if t.hasResumeFloor then max t.latestSourceTimestamp sourceTimestamp
      else t.latestSourceTimestamp }

def countMedia (t : Track) : Track :=
  { t with
    packetCount := t.packetCount + 1
    octetCount := t.octetCount + (packet.length - rtpPayloadOffset packet) }

/-- Rewrite an accepted packet and send it. -/
def forward (env : Env) (h : Header) (sourceTimestamp : ℤ) (data : List Byte) (t : Track) :
    Bool × Track :=
  match extensionsFor cfg (t.rewriteRtpPacket cfg h data) with
  | none => (false, t)
  | some packet =>
    match t.stampAndSend cfg env.accepts false (.media h.seq t.rebasePending) packet with
    | (none, t) => (false, t)
    | (some packet, t) =>
      (true, ((t.recordOut h sourceTimestamp).cacheRtpPacket cfg env (t.mapSeq h.seq)
        (.media h.seq t.rebasePending) packet).countMedia packet)

/-- `InputRtpPacket`. -/
def inputRtpPacket (env : Env) (data : List Byte) (t : Track) : Bool × Track :=
  match parseRtpHeader data with
  | none => (false, t)
  | some h =>
    if ¬env.ready then (false, t)
    else if t.BelowFloor h then (false, t)
    else if t.ResumesBehind h then (false, t)
    else (t.accept h).forward cfg env h (t.sourceTimestamp h) data

/-- `BeginDiscontinuity`. -/
def beginDiscontinuity (t : Track) : Track :=
  { t with rtpCache := [], cacheOrder := [], rebasePending := true }

/-! ## Padding -/

/-- A packet of padding only. -/
def paddingPacket (paddingBytes : ℕ) (t : Track) : List Byte :=
  [0xA0, cfg.payloadType] ++ u16Bytes (t.nextOutSeq 0) ++ u32Bytes t.lastOutTimestamp ++
    u32Bytes cfg.localSsrc ++ List.replicate (paddingBytes - 1) 0 ++ [BitVec.ofNat 8 paddingBytes]

/-- The books after padding went out: it occupies a number downstream, but none
    of the source. -/
def recordPadding (t : Track) : Track :=
  { t with
    baseOutSeq := if t.started then t.baseOutSeq + 1 else t.baseOutSeq
    lastOutSeq := t.nextOutSeq 0
    hasSent := true
    packetCount := t.packetCount + 1 }

/-- `SendPadding`. -/
def sendPadding (env : Env) (paddingBytes : ℕ) (t : Track) : Bool × Track :=
  if cfg.transportCcExtensionId = 0 ∨ paddingBytes = 0 ∨ paddingBytes > 255 then (false, t)
  else match extensionsFor cfg (t.paddingPacket cfg paddingBytes) with
    | none => (false, t)
    | some packet =>
      match t.stampAndSend cfg env.accepts false .padding packet with
      | (none, t) => (false, t)
      | (some _, t) => (true, t.recordPadding)

/-! ## Retransmission -/

/-- The copy may be sent again now. -/
def MayRetransmit (now : ℕ) (cached : CachedRtpPacket) : Prop :=
  ¬(now < cached.firstSendMs ∨
      (cfg.maxRetransmitAgeMs ≠ 0 ∧ now - cached.firstSendMs ≥ cfg.maxRetransmitAgeMs)) ∧
    ¬(cfg.maxRetransmitCount > 0 ∧ cached.retransmitCount ≥ cfg.maxRetransmitCount) ∧
    ¬(cached.retransmitCount ≠ 0 ∧ now ≥ cached.lastRetransmitMs ∧
      now - cached.lastRetransmitMs < cfg.minRetransmitIntervalMs)
  deriving Decidable

/-- Send the copy of `seq` again. -/
def retransmit (now : ℕ) (accepts : Bool) (seq : BitVec 16) (t : Track) : Track :=
  match t.rtpCache.lookup seq with
  | none => t
  | some cached =>
    if ¬MayRetransmit cfg now cached then t
    else match t.stampAndSend cfg accepts true cached.content cached.packet with
      | (none, t) => t
      | (some _, t) =>
        { t with rtpCache := assign seq { cached with
            lastRetransmitMs := now
            retransmitCount := cached.retransmitCount + 1 } t.rtpCache }

/-- `OnRtcpNack`: the lost numbers, each with whether the transport takes its copy. -/
def onRtcpNack (env : Env) (lost : List (BitVec 16 × Bool)) (t : Track) : Track :=
  if ¬env.ready then t
  else lost.foldl (fun t l => t.retransmit cfg env.now l.2 l.1) t

/-! ## Runs -/

/-- The calls on a track. Other tracks of the transport take numbers of the shared
    allocator in between. -/
inductive Call
  | inputRtpPacket (env : Env) (data : List Byte)
  | sendPadding (env : Env) (paddingBytes : ℕ)
  | beginDiscontinuity
  | onRtcpNack (env : Env) (lost : List (BitVec 16 × Bool))
  | allocateElsewhere

def step (t : Track) : Call → Track
  | .inputRtpPacket env data => (t.inputRtpPacket cfg env data).2
  | .sendPadding env paddingBytes => (t.sendPadding cfg env paddingBytes).2
  | .beginDiscontinuity => t.beginDiscontinuity
  | .onRtcpNack env lost => t.onRtcpNack cfg env lost
  | .allocateElsewhere => { t with nextTransport := t.nextTransport + 1 }

/-- The track after the calls on a new one. -/
def after (calls : List Call) : Track := run (step cfg) {} calls

end Track

end Packetia.Sender
