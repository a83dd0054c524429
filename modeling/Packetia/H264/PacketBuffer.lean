import Packetia.Lib.Ring
import Packetia.Lib.Run
import Packetia.H264.Payload

/-!
# The H.264 packet buffer

`H264PacketBuffer` (`Common/Depacketizer/H26xPacketBuffer.cpp`) puts the packets
of a stream back in order and joins them to access units. Its state has two
parts:

* the `Store`: a ring of 2048 packets under their extended sequence numbers, with
  the times of arrival in order, and a count. A packet is in all three or in none;
* the cursor: the last packet up to which the sequence is continuous, and the
  frame that is open there.

A packet that continues the sequence moves the cursor over it and over the packets
buffered behind it. At a marker the open frame is assembled and handed out, or
dropped if its packets do not make up an access unit. A packet behind a gap waits
for the missing ones, unless a decoder can start with it: then what was missing is
given up. Packets that wait too long are given up as well.

An iterator into the times of arrival is modelled by the entry it points to, and
a time is a number of nanoseconds.
-/

namespace Packetia.H264

/-! ## Extended sequence numbers -/

/-- `RtpSequenceNumberUnwrapper`. -/
structure Unwrapper where
  initialized : Bool := false
  latestUnwrappedSeq : ℤ := 0

/-- The extension of `s` that is closest to `latest`. -/
def unwrapNear (latest : ℤ) (s : BitVec 16) : ℤ :=
  let candidate := latest - latest % 65536 + s.toNat
  if candidate - latest > 32768 then candidate - 65536
  else if latest - candidate > 32768 then candidate + 65536
  else candidate

/-- `Unwrap`. -/
def Unwrapper.unwrap (u : Unwrapper) (s : BitVec 16) : ℤ × Unwrapper :=
  if u.initialized then
    (unwrapNear u.latestUnwrappedSeq s,
      { u with latestUnwrappedSeq := max u.latestUnwrappedSeq (unwrapNear u.latestUnwrappedSeq s) })
  else (s.toNat, { initialized := true, latestUnwrappedSeq := s.toNat })

/-! ## The store -/

def kBufferSize : ℕ := 2048

/-- `BufferedPacket`. Its number is kept by the ring. -/
structure BufferedPacket where
  packet : ParsedPacket
  arrival : ℤ × ℤ

/-- The buffered packets: `buffer_`, `arrivals_` and `buffered_packet_count_`. -/
structure Store where
  buffer : Ring kBufferSize BufferedPacket := .empty
  /-- The times of arrival with the numbers of the packets, in order. -/
  arrivals : List (ℤ × ℤ) := []
  bufferedPacketCount : ℕ := 0

/-- The numbers from `start` to `stop`. -/
def seqRange (start stop : ℤ) : List ℤ :=
  (List.range (stop + 1 - start).toNat).map fun i : ℕ => start + i

namespace Store

variable (st : Store) (seq : ℤ) (packet : ParsedPacket) (now : ℤ)

/-- `GetPacket`. -/
def getPacket : Option BufferedPacket := st.buffer.get? seq

/-- The packet is stored in its slot, which is empty. An entry of `arrivals_` goes
    behind those of the same time. -/
def putPacket : Store where
  buffer := st.buffer.put seq { packet, arrival := (now, seq) }
  arrivals := st.arrivals.orderedInsert (fun a b => a.1 < b.1) (now, seq)
  bufferedPacketCount := st.bufferedPacketCount + 1

/-- `ErasePacket`, of the packet numbered `seq` if it is there. -/
def erasePacket : Store :=
  match st.getPacket seq with
  | none => st
  | some stored =>
    { buffer := st.buffer.erase seq
      arrivals := st.arrivals.erase stored.arrival
      bufferedPacketCount := st.bufferedPacketCount - 1 }

def eraseAll (seqs : List ℤ) : Store := seqs.foldl erasePacket st

/-- The numbers of the buffered packets, slot by slot. -/
def numbers : List ℤ := st.buffer.items.map Prod.fst

/-- `RemovePackets`. -/
def removePackets (startSeq endSeq : ℤ) : Store :=
  if endSeq - startSeq ≥ kBufferSize then
    st.eraseAll (st.numbers.filter fun seq => seq ≥ startSeq ∧ seq ≤ endSeq)
  else st.eraseAll (seqRange startSeq endSeq)

/-- `RemovePacketsBefore`. -/
def removePacketsBefore : Store := st.eraseAll (st.numbers.filter fun x => x < seq)

end Store

/-! ## Assembling a frame -/

structure Config where
  maxFramePackets : ℕ := 512
  idrOnlyKeyframesAllowed : Bool := true
  maxWaitMs : ℕ := 100

section

variable (cfg : Config) (st : Store) (packet : ParsedPacket)

/-- `max_frame_packets` as the constructor leaves it. -/
def Config.frameLimit : ℕ :=
  if cfg.maxFramePackets = 0 ∨ cfg.maxFramePackets > kBufferSize then kBufferSize
  else cfg.maxFramePackets

/-- One unit in `ValidatePacketUnits`. The state is the header of the unit whose
    fragments are being collected. -/
def validateUnit (fuHeader : Option Byte) (unit : PayloadUnit) : Option (Option Byte) :=
  match unit.unitType with
  | .singleNalu | .stapANalu =>
    if fuHeader.isSome ∨ unit.data = [] then none else some fuHeader
  | .unknown => none
  | .fuAFragment => do
    guard (unit.data ≠ [])
    let header ← (if unit.fuStart then
        if fuHeader.isSome then none else some unit.reconstructedNalHeader
      else fuHeader : Option Byte)
    guard (header = unit.reconstructedNalHeader)
    some (if unit.fuEnd then none else some header)

/-- `ValidatePacketUnits`. -/
def validatePacketUnits (fuHeader : Option Byte) :
    Option (Option Byte) := packet.units.foldlM validateUnit fuHeader

/-- What `AppendPacketUnits` has joined so far. -/
structure Joined where
  fuActive : Bool := false
  fuNalu : List Byte := []
  nalus : List (List Byte) := []

/-- One unit in `AppendPacketUnits`. -/
def appendUnit (j : Joined) (unit : PayloadUnit) : Option Joined :=
  match unit.unitType with
  | .singleNalu | .stapANalu =>
    if j.fuActive ∨ unit.data = [] then none else some { j with nalus := j.nalus ++ [unit.data] }
  | .unknown => none
  | .fuAFragment => do
    guard (unit.data ≠ [])
    let fuNalu ← (if unit.fuStart then
        if j.fuActive then none else some [unit.reconstructedNalHeader]
      else if j.fuActive then some j.fuNalu else none : Option (List Byte))
    guard (fuNalu.head? = some unit.reconstructedNalHeader)
    some (if unit.fuEnd then
        { fuActive := false, fuNalu := [], nalus := j.nalus ++ [fuNalu ++ unit.data] }
      else { fuActive := true, fuNalu := fuNalu ++ unit.data, nalus := j.nalus })

/-- `AppendPacketUnits`. -/
def appendPacketUnits (j : Joined) : Option Joined := packet.units.foldlM appendUnit j

/-- The first slice has to start a picture: units before it do not prove that it
    arrived. -/
def checkSlice (sawVcl : Bool) (unit : PayloadUnit) : Option Bool :=
  if ¬sawVcl ∧ IsSlice unit.nalType then
    if unit.firstSlice then some true else none
  else some sawVcl

/-- What the first pass of `MaybeAssembleFrame` has found so far. -/
structure Checked where
  frame : AccessUnit
  validatingFu : Option Byte := none
  sawVcl : Bool := false

/-- A frame with the marks of one more packet. -/
def AccessUnit.mark (frame : AccessUnit) (packet : ParsedPacket) : AccessUnit :=
  { frame with
    receiveTimeMs := max frame.receiveTimeMs packet.receiveTimeMs
    keyframe := frame.keyframe || packet.hasKeyNalu
    hasSps := frame.hasSps || packet.hasSps
    hasPps := frame.hasPps || packet.hasPps
    hasIdr := frame.hasIdr || packet.hasIdr }

/-- One packet in the first pass of `MaybeAssembleFrame`. -/
def checkPacket (c : Checked) (packet : ParsedPacket) : Option Checked := do
  guard (packet.ssrc = c.frame.ssrc ∧ packet.timestamp = c.frame.timestamp)
  let sawVcl ← packet.units.foldlM checkSlice c.sawVcl
  let validatingFu ← validatePacketUnits packet c.validatingFu
  some { frame := c.frame.mark packet, validatingFu, sawVcl }

/-- The two passes of `MaybeAssembleFrame` over the packets of a frame. -/
def assemble (frame : AccessUnit) (packets : List ParsedPacket) : Option AccessUnit := do
  let c ← packets.foldlM checkPacket { frame }
  guard (c.validatingFu = none)
  guard ¬(c.frame.hasIdr ∧ ¬cfg.idrOnlyKeyframesAllowed ∧ (¬c.frame.hasSps ∨ ¬c.frame.hasPps))
  let j ← packets.foldlM (fun j packet => appendPacketUnits packet j) {}
  guard ¬(j.fuActive ∨ j.nalus = [])
  some { c.frame with nalus := j.nalus, complete := true }

/-- `MaybeAssembleFrame`: the frame of the packets from `startSeq` to `endSeq`, and
    the store without them. -/
def Store.maybeAssembleFrame (startSeq endSeq : ℤ) : Option (AccessUnit × Store) := do
  guard (startSeq ≤ endSeq ∧ endSeq - startSeq + 1 ≤ cfg.frameLimit)
  let packets ← (seqRange startSeq endSeq).mapM fun seq =>
    (st.getPacket seq).map BufferedPacket.packet
  let first ← packets.head?
  let frame ← assemble cfg
    { ssrc := first.ssrc, timestamp := first.timestamp, firstSeq := BitVec.ofInt 16 startSeq,
      lastSeq := BitVec.ofInt 16 endSeq, marker := true } packets
  some (frame, st.removePackets startSeq endSeq)

end

/-! ## The buffer -/

structure PacketBuffer extends Store where
  seqUnwrapper : Unwrapper := {}
  lastContinuousUnwrappedSeq : Option ℤ := none
  lastContinuousTimestamp : Option (BitVec 32) := none
  currentFrameStart : Option ℤ := none
  currentFrameTimestamp : BitVec 32 := 0
  discardingFrame : Bool := false
  waitingForRecovery : Bool := false

/-- A frame that was handed out. The extended numbers of its packets are known where
    it is; the frame itself keeps 16 bits of them. -/
structure Emitted where
  first : ℤ
  last : ℤ
  frame : AccessUnit
  deriving DecidableEq

structure InsertResult where
  inserted : Bool := false
  duplicate : Bool := false
  late : Bool := false
  bufferCollision : Bool := false
  expiredPackets : ℕ := 0
  frames : List Emitted := []

variable (cfg : Config) (b : PacketBuffer) (seq : ℤ) (packet : ParsedPacket) (now : ℤ)

/-- `BeginningOfStream`: a decoder can start with the packet. -/
def BeginningOfStream : Prop :=
  ∃ unit ∈ packet.units, ¬(unit.unitType = .fuAFragment ∧ ¬unit.fuStart) ∧
    (unit.isSps ∨ (cfg.idrOnlyKeyframesAllowed ∧ unit.isIdr ∧ unit.firstSlice))
  deriving Decidable

namespace PacketBuffer

/-- `ClearInternal`. -/
def clearInternal : PacketBuffer := { seqUnwrapper := b.seqUnwrapper }

/-- `Reset`. -/
def reset : PacketBuffer := { b.clearInternal with seqUnwrapper := {} }

/-- The floor in `FlushExpired` after one more entry of `arrivals_`. The code takes
    the packet of the entry without a check. -/
def raiseFloor (floor : Option ℤ × Option (BitVec 32)) (entry : ℤ × ℤ) :
    Option ℤ × Option (BitVec 32) :=
  if ∀ f ∈ floor.1, f ≤ entry.2 then
    (some entry.2, ((b.getPacket entry.2).map fun stored => stored.packet.timestamp).or floor.2)
  else floor

/-- A packet has waited too long at the time `now`. -/
def Expired : Prop :=
  ∃ entry ∈ b.arrivals.head?, ¬(now < entry.1 ∨ now - entry.1 < cfg.maxWaitMs * 1000000)
  deriving Decidable

/-- `FlushExpired`: the number of packets given up, and the buffer without them. -/
def flushExpired : ℕ × PacketBuffer :=
  if b.Expired cfg now then
    let floor := b.arrivals.foldl b.raiseFloor
      (b.lastContinuousUnwrappedSeq, b.lastContinuousTimestamp)
    (b.bufferedPacketCount,
      { b.clearInternal with
        lastContinuousUnwrappedSeq := floor.1
        lastContinuousTimestamp := floor.2
        waitingForRecovery := true })
  else (0, b)

/-- The recovery at the packet `seq` in `CanAdvanceFrom`. -/
def recoverAt : PacketBuffer :=
  { b with
    toStore := b.removePacketsBefore seq
    currentFrameStart := none
    discardingFrame := false
    lastContinuousUnwrappedSeq := some (seq - 1)
    waitingForRecovery := false }

/-- The packet `seq` is directly behind the last continuous one. -/
def Continues : Prop :=
  ¬b.waitingForRecovery ∧ ∃ last ∈ b.lastContinuousUnwrappedSeq, seq = last + 1
  deriving Decidable

/-- The packet `seq` is not beyond the last continuous one. -/
def Behind : Prop := ∃ last ∈ b.lastContinuousUnwrappedSeq, seq ≤ last
  deriving Decidable

/-- `CanAdvanceFrom`: the buffer that advances from the packet `insertedSeq`. -/
def canAdvanceFrom (insertedSeq : ℤ) (packet : ParsedPacket) : Option PacketBuffer :=
  if b.Behind insertedSeq then none
  else if b.Continues insertedSeq then some b
  -- Another slice of the last access unit is no recovery point.
  else if b.lastContinuousUnwrappedSeq.isSome ∧
      b.lastContinuousTimestamp = some packet.timestamp then none
  else if BeginningOfStream cfg packet then some (b.recoverAt insertedSeq)
  else none

/-- `DropCurrentFrame`. -/
def dropCurrentFrame (endSeq : ℤ) : PacketBuffer :=
  { b with
    toStore := match b.currentFrameStart with
      | some start => b.removePackets start endSeq
      | none => b.toStore
    currentFrameStart := none
    discardingFrame := false }

/-- The packet `seq` becomes the last continuous one. A change of the timestamp
    without a marker ends the open frame, and the packet opens the next. -/
def enterFrame (timestamp : BitVec 32) : PacketBuffer :=
  let b := { b with
    lastContinuousUnwrappedSeq := some seq
    lastContinuousTimestamp := some timestamp }
  let b := if b.currentFrameStart.isSome ∧ b.currentFrameTimestamp ≠ timestamp then
      b.dropCurrentFrame (seq - 1)
    else b
  if b.currentFrameStart.isNone then
    { b with currentFrameStart := some seq, currentFrameTimestamp := timestamp }
  else b

/-- A frame with too many packets is discarded. It stays open up to its end, so that
    its rest is not taken for a frame. -/
def limitFrame (start seq : ℤ) : PacketBuffer :=
  if seq - start + 1 > cfg.frameLimit then
    { b with
      toStore := if b.discardingFrame then b.removePackets seq seq else b.removePackets start seq
      discardingFrame := true }
  else b

/-- The marker is at `seq`: the frame is handed out unless it is being discarded. -/
def finishFrame (start seq : ℤ) : List Emitted × PacketBuffer :=
  if b.discardingFrame then ([], b.dropCurrentFrame seq)
  else match b.maybeAssembleFrame cfg start seq with
    | some (frame, store) =>
      ([{ first := start, last := seq, frame }],
        { b with toStore := store }.dropCurrentFrame seq)
    | none => ([], b.dropCurrentFrame seq)

/-- The loop of `FindFrames`: the buffer, the next number and the frames so far. -/
structure Scan where
  buffer : PacketBuffer
  seq : ℤ
  frames : List Emitted := []

/-- A round of `FindFrames` over a packet that is there. -/
def scanPacket : List Emitted × PacketBuffer :=
  let b := b.enterFrame seq packet.timestamp
  let start := b.currentFrameStart.getD seq
  let b := b.limitFrame cfg start seq
  if packet.marker then b.finishFrame cfg start seq else ([], b)

def Scan.Ready (s : Scan) : Prop := (s.buffer.getPacket s.seq).isSome
  deriving Decidable

/-- A round of `FindFrames`. -/
def Scan.round (s : Scan) : Scan :=
  match s.buffer.getPacket s.seq with
  | none => s
  | some stored =>
    let r := s.buffer.scanPacket cfg s.seq stored.packet
    { buffer := r.2, seq := s.seq + 1, frames := s.frames ++ r.1 }

/-- `FindFrames`. -/
def findFrames (insertedSeq : ℤ) : List Emitted × PacketBuffer :=
  match (b.getPacket insertedSeq).bind fun stored =>
      b.canAdvanceFrom cfg insertedSeq stored.packet with
  | none => ([], b)
  | some b' =>
    let s := loop Scan.Ready (Scan.round cfg) kBufferSize { buffer := b', seq := insertedSeq }
    (s.frames, s.buffer)

/-- The packet is stored, and the frames are looked for. -/
def storePacket : List Emitted × PacketBuffer :=
  { b with toStore := b.putPacket seq packet now }.findFrames cfg seq

/-- `InsertPacket` after the number of the packet is extended. -/
def insertAs : InsertResult × PacketBuffer :=
  if b.Behind seq then ({ late := true }, b)
  else match b.buffer.occupant seq with
    | none =>
      let r := b.storePacket cfg seq packet now
      ({ inserted := true, frames := r.1 }, r.2)
    | some (occupant, _) =>
      if occupant = seq then ({ duplicate := true }, b)
      else if occupant > seq then ({ late := true }, b)
      else
        let r := { b with toStore := b.erasePacket occupant }.storePacket cfg seq packet now
        ({ inserted := true, bufferCollision := true, frames := r.1 }, r.2)

/-- `InsertPacket`. -/
def insertPacket : InsertResult × PacketBuffer :=
  if ¬packet.valid ∨ packet.malformed then ({}, b)
  else
    let flushed := b.flushExpired cfg now
    let u := flushed.2.seqUnwrapper.unwrap packet.seq
    let r := { flushed.2 with seqUnwrapper := u.2 }.insertAs cfg u.1 packet now
    ({ r.1 with expiredPackets := flushed.1 }, r.2)

/-! ## Calls -/

/-- A call on the buffer. -/
inductive Call
  | insertPacket (packet : ParsedPacket) (now : ℤ)
  | flushExpired (now : ℤ)
  | reset

/-- The buffer after a call. -/
def step : Call → PacketBuffer
  | .insertPacket packet now => (b.insertPacket cfg packet now).2
  | .flushExpired now => (b.flushExpired cfg now).2
  | .reset => b.reset

end PacketBuffer

end Packetia.H264
