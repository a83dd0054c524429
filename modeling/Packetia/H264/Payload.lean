import Packetia.Lib.Bytes

/-!
# H.264 payloads

A picture is sent as an *access unit*, a list of NAL units. Over RTP a unit
travels alone in a packet, with others in an aggregation packet (STAP-A), or in
fragments over several packets (FU-A). `H264RtpPayloadParser`
(`Common/Depacketizer/H264RtpPayloadParser.cpp`) takes the payload of one packet
apart: `parse` gives its units or fragments, marked with what a packet buffer
needs to know about them.
-/

namespace Packetia.H264

/-- `RtpView`: a packet with a payload. -/
structure RtpView where
  seq : BitVec 16
  ts : BitVec 32
  marker : Bool
  payload : List Byte
  ssrc : BitVec 32
  receiveTimeMs : ℤ := 0

inductive PayloadUnitType
  | unknown
  | singleNalu
  | stapANalu
  | fuAFragment
  deriving DecidableEq

structure PayloadUnit where
  unitType : PayloadUnitType := .unknown
  nalType : Byte := 0
  data : List Byte := []
  fuStart : Bool := false
  fuEnd : Bool := false
  reconstructedNalHeader : Byte := 0
  /-- The unit starts the first slice of a picture. -/
  firstSlice : Bool := false
  isSps : Bool := false
  isPps : Bool := false
  isIdr : Bool := false
  isKey : Bool := false

structure ParsedPacket where
  valid : Bool := false
  malformed : Bool := false
  ssrc : BitVec 32 := 0
  seq : BitVec 16 := 0
  timestamp : BitVec 32 := 0
  receiveTimeMs : ℤ := 0
  marker : Bool := false
  beginsFrame : Bool := false
  endsFrame : Bool := false
  hasKeyNalu : Bool := false
  hasSps : Bool := false
  hasPps : Bool := false
  hasIdr : Bool := false
  units : List PayloadUnit := []

/-- A whole picture, as its NAL units. -/
structure AccessUnit where
  ssrc : BitVec 32 := 0
  timestamp : BitVec 32 := 0
  receiveTimeMs : ℤ := 0
  firstSeq : BitVec 16 := 0
  lastSeq : BitVec 16 := 0
  complete : Bool := false
  broken : Bool := false
  marker : Bool := false
  keyframe : Bool := false
  hasSps : Bool := false
  hasPps : Bool := false
  hasIdr : Bool := false
  nalus : List (List Byte) := []
  deriving DecidableEq

/-! ## Types of units -/

variable (view : RtpView) (out : ParsedPacket)

def nalTypeOf (nalHeader : Byte) : Byte := nalHeader &&& 0x1F

def idrType : Byte := 5
def spsType : Byte := 7
def ppsType : Byte := 8
def stapAType : Byte := 24
def fuAType : Byte := 28

/-- An ordinary slice. -/
def IsSlice (nalType : Byte) : Prop := nalType = 1 ∨ nalType = 5
  deriving Decidable

/-! ## The parser -/

/-- `FillCommon`. -/
def fillCommon : ParsedPacket :=
  { ssrc := view.ssrc, seq := view.seq, timestamp := view.ts, marker := view.marker,
    receiveTimeMs := view.receiveTimeMs }

/-- The marks of a unit in `UpdateKeyInfo`. -/
@[simps] def PayloadUnit.withKeyInfo (unit : PayloadUnit) : PayloadUnit :=
  { unit with
    isSps := unit.nalType = spsType
    isPps := unit.nalType = ppsType
    isIdr := unit.nalType = idrType
    isKey := unit.nalType = idrType ∨ unit.nalType = spsType ∨ unit.nalType = ppsType }

/-- `UpdateKeyInfo`, and the unit is added to the packet. -/
def ParsedPacket.addUnit (unit : PayloadUnit) : ParsedPacket :=
  { out with
    hasSps := out.hasSps || unit.withKeyInfo.isSps
    hasPps := out.hasPps || unit.withKeyInfo.isPps
    hasIdr := out.hasIdr || unit.withKeyInfo.isIdr
    hasKeyNalu := out.hasKeyNalu || unit.withKeyInfo.isKey
    units := out.units ++ [unit.withKeyInfo] }

def ParsedPacket.reject : Bool × ParsedPacket := (false, { out with malformed := true })

/-- The unit of a packet that is one NAL unit. -/
def singleUnit (nalu : List Byte) : PayloadUnit where
  unitType := .singleNalu
  nalType := nalTypeOf (byteAt nalu 0)
  firstSlice := IsSlice (nalTypeOf (byteAt nalu 0)) ∧ byteAt nalu 1 &&& 0x80 ≠ 0
  data := nalu

def parseSingleNalu : Bool × ParsedPacket :=
  if IsSlice (nalTypeOf (byteAt view.payload 0)) ∧ view.payload.length < 2 then out.reject
  else (true, { out.addUnit (singleUnit view.payload) with
    valid := true, beginsFrame := false, endsFrame := view.marker })

/-- A unit of an aggregation packet. -/
def stapUnit (nalu : List Byte) : PayloadUnit := { singleUnit nalu with unitType := .stapANalu }

/-- The units of an aggregation packet, from `rest` on. -/
def parseStapAFrom (view : RtpView) : ℕ → List Byte → ParsedPacket → Bool × ParsedPacket
  | 0, _, out => out.reject
  | fuel + 1, rest, out =>
    if 2 ≤ rest.length then
      let naluSize := (u16At rest 0).toNat
      let nalu := (rest.drop 2).take naluSize
      if naluSize = 0 ∨ 2 + naluSize > rest.length then out.reject
      else if byteAt nalu 0 &&& 0x80 ≠ 0 ∨ nalTypeOf (byteAt nalu 0) = 0 ∨
          (nalTypeOf (byteAt nalu 0)).toNat ≥ 24 ∨
          (IsSlice (nalTypeOf (byteAt nalu 0)) ∧ naluSize < 2) then out.reject
      else parseStapAFrom view fuel (rest.drop (2 + naluSize)) (out.addUnit (stapUnit nalu))
    else if rest ≠ [] ∨ out.units = [] then out.reject
    else (true, { out with valid := true, endsFrame := view.marker })

/-- `ParseStapA`. Each round consumes at least three bytes. -/
def parseStapA : Bool × ParsedPacket :=
  parseStapAFrom view (view.payload.length + 1) (view.payload.drop 1) out

/-- The fragment in the payload of an FU-A packet. -/
def fuUnit (payload : List Byte) : PayloadUnit where
  unitType := .fuAFragment
  nalType := byteAt payload 1 &&& 0x1F
  fuStart := byteAt payload 1 &&& 0x80 ≠ 0
  fuEnd := byteAt payload 1 &&& 0x40 ≠ 0
  reconstructedNalHeader := (byteAt payload 0 &&& 0xE0) ||| (byteAt payload 1 &&& 0x1F)
  firstSlice := byteAt payload 1 &&& 0x80 ≠ 0 ∧ IsSlice (byteAt payload 1 &&& 0x1F) ∧
    byteAt payload 2 &&& 0x80 ≠ 0
  data := payload.drop 2

def parseFuA : Bool × ParsedPacket :=
  if view.payload.length < 3 then out.reject
  else if byteAt view.payload 1 &&& 0x20 ≠ 0 ∨
      ((fuUnit view.payload).fuStart ∧ (fuUnit view.payload).fuEnd) ∨
      byteAt view.payload 1 &&& 0x1F = 0 ∨ (byteAt view.payload 1 &&& 0x1F).toNat ≥ 24 then
    out.reject
  else (true, { out.addUnit (fuUnit view.payload) with
    valid := true
    beginsFrame := (fuUnit view.payload).fuStart
    endsFrame := (fuUnit view.payload).fuEnd && view.marker })

/-- `Parse`. -/
def parse : Bool × ParsedPacket :=
  if view.payload = [] then (fillCommon view).reject
  else if byteAt view.payload 0 &&& 0x80 ≠ 0 then (fillCommon view).reject
  else if 1 ≤ (nalTypeOf (byteAt view.payload 0)).toNat ∧
      (nalTypeOf (byteAt view.payload 0)).toNat ≤ 23 then parseSingleNalu view (fillCommon view)
  else if nalTypeOf (byteAt view.payload 0) = stapAType then parseStapA view (fillCommon view)
  else if nalTypeOf (byteAt view.payload 0) = fuAType then parseFuA view (fillCommon view)
  else (fillCommon view).reject

end Packetia.H264
