import Packetia.Lib.Bytes
import Packetia.Lib.Partial

/-!
# STUN messages

`StunCodec` (`protocol/ice/stun/Stun.cpp`). A message is a header of 20 bytes and a body of
attributes. An attribute has a type, a length and a value, padded to a multiple of four bytes.
Two attributes are about the bytes before them: MESSAGE-INTEGRITY has an HMAC-SHA1 of them,
taken while the length in the header counts the message up to the end of this attribute, and
FINGERPRINT, the last attribute, a checksum.

`hmac` is HMAC-SHA1, of a key and a text.
-/

namespace Packetia.Stun

open BitVec (ofNat)

/-! ## Constants -/

def kMagicCookie : BitVec 32 := 0x2112A442

def kFingerprintXor : BitVec 32 := 0x5354554e

def kHeaderSize : ℕ := 20

def kAttrHeaderSize : ℕ := 4

def kMessageIntegritySize : ℕ := 20

inductive StunClass
  | request
  | indication
  | successResponse
  | errorResponse
  deriving DecidableEq

/-- The number of a class, in two bits. -/
def StunClass.code : StunClass → BitVec 16
  | .request => 0
  | .indication => 1
  | .successResponse => 2
  | .errorResponse => 3

/-- A method is any number; these have a name. -/
abbrev StunMethod := BitVec 16

namespace StunMethod

def binding : StunMethod := 0x001
def allocate : StunMethod := 0x003
def refresh : StunMethod := 0x004
def send : StunMethod := 0x006
def data : StunMethod := 0x007
def createPermission : StunMethod := 0x008
def channelBind : StunMethod := 0x009

end StunMethod

inductive AttrType
  | mappedAddress
  | username
  | messageIntegrity
  | errorCode
  | unknownAttributes
  | channelNumber
  | lifetime
  | xorPeerAddress
  | data
  | realm
  | nonce
  | xorRelayedAddress
  | requestedAddressFamily
  | requestedTransport
  | messageIntegritySha256
  | xorMappedAddress
  | priority
  | useCandidate
  | software
  | alternateServer
  | fingerprint
  | iceControlled
  | iceControlling
  deriving DecidableEq

def AttrType.code : AttrType → BitVec 16
  | .mappedAddress => 0x0001
  | .username => 0x0006
  | .messageIntegrity => 0x0008
  | .errorCode => 0x0009
  | .unknownAttributes => 0x000A
  | .channelNumber => 0x000C
  | .lifetime => 0x000D
  | .xorPeerAddress => 0x0012
  | .data => 0x0013
  | .realm => 0x0014
  | .nonce => 0x0015
  | .xorRelayedAddress => 0x0016
  | .requestedAddressFamily => 0x0017
  | .requestedTransport => 0x0019
  | .messageIntegritySha256 => 0x001C
  | .xorMappedAddress => 0x0020
  | .priority => 0x0024
  | .useCandidate => 0x0025
  | .software => 0x8022
  | .alternateServer => 0x8023
  | .fingerprint => 0x8028
  | .iceControlled => 0x8029
  | .iceControlling => 0x802A

inductive IpFamily
  | ipv4
  | ipv6
  deriving DecidableEq

/-- An address; of an IPv4 address only the first four bytes of `ip` count. -/
structure IpEndpoint where
  family : IpFamily := .ipv4
  port : BitVec 16 := 0
  ip : Octets 16 := octetsAt [] 0 16

structure XorMappedAddress where
  isIpv6 : Bool := false
  port : BitVec 16 := 0
  ip : Octets 16 := octetsAt [] 0 16

abbrev TxId := Octets 12

/-- An attribute of a message, by its place. -/
structure AttrView where
  type : BitVec 16
  len : BitVec 16
  valueOffset : ℕ
  deriving DecidableEq

/-- An attribute to be written. -/
structure StunAttribute where
  type : BitVec 16
  value : List Byte

/-- A message that has been parsed; `raw` are its bytes. -/
structure StunMessageInfo where
  typeRaw : BitVec 16
  length : BitVec 16
  magicCookie : BitVec 32
  txid : TxId
  method : StunMethod
  klass : StunClass
  attrs : List AttrView
  raw : List Byte

/-! ## Attributes -/

/-- `Pad4`. -/
def pad4 (x : ℕ) : ℕ := (x + 3) / 4 * 4

theorem le_pad4 (n : ℕ) : n ≤ pad4 n := by
  rw [pad4]
  omega

theorem pad4_mod (n : ℕ) : pad4 n % 4 = 0 := Nat.mul_mod_left ..

/-- The loop of `FindAttr`. Nothing but FINGERPRINT is found behind MESSAGE-INTEGRITY. -/
def findIn (t : BitVec 16) : List AttrView → Option AttrView
  | [] => none
  | a :: rest =>
    if a.type = t then some a
    else if a.type = AttrType.messageIntegrity.code ∧ t ≠ AttrType.fingerprint.code then none
    else findIn t rest

namespace StunMessageInfo

variable (msg : StunMessageInfo)

def attrValue (a : AttrView) : List Byte :=
  if a.valueOffset + a.len.toNat > msg.raw.length then []
  else (msg.raw.drop a.valueOffset).take a.len.toNat

def findAttr (t : AttrType) : Option AttrView := findIn t.code msg.attrs

def hasAttr (t : AttrType) : Bool := (msg.findAttr t).isSome

def isBindingRequest : Bool := msg.method = StunMethod.binding ∧ msg.klass = .request

def IsAttrInBounds (a : AttrView) : Prop :=
  ¬a.valueOffset > msg.raw.length ∧ ¬a.valueOffset + a.len.toNat > msg.raw.length
  deriving Decidable

/-- `FindLastAttr`. -/
def findLastAttr (t : AttrType) : Option AttrView :=
  msg.attrs.reverse.find? fun a => a.type = t.code

end StunMessageInfo

/-! ## Parsing -/

def IsStun (p : List Byte) : Prop :=
  ¬p.length < kHeaderSize ∧ ¬byteAt p 0 &&& 0xC0 ≠ 0 ∧ ¬u32At p 4 ≠ kMagicCookie ∧
    ¬u16At p 2 &&& 0x3 ≠ 0 ∧ ¬kHeaderSize + (u16At p 2).toNat > p.length
  deriving Decidable

def decodeMethod (typeRaw : BitVec 16) : StunMethod :=
  (typeRaw &&& 0x000F) ||| ((typeRaw &&& 0x00E0) >>> 1) ||| ((typeRaw &&& 0x3E00) >>> 2)

def decodeClass (typeRaw : BitVec 16) : StunClass :=
  let c₀ := (typeRaw >>> 4) &&& 0x1
  let c₁ := (typeRaw >>> 8) &&& 0x1
  if c₁ = 0 then if c₀ = 0 then .request else .indication
  else if c₀ = 0 then .successResponse else .errorResponse

/-- The loop of `Parse` from `off` on, with at most `n` rounds left. -/
def parseAttrs (p : List Byte) (stop : ℕ) : (n off : ℕ) → Option (List AttrView)
  | 0, off => if off = stop then some [] else none
  | n + 1, off =>
    if off < stop then
      if off + kAttrHeaderSize > stop then none
      else
        let a : AttrView := {
          type := u16At p off
          len := u16At p (off + 2)
          valueOffset := off + kAttrHeaderSize }
        let padded := pad4 a.len.toNat
        if off + kAttrHeaderSize + padded > stop then none
        else (parseAttrs p stop n (off + kAttrHeaderSize + padded)).map (a :: ·)
    else if off = stop then some []
    else none

/-- `Parse`. A round of its loop takes four bytes at least, so there are fewer of them than the
    message has bytes. -/
def parse (p : List Byte) : Option StunMessageInfo :=
  if IsStun p then
    let stop := kHeaderSize + (u16At p 2).toNat
    (parseAttrs p stop stop kHeaderSize).map fun attrs => {
      typeRaw := u16At p 0
      length := u16At p 2
      magicCookie := u32At p 4
      txid := octetsAt p 8 12
      method := decodeMethod (u16At p 0)
      klass := decodeClass (u16At p 0)
      attrs
      raw := p.take stop }
  else none

/-! ## Decoding attributes -/

variable (out : List Byte) (msg : StunMessageInfo)

def decodeUsername : Option (List Byte) := do
  let a ← msg.findAttr .username
  guard (msg.IsAttrInBounds a)
  guard (msg.attrValue a ≠ [])
  pure (msg.attrValue a)

def decodePriority : Option (BitVec 32) := do
  let a ← msg.findAttr .priority
  guard (msg.IsAttrInBounds a ∧ ¬a.len ≠ 4)
  pure (u32At msg.raw a.valueOffset)

/-- A role attribute, with its tie breaker. -/
def decodeRole (t : AttrType) (msg : StunMessageInfo) : Option (BitVec 64) := do
  let a ← msg.findAttr t
  guard (msg.IsAttrInBounds a ∧ ¬a.len ≠ 8)
  pure (u64At msg.raw a.valueOffset)

def decodeIceControlling : StunMessageInfo → Option (BitVec 64) := decodeRole .iceControlling

def decodeIceControlled : StunMessageInfo → Option (BitVec 64) := decodeRole .iceControlled

def hasUseCandidate : Bool := msg.hasAttr .useCandidate

/-- The magic cookie and the transaction, by which addresses are xored. -/
def addressMask (txid : TxId) : List Byte := u32Bytes kMagicCookie ++ txid.1

/-- The upper half of the magic cookie, by which ports are xored. -/
def portMask : BitVec 16 := kMagicCookie.extractLsb' 16 16

def decodeXorAddress (type : AttrType) : Option XorMappedAddress := do
  guard (type = .xorMappedAddress ∨ type = .xorPeerAddress ∨ type = .xorRelayedAddress)
  let a ← msg.findAttr type
  guard (msg.IsAttrInBounds a)
  let v := a.valueOffset
  guard ¬a.len.toNat < 4
  let port := u16At msg.raw (v + 2) ^^^ portMask
  let mask := addressMask msg.txid
  if byteAt msg.raw (v + 1) = 0x01 then do
    guard ¬a.len ≠ 8
    pure { isIpv6 := false, port, ip := ⟨List.ofFn fun i : Fin 16 =>
      if i.1 < 4 then byteAt msg.raw (v + 4 + i) ^^^ byteAt mask i else 0, List.length_ofFn⟩ }
  else if byteAt msg.raw (v + 1) = 0x02 then do
    guard ¬a.len ≠ 20
    pure { isIpv6 := true, port, ip := ⟨List.ofFn fun i : Fin 16 =>
      byteAt msg.raw (v + 4 + i) ^^^ byteAt mask i, List.length_ofFn⟩ }
  else none

/-! ## Integrity and fingerprint -/

/-- A round of the inner loop of `Crc32`. -/
def crcBit (crc : BitVec 32) : BitVec 32 := (crc >>> 1) ^^^ (0xEDB88320 &&& -(crc &&& 1))

/-- A round of the outer loop of `Crc32`. -/
def crcByte (crc : BitVec 32) (b : Byte) : BitVec 32 := crcBit^[8] (crc ^^^ b.setWidth 32)

def crc32 (data : List Byte) : BitVec 32 := ~~~(data.foldl crcByte 0xFFFFFFFF)

def computeFingerprint (data : List Byte) : BitVec 32 := crc32 data ^^^ kFingerprintXor

def verifyFingerprint : Bool :=
  match msg.findLastAttr .fingerprint with
  | none => false
  | some a =>
    let attrStart := a.valueOffset - kAttrHeaderSize
    msg.IsAttrInBounds a ∧ ¬a.len ≠ 4 ∧ ¬attrStart + kAttrHeaderSize + 4 ≠ msg.raw.length ∧
      u32At msg.raw a.valueOffset = computeFingerprint (msg.raw.take attrStart)

/-- HMAC-SHA1, of a text under a key. -/
abbrev Hmac := (key text : List Byte) → Octets 20

section Hmac

variable (hmac : Hmac)

def verifyMessageIntegrity (msg : StunMessageInfo) (key : List Byte) : Bool :=
  match msg.findAttr .messageIntegrity with
  | none => false
  | some a =>
    let miAttrStart := a.valueOffset - kAttrHeaderSize
    let newLen := ofNat 16 (miAttrStart + 24 - kHeaderSize)
    let tmp := overwrite (msg.raw.take miAttrStart) 2 (u16Bytes newLen)
    msg.IsAttrInBounds a ∧ ¬a.len ≠ 20 ∧ ¬miAttrStart + kAttrHeaderSize + 20 > msg.raw.length ∧
      (hmac key tmp).1 = (msg.raw.drop a.valueOffset).take 20

/-! ## Building -/

def encodeType (method : StunMethod) (klass : StunClass) : BitVec 16 :=
  (method &&& 0x000F) ||| ((method &&& 0x0070) <<< 1) ||| ((method &&& 0x0F80) <<< 2) |||
    ((klass.code &&& 0x1) <<< 4) ||| (((klass.code >>> 1) &&& 0x1) <<< 8)

def appendAttr (type : BitVec 16) (val : List Byte) (len : BitVec 16) : List Byte :=
  out ++ (u16Bytes type ++ u16Bytes len ++ val.take len.toNat ++
    List.replicate (pad4 len.toNat - len.toNat) 0)

/-- `UpdateMessageLength`. -/
def updateMessageLength : Option (List Byte) :=
  if out.length < kHeaderSize then none
  else if out.length - kHeaderSize > 0xFFFF then none
  else some (overwrite out 2 (u16Bytes (ofNat 16 (out.length - kHeaderSize))))

/-- `AppendMessageIntegrityAttr`. -/
def appendMessageIntegrityAttr (out key : List Byte) : Option (List Byte) := do
  let miAttrStart := out.length
  let out := out ++ u16Bytes AttrType.messageIntegrity.code ++
    u16Bytes (ofNat 16 kMessageIntegritySize) ++ List.replicate kMessageIntegritySize 0
  let out ← updateMessageLength out
  pure (overwrite out (miAttrStart + kAttrHeaderSize) (hmac key (out.take miAttrStart)).1)

/-- `AppendFingerprintAttr`. -/
def appendFingerprintAttr : Option (List Byte) := do
  let fpAttrStart := out.length
  let out := out ++ u16Bytes AttrType.fingerprint.code ++ u16Bytes 4 ++ List.replicate 4 0
  let out ← updateMessageLength out
  pure (overwrite out (fpAttrStart + kAttrHeaderSize)
    (u32Bytes (computeFingerprint (out.take fpAttrStart))))

/-- The header of a message without a body. -/
def header (method : StunMethod) (klass : StunClass) (txid : TxId) : List Byte :=
  u16Bytes (encodeType method klass) ++ u16Bytes 0 ++ u32Bytes kMagicCookie ++ txid.1

def buildBindingRequest (txid : TxId) : List Byte := header .binding .request txid

/-- `EncodeXorAddress`. -/
def encodeXorAddress (ep : IpEndpoint) (txid : TxId) : List Byte :=
  let mask := addressMask txid
  match ep.family with
  | .ipv4 => [0, 0x01] ++ u16Bytes (ep.port ^^^ portMask) ++
      List.ofFn fun i : Fin 4 => byteAt ep.ip.1 i ^^^ byteAt mask i
  | .ipv6 => [0, 0x02] ++ u16Bytes (ep.port ^^^ portMask) ++
      List.ofFn fun i : Fin 16 => byteAt ep.ip.1 i ^^^ byteAt mask i

/-- The first loop of `BuildMessage`, with the size of the body so far. -/
def bodySize : ℕ → List StunAttribute → Option ℕ
  | size, [] => some size
  | size, attr :: rest =>
    if attr.type = AttrType.messageIntegrity.code ∨
        attr.type = AttrType.messageIntegritySha256.code ∨
        attr.type = AttrType.fingerprint.code ∨ attr.value.length > 0xFFFF then none
    else if size + (4 + pad4 attr.value.length) > 0xFFFF then none
    else bodySize (size + (4 + pad4 attr.value.length)) rest

/-- The second loop of `BuildMessage`. -/
def appendAttrs (attributes : List StunAttribute) : List Byte :=
  attributes.foldl (fun out attr =>
    appendAttr out attr.type attr.value (ofNat 16 attr.value.length)) out

/-- MESSAGE-INTEGRITY, if there is a key, FINGERPRINT, if there is to be one, and the length. -/
def finish (buf integrityKey : List Byte) (addFingerprint : Bool) : Option (List Byte) := do
  let buf ← if integrityKey = [] then pure buf else appendMessageIntegrityAttr hmac buf integrityKey
  let buf ← if addFingerprint then appendFingerprintAttr buf else pure buf
  updateMessageLength buf

def buildMessage (method : StunMethod) (klass : StunClass) (txid : TxId)
    (attributes : List StunAttribute) (integrityKey : List Byte) (addFingerprint : Bool) :
    Option (List Byte) := do
  guard ¬(method.toNat > 0x0FFF ∨ integrityKey.length > 2 ^ 31 - 1)
  let _ ← bodySize ((if integrityKey = [] then 0 else 24) + if addFingerprint then 8 else 0)
    attributes
  let buf := overwrite (buildBindingRequest txid) 0 (u16Bytes (encodeType method klass))
  finish hmac (appendAttrs buf attributes) integrityKey addFingerprint

/-- `BuildIceBindingSuccess`, into a buffer of `cap` bytes. -/
def buildIceBindingSuccess (req : StunMessageInfo) (mappedAddr : IpEndpoint)
    (password : List Byte) (addFingerprint : Bool) (cap : ℕ) : Option (List Byte) := do
  let value := encodeXorAddress mappedAddr req.txid
  let buf := appendAttr (header .binding .successResponse req.txid) AttrType.xorMappedAddress.code
    value (ofNat 16 value.length)
  let buf ← finish hmac buf password addFingerprint
  guard ¬buf.length > cap
  pure buf

/-- `StunErrorCode`. -/
structure StunErrorCode where
  code : ℕ
  reason : List Byte := []
  unknownAttributes : List (BitVec 16) := []

/-- `BuildBindingError`, into a buffer of `cap` bytes. -/
def buildBindingError (req : StunMessageInfo) (err : StunErrorCode) (password : List Byte)
    (cap : ℕ) : Option (List Byte) := do
  let val := [0, 0, ofNat 8 (err.code / 100), ofNat 8 (err.code % 100)] ++ err.reason
  let buf := appendAttr (header .binding .errorResponse req.txid) AttrType.errorCode.code val
    (ofNat 16 val.length)
  let unknown := err.unknownAttributes.flatMap u16Bytes
  let buf := if err.unknownAttributes = [] then buf
    else appendAttr buf AttrType.unknownAttributes.code unknown (ofNat 16 unknown.length)
  let buf ← finish hmac buf password true
  guard ¬buf.length > cap
  pure buf

end Hmac

end Packetia.Stun
