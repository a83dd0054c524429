import Packetia.Lib.OrdMap
import Packetia.Sdp.Description

/-!
# Codecs of an offer and an answer

`SdpCodec` (`sdp/SdpCodec.cpp`): whether a codec of an offer and one of an answer go together, and
with which parameters.
-/

namespace Packetia.Sdp

/-! ## Format parameters -/

/-- The parameters of a format, by name. -/
abbrev Parameters := OrdMap Text Text

def isTokenCharacter (c : Char) : Bool :=
  'a' ≤ c && c ≤ 'z' || 'A' ≤ c && c ≤ 'Z' || '0' ≤ c && c ≤ '9' ||
    ("!#$%&'*+-.^_`|~" : Text).contains c

def Parameters.find (parameters : Parameters) (key : Text) : Option Text :=
  (parameters.entries.find? fun entry => entry.1 = key).map Prod.snd

variable (parameters : Parameters)

/-- `answer[key] = value` for a key that is not there yet. -/
def Parameters.add (key value : Text) : Parameters := parameters.emplace key value

/-- The rounds of `ParseParameters`: `remaining` has no blanks at its ends. A round drops at least
    one character. -/
def parseRemaining : ℕ → Text → Parameters → Option Parameters
  | 0, _, result => some result
  | n + 1, remaining, result =>
    if remaining = [] then some result
    else do
      let parameter := trim (upToFirst (· = ';') remaining)
      guard (parameter.contains '=' = true)
      let key := trim (upToFirst (· = '=') parameter)
      let value := trim (afterFirst (· = '=') parameter)
      guard (key ≠ [] ∧ value ≠ [] ∧ key.all isTokenCharacter)
      guard (result.find (lower key) = none)
      let result := result.add (lower key) value
      match fromFirst (· = ';') remaining with
      | [] => some result
      | _ :: rest => parseRemaining n (trim rest) result

def parseParameters (fmtp : Text) : Option Parameters :=
  if fmtp.any isControl then none
  else parseRemaining (fmtp.length + 1) (trim fmtp) .empty

def serializeParameters : Text :=
  [';'].intercalate (parameters.entries.map fun entry => entry.1 ++ '=' :: entry.2)

/-- A number between two bounds. -/
def parseNumber (value : Text) (minimum maximum : ℕ) : Option ℕ :=
  (number value).filter fun n => minimum ≤ n ∧ n ≤ maximum

def booleanParameter (key : Text) : Option Bool :=
  match parameters.find key with
  | none => some false
  | some value =>
    if value = "0" then some false else if value = "1" then some true else none

/-! ## H264 -/

inductive H264Profile
  | constrainedBaseline
  | baseline
  | main
  | extended
  | high
  | constrainedHigh
  deriving DecidableEq

structure ProfilePattern where
  idc : BitVec 8
  mask : BitVec 8
  value : BitVec 8
  profile : H264Profile

def profiles : List ProfilePattern :=
  [⟨0x42, 0x4f, 0x40, .constrainedBaseline⟩,
    ⟨0x4d, 0x8f, 0x80, .constrainedBaseline⟩,
    ⟨0x58, 0xcf, 0xc0, .constrainedBaseline⟩,
    ⟨0x42, 0x4f, 0x00, .baseline⟩,
    ⟨0x58, 0xcf, 0x80, .baseline⟩,
    ⟨0x4d, 0xaf, 0x00, .main⟩,
    ⟨0x58, 0xcf, 0x00, .extended⟩,
    ⟨0x64, 0xff, 0x00, .high⟩,
    ⟨0x64, 0xff, 0x0c, .constrainedHigh⟩]

structure H264ProfileLevel where
  profile : H264Profile
  idc : BitVec 8
  iop : BitVec 8
  /-- Ordinary levels use `level_idc * 10`; 105 places 1b between 1 and 1.1. -/
  level : ℕ

def hexDigit (c : Char) : Option ℕ :=
  if '0' ≤ c ∧ c ≤ '9' then some (c.toNat - '0'.toNat)
  else if 'a' ≤ c ∧ c ≤ 'f' then some (c.toNat - 'a'.toNat + 10)
  else if 'A' ≤ c ∧ c ≤ 'F' then some (c.toNat - 'A'.toNat + 10)
  else none

/-- The profiles that signal Level 1b through `constraint_set3`. -/
def legacyLevel1b (idc : BitVec 8) : Bool := idc = 0x42 || idc = 0x4d || idc = 0x58

def levelIdcs : List (BitVec 8) :=
  [10, 11, 12, 13, 20, 21, 22, 30, 31, 32, 40, 41, 42, 50, 51, 52, 60, 61, 62]

def h264Level (idc iop levelIdc : BitVec 8) : Option ℕ :=
  if legacyLevel1b idc ∧ levelIdc = 11 ∧ iop &&& 0x10 ≠ 0 ∨
      legacyLevel1b idc = false ∧ levelIdc = 9 then some 105
  else if levelIdcs.contains levelIdc then some (levelIdc.toNat * 10)
  else none

def parseH264ProfileLevel : Option H264ProfileLevel := do
  let value := (parameters.find "profile-level-id").getD "42e01f"
  guard (value.length = 6)
  let digits ← value.mapM hexDigit
  let bits : BitVec 32 := .ofNat 32 (digits.foldl (fun bits digit => bits * 16 + digit) 0)
  let idc := bits.extractLsb' 16 8
  let iop := bits.extractLsb' 8 8
  let pattern ← profiles.find? fun pattern =>
    idc = pattern.idc ∧ iop &&& pattern.mask = pattern.value
  let level ← h264Level idc iop (bits.extractLsb' 0 8)
  pure { profile := pattern.profile, idc, iop, level }

def hexByte (byte : BitVec 8) : Text :=
  [Nat.digitChar (byte.toNat / 16), Nat.digitChar (byte.toNat % 16)]

def h264ProfileLevelString (offered : H264ProfileLevel) (level : ℕ) : Text :=
  let levelIdc : BitVec 8 := .ofNat 8 (level / 10)
  if legacyLevel1b offered.idc then
    let iop := offered.iop &&& ~~~0x10
    if level = 105 then hexByte offered.idc ++ hexByte (iop ||| 0x10) ++ hexByte 11
    else hexByte offered.idc ++ hexByte iop ++ hexByte levelIdc
  else
    hexByte offered.idc ++ hexByte offered.iop ++ hexByte (if level = 105 then 9 else levelIdc)

def h264Keys : List Text := ["profile-level-id", "packetization-mode", "level-asymmetry-allowed"]

/-- The parameter `key` is there on one side at least. -/
def eitherHas (remote own : Parameters) (key : Text) : Bool :=
  (remote.find key).isSome || (own.find key).isSome

/-- `value` at `key`, if one side has the parameter. -/
def addIfPresent (remote own : Parameters) (key value : Text) (answer : Parameters) : Parameters :=
  if eitherHas remote own key then answer.add key value else answer

def flagText (flag : Bool) : Text := if flag then "1" else "0"

def negotiateH264 (remote own : Parameters) : Option Parameters := do
  guard (remote.keys.all h264Keys.contains ∧ own.keys.all h264Keys.contains)
  let remoteMode ← booleanParameter remote "packetization-mode"
  let localMode ← booleanParameter own "packetization-mode"
  guard (remoteMode = localMode)
  let remoteAsymmetry ← booleanParameter remote "level-asymmetry-allowed"
  let localAsymmetry ← booleanParameter own "level-asymmetry-allowed"
  let remoteProfile ← parseH264ProfileLevel remote
  let localProfile ← parseH264ProfileLevel own
  guard (remoteProfile.profile = localProfile.profile)
  let asymmetry := remoteAsymmetry && localAsymmetry
  let level := if asymmetry then localProfile.level
    else min remoteProfile.level localProfile.level
  pure (addIfPresent remote own "level-asymmetry-allowed" (flagText asymmetry)
    (addIfPresent remote own "packetization-mode" (flagText remoteMode)
      (addIfPresent remote own "profile-level-id" (h264ProfileLevelString remoteProfile level)
        .empty)))

/-! ## Opus -/

def opusFlags : List Text := ["stereo", "sprop-stereo", "cbr", "useinbandfec", "usedtx"]

/-- The bounds of a number. -/
def opusRange (key : Text) : Option (ℕ × ℕ) :=
  if key = "maxplaybackrate" ∨ key = "sprop-maxcapturerate" then some (8000, 48000)
  else if key = "maxaveragebitrate" then some (6000, 510000)
  else if key = "minptime" then some (3, 120)
  else none

/-- One parameter of `OpusParameters`. Unknown ones are ignored. -/
def opusParameter (supported : Parameters) (parameter : Text × Text) : Option Parameters :=
  if opusFlags.contains parameter.1 then
    if parameter.2 = "0" ∨ parameter.2 = "1" then some (supported.add parameter.1 parameter.2)
    else none
  else match opusRange parameter.1 with
    | none => some supported
    | some (minimum, maximum) =>
      (parseNumber parameter.2 minimum maximum).map fun n => supported.add parameter.1 (decimal n)

def opusParameters : Option Parameters := parameters.entries.foldlM opusParameter .empty

/-! ## Offer and answer -/

def isRepairCodec (name : Text) : Bool :=
  name = "rtx" || name = "red" || name = "ulpfec" || name = "flexfec" || name = "flexfec-03" ||
    name = "parityfec" || name = "fec"

/-- What a codec of the name `name` answers with. -/
def negotiateParameters (name : Text) (own : RtpCodecParameters)
    (remoteParameters localParameters : Parameters) : Option Parameters :=
  if name = "h264" then
    if own.clockRate ≠ 90000 ∨ own.channels > 1 then none
    else negotiateH264 remoteParameters localParameters
  else if name = "opus" then
    if own.clockRate ≠ 48000 ∨ own.channels ≠ 2 then none
    else do
      let _ ← opusParameters remoteParameters
      opusParameters localParameters
  else if (name = "pcmu" ∨ name = "pcma") ∧ (own.clockRate ≠ 8000 ∨ own.channels > 1) then
    none
  else if name = "vp8" ∧ (own.clockRate ≠ 90000 ∨ own.channels > 1) then none
  else if remoteParameters ≠ localParameters then none
  else some localParameters

/-- `SdpCodec::Negotiate`. -/
def negotiate (remote own : RtpCodecParameters) : Option RtpCodecParameters := do
  let name := lower own.encodingName
  guard (name ≠ [] ∧ name.all isTokenCharacter ∧ name = lower remote.encodingName ∧
    isRepairCodec name = false ∧ 0 ≤ remote.payloadType ∧ remote.payloadType ≤ 127 ∧
    0 < own.clockRate ∧ remote.clockRate = own.clockRate ∧ 0 ≤ own.channels ∧
    0 ≤ remote.channels ∧ max 1 remote.channels = max 1 own.channels)
  let remoteParameters ← parseParameters remote.fmtp
  let localParameters ← parseParameters own.fmtp
  let answer ← negotiateParameters name own remoteParameters localParameters
  pure { own with
    payloadType := remote.payloadType, fmtp := serializeParameters answer, rtcpFeedback := [] }

/-- `SdpCodec::SameFormat`. -/
def sameFormat (a b : RtpCodecParameters) : Bool :=
  lower a.encodingName = lower b.encodingName && a.clockRate = b.clockRate &&
    max 1 a.channels = max 1 b.channels && (parseParameters a.fmtp).isSome &&
    (parseParameters b.fmtp).isSome && parseParameters a.fmtp = parseParameters b.fmtp

/-- The level of an H264 answer is one that the offer allows. -/
def h264IsAnswer (offered accepted : Parameters) : Bool :=
  ((do
    let offerAsymmetry ← booleanParameter offered "level-asymmetry-allowed"
    let answerAsymmetry ← booleanParameter accepted "level-asymmetry-allowed"
    let offerProfile ← parseH264ProfileLevel offered
    let answerProfile ← parseH264ProfileLevel accepted
    pure ((!answerAsymmetry || offerAsymmetry) &&
      (offerAsymmetry && answerAsymmetry || answerProfile.level ≤ offerProfile.level))) :
    Option Bool).getD false

/-- The parameters of an Opus answer that are not known are those of the offer. -/
def opusIsAnswer (offered accepted : Parameters) : Bool :=
  match opusParameters accepted with
  | none => false
  | some supported => accepted.entries.all fun parameter =>
    (supported.find parameter.1).isSome || offered.find parameter.1 = some parameter.2

/-- `SdpCodec::IsAnswer`. -/
def isAnswer (offer answer : RtpCodecParameters) : Bool :=
  offer.payloadType = answer.payloadType && (negotiate offer answer).isSome &&
    match parseParameters offer.fmtp, parseParameters answer.fmtp with
    | some offered, some accepted =>
      if lower offer.encodingName = "h264" then h264IsAnswer offered accepted
      else if lower offer.encodingName = "opus" then opusIsAnswer offered accepted
      else true
    | _, _ => false

end Packetia.Sdp
