import Packetia.Sdp.Description

/-!
# Descriptions as text

`Sdp::Serialize` (`sdp/Sdp.cpp`) and `BuildWebRtcAttributes` (`sdp/SdpWebRtc.cpp`). In the WebRTC
profile the fields of a description are turned into attributes first.
-/

namespace Packetia.Sdp

/-! ## Lines -/

def crlf : Text := "\r\n"

/-- `std::from_chars` for an `int`, of a whole text. -/
def fromCharsInt (text : Text) : Option ℤ :=
  let value : Option ℤ := match text with
    | '-' :: digits => (number digits).map fun n => -(n : ℤ)
    | digits => (number digits).map fun n => (n : ℤ)
  value.filter fun n => -2 ^ 31 ≤ n ∧ n < 2 ^ 31

/-- A text, or what stands for it if it is empty. -/
def orElse (text fallback : Text) : Text := if text = [] then fallback else text

def attributeLine (item : SdpAttribute) : Text :=
  "a=" ++ item.key ++ if item.value = [] then [] else ':' :: item.value

def connectionLine (item : SdpConnection) : Text :=
  "c=" ++ item.netType ++ ' ' :: item.addrType ++ ' ' :: item.address

/-- The payload types that attributes of one key speak of. -/
def rawPayloads (key : Text) (attributes : List SdpAttribute) : List ℤ :=
  (attributes.filter fun item => item.key = key).filterMap fun item =>
    fromCharsInt (upToFirst isBlank item.value)

/-- The items whose payload type is not among `seen`, each payload type once. -/
def unseen {α : Type*} (payloadType : α → ℤ) : List ℤ → List α → List α
  | _, [] => []
  | seen, item :: items =>
    if seen.contains (payloadType item) then unseen payloadType seen items
    else item :: unseen payloadType (payloadType item :: seen) items

def rtpMapAttribute (map : SdpRtpMap) : SdpAttribute where
  key := "rtpmap"
  value := decimalInt map.payloadType ++ ' ' :: map.encodingName ++ '/' ::
    decimalInt map.clockRate ++ if map.channels > 0 then '/' :: decimalInt map.channels else []

def fmtpAttribute (format : SdpFmtp) : SdpAttribute where
  key := "fmtp"
  value := decimalInt format.payloadType ++ ' ' :: format.params

variable (media : SdpMedia) (session : SdpSession)

def mediaLine : Text :=
  "m=" ++ media.media ++ ' ' :: decimalInt media.port ++
    (if media.portCount ≠ 1 then '/' :: decimalInt media.portCount else []) ++
    ' ' :: media.proto ++ media.fmts.flatMap (' ' :: ·)

def mediaLines : List Text :=
  [mediaLine media] ++
    (if media.conn.address ≠ [] then [connectionLine media.conn] else []) ++
    media.attributes.map attributeLine ++
    (unseen SdpRtpMap.payloadType (rawPayloads "rtpmap" media.attributes) media.rtpmaps).map
      (attributeLine ∘ rtpMapAttribute) ++
    (unseen SdpFmtp.payloadType (rawPayloads "fmtp" media.attributes) media.fmtps).map
      (attributeLine ∘ fmtpAttribute)

def originLine (origin : SdpOrigin) : Text :=
  "o=" ++ orElse origin.username "-" ++ ' ' :: orElse origin.sessId "0" ++
    ' ' :: orElse origin.sessVersion "0" ++ ' ' :: orElse origin.netType "IN" ++
    ' ' :: orElse origin.addrType "IP4" ++ ' ' :: orElse origin.unicastAddress "0.0.0.0"

def sessionLines : List Text :=
  ["v=" ++ decimalInt session.version, originLine session.origin,
    "s=" ++ orElse session.sessionName "-"] ++
  (if session.conn.address ≠ [] then [connectionLine session.conn]
    else if session.connection ≠ [] then ["c=" ++ session.connection] else []) ++
  ["t=" ++ orElse session.timing "0 0"] ++
  session.attributes.map attributeLine

/-- The lines of the generic profile. -/
def genericLines : List Text := sessionLines session ++ session.medias.flatMap mediaLines

/-! ## Attributes of the WebRTC profile -/

def isDirection (text : Text) : Bool :=
  text = "sendrecv" || text = "sendonly" || text = "recvonly" || text = "inactive"

/-- The keys whose attributes are kept in fields, `group` apart. -/
def modeledKeys : List Text :=
  ["ice-ufrag", "ice-pwd", "ice-options", "ice-lite", "candidate", "end-of-candidates", "setup",
    "fingerprint", "extmap", "mid", "rtcp-mux", "rtcp-rsize", "bundle-only", "rtpmap", "fmtp",
    "rtcp-fb", "msid", "ssrc", "ssrc-group"]

def isModeled (item : SdpAttribute) : Bool :=
  if item.key = "group" then (words item.value).head? = some ("BUNDLE" : Text)
  else isDirection item.key || modeledKeys.contains item.key

def removeModeledAttributes (attributes : List SdpAttribute) : List SdpAttribute :=
  attributes.filter fun item => !isModeled item

def directionName : MediaDirection → Text
  | .sendRecv => "sendrecv"
  | .sendOnly => "sendonly"
  | .recvOnly => "recvonly"
  | .inactive => "inactive"

def setupName : DtlsSetup → Option Text
  | .unspecified => none
  | .actPass => some "actpass"
  | .active => some "active"
  | .passive => some "passive"
  | .holdConn => some "holdconn"

/-- An attribute that is there if the flag is set. -/
def flagAttribute (flag : Bool) (key : Text) : List SdpAttribute :=
  if flag then [⟨key, []⟩] else []

/-- An attribute that is there if its value is not empty. -/
def textAttribute (key value : Text) : List SdpAttribute :=
  if value ≠ [] then [⟨key, value⟩] else []

/-- The options as they are written, with a space in front of each that something precedes. -/
def joinOptions (options : List Text) : Text :=
  options.foldl (fun value option => (if value = [] then [] else value ++ [' ']) ++ option) []

/-- `AddTransport`. -/
def transportAttributes (ice : IceParameters) (dtls : DtlsParameters) (sessionLevel : Bool) :
    List SdpAttribute :=
  textAttribute "ice-ufrag" ice.ufrag ++ textAttribute "ice-pwd" ice.pwd ++
  (if ice.options ≠ [] then [⟨"ice-options", joinOptions ice.options⟩] else []) ++
  (if sessionLevel then []
    else ice.candidates.map (fun candidate => ⟨"candidate", candidate⟩) ++
      flagAttribute ice.endOfCandidates "end-of-candidates") ++
  ((setupName dtls.setup).toList.map fun setup => ⟨"setup", setup⟩) ++
  dtls.fingerprints.map fun fp => ⟨"fingerprint", fp.algorithm ++ ' ' :: fp.value⟩

/-- `AddFeedback`. -/
def feedbackAttributes (pt : Text) (feedback : List RtcpFeedback) : List SdpAttribute :=
  feedback.map fun item => ⟨"rtcp-fb", pt ++ ' ' :: item.type ++
    if item.parameter = [] then [] else ' ' :: item.parameter⟩

def codecAttributes (codec : RtpCodecParameters) : List SdpAttribute :=
  if codec.encodingName = [] then []
  else
    let pt := decimalInt codec.payloadType
    [⟨"rtpmap", pt ++ ' ' :: codec.encodingName ++ '/' :: decimalInt codec.clockRate ++
      if codec.channels > 1 then '/' :: decimalInt codec.channels else []⟩] ++
    (if codec.fmtp ≠ [] then [⟨"fmtp", pt ++ ' ' :: codec.fmtp⟩] else []) ++
    feedbackAttributes pt codec.rtcpFeedback

def extensionAttribute (extension : RtpHeaderExtensionParameters) : SdpAttribute where
  key := "extmap"
  value := decimalInt extension.id ++ '/' :: directionName extension.direction ++
    ' ' :: extension.uri ++
    if extension.attributes = [] then [] else ' ' :: extension.attributes

def ssrcAttributes (source : RtpSsrcParameters) : List SdpAttribute :=
  source.attributes.map fun attr => ⟨"ssrc", decimal source.ssrc.toNat ++ ' ' :: attr.key ++
    if attr.value = [] then [] else ':' :: attr.value⟩

def ssrcGroupAttribute (group : RtpSsrcGroup) : SdpAttribute where
  key := "ssrc-group"
  value := group.semantics ++ group.ssrcs.flatMap fun ssrc => ' ' :: decimal ssrc.toNat

/-- `IsRtp`: the protocol has `RTP/` in it. -/
def isRtp : Bool := media.proto.tails.any fun rest => ("RTP/" : Text).isPrefixOf rest

/-- The attributes of the fields of an m-line. -/
def mediaFieldAttributes : List SdpAttribute :=
  textAttribute "mid" media.mid ++ [⟨directionName media.direction, []⟩] ++
  flagAttribute media.rtcpMux "rtcp-mux" ++ flagAttribute media.rtcpRsize "rtcp-rsize" ++
  flagAttribute media.bundleOnly "bundle-only" ++
  transportAttributes media.ice media.dtls false ++
  media.codecs.flatMap codecAttributes ++ feedbackAttributes "*" media.rtcpFeedback ++
  media.headerExtensions.map extensionAttribute ++
  media.msids.map (fun msid => ⟨"msid", msid⟩) ++
  media.ssrcs.flatMap ssrcAttributes ++ media.ssrcGroups.map ssrcGroupAttribute

/-- The formats of an m-line as they are written: rejected m-lines keep theirs. -/
def writtenFormats : List Text :=
  if isRtp media ∧ (media.port ≠ 0 ∨ media.bundleOnly) ∧ media.codecs ≠ [] then
    media.codecs.map fun codec => decimalInt codec.payloadType
  else media.fmts

def buildMedia : SdpMedia :=
  { media with
    attributes := removeModeledAttributes media.attributes ++ mediaFieldAttributes media
    fmts := writtenFormats media
    rtpmaps := []
    fmtps := [] }

def sessionFieldAttributes : List SdpAttribute :=
  flagAttribute session.ice.iceLite "ice-lite" ++
  transportAttributes session.ice session.dtls true ++
  if session.bundle ≠ [] then [⟨"group", "BUNDLE" ++ session.bundle.flatMap (' ' :: ·)⟩] else []

def buildWebRtcAttributes : SdpSession :=
  { session with
    profile := .generic
    attributes := removeModeledAttributes session.attributes ++ sessionFieldAttributes session
    medias := session.medias.map buildMedia }

/-- The lines of a description. -/
def descriptionLines : List Text :=
  match session.profile with
  | .webRtc => genericLines (buildWebRtcAttributes session)
  | .generic => genericLines session

/-- `Sdp::Serialize`. -/
def serialize : Text := (descriptionLines session).flatMap fun line => line ++ crlf

end Packetia.Sdp
