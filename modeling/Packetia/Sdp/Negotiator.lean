import Packetia.Lib.Fallible
import Packetia.Lib.Run
import Packetia.Sdp.Codec
import Packetia.Sdp.Serializer

/-!
# Offer and answer

`SdpNegotiator` (`sdp/SdpNegotiator.cpp`). A description is checked and normalised
(`validateDescription`); an answer is checked against its offer (`validateAnswer`), and the offer
is cut down to what the answer has selected (`effectiveOffer`). The negotiator keeps the two
descriptions that are agreed on and those of the round that is going on.

A session id that is not given is taken from a counter of the process, so the number it would
give is an argument of the calls that may need it.
-/

namespace Packetia.Sdp

/-! ## Directions -/

def canSend (direction : MediaDirection) : Bool := direction = .sendRecv || direction = .sendOnly

def canReceive (direction : MediaDirection) : Bool := direction = .sendRecv || direction = .recvOnly

def direction (send receive : Bool) : MediaDirection :=
  if send then if receive then .sendRecv else .sendOnly
  else if receive then .recvOnly else .inactive

def answerDirection (remote own : MediaDirection) : MediaDirection :=
  direction (canSend own && canReceive remote) (canReceive own && canSend remote)

def reverse (d : MediaDirection) : MediaDirection := direction (canReceive d) (canSend d)

def directionSubset (offer answer : MediaDirection) : Bool :=
  (!canSend answer || canReceive offer) && (!canReceive answer || canSend offer)

/-- What two directions allow together. -/
def bothDirections (a b : MediaDirection) : MediaDirection :=
  direction (canSend a && canSend b) (canReceive a && canReceive b)

/-! ## Parts of a description -/

variable (media : SdpMedia)

def isActive : Bool := media.port ≠ 0 || media.bundleOnly

def rtpMedia : Bool := media.media = "audio" || media.media = "video"

def iceCharacters : Text := "abcdefghijklmnopqrstuvwxyzABCDEFGHIJKLMNOPQRSTUVWXYZ0123456789+/"

def validCredentials (ice : IceParameters) : Bool :=
  let valid (value : Text) (minimum : ℕ) :=
    minimum ≤ value.length && value.length ≤ 256 && value.all iceCharacters.contains
  valid ice.ufrag 4 && valid ice.pwd 22

def validDtls (dtls : DtlsParameters) : Bool :=
  dtls.fingerprints ≠ [] && dtls.fingerprints.all fun fp => fp.algorithm ≠ [] && fp.value ≠ []

def sameDtls (a b : DtlsParameters) : Bool :=
  a.setup = b.setup && a.fingerprints.isPerm b.fingerprints

def effectiveFeedback (common codec : List RtcpFeedback) : List RtcpFeedback :=
  codec.foldl (fun result item => if result.contains item then result else result ++ [item]) common

def feedbackIntersection (remote own : List RtcpFeedback) : List RtcpFeedback :=
  remote.foldl (fun result item =>
    if own.contains item && !result.contains item then result ++ [item] else result) []

def inheritTransport (session : SdpSession) : SdpMedia :=
  { media with
    ice := { media.ice with
      ufrag := orElse media.ice.ufrag session.ice.ufrag
      pwd := orElse media.ice.pwd session.ice.pwd
      candidates := if media.ice.candidates = [] then session.ice.candidates
        else media.ice.candidates
      iceLite := media.ice.iceLite || session.ice.iceLite }
    dtls := {
      fingerprints := if media.dtls.fingerprints = [] then session.dtls.fingerprints
        else media.dtls.fingerprints
      setup := if media.dtls.setup = .unspecified then session.dtls.setup
        else media.dtls.setup } }

/-! ## Checks of a description -/

/-- The state of the loop of `ValidateDescription`: the mids so far, the last m-line with a
    transport, the number of those, and the m-lines as they are normalised. -/
structure Validation where
  mids : List Text := []
  transport : Option SdpMedia := none
  active : ℕ := 0
  medias : List SdpMedia := []

def checkLine (description : SdpSession) (answer : Bool) (mids : List Text) (media : SdpMedia) :
    Except String Unit := do
  require (media.mid ≠ [] && !media.mid.any ((" \t\r\n" : Text).contains ·) &&
    !mids.contains media.mid && media.fmts ≠ [] && 0 ≤ media.port && media.port ≤ 65535 &&
    media.portCount = 1) "Invalid or duplicate mid, media port or formats"
  require (!media.bundleOnly || !answer && media.port = 0 && description.bundle.contains media.mid)
    "Invalid bundle-only media"

def checkProfile (description : SdpSession) (media : SdpMedia) : Except String Unit := do
  require (media.proto = "UDP/TLS/RTP/SAVPF" && media.rtcpMux)
    "Only UDP DTLS-SRTP with rtcp-mux is supported"
  require (description.bundle = [] || description.bundle.contains media.mid)
    "All active RTP media must share the BUNDLE transport"

def checkTransport (answer : Bool) (transport : Option SdpMedia) (media : SdpMedia) :
    Except String Unit := do
  require (validCredentials media.ice) "Invalid ICE credentials"
  require (validDtls media.dtls && (media.dtls.setup = .active || media.dtls.setup = .passive ||
    !answer && media.dtls.setup = .actPass)) "Missing fingerprint or unsupported DTLS setup role"
  require (transport.all fun previous => media.ice.ufrag = previous.ice.ufrag &&
    media.ice.pwd = previous.ice.pwd && sameDtls media.dtls previous.dtls)
    "BUNDLE media must use identical transport parameters"

def checkFormat (formats : Finset ℤ) (format : Text) : Except String (Finset ℤ) := do
  let pt := (fromCharsInt format).getD (-1)
  require (0 ≤ pt && pt ≤ 127 && !(64 ≤ pt && pt ≤ 95) && format = decimalInt pt && pt ∉ formats)
    "Invalid or duplicate RTP format in m= line"
  pure (insert pt formats)

def checkCodec (formats codecs : Finset ℤ) (codec : RtpCodecParameters) :
    Except String (Finset ℤ) := do
  require (codec.payloadType ∈ formats && codec.encodingName ≠ [] && 0 < codec.clockRate &&
    0 ≤ codec.channels && codec.payloadType ∉ codecs) "Invalid RTP codec or payload type"
  pure (insert codec.payloadType codecs)

def checkCodecs : Except String Unit := do
  let formats ← media.fmts.foldlM checkFormat ∅
  let codecs ← media.codecs.foldlM (checkCodec formats) ∅
  require (formats = codecs) "Every active RTP format needs a codec description"

/-- The ids of the extensions must differ. Extensions can only flow in directions enabled by their
    m-line. -/
def checkExtensions : Except String (List RtpHeaderExtensionParameters) := do
  require (media.headerExtensions.all (fun extension =>
      1 ≤ extension.id && extension.id ≤ 255 && extension.uri ≠ []) &&
    (media.headerExtensions.map RtpHeaderExtensionParameters.id).Nodup)
    "Invalid or duplicate RTP header extension"
  pure (media.headerExtensions.map fun extension =>
    { extension with direction := bothDirections extension.direction media.direction })

/-- One round of the loop of `ValidateDescription`. -/
def validateMedia (description : SdpSession) (answer : Bool) (st : Validation) (media : SdpMedia) :
    Except String Validation := do
  checkLine description answer st.mids media
  let st := { st with mids := media.mid :: st.mids }
  if isActive media = false then pure { st with medias := st.medias ++ [media] }
  else if rtpMedia media = false then
    -- Unknown offered media are preserved as rejected m-lines.
    require (!answer) "Only RTP media can be accepted"
    pure { st with medias := st.medias ++ [media] }
  else
    checkProfile description media
    let media := inheritTransport media description
    checkTransport answer st.transport media
    checkCodecs media
    let headerExtensions ← checkExtensions media
    let media := { media with headerExtensions }
    pure { st with
      transport := some media, active := st.active + 1, medias := st.medias ++ [media] }

def validateDescription (description : SdpSession) (answer allowEmpty : Bool) :
    Except String SdpSession := do
  require (description.type = (if answer then .answer else .offer) && description.medias ≠ [])
    "Expected a normalized offer/answer with media descriptions"
  let st ← description.medias.foldlM (validateMedia description answer) {}
  require (description.bundle.all st.mids.contains && description.bundle.Nodup)
    "BUNDLE references an unknown or duplicate mid"
  require ((allowEmpty || st.active ≠ 0) && !(st.active > 1 && description.bundle = []))
    "Expected one RTP transport (use BUNDLE for multiple media)"
  pure { description with profile := .webRtc, medias := st.medias }

/-- What the m-lines of a description use so far: payload types, with an m-line and a codec,
    extension ids and sources. -/
structure Payloads where
  payloads : List (ℤ × SdpMedia × RtpCodecParameters) := []
  extensions : List (ℤ × Text) := []
  ssrcs : List (BitVec 32) := []

def midUri : Text := "urn:ietf:params:rtp-hdrext:sdes:mid"

def hasMidExtension : Bool :=
  media.direction = .inactive || media.headerExtensions.any fun extension =>
    extension.uri = midUri && extension.id ≤ 14 &&
      (!canSend media.direction || canSend extension.direction) &&
      (!canReceive media.direction || canReceive extension.direction)

def bundleCodec (st : Payloads) (codec : RtpCodecParameters) :
    Except String Payloads :=
  match st.payloads.find? fun entry => entry.1 = codec.payloadType with
  | none => pure { st with payloads := st.payloads ++ [(codec.payloadType, media, codec)] }
  | some (_, previousMedia, previous) => do
    require (sameFormat previous codec)
      "Shared BUNDLE payload types must identify the same RTP format"
    require (hasMidExtension previousMedia && hasMidExtension media)
      "Shared BUNDLE payload types require a negotiated MID extension"
    pure st

def bundleExtension (st : Payloads) (extension : RtpHeaderExtensionParameters) :
    Except String Payloads :=
  match st.extensions.find? fun entry => entry.1 = extension.id with
  | none => pure { st with extensions := st.extensions ++ [(extension.id, extension.uri)] }
  | some (_, uri) => do
    require (uri = extension.uri) "BUNDLE header extension IDs must identify the same URI"
    pure st

def bundleSource (st : Payloads) (source : RtpSsrcParameters) : Except String Payloads := do
  require (!st.ssrcs.contains source.ssrc)
    "SSRCs must be unique across accepted BUNDLE media"
  pure { st with ssrcs := source.ssrc :: st.ssrcs }

def bundleMedia (st : Payloads) (media : SdpMedia) : Except String Payloads :=
  if isActive media then do
    let st ← media.codecs.foldlM (bundleCodec media) st
    let st ← media.headerExtensions.foldlM bundleExtension st
    media.ssrcs.foldlM bundleSource st
  else pure st

def validBundlePayloads (description : SdpSession) : Except String Unit := do
  let _ ← description.medias.foldlM bundleMedia {}
  pure ()

/-! ## An answer and its offer -/

def sameMediaIdentity (a b : SdpMedia) : Bool :=
  a.mid = b.mid && a.media = b.media && a.proto = b.proto

def keepsMediaOrder (previous next : SdpSession) : Bool :=
  previous.medias.length ≤ next.medias.length &&
    (previous.medias.zip next.medias).all fun pair => sameMediaIdentity pair.1 pair.2

/-- `OriginNumber`. -/
def originNumber (value : Text) : Option ℕ := (number value).filter fun n => n < 2 ^ 64

def newRemoteOrigin (previous next : SdpOrigin) (previousSdp nextSdp : Text) : Bool :=
  match originNumber previous.sessId, originNumber previous.sessVersion with
  | some _, some version =>
    next.sessId = previous.sessId && (originNumber next.sessVersion).any fun nextVersion =>
      nextVersion > version || nextVersion = version && nextSdp = previousSdp
  -- Typed callers predating origin tracking may omit it.
  | _, _ => true

def dtlsAnswer (offer answer : DtlsSetup) : Bool :=
  offer = .actPass && (answer = .active || answer = .passive) ||
    offer = .active && answer = .passive || offer = .passive && answer = .active

def peerRole (role : DtlsSetup) : DtlsSetup := if role = .active then .passive else .active

def findCodec (codecs : List RtpCodecParameters) (payloadType : ℤ) : Option RtpCodecParameters :=
  codecs.find? fun item => item.payloadType = payloadType

def answerCodec (offered accepted : SdpMedia) (codec : RtpCodecParameters) :
    Except String Unit := do
  let remote := findCodec offered.codecs codec.payloadType
  require (remote.any fun remote => isAnswer remote codec)
    "Answer codec or format parameters exceed the offer"
  let allowed := remote.toList.flatMap fun remote =>
    effectiveFeedback offered.rtcpFeedback remote.rtcpFeedback
  require ((effectiveFeedback accepted.rtcpFeedback codec.rtcpFeedback).all allowed.contains)
    "Answer introduced RTCP feedback"

def answerExtension (offered accepted : SdpMedia) (extension : RtpHeaderExtensionParameters) :
    Except String Unit :=
  let remote := offered.headerExtensions.find? fun item => item.id = extension.id
  require (remote.any fun remote => remote.uri = extension.uri &&
      remote.attributes = extension.attributes &&
      directionSubset remote.direction extension.direction &&
      (!canSend extension.direction || canSend accepted.direction) &&
      (!canReceive extension.direction || canReceive accepted.direction))
    "Answer introduced or expanded an RTP header extension"

def answerLine (offered accepted : SdpMedia) : Except String Unit := do
  require (accepted.fmts.all offered.fmts.contains) "Answer introduced an RTP format"
  if isActive accepted = false then
    require (accepted.direction = .inactive) "Rejected answer media must be inactive"
  else
    require (isActive offered && rtpMedia offered)
      "Answer activated a rejected or unsupported m-line"
    require (directionSubset offered.direction accepted.direction)
      "Answer direction exceeds the offer"
    require (dtlsAnswer offered.dtls.setup accepted.dtls.setup)
      "Answer DTLS role does not complement the offer"
    require (!accepted.rtcpRsize || offered.rtcpRsize) "Answer introduced reduced-size RTCP"
    accepted.codecs.forM (answerCodec offered accepted)
    accepted.headerExtensions.forM (answerExtension offered accepted)

def validateAnswer (offer answer : SdpSession) : Except String Unit := do
  require (offer.medias.length = answer.medias.length && keepsMediaOrder offer answer)
    "Answer must retain offered m-line identities and order"
  require (answer.bundle.all offer.bundle.contains) "Answer introduced a BUNDLE mid"
  (offer.medias.zip answer.medias).forM fun pair => answerLine pair.1 pair.2
  validBundlePayloads answer

/-- Negotiate in the opposite direction to retain the offerer's receive preferences. -/
def effectiveCodec (offered : List RtpCodecParameters) (codec : RtpCodecParameters) :
    Option RtpCodecParameters := do
  let original ← findCodec offered codec.payloadType
  let effective ← negotiate codec original
  pure { effective with rtcpFeedback := codec.rtcpFeedback }

/-- One round of the loop of `EffectiveOffer`. -/
def effectiveMedia (media selected : SdpMedia) : Option SdpMedia := do
  let codecs ← selected.codecs.mapM (effectiveCodec media.codecs)
  let port := if selected.port = 0 then 0 else if media.port = 0 then 9 else media.port
  let direction := reverse selected.direction
  let sends := canSend direction
  pure { media with
    bundleOnly := false, port, direction, codecs
    rtcpRsize := selected.rtcpRsize
    rtcpFeedback := selected.rtcpFeedback
    fmts := selected.fmts
    headerExtensions := selected.headerExtensions.map fun extension =>
      { extension with direction := reverse extension.direction }
    dtls := if port ≠ 0 then { media.dtls with setup := peerRole selected.dtls.setup }
      else media.dtls
    ssrcs := if sends then media.ssrcs else []
    ssrcGroups := if sends then media.ssrcGroups else []
    msids := if sends then media.msids else [] }

/-- Keep the offerer's transport and source parameters, but project the answer's selected media
    back into the offerer's direction. -/
def effectiveOffer (offer answer : SdpSession) : Option SdpSession := do
  let medias ← (offer.medias.zip answer.medias).mapM fun pair => effectiveMedia pair.1 pair.2
  let setup := medias.foldl
    (fun setup media => if media.port ≠ 0 then media.dtls.setup else setup) offer.dtls.setup
  pure { offer with bundle := answer.bundle, medias, dtls := { offer.dtls with setup } }

def sessionDefaults (session : SdpSession) : SdpSession :=
  { session with
    profile := .webRtc
    sessionName := orElse session.sessionName "-"
    timing := orElse session.timing "0 0"
    connection := orElse session.connection "IN IP4 0.0.0.0"
    conn := if session.conn.address = [] then ⟨"IN", "IP4", "0.0.0.0"⟩ else session.conn }

/-! ## The negotiator -/

inductive SdpNegotiationState
  | stable
  | haveLocalOffer
  | haveRemoteOffer
  deriving DecidableEq

structure SdpNegotiator where
  state : SdpNegotiationState := .stable
  hasCurrent : Bool := false
  pendingReady : Bool := false
  currentLocal : SdpSession := {}
  currentRemote : SdpSession := {}
  pendingLocal : SdpSession := {}
  pendingRemote : SdpSession := {}
  wireOffer : SdpSession := {}
  currentRemoteSdp : Text := []
  pendingRemoteSdp : Text := []
  localOriginId : Text := []
  nextOriginVersion : ℕ := 0
  originVersionExhausted : Bool := false
  lastError : String := ""

namespace SdpNegotiator

variable (n : SdpNegotiator)

def reject (error : String) : SdpNegotiator := { n with lastError := error }

/-- The version of the next description, if there is one. -/
def localVersion (origin : SdpOrigin) : Option ℕ :=
  if n.localOriginId = [] ∧ origin.sessVersion ≠ [] then originNumber origin.sessVersion
  else some n.nextOriginVersion

variable (nextId : ℕ) (result capabilities : SdpSession) (remote capability : SdpMedia)
  (singleCodecPerMedia : Bool)

/-- The session id, which is the first one for good. -/
def localId (origin : SdpOrigin) : Text :=
  if n.localOriginId = [] then orElse origin.sessId (decimal nextId) else n.localOriginId

/-- The origin that `SetLocalOrigin` writes. -/
def localOrigin (id : Text) (version : ℕ) (origin : SdpOrigin) : SdpOrigin where
  username := orElse origin.username "-"
  sessId := id
  sessVersion := decimal version
  netType := orElse origin.netType "IN"
  addrType := orElse origin.addrType "IP4"
  unicastAddress := orElse origin.unicastAddress "0.0.0.0"

/-- `SetLocalOrigin`: the description with its origin, if there is one. -/
def setLocalOrigin (description : SdpSession) : SdpNegotiator × Option SdpSession :=
  if n.originVersionExhausted then (n.reject "SDP origin version is exhausted", none)
  else match n.localVersion description.origin with
    | none => (n.reject "Invalid local SDP origin version", none)
    | some version =>
      let id := n.localId nextId description.origin
      let exhausted : Bool := version = 2 ^ 64 - 1
      ({ n with
        localOriginId := id
        originVersionExhausted := exhausted
        nextOriginVersion := if exhausted then n.nextOriginVersion else version + 1 },
      some { description with origin := localOrigin id version description.origin })

/-- An m-line of an offer before it is ordered. -/
def offerMedia : SdpMedia :=
  { media with
    direction := if isActive media then media.direction else .inactive
    fmts := if media.fmts = [] then
      media.codecs.map fun codec => decimalInt codec.payloadType else media.fmts }

/-- An omitted line pauses without stopping the browser's transceiver. It still shares the new
    offer's transport role. -/
def pausedMedia (previous : SdpMedia) : SdpMedia :=
  let paused := { previous with bundleOnly := false, direction := .inactive }
  let paused := match result.medias.find? fun media => isActive media && rtpMedia media with
    | some transport => { paused with ice := transport.ice, dtls := transport.dtls }
    | none => { paused with
        ice := if result.ice.ufrag ≠ [] then result.ice else paused.ice
        dtls := if result.dtls.fingerprints ≠ [] then result.dtls else paused.dtls }
  inheritTransport paused result

def offeredMedia (previous : SdpMedia) : Except String SdpMedia :=
  match result.medias.find? fun media => media.mid = previous.mid with
  | some replacement => do
    require (sameMediaIdentity previous replacement)
      "An established mid cannot change media kind or protocol"
    pure replacement
  | none => pure (pausedMedia result previous)

/-- Established m-line positions stay across reoffers. -/
def orderMedias (result : SdpSession) : Except String (List SdpMedia) :=
  if n.hasCurrent then do
    let ordered ← n.currentLocal.medias.mapM (offeredMedia result)
    pure (ordered ++ result.medias.filter fun media =>
      n.currentLocal.medias.all fun previous => previous.mid ≠ media.mid)
  else pure result.medias

/-- BUNDLE is rebuilt from the active RTP lines after reordering and rejection. -/
def offerBundle (result : SdpSession) : List Text :=
  let active := result.medias.filter fun media => isActive media && rtpMedia media
  if active.length > 1 ∨ result.bundle ≠ [] ∨ n.hasCurrent ∧ n.currentLocal.bundle ≠ [] then
    active.map SdpMedia.mid
  else []

/-- The offer that `CreateOffer` makes, up to its origin. -/
def offerDescription : Except String SdpSession := do
  let result := sessionDefaults { capabilities with type := .offer }
  require (result.medias.all (fun media => media.mid ≠ []) &&
    (result.medias.map SdpMedia.mid).Nodup) "Local offers require unique explicit mids"
  let result := { result with medias := result.medias.map offerMedia }
  let medias ← n.orderMedias result
  let result := { result with medias }
  require (result.bundle.Nodup && result.bundle.all fun mid =>
    result.medias.any fun media => media.mid = mid) "Invalid local BUNDLE mids"
  let result := { result with bundle := n.offerBundle result }
  let result ← validateDescription result false n.hasCurrent
  validBundlePayloads result
  pure result

/-- `CreateOffer`: the offer, if the call returns true. -/
def createOffer : SdpNegotiator × Option SdpSession :=
  if n.state ≠ .stable then (n.reject "Another offer/answer transaction is pending", none)
  else match n.offerDescription capabilities with
    | .error error => (n.reject error, none)
    | .ok result => match n.setLocalOrigin nextId result with
      | (n, none) => (n, none)
      | (n, some result) =>
        ({ n with
          wireOffer := result
          pendingLocal := result
          pendingRemote := {}
          pendingRemoteSdp := []
          pendingReady := false
          state := .haveLocalOffer
          lastError := "" }, some result)

/-- `ApplyOffer`. -/
def applyOffer (offer : SdpSession) : SdpNegotiator × Bool :=
  if n.state = .haveLocalOffer then
    (n.reject "Offer collision: roll back the local offer first", false)
  else match validateDescription offer false n.hasCurrent with
    | .error error => (n.reject error, false)
    | .ok normalized =>
      let remoteSdp := serialize normalized
      if n.hasCurrent && !newRemoteOrigin n.currentRemote.origin normalized.origin
          n.currentRemoteSdp remoteSdp then
        (n.reject ("Remote SDP origin must retain its session ID and advance its version " ++
          "when content changes"), false)
      else if n.hasCurrent && !keepsMediaOrder n.currentRemote normalized then
        (n.reject "Reoffer must retain established m-line identities and order", false)
      else
        ({ n with
          pendingRemote := normalized
          wireOffer := normalized
          pendingRemoteSdp := remoteSdp
          pendingLocal := {}
          pendingReady := false
          state := .haveRemoteOffer
          lastError := "" }, true)

/-- The capability for an m-line: a named one takes precedence over a kind-wide fallback, even when
    it explicitly rejects the m-line with port 0. -/
def findCapability (capabilities : List SdpMedia) (remote : SdpMedia) : Option SdpMedia :=
  (capabilities.find? fun item => item.mid = remote.mid).or
    (capabilities.find? fun item => item.mid = [] && item.media = remote.media)

/-- The answer to one format of the offer. -/
def selectCodec (format : Text) : Option RtpCodecParameters := do
  let offered ← remote.codecs.find? fun codec => decimalInt codec.payloadType = format
  capability.codecs.findSome? fun supported => do
    let codec ← negotiate offered supported
    pure { codec with
      rtcpFeedback := feedbackIntersection
        (effectiveFeedback remote.rtcpFeedback offered.rtcpFeedback)
        (effectiveFeedback capability.rtcpFeedback supported.rtcpFeedback) }

def selectCodecs : List RtpCodecParameters :=
  let codecs := remote.fmts.filterMap (selectCodec remote capability)
  if singleCodecPerMedia then codecs.take 1 else codecs

def selectExtension (direction : MediaDirection) (extension : RtpHeaderExtensionParameters) :
    Option RtpHeaderExtensionParameters := do
  guard (extension.id ≤ 14)
  let supported ← capability.headerExtensions.find? fun item =>
    item.uri = extension.uri ∧ item.attributes = extension.attributes
  let direction :=
    bothDirections (answerDirection extension.direction supported.direction) direction
  guard (direction ≠ .inactive)
  pure { extension with direction }

def transportCcUri : Text :=
  "http://www.ietf.org/id/draft-holmer-rmcat-transport-wide-cc-extensions-01"

/-- The m-line of an answer that rejects. -/
def rejectedMedia : SdpMedia :=
  { mid := remote.mid, media := remote.media, proto := remote.proto, fmts := remote.fmts,
    direction := .inactive }

/-- The m-line of an answer that accepts with some codecs. -/
def acceptedMedia (codecs : List RtpCodecParameters) : Except String SdpMedia := do
  let direction := answerDirection remote.direction capability.direction
  let media := inheritTransport
    { rejectedMedia remote with
      port := 9
      conn := ⟨"IN", "IP4", "0.0.0.0"⟩
      fmts := codecs.map fun codec => decimalInt codec.payloadType
      direction, ice := capability.ice, dtls := capability.dtls } result
  require (validCredentials media.ice && media.ice.candidates ≠ [] && validDtls media.dtls)
    "Configure local ICE credentials, candidates and DTLS fingerprint first"
  let desired := media.dtls.setup
  let setup := if desired = .active ∨ desired = .passive then desired
    else if remote.dtls.setup = .active then .passive else .active
  require (dtlsAnswer remote.dtls.setup setup) "Offer DTLS role conflicts with the local role"
  let headerExtensions := remote.headerExtensions.filterMap (selectExtension capability direction)
  let transportCc := headerExtensions.any fun extension => extension.uri = transportCcUri
  let sends := canSend direction
  pure { media with
    dtls := { media.dtls with setup }
    rtcpMux := true
    rtcpRsize := remote.rtcpRsize && capability.rtcpRsize
    headerExtensions
    codecs := if transportCc then codecs
      else codecs.map fun codec => { codec with
        rtcpFeedback := codec.rtcpFeedback.filter fun item => item.type ≠ "transport-cc" }
    ssrcs := if sends then capability.ssrcs else []
    ssrcGroups := if sends then capability.ssrcGroups else []
    msids := if sends then capability.msids else [] }

/-- One round of the loop of `CreateAnswer`, which counts the m-lines that are accepted. -/
def answerMedia (capabilities : List SdpMedia) (singleCodecPerMedia : Bool) (st : SdpSession × ℕ)
    (remote : SdpMedia) : Except String (SdpSession × ℕ) := do
  let (result, accepted) := st
  let rejected : SdpSession × ℕ :=
    ({ result with medias := result.medias ++ [rejectedMedia remote] }, accepted)
  match findCapability capabilities remote with
  | none => pure rejected
  | some capability =>
    let codecs := selectCodecs remote capability singleCodecPerMedia
    if isActive remote && rtpMedia remote && capability.media = remote.media &&
        (capability.mid = [] || isActive capability) && codecs ≠ [] then
      let media ← acceptedMedia result remote capability codecs
      pure ({ result with medias := result.medias ++ [media], dtls := media.dtls }, accepted + 1)
    else pure rejected

/-- The answer that `CreateAnswer` makes, up to its origin, and the offer as it is left by it. -/
def answerDescription : Except String (SdpSession × SdpSession) := do
  require (((capabilities.medias.filter fun item => item.mid = []).map SdpMedia.media).Nodup &&
    ((capabilities.medias.filter fun item => item.mid ≠ []).map SdpMedia.mid).Nodup)
    "Duplicate local media capability"
  let result := sessionDefaults { capabilities with type := .answer, medias := [], bundle := [] }
  let (result, accepted) ← n.wireOffer.medias.foldlM
    (answerMedia capabilities.medias singleCodecPerMedia) (result, 0)
  require (accepted ≠ 0 || n.hasCurrent) "No compatible RTP codecs in the offer"
  let result := { result with
    bundle := n.wireOffer.bundle.filter fun mid =>
      result.medias.any fun media => media.mid = mid && isActive media }
  let result ← validateDescription result true n.hasCurrent
  validateAnswer n.wireOffer result
  match effectiveOffer n.wireOffer result with
  | none => throw "Selected codec cannot be applied to the offer direction"
  | some remote => pure (result, remote)

/-- `CreateAnswer`: the answer, if the call returns true. -/
def createAnswer : SdpNegotiator × Option SdpSession :=
  if n.state ≠ .haveRemoteOffer then
    (n.reject "Apply a remote offer before creating an answer", none)
  else match n.answerDescription capabilities singleCodecPerMedia with
    | .error error => (n.reject error, none)
    | .ok (result, remote) => match n.setLocalOrigin nextId result with
      | (n, none) => (n, none)
      | (n, some result) =>
        ({ n with
          pendingLocal := result
          pendingRemote := remote
          pendingReady := true
          lastError := "" }, some result)

/-- The checks of `ApplyAnswer`: the answer as it is normalised, and the offer as it is left. -/
def acceptAnswer (answer : SdpSession) : Except String (SdpSession × SdpSession) := do
  let normalized ← validateDescription answer true true
  validateAnswer n.wireOffer normalized
  require (!n.hasCurrent || newRemoteOrigin n.currentRemote.origin normalized.origin
    n.currentRemoteSdp (serialize normalized))
    ("Remote SDP origin must retain its session ID and advance its version " ++
      "when content changes")
  match effectiveOffer n.wireOffer normalized with
  | none => throw "Selected codec cannot be applied to the offer direction"
  | some own => pure (normalized, own)

/-- `ApplyAnswer`. -/
def applyAnswer (answer : SdpSession) : SdpNegotiator × Bool :=
  if n.state ≠ .haveLocalOffer ∨ n.pendingReady then
    (n.reject "Create a local offer before applying one answer", false)
  else match n.acceptAnswer answer with
    | .error error => (n.reject error, false)
    | .ok (normalized, own) =>
      ({ n with
        pendingLocal := own
        pendingRemote := normalized
        pendingRemoteSdp := serialize normalized
        pendingReady := true
        lastError := "" }, true)

/-- `Rollback`. -/
def rollback : SdpNegotiator :=
  { n with
    pendingLocal := {}
    pendingRemote := {}
    wireOffer := {}
    pendingRemoteSdp := []
    pendingReady := false
    state := .stable
    lastError := "" }

/-- `Commit`. -/
def commit : SdpNegotiator × Bool :=
  if n.pendingReady = false then (n, false)
  else
    ({ n with
      currentLocal := n.pendingLocal
      currentRemote := n.pendingRemote
      currentRemoteSdp := n.pendingRemoteSdp
      hasCurrent := true }.rollback, true)

end SdpNegotiator

end Packetia.Sdp
