import Packetia.Lib.Text

/-!
# Session descriptions

The data types of `sdp/SdpMode.h`. A description has session fields and m-lines; what the WebRTC
profile knows of an m-line has fields of its own, and `attributes` keeps the rest.
-/

namespace Packetia.Sdp

structure SdpAttribute where
  key : Text
  value : Text

structure SdpConnection where
  netType : Text := []
  addrType : Text := []
  address : Text := []

structure SdpRtpMap where
  payloadType : ℤ := -1
  encodingName : Text := []
  clockRate : ℤ := 0
  channels : ℤ := 0

structure SdpFmtp where
  payloadType : ℤ := -1
  params : Text := []

inductive SdpProfile
  | generic
  | webRtc

inductive SdpType
  | offer
  | answer
  | pranswer
  | rollback
  deriving DecidableEq

structure RtcpFeedback where
  type : Text
  parameter : Text := []
  deriving DecidableEq

structure IceParameters where
  ufrag : Text := []
  pwd : Text := []
  iceLite : Bool := false
  options : List Text := []
  candidates : List Text := []
  endOfCandidates : Bool := false

inductive DtlsSetup
  | unspecified
  | actPass
  | active
  | passive
  | holdConn
  deriving DecidableEq

structure DtlsFingerprint where
  algorithm : Text
  value : Text
  deriving DecidableEq

structure DtlsParameters where
  setup : DtlsSetup := .unspecified
  fingerprints : List DtlsFingerprint := []

inductive MediaDirection
  | sendRecv
  | sendOnly
  | recvOnly
  | inactive
  deriving DecidableEq

structure RtpCodecParameters where
  payloadType : ℤ := -1
  encodingName : Text := []
  clockRate : ℤ := 0
  channels : ℤ := 0
  fmtp : Text := []
  rtcpFeedback : List RtcpFeedback := []

structure RtpHeaderExtensionParameters where
  id : ℤ := 0
  uri : Text := []
  direction : MediaDirection := .sendRecv
  attributes : Text := []

structure RtpSsrcParameters where
  ssrc : BitVec 32
  attributes : List SdpAttribute := []

structure RtpSsrcGroup where
  semantics : Text
  ssrcs : List (BitVec 32) := []

structure SdpMedia where
  media : Text := []
  port : ℤ := 0
  proto : Text := []
  fmts : List Text := []
  attributes : List SdpAttribute := []
  conn : SdpConnection := {}
  rtpmaps : List SdpRtpMap := []
  fmtps : List SdpFmtp := []
  portCount : ℤ := 1
  mid : Text := []
  direction : MediaDirection := .sendRecv
  rtcpMux : Bool := false
  rtcpRsize : Bool := false
  bundleOnly : Bool := false
  ice : IceParameters := {}
  dtls : DtlsParameters := {}
  codecs : List RtpCodecParameters := []
  headerExtensions : List RtpHeaderExtensionParameters := []
  rtcpFeedback : List RtcpFeedback := []
  ssrcs : List RtpSsrcParameters := []
  ssrcGroups : List RtpSsrcGroup := []
  msids : List Text := []

structure SdpOrigin where
  username : Text := []
  sessId : Text := []
  sessVersion : Text := []
  netType : Text := []
  addrType : Text := []
  unicastAddress : Text := []

structure SdpSession where
  version : ℤ := 0
  origin : SdpOrigin := {}
  sessionName : Text := []
  connection : Text := []
  timing : Text := []
  conn : SdpConnection := {}
  attributes : List SdpAttribute := []
  medias : List SdpMedia := []
  profile : SdpProfile := .generic
  type : SdpType := .offer
  ice : IceParameters := {}
  dtls : DtlsParameters := {}
  /-- The mids of the BUNDLE group. -/
  bundle : List Text := []

end Packetia.Sdp
