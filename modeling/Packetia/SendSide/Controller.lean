import Packetia.Rtcp.Reports

/-!
# The controller of the send side

`SendSideController` (`media/quality/SendSideController.cpp`) keeps the packets that have been
sent on a transport until their feedback arrives, and passes the feedback on to the
congestion controller. Packets have an extended number from the transport's
allocator; the feedback has its low 16 bits. `PacketHistory` finds the packet by the
extended number closest to the latest one.

The history is emptied when the route changes or the network comes or goes, which begins a
new epoch; the numbers go on. The congestion controller itself is not modelled: what is
passed to it is the output of a call.
-/

namespace Packetia.SendSide

open Twcc

inductive MediaKind
  | unknown
  | audio
  | video
  | retransmission
  | padding
  deriving DecidableEq

structure PacketSendInfo where
  transportSequence : ℤ := -1
  ssrc : BitVec 32 := 0
  rtpSequence : BitVec 16 := 0
  sendTimeMs : ℕ := 0
  sizeBytes : BitVec 32 := 0
  mediaKind : MediaKind := .unknown
  dataInFlightBytes : BitVec 32 := 0
  isProbe : Bool := false
  probeClusterId : ℤ := -1
  deriving DecidableEq

structure PacketFeedback where
  sentPacket : PacketSendInfo
  received : Bool := false
  receiveTimeMs : ℕ := 0
  deriving DecidableEq

structure TransportFeedback where
  feedbackTimeMs : ℕ := 0
  dataInFlightBytes : BitVec 32 := 0
  packetFeedbacks : List PacketFeedback := []
  deriving DecidableEq

/-! ## The packets that have been sent -/

/-- `PacketHistory`. -/
structure PacketHistory where
  maxPackets : ℕ := 2048
  latestSequence : ℤ := -1
  order : List ℤ := []
  /-- `packets_`, by key. -/
  packets : ℤ → Option PacketSendInfo := fun _ => none

namespace PacketHistory

/-- The loop at the end of `AddPacket`: the first keys go while there are too many. -/
def evict (h : PacketHistory) : List ℤ → PacketHistory
  | [] => { h with order := [] }
  | key :: order =>
    if (key :: order).length > h.maxPackets then
      evict { h with packets := Function.update h.packets key none } order
    else { h with order := key :: order }

/-- `AddPacket`. -/
def addPacket (h : PacketHistory) (packet : PacketSendInfo) : PacketHistory :=
  if packet.transportSequence < 0 then h
  else
    let key := packet.transportSequence
    let order := if (h.packets key).isNone then h.order ++ [key] else h.order
    evict { h with
      packets := Function.update h.packets key (some packet)
      latestSequence := max h.latestSequence key } order

/-- The extended number that a 16-bit number is taken for: the closest to the latest one. -/
def extendedOf (latestSequence : ℤ) (sequence : BitVec 16) : ℤ :=
  let delta : ℤ := sequence.toNat - latestSequence % 65536
  let delta := if delta > 32767 then delta - 65536 else delta
  let delta := if delta < -32768 then delta + 65536 else delta
  latestSequence + delta

/-- `GetPacketByWireSequence`. -/
def getPacketByWireSequence (h : PacketHistory) (sequence : BitVec 16) : Option PacketSendInfo :=
  if h.latestSequence < 0 then none else h.packets (extendedOf h.latestSequence sequence)

/-- `RemovePacket`. -/
def removePacket (h : PacketHistory) (transportSequence : ℤ) : PacketHistory :=
  { h with packets := Function.update h.packets transportSequence none }

/-- `RemoveExpired`. -/
def removeExpired (h : PacketHistory) (nowMs maxAgeMs : ℕ) : PacketHistory :=
  let packets := fun key => (h.packets key).filter fun packet =>
    ¬(nowMs ≥ packet.sendTimeMs ∧ nowMs - packet.sendTimeMs ≥ maxAgeMs)
  { h with packets, order := h.order.dropWhile fun key => (packets key).isNone }

/-- `Clear`. -/
def clear (h : PacketHistory) : PacketHistory :=
  { h with latestSequence := -1, order := [], packets := fun _ => none }

end PacketHistory

/-- The feedback of an entry of a report, if its packet is known. -/
def feedbackOf (history : PacketHistory) (item : FeedbackPacket) : Option PacketFeedback :=
  (history.getPacketByWireSequence item.transportSequence).map fun sentPacket =>
    { sentPacket, received := item.received, receiveTimeMs := item.receiveTimeMs }

/-- `TransportFeedbackAdapter::Build`. -/
def build (report : FeedbackReport) (history : PacketHistory) (feedbackTimeMs : ℕ) :
    TransportFeedback :=
  { feedbackTimeMs, packetFeedbacks := report.packets.filterMap (feedbackOf history) }

/-! ## The controller -/

structure SendSideController where
  /-- `config_.feedback_timeout_ms`. -/
  feedbackTimeoutMs : ℕ := 5000
  /-- The next number of `sequence_allocator_`. -/
  nextExtendedSequence : ℤ := 0
  history : PacketHistory := {}
  available : Bool := true
  hasTwcc : Bool := false
  lastValidTwccReceiveTimeMs : ℕ := 0
  pathEpoch : ℕ := 1

namespace SendSideController

variable (s : SendSideController)

/-- `TransportSequenceAllocator::Allocate`. -/
def allocate : (BitVec 16 × ℤ) × SendSideController :=
  ((BitVec.ofInt 16 s.nextExtendedSequence, s.nextExtendedSequence),
    { s with nextExtendedSequence := s.nextExtendedSequence + 1 })

/-- `OnPacketSent`. -/
def onPacketSent (packet : PacketSendInfo) : SendSideController :=
  if s.available then { s with history := s.history.addPacket packet } else s

/-- `ProcessIntervalLocked`. -/
def processIntervalLocked (nowMs : ℕ) : SendSideController :=
  let s := { s with history := s.history.removeExpired nowMs s.feedbackTimeoutMs }
  if s.hasTwcc ∧ nowMs ≥ s.lastValidTwccReceiveTimeMs ∧
      nowMs - s.lastValidTwccReceiveTimeMs ≥ s.feedbackTimeoutMs then
    { s with hasTwcc := false, lastValidTwccReceiveTimeMs := 0 }
  else s

/-- A round of the loop over the reports: what is passed to the congestion controller. -/
def onReport (receiveTimeMs : ℕ) (report : FeedbackReport) :
    List TransportFeedback × SendSideController :=
  let feedback := build report s.history receiveTimeMs
  if feedback.packetFeedbacks = [] then ([], s)
  else
    ([feedback], { s with
      history := feedback.packetFeedbacks.foldl
        (fun history packet => history.removePacket packet.sentPacket.transportSequence) s.history
      hasTwcc := true
      lastValidTwccReceiveTimeMs := receiveTimeMs })

/-- The loop over the reports. -/
def onReports (receiveTimeMs : ℕ) :
    SendSideController → List FeedbackReport → List TransportFeedback × SendSideController
  | s, [] => ([], s)
  | s, report :: reports =>
    let (passed, s) := s.onReport receiveTimeMs report
    let (rest, s) := onReports receiveTimeMs s reports
    (passed ++ rest, s)

end SendSideController

/-- The transport feedback among the calls of the observer. -/
def reportsIn (events : List Rtcp.Event) : List FeedbackReport :=
  events.filterMap fun event =>
    match event with
    | .transportFeedback report => some report
    | _ => none

namespace SendSideController

variable (s : SendSideController)

/-- `OnRtcpPacket`. -/
def onRtcpPacket (data : List Byte) (receiveTimeMs : ℕ) :
    Bool × List TransportFeedback × SendSideController :=
  let (ok, events) := (Rtcp.onRtcpPacket true data.length).value data
  if ¬ok then (false, [], s)
  else if ¬s.available then (true, [], s)
  else (true, onReports receiveTimeMs (s.processIntervalLocked receiveTimeMs) (reportsIn events))

/-- `OnReceiverFeedback` and `OnProcessInterval`, which only look for what has expired. -/
def onProcessInterval (nowMs : ℕ) : SendSideController :=
  if ¬s.available then s else s.processIntervalLocked nowMs

/-- A new epoch. -/
def beginEpoch (available : Bool) : SendSideController :=
  { s with
    pathEpoch := s.pathEpoch + 1, history := s.history.clear, hasTwcc := false
    lastValidTwccReceiveTimeMs := 0, available }

/-- `SetNetworkAvailable`. -/
def setNetworkAvailable (available : Bool) : SendSideController :=
  if s.available = available then s else s.beginEpoch available

/-- `OnNetworkRouteChanged`. -/
def onNetworkRouteChanged : SendSideController := s.beginEpoch true

end SendSideController

inductive Call
  | allocate
  | packetSent (packet : PacketSendInfo)
  | rtcpPacket (data : List Byte) (receiveTimeMs : ℕ)
  | processInterval (nowMs : ℕ)
  | setNetworkAvailable (available : Bool)
  | networkRouteChanged

namespace SendSideController

/-- The state after a call. -/
def step (s : SendSideController) : Call → SendSideController
  | .allocate => s.allocate.2
  | .packetSent packet => s.onPacketSent packet
  | .rtcpPacket data receiveTimeMs => (s.onRtcpPacket data receiveTimeMs).2.2
  | .processInterval nowMs => s.onProcessInterval nowMs
  | .setNetworkAvailable available => s.setNetworkAvailable available
  | .networkRouteChanged => s.onNetworkRouteChanged

/-- What a call passes to the congestion controller. -/
def passed (s : SendSideController) : Call → List TransportFeedback
  | .rtcpPacket data receiveTimeMs => (s.onRtcpPacket data receiveTimeMs).2.1
  | _ => []

end SendSideController

end Packetia.SendSide
