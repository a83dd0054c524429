import Packetia.Lib.OrdMap
import Packetia.Lib.Run

/-!
# Requests for lost packets

`NackRequester` (`Rtsp/Rtp/NackRequester.cpp`) keeps the numbers that are missing from what
has been received. A number is missing once a later one has arrived. `Process` is called
from time to time. It requests the missing numbers again and again, after some time in which
they may still arrive by themselves, and gives up on those for which it is too late.

The calls are functions on the state of the requester. Of the callbacks it matters whether
they are set and what they are called with.
-/

namespace Packetia.Nack

/-- Sequence numbers in the order of their values, as the keys of `std::map<uint16_t, …>`. -/
instance (priority := low) seqOrder : LinearOrder (BitVec 16) where
  le_refl := BitVec.le_refl
  le_trans _ _ _ := BitVec.le_trans
  le_antisymm _ _ := BitVec.le_antisymm
  le_total := BitVec.le_total
  lt_iff_le_not_ge a b := by
    rw [BitVec.lt_def, BitVec.le_def, BitVec.le_def]
    omega
  toDecidableLE := inferInstance
  toDecidableLT := inferInstance
  toDecidableEq := inferInstance

structure Config where
  reorderWaitMs : ℕ := 20
  retryIntervalMs : ℕ := 50
  maxPacketAgeMs : ℕ := 500
  maxRetries : ℕ := 5
  maxNackListSize : ℕ := 1000
  maxBatchSize : ℕ := 50
  maxSequenceGap : ℕ := 100
  minRetryIntervalMs : ℕ := 20
  maxRetryIntervalMs : ℕ := 200
  failureCallbackIntervalMs : ℕ := 500
  deriving DecidableEq

structure PacketResult where
  wasMissing : Bool := false
  recoveredAfterNack : Bool := false
  timesNacked : ℕ := 0
  recoveryTimeMs : ℕ := 0

structure Stats where
  missingPackets : ℕ := 0
  reorderedPackets : ℕ := 0
  recoveredPackets : ℕ := 0
  nackRequests : ℕ := 0
  abandonedPackets : ℕ := 0
  largeGapResets : ℕ := 0
  deriving DecidableEq

structure MissingPacket where
  firstMissingMs : ℕ := 0
  lastNackMs : ℕ := 0
  nackCount : ℕ := 0
  deriving DecidableEq

/-- What `OnReceivedPacket` returns for a number that was missing. -/
def MissingPacket.result (missing : MissingPacket) (nowMs : ℕ) (recoveredByFec : Bool) :
    PacketResult where
  wasMissing := true
  timesNacked := missing.nackCount
  recoveredAfterNack := missing.nackCount > 0 || recoveredByFec
  recoveryTimeMs := if nowMs ≥ missing.firstMissingMs then nowMs - missing.firstMissingMs else 0

/-- The entry of a number that is requested. -/
def MissingPacket.nacked (packet : MissingPacket) (nowMs : ℕ) : MissingPacket :=
  { packet with lastNackMs := nowMs, nackCount := packet.nackCount + 1 }

/-- Counting a missing packet that has arrived. -/
def Stats.arrived (stats : Stats) (result : PacketResult) : Stats :=
  if result.recoveredAfterNack then { stats with recoveredPackets := stats.recoveredPackets + 1 }
  else { stats with reorderedPackets := stats.reorderedPackets + 1 }

structure NackRequester where
  config : Config
  initialized : Bool := false
  newestSeq : BitVec 16 := 0
  missingPackets : OrdMap (BitVec 16) MissingPacket := .empty
  rttMs : ℕ := 0
  lastFailureCallbackMs : ℕ := 0
  hasFailureCallbackTime : Bool := false
  stats : Stats := {}
  /-- `nack_callback_` is set. -/
  nackCallback : Bool := false
  /-- `recovery_failure_callback_` is set. -/
  recoveryFailureCallback : Bool := false
  deriving DecidableEq

/-- The constructor. -/
def NackRequester.make (config : Config) : NackRequester where
  config := { config with
    maxBatchSize := max 1 config.maxBatchSize
    maxRetryIntervalMs := max config.minRetryIntervalMs config.maxRetryIntervalMs }

/-- `IsNewerSequenceNumber`. -/
def IsNewerSequenceNumber (seq reference : BitVec 16) : Prop :=
  seq ≠ reference ∧ (seq - reference).toNat < 0x8000
  deriving Decidable

namespace NackRequester

variable (r : NackRequester)

/-! ## Receiving a packet -/

variable (seq : BitVec 16)

/-- A round of the loop of `AddMissingPackets`: `try_emplace`, counting what is new. -/
def addMissing (nowMs : ℕ) : NackRequester :=
  { r with
    missingPackets := r.missingPackets.emplace seq { firstMissingMs := nowMs }
    stats := if seq ∈ r.missingPackets.keys then r.stats
      else { r.stats with missingPackets := r.stats.missingPackets + 1 } }

/-- The loop of `AddMissingPackets`, with the number of rounds until `end` is reached. -/
def addMissingFrom (nowMs : ℕ) : NackRequester → BitVec 16 → ℕ → NackRequester
  | r, _, 0 => r
  | r, seq, n + 1 =>
    if r.missingPackets.size ≥ r.config.maxNackListSize then r
    else addMissingFrom nowMs (r.addMissing seq nowMs) (seq + 1) n

/-- `AddMissingPackets`. -/
def addMissingPackets (first last : BitVec 16) (nowMs : ℕ) : NackRequester :=
  addMissingFrom nowMs r first (last - first).toNat

/-- The first part of `OnReceivedPacket`: the number is no longer missing. -/
def clearMissing (nowMs : ℕ) (recoveredByFec : Bool) :
    PacketResult × NackRequester :=
  match r.missingPackets.find? seq with
  | none => ({}, r)
  | some missing =>
    let result := missing.result nowMs recoveredByFec
    (result, { r with
      missingPackets := r.missingPackets.erase seq, stats := r.stats.arrived result })

/-- The second part: a newer number, and what is missing before it. -/
def advance (nowMs : ℕ) : NackRequester :=
  if ¬IsNewerSequenceNumber seq r.newestSeq then r
  else
    let gap := seq - r.newestSeq
    if gap.toNat > r.config.maxSequenceGap then
      { r with
        missingPackets := .empty, newestSeq := seq
        stats := { r.stats with largeGapResets := r.stats.largeGapResets + 1 } }
    else if gap.toNat > 1 then
      { r.addMissingPackets (r.newestSeq + 1) seq nowMs with newestSeq := seq }
    else { r with newestSeq := seq }

/-- `OnReceivedPacket`. -/
def onReceivedPacket (nowMs : ℕ) (recoveredByFec : Bool) :
    PacketResult × NackRequester :=
  if ¬r.initialized then ({}, { r with initialized := true, newestSeq := seq })
  else
    let (result, r) := r.clearMissing seq nowMs recoveredByFec
    (result, r.advance seq nowMs)

/-! ## Requesting -/

/-- `RetryIntervalMs`. -/
def retryIntervalMs : ℕ :=
  if r.rttMs = 0 then
    -- `std::clamp`
    if r.config.retryIntervalMs < r.config.minRetryIntervalMs then r.config.minRetryIntervalMs
    else if r.config.maxRetryIntervalMs < r.config.retryIntervalMs then r.config.maxRetryIntervalMs
    else r.config.retryIntervalMs
  else max r.config.minRetryIntervalMs r.rttMs

/-- `retry_due`. -/
def RetryDue (nowMs : ℕ) (packet : MissingPacket) : Prop :=
  packet.nackCount = 0 ∨ nowMs ≥ packet.lastNackMs ∧ nowMs - packet.lastNackMs ≥ r.retryIntervalMs
  deriving Decidable

/-- `expired`. -/
def Expired (nowMs : ℕ) (packet : MissingPacket) : Prop :=
  nowMs - packet.firstMissingMs ≥ r.config.maxPacketAgeMs
  deriving Decidable

/-- `retries_exhausted`. -/
def RetriesExhausted (nowMs : ℕ) (packet : MissingPacket) : Prop :=
  packet.nackCount ≥ r.config.maxRetries ∧ r.RetryDue nowMs packet
  deriving Decidable

/-- `too_late_to_request`. -/
def TooLateToRequest (nowMs : ℕ) (packet : MissingPacket) : Prop :=
  ¬r.Expired nowMs packet ∧ r.RetryDue nowMs packet ∧ r.rttMs ≠ 0 ∧
    r.rttMs ≥ r.config.maxPacketAgeMs - (nowMs - packet.firstMissingMs)
  deriving Decidable

variable (nowMs : ℕ) (packet : MissingPacket)

/-- `Process` gives up on the packet. -/
def Abandons : Prop :=
  r.Expired nowMs packet ∨ r.RetriesExhausted nowMs packet ∨ r.TooLateToRequest nowMs packet
  deriving Decidable

/-- What the loop of `Process` has collected. -/
structure Sweep where
  nackBatch : List (BitVec 16) := []
  abandonedBatch : List (BitVec 16) := []
  stats : Stats

/-- A round of the loop of `Process`. -/
def visit (s : Sweep) (seq : BitVec 16) (packet : MissingPacket) : Sweep × Option MissingPacket :=
  if nowMs < packet.firstMissingMs then (s, none)
  else if r.Abandons nowMs packet then
    ({ s with
        abandonedBatch := s.abandonedBatch ++ [seq]
        stats := { s.stats with abandonedPackets := s.stats.abandonedPackets + 1 } }, none)
  -- The packet may still arrive by itself.
  else if nowMs - packet.firstMissingMs < r.config.reorderWaitMs then (s, some packet)
  else if r.RetryDue nowMs packet ∧ r.nackCallback ∧ s.nackBatch.length < r.config.maxBatchSize then
    ({ s with
        nackBatch := s.nackBatch ++ [seq]
        stats := { s.stats with nackRequests := s.stats.nackRequests + 1 } },
      some (packet.nacked nowMs))
  else (s, some packet)

/-- What comes out of `Process`. -/
structure Processed where
  requester : NackRequester
  /-- What `nack_callback_` is called with. -/
  nacks : Option (List (BitVec 16)) := none
  /-- The numbers that are given up. -/
  abandoned : List (BitVec 16) := []
  /-- What `recovery_failure_callback_` is called with. -/
  failures : Option (List (BitVec 16)) := none

/-- The recovery failure callback is due. -/
def FailureCallbackDue (abandoned : List (BitVec 16)) : Prop :=
  abandoned ≠ [] ∧ r.recoveryFailureCallback ∧
    (¬r.hasFailureCallbackTime ∨ nowMs < r.lastFailureCallbackMs ∨
      nowMs - r.lastFailureCallbackMs ≥ r.config.failureCallbackIntervalMs)
  deriving Decidable

/-- The loop of `Process`. -/
def sweep : Sweep × OrdMap (BitVec 16) MissingPacket :=
  r.missingPackets.sweep (r.visit nowMs) { stats := r.stats }

/-- `Process`. -/
def process : Processed :=
  if ¬r.initialized ∨ r.missingPackets.size = 0 then { requester := r }
  else
    let s := (r.sweep nowMs).1
    let nacks := if s.nackBatch ≠ [] ∧ r.nackCallback then some s.nackBatch else none
    let next := { r with missingPackets := (r.sweep nowMs).2, stats := s.stats }
    if r.FailureCallbackDue nowMs s.abandonedBatch then
      { requester := { next with lastFailureCallbackMs := nowMs, hasFailureCallbackTime := true }
        nacks, abandoned := s.abandonedBatch, failures := some s.abandonedBatch }
    else { requester := next, nacks, abandoned := s.abandonedBatch }

/-! ## The other calls -/

/-- `UpdateRtt`. -/
def updateRtt (rttMs : ℕ) : NackRequester := { r with rttMs }

/-- `ClearUpTo`. -/
def clearUpTo : NackRequester :=
  { r with missingPackets := r.missingPackets.filterKeys fun k => IsNewerSequenceNumber k seq }

/-- `AbandonPending`. -/
def abandonPending : NackRequester :=
  { r with
    missingPackets := .empty
    stats := { r.stats with
      abandonedPackets := r.stats.abandonedPackets + r.missingPackets.size } }

/-- `Reset`. -/
def reset : NackRequester :=
  { r with
    initialized := false, newestSeq := 0, rttMs := 0, lastFailureCallbackMs := 0
    hasFailureCallbackTime := false, missingPackets := .empty, stats := {} }

end NackRequester

/-- A call on the requester. -/
inductive Call
  | received (seq : BitVec 16) (nowMs : ℕ) (recoveredByFec : Bool)
  | process (nowMs : ℕ)
  | updateRtt (rttMs : ℕ)
  | clearUpTo (seq : BitVec 16)
  | abandonPending
  | reset
  | setNackCallback (callback : Bool)
  | setRecoveryFailureCallback (callback : Bool)

/-- The time of a call that has one. -/
def Call.timeMs : Call → Option ℕ
  | received _ nowMs _ => some nowMs
  | process nowMs => some nowMs
  | _ => none

namespace NackRequester

/-- The state after a call. -/
def step (r : NackRequester) : Call → NackRequester
  | .received seq nowMs recoveredByFec => (r.onReceivedPacket seq nowMs recoveredByFec).2
  | .process nowMs => (r.process nowMs).requester
  | .updateRtt rttMs => r.updateRtt rttMs
  | .clearUpTo seq => r.clearUpTo seq
  | .abandonPending => r.abandonPending
  | .reset => r.reset
  | .setNackCallback callback => { r with nackCallback := callback }
  | .setRecoveryFailureCallback callback => { r with recoveryFailureCallback := callback }

/-- A request for a number: its time, with the round trip time and the retry interval then. -/
structure Request where
  atMs : ℕ
  rttMs : ℕ
  intervalMs : ℕ
  deriving DecidableEq

/-- The request for `seq` that a call makes, if it does. -/
def requestOf (seq : BitVec 16) (r : NackRequester) : Call → List Request
  | .process nowMs =>
    if seq ∈ (r.process nowMs).nacks.getD [] then [⟨nowMs, r.rttMs, r.retryIntervalMs⟩] else []
  | _ => []

/-- The requests for `seq` that a sequence of calls makes. -/
def requests (seq : BitVec 16) : NackRequester → List Call → List Request
  | _, [] => []
  | r, c :: calls => requestOf seq r c ++ requests seq (r.step c) calls

end NackRequester

/-- The state after the calls of a run. -/
def after (config : Config) (calls : List Call) : NackRequester :=
  run NackRequester.step (.make config) calls

end Packetia.Nack
