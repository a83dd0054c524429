import Packetia.Lib.Run
import Packetia.Lib.Text

/-!
# A transcoding session

`service/TranscodeService/TranscodeSession.cpp`. Any thread hands frames to `SubmitFrame`, which
queues them; one worker (`Run`) takes them off and gives them to a backend. A frame that is lost
must not leave the decoder to go on behind the gap: `RecoverLocked` drops what is queued, waits for
a key frame and has the backend opened anew in front of it.

A step is a section that holds the mutex, or a call of the backend (or of another callback) by the
worker, which may fail or throw; `Worker` is where the worker is between two of them. The model
starts where `Start` has started the worker.

The runs of frames given to the backend between two calls of `Open`, the time stamps given to it
and the frames that passed the first check of `SubmitFrame` are kept for the results only.
-/

namespace Packetia.Transcode

inductive MediaType
  | unknown
  | audio
  | video
  | data
  deriving DecidableEq

inductive CodecType
  | unknown
  | h264
  | h265
  | opus
  | pcmu
  | pcma
  | aac
  | vp8
  | vp9
  | av1
  deriving DecidableEq

inductive InputTimestampMode
  | mediaTime
  | rtp32

/-- An identity, or a filter for identities. -/
structure TranscodeSource where
  endpointId : ℕ
  trackId : ℕ
  sessionId : Text := []
  streamId : Text := []
  ssrc : ℕ := 0
  mediaStreamId : ℕ := 0
  deriving DecidableEq

/-- What is left open in a filter matches anything. -/
def TranscodeSource.Matches (input actual : TranscodeSource) : Prop :=
  input.endpointId = actual.endpointId ∧ input.trackId = actual.trackId ∧
    (input.sessionId = [] ∨ input.sessionId = actual.sessionId) ∧
    (input.streamId = [] ∨ input.streamId = actual.streamId) ∧
    (input.ssrc = 0 ∨ input.ssrc = actual.ssrc) ∧
    (input.mediaStreamId = 0 ∨ input.mediaStreamId = actual.mediaStreamId)
  deriving Decidable

structure EncodedFrameEvent where
  source : TranscodeSource
  /-- `Valid()`: a source, a frame, and one that passes its own check. -/
  valid : Bool
  trackId : ℕ
  mediaType : MediaType
  codec : CodecType
  complete : Bool
  keyFrame : Bool
  storageSize : ℕ
  pts : ℤ
  timeBaseNum : ℤ
  timeBaseDen : ℤ
  deriving DecidableEq

/-- The configuration of a task that passed `Validate`. -/
structure TranscodeTaskConfig where
  input : TranscodeSource
  inputCodec : CodecType
  timestampMode : InputTimestampMode
  maxFrames : ℕ
  maxBytes : ℕ
  maxFrames_pos : 0 < maxFrames

structure QueuedFrame where
  event : EncodedFrameEvent
  reset : Bool
  /-- Its number among the frames that passed the first check. -/
  offer : ℕ
  deriving DecidableEq

inductive TaskState
  | starting
  | running
  | stopping
  | stopped
  | failed
  deriving DecidableEq

/-- How a call of the backend ends. -/
inductive Outcome
  | ok
  | failed
  | threw
  deriving DecidableEq

/-- Where the worker is. -/
inductive Worker
  | creating
  | opening
  /-- At the head of its loop. -/
  | waiting
  /-- It has left the section at the head of the loop, to request a key frame or not. -/
  | popped (item : Option QueuedFrame) (request : Bool)
  | reopening (item : QueuedFrame)
  /-- To check the frame and to give it to the backend. -/
  | ready (item : QueuedFrame)
  /-- In `Publish`, for the last time or not. -/
  | publishing (last : Bool)
  /-- To call `RecoverLocked`. -/
  | recovering
  /-- To call `FailLocked`, and to leave the loop or, from a handler, the thread. -/
  | failing (item : Option QueuedFrame) (caught : Bool)
  /-- Behind the loop. -/
  | leaving
  | flushing
  | ended
  deriving DecidableEq

structure State where
  state : TaskState := .starting
  stopping : Bool := false
  queue : List QueuedFrame := []
  queueFrames : ℕ := 0
  queueBytes : ℕ := 0
  waitingForIdr : Bool := true
  resetNext : Bool := false
  requestPending : Bool := true
  worker : Worker := .creating
  sourceSsrc : ℕ
  /-- `highest_timestamp`, once `timestamp_started`. -/
  highest : Option ℤ := none
  relevant : List EncodedFrameEvent := []
  /-- The frames given to the backend since the last `Open`. -/
  run : List QueuedFrame := []
  /-- The earlier runs. -/
  runs : List (List QueuedFrame) := []
  /-- The time stamps given to the backend, each behind the one of its frame. -/
  stamps : List (ℤ × ℤ) := []

namespace State

variable (config : TranscodeTaskConfig) (s : State)

/-- `RecoverLocked`. -/
def recover : State :=
  { s with
    queue := [], queueFrames := 0, queueBytes := 0
    waitingForIdr := true, resetNext := true, requestPending := true }

/-- `FailLocked`. -/
def fail : State :=
  { s with state := .failed, stopping := true, queue := [], queueFrames := 0, queueBytes := 0 }

variable (event : EncodedFrameEvent)

/-- The first check of `SubmitFrame`. -/
def Relevant : Prop :=
  s.state = .running ∧ s.stopping = false ∧ event.valid = true ∧
    config.input.Matches event.source ∧ event.source.trackId = event.trackId ∧
    event.mediaType = .video ∧ event.codec = config.inputCodec
  deriving Decidable

/-- The rest of `SubmitFrame`, for a complete frame and behind the check for room. -/
def push (offer : ℕ) : State :=
  if (s.waitingForIdr = true ∧ event.keyFrame = false) ∨ config.maxBytes < event.storageSize then s
  else
    { s with
      queue := s.queue ++ [⟨event, s.resetNext, offer⟩]
      resetNext := false
      waitingForIdr := false
      queueFrames := s.queue.length + 1
      queueBytes := s.queueBytes + event.storageSize }

def submitFrame : State :=
  if s.Relevant config event then
    let next := { s with relevant := s.relevant ++ [event] }
    if event.complete = false then next.recover
    else if config.maxFrames ≤ s.queue.length ∨
        config.maxBytes - s.queueBytes < event.storageSize then
      next.recover.push config event s.relevant.length
    else next.push config event s.relevant.length
  else s

end State

/-! ## The worker -/

/-- The time stamp behind the highest one that is nearest to the 32-bit one; none, if it does not
    fit into 64 bits. -/
def extend (highest pts : ℤ) : Option ℤ :=
  let ahead := (pts - highest) % 2 ^ 32
  let delta := if 2 ^ 31 ≤ ahead then ahead - 2 ^ 32 else ahead
  if 0 < delta ∧ 2 ^ 63 - 1 - delta < highest then none else some (highest + delta)

/-- The time stamp to give to the backend, with the highest one from then on. -/
def stamp (mode : InputTimestampMode) (highest : Option ℤ) (event : EncodedFrameEvent) :
    Option (ℤ × Option ℤ) :=
  match mode with
  | .mediaTime => some (event.pts, highest)
  | .rtp32 =>
    if event.timeBaseNum ≠ 1 ∨ event.timeBaseDen ≠ 90000 ∨ event.pts < 0 ∨ 2 ^ 32 ≤ event.pts then
      none
    else
      match highest with
      | none => some (event.pts, some event.pts)
      | some highest => (extend highest event.pts).map fun pts => (pts, some (max pts highest))

namespace State

variable (config : TranscodeTaskConfig) (s : State)

def atWorker (worker : Worker) : State := { s with worker := worker }

/-- A call that ends the thread if it throws, and the loop if it fails. -/
def next (outcome : Outcome) (item : Option QueuedFrame) (worker : Worker) : Worker :=
  match outcome with
  | .ok => worker
  | .failed => .failing item false
  | .threw => .failing item true

/-- The section at the head of the loop, once its wait is over. -/
def pop : State :=
  if s.state = .failed ∨ s.stopping = true ∧ s.queue = [] then s.atWorker .leaving
  else
    { s with
      requestPending := false
      queue := s.queue.tail
      queueFrames := s.queue.tail.length
      queueBytes := s.queueBytes - (s.queue.head?.elim 0 (·.event.storageSize))
      worker := .popped s.queue.head? (s.requestPending && !s.stopping) }

/-- The frame is given to the backend, unless it is of another source or its time stamp is
    refused. -/
def input (item : QueuedFrame) (outcome : Outcome) : State :=
  let ssrc := item.event.source.ssrc
  if s.sourceSsrc ≠ 0 ∧ ssrc ≠ 0 ∧ s.sourceSsrc ≠ ssrc then s.atWorker (.failing item false)
  else
    match stamp config.timestampMode s.highest item.event with
    | none => { s with sourceSsrc := if ssrc ≠ 0 then ssrc else s.sourceSsrc }.atWorker
        (.failing item false)
    | some (pts, highest) =>
      { s with
        sourceSsrc := if ssrc ≠ 0 then ssrc else s.sourceSsrc
        highest := highest
        run := s.run ++ [item]
        stamps := s.stamps ++ [(item.event.pts, pts)]
        worker := match outcome with
          | .ok => .publishing false
          | .failed => .recovering
          | .threw => .failing none true }

/-- What the worker does next. The outcome is that of the call it makes, if it makes one. -/
def work (outcome : Outcome) : State :=
  match s.worker with
  | .creating => s.atWorker (if outcome = .ok then .opening else .failing none true)
  | .opening =>
    if outcome = .ok then { s with state := .running }.atWorker .waiting
    else s.atWorker (.failing none true)
  | .waiting =>
    if s.stopping = true ∨ s.requestPending = true ∨ s.queue ≠ [] then s.pop else s
  | .popped item request =>
    if request = true ∧ outcome ≠ .ok then s.atWorker (.failing item true)
    else s.atWorker (item.elim .waiting fun item => if item.reset then .reopening item
      else .ready item)
  | .reopening item =>
    { s with run := [], runs := s.runs ++ [s.run] }.atWorker
      (next outcome (some item) (.ready item))
  | .ready item => s.input config item outcome
  | .publishing last =>
    s.atWorker (if outcome = .ok then (if last then .ended else .waiting) else .failing none true)
  | .recovering => s.recover.atWorker .waiting
  | .failing _ caught => s.fail.atWorker (if caught then .ended else .leaving)
  | .leaving =>
    s.atWorker (if s.state ≠ .failed ∧ s.resetNext = false then .flushing else .ended)
  | .flushing => s.atWorker (if outcome = .ok then .publishing true else .failing none true)
  | .ended => if s.state = .failed then s else { s with state := .stopped }

end State

inductive Step
  | submitFrame (event : EncodedFrameEvent)
  | stop
  /-- The thread is asked to end. -/
  | requestStop
  | work (outcome : Outcome)

def step (config : TranscodeTaskConfig) (s : State) : Step → State
  | .submitFrame event => s.submitFrame config event
  | .stop =>
    { s with stopping := true, state := if s.state = .running then .stopping else s.state }
  | .requestStop => { s with stopping := true }
  | .work outcome => s.work config outcome

/-- The state of a session after `steps`. -/
def after (config : TranscodeTaskConfig) (steps : List Step) : State :=
  run (step config) { sourceSsrc := config.input.ssrc } steps

end Packetia.Transcode
