import Packetia.Lib.Run
import Packetia.Lib.Table
import Packetia.Lib.Text

/-!
# The recording dispatcher

`service/RecordService/RecordingDispatcher.cpp`. `Post` admits frames under a mutex and hands them
to a pool of workers; the worker of a stream owns its `RecordingSession`. Threads interleave at the
sections that hold the mutex, so a step of the model is one such section or one call of a session
by its worker, and `Focus` is where the worker is between two steps.

Every function of the dispatcher is about one stream, but for the totals of the queue and the
number of streams. So the maps by key are functions of the key here (`State.slots`), a worker has
one `Focus` for each of its streams, and the functions work on the `Stream` that `State.view` cuts
out. The worker may turn to another stream at any time: this allows more than one thread does.

A `StreamEntry` can be dropped and made anew, while a worker or a drain still refers to the old
one; such references are the numbers of entries.

What a session does with a frame is not modelled. Each of its calls ends in an `Outcome`, any of
which can happen. The sessions keep the frames they were given instead, and a stream the offers made
to `Post`: the results speak about them and nothing reads them.

Settings change through `ServerApp` and `RecordingService` alone, whose mutex serialises them. A
change that can switch recording off is followed by `RefreshStreamPolicies` before the next one
(`State.refreshDue`), and `StopRecording` keeps the mutex until `DrainStream` returns
(`State.waiting`).
-/

namespace Packetia.Record

/-- `{session_id, stream_id}`. -/
abbrev Key := Text × Text

structure EncodedFrameEvent where
  source : Key
  /-- `Valid()`: an endpoint, a frame, and one that passes its own check. -/
  valid : Bool
  storageSize : ℕ
  deriving DecidableEq

structure RecordingOptions where
  maxQueueFrames : ℕ
  maxQueueBytes : ℕ
  maxStreamQueueFrames : ℕ
  maxStreamQueueBytes : ℕ
  maxStreams : ℕ

structure StreamEntry where
  frames : ℕ := 0
  bytes : ℕ := 0
  epoch : ℕ := 0
  restart : Bool := false
  policyStop : Bool := false
  draining : Bool := false
  active : Bool := false

structure FrameJob where
  event : EncodedFrameEvent
  stream : ℕ
  epoch : ℕ
  /-- The number of the call of `Post` that admitted the frame. -/
  offer : ℕ
  deriving DecidableEq

/-- A `RecordingSession` with its entry, as the frames given to it in order. -/
structure SessionEntry where
  stream : ℕ
  frames : List FrameJob := []
  /-- It is over, but `on_worker_stop` still keeps it. -/
  closed : Bool := false
  deriving DecidableEq

/-- How calls of a session end: it goes on, it has finished, or an exception was thrown. -/
inductive Outcome
  | going
  | finished
  | threw
  deriving DecidableEq

/-- What the worker goes on with after `MarkInactive`. -/
inductive Next
  | complete (job : FrameJob)
  | away
  | stopping
  deriving DecidableEq

/-- Where the worker of a stream is. -/
inductive Focus
  /-- Idle, or busy with another stream. -/
  | away
  /-- In `handle`, before its first locked section. -/
  | taken (job : FrameJob)
  /-- Behind it, to close the session first or not. -/
  | admitted (job : FrameJob) (restart : Bool)
  /-- The session is new and the entry not yet marked active. -/
  | opened (job : FrameJob)
  /-- To give the frame to the session. -/
  | input (job : FrameJob)
  | markInactive (stream : ℕ) (next : Next)
  | retire (stream : ℕ) (next : Next)
  | complete (job : FrameJob)
  /-- In `on_worker_tick`, to end the session (`Finish`, `Close`) or to poll it (`Tick`). -/
  | ticking (ends : Bool)
  /-- In `on_worker_stop`, with the session still to be closed or not. -/
  | stopping (pending : Bool)
  deriving DecidableEq

def Next.focus : Next → Focus
  | complete job => .complete job
  | away => .away
  | stopping => .stopping false

structure QueueStats where
  frames : ℕ := 0
  bytes : ℕ := 0
  deriving DecidableEq

/-- What belongs to one stream. -/
structure Slot where
  /-- The registered entry; a new one, as long as there is none. -/
  entry : StreamEntry := {}
  /-- The jobs in flight, in the order of admission: those the pool holds, and in front the one
      its worker has taken. -/
  jobs : List FrameJob := []
  session : Option SessionEntry := none
  focus : Focus := .away
  /-- The numbers of the valid offers that the settings allowed. -/
  offers : List ℕ := []
  /-- The sessions that are gone. -/
  ended : List SessionEntry := []

structure State where
  /-- `config_`: the streams the settings allow to record. -/
  config : Option (Key → Bool)
  /-- `accepting_` and `started_`, which change together. -/
  accepting : Bool := true
  /-- The pool takes jobs. -/
  pool : Bool := true
  streams : Table Key ℕ := .empty
  nextEntry : ℕ := 0
  queued : QueueStats := {}
  slots : Key → Slot := fun _ => {}
  /-- The settings changed and `RefreshStreamPolicies` is still to be called. -/
  refreshDue : Bool := false
  /-- `DrainStream` waits for this entry of the stream. -/
  waiting : Option (Key × ℕ) := none
  /-- The number of valid offers. -/
  offered : ℕ := 0

/-- The dispatcher, as far as one stream is concerned. -/
structure Stream extends Slot where
  accepting : Bool
  /-- The settings allow to record the stream. -/
  allowed : Bool
  refreshDue : Bool
  waiting : Option ℕ
  /-- The number of the registered entry. -/
  stream : Option ℕ
  now : ℕ

namespace State

variable (s : State) (key : Key)

/-- `config_->Allows(Feature::Recording, key)`; without settings every stream is recorded. -/
def allows : Bool := s.config.all fun allowed => allowed key

def view : Stream :=
  { toSlot := s.slots key
    accepting := s.accepting
    allowed := s.allows key
    refreshDue := s.refreshDue
    waiting := (s.waiting.filter (·.1 = key)).map (·.2)
    stream := s.streams.find key
    now := s.offered }

/-- The stream is changed. -/
def put (v : Stream) : State :=
  { s with
    slots := Function.update s.slots key v.toSlot
    streams := match v.stream with
      | none => s.streams.erase key
      | some stream => s.streams.set key stream }

end State

/-! ## Admission -/

namespace Stream

variable (v : Stream)

/-- The entry is dropped. -/
def unregister : Stream := { v with stream := none, entry := {} }

/-- `if (!stream->frames && !stream->active) streams_.erase(stream->key)`. -/
def eraseUnused : Stream :=
  if v.entry.frames = 0 ∧ v.entry.active = false then v.unregister else v

/-- A valid offer that the settings allow. -/
def offer : Stream := { v with now := v.now + 1, offers := v.offers ++ [v.now] }

/-- What is in flight becomes stale, and the next frame starts a new session. -/
def cut : Stream :=
  { v with entry := { v.entry with epoch := v.entry.epoch + 1, restart := true } }

/-- The frame would exceed one of the four limits of the queue. -/
def full (options : RecordingOptions) (queued : QueueStats) (bytes : ℕ) : Bool :=
  options.maxQueueFrames ≤ queued.frames || options.maxQueueBytes - queued.bytes < bytes ||
    options.maxStreamQueueFrames ≤ v.entry.frames ||
    options.maxStreamQueueBytes - v.entry.bytes < bytes

/-- The frame is admitted. -/
def admitted (stream : ℕ) (event : EncodedFrameEvent) : Stream :=
  { v with
    entry := { v.entry with
      frames := v.entry.frames + 1, bytes := v.entry.bytes + event.storageSize }
    jobs := v.jobs ++ [⟨event, stream, v.entry.epoch, v.now⟩] }

/-- `Post` once it has the entry of the stream. -/
def enqueue (options : RecordingOptions) (pool : Bool) (queued : QueueStats) (stream : ℕ)
    (event : EncodedFrameEvent) : Stream × QueueStats :=
  if v.entry.draining then (v, queued)
  else if v.full options queued event.storageSize then (v.cut, queued)
  else if pool then
    (v.admitted stream event, ⟨queued.frames + 1, queued.bytes + event.storageSize⟩)
  else (v.eraseUnused, queued)

end Stream

/-- `Post`. -/
def post (options : RecordingOptions) (s : State) (event : EncodedFrameEvent) : State :=
  let v := s.view event.source
  let next := { s with offered := s.offered + 1 }
  if event.valid = false then s
  else if v.allowed = false then next
  else if v.accepting = false then next.put event.source v.offer
  else
    match v.stream with
    | some stream =>
      let result := v.enqueue options s.pool s.queued stream event
      { next.put event.source result.1.offer with queued := result.2 }
    | none =>
      if options.maxStreams ≤ s.streams.size then next.put event.source v.offer
      else
        let result := { v with stream := some s.nextEntry }.enqueue options s.pool s.queued
          s.nextEntry event
        { next.put event.source result.1.offer with
          queued := result.2, nextEntry := s.nextEntry + 1 }

/-! ## Settings -/

namespace Stream

variable (v : Stream)

/-- `RefreshStreamPolicies`, for a stream. -/
def refresh : Stream :=
  { v with
    refreshDue := false
    entry := if v.stream ≠ none ∧ v.allowed = false then
        { v.entry with epoch := v.entry.epoch + 1, restart := true, policyStop := true }
      else v.entry }

/-- `DrainStream` up to its wait, with the callback of `StopRecording`. -/
def drain : Stream :=
  { v with
    allowed := false
    waiting := v.stream
    entry := if v.stream = none then v.entry
      else { v.entry with draining := true, policyStop := false } }

/-- What `DrainStream` waits for. -/
def IsDrained (stream : ℕ) : Prop :=
  v.stream = some stream → v.entry.frames = 0 ∧ v.entry.active = false

/-- `DrainStream` after its wait. -/
def drained (stream : ℕ) : Stream :=
  { (if v.stream = some stream then v.unregister else v) with waiting := none }

end Stream

/-! ## Workers -/

namespace Stream

variable (v : Stream)

def atFocus (focus : Focus) : Stream := { v with focus := focus }

def endSession : Stream := { v with session := none, ended := v.ended ++ v.session.toList }

/-- `InputFrame`. -/
def give (job : FrameJob) : Stream :=
  { v with session := v.session.map fun entry : SessionEntry =>
      { entry with frames := entry.frames ++ [job] } }

/-- The worker finds the job not to be stale. -/
def Admits (job : FrameJob) : Prop :=
  job.epoch = v.entry.epoch ∧ (v.entry.draining = true ∨ v.allowed = true)
  deriving Decidable

/-- `Complete`, but for the totals. -/
def completed (job : FrameJob) : Stream :=
  { v with
    entry := { v.entry with
      frames := v.entry.frames - 1, bytes := v.entry.bytes - job.event.storageSize }
    jobs := v.jobs.tail }

/-- What the worker does next. The outcome is that of the session it calls, if it calls one. -/
def work (outcome : Outcome) : Stream :=
  match v.focus with
  | .away => v.jobs.head?.elim v fun job => v.atFocus (.taken job)
  | .taken job =>
    if v.Admits job then
      if v.entry.restart then
        { v with entry := { v.entry with restart := false, policyStop := false } }.atFocus
          (.admitted job true)
      else v.atFocus (.admitted job false)
    else v.atFocus (.complete job)
  | .admitted job restart =>
    if restart ∧ v.session ≠ none then
      v.endSession.atFocus (if outcome = .threw then .markInactive job.stream (.complete job)
        else .admitted job false)
    else if v.session ≠ none then v.atFocus (.input job)
    else if outcome = .threw then v.atFocus (.markInactive job.stream (.complete job))
    else { v with session := some { stream := job.stream } }.atFocus (.opened job)
  | .opened job => { v with entry := { v.entry with active := true } }.atFocus (.input job)
  | .input job =>
    if outcome = .going then (v.give job).atFocus (.complete job)
    else (v.give job).endSession.atFocus (.markInactive job.stream (.complete job))
  | .markInactive stream next =>
    (if v.stream = some stream then { v with entry := { v.entry with active := false } }
      else v).atFocus (.retire stream next)
  | .retire stream next =>
    (if v.stream = some stream then v.eraseUnused else v).atFocus next.focus
  | .complete job => (v.completed job).eraseUnused.atFocus .away
  | .ticking ends =>
    match v.session with
    | none => v.atFocus .away
    | some entry =>
      if ends = false ∧ outcome = .going then v.atFocus .away
      else v.endSession.atFocus (.markInactive entry.stream .away)
  | .stopping true =>
    match v.session with
    | none => v.atFocus (.stopping false)
    | some entry =>
      { v with session := some { entry with closed := true } }.atFocus
        (.markInactive entry.stream .stopping)
  | .stopping false => v.endSession

/-- The section of `on_worker_tick` for the session. -/
def tick : Stream :=
  if v.focus = .away ∧ v.session ≠ none then
    let read := if v.entry.policyStop then
      { v with entry := { v.entry with policyStop := false, restart := false } } else v
    if v.entry.draining ∧ v.entry.frames ≠ 0 then read
    else read.atFocus (.ticking (v.entry.draining || v.entry.policyStop))
  else v

/-- `on_worker_stop` begins, once the pool has stopped and no job is left. -/
def stopWorker : Stream :=
  if v.focus = .away ∧ v.jobs = [] then v.atFocus (.stopping v.session.isSome) else v

end Stream

/-! ## Steps -/

inductive Step
  | post (event : EncodedFrameEvent)
  | work (key : Key) (outcome : Outcome)
  | tick (key : Key)
  | stopWorker (key : Key)
  /-- Settings change so that some streams are recorded that were not: `StartRecording`, or
      `SetServiceEnabled`. -/
  | enable (streams : Key → Bool)
  /-- Settings change in any other way: `SetStreamConfig`, `RemoveStreamConfig`,
      `SetStreamDefaults`. -/
  | setConfig (allowed : Key → Bool)
  | refreshStreamPolicies
  | drainStream (key : Key)
  /-- The wait of `DrainStream` is over. -/
  | drained
  /-- `Stop` closes admission. -/
  | stop
  /-- `Stop` closes the pool. -/
  | stopPool
  /-- `Stop` has joined the workers. -/
  | stopped

/-- No other call that changes the settings is under way. -/
def State.settled (s : State) : Bool := !s.refreshDue && s.waiting.isNone

/-- The totals of the queue behind what the worker does next: `Complete` takes its job off. -/
def Focus.queuedAfter (queued : QueueStats) : Focus → QueueStats
  | complete job => ⟨queued.frames - 1, queued.bytes - job.event.storageSize⟩
  | away | taken _ | admitted _ _ | opened _ | input _ | markInactive _ _ | retire _ _
  | ticking _ | stopping _ => queued

/-- One step. A step that is not possible in a state leaves it as it is. -/
def step (options : RecordingOptions) (s : State) : Step → State
  | .post event => post options s event
  | .work key outcome =>
    { s.put key ((s.view key).work outcome) with
      queued := (s.slots key).focus.queuedAfter s.queued }
  | .tick key => s.put key (s.view key).tick
  | .stopWorker key => if s.pool then s else s.put key (s.view key).stopWorker
  | .enable streams =>
    if s.settled then
      { s with config := s.config.map fun allowed key => allowed key || streams key }
    else s
  | .setConfig allowed =>
    if s.settled ∧ s.config.isSome then { s with config := some allowed, refreshDue := true }
    else s
  | .refreshStreamPolicies =>
    if s.config.isNone then s
    else { s with refreshDue := false, slots := fun key => (s.view key).refresh.toSlot }
  | .drainStream key =>
    match s.config with
    | none => s
    | some allowed =>
      if s.settled ∧ s.accepting then
        { s.put key (s.view key).drain with
          config := some (Function.update allowed key false)
          waiting := (s.view key).drain.waiting.map (key, ·) }
      else s
  | .drained =>
    match s.waiting with
    | none => s
    | some (key, stream) =>
      if (s.streams.find key = some stream →
          (s.slots key).entry.frames = 0 ∧ (s.slots key).entry.active = false) then
        { s.put key ((s.view key).drained stream) with waiting := none }
      else s
  | .stop => if s.waiting = none then { s with accepting := false } else s
  | .stopPool => if s.accepting then s else { s with pool := false }
  | .stopped =>
    if ∀ key ∈ s.streams.keys, (s.slots key).focus = .stopping false ∧ (s.slots key).session = none
    then { s with
      streams := .empty, queued := {}, slots := fun key => (s.view key).unregister.toSlot }
    else s

/-- The state after `steps`, from the start of a dispatcher with the given settings. -/
def after (options : RecordingOptions) (config : Option (Key → Bool)) (steps : List Step) : State :=
  run (step options) { config := config } steps

end Packetia.Record
