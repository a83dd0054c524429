import Packetia.Lib.Run

/-!
# Bounded channels

`BoundedChannel` and `ChannelBudget` (`utils/BoundedChannel.h`). Producers send messages; a pump,
which runs on an executor, takes them out one by one and hands them to a consumer. A channel has
limits of its own, and all channels share a budget. The flag `scheduled` says that a pump is under
way, so that there is never more than one.

Calls on a channel come from any thread, and a call gives up the lock between its steps. A step is
a locked section, a post to the executor, or a call of a completion. What a call has left to do
after a step is a `Task` of the channel; the tasks go on in any order. A channel with an
asynchronous consumer gives it a completion for every message (`Closure`), which may be called any
number of times, or never.

The `log` of a channel is what has happened to it, for the statements only.
-/

namespace Packetia.Channel

/-- `std::size_t`. -/
abbrev Size := BitVec 64

inductive ChannelResult
  | accepted
  | full
  | closed
  | cancelled
  deriving DecidableEq

inductive ChannelDelivery
  | ready
  | deferred
  | openGate
  deriving DecidableEq

/-! ## The budget -/

structure ChannelBudget where
  maxBytes : Size
  maxMessages : Size
  bytes : Size := 0
  messages : Size := 0

namespace ChannelBudget

variable (b : ChannelBudget)

def reserve (bytes : Size) : Option ChannelBudget :=
  if b.messages ≥ b.maxMessages ∨ bytes > b.maxBytes - b.bytes then none
  else some { b with bytes := b.bytes + bytes, messages := b.messages + 1 }

/-- `Release`, of one message. -/
def release (bytes : Size) : ChannelBudget :=
  { b with bytes := b.bytes - bytes, messages := b.messages - 1 }

end ChannelBudget

/-! ## Channels -/

structure Item (α : Type*) where
  message : α
  bytes : Size

/-- A step that is left to do. -/
inductive Task (α : Type*)
  /-- `Schedule`, called by `Send` or by others. -/
  | post (sending : Bool)
  /-- `Stop`, after `Schedule` was refused or `consume` has thrown. -/
  | stop (sending : Bool)
  /-- `Stop`, after `async_consume` has thrown; the completion is called next. -/
  | unwind (k : ℕ)
  /-- A call of the completion `k`. -/
  | complete (k : ℕ)
  /-- A pump that the executor has been given. -/
  | posted
  /-- A pump at the beginning of a round. -/
  | pump (batch : ℕ)
  /-- A pump that is waiting for `consume` to return. -/
  | consume (batch : ℕ) (item : Item α)
  /-- A pump that is waiting for `async_consume` to return. -/
  | async (k : ℕ)

/-- The completion of a message. -/
structure Closure (α : Type*) where
  item : Item α
  completed : Bool

inductive Event (α : Type*)
  | accepted (item : Item α)
  /-- `Send` has returned. -/
  | returned (result : ChannelResult)
  /-- A message has been taken out of the queue for the consumer. -/
  | consumed (item : Item α)
  /-- `consume` has returned or thrown, or the completion has been called. -/
  | finished (item : Item α)
  | stopped

/-- `BoundedChannel::State`. -/
structure Channel (α : Type*) where
  /-- There is an `async_consume`. -/
  isAsync : Bool
  maxBytes : Size
  maxMessages : Size
  ready : Bool
  bytes : Size := 0
  messages : Size := 0
  queue : List (Item α) := []
  deferred : List (Item α) := []
  scheduled : Bool := false
  status : ChannelResult := .accepted
  tasks : List (Task α) := []
  closures : List (Closure α) := []
  log : List (Event α) := []

/-- `batch < 16`. -/
def kBatch : ℕ := 16

/-- A channel and the budget, as a call sees them. -/
structure Scope (α : Type*) where
  budget : ChannelBudget
  channel : Channel α

namespace Channel

variable {α : Type*} (c : Channel α)

def push (t : Task α) : Channel α := { c with tasks := t :: c.tasks }

def note (e : Event α) : Channel α := { c with log := c.log ++ [e] }

/-- A message is put into the queue, or aside while the gate is closed. If it opens the gate,
    those that were put aside follow it. -/
def enqueue (item : Item α) (delivery : ChannelDelivery) : Channel α :=
  let c := if delivery = .deferred ∧ c.ready = false then
    { c with deferred := c.deferred ++ [item] } else { c with queue := c.queue ++ [item] }
  let c := { c with bytes := c.bytes + item.bytes, messages := c.messages + 1 }
  let c := c.note (.accepted item)
  if delivery = .openGate then
    { c with ready := true, queue := c.queue ++ c.deferred, deferred := [] }
  else c

/-- The end of the locked section of `Send`: the one that sets `scheduled` is to post a pump. -/
def wake : Channel α :=
  if c.scheduled = false ∧ c.queue ≠ [] then { c with scheduled := true }.push (.post true)
  else c.note (.returned .accepted)

def resetGate : Channel α := { c with ready := false }

end Channel

namespace Scope

variable {α : Type*} (s : Scope α)

/-- A message leaves the channel. -/
def release (item : Item α) : Scope α where
  budget := s.budget.release item.bytes
  channel := { s.channel with
    bytes := s.channel.bytes - item.bytes
    messages := s.channel.messages - 1 }

/-- The locked section of `Send`; `stored` is false if the list cannot take the message. -/
def send (message : α) (bytes : Size) (delivery : ChannelDelivery) (stored : Bool) : Scope α :=
  let c := s.channel
  if c.status ≠ .accepted then { s with channel := c.note (.returned c.status) }
  else if c.messages ≥ c.maxMessages ∨ bytes > c.maxBytes - c.bytes then
    { s with channel := c.note (.returned .full) }
  else
    match s.budget.reserve bytes with
    | none => { s with channel := c.note (.returned .full) }
    | some budget =>
      if stored = false then { s with budget := budget.release bytes }
      else { budget, channel := (c.enqueue { message, bytes } delivery).wake }

/-- `Stop`. -/
def stop (status : ChannelResult) : Scope α :=
  if s.channel.status ≠ .accepted then s
  else
    let s' := (s.channel.queue ++ s.channel.deferred).foldl release
      { s with channel := { s.channel with status } }
    { s' with channel := { s'.channel with queue := [], deferred := [] }.note .stopped }

/-- The locked section of `Pump`, with the call of the consumer. -/
def take (batch : ℕ) : Scope α :=
  let c := s.channel
  if c.status ≠ .accepted then { s with channel := { c with scheduled := false } }
  else
    match c.queue with
    | [] => { s with channel := { c with scheduled := false } }
    | item :: rest =>
      let c := { c with queue := rest }.note (.consumed item)
      let closures := c.closures ++ [{ item, completed := false }]
      { s with channel :=
          if c.isAsync then { c with closures }.push (.async c.closures.length)
          else c.push (.consume batch item) }

/-- A call of the completion `k`. -/
def complete (k : ℕ) : Scope α :=
  match s.channel.closures[k]? with
  | none => s
  | some closure =>
    if closure.completed then s
    else
      let s := { s with channel := { s.channel with
        closures := s.channel.closures.set k { closure with completed := true } } }
      let s := s.release closure.item
      let c := s.channel.note (.finished closure.item)
      { s with channel :=
          if c.status = .accepted then c.push (.post false) else { c with scheduled := false } }

/-- The end of a round of `Pump`; `ok` is false if `consume` has thrown. -/
def finish (batch : ℕ) (item : Item α) (ok : Bool) : Scope α :=
  let s := s.release item
  let c := s.channel.note (.finished item)
  { s with channel :=
      if ok = false then c.push (.stop false)
      else if batch + 1 < kBatch then c.push (.pump (batch + 1))
      else c.push (.post false) }

/-- A task goes on by one step. `ok` is the answer of `Post`, and false if a consumer throws. -/
def advance (ok : Bool) : Task α → Scope α
  | .post sending =>
    if ok then
      let c := s.channel.push .posted
      { s with channel := if sending then c.note (.returned .accepted) else c }
    else { s with channel := s.channel.push (.stop sending) }
  | .stop sending =>
    let s := s.stop .cancelled
    if sending then { s with channel := s.channel.note (.returned .cancelled) } else s
  | .unwind k =>
    let s := s.stop .cancelled
    { s with channel := s.channel.push (.complete k) }
  | .complete k => s.complete k
  | .posted => { s with channel := s.channel.push (.pump 0) }
  | .pump batch => s.take batch
  | .consume batch item => s.finish batch item ok
  | .async k => if ok then s else { s with channel := s.channel.push (.unwind k) }

/-- The task `i` of the channel goes on. -/
def resume (i : ℕ) (ok : Bool) : Scope α :=
  match s.channel.tasks[i]? with
  | none => s
  | some t =>
    advance { s with channel := { s.channel with tasks := s.channel.tasks.eraseIdx i } } ok t

end Scope

/-! ## Runs -/

/-- A step on a channel. -/
inductive Step (α : Type*)
  | send (message : α) (bytes : Size) (delivery : ChannelDelivery) (stored : Bool)
  | close
  | cancel
  | resetGate
  | resume (i : ℕ) (ok : Bool)
  | complete (k : ℕ)

def Scope.step {α : Type*} (s : Scope α) : Step α → Scope α
  | .send message bytes delivery stored => s.send message bytes delivery stored
  | .close => s.stop .closed
  | .cancel => s.stop .cancelled
  | .resetGate => { s with channel := s.channel.resetGate }
  | .resume i ok => s.resume i ok
  | .complete k => s.complete k

/-- Channels, known by an index, that share a budget. -/
structure System (ι α : Type*) where
  budget : ChannelBudget
  channels : ι → Channel α

namespace System

variable {ι α : Type*} [DecidableEq ι]

def step (s : System ι α) (e : ι × Step α) : System ι α :=
  let scope := Scope.step { budget := s.budget, channel := s.channels e.1 } e.2
  { budget := scope.budget, channels := Function.update s.channels e.1 scope.channel }

/-- The constructor of a channel: if it has a gate, the gate is open unless it is to be closed. -/
structure Config where
  isAsync : Bool
  maxBytes : Size
  maxMessages : Size
  startGated : Bool

def Config.channel (cfg : Config) : Channel α where
  isAsync := cfg.isAsync
  maxBytes := cfg.maxBytes
  maxMessages := cfg.maxMessages
  ready := !cfg.startGated

/-- New channels, with a new budget. -/
def start (maxBytes maxMessages : Size) (cfg : ι → Config) : System ι α where
  budget := { maxBytes, maxMessages }
  channels i := (cfg i).channel

/-- The channels after the steps `steps`. -/
def after (maxBytes maxMessages : Size) (cfg : ι → Config) (steps : List (ι × Step α)) :
    System ι α :=
  run step (start maxBytes maxMessages cfg) steps

end System

end Packetia.Channel
