import Packetia.Lib.Word
import Packetia.Lib.Run
import Packetia.Lib.OrdMap

/-!
# The RTP reorder queue

`RtpPacketReorderQueue` (`Rtsp/RtpPacketReorderQueue.h`) puts the packets of
one source back in order. Packets come with 16-bit sequence numbers; the queue
extends them to integers around `next`, the number it waits for:

* a packet at `next` is handed to the callback, and with it the packets
  buffered right behind it (`flushBuffered`);
* a packet less than `maxGap` ahead is buffered, and a packet behind is late;
* packets wait for a gap to be filled until the oldest of them is overdue
  (`flushExpired`), until there are too many of them, or until an explicit
  drain (`flushTimeout`); then the gap is skipped (`skipToFirst`);
* a packet further ahead is out of the window, unless it completes a run of
  consecutive ones while the queue is stalled (`confirmForwardResync`): then
  the queue jumps to it.

Times are the nanoseconds of the steady clock. Extended numbers and counters
are not bounded here: a 64-bit one takes at least `2 ^ 48` packets to overflow.
The callback is modelled by the list `sorted` of what it has been handed.
-/

namespace Packetia.Reorder

/-- When to follow a jump of the source; no consecutive packets disable it. -/
structure ResyncConfig where
  consecutivePackets : ℕ := 3
  /-- No normal output for at least this long. -/
  stalledMs : ℕ := 500
  /-- Total time to observe a consecutive run. -/
  probationMs : ℕ := 100

/-- What the constructor asks of the window. -/
def WindowOk (maxGap maxCache : ℕ) : Prop := 0 < maxGap ∧ maxGap ≤ 0x8000 ∧ maxCache < 0x8000
  deriving Decidable

/-- What the constructor asks of the resynchronisation. -/
def ResyncConfig.Ok (r : ResyncConfig) : Prop :=
  r.consecutivePackets ≠ 0 → 2 ≤ r.consecutivePackets ∧ r.consecutivePackets < 0x8000 ∧
    0 < r.stalledMs ∧ 0 < r.probationMs
  deriving Decidable

/-- A configuration the constructor has accepted. -/
structure Config where
  maxGap : ℕ
  maxCache : ℕ
  timeoutMs : ℕ
  resync : ResyncConfig
  window : WindowOk maxGap maxCache
  resync_ok : resync.Ok

/-- The constructor: it throws on a window or a resynchronisation it refuses. -/
def Config.create (maxGap : ℕ := 1000) (maxCache : ℕ := 50) (flushTimeoutMs : ℕ := 100)
    (resync : ResyncConfig := {}) : Except String Config :=
  if window : WindowOk maxGap maxCache then
    if resync_ok : resync.Ok then
      .ok { maxGap, maxCache, timeoutMs := flushTimeoutMs, resync, window, resync_ok }
    else .error "RTP resync needs a bounded consecutive run and positive time limits"
  else .error "RTP reorder window must be within half a sequence cycle"

/-- The configuration without arguments. -/
def Config.default : Config where
  maxGap := 1000
  maxCache := 50
  timeoutMs := 100
  resync := {}
  window := by decide
  resync_ok := by decide

example : Config.create = .ok .default := rfl

/-- Milliseconds, in the nanoseconds of the clock. -/
def ms (n : ℕ) : ℤ := n * 1000000

/-- A packet waiting for the gap before it, and when it arrived. -/
structure Buffered (α : Type*) where
  packet : α
  arrived : ℤ

structure Stats where
  emitted : ℕ := 0
  /-- Missing sequences skipped, not packets discarded. -/
  lost : ℕ := 0
  /-- Duplicates still held in the queue. -/
  duplicates : ℕ := 0
  /-- Includes repeats of already emitted packets. -/
  late : ℕ := 0
  outOfWindow : ℕ := 0
  timeouts : ℕ := 0
  overflows : ℕ := 0
  resyncAttempts : ℕ := 0
  resyncs : ℕ := 0

/-- The state of the queue, and what its callback has been handed, each packet
    with its extended number. -/
structure Queue (α : Type*) where
  started : Bool := false
  next : ℤ := 0
  buffer : OrdMap ℤ (Buffered α) := .empty
  lastProgress : ℤ := 0
  resyncStarted : ℤ := 0
  resyncLast : BitVec 16 := 0
  resyncCount : ℕ := 0
  stats : Stats := {}
  sorted : List (ℤ × α) := []

namespace Queue

variable {α : Type*} (cfg : Config)

variable (seq : BitVec 16) (packet : α) (now : ℤ) (q : Queue α)

/-- What the callback sees of a packet: its number on the wire. -/
def delivered : List (BitVec 16 × α) := q.sorted.map fun e => (BitVec.ofInt 16 e.1, e.2)

def clearResync : Queue α := { q with resyncCount := 0 }

def emit (extended : ℤ) (packet : α) (now : ℤ) (q : Queue α) : Queue α :=
  { q with
    next := extended + 1
    lastProgress := now
    resyncCount := 0
    stats := { q.stats with emitted := q.stats.emitted + 1 }
    sorted := q.sorted ++ [(extended, packet)] }

/-- Give up on the numbers before the first buffered packet. -/
def skipToFirst : Queue α :=
  match q.buffer.head? with
  | none => q
  | some (first, _) =>
    { q with
      stats := { q.stats with lost := q.stats.lost + (first - q.next).toNat }
      next := first }

/-! ## Flushing -/

/-- The first buffered packet is the one the queue waits for. -/
def Ready : Prop := q.buffer.head?.map Prod.fst = some q.next
  deriving Decidable

/-- Hand over the first buffered packet. -/
def emitFirst : Queue α :=
  match q.buffer.head? with
  | none => q
  | some (k, b) => { q with buffer := q.buffer.tail }.emit k b.packet now

def flushBuffered : Queue α := loop Ready (emitFirst now) q.buffer.size q

/-- Packets are buffered. -/
def Waiting : Prop := q.buffer.size ≠ 0
  deriving Decidable

/-- The earliest arrival among the buffered packets, if there are any. -/
def oldest (q : Queue α) : ℤ :=
  match q.buffer.head? with
  | none => 0
  | some (_, b) => q.buffer.entries.foldl
      (fun oldest e => if e.2.arrived < oldest then e.2.arrived else oldest) b.arrived

/-- Some buffered packet has waited for the timeout. -/
def Overdue : Prop :=
  q.Waiting ∧ ¬(now < q.oldest ∨ now - q.oldest < ms cfg.timeoutMs)
  deriving Decidable

/-- Skip the gap before the first buffered packet. -/
def skipGap : Queue α := flushBuffered now q.skipToFirst

/-- Skip a gap that a packet has waited for too long. -/
def expireGap : Queue α :=
  skipGap now { q with stats := { q.stats with timeouts := q.stats.timeouts + 1 } }

/-- The run of consecutive packets under observation has taken too long. -/
def ProbationOver : Prop :=
  q.resyncCount ≠ 0 ∧ (now < q.resyncStarted ∨ now - q.resyncStarted ≥ ms cfg.resync.probationMs)
  deriving Decidable

def endProbation : Queue α :=
  if q.ProbationOver cfg now then q.clearResync else q

def flushExpired : Queue α :=
  loop (Overdue cfg now) (expireGap now) q.buffer.size (q.endProbation cfg now)

def flushTimeout : Queue α := loop Waiting (skipGap now) q.buffer.size q.clearResync

/-! ## Input -/

/-- The queue has made no progress for long enough to follow a jump. -/
def Stalled : Prop :=
  cfg.resync.consecutivePackets ≠ 0 ∧ q.buffer.size = 0 ∧
    ¬(now < q.lastProgress ∨ now - q.lastProgress < ms cfg.resync.stalledMs)
  deriving Decidable

/-- Count a packet out of the window: it starts a run, or extends it. -/
def observe : Queue α :=
  if q.resyncCount = 0 ∨ seq ≠ q.resyncLast + 1 then
    { q with
      resyncCount := 1
      resyncStarted := now
      resyncLast := seq
      stats := { q.stats with resyncAttempts := q.stats.resyncAttempts + 1 } }
  else { q with resyncCount := q.resyncCount + 1, resyncLast := seq }

/-- Observe a packet out of the window; whether it completes a run. -/
def confirmForwardResync : Bool × Queue α :=
  if ¬q.Stalled cfg now then (false, q.clearResync)
  -- A repeat does not extend the deadline.
  else if q.resyncCount ≠ 0 ∧ seq = q.resyncLast then (false, q)
  else (decide (cfg.resync.consecutivePackets ≤ (q.observe seq now).resyncCount), q.observe seq now)

def countLate : Queue α :=
  { q with stats := { q.stats with late := q.stats.late + 1 } }

def countOutOfWindow : Queue α :=
  { q with stats := { q.stats with outOfWindow := q.stats.outOfWindow + 1 } }

/-- A packet at least `maxGap` ahead: follow the jump to it, or drop it. -/
def inputBeyond : Queue α :=
  let delta := ahead q.next seq
  match q.confirmForwardResync cfg seq now with
  | (true, q) =>
    emit (q.next + delta) packet now
      { q with
        stats := { q.stats with resyncs := q.stats.resyncs + 1, lost := q.stats.lost + delta } }
  | (false, q) => q.countOutOfWindow

/-- Skip the first gap when there are too many buffered packets. -/
def makeRoom : Queue α :=
  if q.buffer.size > cfg.maxCache then
    skipGap now { q with stats := { q.stats with overflows := q.stats.overflows + 1 } }
  else q

/-- A packet ahead in the window: buffer it. -/
def inputAhead : Queue α :=
  let extended := q.next + ahead q.next seq
  if extended ∈ q.buffer.keys then
    { q with stats := { q.stats with duplicates := q.stats.duplicates + 1 } }
  else
    -- A zero timeout means no reordering wait, including the first gap.
    flushExpired cfg now
      (makeRoom cfg now { q with buffer := q.buffer.emplace extended ⟨packet, now⟩ })

/-- The packets after the first: by their distance from the awaited number. -/
def inputNext : Queue α :=
  let delta := ahead q.next seq
  if delta = 0x8000 then q.clearResync.countOutOfWindow
  else if delta > 0x8000 then q.countLate
  else if delta ≥ cfg.maxGap then q.inputBeyond cfg seq packet now
  -- Normal traffic always wins over an unconfirmed jump.
  else if delta = 0 then flushBuffered now (emit q.next packet now q.clearResync)
  else q.clearResync.inputAhead cfg seq packet now

def inputPacket : Queue α :=
  if q.started then inputNext cfg seq packet now (q.flushExpired cfg now)
  else emit seq.toNat packet now { q with started := true, next := seq.toNat }

/-- A new source epoch. What the callback has been handed stays handed. -/
def reset : Queue α :=
  { q with
    buffer := .empty
    started := false
    next := 0
    lastProgress := 0
    resyncCount := 0
    stats := {} }

/-- The calls on a queue within an epoch. -/
inductive Call (α : Type*)
  | inputPacket (seq : BitVec 16) (packet : α) (now : ℤ)
  | flushBuffered (now : ℤ)
  | flushExpired (now : ℤ)
  | flushTimeout (now : ℤ)

def call : Call α → Queue α
  | .inputPacket seq packet now => q.inputPacket cfg seq packet now
  | .flushBuffered now => q.flushBuffered now
  | .flushExpired now => q.flushExpired cfg now
  | .flushTimeout now => q.flushTimeout now

/-- The queue after the calls `cs` on a new one. -/
def after (cs : List (Call α)) : Queue α := run (call cfg) {} cs

end Queue

end Packetia.Reorder
