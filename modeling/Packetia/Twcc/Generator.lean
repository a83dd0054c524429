import Packetia.Lib.OrdMap
import Packetia.Lib.Run

/-!
# The transport feedback generator

`TransportFeedbackGenerator` (`protocol/Rtcp/TransportFeedbackGenerator.cpp`) notes when
the packets of a transport arrive, and reports them to the sender. The 16-bit transport
sequence numbers are extended, and a report covers a range of extended numbers: for each
of them whether the packet was received, and when.

A packet that is older than what has been reported is refused. Before the first report
nothing is too old, and an older packet moves the start of the report back. The arrivals
that wait for a report are limited: when there are too many, the oldest is discarded and
the start of the report moves behind it.

What a packet does to the generator is one of three cases (`record_cases`): it is known,
there is room for it, or the oldest packet has to go, which may be the one that came.
-/

namespace Packetia.Twcc

/-- `Config`, as it is given to the constructor. -/
structure Config where
  feedbackIntervalMs : ℕ := 100
  maxPacketStatusCount : ℕ := 512
  maxHistoryPackets : ℕ := 4096

namespace Config

/-! The values as the constructor leaves them. -/

def interval (cfg : Config) : ℕ := max 1 cfg.feedbackIntervalMs

def statusLimit (cfg : Config) : ℕ := max 1 cfg.maxPacketStatusCount

def historyLimit (cfg : Config) : ℕ := max cfg.statusLimit cfg.maxHistoryPackets

end Config

/-- `TransportFeedbackPacket`. -/
structure FeedbackPacket where
  transportSequence : BitVec 16
  received : Bool := false
  receiveTimeUs : ℤ := 0
  receiveTimeMs : ℕ := 0

/-- `TransportFeedbackReport`. -/
structure FeedbackReport where
  senderSsrc : BitVec 32
  mediaSsrc : BitVec 32
  baseSequence : BitVec 16
  packetStatusCount : BitVec 16
  feedbackPacketCount : BitVec 8
  referenceTimeMs : ℕ := 0
  packets : List FeedbackPacket

structure Generator where
  arrivalsUs : OrdMap ℤ ℤ := .empty
  hasSequence : Bool := false
  highestExtendedSequence : ℤ := 0
  nextFeedbackSequence : ℤ := 0
  lastFeedbackTimeUs : ℤ := 0
  feedbackPacketCount : BitVec 8 := 0

namespace Generator

variable (cfg : Config) (g : Generator) (extended : ℤ)

/-- `Unwrap`. The lower 16 bits of the highest number are replaced. -/
def unwrap (sequence : BitVec 16) : ℤ :=
  if ¬g.hasSequence then sequence.toNat
  else
    let highest := g.highestExtendedSequence
    let candidate := highest - highest % 0x10000 + sequence.toNat
    if candidate + 0x8000 < highest then candidate + 0x10000
    else if candidate > highest + 0x8000 then candidate - 0x10000
    else candidate

/-- The first packet. -/
def start : Generator :=
  { g with
    hasSequence := true
    highestExtendedSequence := extended
    nextFeedbackSequence := extended }

/-- Another packet. Before the first report an older one moves the start of it back. -/
def extend : Generator :=
  { g with
    highestExtendedSequence := max g.highestExtendedSequence extended
    nextFeedbackSequence :=
      if g.lastFeedbackTimeUs = 0 then min g.nextFeedbackSequence extended
      else g.nextFeedbackSequence }

/-- The oldest packet is discarded, and the next report starts behind it. -/
def discardOldest : Generator :=
  match g.arrivalsUs.head? with
  | none => g
  | some discarded =>
    { g with
      arrivalsUs := g.arrivalsUs.tail
      nextFeedbackSequence := max g.nextFeedbackSequence (discarded.1 + 1) }

/-- The end of `OnPacket`: a packet that is known keeps its first time of arrival, and
    what is too much is discarded. -/
def record (arrivalTimeUs : ℤ) : Generator :=
  let arrivals := g.arrivalsUs.emplace extended arrivalTimeUs
  loop (fun g => g.arrivalsUs.size > cfg.historyLimit) discardOldest arrivals.size
    { g with arrivalsUs := arrivals }

/-- `OnPacket`. -/
def onPacket (transportSequence : BitVec 16) (arrivalTimeUs : ℤ) : Bool × Generator :=
  let extended := g.unwrap transportSequence
  if arrivalTimeUs < 0 then (false, g)
  else if ¬g.hasSequence then (true, (g.start extended).record cfg extended arrivalTimeUs)
  -- What has been reported is not changed by a late packet.
  else if extended < g.nextFeedbackSequence ∧ g.lastFeedbackTimeUs ≠ 0 then (false, g)
  else (true, (g.extend extended).record cfg extended arrivalTimeUs)

/-- `ShouldSendFeedback`. -/
def ShouldSendFeedback (nowUs : ℤ) : Prop :=
  (g.hasSequence ∧ g.nextFeedbackSequence ≤ g.highestExtendedSequence) ∧
    (g.highestExtendedSequence - g.nextFeedbackSequence + 1 ≥ cfg.statusLimit ∨
      g.lastFeedbackTimeUs = 0 ∨ nowUs - g.lastFeedbackTimeUs ≥ cfg.interval * 1000)
  deriving Decidable

/-- What a report says of the packet `extended`. -/
def statusOf : FeedbackPacket :=
  match g.arrivalsUs.find? extended with
  | some arrival =>
    { transportSequence := BitVec.ofInt 16 extended
      received := true
      receiveTimeUs := arrival
      receiveTimeMs := (arrival / 1000).toNat }
  | none => { transportSequence := BitVec.ofInt 16 extended }

/-- `first_arrival_us` after one more packet. -/
def firstArrivalUs (first extended : ℤ) : ℤ :=
  match g.arrivalsUs.find? extended with
  | some arrival => if first < 0 then arrival else first
  | none => first

/-- The last number of the next report. -/
def reportEnd : ℤ := min g.highestExtendedSequence (g.nextFeedbackSequence + cfg.statusLimit - 1)

/-- The report on the numbers from `base` to `stop`. -/
def report (senderSsrc mediaSsrc : BitVec 32) (base stop : ℤ) : FeedbackReport where
  senderSsrc := senderSsrc
  mediaSsrc := mediaSsrc
  baseSequence := BitVec.ofInt 16 base
  packetStatusCount := BitVec.ofInt 16 (stop - base + 1)
  feedbackPacketCount := g.feedbackPacketCount
  referenceTimeMs :=
    let first := (Int.range base (stop + 1)).foldl g.firstArrivalUs (-1)
    if first ≥ 0 then (first / 64000).toNat * 64 else 0
  packets := (Int.range base (stop + 1)).map g.statusOf

/-- The generator after a report that ends at `stop`. -/
def reported (stop nowUs : ℤ) : Generator :=
  { g with
    arrivalsUs := g.arrivalsUs.eraseThrough stop
    nextFeedbackSequence := stop + 1
    lastFeedbackTimeUs := nowUs
    feedbackPacketCount := g.feedbackPacketCount + 1 }

/-- `BuildFeedback`: the report, if one is due. -/
def buildFeedback (senderSsrc mediaSsrc : BitVec 32) (nowUs : ℤ) :
    Option FeedbackReport × Generator :=
  if g.ShouldSendFeedback cfg nowUs then
    let stop := g.reportEnd cfg
    (some (g.report senderSsrc mediaSsrc g.nextFeedbackSequence stop), g.reported stop nowUs)
  else (none, g)

/-- `Reset`. -/
def reset (_ : Generator) : Generator := {}

/-! ## What a packet does -/

variable {cfg : Config} {g g' : Generator} {z t x : ℤ}

/-- The extended number of a packet has the lower bits of the number it came with. -/
theorem ofInt_unwrap (g : Generator) (s : BitVec 16) : BitVec.ofInt 16 (g.unwrap s) = s := by
  have hcycle {x : ℤ} (k : ℤ) (hx : x = k * 0x10000 + s.toNat) : BitVec.ofInt 16 x = s := by
    rw [hx, ← BitVec.toNat_inj, BitVec.toNat_ofInt]
    omega
  rw [unwrap]
  by_cases hfirst : g.hasSequence
  · rw [if_neg (not_not.2 hfirst)]
    -- The candidates are one turn apart.
    dsimp only
    split_ifs
    · exact hcycle (g.highestExtendedSequence / 0x10000 + 1) (by omega)
    · exact hcycle (g.highestExtendedSequence / 0x10000 - 1) (by omega)
    · exact hcycle (g.highestExtendedSequence / 0x10000) (by omega)
  · rw [if_pos hfirst]
    exact hcycle 0 (by omega)

/-- The three cases of a packet that is taken, when the history is not too long. -/
theorem record_cases (hsize : g.arrivalsUs.size ≤ cfg.historyLimit) :
    (z ∈ g.arrivalsUs.keys ∧ g.record cfg z t = g) ∨
    (z ∉ g.arrivalsUs.keys ∧ g.arrivalsUs.size < cfg.historyLimit ∧
      g.record cfg z t = { g with arrivalsUs := g.arrivalsUs.emplace z t }) ∨
    (z ∉ g.arrivalsUs.keys ∧ g.arrivalsUs.size = cfg.historyLimit ∧
      ∃ m, (g.arrivalsUs.emplace z t).head? = some m ∧
        g.record cfg z t =
          { g with
            arrivalsUs := (g.arrivalsUs.emplace z t).tail
            nextFeedbackSequence := max g.nextFeedbackSequence (m.1 + 1) }) := by
  by_cases hz : z ∈ g.arrivalsUs.keys
  · refine .inl ⟨hz, ?_⟩
    rw [record, OrdMap.emplace_of_mem t hz]
    refine loop_of_not_guard ?_ _
    exact not_lt.2 hsize
  · have hnew := OrdMap.size_emplace t hz
    rcases hsize.lt_or_eq with hlt | heq
    · refine .inr (.inl ⟨hz, hlt, ?_⟩)
      refine loop_of_not_guard ?_ _
      exact not_lt.2 (hnew.trans_le hlt)
    · obtain ⟨m, hm⟩ : ∃ m, (g.arrivalsUs.emplace z t).head? = some m := by
        refine Option.ne_none_iff_exists'.1 fun hnone => ?_
        rw [OrdMap.head?_eq_none] at hnone
        omega
      refine .inr (.inr ⟨hz, heq, m, hm, ?_⟩)
      -- One round, after which the history is as long as before.
      have htail := OrdMap.size_tail_of_head? hm
      rw [record, hnew, loop_succ_of_guard (by dsimp only; omega), discardOldest]
      simp only [hm]
      exact loop_of_not_guard (by dsimp only; omega) _

end Generator

end Packetia.Twcc
