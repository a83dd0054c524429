import Packetia.Transcode.Session

/-!
# No decoding across a gap

The frames given to the backend since its last `Open`, the one in the worker's hands and the queued
ones form a line (`State.line`). Each frame of it follows the one before among the relevant frames,
or asks for an `Open` (`Line`), and as long as no mark is set the last of them is the last relevant
frame (`Inv.tip`).
-/

namespace Packetia.Transcode

open List Option Worker

variable {config : TranscodeTaskConfig} {s : State} {relevant : List EncodedFrameEvent}
  {l : List QueuedFrame} {item : QueuedFrame} {event : EncodedFrameEvent} {outcome : Outcome}
  {highest pts : ℤ} {stamps : List (ℤ × ℤ)}

attribute [grind] State.recover State.fail State.push State.submitFrame State.atWorker State.next
  State.pop State.input State.work

/-! ## Lines -/

/-- The frames are relevant ones, complete, each the next one unless it asks for an `Open`, for
    which it takes a key frame. -/
structure Line (relevant : List EncodedFrameEvent) (l : List QueuedFrame) : Prop where
  items : ∀ item ∈ l, relevant[item.offer]? = some item.event ∧ item.event.complete = true ∧
    (item.reset = true → item.event.keyFrame = true)
  linked : l.IsChain fun a b => b.reset = false → b.offer = a.offer + 1
  first : ∀ item, l.head? = some item → item.event.keyFrame = true

/-- The frames are a contiguous run of the relevant ones, complete and from a key frame on. -/
structure Contiguous (relevant : List EncodedFrameEvent) (l : List QueuedFrame) : Prop where
  items : ∀ item ∈ l, relevant[item.offer]? = some item.event ∧ item.event.complete = true
  linked : l.IsChain fun a b => b.offer = a.offer + 1
  first : ∀ item, l.head? = some item → item.event.keyFrame = true

theorem getElem?_concat_of_eq_some {n : ℕ} (h : relevant[n]? = some event)
    (other : EncodedFrameEvent) : (relevant ++ [other])[n]? = some event := by
  rw [getElem?_append_left (List.getElem?_eq_some_iff.1 h).1, h]

theorem Contiguous.later (h : Contiguous relevant l) (other : EncodedFrameEvent) :
    Contiguous (relevant ++ [other]) l :=
  ⟨fun item hi => ⟨getElem?_concat_of_eq_some (h.items item hi).1 other, (h.items item hi).2⟩,
    h.linked, h.first⟩

namespace Line

theorem nil : Line relevant [] := ⟨by simp, .nil, by simp⟩

theorem later (h : Line relevant l) (other : EncodedFrameEvent) : Line (relevant ++ [other]) l :=
  ⟨fun item hi => ⟨getElem?_concat_of_eq_some (h.items item hi).1 other, (h.items item hi).2⟩,
    h.linked, h.first⟩

theorem of_append_left {m : List QueuedFrame} (h : Line relevant (l ++ m)) : Line relevant l :=
  ⟨fun item hi => h.items item (mem_append_left _ hi), h.linked.left_of_append,
    fun item hi => h.first item (by grind)⟩

/-- A frame that asks for an `Open` starts a line of its own. -/
theorem of_append_right {pre : List QueuedFrame} (h : Line relevant (pre ++ item :: l))
    (hr : item.reset = true) : Line relevant (item :: l) :=
  ⟨fun item hi => h.items item (mem_append_right _ hi), h.linked.right_of_append,
    fun other ho => by
      obtain rfl : item = other := by simpa using ho
      exact (h.items item (by simp)).2.2 hr⟩

theorem concat (h : Line relevant l) (ho : relevant[item.offer]? = some item.event)
    (hc : item.event.complete = true) (hkey : item.reset = true → item.event.keyFrame = true)
    (hnil : l = [] → item.event.keyFrame = true)
    (hlast : ∀ last, l.getLast? = some last → item.reset = false → item.offer = last.offer + 1) :
    Line relevant (l ++ [item]) where
  items := by grind [h.items]
  linked := by
    rw [isChain_append]
    refine ⟨h.linked, .singleton _, fun last hl first hf => ?_⟩
    obtain rfl : item = first := by simpa using hf
    exact hlast last hl
  first := by cases l <;> grind [h.first]

end Line

/-! ## The invariant -/

/-- The frame in the worker's hands. -/
@[grind] def Worker.hand : Worker → Option QueuedFrame
  | popped item _ | failing item _ => item
  | reopening item | ready item => some item
  | creating | opening | waiting | publishing _ | recovering | leaving | flushing | ended => none

def State.todo (s : State) : List QueuedFrame := s.worker.hand.toList ++ s.queue

def State.line (s : State) : List QueuedFrame := s.run ++ s.todo

/-- The counts of the queue are right and within their limits. -/
@[grind] def Counts (config : TranscodeTaskConfig) (s : State) : Prop :=
  s.queueFrames = s.queue.length ∧ s.queueBytes = (s.queue.map (·.event.storageSize)).sum ∧
    s.queueFrames ≤ config.maxFrames ∧ s.queueBytes ≤ config.maxBytes

/-- As long as no frame was lost, the line ends with the last relevant frame. -/
@[grind] def Tip (s : State) : Prop :=
  s.state ≠ .failed → s.resetNext = false → (s.waitingForIdr = true → s.line = []) ∧
    (s.waitingForIdr = false →
      ∃ last, s.line.getLast? = some last ∧ last.offer + 1 = s.relevant.length)

/-- The worker opens the backend where it must, and leaves its loop when nothing is left. -/
@[grind] def Placed (s : State) : Worker → Prop
  | .reopening item => item.reset = true
  | .ready item => item.reset = true → s.run = []
  | .leaving => s.state = .failed ∨ s.stopping = true ∧ s.queue = []
  | .flushing => (s.state ≠ .failed ∧ s.resetNext = false) ∧ s.stopping = true ∧ s.queue = []
  | .creating | .opening => s.state ≠ .failed
  | .waiting | .popped _ _ | .publishing _ | .recovering | .failing _ _
  | .ended => True

structure Inv (config : TranscodeTaskConfig) (s : State) : Prop where
  counts : Counts config s
  marks : s.resetNext = true → s.waitingForIdr = true
  line : Line s.relevant s.line
  runs : ∀ run ∈ s.runs, Contiguous s.relevant run
  run : s.run.IsChain fun a b => b.offer = a.offer + 1
  tip : Tip s
  placed : Placed s s.worker

namespace Inv

section

variable (h : Inv config s) {worker : Worker}
include h

theorem contiguous : Contiguous s.relevant s.run := by
  have hline := h.line.of_append_left
  exact ⟨fun item hi => ⟨(hline.items item hi).1, (hline.items item hi).2.1⟩, h.run, hline.first⟩

/-- Nothing happens to the line. -/
theorem congr {s' : State} (hline : s'.line = s.line)
    (henv : s'.relevant = s.relevant ∧ s'.runs = s.runs ∧ s'.resetNext = s.resetNext ∧
      s'.waitingForIdr = s.waitingForIdr ∧ (s'.state ≠ .failed → s.state ≠ .failed))
    (hcounts : Counts config s') (hrun : s'.run.IsChain fun a b => b.offer = a.offer + 1)
    (hplaced : Placed s' s'.worker) : Inv config s' := by
  obtain ⟨hrelevant, hruns, hreset, hwait, hstate⟩ := henv
  exact
    { counts := hcounts
      marks := by rw [hreset, hwait]; exact h.marks
      line := by rw [hrelevant, hline]; exact h.line
      runs := by rw [hrelevant, hruns]; exact h.runs
      run := hrun
      tip := by
        rw [Tip, hline, hrelevant, hreset, hwait]
        exact fun hs => h.tip (hstate hs)
      placed := hplaced }

theorem recover (hw : s.worker ≠ .flushing) : Inv config s.recover := by
  have hline : Line s.relevant s.recover.line := by
    refine Line.of_append_left (m := s.queue) ?_
    simpa [State.line, State.todo, State.recover] using h.line
  have hplaced := h.placed
  exact
    { h with
      counts := ⟨rfl, rfl, Nat.zero_le _, Nat.zero_le _⟩
      marks := fun _ => rfl
      line := hline
      tip := nofun
      placed := by cases hworker : s.worker <;> grind }

/-- A relevant frame is lost behind a mark. -/
theorem lost (hw : s.waitingForIdr = true) (event : EncodedFrameEvent) :
    Inv config { s with relevant := s.relevant ++ [event] } := by
  have hplaced := h.placed
  exact
    { h with
      line := h.line.later event
      runs := fun run hr => (h.runs run hr).later event
      tip := fun hs hr => ⟨(h.tip hs hr).1, fun hw' => by cases hw.symm.trans hw'⟩
      placed := by cases hworker : s.worker <;> grind }

theorem push (hstate : s.state ≠ .failed) (hstop : s.stopping = false) (hc : event.complete = true)
    (hroom : s.waitingForIdr = true ∧ s.queue = [] ∨
      s.queue.length < config.maxFrames ∧ s.queueBytes + event.storageSize ≤ config.maxBytes) :
    Inv config ({ s with relevant := s.relevant ++ [event] }.push config event
      s.relevant.length) := by
  by_cases hdrop : (s.waitingForIdr = true ∧ event.keyFrame = false) ∨
      config.maxBytes < event.storageSize
  · rw [State.push, if_pos hdrop]
    exact h.lost (by grind) event
  · rw [State.push, if_neg hdrop]
    have htip := h.tip hstate
    have hmarks := h.marks
    have hline : Line (s.relevant ++ [event])
        (s.line ++ [⟨event, s.resetNext, s.relevant.length⟩]) := by
      refine (h.line.later event).concat (by simp) hc (by grind) ?_ fun last hl hr => ?_
      · cases hr : s.resetNext <;> grind
      · obtain ⟨hnil, hlast⟩ := htip hr
        cases hw : s.waitingForIdr with
        | true => simp [hnil hw] at hl
        | false =>
          obtain ⟨last', hl', ho⟩ := hlast hw
          rw [some.inj (hl.symm.trans hl')]
          exact ho.symm
    have hpos := config.maxFrames_pos
    have hcounts := h.counts
    have hplaced := h.placed
    exact
      { h with
        counts := by grind
        marks := nofun
        line := by simpa [State.line, State.todo] using hline
        runs := fun run hr => (h.runs run hr).later event
        tip := fun _ _ => ⟨nofun, fun _ => ⟨⟨event, s.resetNext, s.relevant.length⟩,
          by simp [State.line, State.todo, getLast?_append], by simp⟩⟩
        placed := by cases hworker : s.worker <;> grind }

theorem submitFrame (event : EncodedFrameEvent) : Inv config (s.submitFrame config event) := by
  rw [State.submitFrame]
  by_cases hrel : s.Relevant config event
  · have hw : s.worker ≠ .flushing := fun hw => by
      have hplaced := h.placed
      rw [hw] at hplaced
      exact absurd (hplaced.2.1.symm.trans hrel.2.1) (by decide)
    have hs : s.state ≠ .failed := by rw [hrel.1]; decide
    rw [if_pos hrel]
    split_ifs with hc hfull
    · exact (h.recover hw).lost rfl event
    · exact (h.recover hw).push hs hrel.2.1 (by grind) (.inl ⟨rfl, rfl⟩)
    · exact h.push hs hrel.2.1 (by grind) (by grind [h.counts])
  · rwa [if_neg hrel]

theorem fail (hw : worker = .ended ∨ worker = .leaving) : Inv config (s.fail.atWorker worker) := by
  have hline : Line s.relevant (s.fail.atWorker worker).line := by
    have hnil : (s.fail.atWorker worker).line = s.run := by
      rcases hw with rfl | rfl <;> simp [State.line, State.todo, State.atWorker, State.fail, hand]
    rw [hnil]
    exact h.line.of_append_left
  exact
    { h with
      counts := ⟨rfl, rfl, Nat.zero_le _, Nat.zero_le _⟩
      line := hline
      tip := fun hs => absurd rfl hs
      placed := by rcases hw with rfl | rfl <;> grind }

/-- The worker moves on with the same frame in its hands. -/
theorem atWorker {worker : Worker} (hhand : worker.hand = s.worker.hand)
    (hplaced : Placed (s.atWorker worker) worker) : Inv config (s.atWorker worker) :=
  h.congr (by simp [State.line, State.todo, State.atWorker, hhand]) (by grind) h.counts h.run
    hplaced

theorem pop (hw : s.worker = .waiting) : Inv config s.pop := by
  rw [State.pop]
  split_ifs with hs
  · exact h.atWorker (by rw [hw]; rfl) (by grind)
  · refine h.congr ?_ (by grind) ?_ h.run trivial
    · cases hq : s.queue <;> simp [State.line, State.todo, hw, hq, hand]
    · have hcounts := h.counts
      cases hq : s.queue <;> grind

/-- The frame in the worker's hands ends the run. -/
theorem isChain_concat (hw : s.worker = .ready item) :
    (s.run ++ [item]).IsChain fun a b => b.offer = a.offer + 1 := by
  rw [isChain_append]
  refine ⟨h.run, .singleton _, fun last hl next hn => ?_⟩
  obtain rfl : item = next := by simpa using hn
  have hlinked := h.line.linked
  rw [State.line, isChain_append] at hlinked
  refine hlinked.2.2 last hl item (by simp [State.todo, hw, hand]) ?_
  -- a frame that asks for an `Open` would have no frame before it
  have hplaced := h.placed
  rw [hw] at hplaced
  by_contra hr
  rw [hplaced (by simpa using hr)] at hl
  cases hl

theorem input (hw : s.worker = .ready item) (outcome : Outcome) :
    Inv config (s.input config item outcome) := by
  have hfailing : ∀ ssrc, Inv config ({ s with sourceSsrc := ssrc }.atWorker
      (.failing item false)) := fun ssrc => by
    refine h.congr ?_ (by grind) h.counts h.run trivial
    simp [State.line, State.todo, State.atWorker, hw, hand]
  unfold State.input
  dsimp only
  split
  · exact hfailing s.sourceSsrc
  · cases hstamp : stamp config.timestampMode s.highest item.event with
    | none => exact hfailing _
    | some stamped =>
      refine h.congr ?_ (by grind) h.counts (h.isChain_concat hw) ?_
      · cases outcome <;> simp [State.line, State.todo, hw, hand]
      · cases outcome <;> trivial

/-- `Open` ends the run in front of the frame. -/
theorem reopen (hw : s.worker = .reopening item) (hhand : worker.hand = some item)
    (hplaced : ∀ s : State, s.run = [] → Placed s worker) :
    Inv config ({ s with run := [], runs := s.runs ++ [s.run] }.atWorker worker) := by
  have hline : s.line = s.run ++ item :: s.queue := by
    simp [State.line, State.todo, hw, hand]
  have hline' : State.line ({ s with run := [], runs := s.runs ++ [s.run] }.atWorker worker) =
      item :: s.queue := by
    simp [State.line, State.todo, State.atWorker, hhand]
  have hr : item.reset = true := by
    have hplaced := h.placed
    rwa [hw] at hplaced
  have htip : Tip ({ s with run := [], runs := s.runs ++ [s.run] }.atWorker worker) := by
    intro hs hreset
    obtain ⟨hnil, hlast⟩ := h.tip hs hreset
    rw [hline] at hnil hlast
    rw [hline']
    refine ⟨fun hwait => absurd (hnil hwait) (by simp), fun hwait => ?_⟩
    obtain ⟨last, hl, ho⟩ := hlast hwait
    exact ⟨last, by simpa [getLast?_append] using hl, ho⟩
  exact
    { h with
      line := by rw [hline']; exact (hline ▸ h.line).of_append_right hr
      runs := forall_mem_concat.2 ⟨h.runs, h.contiguous⟩
      run := .nil
      tip := htip
      placed := hplaced _ rfl }

theorem work (outcome : Outcome) : Inv config (s.work config outcome) := by
  rw [State.work]
  have hplaced := h.placed
  cases hw : s.worker with
  | creating | leaving =>
    rw [hw] at hplaced
    exact h.atWorker (by grind) (by grind)
  | opening =>
    rw [hw] at hplaced
    dsimp only
    split_ifs
    · refine h.congr ?_ ⟨rfl, rfl, rfl, rfl, fun _ => hplaced⟩ h.counts h.run trivial
      simp [State.line, State.todo, State.atWorker, hw, hand]
    · exact h.atWorker (by rw [hw]; rfl) trivial
  | waiting =>
    dsimp only
    split_ifs
    · exact h.pop hw
    · exact h
  | popped item request =>
    dsimp only
    split_ifs
    · exact h.atWorker (by rw [hw]; rfl) trivial
    · refine h.atWorker ?_ ?_ <;> cases item <;> grind
  | reopening item => exact h.reopen hw (by cases outcome <;> rfl) (by cases outcome <;> grind)
  | ready item => exact h.input hw outcome
  | publishing last | flushing => exact h.atWorker (by grind) (by grind)
  | recovering =>
    have hrec := h.recover (by rw [hw]; decide)
    refine hrec.atWorker ?_ trivial
    simp [State.recover, hw, hand]
  | failing item caught => exact h.fail (by cases caught <;> simp)
  | ended =>
    dsimp only
    split_ifs
    · exact h
    · refine h.congr ?_ ⟨rfl, rfl, rfl, rfl, fun _ => by assumption⟩ h.counts h.run trivial
      simp [State.line, State.todo, hw]

theorem step (op : Step) : Inv config (step config s op) := by
  have hplaced := h.placed
  cases op with
  | submitFrame event => exact h.submitFrame event
  | work outcome => exact h.work outcome
  | stop =>
    refine h.congr rfl ⟨rfl, rfl, rfl, rfl, fun hs hf => hs ?_⟩ h.counts h.run ?_
    · rw [Transcode.step, hf]
      rfl
    · rw [Transcode.step]
      cases hw : s.worker <;> grind
  | requestStop =>
    refine h.congr rfl ⟨rfl, rfl, rfl, rfl, id⟩ h.counts h.run ?_
    rw [Transcode.step]
    cases hw : s.worker <;> grind

end

end Inv

/-! ## Time stamps -/

/-- The greatest of the time stamps given so far. -/
def IsHighest (stamps : List (ℤ × ℤ)) (highest : ℤ) : Prop :=
  IsGreatest {pts | ∃ raw, (raw, pts) ∈ stamps} highest

/-- A time stamp is that of its frame modulo `2 ^ 32`, and the one nearest to the highest before. -/
def Near (stamps : List (ℤ × ℤ)) (stamp : ℤ × ℤ) : Prop :=
  stamp.2 ≡ stamp.1 [ZMOD 2 ^ 32] ∧ ∀ highest, IsHighest stamps highest →
    highest - 2 ^ 31 ≤ stamp.2 ∧ stamp.2 < highest + 2 ^ 31

theorem extend_spec {raw : ℤ} (h : extend highest raw = some pts) :
    pts ≡ raw [ZMOD 2 ^ 32] ∧ highest - 2 ^ 31 ≤ pts ∧ pts < highest + 2 ^ 31 := by
  unfold extend at h
  unfold Int.ModEq
  dsimp only at h
  split_ifs at h <;> cases h <;> omega

theorem IsHighest.concat (h : IsHighest stamps highest) (raw pts : ℤ) :
    IsHighest (stamps ++ [(raw, pts)]) (max pts highest) := by
  have hset : {p | ∃ raw', (raw', p) ∈ stamps ++ [(raw, pts)]} =
      insert pts {p | ∃ raw', (raw', p) ∈ stamps} := by
    ext p
    simp [exists_or, or_comm]
  rw [IsHighest, hset]
  exact IsGreatest.insert pts h

/-- What is kept of the time stamps is right. -/
structure Stamped (mode : InputTimestampMode) (highest : Option ℤ) (stamps : List (ℤ × ℤ)) :
    Prop where
  near : mode = .rtp32 → EachAfter Near stamps
  first : mode = .rtp32 → highest = none → stamps = []
  highest : mode = .rtp32 → ∀ h, highest = some h → IsHighest stamps h

theorem Stamped.concat {mode : InputTimestampMode} {highest highest' : Option ℤ}
    (h : Stamped mode highest stamps) (hs : stamp mode highest event = some (pts, highest')) :
    Stamped mode highest' (stamps ++ [(event.pts, pts)]) := by
  cases mode with
  | mediaTime => constructor <;> exact nofun
  | rtp32 =>
    obtain ⟨hnear, hfirst, hhighest⟩ := h
    unfold stamp at hs
    split_ifs at hs
    cases highest with
    | none =>
      obtain ⟨rfl, rfl⟩ : event.pts = pts ∧ some event.pts = highest' := by simpa using hs
      rw [hfirst rfl rfl]
      refine ⟨fun _ => eachAfter_nil.concat ⟨rfl, fun highest hh => ?_⟩, nofun, fun _ h hh => ?_⟩
      · simp [IsHighest, IsGreatest] at hh
      · obtain rfl := some.inj hh
        simp [IsHighest, IsGreatest, upperBounds]
    | some top =>
      obtain ⟨p, hp, he⟩ := map_eq_some_iff.1 hs
      obtain ⟨rfl, rfl⟩ : p = pts ∧ some (max p top) = highest' := by simpa using he
      obtain ⟨hmod, hle, hlt⟩ := extend_spec hp
      have htop := hhighest rfl top rfl
      refine ⟨fun _ => (hnear rfl).concat ⟨hmod, fun highest hh => ?_⟩, nofun, fun _ h hh => ?_⟩
      · rw [hh.unique htop]
        exact ⟨hle, hlt⟩
      · obtain rfl := some.inj hh
        exact htop.concat _ _

theorem Stamped.step (h : Stamped config.timestampMode s.highest s.stamps) (op : Step) :
    Stamped config.timestampMode (step config s op).highest (step config s op).stamps := by
  cases op with
  | work outcome =>
    rw [Transcode.step]
    cases hw : s.worker with
    | ready item =>
      have hwork : s.work config outcome = s.input config item outcome := by rw [State.work, hw]
      rw [hwork]
      unfold State.input
      dsimp only
      split
      · exact h
      · cases hs : stamp config.timestampMode s.highest item.event with
        | none => exact h
        | some stamped => exact h.concat hs
    | _ => grind
  | _ => grind [Transcode.step]

/-! ## Runs -/

/-- In every run of a session the frames given to the backend between two calls of `Open` are a
    contiguous run of the relevant ones, complete and from a key frame on. When `Flush` is called,
    the last relevant frame is the last of its run. The counts of the queue are right and within
    the limits. And in `Rtp32` mode every time stamp given to the backend is congruent to that of
    its frame and within `2 ^ 31` of the highest one before it. -/
theorem decodes_without_gaps (config : TranscodeTaskConfig) (steps : List Step) :
    let s := after config steps
    (∀ run ∈ s.runs ++ [s.run], Contiguous s.relevant run) ∧
    (s.worker = .flushing → s.queue = [] ∧
      ∀ last, s.run.getLast? = some last → last.offer + 1 = s.relevant.length) ∧
    (s.queueFrames = s.queue.length ∧
      s.queueBytes = (s.queue.map (·.event.storageSize)).sum ∧
      s.queueFrames ≤ config.maxFrames ∧ s.queueBytes ≤ config.maxBytes) ∧
    (config.timestampMode = .rtp32 → EachAfter Near s.stamps) := by
  intro s
  obtain ⟨h, hs⟩ : Inv config s ∧ Stamped config.timestampMode s.highest s.stamps := by
    refine run_induction (P := fun _ s => Inv config s ∧
      Stamped config.timestampMode s.highest s.stamps) ⟨?_, ?_⟩ ?_ steps
    · exact ⟨⟨rfl, rfl, Nat.zero_le _, Nat.zero_le _⟩, nofun, .nil,
        nofun, .nil, fun _ _ => ⟨fun _ => rfl, nofun⟩,
        TaskState.noConfusion⟩
    · exact ⟨fun _ => eachAfter_nil, fun _ _ => rfl, nofun⟩
    · intro _ op hi
      exact ⟨hi.1.step op, hi.2.step op⟩
  refine ⟨fun run hrun => ?_, fun hw => ?_, h.counts, hs.near⟩
  · rcases mem_append.1 hrun with hold | hlast
    · exact h.runs run hold
    · rw [mem_singleton.1 hlast]
      exact h.contiguous
  · have hplaced := h.placed
    rw [hw] at hplaced
    obtain ⟨⟨hstate, hreset⟩, -, hqueue⟩ := hplaced
    refine ⟨hqueue, fun last hlast => ?_⟩
    -- nothing is in the worker's hands or queued, so the line is the run
    have hline : s.line = s.run := by simp [State.line, State.todo, hw, hqueue, hand]
    obtain ⟨hnil, htip⟩ := h.tip hstate hreset
    rw [hline] at hnil htip
    cases hwait : s.waitingForIdr with
    | true => simp [hnil hwait] at hlast
    | false =>
      obtain ⟨last', hlast', ho⟩ := htip hwait
      rw [some.inj (hlast.symm.trans hlast')]
      exact ho

/-- A task with room for one frame. -/
def narrow : TranscodeTaskConfig where
  input := { endpointId := 1, trackId := 1 }
  inputCodec := .h264
  timestampMode := .rtp32
  maxFrames := 1
  maxBytes := 10
  maxFrames_pos := Nat.one_pos

/-- Of four frames the second is lost when the third finds no room, and the third is no key frame.
    The backend is opened anew in front of the fourth, and flushed behind it. -/
def overflow : List Step :=
  let submit (keyFrame : Bool) (pts : ℤ) : Step := .submitFrame
    { source := narrow.input, valid := true, trackId := 1, mediaType := .video, codec := .h264,
      complete := true, keyFrame, storageSize := 4, pts, timeBaseNum := 1, timeBaseDen := 90000 }
  let work (n : ℕ) : List Step := replicate n (.work .ok)
  work 2 ++ [submit true 4294960000] ++ work 4 ++
    [submit false 4294963000, submit false 4294966000, submit true 1704] ++ work 5 ++ [.stop] ++
    work 2

theorem decodes_without_gaps_overflow :
    let s := after narrow overflow
    s.worker = .flushing ∧ (s.runs ++ [s.run]).map (map QueuedFrame.offer) = [[0], [3]] ∧
    s.stamps = [(4294960000, 4294960000), (1704, 4294969000)] ∧
    (∀ run ∈ s.runs ++ [s.run], Contiguous s.relevant run) ∧ EachAfter Near s.stamps := by
  have h := decodes_without_gaps narrow overflow
  exact ⟨by decide +kernel, by decide +kernel, by decide +kernel, h.1, h.2.2.2 rfl⟩

end Packetia.Transcode
