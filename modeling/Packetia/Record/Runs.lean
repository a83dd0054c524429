import Packetia.Record.Continuity

/-!
# Runs of the recording dispatcher

Every step of the dispatcher is, for each stream, a step of that stream or none at all, so what
holds of a stream holds of every stream in every run (`sound_after`). The totals of the queue are
the sums over the streams (`Queue`), and no entry is registered without a job or a session as long
as `Post` does not register one for a frame it then refuses (`Held`).
-/

namespace Packetia.Record

open State Record

variable {s : State} {key : Key} {v : Stream} {options : RecordingOptions}

namespace State

/-- The stream sees of the dispatcher what there is. -/
@[grind] def Sees (s : State) (key : Key) (v : Stream) : Prop :=
  v.accepting = s.accepting ∧ v.allowed = s.allows key ∧ v.refreshDue = s.refreshDue ∧
    v.waiting = (s.waiting.filter (·.1 = key)).map (·.2) ∧ v.now = s.offered

theorem sees_view (s : State) (key : Key) : s.Sees key (s.view key) := ⟨rfl, rfl, rfl, rfl, rfl⟩

theorem view_put_self (h : s.Sees key v) : (s.put key v).view key = v := by
  obtain ⟨h₁, h₂, h₃, h₄, h₅⟩ := h
  have hstream : (s.put key v).streams.find key = v.stream := by
    rw [put]
    cases v.stream <;> simp
  cases v
  simp_all [view, put, allows]

theorem view_put_of_ne {other : Key} (h : other ≠ key) (v : Stream) :
    (s.put key v).view other = s.view other := by
  have hstream : (s.put key v).streams.find other = s.streams.find other := by
    rw [put]
    cases v.stream
    · exact Table.find_erase_of_ne h
    · exact Table.find_set_of_ne h
  rw [view, hstream]
  simp [view, put, allows, Function.update_of_ne h]

end State

/-! ## Every stream -/

/-- What holds in every state. -/
structure Inv (s : State) : Prop where
  sound : ∀ key, (s.view key).Sound
  pool : s.accepting = true → s.pool = true
  waits : s.waiting ≠ none → s.accepting = true

/-- One stream changes. -/
theorem Inv.put (h : Inv s) (hv : v.Sound) (hsees : s.Sees key v) : Inv (s.put key v) where
  sound other := by
    by_cases hk : other = key
    · rw [hk, view_put_self hsees]
      exact hv
    · rw [view_put_of_ne hk]
      exact h.sound other
  pool := h.pool
  waits := h.waits

theorem State.Sees.offer (h : s.Sees key v) :
    ({ s with offered := s.offered + 1 } : State).Sees key v.offer :=
  ⟨h.1, h.2.1, h.2.2.1, h.2.2.2.1, congrArg (· + 1) h.2.2.2.2⟩

theorem State.Sees.enqueue (h : s.Sees key v) (pool : Bool) (queued : QueueStats) (stream : ℕ)
    (event : EncodedFrameEvent) : s.Sees key (v.enqueue options pool queued stream event).1 := by
  grind

/-- One more offer has been made. -/
abbrev State.counted (s : State) : State := { s with offered := s.offered + 1 }

/-- `Post` ignores the event, or refuses it, or has an entry for its stream, a new one if need
    be. -/
theorem post_cases (options : RecordingOptions) (s : State) (event : EncodedFrameEvent) :
    post options s event = s ∨ post options s event = s.counted ∨
    ((s.view event.source).accepting = false ∨ (s.view event.source).stream = none) ∧
      post options s event = s.counted.put event.source (s.view event.source).offer ∨
    ∃ v stream nextEntry, event.valid = true ∧ (s.view event.source).accepting = true ∧
      (s.view event.source).allowed = true ∧
      ((s.view event.source).stream = some stream ∧ v = s.view event.source ∨
        (s.view event.source).stream = none ∧ s.streams.size < options.maxStreams ∧
          v = { s.view event.source with stream := some stream }) ∧
      post options s event =
        { s.counted.put event.source (v.enqueue options s.pool s.queued stream event).1.offer with
          queued := (v.enqueue options s.pool s.queued stream event).2
          nextEntry := nextEntry } := by
  rw [post]
  by_cases hvalid : event.valid = false
  · exact .inl (if_pos hvalid)
  by_cases hallowed : (s.view event.source).allowed = false
  · exact .inr (.inl (by rw [if_neg hvalid, if_pos hallowed]))
  by_cases hacc : (s.view event.source).accepting = false
  · exact .inr (.inr (.inl ⟨.inl hacc, by rw [if_neg hvalid, if_neg hallowed, if_pos hacc]⟩))
  rw [if_neg hvalid, if_neg hallowed, if_neg hacc]
  rw [Bool.not_eq_false] at hvalid hallowed hacc
  cases hstream : (s.view event.source).stream with
  | some stream =>
    exact .inr (.inr (.inr ⟨_, stream, s.nextEntry, hvalid, hacc, hallowed, .inl ⟨rfl, rfl⟩, rfl⟩))
  | none =>
    split_ifs with hmax
    · exact .inr (.inr (.inl ⟨.inr rfl, rfl⟩))
    · exact .inr (.inr (.inr ⟨_, _, _, hvalid, hacc, hallowed,
        .inr ⟨rfl, not_le.1 hmax, rfl⟩, rfl⟩))

theorem Inv.post (h : Inv s) (event : EncodedFrameEvent) : Inv (post options s event) := by
  have hnext : Inv s.counted := ⟨fun other => (h.sound other).later, h.pool, h.waits⟩
  have hv := h.sound event.source
  have hsees := s.sees_view event.source
  rcases post_cases options s event with heq | heq | ⟨hc, heq⟩ |
    ⟨v, stream, nextEntry, -, hacc, hallowed, hopen, heq⟩ <;> rw [heq]
  · exact h
  · exact hnext
  · exact hnext.put (hv.refuse hc) hsees.offer
  · have hpool : s.pool = true := h.pool hacc
    have hput : Inv (s.counted.put event.source
        (v.enqueue options s.pool s.queued stream event).1.offer) := by
      rcases hopen with ⟨hstream, rfl⟩ | ⟨hstream, -, rfl⟩
      · exact hnext.put (hv.enqueue options s.queued event hstream hacc hallowed hpool)
          (hsees.enqueue ..).offer
      · have hsees' : s.Sees event.source { s.view event.source with stream := some stream } :=
          hsees
        exact hnext.put ((hv.openEntry stream hstream hallowed).enqueue options s.queued event rfl
          hacc hallowed hpool) (hsees'.enqueue ..).offer
    exact ⟨hput.sound, hput.pool, hput.waits⟩

/-! ## The other steps -/

/-- What the steps other than `Post` and those of the workers do to a stream. -/
inductive Stream.Moves (v : Stream) : Stream → Prop
  | idle : v.Moves v
  | tick : v.Moves v.tick
  | stopWorker (hacc : v.accepting = false) : v.Moves v.stopWorker
  | setAllowed (hr : v.refreshDue = false) (hw : v.waiting = none) (allowed refreshDue : Bool)
    (hc : allowed = false → refreshDue = false → v.allowed = false) :
    v.Moves { v with allowed := allowed, refreshDue := refreshDue }
  | refresh : v.Moves v.refresh
  | drain (hr : v.refreshDue = false) (hw : v.waiting = none) : v.Moves v.drain
  | drained (stream : ℕ) (hd : v.IsDrained stream) (hw : v.waiting = some stream) :
    v.Moves (v.drained stream)
  | stop : v.Moves { v with accepting := false }
  | unregister (hf : v.entry.frames = 0) (ha : v.entry.active = false) : v.Moves v.unregister

theorem Stream.Sound.moves {v' : Stream} (h : v.Sound) (hm : v.Moves v') : v'.Sound := by
  cases hm with
  | idle => exact h
  | tick => exact h.tick
  | stopWorker hacc => exact h.stopWorker hacc
  | setAllowed hr hw allowed refreshDue hc => exact h.setAllowed hr hw hc
  | refresh => exact h.refresh
  | drain hr => exact h.drain hr
  | drained stream hd hw => exact h.drained hd hw
  | stop => exact h.stop
  | unregister hf ha => exact h.unregister hf ha

/-- One stream moves, the others do not. -/
theorem State.moves_put (s' : State) (hsees : s'.Sees key v) (hm : (s.view key).Moves v)
    (hother : ∀ other ≠ key, s'.view other = s.view other) (other : Key) :
    (s.view other).Moves ((s'.put key v).view other) := by
  by_cases hk : other = key
  · rw [hk, view_put_self hsees]
    exact hm
  · rw [view_put_of_ne hk, hother other hk]
    exact .idle

theorem State.settled_iff : s.settled = true ↔ s.refreshDue = false ∧ s.waiting = none := by
  simp [State.settled]

/-- The settings that `DrainStream` leaves behind are about its stream only. -/
theorem State.moves_drain {allowed : Key → Bool} (hc : s.config = some allowed)
    (hs : s.settled = true) (other : Key) :
    (s.view other).Moves (({ s.put key (s.view key).drain with
      config := some (Function.update allowed key false)
      waiting := (s.view key).drain.waiting.map (key, ·) } : State).view other) := by
  obtain ⟨hr, hw⟩ := settled_iff.1 hs
  refine moves_put { s with
    config := some (Function.update allowed key false)
    waiting := (s.view key).drain.waiting.map (key, ·) } ⟨rfl, ?_, rfl, ?_, rfl⟩
    (.drain hr (by simp [State.view, hw])) ?_ other
  · simp [State.allows, Stream.drain]
  · cases hstream : (s.view key).stream <;> simp [Stream.drain, hstream, Option.filter]
  · intro other hk
    have hnone : ((s.view key).stream.map (key, ·)).filter (·.1 = other) = none := by
      cases (s.view key).stream <;> simp [Option.filter, Ne.symm hk]
    simp only [State.view, State.allows, Stream.drain] at hnone ⊢
    simp [hnone, hc, hw, hk]

theorem State.moves_drained {waiting : Key × ℕ} (hw : s.waiting = some waiting)
    (hd : s.streams.find waiting.1 = some waiting.2 →
      (s.slots waiting.1).entry.frames = 0 ∧ (s.slots waiting.1).entry.active = false)
    (other : Key) : (s.view other).Moves
      (({ s.put waiting.1 ((s.view waiting.1).drained waiting.2) with waiting := none } :
        State).view other) := by
  refine moves_put { s with waiting := none } ?_
    (.drained _ hd (by simp [State.view, hw])) ?_ other
  · rw [Stream.drained]
    split_ifs <;> exact ⟨rfl, rfl, rfl, rfl, rfl⟩
  · intro other hk
    simp [State.view, State.allows, hw, Option.filter, Ne.symm hk]

/-- Once the workers are gone, nothing is in flight. -/
theorem Inv.idle_of_stopped (h : Inv s) (hs : ∀ key ∈ s.streams.keys,
    (s.slots key).focus = .stopping false ∧ (s.slots key).session = none) (key : Key) :
    (s.slots key).entry.frames = 0 ∧ (s.slots key).entry.active = false := by
  have hv := h.sound key
  cases hstream : s.streams.find key with
  | none =>
    have hentry : (s.slots key).entry = {} := hv.unregistered hstream
    rw [hentry]
    exact ⟨rfl, rfl⟩
  | some stream =>
    obtain ⟨hfocus, hsession⟩ := hs key (Table.mem_keys_of_find hstream)
    have hjobs := (hv.halted (by rw [show (s.view key).focus = _ from hfocus]; trivial)).1
    have hfits := hv.fits
    rw [show (s.view key).focus = _ from hfocus] at hfits
    exact ⟨hv.frames_eq.trans (by rw [hjobs]; rfl), by grind [State.view]⟩

theorem Inv.moves (h : Inv s) {op : Step} (hpost : ∀ event, op ≠ .post event)
    (hwork : ∀ key outcome, op ≠ .work key outcome) (key : Key) :
    (s.view key).Moves ((step options s op).view key) := by
  cases op with
  | post event => exact absurd rfl (hpost event)
  | work key outcome => exact absurd rfl (hwork key outcome)
  | tick key => exact moves_put _ (by grind [s.sees_view key]) .tick (fun _ _ => rfl) _
  | stopWorker key =>
    rw [step]
    split_ifs with hp
    · exact .idle
    · have hacc : s.accepting = false := by grind [h.pool]
      exact moves_put _ (by grind [s.sees_view key]) (.stopWorker hacc) (fun _ _ => rfl) _
  | enable streams =>
    rw [step]
    split_ifs with hs
    · obtain ⟨hr, hw⟩ := settled_iff.1 hs
      refine .setAllowed hr (by simp [State.view, hw]) _ _ ?_
      cases hc : s.config <;> simp_all [State.allows, State.view]
    · exact .idle
  | setConfig allowed =>
    rw [step]
    split_ifs with hs
    · obtain ⟨hr, hw⟩ := settled_iff.1 hs.1
      exact .setAllowed hr (by simp [State.view, hw]) _ _ (by simp)
    · exact .idle
  | refreshStreamPolicies =>
    rw [step]
    split_ifs
    · exact .idle
    · exact .refresh
  | drainStream key =>
    rw [step]
    cases hc : s.config with
    | none => exact .idle
    | some allowed =>
      split_ifs with hs
      · exact moves_drain hc hs.1 _
      · exact .idle
  | drained =>
    rw [step]
    cases hw : s.waiting with
    | none => exact .idle
    | some waiting =>
      dsimp only
      split_ifs with hd
      · exact moves_drained hw hd _
      · exact .idle
  | stop =>
    rw [step]
    split_ifs
    · exact .stop
    · exact .idle
  | stopPool =>
    rw [step]
    split_ifs <;> exact .idle
  | stopped =>
    rw [step]
    split_ifs with hs
    · obtain ⟨hf, ha⟩ := h.idle_of_stopped hs key
      exact .unregister hf ha
    · exact .idle

theorem Inv.moves_rest (h : Inv s) {op : Step} (hpost : ∀ event, op ≠ .post event) :
    ((step options s op).accepting = true → (step options s op).pool = true) ∧
      ((step options s op).waiting ≠ none → (step options s op).accepting = true) := by
  obtain ⟨-, hp, hw⟩ := h
  cases op with
  | post event => exact absurd rfl (hpost event)
  | drainStream key => cases hc : s.config <;> grind [step, State.put]
  | drained => cases hw : s.waiting <;> grind [step, State.put]
  | _ => grind [step, State.put]

theorem Inv.step (h : Inv s) (op : Step) : Inv (step options s op) := by
  by_cases hpost : ∃ event, op = .post event
  · obtain ⟨event, rfl⟩ := hpost
    exact h.post event
  by_cases hwork : ∃ key outcome, op = .work key outcome
  · obtain ⟨key, outcome, rfl⟩ := hwork
    obtain ⟨h₁, h₂, h₃, h₄, h₅⟩ := (s.view key).work_env outcome
    have hput := h.put ((h.sound key).work outcome) ⟨h₁, h₂, h₃, h₄, h₅⟩
    exact ⟨hput.sound, hput.pool, hput.waits⟩
  push Not at hpost hwork
  exact ⟨fun key => (h.sound key).moves (h.moves hpost hwork key), (h.moves_rest hpost).1,
    (h.moves_rest hpost).2⟩

theorem Inv.init (config : Option (Key → Bool)) : Inv { config := config } where
  sound key := by
    have howned : Stream.Owned (State.view { config := config } key) := by
      constructor <;> simp [State.view, Table.empty, Focus.job, Focus.IsStopping, Stream.Fits,
        Stream.Settled]
    refine ⟨⟨howned, ?_, ?_, ?_, ?_, ?_, ?_, ?_, ?_⟩, ?_, ?_, ?_, ?_, ?_, ?_, ?_⟩ <;>
      simp [State.view, Focus.giving]
  pool _ := rfl
  waits h := absurd rfl h

end Packetia.Record
