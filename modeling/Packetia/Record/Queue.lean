import Packetia.Record.Runs

/-!
# The queue of the recording dispatcher

The totals of the queue are the sums over the streams, within the limits (`Queue`), and no entry is
registered without a job or a session as long as `Post` does not register one for a frame it then
refuses (`Held`).

Both are about the counts of the entries, which only `Post` and `Complete` change.
-/

namespace Packetia.Record

open List Option Function

variable {s : State} {key : Key} {v : Stream} {options : RecordingOptions} {queued : QueueStats}
  {event : EncodedFrameEvent}

/-! ## Sums -/

section Sums

variable {K : Type*} {f : K → ℕ} {n : ℕ}

/-- `n` is the sum of `f`, which is zero but for finitely many keys. -/
def Sums (f : K → ℕ) (n : ℕ) : Prop :=
  ∃ keys : Finset K, (∀ k ∉ keys, f k = 0) ∧ ∑ k ∈ keys, f k = n

theorem Sums.le (h : Sums f n) (k : K) : f k ≤ n := by
  obtain ⟨keys, hzero, rfl⟩ := h
  by_cases hk : k ∈ keys
  · exact Finset.single_le_sum (fun _ _ => Nat.zero_le _) hk
  · rw [hzero k hk]
    exact Nat.zero_le _

variable [DecidableEq K]

theorem Sums.sum_eq (h : Sums f n) (keys : Finset K) (hkeys : ∀ k ∉ keys, f k = 0) :
    ∑ k ∈ keys, f k = n := by
  obtain ⟨keys', hzero, rfl⟩ := h
  have hleft : keys ⊆ keys ∪ keys' := Finset.subset_union_left
  have hright : keys' ⊆ keys ∪ keys' := Finset.subset_union_right
  rw [Finset.sum_subset hleft fun k _ hk => hkeys k hk,
    Finset.sum_subset hright fun k _ hk => hzero k hk]

theorem Sums.update (h : Sums f n) {k : K} {m n' : ℕ} (hm : n' + f k = n + m) :
    Sums (update f k m) n' := by
  obtain ⟨keys, hzero, hsum⟩ := h
  refine ⟨insert k keys, fun l hl => ?_, ?_⟩
  · rw [Finset.mem_insert, not_or] at hl
    rw [update_of_ne hl.1, hzero l hl.2]
  · have hf := Finset.sum_subset (Finset.subset_insert k keys) fun l _ hl => hzero l hl
    have h₁ := Finset.add_sum_erase (insert k keys) f (Finset.mem_insert_self k keys)
    rw [Finset.sum_update_of_mem (Finset.mem_insert_self k keys), Finset.sdiff_singleton_eq_erase]
    omega

end Sums

/-! ## Totals and limits -/

/-- The totals and the counts of an entry change together, and grow within the limits only. -/
@[grind] def Tallies (options : RecordingOptions) (queued : QueueStats) (v : Stream)
    (queued' : QueueStats) (v' : Stream) : Prop :=
  (queued'.frames + v.entry.frames = queued.frames + v'.entry.frames ∧
    queued'.bytes + v.entry.bytes = queued.bytes + v'.entry.bytes) ∧
  (v'.entry.frames ≤ v.entry.frames ∧ v'.entry.bytes ≤ v.entry.bytes ∨
    queued'.frames ≤ options.maxQueueFrames ∧ queued'.bytes ≤ options.maxQueueBytes ∧
      v'.entry.frames ≤ options.maxStreamQueueFrames ∧ v'.entry.bytes ≤ options.maxStreamQueueBytes)

structure Queue (options : RecordingOptions) (s : State) : Prop where
  frames : Sums (fun k => (s.slots k).entry.frames) s.queued.frames
  bytes : Sums (fun k => (s.slots k).entry.bytes) s.queued.bytes
  limits : s.queued.frames ≤ options.maxQueueFrames ∧ s.queued.bytes ≤ options.maxQueueBytes
  stream_limits : ∀ k, (s.slots k).entry.frames ≤ options.maxStreamQueueFrames ∧
    (s.slots k).entry.bytes ≤ options.maxStreamQueueBytes

namespace Queue

theorem congr {s' : State} (h : Queue options s) (hq : s'.queued = s.queued)
    (he : ∀ k, (s'.slots k).entry.frames = (s.slots k).entry.frames ∧
      (s'.slots k).entry.bytes = (s.slots k).entry.bytes) : Queue options s' := by
  obtain ⟨hf, hb, hl, hs⟩ := h
  refine ⟨?_, ?_, hq ▸ hl, fun k => by rw [(he k).1, (he k).2]; exact hs k⟩
  · rw [hq, funext fun k => (he k).1]
    exact hf
  · rw [hq, funext fun k => (he k).2]
    exact hb

theorem put (h : Queue options s) (ht : Tallies options s.queued (s.view key) queued v) :
    Queue options { s.put key v with queued := queued } := by
  obtain ⟨hf, hb, hl, hs⟩ := h
  have hentry : (fun k => ((s.put key v).slots k).entry) =
      update (fun k => (s.slots k).entry) key v.entry := by
    funext k
    by_cases hk : k = key <;> simp [State.put, hk]
  have hframes : (fun k => ((s.put key v).slots k).entry.frames) =
      update (fun k => (s.slots k).entry.frames) key v.entry.frames := by
    funext k
    rw [congrFun hentry k]
    by_cases hk : k = key <;> simp [hk]
  have hbytes : (fun k => ((s.put key v).slots k).entry.bytes) =
      update (fun k => (s.slots k).entry.bytes) key v.entry.bytes := by
    funext k
    rw [congrFun hentry k]
    by_cases hk : k = key <;> simp [hk]
  have hview : (s.view key).entry = (s.slots key).entry := rfl
  refine ⟨?_, ?_, by grind, fun k => ?_⟩
  · exact (congrArg (Sums · _) hframes).mpr (hf.update (by grind))
  · exact (congrArg (Sums · _) hbytes).mpr (hb.update (by grind))
  · have hk := congrFun hentry k
    by_cases hkey : k = key <;> grind [update]

end Queue

theorem Stream.Owned.bytes_eq_zero (h : v.Owned) (hf : v.entry.frames = 0) : v.entry.bytes = 0 := by
  rw [h.bytes_eq, h.jobs_eq_nil hf]
  rfl

theorem Stream.Moves.counts {v' : Stream} (hm : v.Moves v') (h : v.Owned) :
    v'.entry.frames = v.entry.frames ∧ v'.entry.bytes = v.entry.bytes := by
  cases hm with
  | drained stream hd =>
    -- an entry without jobs goes, so its counts were zero
    rw [Stream.drained]
    split_ifs with hs
    · exact ⟨(hd hs).1.symm, (h.bytes_eq_zero (hd hs).1).symm⟩
    · exact ⟨rfl, rfl⟩
  | unregister hf => exact ⟨hf.symm, (h.bytes_eq_zero hf).symm⟩
  | _ => grind

theorem Stream.Owned.tallies_enqueue (h : v.Owned) (options : RecordingOptions)
    (hl : queued.frames ≤ options.maxQueueFrames ∧ queued.bytes ≤ options.maxQueueBytes)
    (hs : v.entry.frames ≤ options.maxStreamQueueFrames ∧
      v.entry.bytes ≤ options.maxStreamQueueBytes)
    (pool : Bool) (stream : ℕ) (event : EncodedFrameEvent) :
    Tallies options queued v (v.enqueue options pool queued stream event).2
      (v.enqueue options pool queued stream event).1.offer := by
  have hkept : ∀ v', v'.entry.frames = v.entry.frames → v'.entry.bytes = v.entry.bytes →
      Tallies options queued v queued v' := fun v' hf hb => ⟨by rw [hf, hb]; exact ⟨rfl, rfl⟩,
    .inl ⟨hf.le, hb.le⟩⟩
  rw [Stream.enqueue]
  split_ifs with hd hfull
  · exact hkept _ rfl rfl
  · exact hkept _ rfl rfl
  · -- the frame is within the four limits
    simp only [Stream.full, Bool.or_eq_true, decide_eq_true_eq, not_or, not_le, not_lt] at hfull
    obtain ⟨⟨⟨hframes, hbytes⟩, hsframes⟩, hsbytes⟩ := hfull
    dsimp only [Tallies, Stream.admitted, Stream.offer]
    exact ⟨by omega, .inr ⟨hframes, by omega, hsframes, by omega⟩⟩
  · rw [Stream.eraseUnused]
    split_ifs with hu
    · exact hkept _ hu.1.symm (h.bytes_eq_zero hu.1).symm
    · exact hkept _ rfl rfl

theorem Stream.Owned.tallies_work (h : v.Owned) (hq : v.entry.frames ≤ queued.frames ∧
    v.entry.bytes ≤ queued.bytes) (outcome : Outcome) :
    Tallies options queued v (v.focus.queuedAfter queued) (v.work outcome) := by
  have hzero := h.bytes_eq_zero
  cases hf : v.focus with
  | away => cases hj : v.jobs.head? <;> grind [Focus.queuedAfter]
  | complete job =>
    obtain ⟨jobs, hjobs⟩ := head?_eq_some_iff.1 (h.head job (by rw [hf]; rfl))
    have hframes := h.frames_eq
    have hbytes := h.bytes_eq
    rw [hjobs] at hbytes hframes
    grind [Focus.queuedAfter]
  | _ => grind [Focus.queuedAfter]

section

variable (h : Queue options s)
include h

theorem Queue.post (hs : Inv s) (event : EncodedFrameEvent) :
    Queue options (post options s event) := by
  have hv := (hs.sound event.source).toOwned
  have hcounted : Queue options s.counted := { h with }
  rcases post_cases options s event with heq | heq | ⟨hc, heq⟩ |
    ⟨v, stream, nextEntry, -, hacc, hallowed, hopen, heq⟩ <;> rw [heq]
  · exact h
  · exact hcounted
  · exact hcounted.put ⟨⟨rfl, rfl⟩, .inl ⟨le_rfl, le_rfl⟩⟩
  · have hvo : v.Owned := by
      rcases hopen with ⟨-, rfl⟩ | ⟨hstream, -, rfl⟩
      · exact hv
      · exact hv.openEntry stream hstream
    have hentry : v.entry = (s.slots event.source).entry := by
      rcases hopen with ⟨-, rfl⟩ | ⟨-, -, rfl⟩ <;> rfl
    have ht := hvo.tallies_enqueue options h.limits
      (by rw [hentry]; exact h.stream_limits event.source) s.pool stream event
    have hcount : Tallies options s.queued (s.counted.view event.source)
        (v.enqueue options s.pool s.queued stream event).2
        (v.enqueue options s.pool s.queued stream event).1.offer := by
      unfold Tallies at ht ⊢
      rw [hentry] at ht
      exact ht
    have hput := hcounted.put hcount
    exact { hput with }

theorem Queue.work (hs : Inv s) (key : Key) (outcome : Outcome) :
    Queue options (step options s (.work key outcome)) :=
  h.put ((hs.sound key).tallies_work ⟨h.frames.le key, h.bytes.le key⟩ outcome)

theorem Queue.eq_zero (hz : ∀ k, (s.slots k).entry.frames = 0 ∧ (s.slots k).entry.bytes = 0) :
    s.queued = {} := by
  have hf := h.frames.sum_eq ∅ fun k _ => (hz k).1
  have hb := h.bytes.sum_eq ∅ fun k _ => (hz k).2
  rw [Finset.sum_empty] at hf hb
  cases hq : s.queued
  rw [hq] at hf hb
  exact QueueStats.mk.injEq .. ▸ ⟨hf.symm, hb.symm⟩

theorem Queue.step (hs : Inv s) (op : Step) : Queue options (step options s op) := by
  by_cases hpost : ∃ event, op = .post event
  · obtain ⟨event, rfl⟩ := hpost
    exact h.post hs event
  by_cases hwork : ∃ key outcome, op = .work key outcome
  · obtain ⟨key, outcome, rfl⟩ := hwork
    exact h.work hs key outcome
  push Not at hpost hwork
  refine h.congr ?_ fun key => (hs.moves hpost hwork key).counts (hs.sound key).toOwned
  -- the totals that `Stop` clears are zero
  cases op with
  | stopped =>
    rw [Record.step]
    split_ifs with hstop
    · refine (h.eq_zero fun k => ?_).symm
      have hidle := hs.idle_of_stopped hstop k
      exact ⟨hidle.1, (hs.sound k).bytes_eq_zero hidle.1⟩
    · rfl
  | post event => exact absurd rfl (hpost event)
  | work key outcome => exact absurd rfl (hwork key outcome)
  | drainStream key => cases hc : s.config <;> grind [Record.step, State.put]
  | drained => cases hw : s.waiting <;> grind [Record.step, State.put]
  | _ => grind [Record.step, State.put]

end

/-! ## Runs -/

theorem Queue.init (config : Option (Key → Bool)) : Queue options { config := config } where
  frames := ⟨∅, fun _ _ => rfl, rfl⟩
  bytes := ⟨∅, fun _ _ => rfl, rfl⟩
  limits := ⟨Nat.zero_le _, Nat.zero_le _⟩
  stream_limits _ := ⟨Nat.zero_le _, Nat.zero_le _⟩

theorem inv_after (options : RecordingOptions) (config : Option (Key → Bool)) (steps : List Step) :
    Inv (after options config steps) ∧ Queue options (after options config steps) := by
  refine run_induction (P := fun _ s => Inv s ∧ Queue options s) ⟨.init config, .init config⟩ ?_
    steps
  intro _ op h
  exact ⟨h.1.step op, h.2.step h.1 op⟩

/-- Without frames and an active session, a stream whose worker goes on is quiet. -/
theorem Stream.Owned.quiet (h : v.Owned) (hacc : v.accepting = true) (hf : v.entry.frames = 0)
    (ha : v.entry.active = false) : v.jobs = [] ∧ v.session = none := by
  have hfits := h.fits
  have hhalted := h.halted
  have hopened := h.not_opened hf
  refine ⟨h.jobs_eq_nil hf, ?_⟩
  cases hfocus : v.focus <;> grind

theorem Stream.Owned.stream_of_session (h : v.Owned) {entry : SessionEntry}
    (hs : v.session = some entry) :
    v.stream = some entry.stream ∨ entry.closed = true ∧ v.accepting = false := by
  have hfits := h.fits
  have hhalted := h.halted
  cases hfocus : v.focus <;> grind

theorem Inv.quiet_of_drained (h : Inv s) {stream : ℕ} (hw : s.waiting = some (key, stream))
    (hreturn : (Record.step options s .drained).waiting = none) :
    ((Record.step options s .drained).slots key).jobs = [] ∧
      ((Record.step options s .drained).slots key).session = none := by
  have hacc := h.waits (by rw [hw]; exact some_ne_none _)
  have hv := h.sound key
  have hview : (s.view key).waiting = some stream := by simp [State.view, hw]
  by_cases hd : (s.view key).IsDrained stream
  · have hstep : Record.step options s .drained =
        { s.put key ((s.view key).drained stream) with waiting := none } := by
      rw [Record.step, hw]
      exact if_pos hd
    have hcounts : (s.view key).entry.frames = 0 ∧ (s.view key).entry.active = false := by
      obtain ⟨-, -, hnone | hsome⟩ := hv.waits (by rw [hview]; exact some_ne_none _)
      · rw [hv.unregistered hnone]
        exact ⟨rfl, rfl⟩
      · exact hd (hsome.trans hview)
    have hquiet := hv.quiet hacc hcounts.1 hcounts.2
    rw [hstep]
    simp only [State.put, update_self]
    grind
  · have hstep : Record.step options s .drained = s := by
      rw [Record.step, hw]
      exact if_neg hd
    rw [hstep, hw] at hreturn
    cases hreturn

/-- `DrainStream` returns at once if the stream is not registered. -/
theorem Inv.quiet_of_drainStream (h : Inv s) (hs : s.settled = true) (hacc : s.accepting = true)
    (hc : s.config ≠ none) (hreturn : (Record.step options s (.drainStream key)).waiting = none) :
    ((Record.step options s (.drainStream key)).slots key).jobs = [] ∧
      ((Record.step options s (.drainStream key)).slots key).session = none := by
  obtain ⟨allowed, hallowed⟩ := ne_none_iff_exists'.1 hc
  have hstep : Record.step options s (.drainStream key) =
      { s.put key (s.view key).drain with
        config := some (update allowed key false)
        waiting := (s.view key).drain.waiting.map (key, ·) } := by
    rw [Record.step, hallowed]
    exact if_pos ⟨hs, hacc⟩
  have hv := h.sound key
  rw [hstep] at hreturn ⊢
  have hentry := hv.unregistered (map_eq_none_iff.1 hreturn)
  have hquiet := hv.quiet hacc (by rw [hentry]) (by rw [hentry])
  simp only [State.put, update_self]
  exact hquiet

/-- In every run, the counts of the queue are the sums over the jobs in flight and within their
    limits. The session of a stream, of which the worker keeps one at most, has the registered
    entry, unless `on_worker_stop` has closed it. The frames of every session come in the order of
    their offers and leave out no offer between them that the settings allowed. And when
    `DrainStream` returns, no job is in flight and no session open. -/
theorem recordings_without_gaps (options : RecordingOptions) (config : Option (Key → Bool))
    (steps : List Step) :
    let s := after options config steps
    (s.queued.frames = ∑ key ∈ s.streams.keys.toFinset, (s.slots key).jobs.length ∧
      s.queued.bytes = ∑ key ∈ s.streams.keys.toFinset,
        ((s.slots key).jobs.map (·.event.storageSize)).sum) ∧
    (∀ key, (s.slots key).entry.frames = (s.slots key).jobs.length ∧
      (s.slots key).entry.bytes = ((s.slots key).jobs.map (·.event.storageSize)).sum ∧
      ∀ job ∈ (s.slots key).jobs, s.streams.find key = some job.stream) ∧
    (s.queued.frames ≤ options.maxQueueFrames ∧ s.queued.bytes ≤ options.maxQueueBytes ∧
      ∀ key, (s.slots key).entry.frames ≤ options.maxStreamQueueFrames ∧
        (s.slots key).entry.bytes ≤ options.maxStreamQueueBytes) ∧
    (∀ key entry, (s.slots key).session = some entry →
      s.streams.find key = some entry.stream ∨ entry.closed = true ∧ s.accepting = false) ∧
    (∀ key, ∀ entry ∈ (s.slots key).ended ++ (s.slots key).session.toList,
      Gapless (s.slots key).offers entry.frames) ∧
    (∀ key stream, s.waiting = some (key, stream) →
      (step options s .drained).waiting = none →
      ((step options s .drained).slots key).jobs = [] ∧
        ((step options s .drained).slots key).session = none) ∧
    ∀ key, s.settled = true → s.accepting = true → s.config ≠ none →
      (step options s (.drainStream key)).waiting = none →
      ((step options s (.drainStream key)).slots key).jobs = [] ∧
        ((step options s (.drainStream key)).slots key).session = none := by
  intro s
  obtain ⟨h, hq⟩ := inv_after options config steps
  have hlength : ∀ key, (s.slots key).entry.frames = (s.slots key).jobs.length :=
    fun key => (h.sound key).frames_eq
  have hbytes : ∀ key, (s.slots key).entry.bytes =
      ((s.slots key).jobs.map (·.event.storageSize)).sum := fun key => (h.sound key).bytes_eq
  have hnone : ∀ key ∉ s.streams.keys.toFinset, (s.slots key).entry = {} := fun key hk =>
    (h.sound key).unregistered (Table.find_eq_none.2 fun hmem => hk (mem_toFinset.2 hmem))
  refine ⟨⟨?_, ?_⟩, fun key => ⟨hlength key, hbytes key, (h.sound key).jobs_stream⟩,
    ⟨hq.limits.1, hq.limits.2, hq.stream_limits⟩, ?_, ?_,
    fun key stream hw => h.quiet_of_drained hw, fun key => h.quiet_of_drainStream⟩
  · rw [← hq.frames.sum_eq _ fun key hk => by rw [hnone key hk]]
    exact Finset.sum_congr rfl fun key _ => hlength key
  · rw [← hq.bytes.sum_eq _ fun key hk => by rw [hnone key hk]]
    exact Finset.sum_congr rfl fun key _ => hbytes key
  · exact fun key entry => (h.sound key).stream_of_session
  · intro key entry hentry
    rcases mem_append.1 hentry with hended | hsession
    · exact (h.sound key).ended_gapless entry hended
    · exact (h.sound key).gapless entry (mem_toList.1 hsession)

/-- One frame is recorded and the dispatcher stopped, up to the point where `on_worker_stop` has
    retired the entry and not yet dropped its session. -/
theorem session_outlives_entry :
    let key : Key := (['r'], ['v'])
    let steps := [.post ⟨key, true, 1⟩] ++ List.replicate 6 (.work key .going) ++
      [.stop, .stopPool, .stopWorker key] ++ List.replicate 3 (.work key .going)
    let s := after ⟨8, 8, 8, 8, 8⟩ none steps
    (s.slots key).session = some ⟨0, [⟨⟨key, true, 1⟩, 0, 0, 0⟩], true⟩ ∧
      s.streams.find key = none := by
  decide +kernel

/-! ## Entries that are held -/

/-- A registered entry has a job or a session, or its worker is about to drop it. -/
@[grind] def Stream.Held (v : Stream) : Prop :=
  ∀ stream, v.stream = some stream →
    v.entry.frames ≠ 0 ∨ v.entry.active = true ∨ ∃ next, v.focus = .retire stream next

theorem Stream.Held.moves {v' : Stream} (h : v.Held) (hm : v.Moves v') : v'.Held := by
  cases hm <;> grind

theorem Stream.Held.work (h : v.Held) (outcome : Outcome) : (v.work outcome).Held := by
  cases hf : v.focus with
  | away => cases hj : v.jobs.head? <;> grind
  | _ => grind

/-- `Post` finds an entry, or registers one and has room for the frame. -/
theorem Stream.Held.enqueue (h : v.Held ∨ v.full options queued event.storageSize = false)
    (pool : Bool) (stream : ℕ) (hd : v.Held ∨ v.entry.draining = false) :
    (v.enqueue options pool queued stream event).1.offer.Held := by
  rw [Stream.enqueue]
  split_ifs with hdraining hfull
  · exact hd.resolve_right (ne_of_eq_of_ne hdraining nofun)
  · exact h.resolve_right (ne_of_eq_of_ne hfull nofun)
  · exact fun _ _ => .inl (Nat.succ_ne_zero _)
  · -- what is kept has a frame or a session
    rw [Stream.eraseUnused]
    split_ifs with hu
    · exact nofun
    · grind

theorem Stream.enqueue_of_full (hd : v.entry.draining = false)
    (hf : v.full options queued event.storageSize = true) (pool : Bool) (stream : ℕ) :
    v.enqueue options pool queued stream event = (v.cut, queued) := by
  rw [enqueue, hd, if_neg Bool.false_ne_true, if_pos hf]

/-- `Post` registers an entry for a frame that it then refuses, as the queue is full. -/
def Leaks (options : RecordingOptions) (s : State) (event : EncodedFrameEvent) : Prop :=
  let v := s.view event.source
  event.valid = true ∧ v.allowed = true ∧ v.accepting = true ∧ v.stream = none ∧
    s.streams.size < options.maxStreams ∧ v.full options s.queued event.storageSize = true

section

variable (h : ∀ key, (s.view key).Held)
include h

theorem held_put (hsees : s.Sees key v) (hv : v.Held)
    (other : Key) : ((s.put key v).view other).Held := by
  by_cases hk : other = key
  · rw [hk, State.view_put_self hsees]
    exact hv
  · rw [State.view_put_of_ne hk]
    exact h other

theorem held_post (hs : Inv s) (hl : ¬Leaks options s event)
    (key : Key) : ((post options s event).view key).Held := by
  have hv := h event.source
  have hsees := s.sees_view event.source
  rcases post_cases options s event with heq | heq | ⟨hc, heq⟩ |
    ⟨v, stream, nextEntry, hvalid, hacc, hallowed, hopen, heq⟩ <;> rw [heq]
  · exact h key
  · exact h key
  · exact held_put (s := s.counted) h hsees.offer hv key
  · refine held_put (s := s.counted) h ?_ ?_ key
    · rcases hopen with ⟨-, rfl⟩ | ⟨-, -, rfl⟩
      · exact (hsees.enqueue ..).offer
      · exact State.Sees.offer (State.Sees.enqueue (v := { s.view event.source with
          stream := some stream }) hsees ..)
    · rcases hopen with ⟨-, rfl⟩ | ⟨hstream, hsize, rfl⟩
      · exact Stream.Held.enqueue (.inl hv) _ _ (.inl hv)
      · refine Stream.Held.enqueue (.inr ?_) _ _ (.inr ?_)
        · exact Bool.eq_false_iff.2 fun hfull =>
            hl ⟨hvalid, hallowed, hacc, hstream, hsize, hfull⟩
        · rw [(hs.sound event.source).unregistered hstream]

theorem held_step (hs : Inv s) {op : Step}
    (hl : ∀ event, op = .post event → ¬Leaks options s event) (key : Key) :
    ((step options s op).view key).Held := by
  by_cases hpost : ∃ event, op = .post event
  · obtain ⟨event, rfl⟩ := hpost
    exact held_post h hs (hl event rfl) key
  by_cases hwork : ∃ key outcome, op = .work key outcome
  · obtain ⟨worker, outcome, rfl⟩ := hwork
    exact held_put h ((s.view worker).work_env outcome) ((h worker).work outcome) key
  push Not at hpost hwork
  exact (h key).moves (hs.moves hpost hwork key)

end

theorem held_after {config : Option (Key → Bool)} {steps : List Step}
    (hl : ∀ call ∈ history (step options) { config := config } steps,
      ∀ event, call.2 = .post event → ¬Leaks options call.1 event) (key : Key) :
    ((after options config steps).view key).Held := by
  induction steps using reverseRecOn generalizing key with
  | nil =>
    intro stream hstream
    cases hstream
  | append_singleton steps op ih =>
    rw [history_concat] at hl
    rw [after, run_concat]
    refine held_step (fun key => ih (fun call hc => hl call (mem_append_left _ hc)) key)
      (inv_after options config steps).1 (fun event he => ?_) key
    exact hl _ mem_concat_self event he

/-- The stream is queued or recorded. -/
def Live (s : State) (key : Key) : Prop :=
  (s.slots key).jobs ≠ [] ∨ ∃ entry, (s.slots key).session = some entry ∧ entry.closed = false

/-- The worker is inside `MarkInactive`. -/
@[grind] def Focus.IsRetiring : Focus → Prop
  | markInactive _ _ | retire _ _ => True
  | away | taken _ | admitted _ _ | opened _ | input _ | complete _ | ticking _
  | stopping _ => False

theorem Stream.Held.live (h : (s.view key).Held) (hv : (s.view key).Owned)
    (hk : key ∈ s.streams.keys) : Live s key ∨ (s.slots key).focus.IsRetiring := by
  obtain ⟨stream, hstream⟩ := isSome_iff_exists.1 ((s.streams.mem_keys key).1 hk)
  have hview : (s.view key).toSlot = s.slots key := rfl
  rcases h stream hstream with hf | ha | ⟨next, hn⟩
  · refine .inl (.inl fun hnil => hf ?_)
    rw [hv.frames_eq, show (s.view key).jobs = [] from hnil]
    rfl
  · have hfits := hv.fits
    have hhead : (s.view key).focus.job = none ∨ (s.view key).jobs ≠ [] := by
      cases hj : (s.view key).focus.job with
      | none => exact .inl rfl
      | some job => exact .inr (ne_nil_of_mem (mem_of_head? (hv.head job hj)))
    unfold Live
    rw [← hview]
    cases hfocus : (s.view key).focus <;> grind
  · exact .inr (by rw [← hview, hn]; trivial)

/-- A frame that `Post` refuses behind the registration leaves a dead entry. -/
theorem dead_of_leaks (h : Inv s) (hl : Leaks options s event) :
    event.source ∈ (post options s event).streams.keys ∧
      ¬Live (post options s event) event.source := by
  obtain ⟨hvalid, hallowed, hacc, hstream, hsize, hfull⟩ := hl
  have hv := h.sound event.source
  have hentry := hv.unregistered hstream
  have hquiet := hv.quiet hacc (by rw [hentry]) (by rw [hentry])
  have hpost : post options s event = { s.counted.put event.source
      { s.view event.source with stream := some s.nextEntry }.cut.offer with
        nextEntry := s.nextEntry + 1 } := by
    rw [post]
    rw [if_neg (by rw [hvalid]; decide), if_neg (by rw [hallowed]; decide),
      if_neg (by rw [hacc]; decide), hstream]
    rw [if_neg (not_le.2 hsize), Stream.enqueue_of_full
      (v := { s.view event.source with stream := some s.nextEntry }) (by rw [hentry]) hfull]
    rfl
  rw [hpost]
  refine ⟨Table.mem_keys_of_find (v := s.nextEntry) ?_, ?_⟩
  · exact Table.find_set_self
  · simp only [Live, State.put, update_self]
    grind

/-- In every run in which no frame that needs a new entry meets a full queue, every registered
    stream is queued or recorded, but for the moments in which its worker drops the entry; so the
    limit of streams refuses a frame only if that many are. Any such frame leaves an entry that is
    neither. -/
theorem streams_live (options : RecordingOptions) (config : Option (Key → Bool))
    (steps : List Step) :
    let s := after options config steps
    ((∀ call ∈ history (step options) { config := config } steps,
        ∀ event, call.2 = .post event → ¬Leaks options call.1 event) →
      (∀ key ∈ s.streams.keys, Live s key ∨ (s.slots key).focus.IsRetiring) ∧
      (options.maxStreams ≤ s.streams.size → ∃ keys : Finset Key,
        options.maxStreams ≤ keys.card ∧
          ∀ key ∈ keys, Live s key ∨ (s.slots key).focus.IsRetiring)) ∧
    ∀ event, Leaks options s event →
      event.source ∈ (step options s (.post event)).streams.keys ∧
        ¬Live (step options s (.post event)) event.source := by
  intro s
  have hs := (inv_after options config steps).1
  refine ⟨fun hl => ?_, fun event => dead_of_leaks hs⟩
  have hlive : ∀ key ∈ s.streams.keys, Live s key ∨ (s.slots key).focus.IsRetiring :=
    fun key hk => (held_after hl key).live (hs.sound key).toOwned hk
  refine ⟨hlive, fun hmax => ⟨s.streams.keys.toFinset, ?_, fun key hk =>
    hlive key (mem_toFinset.1 hk)⟩⟩
  rw [toFinset_card_of_nodup s.streams.nodup]
  exact hmax

/-- The queue has room for one frame. A second stream is registered and its frame refused; once the
    first frame is recorded the queue is empty, and a third stream is refused all the same. -/
theorem refused_for_dead_stream :
    let a : Key := (['r'], ['a'])
    let b : Key := (['r'], ['b'])
    let c : Key := (['r'], ['c'])
    let options : RecordingOptions := ⟨1, 8, 8, 8, 2⟩
    let s := after options none
      ([.post ⟨a, true, 1⟩, .post ⟨b, true, 1⟩] ++ List.replicate 6 (.work a .going))
    s.queued = {} ∧ s.streams.keys = [a, b] ∧
      (s.slots b).jobs = [] ∧ (s.slots b).session = none ∧ (s.slots b).focus = .away ∧
      ((step options s (.post ⟨c, true, 1⟩)).slots c).jobs = [] := by
  decide +kernel

end Packetia.Record
