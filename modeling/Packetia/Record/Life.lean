import Packetia.Record.Dispatcher

/-!
# Who holds an entry

The entry of a stream is registered as long as it has a job in flight or an open session, and its
counts are those of the jobs. What ties the session to the entry depends on where the worker is:
`Stream.Fits` says so position by position, and `Stream.Owned` adds the counts.
-/

namespace Packetia.Record

open Stream

@[grind] def Next.job : Next → Option FrameJob
  | complete job => some job
  | away | stopping => none

namespace Focus

/-- The job the worker handles. -/
@[grind] def job : Focus → Option FrameJob
  | taken job | admitted job _ | opened job | input job | complete job => some job
  | markInactive _ next | retire _ next => next.job
  | away | ticking _ | stopping _ => none

/-- The worker is in `on_worker_stop`. -/
@[grind] def IsStopping : Focus → Prop
  | markInactive _ next | retire _ next => next = .stopping
  | stopping _ => True
  | away | taken _ | admitted _ _ | opened _ | input _ | complete _ | ticking _ => False

end Focus

attribute [grind] Next.focus atFocus Stream.unregister Stream.eraseUnused offer
  cut admitted endSession give completed Stream.Admits
  Stream.enqueue refresh drain Stream.IsDrained Stream.drained Stream.work
  tick stopWorker

namespace Stream

variable {v v' : Stream} {focus : Focus}

/-- Either there is no session, or there is an open one of the registered entry; the entry
    knows which. -/
@[grind] def Settled (v : Stream) : Prop :=
  v.session = none ∧ v.entry.active = false ∨
    ∃ entry, v.session = some entry ∧ entry.closed = false ∧
      v.stream = some entry.stream ∧ v.entry.active = true

/-- The session is gone; at the end of the worker it is closed and still there. -/
@[grind] def Parted (v : Stream) (next : Next) : Prop :=
  v.session = none ∨ next = .stopping ∧ ∃ entry, v.session = some entry ∧ entry.closed = true

/-- How session and entry belong together when the worker is at a position. -/
@[grind] def Fits (v : Stream) : Focus → Prop
  | .away | .taken _ | .complete _ | .ticking _ => v.Settled
  | .admitted _ _ => v.Settled ∨ v.session = none
  | .opened _ => ∃ entry, v.session = some entry ∧ entry.closed = false ∧
      v.stream = some entry.stream
  | .input _ => v.Settled ∧ v.session ≠ none
  | .markInactive stream next =>
    v.Parted next ∧ (v.entry.active = true → v.stream = some stream)
  | .retire _ next => v.Parted next ∧ v.entry.active = false
  | .stopping pending => v.Settled ∧ (pending = false → v.session = none) ∨
      pending = false ∧ v.Parted .stopping ∧ v.entry.active = false

/-- The counts of the entry are those of the jobs, the first of which the worker may have, and
    session and entry belong together. -/
structure Owned (v : Stream) : Prop where
  unregistered : v.stream = none → v.entry = {}
  jobs_stream : ∀ job ∈ v.jobs, v.stream = some job.stream
  frames_eq : v.entry.frames = v.jobs.length
  bytes_eq : v.entry.bytes = (v.jobs.map (·.event.storageSize)).sum
  head : ∀ job, v.focus.job = some job → v.jobs.head? = some job
  halted : v.focus.IsStopping → v.jobs = [] ∧ v.accepting = false
  fits : v.Fits v.focus

/-- Session and entry belong together whatever else changes. -/
theorem Fits.congr (h : v.Fits focus) (hsession : v'.session = v.session)
    (hstream : v'.stream = v.stream) (hactive : v'.entry.active = v.entry.active) :
    v'.Fits focus := by
  cases focus <;> simpa only [Fits, Settled, Parted, hsession, hstream, hactive] using h

/-- Which entry is registered does not matter as long as it is not active. -/
theorem Fits.of_inactive (h : v.Fits focus) (hsession : v'.session = v.session)
    (ha : v.entry.active = false) (ha' : v'.entry.active = false)
    (ho : ∀ job, focus ≠ .opened job) : v'.Fits focus := by
  cases focus <;> grind

namespace Owned

variable (h : Owned v) {job : FrameJob} {stream : ℕ}

include h

/-- The stream of a job that the worker handles is the registered one. -/
theorem stream_of_job (hj : v.focus.job = some job) : v.stream = some job.stream :=
  h.jobs_stream job (List.mem_of_head? (h.head job hj))

theorem jobs_eq_nil (hf : v.entry.frames = 0) : v.jobs = [] :=
  List.length_eq_zero_iff.1 (h.frames_eq ▸ hf)

/-- A worker without jobs has not just opened a session. -/
theorem not_opened (hf : v.entry.frames = 0) (job : FrameJob) : v.focus ≠ .opened job := by
  intro ho
  have hhead := h.head job (by rw [ho]; rfl)
  rw [h.jobs_eq_nil hf] at hhead
  cases hhead

/-- The session of a stream without an entry is closed, at the end of the worker. -/
theorem closed_of_unregistered (hs : v.stream = none) (hse : v.session ≠ none) :
    v.accepting = false := by
  have hfits := h.fits
  refine (h.halted ?_).2
  cases hf : v.focus <;> grind

/-! ## Steps -/

theorem unregister (hf : v.entry.frames = 0) (ha : v.entry.active = false) :
    Owned v.unregister := by
  have hjobs := h.jobs_eq_nil hf
  refine ⟨fun _ => rfl, ?_, ?_, ?_, h.head, h.halted,
    h.fits.of_inactive rfl ha rfl (h.not_opened hf)⟩ <;> simp [Stream.unregister, hjobs]

theorem eraseUnused : Owned v.eraseUnused := by
  rw [Stream.eraseUnused]
  split_ifs with hu
  · exact h.unregister hu.1 hu.2
  · exact h

theorem openEntry (stream : ℕ) (hs : v.stream = none) : Owned { v with stream := some stream } := by
  have hentry := h.unregistered hs
  have hf : v.entry.frames = 0 := by rw [hentry]
  have ha : v.entry.active = false := by rw [hentry]
  have hjobs := h.jobs_eq_nil hf
  exact { h with
    unregistered := nofun
    jobs_stream := by simp [hjobs]
    fits := h.fits.of_inactive rfl ha ha (h.not_opened hf) }

theorem enqueue (options : RecordingOptions) (pool : Bool) (queued : QueueStats)
    (event : EncodedFrameEvent) (hs : v.stream = some stream) (hacc : v.accepting = true) :
    Owned (v.enqueue options pool queued stream event).1 := by
  have hgone := h.eraseUnused
  have hregistered : v.stream ≠ none := by rw [hs]; exact Option.some_ne_none _
  have hcut : Owned v.cut :=
    { h with
      unregistered := fun hn => absurd hn hregistered
      fits := h.fits.congr rfl rfl rfl }
  have hadmitted : Owned (v.admitted stream event) :=
    { unregistered := fun hn => absurd hn hregistered
      jobs_stream := forall_mem_concat.2 ⟨h.jobs_stream, hs⟩
      frames_eq := by
        rw [Stream.admitted, List.length_append, h.frames_eq]
        rfl
      bytes_eq := by
        rw [Stream.admitted, List.map_append, List.sum_append, h.bytes_eq]
        rfl
      head := fun job hj => List.mem_head?_append_of_mem_head? (h.head job hj)
      halted := fun hstop => absurd hacc (by rw [(h.halted hstop).2]; decide)
      fits := h.fits.congr rfl rfl rfl }
  rw [Stream.enqueue]
  split_ifs <;> assumption

theorem offer : Owned v.offer :=
  { h with fits := h.fits.congr rfl rfl rfl }

theorem refresh : Owned v.refresh := by
  rw [Stream.refresh]
  split_ifs with hc
  · exact { h with unregistered := fun hs => absurd hs hc.1, fits := h.fits.congr rfl rfl rfl }
  · exact { h with fits := h.fits.congr rfl rfl rfl }

theorem drain : Owned v.drain := by
  rw [Stream.drain]
  split_ifs with hs
  · exact { h with fits := h.fits.congr rfl rfl rfl }
  · exact { h with unregistered := fun hn => absurd hn hs, fits := h.fits.congr rfl rfl rfl }

theorem drained (hd : v.IsDrained stream) : Owned (v.drained stream) := by
  rw [Stream.drained]
  split_ifs with hs
  · have hgone := h.unregister (hd hs).1 (hd hs).2
    exact { hgone with fits := hgone.fits.congr rfl rfl rfl }
  · exact { h with fits := h.fits.congr rfl rfl rfl }

/-- After `MarkInactive` the worker goes on. -/
theorem next {next : Next} (hf : v.focus = .retire stream next) : Owned (v.atFocus next.focus) := by
  have hhead := h.head
  have hhalted := h.halted
  have hfits := h.fits
  rw [hf] at hhead hhalted hfits
  cases next <;> exact { h with head := by grind, halted := by grind, fits := by grind }

theorem completed (hf : v.focus = .complete job) : Owned ((v.completed job).atFocus .away) := by
  obtain ⟨rest, hrest⟩ := List.head?_eq_some_iff.1 (h.head job (by rw [hf]; rfl))
  have hfits := h.fits
  have hframes := h.frames_eq
  have hbytes := h.bytes_eq
  have hstream := h.jobs_stream
  rw [hrest] at hframes hbytes hstream
  rw [hf] at hfits
  exact
    { unregistered := fun hn => by cases (hstream job List.mem_cons_self).symm.trans hn
      jobs_stream := by rw [Stream.completed, hrest]; exact fun job' hj => hstream job' (.tail _ hj)
      frames_eq := by rw [Stream.completed, hrest, hframes]; rfl
      bytes_eq := by
        rw [Stream.completed, hrest, hbytes]
        exact Nat.add_sub_cancel_left _ _
      head := nofun
      halted := nofun
      fits := hfits.congr rfl rfl rfl }

omit h in
theorem eraseUnused_atFocus (v : Stream) (focus : Focus) :
    v.eraseUnused.atFocus focus = (v.atFocus focus).eraseUnused :=
  apply_ite (Stream.atFocus · focus) _ _ _

theorem work (outcome : Outcome) : Owned (v.work outcome) := by
  have hregistered := h.unregistered
  have hstream : ∀ job, v.focus.job = some job → v.stream = some job.stream :=
    fun _ => h.stream_of_job
  have hhead := h.head
  have hhalted := h.halted
  have hfits := h.fits
  rw [Stream.work]
  cases hf : v.focus with
  | away =>
    cases hj : v.jobs.head? with
    | none => exact h
    | some job => exact { h with head := by grind, halted := nofun, fits := by grind }
  | retire stream next =>
    dsimp only
    split_ifs
    · rw [eraseUnused_atFocus]
      exact (h.next hf).eraseUnused
    · exact h.next hf
  | complete job =>
    dsimp only
    rw [eraseUnused_atFocus]
    exact (h.completed hf).eraseUnused
  | stopping pending =>
    cases pending with
    | false => exact { h with fits := by grind }
    | true => cases hs : v.session <;>
        exact { h with head := nofun, halted := by grind, fits := by grind }
  | ticking ends =>
    cases hs : v.session with
    | none => exact { h with head := nofun, halted := nofun, fits := by grind }
    | some entry =>
      dsimp only
      split_ifs <;> exact { h with head := nofun, halted := nofun, fits := by grind }
  | opened job =>
    exact { h with unregistered := by grind, head := by grind, halted := nofun, fits := by grind }
  | _ =>
    -- the jobs and their counts stay; the position changes, and what fits it
    dsimp only
    split_ifs <;> exact { h with
      unregistered := by grind, head := by grind, halted := by grind, fits := by grind }

theorem tick : Owned v.tick := by
  have hregistered := h.unregistered
  have hfits := h.fits
  rw [Stream.tick]
  dsimp only
  split_ifs <;> first
    | exact h
    | exact { h with unregistered := by grind, fits := by grind }
    | exact { h with unregistered := by grind, head := nofun, halted := nofun, fits := by grind }

theorem stopWorker (ha : v.accepting = false) : Owned v.stopWorker := by
  have hfits := h.fits
  rw [Stream.stopWorker]
  split_ifs with hc
  · exact { h with head := nofun, halted := fun _ => ⟨hc.2, ha⟩, fits := by grind }
  · exact h

end Owned

end Stream

end Packetia.Record
