import Packetia.Record.Life

/-!
# Recordings without gaps

The frames of a session, as numbers of offers, have no gap among the offers that the settings
allowed (`Gapless`). The argument looks at the last frame of the session. Every later offer that a
frame still to be given could follow is in flight, with the epoch of the entry and in front of its
worker (`Stream.Tail`); or the entry is marked, and the next frame goes to another session; or the
settings forbid the stream and `RefreshStreamPolicies` is about to mark it (`Stream.Due`).
-/

namespace Packetia.Record

open List

/-- The frames come in the order of their offers, and leave none out. -/
structure Gapless (offers : List ℕ) (frames : List FrameJob) : Prop where
  offered : ∀ f ∈ frames, f.offer ∈ offers
  ordered : frames.Pairwise (·.offer < ·.offer)
  complete : ∀ f ∈ frames, ∀ g ∈ frames, ∀ n ∈ offers, f.offer < n → n < g.offer →
    ∃ h ∈ frames, h.offer = n

variable {job : FrameJob}

namespace Gapless

variable {offers : List ℕ} {frames : List FrameJob}

theorem nil : Gapless offers [] := by
  constructor <;> simp

theorem singleton (h : job.offer ∈ offers) : Gapless offers [job] where
  offered := forall_mem_singleton.2 h
  ordered := pairwise_singleton ..
  complete f hf g hg n _ hfn hng := by
    rw [mem_singleton.1 hf] at hfn
    rw [mem_singleton.1 hg] at hng
    exact absurd hng hfn.not_gt

/-- A later offer leaves no gap. -/
theorem concat_offer {now : ℕ} (h : Gapless offers frames)
    (hlt : ∀ n ∈ offers, n < now) : Gapless (offers ++ [now]) frames :=
  { h with
    offered := fun f hf => mem_append_left _ (h.offered f hf)
    complete := fun f hf g hg => forall_mem_concat.2 ⟨h.complete f hf g hg,
      -- no frame is behind the new offer
      fun _ hng => absurd hng (hlt _ (h.offered g hg)).not_gt⟩ }

/-- A frame can follow if no offer stands between it and the last one. -/
theorem concat (h : Gapless offers frames) (hjob : job.offer ∈ offers)
    (hlt : ∀ f ∈ frames, f.offer < job.offer)
    (hnext : ∀ f ∈ frames.getLast?, ∀ n ∈ offers, f.offer < n → job.offer ≤ n) :
    Gapless offers (frames ++ [job]) := by
  refine ⟨by grind [h.offered], pairwise_append.2
    ⟨h.ordered, pairwise_singleton .., by grind⟩, fun f hf g hg n hn hfn hng => ?_⟩
  have hf' : f ∈ frames := by grind
  -- the offer is not behind the last frame, so it is that frame or one before it
  obtain ⟨last, hlast⟩ : ∃ last, frames.getLast? = some last :=
    Option.ne_none_iff_exists'.1 fun hn => by grind
  have hmem : last ∈ frames := mem_of_getLast? hlast
  rcases lt_trichotomy n last.offer with hlt' | heq | hgt
  · obtain ⟨e, he, hen⟩ := h.complete f hf' last hmem n hn hfn hlt'
    exact ⟨e, mem_append_left _ he, hen⟩
  · exact ⟨last, mem_append_left _ hmem, heq.symm⟩
  · grind

end Gapless

namespace Focus

/-- The job that the worker has handled, but for its completion. -/
@[grind] def served : Focus → Option FrameJob
  | markInactive _ next => next.job
  | retire _ next => next.job
  | complete job => some job
  | away | taken _ | admitted _ _ | opened _ | input _ | ticking _ | stopping _ => none

/-- The job that the worker has found not to be stale, and is about to give to a session. -/
@[grind] def giving : Focus → Option FrameJob
  | admitted job _ | opened job | input job => some job
  | away | taken _ | markInactive _ _ | retire _ _ | complete _ | ticking _ | stopping _ => none

/-- The session there is will be closed next. -/
@[grind] def IsEnding : Focus → Prop
  | admitted _ restart => restart = true
  | ticking ends => ends = true
  | away | taken _ | opened _ | input _ | markInactive _ _ | retire _ _ | complete _
  | stopping _ => False

end Focus

namespace Stream

variable {v v' : Stream}

/-- The settings forbid the stream, and `RefreshStreamPolicies` is still to come. -/
@[grind] def Due (v : Stream) : Prop := v.allowed = false ∧ v.refreshDue = true

/-- A frame behind the offer `n` may still be given to the session. -/
@[grind] def Reaches (v : Stream) (n : ℕ) : Prop :=
  v.accepting = true ∧ v.entry.draining = false ∨
    ∃ job ∈ v.jobs, job.epoch = v.entry.epoch ∧ n < job.offer

/-- Of the offers behind `r`, those that matter are in flight and will be given. -/
@[grind] def Tail (v : Stream) (r : ℕ) : Prop :=
  ∀ n ∈ v.offers, r < n → v.Reaches n →
    ∃ job ∈ v.jobs, job.offer = n ∧ job.epoch = v.entry.epoch ∧ v.focus.served ≠ some job

/-- The jobs are in the order of their offers; what the settings, or a drain, have cut off is
    stale. -/
structure Ordered (v : Stream) : Prop extends Owned v where
  sorted : v.jobs.Pairwise (·.offer < ·.offer)
  job_offer : ∀ job ∈ v.jobs, job.offer ∈ v.offers
  offers_lt : ∀ n ∈ v.offers, n < v.now
  epoch_le : ∀ job ∈ v.jobs, job.epoch ≤ v.entry.epoch
  refused : v.allowed = false → v.refreshDue = false → v.entry.draining = false →
    ∀ job ∈ v.jobs, job.epoch ≠ v.entry.epoch
  cut_off : v.entry.policyStop = true → v.entry.draining = true →
    ∀ job ∈ v.jobs, job.epoch ≠ v.entry.epoch
  draining : v.entry.draining = true → v.waiting = v.stream
  waits : v.waiting ≠ none →
    v.allowed = false ∧ v.refreshDue = false ∧ (v.stream = none ∨ v.stream = v.waiting)

variable {stream : ℕ} {r : ℕ} {focus : Focus}

namespace Ordered

variable (h : Ordered v)

include h

theorem jobs_eq_nil_of_none (hs : v.stream = none) : v.jobs = [] :=
  h.jobs_eq_nil (by rw [h.unregistered hs])

/-- Jobs may go, and the entry with the last of them. -/
theorem mono (ho : Owned v') (hjobs : v'.jobs.Sublist v.jobs)
    (henv : v'.offers = v.offers ∧ v'.now = v.now ∧ v'.allowed = v.allowed ∧
      v'.refreshDue = v.refreshDue ∧ v'.waiting = v.waiting)
    (hentry : v'.stream = none ∨ v'.stream = v.stream ∧ v'.entry.epoch = v.entry.epoch ∧
      v'.entry.draining = v.entry.draining ∧
      (v'.entry.policyStop = true → v.entry.policyStop = true)) : Ordered v' := by
  have hnone := ho.unregistered
  have hnil := ho.jobs_eq_nil
  have hsub := hjobs.subset
  exact
    { toOwned := ho
      sorted := h.sorted.sublist hjobs
      job_offer := fun job hj => by rw [henv.1]; exact h.job_offer job (hsub hj)
      offers_lt := by rw [henv.1, henv.2.1]; exact h.offers_lt
      epoch_le := by have := h.epoch_le; grind
      refused := by have := h.refused; grind
      cut_off := by have := h.cut_off; grind
      draining := by have := h.draining; grind
      waits := by have := h.waits; grind }

theorem unregister (hf : v.entry.frames = 0) (ha : v.entry.active = false) :
    Ordered v.unregister :=
  h.mono (h.toOwned.unregister hf ha) (Sublist.refl _) ⟨rfl, rfl, rfl, rfl, rfl⟩ (.inl rfl)

theorem offer : Ordered v.offer :=
  { h with
    toOwned := h.toOwned.offer
    job_offer := fun job hj => mem_append_left _ (h.job_offer job hj)
    offers_lt := forall_mem_concat.2
      ⟨fun n hn => (h.offers_lt n hn).trans (Nat.lt_succ_self _), Nat.lt_succ_self _⟩ }

theorem openEntry (stream : ℕ) (hs : v.stream = none) (ha : v.allowed = true) :
    Ordered { v with stream := some stream } :=
  { h with
    toOwned := h.toOwned.openEntry stream hs
    draining := fun hd => by cases (congrArg (·.draining) (h.unregistered hs)).symm.trans hd
    waits := fun hw => by cases (h.waits hw).1.symm.trans ha }

theorem enqueue (options : RecordingOptions) (pool : Bool) (queued : QueueStats)
    (event : EncodedFrameEvent) (hs : v.stream = some stream) (hacc : v.accepting = true)
    (ha : v.allowed = true) : Ordered (v.enqueue options pool queued stream event).1.offer := by
  have ho := h.toOwned.enqueue options pool queued event hs hacc
  rw [Stream.enqueue] at ho ⊢
  split_ifs at ho ⊢ with hd
  · exact h.offer
  · -- what is in flight becomes stale
    have hcut : Ordered v.cut :=
      { h with
        toOwned := ho
        epoch_le := fun job hj => (h.epoch_le job hj).trans (Nat.le_succ _)
        refused := fun hno => by cases hno.symm.trans ha
        cut_off := fun _ hd' => absurd hd' hd }
    exact hcut.offer
  · exact
      { h.offer with
        toOwned := ho.offer
        sorted := pairwise_append.2 ⟨h.sorted, pairwise_singleton ..,
          fun job hj _ hnew => mem_singleton.1 hnew ▸ h.offers_lt _ (h.job_offer job hj)⟩
        job_offer := forall_mem_concat.2 ⟨h.offer.job_offer, mem_concat_self⟩
        epoch_le := forall_mem_concat.2 ⟨h.epoch_le, le_rfl⟩
        refused := fun hno => by cases hno.symm.trans ha
        cut_off := fun _ hd' => absurd hd' hd }
  · refine Ordered.offer ?_
    rw [Stream.eraseUnused]
    split_ifs with hu
    · exact h.unregister hu.1 hu.2
    · exact h

theorem refresh : Ordered v.refresh := by
  have ho := h.toOwned.refresh
  rw [Stream.refresh] at ho ⊢
  split_ifs at ho ⊢ with hc
  · exact
      { h with
        toOwned := ho
        epoch_le := fun job hj => (h.epoch_le job hj).trans (Nat.le_succ _)
        refused := fun _ _ _ job hj => (Nat.lt_succ_of_le (h.epoch_le job hj)).ne
        cut_off := fun _ _ job hj => (Nat.lt_succ_of_le (h.epoch_le job hj)).ne
        waits := fun hw => ⟨(h.waits hw).1, rfl, (h.waits hw).2.2⟩ }
  · -- a stream that the settings forbid has no entry, so no job either
    exact
      { h with
        toOwned := ho
        refused := fun hno _ _ job hj => by
          cases h.jobs_eq_nil_of_none (by_contra fun hs => hc ⟨hs, hno⟩) ▸ hj
        waits := fun hw => ⟨(h.waits hw).1, rfl, (h.waits hw).2.2⟩ }

theorem drain (hr : v.refreshDue = false) : Ordered v.drain := by
  have ho := h.toOwned.drain
  rw [Stream.drain] at ho ⊢
  split_ifs at ho ⊢ with hs
  · exact
      { h with
        toOwned := ho
        refused := fun _ _ _ job hj => by cases h.jobs_eq_nil_of_none hs ▸ hj
        draining := fun _ => rfl
        waits := fun _ => ⟨rfl, hr, .inr rfl⟩ }
  · exact
      { h with
        toOwned := ho
        refused := nofun
        cut_off := nofun
        draining := fun _ => rfl
        waits := fun _ => ⟨rfl, hr, .inr rfl⟩ }

theorem drained (hd : v.IsDrained stream) (hw : v.waiting = some stream) :
    Ordered (v.drained stream) := by
  have ho := h.toOwned.drained hd
  rw [Stream.drained] at ho ⊢
  split_ifs at ho ⊢ with hs
  · exact { h.unregister (hd hs).1 (hd hs).2 with
      toOwned := ho, draining := nofun, waits := fun hn => absurd rfl hn }
  · -- the entry that is registered now is another one, and not draining
    exact { h with
      toOwned := ho
      draining := fun hd' => absurd ((h.draining hd').symm.trans hw) hs
      waits := fun hn => absurd rfl hn }

theorem work (outcome : Outcome) : Ordered (v.work outcome) := by
  refine h.mono (h.toOwned.work outcome) ?_ ?_ ?_
  · cases hf : v.focus with
    | complete job =>
      have hjobs : (v.work outcome).jobs = v.jobs.tail := by grind
      rw [hjobs]
      exact tail_sublist _
    | away => cases hj : v.jobs.head? <;> grind
    | _ => grind
  all_goals
    cases hf : v.focus with
    | away => cases hj : v.jobs.head? <;> grind
    | _ => grind

theorem tick : Ordered v.tick := by
  have ho := h.toOwned.tick
  rw [Stream.tick] at ho ⊢
  dsimp only at ho ⊢
  split_ifs at ho ⊢ <;> first
    | exact { h with toOwned := ho }
    | exact { h with toOwned := ho, cut_off := nofun }

theorem stopWorker (ha : v.accepting = false) : Ordered v.stopWorker := by
  have ho := h.toOwned.stopWorker ha
  rw [Stream.stopWorker] at ho ⊢
  split_ifs at ho ⊢ <;> exact { h with toOwned := ho }

end Ordered

/-- Between the frames of the sessions and the jobs in flight there is no gap. -/
structure Sound (v : Stream) : Prop extends Ordered v where
  behind : ∀ entry, v.session = some entry → ∀ f ∈ entry.frames, ∀ job ∈ v.jobs,
    f.offer < job.offer ∨ v.focus.served = some job
  current : ∀ job, v.focus.giving = some job → job.epoch = v.entry.epoch ∨ v.entry.restart = true
  job_tail : ∀ job ∈ v.jobs, job.epoch = v.entry.epoch → v.Due ∨ v.Tail job.offer
  session_tail : ∀ entry, v.session = some entry → ∀ f ∈ entry.frames.getLast?,
    v.entry.restart = true ∨ v.Due ∨ v.focus.IsEnding ∨ v.Tail f.offer
  gapless : ∀ entry, v.session = some entry → Gapless v.offers entry.frames
  joins : ∀ job, v.focus.giving = some job → ¬v.focus.IsEnding →
    ∀ entry, v.session = some entry → Gapless v.offers (entry.frames ++ [job])
  ended_gapless : ∀ entry ∈ v.ended, Gapless v.offers entry.frames

/-- Fewer offers to care about, and no job lost. -/
theorem Tail.mono (h : v.Tail r) (hoffers : v'.offers = v.offers)
    (hreach : ∀ n, v'.Reaches n → v.Reaches n)
    (hjobs : ∀ job ∈ v.jobs, job.epoch = v.entry.epoch → v.focus.served ≠ some job →
      r < job.offer → job ∈ v'.jobs ∧ job.epoch = v'.entry.epoch ∧ v'.focus.served ≠ some job) :
    v'.Tail r := by
  intro n hn hr hreaches
  obtain ⟨job, hj, rfl, he, hs⟩ := h n (hoffers ▸ hn) hr (hreach n hreaches)
  obtain ⟨hj', he', hs'⟩ := hjobs job hj he hs hr
  exact ⟨job, hj', rfl, he', hs'⟩

/-- Nothing can follow in a stream that takes no frames and has none in flight. -/
theorem Tail.of_quiet (ha : v.accepting = true → v.entry.draining = true)
    (hj : ∀ job ∈ v.jobs, job.epoch ≠ v.entry.epoch) : v.Tail r := by
  intro n _ _ hreaches
  grind

/-- The streams differ only in the session, the worker and the marks of the entry. -/
@[grind] def Alike (v v' : Stream) : Prop :=
  v'.offers = v.offers ∧ v'.jobs = v.jobs ∧ v'.entry.epoch = v.entry.epoch ∧
    v'.entry.draining = v.entry.draining ∧ v'.accepting = v.accepting ∧
    v'.allowed = v.allowed ∧ v'.refreshDue = v.refreshDue

theorem Alike.tail (h : Alike v v') (ht : v.Tail r)
    (hs : ∀ job, v'.focus.served = some job → r < job.offer → v.focus.served = some job) :
    v'.Tail r :=
  ht.mono h.1 (by grind) (by grind)

/-- The jobs behind the first one have later offers. -/
theorem Ordered.head_lt (h : Ordered v) {first : FrameJob} (hf : v.jobs.head? = some first)
    (hj : job ∈ v.jobs) (hne : job ≠ first) : first.offer < job.offer := by
  obtain ⟨rest, hjobs⟩ := List.head?_eq_some_iff.1 hf
  have hsorted := h.sorted
  rw [hjobs] at hj hsorted
  exact (pairwise_cons.1 hsorted).1 job ((mem_cons.1 hj).resolve_left hne)

theorem job_of_served (h : focus.served = some job) : focus.job = some job := by
  cases focus <;> grind

theorem job_of_giving (h : focus.giving = some job) : focus.job = some job := by
  cases focus <;> grind

namespace Sound

section

variable (h : Sound v)
include h

/-- The worker has handled no job but the first one, so what is behind a job stays so. -/
theorem job_tail_of_alike (ha : Alike v v') (ho : Owned v') :
    ∀ job ∈ v'.jobs, job.epoch = v'.entry.epoch → v'.Due ∨ v'.Tail job.offer := by
  intro job hj he
  refine (h.job_tail job (by grind) (by grind)).imp (by grind) fun ht => ha.tail ht ?_
  intro job' hs hlt
  have hhead := ho.head job' (job_of_served hs)
  have hlt' : job ≠ job' → job'.offer < job.offer := h.head_lt (by grind) (by grind)
  grind

/-- A step that keeps the jobs and the session; the settings forbid no less, and admit no more. -/
theorem congr (ho : Ordered v') (hjobs : v'.jobs = v.jobs) (hepoch : v'.entry.epoch = v.entry.epoch)
    (hrestart : v'.entry.restart = v.entry.restart) (hsession : v'.session = v.session)
    (hended : v'.ended = v.ended) (hoffers : v'.offers = v.offers)
    (hserved : v'.focus.served = v.focus.served) (hgiving : v'.focus.giving = v.focus.giving)
    (hending : v'.focus.IsEnding ↔ v.focus.IsEnding) (hdue : v.Due → v'.Due)
    (hreach : ∀ n, v'.Reaches n → v.Reaches n) : Sound v' := by
  have htail : ∀ r, v.Tail r → v'.Tail r := fun r ht => ht.mono hoffers hreach (by
    rw [hjobs, hepoch, hserved]
    exact fun job hj he hs _ => ⟨hj, he, hs⟩)
  exact
    { toOrdered := ho
      behind := by rw [hsession, hjobs, hserved]; exact h.behind
      current := by rw [hgiving, hepoch, hrestart]; exact h.current
      job_tail := by
        rw [hjobs, hepoch]
        exact fun job hj he => (h.job_tail job hj he).imp hdue (htail _)
      session_tail := by
        rw [hsession, hrestart, hending]
        exact fun entry hs f hf =>
          (h.session_tail entry hs f hf).imp_right (.imp hdue (.imp_right (htail _)))
      gapless := by rw [hsession, hoffers]; exact h.gapless
      joins := by rw [hgiving, hending, hsession, hoffers]; exact h.joins
      ended_gapless := by rw [hended, hoffers]; exact h.ended_gapless }

/-- The session is gone: what is left to say is about the jobs. -/
theorem without_session (ho : Ordered v') (ha : Alike v v')
    (hrestart : v'.entry.restart = v.entry.restart) (hnone : v'.session = none)
    (hended : ∀ entry ∈ v'.ended, Gapless v.offers entry.frames)
    (hgiving : ∀ job, v'.focus.giving = some job → v.focus.giving = some job) : Sound v' where
  toOrdered := ho
  behind entry hs := by cases hnone.symm.trans hs
  current job hg := by rw [ha.2.2.1, hrestart]; exact h.current job (hgiving job hg)
  job_tail := h.job_tail_of_alike ha ho.toOwned
  session_tail entry hs := by cases hnone.symm.trans hs
  gapless entry hs := by cases hnone.symm.trans hs
  joins _ _ _ entry hs := by cases hnone.symm.trans hs
  ended_gapless := by rw [ha.1]; exact hended

omit h in
/-- A stream without an entry has nothing to follow. -/
theorem of_unregistered (ho : Ordered v) (hs : v.stream = none)
    (hgapless : ∀ entry, v.session = some entry → Gapless v.offers entry.frames)
    (hended : ∀ entry ∈ v.ended, Gapless v.offers entry.frames) : Sound v := by
  have hjobs := ho.jobs_eq_nil_of_none hs
  have hgiving : ∀ job, v.focus.giving ≠ some job := fun job hg => by
    have hhead := ho.head job (job_of_giving hg)
    grind
  have hclosed := ho.closed_of_unregistered hs
  refine ⟨ho, by grind, by grind, by grind, fun entry he f _ => ?_, hgapless, by grind, hended⟩
  exact .inr (.inr (.inr (Tail.of_quiet (by grind) (by grind))))

theorem unregister (hf : v.entry.frames = 0) (ha : v.entry.active = false) : Sound v.unregister :=
  of_unregistered (h.mono (h.toOwned.unregister hf ha) (List.Sublist.refl _) (by grind) (by grind))
    rfl h.gapless h.ended_gapless

theorem eraseUnused (ho : Ordered v.eraseUnused) : Sound v.eraseUnused := by
  by_cases hu : v.entry.frames = 0 ∧ v.entry.active = false
  · rw [Stream.eraseUnused, if_pos hu] at ho ⊢
    exact of_unregistered ho rfl h.gapless h.ended_gapless
  · rwa [Stream.eraseUnused, if_neg hu]

/-- A later offer that no frame can follow into the session. -/
theorem offer (hreach : v.Reaches v.now → v.jobs = [] ∧ v.session = none) : Sound v.offer := by
  have hadd : ∀ frames, Gapless v.offers frames → Gapless v.offer.offers frames :=
    fun _ hg => hg.concat_offer h.offers_lt
  have htail : ∀ r, v.jobs ≠ [] ∨ v.session ≠ none → v.Tail r → v.offer.Tail r := fun r hne ht =>
    forall_mem_concat.2 ⟨ht, fun _ hr => absurd (hreach hr) (not_and_or.2 hne)⟩
  exact
    { h with
      toOrdered := h.toOrdered.offer
      job_tail := fun job hj he =>
        (h.job_tail job hj he).imp_right (htail _ (.inl (ne_nil_of_mem hj)))
      session_tail := fun entry hs f hf => (h.session_tail entry hs f hf).imp_right
        (.imp_right (.imp_right (htail _ (.inr (Option.ne_none_iff_exists'.2 ⟨_, hs⟩)))))
      gapless := fun entry hs => hadd _ (h.gapless entry hs)
      joins := fun job hg he entry hs => hadd _ (h.joins job hg he entry hs)
      ended_gapless := fun entry he => hadd _ (h.ended_gapless entry he) }

/-- A cut makes what is in flight stale, and the session end before the next frame. -/
theorem of_cut (ho : Ordered v') (hjobs : v'.jobs = v.jobs)
    (hepoch : v.entry.epoch < v'.entry.epoch) (hrestart : v'.entry.restart = true)
    (hsession : v'.session = v.session) (hended : v'.ended = v.ended) (hfocus : v'.focus = v.focus)
    (hoffers : ∀ frames, Gapless v.offers frames → Gapless v'.offers frames) : Sound v' where
  toOrdered := ho
  behind := by rw [hsession, hjobs, hfocus]; exact h.behind
  current _ _ := .inr hrestart
  job_tail job hj he := absurd (h.epoch_le job (hjobs ▸ hj)) (by omega)
  session_tail _ _ _ _ := .inl hrestart
  gapless entry hs := hoffers _ (h.gapless entry (hsession ▸ hs))
  joins := by
    rw [hfocus, hsession]
    exact fun job hg he entry hs => hoffers _ (h.joins job hg he entry hs)
  ended_gapless := by
    rw [hended]
    exact fun entry he => hoffers _ (h.ended_gapless entry he)

/-- A frame is admitted behind the jobs in flight. -/
theorem accepted {event : EncodedFrameEvent} (hacc : v.accepting = true)
    (hd : v.entry.draining = false) (ho : Ordered (v.admitted stream event).offer) :
    Sound (v.admitted stream event).offer := by
  have hlt := h.offers_lt
  have hadd : ∀ frames, Gapless v.offers frames →
      Gapless (v.admitted stream event).offer.offers frames := fun _ hg => hg.concat_offer hlt
  have hserved : ∀ job, v.focus.served = some job → job.offer < v.now := fun job hs =>
    hlt _ (h.job_offer job (mem_of_head? (h.head job (job_of_served hs))))
  have htail : ∀ r, v.Tail r → (v.admitted stream event).offer.Tail r := by
    intro r ht n hn hr hreaches
    rcases mem_append.1 hn with hn | hn
    · obtain ⟨job, hj, hrest⟩ := ht n hn hr (.inl ⟨hacc, hd⟩)
      exact ⟨job, mem_append_left _ hj, hrest⟩
    · rw [mem_singleton.1 hn]
      exact ⟨_, mem_concat_self, rfl, rfl,
        fun hs => absurd (hserved _ hs) (lt_irrefl _)⟩
  -- nothing has been offered behind the newest offer
  have hlast : (v.admitted stream event).offer.Tail v.now := by
    intro n hn hr
    grind
  exact
    { h with
      toOrdered := ho
      behind := fun entry hs f hf => forall_mem_concat.2
        ⟨h.behind entry hs f hf, .inl (hlt _ ((h.gapless entry hs).offered f hf))⟩
      job_tail := forall_mem_concat.2
        ⟨fun job hj he => (h.job_tail job hj he).imp_right (htail _), fun _ => .inr hlast⟩
      session_tail := fun entry hs f hf => (h.session_tail entry hs f hf).imp_right
        (.imp_right (.imp_right (htail _)))
      gapless := fun entry hs => hadd _ (h.gapless entry hs)
      joins := fun job hg he entry hs => hadd _ (h.joins job hg he entry hs)
      ended_gapless := fun entry he => hadd _ (h.ended_gapless entry he) }

/-- The worker drops a stale job. One that has the epoch of the entry is dropped for the
    settings, and these have not yet marked the entry. -/
theorem dropStale (hf : v.focus = .taken job) (hs : ¬v.Admits job)
    (ho : Ordered (v.atFocus (.complete job))) : Sound (v.atFocus (.complete job)) := by
  have hj : job ∈ v.jobs := mem_of_head? (h.head job (by rw [hf]; rfl))
  have htail : ∀ r, v.Tail r → v.Due ∨ (v.atFocus (.complete job)).Tail r := by
    intro r ht
    by_cases hd : v.Due
    · exact .inl hd
    have hstale : job.epoch ≠ v.entry.epoch := by grind [h.refused]
    exact .inr (ht.mono rfl (fun _ => id) (by grind))
  have hbehind := h.behind
  have hsession := h.session_tail
  rw [hf] at hbehind hsession
  exact
    { h with
      toOrdered := ho
      behind := fun entry hs f hf' job' hj' =>
        .inl ((hbehind entry hs f hf' job' hj').resolve_right nofun)
      current := nofun
      job_tail := fun job' hj' he => (h.job_tail job' hj' he).elim .inl (htail _)
      session_tail := fun entry hs f hf' => (hsession entry hs f hf').imp_right fun ht =>
        ht.elim .inl (Or.elim · nofun fun ht => (htail _ ht).imp_right .inr)
      joins := nofun }

/-- The first job in flight can follow the session as long as the entry has no mark. -/
theorem joins_of_admits (hf : v.focus = .taken job) (ha : v.Admits job)
    (hr : v.entry.restart = false) {entry : SessionEntry} (he : v.session = some entry) :
    Gapless v.offers (entry.frames ++ [job]) := by
  have hhead := h.head job (by rw [hf]; rfl)
  have hj : job ∈ v.jobs := mem_of_head? hhead
  have hstream := h.jobs_stream job hj
  -- a job is admitted against the settings only in a drain, and then no mark is due
  have hdue : ¬v.Due := by grind [h.draining, h.waits]
  refine (h.gapless entry he).concat (h.job_offer job hj) (fun f hf' => ?_)
    fun f hf' n hn hlt => ?_
  · have := h.behind entry he f hf' job hj
    grind
  · by_contra hgap
    have ht : v.Tail f.offer := by
      have := h.session_tail entry he f hf'
      grind
    obtain ⟨job', hj', hjn, -⟩ := ht n hn hlt (.inr ⟨job, hj, ha.1, by omega⟩)
    have hle := h.head_lt hhead hj'
    grind

/-- The session is given the job that fits behind its frames. -/
theorem input (hf : v.focus = .input job) (ho : Ordered ((v.give job).atFocus (.complete job))) :
    Sound ((v.give job).atFocus (.complete job)) := by
  have ha : Alike v ((v.give job).atFocus (.complete job)) := by grind
  have hhead := h.head job (by rw [hf]; rfl)
  have hlater : ∀ job' ∈ v.jobs, job' ≠ job → job.offer < job'.offer :=
    fun job' => h.head_lt hhead
  have hgives : v.focus.giving = some job := by grind
  have hjoins := h.joins job hgives (by grind)
  have htail := h.job_tail_of_alike ha ho.toOwned
  refine ⟨ho, fun entry' hs => ?_, by grind, htail, fun entry' hs => ?_, fun entry' hs => ?_,
    by grind, h.ended_gapless⟩
  all_goals
    obtain ⟨entry, he, rfl⟩ := Option.map_eq_some_iff.1
      (show v.session.map _ = some entry' from hs)
  · have hlt : ∀ f ∈ entry.frames, f.offer < job.offer := fun f hf' =>
      (pairwise_append.1 (hjoins entry he).ordered).2.2 f hf' job (mem_singleton_self _)
    intro f hf' job' hj'
    grind
  · have hcurrent := h.current job hgives
    grind
  · exact hjoins entry he

/-- The worker has finished with its job. -/
theorem completed (hf : v.focus = .complete job) (ho : Ordered ((v.completed job).atFocus .away)) :
    Sound ((v.completed job).atFocus .away) := by
  have hhead := h.head job (by rw [hf]; rfl)
  obtain ⟨rest, hrest⟩ := List.head?_eq_some_iff.1 hhead
  have hfirst : job ∉ rest := fun hj => by
    have hsorted := h.sorted
    rw [hrest] at hsorted
    exact absurd ((pairwise_cons.1 hsorted).1 job hj) (lt_irrefl _)
  have htail : ∀ r, v.Tail r → ((v.completed job).atFocus .away).Tail r := fun r ht =>
    ht.mono rfl (by grind) (by grind)
  have hbehind := h.behind
  have hsession := h.session_tail
  rw [hf] at hbehind hsession
  exact
    { h with
      toOrdered := ho
      behind := by grind
      current := nofun
      job_tail := fun job' hj' he =>
        (h.job_tail job' (mem_of_mem_tail hj') he).imp_right (htail _)
      session_tail := fun entry hs f hf' => (hsession entry hs f hf').imp_right
        (.imp_right (.imp_right (htail _)))
      joins := nofun }

end

/-! ## Steps -/

section

variable (h : Sound v)
include h

theorem enqueue (options : RecordingOptions) {pool : Bool} (queued : QueueStats)
    (event : EncodedFrameEvent) (hs : v.stream = some stream) (hacc : v.accepting = true)
    (ha : v.allowed = true) (hp : pool = true) :
    Sound (v.enqueue options pool queued stream event).1.offer := by
  have ho := h.toOrdered.enqueue options pool queued event hs hacc ha
  rw [Stream.enqueue] at ho ⊢
  split_ifs at ho ⊢ with hd hfull
  · have hlt := h.offers_lt
    have hjob := h.job_offer
    exact h.offer (by grind)
  · exact h.of_cut ho rfl (Nat.lt_succ_self _) rfl rfl rfl rfl
      fun _ hg => hg.concat_offer h.offers_lt
  · exact h.accepted hacc (Bool.eq_false_of_not_eq_true hd) ho

/-- The offer of a stream that takes none, or has no entry. -/
theorem refuse (hc : v.accepting = false ∨ v.stream = none) : Sound v.offer := by
  have hlt := h.offers_lt
  have hjob := h.job_offer
  have hnone := h.jobs_eq_nil_of_none
  have hclosed := h.closed_of_unregistered
  exact h.offer (by grind)

/-- An entry is registered for a frame. -/
theorem openEntry (stream : ℕ) (hs : v.stream = none) (ha : v.allowed = true) :
    Sound { v with stream := some stream } :=
  h.congr (h.toOrdered.openEntry stream hs ha) rfl rfl rfl rfl rfl rfl rfl rfl .rfl id fun _ => id

theorem refresh : Sound v.refresh := by
  have ho := h.toOrdered.refresh
  by_cases hs : v.stream = none
  · exact of_unregistered ho hs h.gapless h.ended_gapless
  by_cases ha : v.allowed = false
  · exact h.of_cut ho rfl (by grind) (by grind) rfl rfl rfl fun _ => id
  · exact h.congr ho rfl (by grind) (by grind) rfl rfl rfl rfl rfl .rfl (by grind) (by grind)

theorem drain (hr : v.refreshDue = false) : Sound v.drain :=
  h.congr (h.toOrdered.drain hr) rfl (by grind) (by grind) rfl rfl rfl rfl rfl .rfl (by grind)
    (by grind)

theorem drained (hd : v.IsDrained stream) (hw : v.waiting = some stream) :
    Sound (v.drained stream) := by
  have ho := h.toOrdered.drained hd hw
  by_cases hs : v.stream = some stream
  · rw [Stream.drained, if_pos hs] at ho ⊢
    exact of_unregistered ho rfl h.gapless h.ended_gapless
  · rw [Stream.drained, if_neg hs] at ho ⊢
    exact h.congr ho rfl rfl rfl rfl rfl rfl rfl rfl .rfl id fun _ => id

theorem tick : Sound v.tick := by
  have ho := h.toOrdered.tick
  by_cases hc : v.focus = .away ∧ v.session ≠ none
  · -- a drain that the settings have cut off has nothing left to give
    have hquiet : v.entry.policyStop = true → v.entry.draining = true → ∀ r, v.tick.Tail r :=
      fun hp hd r => Tail.of_quiet (by grind) (by grind [h.cut_off])
    have halike : Alike v v.tick := by grind
    exact
      { toOrdered := ho
        behind := by have := h.behind; grind
        current := by grind
        job_tail := h.job_tail_of_alike halike ho.toOwned
        session_tail := by have := h.session_tail; grind
        gapless := by have := h.gapless; grind
        joins := by grind
        ended_gapless := by have := h.ended_gapless; grind }
  · have hsame : v.tick = v := by grind
    rwa [hsame]

theorem stopWorker (ha : v.accepting = false) : Sound v.stopWorker := by
  have ho := h.toOrdered.stopWorker ha
  by_cases hc : v.focus = .away ∧ v.jobs = []
  · apply h.congr ho <;> grind
  · have hsame : v.stopWorker = v := by grind
    rwa [hsame]

/-- The worker opens a session, closes one, or goes on with the one there is. -/
theorem findSession {restart : Bool} (hf : v.focus = .admitted job restart) (outcome : Outcome) :
    Sound (v.work outcome) := by
  have ho := h.toOrdered.work outcome
  have hended : ∀ entry ∈ v.ended ++ v.session.toList, Gapless v.offers entry.frames := by
    grind [h.gapless, h.ended_gapless]
  by_cases hs : v.session = none ∧ outcome ≠ .threw
  · have hjob : job.offer ∈ v.offers :=
      h.job_offer job (mem_of_head? (h.head job (by rw [hf]; rfl)))
    have halike : Alike v (v.work outcome) := by grind
    have hjobs := h.job_tail_of_alike halike ho.toOwned
    have hcurrent := h.current job (by grind)
    have hwork : v.work outcome =
      { v with session := some { stream := job.stream } }.atFocus (.opened job) := by grind
    rw [hwork] at ho hjobs ⊢
    -- the new session has no frame yet
    exact
      { toOrdered := ho
        behind := by rintro _ ⟨⟩ f hf'; cases hf'
        current := by rintro _ ⟨⟩; exact hcurrent
        job_tail := hjobs
        session_tail := by rintro _ ⟨⟩ f hf'; cases hf'
        gapless := by rintro _ ⟨⟩; exact .nil
        joins := by rintro _ ⟨⟩ _ _ ⟨⟩; exact .singleton hjob
        ended_gapless := h.ended_gapless }
  by_cases hr : restart = true ∨ v.session = none
  · apply h.without_session ho <;> grind
  · apply h.congr ho <;> grind

theorem inputFrame (hf : v.focus = .input job) (outcome : Outcome) : Sound (v.work outcome) := by
  have hgoing : Sound ((v.give job).atFocus (.complete job)) := by
    have ho := h.toOrdered.work .going
    have hwork : v.work .going = (v.give job).atFocus (.complete job) := by grind
    rw [hwork] at ho
    exact h.input hf ho
  by_cases hout : outcome = .going
  · have hwork : v.work outcome = (v.give job).atFocus (.complete job) := by grind
    rwa [hwork]
  · have hgapless := hgoing.gapless
    have hended := hgoing.ended_gapless
    apply hgoing.without_session (h.toOrdered.work outcome) <;> grind

theorem retire {next : Next} (hf : v.focus = .retire stream next) (outcome : Outcome) :
    Sound (v.work outcome) := by
  have hnext : Sound (v.atFocus next.focus) := by
    have ho : Ordered (v.atFocus next.focus) :=
      h.mono (h.toOwned.next hf) (List.Sublist.refl _) (by grind) (by grind)
    cases next <;> apply h.congr ho <;> grind
  have ho := h.toOrdered.work outcome
  by_cases hs : v.stream = some stream
  · have hwork : v.work outcome = (v.atFocus next.focus).eraseUnused := by grind
    rw [hwork] at ho ⊢
    exact hnext.eraseUnused ho
  · have hwork : v.work outcome = v.atFocus next.focus := by grind
    rwa [hwork]

theorem work (outcome : Outcome) : Sound (v.work outcome) := by
  have ho := h.toOrdered.work outcome
  cases hf : v.focus with
  | away =>
    cases hj : v.jobs.head? with
    | none =>
      have hsame : v.work outcome = v := by grind
      rwa [hsame]
    | some job => apply h.congr ho <;> grind
  | taken job =>
    by_cases ha : v.Admits job
    · have hjoins : v.entry.restart = false → ∀ entry, v.session = some entry →
          Gapless v.offers (entry.frames ++ [job]) := fun hr entry => h.joins_of_admits hf ha hr
      have halike : Alike v (v.work outcome) := by grind
      exact
        { toOrdered := ho
          behind := by have := h.behind; grind
          current := by grind
          job_tail := h.job_tail_of_alike halike ho.toOwned
          session_tail := by have := h.session_tail; grind
          gapless := by have := h.gapless; grind
          joins := by grind
          ended_gapless := by have := h.ended_gapless; grind }
    · have hwork : v.work outcome = v.atFocus (.complete job) := by grind
      rw [hwork] at ho ⊢
      exact h.dropStale hf ha ho
  | admitted job restart => exact h.findSession hf outcome
  | opened job | markInactive stream next => apply h.congr ho <;> grind
  | input job => exact h.inputFrame hf outcome
  | retire stream next => exact h.retire hf outcome
  | complete job =>
    have hdone : Ordered ((v.completed job).atFocus .away) :=
      h.mono (h.toOwned.completed hf) (tail_sublist _) (by grind) (by grind)
    have hwork : v.work outcome = ((v.completed job).atFocus .away).eraseUnused := by grind
    rw [hwork] at ho ⊢
    exact (h.completed hf hdone).eraseUnused ho
  | ticking ends =>
    by_cases hgoes : ends = false ∧ outcome = .going ∧ v.session ≠ none
    · apply h.congr ho <;> grind
    · have hgapless := h.gapless
      have hended := h.ended_gapless
      apply h.without_session ho <;> grind
  | stopping pending =>
    have hgapless := h.gapless
    have hended := h.ended_gapless
    by_cases hopen : pending = true ∧ v.session ≠ none
    · -- the session stays, as it is but for the mark
      have halike : Alike v (v.work outcome) := by grind
      exact
        { toOrdered := ho
          behind := by have := h.behind; grind
          current := by grind
          job_tail := h.job_tail_of_alike halike ho.toOwned
          session_tail := by have := h.session_tail; grind
          gapless := by grind
          joins := by grind
          ended_gapless := by grind }
    · apply h.without_session ho <;> grind

/-- An offer of another stream. -/
theorem later : Sound { v with now := v.now + 1 } := by
  have ho : Ordered { v with now := v.now + 1 } :=
    { h with
      fits := h.fits.congr rfl rfl rfl
      offers_lt := fun n hn => (h.offers_lt n hn).trans (Nat.lt_succ_self _) }
  exact h.congr ho rfl rfl rfl rfl rfl rfl rfl rfl .rfl id fun _ => id

/-- The settings change; what they forbid is marked later. -/
theorem setAllowed (hr : v.refreshDue = false) (hw : v.waiting = none) {allowed refreshDue : Bool}
    (hc : allowed = false → refreshDue = false → v.allowed = false) :
    Sound { v with allowed := allowed, refreshDue := refreshDue } := by
  have ho : Ordered { v with allowed := allowed, refreshDue := refreshDue } :=
    { h with
      fits := h.fits.congr rfl rfl rfl
      refused := fun hno hdue => h.refused (hc hno hdue) hr
      waits := fun hn => absurd hw hn }
  exact h.congr ho rfl rfl rfl rfl rfl rfl rfl rfl .rfl (by grind) fun _ => id

theorem stop : Sound { v with accepting := false } := by
  have ho : Ordered { v with accepting := false } :=
    { h with
      halted := fun hs => ⟨(h.halted hs).1, rfl⟩
      fits := h.fits.congr rfl rfl rfl }
  exact h.congr ho rfl rfl rfl rfl rfl rfl rfl rfl .rfl id (by grind)

end

end Sound

/-! ## What the steps leave alone -/

theorem work_env (v : Stream) (outcome : Outcome) :
    (v.work outcome).accepting = v.accepting ∧ (v.work outcome).allowed = v.allowed ∧
      (v.work outcome).refreshDue = v.refreshDue ∧ (v.work outcome).waiting = v.waiting ∧
      (v.work outcome).now = v.now := by
  cases hf : v.focus with
  | away => cases hj : v.jobs.head? <;> grind
  | _ => grind

end Stream

end Packetia.Record
