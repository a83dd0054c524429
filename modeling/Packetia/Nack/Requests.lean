import Packetia.Nack.Calls

/-!
# How often a number is requested

While a number is in the map, its entry records when it was found missing, how often it has
been requested and when it was requested last. A call leaves the entry alone, drops it, or
requests the number (`step_of_mem`); so the requests that are made from then on go by
the entry (`Paced`, `paced_requests`). A number enters the map with a packet, which sets its
time (`entered`), and from there on the bounds of the configuration hold
(`requests_bounded`).
-/

namespace Packetia.Nack

open OrdMap List Option

variable (config : Config) {pre during : List Call} {enter c : Call} {seq : BitVec 16}

namespace NackRequester

variable {r : NackRequester} {nowMs : ℕ} {seq : BitVec 16} {p : MissingPacket} {c : Call}
  {e : BitVec 16 × MissingPacket} {fec : Bool} {calls : List Call}

/-! ## The map -/

/-- What holds of the map at any time. -/
structure Inv (r : NackRequester) : Prop where
  idle : r.initialized = false → r.missingPackets.size = 0
  size_le : r.missingPackets.size ≤ r.config.maxNackListSize
  newest : r.newestSeq ∉ r.missingPackets.keys

theorem inv_of_empty (h : r.missingPackets = .empty) : Inv r where
  idle _ := by rw [h]; rfl
  size_le := by rw [h]; exact Nat.zero_le _
  newest := by rw [h]; exact not_mem_nil

/-- The numbers that a packet adds to the map. -/
theorem ne_of_added {newest : BitVec 16} {i : ℕ} (hi : i < (seq - newest).toNat - 1) :
    newest + 1 + BitVec.ofNat 16 i ≠ seq := by
  rintro rfl
  bv_omega

/-- The entries after a packet: those before it without its own, and new ones. -/
theorem mem_received (hidle : r.initialized = false → r.missingPackets.size = 0)
    (he : e ∈ (r.onReceivedPacket seq nowMs fec).2.missingPackets.entries) :
    e.1 ≠ seq ∧ (e ∈ r.missingPackets.entries ∨
      e.1 ∉ r.missingPackets.keys ∧ e.2 = { firstMissingMs := nowMs }) := by
  cases hinit : r.initialized with
  | false =>
    rw [received_first hinit, length_eq_zero_iff.1 (hidle hinit)] at he
    cases he
  | true =>
    rw [received_next hinit] at he
    rcases advance_cases (r.clearMissing seq nowMs fec).2 seq nowMs with ⟨-, heq⟩ | ⟨-, -, heq⟩ |
      ⟨-, -, heq⟩ <;> rw [heq] at he
    · obtain ⟨he, hne⟩ := mem_clearMissing.1 he
      exact ⟨hne, .inl he⟩
    · cases he
    · rcases (adds_addMissingFrom nowMs _ _ _).added e he with he | ⟨hnew, hvalue, i, hi, hkey⟩
      · obtain ⟨he, hne⟩ := mem_clearMissing.1 he
        exact ⟨hne, .inl he⟩
      · have hne : e.1 ≠ seq := hkey ▸ ne_of_added hi
        refine ⟨hne, .inr ⟨fun hmem => hnew ?_, hvalue⟩⟩
        obtain ⟨v, hv⟩ := mem_keys.1 hmem
        exact mem_keys.2 ⟨v, mem_clearMissing.2 ⟨hv, hne⟩⟩

/-- The entry of another number stays, unless the map is cleared. -/
theorem mem_received_of_mem (nowMs : ℕ) (fec : Bool) (he : e ∈ r.missingPackets.entries)
    (hne : e.1 ≠ seq) :
    e ∈ (r.onReceivedPacket seq nowMs fec).2.missingPackets.entries ∨
      (r.onReceivedPacket seq nowMs fec).2.missingPackets = .empty := by
  cases hinit : r.initialized with
  | false =>
    rw [received_first hinit]
    exact .inl he
  | true =>
    have hclear : e ∈ (r.clearMissing seq nowMs fec).2.missingPackets.entries :=
      mem_clearMissing.2 ⟨he, hne⟩
    rw [received_next hinit]
    rcases advance_cases (r.clearMissing seq nowMs fec).2 seq nowMs with ⟨-, heq⟩ | ⟨-, -, heq⟩ |
      ⟨-, -, heq⟩ <;> rw [heq]
    · exact .inl hclear
    · exact .inr rfl
    · exact .inl ((adds_addMissingFrom nowMs _ _ _).kept e hclear)

theorem received_config (r : NackRequester) (seq : BitVec 16) (nowMs : ℕ) (fec : Bool) :
    (r.onReceivedPacket seq nowMs fec).2.config = r.config := by
  have hconfig := (clearMissing_frame r seq nowMs fec).1
  cases hinit : r.initialized with
  | false => rw [received_first hinit]
  | true =>
    rw [received_next hinit]
    rcases advance_cases (r.clearMissing seq nowMs fec).2 seq nowMs with ⟨-, heq⟩ | ⟨-, -, heq⟩ |
      ⟨-, -, heq⟩ <;> rw [heq]
    · exact hconfig
    · exact hconfig
    · exact (adds_addMissingFrom nowMs _ _ _).config.trans hconfig

theorem Inv.received (h : Inv r) : Inv (r.onReceivedPacket seq nowMs fec).2 := by
  cases hinit : r.initialized with
  | false =>
    have hempty : r.missingPackets = .empty := ext (length_eq_zero_iff.1 (h.idle hinit))
    rw [received_first hinit]
    exact inv_of_empty hempty
  | true =>
    have hseq : seq ∉ (r.onReceivedPacket seq nowMs fec).2.missingPackets.keys := by
      intro hmem
      obtain ⟨v, hv⟩ := mem_keys.1 hmem
      exact (mem_received h.idle hv).1 rfl
    obtain ⟨hconfig, hinit', hnewest⟩ := clearMissing_frame r seq nowMs fec
    have hsize := (size_clearMissing_le r seq nowMs fec).trans h.size_le
    have hbusy := hinit'.trans hinit
    rw [received_next hinit] at hseq ⊢
    rcases advance_cases (r.clearMissing seq nowMs fec).2 seq nowMs with ⟨-, heq⟩ | ⟨-, -, heq⟩ |
      ⟨-, -, heq⟩
    · rw [heq]
      refine ⟨fun hidle => ?_, hconfig ▸ hsize, fun hmem => ?_⟩
      · rw [hbusy] at hidle
        cases hidle
      · obtain ⟨v, hv⟩ := mem_keys.1 (hnewest ▸ hmem)
        exact h.newest (mem_keys.2 ⟨v, (mem_clearMissing.1 hv).1⟩)
    · rw [heq]
      exact inv_of_empty rfl
    · rw [heq] at hseq ⊢
      have hadds := adds_addMissingFrom nowMs (r.clearMissing seq nowMs fec).2
        ((r.clearMissing seq nowMs fec).2.newestSeq + 1)
        ((seq - (r.clearMissing seq nowMs fec).2.newestSeq).toNat - 1)
      refine ⟨fun hidle => ?_, ?_, hseq⟩
      · rw [hadds.initialized.trans hbusy] at hidle
        cases hidle
      · refine hadds.size_le.trans ?_
        rw [hadds.config, hconfig]
        exact max_le hsize le_rfl

/-! ## A call -/

theorem inv_process (h : Inv r) : Inv (r.process nowMs).requester := by
  obtain ⟨nacks, gone, hout⟩ := process_spec r nowMs h.idle
  obtain ⟨hconfig, hinit, hnewest⟩ := process_frame r nowMs
  have hsize : (r.process nowMs).requester.missingPackets.size ≤ r.missingPackets.size := by
    have hlength := hout.keys_sublist.length_le
    rwa [OrdMap.keys, OrdMap.keys, length_map, length_map] at hlength
  refine ⟨fun hidle => ?_, ?_, ?_⟩
  · rw [hinit] at hidle
    exact Nat.le_zero.1 (hsize.trans (h.idle hidle).le)
  · rw [hconfig]
    exact hsize.trans h.size_le
  · rw [hnewest]
    exact fun hmem => h.newest (hout.keys_sublist.subset hmem)

theorem step_config (r : NackRequester) (c : Call) : (r.step c).config = r.config := by
  cases c with
  | received seq nowMs fec => exact received_config r seq nowMs fec
  | process nowMs => exact (process_frame r nowMs).1
  | _ => rfl

theorem Inv.step (h : Inv r) (c : Call) : Inv (r.step c) := by
  cases c with
  | received seq nowMs fec => exact h.received
  | process nowMs => exact inv_process h
  | clearUpTo seq =>
    have hsize := r.missingPackets.size_filterKeys_le fun k => IsNewerSequenceNumber k seq
    refine ⟨fun hidle => Nat.le_zero.1 (hsize.trans (h.idle hidle).le), hsize.trans h.size_le, ?_⟩
    intro hmem
    obtain ⟨v, hv⟩ := mem_keys.1 hmem
    exact h.newest (mem_keys.2 ⟨v, (mem_filterKeys.1 hv).1⟩)
  | abandonPending | reset => exact inv_of_empty rfl
  | _ => exact ⟨h.idle, h.size_le, h.newest⟩

/-! ## Requests -/

/-- A call requests the number of an entry, leaves the entry alone, or drops it. -/
theorem step_of_mem (hinv : Inv r) (hp : (seq, p) ∈ r.missingPackets.entries)
    (htime : ∀ t ∈ c.timeMs, p.firstMissingMs ≤ t) :
    (∃ nowMs, c = .process nowMs ∧ r.Requestable nowMs p ∧
      requestOf seq r c = [⟨nowMs, r.rttMs, r.retryIntervalMs⟩] ∧
      (seq, p.nacked nowMs) ∈ (r.step c).missingPackets.entries) ∨
    requestOf seq r c = [] ∧
      ((seq, p) ∈ (r.step c).missingPackets.entries ∨ seq ∉ (r.step c).missingPackets.keys) := by
  cases c with
  | received k nowMs fec =>
    refine .inr ⟨rfl, ?_⟩
    by_cases hk : seq = k
    · refine .inr fun hmem => ?_
      obtain ⟨v, hv⟩ := mem_keys.1 hmem
      exact (mem_received hinv.idle hv).1 hk
    · rcases mem_received_of_mem nowMs fec hp hk with hmem | hempty
      · exact .inl hmem
      · refine .inr ?_
        rw [step, hempty]
        exact not_mem_nil
  | process nowMs =>
    obtain ⟨nacks, gone, hout⟩ := process_spec r nowMs hinv.idle
    have hnacks : (r.process nowMs).nacks.getD [] = nacks := by
      rw [hout.nacks_eq]
      split_ifs with hnil
      · exact hnil.symm
      · rfl
    rw [requestOf, hnacks, step]
    have hgone : (∀ v, (seq, v) ∉ (r.process nowMs).requester.missingPackets.entries) →
        seq ∉ (r.process nowMs).requester.missingPackets.keys := fun hno hmem =>
      (mem_keys.1 hmem).elim hno
    cases hout.fate (seq, p) hp with
    | future hlt _ _ _ => exact absurd hlt (not_lt.2 (htime nowMs rfl))
    | abandoned _ hn _ hno => exact .inr ⟨if_neg hn, .inr (hgone hno)⟩
    | waits _ hn _ hmem => exact .inr ⟨if_neg hn, .inl hmem⟩
    | requested hreq hn _ hmem => exact .inl ⟨nowMs, rfl, hreq, if_pos hn, hmem⟩
  | clearUpTo k =>
    refine .inr ⟨rfl, ?_⟩
    by_cases hk : IsNewerSequenceNumber seq k
    · exact .inl (mem_filterKeys.2 ⟨hp, decide_eq_true hk⟩)
    · refine .inr fun hmem => ?_
      obtain ⟨v, hv⟩ := mem_keys.1 hmem
      exact hk (of_decide_eq_true (mem_filterKeys.1 hv).2)
  | abandonPending | reset => exact .inr ⟨rfl, .inr not_mem_nil⟩
  | _ => exact .inr ⟨rfl, .inl hp⟩

/-- The requests for a number go by its entry `p`. -/
structure Paced (p : MissingPacket) (reqs : List Request) : Prop where
  count : reqs ≠ [] → p.nackCount + reqs.length ≤ config.maxRetries
  waited : ∀ q ∈ reqs, p.firstMissingMs + config.reorderWaitMs ≤ q.atMs
  young : ∀ q ∈ reqs, q.atMs - p.firstMissingMs < config.maxPacketAgeMs ∧
    (q.rttMs ≠ 0 → q.atMs - p.firstMissingMs + q.rttMs < config.maxPacketAgeMs)
  apart : reqs.IsChain fun q q' => q.atMs + q'.intervalMs ≤ q'.atMs
  next : p.nackCount ≠ 0 → ∀ q ∈ reqs.head?, p.lastNackMs + q.intervalMs ≤ q.atMs

theorem paced_nil {config : Config} : Paced config p [] :=
  ⟨absurd rfl, nofun, nofun, .nil, nofun⟩

/-- A request in front of others, which go by the entry it leaves. -/
theorem Paced.cons {reqs : List Request} (hreq : r.Requestable nowMs p)
    (htime : p.firstMissingMs ≤ nowMs) (h : Paced r.config (p.nacked nowMs) reqs) :
    Paced r.config p (⟨nowMs, r.rttMs, r.retryIntervalMs⟩ :: reqs) := by
  have hage : nowMs - p.firstMissingMs < r.config.maxPacketAgeMs :=
    not_le.1 fun hold => hreq.not_abandoned (.inl hold)
  have hcount : p.nackCount < r.config.maxRetries :=
    not_le.1 fun hmany => hreq.not_abandoned (.inr (.inl ⟨hmany, hreq.due⟩))
  have hrtt : r.rttMs ≠ 0 → nowMs - p.firstMissingMs + r.rttMs < r.config.maxPacketAgeMs := by
    intro hknown
    have hin : r.rttMs < r.config.maxPacketAgeMs - (nowMs - p.firstMissingMs) :=
      not_le.1 fun hlate =>
        hreq.not_abandoned (.inr (.inr ⟨not_le.2 hage, hreq.due, hknown, hlate⟩))
    omega
  have hwaited := hreq.waited
  refine ⟨fun _ => ?_, forall_mem_cons.2 ⟨?_, h.waited⟩,
    forall_mem_cons.2 ⟨⟨hage, hrtt⟩, h.young⟩,
    isChain_cons.2 ⟨h.next (Nat.succ_ne_zero _), h.apart⟩, ?_⟩
  · by_cases hnil : reqs = []
    · rw [hnil, length_singleton]
      exact hcount
    · have hrest : p.nackCount + 1 + reqs.length ≤ r.config.maxRetries := h.count hnil
      rw [length_cons]
      omega
  · change p.firstMissingMs + r.config.reorderWaitMs ≤ nowMs
    omega
  · intro hzero q hq
    obtain rfl : _ = q := some.inj hq
    obtain ⟨hlast, hinterval⟩ := hreq.due.resolve_left hzero
    change p.lastNackMs + r.retryIntervalMs ≤ nowMs
    omega

/-- While a number is in the map its requests go by its entry, and the entry keeps the time at
    which the number was found missing. -/
theorem paced_requests (hinv : Inv r) (hp : (seq, p) ∈ r.missingPackets.entries)
    (htimes : ∀ c ∈ calls, ∀ t ∈ c.timeMs, p.firstMissingMs ≤ t)
    (hstays : ∀ i < calls.length, seq ∈ (run step r (calls.take i)).missingPackets.keys) :
    Paced r.config p (requests seq r calls) ∧
      ∀ p', (seq, p') ∈ (run step r calls).missingPackets.entries →
        p'.firstMissingMs = p.firstMissingMs := by
  induction calls generalizing r p with
  | nil => exact ⟨paced_nil, fun p' hp' => congrArg _ (entry_unique hp' hp)⟩
  | cons c calls ih =>
    obtain ⟨htime, hrest⟩ := forall_mem_cons.1 htimes
    have hstays' : ∀ i < calls.length,
        seq ∈ (run step (r.step c) (calls.take i)).missingPackets.keys := fun i hi =>
      hstays (i + 1) (Nat.succ_lt_succ hi)
    rw [requests, run_cons]
    rcases step_of_mem hinv hp htime with ⟨nowMs, rfl, hreq, hrequest, hnext⟩ |
      ⟨hrequest, hnext | hgone⟩
    · obtain ⟨hpaced, hfirst⟩ := ih (hinv.step _) hnext hrest hstays'
      rw [step_config] at hpaced
      rw [hrequest]
      exact ⟨hpaced.cons hreq (htime nowMs rfl), hfirst⟩
    · obtain ⟨hpaced, hfirst⟩ := ih (hinv.step _) hnext hrest hstays'
      rw [step_config] at hpaced
      rw [hrequest]
      exact ⟨hpaced, hfirst⟩
    · -- The number has left, so that there are no more calls.
      have hlast : calls = [] := by
        by_contra hne
        exact hgone (hstays' 0 (length_pos_iff.2 hne))
      subst hlast
      rw [hrequest]
      refine ⟨paced_nil, fun p' hp' => ?_⟩
      exact absurd (mem_keys.2 ⟨p', hp'⟩) hgone

/-- A number enters the map with a packet, at its time. -/
theorem entered (hinv : Inv r) (hbefore : seq ∉ r.missingPackets.keys)
    (hafter : seq ∈ (r.step c).missingPackets.keys) :
    ∃ nowMs, c.timeMs = some nowMs ∧
      (seq, { firstMissingMs := nowMs }) ∈ (r.step c).missingPackets.entries := by
  obtain ⟨v, hv⟩ := mem_keys.1 hafter
  cases c with
  | received k nowMs fec =>
    rcases (mem_received hinv.idle hv).2 with hold | ⟨-, rfl⟩
    · exact absurd (mem_keys.2 ⟨v, hold⟩) hbefore
    · exact ⟨nowMs, rfl, hv⟩
  | process nowMs =>
    obtain ⟨nacks, gone, hout⟩ := process_spec r nowMs hinv.idle
    exact absurd (hout.keys_sublist.subset hafter) hbefore
  | clearUpTo k =>
    exact absurd (mem_keys.2 ⟨v, (mem_filterKeys.1 hv).1⟩) hbefore
  | abandonPending | reset => cases hv
  | _ => exact absurd hafter hbefore

/-- An entry that is too old is gone after `Process`. -/
theorem gone_of_expired (hinv : Inv r) (hp : (seq, p) ∈ r.missingPackets.entries)
    (hexpired : r.Expired nowMs p) : seq ∉ (r.process nowMs).requester.missingPackets.keys := by
  obtain ⟨nacks, gone, hout⟩ := process_spec r nowMs hinv.idle
  intro hmem
  obtain ⟨v, hv⟩ := mem_keys.1 hmem
  cases hout.fate (seq, p) hp with
  | future _ _ _ hno | abandoned _ _ _ hno => exact hno v hv
  | waits hkeeps _ _ _ => exact hkeeps (.inl hexpired)
  | requested hreq _ _ _ => exact hreq.not_abandoned (.inl hexpired)

/-- What the callback is called with. -/
theorem batch_of_process (hinv : Inv r) {batch : List (BitVec 16)}
    (hbatch : (r.process nowMs).nacks = some batch) :
    batch.Nodup ∧ 1 ≤ batch.length ∧ batch.length ≤ r.config.maxBatchSize := by
  obtain ⟨nacks, gone, hout⟩ := process_spec r nowMs hinv.idle
  rw [hout.nacks_eq] at hbatch
  split_ifs at hbatch with hnil
  obtain rfl := some.inj hbatch
  exact ⟨r.missingPackets.keys_nodup.sublist hout.nacks_sublist, length_pos_iff.2 hnil,
    hout.room hnil⟩

end NackRequester

/-! ## Runs -/

open NackRequester

/-- The calls `pre` are made, then `enter`, with which the number `seq` enters the map, and then
    the calls `during`. Before each of these the number is still there. -/
structure Episode (seq : BitVec 16) (pre : List Call) (enter : Call) (during : List Call) :
    Prop where
  absent : seq ∉ (after config pre).missingPackets.keys
  entered : seq ∈ (after config (pre ++ [enter])).missingPackets.keys
  stays : ∀ i < during.length,
    seq ∈ (after config (pre ++ enter :: during.take i)).missingPackets.keys

/-- The times of the calls do not decrease. -/
def Timely (calls : List Call) : Prop := (calls.filterMap Call.timeMs).Pairwise (· ≤ ·)

instance (calls : List Call) : Decidable (Timely calls) :=
  inferInstanceAs (Decidable (List.Pairwise _ _))

theorem Timely.of_append {calls rest : List Call} (h : Timely (calls ++ rest)) : Timely calls := by
  rw [Timely, filterMap_append] at h
  exact (pairwise_append.1 h).1

/-- The calls after another one are not earlier. -/
theorem Timely.le {t t' : ℕ} (h : Timely (pre ++ enter :: during)) (henter : enter.timeMs = some t)
    (hc : c ∈ during) (ht' : c.timeMs = some t') : t ≤ t' := by
  rw [Timely, filterMap_append, filterMap_cons_some henter] at h
  exact (pairwise_cons.1 (pairwise_append.1 h).2.1).1 t'
    (mem_filterMap.2 ⟨c, hc, ht'⟩)

theorem inv_after (calls : List Call) : Inv (after config calls) :=
  run_induction (P := fun _ r => Inv r) (inv_of_empty rfl) (fun _ op h => h.step op) calls

theorem config_after (calls : List Call) :
    (after config calls).config = (NackRequester.make config).config :=
  run_induction (P := fun _ (r : NackRequester) => r.config = (NackRequester.make config).config)
    rfl (fun _ op h => (step_config _ op).trans h) calls

theorem after_cons (pre calls : List Call) (c : Call) :
    after config (pre ++ c :: calls) = run step (after config (pre ++ [c])) calls := by
  rw [after, append_cons, run_append, after]

/-- The entry of the number of an episode, and the requests that go by it. -/
theorem Episode.paced {config : Config} (h : Episode config seq pre enter during)
    (htimes : Timely (pre ++ enter :: during)) :
    ∃ detected, enter.timeMs = some detected ∧ Paced config { firstMissingMs := detected }
        (requests seq (after config (pre ++ [enter])) during) ∧
      ∀ p, (seq, p) ∈ (after config (pre ++ enter :: during)).missingPackets.entries →
        p.firstMissingMs = detected := by
  have hstep : after config (pre ++ [enter]) = (after config pre).step enter := run_concat pre enter
  obtain ⟨detected, henter, hentry⟩ :=
    NackRequester.entered (inv_after config pre) h.absent (hstep ▸ h.entered)
  rw [← hstep] at hentry
  obtain ⟨hpaced, hfirst⟩ := paced_requests (inv_after config (pre ++ [enter])) hentry
    (fun c hc t ht => htimes.le henter hc ht)
    fun i hi => after_cons config pre _ enter ▸ h.stays i hi
  rw [config_after] at hpaced
  rw [after_cons config pre during enter]
  exact ⟨detected, henter, { hpaced with }, hfirst⟩

/-- An episode without its last call. The number is still there. -/
theorem Episode.init {config : Config} {before : List Call}
    (h : Episode config seq pre enter (before ++ [c])) :
    Episode config seq pre enter before ∧
      seq ∈ (after config (pre ++ enter :: before)).missingPackets.keys := by
  have htake : ∀ i ≤ before.length, (before ++ [c]).take i = before.take i := fun i hi =>
    take_append_of_le_length hi
  have hstays : ∀ i ≤ before.length,
      seq ∈ (after config (pre ++ enter :: before.take i)).missingPackets.keys := by
    intro i hi
    rw [← htake i hi]
    refine h.stays i ?_
    rw [length_append, length_singleton]
    omega
  refine ⟨⟨h.absent, h.entered, fun i hi => hstays i hi.le⟩, ?_⟩
  have hlast := hstays before.length le_rfl
  rwa [take_length] at hlast

/-- In every run: while a number is in the map it is requested a limited number of times, not
    too early, not too late and not too often, and it is gone once it is too old; the batches,
    and the map itself, are limited, and the newest number is not missing. -/
theorem requests_bounded (config : Config) (calls : List Call) (htimes : Timely calls) :
    (∀ seq pre enter during rest, calls = pre ++ enter :: during ++ rest →
      Episode config seq pre enter during → ∃ detected, enter.timeMs = some detected ∧
        (requests seq (after config (pre ++ [enter])) during).length ≤ config.maxRetries ∧
        (∀ q ∈ requests seq (after config (pre ++ [enter])) during,
          detected + config.reorderWaitMs ≤ q.atMs ∧
          q.atMs - detected < config.maxPacketAgeMs ∧
          (q.rttMs ≠ 0 → q.atMs - detected + q.rttMs < config.maxPacketAgeMs)) ∧
        (requests seq (after config (pre ++ [enter])) during).IsChain
          (fun q q' => q.atMs + q'.intervalMs ≤ q'.atMs) ∧
        ∀ before nowMs, during = before ++ [.process nowMs] →
          config.maxPacketAgeMs ≤ nowMs - detected →
            seq ∉ (after config (pre ++ enter :: during)).missingPackets.keys) ∧
    (∀ pre nowMs rest batch, calls = pre ++ .process nowMs :: rest →
      ((after config pre).process nowMs).nacks = some batch →
        batch.Nodup ∧ 1 ≤ batch.length ∧
          batch.length ≤ (NackRequester.make config).config.maxBatchSize) ∧
    (after config calls).missingPackets.size ≤ config.maxNackListSize ∧
    (after config calls).newestSeq ∉ (after config calls).missingPackets.keys := by
  refine ⟨?_, ?_, ?_, (inv_after config calls).newest⟩
  · rintro seq pre enter during rest rfl hepisode
    have htimely := htimes.of_append
    obtain ⟨detected, henter, hpaced, -⟩ := hepisode.paced htimely
    refine ⟨detected, henter, ?_, fun q hq => ⟨hpaced.waited q hq, hpaced.young q hq⟩,
      hpaced.apart, ?_⟩
    · by_cases hnil : requests seq (after config (pre ++ [enter])) during = []
      · rw [hnil]
        exact Nat.zero_le _
      · simpa using hpaced.count hnil
    · rintro before nowMs rfl hold
      obtain ⟨hbefore, hmem⟩ := hepisode.init
      rw [← cons_append, ← append_assoc] at htimely ⊢
      obtain ⟨detected', henter', -, hfirst⟩ := hbefore.paced htimely.of_append
      obtain rfl : detected = detected' := some.inj (henter.symm.trans henter')
      obtain ⟨p, hp⟩ := mem_keys.1 hmem
      rw [after, run_concat]
      refine gone_of_expired (inv_after config _) hp ?_
      change nowMs - p.firstMissingMs ≥ (after config _).config.maxPacketAgeMs
      rw [hfirst p hp, config_after]
      exact hold
  · rintro pre nowMs rest batch rfl hbatch
    rw [← config_after config pre]
    exact batch_of_process (inv_after config pre) hbatch
  · have hsize := (inv_after config calls).size_le
    rwa [config_after] at hsize

/-- The second of three packets is lost. -/
def loss : List Call := [.setNackCallback true, .received 1 0 false, .received 3 0 false]

theorem requests_bounded_loss :
    requests 2 (after {} loss) [.process 10, .process 20, .process 40, .process 70] =
      [⟨20, 0, 50⟩, ⟨70, 0, 50⟩] ∧
    (requests 2 (after {} loss)
      [.process 10, .process 20, .process 40, .process 70]).length ≤ 5 := by
  refine ⟨by decide, ?_⟩
  obtain ⟨detected, -, hcount, -⟩ := (requests_bounded {}
    (loss ++ [.process 10, .process 20, .process 40, .process 70]) (by decide)).1 2
    [.setNackCallback true, .received 1 0 false] (.received 3 0 false)
    [.process 10, .process 20, .process 40, .process 70] [] rfl
    ⟨by decide, by decide, by decide⟩
  exact hcount

end Packetia.Nack
