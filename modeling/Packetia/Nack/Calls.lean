import Packetia.Nack.Requester

/-!
# What the calls do to an entry

`Process` decides about every entry by itself, but for the size of the batch. An entry is
abandoned, waits, or is requested (`Fate`), and the batches are the numbers requested and
abandoned (`process_spec`). A packet takes its own number out of the map and puts in those
between the newest one and its own, as far as there is room (`advance_cases`,
`mem_addMissingFrom`).
-/

namespace Packetia.Nack

open OrdMap List

namespace NackRequester

variable {r : NackRequester} {nowMs n : ℕ} {seq k : BitVec 16} {packet p : MissingPacket}
  {e : BitVec 16 × MissingPacket} {es kept : List (BitVec 16 × MissingPacket)} {s : Sweep}
  {nacks gone : List (BitVec 16)} {fec : Bool}

/-! ## The loop of `Process` -/

/-- The numbers `nacks` have been requested and the numbers `gone` abandoned since `s`. -/
def Sweep.add (s : Sweep) (nacks gone : List (BitVec 16)) : Sweep where
  nackBatch := s.nackBatch ++ nacks
  abandonedBatch := s.abandonedBatch ++ gone
  stats := { s.stats with
    nackRequests := s.stats.nackRequests + nacks.length
    abandonedPackets := s.stats.abandonedPackets + gone.length }

theorem Sweep.add_nil : s.add [] [] = s := by
  simp [Sweep.add]

theorem Sweep.add_add (nacks' gone' : List (BitVec 16)) :
    (s.add nacks gone).add nacks' gone' = s.add (nacks ++ nacks') (gone ++ gone') := by
  simp [Sweep.add, Nat.add_assoc]

/-- The conditions under which a packet is requested, but for the size of the batch. -/
structure Requestable (r : NackRequester) (nowMs : ℕ) (packet : MissingPacket) : Prop where
  not_abandoned : ¬r.Abandons nowMs packet
  waited : r.config.reorderWaitMs ≤ nowMs - packet.firstMissingMs
  due : r.RetryDue nowMs packet

/-- What becomes of an entry, given the numbers that are requested, those that are abandoned
    and the entries that are kept. -/
inductive Fate (r : NackRequester) (nowMs : ℕ) (nacks gone : List (BitVec 16))
    (kept : List (BitVec 16 × MissingPacket)) (seq : BitVec 16) (packet : MissingPacket) : Prop
  /-- The clock has gone backwards. -/
  | future : nowMs < packet.firstMissingMs → seq ∉ nacks → seq ∉ gone → (∀ p, (seq, p) ∉ kept) →
      Fate r nowMs nacks gone kept seq packet
  | abandoned : r.Abandons nowMs packet → seq ∉ nacks → seq ∈ gone → (∀ p, (seq, p) ∉ kept) →
      Fate r nowMs nacks gone kept seq packet
  | waits : ¬r.Abandons nowMs packet → seq ∉ nacks → seq ∉ gone → (seq, packet) ∈ kept →
      Fate r nowMs nacks gone kept seq packet
  | requested : r.Requestable nowMs packet → seq ∈ nacks → seq ∉ gone →
      (seq, packet.nacked nowMs) ∈ kept → Fate r nowMs nacks gone kept seq packet

/-- What happens to other entries does not matter. -/
theorem Fate.congr {nacks' gone' : List (BitVec 16)} {kept' : List (BitVec 16 × MissingPacket)}
    (hnacks : seq ∈ nacks' ↔ seq ∈ nacks) (hgone : seq ∈ gone' ↔ seq ∈ gone)
    (hkept : ∀ p, (seq, p) ∈ kept' ↔ (seq, p) ∈ kept)
    (h : Fate r nowMs nacks gone kept seq packet) : Fate r nowMs nacks' gone' kept' seq packet := by
  cases h with
  | future htime hn hg hk =>
    exact .future htime (mt hnacks.1 hn) (mt hgone.1 hg) fun p => mt (hkept p).1 (hk p)
  | abandoned ha hn hg hk =>
    exact .abandoned ha (mt hnacks.1 hn) (hgone.2 hg) fun p => mt (hkept p).1 (hk p)
  | waits ha hn hg hk => exact .waits ha (mt hnacks.1 hn) (mt hgone.1 hg) ((hkept _).2 hk)
  | requested hr hn hg hk => exact .requested hr (hnacks.2 hn) (mt hgone.1 hg) ((hkept _).2 hk)

/-- A round of the loop requests the number, abandons it, or neither. -/
theorem visit_fate (r : NackRequester) (nowMs : ℕ) (s : Sweep) (seq : BitVec 16)
    (packet : MissingPacket) : ∃ nacks gone v,
      r.visit nowMs s seq packet = (s.add nacks gone, v) ∧
      nacks.Sublist [seq] ∧ gone.Sublist [seq] ∧
      (nacks ≠ [] → r.nackCallback = true ∧ s.nackBatch.length < r.config.maxBatchSize) ∧
      Fate r nowMs nacks gone (v.map fun v => (seq, v)).toList seq packet := by
  rw [visit]
  split_ifs with hfuture habandons hwait hrequest
  · refine ⟨[], [], none, by rw [Sweep.add_nil], nil_sublist _, nil_sublist _, ?_, ?_⟩
    · exact absurd rfl
    · exact .future hfuture not_mem_nil not_mem_nil fun _ => not_mem_nil
  · refine ⟨[], [seq], none, by simp [Sweep.add], nil_sublist _, .refl _, ?_, ?_⟩
    · exact absurd rfl
    · exact .abandoned habandons not_mem_nil mem_cons_self fun _ => not_mem_nil
  · refine ⟨[], [], some packet, by rw [Sweep.add_nil], nil_sublist _, nil_sublist _, ?_, ?_⟩
    · exact absurd rfl
    · exact .waits habandons not_mem_nil not_mem_nil mem_cons_self
  · refine ⟨[seq], [], some (packet.nacked nowMs), by simp [Sweep.add], .refl _, nil_sublist _,
      fun _ => hrequest.2, ?_⟩
    exact .requested ⟨habandons, not_lt.1 hwait, hrequest.1⟩ mem_cons_self not_mem_nil
      mem_cons_self
  · refine ⟨[], [], some packet, by rw [Sweep.add_nil], nil_sublist _, nil_sublist _, ?_, ?_⟩
    · exact absurd rfl
    · exact .waits habandons not_mem_nil not_mem_nil mem_cons_self

/-- The loop: which numbers are requested and abandoned, and what becomes of every entry. -/
structure Swept (r : NackRequester) (nowMs : ℕ) (s : Sweep) (es : List (BitVec 16 × MissingPacket))
    (nacks gone : List (BitVec 16)) : Prop where
  result : (OrdMap.sweepEntries (r.visit nowMs) s es).1 = s.add nacks gone
  nacks_sublist : nacks.Sublist (es.map Prod.fst)
  gone_sublist : gone.Sublist (es.map Prod.fst)
  room : nacks ≠ [] → r.nackCallback = true ∧ (s.nackBatch ++ nacks).length ≤ r.config.maxBatchSize
  fate : ∀ e ∈ es, Fate r nowMs nacks gone (OrdMap.sweepEntries (r.visit nowMs) s es).2 e.1 e.2

theorem exists_swept (hes : (es.map Prod.fst).Nodup) :
    ∃ nacks gone, Swept r nowMs s es nacks gone := by
  induction es generalizing s with
  | nil =>
    refine ⟨[], [], Sweep.add_nil.symm, .slnil, .slnil, absurd rfl, ?_⟩
    exact nofun
  | cons e es ih =>
    rw [map_cons, nodup_cons] at hes
    obtain ⟨nacks', gone', v, hvisit, hnacks, hgone, hroom, hfate⟩ := visit_fate r nowMs s e.1 e.2
    obtain ⟨nacks, gone, h⟩ := ih hes.2
    have hsweep : sweepEntries (r.visit nowMs) s (e :: es) =
        ((s.add nacks' gone').add nacks gone, (v.map fun v => (e.1, v)).toList ++
          (sweepEntries (r.visit nowMs) (s.add nacks' gone') es).2) := by
      rw [sweepEntries, hvisit, ← h.result]
    have hmine : ∀ {k : BitVec 16} {l : List (BitVec 16)}, l.Sublist [e.1] → k ∈ l → k = e.1 :=
      fun hl hk => mem_singleton.1 (hl.subset hk)
    have hkept : ∀ p, (e.1, p) ∉ (sweepEntries (r.visit nowMs) (s.add nacks' gone') es).2 :=
      fun p hp => hes.1 ((keys_sweepEntries _ es).subset (mem_map.2 ⟨_, hp, rfl⟩))
    refine ⟨nacks' ++ nacks, gone' ++ gone, ?_, ?_, ?_, ?_, ?_⟩
    · rw [hsweep, Sweep.add_add]
    · exact hnacks.append h.nacks_sublist
    · exact hgone.append h.gone_sublist
    · intro hne
      by_cases hrest : nacks = []
      · rw [hrest, append_nil] at hne ⊢
        have hle := hnacks.length_le
        rw [length_singleton] at hle
        rw [length_append]
        exact ⟨(hroom hne).1, by have := (hroom hne).2; omega⟩
      · rw [← append_assoc]
        exact h.room hrest
    · rw [hsweep]
      intro d hd
      rcases mem_cons.1 hd with rfl | hd
      · -- The entry in front.
        refine hfate.congr ?_ ?_ fun p => ?_
        · rw [mem_append, or_iff_left fun hk => hes.1 (h.nacks_sublist.subset hk)]
        · rw [mem_append, or_iff_left fun hk => hes.1 (h.gone_sublist.subset hk)]
        · rw [mem_append, or_iff_left (hkept p)]
      · have hne : d.1 ≠ e.1 := fun heq => hes.1 (heq ▸ mem_map_of_mem hd)
        refine (h.fate d hd).congr ?_ ?_ fun p => ?_
        · rw [mem_append, or_iff_right fun hk => hne (hmine hnacks hk)]
        · rw [mem_append, or_iff_right fun hk => hne (hmine hgone hk)]
        · rw [mem_append, or_iff_right]
          intro hp
          obtain ⟨_, -, heq⟩ := Option.map_eq_some_iff.1 (Option.mem_toList.1 hp)
          exact hne (congrArg Prod.fst heq).symm

/-! ## `Process` -/

/-- What `Process` does. -/
structure Outcome (r : NackRequester) (nowMs : ℕ) (nacks gone : List (BitVec 16))
    (result : Processed) : Prop where
  nacks_eq : result.nacks = if nacks = [] then none else some nacks
  abandoned_eq : result.abandoned = gone
  nacks_sublist : nacks.Sublist r.missingPackets.keys
  gone_sublist : gone.Sublist r.missingPackets.keys
  room : nacks ≠ [] → nacks.length ≤ r.config.maxBatchSize
  keys_sublist : result.requester.missingPackets.keys.Sublist r.missingPackets.keys
  fate : ∀ e ∈ r.missingPackets.entries,
    Fate r nowMs nacks gone result.requester.missingPackets.entries e.1 e.2
  stats_eq : result.requester.stats = { r.stats with
    nackRequests := r.stats.nackRequests + nacks.length
    abandonedPackets := r.stats.abandonedPackets + gone.length }

theorem process_spec (r : NackRequester) (nowMs : ℕ)
    (hinit : r.initialized = false → r.missingPackets.size = 0) :
    ∃ nacks gone, Outcome r nowMs nacks gone (r.process nowMs) := by
  rw [process]
  split_ifs with hidle
  · have hempty : r.missingPackets.entries = [] := by
      refine length_eq_zero_iff.1 ?_
      exact hidle.elim (fun h => hinit (Bool.eq_false_of_not_eq_true h)) id
    refine ⟨[], [], rfl, rfl, nil_sublist _, nil_sublist _, absurd rfl,
      .refl _, fun e he => ?_, rfl⟩
    rw [hempty] at he
    cases he
  · obtain ⟨nacks, gone, h⟩ : ∃ nacks gone,
        Swept r nowMs { stats := r.stats } r.missingPackets.entries nacks gone :=
      exists_swept r.missingPackets.keys_nodup
    have hresult : (r.sweep nowMs).1 = Sweep.add { stats := r.stats } nacks gone := h.result
    have hnacks : (if (r.sweep nowMs).1.nackBatch ≠ [] ∧ r.nackCallback = true then
        some (r.sweep nowMs).1.nackBatch else none) = if nacks = [] then none else some nacks := by
      rw [hresult, Sweep.add, nil_append]
      by_cases hne : nacks = []
      · rw [if_neg fun hand => hand.1 hne, if_pos hne]
      · rw [if_pos ⟨hne, (h.room hne).1⟩, if_neg hne]
    have hkeys : (r.sweep nowMs).2.keys.Sublist r.missingPackets.keys := keys_sweepEntries _ _
    have habandoned : (r.sweep nowMs).1.abandonedBatch = gone := by
      rw [hresult]
      exact nil_append gone
    have hroom := fun hne => (h.room hne).2
    refine ⟨nacks, gone, ?_⟩
    by_cases hdue : r.FailureCallbackDue nowMs (r.sweep nowMs).1.abandonedBatch
    all_goals
      simp only [hdue, if_true, if_false]
      exact ⟨hnacks, habandoned, h.nacks_sublist, h.gone_sublist, hroom, hkeys, h.fate,
        congrArg Sweep.stats hresult⟩

/-- `Process` leaves everything else as it is. -/
theorem process_frame (r : NackRequester) (nowMs : ℕ) :
    (r.process nowMs).requester.config = r.config ∧
      (r.process nowMs).requester.initialized = r.initialized ∧
      (r.process nowMs).requester.newestSeq = r.newestSeq := by
  simp only [process]
  split_ifs <;> exact ⟨rfl, rfl, rfl⟩

/-! ## Receiving a packet -/

theorem mem_addMissing : e ∈ (r.addMissing seq nowMs).missingPackets.entries ↔
    e ∈ r.missingPackets.entries ∨
      seq ∉ r.missingPackets.keys ∧ e = (seq, { firstMissingMs := nowMs }) := by
  change e ∈ (r.missingPackets.emplace seq _).entries ↔ _
  by_cases hseq : seq ∈ r.missingPackets.keys
  · rw [emplace_of_mem _ hseq, or_iff_left fun h => h.1 hseq]
  · rw [mem_emplace hseq, or_comm, and_iff_right hseq]

theorem add_one_add_ofNat (seq : BitVec 16) (i : ℕ) :
    seq + 1 + BitVec.ofNat 16 i = seq + BitVec.ofNat 16 (i + 1) := by
  rw [BitVec.add_assoc, Nat.add_comm i 1, BitVec.ofNat_add]
  rfl

/-- The loop adds entries, and changes nothing else. -/
structure Adds (nowMs : ℕ) (seq : BitVec 16) (n : ℕ) (r r' : NackRequester) : Prop where
  config : r'.config = r.config
  initialized : r'.initialized = r.initialized
  newestSeq : r'.newestSeq = r.newestSeq
  kept : ∀ e ∈ r.missingPackets.entries, e ∈ r'.missingPackets.entries
  added : ∀ e ∈ r'.missingPackets.entries, e ∈ r.missingPackets.entries ∨
    e.1 ∉ r.missingPackets.keys ∧ e.2 = { firstMissingMs := nowMs } ∧
      ∃ i < n, e.1 = seq + BitVec.ofNat 16 i
  size_le : r'.missingPackets.size ≤ max r.missingPackets.size r.config.maxNackListSize

theorem adds_addMissingFrom (nowMs : ℕ) (r : NackRequester) (seq : BitVec 16) (n : ℕ) :
    Adds nowMs seq n r (addMissingFrom nowMs r seq n) := by
  induction n generalizing r seq with
  | zero => exact ⟨rfl, rfl, rfl, fun _ he => he, fun _ he => .inl he, le_max_left _ _⟩
  | succ n ih =>
    rw [addMissingFrom]
    split_ifs with hfull
    · exact ⟨rfl, rfl, rfl, fun _ he => he, fun _ he => .inl he, le_max_left _ _⟩
    · have h := ih (r.addMissing seq nowMs) (seq + 1)
      refine ⟨h.config, h.initialized, h.newestSeq, ?_, ?_, ?_⟩
      · exact fun e he => h.kept e (mem_addMissing.2 (.inl he))
      · intro e he
        rcases h.added e he with he | ⟨hnew, hvalue, i, hi, hkey⟩
        · rcases mem_addMissing.1 he with he | ⟨hnew, rfl⟩
          · exact .inl he
          · exact .inr ⟨hnew, rfl, 0, Nat.succ_pos n, (BitVec.add_zero seq).symm⟩
        · refine .inr ⟨fun hmem => hnew ?_, hvalue, i + 1, Nat.succ_lt_succ hi, ?_⟩
          · exact mem_keys_emplace.2 (.inr hmem)
          · rw [hkey, add_one_add_ofNat]
      · have hsize := h.size_le
        have hone := r.missingPackets.size_emplace_le seq { firstMissingMs := nowMs }
        change _ ≤ max (r.missingPackets.emplace seq _).size r.config.maxNackListSize at hsize
        omega

/-- A number that is not newer changes nothing. A newer one follows the newest at once, or
    after a jump, or the numbers before it are missing. -/
theorem advance_cases (r : NackRequester) (seq : BitVec 16) (nowMs : ℕ) :
    (¬IsNewerSequenceNumber seq r.newestSeq ∧ r.advance seq nowMs = r) ∨
    (IsNewerSequenceNumber seq r.newestSeq ∧
      r.config.maxSequenceGap < (seq - r.newestSeq).toNat ∧
      r.advance seq nowMs = { r with
        missingPackets := .empty, newestSeq := seq
        stats := { r.stats with largeGapResets := r.stats.largeGapResets + 1 } }) ∨
    (IsNewerSequenceNumber seq r.newestSeq ∧
      (seq - r.newestSeq).toNat ≤ r.config.maxSequenceGap ∧
      r.advance seq nowMs = { addMissingFrom nowMs r (r.newestSeq + 1)
        ((seq - r.newestSeq).toNat - 1) with newestSeq := seq }) := by
  simp only [advance]
  by_cases hnewer : IsNewerSequenceNumber seq r.newestSeq
  · rw [if_neg (not_not.2 hnewer)]
    by_cases hjump : (seq - r.newestSeq).toNat > r.config.maxSequenceGap
    · exact .inr (.inl ⟨hnewer, hjump, if_pos hjump⟩)
    · refine .inr (.inr ⟨hnewer, not_lt.1 hjump, ?_⟩)
      rw [if_neg hjump]
      by_cases hgap : (seq - r.newestSeq).toNat > 1
      · have hrounds : (seq - (r.newestSeq + 1)).toNat = (seq - r.newestSeq).toNat - 1 := by
          bv_omega
        rw [if_pos hgap, addMissingPackets, hrounds]
      · have hone : (seq - r.newestSeq).toNat - 1 = 0 := by omega
        rw [if_neg hgap, hone, addMissingFrom]
  · exact .inl ⟨hnewer, if_pos hnewer⟩

theorem received_first (h : r.initialized = false) : (r.onReceivedPacket seq nowMs fec).2 =
    { r with initialized := true, newestSeq := seq } := by
  rw [onReceivedPacket, if_pos (by rw [h]; decide)]

theorem received_next (h : r.initialized = true) : (r.onReceivedPacket seq nowMs fec).2 =
    (r.clearMissing seq nowMs fec).2.advance seq nowMs := by
  rw [onReceivedPacket, if_neg (not_not.2 h)]

/-- The entries without the one of the number that has arrived. -/
theorem mem_clearMissing : e ∈ (r.clearMissing seq nowMs fec).2.missingPackets.entries ↔
    e ∈ r.missingPackets.entries ∧ e.1 ≠ seq := by
  rw [clearMissing]
  cases hfind : r.missingPackets.find? seq with
  | none =>
    have hno := find?_eq_none.1 hfind
    refine ⟨fun he => ⟨he, ?_⟩, And.left⟩
    rintro rfl
    exact hno (mem_keys_of_mem he)
  | some missing => exact mem_erase

theorem clearMissing_frame (r : NackRequester) (seq : BitVec 16) (nowMs : ℕ) (fec : Bool) :
    (r.clearMissing seq nowMs fec).2.config = r.config ∧
    (r.clearMissing seq nowMs fec).2.initialized = r.initialized ∧
    (r.clearMissing seq nowMs fec).2.newestSeq = r.newestSeq := by
  rw [clearMissing]
  cases r.missingPackets.find? seq <;> exact ⟨rfl, rfl, rfl⟩

theorem size_clearMissing_le (r : NackRequester) (seq : BitVec 16) (nowMs : ℕ) (fec : Bool) :
    (r.clearMissing seq nowMs fec).2.missingPackets.size ≤ r.missingPackets.size := by
  rw [clearMissing]
  cases r.missingPackets.find? seq with
  | none => exact le_rfl
  | some missing => exact length_filter_le _ _

end NackRequester

end Packetia.Nack
