import Packetia.Reorder.Queue

/-!
# The invariant of the reorder queue

Every input is accounted for: it has been handed over, dropped for a counted
reason, or is still buffered; and every number from the first one up to `next`
has been handed over or counted as lost. In between the steps of a call, the
invariant holds only loosely (`Loose`): the awaited packet may be buffered, and
the buffer too full. A flush hands the awaited packets over, and the skip of a
gap takes at least one packet out of the buffer; so every call ends with the
invariant restored (`Inv`).
-/

namespace Packetia.Reorder.Queue

open OrdMap List Option

variable {α : Type*} {cfg : Config} {ins : List (BitVec 16 × α)} {first : ℤ} {q : Queue α}

/-- The packets input by a call. -/
def Call.input : Call α → List (BitVec 16 × α)
  | .inputPacket seq packet _ => [(seq, packet)]
  | _ => []

/-- The packets input by the calls, in order. -/
def inputs (cs : List (Call α)) : List (BitVec 16 × α) := cs.flatMap Call.input

/-- The accounts of the queue, after the inputs `ins` from the number `first`
    on, within a call: the awaited packet may still be in the buffer. -/
structure Loose (cfg : Config) (ins : List (BitVec 16 × α)) (first : ℤ) (q : Queue α) :
    Prop where
  live : q.started = true
  handed : q.sorted.length = q.stats.emitted
  count : ins.length = q.stats.emitted + q.stats.duplicates + q.stats.late +
    q.stats.outOfWindow + q.buffer.size
  next_eq : q.next = first + q.stats.emitted + q.stats.lost
  window : ∀ e ∈ q.buffer.entries, q.next ≤ e.1 ∧ e.1 < q.next + cfg.maxGap
  increasing : q.sorted.Pairwise fun a b => a.1 < b.1
  behind : ∀ e ∈ q.sorted, e.1 < q.next
  own : ∀ e ∈ q.sorted, (BitVec.ofInt 16 e.1, e.2) ∈ ins
  own_buffer : ∀ e ∈ q.buffer.entries, (BitVec.ofInt 16 e.1, e.2.packet) ∈ ins

/-- The invariant between calls. -/
structure Inv (cfg : Config) (ins : List (BitVec 16 × α)) (first : ℤ) (q : Queue α) : Prop
    extends Loose cfg ins first q where
  settled : ¬q.Ready
  cache : q.buffer.size ≤ cfg.maxCache

/-! ## Flushing -/

/-- A relation between the queue before and after the parts of a flush. -/
structure Flushing (now : ℤ) (R : Queue α → Queue α → Prop) : Prop where
  refl q : R q q
  trans {q q' q'' : Queue α} : R q q' → R q' q'' → R q q''
  count (q : Queue α) (stats : Stats) (next : ℤ) : stats.resyncs = q.stats.resyncs →
    R q { q with stats := stats, next := next }
  clearResync (q : Queue α) : R q q.clearResync
  emitFirst (q : Queue α) : R q (q.emitFirst now)

section

variable {now : ℤ} {R : Queue α → Queue α → Prop} (h : Flushing now R) (q : Queue α)
include h

theorem Flushing.flushBuffered : R q (q.flushBuffered now) :=
  loop_inv (fun q' _ hq => h.trans hq (h.emitFirst q')) _ (h.refl q)

theorem Flushing.skipGap : R q (q.skipGap now) := by
  refine h.trans ?_ (h.flushBuffered q.skipToFirst)
  rw [skipToFirst]
  cases q.buffer.head? with
  | none => exact h.refl q
  | some e => exact h.count q _ _ rfl

theorem Flushing.expireGap : R q (q.expireGap now) := by
  refine h.trans (h.count q _ q.next ?_) (h.skipGap _)
  rfl

theorem Flushing.endProbation (cfg : Config) : R q (q.endProbation cfg now) := by
  rw [Queue.endProbation]
  split_ifs
  · exact h.clearResync q
  · exact h.refl q

theorem Flushing.flushExpired (cfg : Config) : R q (q.flushExpired cfg now) :=
  loop_inv (fun q' _ hq => h.trans hq (h.expireGap q')) _ (h.endProbation q cfg)

theorem Flushing.flushTimeout : R q (q.flushTimeout now) :=
  loop_inv (fun q' _ hq => h.trans hq (h.skipGap q')) _ (h.clearResync q)

theorem Flushing.makeRoom (cfg : Config) : R q (q.makeRoom cfg now) := by
  rw [Queue.makeRoom]
  split_ifs
  · refine h.trans (h.count q _ q.next ?_) (h.skipGap _)
    rfl
  · exact h.refl q

end

theorem ready_iff : q.Ready ↔ ∃ b, q.buffer.head? = some (q.next, b) := by
  simp only [Ready, map_eq_some_iff, Prod.exists]
  exact ⟨fun ⟨_, b, h, e⟩ => ⟨b, e ▸ h⟩, fun ⟨b, h⟩ => ⟨_, b, h, rfl⟩⟩

/-- An awaited packet in the buffer is its first one, as nothing is behind it. -/
theorem ready_of_mem (hle : ∀ e ∈ q.buffer.entries, q.next ≤ e.1) {e : ℤ × Buffered α}
    (he : e ∈ q.buffer.entries) (heq : q.next = e.1) : q.Ready := by
  obtain ⟨f, hf⟩ : ∃ f, q.buffer.head? = some f := by
    rw [← isSome_iff_exists, isSome_iff_ne_none, ne_eq, head?_eq_none, size, length_eq_zero_iff]
    exact ne_nil_of_mem he
  have hf' := hle f (OrdMap.mem_of_head? hf)
  rw [entries_of_head? hf] at he
  rcases mem_cons.1 he with rfl | he
  · rw [Ready, hf, map_some, heq]
  · have := head?_lt_tail hf he
    omega

section

variable (hq : Loose cfg ins first q) (now : ℤ)
include hq

/-- When the awaited packet is not there, the buffer is strictly ahead. -/
theorem Loose.ahead_of_not_ready (hr : ¬q.Ready) :
    ∀ e ∈ q.buffer.entries, q.next < e.1 := fun e he =>
  lt_of_le_of_ne (hq.window e he).1 fun heq =>
    hr (ready_of_mem (fun e he => (hq.window e he).1) he heq)

theorem Loose.emitFirst (hr : q.Ready) (now : ℤ) : Loose cfg ins first (q.emitFirst now) := by
  obtain ⟨b, hb⟩ := ready_iff.1 hr
  have hmem := OrdMap.mem_of_head? hb
  have hsize := size_tail_of_head? hb
  rw [Queue.emitFirst, hb]
  constructor
  case live => exact hq.live
  case handed => exact (length_append ..).trans (congrArg (· + 1) hq.handed)
  case count => have := hq.count; simp only [emit]; omega
  case next_eq => have := hq.next_eq; simp only [emit]; push_cast; omega
  case window =>
    intro e he
    have hlt := head?_lt_tail hb he
    have := (hq.window e (OrdMap.mem_of_mem_tail he)).2
    simp only [emit] at hlt ⊢
    omega
  case increasing =>
    exact pairwise_concat.2 ⟨hq.increasing, hq.behind⟩
  case behind =>
    intro e he
    simp only [emit, mem_append, mem_singleton] at he ⊢
    rcases he with he | rfl
    · have := hq.behind e he
      omega
    · exact lt_add_one _
  case own =>
    exact forall_mem_concat.2 ⟨hq.own, hq.own_buffer _ hmem⟩
  case own_buffer => exact fun e he => hq.own_buffer e (OrdMap.mem_of_mem_tail he)

omit hq in
theorem size_emitFirst (hr : q.Ready) (now : ℤ) :
    (q.emitFirst now).buffer.size + 1 = q.buffer.size := by
  obtain ⟨b, hb⟩ := ready_iff.1 hr
  rw [Queue.emitFirst, hb, size_tail_of_head? hb]
  rfl

/-- A flush ends with the awaited packet missing, and only takes packets out. -/
theorem Loose.flushBuffered :
    Loose cfg ins first (q.flushBuffered now) ∧ ¬(q.flushBuffered now).Ready ∧
      (q.flushBuffered now).buffer.size ≤ q.buffer.size := by
  obtain ⟨⟨hl, hs⟩, hr⟩ := loop_spec (g := Ready)
    (P := fun q' => Loose cfg ins first q' ∧ q'.buffer.size ≤ q.buffer.size)
    (m := fun q' => q'.buffer.size)
    (fun q' hr ⟨hl, hs⟩ => by
      have := size_emitFirst hr now
      exact ⟨⟨hl.emitFirst hr now, by omega⟩, by omega⟩)
    ⟨hq, le_rfl⟩ (le_refl q.buffer.size)
  exact ⟨hl, hr, hs⟩

/-- A flush with the awaited packet there takes it out. -/
theorem Loose.flushBuffered_lt (hr : q.Ready) (now : ℤ) :
    (q.flushBuffered now).buffer.size < q.buffer.size := by
  have hsize := size_emitFirst hr now
  have hflush := ((hq.emitFirst hr now).flushBuffered now).2.2
  rw [Queue.flushBuffered, ← hsize, loop_succ_of_guard hr]
  rw [Queue.flushBuffered] at hflush
  omega

omit hq in
theorem exists_head_of_waiting (hw : q.Waiting) : ∃ k b, q.buffer.head? = some (k, b) := by
  cases h : q.buffer.head? with
  | none => exact absurd (head?_eq_none.1 h) hw
  | some e => exact ⟨e.1, e.2, rfl⟩

omit hq in
/-- The oldest arrival is the least one of the buffered packets. -/
theorem oldest_spec (hw : q.Waiting) : (∃ e ∈ q.buffer.entries, q.oldest = e.2.arrived) ∧
    ∀ e ∈ q.buffer.entries, q.oldest ≤ e.2.arrived := by
  obtain ⟨k, b, hb⟩ := exists_head_of_waiting hw
  rw [oldest, hb]
  have hfold : ∀ (es : List (ℤ × Buffered α)) (o : ℤ), ∃ r,
      es.foldl (fun o e => if e.2.arrived < o then e.2.arrived else o) o = r ∧
      (r = o ∨ ∃ e ∈ es, r = e.2.arrived) ∧ r ≤ o ∧ ∀ e ∈ es, r ≤ e.2.arrived := by
    intro es
    induction es with
    | nil => exact fun o => ⟨o, rfl, .inl rfl, le_rfl, nofun⟩
    | cons a es ih =>
      intro o
      obtain ⟨r, hr, hmem, hle, hes⟩ := ih (if a.2.arrived < o then a.2.arrived else o)
      refine ⟨r, hr, ?_, ?_, forall_mem_cons.2 ⟨?_, hes⟩⟩
      · rcases hmem with rfl | ⟨e, he, rfl⟩
        · split_ifs
          · exact .inr ⟨a, mem_cons_self, rfl⟩
          · exact .inl rfl
        · exact .inr ⟨e, mem_cons_of_mem _ he, rfl⟩
      · split_ifs at hle <;> omega
      · split_ifs at hle <;> omega
  obtain ⟨r, hr, hmem, -, hle⟩ := hfold q.buffer.entries b.arrived
  simp only [hr]
  refine ⟨?_, hle⟩
  rcases hmem with rfl | h
  · exact ⟨_, OrdMap.mem_of_head? hb, rfl⟩
  · exact h

/-- Skipping a gap takes a packet out of the buffer. -/
theorem Loose.skipGap (hw : q.Waiting) (now : ℤ) :
    Loose cfg ins first (q.skipGap now) ∧ ¬(q.skipGap now).Ready ∧
      (q.skipGap now).buffer.size < q.buffer.size := by
  obtain ⟨k, b, hb⟩ := exists_head_of_waiting hw
  have hk := hq.window _ (OrdMap.mem_of_head? hb)
  have hskip : q.skipToFirst = { q with
      stats := { q.stats with lost := q.stats.lost + (k - q.next).toNat }, next := k } := by
    rw [skipToFirst, hb]
  have hloose : Loose cfg ins first q.skipToFirst := by
    rw [hskip]
    constructor
    case live => exact hq.live
    case handed => exact hq.handed
    case count => exact hq.count
    case next_eq => have := hq.next_eq; simp only at hk ⊢; push_cast; omega
    case window =>
      intro e he
      have := (hq.window e he).2
      rw [entries_of_head? hb] at he
      rcases mem_cons.1 he with rfl | he
      · simp only at hk ⊢; omega
      · have := head?_lt_tail hb he
        simp only at hk this ⊢
        omega
    case increasing => exact hq.increasing
    case behind => exact fun e he => (hq.behind e he).trans_le hk.1
    case own => exact hq.own
    case own_buffer => exact hq.own_buffer
  have hready : q.skipToFirst.Ready := by
    rw [hskip, ready_iff]
    exact ⟨b, hb⟩
  have hlt := hloose.flushBuffered_lt hready now
  obtain ⟨hl, hr, -⟩ := hloose.flushBuffered now
  refine ⟨hl, hr, hlt.trans_eq ?_⟩
  rw [hskip]

/-- The accounts do not depend on the observation of jumps. -/
theorem Loose.clearResync : Loose cfg ins first q.clearResync :=
  { hq with }

theorem Loose.endProbation : Loose cfg ins first (q.endProbation cfg now) := by
  rw [Queue.endProbation]
  split_ifs
  · exact hq.clearResync
  · exact hq

omit hq in
@[simp] theorem endProbation_buffer : (q.endProbation cfg now).buffer = q.buffer := by
  rw [endProbation]; split_ifs <;> rfl

omit hq in
@[simp] theorem endProbation_next : (q.endProbation cfg now).next = q.next := by
  rw [endProbation]; split_ifs <;> rfl

theorem Loose.expireGap (hw : q.Waiting) (now : ℤ) :
    Loose cfg ins first (q.expireGap now) ∧ ¬(q.expireGap now).Ready ∧
      (q.expireGap now).buffer.size < q.buffer.size :=
  Loose.skipGap (q := { q with stats := { q.stats with timeouts := q.stats.timeouts + 1 } })
    { hq with }
    hw now

/-- Flushing what is overdue only takes packets out, the awaited one included. -/
theorem Loose.flushExpired (hr : ¬q.Ready) (now : ℤ) :
    Loose cfg ins first (q.flushExpired cfg now) ∧ ¬(q.flushExpired cfg now).Ready ∧
      (q.flushExpired cfg now).buffer.size ≤ q.buffer.size := by
  refine (loop_spec
    (P := fun q' => Loose cfg ins first q' ∧ ¬q'.Ready ∧ q'.buffer.size ≤ q.buffer.size)
    (m := fun q' => q'.buffer.size) (fun q' ho ⟨hl, _, hs⟩ => ?_)
    ⟨hq.endProbation now, ?_, ?_⟩ (le_of_eq ?_)).1
  · obtain ⟨hl', hr', hlt⟩ := hl.expireGap ho.1 now
    exact ⟨⟨hl', hr', by omega⟩, hlt⟩
  · rwa [Ready, endProbation_buffer, endProbation_next]
  · rw [endProbation_buffer]
  · rw [endProbation_buffer]

theorem Loose.flushTimeout (hr : ¬q.Ready) (now : ℤ) :
    Loose cfg ins first (q.flushTimeout now) ∧ ¬(q.flushTimeout now).Ready ∧
      (q.flushTimeout now).buffer.size ≤ q.buffer.size := by
  refine (loop_spec
    (P := fun q' => Loose cfg ins first q' ∧ ¬q'.Ready ∧ q'.buffer.size ≤ q.buffer.size)
    (m := fun q' => q'.buffer.size) (fun q' hw ⟨hl, _, hs⟩ => ?_)
    ⟨hq.clearResync, hr, le_rfl⟩ le_rfl).1
  obtain ⟨hl', hr', hlt⟩ := hl.skipGap hw now
  exact ⟨⟨hl', hr', by omega⟩, hlt⟩

end

/-! ## Input -/

/-- Handing over a new packet, ahead of what is left behind and before what is
    buffered, and counting the numbers it jumps over as lost. -/
theorem Loose.emit (hq : Loose cfg ins first q) (seq : BitVec 16) (packet : α) (now : ℤ)
    (stats : Stats) (hstats : stats = { q.stats with
      lost := q.stats.lost + ahead q.next seq, resyncs := stats.resyncs })
    (hb : ∀ e ∈ q.buffer.entries, q.next + ahead q.next seq < e.1) :
    Loose cfg (ins ++ [(seq, packet)]) first
      (Queue.emit (q.next + ahead q.next seq) packet now { q with stats := stats }) := by
  rw [hstats]
  constructor
  case live => exact hq.live
  case handed => exact (length_append ..).trans (congrArg (· + 1) hq.handed)
  case count => have := hq.count; simp only [Queue.emit, length_append]; simp; omega
  case next_eq => have := hq.next_eq; simp only [Queue.emit]; push_cast; omega
  case window =>
    intro e he
    have := (hq.window e he).2
    have := hb e he
    simp only [Queue.emit]
    omega
  case increasing =>
    refine pairwise_concat.2 ⟨hq.increasing, fun a ha => ?_⟩
    have := hq.behind a ha
    omega
  case behind =>
    intro e he
    simp only [Queue.emit, mem_append, mem_singleton] at he ⊢
    rcases he with he | rfl
    · have := hq.behind e he
      omega
    · exact lt_add_one _
  case own =>
    refine forall_mem_concat.2 ⟨fun e he => mem_append_left _ (hq.own e he), ?_⟩
    rw [ofInt_add_ahead]
    exact mem_concat_self
  case own_buffer => exact fun e he => mem_append_left _ (hq.own_buffer e he)

section

variable (hq : Inv cfg ins first q) {seq : BitVec 16} {q' : Queue α}
include hq

/-- Dropping an input, counted by the statistics `stats`. -/
theorem Inv.drop (seq : BitVec 16) (packet : α)
    (hdrop : q'.stats.emitted = q.stats.emitted ∧ q'.stats.lost = q.stats.lost ∧
      q'.stats.duplicates + q'.stats.late + q'.stats.outOfWindow =
        q.stats.duplicates + q.stats.late + q.stats.outOfWindow + 1)
    (hsame : q'.next = q.next ∧ q'.buffer = q.buffer ∧ q'.sorted = q.sorted ∧
      q'.started = q.started) : Inv cfg (ins ++ [(seq, packet)]) first q' := by
  obtain ⟨he, hl, hd⟩ := hdrop
  obtain ⟨hn, hb, hs, hs'⟩ := hsame
  refine ⟨⟨hs'.trans hq.live, ?_, ?_, ?_, ?_, ?_, ?_, ?_, ?_⟩, ?_, ?_⟩
  · rw [hs, he, hq.handed]
  · have := hq.count
    rw [length_append, length_singleton, he, hb]
    omega
  · rw [hn, he, hl, hq.next_eq]
  · rw [hb, hn]; exact hq.window
  · rw [hs]; exact hq.increasing
  · rw [hs, hn]; exact hq.behind
  · rw [hs]; exact fun e he => mem_append_left _ (hq.own e he)
  · rw [hb]; exact fun e he => mem_append_left _ (hq.own_buffer e he)
  · rw [Ready, hb, hn]; exact hq.settled
  · rw [hb]; exact hq.cache

omit hq in
/-- Observing a packet out of the window only changes the observation, and a run
    is only completed with nothing buffered. -/
theorem confirmForwardResync_frame (cfg : Config) (seq : BitVec 16) (now : ℤ) (q : Queue α) :
    ∃ count started last attempts, q.confirmForwardResync cfg seq now =
        ((q.confirmForwardResync cfg seq now).1,
          { q with
            resyncCount := count
            resyncStarted := started
            resyncLast := last
            stats := { q.stats with resyncAttempts := attempts } }) ∧
      ((q.confirmForwardResync cfg seq now).1 = true → q.buffer.size = 0) := by
  by_cases hst : q.Stalled cfg now
  · rw [confirmForwardResync, if_neg (not_not_intro hst), observe]
    split_ifs
    all_goals exact ⟨_, _, _, _, rfl, fun _ => hst.2.1⟩
  · rw [confirmForwardResync, if_pos hst]
    exact ⟨_, _, _, _, rfl, nofun⟩

theorem Inv.inputBeyond (seq : BitVec 16) (packet : α) (now : ℤ) :
    Inv cfg (ins ++ [(seq, packet)]) first (q.inputBeyond cfg seq packet now) := by
  obtain ⟨count, started, last, attempts, heq, hempty⟩ :=
    confirmForwardResync_frame cfg seq now q
  rw [Queue.inputBeyond, heq]
  cases hc : (q.confirmForwardResync cfg seq now).1 with
  | true =>
    have hnil : q.buffer.entries = [] := length_eq_zero_iff.1 (hempty hc)
    refine ⟨?_, ?_, ?_⟩
    · exact Loose.emit (q := { q with
          resyncCount := count
          resyncStarted := started
          resyncLast := last
          stats := { q.stats with resyncAttempts := attempts } })
        { hq with }
        seq packet now _ rfl fun e he => absurd (hnil ▸ he) not_mem_nil
    · simp [Ready, Queue.emit, OrdMap.head?, hnil]
    · exact hq.cache
  | false =>
    refine hq.drop seq packet ⟨rfl, rfl, ?_⟩ ⟨rfl, rfl, rfl, rfl⟩
    simp only [countOutOfWindow]
    omega

omit hq in
theorem Loose.makeRoom (hq : Loose cfg ins first q) (hr : ¬q.Ready)
    (hs : q.buffer.size ≤ cfg.maxCache + 1) (now : ℤ) : Inv cfg ins first (q.makeRoom cfg now) := by
  rw [Queue.makeRoom]
  split_ifs with hfull
  · obtain ⟨hl, hr', hlt⟩ := Loose.skipGap
      (q := { q with stats := { q.stats with overflows := q.stats.overflows + 1 } })
      { hq with }
      (by rw [Waiting]; simp only; omega) now
    exact ⟨hl, hr', Nat.lt_succ_iff.1 (hlt.trans_le hs)⟩
  · exact ⟨hq, hr, not_lt.1 hfull⟩

theorem Inv.flushExpired (now : ℤ) : Inv cfg ins first (q.flushExpired cfg now) := by
  obtain ⟨hl, hr, hle⟩ := hq.toLoose.flushExpired hq.settled now
  exact ⟨hl, hr, hle.trans hq.cache⟩

/-- With a packet ahead added to the buffer, only the bound on its size may be
    broken. -/
theorem Inv.emplace (packet : α) (now : ℤ) (hpos : 0 < ahead q.next seq)
    (hgap : ahead q.next seq < cfg.maxGap) (hkey : q.next + ahead q.next seq ∉ q.buffer.keys)
    (hq' : q' = { q with buffer := q.buffer.emplace (q.next + ahead q.next seq) ⟨packet, now⟩ }) :
    Loose cfg (ins ++ [(seq, packet)]) first q' ∧ ¬q'.Ready ∧
      q'.buffer.size ≤ cfg.maxCache + 1 := by
  subst hq'
  have hsize := size_emplace (⟨packet, now⟩ : Buffered α) hkey
  have hmem {e} := (mem_emplace (v := (⟨packet, now⟩ : Buffered α)) hkey (e := e)).1
  have hcache := hq.cache
  refine ⟨⟨hq.live, hq.handed, ?_, hq.next_eq, ?_, hq.increasing, hq.behind, ?_, ?_⟩, ?_, ?_⟩
  · have := hq.count
    rw [length_append, length_singleton, hsize]
    simp only
    omega
  · intro e he
    rcases hmem he with rfl | he
    · simp only; omega
    · exact hq.window e he
  · exact fun e he => mem_append_left _ (hq.own e he)
  · intro e he
    rcases hmem he with rfl | he
    · rw [ofInt_add_ahead]
      exact mem_concat_self
    · exact mem_append_left _ (hq.own_buffer e he)
  · rw [ready_iff]
    rintro ⟨b, hb⟩
    rcases hmem (OrdMap.mem_of_head? hb) with h | h
    · have := (Prod.mk.inj h).1
      simp only at this
      omega
    · exact lt_irrefl _ (hq.ahead_of_not_ready hq.settled _ h)
  · simp only
    omega

theorem Inv.inputAhead (packet : α) (now : ℤ) (hpos : 0 < ahead q.next seq)
    (hgap : ahead q.next seq < cfg.maxGap) :
    Inv cfg (ins ++ [(seq, packet)]) first (q.inputAhead cfg seq packet now) := by
  rw [Queue.inputAhead]
  split_ifs with hkey
  · refine hq.drop seq packet ⟨rfl, rfl, ?_⟩ ⟨rfl, rfl, rfl, rfl⟩
    simp only
    omega
  · obtain ⟨hl, hr, hs⟩ := hq.emplace packet now hpos hgap hkey rfl
    exact (hl.makeRoom hr hs now).flushExpired now

theorem Inv.inputNext (seq : BitVec 16) (packet : α) (now : ℤ) :
    Inv cfg (ins ++ [(seq, packet)]) first (q.inputNext cfg seq packet now) := by
  rw [Queue.inputNext]
  split_ifs with hhalf hlate hbeyond hzero
  · refine hq.drop seq packet ⟨rfl, rfl, ?_⟩ ⟨rfl, rfl, rfl, rfl⟩
    simp only [countOutOfWindow, Queue.clearResync]
    omega
  · refine hq.drop seq packet ⟨rfl, rfl, ?_⟩ ⟨rfl, rfl, rfl, rfl⟩
    simp only [countLate]
    omega
  · exact hq.inputBeyond seq packet now
  · have hl := Loose.emit hq.toLoose.clearResync seq packet now q.stats
      (by simp [Queue.clearResync, hzero])
      (by simpa [Queue.clearResync, hzero] using hq.ahead_of_not_ready hq.settled)
    simp only [Queue.clearResync, hzero, Nat.cast_zero, add_zero] at hl
    obtain ⟨hl', hr', hle⟩ := hl.flushBuffered now
    exact ⟨hl', hr', hle.trans hq.cache⟩
  · exact Inv.inputAhead ⟨hq.toLoose.clearResync, hq.settled, hq.cache⟩
      packet now (Nat.pos_of_ne_zero hzero) (not_le.1 hbeyond)

end

/-! ## Runs -/

/-- The first packet starts the numbering at its own number. -/
theorem inv_first (seq : BitVec 16) (packet : α) (now : ℤ) :
    Inv cfg [(seq, packet)] seq.toNat (inputPacket cfg seq packet now ({} : Queue α)) := by
  have hzero : ahead (seq.toNat : ℤ) seq = 0 := by simp [ahead]
  have hl : Loose cfg [] (seq.toNat : ℤ)
      ({ started := true, next := seq.toNat } : Queue α) := by
    constructor <;> simp [empty, size]
  have hl' := hl.emit seq packet now {} (by simp [hzero]) (by simp [empty])
  simp only [hzero, Nat.cast_zero, add_zero, nil_append] at hl'
  refine ⟨hl', ?_, Nat.zero_le _⟩
  simp [Ready, inputPacket, emit, OrdMap.head?]

theorem Inv.inputPacket (hq : Inv cfg ins first q) (seq : BitVec 16) (packet : α) (now : ℤ) :
    Inv cfg (ins ++ [(seq, packet)]) first (q.inputPacket cfg seq packet now) := by
  rw [Queue.inputPacket, if_pos hq.live]
  exact (hq.flushExpired now).inputNext seq packet now

/-- A call keeps the invariant, with its input added to the inputs. -/
theorem Inv.call (hq : Inv cfg ins first q) (c : Call α) :
    Inv cfg (ins ++ c.input) first (q.call cfg c) := by
  cases c with
  | inputPacket seq packet now => exact hq.inputPacket seq packet now
  | flushBuffered now =>
    obtain ⟨hl, hr, hle⟩ := hq.toLoose.flushBuffered now
    simp only [Call.input, append_nil]
    exact ⟨hl, hr, hle.trans hq.cache⟩
  | flushExpired now =>
    simp only [Call.input, append_nil]
    exact hq.flushExpired now
  | flushTimeout now =>
    obtain ⟨hl, hr, hle⟩ := hq.toLoose.flushTimeout hq.settled now
    simp only [Call.input, append_nil]
    exact ⟨hl, hr, hle.trans hq.cache⟩

/-- Nothing happens before the first packet. -/
theorem call_new {c : Call α} (hc : c.input = []) : call cfg ({} : Queue α) c = {} := by
  cases c with
  | inputPacket seq packet now => simp [Call.input] at hc
  | _ => rfl

@[simp] theorem inputs_append (cs cs' : List (Call α)) :
    inputs (cs ++ cs') = inputs cs ++ inputs cs' := flatMap_append

theorem inputs_singleton (c : Call α) : inputs [c] = c.input := by simp [inputs]

/-- Before the first packet the queue is new; from it on, the invariant holds. -/
theorem after_inv (cfg : Config) (cs : List (Call α)) :
    (inputs cs = [] ∧ after cfg cs = {}) ∨
      ∃ seq packet rest, inputs cs = (seq, packet) :: rest ∧
        Inv cfg (inputs cs) seq.toNat (after cfg cs) := by
  refine run_induction (P := fun cs q => (inputs cs = [] ∧ q = {}) ∨
    ∃ seq packet rest, inputs cs = (seq, packet) :: rest ∧ Inv cfg (inputs cs) seq.toNat q)
    (.inl ⟨rfl, rfl⟩) (fun cs c ih => ?_) cs
  rw [inputs_append, inputs_singleton]
  rcases ih with ⟨hin, hq⟩ | ⟨seq, packet, rest, hin, hq⟩
  · rw [hq, hin, nil_append]
    cases c with
    | inputPacket seq packet now => exact .inr ⟨seq, packet, [], rfl, inv_first seq packet now⟩
    | flushBuffered now | flushExpired now | flushTimeout now => exact .inl ⟨rfl, call_new rfl⟩
  · exact .inr ⟨seq, packet, rest ++ c.input, by rw [hin, cons_append], hq.call c⟩

/-- Along every run, the queue hands packets over in the strict order of their
    extended numbers, each with its own number on the wire, and counts them; and from
    the first packet on, every input and every number is accounted for, and the buffer
    stays in its window and below its capacity. -/
theorem after_accounts (cfg : Config) (cs : List (Call α)) :
    (after cfg cs).sorted.Pairwise (fun a b => a.1 < b.1) ∧
    (∀ e ∈ (after cfg cs).sorted, (BitVec.ofInt 16 e.1, e.2) ∈ inputs cs) ∧
    (after cfg cs).sorted.length = (after cfg cs).stats.emitted ∧
    ∀ seq packet rest, inputs cs = (seq, packet) :: rest →
      (inputs cs).length = (after cfg cs).stats.emitted + (after cfg cs).stats.duplicates +
        (after cfg cs).stats.late + (after cfg cs).stats.outOfWindow +
        (after cfg cs).buffer.size ∧
      (after cfg cs).next = seq.toNat + (after cfg cs).stats.emitted + (after cfg cs).stats.lost ∧
      (∀ k ∈ (after cfg cs).buffer.keys,
        (after cfg cs).next < k ∧ k < (after cfg cs).next + cfg.maxGap) ∧
      (after cfg cs).buffer.size ≤ cfg.maxCache := by
  rcases after_inv cfg cs with ⟨hin, hq⟩ | ⟨seq, packet, rest, hin, hq⟩
  · rw [hq, hin]
    exact ⟨List.Pairwise.nil, by simp, rfl, by simp⟩
  · refine ⟨hq.increasing, hq.own, hq.handed, fun seq' packet' rest' hin' => ?_⟩
    obtain ⟨hhead, -⟩ := List.cons.inj (hin.symm.trans hin')
    obtain ⟨rfl, rfl⟩ := Prod.mk.inj hhead
    refine ⟨hq.count, hq.next_eq, fun k hk => ?_, hq.cache⟩
    obtain ⟨b, hb⟩ := mem_keys.1 hk
    exact ⟨hq.ahead_of_not_ready hq.settled _ hb, (hq.window _ hb).2⟩

/-- A packet behind the half cycle and a repeat are counted, and a gap is held. -/
theorem after_accounts_gap :
    let cs : List (Call Unit) := [.inputPacket 100 () 0, .inputPacket 102 () 1000000,
      .inputPacket 102 () 2000000, .inputPacket 100 () 3000000]
    inputs cs = (100, ()) :: inputs cs.tail ∧ (inputs cs).length = 4 ∧
      (after .default cs).next = 101 ∧ (after .default cs).sorted = [(100, ())] ∧
      (after .default cs).next = (100 : BitVec 16).toNat + (after .default cs).stats.emitted +
        (after .default cs).stats.lost :=
  ⟨rfl, rfl, by decide, rfl, ((after_accounts .default _).2.2.2 100 () _ rfl).2.1⟩

end Packetia.Reorder.Queue
