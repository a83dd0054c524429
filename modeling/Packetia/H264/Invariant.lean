import Packetia.H264.PacketBuffer

/-!
# The invariant of the H.264 packet buffer

The parts of the store agree (`Store.Sound`): a packet is in its slot of the ring,
has one entry among the times of arrival, and is counted. Packets are taken out in
many places, but always by `erasePacket`; so a part of the code that only takes
packets out leaves a store that is thinner and sound (`Store.Thinned`).

The cursor splits the store (`Inv`): a packet is beyond the last continuous one or
belongs to the open frame, and the next packet is missing unless the buffer waits for
a recovery. Within `FindFrames` the next packet may be there (`Scanning`); the loop
ends because it is missing, also when it has gone once around the ring.
-/

namespace Packetia.H264

open Store Ring List Option

/-! ## The store -/

theorem mem_seqRange {start stop x : ℤ} : x ∈ seqRange start stop ↔ start ≤ x ∧ x ≤ stop := by
  simp only [seqRange, List.mem_map, mem_range]
  constructor
  · rintro ⟨i, hi, rfl⟩
    omega
  · rintro ⟨h₁, h₂⟩
    exact ⟨(x - start).toNat, by omega, by omega⟩

namespace Store

variable {st st' st'' : Store} {x y : ℤ} {p : BufferedPacket}

theorem mem_numbers : x ∈ st.numbers ↔ ∃ p, st.getPacket x = some p := by
  simp only [numbers, List.mem_map, getPacket]
  constructor
  · rintro ⟨e, he, rfl⟩
    exact ⟨e.2, mem_items.1 he⟩
  · rintro ⟨p, hp⟩
    exact ⟨(x, p), mem_items.2 hp, rfl⟩

/-! ### What is found -/

theorem getPacket_putPacket (h : st.buffer.occupant x = none) (packet : ParsedPacket) (now y : ℤ) :
    (st.putPacket x packet now).getPacket y =
      if y = x then some { packet, arrival := (now, x) } else st.getPacket y :=
  Ring.get?_put h _ y

theorem getPacket_erasePacket (st : Store) (x y : ℤ) :
    (st.erasePacket x).getPacket y = if y = x then none else st.getPacket y := by
  rw [erasePacket]
  cases hx : st.getPacket x with
  | none =>
    split_ifs with hy
    · rw [hy, hx]
    · rfl
  | some p => exact Ring.get?_erase hx y

theorem getPacket_eraseAll (st : Store) (xs : List ℤ) (y : ℤ) :
    (st.eraseAll xs).getPacket y = if y ∈ xs then none else st.getPacket y := by
  induction xs generalizing st with
  | nil => simp [eraseAll]
  | cons x xs ih =>
    have hcons : st.eraseAll (x :: xs) = (st.erasePacket x).eraseAll xs := rfl
    rw [hcons, ih, getPacket_erasePacket]
    by_cases hx : y = x <;> simp [hx]

theorem getPacket_eraseAll_filter (st : Store) (q : ℤ → Prop) [DecidablePred q] (y : ℤ) :
    (st.eraseAll (st.numbers.filter fun x => q x)).getPacket y =
      if q y then none else st.getPacket y := by
  rw [getPacket_eraseAll]
  cases hy : st.getPacket y with
  | none => simp
  | some p =>
    have hmem : y ∈ st.numbers := mem_numbers.2 ⟨p, hy⟩
    simp [hmem]

/-- Both ways to remove a range find the same packets. -/
theorem getPacket_removePackets (st : Store) (start stop y : ℤ) :
    (st.removePackets start stop).getPacket y =
      if start ≤ y ∧ y ≤ stop then none else st.getPacket y := by
  rw [removePackets]
  split_ifs with hlong hy hy
  · rw [getPacket_eraseAll_filter st fun x => x ≥ start ∧ x ≤ stop, if_pos hy]
  · rw [getPacket_eraseAll_filter st fun x => x ≥ start ∧ x ≤ stop, if_neg hy]
  · rw [getPacket_eraseAll, if_pos (mem_seqRange.2 hy)]
  · rw [getPacket_eraseAll, if_neg fun h => hy (mem_seqRange.1 h)]

theorem getPacket_removePacketsBefore (st : Store) (x y : ℤ) :
    (st.removePacketsBefore x).getPacket y = if y < x then none else st.getPacket y :=
  getPacket_eraseAll_filter st (fun y => y < x) y

/-! ### The parts of the store agree -/

/-- A packet is in the ring, in the times of arrival and in the count, or in none. -/
structure Sound (st : Store) : Prop where
  arrivals : st.arrivals.Perm (st.buffer.items.map fun e => e.2.arrival)
  own : ∀ x p, st.getPacket x = some p → p.arrival.2 = x
  count : st.bufferedPacketCount = st.buffer.items.length

theorem sound_empty : Sound {} where
  arrivals := .refl _
  own x p h := by cases h
  count := rfl

theorem Sound.putPacket (hst : st.Sound) (h : st.buffer.occupant x = none)
    (packet : ParsedPacket) (now : ℤ) : (st.putPacket x packet now).Sound where
  arrivals := by
    refine (perm_orderedInsert _ _ _).trans ?_
    have hitems := (items_put h ⟨packet, (now, x)⟩).map fun e => e.2.arrival
    exact (hst.arrivals.cons _).trans hitems.symm
  own y p hp := by
    rw [getPacket_putPacket h] at hp
    split_ifs at hp with hy
    · rw [← some.inj hp, hy]
    · exact hst.own y p hp
  count := by
    rw [Store.putPacket, hst.count, (items_put h _).length_eq, length_cons]

theorem Sound.erasePacket (hst : st.Sound) (x : ℤ) : (st.erasePacket x).Sound := by
  cases hx : st.getPacket x with
  | none => rwa [Store.erasePacket, hx]
  | some p =>
    have hitems := items_erase hx
    constructor
    case arrivals =>
      have h := (hst.arrivals.trans (hitems.map _)).erase p.arrival
      rw [map_cons, erase_cons_head] at h
      rw [Store.erasePacket, hx]
      exact h
    case own =>
      intro y q hq
      rw [getPacket_erasePacket] at hq
      split_ifs at hq
      exact hst.own y q hq
    case count =>
      have hlen := hitems.length_eq
      rw [length_cons] at hlen
      rw [Store.erasePacket, hx]
      simp only [hst.count, hlen, Nat.add_sub_cancel]

/-- Packets up to the number `top` have been taken out of `st`, which leaves `st'`. -/
structure Thinned (top : ℤ) (st st' : Store) : Prop where
  sub : ∀ {x p}, st'.getPacket x = some p → st.getPacket x = some p
  keep : ∀ {x p}, top < x → st.getPacket x = some p → st'.getPacket x = some p
  sound : st.Sound → st'.Sound

theorem Thinned.refl (top : ℤ) (st : Store) : Thinned top st st := ⟨id, fun _ => id, id⟩

variable {top : ℤ}

theorem Thinned.trans (h : Thinned top st st') (h' : Thinned top st' st'') : Thinned top st st'' :=
  ⟨fun hx => h.sub (h'.sub hx), fun ht hx => h'.keep ht (h.keep ht hx),
    fun hst => h'.sound (h.sound hst)⟩

theorem Thinned.none (h : Thinned top st st') (hx : st.getPacket x = none) :
    st'.getPacket x = none := by
  cases hx' : st'.getPacket x with
  | none => rfl
  | some p => rw [h.sub hx'] at hx; cases hx

theorem thinned_erasePacket (st : Store) (hx : x ≤ top) : Thinned top st (st.erasePacket x) where
  sub hy := by
    rw [getPacket_erasePacket] at hy
    split_ifs at hy
    exact hy
  keep ht hy := by rwa [getPacket_erasePacket, if_neg (hx.trans_lt ht).ne']
  sound hst := hst.erasePacket x

theorem thinned_eraseAll (st : Store) {xs : List ℤ} (h : ∀ x ∈ xs, x ≤ top) :
    Thinned top st (st.eraseAll xs) := by
  induction xs generalizing st with
  | nil => exact .refl _ _
  | cons x xs ih =>
    exact (thinned_erasePacket st (h x mem_cons_self)).trans
      (ih _ fun y hy => h y (mem_cons_of_mem _ hy))

theorem thinned_removePackets (st : Store) (start : ℤ) {stop : ℤ} (h : stop ≤ top) :
    Thinned top st (st.removePackets start stop) := by
  rw [removePackets]
  split_ifs
  · refine thinned_eraseAll st fun x hx => ?_
    have hx' := (mem_filter.1 hx).2
    simp only [decide_eq_true_eq] at hx'
    exact hx'.2.trans h
  · exact thinned_eraseAll st fun x hx => (mem_seqRange.1 hx).2.trans h

theorem thinned_removePacketsBefore (st : Store) (x : ℤ) :
    Thinned (x - 1) st (st.removePacketsBefore x) := by
  refine thinned_eraseAll st fun y hy => ?_
  have hy' := (mem_filter.1 hy).2
  simp only [decide_eq_true_eq] at hy'
  exact Int.le_sub_one_of_lt hy'

/-- Every entry of the times of arrival has its packet. -/
theorem Sound.getPacket_of_mem (hst : st.Sound) {entry : ℤ × ℤ} (h : entry ∈ st.arrivals) :
    ∃ p, st.getPacket entry.2 = some p ∧ p.arrival = entry := by
  obtain ⟨⟨x, p⟩, he, rfl⟩ := mem_map.1 (hst.arrivals.mem_iff.1 h)
  have hx := mem_items.1 he
  refine ⟨p, ?_, rfl⟩
  rw [hst.own x p hx]
  exact hx

/-- The times of arrival are those of the buffered numbers. -/
theorem Sound.arrivals_numbers (hst : st.Sound) : (st.arrivals.map Prod.snd).Perm st.numbers := by
  refine (hst.arrivals.map Prod.snd).trans ?_
  rw [List.map_map, numbers]
  refine List.Perm.of_eq (map_congr_left fun e he => ?_)
  exact hst.own e.1 e.2 (mem_items.1 he)

end Store

namespace PacketBuffer

open Store (Sound Thinned)

variable {cfg : Config} {b : PacketBuffer} {seq start now : ℤ} {packet : ParsedPacket}
  {timestamp : BitVec 32} {st : Store} {top : ℤ} {entries : List (ℤ × ℤ)}
  {floor : Option ℤ × Option (BitVec 32)} {p : BufferedPacket}

/-! ## The steps of a round -/

theorem enterFrame_of_none (h : b.currentFrameStart = none) :
    b.enterFrame seq timestamp = { b with
      lastContinuousUnwrappedSeq := some seq, lastContinuousTimestamp := some timestamp,
      currentFrameStart := some seq, currentFrameTimestamp := timestamp } := by
  simp [enterFrame, h]

theorem enterFrame_of_same (h : b.currentFrameStart = some start)
    (ht : b.currentFrameTimestamp = timestamp) :
    b.enterFrame seq timestamp = { b with
      lastContinuousUnwrappedSeq := some seq, lastContinuousTimestamp := some timestamp } := by
  simp [enterFrame, h, ht]

theorem enterFrame_of_ne (h : b.currentFrameStart = some start)
    (ht : b.currentFrameTimestamp ≠ timestamp) :
    b.enterFrame seq timestamp = { b with
      toStore := b.removePackets start (seq - 1), discardingFrame := false,
      lastContinuousUnwrappedSeq := some seq, lastContinuousTimestamp := some timestamp,
      currentFrameStart := some seq, currentFrameTimestamp := timestamp } := by
  simp [enterFrame, dropCurrentFrame, h, ht]

theorem limitFrame_eq (cfg : Config) (b : PacketBuffer) (start seq : ℤ) :
    ∃ st, Thinned seq b.toStore st ∧ (b.limitFrame cfg start seq = b ∨
      b.limitFrame cfg start seq = { b with toStore := st, discardingFrame := true }) := by
  by_cases h : seq - start + 1 > cfg.frameLimit
  · refine ⟨_, ?_, .inr (by rw [limitFrame, if_pos h])⟩
    split_ifs <;> exact thinned_removePackets _ _ le_rfl
  · exact ⟨_, .refl _ _, .inl (by rw [limitFrame, if_neg h])⟩

/-- A frame is assembled from packets that are all there. -/
theorem maybeAssembleFrame_eq_some {st' : Store} {frame : AccessUnit}
    (h : st.maybeAssembleFrame cfg start seq = some (frame, st')) :
    start ≤ seq ∧ seq - start + 1 ≤ cfg.frameLimit ∧ st' = st.removePackets start seq ∧
    ∃ first rest, (seqRange start seq).mapM
        (fun x => (st.getPacket x).map BufferedPacket.packet) = some (first :: rest) ∧
      assemble cfg
        { ssrc := first.ssrc, timestamp := first.timestamp, firstSeq := BitVec.ofInt 16 start,
          lastSeq := BitVec.ofInt 16 seq, marker := true } (first :: rest) = some frame := by
  simp only [Store.maybeAssembleFrame, bind_eq_bind, bind_eq_some_iff, guard_eq_some'] at h
  obtain ⟨_, ⟨hle, hlimit⟩, packets, hpackets, first, hfirst, frame', hframe, h⟩ := h
  obtain ⟨rfl, rfl⟩ := Prod.mk.inj (some.inj h)
  obtain ⟨rest, rfl⟩ := head?_eq_some_iff.1 hfirst
  exact ⟨hle, hlimit, rfl, first, rest, hpackets, hframe⟩

/-- The end of a frame takes its packets out of the store. -/
theorem finishFrame_eq (cfg : Config) (h : b.currentFrameStart = some start) (seq : ℤ) :
    ∃ st, Thinned seq b.toStore st ∧ (∀ x, start ≤ x → x ≤ seq → st.getPacket x = none) ∧
      (b.finishFrame cfg start seq).2 =
        { b with toStore := st, currentFrameStart := none, discardingFrame := false } := by
  -- In every case the frame is dropped, from a store that an assembled frame has left.
  obtain ⟨st, hthin, heq⟩ : ∃ st, Thinned seq b.toStore st ∧
      (b.finishFrame cfg start seq).2 = { b with toStore := st }.dropCurrentFrame seq := by
    rw [finishFrame]
    split_ifs
    · exact ⟨_, .refl _ _, rfl⟩
    · cases hframe : b.maybeAssembleFrame cfg start seq with
      | none => exact ⟨_, .refl _ _, rfl⟩
      | some r =>
        obtain ⟨-, -, hst, -⟩ := maybeAssembleFrame_eq_some hframe
        exact ⟨r.2, hst ▸ thinned_removePackets _ _ le_rfl, rfl⟩
  refine ⟨_, hthin.trans (thinned_removePackets _ start le_rfl), fun x h₁ h₂ => ?_, ?_⟩
  · rw [getPacket_removePackets, if_pos ⟨h₁, h₂⟩]
  · rw [heq]
    simp [dropCurrentFrame, h]

/-! ## A round and the loop -/

/-- The buffer within `FindFrames`, which has come up to the packet `seq`. -/
structure Scanning (b : PacketBuffer) (seq : ℤ) : Prop where
  sound : b.Sound
  placed : ∀ x p, b.getPacket x = some p → seq ≤ x ∨ ∃ start ∈ b.currentFrameStart, start ≤ x
  opened : ∀ start ∈ b.currentFrameStart, start < seq
  idle : b.currentFrameStart = none → b.discardingFrame = false
  last : b.lastContinuousUnwrappedSeq = some (seq - 1)
  active : b.waitingForRecovery = false

/-- The buffer after the packet `seq` has entered the frame from `start` on. -/
structure Entered (b : PacketBuffer) (start seq : ℤ) : Prop where
  sound : b.Sound
  placed : ∀ x p, b.getPacket x = some p → start ≤ x
  opened : start ≤ seq
  last : b.lastContinuousUnwrappedSeq = some seq
  active : b.waitingForRecovery = false
  frame : b.currentFrameStart = some start

theorem Scanning.enterFrame (hb : Scanning b seq) (timestamp : BitVec 32) :
    ∃ start, Entered (b.enterFrame seq timestamp) start seq ∧
      Thinned seq b.toStore (b.enterFrame seq timestamp).toStore := by
  have hplaced := hb.placed
  have hopened := hb.opened
  cases hstart : b.currentFrameStart with
  | none =>
    rw [enterFrame_of_none hstart]
    refine ⟨seq, ⟨hb.sound, fun x p hx => ?_, le_rfl, rfl, hb.active, rfl⟩, .refl _ _⟩
    simpa [hstart] using hplaced x p hx
  | some start =>
    simp only [hstart, mem_some_iff, exists_eq_left', forall_eq'] at hplaced hopened
    by_cases ht : b.currentFrameTimestamp = timestamp
    · rw [enterFrame_of_same hstart ht]
      refine ⟨start, ⟨hb.sound, fun x p hx => ?_, hopened.le, rfl, hb.active, hstart⟩, .refl _ _⟩
      have := hplaced x p hx
      omega
    · rw [enterFrame_of_ne hstart ht]
      have hthin := thinned_removePackets b.toStore start (sub_one_lt seq).le
      refine ⟨seq, ⟨hthin.sound hb.sound, fun x p hx => ?_, le_rfl, rfl, hb.active, rfl⟩, hthin⟩
      have hx' := hplaced x p (hthin.sub hx)
      rw [getPacket_removePackets] at hx
      split_ifs at hx
      omega

theorem Entered.limitFrame (hb : Entered b start seq) (cfg : Config) :
    Entered (b.limitFrame cfg start seq) start seq ∧
      Thinned seq b.toStore (b.limitFrame cfg start seq).toStore := by
  obtain ⟨st, hthin, h | h⟩ := limitFrame_eq cfg b start seq <;> rw [h]
  · exact ⟨hb, .refl _ _⟩
  · exact ⟨⟨hthin.sound hb.sound, fun x p hx => hb.placed x p (hthin.sub hx), hb.opened, hb.last,
      hb.active, hb.frame⟩, hthin⟩

theorem Entered.scanning (hb : Entered b start seq) : Scanning b (seq + 1) where
  sound := hb.sound
  placed x p hx := .inr ⟨start, hb.frame, hb.placed x p hx⟩
  opened s hs := by
    obtain rfl := some.inj (hb.frame.symm.trans hs)
    exact Int.lt_add_one_of_le hb.opened
  idle h := by rw [hb.frame] at h; cases h
  last := by rw [hb.last, add_sub_cancel_right]
  active := hb.active

theorem Entered.finishFrame (hb : Entered b start seq) (cfg : Config) :
    Scanning (b.finishFrame cfg start seq).2 (seq + 1) ∧
      Thinned seq b.toStore (b.finishFrame cfg start seq).2.toStore := by
  obtain ⟨st, hthin, hnone, h⟩ := finishFrame_eq cfg hb.frame seq
  rw [h]
  refine ⟨⟨hthin.sound hb.sound, fun x p hx => .inl ?_, fun s hs => ?_, fun _ => rfl, ?_,
    hb.active⟩, hthin⟩
  · have hstart := hb.placed x p (hthin.sub hx)
    by_contra hle
    have hx' := hnone x hstart (by omega)
    exact absurd (hx.symm.trans hx') (some_ne_none p)
  · cases hs
  · simp [hb.last]

/-- A round leaves the buffer ready for the next packet. -/
theorem Scanning.scanPacket (hb : Scanning b seq) (cfg : Config) (packet : ParsedPacket) :
    Scanning (b.scanPacket cfg seq packet).2 (seq + 1) ∧
      Thinned seq b.toStore (b.scanPacket cfg seq packet).2.toStore := by
  obtain ⟨start, hin, hthin⟩ := hb.enterFrame packet.timestamp
  obtain ⟨hlim, hthin'⟩ := hin.limitFrame cfg
  simp only [PacketBuffer.scanPacket, hin.frame, getD_some]
  split_ifs
  · obtain ⟨hfin, hthin''⟩ := hlim.finishFrame cfg
    exact ⟨hfin, (hthin.trans hthin').trans hthin''⟩
  · exact ⟨hlim.scanning, hthin.trans hthin'⟩

theorem Scan.round_of_some {s : Scan} (h : s.buffer.getPacket s.seq = some p) :
    s.round cfg =
      { buffer := (s.buffer.scanPacket cfg s.seq p.packet).2
        seq := s.seq + 1
        frames := s.frames ++ (s.buffer.scanPacket cfg s.seq p.packet).1 } := by
  rw [Scan.round, h]

variable (cfg)

/-- The scan of `FindFrames` from a packet on. -/
def scanFrom (b : PacketBuffer) (seq : ℤ) : Scan :=
  loop Scan.Ready (Scan.round cfg) kBufferSize { buffer := b, seq }

/-- What every round keeps, the scan keeps; and it ends at a packet that is missing.
    The packet one turn of the ring ahead is missing from the start. -/
theorem scanFrom_spec {P : Scan → Prop}
    (hround : ∀ s p, Scanning s.buffer s.seq → s.buffer.getPacket s.seq = some p → P s →
      P (s.round cfg)) (hb : Scanning b seq) (hturn : b.getPacket (seq + kBufferSize) = none)
    (hP : P { buffer := b, seq }) :
    P (scanFrom cfg b seq) ∧ Scanning (scanFrom cfg b seq).buffer (scanFrom cfg b seq).seq ∧
      (scanFrom cfg b seq).buffer.getPacket (scanFrom cfg b seq).seq = none := by
  obtain ⟨⟨hPs, hs, -, -⟩, hstop⟩ := loop_spec (g := Scan.Ready) (b := Scan.round cfg)
    (P := fun s => P s ∧ Scanning s.buffer s.seq ∧ s.seq ≤ seq + kBufferSize ∧
      s.buffer.getPacket (seq + kBufferSize) = none)
    (m := fun s => (seq + kBufferSize - s.seq).toNat)
    (fun s hready ⟨hPs, hs, hle, hnone⟩ => by
      obtain ⟨p, hp⟩ := isSome_iff_exists.1 hready
      have hlt : s.seq < seq + kBufferSize := lt_of_le_of_ne hle fun h => by
        rw [h, hnone] at hp
        cases hp
      obtain ⟨hscan, hthin⟩ := hs.scanPacket cfg p.packet
      have hPs' := hround s p hs hp hPs
      rw [Scan.round_of_some hp] at hPs' ⊢
      exact ⟨⟨hPs', hscan, Int.add_one_le_iff.2 hlt, hthin.none hnone⟩, by dsimp only; omega⟩)
    (n := kBufferSize) ⟨hP, hb, by dsimp only; omega, hturn⟩
    (by dsimp only; omega)
  refine ⟨hPs, hs, ?_⟩
  rw [← not_isSome_iff_eq_none]
  exact hstop

/-! ## A call -/

/-- The cursor and the store agree. The next packet may be there. -/
structure Loose (b : PacketBuffer) : Prop where
  sound : b.Sound
  placed : ∀ x p, b.getPacket x = some p → ∀ last ∈ b.lastContinuousUnwrappedSeq,
    last < x ∨ ∃ start ∈ b.currentFrameStart, start ≤ x ∧ x ≤ last
  opened : ∀ start ∈ b.currentFrameStart, ∃ last ∈ b.lastContinuousUnwrappedSeq, start ≤ last
  idle : b.currentFrameStart = none → b.discardingFrame = false

/-- The invariant between calls. -/
structure Inv (b : PacketBuffer) : Prop extends Loose b where
  next : b.waitingForRecovery = false →
    ∀ last ∈ b.lastContinuousUnwrappedSeq, b.getPacket (last + 1) = none

theorem inv_init : Inv {} where
  sound := sound_empty
  placed _ _ h := by cases h
  opened _ h := by cases h
  idle _ := rfl
  next _ _ h := by cases h

theorem Scanning.inv (hb : Scanning b seq) (hnone : b.getPacket seq = none) : Inv b where
  sound := hb.sound
  placed x p hx last hlast := by
    obtain rfl := some.inj (hb.last.symm.trans hlast)
    rcases hb.placed x p hx with h | ⟨start, hs, hle⟩
    · exact .inl (by omega)
    · exact (lt_or_ge (seq - 1) x).imp_right fun h => ⟨start, hs, hle, h⟩
  opened start hs := ⟨seq - 1, hb.last, Int.le_sub_one_of_lt (hb.opened start hs)⟩
  idle := hb.idle
  next _ last hlast := by
    obtain rfl := some.inj (hb.last.symm.trans hlast)
    rw [sub_add_cancel, hnone]

/-- The outcomes of `CanAdvanceFrom` for a packet beyond the last continuous one. -/
theorem canAdvanceFrom_cases (packet : ParsedPacket) (h : ¬b.Behind seq) :
    (b.Continues seq ∧ b.canAdvanceFrom cfg seq packet = some b) ∨
    (¬b.Continues seq ∧ BeginningOfStream cfg packet ∧
      (b.lastContinuousUnwrappedSeq.isSome → b.lastContinuousTimestamp ≠ some packet.timestamp) ∧
      b.canAdvanceFrom cfg seq packet = some (b.recoverAt seq)) ∨
    (¬b.Continues seq ∧
      (BeginningOfStream cfg packet → b.lastContinuousUnwrappedSeq.isSome ∧
        b.lastContinuousTimestamp = some packet.timestamp) ∧
      b.canAdvanceFrom cfg seq packet = none) := by
  rw [canAdvanceFrom, if_neg h]
  by_cases hc : b.Continues seq
  · exact .inl ⟨hc, if_pos hc⟩
  · rw [if_neg hc]
    split_ifs with ht hbos
    · exact .inr (.inr ⟨hc, fun _ => ht, rfl⟩)
    · exact .inr (.inl ⟨hc, hbos, fun h₁ h₂ => ht ⟨h₁, h₂⟩, rfl⟩)
    · exact .inr (.inr ⟨hc, fun h => absurd h hbos, rfl⟩)

/-- A packet that continues the sequence starts a scan. -/
theorem Loose.scanning (hb : Loose b) (hc : b.Continues seq) : Scanning b seq := by
  obtain ⟨hw, last, hlast, rfl⟩ := hc
  refine ⟨hb.sound, fun x p hx => ?_, fun start hs => ?_, hb.idle, ?_, by simpa using hw⟩
  · rcases hb.placed x p hx last hlast with h | ⟨start, hs, hle, -⟩
    · exact .inl (Int.add_one_le_iff.2 h)
    · exact .inr ⟨start, hs, hle⟩
  · obtain ⟨last', hlast', hle⟩ := hb.opened start hs
    obtain rfl := some.inj (hlast.symm.trans hlast')
    exact Int.lt_add_one_of_le hle
  · rw [mem_def.1 hlast, add_sub_cancel_right]

/-- A recovery starts a scan. -/
theorem scanning_recoverAt (hb : b.Sound) (seq : ℤ) : Scanning (b.recoverAt seq) seq where
  sound := (thinned_removePacketsBefore _ _).sound hb
  placed x p hx := by
    change (b.removePacketsBefore seq).getPacket x = some p at hx
    rw [getPacket_removePacketsBefore] at hx
    split_ifs at hx with h
    exact .inl (not_lt.1 h)
  opened _ h := by cases h
  idle _ := rfl
  last := rfl
  active := rfl

/-- `FindFrames` does nothing, or scans from the packet on. -/
theorem findFrames_cases (hb : Loose b)
    (hget : b.getPacket seq = some p) (hbehind : ¬b.Behind seq) :
    (¬b.Continues seq ∧
      (BeginningOfStream cfg p.packet → b.lastContinuousUnwrappedSeq.isSome ∧
        b.lastContinuousTimestamp = some p.packet.timestamp) ∧
      b.findFrames cfg seq = ([], b)) ∨
    ∃ b', (b.Continues seq ∧ b' = b ∨
        ¬b.Continues seq ∧ BeginningOfStream cfg p.packet ∧ b' = b.recoverAt seq) ∧
      Scanning b' seq ∧ b'.getPacket (seq + kBufferSize) = none ∧
      b.findFrames cfg seq = ((scanFrom cfg b' seq).frames, (scanFrom cfg b' seq).buffer) := by
  -- The packet itself is in the slot one turn of the ring ahead.
  have hturn : b.getPacket (seq + kBufferSize) = none :=
    Ring.get?_of_index_eq hget (by simp [Ring.index]) (by simp [kBufferSize])
  have hscan {b' : PacketBuffer} (h : b.canAdvanceFrom cfg seq p.packet = some b') :
      b.findFrames cfg seq = ((scanFrom cfg b' seq).frames, (scanFrom cfg b' seq).buffer) := by
    rw [findFrames, hget, bind_some, h]
    rfl
  obtain ⟨hc, hadv⟩ | ⟨hc, hbos, -, hadv⟩ | ⟨hc, hlast, hadv⟩ := canAdvanceFrom_cases cfg
    p.packet hbehind
  · exact .inr ⟨b, .inl ⟨hc, rfl⟩, hb.scanning hc, hturn, hscan hadv⟩
  · refine .inr ⟨_, .inr ⟨hc, hbos, rfl⟩, scanning_recoverAt hb.sound seq, ?_, hscan hadv⟩
    exact (thinned_removePacketsBefore _ _).none hturn
  · exact .inl ⟨hc, hlast, by rw [findFrames, hget, bind_some, hadv]⟩

/-- What `InsertPacket` does with a packet: it leaves it out, or stores it in its
    slot after taking out an older packet that was there. -/
theorem insertAs_cases (b : PacketBuffer) (seq : ℤ) (packet : ParsedPacket) (now : ℤ) :
    ∃ r, b.insertAs cfg seq packet now = r ∧
      (((b.Behind seq ∨ ∃ x p, seq ≤ x ∧ b.getPacket x = some p) ∧
        r.1.inserted = false ∧ r.1.frames = [] ∧ r.2 = b) ∨
      ∃ st, (st = b.toStore ∨ ∃ x, x < seq ∧ st = b.erasePacket x) ∧
        ¬b.Behind seq ∧ st.buffer.occupant seq = none ∧ r.1.inserted = true ∧
        r.1.frames = ({ b with toStore := st }.storePacket cfg seq packet now).1 ∧
        r.2 = ({ b with toStore := st }.storePacket cfg seq packet now).2) := by
  refine ⟨_, rfl, ?_⟩
  by_cases hbehind : b.Behind seq
  · simp [insertAs, hbehind]
  · simp only [insertAs, if_neg hbehind]
    cases hslot : b.buffer.occupant seq with
    | none => exact .inr ⟨_, .inl rfl, hbehind, hslot, rfl, rfl, rfl⟩
    | some e =>
      obtain ⟨x, p⟩ := e
      have hx : b.getPacket x = some p := Ring.get?_of_occupant hslot
      dsimp only
      split_ifs with heq hgt
      · exact .inl ⟨.inr ⟨x, p, heq.ge, hx⟩, rfl, rfl, rfl⟩
      · exact .inl ⟨.inr ⟨x, p, hgt.le, hx⟩, rfl, rfl, rfl⟩
      · refine .inr ⟨_, .inr ⟨x, by omega, rfl⟩, hbehind, ?_, rfl, rfl, rfl⟩
        rw [Store.erasePacket, hx]
        exact (occupant_erase _ _ _).trans (if_pos (index_of_occupant hslot))

theorem Loose.thin (hb : Loose b) (h : Thinned top b.toStore st) :
    Loose { b with toStore := st } where
  sound := h.sound hb.sound
  placed x p hx := hb.placed x p (h.sub hx)
  opened := hb.opened
  idle := hb.idle

theorem Loose.putPacket (hb : Loose b) (hbehind : ¬b.Behind seq)
    (hslot : b.buffer.occupant seq = none) (packet : ParsedPacket) (now : ℤ) :
    Loose { b with toStore := b.putPacket seq packet now } where
  sound := hb.sound.putPacket hslot packet now
  placed x p hx last hlast := by
    rw [getPacket_putPacket hslot] at hx
    split_ifs at hx with heq
    · exact .inl (heq ▸ not_le.1 fun hle => hbehind ⟨last, hlast, hle⟩)
    · exact hb.placed x p hx last hlast
  opened := hb.opened
  idle := hb.idle

/-- A packet that is stored keeps the invariant. -/
theorem Inv.storePacket (hb : Inv b) (hbehind : ¬b.Behind seq)
    (hslot : b.buffer.occupant seq = none) (cfg : Config) (packet : ParsedPacket) (now : ℤ) :
    Inv (b.storePacket cfg seq packet now).2 := by
  have hput := hb.toLoose.putPacket hbehind hslot packet now
  have hget (x : ℤ) := getPacket_putPacket hslot packet now x
  obtain ⟨hc, -, h⟩ | ⟨b', -, hscan, hturn, h⟩ := findFrames_cases cfg hput
    ((hget seq).trans (if_pos rfl)) hbehind
  · rw [PacketBuffer.storePacket, h]
    refine ⟨hput, fun hw last hlast => ?_⟩
    -- The packet is not the next one, or it would continue the sequence.
    have hne : last + 1 ≠ seq := fun heq => hc ⟨by simpa using hw, last, hlast, heq.symm⟩
    exact (hget _).trans ((if_neg hne).trans (hb.next hw last hlast))
  · obtain ⟨-, hs, hnone⟩ := scanFrom_spec cfg (P := fun _ => True)
      (fun _ _ _ _ h => h) hscan hturn trivial
    rw [PacketBuffer.storePacket, h]
    exact hs.inv hnone

theorem Inv.thin (hb : Inv b) (h : Thinned top b.toStore st) : Inv { b with toStore := st } :=
  ⟨hb.toLoose.thin h, fun hw last hlast => h.none (hb.next hw last hlast)⟩

/-- The slot of a packet is made free. -/
theorem thinned_of_slot {st' : Store} (h : st' = st ∨ ∃ x, x < seq ∧ st' = st.erasePacket x) :
    Thinned seq st st' := by
  rcases h with rfl | ⟨x, hx, rfl⟩
  · exact .refl _ _
  · exact thinned_erasePacket _ hx.le

theorem Inv.insertAs (hb : Inv b) (cfg : Config) (seq : ℤ) (packet : ParsedPacket) (now : ℤ) :
    Inv (b.insertAs cfg seq packet now).2 := by
  obtain ⟨_, rfl, ⟨-, -, -, h⟩ | ⟨st, hst, hbehind, hslot, -, -, h⟩⟩ :=
    insertAs_cases cfg b seq packet now
  · rwa [h]
  · rw [h]
    exact (hb.thin (thinned_of_slot hst)).storePacket hbehind hslot cfg packet now

/-- The floor of a flush is not below the one before it, nor below any packet. -/
theorem le_floor {x : ℤ} (b : PacketBuffer)
    (h : (∃ f ∈ floor.1, x ≤ f) ∨ ∃ entry ∈ entries, x ≤ entry.2) :
    ∃ f ∈ (entries.foldl b.raiseFloor floor).1, x ≤ f := by
  induction entries generalizing floor with
  | nil => exact h.resolve_right (by simp)
  | cons entry entries ih =>
    refine ih ?_
    rw [raiseFloor]
    rcases h with ⟨f, hf, hx⟩ | ⟨entry', he, hx⟩
    · refine .inl ?_
      split_ifs with hle
      · exact ⟨entry.2, rfl, hx.trans (hle f hf)⟩
      · exact ⟨f, hf, hx⟩
    · rcases mem_cons.1 he with rfl | he
      · refine .inl ?_
        split_ifs with hle
        · exact ⟨entry'.2, rfl, hx⟩
        · push Not at hle
          obtain ⟨f, hf, hlt⟩ := hle
          exact ⟨f, hf, hx.trans hlt.le⟩
      · exact .inr ⟨entry', he, hx⟩

/-- The floor of a flush is the one before it or the number of a packet. -/
theorem floor_le (b : PacketBuffer) (hfloor : ∀ f ∈ floor.1, f ≤ top)
    (hentries : ∀ entry ∈ entries, entry.2 ≤ top) :
    ∀ f ∈ (entries.foldl b.raiseFloor floor).1, f ≤ top := by
  induction entries generalizing floor with
  | nil => exact hfloor
  | cons entry entries ih =>
    refine ih ?_ fun e he => hentries e (mem_cons_of_mem _ he)
    rw [raiseFloor]
    split_ifs
    · intro f hf
      exact some.inj hf ▸ hentries entry mem_cons_self
    · exact hfloor

theorem Inv.flushExpired (hb : Inv b) (cfg : Config) (now : ℤ) :
    Inv (b.flushExpired cfg now).2 := by
  rw [PacketBuffer.flushExpired]
  split_ifs
  · exact ⟨⟨sound_empty, fun _ _ h => (by cases h), fun _ h => (by cases h), fun _ => rfl⟩,
      fun h => (by cases h)⟩
  · exact hb

theorem Inv.setUnwrapper (hb : Inv b) (u : Unwrapper) : Inv { b with seqUnwrapper := u } :=
  { hb with }

theorem flushExpired_seqUnwrapper (b : PacketBuffer) (now : ℤ) :
    (b.flushExpired cfg now).2.seqUnwrapper = b.seqUnwrapper := by
  rw [PacketBuffer.flushExpired]
  split_ifs <;> rfl

variable {cfg}

theorem insertPacket_of_invalid (h : ¬packet.valid ∨ packet.malformed) :
    b.insertPacket cfg packet now = ({}, b) := by
  rw [insertPacket, if_pos h]

/-- A valid packet is inserted after the packets that wait too long are given up. -/
theorem insertPacket_of_valid (h : ¬(¬packet.valid ∨ packet.malformed)) :
    b.insertPacket cfg packet now =
      let u := b.seqUnwrapper.unwrap packet.seq
      let r := { (b.flushExpired cfg now).2 with seqUnwrapper := u.2 }.insertAs cfg u.1 packet now
      ({ r.1 with expiredPackets := (b.flushExpired cfg now).1 }, r.2) := by
  rw [insertPacket, if_neg h]
  dsimp only
  rw [flushExpired_seqUnwrapper]

theorem Inv.insertPacket (hb : Inv b) (cfg : Config) (packet : ParsedPacket) (now : ℤ) :
    Inv (b.insertPacket cfg packet now).2 := by
  by_cases hvalid : ¬packet.valid ∨ packet.malformed
  · rwa [insertPacket_of_invalid hvalid]
  · rw [insertPacket_of_valid hvalid]
    exact ((hb.flushExpired cfg now).setUnwrapper _).insertAs cfg _ packet now

theorem Inv.step (hb : Inv b) (cfg : Config) (call : Call) : Inv (b.step cfg call) := by
  cases call with
  | insertPacket packet now => exact hb.insertPacket cfg packet now
  | flushExpired now => exact hb.flushExpired cfg now
  | reset => exact inv_init

theorem inv_run (cfg : Config) (calls : List Call) : Inv (run (step cfg) {} calls) :=
  run_induction (P := fun _ b => Inv b) inv_init (fun _ call hb => hb.step cfg call) calls

/-- After any calls, a packet is in its slot of the ring, has exactly one entry among
    the times of arrival, and is counted; it is beyond the last continuous packet or in
    the open frame; and the next packet is missing unless the buffer waits for a
    recovery. So `FlushExpired` finds the packet of every entry. -/
theorem store_of_run (cfg : Config) (calls : List Call) :
    let b := run (step cfg) {} calls
    (∀ e ∈ b.buffer.slots.entries, (e.1 : ℤ) = e.2.1 % 2048) ∧
    ((b.arrivals.map Prod.snd).Perm b.numbers ∧ b.numbers.Nodup ∧
      ∀ x p, b.getPacket x = some p → p.arrival ∈ b.arrivals ∧ p.arrival.2 = x) ∧
    b.bufferedPacketCount = b.buffer.slots.size ∧
    (∀ x p, b.getPacket x = some p → ∀ last ∈ b.lastContinuousUnwrappedSeq,
      last < x ∨ ∃ start ∈ b.currentFrameStart, start ≤ x ∧ x ≤ last) ∧
    (b.waitingForRecovery = false →
      ∀ last ∈ b.lastContinuousUnwrappedSeq, b.getPacket (last + 1) = none) ∧
    ∀ entry ∈ b.arrivals, ∃ p, b.getPacket entry.2 = some p := by
  intro b
  have hb : Inv b := inv_run cfg calls
  refine ⟨fun e he => ?_, ⟨hb.sound.arrivals_numbers, b.buffer.items_nodup, fun x p hx => ?_⟩, ?_,
    hb.placed, hb.next, fun entry he => ?_⟩
  · rw [b.buffer.own_slot e he, Ring.index, Int.toNat_of_nonneg (Int.emod_nonneg _ (by decide))]
    rfl
  · refine ⟨hb.sound.arrivals.mem_iff.2 ?_, hb.sound.own x p hx⟩
    exact mem_map.2 ⟨(x, p), mem_items.2 hx, rfl⟩
  · rw [hb.sound.count, Ring.items, length_map, OrdMap.size]
  · obtain ⟨p, hp, -⟩ := hb.sound.getPacket_of_mem he
    exact ⟨p, hp⟩

end PacketBuffer

end Packetia.H264
