import Packetia.H264.Invariant

/-!
# Extended numbers and the packet buffer

The buffer extends the number of a packet from the latest one it has seen, to the
closest extension (`unwrapNear_ofInt`). The packets it holds and the last continuous one
are not beyond the latest number. In turn, a number it has seen is `Covered` from then
on: the last continuous packet is not before it, or a packet from it on is buffered. So a
buffer that holds nothing has caught up with the latest number (`unwrapper_of_caughtUp`).
-/

namespace Packetia.H264

open Option

/-- Within half a turn of the latest number, extending undoes the cut to 16 bits. -/
theorem unwrapNear_ofInt {latest x : ℤ} (hlo : latest - 32768 < x) (hhi : x < latest + 32768) :
    unwrapNear latest (BitVec.ofInt 16 x) = x := by
  have hword : ((BitVec.ofInt 16 x).toNat : ℤ) = x % 65536 := by
    rw [BitVec.toNat_ofInt, Int.toNat_of_nonneg (Int.emod_nonneg _ (by decide))]
    rfl
  rw [unwrapNear, hword]
  split_ifs <;> omega

namespace PacketBuffer

open Store (Thinned)

variable {cfg : Config} {b : PacketBuffer} {seq x now : ℤ} {packet : ParsedPacket} {latest : ℤ}

/-! ## The unwrapper is left alone -/

theorem enterFrame_seqUnwrapper (b : PacketBuffer) (seq : ℤ) (timestamp : BitVec 32) :
    (b.enterFrame seq timestamp).seqUnwrapper = b.seqUnwrapper := by
  cases hstart : b.currentFrameStart with
  | none => rw [enterFrame_of_none hstart]
  | some start =>
    by_cases ht : b.currentFrameTimestamp = timestamp
    · rw [enterFrame_of_same hstart ht]
    · rw [enterFrame_of_ne hstart ht]

theorem finishFrame_seqUnwrapper (cfg : Config) (b : PacketBuffer) (start seq : ℤ) :
    (b.finishFrame cfg start seq).2.seqUnwrapper = b.seqUnwrapper := by
  rw [finishFrame]
  split_ifs
  · rfl
  · cases b.maybeAssembleFrame cfg start seq <;> rfl

theorem scanPacket_seqUnwrapper (cfg : Config) (b : PacketBuffer) (seq : ℤ)
    (packet : ParsedPacket) : (b.scanPacket cfg seq packet).2.seqUnwrapper = b.seqUnwrapper := by
  have hlimit (b : PacketBuffer) (start : ℤ) :
      (b.limitFrame cfg start seq).seqUnwrapper = b.seqUnwrapper := by
    rw [limitFrame]
    split_ifs <;> rfl
  rw [scanPacket]
  split_ifs
  · rw [finishFrame_seqUnwrapper, hlimit, enterFrame_seqUnwrapper]
  · rw [hlimit, enterFrame_seqUnwrapper]

theorem scanFrom_seqUnwrapper (cfg : Config) (b : PacketBuffer) (seq : ℤ) :
    (scanFrom cfg b seq).buffer.seqUnwrapper = b.seqUnwrapper := by
  refine loop_inv (P := fun s : Scan => s.buffer.seqUnwrapper = b.seqUnwrapper)
    (fun s hs h => ?_) kBufferSize rfl
  obtain ⟨p, hp⟩ := isSome_iff_exists.1 hs
  rw [Scan.round_of_some hp, scanPacket_seqUnwrapper]
  exact h

/-! ## Numbers that are covered -/

/-- The last continuous packet is not before the number `x`, or a packet from `x` on is
    buffered. -/
def Covered (b : PacketBuffer) (x : ℤ) : Prop := b.Behind x ∨ ∃ y p, x ≤ y ∧ b.getPacket y = some p

/-- Nothing is beyond the number `latest`. -/
structure Within (latest : ℤ) (b : PacketBuffer) : Prop where
  last : ∀ last ∈ b.lastContinuousUnwrappedSeq, last ≤ latest
  stored : ∀ x p, b.getPacket x = some p → x ≤ latest

/-- A scan moves the last continuous packet over what it takes out. -/
theorem covered_scanFrom (hscan : Scanning b seq) (hturn : b.getPacket (seq + kBufferSize) = none)
    (hx : x < seq ∨ ∃ y p, x ≤ y ∧ b.getPacket y = some p) :
    (scanFrom cfg b seq).buffer.Covered x := by
  obtain ⟨hcov, hscan', -⟩ := scanFrom_spec cfg
    (P := fun s => x < s.seq ∨ ∃ y p, x ≤ y ∧ s.buffer.getPacket y = some p)
    (fun s p hs hp h => by
      rw [Scan.round_of_some hp]
      obtain ⟨-, hthin⟩ := hs.scanPacket cfg p.packet
      rcases h with h | ⟨y, q, hxy, hy⟩
      · exact .inl (h.trans (lt_add_one _))
      · rcases le_or_gt y s.seq with hle | hgt
        · exact .inl (Int.lt_add_one_of_le (hxy.trans hle))
        · exact .inr ⟨y, q, hxy, hthin.keep hgt hy⟩) hscan hturn hx
  exact hcov.imp_left fun h => ⟨_, hscan'.last, Int.le_sub_one_of_lt h⟩

theorem within_scanFrom (hscan : Scanning b seq) (hturn : b.getPacket (seq + kBufferSize) = none)
    (hseq : seq ≤ latest) (hb : ∀ x p, b.getPacket x = some p → x ≤ latest) :
    Within latest (scanFrom cfg b seq).buffer := by
  obtain ⟨⟨hle, hstored⟩, hscan', -⟩ := scanFrom_spec cfg
    (P := fun s => s.seq - 1 ≤ latest ∧ ∀ x p, s.buffer.getPacket x = some p → x ≤ latest)
    (fun s p hs hp h => by
      rw [Scan.round_of_some hp]
      obtain ⟨-, hthin⟩ := hs.scanPacket cfg p.packet
      refine ⟨?_, fun x q hx => h.2 x q (hthin.sub hx)⟩
      rw [add_sub_cancel_right]
      exact h.2 s.seq p hp) hscan hturn ⟨(sub_one_lt seq).le.trans hseq, hb⟩
  refine ⟨fun last hlast => ?_, hstored⟩
  exact some.inj (hscan'.last.symm.trans hlast) ▸ hle

/-- A stored packet is covered, and so is what was. -/
theorem covered_storePacket (hb : Loose b) (hbehind : ¬b.Behind seq)
    (hslot : b.buffer.occupant seq = none) (packet : ParsedPacket) (now : ℤ)
    (hx : b.Covered x ∨ x ≤ seq) : (b.storePacket cfg seq packet now).2.Covered x := by
  have hget (y : ℤ) := Store.getPacket_putPacket hslot packet now y
  have hself := (hget seq).trans (if_pos rfl)
  have hput : b.Behind x ∨ ∃ y p, x ≤ y ∧ (b.putPacket seq packet now).getPacket y = some p := by
    rcases hx with (h | ⟨y, p, hxy, hy⟩) | h
    · exact .inl h
    · by_cases heq : y = seq
      · exact .inr ⟨seq, _, heq ▸ hxy, hself⟩
      · exact .inr ⟨y, p, hxy, (hget y).trans ((if_neg heq).trans hy)⟩
    · exact .inr ⟨seq, _, h, hself⟩
  obtain ⟨-, -, h⟩ | ⟨b', hb', hscan, hturn, h⟩ :=
    findFrames_cases cfg (hb.putPacket hbehind hslot packet now) hself hbehind
  · rw [storePacket, h]
    exact hput
  · rw [storePacket, h]
    refine covered_scanFrom hscan hturn ?_
    rcases hput with ⟨last, hlast, hle⟩ | ⟨y, p, hxy, hy⟩
    · exact .inl (lt_of_not_ge fun hge => hbehind ⟨last, hlast, hge.trans hle⟩)
    · rcases hb' with ⟨-, rfl⟩ | ⟨-, -, rfl⟩
      · exact .inr ⟨y, p, hxy, hy⟩
      · rcases lt_or_ge y seq with hlt | hge
        · exact .inl (hxy.trans_lt hlt)
        · exact .inr ⟨y, p, hxy,
            (Store.thinned_removePacketsBefore _ _).keep (Int.sub_one_lt_of_le hge) hy⟩

theorem within_storePacket (hb : Loose b) (hw : Within latest b) (hbehind : ¬b.Behind seq)
    (hslot : b.buffer.occupant seq = none) (packet : ParsedPacket) (now : ℤ) (hseq : seq ≤ latest) :
    Within latest (b.storePacket cfg seq packet now).2 := by
  have hget (y : ℤ) := Store.getPacket_putPacket hslot packet now y
  have hstored (y : ℤ) (p : BufferedPacket)
      (hy : (b.putPacket seq packet now).getPacket y = some p) : y ≤ latest := by
    replace hy := (hget y).symm.trans hy
    split_ifs at hy with heq
    · exact heq ▸ hseq
    · exact hw.stored y p hy
  obtain ⟨-, -, h⟩ | ⟨b', hb', hscan, hturn, h⟩ :=
    findFrames_cases cfg (hb.putPacket hbehind hslot packet now)
      ((hget seq).trans (if_pos rfl)) hbehind
  · rw [storePacket, h]
    exact ⟨hw.last, hstored⟩
  · rw [storePacket, h]
    refine within_scanFrom hscan hturn hseq fun y p hy => ?_
    rcases hb' with ⟨-, rfl⟩ | ⟨-, -, rfl⟩
    · exact hstored y p hy
    · exact hstored y p ((Store.thinned_removePacketsBefore _ _).sub hy)

/-! ## Calls -/

theorem insertAs_seqUnwrapper (cfg : Config) (b : PacketBuffer) (seq : ℤ) (packet : ParsedPacket)
    (now : ℤ) : (b.insertAs cfg seq packet now).2.seqUnwrapper = b.seqUnwrapper := by
  have hfind (b : PacketBuffer) : (b.findFrames cfg seq).2.seqUnwrapper = b.seqUnwrapper := by
    rw [findFrames]
    cases hadv : (b.getPacket seq).bind fun stored => b.canAdvanceFrom cfg seq stored.packet with
    | none => rfl
    | some b' =>
      obtain ⟨stored, -, hadv⟩ := bind_eq_some_iff.1 hadv
      refine (scanFrom_seqUnwrapper cfg b' seq).trans ?_
      rw [canAdvanceFrom] at hadv
      split_ifs at hadv <;> rw [← some.inj hadv]
      rfl
  obtain ⟨_, rfl, ⟨-, -, -, h⟩ | ⟨st, -, -, -, -, -, h⟩⟩ := insertAs_cases cfg b seq packet now
  · rw [h]
  · rw [h, storePacket, hfind]

/-- A number that is covered stays so, and the number of the packet is covered. -/
theorem covered_insertAs (hb : Inv b) (hx : b.Covered x ∨ x ≤ seq) :
    (b.insertAs cfg seq packet now).2.Covered x := by
  obtain ⟨_, rfl, ⟨hcov, -, -, h⟩ | ⟨st, hst, hbehind, hslot, -, -, h⟩⟩ :=
    insertAs_cases cfg b seq packet now
  · rw [h]
    refine hx.elim id fun hle => ?_
    rcases hcov with ⟨last, hlast, hle'⟩ | ⟨y, p, hle', hy⟩
    · exact .inl ⟨last, hlast, hle.trans hle'⟩
    · exact .inr ⟨y, p, hle.trans hle', hy⟩
  · have hthin := thinned_of_slot hst
    rw [h]
    refine covered_storePacket (hb.toLoose.thin hthin) hbehind hslot packet now ?_
    rcases hx with (hx | ⟨y, p, hxy, hy⟩) | hx
    · exact .inl (.inl hx)
    · rcases le_or_gt y seq with hle | hgt
      · exact .inr (hxy.trans hle)
      · exact .inl (.inr ⟨y, p, hxy, hthin.keep hgt hy⟩)
    · exact .inr hx

theorem within_insertAs (hb : Inv b) (hw : Within latest b) (hseq : seq ≤ latest) :
    Within latest (b.insertAs cfg seq packet now).2 := by
  obtain ⟨_, rfl, ⟨-, -, -, h⟩ | ⟨st, hst, hbehind, hslot, -, -, h⟩⟩ :=
    insertAs_cases cfg b seq packet now
  · rwa [h]
  · have hthin := thinned_of_slot hst
    rw [h]
    exact within_storePacket (hb.toLoose.thin hthin)
      ⟨hw.last, fun y p hy => hw.stored y p (hthin.sub hy)⟩ hbehind hslot packet now hseq

theorem covered_flushExpired (hb : Inv b) (hx : b.Covered x) :
    (b.flushExpired cfg now).2.Covered x := by
  rw [flushExpired]
  split_ifs
  · refine .inl (le_floor b ?_)
    rcases hx with h | ⟨y, p, hxy, hy⟩
    · exact .inl h
    · have hmem : p.arrival ∈ b.arrivals :=
        hb.sound.arrivals.mem_iff.2 (List.mem_map.2 ⟨(y, p), Ring.mem_items.2 hy, rfl⟩)
      exact .inr ⟨p.arrival, hmem, (hb.sound.own y p hy).symm ▸ hxy⟩
  · exact hx

theorem within_flushExpired (hb : Inv b) (hw : Within latest b) :
    Within latest (b.flushExpired cfg now).2 := by
  rw [flushExpired]
  split_ifs
  · refine ⟨floor_le b hw.last fun entry he => ?_, fun _ _ h => (by cases h)⟩
    obtain ⟨p, hp, -⟩ := hb.sound.getPacket_of_mem he
    exact hw.stored _ p hp
  · exact hw

/-- The latest number bounds the buffer, and is covered by it. -/
def Tracks (b : PacketBuffer) : Prop :=
  if b.seqUnwrapper.initialized then
    Within b.seqUnwrapper.latestUnwrappedSeq b ∧ b.Covered b.seqUnwrapper.latestUnwrappedSeq
  else b.lastContinuousUnwrappedSeq = none ∧ ∀ x, b.getPacket x = none

theorem Tracks.flushExpired (ht : Tracks b) (hb : Inv b) (cfg : Config) (now : ℤ) :
    Tracks (b.flushExpired cfg now).2 := by
  rw [Tracks, flushExpired_seqUnwrapper]
  rw [Tracks] at ht
  split_ifs at ht ⊢
  · exact ⟨within_flushExpired hb ht.1, covered_flushExpired hb ht.2⟩
  · obtain ⟨hlast, hnone⟩ := ht
    have hempty : ¬b.Expired cfg now := by
      rintro ⟨entry, he, -⟩
      obtain ⟨p, hp, -⟩ := hb.sound.getPacket_of_mem (List.mem_of_mem_head? he)
      exact absurd (hp.symm.trans (hnone _)) (some_ne_none p)
    rw [PacketBuffer.flushExpired, if_neg hempty]
    exact ⟨hlast, hnone⟩

/-- The extended number of a packet is at most the latest one, which is its own or was
    covered before. -/
theorem Tracks.unwrap (ht : Tracks b) (s : BitVec 16) :
    ∃ r, b.seqUnwrapper.unwrap s = r ∧ r.2.initialized = true ∧ Within r.2.latestUnwrappedSeq b ∧
      r.1 ≤ r.2.latestUnwrappedSeq ∧
      (b.Covered r.2.latestUnwrappedSeq ∨ r.2.latestUnwrappedSeq ≤ r.1) := by
  refine ⟨_, rfl, ?_⟩
  rw [Tracks] at ht
  rw [Unwrapper.unwrap]
  split_ifs at ht ⊢ with hinit
  · obtain ⟨hw, hcov⟩ := ht
    refine ⟨hinit, ⟨fun l hl => (hw.last l hl).trans (le_max_left _ _),
      fun x p hx => (hw.stored x p hx).trans (le_max_left _ _)⟩, le_max_right _ _, ?_⟩
    rcases le_total (unwrapNear b.seqUnwrapper.latestUnwrappedSeq s)
      b.seqUnwrapper.latestUnwrappedSeq with h | h
    · rw [max_eq_left h]
      exact .inl hcov
    · rw [max_eq_right h]
      exact .inr le_rfl
  · refine ⟨rfl, ⟨fun l hl => ?_, fun x p hx => ?_⟩, le_rfl, .inr le_rfl⟩
    · rw [ht.1] at hl
      cases hl
    · rw [ht.2 x] at hx
      cases hx

theorem Tracks.insertPacket (ht : Tracks b) (hb : Inv b) :
    Tracks (b.insertPacket cfg packet now).2 := by
  by_cases hvalid : ¬packet.valid ∨ packet.malformed
  · rwa [insertPacket_of_invalid hvalid]
  · have hflush := ht.flushExpired hb cfg now
    obtain ⟨_, rfl, hinit, hw, hle, hcov⟩ := hflush.unwrap packet.seq
    rw [flushExpired_seqUnwrapper] at hinit hw hle hcov
    have hinv := (hb.flushExpired cfg now).setUnwrapper (b.seqUnwrapper.unwrap packet.seq).2
    rw [insertPacket_of_valid hvalid, Tracks]
    rw [insertAs_seqUnwrapper, if_pos hinit]
    exact ⟨within_insertAs hinv ⟨hw.last, hw.stored⟩ hle, covered_insertAs hinv hcov⟩

theorem tracks_run (cfg : Config) (calls : List Call) : Tracks (run (step cfg) {} calls) := by
  refine (run_induction (P := fun _ b => Inv b ∧ Tracks b) ⟨inv_init, rfl, fun _ => rfl⟩
    (fun _ call ⟨hb, ht⟩ => ⟨hb.step cfg call, ?_⟩) calls).2
  cases call with
  | insertPacket packet now => exact ht.insertPacket hb
  | flushExpired now => exact ht.flushExpired hb cfg now
  | reset => exact ⟨rfl, fun _ => rfl⟩

/-- A buffer that holds nothing has caught up with the latest number. -/
theorem unwrapper_of_caughtUp {last : ℤ} (ht : Tracks b) (hnone : ∀ x, b.getPacket x = none)
    (hlast : b.lastContinuousUnwrappedSeq = some last) :
    b.seqUnwrapper = { initialized := true, latestUnwrappedSeq := last } := by
  rw [Tracks] at ht
  split_ifs at ht with hinit
  · obtain ⟨hw, hcov⟩ := ht
    have hle := hw.last last hlast
    rcases hcov with ⟨l, hl, hge⟩ | ⟨y, p, -, hy⟩
    · obtain rfl := some.inj (hlast.symm.trans hl)
      have heq := le_antisymm hge hle
      obtain ⟨b, ⟨i, l⟩, _⟩ := b
      simp_all
    · rw [hnone] at hy
      cases hy
  · rw [ht.1] at hlast
    cases hlast

end PacketBuffer

end Packetia.H264
