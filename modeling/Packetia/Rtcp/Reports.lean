import Packetia.Rtcp.Compound

/-!
# The numbers in a transport feedback report

The observer gets transport feedback only as `parseTransportFeedback` reads it
(`parse_of_transportFeedback`). A report lists the numbers from its base on, one for each
announced packet (`sequences_of_parse`); there are fewer than `2 ^ 16`, so no number is
reported twice (`nodup_of_transportFeedback`).
-/

namespace Packetia.Rtcp

open List Option Access Twcc

variable {data : List Byte} {len : ℕ} {report : FeedbackReport} {observer : Bool}
  {off size count : ℕ} {entry : ℕ → Access Event}

theorem sequences_of_readDeltas {base : BitVec 16} {time i : ℕ} {delta : ℤ} {statuses : List Byte}
    {packets : List FeedbackPacket}
    (h : (readDeltas len base time statuses i off delta).value data = some packets) :
    packets.map FeedbackPacket.transportSequence =
      (range' i statuses.length).map fun j => base + BitVec.ofNat 16 j := by
  induction statuses generalizing i off delta packets with
  | nil =>
    obtain rfl := some.inj h
    rfl
  | cons status statuses ih =>
    -- Whatever the status is, one packet with the next number comes before the others.
    have hcons : ∀ {off delta} (packet : FeedbackPacket),
        packet.transportSequence = base + BitVec.ofNat 16 i →
        ((readDeltas len base time statuses (i + 1) off delta).value data).map (packet :: ·) =
          some packets →
        packets.map FeedbackPacket.transportSequence =
          (range' i (statuses.length + 1)).map fun j => base + BitVec.ofNat 16 j := by
      intro off delta packet hpacket hrest
      obtain ⟨rest, hvalue, rfl⟩ := map_eq_some_iff.1 hrest
      rw [map_cons, range'_succ, map_cons, hpacket, ih hvalue]
    rw [readDeltas] at h
    split_ifs at h
    all_goals simp only [value_bind, value_pure] at h
    · exact hcons _ rfl h
    · cases h
    · exact hcons _ rfl h
    · cases h
    · exact hcons _ rfl h
    · cases h

/-- A report has the announced numbers, from the base on. -/
theorem sequences_of_parse {content : List Byte}
    (h : (parseTransportFeedback content.length).value content = some report) :
    report.packets.map FeedbackPacket.transportSequence =
      (range report.packetStatusCount.toNat).map fun j =>
        report.baseSequence + BitVec.ofNat 16 j := by
  rw [parseTransportFeedback] at h
  split_ifs at h
  · cases h
  obtain ⟨K, hvalue, -, -⟩ := value_readStatuses content (u16At content 14).toNat (k := 0)
    (n := content.length) (show content.length ≤ _ by omega) (by simp)
  rw [symbols_zero, take_nil, Nat.mul_zero, Nat.add_zero] at hvalue
  simp only [value_bind, value_u32, value_u16, value_byte, hvalue] at h
  split_ifs at h with hfew
  · cases h
  rw [value_bind, value_pure] at h
  obtain ⟨packets, hpackets, rfl⟩ := map_eq_some_iff.1 h
  have hlength : ((symbols content K).take (u16At content 14).toNat).length =
      (u16At content 14).toNat :=
    le_antisymm (length_take_le _ _) (not_lt.1 hfew)
  rw [range_eq_range', ← hlength]
  exact sequences_of_readDeltas hpackets

/-! ## The calls of the observer -/

/-- The events of a loop are those of its entries. -/
theorem mem_entries {event : Event} (h : event ∈ (entries size entry len count off).value data) :
    ∃ off, event = (entry off).value data := by
  induction count generalizing off with
  | zero => cases h
  | succ count ih =>
    rw [entries] at h
    split_ifs at h
    · rw [value_bind, value_bind, value_pure] at h
      rcases mem_cons.1 h with rfl | h
      · exact ⟨off, rfl⟩
      · exact ih h
    · cases h

/-- No entry of a loop is transport feedback. -/
theorem not_mem_entries (hentry : ∀ off, (entry off).value data ≠ .transportFeedback report) :
    .transportFeedback report ∉ (entries size entry len count off).value data := fun h => by
  obtain ⟨off, heq⟩ := mem_entries h
  exact hentry off heq.symm

theorem reportBlock_ne (ssrc : BitVec 32) (off : ℕ) :
    (reportBlock ssrc off).value data ≠ .transportFeedback report := by
  simp only [reportBlock, value_bind, value_pure, ne_eq, reduceCtorEq, not_false_eq_true]

theorem firEntry_ne (senderSsrc mediaSsrc : BitVec 32) (off : ℕ) :
    (firEntry senderSsrc mediaSsrc off).value data ≠ .transportFeedback report := by
  simp only [firEntry, value_bind, value_pure, ne_eq, reduceCtorEq, not_false_eq_true]

theorem byeEntry_ne (off : ℕ) : (byeEntry off).value data ≠ .transportFeedback report := by
  simp only [byeEntry, value_bind, value_pure, ne_eq, reduceCtorEq, not_false_eq_true]

theorem parse_of_handleSingle {fmt pt : Byte}
    (h : .transportFeedback report ∈ (handleSingleRtcpPacket observer len fmt pt).value data) :
    (parseTransportFeedback len).value data = some report := by
  rw [handleSingleRtcpPacket] at h
  split_ifs at h
  · cases h
  · simp only [value_bind, value_pure, mem_cons, reduceCtorEq, false_or] at h
    exact absurd h (not_mem_entries (reportBlock_ne _))
  · cases h
  · rw [value_bind] at h
    exact absurd h (not_mem_entries (reportBlock_ne _))
  · cases h
  · exact absurd h (not_mem_entries byeEntry_ne)
  · simp only [value_bind, value_pure] at h
    split_ifs at h
    · cases mem_singleton.1 h
    · cases h
  · rw [value_bind, value_pure] at h
    obtain ⟨report', hreport, heq⟩ := mem_map.1 h
    cases heq
    exact mem_toList.1 hreport
  · cases h
  · cases mem_singleton.1 h
  · rw [value_bind, value_bind] at h
    exact absurd h (not_mem_entries (firEntry_ne _ _))
  · cases h
  · cases h
  · cases h

section

variable (h : .transportFeedback report ∈ ((onRtcpPacket observer data.length).value data).2)
include h

/-- What is reported to the observer has been read from a packet. -/
theorem parse_of_transportFeedback :
    ∃ content : List Byte, (parseTransportFeedback content.length).value content = some report := by
  cases hok : ((onRtcpPacket observer data.length).value data).1 with
  | false =>
    rw [onRtcpPacket_refused hok] at h
    cases h
  | true =>
    obtain ⟨ps, hps, hacc⟩ := onRtcpPacket_iff.1 hok
    rw [onRtcpPacket_of_packets hps hacc] at h
    obtain ⟨p, -, hp⟩ := mem_flatMap.1 h
    refine ⟨content p, ?_⟩
    rw [eventsOf] at hp
    split_ifs at hp
    · obtain ⟨report', hreport, heq⟩ := mem_map.1 hp
      cases heq
      exact mem_toList.1 hreport
    · cases hp
    · exact parse_of_handleSingle hp

/-- A report does not have a number twice. -/
theorem nodup_of_transportFeedback :
    (report.packets.map FeedbackPacket.transportSequence).Nodup := by
  obtain ⟨content, hparse⟩ := parse_of_transportFeedback h
  rw [sequences_of_parse hparse]
  refine nodup_range.map_on fun i hi j hj heq => ?_
  rw [mem_range] at hi hj
  have hnat := congrArg BitVec.toNat (add_left_cancel heq)
  rwa [BitVec.toNat_ofNat, BitVec.toNat_ofNat, Nat.mod_eq_of_lt (by omega),
    Nat.mod_eq_of_lt (by omega)] at hnat

end

end Packetia.Rtcp
