import Packetia.Sender.Track

/-!
# What a call on a track does

The rewriting of a packet never touches its sequence number once it is written:
header extensions are behind the fixed header. So the transport sees the number
that the track has computed, and a call changes the track in one of few ways:

* a source packet is refused, or accepted and lost, or accepted and sent
  (`inputRtpPacket_cases`);
* padding is refused or lost, or sent (`sendPadding_cases`);
* a retransmission only touches the copies, and the list of what was sent
  (`Echoes`).
-/

namespace Packetia.Sender

open List Option Rtp

variable {cfg : Config} {packet packet' data : List Byte} {new : List Byte}

/-! ## The number on the wire -/

theorem kSize_le_baseHeaderSize (packet : List Byte) : kSize ≤ baseHeaderSize packet :=
  Nat.le_add_right _ _

theorem u16At_insertAt {i : ℕ} (hi : i ≤ packet.length) (h : 4 ≤ i) :
    u16At (insertAt packet i new) 2 = u16At packet 2 :=
  u16At_congr (byteAt_insertAt hi (by omega)) (byteAt_insertAt hi (by omega))

theorem u16At_setFirst (b : Byte) : u16At (packet.set 0 b) 2 = u16At packet 2 :=
  u16At_congr (byteAt_set_ne (by decide)) (byteAt_set_ne (by decide))

theorem u16At_overwrite_gt {i : ℕ} (hi : i ≤ packet.length) (h : 4 ≤ i) :
    u16At (overwrite packet i new) 2 = u16At packet 2 :=
  u16At_congr (byteAt_overwrite_lt hi (by omega)) (byteAt_overwrite_lt hi (by omega))

/-- The number stays, and the packet is still long enough for its contributing
    sources. -/
theorem dropExtensions_frame (h : dropExtensions packet = some packet') :
    u16At packet' 2 = u16At packet 2 ∧ baseHeaderSize packet ≤ packet'.length := by
  have hbase : 12 ≤ baseHeaderSize packet := kSize_le_baseHeaderSize packet
  rw [dropExtensions, guard_bind] at h
  split_ifs at h with hlen hx
  · have hle : baseHeaderSize packet ≤ packet.length := not_lt.1 hlen
    simp only [guard_bind, Option.pure_def] at h
    split_ifs at h
    obtain rfl := some.inj h
    refine ⟨?_, ?_⟩
    · rw [u16At_setFirst]
      exact u16At_congr (byteAt_eraseRange hle (by omega)) (byteAt_eraseRange hle (by omega))
    · rw [length_set, eraseRange, length_append, length_take, min_eq_left hle]
      exact Nat.le_add_right _ _
  · obtain rfl := some.inj h
    exact ⟨rfl, not_lt.1 hlen⟩

theorem rewriteHeaderExtensions_number (h : rewriteHeaderExtensions cfg packet = some packet') :
    u16At packet' 2 = u16At packet 2 := by
  have hbase : 12 ≤ baseHeaderSize packet := kSize_le_baseHeaderSize packet
  rw [rewriteHeaderExtensions, bind_eq_bind, bind_eq_some_iff] at h
  obtain ⟨dropped, hdropped, h⟩ := h
  obtain ⟨hnumber, hlen⟩ := dropExtensions_frame hdropped
  simp only [guard_bind, Option.pure_def] at h
  split_ifs at h <;> obtain rfl := some.inj h
  · exact hnumber
  · rw [setExtensionBit, u16At_setFirst, u16At_insertAt hlen (by omega), hnumber]

theorem extensionsFor_number (h : Track.extensionsFor cfg packet = some packet') :
    u16At packet' 2 = u16At packet 2 := by
  rw [Track.extensionsFor] at h
  split_ifs at h
  · exact rewriteHeaderExtensions_number h
  · obtain rfl := some.inj h
    rfl

/-- An element is found in the range that was scanned. -/
theorem scanElements_found {id : Byte} {stop fuel offset o : ℕ}
    (h : scanElements id packet stop fuel offset = .found o) : offset ≤ o ∧ o < stop := by
  induction fuel generalizing offset with
  | zero => cases h
  | succ fuel ih =>
    simp only [scanElements] at h
    split_ifs at h with hlt
    · exact ⟨(Nat.le_add_right _ _).trans (ih h).1, (ih h).2⟩
    · obtain rfl := Scan.found.inj h
      exact ⟨le_rfl, hlt⟩
    · exact ⟨(Nat.le_add_right _ _).trans ((Nat.le_add_right _ _).trans (ih h).1), (ih h).2⟩

theorem writeTransportCcExtension_number {number : BitVec 16}
    (h : writeTransportCcExtension cfg packet number = some packet') :
    u16At packet' 2 = u16At packet 2 := by
  have hbase : 12 ≤ baseHeaderSize packet := kSize_le_baseHeaderSize packet
  simp only [writeTransportCcExtension, guard_bind, Option.pure_def] at h
  split_ifs at h with hid hlen hx hblock hprofile hstop
  · obtain rfl := some.inj h
    rw [setExtensionBit, u16At_setFirst, u16At_insertAt (not_lt.1 hlen) (by omega)]
  · -- The three results of the scan.
    split at h
    · cases h
    · next o hfound =>
      obtain rfl := some.inj h
      have := scanElements_found hfound
      exact u16At_overwrite_gt (by omega) (by omega)
    · obtain rfl := some.inj h
      have hle := not_lt.1 hstop
      rw [u16At_overwrite_gt _ (by omega), u16At_insertAt hle (by omega)]
      rw [insertAt, length_append, length_append, length_take, min_eq_left hle]
      omega

namespace Track

variable {t t' : Track} {h : Header}

/-- The packet of a source packet carries the number the track maps it to. -/
theorem rewriteRtpPacket_number (hlen : 12 ≤ packet.length) :
    u16At (t.rewriteRtpPacket cfg h packet) 2 = t.mapSeq h.seq := by
  have hseq (b : Byte) : (overwrite (packet.set 1 b) 2 (u16Bytes (t.mapSeq h.seq))).length =
      packet.length := by
    rw [length_overwrite (by simp [u16Bytes]; omega), length_set]
  have hstamp (b : Byte) : (overwrite (overwrite (packet.set 1 b) 2 (u16Bytes (t.mapSeq h.seq))) 4
      (u32Bytes (t.mapTimestamp h.timestamp))).length = packet.length := by
    rw [length_overwrite, hseq]
    rw [hseq]
    simp [u32Bytes, u16Bytes]
    omega
  simp only [rewriteRtpPacket]
  rw [u16At_overwrite_gt (by rw [hstamp]; omega) (by omega),
    u16At_overwrite_gt (by rw [hseq]; omega) le_rfl,
    u16At_overwrite _ (by rw [length_set]; omega)]

theorem paddingPacket_number (paddingBytes : ℕ) :
    u16At (t.paddingPacket cfg paddingBytes) 2 = t.nextOutSeq 0 :=
  extractLsb_append _

/-! ## Sending -/

variable (cfg)

/-- Stamping takes at most a number of the transport. -/
theorem prepareTransportCc_cases (packet : List Byte) (t : Track) :
    ∃ n, (t.prepareTransportCc cfg packet).2 = { t with nextTransport := n } ∧
      ∀ out ∈ (t.prepareTransportCc cfg packet).1, u16At out.1 2 = u16At packet 2 := by
  rw [prepareTransportCc]
  split
  · exact ⟨t.nextTransport, rfl, fun out hout => by obtain rfl := some.inj hout; rfl⟩
  split
  · exact ⟨t.nextTransport, rfl, nofun⟩
  cases hplaced : writeTransportCcExtension cfg packet 0 with
  | none => exact ⟨t.nextTransport, rfl, nofun⟩
  | some placed =>
    refine ⟨t.nextTransport + 1, rfl, fun out hout => ?_⟩
    obtain ⟨stamped, hstamped, rfl⟩ := map_eq_some_iff.1 hout
    rw [writeTransportCcExtension_number hstamped, writeTransportCcExtension_number hplaced]

/-- A packet is lost, or the transport takes it with its number. -/
theorem stampAndSend_cases (accepts again : Bool) (content : Content)
    (packet : List Byte) (t : Track) :
    (∃ n, t.stampAndSend cfg accepts again content packet = (none, { t with nextTransport := n })) ∨
    ∃ n out s, s.content = content ∧ s.retransmit = again ∧ s.number = u16At packet 2 ∧
      t.stampAndSend cfg accepts again content packet =
        (some out, { t with nextTransport := n, sent := t.sent ++ [s] }) := by
  obtain ⟨n, hstate, hnumber⟩ := prepareTransportCc_cases cfg packet t
  rcases hprep : t.prepareTransportCc cfg packet with ⟨out, t'⟩
  rw [hprep] at hstate hnumber
  subst hstate
  rw [stampAndSend, hprep]
  cases out with
  | none => exact .inl ⟨n, rfl⟩
  | some out =>
    simp only [sendRtpPacket]
    split_ifs
    · exact .inl ⟨n, rfl⟩
    · exact .inr ⟨n, out.1, ⟨content, again, out.2, out.1⟩, rfl, rfl, hnumber out rfl, rfl⟩

/-- The copies are kept apart from the rest of the track. -/
theorem cacheRtpPacket_frame (env : Env) (outSeq : BitVec 16) (content : Content)
    (packet : List Byte) (t : Track) : ∃ order cache,
    t.cacheRtpPacket cfg env outSeq content packet =
      { t with cacheOrder := order, rtpCache := cache } := by
  rw [cacheRtpPacket]
  split
  · exact ⟨t.cacheOrder, t.rtpCache, rfl⟩
  · refine loop_inv (P := fun t' : Track => ∃ order cache,
      t' = { t with cacheOrder := order, rtpCache := cache }) ?_ _ ⟨_, _, rfl⟩
    rintro _ - ⟨order, cache, rfl⟩
    exact ⟨_, _, rfl⟩

/-! ## Calls -/

theorem length_of_parse (hparse : parseRtpHeader data = some h) : 12 ≤ data.length := by
  rw [parseRtpHeader_eq] at hparse
  split_ifs at hparse with hframed
  exact hframed.1.1

/-- What an input can do. A refused packet changes nothing. An accepted one may
    have set the base and be lost; when the transport takes it, it has the number
    the track maps it to. -/
theorem inputRtpPacket_cases (env : Env) (data : List Byte) (t : Track) :
    t.inputRtpPacket cfg env data = (false, t) ∨
    ∃ h, parseRtpHeader data = some h ∧ ¬t.BelowFloor h ∧ ¬t.ResumesBehind h ∧
      ((∃ n, t.inputRtpPacket cfg env data = (false, { t.accept h with nextTransport := n })) ∨
      ∃ n s order cache packets octets,
        s.content = .media h.seq (t.accept h).rebasePending ∧ s.retransmit = false ∧
        s.number = (t.accept h).mapSeq h.seq ∧
        t.inputRtpPacket cfg env data =
          (true, { (t.accept h).recordOut h (t.sourceTimestamp h) with
            nextTransport := n
            sent := (t.accept h).sent ++ [s]
            cacheOrder := order
            rtpCache := cache
            packetCount := packets
            octetCount := octets })) := by
  cases hparse : parseRtpHeader data with
  | none => exact .inl (by rw [inputRtpPacket, hparse])
  | some h =>
    by_cases hready : ¬env.ready = true
    · exact .inl (by simp only [inputRtpPacket, hparse, if_pos hready])
    by_cases hfloor : t.BelowFloor h
    · exact .inl (by simp only [inputRtpPacket, hparse, if_neg hready, if_pos hfloor])
    by_cases hbehind : t.ResumesBehind h
    · exact .inl (by
        simp only [inputRtpPacket, hparse, if_neg hready, if_neg hfloor, if_pos hbehind])
    refine .inr ⟨h, rfl, hfloor, hbehind, ?_⟩
    simp only [inputRtpPacket, hparse, if_neg hready, if_neg hfloor, if_neg hbehind, forward]
    cases hext : extensionsFor cfg ((t.accept h).rewriteRtpPacket cfg h data) with
    | none => exact .inl ⟨(t.accept h).nextTransport, rfl⟩
    | some packet =>
      have hnumber : u16At packet 2 = (t.accept h).mapSeq h.seq := by
        rw [extensionsFor_number hext, rewriteRtpPacket_number (length_of_parse hparse)]
      rcases stampAndSend_cases cfg env.accepts false (.media h.seq (t.accept h).rebasePending)
        packet (t.accept h) with ⟨n, hlost⟩ | ⟨n, out, s, hcontent, hagain, hs, hsent⟩
      · exact .inl ⟨n, by simp only [hlost]⟩
      · obtain ⟨order, cache, hcache⟩ := cacheRtpPacket_frame cfg env ((t.accept h).mapSeq h.seq)
          (.media h.seq (t.accept h).rebasePending) out
          ({ t.accept h with nextTransport := n, sent := (t.accept h).sent ++ [s] }.recordOut h
            (t.sourceTimestamp h))
        refine .inr ⟨n, s, order, cache, (t.accept h).packetCount + 1,
          (t.accept h).octetCount + (out.length - rtpPayloadOffset out), hcontent, hagain,
          hs.trans hnumber, ?_⟩
        simp only [hsent]
        exact congrArg (fun t' => (true, t'.countMedia out)) hcache

/-- What a call of padding can do. -/
theorem sendPadding_cases (env : Env) (paddingBytes : ℕ) (t : Track) :
    (∃ n, t.sendPadding cfg env paddingBytes = (false, { t with nextTransport := n })) ∨
    ∃ n s, s.content = .padding ∧ s.retransmit = false ∧ s.number = t.nextOutSeq 0 ∧
      t.sendPadding cfg env paddingBytes =
        (true, { t.recordPadding with nextTransport := n, sent := t.sent ++ [s] }) := by
  by_cases hoff : cfg.transportCcExtensionId = 0 ∨ paddingBytes = 0 ∨ paddingBytes > 255
  · exact .inl ⟨t.nextTransport, by rw [sendPadding, if_pos hoff]⟩
  simp only [sendPadding, if_neg hoff]
  cases hext : extensionsFor cfg (t.paddingPacket cfg paddingBytes) with
  | none => exact .inl ⟨t.nextTransport, rfl⟩
  | some packet =>
    have hnumber : u16At packet 2 = t.nextOutSeq 0 := by
      rw [extensionsFor_number hext, paddingPacket_number]
    rcases stampAndSend_cases cfg env.accepts false .padding packet t with
      ⟨n, hlost⟩ | ⟨n, out, s, hcontent, hagain, hs, hsent⟩
    · exact .inl ⟨n, by simp only [hlost]⟩
    · exact .inr ⟨n, s, hcontent, hagain, hs.trans hnumber, by simp only [hsent]; rfl⟩

/-- The sends that are not retransmissions. -/
def primary (t : Track) : List Sent := t.sent.filter fun s => !s.retransmit

/-- The track is the same up to the copies, the transport and retransmissions. -/
structure Echoes (t t' : Track) : Prop where
  same : ∃ n cache sent, t' = { t with nextTransport := n, rtpCache := cache, sent := sent }
  primary : t'.primary = t.primary

theorem Echoes.refl (t : Track) : Echoes t t := ⟨⟨_, _, _, rfl⟩, rfl⟩

theorem Echoes.trans {t'' : Track} (h : Echoes t t') (h' : Echoes t' t'') : Echoes t t'' := by
  obtain ⟨⟨n, cache, sent, rfl⟩, hp⟩ := h
  obtain ⟨⟨n', cache', sent', rfl⟩, hp'⟩ := h'
  exact ⟨⟨_, _, _, rfl⟩, hp'.trans hp⟩

theorem echoes_retransmit (now : ℕ) (accepts : Bool) (seq : BitVec 16) (t : Track) :
    Echoes t (t.retransmit cfg now accepts seq) := by
  rw [retransmit]
  cases t.rtpCache.lookup seq with
  | none => exact .refl t
  | some cached =>
    simp only
    split
    · exact .refl t
    rcases stampAndSend_cases cfg accepts true cached.content cached.packet t with
      ⟨n, hlost⟩ | ⟨n, out, s, -, hagain, -, hsent⟩
    · rw [hlost]
      exact ⟨⟨_, _, _, rfl⟩, rfl⟩
    · rw [hsent]
      exact ⟨⟨_, _, _, rfl⟩, by simp [Track.primary, hagain]⟩

theorem echoes_onRtcpNack (env : Env) (lost : List (BitVec 16 × Bool)) (t : Track) :
    Echoes t (t.onRtcpNack cfg env lost) := by
  rw [onRtcpNack]
  split
  · exact .refl t
  · induction lost generalizing t with
    | nil => exact .refl t
    | cons l lost ih => exact (echoes_retransmit cfg env.now l.2 l.1 t).trans (ih _)

end Track

end Packetia.Sender
