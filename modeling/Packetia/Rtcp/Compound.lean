import Packetia.Rtcp.Framing

/-!
# Compounds

A compound is a concatenation of packets. Both readers accept compounds only. The
inspection accepts all of them (`inspectRtcpPacket_iff`), the receiver those in which
the transport feedback is well formed (`onRtcpPacket_iff`). The observer is called for
the packets in their order, and each packet is given by its content alone
(`onRtcpPacket_of_packets`). A compound that is refused has no effect
(`onRtcpPacket_refused`).
-/

namespace Packetia.Rtcp

open List Access Twcc

variable {data p rest : List Byte} {ps : List (List Byte)} {observer : Bool} {n offset i : ℕ}

/-! ## The first pass -/

/-- What a transport feedback packet reports. -/
def feedbackOf (p : List Byte) : Option FeedbackReport :=
  (parseTransportFeedback (content p).length).value (content p)

/-- The receiver does not refuse the packet. -/
def Accepted (p : List Byte) : Prop :=
  (headerOf p).IsTransportCc → ∃ n, WellFormedFeedback (content p) n

/-- The packet `p`, found at `offset`, after the first pass. -/
def pendingAt (offset : ℕ) (p : List Byte) : PendingPacket where
  offset
  header := headerOf p
  transportFeedback := if (headerOf p).IsTransportCc then feedbackOf p else none

def pendingFrom : ℕ → List (List Byte) → List PendingPacket
  | _, [] => []
  | offset, p :: ps => pendingAt offset p :: pendingFrom (offset + p.length) ps

theorem value_parse_shift (hp : IsPacket p) (hd : data.drop offset = p ++ rest) :
    ((Header.parse (data.length - offset)).shift offset).value data = some (headerOf p) := by
  rw [value_shift, ← length_drop, hd, parse_of_isPacket hp]

/-- A header is read just if a packet begins with it. -/
theorem parse_shift_cases (data : List Byte) (offset : ℕ) :
    ((Header.parse (data.length - offset)).shift offset).value data = none ∨
    ∃ p rest, data.drop offset = p ++ rest ∧ IsPacket p ∧
      ((Header.parse (data.length - offset)).shift offset).value data = some (headerOf p) := by
  cases hv : ((Header.parse (data.length - offset)).shift offset).value data with
  | none => exact .inl rfl
  | some header =>
    rw [value_shift, ← length_drop] at hv
    obtain ⟨p, rest, hd, hp⟩ := isPacket_of_parse hv
    rw [hd, parse_of_isPacket hp] at hv
    exact .inr ⟨p, rest, hd, hp, hv.symm⟩

theorem packetSize_headerOf (hp : IsPacket p) : (headerOf p).packetSize = p.length :=
  hp.length_eq.symm

/-- The first pass takes a packet unless it is transport feedback that is malformed. -/
theorem validatePacket_of_isPacket (hp : IsPacket p) (hd : data.drop offset = p ++ rest) :
    (Accepted p → (validatePacket data.length offset).value data = some (pendingAt offset p)) ∧
      (¬Accepted p → (validatePacket data.length offset).value data = none) := by
  have hfeedback : ((parseTransportFeedback (headerOf p).contentSize).shift offset).value data =
      feedbackOf p := by
    rw [value_shift, hd]
    exact hp.value_content fun _ _ => below_parseTransportFeedback
  rw [validatePacket, value_bind, value_parse_shift hp hd]
  simp only
  rw [pendingAt]
  split_ifs with hcc
  · rw [value_bind, hfeedback, value_pure]
    have hiff : Accepted p ↔ (feedbackOf p).isSome := by
      rw [Accepted, imp_iff_right hcc, feedbackOf, isSome_parseTransportFeedback]
    rw [hiff]
    cases feedbackOf p <;> simp
  · rw [value_pure]
    exact ⟨fun _ => rfl, fun h => absurd (fun hc => absurd hc hcc) h⟩

/-- What follows a packet. -/
theorem drop_of_packet (hd : data.drop offset = p ++ rest) (hp : IsPacket p) :
    4 ≤ p.length ∧ offset + p.length ≤ data.length ∧ data.drop (offset + p.length) = rest := by
  have hlength := congrArg length hd
  have hfour := hp.four_le_length
  rw [length_drop, length_append] at hlength
  refine ⟨hfour, by omega, ?_⟩
  rw [← drop_drop, hd, drop_left]

/-- The first pass goes through a concatenation of packets. -/
theorem validate_of_packets (hps : ∀ p ∈ ps, IsPacket p ∧ Accepted p)
    (hd : data.drop offset = ps.flatten) (hoff : offset ≤ data.length)
    (hn : data.length ≤ offset + n) :
    (validate data.length n offset).value data = some (pendingFrom offset ps, data.length) := by
  induction ps generalizing n offset with
  | nil =>
    obtain rfl := hoff.antisymm (drop_eq_nil_iff.1 hd)
    cases n with
    | zero => rfl
    | succ n => rw [validate, if_neg (by rw [kHeaderSize]; omega)]; rfl
  | cons p ps ih =>
    obtain ⟨⟨hp, hacc⟩, hps⟩ := forall_mem_cons.1 hps
    rw [flatten_cons] at hd
    obtain ⟨hfour, hle, hrest⟩ := drop_of_packet hd hp
    have hsize : (pendingAt offset p).header.packetSize = p.length := packetSize_headerOf hp
    cases n with
    | zero => omega
    | succ n =>
      rw [validate, if_pos (by rw [kHeaderSize]; omega), value_bind,
        (validatePacket_of_isPacket hp hd).1 hacc]
      rw [value_bind, hsize, ih hps hrest hle (by omega)]
      rfl

theorem packet_of_validatePacket {packet : PendingPacket}
    (h : (validatePacket data.length offset).value data = some packet) :
    ∃ p rest, data.drop offset = p ++ rest ∧ IsPacket p ∧ Accepted p ∧
      packet = pendingAt offset p ∧ packet.header.packetSize = p.length := by
  obtain ⟨p, rest, hd, hp⟩ : ∃ p rest, data.drop offset = p ++ rest ∧ IsPacket p := by
    rcases parse_shift_cases data offset with hv | ⟨p, rest, hd, hp, -⟩
    · rw [validatePacket, value_bind, hv] at h
      cases h
    · exact ⟨p, rest, hd, hp⟩
  obtain ⟨htake, hrefuse⟩ := validatePacket_of_isPacket hp hd
  have hacc : Accepted p := by
    by_contra hacc
    rw [hrefuse hacc] at h
    cases h
  obtain rfl : pendingAt offset p = packet := Option.some.inj ((htake hacc).symm.trans h)
  exact ⟨p, rest, hd, hp, hacc, rfl, hp.length_eq.symm⟩

/-- The first pass goes through nothing else. -/
theorem packets_of_validate {packets : List PendingPacket} (hoff : offset ≤ data.length)
    (hn : data.length ≤ offset + n)
    (h : (validate data.length n offset).value data = some (packets, data.length)) :
    ∃ ps, data.drop offset = ps.flatten ∧ (∀ p ∈ ps, IsPacket p ∧ Accepted p) ∧
      packets = pendingFrom offset ps := by
  induction n generalizing offset packets with
  | zero =>
    obtain rfl : offset = data.length := by omega
    obtain ⟨rfl, _⟩ := Prod.mk.inj (Option.some.inj h)
    exact ⟨[], by simp, by simp, rfl⟩
  | succ n ih =>
    rw [validate] at h
    split_ifs at h with hlen
    · rw [value_bind] at h
      cases hv : (validatePacket data.length offset).value data with
      | none => rw [hv] at h; cases h
      | some packet =>
        rw [hv] at h
        obtain ⟨p, rest, hd, hp, hacc, rfl, hsize⟩ := packet_of_validatePacket hv
        obtain ⟨hfour, hle, hrest⟩ := drop_of_packet hd hp
        simp only [value_bind, value_pure, hsize, Option.map_eq_some_iff, Prod.mk.injEq,
          Prod.exists] at h
        obtain ⟨packets', stop, hnext, rfl, rfl⟩ := h
        obtain ⟨ps, hflat, hall, rfl⟩ := ih hle (by omega) hnext
        refine ⟨p :: ps, by rw [hd, flatten_cons, ← hflat, hrest], ?_, rfl⟩
        exact forall_mem_cons.2 ⟨⟨hp, hacc⟩, hall⟩
    · obtain ⟨rfl, rfl⟩ := Prod.mk.inj (Option.some.inj h)
      exact ⟨[], by simp, by simp, rfl⟩

/-! ## The second pass -/

/-- The calls of the observer for a packet. -/
def eventsOf (observer : Bool) (p : List Byte) : List Event :=
  if (headerOf p).IsTransportCc then
    if observer then (feedbackOf p).toList.map .transportFeedback else []
  else (handleSingleRtcpPacket observer (content p).length (headerOf p).countOrFmt
    (headerOf p).packetType).value (content p)

theorem value_publishPacket (hp : IsPacket p) (hacc : Accepted p)
    (hd : data.drop offset = p ++ rest) :
    (publishPacket observer (pendingAt offset p)).value data = eventsOf observer p := by
  rw [publishPacket, pendingAt, eventsOf]
  by_cases hcc : (headerOf p).IsTransportCc
  · obtain ⟨report, hreport⟩ := Option.isSome_iff_exists.1
      (isSome_parseTransportFeedback.2 (hacc hcc))
    rw [if_pos hcc, if_pos hcc, feedbackOf, hreport]
    rfl
  · rw [if_neg hcc, if_neg hcc, value_shift, hd]
    exact hp.value_content fun _ _ => below_handleSingleRtcpPacket

theorem value_publish (hps : ∀ p ∈ ps, IsPacket p ∧ Accepted p)
    (hd : data.drop offset = ps.flatten) :
    (publish observer (pendingFrom offset ps)).value data = ps.flatMap (eventsOf observer) := by
  induction ps generalizing offset with
  | nil => rfl
  | cons p ps ih =>
    obtain ⟨⟨hp, hacc⟩, hps⟩ := forall_mem_cons.1 hps
    rw [flatten_cons] at hd
    rw [pendingFrom, publish, value_bind, value_bind, value_pure, value_publishPacket hp hacc hd,
      ih hps (drop_of_packet hd hp).2.2, flatMap_cons]

/-! ## The receiver and the inspection -/

/-- The packets of a compound. -/
structure IsCompound (data : List Byte) (ps : List (List Byte)) : Prop where
  ne_nil : ps ≠ []
  flatten_eq : data = ps.flatten
  isPacket : ∀ p ∈ ps, IsPacket p

theorem IsCompound.four_le_length (h : IsCompound data ps) : 4 ≤ data.length := by
  obtain ⟨p, ps, rfl⟩ := exists_cons_of_ne_nil h.ne_nil
  have hfour := (h.isPacket p mem_cons_self).four_le_length
  rw [h.flatten_eq, flatten_cons, length_append]
  omega

/-- A compound that is not refused: the observer is called for its packets in order. -/
theorem onRtcpPacket_of_packets (h : IsCompound data ps) (hacc : ∀ p ∈ ps, Accepted p) :
    (onRtcpPacket observer data.length).value data = (true, ps.flatMap (eventsOf observer)) := by
  have hdrop : data.drop 0 = ps.flatten := h.flatten_eq
  have hne : (pendingFrom 0 ps).isEmpty = false := by
    obtain ⟨p, ps, rfl⟩ := exists_cons_of_ne_nil h.ne_nil
    rfl
  have hps : ∀ p ∈ ps, IsPacket p ∧ Accepted p := fun p hp => ⟨h.isPacket p hp, hacc p hp⟩
  rw [onRtcpPacket, if_neg (show ¬data.length < kHeaderSize from Nat.not_lt.2 h.four_le_length),
    value_bind, validate_of_packets hps hdrop (Nat.zero_le _) (by omega)]
  simp only [hne, Bool.false_eq_true, ne_eq, not_true_eq_false, or_self, if_false]
  rw [value_bind, value_pure, value_publish hps hdrop]

/-- What is refused has no effect; else both passes go through. -/
theorem onRtcpPacket_cases (observer : Bool) (data : List Byte) :
    (onRtcpPacket observer data.length).value data = (false, []) ∨
    ∃ packets, (validate data.length data.length 0).value data = some (packets, data.length) ∧
      packets.isEmpty = false ∧ (onRtcpPacket observer data.length).value data =
        (true, (publish observer packets).value data) := by
  rw [onRtcpPacket]
  split_ifs with hlen
  · exact .inl rfl
  rw [value_bind]
  cases hv : (validate data.length data.length 0).value data with
  | none => exact .inl rfl
  | some result =>
    obtain ⟨packets, stop⟩ := result
    simp only
    split_ifs with hc
    · exact .inl rfl
    obtain ⟨hne, rfl⟩ : packets.isEmpty = false ∧ stop = data.length := by simpa using hc
    exact .inr ⟨packets, rfl, hne, by rw [value_bind, value_pure]⟩

/-- What is not refused is a compound, with transport feedback that is well formed. -/
theorem onRtcpPacket_iff : ((onRtcpPacket observer data.length).value data).1 = true ↔
    ∃ ps, IsCompound data ps ∧ ∀ p ∈ ps, Accepted p := by
  constructor
  · intro h
    rcases onRtcpPacket_cases observer data with hno | ⟨packets, hv, hne, -⟩
    · rw [hno] at h
      cases h
    obtain ⟨ps, hflat, hall, rfl⟩ := packets_of_validate (Nat.zero_le _) (by omega) hv
    refine ⟨ps, ⟨?_, hflat, fun p hp => (hall p hp).1⟩, fun p hp => (hall p hp).2⟩
    rintro rfl
    cases hne
  · rintro ⟨ps, h, hacc⟩
    rw [onRtcpPacket_of_packets h hacc]

/-- What is refused has no effect. -/
theorem onRtcpPacket_refused (h : ((onRtcpPacket observer data.length).value data).1 = false) :
    ((onRtcpPacket observer data.length).value data).2 = [] := by
  rcases onRtcpPacket_cases observer data with hno | ⟨packets, -, -, hyes⟩
  · rw [hno]
  · rw [hyes] at h
    cases h

theorem inspectPackets_of_packets (parsedAny : Bool) (info : PacketInfo)
    (hps : ∀ p ∈ ps, IsPacket p) (hd : data.drop offset = ps.flatten) (hoff : offset ≤ data.length)
    (hn : data.length ≤ offset + n) :
    ∃ info', (inspectPackets data.length n offset parsedAny info).value data =
      some (parsedAny || !ps.isEmpty, data.length, info') := by
  induction ps generalizing n offset parsedAny info with
  | nil =>
    obtain rfl := hoff.antisymm (drop_eq_nil_iff.1 hd)
    refine ⟨info, ?_⟩
    cases n with
    | zero | succ n => simp [inspectPackets]
  | cons p ps ih =>
    obtain ⟨hp, hps⟩ := forall_mem_cons.1 hps
    rw [flatten_cons] at hd
    obtain ⟨hfour, hle, hrest⟩ := drop_of_packet hd hp
    cases n with
    | zero => omega
    | succ n =>
      rw [inspectPackets, if_pos (by omega), value_bind, value_parse_shift hp hd]
      simp only [value_bind, packetSize_headerOf hp]
      obtain ⟨info', h⟩ := ih _ _ (n := n) hps hrest hle (by omega)
      exact ⟨info', by rw [h]; simp⟩

theorem packets_of_inspectPackets {parsedAny parsed : Bool} {info info' : PacketInfo} {stop : ℕ}
    (hoff : offset ≤ data.length) (hn : data.length ≤ offset + n)
    (h : (inspectPackets data.length n offset parsedAny info).value data =
      some (parsed, stop, info')) :
    ∃ ps : List (List Byte), data.drop offset = ps.flatten ∧ (∀ p ∈ ps, IsPacket p) ∧
      parsed = (parsedAny || !ps.isEmpty) := by
  induction n generalizing offset parsedAny info with
  | zero =>
    obtain rfl : offset = data.length := by omega
    obtain ⟨rfl, _⟩ := Prod.mk.inj (Option.some.inj h)
    exact ⟨[], by simp, by simp, by simp⟩
  | succ n ih =>
    rw [inspectPackets] at h
    split_ifs at h with hlen
    · rw [value_bind] at h
      rcases parse_shift_cases data offset with hv | ⟨p, rest, hd, hp, hv⟩
      · rw [hv] at h
        cases h
      · obtain ⟨hfour, hle, hrest⟩ := drop_of_packet hd hp
        rw [hv] at h
        simp only [value_bind, packetSize_headerOf hp] at h
        obtain ⟨ps, hflat, hall, rfl⟩ := ih hle (by omega) h
        refine ⟨p :: ps, by rw [hd, flatten_cons, ← hflat, hrest], ?_, by simp⟩
        exact forall_mem_cons.2 ⟨hp, hall⟩
    · obtain rfl : offset = data.length := by omega
      obtain ⟨rfl, _⟩ := Prod.mk.inj (Option.some.inj h)
      exact ⟨[], by simp, by simp, by simp⟩

/-- The inspection accepts all compounds. -/
theorem inspectRtcpPacket_iff : ((inspectRtcpPacket data.length).value data).1 = true ↔
    ∃ ps, IsCompound data ps := by
  constructor
  · intro h
    rw [inspectRtcpPacket] at h
    split_ifs at h with hlen
    · cases h
    rw [value_bind] at h
    cases hv : (inspectPackets data.length data.length 0 false {}).value data with
    | none => rw [hv] at h; cases h
    | some result =>
      obtain ⟨parsedAny, stop, info⟩ := result
      rw [hv] at h
      simp only at h
      split_ifs at h with hc
      · cases h
      obtain ⟨ps, hflat, hall, rfl⟩ := packets_of_inspectPackets (Nat.zero_le _) (by omega) hv
      refine ⟨ps, ?_, hflat, hall⟩
      rintro rfl
      exact hc (.inl (by simp))
  · rintro ⟨ps, h⟩
    have hdrop : data.drop 0 = ps.flatten := h.flatten_eq
    obtain ⟨info, hv⟩ := inspectPackets_of_packets false {} h.isPacket hdrop
      (Nat.zero_le _) (show data.length ≤ 0 + data.length by omega)
    have hne : (false || !ps.isEmpty) = true := by
      obtain ⟨p, ps, rfl⟩ := exists_cons_of_ne_nil h.ne_nil
      rfl
    rw [inspectRtcpPacket,
      if_neg (show ¬data.length < kHeaderSize from Nat.not_lt.2 h.four_le_length), value_bind, hv,
      hne]
    simp

/-! ## What is read -/

/-- A packet begins at `offset`: there are packets only before it. -/
structure Begins (data : List Byte) (offset : ℕ) (ps : List (List Byte)) : Prop where
  le_length : offset ≤ data.length
  take_eq : data.take offset = ps.flatten
  isPacket : ∀ p ∈ ps, IsPacket p

/-- The byte at `i` is in the content of a packet. -/
def InContent (data : List Byte) (i : ℕ) : Prop :=
  ∃ offset ps p rest, Begins data offset ps ∧ data.drop offset = p ++ rest ∧ IsPacket p ∧
    offset ≤ i ∧ i < offset + (content p).length

/-- The byte at `i` belongs to the header of a packet, which may be one that is refused. -/
def InHeader (data : List Byte) (i : ℕ) : Prop :=
  ∃ offset ps j, Begins data offset ps ∧ i = offset + j ∧ IsHeaderByte (data.drop offset) j

/-- A byte that may be read. -/
def MayRead (data : List Byte) (i : ℕ) : Prop := InContent data i ∨ InHeader data i

theorem begins_zero : Begins data 0 [] := ⟨Nat.zero_le _, rfl, by simp⟩

section

variable (h : Begins data offset ps)
include h

theorem Begins.next (hp : IsPacket p) (hd : data.drop offset = p ++ rest) :
    Begins data (offset + p.length) (ps ++ [p]) where
  le_length := (drop_of_packet hd hp).2.1
  take_eq := by
    rw [take_add, h.take_eq, hd, take_left, flatten_append, flatten_singleton]
  isPacket := forall_mem_concat.2 ⟨h.isPacket, hp⟩

theorem Begins.mayRead_parse
    (hi : i ∈ ((Header.parse (data.length - offset)).shift offset).reads data) :
    MayRead data i := by
  rw [reads_shift, ← length_drop, mem_map] at hi
  obtain ⟨j, hj, rfl⟩ := hi
  exact .inr ⟨offset, ps, j, h, rfl, reads_parse hj⟩

theorem Begins.mayRead_content {α : Type} {x : Access α} (hp : IsPacket p)
    (hd : data.drop offset = p ++ rest) (hx : Below (headerOf p).contentSize x (data.drop offset))
    (hi : i ∈ (x.shift offset).reads data) : MayRead data i := by
  rw [reads_shift, mem_map] at hi
  obtain ⟨j, hj, rfl⟩ := hi
  refine .inl ⟨offset, ps, p, rest, h, hd, hp, Nat.le_add_right _ _, ?_⟩
  have hlt := hx j hj
  rw [hp.length_content]
  omega

theorem Begins.mayRead_validatePacket (hi : i ∈ (validatePacket data.length offset).reads data) :
    MayRead data i := by
  rw [validatePacket, reads_bind, mem_append] at hi
  rcases hi with hi | hi
  · exact h.mayRead_parse hi
  rcases parse_shift_cases data offset with hv | ⟨p, rest, hd, hp, hv⟩
  · rw [hv] at hi
    cases hi
  · rw [hv] at hi
    simp only at hi
    split_ifs at hi
    · rw [reads_bind, reads_pure, append_nil] at hi
      exact h.mayRead_content hp hd below_parseTransportFeedback hi
    · cases hi

theorem Begins.mayRead_validate (hi : i ∈ (validate data.length n offset).reads data) :
    MayRead data i := by
  induction n generalizing offset ps with
  | zero => cases hi
  | succ n ih =>
    rw [validate] at hi
    split_ifs at hi
    · rw [reads_bind, mem_append] at hi
      rcases hi with hi | hi
      · exact h.mayRead_validatePacket hi
      cases hv : (validatePacket data.length offset).value data with
      | none => rw [hv] at hi; cases hi
      | some packet =>
        obtain ⟨p, rest, hd, hp, -, -, hsize⟩ := packet_of_validatePacket hv
        rw [hv] at hi
        simp only [reads_bind, reads_pure, append_nil, hsize] at hi
        exact ih (h.next hp hd) hi
    · cases hi

theorem Begins.mayRead_publish {qs : List (List Byte)} (hqs : ∀ q ∈ qs, IsPacket q)
    (hd : data.drop offset = qs.flatten)
    (hi : i ∈ (publish observer (pendingFrom offset qs)).reads data) : MayRead data i := by
  induction qs generalizing offset ps with
  | nil => cases hi
  | cons q qs ih =>
    obtain ⟨hq, hqs⟩ := forall_mem_cons.1 hqs
    rw [flatten_cons] at hd
    simp only [pendingFrom, publish, reads_bind, reads_pure, append_nil, mem_append] at hi
    rcases hi with hi | hi
    · rw [publishPacket] at hi
      cases hreport : (pendingAt offset q).transportFeedback with
      | some report => rw [hreport] at hi; cases hi
      | none =>
        rw [hreport] at hi
        exact h.mayRead_content hq hd below_handleSingleRtcpPacket hi
    · exact ih (h.next hq hd) hqs (drop_of_packet hd hq).2.2 hi

theorem Begins.mayRead_inspectPackets {parsedAny : Bool} {info : PacketInfo}
    (hi : i ∈ (inspectPackets data.length n offset parsedAny info).reads data) :
    MayRead data i := by
  induction n generalizing offset ps parsedAny info with
  | zero => cases hi
  | succ n ih =>
    rw [inspectPackets] at hi
    split_ifs at hi
    · rw [reads_bind, mem_append] at hi
      rcases hi with hi | hi
      · exact h.mayRead_parse hi
      rcases parse_shift_cases data offset with hv | ⟨p, rest, hd, hp, hv⟩
      · rw [hv] at hi
        cases hi
      · rw [hv] at hi
        simp only [reads_bind, mem_append, packetSize_headerOf hp] at hi
        rcases hi with hi | hi | hi
        · exact h.mayRead_content hp hd below_inspectSender hi
        · exact h.mayRead_content hp hd below_inspectMedia hi
        · exact ih (h.next hp hd) hi
    · cases hi

end

/-- The receiver reads the contents and the headers only. -/
theorem mayRead_onRtcpPacket (hi : i ∈ (onRtcpPacket observer data.length).reads data) :
    MayRead data i := by
  rw [onRtcpPacket] at hi
  split_ifs at hi
  · cases hi
  rw [reads_bind, mem_append] at hi
  rcases hi with hi | hi
  · exact begins_zero.mayRead_validate hi
  cases hv : (validate data.length data.length 0).value data with
  | none => rw [hv] at hi; cases hi
  | some result =>
    obtain ⟨packets, stop⟩ := result
    rw [hv] at hi
    simp only at hi
    split_ifs at hi with hc
    · cases hi
    obtain ⟨-, rfl⟩ : packets.isEmpty = false ∧ stop = data.length := by simpa using hc
    obtain ⟨ps, hflat, hall, rfl⟩ := packets_of_validate (Nat.zero_le _) (by omega) hv
    rw [reads_bind, reads_pure, append_nil] at hi
    exact begins_zero.mayRead_publish (fun p hp => (hall p hp).1) hflat hi

/-- So does the inspection. -/
theorem mayRead_inspectRtcpPacket (hi : i ∈ (inspectRtcpPacket data.length).reads data) :
    MayRead data i := by
  rw [inspectRtcpPacket] at hi
  split_ifs at hi
  · cases hi
  rw [reads_bind, mem_append] at hi
  rcases hi with hi | hi
  · exact begins_zero.mayRead_inspectPackets hi
  cases hv : (inspectPackets data.length data.length 0 false {}).value data with
  | none => rw [hv] at hi; cases hi
  | some result =>
    obtain ⟨parsedAny, stop, info⟩ := result
    rw [hv] at hi
    simp only at hi
    split_ifs at hi <;> cases hi

/-- Validation of what the peer sends. A string that is refused makes no call of the
    observer. One that is accepted is a concatenation of packets, and the inspection
    accepts it as well. What only the inspection accepts has transport feedback that is
    malformed. Every byte read is in the content of a packet or in the header of one: its
    four bytes, or the length of the padding. -/
theorem onRtcpPacket_validates (observer : Bool) (data : List Byte) :
    (((onRtcpPacket observer data.length).value data).1 = false →
      ((onRtcpPacket observer data.length).value data).2 = []) ∧
    (((onRtcpPacket observer data.length).value data).1 = true →
      (∃ ps, IsCompound data ps) ∧ ((inspectRtcpPacket data.length).value data).1 = true) ∧
    (((inspectRtcpPacket data.length).value data).1 = true →
      ((onRtcpPacket observer data.length).value data).1 = true ∨
      ∃ ps, IsCompound data ps ∧ ∃ p ∈ ps, (headerOf p).IsTransportCc ∧
        ¬∃ n, WellFormedFeedback (content p) n) ∧
    (∀ i ∈ (onRtcpPacket observer data.length).reads data, InContent data i ∨ InHeader data i) ∧
    (∀ i ∈ (inspectRtcpPacket data.length).reads data, InContent data i ∨ InHeader data i) := by
  refine ⟨onRtcpPacket_refused, ?_, ?_, fun i hi => mayRead_onRtcpPacket hi,
    fun i hi => mayRead_inspectRtcpPacket hi⟩
  · intro h
    obtain ⟨ps, hps, -⟩ := onRtcpPacket_iff.1 h
    exact ⟨⟨ps, hps⟩, inspectRtcpPacket_iff.2 ⟨ps, hps⟩⟩
  · intro h
    obtain ⟨ps, hps⟩ := inspectRtcpPacket_iff.1 h
    by_cases hacc : ∀ p ∈ ps, Accepted p
    · exact .inl (onRtcpPacket_iff.2 ⟨ps, hps, hacc⟩)
    · push Not at hacc
      obtain ⟨p, hp, hmalformed⟩ := hacc
      rw [Accepted, Classical.not_imp] at hmalformed
      exact .inr ⟨ps, hps, p, hp, hmalformed⟩

/-- A BYE of no source, with four bytes of padding. -/
def paddedBye : List Byte := [0xA0, 203, 0, 1, 0, 0, 0, 4]

/-- The length of the padding is read, and is not in the content. -/
theorem reads_padding : ((onRtcpPacket true paddedBye.length).value paddedBye).1 = true ∧
    7 ∈ (onRtcpPacket true paddedBye.length).reads paddedBye ∧ ¬InContent paddedBye 7 := by
  refine ⟨by decide, by decide, ?_⟩
  rintro ⟨offset, ps, p, rest, hb, hd, hp, hle, hlt⟩
  have hfront : ∀ q rest, paddedBye = q ++ rest → IsPacket q →
      q.length = 8 ∧ (content q).length = 4 := by
    intro q rest hq hpacket
    have hfour := hpacket.four_le_length
    have hsize : sizeOf q = 8 := by rw [← sizeOf_append hfour, ← hq]; rfl
    have hpadding : paddingOf q = 4 := by
      rw [← paddingOf_append hfour hpacket.length_eq.ge, ← hq]; rfl
    have hlength : q.length = 8 := hpacket.length_eq.trans hsize
    rw [content, length_take]
    omega
  cases ps with
  | nil =>
    -- The first packet is the only one there is.
    have htake := congrArg List.length hb.take_eq
    have hoffset := hb.le_length
    rw [length_take, flatten_nil, length_nil] at htake
    obtain rfl : offset = 0 := by omega
    have hcontent := (hfront p rest hd hp).2
    omega
  | cons q qs =>
    have hq := (hfront q (qs.flatten ++ paddedBye.drop offset) (by
      rw [← append_assoc, ← flatten_cons, ← hb.take_eq, take_append_drop])
      (hb.isPacket q mem_cons_self)).1
    have htake := congrArg List.length hb.take_eq
    rw [length_take, flatten_cons, length_append] at htake
    omega

end Packetia.Rtcp
