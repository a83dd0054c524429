import Packetia.Rtcp.Compound
import Packetia.Rtcp.Nack
import Packetia.Lib.Partial

/-!
# Building and receiving

The packets the repository builds: a NACK (`buildNack`, `RtRtcpNack::Build`), a receiver
report with one block (`buildReceiverReport`, `RtcpSenderImpl::BuildReceiverReport`) and a
picture loss indication (`buildPli`, `RtcpFeedback::BuildPli`). A NACK has a reader of its
own as well (`parseNack`, `RtRtcpNack::Parse`).

The receiver gives back what was built, packet by packet in the order of the compound
(`receives_built`).
-/

namespace Packetia.Rtcp

open List Access

/-! ## The builders -/

/-- A header without padding: version 2, the count or format, the type and the length. -/
def headerBytes (countOrFmt packetType : Byte) (wordsMinusOne : BitVec 16) : List Byte :=
  [(2 : Byte) <<< 6 ||| countOrFmt, packetType] ++ u16Bytes wordsMinusOne

def pairBytes (pair : NackPair) : List Byte := u16Bytes pair.pid ++ u16Bytes pair.blp

variable (senderSsrc mediaSsrc : BitVec 32)

/-- `RtRtcpNack::Build`. -/
def buildNack (lostSeqs : List (BitVec 16)) : List Byte :=
  let pairs := packPairs lostSeqs
  if pairs = [] then []
  else
    let packetSize := 12 + pairs.length * 4
    let lengthWordsMinusOne := BitVec.ofNat 16 (packetSize / 4 - 1)
    headerBytes 1 205 lengthWordsMinusOne ++
      (u32Bytes senderSsrc ++ u32Bytes mediaSsrc ++ pairs.flatMap pairBytes)

/-- `RrBlock`. The cumulative loss is an `int32_t`. -/
structure RrBlock where
  ssrc : BitVec 32
  fractionLost : Byte
  cumulativeLost : BitVec 32
  extendedHighestSeq : BitVec 32
  jitter : BitVec 32
  lsr : BitVec 32
  dlsr : BitVec 32

/-- The cumulative loss within the range of 24 bits. -/
def clampLoss (cumulativeLost : BitVec 32) : ℤ :=
  max (-0x800000) (min cumulativeLost.toInt 0x7FFFFF)

/-- `RtcpSenderImpl::BuildReceiverReport`. -/
def buildReceiverReport (block : RrBlock) : List Byte :=
  let loss24 := BitVec.ofInt 32 (clampLoss block.cumulativeLost) &&& 0x00FFFFFF
  headerBytes 1 201 7 ++
    (u32Bytes senderSsrc ++ u32Bytes block.ssrc ++
      [block.fractionLost] ++
      [(loss24 >>> 16).setWidth 8, (loss24 >>> 8).setWidth 8, loss24.setWidth 8] ++
      u32Bytes block.extendedHighestSeq ++ u32Bytes block.jitter ++ u32Bytes block.lsr ++
      u32Bytes block.dlsr)

/-- `RtcpFeedback::BuildPli`. -/
def buildPli : List Byte := headerBytes 1 206 2 ++ (u32Bytes senderSsrc ++ u32Bytes mediaSsrc)

/-- The pairs `RtRtcpNack::Parse` reads, from `offset` on in a packet of `packetSize` bytes. -/
def parsePairs (data : List Byte) (packetSize : ℕ) : (n offset : ℕ) → List NackPair
  | 0, _ => []
  | n + 1, offset =>
    if offset + 4 ≤ packetSize then
      ⟨u16At data offset, u16At data (offset + 2)⟩ :: parsePairs data packetSize n (offset + 4)
    else []

/-- `RtRtcpNack::Parse`. -/
def parseNack (data : List Byte) : Option (BitVec 32 × BitVec 32 × List (BitVec 16)) := do
  guard ¬(data.length < 12)
  guard ¬(byteAt data 0 >>> 6 ≠ 2)
  guard ¬(byteAt data 0 &&& 0x1F ≠ 1)
  guard ¬(byteAt data 1 ≠ 205)
  let packetSize := ((u16At data 2).toNat + 1) * 4
  guard ¬(packetSize < 12 ∨ packetSize > data.length)
  guard ¬((packetSize - 12) % 4 ≠ 0)
  pure (u32At data 4, u32At data 8, expandPairs (parsePairs data packetSize packetSize 12))

/-! ## Reading back -/

variable {data p : List Byte} {n off len : ℕ}

/-- A packet with a header of this form, if the length is right. -/
theorem isPacket_headerBytes (pt : Byte) (words : BitVec 16) (body : List Byte)
    (hlen : 4 + body.length = (words.toNat + 1) * 4) :
    IsPacket (headerBytes 1 pt words ++ body) ∧ Accepted (headerBytes 1 pt words ++ body) ∧
      eventsOf true (headerBytes 1 pt words ++ body) =
        (handleSingleRtcpPacket true (4 + body.length) 1 pt).value
          (headerBytes 1 pt words ++ body) := by
  set p := headerBytes 1 pt words ++ body with hp
  have hfirst : byteAt p 0 = 0x81 := rfl
  have hwords : u16At p 2 = words := extractLsb_append words
  have hsize : sizeOf p = 4 + body.length := by rw [sizeOf, hwords, hlen]
  have hlength : p.length = 4 + body.length := by rw [hp, length_append]; rfl
  have hunpadded : ¬Padded p := by rw [Padded, hfirst]; decide
  have hpadding : paddingOf p = 0 := if_neg hunpadded
  have hcontent : content p = p := by
    rw [content, hpadding, Nat.sub_zero, hsize, ← hlength, take_length]
  have hfmt : (headerOf p).countOrFmt = 1 := by
    rw [show (headerOf p).countOrFmt = byteAt p 0 &&& 0x1F from rfl, hfirst]; decide
  have hcc : ¬(headerOf p).IsTransportCc := by
    rw [Header.IsTransportCc, hfmt]
    exact fun h => absurd h.2 (by decide)
  refine ⟨⟨?_, hlength.trans hsize.symm, fun h => absurd h hunpadded, ?_⟩,
    fun h => absurd h hcc, ?_⟩
  · rw [hfirst]; decide
  · rw [hpadding, hsize, kHeaderSize]; omega
  · rw [eventsOf, if_neg hcc, hcontent, hfmt, hlength]
    rfl

/-- Both readers of pairs expand the same pairs. -/
theorem value_readNackPairs :
    (readNackPairs len n off).value data = expandPairs (parsePairs data len n off) := by
  induction n generalizing off with
  | zero => rfl
  | succ n ih =>
    rw [readNackPairs, parsePairs]
    split_ifs
    · simp only [value_bind, value_u16, value_pure, ih, expandPairs, flatMap_cons]
    · rfl

/-- The pairs at the end of a packet are read back. -/
theorem parsePairs_append (pre : List Byte) (pairs : List NackPair) (hn : pairs.length ≤ n) :
    parsePairs (pre ++ pairs.flatMap pairBytes) (pre.length + 4 * pairs.length) n pre.length =
      pairs := by
  induction pairs generalizing pre n with
  | nil =>
    cases n with
    | zero => rfl
    | succ n => rw [parsePairs, if_neg (by rw [length_nil]; omega)]
  | cons pair pairs ih =>
    cases n with
    | zero => simp at hn
    | succ n =>
      have hsplit : pre ++ (pair :: pairs).flatMap pairBytes =
          (pre ++ pairBytes pair) ++ pairs.flatMap pairBytes := by
        rw [flatMap_cons, append_assoc]
      have hlen : (pre ++ pairBytes pair).length = pre.length + 4 := by
        rw [length_append]; rfl
      have hread (j : ℕ) (hj : j < 4) : byteAt (pre ++ (pair :: pairs).flatMap pairBytes)
          (pre.length + j) = byteAt (pairBytes pair) j := by
        rw [hsplit, append_assoc, byteAt_append_right (Nat.le_add_right _ _),
          Nat.add_sub_cancel_left, byteAt_append_left hj]
      have hpid : u16At (pre ++ (pair :: pairs).flatMap pairBytes) pre.length = pair.pid := by
        have h0 := hread 0 (by omega)
        rw [Nat.add_zero] at h0
        rw [u16At, h0, hread 1 (by omega)]
        exact extractLsb_append pair.pid
      have hblp : u16At (pre ++ (pair :: pairs).flatMap pairBytes) (pre.length + 2) = pair.blp := by
        rw [u16At, hread 2 (by omega), Nat.add_assoc, hread 3 (by omega)]
        exact extractLsb_append pair.blp
      have hnext := ih (pre ++ pairBytes pair) (Nat.le_of_succ_le_succ hn)
      have hsize : pre.length + 4 + 4 * pairs.length = pre.length + 4 * (pairs.length + 1) := by
        ring
      rw [hlen, ← hsplit, hsize] at hnext
      rw [parsePairs, length_cons, if_pos (by omega), hpid, hblp, hnext]

theorem extend24_eq_signExtend (raw : BitVec 24) : extend24 raw = raw.signExtend 32 := by
  have hmask : ∀ i < 32, (0xFF000000 : BitVec 32).getLsbD i = decide (24 ≤ i) := by decide
  have hsign : raw.setWidth 32 &&& 0x00800000 ≠ 0 ↔ raw.msb = true := by
    change raw.setWidth 32 &&& 1#32 <<< 23 ≠ 0#32 ↔ raw.msb = true
    rw [and_one_shiftLeft_ne_zero (by omega), BitVec.msb_eq_getLsbD_last]
    simp
  rw [extend24]
  by_cases hm : raw.msb = true
  · rw [if_pos (hsign.2 hm)]
    apply BitVec.eq_of_getLsbD_eq
    intro i hi
    rw [BitVec.getLsbD_or, hmask i hi, BitVec.getLsbD_signExtend, BitVec.getLsbD_setWidth, hm]
    by_cases hi24 : i < 24
    · simp [hi, hi24, Nat.not_le.2 hi24]
    · simp [hi, hi24, Nat.not_lt.1 hi24]
  · rw [if_neg (mt hsign.1 hm), BitVec.signExtend_eq_setWidth_of_msb_false (by simpa using hm)]

/-- A loss within the range of 24 bits is read back with its sign. -/
theorem toInt_extend24 {x : ℤ} (hlo : -0x800000 ≤ x) (hhi : x ≤ 0x7FFFFF) :
    (extend24 ((BitVec.ofInt 32 x).setWidth 24)).toInt = x := by
  rw [extend24_eq_signExtend, BitVec.toInt_signExtend_of_le (by omega), BitVec.toInt_setWidth,
    BitVec.toNat_ofInt, Int.bmod_def]
  omega

/-- The three bytes of a loss. -/
theorem u24_extract (v : BitVec 32) :
    (((v &&& 0x00FFFFFF) >>> 16).setWidth 8 ++ (((v &&& 0x00FFFFFF) >>> 8).setWidth 8 ++
      (v &&& 0x00FFFFFF).setWidth 8) : BitVec 24) = v.setWidth 24 := by
  have hmask : ∀ i < 24, (0x00FFFFFF#32).getLsbD i = true := by decide
  apply BitVec.eq_of_getLsbD_eq
  intro i hi
  simp only [BitVec.getLsbD_append, BitVec.getLsbD_setWidth, BitVec.getLsbD_ushiftRight,
    BitVec.getLsbD_and]
  by_cases h8 : i < 8
  · simp [h8, hi, hmask i hi, show i < 16 by omega]
  by_cases h16 : i < 16
  · have hshift : 8 + (i - 8) = i := by omega
    simp [h8, h16, hi, hshift, hmask i hi, show i - 8 < 8 by omega]
  · have hshift : 16 + (i - 16) = i := by omega
    simp [h16, hi, hshift, hmask i hi, show i - 16 < 8 by omega]

/-! ## The packets that are built -/

/-- A packet built by one of the three. A NACK lists at least one number. -/
inductive Built
  | nack (senderSsrc mediaSsrc : BitVec 32) (lostSeqs : List (BitVec 16)) (ne_nil : lostSeqs ≠ [])
  | receiverReport (senderSsrc : BitVec 32) (block : RrBlock)
  | pli (senderSsrc mediaSsrc : BitVec 32)

def Built.bytes : Built → List Byte
  | nack senderSsrc mediaSsrc lostSeqs _ => buildNack senderSsrc mediaSsrc lostSeqs
  | receiverReport senderSsrc block => buildReceiverReport senderSsrc block
  | pli senderSsrc mediaSsrc => buildPli senderSsrc mediaSsrc

/-- The call of the observer that is due for a packet: a NACK with the sorted numbers, each
    once, on which its own reader agrees; a report with the same fields, the loss within 24
    bits; an indication with the same sources. -/
def Built.Announces : Built → Event → Prop
  | nack senderSsrc mediaSsrc lostSeqs _, event =>
    ∃ seqs : List (BitVec 16), event = .nack senderSsrc mediaSsrc seqs ∧
      seqs.Pairwise (· < ·) ∧ (∀ s, s ∈ seqs ↔ s ∈ lostSeqs) ∧
      parseNack (buildNack senderSsrc mediaSsrc lostSeqs) = some (senderSsrc, mediaSsrc, seqs)
  | receiverReport senderSsrc block, event =>
    ∃ lost : BitVec 32, event = .receiverReport senderSsrc block.ssrc block.fractionLost lost
        block.extendedHighestSeq block.jitter block.lsr block.dlsr ∧
      lost.toInt = max (-2 ^ 23) (min block.cumulativeLost.toInt (2 ^ 23 - 1))
  | pli senderSsrc mediaSsrc, event => event = .pli senderSsrc mediaSsrc

/-- What the receiver does with one packet that is built. -/
structure Built.Received (b : Built) (event : Event) : Prop where
  isPacket : IsPacket b.bytes
  accepted : Accepted b.bytes
  events : eventsOf true b.bytes = [event]
  announces : b.Announces event

theorem received_pli : ∃ event, (Built.pli senderSsrc mediaSsrc).Received event := by
  have h4 : u32At (buildPli senderSsrc mediaSsrc) 4 = senderSsrc := u32_extract _
  have h8 : u32At (buildPli senderSsrc mediaSsrc) 8 = mediaSsrc := u32_extract _
  obtain ⟨hpacket, haccepted, hevents⟩ := isPacket_headerBytes 206 2
    (u32Bytes senderSsrc ++ u32Bytes mediaSsrc) rfl
  refine ⟨.pli senderSsrc mediaSsrc, hpacket, haccepted, hevents.trans ?_, rfl⟩
  change (handleSingleRtcpPacket true 12 1 206).value (buildPli senderSsrc mediaSsrc) = _
  simp [handleSingleRtcpPacket, h4, h8]

theorem received_receiverReport (block : RrBlock) :
    ∃ event, (Built.receiverReport senderSsrc block).Received event := by
  set p := buildReceiverReport senderSsrc block with hp
  have h4 : u32At p 4 = senderSsrc := u32_extract _
  have h8 : u32At p 8 = block.ssrc := u32_extract _
  have h12 : byteAt p 12 = block.fractionLost := rfl
  have h16 : u32At p 16 = block.extendedHighestSeq := u32_extract _
  have h20 : u32At p 20 = block.jitter := u32_extract _
  have h24 : u32At p 24 = block.lsr := u32_extract _
  have h28 : u32At p 28 = block.dlsr := u32_extract _
  have h13 : (int24 13).value p =
      extend24 ((BitVec.ofInt 32 (clampLoss block.cumulativeLost)).setWidth 24) := by
    rw [int24, value_bind, value_pure]
    exact congrArg extend24 (u24_extract _)
  obtain ⟨hpacket, haccepted, hevents⟩ := isPacket_headerBytes 201 7 (p.drop 4) rfl
  have hclamp : -0x800000 ≤ clampLoss block.cumulativeLost ∧
      clampLoss block.cumulativeLost ≤ 0x7FFFFF := by
    rw [clampLoss]
    omega
  refine ⟨.receiverReport senderSsrc block.ssrc block.fractionLost
    (extend24 ((BitVec.ofInt 32 (clampLoss block.cumulativeLost)).setWidth 24))
    block.extendedHighestSeq block.jitter block.lsr block.dlsr, hpacket, haccepted,
    hevents.trans ?_, _, rfl, toInt_extend24 hclamp.1 hclamp.2⟩
  change (handleSingleRtcpPacket true 32 1 201).value p = _
  simp [handleSingleRtcpPacket, entries, reportBlock, h4, h8, h12, h13, h16, h20, h24, h28]

/-- What the receiver does with a NACK. -/
theorem value_handleNack (h : 12 ≤ len) : (handleSingleRtcpPacket true len 1 205).value data =
    if expandPairs (parsePairs data len len 12) ≠ [] then
      [.nack (u32At data 4) (u32At data 8) (expandPairs (parsePairs data len len 12))] else [] := by
  simp [handleSingleRtcpPacket, value_readNackPairs, h, show ¬len < 4 by omega]

/-- What the other reader does with it. -/
theorem parseNack_headerBytes {words : BitVec 16} {body data : List Byte}
    (hdata : headerBytes 1 205 words ++ body = data)
    (hlen : 4 + body.length = (words.toNat + 1) * 4) (h : 12 ≤ 4 + body.length) :
    parseNack data = some (u32At data 4, u32At data 8,
      expandPairs (parsePairs data (4 + body.length) (4 + body.length) 12)) := by
  have hlength : data.length = 4 + body.length := by rw [← hdata, length_append]; rfl
  have hfirst : byteAt data 0 = 0x81 := hdata ▸ rfl
  have htype : byteAt data 1 = 205 := hdata ▸ rfl
  have hwords : u16At data 2 = words := hdata ▸ extractLsb_append words
  rw [parseNack, hlength, hfirst, htype, hwords, ← hlen]
  simp only [guard_bind]
  rw [if_pos (by omega), if_pos (by decide), if_pos (by decide), if_pos (by decide),
    if_pos (by omega), if_pos (by omega)]
  rfl

theorem received_nack (lostSeqs : List (BitVec 16)) (hne : lostSeqs ≠ []) :
    ∃ event, (Built.nack senderSsrc mediaSsrc lostSeqs hne).Received event := by
  have hfew := length_packPairs lostSeqs
  have hbody :
      ((packPairs lostSeqs).flatMap pairBytes).length = 4 * (packPairs lostSeqs).length := by
    rw [length_flatMap]
    simp [pairBytes, u16Bytes, Nat.mul_comm]
  set words := BitVec.ofNat 16 ((12 + (packPairs lostSeqs).length * 4) / 4 - 1) with hwords
  have hsize : (words.toNat + 1) * 4 = 12 + 4 * (packPairs lostSeqs).length := by
    rw [hwords, BitVec.toNat_ofNat]
    omega
  set body := u32Bytes senderSsrc ++ u32Bytes mediaSsrc ++ (packPairs lostSeqs).flatMap pairBytes
    with hbodydef
  have hbytes : buildNack senderSsrc mediaSsrc lostSeqs = headerBytes 1 205 words ++ body := by
    rw [buildNack, if_neg (packPairs_ne_nil hne)]
  have hlength : 4 + body.length = 12 + 4 * (packPairs lostSeqs).length := by
    rw [hbodydef, length_append, length_append, hbody]
    change 4 + (4 + 4 + _) = _
    omega
  obtain ⟨hpacket, haccepted, hevents⟩ := isPacket_headerBytes 205 words body
    (hlength.trans hsize.symm)
  have h4 : u32At (headerBytes 1 205 words ++ body) 4 = senderSsrc := u32_extract _
  have h8 : u32At (headerBytes 1 205 words ++ body) 8 = mediaSsrc := u32_extract _
  have hpairs : expandPairs (parsePairs (headerBytes 1 205 words ++ body) (4 + body.length)
      (4 + body.length) 12) = sortUnique lostSeqs := by
    have h := parsePairs_append (n := 4 + body.length)
      (headerBytes 1 205 words ++ (u32Bytes senderSsrc ++ u32Bytes mediaSsrc)) (packPairs lostSeqs)
      (by omega)
    rw [append_assoc] at h
    rw [← expandPairs_packPairs]
    refine congrArg expandPairs (Eq.trans ?_ h)
    rw [hlength]
    rfl
  have hseqs : sortUnique lostSeqs ≠ [] := by
    obtain ⟨s, hs⟩ := exists_mem_of_ne_nil _ hne
    exact ne_nil_of_mem (mem_sortUnique.2 hs)
  refine ⟨.nack senderSsrc mediaSsrc (sortUnique lostSeqs), ?_, ?_, ?_, _, rfl,
    sortUnique_sorted lostSeqs, fun s => mem_sortUnique, ?_⟩
  · rw [Built.bytes, hbytes]; exact hpacket
  · rw [Built.bytes, hbytes]; exact haccepted
  · rw [Built.bytes, hbytes, hevents, value_handleNack (by omega), hpairs, h4, h8, if_pos hseqs]
  · rw [hbytes, parseNack_headerBytes rfl (hlength.trans hsize.symm) (by omega), hpairs, h4, h8]

theorem Built.received (b : Built) : ∃ event, b.Received event := by
  cases b with
  | nack senderSsrc mediaSsrc lostSeqs hne => exact received_nack senderSsrc mediaSsrc lostSeqs hne
  | receiverReport senderSsrc block => exact received_receiverReport senderSsrc block
  | pli senderSsrc mediaSsrc => exact received_pli senderSsrc mediaSsrc

/-- Receiving inverts building, on every compound with at least one packet: it is accepted,
    and the observer is called once for each packet, in order, with what was built. -/
theorem receives_built (built : List Built) (hne : built ≠ []) :
    ∃ events, (onRtcpPacket true (built.flatMap Built.bytes).length).value
        (built.flatMap Built.bytes) = (true, events) ∧
      List.Forall₂ Built.Announces built events := by
  obtain ⟨events, hevents⟩ := exists_forall₂ (R := Built.Received) (l := built)
    fun b _ => b.received
  have hcompound : IsCompound (built.flatMap Built.bytes) (built.map Built.bytes) := by
    refine ⟨by simpa using hne, flatMap_def .., ?_⟩
    intro p hp
    obtain ⟨b, -, rfl⟩ := mem_map.1 hp
    exact b.received.choose_spec.isPacket
  have haccepted : ∀ p ∈ built.map Built.bytes, Accepted p := by
    intro p hp
    obtain ⟨b, -, rfl⟩ := mem_map.1 hp
    exact b.received.choose_spec.accepted
  have hflat : (built.map Built.bytes).flatMap (eventsOf true) = events := by
    clear hne hcompound haccepted
    induction hevents with
    | nil => rfl
    | cons h _ ih => rw [map_cons, flatMap_cons, h.events, ih, singleton_append]
  refine ⟨events, ?_, hevents.imp fun _ _ h => h.announces⟩
  rw [onRtcpPacket_of_packets hcompound haccepted, hflat]

/-- A NACK for numbers on both sides of the wrap, one of them twice, a report of more losses than
    24 bits can tell, and an indication. -/
def mixed : List Built :=
  [.nack 1 2 [3, 0xFFFE, 0, 0xFFFE] (cons_ne_nil _ _),
    .receiverReport 1 ⟨2, 9, 0x01000000, 70000, 5, 6, 7⟩, .pli 1 2]

theorem receives_mixed :
    (onRtcpPacket true (mixed.flatMap Built.bytes).length).value (mixed.flatMap Built.bytes) =
      (true, [.nack 1 2 [0, 3, 0xFFFE], .receiverReport 1 2 9 0x007FFFFF 70000 5 6 7,
        .pli 1 2]) := by
  obtain ⟨events, hvalue, hevents⟩ := receives_built mixed (cons_ne_nil _ _)
  obtain _ | ⟨⟨seqs, rfl, -, -, hparse⟩, _ | ⟨⟨lost, rfl, hlost⟩, _ | ⟨rfl, ⟨⟩⟩⟩⟩ := hevents
  have hseqs : parseNack (buildNack 1 2 [3, 0xFFFE, 0, 0xFFFE]) = some (1, 2, [0, 3, 0xFFFE]) := by
    decide +kernel
  cases hparse.symm.trans hseqs
  obtain rfl : lost = 0x007FFFFF := BitVec.eq_of_toInt_eq (hlost.trans (by decide))
  exact hvalue

/-- Nothing is built, and nothing is accepted. -/
theorem refuses_empty : (onRtcpPacket true (([] : List Built).flatMap Built.bytes).length).value
    (([] : List Built).flatMap Built.bytes) = (false, []) := rfl

end Packetia.Rtcp
