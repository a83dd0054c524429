import Packetia.Rtcp.Feedback

/-!
# Transport feedback as it is encoded

A transport feedback packet says of every packet whether it was received. The statuses are cut
into chunks, runs of one status or vectors with one bit or two bits for each, and the deltas of the
packets that were received follow (`Feedback`). However the statuses are cut, the reader gives them
back, with the times that the deltas add up to (`parseTransportFeedback_decodes`).
-/

namespace Packetia.Rtcp

open List Access Twcc
open BitVec (getLsbD_append ofNat)

/-! ## The encoding -/

/-- What is said of a packet. The delta is in units of 250 µs. -/
inductive Status
  | notReceived
  | small (delta : Byte)
  | large (delta : BitVec 16)

namespace Status

def symbol : Status → BitVec 2
  | notReceived => 0
  | small _ => 1
  | large _ => 2

def received : Status → Bool
  | notReceived => false
  | _ => true

def delta : Status → ℤ
  | notReceived => 0
  | small delta => delta.toNat
  | large delta => delta.toInt

def bytes : Status → List Byte
  | notReceived => []
  | small delta => [delta]
  | large delta => u16Bytes delta

end Status

/-- A run of one symbol, or a vector of symbols, from the highest bits on. -/
inductive Chunk
  | run (symbol : BitVec 2) (length : BitVec 13)
  | oneBit (bits : BitVec 14)
  | twoBit (bits : BitVec 14)

namespace Chunk

def word : Chunk → BitVec 16
  | run symbol length => 0b0#1 ++ symbol ++ length
  | oneBit bits => 0b10#2 ++ bits
  | twoBit bits => 0b11#2 ++ bits

def symbols : Chunk → List (BitVec 2)
  | run symbol length => replicate length.toNat symbol
  | oneBit bits => (range 14).map fun k => (bits.extractLsb' (13 - k) 1).setWidth 2
  | twoBit bits => (range 7).map fun k => bits.extractLsb' (12 - 2 * k) 2

end Chunk

/-- A transport feedback packet. The chunks give the symbols of the statuses, and the last one may
    give more; what follows the deltas does not matter. -/
structure Feedback where
  header : BitVec 32
  senderSsrc : BitVec 32
  mediaSsrc : BitVec 32
  baseSequence : BitVec 16
  /-- In units of 64 ms. -/
  referenceTime : BitVec 24
  feedbackPacketCount : Byte
  statuses : List Status
  chunks : List Chunk
  rest : List Byte
  count : statuses.length < 2 ^ 16
  encodes : statuses.map Status.symbol <+: chunks.flatMap Chunk.symbols
  needed : ∀ m < chunks.length, ((chunks.take m).flatMap Chunk.symbols).length < statuses.length

namespace Feedback

variable (f : Feedback)

/-- What is before the chunks. -/
def head : List Byte :=
  u32Bytes f.header ++ u32Bytes f.senderSsrc ++ u32Bytes f.mediaSsrc ++ u16Bytes f.baseSequence ++
    u16Bytes (ofNat 16 f.statuses.length) ++
    [f.referenceTime.extractLsb' 16 8, f.referenceTime.extractLsb' 8 8,
      f.referenceTime.extractLsb' 0 8, f.feedbackPacketCount]

def content : List Byte :=
  f.head ++ ((f.chunks.map Chunk.word).flatMap u16Bytes ++
    (f.statuses.flatMap Status.bytes ++ f.rest))

end Feedback

/-- Every status has its packet: the numbers go on from `base`, and the times from `startUs`. -/
def Decodes (base : BitVec 16) (startUs : ℤ) (statuses : List Status)
    (packets : List FeedbackPacket) : Prop :=
  packets.length = statuses.length ∧ ∀ j status, statuses[j]? = some status →
    ∃ packet, packets[j]? = some packet ∧
      packet.transportSequence = base + ofNat 16 j ∧ packet.received = status.received ∧
      (status.received = true →
        packet.receiveTimeUs = startUs + 250 * ((statuses.take (j + 1)).map Status.delta).sum)

/-! ## Chunks -/

/-- A field, cut out with a mask. -/
theorem and_mask {w : ℕ} (x : BitVec w) (i n : ℕ) :
    (x >>> i) &&& ofNat w (2 ^ n - 1) = (x.extractLsb' i n).setWidth w := by
  apply BitVec.eq_of_getLsbD_eq
  intro j hj
  simp only [BitVec.getLsbD_and, BitVec.getLsbD_ushiftRight, BitVec.getLsbD_ofNat,
    Nat.testBit_two_pow_sub_one, BitVec.getLsbD_setWidth, BitVec.getLsbD_extractLsb', hj,
    decide_true, Bool.true_and, Bool.and_comm]

/-- A symbol of a vector. -/
theorem symbol_vector (kind : BitVec 2) (bits : BitVec 14) {i n : ℕ} (hn : n ≤ 2)
    (hi : i + n ≤ 14) : (((kind ++ bits : BitVec 16) >>> i) &&&
      ofNat 16 (2 ^ n - 1)).setWidth 8 = ((bits.extractLsb' i n).setWidth 2).setWidth 8 := by
  rw [and_mask, BitVec.extractLsb'_append_eq_of_add_le hi,
    BitVec.setWidth_setWidth_of_le _ (by omega), BitVec.setWidth_setWidth (by omega)]

theorem chunkSymbols_word (c : Chunk) : chunkSymbols c.word = c.symbols.map (·.setWidth 8) := by
  have hvector : c.word &&& 0x8000 ≠ 0 ↔ c.word.getLsbD 15 = true :=
    and_one_shiftLeft_ne_zero (i := 15) (by omega)
  have hwide : c.word &&& 0x4000 ≠ 0 ↔ c.word.getLsbD 14 = true :=
    and_one_shiftLeft_ne_zero (i := 14) (by omega)
  rw [chunkSymbols]
  cases c with
  | run symbol length =>
    have hlength : (Chunk.run symbol length).word &&& 0x1FFF = length.setWidth 16 := by
      have h := and_mask (Chunk.run symbol length).word 0 13
      rwa [BitVec.ushiftRight_zero, Chunk.word, BitVec.extractLsb'_append_eq_right] at h
    have hsymbol : (Chunk.run symbol length).word >>> 13 &&& 3 = symbol.setWidth 16 := by
      refine (and_mask _ 13 2).trans ?_
      rw [Chunk.word, BitVec.extractLsb'_append_eq_of_le le_rfl]
      exact congrArg _ BitVec.extractLsb'_append_eq_right
    rw [Chunk.word, getLsbD_append, getLsbD_append] at hvector
    rw [hlength, hsymbol, BitVec.setWidth_setWidth_of_le _ (by omega),
      BitVec.toNat_setWidth_of_le (by omega), Chunk.symbols, map_replicate]
    exact if_pos (not_not.1 (hvector.not.2 Bool.false_ne_true))
  | oneBit bits =>
    have hshifts : [13, 12, 11, 10, 9, 8, 7, 6, 5, 4, 3, 2, 1, 0] = (range 14).map (13 - ·) := rfl
    rw [Chunk.word, getLsbD_append] at hvector hwide
    rw [Chunk.word, if_neg (hvector.2 rfl), if_neg (hwide.not.2 Bool.false_ne_true), hshifts,
      Chunk.symbols, map_map, map_map]
    exact map_congr_left fun k _ => symbol_vector _ bits (n := 1) (by omega) (by dsimp only; omega)
  | twoBit bits =>
    have hshifts : [12, 10, 8, 6, 4, 2, 0] = (range 7).map (12 - 2 * ·) := rfl
    rw [Chunk.word, getLsbD_append] at hvector hwide
    rw [Chunk.word, if_neg (hvector.2 rfl), if_pos (hwide.2 rfl), hshifts, Chunk.symbols, map_map,
      map_map]
    exact map_congr_left fun k _ => symbol_vector _ bits le_rfl (by dsimp only; omega)

/-- Words are read back from where they stand. -/
theorem u16At_flatMap (pre : List Byte) {rest : List Byte} {words : List (BitVec 16)} {k : ℕ}
    {v : BitVec 16} (h : words[k]? = some v) :
    u16At (pre ++ (words.flatMap u16Bytes ++ rest)) (pre.length + 2 * k) = v := by
  induction words generalizing pre k with
  | nil => cases h
  | cons w words ih =>
    rw [flatMap_cons, append_assoc]
    cases k with
    | zero =>
      obtain rfl : w = v := Option.some.inj h
      exact u16At_append w rfl
    | succ k =>
      have hnext := ih (pre ++ u16Bytes w) h
      rw [append_assoc, length_append] at hnext
      rwa [show pre.length + 2 * (k + 1) = pre.length + (u16Bytes w).length + 2 * k by
        rw [u16Bytes]; dsimp only [length_cons, length_nil]; omega]

/-- The statuses in the first chunks. -/
theorem symbols_content (f : Feedback) {m : ℕ} (hm : m ≤ f.chunks.length) :
    symbols f.content m = ((f.chunks.take m).flatMap Chunk.symbols).map (·.setWidth 8) := by
  induction m with
  | zero => rfl
  | succ m ih =>
    have hc : f.chunks[m]? = some f.chunks[m] := getElem?_eq_getElem hm
    have hword : u16At f.content (20 + 2 * m) = f.chunks[m].word :=
      u16At_flatMap f.head (by rw [getElem?_map, hc]; rfl)
    rw [symbols_succ, ih (by omega), hword, chunkSymbols_word, take_add_one, hc,
      Option.toList_some, flatMap_append, flatMap_singleton, map_append]

/-! ## Deltas -/

variable {base : BitVec 16} {startUs : ℤ} {statuses : List Status} {packets : List FeedbackPacket}

theorem Decodes.cons {status : Status} {packet : FeedbackPacket}
    (h : Decodes (base + 1) (startUs + 250 * status.delta) statuses packets)
    (hsequence : packet.transportSequence = base) (hreceived : packet.received = status.received)
    (htime : status.received = true → packet.receiveTimeUs = startUs + 250 * status.delta) :
    Decodes base startUs (status :: statuses) (packet :: packets) := by
  refine ⟨congrArg (· + 1) h.1, fun j s hs => ?_⟩
  cases j with
  | zero =>
    obtain rfl : status = s := Option.some.inj hs
    exact ⟨packet, rfl, by simp [hsequence], hreceived, by simpa using htime⟩
  | succ j =>
    obtain ⟨p, hp, hseq, hrec, hus⟩ := h.2 j s hs
    refine ⟨p, hp, ?_, hrec, fun hr => ?_⟩
    · rw [hseq, BitVec.ofNat_add, BitVec.add_assoc, BitVec.add_comm (ofNat 16 j)]
      rfl
    · rw [hus hr, take_succ_cons, map_cons, sum_cons]
      ring

/-- The deltas are read back. -/
theorem readDeltas_decodes (base : BitVec 16) (time i : ℕ) (delta : ℤ) (pre rest : List Byte)
    {len : ℕ} (hlen : pre.length + (statuses.flatMap Status.bytes).length ≤ len) :
    ∃ packets, (readDeltas len base time (statuses.map fun s => s.symbol.setWidth 8) i pre.length
        delta).value (pre ++ (statuses.flatMap Status.bytes ++ rest)) = some packets ∧
      Decodes (base + ofNat 16 i) (time * 1000 + delta) statuses packets := by
  induction statuses generalizing i delta pre with
  | nil => exact ⟨[], rfl, rfl, nofun⟩
  | cons status statuses ih =>
    rw [flatMap_cons, length_append] at hlen
    obtain ⟨packets, hpackets, hdecodes⟩ := ih (i + 1) (delta + status.delta * 250)
      (pre ++ status.bytes) (by rw [length_append]; omega)
    rw [append_assoc, ← append_assoc status.bytes, ← flatMap_cons, length_append] at hpackets
    rw [BitVec.ofNat_add, ← BitVec.add_assoc, ← add_assoc, mul_comm status.delta]
      at hdecodes
    rw [map_cons, readDeltas]
    cases status with
    | notReceived =>
      rw [Status.delta, zero_mul, add_zero] at hpackets
      have hs : Status.notReceived.symbol.setWidth 8 = (0 : Byte) := rfl
      rw [hs, if_pos rfl, value_bind, value_pure]
      exact ⟨_, congrArg (Option.map _) hpackets, hdecodes.cons rfl rfl Bool.noConfusion⟩
    | small d =>
      have hread : byteAt (pre ++ ((Status.small d :: statuses).flatMap Status.bytes ++ rest))
          pre.length = d := by
        rw [flatMap_cons, append_assoc]
        exact byteAt_append_add pre [d] _ Nat.one_pos
      have hfit : ¬pre.length + 1 > len := fun h => by
        change pre.length + (1 + _) ≤ len at hlen
        omega
      have hs : (Status.small d).symbol.setWidth 8 = (1 : Byte) := rfl
      rw [hs, if_neg (by decide), if_pos rfl, if_neg hfit, value_bind, value_byte, hread,
        value_bind, value_pure]
      refine ⟨_, congrArg (Option.map _) hpackets, hdecodes.cons rfl rfl fun _ => ?_⟩
      dsimp only [Status.delta]
      ring
    | large d =>
      have hread : u16At (pre ++ ((Status.large d :: statuses).flatMap Status.bytes ++ rest))
          pre.length = d := by
        rw [flatMap_cons, append_assoc]
        exact u16At_append d rfl
      have hfit : ¬pre.length + 2 > len := fun h => by
        change pre.length + (2 + _) ≤ len at hlen
        omega
      have hs : (Status.large d).symbol.setWidth 8 = (2 : Byte) := rfl
      rw [hs, if_neg (by decide), if_neg (by decide), if_pos rfl, if_neg hfit, value_bind,
        value_u16, hread, value_bind, value_pure]
      refine ⟨_, congrArg (Option.map _) hpackets, hdecodes.cons rfl rfl fun _ => ?_⟩
      dsimp only [Status.delta]
      ring

/-- The reader gives back what was encoded, and never looks past the end of its input. -/
theorem parseTransportFeedback_decodes :
    (∀ f : Feedback, ∃ report,
      (parseTransportFeedback f.content.length).value f.content = some report ∧
      Decodes f.baseSequence (f.referenceTime.toNat * 64000) f.statuses report.packets) ∧
    ∀ (len : ℕ) (data : List Byte), Below len (parseTransportFeedback len) data := by
  refine ⟨fun f => ?_, fun len data => below_parseTransportFeedback⟩
  have h12 : u16At f.content 12 = f.baseSequence := extractLsb_append _
  have h14 : u16At f.content 14 = ofNat 16 f.statuses.length := extractLsb_append _
  have h16 : (u24 16).value f.content = f.referenceTime := by
    rw [u24, value_bind, value_bind, value_byte, value_u16, value_pure]
    change f.referenceTime.extractLsb' 16 8 ++ (f.referenceTime.extractLsb' 8 8 ++
      f.referenceTime.extractLsb' 0 8) = f.referenceTime
    rw [BitVec.extractLsb'_append_extractLsb'_eq_extractLsb' (Nat.zero_add 8).symm,
      BitVec.extractLsb'_append_extractLsb'_eq_extractLsb' (Nat.zero_add 16).symm,
      BitVec.extractLsb'_eq_self]
  have hcount : (ofNat 16 f.statuses.length).toNat = f.statuses.length := by
    rw [BitVec.toNat_ofNat]
    exact Nat.mod_eq_of_lt f.count
  have hchunks : ((f.chunks.map Chunk.word).flatMap u16Bytes).length = 2 * f.chunks.length := by
    rw [length_flatMap]
    simp [u16Bytes, Function.comp_def, mul_comm]
  have hlength : f.content.length = 20 + (2 * f.chunks.length +
      ((f.statuses.flatMap Status.bytes).length + f.rest.length)) := by
    rw [Feedback.content, length_append, length_append, length_append, hchunks]
    rfl
  obtain ⟨K, hvalue, hread, hstop⟩ := value_readStatuses f.content f.statuses.length (k := 0)
    (n := f.content.length) (show f.content.length ≤ _ by omega) (by simp)
  -- The chunks are those of the packet: each is needed, and they are enough.
  have hsymbols := symbols_content f le_rfl
  rw [take_length] at hsymbols
  have hall : f.statuses.length ≤ (symbols f.content f.chunks.length).length := by
    rw [hsymbols, length_map, ← length_map (f := Status.symbol)]
    exact f.encodes.length_le
  obtain rfl : K = f.chunks.length := by
    refine le_antisymm (not_lt.1 fun hlt => (hread _ hlt).1.not_ge hall) (not_lt.1 fun hlt => ?_)
    have hneeded := f.needed K hlt
    rw [symbols_content f hlt.le, length_map] at hstop
    omega
  have hstatuses : (symbols f.content f.chunks.length).take f.statuses.length =
      f.statuses.map fun s => s.symbol.setWidth 8 := by
    have htake := List.prefix_iff_eq_take.1 f.encodes
    rw [length_map] at htake
    rw [hsymbols, ← map_take, ← htake, map_map]
    rfl
  have hdeltas : (f.head ++ (f.chunks.map Chunk.word).flatMap u16Bytes).length +
      (f.statuses.flatMap Status.bytes).length ≤ f.content.length := by
    rw [length_append, hchunks, hlength]
    change 20 + _ + _ ≤ _
    omega
  obtain ⟨packets, hpackets, hdecodes⟩ := readDeltas_decodes f.baseSequence
    (f.referenceTime.toNat * 64) 0 0 _ f.rest hdeltas
  rw [append_assoc, length_append, hchunks] at hpackets
  rw [symbols_zero, take_nil, hstatuses] at hvalue
  rw [parseTransportFeedback, if_neg (by omega)]
  simp only [value_bind, value_u32, value_u16, value_byte, h12, h14, h16, hcount]
  rw [hvalue]
  rw [length_map, if_neg (lt_irrefl _), value_bind, value_pure]
  have hstart : ((f.referenceTime.toNat * 64 : ℕ) : ℤ) * 1000 + 0 =
      f.referenceTime.toNat * 64000 := by
    push_cast
    ring
  rw [hstart, BitVec.add_zero] at hdecodes
  exact ⟨_, congrArg (Option.map _) hpackets, hdecodes⟩

/-- A run, a vector of one bit each and a vector of two bits each, of which four are too many. The
    numbers wrap. -/
def wrapping : Feedback where
  header := 0x8FCD0009
  senderSsrc := 1
  mediaSsrc := 2
  baseSequence := 0xFFFA
  referenceTime := 1
  feedbackPacketCount := 0
  statuses := [.small 4, .small 8, .small 1] ++ replicate 12 .notReceived ++
    [.small 2, .large 0xFFFC, .notReceived, .small 1]
  chunks := [.run 1 2, .oneBit 0b10000000000001, .twoBit 0b10000100000000]
  rest := []
  count := by decide
  encodes := by decide +kernel
  needed := by decide +kernel

theorem parseTransportFeedback_decodes_wrapping : ∃ report packet,
    (parseTransportFeedback wrapping.content.length).value wrapping.content = some report ∧
    report.packets.length = 19 ∧ report.packets[16]? = some packet ∧
    packet.transportSequence = 10 ∧ packet.receiveTimeUs = 64000 + 250 * (4 + 8 + 1 + 2 - 4) := by
  obtain ⟨report, hvalue, hlength, hpackets⟩ := parseTransportFeedback_decodes.1 wrapping
  obtain ⟨packet, hpacket, hsequence, -, htime⟩ := hpackets 16 (.large 0xFFFC) rfl
  exact ⟨report, packet, hvalue, hlength, hpacket, hsequence, htime rfl⟩

end Packetia.Rtcp
