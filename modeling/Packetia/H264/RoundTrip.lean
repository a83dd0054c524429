import Packetia.Lib.Missing
import Packetia.H264.Packetizer
import Packetia.H264.Unwrapping

/-!
# Packetising and depacketising

An access unit is cut into pieces and sent in numbered packets. Whatever the order in
which they arrive, and however often, the buffer hands the access unit out once, when the
last missing packet arrives, with the NAL units it was made of (`depacketizes`).

The packets that have arrived are in the buffer (`Holds`), and the cursor is at the first
one that is missing (`Collecting`). A packet that was missing first makes the buffer scan
on to the next one missing, or to the end of the unit (`scan_unit`).
-/

namespace Packetia.H264

open List Option
open BitVec (ofInt ofNat)

/-- An access unit cut into pieces, with the number of its first packet. -/
structure PacketizedUnit where
  pieces : List Piece
  ssrc : BitVec 32
  timestamp : BitVec 32
  firstSeq : BitVec 16

/-- The arrival of a packet of the unit, at the time `now`. -/
structure Arrival where
  index : ℕ
  now : ℤ
  receiveTimeMs : ℤ

namespace PacketizedUnit

variable (u : PacketizedUnit)

/-- The NAL units of the access unit. -/
def nalus : List (List Byte) := u.pieces.flatMap Piece.nalus

def payloads : List (List Byte) := u.pieces.flatMap Piece.payloads

/-- The number of packets. -/
def count : ℕ := u.payloads.length

/-- The packet `i`, as it is received. The marker is on the last one. -/
def view (i : ℕ) (receiveTimeMs : ℤ) : RtpView where
  seq := u.firstSeq + ofNat 16 i
  ts := u.timestamp
  marker := i + 1 = u.count
  payload := u.payloads.getD i []
  ssrc := u.ssrc
  receiveTimeMs := receiveTimeMs

/-- The packet `i`, as it is parsed. -/
def packet (i : ℕ) (receiveTimeMs : ℤ) : ParsedPacket := (parse (u.view i receiveTimeMs)).2

/-- The packet that arrives. -/
abbrev sent (u : PacketizedUnit) (a : Arrival) : ParsedPacket := u.packet a.index a.receiveTimeMs

/-- A decoder can start with the packet `i`, whenever it is received (`recovery_iff`). -/
def Recovery (cfg : Config) (u : PacketizedUnit) (i : ℕ) : Prop :=
  BeginningOfStream cfg (u.packet i 0)
  deriving Decidable

/-- The unit is cut by the rules, the buffer takes it, and a decoder can start with no
    packet but the first. -/
structure Valid (cfg : Config) (u : PacketizedUnit) : Prop where
  pieces : ∀ piece ∈ u.pieces, piece.Valid
  nonempty : u.pieces ≠ []
  starts : StartsPicture u.nalus
  takes : cfg.Takes u.nalus
  limit : u.count ≤ cfg.frameLimit
  later : ∀ i < u.count, 0 < i → ¬Recovery cfg u i

variable {cfg : Config} {u : PacketizedUnit}

/-! ## The packets -/

section

variable (hu : u.Valid cfg) {i : ℕ}
include hu

theorem parses :
    List.Forall₂ (fun payload us => ∀ view : RtpView, view.payload = payload → Reads view us)
      u.payloads (u.pieces.flatMap Piece.units) := by
  have h := hu.pieces
  rw [payloads]
  generalize u.pieces = pieces at h
  induction pieces with
  | nil => exact .nil
  | cons piece pieces ih =>
    rw [flatMap_cons, flatMap_cons]
    exact rel_append (Piece.parses (h piece mem_cons_self))
      (ih fun q hq => h q (mem_cons_of_mem _ hq))

omit hu in
theorem view_payload (hi : i < u.count) (r : ℤ) :
    (u.view i r).payload = u.payloads.get ⟨i, hi⟩ := getD_eq_getElem _ _ hi

/-- The parser takes every packet. -/
theorem reads (hi : i < u.count) (r : ℤ) : ∃ us, Reads (u.view i r) us := by
  obtain ⟨hlen, hget⟩ := forall₂_iff_get.1 (parses hu)
  exact ⟨_, hget i hi (hlen ▸ hi) _ (view_payload hi r)⟩

theorem recovery_iff (hi : i < u.count) (r : ℤ) :
    BeginningOfStream cfg (u.packet i r) ↔ Recovery cfg u i := by
  obtain ⟨hlen, hget⟩ := forall₂_iff_get.1 (parses hu)
  have hunits (r : ℤ) := (hget i hi (hlen ▸ hi) _ (view_payload hi r)).units
  rw [Recovery, BeginningOfStream, BeginningOfStream, packet, packet, hunits, hunits]

theorem count_pos : 0 < u.count := by
  obtain ⟨piece, pieces, hp⟩ := exists_cons_of_ne_nil hu.nonempty
  have hvalid := hu.pieces piece (hp ▸ mem_cons_self)
  have hpos : 0 < piece.payloads.length := by
    cases piece with
    | single nalu | stapA indicator nalus => exact Nat.one_pos
    | fuA nalu fragments =>
      match fragments, hvalid.2.1 with
      | _ :: _ :: _, _ => exact Nat.succ_pos _
  rw [count, payloads, hp, flatMap_cons, length_append]
  omega

theorem nalus_ne_nil : u.nalus ≠ [] := by
  obtain ⟨piece, pieces, hp⟩ := exists_cons_of_ne_nil hu.nonempty
  have hvalid := hu.pieces piece (hp ▸ mem_cons_self)
  have hne : piece.nalus ≠ [] := by
    cases piece with
    | single nalu | fuA nalu fragments => exact cons_ne_nil _ _
    | stapA indicator nalus => exact hvalid.2.2.1
  rw [nalus, hp, flatMap_cons]
  exact append_ne_nil_of_left_ne_nil hne _

/-- The packets of the unit, each with its units. -/
theorem hasUnits {packets : List ParsedPacket}
    (h : List.Forall₂ (fun i p => ∃ r, p = u.packet i r) (range u.count) packets) :
    List.Forall₂ HasUnits (u.pieces.flatMap Piece.units) packets := by
  obtain ⟨hlen, hget⟩ := forall₂_iff_get.1 (parses hu)
  obtain ⟨hlen', hget'⟩ := forall₂_iff_get.1 h
  rw [length_range] at hlen'
  refine forall₂_iff_get.2 ⟨hlen.symm.trans hlen', fun i h₁ h₂ => ?_⟩
  have hi : i < u.count := hlen'.symm ▸ h₂
  obtain ⟨r, hr⟩ := hget' i (by rwa [length_range]) h₂
  have hp : packets.get ⟨i, h₂⟩ = u.packet i r := by simpa using hr
  have hread := hget i hi h₁ (u.view i r) (view_payload hi r)
  rw [hp]
  exact ⟨hread.units, hread.marks⟩

end

end PacketizedUnit

theorem frameLimit_le (cfg : Config) : cfg.frameLimit ≤ kBufferSize := by
  rw [Config.frameLimit]
  split_ifs with h
  · exact le_rfl
  · omega

open PacketizedUnit PacketBuffer

section Collecting

variable {cfg : Config} {u : PacketizedUnit} {s : ℤ} {seen : List Arrival} {a : Arrival}
  {st : Store} {b : PacketBuffer} {i : ℕ} {p : BufferedPacket}

/-- The indices of the packets that have arrived. -/
abbrev indices (seen : List Arrival) : List ℕ := seen.map Arrival.index

/-- The store holds the packets that have arrived, and nothing else. The packet `i` has
    the number `s + i`. -/
structure Holds (u : PacketizedUnit) (s : ℤ) (seen : List Arrival) (st : Store) : Prop where
  stored : ∀ a ∈ seen, ∃ p, st.getPacket (s + a.index) = some p
  only : ∀ x p, st.getPacket x = some p → ∃ a ∈ seen, x = s + a.index ∧
    (∃ r, p.packet = u.packet a.index r) ∧ ∃ a' ∈ seen, p.arrival.1 = a'.now

section

variable (h : Holds u s seen st)
include h

theorem Holds.mem_of_some (hp : st.getPacket (s + i) = some p) :
    i ∈ indices seen ∧ ∃ r, p.packet = u.packet i r := by
  obtain ⟨a, ha, heq, hr, -⟩ := h.only _ p hp
  obtain rfl : i = a.index := by omega
  exact ⟨mem_map_of_mem ha, hr⟩

theorem Holds.some_of_mem (hi : i ∈ indices seen) : ∃ p, st.getPacket (s + i) = some p := by
  obtain ⟨a, ha, rfl⟩ := mem_map.1 hi
  exact h.stored a ha

/-- A frame with all packets there is assembled. -/
theorem Holds.assemble (hu : u.Valid cfg) (hall : ∀ i < u.count, i ∈ indices seen) :
    ∃ frame, st.maybeAssembleFrame cfg s (s + u.count - 1) =
        some (frame, st.removePackets s (s + u.count - 1)) ∧
      frame.nalus = u.nalus ∧ frame.complete = true := by
  have hpos := count_pos hu
  have hlimit := hu.limit
  -- The packets are read in order, from the first on.
  obtain ⟨packets, hpackets⟩ : ∃ packets, List.Forall₂
      (fun i p => (st.getPacket (s + (i : ℕ))).map BufferedPacket.packet = some p ∧
        ∃ r, p = u.packet i r) (range u.count) packets := by
    refine exists_forall₂ fun i hi => ?_
    obtain ⟨p, hp⟩ := h.some_of_mem (hall i (mem_range.1 hi))
    exact ⟨p.packet, by rw [hp]; rfl, (h.mem_of_some hp).2⟩
  have hmap : (seqRange s (s + u.count - 1)).mapM
      (fun x => (st.getPacket x).map BufferedPacket.packet) = some packets := by
    have hlen : (s + u.count - 1 + 1 - s).toNat = u.count := by omega
    rw [mapM_eq_some, seqRange, hlen, forall₂_map_left_iff]
    exact hpackets.imp fun i p hp => hp.1
  have hunits := hasUnits hu (hpackets.imp fun i p hp => hp.2)
  have hstream : ∀ p ∈ packets, p.ssrc = u.ssrc ∧ p.timestamp = u.timestamp := by
    intro p hp
    obtain ⟨i, hi, -, r, rfl⟩ := exists_of_forall₂ hpackets hp
    obtain ⟨us, hread⟩ := reads hu (mem_range.1 hi) r
    exact ⟨hread.ssrc, hread.timestamp⟩
  obtain ⟨first, rest, rfl⟩ : ∃ first rest, packets = first :: rest := by
    refine exists_cons_of_ne_nil fun hnil => ?_
    have := hpackets.length_eq
    rw [hnil, length_range, length_nil] at this
    omega
  obtain ⟨hssrc, hts⟩ := hstream first mem_cons_self
  obtain ⟨frame, hframe, hnalus, hcomplete⟩ := assemble_of_pieces cfg
    { ssrc := first.ssrc, timestamp := first.timestamp, firstSeq := ofInt 16 s,
      lastSeq := ofInt 16 (s + u.count - 1), marker := true }
    hu.pieces hunits (by rw [hssrc, hts]; exact hstream) ⟨rfl, rfl, rfl⟩ (nalus_ne_nil hu)
    hu.starts hu.takes
  refine ⟨frame, ?_, hnalus, hcomplete⟩
  rw [Store.maybeAssembleFrame, guard_bind, if_pos (by omega), hmap, bind_eq_bind,
    bind_some, head?_cons, bind_eq_bind, bind_some, hframe,
    bind_eq_bind, bind_some]

end

/-! ## The scan -/

/-- The cursor is within the unit, before the packet `j`: the frame is open unless `j` is
    the first packet. -/
structure Opened (u : PacketizedUnit) (s : ℤ) (j : ℕ) (b : PacketBuffer) : Prop where
  none_of_zero : j = 0 → b.currentFrameStart = none
  some_of_pos : 0 < j → b.currentFrameStart = some s ∧ b.currentFrameTimestamp = u.timestamp
  kept : b.discardingFrame = false

/-- A packet of the unit enters the frame of the unit. -/
theorem Opened.enterFrame {j : ℕ} (h : Opened u s j b) :
    (b.enterFrame (s + j) u.timestamp).currentFrameStart = some s ∧
      (b.enterFrame (s + j) u.timestamp).currentFrameTimestamp = u.timestamp ∧
      (b.enterFrame (s + j) u.timestamp).discardingFrame = false ∧
      (b.enterFrame (s + j) u.timestamp).toStore = b.toStore := by
  rcases Nat.eq_zero_or_pos j with hj | hj
  · rw [enterFrame_of_none (h.none_of_zero hj), hj]
    exact ⟨by simp, rfl, h.kept, rfl⟩
  · obtain ⟨hstart, ht⟩ := h.some_of_pos hj
    rw [enterFrame_of_same hstart ht]
    exact ⟨hstart, ht, h.kept, rfl⟩

/-- The scan goes through the unit, or has come to its end. -/
def Scanned (u : PacketizedUnit) (s : ℤ) (seen : List Arrival) (st : Store) (sc : Scan) : Prop :=
  (∃ j < u.count, sc.seq = s + j ∧ (∀ i < j, i ∈ indices seen) ∧ sc.frames = [] ∧
    sc.buffer.toStore = st ∧ Opened u s j sc.buffer) ∨
  (sc.seq = s + u.count ∧ (∀ i < u.count, i ∈ indices seen) ∧
    (∃ e, sc.frames = [e] ∧ e.frame.nalus = u.nalus ∧ e.frame.complete = true) ∧
    ∀ x, sc.buffer.getPacket x = none)

section

variable (hu : u.Valid cfg)
include hu

/-- At the last packet the frame is handed out, and nothing is left. -/
theorem finish_unit (h : Holds u s seen b.toStore) (hall : ∀ i < u.count, i ∈ indices seen)
    (hbound : ∀ a ∈ seen, a.index < u.count) (hstart : b.currentFrameStart = some s)
    (hkept : b.discardingFrame = false) :
    (∃ e, (b.finishFrame cfg s (s + u.count - 1)).1 = [e] ∧ e.frame.nalus = u.nalus ∧
        e.frame.complete = true) ∧
      ∀ x, (b.finishFrame cfg s (s + u.count - 1)).2.getPacket x = none := by
  obtain ⟨frame, hframe, hnalus, hcomplete⟩ := h.assemble hu hall
  obtain ⟨st, hthin, hnone, hfin⟩ := finishFrame_eq cfg hstart (s + u.count - 1)
  constructor
  · refine ⟨⟨s, s + u.count - 1, frame⟩, ?_, hnalus, hcomplete⟩
    rw [finishFrame, if_neg (by simp [hkept]), hframe]
  · intro x
    rw [hfin]
    cases hx : st.getPacket x with
    | none => rfl
    | some p =>
      obtain ⟨a, ha, rfl, -⟩ := h.only x p (hthin.sub hx)
      have := hbound a ha
      exact absurd (hx.symm.trans (hnone _ (by omega) (by omega))) (some_ne_none p)

theorem Scanned.round (h : Holds u s seen st) (hbound : ∀ a ∈ seen, a.index < u.count) {sc : Scan}
    (hp : sc.buffer.getPacket sc.seq = some p) (hsc : Scanned u s seen st sc) :
    Scanned u s seen st (sc.round cfg) := by
  rcases hsc with ⟨j, hj, hseq, hbelow, hframes, rfl, hopen⟩ | ⟨-, -, -, hnone⟩
  · rw [hseq] at hp
    obtain ⟨hmem, r, hr⟩ := h.mem_of_some hp
    obtain ⟨us, hread⟩ := reads hu hj r
    have ht : p.packet.timestamp = u.timestamp := by rw [hr]; exact hread.timestamp
    have hm : p.packet.marker = decide (j + 1 = u.count) := by rw [hr]; exact hread.marker
    have hbelow' : ∀ i < j + 1, i ∈ indices seen := by
      intro i hi
      rcases Nat.lt_succ_iff_lt_or_eq.1 hi with hlt | rfl
      · exact hbelow i hlt
      · exact hmem
    obtain ⟨hstart, hts, hkept, hstore⟩ := hopen.enterFrame
    have hlimit : ¬s + j - s + 1 > cfg.frameLimit := by
      have := hu.limit
      omega
    rw [Scan.round_of_some (hseq ▸ hp), hseq, hframes, nil_append]
    simp only [scanPacket, ht, hstart, getD_some, limitFrame, if_neg hlimit, hm, decide_eq_true_eq]
    split_ifs with hlast
    · have hall : ∀ i < u.count, i ∈ indices seen := hlast ▸ hbelow'
      have hend : s + (j : ℤ) = s + u.count - 1 := by omega
      obtain ⟨hframe, hnone⟩ := finish_unit hu (hstore ▸ h) hall hbound hstart hkept
      rw [← hend] at hframe hnone
      exact .inr ⟨by dsimp only; omega, hall, hframe, hnone⟩
    · refine .inl ⟨j + 1, by omega, by push_cast; ring, hbelow', rfl, hstore, ?_⟩
      exact ⟨fun h => absurd h (Nat.succ_ne_zero j), fun _ => ⟨hstart, hts⟩, hkept⟩
  · rw [hnone] at hp
    cases hp

/-- A scan from within the unit ends at the next packet that is missing, or with the frame
    handed out. -/
theorem scan_unit (h : Holds u s seen b.toStore) (hbound : ∀ a ∈ seen, a.index < u.count) {c : ℕ}
    (hc : c < u.count) (hbelow : ∀ i < c, i ∈ indices seen) (hopen : Opened u s c b)
    (hscan : Scanning b (s + c)) (hturn : b.getPacket (s + c + kBufferSize) = none) :
    ∃ sc, scanFrom cfg b (s + c) = sc ∧
      ((∃ j < u.count, firstMissing (indices seen) = j ∧ sc.frames = [] ∧
        sc.buffer.toStore = b.toStore ∧ Opened u s j sc.buffer ∧
        sc.buffer.lastContinuousUnwrappedSeq = some (s + j - 1) ∧
        sc.buffer.waitingForRecovery = false) ∨
      ((∀ i < u.count, i ∈ indices seen) ∧
        (∃ e, sc.frames = [e] ∧ e.frame.nalus = u.nalus ∧ e.frame.complete = true) ∧
        sc.buffer.lastContinuousUnwrappedSeq = some (s + u.count - 1) ∧
        ∀ x, sc.buffer.getPacket x = none)) := by
  obtain ⟨hsc, hscan', hstop⟩ := scanFrom_spec cfg (P := Scanned u s seen b.toStore)
    (fun sc p _ hp hsc => hsc.round hu h hbound hp) hscan hturn
    (.inl ⟨c, hc, rfl, hbelow, rfl, rfl, hopen⟩)
  have hlast := hscan'.last
  rcases hsc with ⟨j, hj, hseq, hbelow', hframes, hstore, hopen'⟩ | ⟨hseq, hall, hframe, hnone⟩
  · rw [hseq] at hlast hstop
    refine ⟨_, rfl, .inl ⟨j, hj, firstMissing_eq (fun hmem => ?_) hbelow', hframes, hstore, hopen',
      hlast, hscan'.active⟩⟩
    obtain ⟨p, hp⟩ := h.some_of_mem hmem
    rw [hstore, hp] at hstop
    cases hstop
  · rw [hseq] at hlast
    exact ⟨_, rfl, .inr ⟨hall, hframe, hlast, hnone⟩⟩

end

/-! ## An arrival -/

/-- The buffer can start with the unit: it has not started yet, or the packet before the
    unit is the last continuous one, of another timestamp. -/
def PacketBuffer.Awaits (b : PacketBuffer) (u : PacketizedUnit) (s : ℤ) : Prop :=
  b.lastContinuousUnwrappedSeq = none ∨
    (b.lastContinuousUnwrappedSeq = some (s - 1) ∧ b.lastContinuousTimestamp ≠ some u.timestamp)

/-- The buffer has the packets that have arrived, and its cursor is before the first one
    that is missing. -/
structure Collecting (cfg : Config) (u : PacketizedUnit) (s : ℤ) (seen : List Arrival)
    (b : PacketBuffer) : Prop where
  inv : b.Inv
  holds : Holds u s seen b.toStore
  bound : ∀ a ∈ seen, a.index < u.count
  missing : firstMissing (indices seen) < u.count
  opened : Opened u s (firstMissing (indices seen)) b
  cursor : (b.lastContinuousUnwrappedSeq = some (s + firstMissing (indices seen) - 1) ∧
      b.waitingForRecovery = false) ∨
    (b.Awaits u s ∧ firstMissing (indices seen) = 0 ∧ Recovery cfg u 0)

/-- The unit has been handed out. -/
structure Finished (u : PacketizedUnit) (s : ℤ) (b : PacketBuffer) : Prop where
  inv : b.Inv
  last : b.lastContinuousUnwrappedSeq = some (s + u.count - 1)
  empty : ∀ x, b.getPacket x = none

theorem indices_concat (seen : List Arrival) (a : Arrival) :
    indices (seen ++ [a]) = indices seen ++ [a.index] := by
  simp [indices]

section

variable (h : Holds u s seen st)
include h

/-- A packet that arrives again changes nothing. -/
theorem Holds.concat (ha : a.index ∈ indices seen) : Holds u s (seen ++ [a]) st where
  stored := forall_mem_concat.2 ⟨h.stored, h.some_of_mem ha⟩
  only x p hx := by
    obtain ⟨y, hy, heq, hr, z, hz, ht⟩ := h.only x p hx
    exact ⟨y, mem_append_left _ hy, heq, hr, z, mem_append_left _ hz, ht⟩

theorem Holds.putPacket (hslot : st.buffer.occupant (s + a.index) = none) :
    Holds u s (seen ++ [a])
      (st.putPacket (s + a.index) (u.packet a.index a.receiveTimeMs) a.now) where
  stored x hx := by
    rw [Store.getPacket_putPacket hslot]
    split_ifs
    · exact ⟨_, rfl⟩
    · rcases mem_append.1 hx with hx | hx
      · exact h.stored x hx
      · obtain rfl := mem_singleton.1 hx
        contradiction
  only x p hx := by
    rw [Store.getPacket_putPacket hslot] at hx
    have hself : a ∈ seen ++ [a] := mem_concat_self
    split_ifs at hx with heq
    · obtain rfl := some.inj hx
      exact ⟨a, hself, heq, ⟨_, rfl⟩, a, hself, rfl⟩
    · obtain ⟨y, hy, heq, hr, z, hz, ht⟩ := h.only x p hx
      exact ⟨y, mem_append_left _ hy, heq, hr, z, mem_append_left _ hz, ht⟩

theorem Holds.thin {st' : Store} (hthin : Store.Thinned (s - 1) st st') : Holds u s seen st' where
  stored x hx := by
    obtain ⟨p, hp⟩ := h.stored x hx
    exact ⟨p, hthin.keep (by omega) hp⟩
  only x p hx := h.only x p (hthin.sub hx)

/-- The slot of a packet that has not arrived is free: a unit is not longer than the ring. -/
theorem Holds.occupant_eq_none (hu : u.Valid cfg) (hbound : ∀ a ∈ seen, a.index < u.count)
    (hi : i < u.count) (hnew : i ∉ indices seen) : st.buffer.occupant (s + i) = none := by
  cases hslot : st.buffer.occupant (s + i) with
  | none => rfl
  | some e =>
    obtain ⟨y, p⟩ := e
    have hindex := Ring.index_of_occupant hslot
    obtain ⟨x, hx, rfl, -⟩ := h.only y p (Ring.get?_of_occupant hslot)
    have hlimit : u.count ≤ 2048 := hu.limit.trans (frameLimit_le cfg)
    have hxb := hbound x hx
    have hmod : (s + i) % 2048 = (s + x.index) % 2048 := by
      simp only [Ring.index, kBufferSize, Nat.cast_ofNat] at hindex
      omega
    obtain rfl : i = x.index := by omega
    exact absurd (mem_map_of_mem hx) hnew

end

theorem Opened.congr {j : ℕ} {b' : PacketBuffer} (h : Opened u s j b)
    (hstart : b'.currentFrameStart = b.currentFrameStart)
    (ht : b'.currentFrameTimestamp = b.currentFrameTimestamp)
    (hd : b'.discardingFrame = b.discardingFrame) : Opened u s j b' :=
  ⟨fun hj => hstart.trans (h.none_of_zero hj),
    fun hj => ⟨hstart.trans (h.some_of_pos hj).1, ht.trans (h.some_of_pos hj).2⟩,
    hd.trans h.kept⟩

section

variable (h : Collecting cfg u s seen b)
include h

/-- A packet that was not missing first leaves the cursor where it is. -/
theorem Collecting.stays (ha : a.index < u.count) (hne : a.index ≠ firstMissing (indices seen))
    (hinv : Inv { b with toStore := st }) (hholds : Holds u s (seen ++ [a]) st) :
    Collecting cfg u s (seen ++ [a]) { b with toStore := st } := by
  have hsame : firstMissing (indices (seen ++ [a])) = firstMissing (indices seen) := by
    rw [indices_concat]
    exact firstMissing_concat_of_ne hne
  refine ⟨hinv, hholds, forall_mem_concat.2 ⟨h.bound, ha⟩, ?_, ?_, ?_⟩ <;> rw [hsame]
  · exact h.missing
  · exact h.opened.congr rfl rfl rfl
  · exact h.cursor

/-- A packet that has arrived before is left out. -/
theorem Collecting.again (ha : a.index < u.count) (hmem : a.index ∈ indices seen)
    (packet : ParsedPacket) (now : ℤ) :
    (b.insertAs cfg (s + a.index) packet now).1.frames = [] ∧
      Collecting cfg u s (seen ++ [a]) (b.insertAs cfg (s + a.index) packet now).2 := by
  obtain ⟨p, hp⟩ := h.holds.some_of_mem hmem
  obtain ⟨_, rfl, ⟨-, -, hframes, hb⟩ | ⟨st, hst, -, hslot, -⟩⟩ :=
    insertAs_cases cfg b (s + a.index) packet now
  · rw [hb]
    exact ⟨hframes, h.stays ha (fun heq => firstMissing_notMem _ (heq ▸ hmem)) h.inv
      (h.holds.concat hmem)⟩
  · -- Its slot is not free.
    have hp' : st.getPacket (s + a.index) = some p := by
      rcases hst with rfl | ⟨x, hx, rfl⟩
      · exact hp
      · rw [Store.getPacket_erasePacket, if_neg hx.ne']
        exact hp
    rw [Ring.get?_eq_some.1 hp'] at hslot
    cases hslot

/-- The last continuous packet, if there is one, is the one before the first missing. -/
theorem Collecting.last_eq {last : ℤ} (hlast : last ∈ b.lastContinuousUnwrappedSeq) :
    last = s + firstMissing (indices seen) - 1 := by
  rcases h.cursor with ⟨hl, -⟩ | ⟨hl | ⟨hl, -⟩, hzero, -⟩
  · exact some.inj (hlast.symm.trans hl)
  · exact absurd (hlast.symm.trans hl) (some_ne_none last)
  · rw [hzero, Nat.cast_zero, add_zero]
    exact some.inj (hlast.symm.trans hl)

/-- A packet that has not arrived is not behind the cursor. -/
theorem Collecting.not_behind (hnew : a.index ∉ indices seen) : ¬b.Behind (s + a.index) := by
  rintro ⟨last, hlast, hle⟩
  have := h.last_eq hlast
  exact hnew (mem_of_lt_firstMissing (by omega))

/-- A packet continues the sequence only if it was missing first. -/
theorem Collecting.eq_of_continues (hc : b.Continues (s + a.index)) :
    a.index = firstMissing (indices seen) := by
  obtain ⟨-, last, hlast, heq⟩ := hc
  have := h.last_eq hlast
  omega

/-- The packet that was missing first continues the sequence, unless it is a recovery. -/
theorem Collecting.continues_or (hfirst : a.index = firstMissing (indices seen)) :
    b.Continues (s + a.index) ∨ (b.Awaits u s ∧ a.index = 0 ∧ Recovery cfg u 0) := by
  rcases h.cursor with ⟨hlast, hw⟩ | ⟨hawaits, hzero, hrec⟩
  · exact .inl ⟨by simpa using hw, _, hlast, by rw [hfirst, sub_add_cancel]⟩
  · exact .inr ⟨hawaits, hfirst.trans hzero, hrec⟩

end

/-- The outcome of an arrival: the unit is still incomplete, or handed out. -/
def Arrived (cfg : Config) (u : PacketizedUnit) (s : ℤ) (seen : List Arrival)
    (frames : List Emitted) (b : PacketBuffer) : Prop :=
  (frames = [] ∧ Collecting cfg u s seen b) ∨
  ((∀ i < u.count, i ∈ indices seen) ∧
    (∃ e, frames = [e] ∧ e.frame.nalus = u.nalus ∧ e.frame.complete = true) ∧ Finished u s b)

section

variable (h : Collecting cfg u s seen b)
include h

section

variable (hu : u.Valid cfg)
include hu

/-- A packet that was not missing first waits for those before it. -/
theorem Collecting.waits (ha : a.index < u.count) (hnew : a.index ∉ indices seen)
    (hne : a.index ≠ firstMissing (indices seen)) :
    Arrived cfg u s (seen ++ [a]) (b.storePacket cfg (s + a.index) (u.sent a) a.now).1
      (b.storePacket cfg (s + a.index) (u.sent a) a.now).2 := by
  have hbehind := h.not_behind hnew
  have hslot := h.holds.occupant_eq_none hu h.bound ha hnew
  have hinv := h.inv.storePacket hbehind hslot cfg (u.sent a) a.now
  have hpos : 0 < a.index := by
    by_contra hzero
    exact hne.lt_or_gt.elim (fun hlt => hnew (mem_of_lt_firstMissing hlt)) (by omega)
  rw [storePacket] at hinv ⊢
  obtain ⟨-, -, hfind⟩ | ⟨b', hb', -⟩ := findFrames_cases cfg
    (h.inv.toLoose.putPacket hbehind hslot (u.sent a) a.now)
    ((Store.getPacket_putPacket hslot _ _ _).trans (if_pos rfl)) hbehind
  · rw [hfind] at hinv ⊢
    exact .inl ⟨rfl, h.stays ha hne hinv (h.holds.putPacket hslot)⟩
  · rcases hb' with ⟨hc, -⟩ | ⟨-, hbos, -⟩
    · exact absurd (h.eq_of_continues hc) hne
    · exact absurd ((recovery_iff hu ha _).1 hbos) (hu.later _ ha hpos)

/-- The packet that was missing first lets the buffer go on. -/
theorem Collecting.advances (hfirst : a.index = firstMissing (indices seen)) :
    Arrived cfg u s (seen ++ [a]) (b.storePacket cfg (s + a.index) (u.sent a) a.now).1
      (b.storePacket cfg (s + a.index) (u.sent a) a.now).2 := by
  have ha : a.index < u.count := hfirst ▸ h.missing
  have hnew : a.index ∉ indices seen := hfirst ▸ firstMissing_notMem _
  have hbehind := h.not_behind hnew
  have hslot := h.holds.occupant_eq_none hu h.bound ha hnew
  have hinv := h.inv.storePacket hbehind hslot cfg (u.sent a) a.now
  have hholds := h.holds.putPacket hslot
  have hbelow : ∀ i < a.index, i ∈ indices (seen ++ [a]) := fun i hi =>
    indices_concat seen a ▸ mem_append_left _ (mem_of_lt_firstMissing (hfirst ▸ hi))
  have hopened : Opened u s a.index b := hfirst ▸ h.opened
  have hbound := forall_mem_concat.2 ⟨h.bound, ha⟩
  rw [storePacket] at hinv ⊢
  obtain ⟨hc, hbos, -⟩ | ⟨b', hb', hscan, hturn, hfind⟩ := findFrames_cases cfg
    (h.inv.toLoose.putPacket hbehind hslot (u.sent a) a.now)
    ((Store.getPacket_putPacket hslot _ _ _).trans (if_pos rfl)) hbehind
  · exfalso
    rcases h.continues_or hfirst with hcont | ⟨hawaits, hzero, hrec⟩
    · exact hc hcont
    · obtain ⟨us, hread⟩ := reads hu ha a.receiveTimeMs
      obtain ⟨hsome, ht⟩ := hbos ((recovery_iff hu ha _).2 (hzero ▸ hrec))
      rcases hawaits with hl | ⟨-, hne⟩
      · exact absurd hsome (by simp [hl])
      · exact hne (ht.trans (congrArg some hread.timestamp))
  · rw [hfind] at hinv ⊢
    obtain ⟨hholds', hopened'⟩ : Holds u s (seen ++ [a]) b'.toStore ∧ Opened u s a.index b' := by
      rcases hb' with ⟨-, rfl⟩ | ⟨hc, -, rfl⟩
      · exact ⟨hholds, hopened.congr rfl rfl rfl⟩
      · -- Only the first packet of a unit is a recovery.
        obtain ⟨-, hzero, -⟩ := (h.continues_or hfirst).resolve_left hc
        have hthin := Store.thinned_removePacketsBefore
          (b.putPacket (s + a.index) (u.sent a) a.now) (s + a.index)
        have htop : s + (a.index : ℤ) - 1 = s - 1 := by rw [hzero]; simp
        rw [htop] at hthin
        exact ⟨hholds.thin hthin, fun _ => rfl, fun hpos => absurd hzero hpos.ne', rfl⟩
    obtain ⟨sc, rfl, ⟨j, hj, hmissing, hframes, hstore, hopen, hlast, hw⟩ |
      ⟨hall, hframe, hlast, hnone⟩⟩ := scan_unit hu hholds' hbound ha hbelow hopened' hscan hturn
    · refine .inl ⟨hframes, hinv, hstore ▸ hholds', hbound, ?_, ?_, .inl ⟨?_, hw⟩⟩
      all_goals rwa [hmissing]
    · exact .inr ⟨hall, hframe, hinv, hlast, hnone⟩

theorem Collecting.insertAs (ha : a.index < u.count) :
    Arrived cfg u s (seen ++ [a]) (b.insertAs cfg (s + a.index) (u.sent a) a.now).1.frames
      (b.insertAs cfg (s + a.index) (u.sent a) a.now).2 := by
  by_cases hnew : a.index ∈ indices seen
  · exact .inl (h.again ha hnew _ _)
  · have hslot := h.holds.occupant_eq_none hu h.bound ha hnew
    rw [PacketBuffer.insertAs, if_neg (h.not_behind hnew), hslot]
    by_cases hfirst : a.index = firstMissing (indices seen)
    · exact h.advances hu hfirst
    · exact h.waits hu ha hnew hfirst

end

end

/-! ## The numbers of the packets -/

/-- The latest number is within the unit, or directly before it. -/
structure Near (u : PacketizedUnit) (s : ℤ) (w : Unwrapper) : Prop where
  initialized : w.initialized = true
  above : s - 1 ≤ w.latestUnwrappedSeq
  below : w.latestUnwrappedSeq ≤ s + u.count - 1

/-- The packet `i` is read as number `s + i`. -/
def Numbers (u : PacketizedUnit) (s : ℤ) (w : Unwrapper) (i : ℕ) : Prop :=
  (w.unwrap (u.firstSeq + ofNat 16 i)).1 = s + i ∧ Near u s (w.unwrap (u.firstSeq + ofNat 16 i)).2

theorem ofInt_add_ofNat (s : ℤ) (i : ℕ) : ofInt 16 s + ofNat 16 i = ofInt 16 (s + i) := by
  rw [BitVec.ofInt_add, BitVec.ofInt_natCast]

/-- A unit is not longer than half a turn of the numbers. -/
theorem Near.numbers {w : Unwrapper} (h : Near u s w) (hu : u.Valid cfg)
    (hs : u.firstSeq = ofInt 16 s) (hi : i < u.count) : Numbers u s w i := by
  have hlimit : u.count ≤ 2048 := hu.limit.trans (frameLimit_le cfg)
  have habove := h.above
  have hbelow := h.below
  have hnear : unwrapNear w.latestUnwrappedSeq (u.firstSeq + ofNat 16 i) = s + i := by
    rw [hs, ofInt_add_ofNat]
    exact unwrapNear_ofInt (by omega) (by omega)
  rw [Numbers, Unwrapper.unwrap, if_pos h.initialized, hnear]
  exact ⟨rfl, h.initialized, le_max_of_le_left habove, max_le hbelow (by omega)⟩

/-- On a fresh buffer the first packet that arrives fixes the numbers. -/
theorem numbers_first (hi : i < u.count) : ∃ s : ℤ, u.firstSeq = ofInt 16 s ∧ Numbers u s {} i := by
  refine ⟨((u.firstSeq + ofNat 16 i).toNat : ℤ) - i, ?_, ?_, rfl, ?_, ?_⟩
  · refine (BitVec.add_left_inj (ofNat 16 i)).1 ?_
    rw [ofInt_add_ofNat, sub_add_cancel, BitVec.ofInt_natCast, BitVec.ofNat_toNat,
      BitVec.setWidth_eq]
  · simp [Unwrapper.unwrap]
  all_goals
    simp only [Unwrapper.unwrap, Bool.false_eq_true, if_false]
    omega

/-! ## A packet is inserted -/

theorem Collecting.setUnwrapper (h : Collecting cfg u s seen b) (w : Unwrapper) :
    Collecting cfg u s seen { b with seqUnwrapper := w } :=
  ⟨h.inv.setUnwrapper w, h.holds, h.bound, h.missing, h.opened.congr rfl rfl rfl, h.cursor⟩

/-- What arrived with `x` may still wait when `y` arrives. -/
def InTime (cfg : Config) (x y : Arrival) : Prop := y.now - x.now < cfg.maxWaitMs * 1000000
  deriving Decidable

/-- No packet has waited too long. -/
theorem Collecting.not_expired (h : Collecting cfg u s seen b)
    (htime : ∀ x ∈ seen, InTime cfg x a) : ¬b.Expired cfg a.now := by
  rintro ⟨entry, he, hlate⟩
  obtain ⟨p, hp, harrival⟩ := h.inv.sound.getPacket_of_mem (mem_of_mem_head? he)
  obtain ⟨-, -, -, -, x, hx, hnow⟩ := h.holds.only _ p hp
  refine hlate (.inr ?_)
  rw [← harrival, hnow]
  exact htime x hx

section

variable (hu : u.Valid cfg) (ha : a.index < u.count) (hn : Numbers u s b.seqUnwrapper a.index)
include hu ha hn

/-- A packet of the unit is inserted under its number, if nothing has waited too long. -/
theorem insertPacket_unit (hexp : ¬b.Expired cfg a.now) :
    ∃ w, Near u s w ∧
      (b.insertPacket cfg (u.sent a) a.now).1.frames =
        ({ b with seqUnwrapper := w }.insertAs cfg (s + a.index) (u.sent a) a.now).1.frames ∧
      (b.insertPacket cfg (u.sent a) a.now).2 =
        ({ b with seqUnwrapper := w }.insertAs cfg (s + a.index) (u.sent a) a.now).2 := by
  obtain ⟨us, hread⟩ := reads hu ha a.receiveTimeMs
  have hvalid : ¬(¬(u.sent a).valid ∨ (u.sent a).malformed) := by
    rw [sent, packet, hread.valid, hread.wellFormed]
    decide
  have hseq : (u.sent a).seq = u.firstSeq + ofNat 16 a.index := hread.seq
  refine ⟨_, hn.2, ?_⟩
  rw [← hn.1, insertPacket_of_valid hvalid, flushExpired, if_neg hexp, hseq]
  exact ⟨rfl, rfl⟩

theorem Collecting.insertPacket (h : Collecting cfg u s seen b)
    (htime : ∀ x ∈ seen, InTime cfg x a) :
    Arrived cfg u s (seen ++ [a]) (b.insertPacket cfg (u.sent a) a.now).1.frames
        (b.insertPacket cfg (u.sent a) a.now).2 ∧
      Near u s (b.insertPacket cfg (u.sent a) a.now).2.seqUnwrapper := by
  obtain ⟨w, hw, hframes, hb⟩ := insertPacket_unit hu ha hn (h.not_expired htime)
  rw [hframes, hb, insertAs_seqUnwrapper]
  exact ⟨(h.setUnwrapper w).insertAs hu ha, hw⟩

/-- A packet of a unit that has been handed out is late. -/
theorem Finished.insertPacket (h : Finished u s b) :
    (b.insertPacket cfg (u.sent a) a.now).1.frames = [] ∧
      Finished u s (b.insertPacket cfg (u.sent a) a.now).2 ∧
      Near u s (b.insertPacket cfg (u.sent a) a.now).2.seqUnwrapper := by
  have hexp : ¬b.Expired cfg a.now := by
    rintro ⟨entry, he, -⟩
    obtain ⟨p, hp, -⟩ := h.inv.sound.getPacket_of_mem (mem_of_mem_head? he)
    exact absurd (hp.symm.trans (h.empty _)) (some_ne_none p)
  obtain ⟨w, hw, hframes, hb⟩ := insertPacket_unit hu ha hn hexp
  have hbehind : { b with seqUnwrapper := w }.Behind (s + a.index) := ⟨_, h.last, by omega⟩
  rw [hframes, hb, insertAs_seqUnwrapper, PacketBuffer.insertAs, if_pos hbehind]
  exact ⟨rfl, ⟨h.inv.setUnwrapper w, h.last, h.empty⟩, hw⟩

end

/-! ## All arrivals -/

/-- The frames that each arrival hands out. -/
def outputs (cfg : Config) (u : PacketizedUnit) : PacketBuffer → List Arrival → List (List Emitted)
  | _, [] => []
  | b, a :: arrivals =>
    (b.insertPacket cfg (u.packet a.index a.receiveTimeMs) a.now).1.frames ::
      outputs cfg u (b.insertPacket cfg (u.packet a.index a.receiveTimeMs) a.now).2 arrivals

theorem Finished.outputs_eq (hu : u.Valid cfg) (hs : u.firstSeq = ofInt 16 s)
    {post : List Arrival} (hbound : ∀ x ∈ post, x.index < u.count) (h : Finished u s b)
    (hnear : Near u s b.seqUnwrapper) : outputs cfg u b post = replicate post.length [] := by
  induction post generalizing b with
  | nil => rfl
  | cons x post ih =>
    have hx := hbound x mem_cons_self
    obtain ⟨hframes, hfin, hnear'⟩ := h.insertPacket hu hx (hnear.numbers hu hs hx)
    rw [outputs, hframes, ih (fun y hy => hbound y (mem_cons_of_mem _ hy)) hfin hnear',
      length_cons, replicate_succ]

/-- The arrivals up to the one that completes the unit, and those after it. -/
theorem Collecting.outputs_eq (hu : u.Valid cfg) (hs : u.firstSeq = ofInt 16 s)
    {pre post : List Arrival} (h : Collecting cfg u s seen b)
    (hbound : ∀ x ∈ pre ++ a :: post, x.index < u.count)
    (hn : ∀ x ∈ (pre ++ a :: post).head?, Numbers u s b.seqUnwrapper x.index)
    (hmissing : ∃ i < u.count, i ∉ indices (seen ++ pre))
    (hall : ∀ i < u.count, i ∈ indices (seen ++ pre ++ [a]))
    (htime : (seen ++ pre ++ [a]).Pairwise (InTime cfg)) :
    ∃ e, outputs cfg u b (pre ++ a :: post) =
        replicate pre.length [] ++ [e] :: replicate post.length [] ∧
      e.frame.nalus = u.nalus ∧ e.frame.complete = true := by
  -- The packets seen are what the induction carries: each arrival goes over to them.
  induction pre generalizing seen b with
  | nil =>
    rw [append_nil] at hall htime
    have htime' : ∀ x ∈ seen, InTime cfg x a := fun x hx =>
      (pairwise_append.1 htime).2.2 x hx a mem_cons_self
    obtain ⟨harrived, hnear⟩ := h.insertPacket hu (hbound a mem_cons_self) (hn a rfl) htime'
    rcases harrived with ⟨-, hcollect⟩ | ⟨-, ⟨e, hframes, he⟩, hfin⟩
    · exact absurd (hall _ hcollect.missing) (firstMissing_notMem _)
    · refine ⟨e, ?_, he⟩
      rw [nil_append, outputs, hframes, hfin.outputs_eq hu hs
        (fun x hx => hbound x (mem_cons_of_mem _ hx)) hnear]
      rfl
  | cons x pre ih =>
    rw [append_cons seen x pre] at hmissing hall htime
    have htime' : ∀ y ∈ seen, InTime cfg y x := fun y hy =>
      (pairwise_append.1 (pairwise_append.1 (pairwise_append.1 htime).1).1).2.2
        y hy x mem_cons_self
    obtain ⟨harrived, hnear⟩ := h.insertPacket hu (hbound x mem_cons_self) (hn x rfl) htime'
    have hbound' : ∀ y ∈ pre ++ a :: post, y.index < u.count := fun y hy =>
      hbound y (mem_cons_of_mem _ hy)
    rcases harrived with ⟨hframes, hcollect⟩ | ⟨hdone, -⟩
    · obtain ⟨e, houtputs, he⟩ := ih hcollect hbound'
        (fun y hy => hnear.numbers hu hs (hbound' y (mem_of_mem_head? hy)))
        hmissing hall htime
      refine ⟨e, ?_, he⟩
      rw [cons_append, outputs, hframes, houtputs]
      rfl
    · obtain ⟨i, hi, hnot⟩ := hmissing
      refine absurd ?_ hnot
      rw [indices, map_append]
      exact mem_append_left _ (hdone i hi)

/-- A buffer that has handed out all it can: it holds nothing, and the unit is next. If it
    waits for a recovery, the unit is one. -/
structure CaughtUp (cfg : Config) (u : PacketizedUnit) (b : PacketBuffer) : Prop where
  reached : ∃ calls, b = run (step cfg) {} calls
  empty : ∀ x, b.getPacket x = none
  closed : b.currentFrameStart = none
  next : ∃ last, b.lastContinuousUnwrappedSeq = some last ∧ u.firstSeq = ofInt 16 (last + 1)
  starts : b.waitingForRecovery = false ∨
    (Recovery cfg u 0 ∧ b.lastContinuousTimestamp ≠ some u.timestamp)

theorem holds_nil (hempty : ∀ x, st.getPacket x = none) : Holds u s [] st where
  stored := nofun
  only x p hx := absurd (hx.symm.trans (hempty x)) (some_ne_none p)

/-- Nothing of the unit has arrived. -/
theorem collecting_nil (hu : u.Valid cfg) (hinv : b.Inv) (hempty : ∀ x, b.getPacket x = none)
    (hclosed : b.currentFrameStart = none)
    (hcursor : (b.lastContinuousUnwrappedSeq = some (s - 1) ∧ b.waitingForRecovery = false) ∨
      (b.Awaits u s ∧ Recovery cfg u 0)) : Collecting cfg u s [] b := by
  have hzero : firstMissing (indices []) = 0 := rfl
  refine ⟨hinv, holds_nil hempty, nofun, count_pos hu, ?_, ?_⟩
  · exact ⟨fun _ => hclosed, fun hpos => absurd hzero hpos.ne', hinv.idle hclosed⟩
  · rw [hzero, Nat.cast_zero, add_zero]
    exact hcursor.imp_right fun ⟨hawaits, hbos⟩ => ⟨hawaits, rfl, hbos⟩

/-- An access unit is cut into packets, and these arrive in any order, any number of times,
    at a buffer that is fresh or has caught up, no two further apart than the time a packet
    may wait. Then one frame is handed out, with the arrival that completes the unit. Its
    NAL units are those that were cut up. -/
theorem depacketizes (hu : u.Valid cfg) (hb : b = {} ∧ Recovery cfg u 0 ∨ CaughtUp cfg u b)
    {pre post : List Arrival} (hbound : ∀ x ∈ pre ++ a :: post, x.index < u.count)
    (hmissing : ∃ i < u.count, i ∉ indices pre) (hall : ∀ i < u.count, i ∈ indices (pre ++ [a]))
    (htime : (pre ++ [a]).Pairwise (InTime cfg)) :
    ∃ e, outputs cfg u b (pre ++ a :: post) =
        List.replicate pre.length [] ++ [e] :: List.replicate post.length [] ∧
      e.frame.nalus = u.nalus ∧ e.frame.complete = true := by
  rcases hb with ⟨rfl, hbos⟩ | ⟨⟨calls, rfl⟩, hempty, hclosed, ⟨last, hlast, hs⟩, hstarts⟩
  · obtain ⟨first, hfirst⟩ : ∃ x, (pre ++ a :: post).head? = some x := by
      cases pre <;> exact ⟨_, rfl⟩
    obtain ⟨s, hs, hn⟩ := numbers_first (hbound first (mem_of_mem_head? hfirst))
    have hcollect : Collecting cfg u s [] {} :=
      collecting_nil hu inv_init (fun _ => rfl) rfl (.inr ⟨.inl rfl, hbos⟩)
    refine hcollect.outputs_eq hu hs hbound (fun x hx => ?_) hmissing hall htime
    obtain rfl := some.inj (hfirst.symm.trans hx)
    exact hn
  · have hpred : last + 1 - 1 = last := add_sub_cancel_right last 1
    have hcollect : Collecting cfg u (last + 1) [] (run (step cfg) {} calls) := by
      refine collecting_nil hu (inv_run cfg calls) hempty hclosed ?_
      rw [Awaits, hpred]
      exact hstarts.imp (fun hw => ⟨hlast, hw⟩) fun ⟨hbos, ht⟩ => ⟨.inr ⟨hlast, ht⟩, hbos⟩
    have hnear : Near u (last + 1) (run (step cfg) {} calls).seqUnwrapper := by
      rw [unwrapper_of_caughtUp (tracks_run cfg calls) hempty hlast]
      exact ⟨rfl, hpred.le, by dsimp only; omega⟩
    exact hcollect.outputs_eq hu hs hbound
      (fun x hx => hnear.numbers hu hs (hbound x (mem_of_mem_head? hx))) hmissing hall htime

/-- The parameter sets together, and an IDR picture: a slice in two fragments, and another
    slice. The numbers wrap within the unit. -/
def pictureUnit : PacketizedUnit where
  pieces := [.stapA 0x78 [[0x67, 0x42], [0x68, 0xCE]], .fuA [0x65, 0x88, 0x80] [[0x88], [0x80]],
    .single [0x65, 0x11]]
  ssrc := 7
  timestamp := 9
  firstSeq := 65534

theorem pictureUnit_valid : pictureUnit.Valid { idrOnlyKeyframesAllowed := false } where
  pieces := by
    intro piece hpiece
    simp only [pictureUnit, mem_cons, not_mem_nil, or_false] at hpiece
    rcases hpiece with rfl | rfl | rfl
    · refine ⟨by decide, by decide, by decide, fun nalu hnalu => ?_⟩
      simp only [mem_cons, not_mem_nil, or_false] at hnalu
      rcases hnalu with rfl | rfl <;> exact ⟨⟨by decide, by decide, by decide⟩, by decide⟩
    · exact ⟨⟨by decide, by decide, by decide⟩, by decide, by decide, by decide⟩
    · exact ⟨by decide, by decide, by decide⟩
  nonempty := cons_ne_nil _ _
  starts := by
    rintro nalu hnalu
    obtain rfl : [0x65, 0x88, 0x80] = nalu := some.inj hnalu
    decide
  takes := .inr fun _ =>
    ⟨⟨[0x67, 0x42], by decide, by decide⟩, ⟨[0x68, 0xCE], by decide, by decide⟩⟩
  limit := by decide
  later := by decide

/-- The last packet comes first, one comes twice, and the first comes last and again. -/
theorem depacketizes_pictureUnit :
    ∃ e, outputs { idrOnlyKeyframesAllowed := false } pictureUnit {}
        ([⟨3, 0, 0⟩, ⟨1, 1, 0⟩, ⟨3, 2, 0⟩, ⟨2, 3, 0⟩] ++ ⟨0, 4, 0⟩ :: [⟨0, 5, 0⟩]) =
          [[], [], [], [], [e], []] ∧
      e.frame.nalus = [[0x67, 0x42], [0x68, 0xCE], [0x65, 0x88, 0x80], [0x65, 0x11]] ∧
      e.frame.complete = true :=
  depacketizes pictureUnit_valid (.inl ⟨rfl, by decide⟩) (by decide) (by decide) (by decide)
    (by decide)

/-- A sequence parameter set and an IDR picture, each in its packet. -/
def bareUnit : PacketizedUnit where
  pieces := [.single [0x67, 0x42], .single [0x65, 0x88]]
  ssrc := 7
  timestamp := 9
  firstSeq := 1

/-- A buffer that is told to want parameter sets drops a picture without the picture
    parameter set, with all packets there and in order: no frame is handed out. -/
theorem drops_bareUnit :
    (∀ piece ∈ bareUnit.pieces, piece.Valid) ∧ StartsPicture bareUnit.nalus ∧
      bareUnit.count ≤ Config.frameLimit { idrOnlyKeyframesAllowed := false } ∧
      (∀ i < bareUnit.count, Recovery { idrOnlyKeyframesAllowed := false } bareUnit i ↔ i = 0) ∧
      outputs { idrOnlyKeyframesAllowed := false } bareUnit {} [⟨0, 0, 0⟩, ⟨1, 1, 0⟩] =
        [[], []] := by
  refine ⟨fun piece hpiece => ?_, fun nalu hnalu => ?_, by decide, by decide, by decide⟩
  · simp only [bareUnit, mem_cons, not_mem_nil, or_false] at hpiece
    rcases hpiece with rfl | rfl <;> exact ⟨by decide, by decide, by decide⟩
  · obtain rfl : [0x65, 0x88] = nalu := some.inj hnalu
    decide

end Collecting

end Packetia.H264
