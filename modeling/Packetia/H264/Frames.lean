import Packetia.Lib.Partial
import Packetia.H264.Invariant

/-!
# The frames of the H.264 packet buffer

Every frame is an access unit that was really sent, as far as the packets can tell.
`Carries units nalus` says what the units of a row of packets amount to: a unit that is
whole is a NAL unit, and the fragments of a unit, from the one that is marked as the
first to the one that is marked as the last, are joined under its header.

A `Session` keeps what was inserted since the last reset, with the extended numbers,
and the frames handed out. A frame is `Built` from packets in it: all the numbers from
the first to the last, the marker on the last. It begins where a picture can begin
(`Begins`): at a packet a decoder can start with, or behind the end of another picture.
-/

namespace Packetia.H264

open List Option PayloadUnit

/-! ## What units carry -/

/-- Fragments of one NAL unit, from the first on. With `done`, the last one is the
    last of the unit. -/
structure FuRun (header : Byte) (done : Bool) (units : List PayloadUnit) : Prop where
  fragments : ∀ u ∈ units,
    u.unitType = .fuAFragment ∧ u.reconstructedNalHeader = header ∧ u.data ≠ []
  starts : ∃ n, units.map fuStart = true :: List.replicate n false
  ends : ∃ n, units.map fuEnd = List.replicate n false ++ [done]

/-- The NAL units in a row of units. -/
inductive Carries : List PayloadUnit → List (List Byte) → Prop
  | nil : Carries [] []
  | whole {units : List PayloadUnit} {nalus : List (List Byte)} {u : PayloadUnit} :
    Carries units nalus → u.unitType = .singleNalu ∨ u.unitType = .stapANalu → u.data ≠ [] →
      Carries (units ++ [u]) (nalus ++ [u.data])
  | joined {units fragments : List PayloadUnit} {nalus : List (List Byte)} {header : Byte} :
    Carries units nalus → FuRun header true fragments →
      Carries (units ++ fragments) (nalus ++ [header :: fragments.flatMap data])

section Joining

variable {units : List PayloadUnit} {u : PayloadUnit} {header : Byte} {j j' : Joined}

theorem fuRun_singleton (hu : u.unitType = .fuAFragment) (hdata : u.data ≠ [])
    (hstart : u.fuStart = true) : FuRun u.reconstructedNalHeader u.fuEnd [u] where
  fragments v hv := by
    obtain rfl := mem_singleton.1 hv
    exact ⟨hu, rfl, hdata⟩
  starts := ⟨0, by simp [hstart]⟩
  ends := ⟨0, rfl⟩

theorem FuRun.concat (h : FuRun header false units) (hu : u.unitType = .fuAFragment)
    (hheader : u.reconstructedNalHeader = header) (hdata : u.data ≠ [])
    (hstart : u.fuStart = false) : FuRun header u.fuEnd (units ++ [u]) where
  fragments := forall_mem_concat.2 ⟨h.fragments, hu, hheader, hdata⟩
  starts := by
    obtain ⟨n, hn⟩ := h.starts
    exact ⟨n + 1, by simp [hn, hstart, replicate_succ']⟩
  ends := by
    obtain ⟨n, hn⟩ := h.ends
    exact ⟨n + 1, by simp [hn, replicate_succ']⟩

/-- What has been joined is carried by the units gone over. -/
def JoinInv (units : List PayloadUnit) (j : Joined) : Prop :=
  if j.fuActive then
    ∃ before fragments header, units = before ++ fragments ∧ Carries before j.nalus ∧
      FuRun header false fragments ∧ j.fuNalu = header :: fragments.flatMap data
  else Carries units j.nalus

/-- A unit that is whole is appended outside of a row of fragments. -/
theorem JoinInv.whole (hj : JoinInv units j)
    (hu : u.unitType = .singleNalu ∨ u.unitType = .stapANalu)
    (h : appendUnit j u = some j') : JoinInv (units ++ [u]) j' := by
  have happend : appendUnit j u = if j.fuActive ∨ u.data = [] then none
      else some { j with nalus := j.nalus ++ [u.data] } := by
    rcases hu with hu | hu <;> rw [appendUnit, hu]
  rw [happend] at h
  split_ifs at h with hno
  rw [not_or] at hno
  rw [JoinInv, if_neg hno.1] at hj
  rw [← some.inj h, JoinInv, if_neg hno.1]
  exact hj.whole hu hno.2

/-- A row of fragments is joined when its last one comes. -/
theorem joinInv_of_fuRun {before fragments : List PayloadUnit} {nalus : List (List Byte)}
    (hbefore : Carries before nalus) (hrun : FuRun header u.fuEnd fragments)
    (h : some (if u.fuEnd then
        { fuActive := false, fuNalu := [], nalus := nalus ++ [header :: fragments.flatMap data] }
      else { fuActive := true, fuNalu := header :: fragments.flatMap data, nalus }) =
        some j') : JoinInv (before ++ fragments) j' := by
  rw [← some.inj h]
  cases hend : u.fuEnd with
  | true =>
    rw [hend] at hrun
    exact hbefore.joined hrun
  | false =>
    rw [hend] at hrun
    exact ⟨before, fragments, header, rfl, hbefore, hrun, rfl⟩

theorem JoinInv.fragment (hj : JoinInv units j) (hu : u.unitType = .fuAFragment)
    (h : appendUnit j u = some j') : JoinInv (units ++ [u]) j' := by
  simp only [appendUnit, hu, bind_eq_bind, bind_eq_some_iff, guard_eq_some'] at h
  obtain ⟨-, hdata, fuNalu, hnalu, -, hhead, h⟩ := h
  cases hstart : u.fuStart with
  | true =>
    rw [hstart, if_pos rfl] at hnalu
    split_ifs at hnalu with hactive
    rw [JoinInv, if_neg hactive] at hj
    obtain rfl := some.inj hnalu
    refine joinInv_of_fuRun hj (fuRun_singleton hu hdata hstart) ?_
    simpa using h
  | false =>
    rw [hstart, if_neg Bool.false_ne_true] at hnalu
    split_ifs at hnalu with hactive
    rw [JoinInv, if_pos hactive] at hj
    obtain ⟨before, fragments, header, rfl, hbefore, hrun, hfu⟩ := hj
    obtain rfl := some.inj hnalu
    rw [hfu, head?_cons, some.injEq] at hhead
    rw [append_assoc]
    refine joinInv_of_fuRun hbefore (hrun.concat hu hhead.symm hdata hstart) ?_
    simpa [hfu] using h

theorem JoinInv.appendUnit (hj : JoinInv units j) (h : appendUnit j u = some j') :
    JoinInv (units ++ [u]) j' := by
  cases hu : u.unitType with
  | unknown => rw [H264.appendUnit, hu] at h; cases h
  | singleNalu => exact hj.whole (.inl hu) h
  | stapANalu => exact hj.whole (.inr hu) h
  | fuAFragment => exact hj.fragment hu h

end Joining

/-! ## What is assembled -/

section Assembling

variable {cfg : Config} {frame frame' : AccessUnit} {packets : List ParsedPacket}

/-- The identity of a frame, which its packets do not change. -/
def AccessUnit.SameStream (frame frame' : AccessUnit) : Prop :=
  frame'.ssrc = frame.ssrc ∧ frame'.timestamp = frame.timestamp ∧
    frame'.firstSeq = frame.firstSeq ∧ frame'.lastSeq = frame.lastSeq

theorem checkPacket_eq_some {c c' : Checked} {packet : ParsedPacket}
    (h : checkPacket c packet = some c') :
    packet.ssrc = c.frame.ssrc ∧ packet.timestamp = c.frame.timestamp ∧
      c'.frame = c.frame.mark packet := by
  simp only [checkPacket, bind_eq_bind, bind_eq_some_iff, guard_eq_some'] at h
  obtain ⟨-, ⟨hssrc, hts⟩, _, -, _, -, h⟩ := h
  rw [← some.inj h]
  exact ⟨hssrc, hts, rfl⟩

/-- The packets of a frame are of one stream and one time. -/
theorem checkPackets_eq_some {c : Checked} (h : packets.foldlM checkPacket { frame } = some c) :
    frame.SameStream c.frame ∧
      ∀ p ∈ packets, p.ssrc = frame.ssrc ∧ p.timestamp = frame.timestamp := by
  refine foldlM_induction (P := fun ps c => frame.SameStream c.frame ∧
    ∀ p ∈ ps, p.ssrc = frame.ssrc ∧ p.timestamp = frame.timestamp)
    ⟨⟨rfl, rfl, rfl, rfl⟩, by simp⟩ ?_ h
  rintro ps packet c c' ⟨⟨hssrc, hts, hfirst, hlast⟩, hps⟩ hstep
  obtain ⟨hssrc', hts', hframe⟩ := checkPacket_eq_some hstep
  rw [hframe]
  exact ⟨⟨hssrc, hts, hfirst, hlast⟩, forall_mem_concat.2 ⟨hps, hssrc'.trans hssrc, hts'.trans hts⟩⟩

/-- A frame has the NAL units that its packets carry. -/
theorem assemble_eq_some (h : assemble cfg frame packets = some frame') :
    frame.SameStream frame' ∧
      (∀ p ∈ packets, p.ssrc = frame.ssrc ∧ p.timestamp = frame.timestamp) ∧
      Carries (packets.flatMap ParsedPacket.units) frame'.nalus := by
  simp only [assemble, bind_eq_bind, bind_eq_some_iff, guard_eq_some'] at h
  obtain ⟨c, hc, -, -, -, -, j, hj, -, hdone, h⟩ := h
  obtain ⟨hsame, hpackets⟩ := checkPackets_eq_some hc
  have hunits : (packets.flatMap ParsedPacket.units).foldlM appendUnit {} = some j := by
    rw [foldlM_flatMap]
    exact hj
  have hinv : JoinInv (packets.flatMap ParsedPacket.units) j :=
    foldlM_induction (show JoinInv [] {} from .nil)
      (fun _ _ _ _ hl ha => hl.appendUnit ha) hunits
  rw [not_or] at hdone
  rw [JoinInv, if_neg hdone.1] at hinv
  rw [← some.inj h]
  exact ⟨hsame, hpackets, hinv⟩

end Assembling

/-! ## Sessions -/

/-- The packets inserted, with their extended numbers. -/
abbrev Log := List (ℤ × ParsedPacket)

/-- A picture can begin with the packet `p`, which is numbered `x`. -/
def Begins (cfg : Config) (log : Log) (x : ℤ) (p : ParsedPacket) : Prop :=
  BeginningOfStream cfg p ∨ ∃ q, (x - 1, q) ∈ log ∧ (q.marker = true ∨ q.timestamp ≠ p.timestamp)

/-- The frame is built from `packets`, which were all inserted. -/
structure BuiltFrom (cfg : Config) (log : Log) (e : Emitted) (packets : List ParsedPacket) :
    Prop where
  inserted : List.Forall₂ (fun x p => (x, p) ∈ log) (seqRange e.first e.last) packets
  begins : ∃ p ∈ packets.head?, Begins cfg log e.first p
  marker : ∃ p ∈ packets.getLast?, p.marker = true
  stream : ∀ p ∈ packets, p.ssrc = e.frame.ssrc ∧ p.timestamp = e.frame.timestamp
  limit : packets.length ≤ cfg.frameLimit
  carries : Carries (packets.flatMap ParsedPacket.units) e.frame.nalus
  numbers : e.frame.firstSeq = BitVec.ofInt 16 e.first ∧ e.frame.lastSeq = BitVec.ofInt 16 e.last

/-- A buffer with what was inserted and handed out since the last reset. -/
structure Session where
  buffer : PacketBuffer := {}
  log : Log := []
  emitted : List Emitted := []

/-- A call in a session. -/
def Session.step (cfg : Config) (s : Session) : PacketBuffer.Call → Session
  | .insertPacket packet now =>
    let r := s.buffer.insertPacket cfg packet now
    { buffer := r.2
      log := if r.1.inserted then
          s.log ++ [((s.buffer.seqUnwrapper.unwrap packet.seq).1, packet)]
        else s.log
      emitted := s.emitted ++ r.1.frames }
  | .flushExpired now => { s with buffer := (s.buffer.flushExpired cfg now).2 }
  | .reset => { buffer := s.buffer.reset }

section Log

variable {cfg : Config} {log log' : Log}

theorem Begins.mono (h : log ⊆ log') {x : ℤ} {p : ParsedPacket} (hp : Begins cfg log x p) :
    Begins cfg log' x p :=
  hp.imp_right fun ⟨q, hq, hq'⟩ => ⟨q, h hq, hq'⟩

theorem BuiltFrom.mono (h : log ⊆ log') {e : Emitted} {packets : List ParsedPacket}
    (he : BuiltFrom cfg log e packets) : BuiltFrom cfg log' e packets :=
  { he with
    inserted := he.inserted.imp fun _ _ hx => h hx
    begins := he.begins.imp fun _ hp => ⟨hp.1, hp.2.mono h⟩ }

end Log

theorem seqRange_cons {start stop : ℤ} (h : start ≤ stop) :
    seqRange start stop = start :: seqRange (start + 1) stop := by
  obtain ⟨n, rfl⟩ := Int.le.dest h
  have h₁ : (start + n + 1 - start).toNat = n + 1 := by omega
  have h₂ : (start + n + 1 - (start + 1)).toNat = n := by omega
  rw [seqRange, seqRange, h₁, h₂, range_succ_eq_map, map_cons, List.map_map]
  congr 1
  · simp
  · refine map_congr_left fun i _ => ?_
    simp only [Function.comp_apply]
    push_cast
    ring

theorem seqRange_concat {start stop : ℤ} (h : start ≤ stop) :
    seqRange start stop = seqRange start (stop - 1) ++ [stop] := by
  obtain ⟨n, rfl⟩ := Int.le.dest h
  have h₁ : (start + n + 1 - start).toNat = n + 1 := by omega
  have h₂ : (start + n - 1 + 1 - start).toNat = n := by omega
  rw [seqRange, seqRange, h₁, h₂, range_succ, map_append, map_singleton]

variable {b' : PacketBuffer} {before : List Emitted}

namespace PacketBuffer

open Store (Sound Thinned)

variable {cfg : Config} {log log' : Log} {b : PacketBuffer} {seq start : ℤ} {p : BufferedPacket}
  {frames : List Emitted} {frame : AccessUnit}

/-! ## A round -/

/-- The buffered packets were inserted, and the open frame begins where a picture can
    begin. -/
structure Genuine (cfg : Config) (log : Log) (b : PacketBuffer) : Prop where
  logged : ∀ x p, b.getPacket x = some p → (x, p.packet) ∈ log
  begun : ∀ start ∈ b.currentFrameStart, ∀ p, b.getPacket start = some p →
    Begins cfg log start p.packet

/-- What is known of the packet before `seq`: it ended a frame, or it belongs to the
    open one. -/
structure Follows (log : Log) (b : PacketBuffer) (seq : ℤ) : Prop where
  ended : b.currentFrameStart = none → ∃ q, (seq - 1, q) ∈ log ∧ q.marker = true
  within : ∀ start ∈ b.currentFrameStart,
    ∃ q, (seq - 1, q) ∈ log ∧ q.timestamp = b.currentFrameTimestamp

theorem Follows.mono (h : log ⊆ log') (hb : Follows log b seq) : Follows log' b seq :=
  ⟨fun hs => (hb.ended hs).imp fun _ hq => ⟨h hq.1, hq.2⟩,
    fun s hs => (hb.within s hs).imp fun _ hq => ⟨h hq.1, hq.2⟩⟩

theorem Follows.congr (hb : Follows log b seq) (hstart : b'.currentFrameStart = b.currentFrameStart)
    (ht : b'.currentFrameTimestamp = b.currentFrameTimestamp) : Follows log b' seq :=
  ⟨fun hs => hb.ended (hstart ▸ hs), fun s hs => ht ▸ hb.within s (hstart ▸ hs)⟩

/-- The scan comes to the packet `seq`: it follows the one before, or is a recovery. -/
def Reached (cfg : Config) (log : Log) (b : PacketBuffer) (seq : ℤ) : Prop :=
  Follows log b seq ∨
    b.currentFrameStart = none ∧ ∃ p, b.getPacket seq = some p ∧ BeginningOfStream cfg p.packet

/-- The frames so far are in order, and before the open one. -/
structure Ordered (frames : List Emitted) (b : PacketBuffer) (seq : ℤ) : Prop where
  sorted : frames.Pairwise fun e e' => e.last < e'.first
  behind : ∀ e ∈ frames, e.last < seq ∧ ∀ start ∈ b.currentFrameStart, e.last < start

section

variable (hg : Genuine cfg log b)
include hg

/-- A packet opens a frame only where a picture can begin. -/
theorem Genuine.enterFrame (hp : b.getPacket seq = some p) (hreach : Reached cfg log b seq) :
    Genuine cfg log (b.enterFrame seq p.packet.timestamp) ∧
      (b.enterFrame seq p.packet.timestamp).currentFrameTimestamp = p.packet.timestamp := by
  cases hstart : b.currentFrameStart with
  | none =>
    have hbegins : Begins cfg log seq p.packet := by
      rcases hreach with hf | ⟨-, p', hp', hbos⟩
      · obtain ⟨q, hq, hm⟩ := hf.ended hstart
        exact .inr ⟨q, hq, .inl hm⟩
      · obtain rfl := some.inj (hp.symm.trans hp')
        exact .inl hbos
    rw [enterFrame_of_none hstart]
    refine ⟨⟨hg.logged, fun s hs p' hp' => ?_⟩, rfl⟩
    obtain rfl := some.inj hs
    obtain rfl := some.inj (hp.symm.trans hp')
    exact hbegins
  | some start =>
    by_cases ht : b.currentFrameTimestamp = p.packet.timestamp
    · rw [enterFrame_of_same hstart ht]
      exact ⟨⟨hg.logged, hg.begun⟩, ht⟩
    · have hthin := Store.thinned_removePackets b.toStore start (sub_one_lt seq).le
      rw [enterFrame_of_ne hstart ht]
      refine ⟨⟨fun x p' hx => hg.logged x p' (hthin.sub hx), fun s hs p' hp' => ?_⟩, rfl⟩
      obtain rfl := some.inj hs
      obtain rfl := some.inj (hp.symm.trans (hthin.sub hp'))
      -- The packet before has the timestamp of the frame that is left open.
      rcases hreach with hf | ⟨hnone, -⟩
      · obtain ⟨q, hq, hqt⟩ := hf.within start hstart
        exact .inr ⟨q, hq, .inr (hqt ▸ ht)⟩
      · rw [hnone] at hstart
        cases hstart

theorem Genuine.thin {top : ℤ} (h : Thinned top b.toStore b'.toStore)
    (hstart : ∀ s ∈ b'.currentFrameStart, s ∈ b.currentFrameStart) : Genuine cfg log b' :=
  ⟨fun x p hx => hg.logged x p (h.sub hx),
    fun s hs p hp => hg.begun s (hstart s hs) p (h.sub hp)⟩

/-- A packet is stored, and noted in the log. The open frame stays as it was. -/
theorem Genuine.putPacket (hb : Loose b) (hbehind : ¬b.Behind seq)
    (hslot : b.buffer.occupant seq = none) (packet : ParsedPacket) (now : ℤ) :
    Genuine cfg (log ++ [(seq, packet)]) { b with toStore := b.putPacket seq packet now } := by
  have hsub : log ⊆ log ++ [(seq, packet)] := subset_append_left _ _
  have hget (x : ℤ) := Store.getPacket_putPacket hslot packet now x
  refine ⟨fun x p hx => ?_, fun s hstart p hp => ?_⟩
  · replace hx := (hget x).symm.trans hx
    split_ifs at hx with heq
    · simp [← some.inj hx, heq]
    · exact hsub (hg.logged x p hx)
  · obtain ⟨last, hlast, hle⟩ := hb.opened s hstart
    have hne : s ≠ seq := fun h => hbehind ⟨last, hlast, h ▸ hle⟩
    replace hp := (hget s).symm.trans hp
    rw [if_neg hne] at hp
    exact (hg.begun s hstart p hp).mono hsub

/-- The first half of a round: the packet is in its frame, which may be too long. -/
theorem Genuine.limitFrame (hscan : Scanning b seq) (hp : b.getPacket seq = some p)
    (hreach : Reached cfg log b seq) :
    ∃ start b₁, (b.enterFrame seq p.packet.timestamp).currentFrameStart = some start ∧
      start ≤ seq ∧ (b.enterFrame seq p.packet.timestamp).limitFrame cfg start seq = b₁ ∧
      Genuine cfg log b₁ ∧ b₁.currentFrameTimestamp = p.packet.timestamp ∧
      b₁.currentFrameStart = some start ∧ Thinned seq b.toStore b₁.toStore := by
  obtain ⟨start, hin, hthin⟩ := hscan.enterFrame p.packet.timestamp
  obtain ⟨hg', ht⟩ := hg.enterFrame hp hreach
  obtain ⟨st, hst, h | h⟩ := limitFrame_eq cfg (b.enterFrame seq p.packet.timestamp) start seq
  · exact ⟨start, _, hin.frame, hin.opened, h, hg', ht, hin.frame, hthin⟩
  · exact ⟨start, _, hin.frame, hin.opened, h, hg'.thin hst fun _ hs => hs, ht, hin.frame,
      hthin.trans hst⟩

/-- What `MaybeAssembleFrame` hands out is built from inserted packets. -/
theorem Genuine.builtFrom (hstart : b.currentFrameStart = some start)
    (hmarker : ∀ q, b.getPacket seq = some q → q.packet.marker = true)
    {st : Store} (h : b.maybeAssembleFrame cfg start seq = some (frame, st)) :
    ∃ packets, BuiltFrom cfg log { first := start, last := seq, frame } packets := by
  obtain ⟨hle, hlimit, -, first, rest, hpackets, hframe⟩ := maybeAssembleFrame_eq_some h
  rw [mapM_eq_some] at hpackets
  obtain ⟨⟨hssrc, hts, hfirst, hlast⟩, hstream, hcarries⟩ := assemble_eq_some hframe
  have hinserted : List.Forall₂ (fun x p => (x, p) ∈ log) (seqRange start seq) (first :: rest) :=
    hpackets.imp fun x q hx => by
      obtain ⟨p, hp, rfl⟩ := map_eq_some_iff.1 hx
      exact hg.logged x p hp
  refine ⟨first :: rest, hinserted, ⟨first, rfl, ?_⟩, ?_, ?_, ?_, hcarries, hfirst, hlast⟩
  · rw [seqRange_cons hle, forall₂_cons] at hpackets
    obtain ⟨p, hp, rfl⟩ := map_eq_some_iff.1 hpackets.1
    exact hg.begun start hstart p hp
  · rw [seqRange_concat hle, ← forall₂_reverse_iff, reverse_append,
      reverse_singleton, singleton_append, forall₂_cons_left_iff] at hpackets
    obtain ⟨q, _, hq, -, hrev⟩ := hpackets
    obtain ⟨p, hp, rfl⟩ := map_eq_some_iff.1 hq
    refine ⟨p.packet, ?_, hmarker p hp⟩
    rw [mem_def, getLast?_eq_head?_reverse, hrev, head?_cons]
  · intro p hp
    rw [hssrc, hts]
    exact hstream p hp
  · have hlen := hinserted.length_eq
    simp only [seqRange, length_map, length_range] at hlen
    omega

end

theorem finishFrame_frames (cfg : Config) (b : PacketBuffer) (start seq : ℤ) :
    (b.finishFrame cfg start seq).1 = [] ∨
    ∃ frame st, b.maybeAssembleFrame cfg start seq = some (frame, st) ∧
      (b.finishFrame cfg start seq).1 = [{ first := start, last := seq, frame }] := by
  rw [finishFrame]
  split_ifs
  · exact .inl rfl
  · cases h : b.maybeAssembleFrame cfg start seq with
    | none => exact .inl rfl
    | some r => exact .inr ⟨r.1, r.2, rfl, rfl⟩

theorem Ordered.concat (ho : frames.Pairwise fun e e' => e.last < e'.first)
    (hstart : ∀ e ∈ frames, e.last < start) (hle : start ≤ seq)
    (hnone : b'.currentFrameStart = none) :
    Ordered (frames ++ [{ first := start, last := seq, frame }]) b' (seq + 1) where
  sorted := by
    exact pairwise_concat.2 ⟨ho, hstart⟩
  behind e he := by
    refine ⟨?_, fun s hs => by rw [hnone] at hs; cases hs⟩
    rcases mem_append.1 he with he | he
    · have := hstart e he
      omega
    · obtain rfl := mem_singleton.1 he
      exact Int.lt_add_one_of_le le_rfl

/-- What the scan keeps: the packets are genuine, and the frames are built from them
    and in order. -/
structure Tracked (cfg : Config) (log : Log) (before : List Emitted) (s : Scan) : Prop where
  genuine : Genuine cfg log s.buffer
  ordered : Ordered (before ++ s.frames) s.buffer s.seq
  built : ∀ e ∈ s.frames, ∃ packets, BuiltFrom cfg log e packets

/-- The frames before are before the frame that the packet `seq` is in. -/
theorem Ordered.lt_start (ho : Ordered frames b seq) (timestamp : BitVec 32)
    (h : (b.enterFrame seq timestamp).currentFrameStart = some start) :
    ∀ e ∈ frames, e.last < start := by
  intro e he
  obtain ⟨hseq, hopen⟩ := ho.behind e he
  cases hstart : b.currentFrameStart with
  | none =>
    rw [enterFrame_of_none hstart] at h
    exact some.inj h ▸ hseq
  | some s =>
    by_cases ht : b.currentFrameTimestamp = timestamp
    · rw [enterFrame_of_same hstart ht] at h
      exact hopen start h
    · rw [enterFrame_of_ne hstart ht] at h
      exact some.inj h ▸ hseq

/-- The second half of a round, at a marker: the frame is handed out or dropped. -/
theorem Genuine.finishFrame (hg : Genuine cfg log b) (hstart : b.currentFrameStart = some start)
    (hle : start ≤ seq) (hlog : (seq, p.packet) ∈ log) (hm : p.packet.marker = true)
    (hp : ∀ q, b.getPacket seq = some q → q = p)
    (hsorted : frames.Pairwise fun e e' => e.last < e'.first) (hlt : ∀ e ∈ frames, e.last < start) :
    ∃ r, b.finishFrame cfg start seq = r ∧ Genuine cfg log r.2 ∧
      Ordered (frames ++ r.1) r.2 (seq + 1) ∧
      (∀ e ∈ r.1, ∃ packets, BuiltFrom cfg log e packets) ∧ Follows log r.2 (seq + 1) := by
  obtain ⟨st, hthin, -, hfin⟩ := finishFrame_eq cfg hstart seq
  have hnone : (b.finishFrame cfg start seq).2.currentFrameStart = none := by rw [hfin]
  have hstart' : ∀ s, s ∉ (b.finishFrame cfg start seq).2.currentFrameStart := by simp [hnone]
  have hg' : Genuine cfg log (b.finishFrame cfg start seq).2 :=
    hg.thin (by rw [hfin]; exact hthin) fun s hs => absurd hs (hstart' s)
  have hfollows : Follows log (b.finishFrame cfg start seq).2 (seq + 1) :=
    ⟨fun _ => ⟨p.packet, by rwa [add_sub_cancel_right], hm⟩, fun s hs => absurd hs (hstart' s)⟩
  refine ⟨_, rfl, hg', ?_, ?_, hfollows⟩ <;>
    rcases finishFrame_frames cfg b start seq with h | ⟨frame, st', hframe, h⟩ <;> rw [h]
  · rw [append_nil]
    refine ⟨hsorted, fun e he => ⟨?_, fun s hs => absurd hs (hstart' s)⟩⟩
    have := hlt e he
    omega
  · exact Ordered.concat hsorted hlt hle hnone
  · simp
  · intro e he
    obtain rfl := mem_singleton.1 he
    exact hg.builtFrom hstart (fun q hq => hp q hq ▸ hm) hframe

/-- A round keeps what is known of the scan. -/
theorem Tracked.round {s : Scan} (hs : Tracked cfg log before s) (hscan : Scanning s.buffer s.seq)
    (hp : s.buffer.getPacket s.seq = some p) (hreach : Reached cfg log s.buffer s.seq) :
    Tracked cfg log before (s.round cfg) ∧ Follows log (s.round cfg).buffer (s.round cfg).seq := by
  have hlog := hs.genuine.logged s.seq p hp
  obtain ⟨start, b, hin, hle, hb, hg, ht, hstart, hthin⟩ :=
    hs.genuine.limitFrame hscan hp hreach
  have hlt := hs.ordered.lt_start p.packet.timestamp hin
  rw [Scan.round_of_some hp]
  simp only [PacketBuffer.scanPacket, hin, getD_some, hb]
  split_ifs with hm
  · have hsame (q : BufferedPacket) (hq : b.getPacket s.seq = some q) : q = p :=
      some.inj ((hthin.sub hq).symm.trans hp)
    obtain ⟨_, rfl, hg', ho, hbuilt, hfollows⟩ :=
      hg.finishFrame hstart hle hlog hm hsame hs.ordered.sorted hlt
    rw [append_assoc] at ho
    refine ⟨⟨hg', ho, fun e he => ?_⟩, hfollows⟩
    exact (mem_append.1 he).elim (hs.built e) (hbuilt e)
  · rw [append_nil]
    refine ⟨⟨hg, ⟨hs.ordered.sorted, fun e he => ⟨?_, fun s hs => ?_⟩⟩, hs.built⟩,
      ⟨fun h => ?_, fun _ _ => ⟨p.packet, ?_, ht.symm⟩⟩⟩
    · exact (hs.ordered.behind e he).1.trans (lt_add_one _)
    · obtain rfl := some.inj (hstart.symm.trans hs)
      exact hlt e he
    · rw [hstart] at h
      cases h
    · rwa [add_sub_cancel_right]

/-- A scan keeps what is known, and goes over one packet at least. -/
theorem Tracked.scanFrom (hs : Tracked cfg log before { buffer := b, seq }) (hscan : Scanning b seq)
    (hturn : b.getPacket (seq + kBufferSize) = none) (hreach : Reached cfg log b seq) :
    Tracked cfg log before (scanFrom cfg b seq) ∧
      Follows log (scanFrom cfg b seq).buffer (scanFrom cfg b seq).seq ∧
      Scanning (scanFrom cfg b seq).buffer (scanFrom cfg b seq).seq ∧
      (scanFrom cfg b seq).buffer.getPacket (scanFrom cfg b seq).seq = none := by
  obtain ⟨⟨ht, hr⟩, hscan', hnone⟩ := scanFrom_spec cfg
    (P := fun s => Tracked cfg log before s ∧ Reached cfg log s.buffer s.seq)
    (fun s p hscan hp h => (h.1.round hscan hp h.2).imp_right .inl) hscan hturn ⟨hs, hreach⟩
  refine ⟨ht, hr.resolve_right fun h => ?_, hscan', hnone⟩
  obtain ⟨-, p, hp, -⟩ := h
  rw [hnone] at hp
  cases hp

end PacketBuffer

/-! ## A call -/

namespace Session

open PacketBuffer
open Store (Thinned)

variable {cfg : Config} {s : Session} {b : PacketBuffer} {log : Log} {frames : List Emitted}
  {seq : ℤ}

/-- What is known of a buffer, with the packets inserted and the frames handed out. -/
structure Inv (cfg : Config) (s : Session) : Prop where
  inv : s.buffer.Inv
  genuine : Genuine cfg s.log s.buffer
  follows : s.buffer.waitingForRecovery = false →
    ∀ last ∈ s.buffer.lastContinuousUnwrappedSeq, Follows s.log s.buffer (last + 1)
  sorted : s.emitted.Pairwise fun e e' => e.last < e'.first
  behind : ∀ e ∈ s.emitted, (∃ last ∈ s.buffer.lastContinuousUnwrappedSeq, e.last ≤ last) ∧
    ∀ start ∈ s.buffer.currentFrameStart, e.last < start
  built : ∀ e ∈ s.emitted, ∃ packets, BuiltFrom cfg s.log e packets

theorem inv_init : Inv cfg {} where
  inv := PacketBuffer.inv_init
  genuine := ⟨fun _ _ h => (by cases h), fun _ h => (by cases h)⟩
  follows _ _ h := by cases h
  sorted := .nil
  behind := nofun
  built := nofun

theorem Inv.flushExpired (hs : Inv cfg s) (now : ℤ) :
    Inv cfg { s with buffer := (s.buffer.flushExpired cfg now).2 } := by
  have hinv := hs.inv.flushExpired cfg now
  rw [PacketBuffer.flushExpired] at hinv ⊢
  split_ifs at hinv ⊢
  · refine ⟨hinv, ⟨fun _ _ h => (by cases h), fun _ h => (by cases h)⟩, fun h => (by cases h),
      hs.sorted, fun e he => ⟨?_, fun _ h => (by cases h)⟩, hs.built⟩
    exact le_floor _ (.inl (hs.behind e he).1)
  · exact hs

/-- The frames before are before the packets that are not behind. -/
theorem Inv.ordered (hs : Inv cfg s) (hbehind : ¬s.buffer.Behind seq)
    (hstart : ∀ start ∈ b'.currentFrameStart, start ∈ s.buffer.currentFrameStart) :
    Ordered s.emitted b' seq where
  sorted := hs.sorted
  behind e he := by
    obtain ⟨⟨last, hlast, hle⟩, hopen⟩ := hs.behind e he
    refine ⟨lt_of_not_ge fun h => hbehind ⟨last, hlast, h.trans hle⟩, fun start hstart' => ?_⟩
    exact hopen start (hstart start hstart')

/-- The end of a scan is a session between calls. -/
theorem inv_of_scan {scan : Scan} (hinv : scan.buffer.Inv) (ht : Tracked cfg log before scan)
    (hf : Follows log scan.buffer scan.seq) (hscan : Scanning scan.buffer scan.seq)
    (hbefore : ∀ e ∈ before, ∃ packets, BuiltFrom cfg log e packets) :
    Inv cfg { buffer := scan.buffer, log, emitted := before ++ scan.frames } where
  inv := hinv
  genuine := ht.genuine
  follows _ last hlast := by
    obtain rfl := some.inj (hscan.last.symm.trans hlast)
    rwa [sub_add_cancel]
  sorted := ht.ordered.sorted
  behind e he := by
    obtain ⟨hlt, hopen⟩ := ht.ordered.behind e he
    exact ⟨⟨_, hscan.last, Int.le_sub_one_of_lt hlt⟩, hopen⟩
  built e he := (mem_append.1 he).elim (hbefore e) (ht.built e)

/-- A packet is stored: the session goes on with it in the log. -/
theorem Inv.storePacket (hs : Inv cfg s) (hbehind : ¬s.buffer.Behind seq)
    (hslot : s.buffer.buffer.occupant seq = none) (packet : ParsedPacket) (now : ℤ) :
    Inv cfg
      { buffer := (s.buffer.storePacket cfg seq packet now).2
        log := s.log ++ [(seq, packet)]
        emitted := s.emitted ++ (s.buffer.storePacket cfg seq packet now).1 } := by
  have hsub : s.log ⊆ s.log ++ [(seq, packet)] := subset_append_left _ _
  have hself := (Store.getPacket_putPacket hslot packet now seq).trans (if_pos rfl)
  have hput := hs.inv.toLoose.putPacket hbehind hslot packet now
  have hgput := hs.genuine.putPacket hs.inv.toLoose hbehind hslot packet now
  have hfollows (hw : s.buffer.waitingForRecovery = false) (last : ℤ)
      (hlast : last ∈ s.buffer.lastContinuousUnwrappedSeq) :
      Follows (s.log ++ [(seq, packet)])
        { s.buffer with toStore := s.buffer.putPacket seq packet now } (last + 1) :=
    ((hs.follows hw last hlast).mono hsub).congr rfl rfl
  have hbuilt (e : Emitted) (he : e ∈ s.emitted) :
      ∃ packets, BuiltFrom cfg (s.log ++ [(seq, packet)]) e packets :=
    (hs.built e he).imp fun _ h => h.mono hsub
  have hinv := hs.inv.storePacket hbehind hslot cfg packet now
  rw [PacketBuffer.storePacket] at hinv ⊢
  obtain ⟨-, -, h⟩ | ⟨b', hb', hscan, hturn, h⟩ := findFrames_cases cfg hput hself hbehind <;>
    rw [h] at hinv ⊢
  · rw [append_nil]
    exact ⟨hinv, hgput, hfollows, hs.sorted, hs.behind, hbuilt⟩
  · obtain ⟨hg, ho, hreach⟩ : Genuine cfg (s.log ++ [(seq, packet)]) b' ∧
        Ordered s.emitted b' seq ∧ Reached cfg (s.log ++ [(seq, packet)]) b' seq := by
      rcases hb' with ⟨⟨hw, last, hlast, rfl⟩, rfl⟩ | ⟨-, hbos, rfl⟩
      · exact ⟨hgput, hs.ordered hbehind fun _ h => h,
          .inl (hfollows (by simpa using hw) last hlast)⟩
      · have hno (start : ℤ) (h : start ∈ (recoverAt { s.buffer with
            toStore := s.buffer.putPacket seq packet now } seq).currentFrameStart) : False := by
          cases h
        refine ⟨hgput.thin (Store.thinned_removePacketsBefore _ _) fun s h => (hno s h).elim,
          hs.ordered hbehind fun s h => (hno s h).elim, .inr ⟨rfl, _, ?_, hbos⟩⟩
        refine (Store.getPacket_removePacketsBefore _ _ _).trans ?_
        rw [if_neg (lt_irrefl _)]
        exact hself
    obtain ⟨ht, hf, hscan', -⟩ := Tracked.scanFrom
      ⟨hg, by rwa [append_nil], by simp⟩ hscan hturn hreach
    exact inv_of_scan hinv ht hf hscan' hbuilt

theorem Inv.thin (hs : Inv cfg s) {st : Store} {top : ℤ} (h : Thinned top s.buffer.toStore st)
    (u : Unwrapper) :
    Inv cfg { s with buffer := { s.buffer with toStore := st, seqUnwrapper := u } } where
  inv := (hs.inv.setUnwrapper u).thin h
  genuine := hs.genuine.thin h fun _ hstart => hstart
  follows hw last hlast := (hs.follows hw last hlast).congr rfl rfl
  sorted := hs.sorted
  behind := hs.behind
  built := hs.built

theorem Inv.insertPacket (hs : Inv cfg s) (packet : ParsedPacket) (now : ℤ) :
    Inv cfg (s.step cfg (.insertPacket packet now)) := by
  rw [Session.step]
  by_cases hvalid : ¬packet.valid ∨ packet.malformed
  · rw [insertPacket_of_invalid hvalid]
    simpa using hs
  · rw [insertPacket_of_valid hvalid]
    obtain ⟨seq, u⟩ := s.buffer.seqUnwrapper.unwrap packet.seq
    have hflush := hs.flushExpired now
    obtain ⟨_, rfl, ⟨-, hins, hfr, hb⟩ | ⟨st, hst, hbehind, hslot, hins, hfr, hb⟩⟩ :=
      insertAs_cases cfg { (s.buffer.flushExpired cfg now).2 with seqUnwrapper := u } seq packet now
    · rw [hins, hfr, hb, if_neg Bool.false_ne_true, append_nil]
      exact hflush.thin (.refl seq _) u
    · rw [hins, hfr, hb, if_pos rfl]
      exact (hflush.thin (thinned_of_slot hst) u).storePacket hbehind hslot packet now

theorem inv_run (cfg : Config) (calls : List Call) : Inv cfg (run (step cfg) {} calls) := by
  refine run_induction (P := fun _ s => Inv cfg s) inv_init (fun _ call hs => ?_) calls
  cases call with
  | insertPacket packet now => exact hs.insertPacket packet now
  | flushExpired now => exact hs.flushExpired now
  | reset => exact inv_init

/-- Whatever is inserted, every frame is built from packets that were inserted since the
    last reset: all numbers from its first to its last, of one stream and one time, not
    too many, the marker on the last. Its NAL units are what the packets carry. It begins
    at a packet that a decoder can start with, or behind the end of a picture; and the
    frames are disjoint and in order. -/
theorem frames_of_run (cfg : Config) (calls : List Call) :
    let s := run (step cfg) {} calls
    (∀ e ∈ s.emitted, e.first ≤ e.last ∧ ∃ packets, BuiltFrom cfg s.log e packets) ∧
      s.emitted.Pairwise fun e e' => e.last < e'.first := by
  intro s
  have hs : Inv cfg s := inv_run cfg calls
  refine ⟨fun e he => ?_, hs.sorted⟩
  obtain ⟨packets, hp⟩ := hs.built e he
  refine ⟨?_, packets, hp⟩
  by_contra hlt
  have hnil : seqRange e.first e.last = [] := by
    rw [seqRange, Int.toNat_of_nonpos (by omega), range_zero, map_nil]
  have hinserted := hp.inserted
  rw [hnil, forall₂_nil_left_iff] at hinserted
  obtain ⟨p, h, -⟩ := hp.begins
  rw [hinserted] at h
  cases h

/-- The packets of one access unit without its first one, which has the sequence
    parameter set: a picture parameter set, and the slice of the picture. -/
def unitWithoutFirst : List Call :=
  [.insertPacket
      (parse { seq := 2, ts := 9, marker := false, payload := [0x68, 0xCE], ssrc := 7 }).2 0,
    .insertPacket
      (parse { seq := 3, ts := 9, marker := true, payload := [0x65, 0x88, 0x80], ssrc := 7 }).2 1]

/-- The rest of an access unit can be handed out as a frame: it is when its first slice
    is a recovery point. The packet before it was inserted, and belongs to the unit. -/
theorem emits_rest_of_unit :
    let s := run (step {}) {} unitWithoutFirst
    ∃ e ∈ s.emitted, ∃ q ∈ s.log, q.1 = e.first - 1 ∧ q.2.ssrc = e.frame.ssrc ∧
      q.2.timestamp = e.frame.timestamp ∧ q.2.marker = false := by
  decide +kernel

end Session

end Packetia.H264
