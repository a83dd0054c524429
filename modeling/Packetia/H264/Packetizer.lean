import Packetia.Lib.Partial
import Packetia.H264.PacketBuffer

/-!
# Packetising H.264

The packets of an access unit, as a sender may make them. The NAL units are cut into
pieces, in order: a unit alone, several units aggregated, or one unit in fragments. A
`Piece` gives the payloads of one or more packets, and what the parser makes of them:

* the parser takes every payload, and finds the units of the piece in it
  (`Piece.parses`);
* the units of the pieces pass the checks of the packet buffer and join to the NAL
  units that were cut up, byte for byte (`assemble_of_pieces`).
-/

namespace Packetia.H264

open List Bool ParsedPacket AccessUnit PayloadUnit
open Option (bind_eq_bind bind_some some)

/-! ## Pieces -/

/-- A NAL unit that can be sent: of a type that is not an RTP payload structure, and
    with the first bits of a slice if it is one. -/
structure Sendable (nalu : List Byte) : Prop where
  forbidden : byteAt nalu 0 &&& 0x80 = 0
  known : 1 ≤ (nalTypeOf (byteAt nalu 0)).toNat ∧ (nalTypeOf (byteAt nalu 0)).toNat ≤ 23
  slice : IsSlice (nalTypeOf (byteAt nalu 0)) → 2 ≤ nalu.length

/-- Consecutive NAL units in one way of sending them. -/
inductive Piece
  | single (nalu : List Byte)
  | stapA (indicator : Byte) (nalus : List (List Byte))
  | fuA (nalu : List Byte) (fragments : List (List Byte))

/-- A NAL unit with its size before it. -/
def sized (nalu : List Byte) : List Byte := u16Bytes (BitVec.ofNat 16 nalu.length) ++ nalu

/-- The payload of a fragment. -/
def fuPayload (nalu : List Byte) (start stop : Bool) (fragment : List Byte) : List Byte :=
  ((byteAt nalu 0 &&& 0xE0) ||| fuAType) ::
    ((if start then 0x80 else 0) ||| (if stop then 0x40 else 0) ||| nalTypeOf (byteAt nalu 0)) ::
    fragment

/-- The payloads of the fragments of a NAL unit. -/
def fuPayloads (nalu : List Byte) : Bool → List (List Byte) → List (List Byte)
  | _, [] => []
  | start, [fragment] => [fuPayload nalu start true fragment]
  | start, fragment :: fragments =>
    fuPayload nalu start false fragment :: fuPayloads nalu false fragments

namespace Piece

/-- The NAL units of the piece. -/
def nalus : Piece → List (List Byte)
  | single nalu => [nalu]
  | stapA _ nalus => nalus
  | fuA nalu _ => [nalu]

/-- The payloads of the packets of the piece. -/
def payloads : Piece → List (List Byte)
  | single nalu => [nalu]
  | stapA indicator nalus => [indicator :: nalus.flatMap sized]
  | fuA nalu fragments => fuPayloads nalu true fragments

/-- The units that the parser finds, packet by packet. -/
def units : Piece → List (List PayloadUnit)
  | single nalu => [[(singleUnit nalu).withKeyInfo]]
  | stapA _ nalus => [nalus.map fun nalu => (stapUnit nalu).withKeyInfo]
  | fuA nalu fragments => (fuPayloads nalu true fragments).map fun p => [(fuUnit p).withKeyInfo]

/-- The piece follows the rules of its kind. A unit in fragments has two or more. -/
def Valid : Piece → Prop
  | single nalu => Sendable nalu
  | stapA indicator nalus => indicator &&& 0x80 = 0 ∧ nalTypeOf indicator = stapAType ∧
      nalus ≠ [] ∧ ∀ nalu ∈ nalus, Sendable nalu ∧ nalu.length < 65536
  | fuA nalu fragments => Sendable nalu ∧ 2 ≤ fragments.length ∧
      fragments.flatten = nalu.tail ∧ ∀ fragment ∈ fragments, fragment ≠ []

end Piece

/-! ## Parsing -/

/-- The parser has read the units `us` from the packet so far. -/
structure ReadSoFar (view : RtpView) (us : List PayloadUnit) (p : ParsedPacket) : Prop where
  ssrc : p.ssrc = view.ssrc
  seq : p.seq = view.seq
  timestamp : p.timestamp = view.ts
  marker : p.marker = view.marker
  wellFormed : p.malformed = false
  units : p.units = us
  marks : p.hasSps = us.any isSps ∧ p.hasPps = us.any isPps ∧ p.hasIdr = us.any isIdr

/-- The parser takes the packet and finds the units `us` in it. -/
structure Reads (view : RtpView) (us : List PayloadUnit) : Prop
    extends ReadSoFar view us (parse view).2 where
  accepts : (parse view).1 = true
  valid : (parse view).2.valid = true

variable {view : RtpView} {us : List PayloadUnit} {p : ParsedPacket} {nalu : List Byte}
  {fragment : List Byte}

theorem readSoFar_fillCommon (view : RtpView) : ReadSoFar view [] (fillCommon view) :=
  ⟨rfl, rfl, rfl, rfl, rfl, rfl, rfl, rfl, rfl⟩

theorem ReadSoFar.addUnit (h : ReadSoFar view us p) (u : PayloadUnit) :
    ReadSoFar view (us ++ [u.withKeyInfo]) (p.addUnit u) :=
  { h with
    units := by rw [ParsedPacket.addUnit, h.units]
    marks := by simp [ParsedPacket.addUnit, h.marks] }

/-- What the parser notes at the end does not change what it has read. -/
theorem ReadSoFar.finish (h : ReadSoFar view us p) (begins ends : Bool) :
    ReadSoFar view us { p with valid := true, beginsFrame := begins, endsFrame := ends } :=
  { h with }

theorem Sendable.ne_nil (h : Sendable nalu) : nalu ≠ [] := by
  rintro rfl
  have := h.known.1
  simp [byteAt, nalTypeOf] at this

theorem reads_single (h : Sendable view.payload) :
    Reads view [(singleUnit view.payload).withKeyInfo] := by
  have hparse : parse view = (true, { (fillCommon view).addUnit (singleUnit view.payload) with
      valid := true, beginsFrame := false, endsFrame := view.marker }) := by
    have hslice : ¬(IsSlice (nalTypeOf (byteAt view.payload 0)) ∧ view.payload.length < 2) :=
      fun hs => absurd (h.slice hs.1) (by omega)
    rw [parse, if_neg h.ne_nil, if_neg (not_not.2 h.forbidden), if_pos h.known, parseSingleNalu,
      if_neg hslice]
  have hread := ((readSoFar_fillCommon view).addUnit (singleUnit view.payload)).finish false
    view.marker
  exact ⟨by rw [hparse]; exact hread, by rw [hparse], by rw [hparse]⟩

/-! ### Aggregated units -/

theorem length_sized (nalu : List Byte) : (sized nalu).length = 2 + nalu.length := by
  simp [sized, u16Bytes]
  omega

theorem u16At_sized (h : nalu.length < 65536) (rest : List Byte) :
    (u16At (sized nalu ++ rest) 0).toNat = nalu.length := by
  have hword : u16At (sized nalu ++ rest) 0 = BitVec.ofNat 16 nalu.length := extractLsb_append _
  rw [hword, BitVec.toNat_ofNat, Nat.mod_eq_of_lt h]

theorem drop_sized (nalu rest : List Byte) : (sized nalu ++ rest).drop 2 = nalu ++ rest := rfl

/-- A round of `ParseStapA` takes a unit that can be sent. -/
theorem parseStapAFrom_sized (h : Sendable nalu) (hlen : nalu.length < 65536) (fuel : ℕ)
    (rest : List Byte) (out : ParsedPacket) :
    parseStapAFrom view (fuel + 1) (sized nalu ++ rest) out =
      parseStapAFrom view fuel rest (out.addUnit (stapUnit nalu)) := by
  have hpos : 0 < nalu.length := length_pos_iff.2 h.ne_nil
  have hsize := length_sized nalu
  have hdrop : (sized nalu ++ rest).drop (2 + nalu.length) = rest := by
    rw [← hsize, drop_left]
  have hknown := h.known
  have hzero : nalTypeOf (byteAt nalu 0) ≠ 0 := fun h0 => by simp [h0] at hknown
  have hgood : ¬(byteAt nalu 0 &&& 0x80 ≠ 0 ∨ nalTypeOf (byteAt nalu 0) = 0 ∨
      (nalTypeOf (byteAt nalu 0)).toNat ≥ 24 ∨
      (IsSlice (nalTypeOf (byteAt nalu 0)) ∧ nalu.length < 2)) := by
    rintro (hf | ht | ht | ⟨hs, hl⟩)
    · exact hf h.forbidden
    · exact hzero ht
    · omega
    · exact absurd (h.slice hs) (by omega)
  have htake : ((sized nalu ++ rest).drop 2).take nalu.length = nalu := by
    rw [drop_sized, take_left]
  rw [parseStapAFrom, if_pos (by rw [length_append]; omega)]
  simp only [u16At_sized hlen, htake, hdrop]
  rw [if_neg (by rw [length_append]; omega), if_neg hgood]

/-- `ParseStapA` takes all units, in order. -/
theorem readSoFar_stapA {nalus : List (List Byte)}
    (h : ∀ nalu ∈ nalus, Sendable nalu ∧ nalu.length < 65536) (hp : ReadSoFar view us p)
    (hne : us ≠ [] ∨ nalus ≠ []) {fuel : ℕ} (hfuel : nalus.length < fuel) :
    ∃ p', parseStapAFrom view fuel (nalus.flatMap sized) p = (true, p') ∧ p'.valid = true ∧
      ReadSoFar view (us ++ nalus.map fun nalu => (stapUnit nalu).withKeyInfo) p' := by
  induction nalus generalizing us p fuel with
  | nil =>
    obtain ⟨fuel, rfl⟩ := Nat.exists_eq_succ_of_ne_zero hfuel.ne_bot
    have hunits : ¬(([] : List Byte) ≠ [] ∨ p.units = []) := by
      rw [hp.units]
      simpa using hne
    refine ⟨{ p with valid := true, endsFrame := view.marker }, ?_, rfl, ?_⟩
    · rw [flatMap_nil, Nat.succ_eq_add_one, parseStapAFrom, if_neg (by simp), if_neg hunits]
    · simpa using hp.finish p.beginsFrame view.marker
  | cons nalu nalus ih =>
    obtain ⟨fuel, rfl⟩ := Nat.exists_eq_succ_of_ne_zero (Nat.ne_zero_of_lt hfuel)
    obtain ⟨hn, hlen⟩ := h nalu mem_cons_self
    obtain ⟨p', hparse, hvalid, hread⟩ := ih (fun n hn => h n (mem_cons_of_mem _ hn))
      (hp.addUnit (stapUnit nalu)) (.inl (by simp)) (Nat.lt_of_succ_lt_succ hfuel)
    refine ⟨p', ?_, hvalid, by simpa using hread⟩
    rw [flatMap_cons, Nat.succ_eq_add_one, parseStapAFrom_sized hn hlen, hparse]

variable (nalus : List (List Byte)) {fragments : List (List Byte)} {acc : List Byte}

theorem length_le_flatMap_sized : nalus.length ≤ (nalus.flatMap sized).length := by
  induction nalus with
  | nil => exact le_rfl
  | cons nalu nalus ih =>
    rw [flatMap_cons, length_append, length_cons, length_sized]
    omega

theorem reads_stapA {indicator : Byte} {nalus : List (List Byte)}
    (hf : indicator &&& 0x80 = 0) (ht : nalTypeOf indicator = stapAType) (hne : nalus ≠ [])
    (h : ∀ nalu ∈ nalus, Sendable nalu ∧ nalu.length < 65536)
    (hview : view.payload = indicator :: nalus.flatMap sized) :
    Reads view (nalus.map fun nalu => (stapUnit nalu).withKeyInfo) := by
  have hfuel : nalus.length < view.payload.length + 1 := by
    have := length_le_flatMap_sized nalus
    rw [hview, length_cons]
    omega
  obtain ⟨p, hstap, hvalid, hread⟩ :=
    readSoFar_stapA h (readSoFar_fillCommon view) (.inr hne) hfuel
  have hhead : byteAt view.payload 0 = indicator := by rw [hview]; rfl
  have hparse : parse view = (true, p) := by
    rw [parse, if_neg (by rw [hview]; exact cons_ne_nil _ _), hhead, if_neg (not_not.2 hf), ht,
      if_neg (by decide), if_pos rfl, parseStapA]
    rw [hview, drop_one, tail_cons, ← hview]
    exact hstap
  exact ⟨by rw [hparse]; simpa using hread, by rw [hparse], by rw [hparse]; exact hvalid⟩

/-! ### Fragments -/

/-- The two bytes before a fragment give back the header of the NAL unit. -/
theorem fu_bits (header : Byte) (start stop : Bool) :
    let indicator := (header &&& 0xE0) ||| fuAType
    let fuHeader : Byte :=
      (if start then 0x80 else 0) ||| (if stop then 0x40 else 0) ||| nalTypeOf header
    (indicator &&& 0x80 = header &&& 0x80 ∧ nalTypeOf indicator = fuAType ∧
      (indicator &&& 0xE0) ||| nalTypeOf header = header) ∧
    fuHeader &&& 0x1F = nalTypeOf header ∧ fuHeader &&& 0x20 = 0 ∧
      (fuHeader &&& 0x80 ≠ 0 ↔ start = true) ∧ (fuHeader &&& 0x40 ≠ 0 ↔ stop = true) := by
  revert header start stop
  decide +kernel

theorem fuUnit_fuPayload (nalu : List Byte) (start stop : Bool) (fragment : List Byte) :
    fuUnit (fuPayload nalu start stop fragment) =
      { unitType := .fuAFragment
        nalType := nalTypeOf (byteAt nalu 0)
        fuStart := start
        fuEnd := stop
        reconstructedNalHeader := byteAt nalu 0
        firstSlice := start ∧ IsSlice (nalTypeOf (byteAt nalu 0)) ∧ byteAt fragment 0 &&& 0x80 ≠ 0
        data := fragment } := by
  obtain ⟨⟨-, -, hheader⟩, htype, -, hstart, hstop⟩ := fu_bits (byteAt nalu 0) start stop
  have h₀ : byteAt (fuPayload nalu start stop fragment) 0 =
    (byteAt nalu 0 &&& 0xE0) ||| fuAType := rfl
  have h₁ : byteAt (fuPayload nalu start stop fragment) 1 =
    (if start then 0x80 else 0) ||| (if stop then 0x40 else 0) ||| nalTypeOf (byteAt nalu 0) := rfl
  have h₂ : byteAt (fuPayload nalu start stop fragment) 2 = byteAt fragment 0 := rfl
  rw [fuUnit, h₀, h₁, h₂]
  simp only [htype, hheader, hstart, hstop, decide_eq_true, fuPayload, drop_succ_cons, drop_zero]

theorem reads_fuA {start stop : Bool} (h : Sendable nalu) (hne : fragment ≠ [])
    (hbits : ¬(start = true ∧ stop = true))
    (hview : view.payload = fuPayload nalu start stop fragment) :
    Reads view [(fuUnit view.payload).withKeyInfo] := by
  obtain ⟨⟨hforbidden, hfu, -⟩, htype, hreserved, -, -⟩ := fu_bits (byteAt nalu 0) start stop
  have h₀ : byteAt view.payload 0 = (byteAt nalu 0 &&& 0xE0) ||| fuAType := by rw [hview]; rfl
  have h₁ : byteAt view.payload 1 = (if start then 0x80 else 0) ||| (if stop then 0x40 else 0) |||
    nalTypeOf (byteAt nalu 0) := by rw [hview]; rfl
  have hlen : ¬view.payload.length < 3 := by
    have := length_pos_iff.2 hne
    rw [hview, fuPayload, length_cons, length_cons]
    omega
  have hknown := h.known
  have hzero : nalTypeOf (byteAt nalu 0) ≠ 0 := fun h0 => by simp [h0] at hknown
  have hgood : ¬(byteAt view.payload 1 &&& 0x20 ≠ 0 ∨
      ((fuUnit view.payload).fuStart ∧ (fuUnit view.payload).fuEnd) ∨
      byteAt view.payload 1 &&& 0x1F = 0 ∨ (byteAt view.payload 1 &&& 0x1F).toNat ≥ 24) := by
    rw [h₁, htype, hview, fuUnit_fuPayload]
    rintro (hr | hb | ht | ht)
    · exact hr hreserved
    · exact hbits hb
    · exact hzero ht
    · omega
  have hparse : parse view = (true, { (fillCommon view).addUnit (fuUnit view.payload) with
      valid := true
      beginsFrame := (fuUnit view.payload).fuStart
      endsFrame := (fuUnit view.payload).fuEnd && view.marker }) := by
    have hnil : view.payload ≠ [] := by rw [hview]; exact cons_ne_nil _ _
    rw [parse, if_neg hnil, h₀, hforbidden, hfu, if_neg (not_not.2 h.forbidden),
      if_neg (by decide), if_neg (by decide), if_pos rfl, parseFuA, if_neg hlen, if_neg hgood]
  have hread := ((readSoFar_fillCommon view).addUnit (fuUnit view.payload)).finish
    (fuUnit view.payload).fuStart ((fuUnit view.payload).fuEnd && view.marker)
  exact ⟨by rw [hparse]; exact hread, by rw [hparse], by rw [hparse]⟩

/-- No fragment of several is both the first and the last. -/
theorem mem_fuPayloads {start : Bool} {payload : List Byte}
    (hne : ∀ fragment ∈ fragments, fragment ≠ []) (hstart : start = true → 2 ≤ fragments.length)
    (h : payload ∈ fuPayloads nalu start fragments) :
    ∃ s e fragment, payload = fuPayload nalu s e fragment ∧ fragment ≠ [] ∧
      ¬(s = true ∧ e = true) := by
  induction fragments generalizing start with
  | nil => cases h
  | cons fragment fragments ih =>
    have hf := hne fragment mem_cons_self
    cases fragments with
    | nil =>
      rw [fuPayloads, mem_singleton] at h
      exact ⟨start, true, fragment, h, hf, fun hb => by simpa using hstart hb.1⟩
    | cons next fragments =>
      rw [fuPayloads, mem_cons] at h
      · rcases h with h | h
        · exact ⟨start, false, fragment, h, hf, by simp⟩
        · exact ih (fun f hf => hne f (mem_cons_of_mem _ hf)) (by simp) h
      · exact cons_ne_nil _ _

/-- The parser finds the units of a piece in its payloads. -/
theorem Piece.parses {piece : Piece} (h : piece.Valid) :
    List.Forall₂ (fun payload us => ∀ view : RtpView, view.payload = payload → Reads view us)
      piece.payloads piece.units := by
  cases piece with
  | single nalu =>
    refine .cons (fun view hview => ?_) .nil
    rw [← hview]
    exact reads_single (hview ▸ h)
  | stapA indicator nalus =>
    exact .cons (fun view hview => reads_stapA h.1 h.2.1 h.2.2.1 h.2.2.2 hview) .nil
  | fuA nalu fragments =>
    rw [Piece.payloads, Piece.units, forall₂_map_right_iff, forall₂_same]
    intro payload hmem view hview
    obtain ⟨s, e, fragment, hpayload, hne, hbits⟩ := mem_fuPayloads h.2.2.2 (fun _ => h.2.1) hmem
    rw [← hview]
    exact reads_fuA h.1 hne hbits (hview.trans hpayload)

/-! ## Joining -/

/-- The units of the fragments of a NAL unit. -/
def fuUnits (nalu : List Byte) (start : Bool) (fragments : List (List Byte)) :
    List PayloadUnit := (fuPayloads nalu start fragments).map fun p => (fuUnit p).withKeyInfo

theorem fuUnits_cons (nalu : List Byte) (start : Bool) (fragment next : List Byte)
    (fragments : List (List Byte)) :
    fuUnits nalu start (fragment :: next :: fragments) =
      (fuUnit (fuPayload nalu start false fragment)).withKeyInfo ::
        fuUnits nalu false (next :: fragments) := rfl

/-- A fragment that is not the last leaves the unit open. -/
theorem validateUnit_fuUnit (hf : fragment ≠ []) (start : Bool) :
    validateUnit (if start then none else some (byteAt nalu 0))
      (fuUnit (fuPayload nalu start false fragment)).withKeyInfo = some (some (byteAt nalu 0)) := by
  cases start <;> simp [validateUnit, fuUnit_fuPayload, hf, guard]

theorem appendUnit_fuUnit (hf : fragment ≠ [])
    (hacc : acc.head? = some (byteAt nalu 0)) (ns : List (List Byte)) :
    appendUnit { fuActive := true, fuNalu := acc, nalus := ns }
      (fuUnit (fuPayload nalu false false fragment)).withKeyInfo =
      some { fuActive := true, fuNalu := acc ++ fragment, nalus := ns } := by
  simp [appendUnit, fuUnit_fuPayload, hf, hacc, guard]

theorem flatten_units_fuA (nalu : List Byte) (fragments : List (List Byte)) :
    (Piece.fuA nalu fragments).units.flatten = fuUnits nalu true fragments := by
  rw [Piece.units, fuUnits, ← flatMap_def, map_eq_flatMap]

section Fragments

variable {fragments : List (List Byte)}

/-- The fragments behind the first end the validation of the unit. -/
theorem validate_fuUnits (hlen : fragments ≠ []) (hne : ∀ f ∈ fragments, f ≠ []) :
    (fuUnits nalu false fragments).foldlM validateUnit (some (byteAt nalu 0)) = some none := by
  induction fragments with
  | nil => exact absurd rfl hlen
  | cons fragment fragments ih =>
    have hf := hne fragment mem_cons_self
    cases fragments with
    | nil => simp [fuUnits, fuPayloads, fuUnit_fuPayload, validateUnit, hf, guard]
    | cons next fragments =>
      rw [fuUnits_cons, foldlM_cons]
      erw [validateUnit_fuUnit hf false]
      exact ih (cons_ne_nil _ _) fun f hf => hne f (mem_cons_of_mem _ hf)

/-- The fragments behind the first complete the unit. -/
theorem append_fuUnits (hlen : fragments ≠ []) (hne : ∀ f ∈ fragments, f ≠ [])
    (hacc : acc.head? = some (byteAt nalu 0)) (ns : List (List Byte)) :
    (fuUnits nalu false fragments).foldlM appendUnit
        { fuActive := true, fuNalu := acc, nalus := ns } =
      some { nalus := ns ++ [acc ++ fragments.flatten] } := by
  induction fragments generalizing acc with
  | nil => exact absurd rfl hlen
  | cons fragment fragments ih =>
    have hf := hne fragment mem_cons_self
    cases fragments with
    | nil => simp [fuUnits, fuPayloads, fuUnit_fuPayload, appendUnit, hf, guard, hacc]
    | cons next fragments =>
      have hacc' : (acc ++ fragment).head? = some (byteAt nalu 0) := by
        rw [head?_append, hacc, Option.some_or]
      rw [fuUnits_cons, foldlM_cons, appendUnit_fuUnit hf hacc, bind_eq_bind,
        bind_some, ih (cons_ne_nil _ _) (fun f hf => hne f (mem_cons_of_mem _ hf)) hacc']
      simp

/-- The fragments behind the first do not count as slices. -/
theorem checkSlice_fuUnits {saw : Bool} (hsaw : IsSlice (nalTypeOf (byteAt nalu 0)) → saw = true) :
    (fuUnits nalu false fragments).foldlM checkSlice saw = some saw := by
  induction fragments with
  | nil => rfl
  | cons fragment fragments ih =>
    have hno (stop : Bool) : checkSlice saw
        (fuUnit (fuPayload nalu false stop fragment)).withKeyInfo = some saw := by
      rw [checkSlice, if_neg]
      rw [fuUnit_fuPayload]
      exact fun h => h.1 (hsaw h.2)
    cases fragments with
    | nil => simp [fuUnits, fuPayloads, hno]
    | cons next fragments =>
      rw [fuUnits_cons, foldlM_cons, hno]
      exact ih

end Fragments

namespace Piece

variable {piece : Piece}

/-- The units of a piece are the fragments of one NAL unit, or they are whole. -/
theorem whole_or_fuA (h : piece.Valid) :
    (∃ nalu fragment next fragments, piece = .fuA nalu (fragment :: next :: fragments)) ∨
    ∃ f : List Byte → PayloadUnit, piece.units.flatten = piece.nalus.map f ∧
      ∀ nalu ∈ piece.nalus, nalu ≠ [] ∧ (f nalu).data = nalu ∧
        ((f nalu).unitType = .singleNalu ∨ (f nalu).unitType = .stapANalu) ∧
        (f nalu).nalType = (singleUnit nalu).nalType ∧
        (f nalu).firstSlice = (singleUnit nalu).firstSlice := by
  cases piece with
  | single nalu =>
    refine .inr ⟨fun n => (singleUnit n).withKeyInfo, rfl, fun n hn => ?_⟩
    obtain rfl := mem_singleton.1 hn
    exact ⟨Sendable.ne_nil h, rfl, .inl rfl, rfl, rfl⟩
  | stapA indicator nalus =>
    refine .inr ⟨fun n => (stapUnit n).withKeyInfo, by simp [units, Piece.nalus], fun n hn => ?_⟩
    exact ⟨(h.2.2.2 n hn).1.ne_nil, rfl, .inr rfl, rfl, rfl⟩
  | fuA nalu fragments =>
    have hlen := h.2.1
    match fragments, hlen with
    | fragment :: next :: fragments, _ => exact .inl ⟨nalu, fragment, next, fragments, rfl⟩

theorem fuA_nalu {nalu fragment next : List Byte}
    (h : (Piece.fuA nalu (fragment :: next :: fragments)).Valid) :
    nalu = byteAt nalu 0 :: (fragment ++ (next :: fragments).flatten) := by
  obtain ⟨hs, -, hflat, -⟩ := h
  cases nalu with
  | nil => exact absurd rfl hs.ne_nil
  | cons header rest => exact congrArg (header :: ·) hflat.symm

/-- The units of a piece are valid in themselves. -/
theorem validate (h : piece.Valid) : piece.units.flatten.foldlM validateUnit none = some none := by
  rcases whole_or_fuA h with ⟨nalu, fragment, next, fragments, rfl⟩ | ⟨f, hunits, hf⟩
  · obtain ⟨hfirst, hrest⟩ := forall_mem_cons.1 h.2.2.2
    rw [flatten_units_fuA, fuUnits_cons, foldlM_cons]
    erw [validateUnit_fuUnit hfirst true]
    exact validate_fuUnits (cons_ne_nil _ _) hrest
  · rw [hunits]
    refine foldlM_of_forall fun u hu => ?_
    obtain ⟨nalu, hn, rfl⟩ := mem_map.1 hu
    obtain ⟨hne, hdata, htype, -⟩ := hf nalu hn
    rcases htype with ht | ht <;> simp [validateUnit, ht, hdata, hne]

/-- The units of a piece join to its NAL units. -/
theorem append (h : piece.Valid) (ns : List (List Byte)) :
    piece.units.flatten.foldlM appendUnit { nalus := ns } =
      some { nalus := ns ++ piece.nalus } := by
  rcases whole_or_fuA h with ⟨nalu, fragment, next, fragments, rfl⟩ | ⟨f, hunits, hf⟩
  · obtain ⟨hfirst, hrest⟩ := forall_mem_cons.1 h.2.2.2
    have hopen :
        appendUnit { nalus := ns } (fuUnit (fuPayload nalu true false fragment)).withKeyInfo =
          some { fuActive := true, fuNalu := byteAt nalu 0 :: fragment, nalus := ns } := by
      simp [appendUnit, fuUnit_fuPayload, hfirst, guard]
    rw [flatten_units_fuA, fuUnits_cons, foldlM_cons, hopen, bind_eq_bind, bind_some,
      append_fuUnits (cons_ne_nil _ _) hrest rfl, nalus, cons_append, ← fuA_nalu h]
  · rw [hunits]
    generalize piece.nalus = l at hf
    induction l generalizing ns with
    | nil => simp
    | cons nalu l ih =>
      obtain ⟨hne, hdata, htype, -⟩ := hf nalu mem_cons_self
      have hstep : appendUnit { nalus := ns } (f nalu) = some { nalus := ns ++ [nalu] } := by
        rcases htype with ht | ht <;> simp [appendUnit, ht, hdata, hne]
      rw [map_cons, foldlM_cons, hstep]
      simpa using ih (ns ++ [nalu]) fun n hn => hf n (mem_cons_of_mem _ hn)

/-- For the first slice, the units of a piece count as its NAL units do. -/
theorem checkSlice_units (h : piece.Valid) (saw : Bool) :
    piece.units.flatten.foldlM checkSlice saw =
      (piece.nalus.map singleUnit).foldlM checkSlice saw := by
  rcases whole_or_fuA h with ⟨nalu, fragment, next, fragments, rfl⟩ | ⟨f, hunits, hf⟩
  · have hfirst := h.2.2.2 fragment mem_cons_self
    have hbyte : byteAt nalu 1 = byteAt fragment 0 := by
      rw [fuA_nalu h]
      cases fragment with
      | nil => exact absurd rfl hfirst
      | cons b fragment => rfl
    have hunit : checkSlice saw (fuUnit (fuPayload nalu true false fragment)).withKeyInfo =
        checkSlice saw (singleUnit nalu) := by
      rw [fuUnit_fuPayload]
      simp [checkSlice, singleUnit, hbyte]
    rw [flatten_units_fuA, fuUnits_cons, nalus, map_singleton, foldlM_cons, foldlM_cons, hunit]
    cases hc : checkSlice saw (singleUnit nalu) with
    | none => rfl
    | some saw' =>
      refine checkSlice_fuUnits fun hs => ?_
      rw [checkSlice] at hc
      cases saw <;> simp_all [singleUnit]
  · rw [hunits]
    generalize piece.nalus = l at hf
    induction l generalizing saw with
    | nil => rfl
    | cons nalu l ih =>
      obtain ⟨-, -, -, htype, hslice⟩ := hf nalu mem_cons_self
      have hstep : checkSlice saw (f nalu) = checkSlice saw (singleUnit nalu) := by
        rw [checkSlice, checkSlice, htype, hslice]
      rw [map_cons, map_cons, foldlM_cons, foldlM_cons, hstep]
      congr 1
      funext saw'
      exact ih saw' fun n hn => hf n (mem_cons_of_mem _ hn)

/-- The types of the units of a piece are those of its NAL units. -/
theorem mem_nalType (h : piece.Valid) {t : Byte} :
    (∃ u ∈ piece.units.flatten, u.nalType = t) ↔
      ∃ nalu ∈ piece.nalus, nalTypeOf (byteAt nalu 0) = t := by
  rcases whole_or_fuA h with ⟨nalu, fragment, next, fragments, rfl⟩ | ⟨f, hunits, hf⟩
  · rw [flatten_units_fuA, nalus]
    simp only [mem_singleton, exists_eq_left]
    constructor
    · rintro ⟨u, hu, rfl⟩
      obtain ⟨payload, hp, rfl⟩ := mem_map.1 hu
      obtain ⟨s, e, f, rfl, -⟩ := mem_fuPayloads h.2.2.2 (fun _ => h.2.1) hp
      rw [fuUnit_fuPayload]
      rfl
    · intro ht
      refine ⟨_, mem_cons_self, ?_⟩
      dsimp only
      rw [fuUnit_fuPayload]
      exact ht
  · rw [hunits]
    simp only [mem_map, exists_exists_and_eq_and]
    refine exists_congr fun nalu => and_congr_right fun hn => ?_
    rw [(hf nalu hn).2.2.2.1, singleUnit]

/-- The units are marked by their types. -/
theorem keyInfo {u : PayloadUnit} (hu : u ∈ piece.units.flatten) :
    ∃ v : PayloadUnit, u = v.withKeyInfo := by
  cases piece with
  | single nalu =>
    simp only [units, flatten_singleton, mem_singleton] at hu
    exact ⟨_, hu⟩
  | stapA indicator nalus =>
    simp only [units, flatten_singleton, mem_map] at hu
    obtain ⟨nalu, -, rfl⟩ := hu
    exact ⟨_, rfl⟩
  | fuA nalu fragments =>
    rw [flatten_units_fuA] at hu
    obtain ⟨payload, -, rfl⟩ := mem_map.1 hu
    exact ⟨_, rfl⟩

end Piece

/-! ## Assembling -/

/-- A NAL unit of the type `t` is among them. -/
def HasType (t : Byte) : Prop := ∃ nalu ∈ nalus, nalTypeOf (byteAt nalu 0) = t

/-- The first slice starts a picture. -/
def StartsPicture : Prop :=
  ∀ nalu ∈ nalus.find? fun nalu => IsSlice (nalTypeOf (byteAt nalu 0)), byteAt nalu 1 &&& 0x80 ≠ 0

/-- The buffer takes the access unit as it is: an IDR picture with its parameter sets,
    if the configuration wants them. -/
def Config.Takes (cfg : Config) (nalus : List (List Byte)) : Prop :=
  cfg.idrOnlyKeyframesAllowed = true ∨
    (HasType nalus idrType → HasType nalus spsType ∧ HasType nalus ppsType)

theorem checkSlice_of_startsPicture {nalus : List (List Byte)} (h : StartsPicture nalus) :
    ∃ saw, (nalus.map singleUnit).foldlM checkSlice false = some saw := by
  have htrue (l : List (List Byte)) : (l.map singleUnit).foldlM checkSlice true = some true :=
    foldlM_of_forall fun u _ => by simp [checkSlice]
  induction nalus with
  | nil => exact ⟨false, rfl⟩
  | cons nalu nalus ih =>
    rw [map_cons, foldlM_cons]
    by_cases hs : IsSlice (nalTypeOf (byteAt nalu 0))
    · have hfirst : byteAt nalu 1 &&& 0x80 ≠ 0 := h nalu (by simp [hs])
      have hmark : (singleUnit nalu).firstSlice = true := decide_eq_true ⟨hs, hfirst⟩
      have hstep : checkSlice false (singleUnit nalu) = some true := by
        rw [checkSlice, if_pos ⟨false_ne_true, hs⟩, if_pos hmark]
      rw [hstep]
      exact ⟨true, htrue nalus⟩
    · have hstep : checkSlice false (singleUnit nalu) = some false := by
        simp [checkSlice, singleUnit, hs]
      rw [hstep]
      exact ih fun n hn => h n (by simpa [hs] using hn)

section Assembling

variable {cfg : Config} {frame : AccessUnit} {packets : List ParsedPacket} {pieces : List Piece}

/-- The first pass succeeds when its three checks do. -/
theorem foldlM_checkPacket {c : Checked} {fu : Option Byte} {saw : Bool}
    (hstream : ∀ p ∈ packets, p.ssrc = c.frame.ssrc ∧ p.timestamp = c.frame.timestamp)
    (hfu : (packets.flatMap units).foldlM validateUnit c.validatingFu = some fu)
    (hsaw : (packets.flatMap units).foldlM checkSlice c.sawVcl = some saw) :
    packets.foldlM checkPacket c =
      some { frame := packets.foldl mark c.frame, validatingFu := fu, sawVcl := saw } := by
  induction packets generalizing c with
  | nil =>
    obtain rfl := some.inj hfu
    obtain rfl := some.inj hsaw
    rfl
  | cons p packets ih =>
    rw [flatMap_cons, foldlM_append, bind_eq_bind, Option.bind_eq_some_iff] at hfu hsaw
    obtain ⟨fu', hfu', hfu⟩ := hfu
    obtain ⟨saw', hsaw', hsaw⟩ := hsaw
    have hp := hstream p mem_cons_self
    have hstep : checkPacket c p =
        some { frame := c.frame.mark p, validatingFu := fu', sawVcl := saw' } := by
      rw [checkPacket, guard_bind, if_pos hp, hsaw', bind_eq_bind, bind_some,
        validatePacketUnits, hfu', bind_eq_bind, bind_some]
    rw [foldlM_cons, hstep]
    exact ih (fun q hq => hstream q (mem_cons_of_mem _ hq)) hfu hsaw

theorem foldl_mark (packets : List ParsedPacket) (frame : AccessUnit) :
    (packets.foldl mark frame).hasSps = (frame.hasSps || packets.any hasSps) ∧
      (packets.foldl mark frame).hasPps = (frame.hasPps || packets.any hasPps) ∧
      (packets.foldl mark frame).hasIdr = (frame.hasIdr || packets.any hasIdr) := by
  induction packets generalizing frame with
  | nil => simp
  | cons p packets ih =>
    obtain ⟨h₁, h₂, h₃⟩ := ih (frame.mark p)
    rw [foldl_cons, h₁, h₂, h₃]
    simp [mark, Bool.or_assoc]

/-- A packet has the units `us`, and is marked by them. -/
def HasUnits (us : List PayloadUnit) (p : ParsedPacket) : Prop :=
  p.units = us ∧ p.hasSps = us.any isSps ∧ p.hasPps = us.any isPps ∧ p.hasIdr = us.any isIdr

theorem flatMap_units (h : List.Forall₂ HasUnits (pieces.flatMap Piece.units) packets) :
    packets.flatMap units = pieces.flatMap fun piece => piece.units.flatten := by
  have hunits : packets.map units = pieces.flatMap Piece.units := by
    generalize pieces.flatMap Piece.units = l at h
    induction h with
    | nil => rfl
    | cons hp _ ih => rw [map_cons, hp.1, ih]
  rw [flatMap_def, hunits, flatMap_def, flatten_flatten, map_map, flatMap_def]
  rfl

section

variable (hvalid : ∀ piece ∈ pieces, piece.Valid)
include hvalid

/-- A mark of the packets is set when a NAL unit of its type is among them. -/
theorem any_mark (h : List.Forall₂ HasUnits (pieces.flatMap Piece.units) packets)
    {mark : ParsedPacket → Bool} {flag : PayloadUnit → Bool} {t : Byte}
    (hmark : ∀ us p, HasUnits us p → mark p = us.any flag)
    (hflag : ∀ v : PayloadUnit, flag v.withKeyInfo = decide (v.nalType = t)) :
    packets.any mark = true ↔ HasType (pieces.flatMap Piece.nalus) t := by
  have hany : packets.any mark = (packets.flatMap units).any flag := by
    generalize pieces.flatMap Piece.units = l at h
    induction h with
    | nil => rfl
    | cons hp _ ih => rw [any_cons, ih, hmark _ _ hp, flatMap_cons, any_append, hp.1]
  have htype : ∀ piece ∈ pieces, (∃ u ∈ piece.units.flatten, flag u = true) ↔
      ∃ nalu ∈ piece.nalus, nalTypeOf (byteAt nalu 0) = t := by
    intro piece hp
    rw [← Piece.mem_nalType (hvalid piece hp)]
    refine exists_congr fun u => and_congr_right fun hu => ?_
    obtain ⟨v, rfl⟩ := Piece.keyInfo hu
    rw [hflag, decide_eq_true_eq, withKeyInfo_nalType]
  rw [hany, flatMap_units h, any_eq_true, HasType]
  simp only [mem_flatMap]
  constructor
  · rintro ⟨u, ⟨piece, hp, hu⟩, hf⟩
    obtain ⟨nalu, hn, ht⟩ := (htype piece hp).1 ⟨u, hu, hf⟩
    exact ⟨nalu, ⟨piece, hp, hn⟩, ht⟩
  · rintro ⟨nalu, ⟨piece, hp, hn⟩, ht⟩
    obtain ⟨u, hu, hf⟩ := (htype piece hp).2 ⟨nalu, hn, ht⟩
    exact ⟨u, ⟨piece, hp, hu⟩, hf⟩

/-- The units of the pieces pass the checks. -/
theorem validate_pieces :
    (pieces.flatMap fun piece => piece.units.flatten).foldlM validateUnit none = some none := by
  rw [foldlM_flatMap]
  exact foldlM_of_forall fun piece hp => Piece.validate (hvalid piece hp)

/-- The units of the pieces join to the NAL units that were cut up. -/
theorem append_pieces (ns : List (List Byte)) :
    (pieces.flatMap fun piece => piece.units.flatten).foldlM appendUnit { nalus := ns } =
      some { nalus := ns ++ pieces.flatMap Piece.nalus } := by
  rw [foldlM_flatMap]
  induction pieces generalizing ns with
  | nil => simp
  | cons piece pieces ih =>
    rw [foldlM_cons, Piece.append (hvalid piece mem_cons_self)]
    simpa using ih (fun q hq => hvalid q (mem_cons_of_mem _ hq)) (ns ++ piece.nalus)

theorem checkSlice_pieces (saw : Bool) :
    (pieces.flatMap fun piece => piece.units.flatten).foldlM checkSlice saw =
      ((pieces.flatMap Piece.nalus).map singleUnit).foldlM checkSlice saw := by
  rw [map_flatMap, foldlM_flatMap, foldlM_flatMap]
  induction pieces generalizing saw with
  | nil => rfl
  | cons piece pieces ih =>
    rw [foldlM_cons, foldlM_cons, Piece.checkSlice_units (hvalid piece mem_cons_self)]
    congr 1
    funext saw'
    exact ih (fun q hq => hvalid q (mem_cons_of_mem _ hq)) saw'

end

/-- The packets of an access unit are assembled to its NAL units. -/
theorem assemble_of_pieces (cfg : Config) (frame : AccessUnit)
    (hvalid : ∀ piece ∈ pieces, piece.Valid)
    (h : List.Forall₂ HasUnits (pieces.flatMap Piece.units) packets)
    (hstream : ∀ p ∈ packets, p.ssrc = frame.ssrc ∧ p.timestamp = frame.timestamp)
    (hframe : frame.hasSps = false ∧ frame.hasPps = false ∧ frame.hasIdr = false)
    (hne : pieces.flatMap Piece.nalus ≠ []) (hstart : StartsPicture (pieces.flatMap Piece.nalus))
    (htakes : cfg.Takes (pieces.flatMap Piece.nalus)) :
    ∃ f, assemble cfg frame packets = some f ∧ f.nalus = pieces.flatMap Piece.nalus ∧
      f.complete = true := by
  have hunits := flatMap_units h
  obtain ⟨saw, hsaw⟩ := checkSlice_of_startsPicture hstart
  have hcheck : packets.foldlM checkPacket { frame } =
      some { frame := packets.foldl mark frame, sawVcl := saw } := by
    refine foldlM_checkPacket hstream ?_ ?_
    · rw [hunits]
      exact validate_pieces hvalid
    · rw [hunits, checkSlice_pieces hvalid]
      exact hsaw
  have happend : packets.foldlM (fun j packet => appendPacketUnits packet j) {} =
      some { nalus := pieces.flatMap Piece.nalus } := by
    have := append_pieces hvalid []
    rw [← hunits, foldlM_flatMap] at this
    exact this
  have hkey : ¬((packets.foldl mark frame).hasIdr ∧ ¬cfg.idrOnlyKeyframesAllowed ∧
      (¬(packets.foldl mark frame).hasSps ∨ ¬(packets.foldl mark frame).hasPps)) := by
    obtain ⟨hsps, hpps, hidr⟩ := foldl_mark packets frame
    rw [hsps, hpps, hidr, hframe.1, hframe.2.1, hframe.2.2, Bool.false_or, Bool.false_or,
      Bool.false_or, any_mark hvalid h (fun us p hp => hp.2.1) fun _ => rfl,
      any_mark hvalid h (fun us p hp => hp.2.2.1) fun _ => rfl,
      any_mark hvalid h (fun us p hp => hp.2.2.2) fun _ => rfl]
    rintro ⟨hi, hno, hmiss⟩
    obtain ⟨hs, hp⟩ := (htakes.resolve_left hno) hi
    exact hmiss.elim (· hs) (· hp)
  refine ⟨{ packets.foldl mark frame with
    nalus := pieces.flatMap Piece.nalus, complete := true }, ?_, rfl, rfl⟩
  rw [assemble, hcheck, bind_eq_bind, bind_some, guard_bind, if_pos rfl,
    guard_bind, if_pos hkey, happend, bind_eq_bind, bind_some, guard_bind,
    if_pos (by simpa using hne)]

end Assembling

end Packetia.H264
