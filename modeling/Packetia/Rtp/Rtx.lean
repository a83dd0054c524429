import Packetia.Rtp.Header

/-!
# Retransmission streams

A lost packet is sent again on a stream of its own (`Rtsp/Rtp/RtpRtx.h`): `EncapsulateRtx` gives
it the numbers of that stream and puts its own sequence number before its payload, and
`DecapsulateRtx` takes it from there. The payload is found by `rtpPayloadBounds`, in each of them
anew.
-/

namespace Packetia.Rtp

open List

variable (packet : List Byte)

/-- The end of both functions: the padding bit is cleared, and the payload type, the sequence
    number and the source are written. -/
def stampRtx (pt high low : Byte) (ssrc : BitVec 32) : List Byte :=
  let packet := packet.set 0 (byteAt packet 0 &&& ~~~(0x20 : Byte))
  let packet := packet.set 1 ((byteAt packet 1 &&& 0x80) ||| pt)
  overwrite ((packet.set 2 high).set 3 low) 8 (u32Bytes ssrc)

/-- `EncapsulateRtx`: whether it succeeds, and the packet it leaves. -/
def encapsulateRtx (pt : Byte) (ssrc : BitVec 32) (sequence : BitVec 16) : Bool × List Byte :=
  match rtpPayloadBounds packet with
  | none => (false, packet)
  | some (first, stop) =>
    if pt.toNat > 127 ∨ ssrc = 0 ∨ first = stop then (false, packet)
    else
      let osn := [byteAt packet 2, byteAt packet 3]
      (true, stampRtx (insertAt (packet.take stop) first osn) pt (sequence.extractLsb' 8 8)
        (sequence.extractLsb' 0 8) ssrc)

/-- `DecapsulateRtx`. -/
def decapsulateRtx (primaryPt : Byte) (primarySsrc : BitVec 32) : Bool × List Byte :=
  match rtpPayloadBounds packet with
  | none => (false, packet)
  | some (first, stop) =>
    if primaryPt.toNat > 127 ∨ primarySsrc = 0 ∨ stop - first ≤ 2 then (false, packet)
    else
      (true, stampRtx (eraseRange (packet.take stop) first (first + 2)) primaryPt
        (byteAt packet first) (byteAt packet (first + 1)) primarySsrc)

/-- The packet without its padding. -/
def unpad : List Byte :=
  (packet.take (payloadStop packet)).set 0 (byteAt packet 0 &&& ~~~(0x20 : Byte))

/-! ## The fixed header and what follows it -/

/-- The fixed header, byte by byte, before the rest of a packet. -/
theorem exists_fixed {packet : List Byte} (h : 12 ≤ packet.length) :
    ∃ b₀ b₁ b₂ b₃ b₄ b₅ b₆ b₇ b₈ b₉ b₁₀ b₁₁ rest,
      packet = b₀ :: b₁ :: b₂ :: b₃ :: b₄ :: b₅ :: b₆ :: b₇ :: b₈ :: b₉ :: b₁₀ :: b₁₁ :: rest := by
  iterate 12
    obtain _ | ⟨_, packet⟩ := packet
    · simp at h
  exact ⟨_, _, _, _, _, _, _, _, _, _, _, _, _, rfl⟩

/-- The bits of the first byte apart from the padding bit. -/
theorem clear_padding (b : Byte) : (b &&& ~~~(0x20 : Byte)) >>> 6 = b >>> 6 ∧
    (b &&& ~~~(0x20 : Byte)) &&& 0x10 = b &&& 0x10 ∧ (b &&& ~~~(0x20 : Byte)) &&& 15 = b &&& 15 ∧
    (b &&& ~~~(0x20 : Byte)) &&& 0x20 = 0 ∧
    (b &&& ~~~(0x20 : Byte)) &&& ~~~(0x20 : Byte) = b &&& ~~~(0x20 : Byte) := by
  revert b
  decide +kernel

variable {packet rtx : List Byte} {pt high low : Byte} {ssrc : BitVec 32} {first stop : ℕ}

theorem stampRtx_append {head : List Byte} (h : 12 ≤ head.length) (rest : List Byte) :
    stampRtx (head ++ rest) pt high low ssrc = stampRtx head pt high low ssrc ++ rest := by
  obtain ⟨b₀, b₁, b₂, b₃, b₄, b₅, b₆, b₇, b₈, b₉, b₁₀, b₁₁, head, rfl⟩ := exists_fixed h
  rfl

theorem length_stampRtx (h : 12 ≤ packet.length) :
    (stampRtx packet pt high low ssrc).length = packet.length := by
  obtain ⟨b₀, b₁, b₂, b₃, b₄, b₅, b₆, b₇, b₈, b₉, b₁₀, b₁₁, head, rfl⟩ := exists_fixed h
  rfl

/-- The first byte keeps all but the padding bit, and what follows the fixed header stays. -/
theorem byteAt_stampRtx (h : 12 ≤ packet.length) :
    byteAt (stampRtx packet pt high low ssrc) 0 = byteAt packet 0 &&& ~~~(0x20 : Byte) ∧
      ∀ j, 12 ≤ j → byteAt (stampRtx packet pt high low ssrc) j = byteAt packet j := by
  obtain ⟨b₀, b₁, b₂, b₃, b₄, b₅, b₆, b₇, b₈, b₉, b₁₀, b₁₁, head, rfl⟩ := exists_fixed h
  refine ⟨rfl, fun j hj => ?_⟩
  obtain ⟨k, rfl⟩ := Nat.exists_eq_add_of_le' hj
  rfl

theorem extractLsb_high {w : ℕ} (x y : BitVec w) : (x ++ y).extractLsb' w w = x :=
  BitVec.extractLsb'_append_eq_left

theorem extractLsb_low {w : ℕ} (x y : BitVec w) : (x ++ y).extractLsb' 0 w = y :=
  BitVec.extractLsb'_append_eq_right

variable (high low ssrc) in
/-- With its own numbers, only the padding bit of a packet changes; those it had in between do
    not matter. -/
theorem stampRtx_stampRtx (h : 12 ≤ packet.length) (hpt : ¬pt.toNat > 127) :
    stampRtx (stampRtx packet pt high low ssrc) (byteAt packet 1 &&& 0x7F) (byteAt packet 2)
      (byteAt packet 3) (u32At packet 8) = packet.set 0 (byteAt packet 0 &&& ~~~(0x20 : Byte)) := by
  obtain ⟨b₀, b₁, b₂, b₃, b₄, b₅, b₆, b₇, b₈, b₉, b₁₀, b₁₁, head, rfl⟩ := exists_fixed h
  have hpt' : pt &&& 0x80 = 0 := by
    have hall : ∀ b : Byte, ¬b.toNat > 127 → b &&& 0x80 = 0 := by decide +kernel
    exact hall pt hpt
  have hmarker : (((b₁ &&& 0x80) ||| pt) &&& 0x80) ||| (b₁ &&& 0x7F) = b₁ := by
    have hall : ∀ b : Byte, (b &&& 0x80 &&& 0x80 ||| 0) ||| (b &&& 0x7F) = b := by decide +kernel
    rw [BitVec.and_or_distrib_right, hpt', hall]
  have hsource : u32Bytes ((b₈ ++ b₉ : BitVec 16) ++ (b₁₀ ++ b₁₁ : BitVec 16)) =
      [b₈, b₉, b₁₀, b₁₁] := by
    rw [u32Bytes, extractLsb_high, extractLsb_low, u16Bytes, u16Bytes]
    simp only [extractLsb_high, extractLsb_low]
    rfl
  change (b₀ &&& ~~~(0x20 : Byte) &&& ~~~(0x20 : Byte)) ::
    ((((b₁ &&& 0x80) ||| pt) &&& 0x80) ||| (b₁ &&& 0x7F)) :: b₂ :: b₃ :: b₄ :: b₅ :: b₆ :: b₇ ::
    (u32Bytes ((b₈ ++ b₉ : BitVec 16) ++ (b₁₀ ++ b₁₁ : BitVec 16)) ++ head) = _
  rw [(clear_padding b₀).2.2.2.2, hmarker, hsource]
  rfl

/-! ## There and back -/

variable (packet) in
theorem payloadStart_ge : 12 ≤ payloadStart packet :=
  (Nat.le_add_right 12 _).trans (fixedEnd_le_payloadStart packet)

/-- What the bounds say. -/
theorem of_rtpPayloadBounds (h : rtpPayloadBounds packet = some (first, stop)) :
    Framed packet ∧ PaddingIn packet (packet.length - payloadStart packet) ∧
      first = payloadStart packet ∧ stop = payloadStop packet ∧ first ≤ stop ∧
      stop ≤ packet.length := by
  rw [rtpPayloadBounds_eq] at h
  split_ifs at h with hf
  obtain ⟨rfl, rfl⟩ := Prod.mk.inj (Option.some.inj h)
  have hstart := hf.1.2.2.2.2
  refine ⟨hf.1, hf.2, rfl, rfl, ?_⟩
  rw [payloadStop]
  split_ifs with hp
  · have hfit := (hf.2 hp).2
    omega
  · exact ⟨hstart, le_rfl⟩

/-- A packet with the same bits and the same extension block, but no padding, has its payload from
    the same place on, up to its end. -/
theorem rtpPayloadBounds_unpadded (h : rtpPayloadBounds packet = some (first, stop))
    (hlen : first ≤ rtx.length) (hbits : byteAt rtx 0 = byteAt packet 0 &&& ~~~(0x20 : Byte))
    (hrest : ∀ j, 12 ≤ j → j < first → byteAt rtx j = byteAt packet j) :
    rtpPayloadBounds rtx = some (first, rtx.length) := by
  obtain ⟨⟨-, hversion, hfixed, hroom, hstart⟩, -, hfirst, -⟩ := of_rtpPayloadBounds h
  obtain ⟨hv, hx, hc, hp, -⟩ := clear_padding (byteAt packet 0)
  have hge := payloadStart_ge packet
  have hpadded : ¬Padded rtx := by rw [Padded, hbits, hp]; simp
  have hext : Extended rtx ↔ Extended packet := by rw [Extended, Extended, hbits, hx]
  have hfix : fixedEnd rtx = fixedEnd packet := by rw [fixedEnd, fixedEnd, hbits, hc]
  have hpayload : payloadStart rtx = first ∧ (Extended packet → fixedEnd packet + 4 ≤ first) := by
    rw [hfirst, payloadStart, payloadStart, hfix]
    by_cases he : Extended packet
    · rw [if_pos he, if_pos (hext.2 he)]
      rw [payloadStart, if_pos he] at hfirst
      have h12 : 12 ≤ fixedEnd packet := Nat.le_add_right 12 _
      rw [u16At_congr (hrest _ (by omega) (by omega)) (hrest _ (by omega) (by omega))]
      exact ⟨rfl, fun _ => by omega⟩
    · rw [if_neg he, if_neg fun he' => he (hext.1 he')]
      exact ⟨rfl, fun he' => absurd he' he⟩
  have hle := fixedEnd_le_payloadStart rtx
  have hframed : Framed rtx := by
    refine ⟨by omega, by rw [hbits, hv, hversion], by omega, fun he => ?_, by omega⟩
    have := hpayload.2 (hext.1 he)
    omega
  rw [rtpPayloadBounds_eq, if_pos ⟨hframed, fun hp' => absurd hp' hpadded⟩, hpayload.1,
    payloadStop, if_neg hpadded]

/-- What is sent again: the packet up to its payload, with the numbers of the stream, its own
    sequence number, and the payload. -/
theorem encapsulateRtx_eq {sequence : BitVec 16}
    (hbounds : rtpPayloadBounds packet = some (first, stop)) (hne : first ≠ stop)
    (hpt : pt.toNat ≤ 127) (hssrc : ssrc ≠ 0) :
    encapsulateRtx packet pt ssrc sequence =
      (true, stampRtx (packet.take first) pt (sequence.extractLsb' 8 8)
        (sequence.extractLsb' 0 8) ssrc ++
          byteAt packet 2 :: byteAt packet 3 :: (packet.take stop).drop first) := by
  obtain ⟨-, -, hfirst, -, hle, hend⟩ := of_rtpPayloadBounds hbounds
  have hge := payloadStart_ge packet
  have hhead : 12 ≤ (packet.take first).length := by rw [length_take]; omega
  have hok : ¬(pt.toNat > 127 ∨ ssrc = 0 ∨ first = stop) := by
    rintro (h | h | h)
    · omega
    · exact hssrc h
    · exact hne h
  rw [encapsulateRtx, hbounds]
  dsimp only
  rw [if_neg hok, insertAt, take_take, min_eq_left hle, append_assoc, stampRtx_append hhead]
  rfl

theorem decapsulateRtx_eq {head payload : List Byte} {n : ℕ}
    (hbounds : rtpPayloadBounds (head ++ high :: low :: payload) = some (head.length, n))
    (hn : n = head.length + 2 + payload.length) (hpayload : payload ≠ [])
    (hpt : pt.toNat ≤ 127) (hssrc : ssrc ≠ 0) :
    decapsulateRtx (head ++ high :: low :: payload) pt ssrc =
      (true, stampRtx (head ++ payload) pt high low ssrc) := by
  have hpos := length_pos_iff.2 hpayload
  have hok : ¬(pt.toNat > 127 ∨ ssrc = 0 ∨ n - head.length ≤ 2) := by
    rintro (h | h | h)
    · omega
    · exact hssrc h
    · omega
  have hbyte (j : ℕ) (hj : j < 2) :
      byteAt (head ++ ([high, low] ++ payload)) (head.length + j) = byteAt [high, low] j :=
    byteAt_append_add head [high, low] payload hj
  have htake : (head ++ high :: low :: payload).take n = head ++ high :: low :: payload :=
    take_of_length_le (by simp; omega)
  rw [decapsulateRtx, hbounds]
  dsimp only
  have hdrop : (head ++ high :: low :: payload).drop (head.length + 2) = payload := by
    rw [drop_append]
    simp
  rw [if_neg hok, htake, eraseRange, take_left, hdrop]
  exact congrArg₂ (fun high low => (true, stampRtx _ pt high low ssrc)) (hbyte 0 Nat.two_pos)
    (hbyte 1 Nat.one_lt_two)

/-- A packet with a payload that is sent on a retransmission stream comes out of it without its
    padding, whatever the numbers of that stream; and a failure changes nothing. -/
theorem rtx_lossless :
    (∀ (packet : List Byte) (first stop : ℕ) (pt : Byte) (ssrc : BitVec 32)
      (sequence : BitVec 16), rtpPayloadBounds packet = some (first, stop) → first ≠ stop →
      pt.toNat ≤ 127 → ssrc ≠ 0 → u32At packet 8 ≠ 0 →
      (encapsulateRtx packet pt ssrc sequence).1 = true ∧
        decapsulateRtx (encapsulateRtx packet pt ssrc sequence).2 (byteAt packet 1 &&& 0x7F)
          (u32At packet 8) = (true, unpad packet)) ∧
    (∀ (packet : List Byte) (pt : Byte) (ssrc : BitVec 32) (sequence : BitVec 16),
      (encapsulateRtx packet pt ssrc sequence).1 = false →
        (encapsulateRtx packet pt ssrc sequence).2 = packet) ∧
    ∀ (packet : List Byte) (pt : Byte) (ssrc : BitVec 32),
      (decapsulateRtx packet pt ssrc).1 = false → (decapsulateRtx packet pt ssrc).2 = packet := by
  refine ⟨fun packet first stop pt ssrc sequence hbounds hne hpt hssrc hown => ?_, ?_, ?_⟩
  · obtain ⟨-, -, hfirst, hstop, hle, hend⟩ := of_rtpPayloadBounds hbounds
    have hge := payloadStart_ge packet
    rw [encapsulateRtx_eq hbounds hne hpt hssrc]
    refine ⟨rfl, ?_⟩
    have hhead : (packet.take first).length = first := by rw [length_take]; omega
    obtain ⟨head, hstamped⟩ : ∃ head, head = stampRtx (packet.take first) pt
      (sequence.extractLsb' 8 8) (sequence.extractLsb' 0 8) ssrc := ⟨_, rfl⟩
    obtain ⟨payload, hpayload⟩ : ∃ payload, payload = (packet.take stop).drop first := ⟨_, rfl⟩
    have hlen : head.length = first := by
      rw [hstamped, length_stampRtx (by omega), hhead]
    have hplen : payload.length = stop - first := by
      rw [hpayload, length_drop, length_take, min_eq_left hend]
    obtain ⟨hbits, hkept⟩ : byteAt head 0 = byteAt (packet.take first) 0 &&& ~~~(0x20 : Byte) ∧
        ∀ j, 12 ≤ j → byteAt head j = byteAt (packet.take first) j := by
      rw [hstamped]
      exact byteAt_stampRtx (by omega)
    -- The second function finds the payload at the same place.
    have hback : rtpPayloadBounds (head ++ byteAt packet 2 :: byteAt packet 3 :: payload) =
        some (first, (head ++ byteAt packet 2 :: byteAt packet 3 :: payload).length) := by
      refine rtpPayloadBounds_unpadded hbounds (by rw [length_append]; omega) ?_ ?_
      · rw [byteAt_append_left (by omega), hbits, byteAt_take (by omega)]
      · intro j hj hlt
        rw [byteAt_append_left (by omega), hkept j hj, byteAt_take hlt]
    have htype : (byteAt packet 1 &&& 0x7F).toNat ≤ 127 := by
      have hall : ∀ b : Byte, (b &&& 0x7F).toNat ≤ 127 := by decide +kernel
      exact hall _
    rw [← hstamped, ← hpayload, decapsulateRtx_eq (by rw [hback, hlen])
      (by simp only [length_append, length_cons]; omega)
      (length_pos_iff.1 (by omega)) htype hown, hstamped, ← stampRtx_append (by omega)]
    have hwhole := take_append_drop first (packet.take stop)
    rw [take_take, min_eq_left hle, ← hpayload] at hwhole
    have hbyte : ∀ j < 12, byteAt (packet.take stop) j = byteAt packet j := fun j hj =>
      byteAt_take (by omega)
    have hown' := stampRtx_stampRtx (sequence.extractLsb' 8 8) (sequence.extractLsb' 0 8) ssrc
      (show 12 ≤ (packet.take stop).length by rw [length_take]; omega) (not_lt.2 hpt)
    simp only [u32At, u16At, hbyte, Nat.reduceAdd, Nat.reduceLT] at hown'
    rw [hwhole, unpad, ← hstop]
    exact congrArg (Prod.mk true) hown'
  · intro packet pt ssrc sequence h
    rw [encapsulateRtx] at h ⊢
    split at h
    · rfl
    · split_ifs at h ⊢
      rfl
  · intro packet pt ssrc h
    rw [decapsulateRtx] at h ⊢
    split at h
    · rfl
    · split_ifs at h ⊢
      rfl

end Packetia.Rtp
