import Packetia.H264.Payload

/-!
# The classifier of a video that comes back

`VideoResumeBuffer` looks for the start of a picture among the packets of a paused video. Its
`H264` (`Rtsp/Rtp/VideoResumeBuffer.cpp`) reads a payload on its own: whether it is well formed,
has the first slice of an IDR picture, and has parameter sets only. What it accepts, the parser of
the depacketizer takes apart into units that say the same (`h264_agrees`).
-/

namespace Packetia.Resume

open Bool List H264

structure PayloadInfo where
  valid : Bool := false
  key : Bool := false
  parameter : Bool := false
  type : Byte := 0

/-- `H264` on a payload that is a unit by itself. -/
def h264Unit (p : List Byte) : PayloadInfo :=
  let type := byteAt p 0 &&& 31
  if p.length < 2 ∨ byteAt p 0 &&& 0x80 ≠ 0 then {}
  else if 1 ≤ type.toNat ∧ type.toNat ≤ 23 then
    { valid := true, key := type = 5 ∧ byteAt p 1 &&& 0x80 ≠ 0, parameter := type = 7 ∨ type = 8,
      type }
  else {}

/-- The loop of `H264` over the units of an aggregate, of which `rest` is left. It calls `H264`
    again, on payloads of types below 24 only. -/
def aggregateLoop : (fuel : ℕ) → (rest : List Byte) → (key parameters : Bool) → (count : ℕ) →
    PayloadInfo
  | 0, _, _, _, _ => {}
  | fuel + 1, rest, key, parameters, count =>
    if 2 ≤ rest.length then
      let len := (u16At rest 0).toNat
      let unit := (rest.drop 2).take len
      if len < 2 ∨ len > rest.length - 2 then {}
      else if (byteAt unit 0 &&& 31).toNat ≥ 24 then {}
      else if ¬(h264Unit unit).valid ∨ (h264Unit unit).type.toNat ≥ 24 then {}
      else aggregateLoop fuel (rest.drop (2 + len)) (key || (h264Unit unit).key)
        (parameters && (h264Unit unit).parameter) (count + 1)
    else if rest = [] ∧ count ≠ 0 then { valid := true, key, parameter := parameters, type := 24 }
    else {}

/-- `H264`. -/
def h264 (p : List Byte) : PayloadInfo :=
  let type := byteAt p 0 &&& 31
  if p.length < 2 ∨ byteAt p 0 &&& 0x80 ≠ 0 then {}
  else if 1 ≤ type.toNat ∧ type.toNat ≤ 23 then h264Unit p
  else if type = 28 then
    if p.length < 3 ∨ byteAt p 1 &&& 0x20 ≠ 0 ∨ byteAt p 1 &&& 0xC0 = 0xC0 ∨
      byteAt p 1 &&& 31 = 0 ∨ (byteAt p 1 &&& 31).toNat ≥ 24 then {}
    else
      { valid := true
        key := byteAt p 1 &&& 0x80 ≠ 0 ∧ byteAt p 1 &&& 31 = 5 ∧ byteAt p 2 &&& 0x80 ≠ 0, type }
  else if type ≠ 24 then {}
  else aggregateLoop (p.length + 1) (p.drop 1) false true 0

/-- The unit starts an IDR picture. -/
def startsIdr (unit : PayloadUnit) : Bool := unit.isIdr && unit.firstSlice

def isParameter (unit : PayloadUnit) : Bool := unit.isSps || unit.isPps

variable {p : List Byte}

/-- The flags of a unit by itself are those of the unit that the parser makes of it. -/
theorem h264Unit_valid (h : (h264Unit p).valid = true) :
    (2 ≤ p.length ∧ byteAt p 0 &&& 0x80 = 0 ∧ 1 ≤ (nalTypeOf (byteAt p 0)).toNat ∧
      (nalTypeOf (byteAt p 0)).toNat ≤ 23) ∧
    (h264Unit p).key = startsIdr (singleUnit p).withKeyInfo ∧
      (h264Unit p).parameter = isParameter (singleUnit p).withKeyInfo := by
  simp only [h264Unit] at h ⊢
  split_ifs at h ⊢ with hp ht
  obtain ⟨hlen, hbit⟩ := not_or.1 hp
  refine ⟨⟨not_lt.1 hlen, not_not.1 hbit, ht⟩, ?_, decide_or _ _⟩
  change _ = (decide (byteAt p 0 &&& 31 = 5) && decide (IsSlice _ ∧ _))
  rw [← decide_and, decide_eq_decide]
  exact ⟨fun ⟨h5, hfirst⟩ => ⟨h5, .inr h5, hfirst⟩, fun ⟨h5, _, hfirst⟩ => ⟨h5, hfirst⟩⟩

variable {view : RtpView}

/-- The two loops, from the same rest on, with flags that describe the units before it. -/
theorem aggregateLoop_agrees (view : RtpView) (out : ParsedPacket) {fuel : ℕ} {rest : List Byte}
    {key parameters : Bool} {count : ℕ} (hkey : key = out.units.any startsIdr)
    (hparameters : parameters = out.units.all isParameter) (hcount : count = out.units.length)
    (h : (aggregateLoop fuel rest key parameters count).valid = true) :
    (parseStapAFrom view fuel rest out).1 = true ∧
      (aggregateLoop fuel rest key parameters count).key =
        (parseStapAFrom view fuel rest out).2.units.any startsIdr ∧
      (aggregateLoop fuel rest key parameters count).parameter =
        (parseStapAFrom view fuel rest out).2.units.all isParameter := by
  induction fuel generalizing rest key parameters count out with
  | zero => cases h
  | succ fuel ih =>
    rw [aggregateLoop] at h ⊢
    rw [parseStapAFrom]
    by_cases hmore : 2 ≤ rest.length
    · simp only [if_pos hmore] at h ⊢
      obtain ⟨unit, hunit⟩ : ∃ unit, unit = (rest.drop 2).take (u16At rest 0).toNat := ⟨_, rfl⟩
      rw [← hunit] at h ⊢
      split_ifs at h with hlen htype hbad
      obtain ⟨⟨-, hbit, hone, hmax⟩, hkey', hparameters'⟩ :=
        h264Unit_valid (not_not.1 (not_or.1 hbad).1)
      have hsize : ¬((u16At rest 0).toNat = 0 ∨ 2 + (u16At rest 0).toNat > rest.length) := by
        omega
      have hgood : ¬(byteAt unit 0 &&& 0x80 ≠ 0 ∨ nalTypeOf (byteAt unit 0) = 0 ∨
          (nalTypeOf (byteAt unit 0)).toNat ≥ 24 ∨
          (IsSlice (nalTypeOf (byteAt unit 0)) ∧ (u16At rest 0).toNat < 2)) := by
        rintro (h | h | h | ⟨-, h⟩)
        · exact h hbit
        · rw [h] at hone
          exact absurd hone (by decide)
        · omega
        · omega
      rw [if_neg hlen, if_neg htype, if_neg hbad, if_neg hsize, if_neg hgood]
      -- The unit goes over from the rest to what is described.
      refine ih _ ?_ ?_ ?_ h
      · rw [hkey, hkey', ParsedPacket.addUnit, any_append, any_cons, any_nil, Bool.or_false]
        rfl
      · rw [hparameters, hparameters', ParsedPacket.addUnit, all_append, all_cons,
          all_nil, Bool.and_true]
        rfl
      · rw [hcount, ParsedPacket.addUnit, length_append, length_singleton]
    · simp only [if_neg hmore] at h ⊢
      split_ifs at h with hend
      have hunits : ¬(rest ≠ [] ∨ out.units = []) := by
        rintro (hne | hnil)
        · exact hne hend.1
        · exact hend.2 (by rw [hcount, hnil, length_nil])
      rw [if_pos hend, if_neg hunits]
      exact ⟨rfl, hkey, hparameters⟩

/-- The flags of a fragment. -/
theorem fuUnit_flags : startsIdr (fuUnit p).withKeyInfo = decide (byteAt p 1 &&& 0x80 ≠ 0 ∧
    byteAt p 1 &&& 31 = 5 ∧ byteAt p 2 &&& 0x80 ≠ 0) := by
  change (decide (byteAt p 1 &&& 31 = 5) && decide (_ ∧ IsSlice _ ∧ _)) = _
  rw [← decide_and, decide_eq_decide]
  exact ⟨fun ⟨h5, hstart, _, hfirst⟩ => ⟨hstart, h5, hfirst⟩,
    fun ⟨hstart, h5, hfirst⟩ => ⟨h5, hstart, .inr h5, hfirst⟩⟩

theorem h264_flags (h : (h264 view.payload).valid = true) : (parse view).1 = true ∧
    (h264 view.payload).key = (parse view).2.units.any startsIdr ∧
    (h264 view.payload).parameter =
      (decide (nalTypeOf (byteAt view.payload 0) ≠ fuAType) &&
        (parse view).2.units.all isParameter) := by
  obtain ⟨t, ht⟩ : ∃ t, t = byteAt view.payload 0 &&& 31 := ⟨_, rfl⟩
  have hnal : nalTypeOf (byteAt view.payload 0) = t := ht.symm
  simp only [h264, ← ht] at h ⊢
  simp only [parse, hnal]
  split_ifs at h with hshort hsingle hfu hbad hstap
  all_goals obtain ⟨hlen, hbit⟩ := not_or.1 hshort
  all_goals
    have hne : view.payload ≠ [] := fun hnil => hlen (by rw [hnil]; decide)
    rw [if_neg hshort, if_neg hne, if_neg hbit]
  · obtain ⟨-, hkey, hparameter⟩ := h264Unit_valid h
    have hother : t ≠ fuAType := by rintro rfl; exact absurd hsingle (by decide)
    have hslice : ¬(IsSlice t ∧ view.payload.length < 2) := fun hs => hlen hs.2
    rw [if_pos hsingle, if_pos hsingle, parseSingleNalu, hnal, if_neg hslice, hkey, hparameter,
      decide_eq_true hother, Bool.true_and]
    simp [ParsedPacket.addUnit, fillCommon]
  · subst hfu
    have hgood : ¬(byteAt view.payload 1 &&& 0x20 ≠ 0 ∨
        ((fuUnit view.payload).fuStart ∧ (fuUnit view.payload).fuEnd) ∨
        byteAt view.payload 1 &&& 0x1F = 0 ∨ (byteAt view.payload 1 &&& 0x1F).toNat ≥ 24) := by
      have hboth : ∀ b : Byte, b &&& 0x80 ≠ 0 → b &&& 0x40 ≠ 0 → b &&& 0xC0 = 0xC0 := by
        decide +kernel
      rintro (hbit' | ⟨hstart, hend⟩ | hzero | hmax)
      · exact hbad (.inr (.inl hbit'))
      · exact hbad (.inr (.inr (.inl
          (hboth _ (of_decide_eq_true hstart) (of_decide_eq_true hend)))))
      · exact hbad (.inr (.inr (.inr (.inl hzero))))
      · exact hbad (.inr (.inr (.inr (.inr hmax))))
    rw [if_neg hsingle, if_pos rfl, if_neg hbad, if_neg hsingle, if_neg (by decide),
      if_pos (show (28 : Byte) = fuAType from rfl), parseFuA, if_neg fun hlt => hbad (.inl hlt),
      if_neg hgood]
    refine ⟨rfl, ?_, rfl⟩
    rw [← fuUnit_flags]
    simp [ParsedPacket.addUnit, fillCommon]
  · have hstap' : t = stapAType := not_not.1 hstap
    obtain ⟨hparse, hkey, hparameter⟩ := aggregateLoop_agrees view (fillCommon view) rfl rfl rfl h
    rw [if_neg hsingle, if_neg hfu, if_neg hstap, if_neg hsingle, if_pos hstap', parseStapA]
    refine ⟨hparse, hkey, hparameter.trans ?_⟩
    rw [hstap']
    rfl

/-- What the classifier accepts, the parser takes apart: the payload is key if one of its units is
    the first slice of an IDR picture, and parameters if it is not a fragment and all its units are
    parameter sets. -/
theorem h264_agrees (view : RtpView) (h : (h264 view.payload).valid = true) :
    (parse view).1 = true ∧
      ((h264 view.payload).key = true ↔
        ∃ unit ∈ (parse view).2.units, unit.isIdr = true ∧ unit.firstSlice = true) ∧
      ((h264 view.payload).parameter = true ↔ nalTypeOf (byteAt view.payload 0) ≠ fuAType ∧
        ∀ unit ∈ (parse view).2.units, unit.isSps = true ∨ unit.isPps = true) := by
  obtain ⟨hparse, hkey, hparameter⟩ := h264_flags h
  refine ⟨hparse, ?_, ?_⟩
  · rw [hkey, any_eq_true]
    simp only [startsIdr, and_eq_true]
  · rw [hparameter, and_eq_true, decide_eq_true_eq, all_eq_true]
    simp only [isParameter, or_eq_true]

/-- An aggregate of a parameter set and the first slice of an IDR picture. -/
theorem h264_agrees_aggregate :
    (h264 [0x78, 0, 2, 0x67, 0x42, 0, 2, 0x65, 0x88]).key = true ∧
      (parse ⟨0, 0, true, [0x78, 0, 2, 0x67, 0x42, 0, 2, 0x65, 0x88], 1, 0⟩).1 = true :=
  ⟨by decide,
    (h264_agrees ⟨0, 0, true, [0x78, 0, 2, 0x67, 0x42, 0, 2, 0x65, 0x88], 1, 0⟩ (by decide)).1⟩

end Packetia.Resume
