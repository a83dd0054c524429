import Mathlib

/-!
# Round-trip times

`RtpSenderTrack.cpp` and `SendSideController.cpp` each compute a round-trip time from the LSR and
DLSR of a report and the clock, in units of 2⁻¹⁶ s modulo 2³². The first rounds the fraction of the
second twice, which gives the same as long as the fraction is not negative (`compact_eq`). An
interval of half a turn and more is negative: the second takes it for no sample, the first for up
to 18 hours (`rtts_agree_iff`).
-/

namespace Packetia.Rtcp

open BitVec

variable (nowNs : ℤ)

/-- `duration_cast` of the clock, in nanoseconds since 1970, to seconds. -/
def secondsOf : BitVec 64 := BitVec.ofInt 64 (nowNs.tdiv 1000000000)

/-- What is left in nanoseconds. -/
def nanosOf : BitVec 64 := BitVec.ofInt 64 (nowNs.tmod 1000000000)

/-- `CompactNtpNow`. -/
def compactNtpNow : BitVec 32 :=
  let ntpSeconds := secondsOf nowNs + 2208988800
  let ntpFraction := nanosOf nowNs <<< 32 / 1000000000
  ((ntpSeconds &&& 0xFFFF) <<< 16 ||| (ntpFraction >>> 16 &&& 0xFFFF)).setWidth 32

/-- `CalculateRttMs` of `RtpSenderTrack.cpp`. -/
def calculateRttMs (lsr dlsr : BitVec 32) : BitVec 32 :=
  if lsr = 0 then 0
  else
    let rttNtp := compactNtpNow nowNs - lsr - dlsr
    ((rttNtp.setWidth 64 * 1000 + 32768) / 65536).setWidth 32

/-- `RttMs` of `SendSideController.cpp`. -/
def rttMs (lsr dlsr : BitVec 32) : BitVec 32 :=
  if lsr = 0 then 0
  else
    let ntpSeconds := secondsOf nowNs + 2208988800
    let compact := (ntpSeconds <<< 16 ||| nanosOf nowNs <<< 16 / 1000000000).setWidth 32
    let elapsed := compact - lsr - dlsr
    if elapsed > 0x7FFFFFFF then 0
    else ((elapsed.setWidth 64 * 1000 + 32768) / 65536).setWidth 32

theorem toNat_and_mask (x : BitVec 64) : (x &&& (0xFFFF : BitVec 64)).toNat = x.toNat % 2 ^ 16 :=
  (toNat_and x 0xFFFF).trans (Nat.and_two_pow_sub_one_eq_mod _ 16)

/-- Of the seconds 16 bits are left. -/
theorem seconds_eq (s : BitVec 64) :
    ((s &&& 0xFFFF) <<< 16).setWidth 32 = (s <<< 16).setWidth 32 := by
  apply eq_of_toNat_eq
  rw [toNat_setWidth, toNat_setWidth, toNat_shiftLeft,
    toNat_shiftLeft, toNat_and_mask, Nat.shiftLeft_eq, Nat.shiftLeft_eq]
  omega

/-- Cutting the fraction to 32 bits and then to 16 is cutting it to 16. -/
theorem fraction_eq {n : BitVec 64} (h : n.toNat < 1000000000) :
    (n <<< 32 / 1000000000) >>> 16 &&& (0xFFFF : BitVec 64) = n <<< 16 / 1000000000 := by
  have hnat : ((n <<< 32 / 1000000000) >>> 16).toNat = (n <<< 16 / 1000000000).toNat := by
    simp only [toNat_ushiftRight, toNat_udiv, toNat_shiftLeft,
      Nat.shiftLeft_eq, Nat.shiftRight_eq_div_pow, reduceToNat]
    rw [Nat.mod_eq_of_lt (by omega), Nat.mod_eq_of_lt (by omega), Nat.div_div_eq_div_mul]
    omega
  have hlt : (n <<< 16 / 1000000000).toNat < 2 ^ 16 := by
    simp only [toNat_udiv, toNat_shiftLeft, Nat.shiftLeft_eq, reduceToNat]
    omega
  apply eq_of_toNat_eq
  rw [toNat_and_mask, hnat, Nat.mod_eq_of_lt hlt]

/-- Both read the same from a clock whose fraction of a second is not negative. -/
theorem compact_eq {nowNs : ℤ} (h : 0 ≤ nowNs.tmod 1000000000) : compactNtpNow nowNs =
    ((secondsOf nowNs + 2208988800) <<< 16 ||| nanosOf nowNs <<< 16 / 1000000000).setWidth 32 := by
  have hnanos : (nanosOf nowNs).toNat < 1000000000 := by
    have hhi := Int.tmod_lt_of_pos nowNs (b := 1000000000) (by decide)
    rw [nanosOf, toNat_ofInt]
    omega
  rw [compactNtpNow, fraction_eq hnanos, setWidth_or, setWidth_or, seconds_eq]

/-- The conversion to milliseconds does not overflow. -/
theorem toNat_ms (x : BitVec 32) : (((x.setWidth 64 * 1000 + 32768) / 65536).setWidth 32).toNat =
    (x.toNat * 1000 + 32768) / 65536 := by
  simp only [toNat_setWidth, toNat_udiv, toNat_add, toNat_mul, reduceToNat]
  rw [Nat.mod_eq_of_lt (a := x.toNat) (by omega), Nat.mod_eq_of_lt (a := x.toNat * _),
    Nat.mod_eq_of_lt (a := _ + _)]
  · exact Nat.mod_eq_of_lt (Nat.div_lt_of_lt_mul (by omega))
  · omega
  · omega

/-- Without an LSR both give zero. With one, and a fraction of a second that is not negative, they
    agree on the intervals that are not negative and on no others. -/
theorem rtts_agree_iff (nowNs : ℤ) (lsr dlsr : BitVec 32) :
    (lsr = 0 ∨ 0 ≤ nowNs.tmod 1000000000 ∧ compactNtpNow nowNs - lsr - dlsr ≤ 0x7FFFFFFF →
      calculateRttMs nowNs lsr dlsr = rttMs nowNs lsr dlsr) ∧
    (0 ≤ nowNs.tmod 1000000000 → calculateRttMs nowNs lsr dlsr = rttMs nowNs lsr dlsr →
      lsr = 0 ∨ compactNtpNow nowNs - lsr - dlsr ≤ 0x7FFFFFFF) := by
  rw [calculateRttMs, rttMs]
  dsimp only
  by_cases hlsr : lsr = 0
  · simp [hlsr]
  rw [if_neg hlsr, if_neg hlsr]
  refine ⟨fun h => ?_, fun hfraction heq => .inr ?_⟩
  · obtain ⟨hfraction, hle⟩ := h.resolve_left hlsr
    rw [← compact_eq hfraction, if_neg (BitVec.not_lt.2 hle)]
  · rw [← compact_eq hfraction] at heq
    by_contra hneg
    rw [if_pos (BitVec.not_le.1 hneg)] at heq
    have hms : _ = 0 := (toNat_ms _).symm.trans (congrArg BitVec.toNat heq)
    have hlt : 0x7FFFFFFF < (compactNtpNow nowNs - lsr - dlsr).toNat := BitVec.not_le.1 hneg
    omega

/-- A report of a second ago, at a clock of a second before 1970. -/
theorem rtts_agree_before_epoch :
    calculateRttMs (-1000000000) 0x7E7E0000 0 = rttMs (-1000000000) 0x7E7E0000 0 :=
  (rtts_agree_iff (-1000000000) 0x7E7E0000 0).1 (.inr (by decide))

/-- A report that is ahead of the clock by 2⁻¹⁶ s: 65536 s, and no sample. A nanosecond before 1970
    the fraction is negative, and the clock is read differently. -/
theorem rtts_differ : calculateRttMs 0 0x7E800001 0 = 65536000 ∧ rttMs 0 0x7E800001 0 = 0 ∧
    calculateRttMs (-1) 0x7E7F0000 0 ≠ rttMs (-1) 0x7E7F0000 0 := by
  decide

end Packetia.Rtcp
