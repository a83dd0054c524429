import Mathlib

/-!
# Integers and words

A counter that never wraps is an integer; on the wire only its low `w` bits are
sent, as a word of `BitVec w`. Reading a word back needs a nearby integer to
count from:

* `ahead x s` is how far the word `s` is ahead of the integer `x` around the
  circle of `2 ^ w` words, so that `x + ahead x s` is the first integer from
  `x` on whose low bits are `s` (`ofInt_add_ahead`);
* `nearest x s` is the integer closest to `x` whose low bits are `s`, the
  antipode counting as behind (`nearest_ofInt`). A word moves `x` to
  `max x (nearest x s)` when it is less than half a turn ahead (`ofInt_max_nearest`).

Both undo the cut to `w` bits on the integers they can reach: a whole turn
forward for the one, half a turn either way for the other.
-/

namespace Packetia

open BitVec (add_comm ofInt ofInt_add)

variable {w : ℕ}

variable (x : ℤ) (s : BitVec w)

/-- How far the word `s` is ahead of the integer `x`, around the circle. -/
def ahead : ℕ := (s - ofInt w x).toNat

/-- The integer closest to `x` with the low bits `s`; the antipode is behind. -/
def nearest : ℤ := x + (s - ofInt w x).toInt

theorem ofInt_sub (y : ℤ) : ofInt w (x - y) = ofInt w x - ofInt w y := by
  rw [sub_eq_add_neg, ofInt_add, BitVec.ofInt_neg, BitVec.sub_eq_add_neg]

/-- The word `s` is what is left of the integer it is ahead to. -/
@[simp] theorem ofInt_add_ahead : ofInt w (x + ahead x s) = s := by
  rw [ofInt_add, ahead, BitVec.ofInt_natCast, BitVec.ofNat_toNat, BitVec.setWidth_eq,
    add_comm, BitVec.sub_add_cancel]

/-- Within a turn from `x` on, `ahead` undoes the cut to `w` bits. -/
theorem ahead_ofInt {x y : ℤ} (hxy : x ≤ y) (hy : y < x + 2 ^ w) :
    (ahead x (ofInt w y) : ℤ) = y - x := by
  rw [ahead, ← ofInt_sub, BitVec.toNat_ofInt]
  push_cast
  rw [Int.emod_eq_of_lt (by omega) (by omega), Int.toNat_of_nonneg (by omega)]

@[simp] theorem ofInt_nearest : ofInt w (nearest x s) = s := by
  rw [nearest, ofInt_add, BitVec.ofInt_toInt, add_comm, BitVec.sub_add_cancel]

/-- Within half a turn of `x`, `nearest` undoes the cut to `w` bits. -/
theorem nearest_ofInt {x y : ℤ} (hlo : -2 ^ w ≤ 2 * (y - x)) (hhi : 2 * (y - x) < 2 ^ w) :
    nearest x (ofInt w y) = y := by
  rw [nearest, ← ofInt_sub, BitVec.toInt_ofInt, Int.bmod_eq_of_le_mul_two]
  · ring
  · push_cast; linarith
  · push_cast; linarith

theorem nearest_bounds : -2 ^ w ≤ 2 * (nearest x s - x) ∧ 2 * (nearest x s - x) < 2 ^ w := by
  have hlo := BitVec.le_two_mul_toInt (x := s - ofInt w x)
  have hhi := BitVec.two_mul_toInt_lt (x := s - ofInt w x)
  rw [nearest]
  constructor <;> linarith

/-- The furthest integer follows a word that is less than half a turn ahead. -/
theorem ofInt_max_nearest : ofInt w (max x (nearest x s)) =
    if 2 * (s - ofInt w x).toNat < 2 ^ w then s else ofInt w x := by
  split_ifs with h
  · rw [max_eq_right, ofInt_nearest]
    rw [nearest, BitVec.toInt_eq_toNat_cond, if_pos h]
    exact le_add_of_nonneg_right (Int.natCast_nonneg _)
  · rw [max_eq_left]
    have hlt := (s - ofInt w x).isLt
    rw [nearest, BitVec.toInt_eq_toNat_cond, if_neg h]
    push_cast
    zify at hlt
    linarith

/-- Integers less than a turn apart differ on the wire. -/
theorem ofInt_ne_of_lt {x y : ℤ} (hxy : x < y) (hy : y < x + 2 ^ w) : ofInt w x ≠ ofInt w y := by
  intro heq
  have hahead := ahead_ofInt hxy.le hy
  rw [ahead, ← heq, BitVec.sub_self, BitVec.toNat_zero] at hahead
  push_cast at hahead
  linarith

end Packetia
