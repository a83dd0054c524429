import Mathlib

/-!
# Bytes

Packets are lists of bytes. The code reads and writes them by position, with
integers of several bytes in network order, most significant byte first.

A read past the end gives zero here. The code never makes one: every read is
behind a check of the length, which the model keeps.
-/

namespace Packetia

open List BitVec

abbrev Byte := BitVec 8

variable (data : List Byte) (i : ℕ)

/-- `data[i]`. -/
def byteAt : Byte := data.getD i 0

/-- The 16-bit integer at `i`. -/
def u16At : BitVec 16 := byteAt data i ++ byteAt data (i + 1)

/-- The 32-bit integer at `i`. -/
def u32At : BitVec 32 := u16At data i ++ u16At data (i + 2)

/-- The 64-bit integer at `i`. -/
def u64At : BitVec 64 := u32At data i ++ u32At data (i + 4)

/-- An array of `n` bytes. -/
abbrev Octets (n : ℕ) := { l : List Byte // l.length = n }

/-- The array of `n` bytes at `i`. -/
def octetsAt (n : ℕ) : Octets n :=
  ⟨List.ofFn fun j : Fin n => byteAt data (i + j), List.length_ofFn⟩

def u16Bytes (v : BitVec 16) : List Byte := [v.extractLsb' 8 8, v.extractLsb' 0 8]

def u32Bytes (v : BitVec 32) : List Byte :=
  u16Bytes (v.extractLsb' 16 16) ++ u16Bytes (v.extractLsb' 0 16)

/-- `data` with `new` written over it from `i` on. -/
def overwrite (new : List Byte) : List Byte := data.take i ++ new ++ data.drop (i + new.length)

/-- `data` with `new` inserted at `i`. -/
def insertAt (new : List Byte) : List Byte := data.take i ++ new ++ data.drop i

/-- `data` without the bytes from `i` on, up to `j`. -/
def eraseRange (j : ℕ) : List Byte := data.take i ++ data.drop j

variable {data new : List Byte} {i j : ℕ} {old data' : List Byte}

theorem byteAt_append_left (h : j < data.length) : byteAt (data ++ new) j = byteAt data j := by
  rw [byteAt, byteAt, getD_append _ _ _ _ h]

theorem byteAt_append_right (h : data.length ≤ j) :
    byteAt (data ++ new) j = byteAt new (j - data.length) := by
  rw [byteAt, byteAt, getD_append_right _ _ _ _ h]

theorem byteAt_take (h : j < i) : byteAt (data.take i) j = byteAt data j := by
  simp [byteAt, getD_eq_getElem?_getD, h]

theorem byteAt_drop : byteAt (data.drop i) j = byteAt data (i + j) := by
  simp [byteAt, getD_eq_getElem?_getD, getElem?_drop]

section

variable (hi : i ≤ data.length)
include hi

/-- The bytes before an insertion stay. -/
theorem byteAt_insertAt (h : j < i) : byteAt (insertAt data i new) j = byteAt data j := by
  rw [insertAt, List.append_assoc, byteAt_append_left (by simp; omega), byteAt_take h]

/-- The bytes before an erased range stay. -/
theorem byteAt_eraseRange {k : ℕ} (h : j < i) : byteAt (eraseRange data i k) j = byteAt data j := by
  rw [eraseRange, byteAt_append_left (by simp; omega), byteAt_take h]

/-- The bytes before a write stay. -/
theorem byteAt_overwrite_lt (h : j < i) : byteAt (overwrite data i new) j = byteAt data j := by
  rw [overwrite, List.append_assoc, byteAt_append_left (by simp; omega), byteAt_take h]

theorem byteAt_overwrite (h : j < new.length) :
    byteAt (overwrite data i new) (i + j) = byteAt new j := by
  have hlen : (data.take i).length = i := by simp; omega
  rw [overwrite, List.append_assoc, byteAt_append_right (by omega), hlen, Nat.add_sub_cancel_left,
    byteAt_append_left h]

end

theorem length_overwrite (h : i + new.length ≤ data.length) :
    (overwrite data i new).length = data.length := by
  simp [overwrite]; omega

/-- Writing over the end. -/
theorem overwrite_append (hi : data.length = i) (h : old.length = new.length) :
    overwrite (data ++ old) i new = data ++ new := by
  subst hi
  simp [overwrite, ← h]

theorem byteAt_set_ne {b : Byte} (h : j ≠ i) : byteAt (data.set i b) j = byteAt data j := by
  simp [byteAt, getD_eq_getElem?_getD, getElem?_set_ne h.symm]

theorem extractLsb_append (v : BitVec 16) : v.extractLsb' 8 8 ++ v.extractLsb' 0 8 = v := by
  rw [extractLsb'_append_extractLsb'_eq_extractLsb' (Nat.zero_add 8).symm, extractLsb'_eq_self]

theorem u32_extract (v : BitVec 32) : ((v.extractLsb' 16 16).extractLsb' 8 8 ++
    (v.extractLsb' 16 16).extractLsb' 0 8) ++ ((v.extractLsb' 0 16).extractLsb' 8 8 ++
    (v.extractLsb' 0 16).extractLsb' 0 8) = v := by
  rw [extractLsb_append, extractLsb_append,
    extractLsb'_append_extractLsb'_eq_extractLsb' (Nat.zero_add 16).symm,
    extractLsb'_eq_self]

/-- A bit, tested with a mask. -/
theorem and_one_shiftLeft_ne_zero {w : ℕ} {x : BitVec w} (hi : i < w) :
    x &&& 1#w <<< i ≠ 0#w ↔ x.getLsbD i = true := by
  have hne : twoPow w i ≠ 0#w := by
    intro h
    have hbit := congrArg (getLsbD · i) h
    simp [hi] at hbit
  rw [← twoPow_eq, and_twoPow]
  split_ifs with h
  · simp [h, hne]
  · simp [h]

/-- What is written is read back. -/
theorem u16At_overwrite (v : BitVec 16) (hi : i ≤ data.length) :
    u16At (overwrite data i (u16Bytes v)) i = v := by
  have h (j : ℕ) (hj : j < 2) :
      byteAt (overwrite data i (u16Bytes v)) (i + j) = byteAt (u16Bytes v) j :=
    byteAt_overwrite hi hj
  have h₀ : byteAt (overwrite data i (u16Bytes v)) i = byteAt (u16Bytes v) 0 := h 0 Nat.two_pos
  rw [u16At, h₀, h 1 Nat.one_lt_two]
  exact extractLsb_append v

theorem byteAt_append_add (data mid new : List Byte) (hj : j < mid.length) :
    byteAt (data ++ (mid ++ new)) (data.length + j) = byteAt mid j := by
  rw [byteAt_append_right (Nat.le_add_right ..), Nat.add_sub_cancel_left, byteAt_append_left hj]

/-- Integers are read back from where they stand. -/
theorem u16At_append (v : BitVec 16) (h : data.length = i) :
    u16At (data ++ (u16Bytes v ++ new)) i = v := by
  subst h
  have h₀ := byteAt_append_add data (u16Bytes v) new Nat.two_pos
  have h₁ := byteAt_append_add data (u16Bytes v) new Nat.one_lt_two
  rw [Nat.add_zero] at h₀
  rw [u16At, h₀, h₁]
  exact extractLsb_append v

theorem u32At_append (v : BitVec 32) (h : data.length = i) :
    u32At (data ++ (u32Bytes v ++ new)) i = v := by
  have hlow : u16At (data ++ (u32Bytes v ++ new)) (i + 2) = v.extractLsb' 0 16 := by
    have hlen : (data ++ u16Bytes (v.extractLsb' 16 16)).length = i + 2 := by
      rw [length_append, h]
      rfl
    rw [u32Bytes, List.append_assoc, ← List.append_assoc, u16At_append _ hlen]
  rw [u32At, hlow, u32Bytes, List.append_assoc, u16At_append _ h,
    extractLsb'_append_extractLsb'_eq_extractLsb' (Nat.zero_add 16).symm,
    extractLsb'_eq_self]

theorem u16At_congr (h₀ : byteAt data' i = byteAt data i)
    (h₁ : byteAt data' (i + 1) = byteAt data (i + 1)) : u16At data' i = u16At data i := by
  rw [u16At, u16At, h₀, h₁]

/-- Bytes are equal if they are at every position. -/
theorem eq_of_byteAt (hlen : data.length = data'.length)
    (h : ∀ i < data.length, byteAt data i = byteAt data' i) : data = data' := by
  refine ext_getElem hlen fun i hi hi' => ?_
  have hbyte := h i hi
  rwa [byteAt, byteAt, getD_eq_getElem _ _ hi, getD_eq_getElem _ _ hi'] at hbyte

/-- Bytes behind a write stay. -/
theorem byteAt_overwrite_ge (hi : i + new.length ≤ data.length) (h : i + new.length ≤ j) :
    byteAt (overwrite data i new) j = byteAt data j := by
  have hlen : (data.take i ++ new).length = i + new.length := by simp; omega
  rw [overwrite, byteAt_append_right (by omega), byteAt_drop, hlen, Nat.add_sub_cancel' h]

/-- Of two writes to the same place the second one counts. -/
theorem overwrite_take_overwrite {n : ℕ} (hnew : old.length = new.length) (hn : i + new.length ≤ n)
    (hdata : n ≤ data.length) :
    overwrite ((overwrite data i old).take n) i new = overwrite (data.take n) i new := by
  have hlen : (overwrite data i old).length = data.length := length_overwrite (by omega)
  have htake : ((overwrite data i old).take n).length = n := by rw [length_take]; omega
  have htake' : (data.take n).length = n := by rw [length_take]; omega
  have hnew' : ∀ l : List Byte, l.length = n → (overwrite l i new).length = n :=
    fun l hl => (length_overwrite (by omega)).trans hl
  have hlen₁ := hnew' _ htake
  refine eq_of_byteAt (by rw [hlen₁, hnew' _ htake']) fun j hj => ?_
  rcases lt_or_ge j i with hlt | hge
  · rw [byteAt_overwrite_lt (by omega) hlt, byteAt_overwrite_lt (by omega) hlt,
      byteAt_take (by omega), byteAt_take (by omega), byteAt_overwrite_lt (by omega) hlt]
  · obtain ⟨k, rfl⟩ := Nat.exists_eq_add_of_le hge
    rcases lt_or_ge k new.length with hk | hk
    · rw [byteAt_overwrite (by omega) hk, byteAt_overwrite (by omega) hk]
    · rw [byteAt_overwrite_ge (by omega) (by omega), byteAt_overwrite_ge (by omega) (by omega),
        byteAt_take (by omega), byteAt_take (by omega), byteAt_overwrite_ge (by omega) (by omega)]

end Packetia
