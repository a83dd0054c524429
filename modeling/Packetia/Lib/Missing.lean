import Mathlib

/-!
# The first missing number

Packets numbered from `0` arrive in any order; `firstMissing l` is the lowest
number not among those that have arrived. It only moves when the number it
waits for arrives (`firstMissing_concat_of_ne`), and it is characterised by
what is below it (`firstMissing_eq`).
-/

namespace Packetia

/-- The lowest number not in `l`. -/
def firstMissing (l : List ℕ) : ℕ := ((List.range (l.length + 1)).find? (· ∉ l)).getD 0

/-- A list misses one of the numbers up to its length. -/
theorem exists_missing (l : List ℕ) : ∃ i ∈ List.range (l.length + 1), i ∉ l := by
  by_contra h
  push Not at h
  have hle := (List.nodup_range.subperm h).length_le
  rw [List.length_range] at hle
  omega

theorem firstMissing_spec (l : List ℕ) : firstMissing l ∉ l ∧ ∀ i < firstMissing l, i ∈ l := by
  obtain ⟨m, hm⟩ : ∃ m, (List.range (l.length + 1)).find? (· ∉ l) = some m := by
    rw [← Option.isSome_iff_exists, List.find?_isSome]
    obtain ⟨i, hi, hl⟩ := exists_missing l
    exact ⟨i, hi, by simpa using hl⟩
  have h := List.find?_range_eq_some.1 hm
  rw [firstMissing, hm, Option.getD_some]
  exact ⟨by simpa using h.1, fun i hi => by simpa using h.2.2 i hi⟩

theorem firstMissing_notMem (l : List ℕ) : firstMissing l ∉ l := (firstMissing_spec l).1

variable {l : List ℕ}

theorem mem_of_lt_firstMissing {i : ℕ} (hi : i < firstMissing l) : i ∈ l :=
  (firstMissing_spec l).2 i hi

/-- The first missing number is the one that is missing and nothing below is. -/
theorem firstMissing_eq {m : ℕ} (hm : m ∉ l) (hlt : ∀ i < m, i ∈ l) : firstMissing l = m := by
  rcases lt_trichotomy (firstMissing l) m with h | h | h
  · exact absurd (hlt _ h) (firstMissing_notMem l)
  · exact h
  · exact absurd (mem_of_lt_firstMissing h) hm

/-- A number that is not missing first does not change what is. -/
theorem firstMissing_concat_of_ne {a : ℕ} (ha : a ≠ firstMissing l) :
    firstMissing (l ++ [a]) = firstMissing l := by
  refine firstMissing_eq ?_ fun i hi => List.mem_append_left _ (mem_of_lt_firstMissing hi)
  rw [List.mem_append, List.mem_singleton, not_or]
  exact ⟨firstMissing_notMem l, ha.symm⟩

/-- When all numbers below `n` are there and no other, `n` is missing first. -/
theorem firstMissing_of_perm_range {n : ℕ} (h : l.Perm (List.range n)) : firstMissing l = n :=
  firstMissing_eq (fun hn => by simpa using h.mem_iff.1 hn)
    fun i hi => h.mem_iff.2 (List.mem_range.2 hi)

end Packetia
