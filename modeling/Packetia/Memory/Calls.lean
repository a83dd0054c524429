import Packetia.Memory.Slabs

/-!
# The calls of the central cache

Every call of the central cache keeps the layout. `FetchBatch` fills an empty list of a thread,
with blocks of its class; `AllocateLarge` makes a slab for one block, which was not in use
before; `Release` takes a block in use.
-/

namespace Packetia.Memory

open Function CentralCache

variable {Tid : Type*} [DecidableEq Tid] {c : CentralCache} {cache : Tid × ℕ → Option Block}
  {b : Block} {q : Tid × ℕ} {size : ℕ}

/-! ## Size classes -/

theorem sizeClassLoop_spec {n i : ℕ} (hn : i + n = kNumSizeClasses) (hi : i < kNumSizeClasses)
    (hsize : size ≤ kMaxPooledObjectSize) :
    sizeClassLoop size n (64 * 2 ^ i) i < kNumSizeClasses ∧
      size ≤ 64 * 2 ^ sizeClassLoop size n (64 * 2 ^ i) i := by
  induction n generalizing i with
  | zero => omega
  | succ n ih =>
    rw [sizeClassLoop]
    split_ifs with hlt
    · -- the class is not the last one, which is large enough
      have hne : i ≠ 14 := by
        rintro rfl
        norm_num [kMaxPooledObjectSize] at hlt hsize
        omega
      rw [kNumSizeClasses] at hi
      have := ih (i := i + 1) (by omega) (by rw [kNumSizeClasses]; omega)
      rwa [pow_succ, ← mul_assoc] at this
    · exact ⟨hi, not_lt.1 hlt⟩

/-- The class for a size that is pooled has blocks of at least this size. -/
theorem getSizeClassIndex_spec (hsize : size ≤ kMaxPooledObjectSize) :
    getSizeClassIndex size < kNumSizeClasses ∧ size ≤ getClassSize (getSizeClassIndex size) := by
  have h := sizeClassLoop_spec (zero_add _) (by decide) hsize
  rw [pow_zero, mul_one] at h
  rw [getClassSize, Nat.shiftLeft_eq]
  exact h

/-! ## The calls on the central cache -/

section

variable (h : Sound c cache)
include h

/-- `FetchBatch`, into the empty list `q`. -/
theorem Sound.fetchBatch (hq : cache q = none) (hlt : q.2 < kNumSizeClasses) (count : ℕ)
    (malloc : Option SlabAddr) :
    Sound (c.fetchBatch q.2 count malloc).1
      (update cache q (c.fetchBatch q.2 count malloc).2) := by
  have hnone : update cache q none = cache := by
    rw [← hq, update_eq_self]
  rw [CentralCache.fetchBatch]
  cases hfind : (c.slabs q.2).find? fun a => (c.slabAt a).free.isSome with
  | some a =>
    have hclass : (c.slabAt a).classIndex = q.2 := by
      obtain ⟨lists, owner, hl⟩ := h
      exact ((hl.mem_slabs q.2 a).1 (List.mem_of_find?_eq_some hfind)).2
    exact Sound.takeBlocks hlt count (by rwa [hnone]) hclass
  | none =>
    obtain ⟨c', htrims, hcases⟩ := allocateSlab_cases h (getClassSize q.2) count q.2 malloc
    have h' := htrims.sound h
    rcases hcases with heq | ⟨a, n, heq, ha, -, -, hbudget⟩
    · simp only [heq]
      rw [hnone]
      exact h'
    · simp only [heq]
      obtain ⟨lists, owner, hl⟩ := h'
      have hshaped : (newSlab c'.header a (getClassSize q.2) (strideOf (getClassSize q.2)) n
          q.2).Shaped :=
        ⟨hlt.le, rfl, strideOf_pos _, fun _ => rfl, fun hlarge => absurd hlarge hlt.ne⟩
      have hplaced := hl.placeSlab ha hshaped hbudget
      refine Sound.takeBlocks hlt count (by rwa [hnone]) ?_
      rw [slabAt_placeSlab, update_self]
      rfl

omit [DecidableEq Tid] in
/-- `AllocateLarge` trims or does not, and then makes a slab whose only block it activates, or
    none. -/
theorem allocateLarge_cases (size : ℕ) (malloc : Option SlabAddr) :
    ∃ c', Trims c c' ∧ (c.allocateLarge size malloc = (c', none) ∨
      ∃ a, c'.slab a = none ∧ c'.stats.committedBytes + (poolSlabSize + 1 * strideOf size)
          ≤ c'.options.maxCommittedBytes ∧
        c.allocateLarge size malloc
          = (((c'.placeSlab a size (strideOf size) 1 kNumSizeClasses).modifySlab a fun slab =>
              { slab with free := none, freeCount := 0 }).activate ⟨a, 0⟩ size, some ⟨a, 0⟩)) := by
  obtain ⟨c', htrims, hcases⟩ := allocateSlab_cases h size 1 kNumSizeClasses malloc
  refine ⟨c', htrims, ?_⟩
  rw [allocateLarge]
  rcases hcases with heq | ⟨a, n, heq, ha, hn, hpos, hbudget⟩
  · left
    simp only [heq]
  · right
    obtain rfl : n = 1 := le_antisymm hn (hpos one_pos)
    have hfree : ((c'.placeSlab a size (strideOf size) 1 kNumSizeClasses).slabAt a).free
        = some ⟨a, 0⟩ := by
      rw [slabAt_placeSlab, update_self]
      rfl
    refine ⟨a, ha, hbudget, ?_⟩
    simp only [heq, hfree]

/-- `AllocateLarge`. -/
theorem Sound.allocateLarge (size : ℕ) (malloc : Option SlabAddr) :
    Sound (c.allocateLarge size malloc).1 cache := by
  obtain ⟨c', htrims, heq | ⟨a, ha, hbudget, heq⟩⟩ := allocateLarge_cases h size malloc
  · rw [heq]
    exact htrims.sound h
  · rw [heq]
    obtain ⟨lists, owner, hl⟩ := htrims.sound h
    have hshaped : (newSlab c'.header a size (strideOf size) 1 kNumSizeClasses).Shaped :=
      ⟨le_rfl, rfl, strideOf_pos _, fun hlt => absurd hlt (lt_irrefl _), fun _ => rfl⟩
    have hslabAt : (c'.placeSlab a size (strideOf size) 1 kNumSizeClasses).slabAt a
        = newSlab c'.header a size (strideOf size) 1 kNumSizeClasses := by
      rw [slabAt_placeSlab, update_self]
    refine (hl.placeSlab ha hshaped hbudget).takeOnly ?_ ?_ ?_ <;> rw [hslabAt]
    · rfl
    · rfl
    · exact le_rfl

omit [DecidableEq Tid] in
/-- What `AllocateLarge` returns was not in use, and is now. -/
theorem Sound.allocateLarge_fresh {malloc : Option SlabAddr}
    (hb : (c.allocateLarge size malloc).2 = some b) :
    ¬c.InUse b ∧ (c.allocateLarge size malloc).1.InUse b := by
  obtain ⟨c', htrims, heq | ⟨a, ha, -, heq⟩⟩ := allocateLarge_cases h size malloc
  · rw [heq] at hb
    exact absurd hb (by simp)
  · rw [heq] at hb ⊢
    obtain rfl : ⟨a, 0⟩ = b := Option.some.inj hb
    refine ⟨fun hused => ?_, ?_, ?_⟩
    · -- its slab was freed in this call, so its blocks were free
      obtain ⟨lists, owner, hl⟩ := h
      have hfull := htrims.full_of_freed (Has.isSome hused.1) ha
      exact hl.not_inUse (hl.owner_of_full hfull hused.1 rfl) hused
    · have hsome : ((c'.placeSlab a size (strideOf size) 1 kNumSizeClasses).slab a).isSome :=
        isSome_placeSlab.2 (Or.inl rfl)
      change 0 < ((modifySlab _ a _).slabAt a).count
      rw [slabAt_modifySlab hsome, update_self, slabAt_placeSlab, update_self]
      exact one_pos
    · simp [activate, modifyHeader]

/-- `Release` of a block in use. -/
theorem Sound.release (hb : c.InUse b) : Sound (c.release b) cache := by
  have hput := h.putBack hb
  rw [CentralCache.release]
  split_ifs with hlarge
  · -- the only block of a large slab is on its free list again
    have hsome : (c.slab b.slab).isSome := Has.isSome hb.1
    have hs := sameSlabs_putBack hsome
    obtain ⟨lists, owner, hl⟩ := hput
    have hsome' : ((c.putBack b).slab b.slab).isSome := by rwa [hs.isSome]
    have hclass : ((c.putBack b).slabAt b.slab).classIndex = kNumSizeClasses := by
      rwa [hs.classIndex]
    have hcount := (hl.shaped b.slab hsome').count_eq hclass
    have hle := hl.freeCount_le b.slab
    have hpos : ((c.putBack b).slabAt b.slab).freeCount = (c.slabAt b.slab).freeCount + 1 := by
      rw [slabAt_putBack hsome, update_self]
    exact hl.freeSlab ((hl.mem_slabs _ _).2 ⟨hsome', hclass⟩) (by omega)
  · exact hput.trimLocked false

/-- `SetLimits`. -/
theorem Sound.setLimits (options : MemoryPoolOptions) : Sound (c.setLimits options).1 cache := by
  have htrim := h.trimLocked true
  rw [CentralCache.setLimits]
  split_ifs with hlt
  · exact htrim
  · obtain ⟨lists, owner, hl⟩ := htrim
    exact ⟨lists, owner, { hl with budget := not_lt.1 hlt }⟩

omit [DecidableEq Tid] in
theorem Sound.recordFailure : Sound c.recordFailure cache := by
  obtain ⟨lists, owner, hl⟩ := h
  exact ⟨lists, owner, { hl with }⟩

end

end Packetia.Memory
