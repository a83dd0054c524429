import Packetia.Lib.Chains
import Packetia.Memory.Pool

/-!
# Where the blocks are

The invariant of the pool. `Registry` is about the slabs: they are listed by their class, and
the bytes committed are theirs. `Layout` is about the blocks. The free lists of the slabs and
the lists of the threads are a family of intrusive lists (`Chains`); a block of a slab is on
one of them, or it is in use and on none.

`Layout` is kept by a block that goes from one list to another, or into use and back. These are
the rounds of the loops of the central cache.
-/

namespace Packetia.Memory

open Finset List Option Function

/-! ## Slabs and blocks of a state -/

/-- What a slab keeps while its blocks come and go. -/
def PoolSlab.fixed (slab : PoolSlab) : PoolSlab := { slab with free := none, freeCount := 0 }

/-- The sizes of a slab fit together. -/
structure PoolSlab.Shaped (slab : PoolSlab) : Prop where
  class_le : slab.classIndex ≤ kNumSizeClasses
  bytes_eq : slab.bytes = poolSlabSize + slab.count * slab.stride
  stride_pos : 0 < slab.stride
  capacity_eq : slab.classIndex < kNumSizeClasses → slab.capacity = getClassSize slab.classIndex
  count_eq : slab.classIndex = kNumSizeClasses → slab.count = 1

/-- Slabs of the same shape. -/
theorem PoolSlab.Shaped.congr {slab slab' : PoolSlab} (h : slab.Shaped)
    (hfixed : slab'.fixed = slab.fixed) : slab'.Shaped := by
  simp only [PoolSlab.fixed, PoolSlab.mk.injEq, true_and] at hfixed
  obtain ⟨hcapacity, hstride, hcount, hbytes, hclass⟩ := hfixed
  exact ⟨by rw [hclass]; exact h.class_le, by rw [hbytes, hcount, hstride]; exact h.bytes_eq,
    by rw [hstride]; exact h.stride_pos, by rw [hclass, hcapacity]; exact h.capacity_eq,
    by rw [hclass, hcount]; exact h.count_eq⟩

namespace CentralCache

variable (c : CentralCache)

/-- The slabs, of all classes. -/
def live : Finset SlabAddr :=
  (Finset.range (kNumSizeClasses + 1)).biUnion fun k => (c.slabs k).toFinset

/-- The blocks of all slabs. -/
def blocks : Finset Block :=
  c.live.biUnion fun a => (Finset.range (c.slabAt a).count).image (Block.mk a)

/-- The blocks in use. -/
def usedBlocks : Finset Block := c.blocks.filter fun b => (c.header b).magic = .used

/-- `b` is a block of a slab. -/
def Has (b : Block) : Prop := b.index < (c.slabAt b.slab).count

/-- `c'` has the slabs of `c`, up to their free lists. -/
structure SameSlabs (c c' : CentralCache) : Prop where
  slabs : c'.slabs = c.slabs
  isSome : ∀ a, (c'.slab a).isSome = (c.slab a).isSome
  fixed : ∀ a, (c'.slabAt a).fixed = (c.slabAt a).fixed
  options : c'.options = c.options
  committed : c'.stats.committedBytes = c.stats.committedBytes

variable {c}

namespace SameSlabs

variable {c' : CentralCache} (h : SameSlabs c c') (a : SlabAddr)
include h

theorem capacity : (c'.slabAt a).capacity = (c.slabAt a).capacity :=
  (congrArg PoolSlab.capacity (h.fixed a) :)

theorem stride : (c'.slabAt a).stride = (c.slabAt a).stride :=
  (congrArg PoolSlab.stride (h.fixed a) :)

theorem count : (c'.slabAt a).count = (c.slabAt a).count := (congrArg PoolSlab.count (h.fixed a) :)

theorem bytes : (c'.slabAt a).bytes = (c.slabAt a).bytes := (congrArg PoolSlab.bytes (h.fixed a) :)

theorem classIndex : (c'.slabAt a).classIndex = (c.slabAt a).classIndex :=
  (congrArg PoolSlab.classIndex (h.fixed a) :)

theorem live : c'.live = c.live := by
  rw [CentralCache.live, CentralCache.live, h.slabs]

theorem has (b : Block) : c'.Has b ↔ c.Has b := by
  rw [Has, Has, h.count]

theorem blocks : c'.blocks = c.blocks := by
  simp only [CentralCache.blocks, h.live, h.count]

end SameSlabs

theorem slabAt_of_isNone {a : SlabAddr} (h : c.slab a = none) : c.slabAt a = default := by
  rw [slabAt, h, getD_none]

theorem Has.isSome {b : Block} (h : c.Has b) : (c.slab b.slab).isSome := by
  cases hb : c.slab b.slab with
  | some slab => rfl
  | none =>
    rw [Has, slabAt_of_isNone hb] at h
    exact absurd h (Nat.not_lt_zero _)

theorem slabAt_modifySlab {a : SlabAddr} (h : (c.slab a).isSome) (f : PoolSlab → PoolSlab) :
    (c.modifySlab a f).slabAt = Function.update c.slabAt a (f (c.slabAt a)) := by
  obtain ⟨slab, hslab⟩ := isSome_iff_exists.1 h
  funext a'
  by_cases ha : a' = a <;> simp [slabAt, modifySlab, ha, hslab]

/-- The slabs that are listed by their class are all there are. -/
theorem mem_live_of {a : SlabAddr}
    (hmem : ∀ k a, a ∈ c.slabs k ↔ (c.slab a).isSome ∧ (c.slabAt a).classIndex = k)
    (hshaped : ∀ a, (c.slab a).isSome → (c.slabAt a).Shaped) : a ∈ c.live ↔ (c.slab a).isSome := by
  simp only [live, Finset.mem_biUnion, Finset.mem_range, List.mem_toFinset, hmem]
  exact ⟨fun ⟨_, _, ha, _⟩ => ha, fun ha => ⟨_, Nat.lt_succ_of_le (hshaped a ha).class_le, ha, rfl⟩⟩

theorem SameSlabs.trans {c' c'' : CentralCache} (h : SameSlabs c c') (h' : SameSlabs c' c'') :
    SameSlabs c c'' where
  slabs := h'.slabs.trans h.slabs
  isSome a := (h'.isSome a).trans (h.isSome a)
  fixed a := (h'.fixed a).trans (h.fixed a)
  options := h'.options.trans h.options
  committed := h'.committed.trans h.committed

theorem sameSlabs_modifyHeader (b : Block) (f : BlockHeader → BlockHeader) :
    SameSlabs c (c.modifyHeader b f) := ⟨rfl, fun _ => rfl, fun _ => rfl, rfl, rfl⟩

/-- Writing to the free list of a slab keeps the slabs. -/
theorem sameSlabs_modifySlab {a : SlabAddr} (h : (c.slab a).isSome) {f : PoolSlab → PoolSlab}
    (hf : (f (c.slabAt a)).fixed = (c.slabAt a).fixed) : SameSlabs c (c.modifySlab a f) where
  slabs := rfl
  isSome a' := by
    by_cases ha : a' = a <;> simp [modifySlab, ha]
  fixed a' := by
    rw [slabAt_modifySlab h]
    by_cases ha : a' = a <;> simp [ha, hf]
  options := rfl
  committed := rfl

end CentralCache

/-! ## The slabs -/

/-- The slabs are listed by their class; the bytes committed are theirs and within the limit. -/
structure Registry (c : CentralCache) : Prop where
  nodup : ∀ k, (c.slabs k).Nodup
  mem_slabs : ∀ k a, a ∈ c.slabs k ↔ (c.slab a).isSome ∧ (c.slabAt a).classIndex = k
  shaped : ∀ a, (c.slab a).isSome → (c.slabAt a).Shaped
  committed : c.stats.committedBytes = ∑ a ∈ c.live, (c.slabAt a).bytes
  budget : c.stats.committedBytes ≤ c.options.maxCommittedBytes

namespace Registry

open CentralCache

variable {c c' : CentralCache}

section

variable (h : Registry c)
include h

theorem congr (hs : SameSlabs c c') : Registry c' where
  nodup k := by
    rw [hs.slabs]
    exact h.nodup k
  mem_slabs k a := by
    rw [hs.slabs, h.mem_slabs, hs.isSome, hs.classIndex]
  shaped a ha := (h.shaped a (by rwa [hs.isSome] at ha)).congr (hs.fixed a)
  committed := by
    rw [hs.committed, h.committed, hs.live]
    exact sum_congr rfl fun a _ => (hs.bytes a).symm
  budget := by
    rw [hs.committed, hs.options]
    exact h.budget

theorem mem_live {a : SlabAddr} : a ∈ c.live ↔ (c.slab a).isSome := mem_live_of h.mem_slabs h.shaped

theorem mem_blocks {b : Block} : b ∈ c.blocks ↔ c.Has b := by
  simp only [blocks, Finset.mem_biUnion, mem_image, Finset.mem_range, h.mem_live]
  refine ⟨?_, fun hb => ⟨b.slab, hb.isSome, b.index, hb, rfl⟩⟩
  rintro ⟨a, -, i, hi, rfl⟩
  exact hi

theorem mem_usedBlocks {b : Block} : b ∈ c.usedBlocks ↔ c.InUse b := by
  rw [usedBlocks, Finset.mem_filter, h.mem_blocks]
  rfl

/-- What blocks of the slabs weigh, each no more than its stride, the slabs have been
    committed for. -/
theorem sum_le_committed {B : Finset Block} (hB : ∀ b ∈ B, c.Has b) {w : SlabAddr → ℕ}
    (hw : ∀ a ∈ c.live, w a ≤ (c.slabAt a).stride) :
    ∑ b ∈ B, w b.slab ≤ c.stats.committedBytes := by
  have hslab : ∀ b ∈ B, b.slab ∈ c.live := fun b hb => h.mem_live.2 (hB b hb).isSome
  rw [h.committed, ← sum_fiberwise_of_maps_to hslab]
  refine Finset.sum_le_sum fun a ha => ?_
  -- the blocks of one slab have different places in it
  have hcard : (B.filter fun b => b.slab = a).card ≤ (c.slabAt a).count := by
    rw [← card_range (c.slabAt a).count]
    refine card_le_card_of_injOn Block.index (fun b hb => ?_) fun b hb b' hb' heq => ?_
    · obtain ⟨hmem, rfl⟩ := mem_filter.1 (mem_coe.1 hb)
      exact mem_coe.2 (Finset.mem_range.2 (hB b hmem))
    · cases b
      cases b'
      simp_all
  calc ∑ b ∈ B with b.slab = a, w b.slab
      = (B.filter fun b => b.slab = a).card * w a := by
        rw [sum_congr rfl fun b hb => by rw [(mem_filter.1 hb).2], sum_const, smul_eq_mul]
    _ ≤ (c.slabAt a).count * (c.slabAt a).stride := Nat.mul_le_mul hcard (hw a ha)
    _ ≤ (c.slabAt a).bytes := by
        rw [(h.shaped a (h.mem_live.1 ha)).bytes_eq]
        exact Nat.le_add_left _ _

end

end Registry

/-! ## The blocks -/

variable {Tid : Type*} {c c' : CentralCache}

/-- A list of blocks: the free list of a slab, or the list of a thread for a class. -/
inductive Place (Tid : Type*)
  | free (a : SlabAddr)
  | cached (q : Tid × ℕ)
  deriving DecidableEq

/-- Where the lists begin; `cache` has those of the threads. -/
def heads (c : CentralCache) (cache : Tid × ℕ → Option Block) : Place Tid → Option Block
  | .free a => (c.slabAt a).free
  | .cached q => cache q

/-- The block `b` belongs on the list. -/
def Place.Fits (c : CentralCache) (b : Block) : Place Tid → Prop
  | .free a => b.slab = a
  | .cached q => (c.slabAt b.slab).classIndex = q.2 ∧ q.2 < kNumSizeClasses

theorem CentralCache.SameSlabs.fits (h : c.SameSlabs c') (b : Block)
    (p : Place Tid) : p.Fits c' b ↔ p.Fits c b := by
  cases p with
  | free a => rfl
  | cached q => rw [Place.Fits, Place.Fits, h.classIndex]

theorem Place.Fits.congr {b : Block} {p : Place Tid} (h : p.Fits c b)
    (hslab : c'.slabAt b.slab = c.slabAt b.slab) : p.Fits c' b := by
  cases p with
  | free a => exact h
  | cached q => rwa [Place.Fits, hslab]

/-- Every block of every slab is on the list that owns it, or in use. -/
structure Layout (c : CentralCache) (cache : Tid × ℕ → Option Block)
    (lists : Place Tid → List Block) (owner : Block → Option (Place Tid)) : Prop
    extends Registry c where
  chains : Chains (fun b => (c.header b).next) (heads c cache) lists owner
  freeCount : ∀ a, (c.slabAt a).freeCount = (lists (.free a)).length
  placed : ∀ b p, owner b = some p → c.Has b ∧ p.Fits c b
  used_iff : ∀ b, c.Has b → ((c.header b).magic = .used ↔ owner b = none)
  sized : ∀ b, c.InUse b → (c.header b).requestSize ≤ (c.slabAt b.slab).capacity
  reserved : c.inUseReserved = ∑ b ∈ c.usedBlocks, (c.slabAt b.slab).stride

namespace Layout

open CentralCache

variable {c c' : CentralCache} {cache : Tid × ℕ → Option Block}
  {lists : Place Tid → List Block} {owner : Block → Option (Place Tid)} {b : Block} {size : ℕ}

section

variable (h : Layout c cache lists owner)
include h

theorem not_inUse {p : Place Tid} (hb : owner b = some p) : ¬c.InUse b := by
  rintro ⟨hhas, hmagic⟩
  rw [(h.used_iff b hhas).1 hmagic] at hb
  exact absurd hb (by simp)

theorem owner_of_inUse (hb : c.InUse b) : owner b = none := (h.used_iff b hb.1).1 hb.2

/-- The strides in use are committed. -/
theorem reserved_le : c.inUseReserved ≤ c.stats.committedBytes := by
  rw [h.reserved]
  exact h.toRegistry.sum_le_committed (fun b hb => (h.mem_usedBlocks.1 hb).1) fun _ _ => le_rfl

/-- The same blocks are in use, in slabs that have not changed. -/
theorem reserved_congr (hregistry : Registry c') (hinUse : ∀ b, c'.InUse b ↔ c.InUse b)
    (hslab : ∀ b, c.InUse b → c'.slabAt b.slab = c.slabAt b.slab) :
    c.inUseReserved = ∑ b ∈ c'.usedBlocks, (c'.slabAt b.slab).stride := by
  have hused : c'.usedBlocks = c.usedBlocks := by
    ext b
    rw [hregistry.mem_usedBlocks, h.mem_usedBlocks, hinUse]
  rw [hused, h.reserved]
  exact sum_congr rfl fun b hb => by rw [hslab b (h.mem_usedBlocks.1 hb)]

/-- A list has fewer blocks than there are bytes. -/
theorem length_le (p : Place Tid) : (lists p).length ≤ c.stats.committedBytes := by
  have hsum := h.toRegistry.sum_le_committed (B := (lists p).toFinset)
    (fun b hb => (h.placed b p ((h.chains.mem_iff p b).1 (mem_toFinset.1 hb))).1)
    (w := fun _ => 1) fun a ha => (h.shaped a (h.mem_live.1 ha)).stride_pos
  rwa [sum_const, smul_eq_mul, mul_one, toFinset_card_of_nodup (h.chains.nodup p)]
    at hsum

/-- The free list of a slab has blocks of the slab. -/
theorem free_subset (a : SlabAddr) :
    (lists (.free a)).toFinset ⊆ (Finset.range (c.slabAt a).count).image (Block.mk a) := by
  intro b hb
  obtain ⟨hhas, rfl⟩ := h.placed b _ ((h.chains.mem_iff _ b).1 (mem_toFinset.1 hb))
  exact mem_image.2 ⟨b.index, Finset.mem_range.2 hhas, rfl⟩

theorem card_free (a : SlabAddr) : (lists (.free a)).toFinset.card = (c.slabAt a).freeCount := by
  rw [toFinset_card_of_nodup (h.chains.nodup _), h.freeCount]

omit h in
theorem card_image_le (n : ℕ) (a : SlabAddr) : ((Finset.range n).image (Block.mk a)).card ≤ n :=
  Finset.card_image_le.trans (Finset.card_range _).le

theorem freeCount_le (a : SlabAddr) : (c.slabAt a).freeCount ≤ (c.slabAt a).count :=
  h.card_free a ▸ (card_le_card (h.free_subset a)).trans (card_image_le ..)

/-- The blocks of a slab whose free list has as many blocks as the slab are all free. -/
theorem owner_of_full {a : SlabAddr} (hfull : (c.slabAt a).freeCount = (c.slabAt a).count)
    (hb : c.Has b) (ha : b.slab = a) : owner b = some (.free a) := by
  have hcard : ((Finset.range (c.slabAt a).count).image (Block.mk a)).card
      ≤ (lists (.free a)).toFinset.card := by
    rw [h.card_free, hfull]
    exact card_image_le ..
  have heq := eq_of_subset_of_card_le (h.free_subset a) hcard
  subst ha
  rw [← h.chains.mem_iff, ← List.mem_toFinset, heq]
  exact mem_image.2 ⟨b.index, Finset.mem_range.2 hb, rfl⟩

end

/-! ## Blocks that move -/

section

variable {cache' : Tid × ℕ → Option Block} {lists' : Place Tid → List Block}
  {o : Option (Place Tid)} {p q : Place Tid} (h : Layout c cache lists owner) (hs : SameSlabs c c')
  (chains : Chains (fun b => (c'.header b).next) (heads c' cache') lists' (update owner b o))
  (freeCount : ∀ a, (c'.slabAt a).freeCount = (lists' (.free a)).length)

include h hs chains freeCount

/-- A block gets another owner, or none if it goes into use. -/
theorem rehome (hb : c.Has b) (hfits : ∀ p ∈ o, p.Fits c b)
    (hmagic : (c'.header b).magic = .used ↔ o = none)
    (hsize : o = none → (c'.header b).requestSize ≤ (c.slabAt b.slab).capacity)
    (hother : ∀ b', b' ≠ b → (c'.header b').magic = (c.header b').magic ∧
      (c'.header b').requestSize = (c.header b').requestSize)
    (hreserved : c'.inUseReserved = ∑ b ∈ c'.usedBlocks, (c.slabAt b.slab).stride) :
    Layout c' cache' lists' (update owner b o) where
  toRegistry := h.toRegistry.congr hs
  chains := chains
  freeCount := freeCount
  placed b' p hb' := by
    rw [hs.has, hs.fits]
    by_cases hbb : b' = b
    · subst hbb
      rw [update_self] at hb'
      exact ⟨hb, hfits p hb'⟩
    · rw [update_of_ne hbb] at hb'
      exact h.placed b' p hb'
  used_iff b' hb' := by
    by_cases hbb : b' = b
    · subst hbb
      rw [update_self, hmagic]
    · rw [update_of_ne hbb, (hother b' hbb).1, h.used_iff b' ((hs.has b').1 hb')]
  sized b' hb' := by
    rw [hs.capacity]
    by_cases hbb : b' = b
    · subst hbb
      exact hsize (hmagic.1 hb'.2)
    · rw [(hother b' hbb).2]
      exact h.sized b' ⟨(hs.has b').1 hb'.1, (hother b' hbb).1.symm.trans hb'.2⟩
  reserved := by
    rw [hreserved]
    simp only [hs.stride]

/-- A block goes from one list to another. -/
theorem move (hother : ∀ b', (c'.header b').magic = (c.header b').magic ∧
      (c'.header b').requestSize = (c.header b').requestSize)
    (hreserved : c'.inUseReserved = c.inUseReserved) (hb : owner b = some p) (ho : o = some q)
    (hfits : q.Fits c b) : Layout c' cache' lists' (update owner b o) := by
  obtain ⟨hhas, -⟩ := h.placed b p hb
  refine h.rehome hs chains freeCount hhas (by simpa [ho]) ?_ (by simp [ho])
    (fun b' _ => hother b') ?_
  · rw [(hother b).1, h.used_iff b hhas, hb, ho]
    simp
  · rw [hreserved, h.reserved]
    simp only [usedBlocks, hs.blocks, (hother _).1]

section

variable (hother : ∀ b', b' ≠ b → (c'.header b').magic = (c.header b').magic ∧
  (c'.header b').requestSize = (c.header b').requestSize)

include hother

/-- A block goes from a list into use. -/
theorem use (hmagic : (c'.header b).magic = .used)
    (hsize : (c'.header b).requestSize ≤ (c.slabAt b.slab).capacity)
    (hreserved : c'.inUseReserved = c.inUseReserved + (c.slabAt b.slab).stride)
    (hb : owner b = some p) (ho : o = none) : Layout c' cache' lists' (update owner b o) := by
  obtain ⟨hhas, -⟩ := h.placed b p hb
  refine h.rehome hs chains freeCount hhas (by simp [ho]) (by simp [hmagic, ho]) (fun _ => hsize)
    hother ?_
  have hused : c'.usedBlocks = insert b c.usedBlocks := by
    ext b'
    rw [mem_insert, (h.toRegistry.congr hs).mem_usedBlocks, h.mem_usedBlocks]
    by_cases hbb : b' = b
    · subst hbb
      exact ⟨fun _ => Or.inl rfl, fun _ => ⟨(hs.has b').2 hhas, hmagic⟩⟩
    · simp only [InUse, hs.count, (hother b' hbb).1, hbb, false_or]
  rw [hused, sum_insert fun hmem => h.not_inUse hb (h.mem_usedBlocks.1 hmem), hreserved,
    h.reserved, add_comm]

/-- A block goes from use to a list. -/
theorem unuse (hb : c.InUse b) (hmagic : (c'.header b).magic = .free)
    (hreserved : c'.inUseReserved = c.inUseReserved - (c.slabAt b.slab).stride)
    (ho : o = some q) (hfits : q.Fits c b) : Layout c' cache' lists' (update owner b o) := by
  refine h.rehome hs chains freeCount hb.1 (by simpa [ho]) (by simp [hmagic, ho]) (by simp [ho])
    hother ?_
  have hused : c'.usedBlocks = c.usedBlocks.erase b := by
    ext b'
    rw [mem_erase, (h.toRegistry.congr hs).mem_usedBlocks, h.mem_usedBlocks]
    by_cases hbb : b' = b
    · subst hbb
      simp [InUse, hmagic]
    · simp only [InUse, hs.count, (hother b' hbb).1, ne_eq, hbb, not_false_eq_true, true_and]
  have hsum := add_sum_erase c.usedBlocks (fun b => (c.slabAt b.slab).stride)
    (h.mem_usedBlocks.2 hb)
  rw [hreserved, h.reserved, hused, ← hsum, Nat.add_sub_cancel_left]

end

end

end Layout

end Packetia.Memory
