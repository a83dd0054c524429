import Packetia.Memory.Ownership

/-!
# Running out of memory

`ThreadCache::Allocate` gives up when the second `FetchBatch` finds nothing. By then the thread
has given back what it had cached, and every slab without a block in use or in a cache of
another thread can be freed. So it gives up only when the slabs of its class have no free block
and what the others hold leaves no room for a slab with one block (`null_only_if_exhausted`).

`TrimLocked(true)` frees every slab that is full of free blocks, except those of large blocks, of
which there are none (`LargeInUse`).
-/

namespace Packetia.Memory

open List Option Function CentralCache

variable {Tid : Type*} {c c' : CentralCache} {a : SlabAddr} {k : ℕ} {c : CentralCache}
  {capacity stride count : ℕ}

/-! ## What is left after trimming -/

/-- Trimming keeps the slabs that it does not free as they are. -/
theorem Trims.slab_eq (h : Trims c c') (ha : (c'.slab a).isSome) : c'.slab a = c.slab a := by
  induction h with
  | done => rfl
  | @free c c' k a' _ _ _ ih =>
    have hslab := ih ha
    have hne : a ≠ a' := by
      rintro rfl
      rw [hslab, isSome_freeSlab] at ha
      exact ha.1 rfl
    rw [hslab]
    exact update_of_ne hne ..

theorem Trims.slabAt_eq (h : Trims c c') (ha : (c'.slab a).isSome) : c'.slabAt a = c.slabAt a := by
  rw [slabAt, slabAt, h.slab_eq ha]

theorem Trims.registry (h : Trims c c') (hc : Registry c) : Registry c' := by
  induction h with
  | done => exact hc
  | free ha _ _ ih => exact ih (hc.freeSlab ha)

theorem trimWalk_true_snd (k : ℕ) (rest : List SlabAddr) (c : CentralCache) :
    (trimWalk true k rest c).2 = false := by
  induction rest generalizing c with
  | nil => rfl
  | cons a rest ih =>
    rw [trimWalk, if_neg (by simp)]
    split_ifs <;> exact ih _

/-- The slabs of a class that are left when `TrimLocked(true)` has walked over them. -/
theorem trimWalk_true_left (k : ℕ) (rest : List SlabAddr)
    (hnodup : rest.Nodup) (hmem : ∀ a ∈ rest, a ∈ c.slabs k) (ha : a ∈ rest)
    (hleft : ((trimWalk true k rest c).1.slab a).isSome) :
    ((trimWalk true k rest c).1.slabAt a).freeCount
      ≠ ((trimWalk true k rest c).1.slabAt a).count := by
  induction rest generalizing c with
  | nil => exact absurd ha not_mem_nil
  | cons x rest ih =>
    have htrims := trimWalk_trims true k (x :: rest) hnodup hmem
    obtain ⟨hx, hrest⟩ := nodup_cons.1 hnodup
    rw [trimWalk, if_neg (by simp)] at hleft htrims ⊢
    split_ifs at hleft htrims ⊢ with hfull
    · have hmem' : ∀ a ∈ rest, a ∈ (c.freeSlab k x).slabs k := by
        intro a' ha'
        have hne : a' ≠ x := fun heq => hx (heq ▸ ha')
        simpa [freeSlab, mem_erase_of_ne hne] using hmem a' (mem_cons_of_mem _ ha')
      rcases mem_cons.1 ha with rfl | ha
      · -- the slab has been freed, and the rest of the walk does not bring it back
        have hslab := (trimWalk_trims true k rest hrest hmem').slab_eq hleft
        rw [hslab, isSome_freeSlab] at hleft
        exact absurd rfl hleft.1
      · exact ih hrest hmem' ha hleft
    · rcases mem_cons.1 ha with rfl | ha
      · rw [htrims.slabAt_eq hleft]
        exact hfull
      · exact ih hrest (fun a' ha' => hmem a' (mem_cons_of_mem _ ha')) ha hleft

/-- `TrimLocked(true)` leaves no slab of the classes below `n` that is full of free blocks. -/
theorem trimClasses_true_left (n : ℕ) (hc : Registry c) (hk : k < n)
    (hclass : (c.slabAt a).classIndex = k) (hleft : ((trimClasses true n c).slab a).isSome) :
    ((trimClasses true n c).slabAt a).freeCount ≠ ((trimClasses true n c).slabAt a).count := by
  induction n generalizing c with
  | zero => exact absurd hk (Nat.not_lt_zero _)
  | succ n ih =>
    have hwalk := trimWalk_trims true n (c.slabs n) (hc.nodup n) fun _ ha => ha
    rw [trimClasses] at hleft ⊢
    simp only [trimWalk_true_snd, Bool.false_eq_true, if_false] at hleft ⊢
    have hrest := trimClasses_trims true n (hwalk.nodup hc.nodup)
    have hsome : ((trimWalk true n (c.slabs n) c).1.slab a).isSome := by
      rwa [hrest.slab_eq hleft] at hleft
    rcases Nat.lt_succ_iff_lt_or_eq.1 hk with hlt | rfl
    · exact ih (hwalk.registry hc) hlt (by rw [hwalk.slabAt_eq hsome, hclass]) hleft
    · have hmem : a ∈ c.slabs k := by
        rw [hc.mem_slabs, ← hwalk.slab_eq hsome]
        exact ⟨hsome, hclass⟩
      rw [hrest.slabAt_eq hleft]
      exact trimWalk_true_left k _ (hc.nodup k) (fun _ ha => ha) hmem hsome

/-! ## The slabs of large blocks -/

/-- The slabs of large blocks have no free block. -/
def LargeInUse (c : CentralCache) : Prop :=
  ∀ a, (c.slabAt a).classIndex = kNumSizeClasses → (c.slabAt a).freeCount = 0

namespace LargeInUse

variable {b : Block}

section

variable (h : LargeInUse c)
include h

/-- The slab at `a` changes. -/
theorem of_ne (hne : ∀ a' ≠ a, c'.slabAt a' = c.slabAt a')
    (ha : (c'.slabAt a).classIndex = kNumSizeClasses → (c'.slabAt a).freeCount = 0) :
    LargeInUse c' := by
  intro a' hclass
  by_cases hx : a' = a
  · subst hx
    exact ha hclass
  · rw [hne a' hx] at hclass ⊢
    exact h a' hclass

/-- Slabs of other classes may change. -/
theorem modifySlab (ha : (c.slabAt a).classIndex ≠ kNumSizeClasses) {f : PoolSlab → PoolSlab}
    (hf : ∀ slab, (f slab).classIndex = slab.classIndex) : LargeInUse (c.modifySlab a f) := by
  refine h.of_ne (a := a) (fun a' hx => by simp [slabAt, CentralCache.modifySlab, hx])
    fun hclass => absurd ?_ ha
  cases hslab : c.slab a <;>
    simpa [slabAt, CentralCache.modifySlab, hslab, hf] using hclass

theorem freeSlab : LargeInUse (c.freeSlab k a) := by
  refine h.of_ne (a := a) (fun a' hx => ?_) fun _ => ?_
  · rw [slabAt_freeSlab, update_of_ne hx]
  · rw [slabAt_freeSlab, update_self]
    rfl

theorem trims (htrims : Trims c c') : LargeInUse c' := by
  induction htrims with
  | done => exact h
  | free _ _ _ ih => exact ih h.freeSlab

theorem placeSlab (hk : k ≠ kNumSizeClasses) :
    LargeInUse (c.placeSlab a capacity stride count k) := by
  refine h.of_ne (a := a) (fun a' hx => ?_) fun hclass => ?_
  · rw [slabAt_placeSlab, update_of_ne hx]
  · rw [slabAt_placeSlab, update_self] at hclass
    exact absurd hclass hk

end

theorem takeBlocks (n : ℕ) {result : Option Block} (h : LargeInUse c)
    (ha : (c.slabAt a).classIndex ≠ kNumSizeClasses) : LargeInUse (takeBlocks a n result c).1 := by
  induction n generalizing c result with
  | zero => exact h
  | succ n ih =>
    rw [CentralCache.takeBlocks]
    cases hfree : (c.slabAt a).free with
    | none => exact h
    | some b =>
      have htake : LargeInUse (c.takeBlock a b result) := h.modifySlab ha fun _ => rfl
      refine ih htake ?_
      cases hslab : c.slab a <;>
        simp_all [slabAt, takeBlock, CentralCache.modifySlab, modifyHeader]

variable {cache : Tid × ℕ → Option Block}

section

variable (h : LargeInUse c)
include h

theorem fetchBatch (hc : Sound c cache) (hk : k < kNumSizeClasses) (count : ℕ)
    (malloc : Option SlabAddr) : LargeInUse (c.fetchBatch k count malloc).1 := by
  rw [CentralCache.fetchBatch]
  cases hfind : (c.slabs k).find? fun a => (c.slabAt a).free.isSome with
  | some a =>
    obtain ⟨lists, owner, hl⟩ := hc
    have hclass := ((hl.mem_slabs k a).1 (mem_of_find?_eq_some hfind)).2
    exact h.takeBlocks count (hclass ▸ hk.ne)
  | none =>
    obtain ⟨c', htrims, heq | ⟨a, n, heq, -, -, -, -⟩⟩ :=
      allocateSlab_cases hc (getClassSize k) count k malloc
    · simp only [heq]
      exact h.trims htrims
    · simp only [heq]
      refine ((h.trims htrims).placeSlab hk.ne).takeBlocks count ?_
      rw [slabAt_placeSlab, update_self]
      exact hk.ne

theorem allocateLarge (hc : Sound c cache) (size : ℕ) (malloc : Option SlabAddr) :
    LargeInUse (c.allocateLarge size malloc).1 := by
  obtain ⟨c', htrims, heq | ⟨a, -, -, heq⟩⟩ := allocateLarge_cases hc size malloc
  · rw [heq]
    exact h.trims htrims
  · rw [heq]
    have heq := slabAt_modifySlab (isSome_placeSlab.2 (Or.inl rfl) :
      ((c'.placeSlab a size (strideOf size) 1 kNumSizeClasses).slab a).isSome)
    refine (h.trims htrims).of_ne (a := a) (fun a' hx => ?_) fun _ => ?_
    · refine (congrFun (heq _) a').trans ?_
      rw [update_of_ne hx, slabAt_placeSlab, update_of_ne hx]
    · refine (congrArg PoolSlab.freeCount (congrFun (heq _) a)).trans ?_
      rw [update_self]

theorem putFree (hb : (c.slabAt b.slab).classIndex ≠ kNumSizeClasses) : LargeInUse (c.putFree b) :=
  modifySlab h hb fun _ => rfl

end

theorem putBlocks [DecidableEq Tid] {q : Tid × ℕ} (n : ℕ) {head : Option Block}
    {lists : Place Tid → List Block} {owner : Block → Option (Place Tid)} (h : LargeInUse c)
    (hl : Layout c (update cache q head) lists owner) : LargeInUse (putBlocks n head c) := by
  induction n generalizing c head lists owner with
  | zero => exact h
  | succ n ih =>
    cases head with
    | none => exact h
    | some b =>
      have hhead : heads c (update cache q (some b)) (.cached q) = some b := update_self ..
      have hfits := (hl.placed b _ (hl.chains.owner_of_head hhead)).2
      obtain ⟨lists', owner', hl', -⟩ := hl.putFree
      exact ih (h.putFree (hfits.1 ▸ hfits.2.ne)) hl'

theorem putBatch [DecidableEq Tid] (h : LargeInUse c) (hc : Sound c cache) (q : Tid × ℕ) :
    LargeInUse (c.putBatch (cache q)) := by
  obtain ⟨lists, owner, hl⟩ := hc
  rw [← update_eq_self q cache] at hl
  exact h.putBlocks _ hl

theorem release [DecidableEq Tid] (h : LargeInUse c) (hc : Sound c cache) (hb : c.InUse b) :
    LargeInUse (c.release b) := by
  have hsound := hc.putBack hb
  rw [CentralCache.release]
  split_ifs with hlarge
  · -- the slab that gets a free block is freed
    refine h.of_ne (a := b.slab) (fun a' hx => ?_) fun _ => ?_
    · rw [slabAt_freeSlab, update_of_ne hx, slabAt_putBack (Has.isSome hb.1), update_of_ne hx]
    · rw [slabAt_freeSlab, update_self]
      rfl
  · have hput : LargeInUse (c.putBack b) := putFree h hlarge
    exact hput.trims (hsound.trims false)

end LargeInUse

/-! ## A fetch that finds nothing -/

/-- The state in which `FetchBatch` calls `std::malloc`, if it does. -/
def CentralCache.atMalloc (c : CentralCache) (k : ℕ) : CentralCache :=
  if c.options.maxCommittedBytes - c.stats.committedBytes
      < poolSlabSize + strideOf (getClassSize k) then c.trimLocked true
  else c

/-- `std::malloc` succeeds in `FetchBatch`, if it is called: it gives memory that is not
    allocated. -/
def CentralCache.MallocSucceeds (c : CentralCache) (k : ℕ) (malloc : Option SlabAddr) : Prop :=
  ∃ a, malloc = some a ∧ (c.atMalloc k).slab a = none

theorem takeBlocks_some (n : ℕ) (b : Block) (c : CentralCache) :
    (takeBlocks a n (some b) c).2 ≠ none := by
  induction n generalizing b c with
  | zero => simp [takeBlocks]
  | succ n ih =>
    rw [takeBlocks]
    cases (c.slabAt a).free with
    | none => simp
    | some b' => exact ih b' _

/-- `FetchBatch` gives a block of a slab that has one. -/
theorem takeBlocks_ne_none {n : ℕ} (hn : 0 < n) (hfree : (c.slabAt a).free ≠ none)
    (result : Option Block) : (takeBlocks a n result c).2 ≠ none := by
  obtain ⟨n, rfl⟩ := Nat.exists_eq_succ_of_ne_zero hn.ne'
  obtain ⟨b, hb⟩ := ne_none_iff_exists'.1 hfree
  simp only [takeBlocks, hb]
  exact takeBlocks_some n b _

theorem getClassSize_le (hk : k < kNumSizeClasses) : getClassSize k ≤ kMaxPooledObjectSize := by
  rw [kNumSizeClasses] at hk
  interval_cases k <;> decide

variable {malloc : Option SlabAddr}

/-- A slab that has just been allocated has a free block. -/
theorem allocateWithin_free {capacity count : ℕ} (hcount : 0 < count)
    (h : (c.allocateWithin capacity (strideOf capacity) count k malloc).2 = some a) :
    ((c.allocateWithin capacity (strideOf capacity) count k malloc).1.slabAt a).free ≠ none := by
  rcases allocateWithin_cases c capacity count k malloc with heq | ⟨a', n, heq, -, -, hn, -⟩
  · rw [heq] at h
    exact absurd h (by simp)
  · rw [heq] at h ⊢
    obtain rfl : a' = a := some.inj h
    obtain ⟨n, rfl⟩ := Nat.exists_eq_succ_of_ne_zero (hn hcount).ne'
    rw [slabAt_placeSlab, update_self]
    simp [newSlab, carve]

/-- With memory from `std::malloc`, `AllocateSlab` gives nothing only for want of room. -/
theorem allocateWithin_none (hmalloc : ∃ a, malloc = some a ∧ c.slab a = none)
    (h : (c.allocateWithin capacity stride count k malloc).2 = none) :
    c.options.maxCommittedBytes - c.stats.committedBytes < poolSlabSize + stride := by
  obtain ⟨a, rfl, ha⟩ := hmalloc
  by_contra hroom
  rw [allocateWithin, if_neg hroom] at h
  simp [Option.filter, ha] at h

/-- What a `FetchBatch` that gives nothing has found: no slab of the class has a free block, and
    there is no room for a slab when all that can be freed has been freed. -/
theorem fetchBatch_none (hk : k < kNumSizeClasses) {count : ℕ} (hcount : 0 < count)
    (hmalloc : c.MallocSucceeds k malloc) (h : (c.fetchBatch k count malloc).2 = none) :
    (∀ a ∈ c.slabs k, (c.slabAt a).free = none) ∧
      (c.trimLocked true).options.maxCommittedBytes - (c.trimLocked true).stats.committedBytes
        < poolSlabSize + strideOf (getClassSize k) := by
  have hsize := getClassSize_le hk
  have hcapacity : ¬getClassSize k > sizeMax - blockHeaderSize - (alignment - 1) := by
    rw [kMaxPooledObjectSize] at hsize
    rw [sizeMax, blockHeaderSize, alignment]
    omega
  have hstride : ¬strideOf (getClassSize k) > sizeMax - poolSlabSize := by
    rw [kMaxPooledObjectSize] at hsize
    rw [strideOf, sizeMax, blockHeaderSize, alignment, poolSlabSize]
    omega
  rw [fetchBatch] at h
  cases hfind : (c.slabs k).find? fun a => (c.slabAt a).free.isSome with
  | some a =>
    simp only [hfind] at h
    have hfree := find?_some hfind
    exact absurd h (takeBlocks_ne_none hcount (isSome_iff_ne_none.1 hfree) none)
  | none =>
    refine ⟨fun a ha => by simpa using find?_eq_none.1 hfind a ha, ?_⟩
    simp only [hfind, allocateSlab, if_neg hcapacity, if_neg hstride] at h
    rw [MallocSucceeds, atMalloc] at hmalloc
    split_ifs at h hmalloc with hroom
    · cases hwithin : ((c.trimLocked true).allocateWithin (getClassSize k)
        (strideOf (getClassSize k)) count k malloc).2 with
      | none => exact allocateWithin_none hmalloc hwithin
      | some a =>
        simp only [hwithin] at h
        exact absurd h (takeBlocks_ne_none hcount (allocateWithin_free hcount hwithin) none)
    · cases hwithin : (c.allocateWithin (getClassSize k) (strideOf (getClassSize k)) count k
        malloc).2 with
      | none => exact absurd (allocateWithin_none hmalloc hwithin) hroom
      | some a =>
        simp only [hwithin] at h
        exact absurd h (takeBlocks_ne_none hcount (allocateWithin_free hcount hwithin) none)

/-! ## What the others hold -/

namespace System

variable {s : System Tid} {t : Tid}

/-- A block of the slab at `a` is in use, or on a list of a thread other than `t`. -/
def HeldBeside (s : System Tid) (t : Tid) (a : SlabAddr) : Prop :=
  ∃ b, b.slab = a ∧ s.central.Has b ∧ (s.central.InUse b ∨ ∃ t' k l, t' ≠ t ∧
    IsChain (fun b => (s.central.header b).next) ((s.thread t').lists k) l ∧ b ∈ l)

open Classical in
/-- The bytes of the slabs of which a block is in use or on a list of a thread other than `t`. -/
noncomputable def bytesBeside (s : System Tid) (t : Tid) : ℕ :=
  ∑ a ∈ s.central.live with s.HeldBeside t a, (s.central.slabAt a).bytes

section

variable (hsound : Sound s.central s.caches)
include hsound

/-- A slab that is not full of free blocks has a block in use, or in a cache of a thread; not of
    `t`, if its lists are empty. -/
theorem heldBeside_of_not_full (hempty : ∀ k, (s.thread t).lists k = none)
    (hfull : (s.central.slabAt a).freeCount ≠ (s.central.slabAt a).count) : s.HeldBeside t a := by
  obtain ⟨lists, owner, hl⟩ := hsound
  -- else the free list would have all the blocks of the slab
  obtain ⟨b, hslab, hb, hown⟩ :
      ∃ b, b.slab = a ∧ s.central.Has b ∧ owner b ≠ some (.free a) := by
    by_contra hall
    push Not at hall
    have hsub : (Finset.range (s.central.slabAt a).count).image (Block.mk a)
        ⊆ (lists (.free a)).toFinset := by
      intro b hb
      obtain ⟨i, hi, rfl⟩ := Finset.mem_image.1 hb
      exact mem_toFinset.2 ((hl.chains.mem_iff _ _).2 (hall ⟨a, i⟩ rfl (Finset.mem_range.1 hi)))
    have hcard := Finset.card_le_card hsub
    rw [hl.card_free, Finset.card_image_of_injective _ fun i j hij => (Block.mk.inj hij).2,
      Finset.card_range] at hcard
    exact hfull (le_antisymm (hl.freeCount_le a) hcard)
  refine ⟨b, hslab, hb, ?_⟩
  cases howner : owner b with
  | none => exact Or.inl ⟨hb, (hl.used_iff b hb).2 howner⟩
  | some p =>
    cases p with
    | free a' =>
      have hfits : b.slab = a' := (hl.placed b _ howner).2
      exact absurd (by rw [howner, ← hfits, hslab]) hown
    | cached q =>
      have hmem := (hl.chains.mem_iff _ b).2 howner
      have hchain := hl.chains.chain (.cached q)
      refine Or.inr ⟨q.1, q.2, lists (.cached q), fun ht => ?_, hchain, hmem⟩
      have hnil : heads s.central s.caches (.cached q) = none := by
        rw [heads, caches, ht]
        exact hempty q.2
      rw [hl.chains.nil_of_head hnil] at hmem
      exact absurd hmem not_mem_nil

/-- A slab of which a block is held is not freed. -/
theorem HeldBeside.isSome (htrims : Trims s.central c) (h : s.HeldBeside t a) :
    (c.slab a).isSome := by
  obtain ⟨lists, owner, hl⟩ := hsound
  obtain ⟨b, rfl, hb, hheld⟩ := h
  by_contra hfreed
  have hfull := htrims.full_of_freed (Has.isSome hb) (not_isSome_iff_eq_none.1 hfreed)
  have hown := hl.owner_of_full hfull hb rfl
  rcases hheld with hused | ⟨t', k, l, -, hchain, hmem⟩
  · exact hl.not_inUse hown hused
  · rw [hchain.unique (hl.chains.chain (.cached (t', k))), hl.chains.mem_iff, hown] at hmem
    cases hmem

/-- `Trim` leaves the slabs held beside `t`, if the lists of `t` are empty. -/
theorem isSome_trimLocked_iff (hlarge : LargeInUse s.central)
    (hempty : ∀ k, (s.thread t).lists k = none) :
    ((s.central.trimLocked true).slab a).isSome ↔ s.HeldBeside t a := by
  have htrims := hsound.trims true
  refine ⟨fun hleft => heldBeside_of_not_full hsound hempty ?_, fun h => h.isSome hsound htrims⟩
  obtain ⟨lists, owner, hl⟩ := hsound
  have hsome : (s.central.slab a).isSome := by rwa [htrims.slab_eq hleft] at hleft
  rcases (hl.shaped a hsome).class_le.lt_or_eq with hlt | heq
  · rw [← htrims.slabAt_eq hleft]
    exact trimClasses_true_left kNumSizeClasses hl.toRegistry hlt rfl hleft
  · rw [hlarge a heq, (hl.shaped a hsome).count_eq heq]
    exact zero_ne_one

/-- What is committed after trimming is held beside `t`, if the lists of `t` are empty. -/
theorem committed_trimLocked (hlarge : LargeInUse s.central)
    (hempty : ∀ k, (s.thread t).lists k = none) :
    (s.central.trimLocked true).stats.committedBytes = s.bytesBeside t := by
  classical
  have htrims := hsound.trims true
  have hheld (a : SlabAddr) := isSome_trimLocked_iff (a := a) hsound hlarge hempty
  obtain ⟨lists, owner, hl⟩ := hsound
  have hregistry := htrims.registry hl.toRegistry
  rw [hregistry.committed, bytesBeside]
  refine Finset.sum_congr (Finset.ext fun a => ?_) fun a ha => ?_
  · rw [Finset.mem_filter, hregistry.mem_live, hheld, hl.mem_live]
    refine ⟨fun h => ⟨?_, h⟩, And.right⟩
    rw [← htrims.slab_eq ((hheld a).2 h)]
    exact (hheld a).2 h
  · rw [htrims.slabAt_eq ((hheld a).2 (Finset.mem_filter.1 ha).2)]

theorem bytesBeside_le (t : Tid) : s.bytesBeside t ≤ s.central.options.maxCommittedBytes := by
  classical
  obtain ⟨lists, owner, hl⟩ := hsound
  calc s.bytesBeside t ≤ ∑ a ∈ s.central.live, (s.central.slabAt a).bytes :=
        Finset.sum_le_sum_of_subset (Finset.filter_subset _ _)
    _ = s.central.stats.committedBytes := hl.committed.symm
    _ ≤ s.central.options.maxCommittedBytes := hl.budget

end

/-! ## The calls of a thread -/

variable [DecidableEq Tid] {t' : Tid} {s' : System Tid}

/-- A step from `s` to `s'` leaves the thread `t'` alone, and then `t` reaches `pc`. -/
theorem thread_goto_of_ne (ht : t' ≠ t) (hs : s'.thread t' = s.thread t' := by rfl) {pc : Pc} :
    (s'.goto t pc).thread t' = s.thread t' :=
  (update_of_ne ht ..).trans hs

theorem lists_goto (s : System Tid) (t : Tid) (pc : Pc) :
    ((s.goto t pc).thread t).lists = (s.thread t).lists := by
  simp [goto]

/-- The calls of a thread leave the other threads alone. -/
theorem thread_call_of_ne (ht : t' ≠ t) (op : Op) (malloc : Option SlabAddr) :
    (s.call t op malloc).thread t' = s.thread t' := by
  cases op with
  | tryAllocate size =>
    rw [call]
    split_ifs <;> exact thread_goto_of_ne ht
  | release b =>
    rw [call]
    split_ifs
    · exact thread_goto_of_ne ht
    · rfl
  | _ => exact thread_goto_of_ne ht

theorem thread_resume_of_ne (ht : t' ≠ t) (malloc : Option SlabAddr) :
    (s.resume t malloc).thread t' = s.thread t' := by
  rw [resume]
  cases hpc : (s.thread t).pc with
  | idle last => rfl
  | fetch size =>
    dsimp only
    split_ifs <;> exact thread_goto_of_ne ht (thread_setList_of_ne ht ..)
  | flushing index after =>
    dsimp only
    split_ifs
    · exact thread_goto_of_ne ht (thread_flushList_of_ne ht index)
    · cases after <;> exact thread_goto_of_ne ht
  | refetch size => exact thread_goto_of_ne ht (thread_setList_of_ne ht ..)
  | take size =>
    dsimp only
    cases (s.thread t).lists (getSizeClassIndex size) with
    | none => exact thread_goto_of_ne ht
    | some b => exact thread_goto_of_ne ht (thread_setList_of_ne ht ..)
  | large size =>
    dsimp only
    cases (s.central.allocateLarge size malloc).2 <;> exact thread_goto_of_ne ht
  | _ => exact thread_goto_of_ne ht

/-- The slabs of large blocks stay in use. -/
theorem largeInUse_step (h : s.Consistent) (hlarge : LargeInUse s.central) (m : Move Tid) :
    LargeInUse (s.step m).central := by
  cases m with
  | call t op malloc =>
    rw [step]
    split_ifs
    · cases op with
      | tryAllocate size =>
        rw [call]
        split_ifs <;> exact hlarge
      | allocateLarge size => exact hlarge.allocateLarge h.sound size malloc
      | release b =>
        rw [call]
        split_ifs with hb
        · exact hlarge.release h.sound hb
        · exact hlarge
      | flush => exact hlarge
      | trim => exact hlarge.trims (h.sound.trims true)
      | setLimits options =>
        have htrim := hlarge.trims (h.sound.trims true)
        change LargeInUse (s.central.setLimits options).1
        rw [setLimits]
        split_ifs <;> exact htrim
    · exact hlarge
  | run t malloc =>
    have hready := h.ready t
    rw [ThreadCache.Ready] at hready
    rw [step, resume]
    cases hpc : (s.thread t).pc with
    | idle last => exact hlarge
    | fetch size =>
      simp only [hpc] at hready
      have hfetch := hlarge.fetchBatch h.sound (getSizeClassIndex_spec hready.1).1
        (getBatchCount (getSizeClassIndex size)) malloc
      dsimp only
      split_ifs <;> exact hfetch
    | flushing index after =>
      dsimp only
      split_ifs
      · rw [flushList]
        cases hlist : (s.thread t).lists index with
        | none => exact hlarge
        | some b =>
          have hput := hlarge.putBatch h.sound (t, index)
          have htrims := (h.sound.putBatch (t, index)).trims false
          rw [show s.caches (t, index) = some b from hlist] at hput htrims
          exact hput.trims htrims
      · cases after <;> exact hlarge
    | trimming size => exact hlarge.trims (h.sound.trims true)
    | refetch size =>
      simp only [hpc] at hready
      exact hlarge.fetchBatch h.sound (getSizeClassIndex_spec hready.1).1 1 malloc
    | take size =>
      dsimp only
      cases (s.thread t).lists (getSizeClassIndex size) with
      | none | some b => exact hlarge
    | large size =>
      have hallocate := hlarge.allocateLarge h.sound size malloc
      dsimp only
      cases (s.central.allocateLarge size malloc).2 with
      | none | some b => exact hallocate
    | failed => exact hlarge

variable (options : MemoryPoolOptions) (moves : List (Move Tid))

theorem largeInUse_after : LargeInUse (after options moves).central :=
  run_induction (P := fun _ (s : System Tid) => LargeInUse s.central) (fun _ _ => rfl)
    (fun moves m h => largeInUse_step (consistent_after options moves) h m) moves

omit [DecidableEq Tid] in
/-- A thread does not have a list for a class that does not exist. -/
theorem lists_eq_none (hsound : Sound s.central s.caches) (hk : kNumSizeClasses ≤ k) :
    (s.thread t).lists k = none := by
  obtain ⟨lists, owner, hl⟩ := hsound
  by_contra hne
  obtain ⟨b, hb⟩ := ne_none_iff_exists'.1 hne
  have hhead : heads s.central s.caches (.cached (t, k)) = some b := hb
  have hfits := (hl.placed b _ (hl.chains.owner_of_head hhead)).2
  exact absurd hfits.2 (not_lt.2 hk)

/-- Once `Allocate` has flushed, the lists of the thread are empty. -/
def Flushed (s : System Tid) (t : Tid) : Prop :=
  ∀ size, (s.thread t).pc = .trimming size ∨ (s.thread t).pc = .refetch size →
    ∀ k, (s.thread t).lists k = none

omit [DecidableEq Tid] in
theorem Flushed.congr (h : s.Flushed t) (heq : s'.thread t = s.thread t) : s'.Flushed t := by
  rwa [Flushed, heq]

/-- A thread that goes anywhere else may have blocks. -/
theorem flushed_goto {pc : Pc} (htrim : ∀ size, pc ≠ .trimming size := by simp)
    (hfetch : ∀ size, pc ≠ .refetch size := by simp) : (s.goto t pc).Flushed t := by
  rintro size (hpc | hpc) <;> rw [pc_goto] at hpc
  · exact absurd hpc (htrim size)
  · exact absurd hpc (hfetch size)

theorem flushed_call (h : s.Flushed t) (op : Op) (malloc : Option SlabAddr) :
    (s.call t op malloc).Flushed t := by
  cases op with
  | tryAllocate size =>
    rw [call]
    split_ifs <;> exact flushed_goto
  | release b =>
    rw [call]
    split_ifs
    · exact flushed_goto
    · exact h
  | _ => exact flushed_goto

theorem flushed_resume (hs : s.Consistent) (h : s.Flushed t) (malloc : Option SlabAddr) :
    (s.resume t malloc).Flushed t := by
  have hready := hs.ready t
  rw [ThreadCache.Ready] at hready
  rw [resume]
  cases hpc : (s.thread t).pc with
  | idle last => exact h
  | fetch size =>
    dsimp only
    split_ifs <;> exact flushed_goto
  | flushing index after =>
    dsimp only
    split_ifs with hindex
    · exact flushed_goto
    · cases after with
      | refill size =>
        -- all lists have been flushed
        simp only [hpc] at hready
        intro _ _ k
        rw [lists_goto]
        rcases lt_or_ge k kNumSizeClasses with hk | hk
        · exact hready.2 k (hk.trans_le (not_lt.1 hindex))
        · exact lists_eq_none hs.sound hk
      | done | large size => exact flushed_goto
  | trimming size =>
    intro _ _ k
    rw [lists_goto]
    exact h size (Or.inl hpc) k
  | take size =>
    dsimp only
    cases (s.thread t).lists (getSizeClassIndex size) <;> exact flushed_goto
  | large size =>
    dsimp only
    cases (s.central.allocateLarge size malloc).2 <;> exact flushed_goto
  | _ => exact flushed_goto

theorem flushed_after (t : Tid) : (after options moves).Flushed t := by
  refine run_induction (P := fun _ (s : System Tid) => s.Flushed t) ?_ (fun moves m h => ?_) moves
  · rintro size (hpc | hpc) <;> exact absurd hpc (by simp [init])
  · have hs := consistent_after options moves
    cases m with
    | call t' op malloc =>
      rw [step]
      split_ifs
      · by_cases ht : t = t'
        · subst ht
          exact flushed_call h op malloc
        · exact h.congr (thread_call_of_ne ht op malloc)
      · exact h
    | run t' malloc =>
      by_cases ht : t = t'
      · subst ht
        exact flushed_resume hs h malloc
      · exact h.congr (thread_resume_of_ne ht malloc)

/-- The second `FetchBatch` of the call that the thread `t` is in after `moves` was the move with
    `malloc`, after `before`, and found nothing. -/
def Refetched (moves before : List (Move Tid)) (t : Tid) (size : ℕ)
    (malloc : Option SlabAddr) : Prop :=
  (∃ between, moves = before ++ .run t malloc :: between ∧
      ∀ m ∈ between, ∀ malloc', m ≠ .run t malloc') ∧
    ((after options before).thread t).pc = .refetch size ∧
    ((after options before).central.fetchBatch (getSizeClassIndex size) 1 malloc).2 = none

omit [DecidableEq Tid] in
theorem Refetched.concat [DecidableEq Tid] {options : MemoryPoolOptions}
    {moves before : List (Move Tid)} {size : ℕ} {m : Move Tid}
    (h : Refetched options moves before t size malloc) (hm : ∀ malloc', m ≠ .run t malloc') :
    Refetched options (moves ++ [m]) before t size malloc := by
  obtain ⟨⟨between, rfl, hbetween⟩, hrest⟩ := h
  exact ⟨⟨between ++ [m], by simp, forall_mem_concat.2 ⟨hbetween, hm⟩⟩, hrest⟩

/-- A thread that is to take a block and has none has just fetched for the second time. -/
theorem refetched_of_empty {size : ℕ} (hpc : ((after options moves).thread t).pc = .take size)
    (hlist : ((after options moves).thread t).lists (getSizeClassIndex size) = none) :
    ∃ before malloc, Refetched options moves before t size malloc := by
  revert hpc hlist
  refine run_induction (P := fun moves (s : System Tid) => (s.thread t).pc = .take size →
    (s.thread t).lists (getSizeClassIndex size) = none →
      ∃ before malloc, Refetched options moves before t size malloc) ?_ (fun moves m ih => ?_) moves
  · intro hpc
    exact absurd hpc (by simp [init])
  intro hpc hlist
  set s := run step (init options) moves with hs
  -- a move that is not a step of `t`
  have hkeep : (s.step m).thread t = s.thread t → (∀ malloc', m ≠ .run t malloc') →
      ∃ before malloc, Refetched options (moves ++ [m]) before t size malloc := by
    intro heq hm
    rw [heq] at hpc hlist
    obtain ⟨before, malloc, hbefore⟩ := ih hpc hlist
    exact ⟨before, malloc, hbefore.concat hm⟩
  cases m with
  | call t' op malloc =>
    by_cases ht : t = t'
    · subst ht
      cases hidle : s.isIdle t with
      | false => exact hkeep (by simp [step, hidle]) (by simp)
      | true =>
        rw [step, if_pos hidle] at hpc hlist hkeep
        cases op with
        | tryAllocate size' =>
          rw [call] at hpc hlist
          split_ifs at hpc hlist with h0 h1 h2 <;>
            simp only [pc_goto, lists_goto, Pc.take.injEq, reduceCtorEq] at hpc hlist
          -- the list had a block when the call began
          subst hpc
          rw [hlist] at h2
          exact absurd h2 (by simp)
        | release b =>
          by_cases hb : s.central.InUse b
          · simp [call, hb, pc_goto] at hpc
          · exact hkeep (by rw [call, if_neg hb]) (by simp)
        | _ => simp [call, pc_goto] at hpc
    · refine hkeep ?_ (by simp)
      rw [step]
      split_ifs
      · exact thread_call_of_ne ht op malloc
      · rfl
  | run t' malloc =>
    by_cases ht : t = t'
    · subst ht
      rw [step, resume] at hpc hlist
      cases hat : (s.thread t).pc with
      | idle last =>
        simp [hat] at hpc
      | fetch size' =>
        simp only [hat] at hpc hlist
        split_ifs at hpc hlist with hsome
        · rw [pc_goto, Pc.take.injEq] at hpc
          subst hpc
          rw [lists_goto] at hlist
          rw [hlist] at hsome
          exact absurd hsome (by simp)
        · simp [pc_goto] at hpc
      | flushing index after =>
        simp only [hat] at hpc
        split_ifs at hpc
        · simp [pc_goto] at hpc
        · cases after <;> simp [pc_goto] at hpc
      | trimming size' | failed => simp [hat, pc_goto] at hpc
      | refetch size' =>
        simp only [hat, pc_goto, Pc.take.injEq] at hpc hlist
        subst hpc
        refine ⟨moves, malloc, ⟨[], rfl, by simp⟩, hat, ?_⟩
        change (s.central.fetchBatch _ 1 malloc).2 = none
        simpa [lists_goto, fetchInto, setList] using hlist
      | take size' =>
        simp only [hat] at hpc
        cases htake : (s.thread t).lists (getSizeClassIndex size') <;>
          simp [htake, pc_goto] at hpc
      | large size' =>
        simp only [hat] at hpc
        cases hlarge : (s.central.allocateLarge size' malloc).2 <;> simp [hlarge, pc_goto] at hpc
    · refine hkeep (thread_resume_of_ne ht malloc) fun malloc' heq => ?_
      exact ht (Move.run.inj heq).1.symm

/-- The pool has nothing left for the thread `t`, which has no block itself: the slabs of the
    class `k` have no free block, and what the others hold leaves no room for a slab. -/
structure Exhausted (s : System Tid) (t : Tid) (k : ℕ) : Prop where
  lists_eq : ∀ k, (s.thread t).lists k = none
  free_eq : ∀ a ∈ s.central.slabs k, (s.central.slabAt a).free = none
  bytes_le : s.bytesBeside t ≤ s.central.options.maxCommittedBytes
  room_lt : s.central.options.maxCommittedBytes - s.bytesBeside t
    < poolSlabSize + strideOf (getClassSize k)

/-- `Allocate` returns null only if its second `FetchBatch` found the pool exhausted, as far as
    `std::malloc` succeeds: the slabs of the class had no free block, and `max_committed_bytes`
    less the bytes of the slabs that have a block in use or in the cache of another thread was less
    than a slab header and one block. -/
theorem null_only_if_exhausted (options : MemoryPoolOptions) (moves : List (Move Tid)) (t : Tid)
    (size : ℕ) (malloc : Option SlabAddr) (hpc : ((after options moves).thread t).pc = .take size)
    (hnull : (((after options moves).step (.run t malloc)).thread t).pc = .failed) :
    ∃ before malloc', Refetched options moves before t size malloc' ∧
      ((after options before).central.MallocSucceeds (getSizeClassIndex size) malloc' →
        (after options before).Exhausted t (getSizeClassIndex size)) := by
  have hlist : ((after options moves).thread t).lists (getSizeClassIndex size) = none := by
    cases hlist : ((after options moves).thread t).lists (getSizeClassIndex size) with
    | none => rfl
    | some b => simp [step, resume, hpc, hlist, pc_goto] at hnull
  obtain ⟨before, malloc', hbefore⟩ := refetched_of_empty options moves hpc hlist
  refine ⟨before, malloc', hbefore, fun hmalloc => ?_⟩
  obtain ⟨-, hat, hfetch⟩ := hbefore
  have hs := consistent_after options before
  have hempty := flushed_after options before t size (Or.inr hat)
  have hready := hs.ready t
  simp only [ThreadCache.Ready, hat] at hready
  obtain ⟨hfree, hroom⟩ :=
    fetchBatch_none (getSizeClassIndex_spec hready.1).1 one_pos hmalloc hfetch
  refine ⟨hempty, hfree, bytesBeside_le hs.sound t, lt_of_le_of_lt ?_ hroom⟩
  have hcommitted := committed_trimLocked hs.sound (largeInUse_after options before) hempty
  have hoptions := (hs.sound.trims true).options
  rw [CentralCache.trimLocked] at hcommitted hoptions ⊢
  rw [hoptions, hcommitted]

/-- Thread 1 has taken the only block there is room for; thread 0 flushes, trims, fetches once
    more and gives up. -/
def giveUp : List (Move ℕ) :=
  [.call 1 (.tryAllocate 100) none, .run 1 (some 7), .run 1 none, .call 0 (.tryAllocate 100) none]
    ++ List.replicate 19 (.run 0 (some 8))

theorem null_only_if_exhausted_giveUp :
    (after { maxCommittedBytes := 300 } giveUp.dropLast).Exhausted 0 (getSizeClassIndex 100) := by
  obtain ⟨before, malloc, ⟨⟨between, hmoves, hbetween⟩, -⟩, hexhausted⟩ :=
    null_only_if_exhausted { maxCommittedBytes := 300 } giveUp 0 100 none (by decide +kernel)
      (by decide +kernel)
  have hlast : giveUp = giveUp.dropLast ++ [.run 0 (some 8)] := rfl
  rw [hlast] at hmoves
  -- the last move of the thread is its second `FetchBatch`
  obtain rfl | ⟨between, m, rfl⟩ := eq_nil_or_concat' between
  · obtain ⟨rfl, hmove⟩ := append_inj' hmoves rfl
    cases hmove
    exact hexhausted ⟨8, rfl, by decide +kernel⟩
  · rw [← cons_append, ← append_assoc] at hmoves
    have hm := (append_inj' hmoves rfl).2
    exact absurd (cons.inj hm).1.symm (hbetween m mem_concat_self _)

/-- `Trim` is exact. For a thread whose lists are empty, what is left is what others hold: the
    slabs of which a block is in use or in the cache of another thread, and the bytes of these
    slabs are what is committed. -/
theorem trim_keeps_held (options : MemoryPoolOptions) (moves : List (Move Tid)) (t : Tid)
    (hempty : ∀ k, ((after options moves).thread t).lists k = none) :
    (∀ a, (((after options moves).central.trimLocked true).slab a).isSome ↔
        (after options moves).HeldBeside t a) ∧
      ((after options moves).central.trimLocked true).stats.committedBytes
        = (after options moves).bytesBeside t :=
  have hsound := (consistent_after options moves).sound
  have hlarge := largeInUse_after options moves
  ⟨fun _ => isSome_trimLocked_iff hsound hlarge hempty, committed_trimLocked hsound hlarge hempty⟩

theorem trim_keeps_held_giveUp :
    (after { maxCommittedBytes := 300 } (giveUp.take 3)).HeldBeside 0 7 ∧
      (after { maxCommittedBytes := 300 } (giveUp.take 3)).bytesBeside 0 = 224 := by
  obtain ⟨hheld, hbytes⟩ :=
    trim_keeps_held { maxCommittedBytes := 300 } (giveUp.take 3) 0 fun _ => rfl
  exact ⟨(hheld 7).1 (by decide +kernel), hbytes ▸ by decide +kernel⟩

end System

end Packetia.Memory
