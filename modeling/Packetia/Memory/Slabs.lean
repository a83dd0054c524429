import Packetia.Memory.Moves

/-!
# Slabs that come and go

Freeing a slab whose blocks are all on its free list keeps the layout, and so does a new slab
with its blocks. Trimming frees such slabs, one after another (`Trims`); a call that needs a
slab trims if it must, and then makes one within the limit or none (`allocateSlab_cases`).
-/

namespace Packetia.Memory

open Finset List Function CentralCache

variable {Tid : Type*} [DecidableEq Tid] {c c' : CentralCache} {cache : Tid × ℕ → Option Block}
  {lists : Place Tid → List Block} {owner : Block → Option (Place Tid)} {a : SlabAddr} {k : ℕ}
  {a' : SlabAddr}

/-! ## Freeing a slab -/

theorem slabAt_freeSlab : (c.freeSlab k a).slabAt = update c.slabAt a default := by
  funext a'
  by_cases ha : a' = a <;> simp [slabAt, freeSlab, ha]

theorem isSome_freeSlab : ((c.freeSlab k a).slab a').isSome ↔ a' ≠ a ∧ (c.slab a').isSome := by
  by_cases ha : a' = a <;> simp [freeSlab, ha]

theorem has_freeSlab {b : Block} : (c.freeSlab k a).Has b ↔ b.slab ≠ a ∧ c.Has b := by
  rw [Has, slabAt_freeSlab]
  by_cases ha : b.slab = a
  · simp [ha, show (default : PoolSlab).count = 0 from rfl]
  · simp [ha, Has]

theorem Registry.freeSlab (h : Registry c) (ha : a ∈ c.slabs k) : Registry (c.freeSlab k a) := by
  set c' := c.freeSlab k a
  obtain ⟨hsome, hclass⟩ := (h.mem_slabs k a).1 ha
  have hmem : ∀ k' a', a' ∈ c'.slabs k' ↔ (c'.slab a').isSome ∧ (c'.slabAt a').classIndex = k' := by
    intro k' a'
    rw [isSome_freeSlab, slabAt_freeSlab]
    by_cases haa : a' = a
    · subst haa
      by_cases hk : k' = k
      · subst hk
        simpa [c', freeSlab] using (h.nodup k').not_mem_erase
      · simp [c', freeSlab, hk, h.mem_slabs, hclass, Ne.symm hk]
    · by_cases hk : k' = k
      · subst hk
        simp [c', freeSlab, haa, (h.nodup k').mem_erase_iff, h.mem_slabs]
      · simp [c', CentralCache.freeSlab, haa, hk, h.mem_slabs]
  have hshapes : ∀ a', (c'.slab a').isSome → (c'.slabAt a').Shaped := by
    intro a' ha'
    obtain ⟨hne, hs⟩ := isSome_freeSlab.1 ha'
    rw [slabAt_freeSlab, update_of_ne hne]
    exact h.shaped a' hs
  have hlive : c'.live = c.live.erase a := by
    ext a'
    rw [mem_erase, h.mem_live, mem_live_of hmem hshapes, isSome_freeSlab]
  have hcommitted : c'.stats.committedBytes = ∑ a' ∈ c'.live, (c'.slabAt a').bytes := by
    have hsum := add_sum_erase c.live (fun a => (c.slabAt a).bytes) (h.mem_live.2 hsome)
    rw [hlive, slabAt_freeSlab, sum_congr rfl fun a' ha' => by
      rw [update_of_ne (ne_of_mem_erase ha')]]
    change c.stats.committedBytes - _ = _
    rw [h.committed, ← hsum, Nat.add_sub_cancel_left]
  refine ⟨fun k' => ?_, hmem, hshapes, hcommitted, (Nat.sub_le _ _).trans h.budget⟩
  by_cases hk : k' = k
  · subst hk
    simpa [c', freeSlab] using (h.nodup k').erase a
  · simpa [c', CentralCache.freeSlab, hk] using h.nodup k'

/-- Freeing a slab whose blocks are all free. -/
theorem Layout.freeSlab (h : Layout c cache lists owner) (ha : a ∈ c.slabs k)
    (hfull : (c.slabAt a).freeCount = (c.slabAt a).count) : Sound (c.freeSlab k a) cache := by
  have hregistry := h.toRegistry.freeSlab ha
  have hheads : heads (c.freeSlab k a) cache = update (heads c cache) (.free a) none :=
    heads_of_slabAt slabAt_freeSlab cache
  have hchains := h.chains.drop (.free a)
  rw [← hheads] at hchains
  -- the blocks of the other slabs stay where they are
  have hother : ∀ b, b.slab ≠ a → owner b ≠ some (.free a) := fun b hb hown =>
    hb (h.placed b _ hown).2
  have hinUse : ∀ b, (c.freeSlab k a).InUse b ↔ c.InUse b := by
    intro b
    change (c.freeSlab k a).Has b ∧ _ ↔ c.Has b ∧ _
    rw [has_freeSlab]
    constructor
    · rintro ⟨⟨-, hb⟩, hm⟩
      exact ⟨hb, hm⟩
    · rintro ⟨hb, hm⟩
      refine ⟨⟨fun hslab => ?_, hb⟩, hm⟩
      exact h.not_inUse (h.owner_of_full hfull hb hslab) ⟨hb, hm⟩
  refine ⟨_, _, hregistry, hchains, fun a' => ?_, fun b p hb => ?_, fun b hb => ?_, fun b hb => ?_,
    ?_⟩
  · rw [slabAt_freeSlab]
    by_cases haa : a' = a
    · subst haa
      simp [show (default : PoolSlab).freeCount = 0 from rfl]
    · simpa [haa] using h.freeCount a'
  · split_ifs at hb with hown
    obtain ⟨hhas, hfits⟩ := h.placed b p hb
    have hne : b.slab ≠ a := by
      intro hslab
      exact hown (h.owner_of_full hfull hhas hslab)
    refine ⟨has_freeSlab.2 ⟨hne, hhas⟩, hfits.congr ?_⟩
    rw [slabAt_freeSlab, update_of_ne hne]
  · obtain ⟨hne, hhas⟩ := has_freeSlab.1 hb
    rw [if_neg (hother b hne)]
    exact h.used_iff b hhas
  · rw [slabAt_freeSlab, update_of_ne (has_freeSlab.1 hb.1).1]
    exact h.sized b ((hinUse b).1 hb)
  · refine h.reserved_congr hregistry hinUse fun b hb => ?_
    rw [slabAt_freeSlab, update_of_ne (has_freeSlab.1 ((hinUse b).2 hb).1).1]

/-! ## A new slab -/

/-- The blocks of a new slab, in the order of its free list. -/
def newBlocks (a : SlabAddr) : ℕ → List Block
  | 0 => []
  | n + 1 => ⟨a, n⟩ :: newBlocks a n

theorem length_newBlocks (n : ℕ) : (newBlocks a n).length = n := by
  induction n with
  | zero => rfl
  | succ n ih => rw [newBlocks, length_cons, ih]

/-- The owners once the first `n` blocks of the slab at `a` are on its free list. -/
def newOwner (owner : Block → Option (Place Tid)) (a : SlabAddr) (n : ℕ) (b : Block) :
    Option (Place Tid) :=
  if b.slab = a ∧ b.index < n then some (.free a) else owner b

/-- Which of the first `n + 1` blocks are not the last of them. -/
theorem below_succ_iff {b : Block} {n : ℕ} (hb : b ≠ ⟨a, n⟩) :
    b.slab = a ∧ b.index < n + 1 ↔ b.slab = a ∧ b.index < n := by
  refine and_congr_right fun hslab => ⟨fun hlt => ?_, fun hlt => by omega⟩
  have hne : b.index ≠ n := by
    rintro rfl
    exact hb (by rw [← hslab])
  omega

/-- The headers after the loop of `AllocateSlab`. -/
theorem header_carve (header : Block → BlockHeader) (n : ℕ) (b : Block) :
    ((carve a header n).1 b).magic =
        (if b.slab = a ∧ b.index < n then .free else (header b).magic) ∧
      (b.slab ≠ a → (carve a header n).1 b = header b) := by
  induction n with
  | zero => simp [carve]
  | succ n ih =>
    rw [carve]
    by_cases hb : b = ⟨a, n⟩
    · subst hb
      simp
    · dsimp only
      rw [update_of_ne hb, ih.1, if_congr (below_succ_iff hb) rfl rfl]
      exact ⟨rfl, ih.2⟩

/-- The loop of `AllocateSlab` puts the blocks of a new slab on its free list. -/
theorem chains_carve {header : Block → BlockHeader} {head : Place Tid → Option Block}
    (h : Chains (fun b => (header b).next) head lists owner) (ha : ∀ b, b.slab = a → owner b = none)
    (hhead : head (.free a) = none) (n : ℕ) :
    Chains (fun b => ((carve a header n).1 b).next) (update head (.free a) (carve a header n).2)
      (update lists (.free a) (newBlocks a n)) (newOwner owner a n) := by
  induction n with
  | zero =>
    have hlists : update lists (.free a) (newBlocks a 0) = lists := by
      rw [newBlocks, ← h.nil_of_head hhead, update_eq_self]
    have howner : newOwner owner a 0 = owner := by
      funext b
      simp [newOwner]
    rw [hlists, howner, carve, ← hhead, update_eq_self]
    exact h
  | succ n ih =>
    have hown : newOwner owner a n ⟨a, n⟩ = none := by
      simpa [newOwner] using ha ⟨a, n⟩ rfl
    have hpush := ih.push hown (.free a)
    rw [update_idem, update_idem, update_self, update_self]
      at hpush
    have hnext : (fun b => ((carve a header (n + 1)).1 b).next)
        = update (fun b => ((carve a header n).1 b).next) ⟨a, n⟩ (carve a header n).2 := by
      funext b
      by_cases hb : b = ⟨a, n⟩ <;> simp [carve, hb]
    have howner : newOwner owner a (n + 1)
        = update (newOwner owner a n) ⟨a, n⟩ (some (.free a)) := by
      funext b
      by_cases hb : b = ⟨a, n⟩
      · subst hb
        simp [newOwner]
      · rw [update_of_ne hb, newOwner, newOwner, if_congr (below_succ_iff hb) rfl rfl]
    rw [hnext, howner]
    exact hpush

section PlaceSlab

variable {capacity stride count : ℕ}

/-- The slab that `AllocateSlab` makes. -/
def newSlab (header : Block → BlockHeader) (a : SlabAddr) (capacity stride count k : ℕ) :
    PoolSlab where
  free := (carve a header count).2
  capacity := capacity
  stride := stride
  count := count
  freeCount := count
  bytes := poolSlabSize + count * stride
  classIndex := k

theorem slabAt_placeSlab : (c.placeSlab a capacity stride count k).slabAt
    = update c.slabAt a (newSlab c.header a capacity stride count k) := by
  funext a'
  by_cases ha : a' = a <;> simp [slabAt, placeSlab, newSlab, ha]

theorem isSome_placeSlab :
    ((c.placeSlab a capacity stride count k).slab a').isSome ↔ a' = a ∨ (c.slab a').isSome := by
  by_cases ha : a' = a <;> simp [placeSlab, ha]

section

variable (ha : c.slab a = none) (hshaped : (newSlab c.header a capacity stride count k).Shaped)
  (hbudget : c.stats.committedBytes + (poolSlabSize + count * stride) ≤ c.options.maxCommittedBytes)
include ha hshaped hbudget

theorem Registry.placeSlab (h : Registry c) : Registry (c.placeSlab a capacity stride count k) := by
  set c' := c.placeSlab a capacity stride count k
  have hnot : ∀ k', a ∉ c.slabs k' := fun k' hmem => by
    have := ((h.mem_slabs k' a).1 hmem).1
    simp [ha] at this
  have hmem : ∀ k' a', a' ∈ c'.slabs k' ↔ (c'.slab a').isSome ∧ (c'.slabAt a').classIndex = k' := by
    intro k' a'
    rw [isSome_placeSlab, slabAt_placeSlab]
    by_cases haa : a' = a
    · subst haa
      by_cases hk : k' = k
      · subst hk
        simp [c', placeSlab, newSlab]
      · simp [c', placeSlab, newSlab, hk, Ne.symm hk, hnot]
    · by_cases hk : k' = k <;> simp [c', CentralCache.placeSlab, haa, hk, h.mem_slabs]
  have hshapes : ∀ a', (c'.slab a').isSome → (c'.slabAt a').Shaped := by
    intro a' ha'
    rw [slabAt_placeSlab]
    by_cases haa : a' = a
    · subst haa
      simpa using hshaped
    · rw [update_of_ne haa]
      exact h.shaped a' ((isSome_placeSlab.1 ha').resolve_left haa)
  have hlive : c'.live = insert a c.live := by
    ext a'
    rw [mem_insert, h.mem_live, mem_live_of hmem hshapes, isSome_placeSlab]
  refine ⟨fun k' => ?_, hmem, hshapes, ?_, hbudget⟩
  · by_cases hk : k' = k
    · subst hk
      simpa [c', placeSlab] using ⟨hnot k', h.nodup k'⟩
    · simpa [c', CentralCache.placeSlab, hk] using h.nodup k'
  · have hnotLive : a ∉ c.live := by
      rw [h.mem_live, ha]
      simp
    have hold : ∀ a' ∈ c.live, (update c.slabAt a
        (newSlab c.header a capacity stride count k) a').bytes = (c.slabAt a').bytes := by
      intro a' ha'
      rw [update_of_ne (ne_of_mem_of_not_mem ha' hnotLive)]
    rw [hlive, sum_insert hnotLive, slabAt_placeSlab, update_self, sum_congr rfl hold]
    change c.stats.committedBytes + (poolSlabSize + count * stride) = _
    rw [h.committed, add_comm]
    rfl

/-- A new slab, with its blocks on its free list. -/
theorem Layout.placeSlab (h : Layout c cache lists owner) :
    Sound (c.placeSlab a capacity stride count k) cache := by
  set c' := c.placeSlab a capacity stride count k
  have hregistry := h.toRegistry.placeSlab ha hshaped hbudget
  have hne : ∀ b, c.Has b → b.slab ≠ a := fun b hb hslab => by
    have := hb.isSome
    rw [hslab, ha] at this
    simp at this
  have hunowned : ∀ b, b.slab = a → owner b = none := fun b hslab => by
    cases hb : owner b with
    | none => rfl
    | some p => exact absurd hslab (hne b (h.placed b p hb).1)
  have hheads : heads c' cache
      = update (heads c cache) (.free a) (carve a c.header count).2 :=
    heads_of_slabAt slabAt_placeSlab cache
  have hchains := chains_carve h.chains hunowned
    (show heads c cache (.free a) = none by rw [heads, slabAt_of_isNone ha]; rfl) count
  rw [← hheads] at hchains
  -- a block of an old slab is as it was
  have hslabAt : ∀ b : Block, b.slab ≠ a → c'.slabAt b.slab = c.slabAt b.slab := by
    intro b hb
    rw [slabAt_placeSlab, update_of_ne hb]
  have hhas : ∀ b, b.slab ≠ a → (c'.Has b ↔ c.Has b) := by
    intro b hb
    rw [Has, Has, hslabAt b hb]
  have hlt : ∀ b, c'.Has b → b.slab = a → b.index < count := by
    intro b hb hslab
    rwa [Has, slabAt_placeSlab, hslab, update_self] at hb
  have hmagic : ∀ b, c'.Has b →
      ((c'.header b).magic = .used ↔ b.slab ≠ a ∧ (c.header b).magic = .used) := by
    intro b hb
    change ((carve a c.header count).1 b).magic = .used ↔ _
    rw [(header_carve c.header count b).1]
    by_cases hslab : b.slab = a
    · simp [hslab, hlt b hb hslab]
    · simp [hslab]
  have hinUse : ∀ b, c'.InUse b ↔ c.InUse b := by
    intro b
    constructor
    · rintro ⟨hb, hm⟩
      obtain ⟨hslab, hm⟩ := (hmagic b hb).1 hm
      exact ⟨(hhas b hslab).1 hb, hm⟩
    · rintro ⟨hb, hm⟩
      have hb' := (hhas b (hne b hb)).2 hb
      exact ⟨hb', (hmagic b hb').2 ⟨hne b hb, hm⟩⟩
  refine ⟨_, _, hregistry, hchains, fun a' => ?_, fun b p hb => ?_, fun b hb => ?_, fun b hb => ?_,
    ?_⟩
  · rw [slabAt_placeSlab]
    by_cases haa : a' = a
    · subst haa
      simp [newSlab, length_newBlocks]
    · simpa [haa] using h.freeCount a'
  · rw [newOwner] at hb
    split_ifs at hb with hnew
    · cases hb
      refine ⟨?_, hnew.1⟩
      rw [Has, slabAt_placeSlab, hnew.1, update_self]
      exact hnew.2
    · obtain ⟨hb', hfits⟩ := h.placed b p hb
      exact ⟨(hhas b (hne b hb')).2 hb', hfits.congr (hslabAt b (hne b hb'))⟩
  · rw [hmagic b hb, newOwner]
    by_cases hslab : b.slab = a
    · simp [hslab, hlt b hb hslab]
    · simpa [hslab] using h.used_iff b ((hhas b hslab).1 hb)
  · have hb' := (hinUse b).1 hb
    have hsized := h.sized b hb'
    rw [hslabAt b (hne b hb'.1)]
    change ((carve a c.header count).1 b).requestSize ≤ _
    rwa [(header_carve c.header count b).2 (hne b hb'.1)]
  · exact h.reserved_congr hregistry hinUse fun b hb => hslabAt b (hne b hb.1)

end

end PlaceSlab

/-! ## Trimming -/

/-- `c'` is `c` without some slabs whose blocks were all on their free list. -/
inductive Trims : CentralCache → CentralCache → Prop
  | done (c : CentralCache) : Trims c c
  | free {c c' : CentralCache} {k : ℕ} {a : SlabAddr} (ha : a ∈ c.slabs k)
    (hfull : (c.slabAt a).freeCount = (c.slabAt a).count) (h : Trims (c.freeSlab k a) c') :
    Trims c c'

namespace Trims

section

variable (h : Trims c c')
include h

theorem trans {c'' : CentralCache} (h' : Trims c' c'') : Trims c c'' := by
  induction h with
  | done => exact h'
  | free ha hfull _ ih => exact free ha hfull (ih h')

theorem nodup (hc : ∀ k, (c.slabs k).Nodup) (k : ℕ) : (c'.slabs k).Nodup := by
  induction h with
  | done => exact hc k
  | @free c c' k' a ha hfull h ih =>
    refine ih fun k => ?_
    by_cases hk : k = k'
    · subst hk
      simpa [freeSlab] using (hc k).erase a
    · simpa [freeSlab, hk] using hc k

theorem sound (hc : Sound c cache) : Sound c' cache := by
  induction h with
  | done => exact hc
  | free ha hfull _ ih =>
    obtain ⟨lists, owner, hl⟩ := hc
    exact ih (hl.freeSlab ha hfull)

theorem options : c'.options = c.options := by
  induction h with
  | done => rfl
  | free _ _ _ ih => exact ih

/-- Only a slab whose blocks are all on its free list is freed. -/
theorem full_of_freed (ha : (c.slab a).isSome) (hfreed : c'.slab a = none) :
    (c.slabAt a).freeCount = (c.slabAt a).count := by
  induction h with
  | done => simp [hfreed] at ha
  | @free c c' k a' ha' hfull h ih =>
    by_cases haa : a = a'
    · subst haa
      exact hfull
    · have := ih (isSome_freeSlab.2 ⟨haa, ha⟩) hfreed
      rwa [slabAt_freeSlab, update_of_ne haa] at this

end

end Trims

theorem trimWalk_trims (all : Bool) (k : ℕ) (rest : List SlabAddr)
    (hnodup : rest.Nodup) (hmem : ∀ a ∈ rest, a ∈ c.slabs k) :
    Trims c (trimWalk all k rest c).1 := by
  induction rest generalizing c with
  | nil => exact .done c
  | cons a rest ih =>
    rw [nodup_cons] at hnodup
    rw [trimWalk]
    split_ifs with hstop hfull
    · exact .done c
    · refine .free (hmem a mem_cons_self) hfull (ih hnodup.2 fun a' ha' => ?_)
      have hne : a' ≠ a := ne_of_mem_of_not_mem ha' hnodup.1
      simpa [freeSlab] using
        (mem_erase_of_ne hne).2 (hmem a' (mem_cons_of_mem _ ha'))
    · exact ih hnodup.2 fun a' ha' => hmem a' (mem_cons_of_mem _ ha')

theorem trimClasses_trims (all : Bool) (n : ℕ)
    (hnodup : ∀ k, (c.slabs k).Nodup) : Trims c (trimClasses all n c) := by
  induction n generalizing c with
  | zero => exact .done c
  | succ n ih =>
    have hwalk := trimWalk_trims all n (c.slabs n) (hnodup n) fun _ ha => ha
    rw [trimClasses]
    split_ifs
    · exact hwalk
    · exact hwalk.trans (ih (hwalk.nodup hnodup))

omit [DecidableEq Tid] in
/-- `TrimLocked` frees slabs whose blocks are all on their free list. -/
theorem Sound.trims (h : Sound c cache) (all : Bool) : Trims c (c.trimLocked all) := by
  obtain ⟨lists, owner, hl⟩ := h
  exact trimClasses_trims all _ hl.nodup

theorem Sound.trimLocked (h : Sound c cache) (all : Bool) : Sound (c.trimLocked all) cache :=
  (h.trims all).sound h

/-! ## Allocating a slab -/

theorem strideOf_pos (capacity : ℕ) : 0 < strideOf capacity := by
  rw [strideOf, blockHeaderSize, alignment]
  omega

theorem allocateWithin_cases (c : CentralCache) (capacity count k : ℕ) (malloc : Option SlabAddr) :
    c.allocateWithin capacity (strideOf capacity) count k malloc = (c, none) ∨
      ∃ a n, c.allocateWithin capacity (strideOf capacity) count k malloc
          = (c.placeSlab a capacity (strideOf capacity) n k, some a) ∧
        c.slab a = none ∧ n ≤ count ∧ (0 < count → 0 < n) ∧
        c.stats.committedBytes + (poolSlabSize + n * strideOf capacity)
          ≤ c.options.maxCommittedBytes := by
  rw [allocateWithin]
  split_ifs with hroom
  · exact Or.inl rfl
  · cases hm : malloc.filter fun a => (c.slab a).isNone with
    | none => exact Or.inl rfl
    | some a =>
      refine Or.inr ⟨a, _, rfl, ?_, min_le_left _ _, fun hcount => ?_, ?_⟩
      · obtain ⟨_, hnone⟩ := Option.filter_eq_some_iff.1 hm
        simpa using hnone
      · refine lt_min hcount (Nat.div_pos ?_ (strideOf_pos capacity))
        omega
      · have hle : min count ((c.options.maxCommittedBytes - c.stats.committedBytes
            - poolSlabSize) / strideOf capacity) * strideOf capacity
            ≤ c.options.maxCommittedBytes - c.stats.committedBytes - poolSlabSize :=
          (Nat.mul_le_mul_right _ (min_le_right _ _)).trans (Nat.div_mul_le_self _ _)
        have hpos := strideOf_pos capacity
        omega

omit [DecidableEq Tid] in
/-- `AllocateSlab` trims or does not, and then makes a slab within the limit or none. -/
theorem allocateSlab_cases (h : Sound c cache) (capacity count k : ℕ) (malloc : Option SlabAddr) :
    ∃ c', Trims c c' ∧ (c.allocateSlab capacity count k malloc = (c', none) ∨
      ∃ a n, c.allocateSlab capacity count k malloc
          = (c'.placeSlab a capacity (strideOf capacity) n k, some a) ∧
        c'.slab a = none ∧ n ≤ count ∧ (0 < count → 0 < n) ∧
        c'.stats.committedBytes + (poolSlabSize + n * strideOf capacity)
          ≤ c'.options.maxCommittedBytes) := by
  rw [allocateSlab]
  split_ifs
  · exact ⟨c, .done c, Or.inl rfl⟩
  · exact ⟨c, .done c, Or.inl rfl⟩
  · exact ⟨_, h.trims true, allocateWithin_cases ..⟩
  · exact ⟨c, .done c, allocateWithin_cases ..⟩

end Packetia.Memory
