import Packetia.Memory.Layout

/-!
# Blocks between the lists

The rounds of the loops of `FetchBatch` and `ReleaseBatch`, and a block that goes into use and
back, keep the layout. From the rounds, the loops.
-/

namespace Packetia.Memory

open List Function CentralCache

variable {Tid : Type*} [DecidableEq Tid] {c : CentralCache} {cache : Tid × ℕ → Option Block}
  {lists : Place Tid → List Block} {owner : Block → Option (Place Tid)} {a : SlabAddr} {b : Block}
  {q : Tid × ℕ} {size : ℕ} {result : Option Block} {c' : CentralCache}

/-- There are lists of the blocks that make a layout. -/
def Sound (c : CentralCache) (cache : Tid × ℕ → Option Block) : Prop :=
  ∃ lists owner, Layout c cache lists owner

theorem heads_update_cache (c : CentralCache) (cache : Tid × ℕ → Option Block) (q : Tid × ℕ)
    (p : Option Block) : heads c (update cache q p) = update (heads c cache) (.cached q) p := by
  funext place
  cases place with
  | free a => rfl
  | cached q' =>
    by_cases hq : q' = q <;> simp [heads, hq]

/-- One slab changes, and with it one free list. -/
theorem heads_of_slabAt {slab : PoolSlab}
    (h : c'.slabAt = update c.slabAt a slab) (cache : Tid × ℕ → Option Block) :
    heads c' cache = update (heads c cache) (.free a) slab.free := by
  funext place
  cases place with
  | free a' =>
    by_cases ha : a' = a <;> simp [heads, h, ha]
  | cached q => rfl

theorem heads_modifySlab (h : (c.slab a).isSome) (f : PoolSlab → PoolSlab)
    (cache : Tid × ℕ → Option Block) :
    heads (c.modifySlab a f) cache = update (heads c cache) (.free a) (f (c.slabAt a)).free :=
  heads_of_slabAt (slabAt_modifySlab h f) cache

theorem next_modifyHeader (c : CentralCache) (b : Block) (f : BlockHeader → BlockHeader) :
    (fun b' => ((c.modifyHeader b f).header b').next)
      = update (fun b' => (c.header b').next) b (f (c.header b)).next := by
  funext b'
  by_cases hb : b' = b <;> simp [modifyHeader, hb]

theorem header_modifyHeader_of_ne {b' : Block} (hb : b' ≠ b) (f : BlockHeader → BlockHeader) :
    (c.modifyHeader b f).header b' = c.header b' :=
  update_of_ne hb ..

omit [DecidableEq Tid] in
theorem Layout.isSome_of_free (h : Layout c cache lists owner)
    (hfree : (c.slabAt a).free = some b) :
    owner b = some (.free a) ∧ c.Has b ∧ b.slab = a ∧ (c.slab a).isSome := by
  have hhead : heads c cache (.free a) = some b := hfree
  have hown := h.chains.owner_of_head hhead
  obtain ⟨hhas, hslab⟩ := h.placed b _ hown
  exact ⟨hown, hhas, hslab, hslab ▸ hhas.isSome⟩

/-! ## Fetching -/

/-- A round of the loop of `FetchBatch`, into the list `q`. -/
theorem Layout.takeBlock (h : Layout c (update cache q result) lists owner)
    (hfree : (c.slabAt a).free = some b) (hclass : (c.slabAt a).classIndex = q.2)
    (hq : q.2 < kNumSizeClasses) : Sound (c.takeBlock a b result) (update cache q (some b)) := by
  obtain ⟨hown, hhas, hslab, ha⟩ := h.isSome_of_free hfree
  have hs : SameSlabs c (c.takeBlock a b result) :=
    (sameSlabs_modifySlab ha rfl).trans (sameSlabs_modifyHeader ..)
  have hhead : heads c (update cache q result) (.free a) = some b := hfree
  have hchains := (h.chains.pop hhead).push (update_self ..) (.cached q)
  have hnext : (fun b' => ((c.takeBlock a b result).header b').next)
      = update (fun b' => (c.header b').next) b result := next_modifyHeader ..
  have hheads : heads (c.takeBlock a b result) (update cache q (some b))
      = update (update (heads c (update cache q result)) (.free a)
        (c.header b).next) (.cached q) (some b) := by
    have hfreeHead : heads (c.takeBlock a b result) cache
        = update (heads c cache) (.free a) (c.header b).next :=
      heads_modifySlab ha _ cache
    have hne : Place.cached q ≠ .free a := by simp
    rw [heads_update_cache, heads_update_cache, hfreeHead,
      update_comm hne result _ (heads c cache), update_idem]
  rw [update_idem, update_of_ne (by simp),
    show heads c (update cache q result) (.cached q) = result from
      update_self .., ← hnext, ← hheads] at hchains
  have hfits : (Place.cached q).Fits c b := ⟨by rw [hslab, hclass], hq⟩
  refine ⟨_, _, h.move hs hchains (fun a' => ?_) (fun b' => ?_) rfl hown rfl hfits⟩
  · have hslabAt : (c.takeBlock a b result).slabAt = update c.slabAt a
        { c.slabAt a with free := (c.header b).next, freeCount := (c.slabAt a).freeCount - 1 } :=
      slabAt_modifySlab ha _
    rw [hslabAt]
    by_cases haa : a' = a <;> simp [haa, h.freeCount]
  · by_cases hb : b' = b <;> simp [CentralCache.takeBlock, modifyHeader, modifySlab, hb]

/-- The loop of `FetchBatch`, into the list `q`. -/
theorem Sound.takeBlocks (hq : q.2 < kNumSizeClasses) (n : ℕ)
    (h : Sound c (update cache q result)) (hclass : (c.slabAt a).classIndex = q.2) :
    Sound (takeBlocks a n result c).1 (update cache q (takeBlocks a n result c).2) := by
  induction n generalizing c result with
  | zero => exact h
  | succ n ih =>
    rw [CentralCache.takeBlocks]
    cases hfree : (c.slabAt a).free with
    | none => exact h
    | some b =>
      obtain ⟨lists, owner, hl⟩ := h
      have ha := (hl.isSome_of_free hfree).2.2.2
      refine ih (hl.takeBlock hfree hclass hq) ?_
      exact ((sameSlabs_modifySlab ha rfl).trans (sameSlabs_modifyHeader ..)).classIndex a
        |>.trans hclass

/-! ## Releasing -/

section

variable (hb : (c.slab b.slab).isSome)
include hb

/-- A block that is on no list goes to the free list of its slab. -/
theorem chains_putFree {cache : Tid × ℕ → Option Block}
    (h : Chains (fun b => (c.header b).next) (heads c cache) lists owner) (hown : owner b = none) :
    Chains (fun b' => ((c.putFree b).header b').next) (heads (c.putFree b) cache)
      (update lists (.free b.slab) (b :: lists (.free b.slab)))
      (update owner b (some (.free b.slab))) := by
  have hnext : (fun b' => ((c.putFree b).header b').next)
      = update (fun b' => (c.header b').next) b (heads c cache (.free b.slab)) :=
    next_modifyHeader c b fun header => { header with next := (c.slabAt b.slab).free }
  have hheads : heads (c.putFree b) cache
      = update (heads c cache) (.free b.slab) (some b) :=
    heads_modifySlab hb _ cache
  rw [hnext, hheads]
  exact h.push hown _

theorem slabAt_putFree :
    (c.putFree b).slabAt = update c.slabAt b.slab
      { c.slabAt b.slab with free := some b, freeCount := (c.slabAt b.slab).freeCount + 1 } :=
  slabAt_modifySlab hb _

theorem sameSlabs_putFree : SameSlabs c (c.putFree b) :=
  (sameSlabs_modifyHeader b _).trans (sameSlabs_modifySlab (c := c.modifyHeader b _) hb rfl)

omit hb in
theorem header_putFree (b' : Block) :
    ((c.putFree b).header b').magic = (c.header b').magic ∧
      ((c.putFree b).header b').requestSize = (c.header b').requestSize := by
  by_cases hb : b' = b <;> simp [putFree, modifyHeader, modifySlab, hb]

omit hb in
/-- A round of the loop of `ReleaseBatch`, over the list `q`. -/
theorem Layout.putFree (h : Layout c (update cache q (some b)) lists owner) :
    ∃ lists' owner',
      Layout (c.putFree b) (update cache q (c.header b).next) lists' owner' ∧
        lists' (.cached q) = (lists (.cached q)).tail := by
  have hhead : heads c (update cache q (some b)) (.cached q) = some b := update_self ..
  have hown := h.chains.owner_of_head hhead
  have hhas := (h.placed b _ hown).1
  have hpop := h.chains.pop hhead
  rw [heads_update_cache, update_idem, ← heads_update_cache] at hpop
  have hchains := chains_putFree hhas.isSome hpop (update_self ..)
  rw [update_idem] at hchains
  have hfits : (Place.free b.slab : Place Tid).Fits c b := rfl
  refine ⟨_, _, h.move (sameSlabs_putFree hhas.isSome) hchains (fun a => ?_) header_putFree rfl
    hown rfl hfits, ?_⟩
  · rw [slabAt_putFree hhas.isSome]
    by_cases ha : a = b.slab <;> simp [ha, h.freeCount]
  · rw [update_of_ne (by simp), update_self]

omit hb in
/-- The loop of `ReleaseBatch`, over the list `q`. -/
theorem Layout.putBlocks (n : ℕ) {head : Option Block}
    {lists : Place Tid → List Block} {owner : Block → Option (Place Tid)}
    (h : Layout c (update cache q head) lists owner) (hn : (lists (.cached q)).length ≤ n) :
    Sound (putBlocks n head c) (update cache q none) := by
  induction n generalizing c head lists owner with
  | zero =>
    -- no block is left
    have hnil : lists (.cached q) = [] := length_eq_zero_iff.1 (Nat.le_zero.1 hn)
    have hchain := h.chains.chain (.cached q)
    rw [hnil] at hchain
    have hhead : head = none := by simpa [heads, IsChain] using hchain
    subst hhead
    exact ⟨lists, owner, h⟩
  | succ n ih =>
    cases head with
    | none => exact ⟨lists, owner, h⟩
    | some b =>
      obtain ⟨lists', owner', h', htail⟩ := h.putFree
      refine ih h' ?_
      rw [htail, length_tail]
      omega

omit hb in
/-- `ReleaseBatch` of the list `q`, before it trims. -/
theorem Sound.putBatch (h : Sound c cache) (q : Tid × ℕ) :
    Sound (c.putBatch (cache q)) (update cache q none) := by
  obtain ⟨lists, owner, hl⟩ := h
  rw [← update_eq_self q cache] at hl
  exact hl.putBlocks _ (hl.length_le _)

theorem sameSlabs_putBack : SameSlabs c (c.putBack b) :=
  have hs := (sameSlabs_modifyHeader b fun header =>
    { header with magic := .free, requestSize := 0 }).trans (sameSlabs_putFree hb)
  ⟨hs.slabs, hs.isSome, hs.fixed, hs.options, rfl⟩

theorem slabAt_putBack :
    (c.putBack b).slabAt = update c.slabAt b.slab
      { c.slabAt b.slab with free := some b, freeCount := (c.slabAt b.slab).freeCount + 1 } :=
  slabAt_putFree hb

end

/-- What `Release` does to a block in use, before it frees memory. -/
theorem Sound.putBack (h : Sound c cache) (hb : c.InUse b) : Sound (c.putBack b) cache := by
  obtain ⟨lists, owner, hl⟩ := h
  have hsome : (c.slab b.slab).isSome := Has.isSome hb.1
  let c₁ := c.modifyHeader b fun header => { header with magic := .free, requestSize := 0 }
  have hnext : (fun b' => (c₁.header b').next) = fun b' => (c.header b').next := by
    rw [next_modifyHeader]
    exact update_eq_self ..
  have hchains : Chains (fun b => (c₁.header b).next) (heads c₁ cache) lists owner := by
    rw [hnext]
    exact hl.chains
  have hfits : (Place.free b.slab : Place Tid).Fits c b := rfl
  refine ⟨_, _, hl.unuse (sameSlabs_putBack hsome)
    (chains_putFree (c := c₁) hsome hchains (hl.owner_of_inUse hb)) (fun a => ?_)
    (fun b' hbb => ?_) hb ?_ rfl rfl hfits⟩
  · rw [slabAt_putBack hsome]
    by_cases ha : a = b.slab <;> simpa [ha] using hl.freeCount a
  · have hheader : c₁.header b' = c.header b' := header_modifyHeader_of_ne hbb _
    exact hheader ▸ header_putFree (c := c₁) b'
  · exact (header_putFree (c := c₁) b).1.trans (by simp [c₁, modifyHeader])

/-! ## Going into use -/

/-- The headers after `Activate`. -/
theorem header_activate (b' : Block) :
    ((c.activate b size).header b').next = (c.header b').next ∧
      (b' ≠ b → (c.activate b size).header b' = c.header b') := by
  by_cases hb : b' = b <;> simp [activate, modifyHeader, hb]

theorem sameSlabs_activate (b : Block) (size : ℕ) : SameSlabs c (c.activate b size) :=
  ⟨rfl, fun _ => rfl, fun _ => rfl, rfl, rfl⟩

omit [DecidableEq Tid] in
/-- `Activate` of a block that has just left the list `p`: `c` is the state before, `c'` when it
    has left. -/
theorem Layout.activate {cache' : Tid × ℕ → Option Block}
    {lists' : Place Tid → List Block} {p : Place Tid} (h : Layout c cache lists owner)
    (hs : SameSlabs c c') (hreserved : c'.inUseReserved = c.inUseReserved)
    (hother : ∀ b', b' ≠ b → c'.header b' = c.header b') (hown : owner b = some p)
    (chains : Chains (fun b => (c'.header b).next) (heads c' cache') lists'
      (update owner b none)) (freeCount : ∀ a, (c'.slabAt a).freeCount = (lists' (.free a)).length)
    (hsize : size ≤ (c.slabAt b.slab).capacity) :
    Layout (c'.activate b size) cache' lists' (update owner b none) := by
  have hnext : (fun b' => ((c'.activate b size).header b').next)
      = fun b' => (c'.header b').next := funext fun b' => (header_activate b').1
  refine h.use (hs.trans (sameSlabs_activate b size)) (by rwa [hnext]) freeCount (fun b' hbb => ?_)
    ?_ ?_ (congrArg₂ (· + ·) hreserved (hs.stride b.slab)) hown rfl
  · rw [(header_activate b').2 hbb, hother b' hbb]
    exact ⟨rfl, rfl⟩
  · simp [CentralCache.activate, modifyHeader]
  · simpa [CentralCache.activate, modifyHeader] using hsize

/-- The first block of the list `q` leaves it and is activated. -/
theorem Sound.takeHead (h : Sound c cache) (hq : cache q = some b)
    (hsize : size ≤ getClassSize q.2) :
    Sound ((c.modifyHeader b fun header => { header with next := none }).activate b size)
      (update cache q (c.header b).next) := by
  obtain ⟨lists, owner, hl⟩ := h
  have hhead : heads c cache (.cached q) = some b := hq
  have hown := hl.chains.owner_of_head hhead
  obtain ⟨hhas, hclass, hlt⟩ := hl.placed b _ hown
  have hcapacity := (hl.shaped b.slab hhas.isSome).capacity_eq (by rwa [hclass])
  have hchains := (hl.chains.pop hhead).setNext (update_self ..) none
  rw [← heads_update_cache] at hchains
  refine ⟨Function.update lists (.cached q) (lists (.cached q)).tail, _,
    hl.activate (sameSlabs_modifyHeader ..) rfl (fun b' hbb => header_modifyHeader_of_ne hbb _)
      hown ?_ (fun a => ?_) ?_⟩
  · rw [next_modifyHeader]
    exact hchains
  · exact hl.freeCount a
  · rw [hcapacity, hclass]
    exact hsize

/-- The only block of a slab leaves its free list and is activated. -/
theorem Sound.takeOnly (h : Sound c cache) (hfree : (c.slabAt a).free = some b)
    (hcount : (c.slabAt a).freeCount = 1) (hsize : size ≤ (c.slabAt a).capacity) :
    Sound ((c.modifySlab a fun slab => { slab with free := none, freeCount := 0 }).activate b size)
      cache := by
  obtain ⟨lists, owner, hl⟩ := h
  have hhead : heads c cache (.free a) = some b := hfree
  obtain ⟨hown, hhas, hslab, ha⟩ := hl.isSome_of_free hfree
  obtain ⟨t, ht, hchain⟩ := hl.chains.cons_of_head hhead
  have hnil : t = [] := by
    have := hl.freeCount a
    rw [ht, hcount, length_cons] at this
    exact length_eq_zero_iff.1 (by omega)
  subst hnil
  have hnext : (c.header b).next = none := hchain
  have hpop := hl.chains.pop hhead
  simp only [hnext] at hpop
  refine ⟨Function.update lists (.free a) (lists (.free a)).tail, _,
    hl.activate (sameSlabs_modifySlab ha rfl) rfl (fun _ _ => rfl) hown ?_ (fun a' => ?_)
      (by rwa [hslab])⟩
  · rw [heads_modifySlab ha]
    exact hpop
  · rw [slabAt_modifySlab ha]
    by_cases haa : a' = a
    · subst haa
      simp [ht]
    · simpa [haa] using hl.freeCount a'

end Packetia.Memory
