import Packetia.Memory.Calls

/-!
# Every block has one owner

Whatever the threads do, every block of every slab is on the free list of its slab, on one list
of one thread, or in use, and the counters of the central cache are right. So no block is
given out twice, and the memory stays within the limit (`blocks_accounted`).

The calls of the central cache keep the layout (`Sound`). A thread that is in a call keeps in
addition what it has found in its own lists so far (`ThreadCache.Ready`), which other threads do
not touch; a step of the system keeps both (`Consistent.step`).
-/

namespace Packetia.Memory

open Function CentralCache

variable {Tid : Type*} [DecidableEq Tid]

/-! ## The threads -/

/-- What a thread that is in a call has found in its lists so far. -/
def ThreadCache.Ready (thread : ThreadCache) : Prop :=
  match thread.pc with
  | .fetch size | .trimming size | .refetch size =>
    size ≤ kMaxPooledObjectSize ∧ thread.lists (getSizeClassIndex size) = none
  | .flushing index (.refill size) =>
    size ≤ kMaxPooledObjectSize ∧ ∀ k < index, thread.lists k = none
  | .take size => size ≤ kMaxPooledObjectSize
  | _ => True

namespace System

variable {s : System Tid} {t : Tid} {pc : Pc} {c : CentralCache} {a : SlabAddr}

/-- The lists of all threads. -/
def caches (s : System Tid) (q : Tid × ℕ) : Option Block := (s.thread q.1).lists q.2

theorem caches_goto (s : System Tid) (t : Tid) (pc : Pc) : (s.goto t pc).caches = s.caches := by
  funext q
  by_cases hq : q.1 = t <;> simp [caches, goto, hq]

theorem caches_setList (s : System Tid) (t : Tid) (k : ℕ) (head : Option Block) :
    (s.setList t k head).caches = update s.caches (t, k) head := by
  funext ⟨t', k'⟩
  by_cases ht : t' = t
  · by_cases hk : k' = k <;> simp [caches, setList, ht, hk]
  · simp [caches, setList, ht]

/-- The invariant of the system. -/
structure Consistent (s : System Tid) : Prop where
  sound : Sound s.central s.caches
  ready : ∀ t, (s.thread t).Ready

omit [DecidableEq Tid] in
theorem consistent_init (options : MemoryPoolOptions) : (init options : System Tid).Consistent where
  sound := by
    have hlive : (init options : System Tid).central.live = ∅ := by
      ext a
      simp [init, live]
    have hhas : ∀ b, ¬(init options : System Tid).central.Has b := fun b hb =>
      absurd hb (Nat.not_lt_zero _)
    refine ⟨fun _ => [], fun _ => none, ⟨fun _ => List.nodup_nil, fun k a => ?_, fun a ha => ?_, ?_,
      Nat.zero_le _⟩, ⟨fun p => ?_, fun _ => List.nodup_nil, by simp⟩, fun _ => rfl, by simp,
      fun b hb => absurd hb (hhas b), fun b hb => absurd hb.1 (hhas b), ?_⟩
    · simp [init]
    · simp [init] at ha
    · rw [hlive]
      rfl
    · cases p <;> rfl
    · rw [usedBlocks, blocks, hlive]
      rfl
  ready _ := trivial

section

variable (h : s.Consistent)
include h

/-- A step of the thread `t`, from `s` to `s'`, after which it is at `pc`. -/
theorem Consistent.goto (s' : System Tid) (hsound : Sound s'.central s'.caches)
    (hready : { s'.thread t with pc : ThreadCache }.Ready := by trivial)
    (hother : ∀ t', t' ≠ t → s'.thread t' = s.thread t' := by exact fun _ _ => rfl) :
    (s'.goto t pc).Consistent where
  sound := by
    rw [caches_goto]
    exact hsound
  ready t' := by
    by_cases ht : t' = t
    · subst ht
      simpa [System.goto] using hready
    · simpa [System.goto, ht, hother t' ht] using h.ready t'

/-- A call begins. -/
theorem Consistent.call (t : Tid) (op : Op) (malloc : Option SlabAddr) :
    (s.call t op malloc).Consistent := by
  cases op with
  | tryAllocate size =>
    simp only [System.call]
    split_ifs with hzero hlarge hlist
    · exact h.goto s h.sound
    · exact h.goto s h.sound
    · exact h.goto s h.sound (not_lt.1 hlarge)
    · exact h.goto s h.sound ⟨not_lt.1 hlarge, by simpa using hlist⟩
  | allocateLarge size =>
    have hsound := h.sound.allocateLarge size malloc
    exact h.goto (s.setCentral _) hsound
  | release b =>
    simp only [System.call]
    split_ifs with hb
    · exact h.goto (s.setCentral _) (h.sound.release hb)
    · exact h
  | flush => exact h.goto s h.sound
  | trim =>
    exact h.goto (s.setCentral _) (h.sound.trimLocked true)
  | setLimits options =>
    exact h.goto (s.setCentral _) (h.sound.setLimits options)

/-- `FetchBatch` into a list that is empty. -/
theorem sound_fetchInto {size : ℕ} (hsize : size ≤ kMaxPooledObjectSize)
    (hlist : (s.thread t).lists (getSizeClassIndex size) = none) (count : ℕ)
    (malloc : Option SlabAddr) :
    Sound (s.fetchInto t size count malloc).central (s.fetchInto t size count malloc).caches := by
  have hfetch := h.sound.fetchBatch (q := (t, getSizeClassIndex size)) hlist
    (getSizeClassIndex_spec hsize).1 count malloc
  rw [fetchInto, caches_setList]
  exact hfetch

omit h in
theorem thread_setList_of_ne {t' : Tid} (ht : t' ≠ t) (k : ℕ) (head : Option Block) :
    (s.setList t k head).thread t' = s.thread t' :=
  update_of_ne ht ..

/-- A list in `Flush`. -/
theorem sound_flushList (t : Tid) (k : ℕ) :
    Sound (s.flushList t k).central (s.flushList t k).caches := by
  rw [flushList]
  cases hlist : (s.thread t).lists k with
  | none => exact h.sound
  | some b =>
    have hput := h.sound.putBatch (t, k)
    rw [show s.caches (t, k) = some b from hlist] at hput
    rw [caches_setList]
    exact hput.trimLocked false

omit h in
theorem thread_flushList_of_ne {t' : Tid} (ht : t' ≠ t) (k : ℕ) :
    (s.flushList t k).thread t' = s.thread t' := by
  rw [flushList]
  cases (s.thread t).lists k with
  | none => rfl
  | some b => exact thread_setList_of_ne ht ..

omit h in
/-- The lists of a thread once one of them has been flushed. -/
theorem lists_flushList (s : System Tid) (t : Tid) (k : ℕ) :
    ((s.flushList t k).thread t).lists = update (s.thread t).lists k none := by
  rw [flushList]
  cases hlist : (s.thread t).lists k with
  | none =>
    have hself := update_eq_self k (s.thread t).lists
    rw [hlist] at hself
    exact hself.symm
  | some b => simp [setList, setCentral]

/-- A thread goes on in its call. -/
theorem Consistent.resume (t : Tid) (malloc : Option SlabAddr) :
    (s.resume t malloc).Consistent := by
  have hready := h.ready t
  rw [ThreadCache.Ready] at hready
  rw [System.resume]
  cases hpc : (s.thread t).pc with
  | idle last => exact h
  | fetch size =>
    simp only [hpc] at hready
    have hsound := sound_fetchInto h hready.1 hready.2
      (getBatchCount (getSizeClassIndex size)) malloc
    dsimp only
    split_ifs
    · exact h.goto _ hsound hready.1 fun _ ht => thread_setList_of_ne ht ..
    · exact h.goto _ hsound ⟨hready.1, fun _ hk => absurd hk (Nat.not_lt_zero _)⟩
        fun _ ht => thread_setList_of_ne ht ..
  | flushing index after =>
    simp only [hpc] at hready
    dsimp only
    split_ifs with hindex
    · refine h.goto _ (sound_flushList h t index) ?_ fun _ ht => thread_flushList_of_ne ht index
      cases after with
      | done | large size => trivial
      | refill size =>
        refine ⟨hready.1, fun k hk => ?_⟩
        rw [lists_flushList]
        rcases Nat.lt_succ_iff_lt_or_eq.1 hk with hlt | rfl
        · rw [update_of_ne hlt.ne, hready.2 k hlt]
        · exact update_self ..
    · cases after with
      | done | large size => exact h.goto s h.sound
      | refill size =>
        have hlt := (getSizeClassIndex_spec hready.1).1
        exact h.goto s h.sound
          ⟨hready.1, hready.2 _ (hlt.trans_le (not_lt.1 hindex))⟩
  | trimming size =>
    simp only [hpc] at hready
    exact h.goto (s.setCentral _) (h.sound.trimLocked true) hready
  | refetch size =>
    simp only [hpc] at hready
    have hsound := sound_fetchInto h hready.1 hready.2 1 malloc
    exact h.goto _ hsound hready.1 fun _ ht => thread_setList_of_ne ht ..
  | take size =>
    simp only [hpc] at hready
    dsimp only
    cases hlist : (s.thread t).lists (getSizeClassIndex size) with
    | none => exact h.goto s h.sound
    | some b =>
      have htake := h.sound.takeHead (q := (t, getSizeClassIndex size)) hlist
        (getSizeClassIndex_spec hready).2
      rw [← caches_setList] at htake
      exact h.goto ((s.setList t _ _).setCentral _) htake trivial
        fun _ ht => thread_setList_of_ne ht ..
  | large size =>
    have hsound := h.sound.allocateLarge size malloc
    dsimp only
    cases (s.central.allocateLarge size malloc).2 with
    | none | some b => exact h.goto (s.setCentral _) hsound
  | failed => exact h.goto (s.setCentral _) h.sound.recordFailure

theorem Consistent.step (m : Move Tid) : (s.step m).Consistent := by
  cases m with
  | call t op malloc =>
    rw [System.step]
    split_ifs
    · exact h.call t op malloc
    · exact h
  | run t malloc => exact h.resume t malloc

end

/-- The invariant holds whatever the threads do. -/
theorem consistent_after (options : MemoryPoolOptions) (moves : List (Move Tid)) :
    (after options moves).Consistent :=
  run_induction (P := fun _ => Consistent) (consistent_init options) (fun _ m h => h.step m)
    moves

/-! ## What the invariant says -/

/-- Who has a block. -/
inductive Holder (Tid : Type*)
  | freeList
  | cache (t : Tid) (k : ℕ)
  | user

/-- The holder has the block `b`; `free` are the free lists of the slabs, `cached` the lists of
    the threads. -/
def Holds (s : System Tid) (free : SlabAddr → List Block) (cached : Tid → ℕ → List Block)
    (b : Block) : Holder Tid → Prop
  | .freeList => b ∈ free b.slab
  | .cache t k => b ∈ cached t k
  | .user => (s.central.header b).magic = .used

/-- Every block is accounted for: `free` and `cached` are what the pointers lead to, and the
    counters are right. -/
structure Accounted (s : System Tid) (free : SlabAddr → List Block)
    (cached : Tid → ℕ → List Block) : Prop where
  free_chain : ∀ a, IsChain (fun b => (s.central.header b).next) (s.central.slabAt a).free (free a)
  cached_chain : ∀ t k,
    IsChain (fun b => (s.central.header b).next) ((s.thread t).lists k) (cached t k)
  free_nodup : ∀ a, (free a).Nodup
  cached_nodup : ∀ t k, (cached t k).Nodup
  /-- There is nothing else on the lists. -/
  free_mem : ∀ a, ∀ b ∈ free a, s.central.Has b ∧ b.slab = a
  cached_mem : ∀ t k, ∀ b ∈ cached t k, s.central.Has b
  one_holder : ∀ b, s.central.Has b → ∃! holder, s.Holds free cached b holder
  freeCount_eq : ∀ a, (s.central.slabAt a).freeCount = (free a).length
  mem_live : ∀ a, a ∈ s.central.live ↔ (s.central.slab a).isSome
  committed_eq : s.central.stats.committedBytes = ∑ a ∈ s.central.live, (s.central.slabAt a).bytes
  committed_le : s.central.stats.committedBytes ≤ s.central.options.maxCommittedBytes
  mem_usedBlocks : ∀ b, b ∈ s.central.usedBlocks ↔ s.central.InUse b
  reserved_eq : s.central.inUseReserved
    = ∑ b ∈ s.central.usedBlocks, (s.central.slabAt b.slab).stride
  reserved_le : s.central.inUseReserved ≤ s.central.stats.committedBytes
  size_le : ∀ b, s.central.InUse b →
    (s.central.header b).requestSize ≤ (s.central.slabAt b.slab).capacity

/-- The states in which a step from `s` may trim: as it is (`Trim`, `SetLimits` and
    `AllocateSlab`), or when `ReleaseBatch` or `Release` has put back what it was given. -/
inductive TrimsAt (s : System Tid) : CentralCache → Prop
  | now : TrimsAt s s.central
  | releaseBatch (t : Tid) (k : ℕ) : TrimsAt s (s.central.putBatch ((s.thread t).lists k))
  | release {b : Block} (hb : s.central.InUse b) : TrimsAt s (s.central.putBack b)

/-- In the move `m`, a call of the thread `t` returns the block `b`. -/
def Returns (s : System Tid) (m : Move Tid) (t : Tid) (b : Block) : Prop :=
  ((s.step m).thread t).pc = .idle (.block (some b)) ∧
    ((¬s.isIdle t ∧ ∃ malloc, m = .run t malloc) ∨
      (s.isIdle t ∧ ∃ size malloc, m = .call t (.allocateLarge size) malloc))

/-- The owner of the block `b`, when the holder has it. -/
def Holder.owner (b : Block) : Holder Tid → Option (Place Tid)
  | .freeList => some (.free b.slab)
  | .cache t k => some (.cached (t, k))
  | .user => none

omit [DecidableEq Tid] in
theorem Holder.owner_injective (b : Block) :
    Function.Injective (Holder.owner b : Holder Tid → Option (Place Tid)) := by
  intro holder holder' h
  cases holder <;> cases holder' <;> simp_all [Holder.owner]

section

variable (h : s.Consistent)
include h

omit [DecidableEq Tid] in
theorem Consistent.accounted : ∃ free cached, s.Accounted free cached := by
  obtain ⟨lists, owner, hl⟩ := h.sound
  refine ⟨fun a => lists (.free a), fun t k => lists (.cached (t, k)),
    fun a => hl.chains.chain (.free a), fun t k => hl.chains.chain (.cached (t, k)),
    fun a => hl.chains.nodup _, fun t k => hl.chains.nodup _,
    fun a b hb => hl.placed b _ ((hl.chains.mem_iff _ b).1 hb),
    fun t k b hb => (hl.placed b _ ((hl.chains.mem_iff _ b).1 hb)).1, fun b hb => ?_, hl.freeCount,
    fun a => hl.mem_live, hl.committed, hl.budget, fun b => hl.mem_usedBlocks, hl.reserved,
    hl.reserved_le, hl.sized⟩
  -- a holder has the block when the block's owner says so
  have hiff : ∀ holder, s.Holds (fun a => lists (.free a)) (fun t k => lists (.cached (t, k))) b
      holder ↔ owner b = holder.owner b := by
    intro holder
    cases holder with
    | freeList | cache t k => exact hl.chains.mem_iff _ b
    | user => exact hl.used_iff b hb
  obtain ⟨holder, hholder⟩ : ∃ holder : Holder Tid, owner b = holder.owner b := by
    cases howner : owner b with
    | none => exact ⟨.user, rfl⟩
    | some p =>
      cases p with
      | free a =>
        obtain rfl : b.slab = a := (hl.placed b _ howner).2
        exact ⟨.freeList, rfl⟩
      | cached q => exact ⟨.cache q.1 q.2, rfl⟩
  refine ⟨holder, (hiff holder).2 hholder, fun holder' hholder' => ?_⟩
  exact Holder.owner_injective b (((hiff holder').1 hholder').symm.trans hholder)

/-- Trimming frees slabs all of whose blocks are on their free list. -/
theorem Consistent.full_of_trimmed (hc : s.TrimsAt c) {all : Bool} (ha : (c.slab a).isSome)
    (hfreed : (c.trimLocked all).slab a = none) :
    ∃ l, IsChain (fun b => (c.header b).next) (c.slabAt a).free l ∧ l.Nodup ∧
      ∀ b, b ∈ l ↔ c.Has b ∧ b.slab = a := by
  obtain ⟨cache, hsound⟩ : ∃ cache : Tid × ℕ → Option Block, Sound c cache := by
    cases hc with
    | now => exact ⟨_, h.sound⟩
    | releaseBatch t k => exact ⟨_, h.sound.putBatch (t, k)⟩
    | release hb => exact ⟨_, h.sound.putBack hb⟩
  have hfull := (hsound.trims all).full_of_freed ha hfreed
  obtain ⟨lists, owner, hl⟩ := hsound
  refine ⟨lists (.free a), hl.chains.chain (.free a), hl.chains.nodup _, fun b => ?_⟩
  rw [hl.chains.mem_iff]
  exact ⟨fun hb => hl.placed b _ hb, fun ⟨hb, hslab⟩ => hl.owner_of_full hfull hb hslab⟩

omit h in
theorem pc_goto (s : System Tid) (t : Tid) (pc : Pc) : ((s.goto t pc).thread t).pc = pc := by
  simp [goto]

/-- A block that a thread in a call returns was not in use, and is now. -/
theorem Consistent.fresh_of_resume {malloc : Option SlabAddr} {b : Block} (hbusy : ¬s.isIdle t)
    (hpc : ((s.resume t malloc).thread t).pc = .idle (.block (some b))) :
    ¬s.central.InUse b ∧ (s.resume t malloc).central.InUse b := by
  rw [System.resume] at hpc ⊢
  cases hat : (s.thread t).pc with
  | idle last => simp [isIdle, hat] at hbusy
  | fetch size =>
    simp only [hat] at hpc
    split_ifs at hpc <;> simp [pc_goto] at hpc
  | flushing index after =>
    simp only [hat] at hpc
    split_ifs at hpc
    · simp [pc_goto] at hpc
    · cases after <;> simp [pc_goto] at hpc
  | trimming size | refetch size | failed => simp [hat, pc_goto] at hpc
  | take size =>
    simp only [hat] at hpc ⊢
    cases hlist : (s.thread t).lists (getSizeClassIndex size) with
    | none => simp [hlist, pc_goto] at hpc
    | some b' =>
      simp only [hlist, pc_goto, Pc.idle.injEq, Result.block.injEq, Option.some.injEq] at hpc
      subst hpc
      obtain ⟨lists, owner, hl⟩ := h.sound
      have hhead : heads s.central s.caches (.cached (t, getSizeClassIndex size)) = some b' := hlist
      have hown := hl.chains.owner_of_head hhead
      refine ⟨hl.not_inUse hown, (hl.placed b' _ hown).1, ?_⟩
      change (((s.central.modifyHeader b' _).activate b' size).header b').magic = .used
      simp [activate, modifyHeader]
  | large size =>
    simp only [hat] at hpc ⊢
    cases hlarge : (s.central.allocateLarge size malloc).2 with
    | none => simp [pc_goto, hlarge] at hpc
    | some b' =>
      simp only [hlarge, pc_goto, Pc.idle.injEq, Result.block.injEq, Option.some.injEq] at hpc
      subst hpc
      exact h.sound.allocateLarge_fresh hlarge

/-- A block that a call returns was not in use, and is now. -/
theorem Consistent.fresh_of_returns {m : Move Tid} {b : Block} (hr : s.Returns m t b) :
    ¬s.central.InUse b ∧ (s.step m).central.InUse b := by
  obtain ⟨hpc, ⟨hbusy, malloc, rfl⟩ | ⟨hidle, size, malloc, rfl⟩⟩ := hr
  · exact h.fresh_of_resume hbusy hpc
  · rw [System.step, if_pos hidle] at hpc ⊢
    simp only [System.call, pc_goto, Pc.idle.injEq, Result.block.injEq] at hpc
    exact h.sound.allocateLarge_fresh hpc

end

/-- Every block of every slab is on the free list of its slab, on one list of one thread, or in
    use, and the counters of the central cache are right; trimming frees slabs all of whose blocks
    are on their free list; and no block that is in use is given out. This holds after any moves
    of any number of threads. -/
theorem blocks_accounted (options : MemoryPoolOptions) (moves : List (Move Tid)) :
    (∃ free cached, (after options moves).Accounted free cached) ∧
      (∀ c all a, (after options moves).TrimsAt c → (c.slab a).isSome →
        (c.trimLocked all).slab a = none →
        ∃ l, IsChain (fun b => (c.header b).next) (c.slabAt a).free l ∧ l.Nodup ∧
          ∀ b, b ∈ l ↔ c.Has b ∧ b.slab = a) ∧
      ∀ m t b, (after options moves).Returns m t b →
        ¬(after options moves).central.InUse b ∧ ((after options moves).step m).central.InUse b :=
  have h := consistent_after options moves
  ⟨h.accounted, fun _ _ _ hc ha hfreed => h.full_of_trimmed hc ha hfreed,
    fun _ _ _ hr => h.fresh_of_returns hr⟩

/-- A thread that has no block yet fetches a batch and takes the first block of it. -/
example : ((after {} [.call 0 (.tryAllocate 100) none, .run 0 (some 7), .run 0 none] :
    System ℕ).thread 0).pc = .idle (.block (some ⟨7, 0⟩)) := by
  decide +kernel

end System

end Packetia.Memory
