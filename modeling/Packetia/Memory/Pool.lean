import Packetia.Lib.Run

/-!
# The memory pool

`MemoryPool` (`Common/memory/`) cuts slabs of memory into blocks of one size class. A block
is in the free list of its slab, in the cache of a thread, or in use. The lists are
intrusive: a block has one header, with one `next` pointer, whatever list it is in.

`CentralCache` has the slabs. Each of its calls holds its mutex from beginning to end, so it
is a function on its state here. `ThreadCache::Allocate` and `Flush` make several such calls,
and other threads make theirs in between; `System` has the threads, each with the place it has
reached in its call, and a step of the system is one call on the central cache with what the
thread does to its own lists around it, which no other thread sees.

Addresses are abstract. `malloc` gives the address of a slab, any that is not allocated at
the time, or fails; a block is found by its slab and its place there.
-/

namespace Packetia.Memory

open Function

/-! ## Size classes -/

def kNumSizeClasses : ℕ := 15

def kMaxPooledObjectSize : ℕ := 1024 * 1024

/-- The loop of `GetSizeClassIndex`, with at most `n` rounds left. -/
def sizeClassLoop (size : ℕ) : (n capacity index : ℕ) → ℕ
  | 0, _, index => index
  | n + 1, capacity, index =>
    if capacity < size then sizeClassLoop size n (capacity * 2) (index + 1) else index

def getSizeClassIndex (size : ℕ) : ℕ := sizeClassLoop size kNumSizeClasses 64 0

def getClassSize (index : ℕ) : ℕ := 64 <<< index

def getBatchCount (index : ℕ) : ℕ :=
  if 4096 / getClassSize index = 0 then 1 else 4096 / getClassSize index

/-! ## Blocks and slabs -/

abbrev SlabAddr := ℕ

/-- A block: its slab, and its place in the slab. -/
structure Block where
  slab : SlabAddr
  index : ℕ
  deriving DecidableEq

inductive Magic
  | used
  | free
  deriving DecidableEq

structure BlockHeader where
  next : Option Block := none
  requestSize : ℕ := 0
  magic : Magic := .free

structure PoolSlab where
  free : Option Block := none
  capacity : ℕ := 0
  stride : ℕ := 0
  count : ℕ := 0
  freeCount : ℕ := 0
  bytes : ℕ := 0
  classIndex : ℕ := 0
  deriving Inhabited

structure MemoryPoolOptions where
  maxCommittedBytes : ℕ := 256 * 1024 * 1024
  maxCachedBytes : ℕ := 16 * 1024 * 1024

structure MemoryPoolStats where
  committedBytes : ℕ := 0
  peakCommittedBytes : ℕ := 0
  inUseBytes : ℕ := 0
  peakInUseBytes : ℕ := 0
  inUseCapacity : ℕ := 0
  liveAllocations : ℕ := 0
  slabCount : ℕ := 0
  allocationFailures : ℕ := 0
  systemAllocations : ℕ := 0

/-- `alignof(std::max_align_t)`. -/
def alignment : ℕ := 16

/-- `sizeof(BlockHeader)`. -/
def blockHeaderSize : ℕ := 32

/-- `sizeof(PoolSlab)`. -/
def poolSlabSize : ℕ := 64

/-- `std::numeric_limits<std::size_t>::max()`. -/
def sizeMax : ℕ := 2 ^ 64 - 1

/-- What a block of the given capacity takes in its slab, its header included. -/
def strideOf (capacity : ℕ) : ℕ :=
  (blockHeaderSize + capacity + alignment - 1) / alignment * alignment

/-! ## The central cache -/

structure CentralCache where
  options : MemoryPoolOptions
  /-- The slabs of a class, in the order of their list; class `kNumSizeClasses` has the
      slabs of the large blocks. -/
  slabs : ℕ → List SlabAddr := fun _ => []
  /-- The memory: what is at the address of a slab, if it is allocated. -/
  slab : SlabAddr → Option PoolSlab := fun _ => none
  /-- The headers of the blocks. -/
  header : Block → BlockHeader := fun _ => {}
  stats : MemoryPoolStats := {}
  inUseReserved : ℕ := 0

namespace CentralCache

variable (c : CentralCache)

/-- The slab at an address. -/
def slabAt (a : SlabAddr) : PoolSlab := (c.slab a).getD default

/-- Writing to the slab at an address. -/
def modifySlab (a : SlabAddr) (f : PoolSlab → PoolSlab) : CentralCache :=
  { c with slab := update c.slab a ((c.slab a).map f) }

/-- Writing to the header of a block. -/
def modifyHeader (b : Block) (f : BlockHeader → BlockHeader) : CentralCache :=
  { c with header := update c.header b (f (c.header b)) }

/-- `FreeSlab`, for a slab of the class `classIndex`. -/
def freeSlab (classIndex : ℕ) (a : SlabAddr) : CentralCache :=
  { c with
    slabs := update c.slabs classIndex ((c.slabs classIndex).erase a)
    slab := update c.slab a none
    stats := { c.stats with
      committedBytes := c.stats.committedBytes - (c.slabAt a).bytes
      slabCount := c.stats.slabCount - 1 } }

/-- The walk of `TrimLocked` over the rest of the slabs of a class, and whether it has
    returned in it. -/
def trimWalk (all : Bool) (classIndex : ℕ) : List SlabAddr → CentralCache → CentralCache × Bool
  | [], c => (c, false)
  | a :: rest, c =>
    if !all ∧ c.stats.committedBytes - c.inUseReserved ≤ c.options.maxCachedBytes then (c, true)
    else if (c.slabAt a).freeCount = (c.slabAt a).count then
      trimWalk all classIndex rest (c.freeSlab classIndex a)
    else trimWalk all classIndex rest c

/-- The loop of `TrimLocked` over the classes below `n`, from the largest on. -/
def trimClasses (all : Bool) : ℕ → CentralCache → CentralCache
  | 0, c => c
  | n + 1, c =>
    let walk := trimWalk all n (c.slabs n) c
    if walk.2 then walk.1 else trimClasses all n walk.1

/-- `TrimLocked`. -/
def trimLocked (all : Bool) : CentralCache := trimClasses all kNumSizeClasses c

/-- The loop of `AllocateSlab` over the first `n` blocks of the slab at `a`: the headers, and
    the free list. -/
def carve (a : SlabAddr) (header : Block → BlockHeader) : ℕ → (Block → BlockHeader) × Option Block
  | 0 => (header, none)
  | n + 1 =>
    (update (carve a header n).1 ⟨a, n⟩ { next := (carve a header n).2, magic := .free },
      some ⟨a, n⟩)

/-- The rest of `AllocateSlab`, once there is memory at `a`. -/
def placeSlab (a : SlabAddr) (capacity stride count classIndex : ℕ) : CentralCache :=
  let bytes := poolSlabSize + count * stride
  { c with
    slabs := update c.slabs classIndex (a :: c.slabs classIndex)
    slab := update c.slab a (some {
      free := (carve a c.header count).2
      capacity, stride, count, bytes, classIndex
      freeCount := count })
    header := (carve a c.header count).1
    stats := { c.stats with
      committedBytes := c.stats.committedBytes + bytes
      peakCommittedBytes := max c.stats.peakCommittedBytes (c.stats.committedBytes + bytes)
      slabCount := c.stats.slabCount + 1
      systemAllocations := c.stats.systemAllocations + 1 } }

/-- `AllocateSlab` on a state that has been trimmed if need be; `malloc` is what `std::malloc`
    gives. -/
def allocateWithin (capacity stride count classIndex : ℕ) (malloc : Option SlabAddr) :
    CentralCache × Option SlabAddr :=
  let available := c.options.maxCommittedBytes - c.stats.committedBytes
  if available < poolSlabSize + stride then (c, none)
  else
    -- `std::malloc` never gives what is allocated already.
    match malloc.filter fun a => (c.slab a).isNone with
    | none => (c, none)
    | some a =>
      (c.placeSlab a capacity stride (min count ((available - poolSlabSize) / stride)) classIndex,
        some a)

/-- `AllocateSlab`. -/
def allocateSlab (capacity count classIndex : ℕ) (malloc : Option SlabAddr) :
    CentralCache × Option SlabAddr :=
  if capacity > sizeMax - blockHeaderSize - (alignment - 1) then (c, none)
  else if strideOf capacity > sizeMax - poolSlabSize then (c, none)
  else if c.options.maxCommittedBytes - c.stats.committedBytes
      < poolSlabSize + strideOf capacity then
    (c.trimLocked true).allocateWithin capacity (strideOf capacity) count classIndex malloc
  else c.allocateWithin capacity (strideOf capacity) count classIndex malloc

/-- A round of the loop of `FetchBatch`: the block `b` leaves the free list of the slab at `a`,
    for the list `result`. -/
def takeBlock (a : SlabAddr) (b : Block) (result : Option Block) : CentralCache :=
  (c.modifySlab a fun slab =>
    { slab with free := (c.header b).next, freeCount := slab.freeCount - 1 }).modifyHeader b
    fun header => { header with next := result }

/-- The loop of `FetchBatch`: up to `n` blocks of the slab at `a`. -/
def takeBlocks (a : SlabAddr) : ℕ → Option Block → CentralCache → CentralCache × Option Block
  | 0, result, c => (c, result)
  | n + 1, result, c =>
    match (c.slabAt a).free with
    | none => (c, result)
    | some b => takeBlocks a n (some b) (c.takeBlock a b result)

/-- `FetchBatch`. -/
def fetchBatch (classIndex count : ℕ) (malloc : Option SlabAddr) : CentralCache × Option Block :=
  match (c.slabs classIndex).find? fun a => (c.slabAt a).free.isSome with
  | some a => takeBlocks a count none c
  | none =>
    let allocated := c.allocateSlab (getClassSize classIndex) count classIndex malloc
    match allocated.2 with
    | none => (allocated.1, none)
    | some a => takeBlocks a count none allocated.1

/-- `ActivateLocked`. -/
def activate (b : Block) (size : ℕ) : CentralCache :=
  let slab := c.slabAt b.slab
  { c.modifyHeader b fun header => { header with magic := .used, requestSize := size } with
    stats := { c.stats with
      inUseBytes := c.stats.inUseBytes + size
      inUseCapacity := c.stats.inUseCapacity + slab.capacity
      liveAllocations := c.stats.liveAllocations + 1
      peakInUseBytes := max c.stats.peakInUseBytes (c.stats.inUseBytes + size) }
    inUseReserved := c.inUseReserved + slab.stride }

/-- `AllocateLarge`. -/
def allocateLarge (size : ℕ) (malloc : Option SlabAddr) : CentralCache × Option Block :=
  let allocated := c.allocateSlab size 1 kNumSizeClasses malloc
  match allocated.2 with
  | none => (allocated.1, none)
  | some a =>
    match (allocated.1.slabAt a).free with
    | none => (allocated.1, none)
    | some b =>
      ((allocated.1.modifySlab a fun slab => { slab with free := none, freeCount := 0 }).activate
        b size, some b)

/-- A block goes to the head of the free list of its slab. -/
def putFree (b : Block) : CentralCache :=
  (c.modifyHeader b fun header => { header with next := (c.slabAt b.slab).free }).modifySlab b.slab
    fun slab => { slab with free := some b, freeCount := slab.freeCount + 1 }

/-- The loop of `ReleaseBatch`, with at most `n` rounds. -/
def putBlocks : ℕ → Option Block → CentralCache → CentralCache
  | 0, _, c => c
  | _ + 1, none, c => c
  | n + 1, some b, c => putBlocks n (c.header b).next (c.putFree b)

/-- The loop of `ReleaseBatch`. It ends, as a list has fewer blocks than there are bytes. -/
def putBatch (head : Option Block) : CentralCache := putBlocks c.stats.committedBytes head c

/-- `ReleaseBatch`. -/
def releaseBatch (head : Option Block) : CentralCache := (c.putBatch head).trimLocked false

/-- What `Release` does before it frees memory: the block is no longer in use and goes to the
    free list of its slab. -/
def putBack (b : Block) : CentralCache :=
  let slab := c.slabAt b.slab
  { (c.modifyHeader b fun header =>
      { header with magic := .free, requestSize := 0 }).putFree b with
    stats := { c.stats with
      inUseBytes := c.stats.inUseBytes - (c.header b).requestSize
      inUseCapacity := c.stats.inUseCapacity - slab.capacity
      liveAllocations := c.stats.liveAllocations - 1 }
    inUseReserved := c.inUseReserved - slab.stride }

/-- `Release`. -/
def release (b : Block) : CentralCache :=
  if (c.slabAt b.slab).classIndex = kNumSizeClasses then
    (c.putBack b).freeSlab kNumSizeClasses b.slab
  else (c.putBack b).trimLocked false

/-- `Trim`. -/
def trim : CentralCache × ℕ :=
  (c.trimLocked true, c.stats.committedBytes - (c.trimLocked true).stats.committedBytes)

/-- `SetLimits`. -/
def setLimits (options : MemoryPoolOptions) : CentralCache × Bool :=
  if options.maxCommittedBytes < (c.trimLocked true).stats.committedBytes then
    (c.trimLocked true, false)
  else ({ c.trimLocked true with options }, true)

/-- `RecordFailure`. -/
def recordFailure : CentralCache :=
  { c with stats := { c.stats with allocationFailures := c.stats.allocationFailures + 1 } }

end CentralCache

/-! ## The threads -/

/-- What a call has returned. -/
inductive Result
  | nothing
  | block (b : Option Block)
  | bytes (n : ℕ)
  | flag (ok : Bool)
  deriving DecidableEq

/-- What follows a flush. -/
inductive AfterFlush
  | done
  /-- `Allocate` goes on to trim and to fetch once more. -/
  | refill (size : ℕ)
  /-- `TryAllocate` goes on to `AllocateLarge`. -/
  | large (size : ℕ)
  deriving DecidableEq

/-- The place that a thread has reached. -/
inductive Pc
  /-- Not in a call; the last one has returned `last`. -/
  | idle (last : Result)
  /-- `Allocate`, before the first `FetchBatch`. -/
  | fetch (size : ℕ)
  /-- `Flush`, before list `index`. -/
  | flushing (index : ℕ) (after : AfterFlush)
  /-- `Allocate`, before `Trim`. -/
  | trimming (size : ℕ)
  /-- `Allocate`, before the second `FetchBatch`. -/
  | refetch (size : ℕ)
  /-- `Allocate`, before it looks whether there is a block now. -/
  | take (size : ℕ)
  /-- `TryAllocate`, before `AllocateLarge`. -/
  | large (size : ℕ)
  /-- `TryAllocate`, before `RecordFailure`. -/
  | failed
  deriving DecidableEq

/-- `ThreadCache`, as far as it is about this pool: when `state_` is another pool, or none, the
    lists have no block of this one. -/
structure ThreadCache where
  lists : ℕ → Option Block := fun _ => none
  pc : Pc := .idle .nothing

/-- The calls. `Release` is called for a block in use, by the one who has it. -/
inductive Op
  | tryAllocate (size : ℕ)
  | allocateLarge (size : ℕ)
  | release (b : Block)
  | flush
  | trim
  | setLimits (options : MemoryPoolOptions)

variable {Tid : Type*}

/-- The pool and the threads that use it. -/
structure System (Tid : Type*) where
  central : CentralCache
  thread : Tid → ThreadCache := fun _ => {}

/-- What the scheduler picks next: a thread that is not in a call begins one, or a thread that
    is in one goes on. `malloc` is what `std::malloc` gives in this step if it is called. -/
inductive Move (Tid : Type*)
  | call (t : Tid) (op : Op) (malloc : Option SlabAddr)
  | run (t : Tid) (malloc : Option SlabAddr)

/-- The block is in use. -/
def CentralCache.InUse (c : CentralCache) (b : Block) : Prop :=
  b.index < (c.slabAt b.slab).count ∧ (c.header b).magic = .used
  deriving Decidable

namespace System

variable [DecidableEq Tid] (s : System Tid) (t : Tid)

/-- The thread `t` reaches `pc`. -/
def goto (pc : Pc) : System Tid :=
  { s with thread := update s.thread t { s.thread t with pc } }

/-- The list `index` of the thread `t` becomes the one at `head`. -/
def setList (index : ℕ) (head : Option Block) : System Tid :=
  { s with thread := update s.thread t { s.thread t with
      lists := update (s.thread t).lists index head } }

def setCentral (central : CentralCache) : System Tid := { s with central }

/-- A call begins. The calls on the central cache alone are over at once. -/
def call (op : Op) (malloc : Option SlabAddr) : System Tid :=
  match op with
  | .tryAllocate size =>
    if size = 0 then s.goto t (.idle (.block none))
    else if size > kMaxPooledObjectSize then s.goto t (.flushing 0 (.large size))
    else if ((s.thread t).lists (getSizeClassIndex size)).isSome then s.goto t (.take size)
    else s.goto t (.fetch size)
  | .allocateLarge size =>
    (s.setCentral (s.central.allocateLarge size malloc).1).goto t
      (.idle (.block (s.central.allocateLarge size malloc).2))
  | .release b =>
    if s.central.InUse b then (s.setCentral (s.central.release b)).goto t (.idle .nothing) else s
  | .flush => s.goto t (.flushing 0 .done)
  | .trim => (s.setCentral s.central.trim.1).goto t (.idle (.bytes s.central.trim.2))
  | .setLimits options =>
    (s.setCentral (s.central.setLimits options).1).goto t
      (.idle (.flag (s.central.setLimits options).2))

/-- `FetchBatch` of `count` blocks into the list that is for blocks of the given size. -/
def fetchInto (size count : ℕ) (malloc : Option SlabAddr) : System Tid :=
  let fetched := s.central.fetchBatch (getSizeClassIndex size) count malloc
  (s.setCentral fetched.1).setList t (getSizeClassIndex size) fetched.2

/-- List `index` in `Flush`: `ReleaseBatch(std::exchange(list, nullptr))`. -/
def flushList (index : ℕ) : System Tid :=
  match (s.thread t).lists index with
  | none => s
  | some b => (s.setCentral (s.central.releaseBatch (some b))).setList t index none

/-- The thread `t`, in a call, makes its next call on the central cache. -/
def resume (malloc : Option SlabAddr) : System Tid :=
  match (s.thread t).pc with
  | .idle _ => s
  | .fetch size =>
    let s' := s.fetchInto t size (getBatchCount (getSizeClassIndex size)) malloc
    if ((s'.thread t).lists (getSizeClassIndex size)).isSome then s'.goto t (.take size)
    else s'.goto t (.flushing 0 (.refill size))
  | .flushing index after =>
    if index < kNumSizeClasses then (s.flushList t index).goto t (.flushing (index + 1) after)
    else
      match after with
      | .done => s.goto t (.idle .nothing)
      | .refill size => s.goto t (.trimming size)
      | .large size => s.goto t (.large size)
  | .trimming size => (s.setCentral s.central.trim.1).goto t (.refetch size)
  | .refetch size => (s.fetchInto t size 1 malloc).goto t (.take size)
  | .take size =>
    match (s.thread t).lists (getSizeClassIndex size) with
    | none => s.goto t .failed
    | some b =>
      -- The block leaves the list, its `next` becomes null, and it is activated.
      let s' := s.setList t (getSizeClassIndex size) (s.central.header b).next
      (s'.setCentral ((s.central.modifyHeader b fun header =>
        { header with next := none }).activate b size)).goto t (.idle (.block (some b)))
  | .large size =>
    let allocated := s.central.allocateLarge size malloc
    match allocated.2 with
    | none => (s.setCentral allocated.1).goto t .failed
    | some b => (s.setCentral allocated.1).goto t (.idle (.block (some b)))
  | .failed => (s.setCentral s.central.recordFailure).goto t (.idle (.block none))

def isIdle : Bool :=
  match (s.thread t).pc with
  | .idle _ => true
  | _ => false

def step : Move Tid → System Tid
  | .call t op malloc => if s.isIdle t then s.call t op malloc else s
  | .run t malloc => s.resume t malloc

/-- The system when the pool has been made. -/
def init (options : MemoryPoolOptions) : System Tid := { central := { options } }

/-- The system after the moves `moves`. -/
def after (options : MemoryPoolOptions) (moves : List (Move Tid)) : System Tid :=
  run step (init options) moves

end System

end Packetia.Memory
