import Memchk.Callstack
import Memchk.Heap

/-!
# The state of the checker

Everything that the hooks and the commands read and write. The nodes of the three pools are stores
indexed by address: `Blocks` for `struct alloc_memblk` with the four tables that hold such nodes,
`Callstacks` for `struct callstack`, and `Quarantine` for `struct free_memblk` with the table and
the ring of the blocks whose release is delayed. The `struct memptr` and `struct memblk` inside a
node share the node's address, so that `container_of` is the identity.

## The tables

Four tables hold nodes of live blocks: the live table itself, the snapshot, and the copies of the
two that a command works on. `TableId` names them, and every operation on a table takes the name.
Since the four share the store of the nodes, an operation on one of them could reach the others
through a node; that it does not is a theorem of the invariant, not of the types.

## The trace

`trace` is what the checker did towards the outside, in order: its calls to the functions behind the
hooks and the lines of its log. Three of its entries are marks without effect: `mmapFailed` where a
metadata pool was out of memory, and `copied` and `released` where a command takes and gives back a
node. `Quarantine.freed` is the history of the blocks freed so far, which nothing reads.

A line of the log is an event with the values that are printed, not its text. What the log says is
then a matter of the events between two states, and no command has to be compared by strings.

## Outside of the state

`Env` is what a call meets outside: the answer of the function behind the hook, the backtraces taken
in it, and what its stack holds. The answers of `mmap` are part of the pools. A function that reads
a null callstack, or runs into memory it may not touch, has no result.
-/

namespace Memchk

/-- `REDZONE_SIZE`. -/
abbrev redzoneSize : ℕ := 16

/-- `REDZONE_PATTERN`. -/
abbrev redzonePattern : UInt8 := 0x5a

/-- `INITBUF_PATTERN`. -/
abbrev initbufPattern : UInt8 := 0xa5

/-- `FREEDBUF_PATTERN`. -/
abbrev freedbufPattern : UInt8 := 0xcc

/-- `FREE_FIFO_SIZE`. -/
abbrev freeFifoSize : ℕ := 128

/-- `struct memblk`, whose `memptr` is kept apart. -/
structure Memblk where
  buf : ℕ
  bufsize : ℕ
  usrsize : ℕ
deriving DecidableEq, Inhabited

/-- The four tables of `struct alloc_memblk` nodes. -/
inductive TableId
  /-- `mc_alloc_memptr_hashtable`. -/
  | live
  /-- `mc_alloc_memptr_hashtable_copy`. -/
  | liveCopy
  /-- `alloc_memptr_hashtable_snapshot`. -/
  | snapshot
  /-- `alloc_memptr_hashtable_snapshot_copy`. -/
  | snapshotCopy
deriving DecidableEq

/-- The nodes of type `struct alloc_memblk`: their pool, their fields, and the tables. -/
structure Blocks where
  pool : Pool
  memptr : ℕ → Memptr
  memblk : ℕ → Memblk
  allocator : ℕ → ℕ
  sameCallstackGroupPrev : ℕ → ℕ
  sameCallstackGroupNext : ℕ → ℕ
  table : TableId → ℤ → ℕ

namespace Blocks

/-- One of the tables, with the store it shares with the others. -/
def ptrStore (id : TableId) (b : Blocks) : PtrStore :=
  ⟨b.table id, b.memptr⟩

/-- The nodes after an operation on one of the tables. -/
def withStore (id : TableId) (t : PtrStore) (b : Blocks) : Blocks :=
  { b with memptr := t.memptr, table := Function.update b.table id t.head }

/-- The rounds of the loops along the nodes. -/
def rounds (b : Blocks) : ℕ :=
  b.pool.rounds allocMemblkSize

/-- `mc_add_ptr_hashtable` on one of the tables. -/
def add (id : TableId) (n : ℕ) (b : Blocks) : Blocks :=
  b.withStore id (mcAddPtrHashtable allocMemptrHashtableSize n (b.ptrStore id))

/-- `mc_remove_ptr_hashtable` on one of the tables. -/
def remove (id : TableId) (ptr : ℕ) (b : Blocks) : Option (ℕ × Blocks) := do
  let (n, t) ← mcRemovePtrHashtable allocMemptrHashtableSize ptr b.rounds (b.ptrStore id)
  return (n, b.withStore id t)

/-- `mc_find_ptr_hashtable` on one of the tables. -/
def find (id : TableId) (ptr : ℕ) (b : Blocks) : Option ℕ :=
  mcFindPtrHashtable allocMemptrHashtableSize ptr b.rounds (b.ptrStore id)

/-- `mc_free_alloc_memblk`. -/
def free (n : ℕ) (b : Blocks) : Blocks :=
  { b with pool := mcFreeAllocMemblk n b.pool }

end Blocks

/-- What is known of a block when it is freed: the history keeps it. -/
structure FreedBlock where
  usrptr : ℕ
  memblk : Memblk
  allocTrace : List ℕ
  freeTrace : List ℕ
deriving DecidableEq

/-- The nodes of type `struct free_memblk`: their pool, their fields, the table, and the ring. -/
structure Quarantine where
  pool : Pool
  store : PtrStore
  memblk : ℕ → Memblk
  allocator : ℕ → ℕ
  freer : ℕ → ℕ
  freeFifoIdx : ℕ
  freeMemblkArray : ℕ → ℕ
  freed : List FreedBlock

namespace Quarantine

/-- The rounds of the loops along the nodes. -/
def rounds (q : Quarantine) : ℕ :=
  q.pool.rounds freeMemblkSize

/-- `mc_add_ptr_hashtable` on `free_memptr_hashtable`. -/
def add (n : ℕ) (q : Quarantine) : Quarantine :=
  { q with store := mcAddPtrHashtable freeMemptrHashtableSize n q.store }

/-- `mc_remove_ptr_hashtable` on `free_memptr_hashtable`. -/
def remove (ptr : ℕ) (q : Quarantine) : Option (ℕ × Quarantine) := do
  let (n, t) ← mcRemovePtrHashtable freeMemptrHashtableSize ptr q.rounds q.store
  return (n, { q with store := t })

/-- `mc_find_ptr_hashtable` on `free_memptr_hashtable`. -/
def find (ptr : ℕ) (q : Quarantine) : Option ℕ :=
  mcFindPtrHashtable freeMemptrHashtableSize ptr q.rounds q.store

/-- `mc_free_free_memblk`. -/
def free (n : ℕ) (q : Quarantine) : Quarantine :=
  { q with pool := mcFreeFreeMemblk n q.pool }

/-- The block `n` takes the place of the oldest one in `free_memblk_array`. -/
def pushFifo (n : ℕ) (x : FreedBlock) (q : Quarantine) : ℕ × Quarantine :=
  let idx := q.freeFifoIdx + 1
  (q.freeMemblkArray q.freeFifoIdx,
    { q with
      freeMemblkArray := Function.update q.freeMemblkArray q.freeFifoIdx n
      freeFifoIdx := if idx = freeFifoSize then 0 else idx
      freed := q.freed ++ [x] })

end Quarantine

/-- The counters of `memchk_manage_memblk.c`. -/
structure Counters where
  numAllocMemblk : ℤ
  numAllocCnt : ℤ
  numFreeCnt : ℤ
  allocatedSize : ℕ
  histogram : ℕ → ℤ

/-- What the checker does towards the outside. -/
inductive Event
  /-- `mc_orig_malloc(size)` returned `ret`. -/
  | origMalloc (size ret : ℕ)
  /-- `mc_orig_calloc(nmems, size)` returned `ret`. -/
  | origCalloc (nmems size ret : ℕ)
  /-- `mc_orig_realloc(ptr, size)` returned `ret`. -/
  | origRealloc (ptr size ret : ℕ)
  /-- `mc_orig_free(ptr)`. -/
  | origFree (ptr : ℕ)
  /-- A pool of metadata nodes or a sort buffer could not be mapped. -/
  | mmapFailed
  /-- A command took the node from the pool for a copy of a block. -/
  | copied (node : ℕ)
  /-- A command gave the node back to the pool. -/
  | released (node : ℕ)
  /-- "UNDER-RUN at least %d bytes (%p:%lu)" or "UNDER-RUN %d bytes (%p:%lu)", and the leading red
  zone. -/
  | underRun (atLeast : Bool) (bytes : ℤ) (usrptr usrsize : ℕ) (contents : List UInt8)
  /-- "OVER-RUN at least %d bytes (%p:%lu)" or "OVER-RUN %d bytes (%p:%lu)", and the trailing red
  zone. -/
  | overRun (atLeast : Bool) (bytes : ℤ) (usrptr usrsize : ℕ) (contents : List UInt8)
  /-- "FREED area (%p:%ld) was write-accessed!!", the sizes of the three parts and the offset. -/
  | freedArea (usrptr usrsize : ℕ) (leading trailing offset : ℤ)
  /-- "This memory block was allocated from:", and the callstack. -/
  | allocatedFrom (callstack : List ℕ)
  /-- "and is being freed from:", and the callstack. -/
  | isBeingFreedFrom (callstack : List ℕ)
  /-- "freed from:", and the callstack. -/
  | freedFrom (callstack : List ℕ)
  /-- "ILLEGAL delete or free (or realloc) !!! (%p)", and where from. -/
  | illegalFree (usrptr : ℕ) (callstack : List ℕ)
  /-- "Double delete or free (or realloc) !!! (%p)". -/
  | doubleFree (usrptr : ℕ)
  /-- "and then is being freed from:", and the callstack. -/
  | thenBeingFreedFrom (callstack : List ℕ)
  /-- "block %d: 0x%p (%lu bytes)", and the callstack. -/
  | block (cnt : ℤ) (usrptr usrsize : ℕ) (callstack : List ℕ)
  /-- "group %d: ", the sizes (those of the snapshot with a minus sign), the total, and the
  callstack. -/
  | group (cnt : ℤ) (sizes snapshotSizes : List ℕ) (total : ℤ) (callstack : List ℕ)
  /-- "%d blocks increased:". -/
  | blocksIncreased (num : ℤ)
  /-- "no block increased". -/
  | noBlockIncreased
  /-- "%d blocks decreased:". -/
  | blocksDecreased (num : ℤ)
  /-- "no block deceased". -/
  | noBlockDecreased
  /-- "no block changed". -/
  | noBlockChanged
  /-- "block size (%d - %d): %d", the last bin without an upper end. -/
  | histogramBin (low : ℕ) (high : Option ℕ) (num : ℤ)
  /-- The other lines of the log, by their text. -/
  | message (text : String)
deriving DecidableEq

/-- The state. -/
structure State where
  heap : Heap
  doNotHook : ℤ
  blocks : Blocks
  callstacks : Callstacks
  quarantine : Quarantine
  counters : Counters
  trace : List Event

namespace State

/-- Appends to the trace. -/
def emit (es : List Event) (s : State) : State :=
  { s with trace := s.trace ++ es }

/-- Marks a failed allocation of a node in the trace. -/
def emitFailure (node : ℕ) (s : State) : State :=
  s.emit (if node = 0 then [.mmapFailed] else [])

/-- What `mc_print_callstack(callstack->depth, callstack->trace, from)` prints; a null pointer is a
fault. -/
def printCallstack (callstack from_ : ℕ) (s : State) : Option (List ℕ) :=
  if callstack = 0 then none else some ((s.callstacks.node callstack).trace.drop from_)

/-- `mc_disable_hook`. -/
def mcDisableHook (s : State) : Option State := do
  return { s with doNotHook := ← incInt s.doNotHook }

/-- `mc_enable_hook`. -/
def mcEnableHook (s : State) : State :=
  { s with doNotHook := s.doNotHook - 1 }

end State

/-- What a hooked call meets in its environment: the answer of the function behind the hook, the
backtraces taken in it, and what the stack happens to hold. -/
structure Env where
  answer : Answer
  /-- Taken by `mc_get_callstack` in `mc_register_memblk`. -/
  allocFrames : List ℕ
  /-- Taken by `mc_get_callstack` in `mc_unregister_memblk`. -/
  freeFrames : List ℕ
  /-- Taken by `mc_print_current_callstack`. -/
  currentFrames : List ℕ
  /-- What `buf_to_be_freed` holds in `free` before it is set. -/
  garbage : ℕ

/-- The trace that `mc_print_current_callstack(from)` prints. -/
def Env.printCurrentCallstack (env : Env) (from_ : ℕ) : List ℕ :=
  (env.currentFrames.take maxCallstackDepth).drop from_

end Memchk
