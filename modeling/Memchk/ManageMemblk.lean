import Memchk.Buffer

/-!
# Registering and unregistering blocks

The blocks of `memchk_manage_memblk.c`: `mc_register_memblk` makes a buffer a live block,
`mc_unregister_memblk` moves a live block to the quarantine and returns the buffer of the block that
has been there longest, `mc_check_all_memblk` looks at all of them.

The functions give `none` on a fault or if a loop does not end. The output parameter
`buf_to_be_freed` of `mc_unregister_memblk` is passed by value and returned, with the value it had
where the code leaves it alone.

## The counters

The numbers of calls, of live blocks and of bytes, and the histogram, are updated by the two
functions at the places where the source does so, in the types of the source. `histogramLoop` is the
loop that finds the bin of a size.

## The full check

`mc_check_all_memblk` walks the live table and then the table of freed blocks. The loop bodies are
`checkAllocMemblk` and `checkFreeMemblk`: they check one block, and where the check has found damage
they set the patterns again, so that a later check does not report it once more. Its result is that
of the last check that has found something, or zero.
-/

namespace Memchk

/-- `HISTO_BINS`. -/
abbrev histoBins : ℕ := 10

/-- `HISTO_MAGNIFICATION`. -/
abbrev histoMagnification : ℕ := 4

/-- The loop of `__update_histogram`: the index that it ends with. -/
def histogramLoop (usrsize : ℕ) : ℕ → ℕ → ℕ → ℕ
  | 0, i, _ => i
  | rounds + 1, i, size =>
    if usrsize ≤ size then i
    else histogramLoop usrsize rounds (i + 1) (wrapSize (size * histoMagnification))

/-- The bin that `__update_histogram` counts a size in. -/
def histogramIndex (usrsize : ℕ) : ℕ :=
  let i := histogramLoop usrsize histoBins 0 histoMagnification
  if i = histoBins then i - 1 else i

/-- `__update_histogram`. -/
def updateHistogram (usrsize : ℕ) (inc : Bool) (histogram : ℕ → ℤ) : ℕ → ℤ :=
  let i := histogramIndex usrsize
  Function.update histogram i
    (toInt32 (if inc then histogram i + 1 else histogram i - 1))

namespace Counters

/-- The counting in `mc_register_memblk`. -/
def register (usrsize : ℕ) (c : Counters) : Counters where
  numAllocMemblk := toInt32 (c.numAllocMemblk + 1)
  numAllocCnt := toInt32 (c.numAllocCnt + 1)
  numFreeCnt := c.numFreeCnt
  allocatedSize := wrapSize (c.allocatedSize + usrsize)
  histogram := updateHistogram usrsize true c.histogram

/-- The counting in `mc_unregister_memblk`. -/
def unregister (usrsize : ℕ) (c : Counters) : Counters where
  numAllocMemblk := toInt32 (c.numAllocMemblk - 1)
  numAllocCnt := c.numAllocCnt
  numFreeCnt := toInt32 (c.numFreeCnt + 1)
  allocatedSize := subSize c.allocatedSize usrsize
  histogram := updateHistogram usrsize false c.histogram

end Counters

/-- `__handle_illegally_freed_buffer`. -/
def handleIllegallyFreedBuffer (env : Env) (usrptr : ℕ) (s : State) : Option State := do
  let node ← s.quarantine.find usrptr
  let current := env.printCurrentCallstack 3
  if node = 0 then return s.emit [.illegalFree usrptr current]
  let allocTrace ← s.printCallstack (s.quarantine.allocator node) 2
  let freeTrace ← s.printCallstack (s.quarantine.freer node) 2
  return s.emit [.doubleFree usrptr, .allocatedFrom allocTrace, .freedFrom freeTrace,
    .thenBeingFreedFrom current]

/-- The fields of a node as `mc_register_memblk` sets them. -/
def Blocks.fill (n : ℕ) (x : Memblk) (usrptr allocator : ℕ) (b : Blocks) : Blocks :=
  { b with
    memblk := Function.update b.memblk n x
    memptr := Function.update b.memptr n { b.memptr n with ptr := usrptr }
    allocator := Function.update b.allocator n allocator }

/-- `mc_register_memblk`. -/
def mcRegisterMemblk (env : Env) (buf usrptr bufsize usrsize : ℕ) (s : State) :
    Option (ℤ × State) := do
  let (new, pool) ← mcAllocateAllocMemblk s.blocks.pool
  let s := { s with blocks := { s.blocks with pool := pool } }
  if new = 0 then
    return (-1, s.emit [.mmapFailed, .message "mc_allocate_alloc_memblk failed"])
  let (callstack, callstacks) ← mcGetCallstack env.allocFrames s.callstacks
  let s := { s with
    callstacks := callstacks
    blocks := s.blocks.fill new ⟨buf, bufsize, usrsize⟩ usrptr callstack }.emitFailure callstack
  let heap ← mcSetAllocatedBuffer ⟨buf, bufsize, usrsize⟩ usrptr true s.heap
  return (0, { s with
    heap := heap
    blocks := s.blocks.add .live new
    counters := s.counters.register usrsize })

/-- The fields of a node as `mc_unregister_memblk` sets them. -/
def Quarantine.fill (n : ℕ) (x : Memblk) (memptr : Memptr) (allocator freer : ℕ)
    (q : Quarantine) : Quarantine :=
  { q with
    memblk := Function.update q.memblk n x
    store := { q.store with memptr := Function.update q.store.memptr n memptr }
    allocator := Function.update q.allocator n allocator
    freer := Function.update q.freer n freer }

/-- The part of `mc_unregister_memblk` that makes the live block `node`, already out of its table,
the freed block `new`. -/
def quarantineMemblk (env : Env) (node new : ℕ) (s : State) : Option (ℕ × State) := do
  let x := s.blocks.memblk node
  let allocator := s.blocks.allocator node
  let (freer, callstacks) ← mcGetCallstack env.freeFrames s.callstacks
  let heap ← mcSetFreedBuffer x s.heap
  let (old, quarantine) :=
    ((s.quarantine.fill new x (s.blocks.memptr node) allocator freer).add new).pushFifo new
      ⟨(s.blocks.memptr node).ptr, x, callstacks.traceOf allocator, callstacks.traceOf freer⟩
  return (old, { s with
    callstacks := callstacks
    heap := heap
    quarantine := quarantine
    blocks := s.blocks.free node
    counters := s.counters.unregister x.usrsize }.emitFailure freer)

/-- The part of `mc_unregister_memblk` that takes the block `old` out of the quarantine. -/
def evictMemblk (old : ℕ) (s : State) : Option (ℕ × State) := do
  let x := s.quarantine.memblk old
  let ptr := s.quarantine.store.key old
  let (_, log) ← mcCheckFreedBuffer x ptr (s.printCallstack (s.quarantine.allocator old) 2)
    (s.printCallstack (s.quarantine.freer old) 2) s.heap
  let (_, quarantine) ← s.quarantine.remove ptr
  return (x.buf, { s with quarantine := quarantine.free old }.emit log)

/-- `mc_unregister_memblk`. -/
def mcUnregisterMemblk (env : Env) (usrptr bufToBeFreed : ℕ) (s : State) :
    Option (ℤ × ℕ × State) := do
  let (node, blocks) ← s.blocks.remove .live usrptr
  if node = 0 then
    let s ← handleIllegallyFreedBuffer env usrptr s
    return (-1, 0, s)
  let s := { s with blocks := blocks }
  let (_, log) ← mcCheckAllocatedBuffer (s.blocks.memblk node) (s.blocks.memptr node).ptr
    (s.printCallstack (s.blocks.allocator node) 2) (some (env.printCurrentCallstack 3)) s.heap
  let (new, pool) ← mcAllocateFreeMemblk s.quarantine.pool
  let s := { s with quarantine := { s.quarantine with pool := pool } }.emit log
  if new = 0 then
    return (-1, bufToBeFreed, { s with blocks := s.blocks.free node }.emit [.mmapFailed])
  let (old, s) ← quarantineMemblk env node new s
  if old ≠ 0 then
    let (buf, s) ← evictMemblk old s
    return (0, buf, s)
  return (0, 0, s)

/-- `mc_handle_realloc_memblk`, with `-1` as a `size_t`. -/
def mcHandleReallocMemblk (usrptr : ℕ) (s : State) : Option ℕ := do
  let node ← s.blocks.find .live usrptr
  return if node = 0 then 18446744073709551615 else (s.blocks.memblk node).usrsize

/-- The body of the first loop of `mc_check_all_memblk`. -/
def checkAllocMemblk (node : ℕ) (x : State × ℤ) : Option (State × ℤ) := do
  let (s, ret) := x
  let memblk := s.blocks.memblk node
  let usrptr := (s.blocks.memptr node).ptr
  let (rc, log) ← mcCheckAllocatedBuffer memblk usrptr
    (s.printCallstack (s.blocks.allocator node) 2) none s.heap
  let heap ← if rc ≠ 0 then mcSetAllocatedBuffer memblk usrptr false s.heap else some s.heap
  return ({ s with heap := heap }.emit log, if rc ≠ 0 then rc else ret)

/-- The body of the second loop of `mc_check_all_memblk`. -/
def checkFreeMemblk (node : ℕ) (x : State × ℤ) : Option (State × ℤ) := do
  let (s, ret) := x
  let memblk := s.quarantine.memblk node
  let (rc, log) ← mcCheckFreedBuffer memblk (s.quarantine.store.key node)
    (s.printCallstack (s.quarantine.allocator node) 2)
    (s.printCallstack (s.quarantine.freer node) 2) s.heap
  let heap ← if rc ≠ 0 then mcSetFreedBuffer memblk s.heap else some s.heap
  return ({ s with heap := heap }.emit log, if rc ≠ 0 then rc else ret)

/-- `mc_check_all_memblk`. The results of the checks are `0` or `-1`, so that `ret |= rc` keeps the
last one that is not `0`. -/
def mcCheckAllMemblk (s : State) : Option (ℤ × State) := do
  let x ← forEachM (fun x : State × ℤ ↦ (x.1.blocks.ptrStore .live).next) 0
    (fun x ↦ x.1.blocks.table .live) checkAllocMemblk s.blocks.rounds
    (tableIndices allocMemptrHashtableSize) (s, 0)
  let (s, ret) ← forEachM (fun x : State × ℤ ↦ x.1.quarantine.store.next) 0
    (fun x ↦ x.1.quarantine.store.head) checkFreeMemblk x.1.quarantine.rounds
    (tableIndices freeMemptrHashtableSize) x
  return (ret, s)

end Memchk
