import Memchk.ManageMemblk

/-!
# Copies of the table of live blocks

The functions of `memchk_snapshot.c` that copy a table, cancel the blocks of two copies against each
other and give the copies back, and the lists of the blocks of one callstack that they use, of
`memchk_callstack.c`.

## Reads of nodes that were given back

A command copies nodes, unlinks them and gives them back while it still holds pointers to them. So
that nothing is read too late, a read of a node of a table or of a list is a fault here if the node
is not taken from the pool at that moment: `Blocks.check` stands where the fields of a node are
read. The loops give `none` on a fault, or if they do not end.

## The walks

`for_each_hashnode` reads the successor of a node after the body of the loop, from the node itself.
`forEachMemblk` and `forEachCallstack` do the same, over a table of blocks and over the callstacks,
and pass a value on that the body may change. They are instances of the walk of the library, whose
rule is used for all of them.

## The lists

A block has its links in the node, the head is in the callstack, and `LinkIndex` tells the list of
the live blocks from that of the snapshot. Linking puts a block in front, unlinking closes the gap,
and both check the nodes that they read.
-/

namespace Memchk

namespace Blocks

/-- A read of the fields of a node. -/
def check (n : ℕ) (b : Blocks) : Option Unit :=
  if n ∈ b.pool.live allocMemblkSize then some () else none

/-- The reads of a search for a key in one of the tables, up to the node with that key. -/
def checkSearch (ptr : ℕ) (t : PtrStore) (b : Blocks) : ℕ → ℕ → Option Unit
  | 0, _ => none
  | rounds + 1, node =>
    if node = 0 then some ()
    else do
      b.check node
      if t.key node = ptr then return ()
      checkSearch ptr t b rounds (t.next node)

/-- `mc_find_ptr_hashtable`, with its reads. -/
def findChecked (id : TableId) (ptr : ℕ) (b : Blocks) : Option ℕ := do
  b.checkSearch ptr (b.ptrStore id) b.rounds (b.table id (calcPtrHash ptr allocMemptrHashtableSize))
  b.find id ptr

/-- `mc_remove_ptr_hashtable`, with its reads. -/
def removeChecked (id : TableId) (ptr : ℕ) (b : Blocks) : Option (ℕ × Blocks) := do
  b.checkSearch ptr (b.ptrStore id) b.rounds (b.table id (calcPtrHash ptr allocMemptrHashtableSize))
  b.remove id ptr

/-- The nodes that a loop along `same_callstack_group_next` reads, in order. -/
def groupNodes (b : Blocks) : ℕ → ℕ → Option (List ℕ)
  | 0, _ => none
  | rounds + 1, node =>
    if node = 0 then some []
    else do
      b.check node
      return node :: (← groupNodes b rounds (b.sameCallstackGroupNext node))

/-- `__copy_alloc_memblk`. -/
def copyAllocMemblk (dest src : ℕ) (b : Blocks) : Blocks :=
  { b with
    memptr := Function.update b.memptr dest ⟨(b.memptr src).ptr, 0⟩
    memblk := Function.update b.memblk dest (b.memblk src)
    allocator := Function.update b.allocator dest (b.allocator src)
    sameCallstackGroupPrev := Function.update b.sameCallstackGroupPrev dest 0
    sameCallstackGroupNext := Function.update b.sameCallstackGroupNext dest 0 }

/-- A store into the backward link of a node, if it is not null. -/
def setGroupPrev (n prev : ℕ) (b : Blocks) : Option Blocks :=
  if n = 0 then some b
  else do
    b.check n
    return { b with sameCallstackGroupPrev := Function.update b.sameCallstackGroupPrev n prev }

end Blocks

namespace State

/-- `for_each_hashnode` over one of the tables of blocks, with a value that the body passes on. The
successor of a node is read after the body. -/
def forEachMemblk {σ : Type} (id : TableId) (body : ℕ → State × σ → Option (State × σ))
    (x : State × σ) : Option (State × σ) :=
  forEachM (fun x : State × σ ↦ (x.1.blocks.ptrStore id).next) 0 (fun x ↦ x.1.blocks.table id)
    (fun n x ↦ do
      let y ← body n x
      y.1.blocks.check n
      return y)
    x.1.blocks.rounds (tableIndices allocMemptrHashtableSize) x

/-- `for_each_hashnode` over `mc_callstack_hashtable`. -/
def forEachCallstack {σ : Type} (body : ℕ → State × σ → Option (State × σ)) (x : State × σ) :
    Option (State × σ) :=
  forEachM (fun x : State × σ ↦ x.1.callstacks.next) 0 (fun x ↦ x.1.callstacks.table) body
    x.1.callstacks.rounds (tableIndices callstackHashtableSize) x

/-- A store into the head of a list of the blocks of one callstack. A null pointer is a fault. -/
def setGroup (c : ℕ) (link : LinkIndex) (n : ℕ) (s : State) : Option State :=
  if c = 0 then none
  else some { s with callstacks := s.callstacks.modify c fun x ↦
    { x with sameCallstackGroupNext := Function.update x.sameCallstackGroupNext link n } }

/-- A load of the head of a list of the blocks of one callstack. A null pointer is a fault. -/
def group (c : ℕ) (link : LinkIndex) (s : State) : Option ℕ :=
  if c = 0 then none else some ((s.callstacks.node c).sameCallstackGroupNext link)

/-! ### Copying and giving back -/

/-- The body of the loop of `mc_duplicate_all_alloc_memblk`. After the return out of the loop, with
the result `-1`, there is nothing left to do. -/
def duplicateMemblk (dest : TableId) (n : ℕ) (x : State × ℤ) : Option (State × ℤ) := do
  let (s, ret) := x
  if ret ≠ 0 then return x
  let (new, pool) ← mcAllocateAllocMemblk s.blocks.pool
  let s := { s with blocks := { s.blocks with pool := pool } }
  if new = 0 then return (s.emit [.mmapFailed], -1)
  s.blocks.check n
  return ({ s with blocks := (s.blocks.copyAllocMemblk new n).add dest new }.emit [.copied new], 0)

/-- `mc_duplicate_all_alloc_memblk`. -/
def mcDuplicateAllAllocMemblk (dest src : TableId) (s : State) : Option (ℤ × State) := do
  let (s, ret) ← forEachMemblk src (duplicateMemblk dest) (s, 0)
  return (ret, s)

/-- `mc_free_alloc_memblk` in a command. -/
def releaseMemblk (n : ℕ) (s : State) : State :=
  { s with blocks := s.blocks.free n }.emit [.released n]

/-- `__free_alloc_memblk_if_not_null`. -/
def freeAllocMemblkIfNotNull (n : ℕ) (s : State) : State :=
  if n = 0 then s else s.releaseMemblk n

/-- `mc_destroy_all_alloc_memblk`. A node is given back when the loop has come to the next one. -/
def mcDestroyAllAllocMemblk (id : TableId) (s : State) : Option State := do
  let (s, prev) ← forEachMemblk id
    (fun n x ↦ some (x.1.freeAllocMemblkIfNotNull x.2, n)) (s, 0)
  let s := s.freeAllocMemblkIfNotNull prev
  return { s with blocks := { s.blocks with
    table := Function.update s.blocks.table id fun _ ↦ 0 } }

/-! ### The blocks of one callstack -/

/-- `mc_link_memblk_to_callstack`. -/
def mcLinkMemblkToCallstack (n c : ℕ) (link : LinkIndex) (s : State) : Option State := do
  let first ← s.group c link
  s.blocks.check n
  let blocks ← ({ s.blocks with
    sameCallstackGroupPrev := Function.update s.blocks.sameCallstackGroupPrev n 0
    sameCallstackGroupNext :=
      Function.update s.blocks.sameCallstackGroupNext n first } : Blocks).setGroupPrev first n
  { s with blocks := blocks }.setGroup c link n

/-- `mc_unlink_memblk_from_callstack`. -/
def mcUnlinkMemblkFromCallstack (n c : ℕ) (link : LinkIndex) (s : State) : Option State := do
  s.blocks.check n
  let prev := s.blocks.sameCallstackGroupPrev n
  let next := s.blocks.sameCallstackGroupNext n
  if prev = 0 then
    let s ← s.setGroup c link next
    return { s with blocks := ← s.blocks.setGroupPrev next 0 }
  else
    s.blocks.check prev
    let blocks := { s.blocks with
      sameCallstackGroupNext := Function.update s.blocks.sameCallstackGroupNext prev next }
    return { s with blocks := ← blocks.setGroupPrev next prev }

/-- `mc_link_same_callstack_group`. -/
def mcLinkSameCallstackGroup (id : TableId) (link : LinkIndex) (s : State) : Option State := do
  let (s, _) ← forEachMemblk id
    (fun n x ↦ do
      x.1.blocks.check n
      return (← x.1.mcLinkMemblkToCallstack n (x.1.blocks.allocator n) link, ())) (s, ())
  return s

/-- `mc_reset_same_callstack_group`. -/
def mcResetSameCallstackGroup (link : LinkIndex) (s : State) : Option State := do
  let (s, _) ← forEachCallstack (fun c x ↦ do return (← x.1.setGroup c link 0, ())) (s, ())
  return s

/-! ### Cancelling two copies against each other -/

/-- The node of the snapshot's copy with the address of `n`, if it has the same size and callstack
as well. -/
def findSameMemblk (n : ℕ) (s : State) : Option ℕ := do
  let m ← s.blocks.findChecked .snapshotCopy (s.blocks.memptr n).ptr
  if m = 0 then return 0
  if (s.blocks.memblk n).usrsize = (s.blocks.memblk m).usrsize then
    let current := s.blocks.allocator n
    let snapshot := s.blocks.allocator m
    if current = 0 ∨ snapshot = 0 then none
    else if mcMatchCallstack (s.callstacks.node current).trace (s.callstacks.node snapshot).trace
      then return m
    else return 0
  else return 0

/-- The last loop of `__find_snapshot_alloc_memptr_for_current_memptr`. -/
def findInGroup (usrsize : ℕ) (b : Blocks) : ℕ → ℕ → Option ℕ
  | 0, _ => none
  | rounds + 1, node =>
    if node = 0 then some 0
    else do
      b.check node
      if usrsize = (b.memblk node).usrsize then return node
      findInGroup usrsize b rounds (b.sameCallstackGroupNext node)

/-- `__find_snapshot_alloc_memptr_for_current_memptr`. -/
def findSnapshotMemblk (n : ℕ) (s : State) : Option ℕ := do
  s.blocks.check n
  let m ← s.findSameMemblk n
  if m ≠ 0 then return m
  let first ← s.group (s.blocks.allocator n) .snapshot
  findInGroup (s.blocks.memblk n).usrsize s.blocks s.blocks.rounds first

/-- The variables of `offset_snapshot_against_current_alloc_memblk`. -/
structure Offset where
  numRemainingsCurrent : ℤ
  numRemainingsSnapshot : ℤ
  prevCurrent : ℕ
  prevSnapshot : ℕ

/-- The body of the last loop of `offset_snapshot_against_current_alloc_memblk`. -/
def offsetMemblk (n : ℕ) (x : State × Offset) : Option (State × Offset) := do
  let (s, o) := x
  let s := (s.freeAllocMemblkIfNotNull o.prevSnapshot).freeAllocMemblkIfNotNull o.prevCurrent
  let m ← s.findSnapshotMemblk n
  if m ≠ 0 then
    let (_, blocks) ← s.blocks.removeChecked .snapshotCopy (s.blocks.memptr m).ptr
    let s := { s with blocks := blocks }
    let (_, blocks) ← s.blocks.removeChecked .liveCopy (s.blocks.memptr n).ptr
    let s := { s with blocks := blocks }
    let s ← s.mcUnlinkMemblkFromCallstack m (s.blocks.allocator m) .snapshot
    let s ← s.mcUnlinkMemblkFromCallstack n (s.blocks.allocator n) .current
    return (s, ⟨o.numRemainingsCurrent - 1, o.numRemainingsSnapshot - 1, n, m⟩)
  else
    return (s, { o with prevCurrent := 0, prevSnapshot := 0 })

/-- A loop that counts the nodes of a table. -/
def countMemblk (id : TableId) (s : State) : Option (State × ℤ) :=
  forEachMemblk id (fun _ x ↦ do return (x.1, ← incInt x.2)) (s, 0)

/-- `offset_snapshot_against_current_alloc_memblk`: the numbers of blocks that remain. -/
def offsetSnapshotAgainstCurrentAllocMemblk (s : State) : Option (State × ℤ × ℤ) := do
  let (s, numCurrent) ← s.countMemblk .liveCopy
  let (s, numSnapshot) ← s.countMemblk .snapshotCopy
  let (s, o) ← forEachMemblk .liveCopy offsetMemblk (s, ⟨numCurrent, numSnapshot, 0, 0⟩)
  let s := (s.freeAllocMemblkIfNotNull o.prevSnapshot).freeAllocMemblkIfNotNull o.prevCurrent
  return (s, o.numRemainingsCurrent, o.numRemainingsSnapshot)

end State

end Memchk
