import Memchk.Snapshot

/-!
# Reports and commands

The commands of `memchk_manage_memblk.c` and `memchk_snapshot.c` that report on the live blocks, one
by one or by callstack, and compare them with a snapshot. They work on copies of the tables. The
sections with hooks disabled in which the symbol tables are read are left out: they change nothing
here.

## How they are modelled

Each command is a function from the state to the return value of the C function and the state after
it, written in the order of the source, with its early returns. The loops over tables and callstacks
are the walks of the module on copies, and what is printed is appended to the trace. Counters are
`int` and `ssize_t` and have no result past their range.

## What is outside

A `CommandEnv` says whether the arrays that are sorted could be mapped, one answer for each request.
The arrays are sorted by the comparators of the source with a stable sort, one of the sorts that the
contract of `qsort` allows; what does not depend on this is for the theorems to say.
-/

namespace Memchk

/-- What a command meets in its environment: whether its sort buffers can be mapped, by number. -/
structure CommandEnv where
  sortBuffer : ℕ → Bool

/-- `__compare_by_alloc_memblk`. -/
def compareByAllocMemblk (usrsize₁ usrsize₂ : ℕ) : ℤ :=
  toInt32 (toInt32 usrsize₂ - toInt32 usrsize₁)

/-- `__compare_per_callstack`. -/
def comparePerCallstack (totalSize₁ totalSize₂ : ℤ) : ℤ :=
  toInt32 (toInt32 totalSize₂ - toInt32 totalSize₁)

namespace State

/-- `mc_allocate_sort_buffer`: whether the mapping, of one page at least, succeeds. -/
def mcAllocateSortBuffer (granted : Bool) (s : State) : Bool × State :=
  if granted then (true, s) else (false, s.emit [.mmapFailed])

/-! ### Block by block -/

/-- The body of the last loop of `__print_all_memblk_on_hashtable`. -/
def printMemblk (x : State × ℤ) (n : ℕ) : Option (State × ℤ) := do
  let (s, cnt) := x
  s.blocks.check n
  let callstack ← s.printCallstack (s.blocks.allocator n) 2
  return (s.emit [.block cnt (s.blocks.memptr n).ptr (s.blocks.memblk n).usrsize callstack],
    ← incInt cnt)

/-- `__print_all_memblk_on_hashtable`. -/
def printAllMemblkOnHashtable (granted : Bool) (id : TableId) (s : State) : Option State := do
  let (s, _) ← s.countMemblk id
  let (ok, s) := s.mcAllocateSortBuffer granted
  if ¬ok then return s
  let (s, array) ← forEachMemblk id (fun n x ↦ some (x.1, x.2 ++ [n])) (s, [])
  let sorted := array.mergeSort fun m n ↦
    compareByAllocMemblk (s.blocks.memblk m).usrsize (s.blocks.memblk n).usrsize ≤ 0
  let (s, _) ← sorted.foldlM printMemblk (s, 0)
  return s

/-! ### By callstack -/

/-- The nodes in the list of one callstack. -/
def groupList (c : ℕ) (link : LinkIndex) (s : State) : Option (List ℕ) :=
  s.blocks.groupNodes s.blocks.rounds ((s.callstacks.node c).sameCallstackGroupNext link)

/-- The sizes of the blocks in the list of one callstack. -/
def groupSizes (c : ℕ) (link : LinkIndex) (s : State) : Option (List ℕ) := do
  return (← s.groupList c link).map fun n ↦ (s.blocks.memblk n).usrsize

/-- A store into `total_size`. -/
def setTotalSize (c : ℕ) (size : ℤ) (s : State) : State :=
  { s with callstacks := s.callstacks.modify c fun x ↦ { x with totalSize := size } }

/-- `callstack->total_size += (int64_t)usrsize` for one block after the other. -/
def addSizes (sizes : List ℕ) (total : ℤ) : ℤ :=
  sizes.foldl (fun total size ↦ toInt64 (total + toInt64 size)) total

/-- `callstack->total_size -= (int64_t)usrsize` for one block after the other. -/
def subSizes (sizes : List ℕ) (total : ℤ) : ℤ :=
  sizes.foldl (fun total size ↦ toInt64 (total - toInt64 size)) total

/-- `mc_sort_per_callstack`. -/
def mcSortPerCallstack (array : List ℕ) (s : State) : List ℕ :=
  array.mergeSort fun c d ↦
    comparePerCallstack (s.callstacks.node c).totalSize (s.callstacks.node d).totalSize ≤ 0

/-- The lists of the callstack are empty. -/
def groupsEmpty (links : List LinkIndex) (c : ℕ) (s : State) : Bool :=
  links.all fun link ↦ (s.callstacks.node c).sameCallstackGroupNext link = 0

/-- The loops that count the callstacks with blocks, with a counter of one type or another. -/
def countCallstacks (inc : ℤ → Option ℤ) (links : List LinkIndex) (s : State) :
    Option (State × ℤ) :=
  forEachCallstack (fun c x ↦ do
    if x.1.groupsEmpty links c then return x
    return (x.1, ← inc x.2)) (s, 0)

/-- The body of the loop of `__print_all_memblk_per_callstack` that sums up the sizes. -/
def sumCallstack (link : LinkIndex) (c : ℕ) (x : State × List ℕ) : Option (State × List ℕ) := do
  let s := x.1.setTotalSize c 0
  if s.groupsEmpty [link] c then return (s, x.2)
  let sizes ← s.groupSizes c link
  return (s.setTotalSize c (addSizes sizes 0), x.2 ++ [c])

/-- The body of the last loop of `__print_all_memblk_per_callstack`. -/
def printCallstackGroup (link : LinkIndex) (x : State × ℤ) (c : ℕ) : Option (State × ℤ) := do
  let (s, cnt) := x
  let sizes ← s.groupSizes c link
  let callstack ← s.printCallstack c 2
  return (s.emit [.group cnt sizes [] (s.callstacks.node c).totalSize callstack], ← incInt cnt)

/-- `__print_all_memblk_per_callstack`. -/
def printAllMemblkPerCallstack (granted : Bool) (link : LinkIndex) (s : State) : Option State := do
  let (s, _) ← s.countCallstacks incInt [link]
  let (ok, s) := s.mcAllocateSortBuffer granted
  if ¬ok then return s
  let (s, array) ← forEachCallstack (sumCallstack link) (s, [])
  let (s, _) ← (s.mcSortPerCallstack array).foldlM (printCallstackGroup link) (s, 0)
  return s

/-! ### Comparing -/

/-- The line with a number of blocks, and these. -/
def printRemainings (granted : Bool) (id : TableId) (num : ℤ) (some_ none_ : Event) (s : State) :
    Option State :=
  if num ≠ 0 then printAllMemblkOnHashtable granted id (s.emit [some_]) else some (s.emit [none_])

/-- `mc_compare_snapshot_and_current_alloc_memblk`. -/
def mcCompareSnapshotAndCurrentAllocMemblk (env : CommandEnv) (s : State) : Option State := do
  let s ← s.mcLinkSameCallstackGroup .liveCopy .current
  let s ← s.mcLinkSameCallstackGroup .snapshotCopy .snapshot
  let (s, numCurrent, numSnapshot) ← s.offsetSnapshotAgainstCurrentAllocMemblk
  let s ← s.printRemainings (env.sortBuffer 0) .liveCopy numCurrent
    (.blocksIncreased numCurrent) .noBlockIncreased
  let s ← s.printRemainings (env.sortBuffer 1) .snapshotCopy numSnapshot
    (.blocksDecreased numSnapshot) .noBlockDecreased
  let s ← s.mcResetSameCallstackGroup .current
  s.mcResetSameCallstackGroup .snapshot

/-- The body of the loop of `mc_compare_snapshot_and_current_alloc_memblk_per_callstack` that sums
up the sizes. -/
def sumBothCallstack (c : ℕ) (x : State × List ℕ) : Option (State × List ℕ) := do
  if x.1.groupsEmpty [.current, .snapshot] c then return x
  let s := x.1.setTotalSize c 0
  let sizes ← s.groupSizes c .current
  let s := s.setTotalSize c (addSizes sizes (s.callstacks.node c).totalSize)
  let sizes ← s.groupSizes c .snapshot
  return (s.setTotalSize c (subSizes sizes (s.callstacks.node c).totalSize), x.2 ++ [c])

/-- The body of its last loop. -/
def printBothCallstackGroups (x : State × ℤ) (c : ℕ) : Option (State × ℤ) := do
  let (s, cnt) := x
  let sizes ← s.groupSizes c .current
  let snapshotSizes ← s.groupSizes c .snapshot
  let callstack ← s.printCallstack c 2
  return (s.emit [.group cnt sizes snapshotSizes (s.callstacks.node c).totalSize callstack],
    ← incInt cnt)

/-- `mc_compare_snapshot_and_current_alloc_memblk_per_callstack`. -/
def mcCompareSnapshotAndCurrentAllocMemblkPerCallstack (env : CommandEnv) (s : State) :
    Option (ℤ × State) := do
  let s ← s.mcLinkSameCallstackGroup .liveCopy .current
  let s ← s.mcLinkSameCallstackGroup .snapshotCopy .snapshot
  let (s, numCurrent, numSnapshot) ← s.offsetSnapshotAgainstCurrentAllocMemblk
  if numCurrent + numSnapshot = 0 then return (0, s.emit [.noBlockChanged])
  let (s, _) ← s.countCallstacks incInt64 [.current, .snapshot]
  let (ok, s) := s.mcAllocateSortBuffer (env.sortBuffer 0)
  if ¬ok then return (-1, s)
  let (s, array) ← forEachCallstack sumBothCallstack (s, [])
  let (s, _) ← (s.mcSortPerCallstack array).foldlM printBothCallstackGroups (s, 0)
  let s ← s.mcResetSameCallstackGroup .current
  let s ← s.mcResetSameCallstackGroup .snapshot
  return (0, s)

/-! ### The commands -/

/-- `mc_print_all_memblk`. -/
def mcPrintAllMemblk (env : CommandEnv) (s : State) : Option (ℤ × State) := do
  let (ret, s) ← s.mcDuplicateAllAllocMemblk .liveCopy .live
  if ret ≠ 0 then return (ret, s)
  let s ← printAllMemblkOnHashtable (env.sortBuffer 0) .liveCopy s
  return (0, ← s.mcDestroyAllAllocMemblk .liveCopy)

/-- `mc_print_all_memblk_per_callstack`. -/
def mcPrintAllMemblkPerCallstack (env : CommandEnv) (s : State) : Option (ℤ × State) := do
  let (ret, s) ← s.mcDuplicateAllAllocMemblk .liveCopy .live
  if ret ≠ 0 then return (ret, s)
  let s ← s.mcLinkSameCallstackGroup .liveCopy .current
  let s ← printAllMemblkPerCallstack (env.sortBuffer 0) .current s
  let s ← s.mcResetSameCallstackGroup .current
  return (0, ← s.mcDestroyAllAllocMemblk .liveCopy)

/-- `mc_create_snapshot`. -/
def mcCreateSnapshot (s : State) : Option (ℤ × State) := do
  let s ← s.mcDestroyAllAllocMemblk .snapshot
  s.mcDuplicateAllAllocMemblk .snapshot .live

/-- `mc_destroy_snapshot`. -/
def mcDestroySnapshot (s : State) : Option State :=
  s.mcDestroyAllAllocMemblk .snapshot

/-- `mc_compare_with_snapshot`. -/
def mcCompareWithSnapshot (env : CommandEnv) (s : State) : Option (ℤ × State) := do
  let (ret, s) ← s.mcDuplicateAllAllocMemblk .liveCopy .live
  if ret ≠ 0 then return (ret, s)
  let (ret, s) ← s.mcDuplicateAllAllocMemblk .snapshotCopy .snapshot
  if ret ≠ 0 then return (ret, s)
  let s ← s.mcCompareSnapshotAndCurrentAllocMemblk env
  let s ← s.mcDestroyAllAllocMemblk .liveCopy
  return (0, ← s.mcDestroyAllAllocMemblk .snapshotCopy)

/-- `mc_compare_with_snapshot_per_callstack`. -/
def mcCompareWithSnapshotPerCallstack (env : CommandEnv) (s : State) : Option (ℤ × State) := do
  let (ret, s) ← s.mcDuplicateAllAllocMemblk .liveCopy .live
  if ret ≠ 0 then return (ret, s)
  let (ret, s) ← s.mcDuplicateAllAllocMemblk .snapshotCopy .snapshot
  if ret ≠ 0 then return (ret, s)
  let (_, s) ← s.mcCompareSnapshotAndCurrentAllocMemblkPerCallstack env
  let s ← s.mcDestroyAllAllocMemblk .liveCopy
  return (0, ← s.mcDestroyAllAllocMemblk .snapshotCopy)

end State

/-- The commands that copy the table of live blocks. -/
inductive Command
  | printAllMemblk
  | printAllMemblkPerCallstack
  | createSnapshot
  | destroySnapshot
  | compareWithSnapshot
  | compareWithSnapshotPerCallstack
deriving DecidableEq

/-- What a command returns, `0` if it returns nothing, and the state after it. -/
def Command.exec (env : CommandEnv) : Command → State → Option (ℤ × State)
  | .printAllMemblk, s => s.mcPrintAllMemblk env
  | .printAllMemblkPerCallstack, s => s.mcPrintAllMemblkPerCallstack env
  | .createSnapshot, s => s.mcCreateSnapshot
  | .destroySnapshot, s => s.mcDestroySnapshot.map (0, ·)
  | .compareWithSnapshot, s => s.mcCompareWithSnapshot env
  | .compareWithSnapshotPerCallstack, s => s.mcCompareWithSnapshotPerCallstack env

end Memchk
