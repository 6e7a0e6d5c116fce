import Memchk.Allocator.Spec

/-!
# The four pools

The pools of `memchk_alloc_blk.c`, one for each kind of metadata node. Their first pages are static
arrays; where the linker puts these does not matter, as long as they are page aligned. A pool
operation never fails to return, so the wrappers give the node (null if `mmap` failed) and the pool
after the call.

The modules above know a pool by the wrappers of this file and the specifications in terms of the
set of live nodes; that a node is a slot of a page is seen by none of them. Which of the four static
pages a pool starts at only matters for the pools being apart, and they are apart by being fields of
different parts of the state.
-/

namespace Memchk

/-- `alloc_memblk_pool_head`. -/
abbrev allocMemblkPoolHead : ℕ := 4096

/-- `free_memblk_pool_head`. -/
abbrev freeMemblkPoolHead : ℕ := 8192

/-- `callstack_pool_head`. -/
abbrev callstackPoolHead : ℕ := 12288

/-- `pageregion_pool_head`. -/
abbrev pageregionPoolHead : ℕ := 16384

/-- `mc_allocate_alloc_memblk`. -/
def mcAllocateAllocMemblk (p : Pool) : Option (ℕ × Pool) :=
  mcAllocatorAlloc allocMemblkPoolHead allocMemblkSize.val p

/-- `mc_free_alloc_memblk`. -/
def mcFreeAllocMemblk (buf : ℕ) (p : Pool) : Pool :=
  mcAllocatorFree buf allocMemblkSize.val p

/-- `mc_allocate_free_memblk`. -/
def mcAllocateFreeMemblk (p : Pool) : Option (ℕ × Pool) :=
  mcAllocatorAlloc freeMemblkPoolHead freeMemblkSize.val p

/-- `mc_free_free_memblk`. -/
def mcFreeFreeMemblk (buf : ℕ) (p : Pool) : Pool :=
  mcAllocatorFree buf freeMemblkSize.val p

/-- `mc_allocate_callstack`. -/
def mcAllocateCallstack (p : Pool) : Option (ℕ × Pool) :=
  mcAllocatorAlloc callstackPoolHead callstackSize.val p

/-- `mc_allocate_pageregion`. -/
def mcAllocatePageregion (p : Pool) : Option (ℕ × Pool) :=
  mcAllocatorAlloc pageregionPoolHead pageregionSize.val p

/-- `mc_free_pageregion`. -/
def mcFreePageregion (buf : ℕ) (p : Pool) : Pool :=
  mcAllocatorFree buf pageregionSize.val p

/-- The nodes that `k` allocations in a row give, up to the first that fails, and the pool after
them. -/
def takeNodes (allocate : Pool → Option (ℕ × Pool)) : ℕ → Pool → List ℕ × Pool
  | 0, p => ([], p)
  | k + 1, p =>
    match allocate p with
    | some (n, p') =>
      if n = 0 then ([], p')
      else
        let (ns, q) := takeNodes allocate k p'
        (n :: ns, q)
    | none => ([], p)

/-- A bound on the rounds of a loop along nodes of the pool: with more rounds than there are slots
the loop has met a slot twice. -/
def Pool.rounds (s : SlotSize) (p : Pool) : ℕ :=
  p.pages.length * s.capacity + 1

end Memchk
