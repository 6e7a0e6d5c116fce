import Memchk.Words
import Memchk.Library.Linked

/-!
# The pool allocator

The allocator of `memchk_allocator.c`. A pool is a chain of pages; every page starts with a header
and carries slots of one size behind it, and the bitmap in the header has a bit set for every free
slot. The first page of the chain is static, the others come from `mmap` in batches of four.

## The state

`Pool` holds the headers by address. Two of its fields are not memory of the allocator: `mmaps` are
the answers that the kernel will give to the `mmap` calls to come (`none` is `MAP_FAILED`, and so is
the end of the list), and `pages` records the pages the pool has got so far, oldest first. The loops
over the chain count rounds against `pages`: a walk that tests more pages than there are has met one
of them twice and does not end.

## The operations

`mcAllocatorInit` sets up the static page. `mcAllocatorAlloc` searches a page with a free slot from
`next_available_pool` of the static page on, maps a batch where the chain ends, and takes the lowest
free slot. `mcAllocatorFree` finds the page of a block by rounding its address down, sets the bit,
and moves `next_available_pool` to that page if the page has strictly more free slots than the one
the search would start at.

## Reading the definitions

The functions keep the names and the order of the C source, static helpers included. The three words
of the bitmap are 64-bit vectors, since `__builtin_ffsl` and the shifts depend on the width; indices
are `int`, so that the `-1` of a full bitmap is what it is in the source. The header sizes and
alignments come from `sizeof` of the C structures on a machine with 64-bit pointers.
-/

namespace Memchk

/-- `struct memblk_pool_header`. -/
structure MemblkPoolHeader where
  size : ℕ
  numMemblkInPool : ℕ
  numFree : ℤ
  seqno : ℕ
  bitmap : Fin 3 → BitVec 64
  top : ℕ
  prevPoolLink : ℕ
  nextPoolLink : ℕ
  /-- Only used in the first header. -/
  nextAvailablePool : ℕ
deriving Inhabited

/-- The headers by address. -/
abbrev Headers := ℕ → MemblkPoolHeader

/-- A pool: its headers, the kernel's answers to come, and the pages it has. -/
structure Pool where
  header : Headers
  mmaps : List (Option ℕ)
  pages : List ℕ

/-- A store of `f` of the header at `a`. -/
def Headers.modify (h : Headers) (a : ℕ) (f : MemblkPoolHeader → MemblkPoolHeader) : Headers :=
  Function.update h a (f (h a))

/-- `sizeof(struct memblk_pool_header)`. -/
abbrev sizeofMemblkPoolHeader : ℕ := 80

/-- `ALIGNMENT_SIZE`. -/
abbrev alignmentSize : ℕ := 8

/-- `MMAP_BATCH_PAGE_NUM`. -/
abbrev mmapBatchPageNum : ℕ := 4

/-- The loop of `__get_aligned_size`, which takes at most `size` rounds. -/
def alignedSizeFrom (size alignment : ℕ) : ℕ → ℕ → ℕ
  | 0, ret => ret
  | rounds + 1, ret =>
    if ret < size then alignedSizeFrom size alignment rounds (ret + alignment) else ret

/-- `__get_aligned_size`. -/
def getAlignedSize (size alignment : ℕ) : ℕ :=
  alignedSizeFrom size alignment size alignment

/-- From a multiple of the alignment the loop gets to the least one that is large enough. -/
theorem alignedSizeFrom_spec {size alignment : ℕ} (hpos : 0 < alignment) {rounds k : ℕ}
    (hrounds : size ≤ k * alignment + rounds) :
    ∃ m, alignedSizeFrom size alignment rounds (k * alignment) = m * alignment ∧ k ≤ m ∧
      size ≤ m * alignment ∧ ∀ j, k ≤ j → size ≤ j * alignment → m ≤ j := by
  induction rounds generalizing k with
  | zero => exact ⟨k, rfl, le_rfl, hrounds, fun j hj _ ↦ hj⟩
  | succ rounds ih =>
    rw [alignedSizeFrom]
    split_ifs with hlt
    · have hsucc : k * alignment + alignment = (k + 1) * alignment :=
        (Nat.succ_mul k alignment).symm
      obtain ⟨m, heq, hle, hsize, hleast⟩ := ih (k := k + 1) (by omega)
      refine ⟨m, by rw [hsucc, heq], by omega, hsize, fun j hj hj' ↦ hleast j ?_ hj'⟩
      rcases hj.lt_or_eq with hkj | rfl
      · exact hkj
      · omega
    · exact ⟨k, rfl, le_rfl, not_lt.1 hlt, fun j hj _ ↦ hj⟩

/-- `__get_aligned_size` gives the least positive multiple of the alignment that is large enough. -/
theorem getAlignedSize_spec {alignment : ℕ} (hpos : 0 < alignment) (size : ℕ) :
    ∃ m, getAlignedSize size alignment = m * alignment ∧ 1 ≤ m ∧ size ≤ m * alignment ∧
      ∀ j, 1 ≤ j → size ≤ j * alignment → m ≤ j := by
  have hspec := @alignedSizeFrom_spec size alignment hpos size 1 (by omega)
  rwa [Nat.one_mul] at hspec

theorem le_getAlignedSize {alignment : ℕ} (hpos : 0 < alignment) (size : ℕ) :
    size ≤ getAlignedSize size alignment := by
  obtain ⟨m, heq, -, hle, -⟩ := getAlignedSize_spec hpos size
  exact hle.trans_eq heq.symm

/-- The first part of `__init_header`: the sizes, and a bitmap of free slots. -/
def resetHeader (header : ℕ) (memblkSize : ℕ) (h : Headers) : Headers :=
  let size := getAlignedSize sizeofMemblkPoolHeader alignmentSize
  let num := (pageSize - size) / memblkSize
  h.modify header fun x ↦
    { x with
      size := size
      numMemblkInPool := num
      numFree := num
      bitmap := fun _ ↦ BitVec.allOnes 64 }

/-- The second part of `__init_header`: the page is linked behind `prev`, if there is one. -/
def linkHeader (header : ℕ) (prev : Option ℕ) (h : Headers) : Headers :=
  match prev with
  | some prev =>
    let h := h.modify header fun x ↦
      { x with
        top := (h prev).top
        prevPoolLink := prev
        nextPoolLink := (h prev).nextPoolLink }
    let h := h.modify prev fun x ↦ { x with nextPoolLink := header }
    let seqno := (h (h header).top).seqno
    let h := h.modify (h header).top fun x ↦ { x with seqno := wrapSize (seqno + 1) }
    h.modify header fun x ↦ { x with seqno := seqno }
  | none =>
    h.modify header fun x ↦
      { x with top := header, prevPoolLink := 0, nextPoolLink := 0, seqno := 0 }

/-- `__init_header`, with `prev` the page the new one is linked behind. -/
def initHeader (header : ℕ) (memblkSize : ℕ) (prev : Option ℕ) (h : Headers) : Headers :=
  let h := linkHeader header prev (resetHeader header memblkSize h)
  h.modify (h header).top fun x ↦ { x with nextAvailablePool := header }

/-- `__get_index`. -/
def getIndex (h : Headers) (header memblk : ℕ) (memblkSize : ℕ) : ℤ :=
  toInt32 (subSize (subSize memblk header) (h header).size / memblkSize : ℕ)

/-- `__get_bufaddr`. -/
def getBufaddr (h : Headers) (header : ℕ) (index : ℤ) (memblkSize : ℕ) : ℕ :=
  (header + (h header).size + memblkSize * index).toNat

/-- The word of the bitmap and the bit in it that `__set_bitmap` and `__clear_bitmap` pick. The
index is compared as a `size_t`. -/
def bitmapBit (index : ℤ) : Fin 3 × ℕ :=
  if toSizeT index < 64 then (0, toSizeT index)
  else if toSizeT index < 128 then (1, toSizeT index - 64)
  else (2, toSizeT index - 128)

/-- `__set_bitmap`. -/
def setBitmap (index : ℤ) (x : MemblkPoolHeader) : MemblkPoolHeader :=
  let (word, bit) := bitmapBit index
  { x with bitmap := Function.update x.bitmap word (x.bitmap word ||| 1#64 <<< bit) }

/-- `__clear_bitmap`. -/
def clearBitmap (index : ℤ) (x : MemblkPoolHeader) : MemblkPoolHeader :=
  let (word, bit) := bitmapBit index
  { x with bitmap := Function.update x.bitmap word (x.bitmap word &&& ~~~(1#64 <<< bit)) }

/-- `__builtin_ffsl`: one more than the place of the lowest bit set, or `0`. -/
def builtinFfsl (x : BitVec 64) : ℕ :=
  match (List.range 64).find? fun i ↦ x.getLsbD i with
  | some i => i + 1
  | none => 0

/-- `__get_lowest_bit`. -/
def getLowestBit (x : MemblkPoolHeader) : ℤ :=
  let ret := builtinFfsl (x.bitmap 0)
  if ret = 0 then
    if x.numMemblkInPool ≤ 64 then -1
    else
      let ret := builtinFfsl (x.bitmap 1)
      if ret = 0 then
        if x.numMemblkInPool ≤ 128 then -1
        else
          let ret := builtinFfsl (x.bitmap 2)
          if ret + 128 ≤ x.numMemblkInPool then ret + 128 - 1 else -1
      else if ret + 64 ≤ x.numMemblkInPool then ret + 64 - 1 else -1
  else if ret ≤ x.numMemblkInPool then ret - 1 else -1

/-- `mc_allocator_init`. -/
def mcAllocatorInit (buf : ℕ) (memblkSize : ℕ) (h : Headers) (mmaps : List (Option ℕ)) :
    Pool where
  header := initHeader buf memblkSize none h
  mmaps := mmaps
  pages := [buf]

/-- The loop of `mc_allocator_alloc` that initialises the pages of a new batch. -/
def initBatch (memblkSize : ℕ) : ℕ → ℕ → ℕ → Pool → Pool
  | 0, _, _, p => p
  | n + 1, tmp, prev, p =>
    initBatch memblkSize n (tmp + pageSize) tmp
      { p with
        header := initHeader tmp memblkSize (some prev) p.header
        pages := p.pages ++ [tmp] }

/-- The first part of `mc_allocator_alloc`: the page and the slot index it takes, if `mmap` does
not fail. The chain is searched from `next_available_pool` onwards, and only there. -/
def findSlot (buf : ℕ) (memblkSize : ℕ) (p : Pool) : Option (Option (ℕ × ℤ) × Pool) := do
  let header := (p.header buf).nextAvailablePool
  let index := getLowestBit (p.header header)
  if index ≠ -1 then
    return (some (header, index), p)
  let (prev, header) ← seek (fun a ↦ (p.header a).nextPoolLink) 0
    (fun a ↦ (p.header a).numFree ≠ 0) (p.pages.length + 1) 0 header
  if header ≠ 0 then
    return (some (header, getLowestBit (p.header header)),
      { p with header := p.header.modify buf fun x ↦ { x with nextAvailablePool := header } })
  match p.mmaps with
  | some header :: mmaps =>
    let p := initBatch memblkSize mmapBatchPageNum header prev { p with mmaps := mmaps }
    return (some (header, getLowestBit (p.header header)),
      { p with header := p.header.modify buf fun x ↦ { x with nextAvailablePool := header } })
  | _ => return (none, { p with mmaps := p.mmaps.tail })

/-- The page and the slot index that the next `mc_allocator_alloc` uses. -/
def allocSlot (buf : ℕ) (memblkSize : ℕ) (p : Pool) : Option (ℕ × ℤ) :=
  (findSlot buf memblkSize p).bind Prod.fst

/-- The last part of `mc_allocator_alloc`: the slot is marked and counted as taken. -/
def takeSlot (header : ℕ) (index : ℤ) (p : Pool) : Pool :=
  { p with
    header := p.header.modify header fun x ↦
      { clearBitmap index x with numFree := x.numFree - 1 } }

/-- `mc_allocator_alloc`: the block and the pool after the call. -/
def mcAllocatorAlloc (buf : ℕ) (memblkSize : ℕ) (p : Pool) : Option (ℕ × Pool) := do
  match ← findSlot buf memblkSize p with
  | (none, p) => return (0, p)
  | (some (header, index), p) =>
    return (getBufaddr p.header header index memblkSize, takeSlot header index p)

/-- `mc_allocator_free`. -/
def mcAllocatorFree (buf : ℕ) (memblkSize : ℕ) (p : Pool) : Pool :=
  let header := pageMask buf
  let top := (p.header header).top
  let index := getIndex p.header header buf memblkSize
  let h := p.header.modify header fun x ↦ { setBitmap index x with numFree := x.numFree + 1 }
  let h :=
    if (h header).numFree > (h (h top).nextAvailablePool).numFree then
      h.modify top fun x ↦ { x with nextAvailablePool := header }
    else h
  { p with header := h }

end Memchk
