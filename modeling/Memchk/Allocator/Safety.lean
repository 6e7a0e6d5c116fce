import Memchk.Allocator.Spec
import Mathlib.Logic.Relation

/-!
# Runs of the pool

A run is any sequence of `mc_allocator_alloc` and `mc_allocator_free` from `mc_allocator_init` in
which only blocks that are handed out are given back. Next to the pool it keeps the blocks handed
out, each with the page and the slot index it was taken from: what is live is said by the history of
the calls, not by the bitmaps, and `PoolRun.tracks` is the invariant that ties the two together.

## The kernel

`KernelAnswers top mmaps` is the promise of `mmap` for a run: the batches it will return are
aligned, not null, disjoint from each other and from the static page. Any of the answers may be
`MAP_FAILED`. `kernelAnswers_batchesFrom` gives any number of answers of this kind.

## The invariant

`PoolState.Tracks` says that the pool is in order and that its live blocks are those of the history.
Each kind of step keeps it: an allocation that succeeds adds a block that was not there
(`Tracks.notMem_blocks`), one that fails changes nothing for the blocks, and a release removes
exactly the block released. `Tracks.step` collects the three, and `PoolRun.tracks` is the induction.

## Main results

`poolRun_safe` reads everything a user of the pool relies on off the invariant: the bitmap and
`num_free` agree with the blocks handed out, `next_available_pool` is a page of the pool, the index
of a block is recovered from its address, blocks never overlap one another or a header, and an
`mmap` that fails leaves the pool as it was.
-/

namespace Memchk

/-- A block handed out, with the page and the slot index `mc_allocator_alloc` took it from. -/
structure Block where
  addr : ℕ
  page : ℕ
  index : ℤ
deriving DecidableEq

/-- A pool and the blocks handed out and not given back. -/
structure PoolState where
  pool : Pool
  blocks : Finset Block

/-- The calls of a run. -/
inductive PoolCall
  | alloc
  | free (b : Block)

/-- What one call does. A failed `mmap` makes `mc_allocator_alloc` return null. -/
inductive PoolStep (top : ℕ) (s : SlotSize) : PoolCall → PoolState → PoolState → Prop
  | alloc {p p' : Pool} {blocks : Finset Block} {a page : ℕ} {index : ℤ}
      (halloc : mcAllocatorAlloc top s.val p = some (a, p')) (hne : a ≠ 0)
      (hslot : allocSlot top s.val p = some (page, index)) :
      PoolStep top s .alloc ⟨p, blocks⟩ ⟨p', insert ⟨a, page, index⟩ blocks⟩
  | allocFailed {p p' : Pool} {blocks : Finset Block}
      (halloc : mcAllocatorAlloc top s.val p = some (0, p')) :
      PoolStep top s .alloc ⟨p, blocks⟩ ⟨p', blocks⟩
  | free {p : Pool} {blocks : Finset Block} {b : Block} (hb : b ∈ blocks) :
      PoolStep top s (.free b) ⟨p, blocks⟩ ⟨mcAllocatorFree b.addr s.val p, blocks.erase b⟩

/-- What the kernel promises about the answers of `mmap`: page aligned, never null, and never a
page that is in use. -/
structure KernelAnswers (top : ℕ) (mmaps : List (Option ℕ)) : Prop where
  top_aligned : top % 4096 = 0
  top_ne : top ≠ 0
  aligned : ∀ a, some a ∈ mmaps → a % 4096 = 0 ∧ a ≠ 0
  fresh : (top :: comingPages mmaps).Nodup

/-- A kernel that answers with one batch after the other, from `base` on. -/
theorem kernelAnswers_batchesFrom {top base : ℕ} (htop : top % 4096 = 0) (hne : top ≠ 0)
    (hbase : base % 4096 = 0) (hlt : top < base) (n : ℕ) :
    KernelAnswers top ((List.range n).map fun k ↦ some (base + 16384 * k)) := by
  refine ⟨htop, hne, fun a ha ↦ ?_, ?_⟩
  · obtain ⟨k, -, hk⟩ := List.mem_map.1 ha
    obtain rfl : base + 16384 * k = a := by simpa using hk
    omega
  · have hcoming : comingPages ((List.range n).map fun k ↦ some (base + 16384 * k)) =
        (List.range n).flatMap fun k ↦ batchPages (base + 16384 * k) := by
      rw [comingPages, List.flatMap_map]
      rfl
    rw [hcoming, List.nodup_cons]
    refine ⟨?_, List.nodup_flatMap.2 ⟨?_, ?_⟩⟩
    · intro hmem
      obtain ⟨k, -, hk⟩ := List.mem_flatMap.1 hmem
      simp only [batchPages, List.mem_cons, List.not_mem_nil, or_false] at hk
      omega
    · intro k _
      simp [batchPages]
    · refine List.nodup_range.imp fun {j k} hne ↦ ?_
      intro a ha ha'
      simp only [batchPages, List.mem_cons, List.not_mem_nil, or_false] at ha ha'
      omega

theorem kernelAnswers_batches (n : ℕ) :
    KernelAnswers 4096 ((List.range n).map fun k ↦ some (8192 + 16384 * k)) :=
  kernelAnswers_batchesFrom (by decide) (by decide) (by decide) (by decide) n

/-- The state after `mc_allocator_init`. -/
def PoolState.init (top : ℕ) (s : SlotSize) (h : Headers) (mmaps : List (Option ℕ)) :
    PoolState :=
  ⟨mcAllocatorInit top s.val h mmaps, ∅⟩

/-- The states that a run can reach. -/
def PoolRun (top : ℕ) (s : SlotSize) (h : Headers) (mmaps : List (Option ℕ))
    (x : PoolState) : Prop :=
  Relation.ReflTransGen (fun x y ↦ ∃ call, PoolStep top s call x y)
    (PoolState.init top s h mmaps) x

/-- The blocks handed out are the slots whose bit is clear, each recorded with its place. -/
structure PoolState.Tracks (top : ℕ) (s : SlotSize) (x : PoolState) : Prop where
  inv : x.pool.Inv top s
  place : ∀ b ∈ x.blocks, b.page ∈ x.pool.pages ∧
    ∃ i < s.capacity, b.index = i ∧ b.addr = s.slotAddr b.page i
  live : x.blocks.image Block.addr = x.pool.live s

namespace PoolState.Tracks

variable {top : ℕ} {s : SlotSize} {x y : PoolState} {call : PoolCall}

theorem addr_mem_live (h : x.Tracks top s) {b : Block} (hb : b ∈ x.blocks) :
    b.addr ∈ x.pool.live s := by
  rw [← h.live]
  exact Finset.mem_image_of_mem _ hb

/-- A block is known by its address. -/
theorem addr_injOn (h : x.Tracks top s) {b b' : Block} (hb : b ∈ x.blocks) (hb' : b' ∈ x.blocks)
    (heq : b.addr = b'.addr) : b = b' := by
  obtain ⟨hpage, i, hi, hidx, haddr⟩ := h.place b hb
  obtain ⟨hpage', i', hi', hidx', haddr'⟩ := h.place b' hb'
  obtain ⟨hp, rfl⟩ := SlotSize.slotAddr_inj (h.inv.aligned _ hpage) (h.inv.aligned _ hpage') hi hi'
    (haddr.symm.trans (heq.trans haddr'))
  cases b
  cases b'
  simp_all

/-- What `mc_allocator_alloc` hands out was not handed out before. -/
theorem notMem_blocks (h : x.Tracks top s) {a : ℕ} {p' : Pool}
    (halloc : mcAllocatorAlloc top s.val x.pool = some (a, p')) (hne : a ≠ 0) (page : ℕ)
    (index : ℤ) : ⟨a, page, index⟩ ∉ x.blocks := by
  obtain ⟨a', p'', halloc', -, hcases⟩ := h.inv.mcAllocatorAlloc_spec
  obtain ⟨rfl, rfl⟩ : a = a' ∧ p' = p'' := by simpa [halloc] using halloc'
  rcases hcases with ⟨rfl, -⟩ | ⟨-, hnot, -⟩
  · exact absurd rfl hne
  · exact fun hmem ↦ hnot (h.addr_mem_live hmem)

/-- Allocation keeps the record. -/
theorem alloc (h : x.Tracks top s) {a page : ℕ} {index : ℤ} {p' : Pool}
    (halloc : mcAllocatorAlloc top s.val x.pool = some (a, p')) (hne : a ≠ 0)
    (hslot : allocSlot top s.val x.pool = some (page, index)) :
    PoolState.Tracks top s ⟨p', insert ⟨a, page, index⟩ x.blocks⟩ := by
  obtain ⟨a', p'', halloc', hinv, hcases⟩ := h.inv.mcAllocatorAlloc_spec
  obtain ⟨rfl, rfl⟩ : a = a' ∧ p' = p'' := by simpa [halloc] using halloc'
  rcases hcases with ⟨rfl, -⟩ | ⟨-, -, hlive, page', hpage', i, hi, hslot', haddr⟩
  · exact absurd rfl hne
  obtain ⟨rfl, rfl⟩ : page = page' ∧ index = i := by simpa [hslot] using hslot'
  refine ⟨hinv, fun b hb ↦ ?_, ?_⟩
  · rcases Finset.mem_insert.1 hb with rfl | hb
    · exact ⟨hpage', i, hi, rfl, haddr⟩
    · obtain ⟨-, j, hj, hidx, hb'⟩ := h.place b hb
      -- the pages of the pool only grow: the block is still a slot of its page
      have hmem : b.addr ∈ p'.live s := by
        rw [hlive]
        exact Finset.mem_insert_of_mem (h.addr_mem_live hb)
      obtain ⟨k, hk, hpage, hk', -, -⟩ := hinv.locate hmem
      refine ⟨?_, j, hj, hidx, hb'⟩
      have hmask := SlotSize.pageMask_slotAddr (h.inv.aligned _ (h.place b hb).1) hj
      rwa [hb', hmask] at hpage
  · rw [Finset.image_insert, h.live, hlive]

/-- A failed allocation keeps the invariant, with the blocks as before. -/
theorem allocFailed (h : x.Tracks top s) {p' : Pool}
    (halloc : mcAllocatorAlloc top s.val x.pool = some (0, p')) :
    PoolState.Tracks top s ⟨p', x.blocks⟩ := by
  obtain ⟨a', p'', halloc', hinv, hcases⟩ := h.inv.mcAllocatorAlloc_spec
  obtain ⟨rfl, rfl⟩ : 0 = a' ∧ p' = p'' := by simpa [halloc] using halloc'
  rcases hcases with ⟨-, rfl, -⟩ | ⟨hne, -⟩
  · exact ⟨hinv, h.place, h.live⟩
  · exact absurd rfl hne

/-- Giving back a block that is handed out keeps the invariant. -/
theorem free (h : x.Tracks top s) {b : Block} (hb : b ∈ x.blocks) :
    PoolState.Tracks top s ⟨mcAllocatorFree b.addr s.val x.pool, x.blocks.erase b⟩ := by
  obtain ⟨hinv, hlive, hpages⟩ := h.inv.mcAllocatorFree_spec (h.addr_mem_live hb)
  refine ⟨hinv, fun c hc ↦ ?_, ?_⟩
  · change c.page ∈ (mcAllocatorFree b.addr s.val x.pool).pages ∧ _
    rw [hpages]
    exact h.place c (Finset.mem_of_mem_erase hc)
  · rw [hlive, ← h.live]
    ext a
    simp only [Finset.mem_image, Finset.mem_erase]
    constructor
    · rintro ⟨c, ⟨hne, hc⟩, rfl⟩
      exact ⟨fun heq ↦ hne (h.addr_injOn hc hb heq), c, hc, rfl⟩
    · rintro ⟨hne, c, hc, rfl⟩
      exact ⟨c, ⟨fun heq ↦ hne (by rw [heq]), hc⟩, rfl⟩

/-- Every call keeps the record. -/
theorem step (h : x.Tracks top s) (hstep : PoolStep top s call x y) : y.Tracks top s := by
  cases hstep with
  | alloc halloc hne hslot => exact h.alloc halloc hne hslot
  | allocFailed halloc => exact h.allocFailed halloc
  | free hb => exact h.free hb

theorem init (s : SlotSize) {h : Headers} {mmaps : List (Option ℕ)}
    (hk : KernelAnswers top mmaps) : (PoolState.init top s h mmaps).Tracks top s := by
  obtain ⟨hinv, hlive⟩ := Pool.inv_mcAllocatorInit s h hk.top_aligned hk.top_ne hk.aligned hk.fresh
  exact ⟨hinv, fun b hb ↦ absurd hb (Finset.notMem_empty b), hlive.symm⟩

/-- The bit of a slot is clear exactly when a block handed out was taken from it. -/
theorem bit_eq_false_iff (h : x.Tracks top s) {page i : ℕ} (hpage : page ∈ x.pool.pages)
    (hi : i < s.capacity) :
    (x.pool.header page).bit i = false ↔ ∃ b ∈ x.blocks, b.page = page ∧ b.index = i := by
  constructor
  · intro hbit
    have hmem : s.slotAddr page i ∈ x.pool.live s :=
      Pool.mem_live.2 ⟨page, hpage, i, hi, hbit, rfl⟩
    rw [← h.live] at hmem
    obtain ⟨b, hb, haddr⟩ := Finset.mem_image.1 hmem
    obtain ⟨hbpage, j, hj, hidx, hb'⟩ := h.place b hb
    obtain ⟨hp, rfl⟩ := SlotSize.slotAddr_inj (h.inv.aligned _ hbpage) (h.inv.aligned _ hpage) hj hi
      (hb'.symm.trans haddr)
    exact ⟨b, hb, hp, hidx⟩
  · rintro ⟨b, hb, rfl, hidx⟩
    obtain ⟨-, j, hj, hidx', haddr⟩ := h.place b hb
    obtain rfl : i = j := by
      rw [hidx] at hidx'
      exact_mod_cast hidx'
    obtain ⟨page', hpage', k, hk, hbit, heq⟩ := Pool.mem_live.1 (h.addr_mem_live hb)
    obtain ⟨rfl, rfl⟩ := SlotSize.slotAddr_inj (h.inv.aligned _ hpage') (h.inv.aligned _ hpage) hk
      hi (heq.trans haddr)
    exact hbit

/-- `num_free` counts the slots that no block handed out occupies. -/
theorem numFree_eq (h : x.Tracks top s) {page : ℕ} (hpage : page ∈ x.pool.pages) :
    (x.pool.header page).numFree =
      s.capacity - (x.blocks.filter fun b ↦ b.page = page).card := by
  have hcard : (x.blocks.filter fun b ↦ b.page = page).card =
      ((Finset.range s.capacity).filter fun i ↦ ¬ (x.pool.header page).bit i = true).card := by
    refine Finset.card_bij' (fun b _ ↦ b.index.toNat)
      (fun i _ ↦ ⟨s.slotAddr page i, page, i⟩) ?_ ?_ ?_ ?_
    · intro b hmem
      obtain ⟨hb, rfl⟩ := Finset.mem_filter.1 hmem
      obtain ⟨-, i, hi, hidx, -⟩ := h.place b hb
      simp only [hidx, Int.toNat_natCast, Finset.mem_filter, Finset.mem_range, hi, true_and]
      rw [(h.bit_eq_false_iff hpage hi).2 ⟨b, hb, rfl, hidx⟩]
      simp
    · intro i hi
      obtain ⟨hi, hbit⟩ := Finset.mem_filter.1 hi
      have hbit' : (x.pool.header page).bit i = false := by simpa using hbit
      obtain ⟨b, hb, rfl, hidx⟩ :=
        (h.bit_eq_false_iff hpage (Finset.mem_range.1 hi)).1 hbit'
      obtain ⟨-, j, -, hidx', haddr⟩ := h.place b hb
      obtain rfl : i = j := by
        rw [hidx] at hidx'
        exact_mod_cast hidx'
      refine Finset.mem_filter.2 ⟨?_, rfl⟩
      rw [← haddr, ← hidx]
      exact hb
    · intro b hmem
      obtain ⟨hb, rfl⟩ := Finset.mem_filter.1 hmem
      obtain ⟨-, i, -, hidx, haddr⟩ := h.place b hb
      cases b
      simp_all
    · intro i _
      simp
  have hsplit := Finset.card_filter_add_card_filter_not (s := Finset.range s.capacity)
    (fun i ↦ (x.pool.header page).bit i = true)
  rw [Finset.card_range] at hsplit
  rw [(h.inv.headerOk page hpage).numFree, hcard, MemblkPoolHeader.freeSlots]
  omega

/-- The address of a block handed out gives back its page and its slot index. -/
theorem getIndex_eq (h : x.Tracks top s) {b : Block} (hb : b ∈ x.blocks) :
    pageMask b.addr = b.page ∧ getIndex x.pool.header (pageMask b.addr) b.addr s.val = b.index := by
  obtain ⟨hpage, i, hi, hidx, haddr⟩ := h.place b hb
  have hmask : pageMask b.addr = b.page := by
    rw [haddr, SlotSize.pageMask_slotAddr (h.inv.aligned _ hpage) hi]
  obtain ⟨j, hj, -, haddr', -, hget⟩ := h.inv.locate (h.addr_mem_live hb)
  rw [hmask] at haddr'
  obtain ⟨-, rfl⟩ := SlotSize.slotAddr_inj (h.inv.aligned _ hpage) (h.inv.aligned _ hpage) hi hj
    (haddr.symm.trans haddr')
  exact ⟨hmask, hget.trans hidx.symm⟩

/-- A new block lies in the slot area of a page and meets no block handed out. -/
theorem alloc_disjoint (h : x.Tracks top s) {page i : ℕ} (hpage : page % 4096 = 0)
    (hi : i < s.capacity) (hnot : s.slotAddr page i ∉ x.pool.live s) {b : Block}
    (hb : b ∈ x.blocks) :
    s.slotAddr page i + s.val ≤ b.addr ∨ b.addr + s.val ≤ s.slotAddr page i := by
  obtain ⟨hbpage, j, hj, -, haddr⟩ := h.place b hb
  have hne : s.slotAddr page i ≠ s.slotAddr b.page j := by
    intro heq
    rw [heq, ← haddr] at hnot
    exact hnot (h.addr_mem_live hb)
  rw [haddr]
  exact SlotSize.slotAddr_disjoint hpage (h.inv.aligned _ hbpage) hi hj hne

end PoolState.Tracks

/-- Every state of a run keeps the record of the blocks handed out. -/
theorem PoolRun.tracks {top : ℕ} {s : SlotSize} {h : Headers} {mmaps : List (Option ℕ)}
    {x : PoolState} (hk : KernelAnswers top mmaps) (hrun : PoolRun top s h mmaps x) :
    x.Tracks top s := by
  induction hrun with
  | refl => exact .init s hk
  | tail _ hstep ih => exact ih.step hstep.choose_spec

/-- The state after one `mc_allocator_alloc` in a fresh pool for `struct alloc_memblk`. -/
def oneBlock : PoolState :=
  let p := mcAllocatorInit 4096 64 (fun _ ↦ default) []
  ⟨((mcAllocatorAlloc 4096 64 p).getD (0, p)).2, {⟨4176, 4096, 0⟩}⟩

/-- The allocation that hands out the first slot of the static page. -/
theorem oneBlock_step :
    PoolStep 4096 allocMemblkSize .alloc
      (PoolState.init 4096 allocMemblkSize (fun _ ↦ default) []) oneBlock := by
  have hfst : (mcAllocatorAlloc 4096 64 (mcAllocatorInit 4096 64 (fun _ ↦ default) [])).map
      Prod.fst = some 4176 := by decide +kernel
  obtain ⟨r, hr, ha⟩ := Option.map_eq_some_iff.1 hfst
  have halloc : mcAllocatorAlloc 4096 64 (mcAllocatorInit 4096 64 (fun _ ↦ default) []) =
      some (4176, oneBlock.pool) := by
    rw [oneBlock, hr, Option.getD_some, ← ha]
  exact .alloc halloc (by decide) (by decide +kernel)

/-- Safety of the pool. In every state of a run the bitmaps and counters of the pages of the chain
agree with the blocks handed out, `next_available_pool` is a page of the chain, and masking and
`__get_index` find page and slot of a block again; and the next `mc_allocator_alloc` returns,
never uses the index `-1`, hands out room inside the slot area of a page that no block overlaps,
and returns null exactly when it had to ask `mmap` and got nothing, with the pool as it was. -/
theorem poolRun_safe (s : SlotSize) {top : ℕ} {h : Headers} {mmaps : List (Option ℕ)}
    (hk : KernelAnswers top mmaps) {x : PoolState} (hrun : PoolRun top s h mmaps x) :
    Linked (fun a ↦ (x.pool.header a).nextPoolLink) 0 top x.pool.pages ∧
    (x.pool.header top).nextAvailablePool ∈ x.pool.pages ∧
    (∀ page ∈ x.pool.pages,
      (∀ i < s.capacity,
        ((x.pool.header page).bit i = false ↔ ∃ b ∈ x.blocks, b.page = page ∧ b.index = i)) ∧
      (x.pool.header page).numFree =
        s.capacity - (x.blocks.filter fun b ↦ b.page = page).card) ∧
    (∀ b ∈ x.blocks, pageMask b.addr = b.page ∧
      getIndex x.pool.header (pageMask b.addr) b.addr s.val = b.index) ∧
    ∃ a p', mcAllocatorAlloc top s.val x.pool = some (a, p') ∧
      (∀ page index, allocSlot top s.val x.pool = some (page, index) → index ≠ -1) ∧
      (a ≠ 0 → ∃ page ∈ p'.pages, ∃ i < s.capacity,
        allocSlot top s.val x.pool = some (page, (i : ℤ)) ∧
        page + 80 ≤ a ∧ a + s.val ≤ page + 80 + s.val * s.capacity ∧
        ∀ b ∈ x.blocks, a + s.val ≤ b.addr ∨ b.addr + s.val ≤ a) ∧
      (a = 0 ↔ (∀ page ∈ x.pool.ahead top, x.pool.Full page) ∧
        ∀ page, x.pool.mmaps.head? ≠ some (some page)) ∧
      (a = 0 → p' = { x.pool with mmaps := x.pool.mmaps.tail }) := by
  have ht := hrun.tracks hk
  refine ⟨ht.inv.linked, ht.inv.available, fun page hpage ↦
    ⟨fun i hi ↦ ht.bit_eq_false_iff hpage hi, ht.numFree_eq hpage⟩,
    fun b hb ↦ ht.getIndex_eq hb, ?_⟩
  -- what is left is about one more call
  obtain ⟨a, p', halloc, hinv, hcases⟩ := ht.inv.mcAllocatorAlloc_spec
  refine ⟨a, p', halloc, ?_, ?_, ?_, ?_⟩
  · intro page index hslot
    rcases hcases with ⟨-, -, hnone, -⟩ | ⟨-, -, -, page', -, i, -, hslot', -⟩
    · rw [hnone] at hslot
      exact absurd hslot (by simp)
    · obtain ⟨-, rfl⟩ : page = page' ∧ index = i := by simpa [hslot] using hslot'
      omega
  · intro hne
    rcases hcases with ⟨rfl, -⟩ | ⟨-, hnot, -, page, hpage, i, hi, hslot, rfl⟩
    · exact absurd rfl hne
    refine ⟨page, hpage, i, hi, hslot, by rw [SlotSize.slotAddr]; omega, ?_, fun b hb ↦
      ht.alloc_disjoint (hinv.aligned page hpage) hi hnot hb⟩
    have hle : s.val * (i + 1) ≤ s.val * s.capacity := Nat.mul_le_mul_left _ hi
    rw [Nat.mul_succ] at hle
    rw [SlotSize.slotAddr]
    omega
  · have hfail : a = 0 → ∀ page, x.pool.mmaps.head? ≠ some (some page) := by
      intro ha
      rcases hcases with ⟨-, -, -, hm⟩ | ⟨hne, -⟩
      · exact hm
      · exact absurd ha hne
    refine ⟨fun ha ↦ ⟨?_, hfail ha⟩, fun hfull ↦ ?_⟩
    · exact ht.inv.full_of_alloc_eq_zero (by rw [halloc, ha])
    · have := ht.inv.mcAllocatorAlloc_of_full hfull.1 hfull.2
      rw [halloc] at this
      simpa using congrArg (fun r ↦ r.map Prod.fst) this
  · intro ha
    rcases hcases with ⟨-, hp', -⟩ | ⟨hne, -⟩
    · exact hp'
    · exact absurd ha hne

/-- The page and the index of the first block of a pool. -/
theorem poolRun_safe_oneBlock :
    (oneBlock.pool.header 4096).nextAvailablePool ∈ oneBlock.pool.pages ∧
      pageMask 4176 = 4096 ∧ getIndex oneBlock.pool.header (pageMask 4176) 4176 64 = 0 := by
  obtain ⟨-, havail, -, hblocks, -⟩ :=
    poolRun_safe allocMemblkSize (kernelAnswers_batches 0) (.single ⟨_, oneBlock_step⟩)
  exact ⟨havail, hblocks ⟨4176, 4096, 0⟩ (Finset.mem_singleton_self _)⟩

end Memchk
