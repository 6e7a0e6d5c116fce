import Memchk.Allocator.Bitmap

/-!
# The invariant of the pool

`Pool.Inv top s p`: the pages of the pool form the chain that starts at the static page `top`, every
header is in order, and the pages still to come from `mmap` are new. The invariant holds after
`mc_allocator_init` and is kept by both operations; `Pool.live` is the set of the blocks handed out,
read off the bitmaps, and `mcAllocatorAlloc_spec` and `mcAllocatorFree_spec` say what the operations
do to it. Everything above the pool uses only these.

## Slots

A `SlotSize` is the size of the slots of a pool together with the proof that it is one of those the
pools are made for: with it a page has room for at least one slot and for at most 191. Two slots of
aligned pages have the same address only if they are the same slot, and different ones do not
overlap (`slotAddr_inj`, `slotAddr_disjoint`). Rounding the address of a slot down gives its page.

## The chain

`Pool.Chain` is the part of the invariant about the headers: the pages are linked from `top` to the
end, each is aligned, each header is in order and points to `top`, and `next_available_pool` is one
of them. `Pool.Inv` adds the kernel: no page of a batch still to come is in the chain.

## Initialising a header

`__init_header` is called on a page of a new batch, whose content is arbitrary, while the page
before it is already in the chain. The last section says what it does to the links, to
`next_available_pool` and to the bitmap, and that the header it leaves is in order
(`headerOk_initHeader`).
-/

namespace Memchk

/-- A slot size whose slots the three words of a bitmap can tell apart, with the bit after the
last slot to spare. The sizes of all four pools of `mc_alloc_blk_init` are of this kind. -/
structure SlotSize where
  val : ℕ
  dvd : 8 ∣ val
  pos : 1 ≤ (4096 - 80) / val
  le : (4096 - 80) / val ≤ 191

namespace SlotSize

variable (s : SlotSize)

/-- The number of slots of a page. -/
def capacity : ℕ :=
  (4096 - 80) / s.val

theorem capacity_pos : 0 < s.capacity :=
  s.pos

theorem capacity_le : s.capacity ≤ 191 :=
  s.le

/-- A slot is not empty. -/
theorem val_pos : 0 < s.val := by
  refine Nat.pos_of_ne_zero fun h ↦ ?_
  have := s.pos
  rw [h] at this
  omega

/-- The address of slot `i` of a page. -/
def slotAddr (page : ℕ) (i : ℕ) : ℕ :=
  page + 80 + s.val * i

/-- The last slot ends inside its page. -/
theorem slot_end_le {i : ℕ} (hi : i < s.capacity) : s.val * i + s.val ≤ 4016 :=
  calc s.val * i + s.val = s.val * (i + 1) := rfl
    _ ≤ s.val * s.capacity := Nat.mul_le_mul_left _ hi
    _ ≤ 4016 := Nat.mul_div_le 4016 s.val

variable {s}

/-- Rounding the address of a slot down gives its page. -/
theorem pageMask_slotAddr {page : ℕ} {i : ℕ} (hpage : page % 4096 = 0)
    (hi : i < s.capacity) : pageMask (s.slotAddr page i) = page := by
  have := s.slot_end_le hi
  have := s.val_pos
  rw [pageMask_eq, slotAddr]
  omega

/-- Slots with the same address are the same slot of the same page. -/
theorem slotAddr_inj {page page' : ℕ} {i i' : ℕ} (hpage : page % 4096 = 0)
    (hpage' : page' % 4096 = 0) (hi : i < s.capacity) (hi' : i' < s.capacity)
    (h : s.slotAddr page i = s.slotAddr page' i') : page = page' ∧ i = i' := by
  have hp : page = page' := by
    rw [← pageMask_slotAddr hpage hi, ← pageMask_slotAddr hpage' hi', h]
  subst hp
  refine ⟨rfl, Nat.eq_of_mul_eq_mul_left s.val_pos ?_⟩
  simpa [slotAddr] using h

/-- Different slots do not overlap. -/
theorem slotAddr_disjoint {page page' : ℕ} {i i' : ℕ} (hpage : page % 4096 = 0)
    (hpage' : page' % 4096 = 0) (hi : i < s.capacity) (hi' : i' < s.capacity)
    (h : s.slotAddr page i ≠ s.slotAddr page' i') :
    s.slotAddr page i + s.val ≤ s.slotAddr page' i' ∨
      s.slotAddr page' i' + s.val ≤ s.slotAddr page i := by
  have hend := s.slot_end_le hi
  have hend' := s.slot_end_le hi'
  unfold slotAddr at h ⊢
  by_cases hp : page = page'
  · subst hp
    rcases Nat.lt_trichotomy i i' with hlt | heq | hgt
    · have := Nat.mul_le_mul_left s.val hlt
      rw [Nat.mul_succ] at this
      omega
    · exact absurd (by rw [heq]) h
    · have := Nat.mul_le_mul_left s.val hgt
      rw [Nat.mul_succ] at this
      omega
  · omega

end SlotSize

/-- The slots of `alloc_memblk_pool_head`, of `sizeof(struct alloc_memblk)`. -/
def allocMemblkSize : SlotSize :=
  ⟨getAlignedSize 64 alignmentSize, by decide, by decide, by decide⟩

/-- The slots of `free_memblk_pool_head`, of `sizeof(struct free_memblk)`. -/
def freeMemblkSize : SlotSize :=
  ⟨getAlignedSize 56 alignmentSize, by decide, by decide, by decide⟩

/-- The slots of `callstack_pool_head`, of `sizeof(struct callstack)`. -/
def callstackSize : SlotSize :=
  ⟨getAlignedSize 304 alignmentSize, by decide, by decide, by decide⟩

/-- The slots of `pageregion_pool_head`, of `sizeof(struct pageregion)`. -/
def pageregionSize : SlotSize :=
  ⟨getAlignedSize 24 alignmentSize, by decide, by decide, by decide⟩

/-- The four pages of a batch. -/
def batchPages (a : ℕ) : List ℕ :=
  [a, a + 4096, a + 8192, a + 12288]

/-- The pages that the answers of the `mmap` calls to come bring. -/
def comingPages (mmaps : List (Option ℕ)) : List ℕ :=
  mmaps.flatMap fun m ↦ m.elim [] batchPages

/-- The chain of pages in order, each with its header in order. -/
structure Pool.Chain (top : ℕ) (s : SlotSize) (p : Pool) : Prop where
  linked : Linked (fun a ↦ (p.header a).nextPoolLink) 0 top p.pages
  aligned : ∀ a ∈ p.pages, a % 4096 = 0
  headerOk : ∀ a ∈ p.pages, HeaderOk s.capacity (p.header a)
  top_eq : ∀ a ∈ p.pages, (p.header a).top = top
  top_mem : top ∈ p.pages
  available : (p.header top).nextAvailablePool ∈ p.pages

/-- The invariant of a pool. -/
structure Pool.Inv (top : ℕ) (s : SlotSize) (p : Pool) : Prop extends Pool.Chain top s p where
  /-- Successful answers of `mmap` are page aligned and not null. -/
  mmaps : ∀ a, some a ∈ p.mmaps → a % 4096 = 0 ∧ a ≠ 0
  /-- `mmap` never returns a page twice. -/
  fresh : (p.pages ++ comingPages p.mmaps).Nodup

/-- The blocks handed out: the slots whose bit is clear. -/
def Pool.live (s : SlotSize) (p : Pool) : Finset ℕ :=
  p.pages.toFinset.biUnion fun page ↦
    ((Finset.range s.capacity).filter fun i ↦ (p.header page).bit i = false).image
      (s.slotAddr page)

/-- A block is live if it is a slot of a page of the pool whose bit is cleared. -/
theorem Pool.mem_live {s : SlotSize} {p : Pool} {a : ℕ} :
    a ∈ p.live s ↔ ∃ page ∈ p.pages, ∃ i < s.capacity, (p.header page).bit i = false ∧
      s.slotAddr page i = a := by
  simp only [Pool.live, Finset.mem_biUnion, List.mem_toFinset, Finset.mem_image,
    Finset.mem_filter, Finset.mem_range, and_assoc]

/-- A pool has at most as many live blocks as it has slots. -/
theorem Pool.card_live_le (s : SlotSize) (p : Pool) :
    (p.live s).card ≤ p.pages.length * s.capacity := by
  calc (p.live s).card ≤ p.pages.toFinset.card * s.capacity := by
        refine Finset.card_biUnion_le_card_mul _ _ _ fun page _ ↦ ?_
        refine Finset.card_image_le.trans ((Finset.card_filter_le _ _).trans ?_)
        rw [Finset.card_range]
    _ ≤ p.pages.length * s.capacity :=
        Nat.mul_le_mul_right _ (List.toFinset_card_le _)

/-! ### Initialising a header -/

namespace Headers

variable {h : Headers} {a b : ℕ} {f : MemblkPoolHeader → MemblkPoolHeader}

theorem modify_self : h.modify a f a = f (h a) :=
  Function.update_self ..

theorem modify_of_ne (hne : b ≠ a) : h.modify a f b = h b :=
  Function.update_of_ne hne ..

/-- A store that keeps a field of the header keeps it everywhere. -/
theorem modify_proj {β : Type*} (g : MemblkPoolHeader → β) (hg : g (f (h a)) = g (h a)) :
    g (h.modify a f b) = g (h b) := by
  by_cases hb : b = a
  · subst hb
    rw [modify_self, hg]
  · rw [modify_of_ne hb]

end Headers

section InitHeader

variable {header memblkSize : ℕ} {h : Headers} {prev : ℕ}

/-- The fields that `HeaderOk` is about. -/
def MemblkPoolHeader.slots (x : MemblkPoolHeader) : ℕ × ℕ × ℤ × (Fin 3 → BitVec 64) :=
  (x.size, x.numMemblkInPool, x.numFree, x.bitmap)

/-- `HeaderOk` depends on the bitmap and its counter only. -/
theorem HeaderOk.congr {n : ℕ} {x y : MemblkPoolHeader} (hx : HeaderOk n x)
    (h : y.slots = x.slots) : HeaderOk n y := by
  simp only [MemblkPoolHeader.slots, Prod.mk.injEq] at h
  obtain ⟨hsize, hnum, hfree, hmap⟩ := h
  have hbit : ∀ i, y.bit i = x.bit i := fun i ↦ by simp only [MemblkPoolHeader.bit, hmap]
  refine ⟨hsize.trans hx.size, hnum.trans hx.num, fun i hi hi' ↦ ?_, ?_⟩
  · rw [hbit, hx.tail i hi hi']
  · simp only [hfree, hx.numFree, MemblkPoolHeader.freeSlots, hbit]

theorem bit_congr {x y : MemblkPoolHeader} (h : y.slots = x.slots) (i : ℕ) :
    y.bit i = x.bit i := by
  simp only [MemblkPoolHeader.slots, Prod.mk.injEq] at h
  simp only [MemblkPoolHeader.bit, h.2.2.2]

/-- Linking a page does not change its slots. -/
theorem slots_initHeader (prev : Option ℕ) (a : ℕ) :
    (initHeader header memblkSize prev h a).slots = (resetHeader header memblkSize h a).slots := by
  have hlink : (linkHeader header prev (resetHeader header memblkSize h) a).slots =
      (resetHeader header memblkSize h a).slots := by
    cases prev with
    | none => exact Headers.modify_proj MemblkPoolHeader.slots rfl
    | some prev =>
      refine (Headers.modify_proj MemblkPoolHeader.slots rfl).trans ?_
      refine (Headers.modify_proj MemblkPoolHeader.slots rfl).trans ?_
      refine (Headers.modify_proj MemblkPoolHeader.slots rfl).trans ?_
      exact Headers.modify_proj MemblkPoolHeader.slots rfl
  exact (Headers.modify_proj MemblkPoolHeader.slots rfl).trans hlink

theorem slots_initHeader_of_ne (prev : Option ℕ) {a : ℕ} (ha : a ≠ header) :
    (initHeader header memblkSize prev h a).slots = (h a).slots := by
  rw [slots_initHeader, resetHeader, Headers.modify_of_ne ha]

theorem getAlignedSize_header :
    getAlignedSize sizeofMemblkPoolHeader alignmentSize = 80 := by
  decide

/-- All slots of a new page are free. -/
theorem bit_initHeader (prev : Option ℕ) {i : ℕ} (hi : i < 192) :
    (initHeader header memblkSize prev h header).bit i = true := by
  rw [bit_congr (slots_initHeader prev header), resetHeader, Headers.modify_self,
    MemblkPoolHeader.bit, BitVec.getLsbD_allOnes]
  exact decide_eq_true (bitmapBit_snd_lt hi)

/-- A header just initialised is in order: all its slots are free. -/
theorem headerOk_initHeader (s : SlotSize) (prev : Option ℕ) :
    HeaderOk s.capacity (initHeader header s.val prev h header) := by
  have hslots := @slots_initHeader header s.val h prev header
  have hfree : (initHeader header s.val prev h header).freeSlots s.capacity =
      Finset.range s.capacity := by
    ext i
    have := s.capacity_le
    rw [MemblkPoolHeader.mem_freeSlots, Finset.mem_range]
    exact ⟨And.left, fun hi ↦ ⟨hi, bit_initHeader prev (by omega)⟩⟩
  rw [resetHeader, Headers.modify_self, getAlignedSize_header] at hslots
  simp only [MemblkPoolHeader.slots, Prod.mk.injEq] at hslots
  refine ⟨hslots.1, hslots.2.1, fun i _ hi ↦ bit_initHeader prev hi, ?_⟩
  rw [hfree, Finset.card_range]
  exact hslots.2.2.1

/-- The links of the headers after a page was put in behind `prev`. -/
theorem nextPoolLink_initHeader (hprev : prev ≠ header) :
    (fun a ↦ (initHeader header memblkSize (some prev) h a).nextPoolLink) =
      Function.update (Function.update (fun a ↦ (h a).nextPoolLink) header
        (h prev).nextPoolLink) prev header := by
  have hreset : ∀ a, (resetHeader header memblkSize h a).nextPoolLink = (h a).nextPoolLink :=
    fun a ↦ Headers.modify_proj MemblkPoolHeader.nextPoolLink rfl
  funext a
  refine (Headers.modify_proj MemblkPoolHeader.nextPoolLink rfl).trans ?_
  refine (Headers.modify_proj MemblkPoolHeader.nextPoolLink rfl).trans ?_
  refine (Headers.modify_proj MemblkPoolHeader.nextPoolLink rfl).trans ?_
  by_cases ha : a = prev
  · subst ha
    rw [Headers.modify_self, Function.update_self]
  · rw [Headers.modify_of_ne ha, Function.update_of_ne ha]
    by_cases ha' : a = header
    · subst ha'
      rw [Headers.modify_self, Function.update_self]
      exact hreset prev
    · rw [Headers.modify_of_ne ha', Function.update_of_ne ha', hreset]

/-- A page that is linked gets the static page from its predecessor. -/
theorem top_linkHeader (prev a : ℕ) :
    (linkHeader header (some prev) (resetHeader header memblkSize h) a).top =
      if a = header then (h prev).top else (h a).top := by
  have hreset : ∀ a, (resetHeader header memblkSize h a).top = (h a).top :=
    fun a ↦ Headers.modify_proj MemblkPoolHeader.top rfl
  refine (Headers.modify_proj MemblkPoolHeader.top rfl).trans ?_
  refine (Headers.modify_proj MemblkPoolHeader.top rfl).trans ?_
  refine (Headers.modify_proj MemblkPoolHeader.top rfl).trans ?_
  split_ifs with ha
  · subst ha
    rw [Headers.modify_self]
    exact hreset prev
  · rw [Headers.modify_of_ne ha, hreset]

/-- A new page gets the static page from its predecessor. -/
theorem top_initHeader (prev a : ℕ) :
    (initHeader header memblkSize (some prev) h a).top =
      if a = header then (h prev).top else (h a).top := by
  exact (Headers.modify_proj MemblkPoolHeader.top rfl).trans (top_linkHeader prev a)

theorem nextAvailablePool_initHeader (prev : ℕ) :
    (initHeader header memblkSize (some prev) h (h prev).top).nextAvailablePool = header := by
  rw [initHeader, top_linkHeader, if_pos rfl, Headers.modify_self]

end InitHeader

end Memchk
