import Memchk.Allocator.Invariant

/-!
# What the operations of the pool do

`findSlot_cases` lists everything the search for a slot can end in: a page with a free slot at or
behind `next_available_pool`, a new batch of pages, or a failed `mmap`. The specifications of
`mc_allocator_alloc` and `mc_allocator_free` in terms of the set of live blocks follow from it.

## The pages ahead and behind

`next_available_pool` cuts the chain in two. The search looks at the pages from it on, `ahead`, and
never at those before it, `behind`: a free slot behind is not found until `mc_allocator_free` moves
the start back. Both parts together are all pages (`behind_append_ahead`), and the search returns
because the pages ahead are finitely many.

## Steps that leave the slots alone

Moving `next_available_pool` to a page that was walked past, and adding a batch, change links only.
They are `setAvailable` and `addBatch`, with the invariant kept and the set of live blocks the same.
A batch is added header by header (`Chain.append`, `Chain.initBatch`), each becoming the last page.

## Steps on one slot

`takeSlot` and `putSlot` clear and set one bit and keep the counter in step. Both are `modify` at
one header with a function that leaves the links alone, and `Inv.modify` keeps the invariant for all
such functions.

## Main results

* `Inv.mcAllocatorAlloc_spec`: the call returns; its block is new and becomes live, or it is null,
  nothing has changed for the live blocks and the kernel has refused.
* `Inv.mcAllocatorFree_spec`: giving a live block back keeps the invariant and removes exactly that
  block from the live ones.
* `inv_mcAllocatorInit`: the invariant holds after `mc_allocator_init`, with no block live.
-/

namespace Memchk

namespace Pool

variable {top : ℕ} {s : SlotSize} {p : Pool}

/-- The store into `next_available_pool` of the first header. -/
def setAvailable (top page : ℕ) (p : Pool) : Pool :=
  { p with header := p.header.modify top fun x ↦ { x with nextAvailablePool := page } }

/-- The pages the search of `mc_allocator_alloc` can reach. -/
def ahead (top : ℕ) (p : Pool) : List ℕ :=
  p.pages.dropWhile (· ≠ (p.header top).nextAvailablePool)

/-- The pages in front of `next_available_pool`, which the search never looks at. -/
def behind (top : ℕ) (p : Pool) : List ℕ :=
  p.pages.takeWhile (· ≠ (p.header top).nextAvailablePool)

theorem behind_append_ahead (top : ℕ) (p : Pool) : p.behind top ++ p.ahead top = p.pages :=
  List.takeWhile_append_dropWhile

/-- The first page ahead is `next_available_pool` itself. -/
theorem Chain.exists_ahead (h : p.Chain top s) :
    ∃ l, p.ahead top = (p.header top).nextAvailablePool :: l := by
  obtain ⟨l₁, l₂, hl, hnot⟩ := List.eq_append_cons_of_mem h.available
  have hl₁ : ∀ a ∈ l₁, decide (a ≠ (p.header top).nextAvailablePool) = true := by
    intro a ha
    simpa using ne_of_mem_of_not_mem ha hnot
  refine ⟨l₂, ?_⟩
  rw [ahead, hl, List.dropWhile_append_of_pos hl₁]
  simp

theorem mem_of_mem_ahead {a : ℕ} (h : a ∈ p.ahead top) : a ∈ p.pages := by
  rw [← behind_append_ahead top p]
  exact List.mem_append_right _ h

/-- The pages ahead are linked, up to the end of the chain. -/
theorem Chain.linked_ahead (h : p.Chain top s) :
    Linked (fun a ↦ (p.header a).nextPoolLink) 0 (p.header top).nextAvailablePool
      (p.ahead top) := by
  obtain ⟨l, hl⟩ := h.exists_ahead
  have hlinked := h.linked
  rw [← behind_append_ahead top p, hl] at hlinked
  rw [hl]
  exact hlinked.suffix

/-! ### Steps of the pool that leave the slots alone -/

theorem slots_setAvailable (page a : ℕ) :
    ((p.setAvailable top page).header a).slots = (p.header a).slots :=
  Headers.modify_proj MemblkPoolHeader.slots rfl

/-- Moving `next_available_pool` to a page of the pool keeps the chain. -/
theorem Chain.setAvailable (h : p.Chain top s) {page : ℕ} (hpage : page ∈ p.pages) :
    (p.setAvailable top page).Chain top s where
  linked := h.linked.congr fun a _ ↦ Headers.modify_proj MemblkPoolHeader.nextPoolLink rfl
  aligned := h.aligned
  headerOk a ha := (h.headerOk a ha).congr (slots_setAvailable page a)
  top_eq a ha := (Headers.modify_proj MemblkPoolHeader.top rfl).trans (h.top_eq a ha)
  top_mem := h.top_mem
  available := by
    change (p.header.modify top _ top).nextAvailablePool ∈ _
    rw [Headers.modify_self]
    exact hpage

/-- Storing the page where the search starts already changes nothing. -/
theorem setAvailable_self (p : Pool) :
    p.setAvailable top (p.header top).nextAvailablePool = p := by
  have : p.header.modify top
      (fun x ↦ { x with nextAvailablePool := (p.header top).nextAvailablePool }) = p.header :=
    Function.update_eq_self top p.header
  rw [setAvailable, this]

/-- Linking one new page behind the last one. -/
theorem Chain.append (h : p.Chain top s) {l : List ℕ} {prev header : ℕ}
    (hl : p.pages = l ++ [prev]) (hnew : header ∉ p.pages) (hne : header ≠ 0)
    (hal : header % 4096 = 0) :
    Pool.Chain top s
      { p with
        header := initHeader header s.val (some prev) p.header
        pages := p.pages ++ [header] } := by
  have hprev : prev ∈ p.pages := by simp [hl]
  have hpn : prev ≠ header := ne_of_mem_of_not_mem hprev hnew
  have htop : (p.header prev).top = top := h.top_eq prev hprev
  refine ⟨?_, ?_, ?_, ?_, List.mem_append_left _ h.top_mem, ?_⟩
  · have hlinked := h.linked
    rw [hl] at hlinked hnew
    change Linked (fun a ↦ (initHeader header s.val (some prev) p.header a).nextPoolLink) 0 top
      (p.pages ++ [header])
    rw [nextPoolLink_initHeader hpn, hl, List.append_assoc]
    exact hlinked.insertAfter hne hnew
  · intro a ha
    rcases List.mem_append.1 ha with ha | ha
    · exact h.aligned a ha
    · rw [List.mem_singleton.1 ha]
      exact hal
  · intro a ha
    rcases List.mem_append.1 ha with ha | ha
    · exact (h.headerOk a ha).congr (slots_initHeader_of_ne _ (ne_of_mem_of_not_mem ha hnew))
    · rw [List.mem_singleton.1 ha]
      exact headerOk_initHeader s _
  · intro a ha
    change (initHeader header s.val (some prev) p.header a).top = top
    rw [top_initHeader]
    rcases List.mem_append.1 ha with ha | ha
    · rw [if_neg (ne_of_mem_of_not_mem ha hnew), h.top_eq a ha]
    · rw [if_pos (List.mem_singleton.1 ha), htop]
  · have havail := @nextAvailablePool_initHeader header s.val p.header prev
    rw [htop] at havail
    change (initHeader header s.val (some prev) p.header top).nextAvailablePool ∈ _
    rw [havail]
    simp

/-- The pages of a batch of `n`. -/
def batch (n page : ℕ) : List ℕ :=
  (List.range n).map fun k ↦ page + 4096 * k

/-- A batch is its first page and the batch behind it. -/
theorem batch_succ (n page : ℕ) : batch (n + 1) page = page :: batch n (page + 4096) := by
  simp only [batch, List.range_succ_eq_map, List.map_cons, List.map_map, Nat.mul_zero,
    Nat.add_zero, List.cons.injEq, true_and]
  refine List.map_congr_left fun k _ ↦ ?_
  simp only [Function.comp_apply, Nat.succ_eq_add_one]
  omega

/-- Linking a batch of new pages behind the last one: the pages in place keep their slots, and all
slots of the new pages are free. -/
theorem Chain.initBatch (n : ℕ) {page prev : ℕ} {l : List ℕ} (h : p.Chain top s)
    (hl : p.pages = l ++ [prev]) (hnew : ∀ a ∈ batch n page, a ∉ p.pages) (hne : page ≠ 0)
    (hal : page % 4096 = 0) :
    let p' := Memchk.initBatch s.val n page prev p
    p'.Chain top s ∧ p'.pages = p.pages ++ batch n page ∧ p'.mmaps = p.mmaps ∧
      (∀ a ∉ batch n page, (p'.header a).slots = (p.header a).slots) ∧
      ∀ a ∈ batch n page, ∀ i < 192, (p'.header a).bit i = true := by
  induction n generalizing p page prev l with
  | zero => simp [batch, Memchk.initBatch, h]
  | succ n ih =>
    rw [batch_succ] at hnew
    have hpage := hnew page List.mem_cons_self
    have h₁ := h.append hl hpage hne hal
    have hnot : page ∉ batch n (page + 4096) := by
      simp only [batch, List.mem_map, not_exists, not_and]
      intro k _
      omega
    obtain ⟨hc, hpages, hmm, hold, hbits⟩ := @ih _ (page + 4096) page _ h₁ rfl (by
      intro a ha hmem
      rcases List.mem_append.1 hmem with hmem | hmem
      · exact hnew a (List.mem_cons_of_mem _ ha) hmem
      · rw [List.mem_singleton.1 hmem] at ha
        exact hnot ha) (by omega) (by omega)
    refine ⟨hc, ?_, hmm, ?_, ?_⟩
    · rw [batch_succ]
      change (Memchk.initBatch s.val n (page + 4096) page _).pages = _
      rw [hpages, List.append_assoc]
      rfl
    · intro a ha
      rw [batch_succ, List.mem_cons, not_or] at ha
      exact (hold a ha.2).trans (slots_initHeader_of_ne _ ha.1)
    · intro a ha i hi
      rw [batch_succ] at ha
      by_cases hmem : a ∈ batch n (page + 4096)
      · exact hbits a hmem i hi
      · rcases List.mem_cons.1 ha with rfl | ha
        · change ((Memchk.initBatch s.val n (a + 4096) a _).header a).bit i = true
          rw [bit_congr (hold a hmem)]
          exact bit_initHeader _ hi
        · exact absurd ha hmem

/-! ### The search for a slot -/

/-- A page without free slots, by its counter. -/
def Full (p : Pool) (a : ℕ) : Prop :=
  (p.header a).numFree = 0

/-- The pool after a successful `mmap` that returned `page`. -/
def addBatch (top : ℕ) (s : SlotSize) (page : ℕ) (mmaps : List (Option ℕ)) (p : Pool) : Pool :=
  (initBatch s.val mmapBatchPageNum page ((p.ahead top).getLastD 0)
    { p with mmaps := mmaps }).setAvailable top page

/-- The page that a walk to the end stops at is the last one of the chain. -/
theorem Chain.exists_last (h : p.Chain top s) :
    ∃ l, p.pages = l ++ [(p.ahead top).getLastD 0] := by
  obtain ⟨l, hl⟩ := h.exists_ahead
  refine ⟨p.behind top ++ (p.ahead top).dropLast, ?_⟩
  have hlast := List.dropLast_concat_getLast (l := p.ahead top) (by simp [hl])
  have hd : (p.ahead top).getLast (by simp [hl]) = (p.ahead top).getLastD 0 := by
    simp only [hl, List.getLast_eq_getLastD, List.getLastD_cons]
  rw [hd] at hlast
  rw [List.append_assoc, hlast, behind_append_ahead]

/-- What a new batch does to the pool, `next_available_pool` aside. -/
theorem Chain.addBatch (h : p.Chain top s) {page : ℕ} (mmaps : List (Option ℕ))
    (hnew : page ≠ 0 ∧ page % 4096 = 0 ∧ ∀ a ∈ batch 4 page, a ∉ p.pages) :
    let p' := p.addBatch top s page mmaps
    p'.Chain top s ∧ p'.pages = p.pages ++ batch 4 page ∧ p'.mmaps = mmaps ∧
      (∀ a ∈ p.pages, (p'.header a).slots = (p.header a).slots) ∧
      ∀ a ∈ batch 4 page, ∀ i < 192, (p'.header a).bit i = true := by
  obtain ⟨l, hlast⟩ := h.exists_last
  have h₀ : Pool.Chain top s { p with mmaps := mmaps } :=
    ⟨h.linked, h.aligned, h.headerOk, h.top_eq, h.top_mem, h.available⟩
  obtain ⟨hc, hpages, hmm, hold, hbits⟩ :=
    h₀.initBatch mmapBatchPageNum hlast hnew.2.2 hnew.1 hnew.2.1
  refine ⟨hc.setAvailable ?_, hpages, hmm, fun a ha ↦ ?_, fun a ha i hi ↦ ?_⟩
  · rw [hpages]
    exact List.mem_append_right _ (by simp [batch])
  · exact (slots_setAvailable _ a).trans (hold a fun hmem ↦ hnew.2.2 a hmem ha)
  · exact (bit_congr (slots_setAvailable _ a) i).trans (hbits a ha i hi)

/-- Moving `next_available_pool` does not change what a page has free. -/
theorem getLowestBit_setAvailable (page : ℕ) {a : ℕ} :
    getLowestBit ((p.setAvailable top page).header a) = getLowestBit (p.header a) := by
  have h := @slots_setAvailable top p page a
  simp only [MemblkPoolHeader.slots, Prod.mk.injEq] at h
  simp only [getLowestBit, h.2.1, h.2.2.2]

/-- The search that finds a free slot right away. -/
theorem findSlot_of_available
    (hidx : getLowestBit (p.header (p.header top).nextAvailablePool) ≠ -1) :
    findSlot top s.val p =
      some (some ((p.header top).nextAvailablePool,
        getLowestBit (p.header (p.header top).nextAvailablePool)), p) := by
  simp only [findSlot, if_pos hidx]
  rfl

section Seek

variable {prev page : ℕ}
  (hidx : getLowestBit (p.header (p.header top).nextAvailablePool) = -1)
  (hseek : seek (fun a ↦ (p.header a).nextPoolLink) 0 (fun a ↦ (p.header a).numFree ≠ 0)
    (p.pages.length + 1) 0 (p.header top).nextAvailablePool = some (prev, page))

include hidx hseek

/-- The search that finds a page further on. -/
theorem findSlot_of_seek (hpage : page ≠ 0) :
    findSlot top s.val p =
      some (some (page, getLowestBit (p.header page)), p.setAvailable top page) := by
  simp only [findSlot, hidx, ne_eq, not_true_eq_false, if_false]
  simp only [ne_eq] at hseek
  rw [hseek]
  simp only [Option.bind_eq_bind, Option.bind_some, if_pos hpage]
  rfl

/-- The search that runs past the last page and gets a batch from `mmap`. -/
theorem findSlot_of_mmap (hpage : page = 0) {header : ℕ} {mmaps : List (Option ℕ)}
    (hm : p.mmaps = some header :: mmaps) :
    let p' := initBatch s.val mmapBatchPageNum header prev { p with mmaps := mmaps }
    findSlot top s.val p =
      some (some (header, getLowestBit (p'.header header)), p'.setAvailable top header) := by
  simp only [findSlot, hidx, ne_eq, not_true_eq_false, if_false]
  simp only [ne_eq] at hseek
  rw [hseek]
  simp only [Option.bind_eq_bind, Option.bind_some, hpage, not_true_eq_false, if_false, hm]
  rfl

/-- The search that runs past the last page when `mmap` fails. -/
theorem findSlot_of_mmap_failed (hpage : page = 0)
    (hm : ∀ header, p.mmaps.head? ≠ some (some header)) :
    findSlot top s.val p = some (none, { p with mmaps := p.mmaps.tail }) := by
  simp only [findSlot, hidx, ne_eq, not_true_eq_false, if_false]
  simp only [ne_eq] at hseek
  rw [hseek]
  simp only [Option.bind_eq_bind, Option.bind_some, hpage, not_true_eq_false, if_false]
  rcases hp : p.mmaps with - | ⟨- | header, mmaps⟩
  · rfl
  · rfl
  · exact absurd (by rw [hp]; rfl) (hm header)

end Seek

/-- Everything the search can end in. The slot index found is never `-1`. -/
theorem Chain.findSlot_cases (h : p.Chain top s)
    (hnew : ∀ page mmaps, p.mmaps = some page :: mmaps →
      page ≠ 0 ∧ page % 4096 = 0 ∧ ∀ a ∈ batch 4 page, a ∉ p.pages) :
    (∃ l₁ page l₂ i, p.ahead top = l₁ ++ page :: l₂ ∧ (∀ a ∈ l₁, p.Full a) ∧
        i < s.capacity ∧ (p.header page).bit i = true ∧
        findSlot top s.val p = some (some (page, (i : ℤ)), p.setAvailable top page)) ∨
      (∃ page mmaps, p.mmaps = some page :: mmaps ∧ (∀ a ∈ p.ahead top, p.Full a) ∧
        findSlot top s.val p = some (some (page, 0), p.addBatch top s page mmaps)) ∨
      (∀ page, p.mmaps.head? ≠ some (some page)) ∧ (∀ a ∈ p.ahead top, p.Full a) ∧
        findSlot top s.val p = some (none, { p with mmaps := p.mmaps.tail }) := by
  have hcap := s.capacity_le
  obtain ⟨l, hl⟩ := h.exists_ahead
  have havail := h.headerOk _ h.available
  rcases getLowestBit_spec hcap havail with ⟨hidx, hnone⟩ | ⟨i, hi, hidx, hbit, -⟩
  · -- the first page is full: the chain is searched from it on
    have hlen : (p.ahead top).length < p.pages.length + 1 := by
      have := congrArg List.length (behind_append_ahead top p)
      rw [List.length_append] at this
      omega
    rcases @seek_cases _ _ _ _ (fun a ↦ decide ((p.header a).numFree ≠ 0)) _ 0 _ _
      h.linked_ahead hlen
      with ⟨hall, hseek⟩ | ⟨l₁, page, l₂, hsplit, hbefore, hstop, hseek⟩
    · right
      have hall' : ∀ a ∈ p.ahead top, p.Full a := fun a ha ↦ by simpa [Full] using hall a ha
      by_cases hm : ∃ page, p.mmaps.head? = some (some page)
      · obtain ⟨page, hm⟩ := hm
        obtain ⟨mmaps, hm⟩ : ∃ mmaps, p.mmaps = some page :: mmaps := by
          rw [List.head?_eq_some_iff] at hm
          exact hm
        refine .inl ⟨page, mmaps, hm, hall', ?_⟩
        rw [findSlot_of_mmap hidx hseek rfl hm]
        -- the first page of the batch has its first slot free
        obtain ⟨hc, hpages, -, -, hbits⟩ := h.addBatch mmaps (hnew page mmaps hm)
        have hpage : page ∈ batch 4 page := by simp [batch]
        have hok := hc.headerOk page (by rw [hpages]; exact List.mem_append_right _ hpage)
        have hzero : getLowestBit ((p.addBatch top s page mmaps).header page) = 0 := by
          rcases getLowestBit_spec hcap hok with ⟨-, hnone'⟩ | ⟨i, hi, hidx', -, hlow⟩
          · have := hnone' 0 s.capacity_pos
            rw [hbits page hpage 0 (by omega)] at this
            exact absurd this (by simp)
          · rcases Nat.eq_zero_or_pos i with rfl | hpos
            · exact hidx'
            · have := hlow 0 hpos
              rw [hbits page hpage 0 (by omega)] at this
              exact absurd this (by simp)
        rw [← @getLowestBit_setAvailable top _ page, ← Pool.addBatch, hzero]
      · exact .inr ⟨fun page hp ↦ hm ⟨page, hp⟩, hall',
          findSlot_of_mmap_failed hidx hseek rfl fun page hp ↦ hm ⟨page, hp⟩⟩
    · have hpage : page ∈ p.pages := @mem_of_mem_ahead top _ _ (by simp [hsplit])
      have hok := h.headerOk page hpage
      have hne : (p.header page).numFree ≠ 0 := by simpa using hstop
      rcases getLowestBit_spec hcap hok with ⟨-, hnone'⟩ | ⟨i, hi, hidx', hbit, -⟩
      · exact absurd (hok.numFree_eq_zero_iff.2 hnone') hne
      · refine .inl ⟨l₁, page, l₂, i, hsplit, fun a ha ↦ by simpa [Full] using hbefore a ha, hi,
          hbit, ?_⟩
        rw [findSlot_of_seek hidx hseek (h.linked.ne_null_of_mem hpage), hidx']
  · refine .inl ⟨[], _, l, i, hl, by simp, hi, hbit, ?_⟩
    rw [findSlot_of_available (by rw [hidx]; omega), hidx, setAvailable_self]

/-! ### The specifications -/

/-- The pages of the next batch are not null, aligned and not in the pool. -/
theorem Inv.new_batch (h : p.Inv top s) (page : ℕ) (mmaps : List (Option ℕ))
    (hm : p.mmaps = some page :: mmaps) :
    page ≠ 0 ∧ page % 4096 = 0 ∧ ∀ a ∈ batch 4 page, a ∉ p.pages := by
  obtain ⟨hal, hne⟩ := h.mmaps page (by simp [hm])
  refine ⟨hne, hal, fun a ha hmem ↦ ?_⟩
  refine (List.nodup_append.1 h.fresh).2.2 a hmem a ?_ rfl
  rw [hm, comingPages, List.flatMap_cons]
  exact List.mem_append_left _ ha

theorem Inv.setAvailable (h : p.Inv top s) {page : ℕ} (hpage : page ∈ p.pages) :
    (p.setAvailable top page).Inv top s :=
  ⟨h.toChain.setAvailable hpage, h.mmaps, h.fresh⟩

/-- Adding the next batch keeps the invariant. -/
theorem Inv.addBatch (h : p.Inv top s) {page : ℕ} {mmaps : List (Option ℕ)}
    (hm : p.mmaps = some page :: mmaps) : (p.addBatch top s page mmaps).Inv top s := by
  obtain ⟨hc, hpages, hmm, -, -⟩ := h.toChain.addBatch mmaps (h.new_batch page mmaps hm)
  refine ⟨hc, fun a ha ↦ h.mmaps a ?_, ?_⟩
  · rw [hmm] at ha
    rw [hm]
    exact List.mem_cons_of_mem _ ha
  · have hfresh := h.fresh
    rw [hm] at hfresh
    rw [hpages, hmm, List.append_assoc]
    exact hfresh

/-- A failed `mmap` uses up its answer and nothing else. -/
theorem Inv.mmap_failed (h : p.Inv top s) : Pool.Inv top s { p with mmaps := p.mmaps.tail } := by
  refine ⟨⟨h.linked, h.aligned, h.headerOk, h.top_eq, h.top_mem, h.available⟩,
    fun a ha ↦ h.mmaps a (List.mem_of_mem_tail ha), ?_⟩
  refine h.fresh.sublist (List.Sublist.append_left ?_ _)
  exact (List.tail_sublist p.mmaps).flatMap _

/-- The live blocks depend on the pages and the slots only. -/
theorem live_congr {p' : Pool} (hpages : p'.pages = p.pages)
    (hslots : ∀ a ∈ p.pages, (p'.header a).slots = (p.header a).slots) : p'.live s = p.live s := by
  ext a
  rw [mem_live, mem_live, hpages]
  refine exists_congr fun page ↦ and_congr_right fun hpage ↦ ?_
  simp only [bit_congr (hslots page hpage)]

theorem live_setAvailable (page : ℕ) : (p.setAvailable top page).live s = p.live s :=
  live_congr rfl fun a _ ↦ slots_setAvailable page a

/-- New pages have no live slots. -/
theorem Inv.live_addBatch (h : p.Inv top s) {page : ℕ} {mmaps : List (Option ℕ)}
    (hm : p.mmaps = some page :: mmaps) : (p.addBatch top s page mmaps).live s = p.live s := by
  obtain ⟨-, hpages, -, hold, hbits⟩ := h.toChain.addBatch mmaps (h.new_batch page mmaps hm)
  have hcap := s.capacity_le
  ext a
  rw [mem_live, mem_live, hpages]
  constructor
  · rintro ⟨b, hb, i, hi, hbit, rfl⟩
    rcases List.mem_append.1 hb with hb | hb
    · exact ⟨b, hb, i, hi, by rw [← bit_congr (hold b hb), hbit], rfl⟩
    · rw [hbits b hb i (by omega)] at hbit
      exact absurd hbit (by simp)
  · rintro ⟨b, hb, i, hi, hbit, rfl⟩
    exact ⟨b, List.mem_append_left _ hb, i, hi, by rw [bit_congr (hold b hb), hbit], rfl⟩

section TakeSlot

variable {page i : ℕ}

theorem getBufaddr_eq (h : p.Chain top s) (hpage : page ∈ p.pages) :
    getBufaddr p.header page i s.val = s.slotAddr page i := by
  rw [getBufaddr, (h.headerOk page hpage).size, SlotSize.slotAddr]
  omega

theorem header_takeSlot_self :
    (takeSlot page i p).header page =
      { clearBitmap i (p.header page) with numFree := (p.header page).numFree - 1 } := by
  simp only [takeSlot, Headers.modify_self]

theorem header_takeSlot_of_ne {a : ℕ} (h : a ≠ page) :
    (takeSlot page i p).header a = p.header a := by
  simp only [takeSlot, Headers.modify_of_ne h]

/-- What happens to the slots of one page leaves the pool in order, as long as the header of that
page stays so. -/
theorem Inv.modify (h : p.Inv top s) {f : MemblkPoolHeader → MemblkPoolHeader}
    (hlink : ∀ x, (f x).nextPoolLink = x.nextPoolLink) (htop : ∀ x, (f x).top = x.top)
    (havailable : ∀ x, (f x).nextAvailablePool = x.nextAvailablePool)
    (hok : page ∈ p.pages → HeaderOk s.capacity (f (p.header page))) :
    ({ p with header := p.header.modify page f } : Pool).Inv top s where
  linked := h.linked.congr fun a _ ↦ Headers.modify_proj _ (hlink _)
  aligned := h.aligned
  headerOk a ha := by
    show HeaderOk s.capacity (p.header.modify page f a)
    by_cases heq : a = page
    · subst heq
      rw [Headers.modify_self]
      exact hok ha
    · rw [Headers.modify_of_ne heq]
      exact h.headerOk a ha
  top_eq a ha := (Headers.modify_proj _ (htop _)).trans (h.top_eq a ha)
  top_mem := h.top_mem
  available := by
    show (p.header.modify page f top).nextAvailablePool ∈ p.pages
    rw [Headers.modify_proj MemblkPoolHeader.nextAvailablePool (havailable _)]
    exact h.available
  mmaps := h.mmaps
  fresh := h.fresh

theorem Inv.takeSlot (h : p.Inv top s) (hpage : page ∈ p.pages) (hi : i < s.capacity)
    (hbit : (p.header page).bit i = true) : (Memchk.takeSlot page i p).Inv top s :=
  h.modify (fun _ ↦ rfl) (fun _ ↦ rfl) (fun _ ↦ rfl) fun _ ↦
    (h.headerOk page hpage).clear s.capacity_le hi hbit

/-- Taking a slot makes its block live. -/
theorem live_takeSlot (hpage : page ∈ p.pages) (hi : i < s.capacity) :
    (Memchk.takeSlot page i p).live s = insert (s.slotAddr page i) (p.live s) := by
  have hcap := s.capacity_le
  have hself : ∀ j < 192, ((Memchk.takeSlot page i p).header page).bit j =
      ((p.header page).bit j && !decide (j = i)) := by
    intro j hj
    rw [header_takeSlot_self]
    exact bit_clearBitmap (by omega) hj
  have hother : ∀ b ≠ page, (Memchk.takeSlot page i p).header b = p.header b :=
    fun b hb ↦ header_takeSlot_of_ne hb
  ext a
  rw [Finset.mem_insert, mem_live, mem_live]
  constructor
  · rintro ⟨b, hb, j, hj, hbit, rfl⟩
    by_cases hbp : b = page
    · subst hbp
      rw [hself j (by omega)] at hbit
      by_cases hji : j = i
      · exact .inl (by rw [hji])
      · exact .inr ⟨b, hb, j, hj, by simpa [hji] using hbit, rfl⟩
    · rw [hother b hbp] at hbit
      exact .inr ⟨b, hb, j, hj, hbit, rfl⟩
  · rintro (rfl | ⟨b, hb, j, hj, hbit, rfl⟩)
    · exact ⟨page, hpage, i, hi, by simp [hself i (by omega)], rfl⟩
    · refine ⟨b, hb, j, hj, ?_, rfl⟩
      by_cases hbp : b = page
      · subst hbp
        rw [hself j (by omega), hbit, Bool.false_and]
      · rw [hother b hbp, hbit]

/-- The block of a free slot is not live. -/
theorem Inv.slotAddr_notMem_live (h : p.Inv top s) (hpage : page ∈ p.pages)
    (hi : i < s.capacity) (hbit : (p.header page).bit i = true) :
    s.slotAddr page i ∉ p.live s := by
  rw [mem_live]
  rintro ⟨b, hb, j, hj, hbit', heq⟩
  obtain ⟨rfl, rfl⟩ := SlotSize.slotAddr_inj (h.aligned b hb) (h.aligned page hpage) hj hi heq
  rw [hbit] at hbit'
  exact absurd hbit' (by simp)

end TakeSlot

/-- What a call of `mc_allocator_alloc` does: it takes a free slot of the first page from
`next_available_pool` on that has one, or the first slot of a new batch, or it fails. -/
theorem Inv.mcAllocatorAlloc_cases (h : p.Inv top s) :
    (∃ l₁ page l₂ i, p.ahead top = l₁ ++ page :: l₂ ∧ (∀ a ∈ l₁, p.Full a) ∧
        i < s.capacity ∧ (p.header page).bit i = true ∧
        allocSlot top s.val p = some (page, (i : ℤ)) ∧
        mcAllocatorAlloc top s.val p =
          some (s.slotAddr page i, Memchk.takeSlot page i (p.setAvailable top page))) ∨
      (∃ page mmaps, p.mmaps = some page :: mmaps ∧ (∀ a ∈ p.ahead top, p.Full a) ∧
        allocSlot top s.val p = some (page, 0) ∧
        mcAllocatorAlloc top s.val p =
          some (s.slotAddr page 0, Memchk.takeSlot page 0 (p.addBatch top s page mmaps))) ∨
      (∀ page, p.mmaps.head? ≠ some (some page)) ∧ (∀ a ∈ p.ahead top, p.Full a) ∧
        allocSlot top s.val p = none ∧
        mcAllocatorAlloc top s.val p = some (0, { p with mmaps := p.mmaps.tail }) := by
  rcases h.toChain.findSlot_cases h.new_batch with
    ⟨l₁, page, l₂, i, hsplit, hfull, hi, hbit, hfind⟩ | ⟨page, mmaps, hm, hfull, hfind⟩ |
    ⟨hm, hfull, hfind⟩
  · have hpage : page ∈ p.pages := @mem_of_mem_ahead top _ _ (by simp [hsplit])
    refine .inl ⟨l₁, page, l₂, i, hsplit, hfull, hi, hbit, by rw [allocSlot, hfind]; rfl, ?_⟩
    rw [mcAllocatorAlloc, hfind]
    simp only [Option.bind_eq_bind, Option.bind_some,
      getBufaddr_eq (h.setAvailable hpage).toChain hpage]
    rfl
  · have hpage : page ∈ (p.addBatch top s page mmaps).pages := by
      rw [(h.toChain.addBatch mmaps (h.new_batch page mmaps hm)).2.1]
      simp [batch]
    refine .inr (.inl ⟨page, mmaps, hm, hfull, by rw [allocSlot, hfind]; rfl, ?_⟩)
    have haddr := getBufaddr_eq (i := 0) (h.addBatch hm).toChain hpage
    rw [mcAllocatorAlloc, hfind]
    simp only [Option.bind_eq_bind, Option.bind_some, ← haddr]
    rfl
  · refine .inr (.inr ⟨hm, hfull, by rw [allocSlot, hfind]; rfl, ?_⟩)
    rw [mcAllocatorAlloc, hfind]
    rfl

/-- Null is returned only after the whole rest of the chain was found full. -/
theorem Inv.full_of_alloc_eq_zero (h : p.Inv top s) {p' : Pool}
    (halloc : mcAllocatorAlloc top s.val p = some (0, p')) : ∀ a ∈ p.ahead top, p.Full a := by
  rcases h.mcAllocatorAlloc_cases with ⟨l₁, page, l₂, i, -, -, -, -, -, halloc'⟩ |
    ⟨page, mmaps, -, hfull, -⟩ | ⟨-, hfull, -⟩
  · have haddr : 0 = s.slotAddr page i := by
      simpa [halloc] using congrArg (fun r ↦ r.map Prod.fst) halloc'
    rw [SlotSize.slotAddr] at haddr
    omega
  · exact hfull
  · exact hfull

/-- With the rest of the chain full and no answer from `mmap`, null is returned. -/
theorem Inv.mcAllocatorAlloc_of_full (h : p.Inv top s) (hfull : ∀ a ∈ p.ahead top, p.Full a)
    (hm : ∀ page, p.mmaps.head? ≠ some (some page)) :
    mcAllocatorAlloc top s.val p = some (0, { p with mmaps := p.mmaps.tail }) := by
  rcases h.mcAllocatorAlloc_cases with ⟨l₁, page, l₂, i, hsplit, -, hi, hbit, -⟩ |
    ⟨page, mmaps, hm', -⟩ | ⟨-, -, -, halloc⟩
  · have hmem : page ∈ p.ahead top := by simp [hsplit]
    have hok := h.headerOk page (mem_of_mem_ahead hmem)
    have := hok.numFree_eq_zero_iff.1 (hfull page hmem) i hi
    rw [hbit] at this
    exact absurd this (by simp)
  · exact absurd (by rw [hm']; rfl) (hm page)
  · exact halloc

/-- `mc_allocator_alloc` either reports a failed `mmap` and leaves the pool as it was, or hands out
a slot that was free. -/
theorem Inv.mcAllocatorAlloc_spec (h : p.Inv top s) :
    ∃ a p', mcAllocatorAlloc top s.val p = some (a, p') ∧ p'.Inv top s ∧
      (a = 0 ∧ p' = { p with mmaps := p.mmaps.tail } ∧ allocSlot top s.val p = none ∧
          (∀ page, p.mmaps.head? ≠ some (some page)) ∨
        a ≠ 0 ∧ a ∉ p.live s ∧ p'.live s = insert a (p.live s) ∧
          ∃ page ∈ p'.pages, ∃ i < s.capacity, allocSlot top s.val p = some (page, (i : ℤ)) ∧
            a = s.slotAddr page i) := by
  -- a slot `i` of a page of `q`, where `q` differs from `p` in no live slot
  have htake : ∀ (q : Pool) (page i : ℕ), q.Inv top s → q.live s = p.live s → page ∈ q.pages →
      i < s.capacity → (q.header page).bit i = true →
      (Memchk.takeSlot page i q).Inv top s ∧ s.slotAddr page i ≠ 0 ∧
        s.slotAddr page i ∉ p.live s ∧
        (Memchk.takeSlot page i q).live s = insert (s.slotAddr page i) (p.live s) := by
    intro q page i hq hlive hpage hi hbit
    rw [← hlive]
    exact ⟨hq.takeSlot hpage hi hbit, by simp [SlotSize.slotAddr],
      hq.slotAddr_notMem_live hpage hi hbit, live_takeSlot hpage hi⟩
  rcases h.mcAllocatorAlloc_cases with ⟨l₁, page, l₂, i, hsplit, -, hi, hbit, hslot, halloc⟩ |
    ⟨page, mmaps, hm, -, hslot, halloc⟩ | ⟨hm, -, hslot, halloc⟩
  · have hpage : page ∈ p.pages := @mem_of_mem_ahead top _ _ (by simp [hsplit])
    obtain ⟨hinv, hrest⟩ := htake _ page i (h.setAvailable hpage) (live_setAvailable page) hpage hi
      ((bit_congr (slots_setAvailable page page) i).trans hbit)
    exact ⟨_, _, halloc, hinv, .inr ⟨hrest.1, hrest.2.1, hrest.2.2, page, hpage, i, hi, hslot, rfl⟩⟩
  · obtain ⟨-, hpages, -, -, hbits⟩ := h.toChain.addBatch mmaps (h.new_batch page mmaps hm)
    have hbatch : page ∈ batch 4 page := by simp [batch]
    have hpage : page ∈ (p.addBatch top s page mmaps).pages := by
      rw [hpages]
      exact List.mem_append_right _ hbatch
    obtain ⟨hinv, hrest⟩ := htake _ page 0 (h.addBatch hm) (h.live_addBatch hm) hpage
      s.capacity_pos (hbits page hbatch 0 (by omega))
    exact ⟨_, _, halloc, hinv,
      .inr ⟨hrest.1, hrest.2.1, hrest.2.2, page, hpage, 0, s.capacity_pos, hslot, rfl⟩⟩
  · exact ⟨0, _, halloc, h.mmap_failed, .inl ⟨rfl, rfl, hslot, hm⟩⟩

/-- A live block lies in a slot of a page, and `mc_allocator_free` finds page and slot again. -/
theorem Inv.locate (h : p.Inv top s) {a : ℕ} (ha : a ∈ p.live s) :
    ∃ i < s.capacity, pageMask a ∈ p.pages ∧ a = s.slotAddr (pageMask a) i ∧
      (p.header (pageMask a)).bit i = false ∧ getIndex p.header (pageMask a) a s.val = i := by
  obtain ⟨page, hpage, i, hi, hbit, rfl⟩ := mem_live.1 ha
  have hmask := SlotSize.pageMask_slotAddr (h.aligned page hpage) hi
  rw [hmask]
  refine ⟨i, hi, hpage, rfl, hbit, ?_⟩
  have hend := s.slot_end_le hi
  have hcap := s.capacity_le
  rw [getIndex, (h.headerOk page hpage).size, SlotSize.slotAddr,
    subSize_of_le (m := page + 80 + s.val * i) (by omega) (by omega),
    subSize_of_le (by omega) (by omega),
    show page + 80 + s.val * i - page - 80 = s.val * i by omega,
    Nat.mul_div_cancel_left i s.val_pos]
  exact toInt32_of_mem (by omega) (by omega)

/-- The pool after the slot `i` of `page` was put back, before `next_available_pool` moves. -/
def putSlot (page i : ℕ) (p : Pool) : Pool :=
  { p with
    header := p.header.modify page fun x ↦ { setBitmap i x with numFree := x.numFree + 1 } }

theorem header_putSlot_self {page i : ℕ} :
    (p.putSlot page i).header page =
      { setBitmap i (p.header page) with numFree := (p.header page).numFree + 1 } := by
  simp only [putSlot, Headers.modify_self]

theorem header_putSlot_of_ne {page i a : ℕ} (h : a ≠ page) :
    (p.putSlot page i).header a = p.header a := by
  simp only [putSlot, Headers.modify_of_ne h]

/-- Giving a block back is giving its slot back, and then moving `next_available_pool` to the page
if it has strictly more free slots than the page where the search starts. -/
theorem Inv.mcAllocatorFree_eq (h : p.Inv top s) {a i : ℕ} (ha : a ∈ p.live s)
    (hidx : getIndex p.header (pageMask a) a s.val = i) :
    mcAllocatorFree a s.val p =
      if ((p.putSlot (pageMask a) i).header (pageMask a)).numFree >
          ((p.putSlot (pageMask a) i).header (p.header top).nextAvailablePool).numFree
      then (p.putSlot (pageMask a) i).setAvailable top (pageMask a)
      else p.putSlot (pageMask a) i := by
  obtain ⟨-, -, hpage, -, -, -⟩ := h.locate ha
  have havail : ((p.putSlot (pageMask a) i).header top).nextAvailablePool =
      (p.header top).nextAvailablePool :=
    Headers.modify_proj MemblkPoolHeader.nextAvailablePool rfl
  rw [← havail]
  simp only [mcAllocatorFree, hidx, h.top_eq _ hpage]
  exact apply_ite (fun hs : Headers ↦ ({ p with header := hs } : Pool)) _ _ _

/-- Giving a taken slot back keeps the invariant. -/
theorem Inv.putSlot (h : p.Inv top s) {page i : ℕ} (hpage : page ∈ p.pages)
    (hi : i < s.capacity) (hbit : (p.header page).bit i = false) :
    (p.putSlot page i).Inv top s :=
  h.modify (fun _ ↦ rfl) (fun _ ↦ rfl) (fun _ ↦ rfl) fun _ ↦
    (h.headerOk page hpage).set s.capacity_le hi hbit

/-- Giving a slot back removes its block from the live ones. -/
theorem Inv.live_putSlot (h : p.Inv top s) {page i : ℕ} (hpage : page ∈ p.pages)
    (hi : i < s.capacity) :
    (p.putSlot page i).live s = (p.live s).erase (s.slotAddr page i) := by
  have hcap := s.capacity_le
  have hself : ∀ j < 192, ((p.putSlot page i).header page).bit j =
      ((p.header page).bit j || decide (j = i)) := by
    intro j hj
    rw [header_putSlot_self]
    exact bit_setBitmap (by omega) hj
  have hother : ∀ b ≠ page, (p.putSlot page i).header b = p.header b :=
    fun b hb ↦ header_putSlot_of_ne hb
  ext a
  rw [Finset.mem_erase, mem_live, mem_live]
  constructor
  · rintro ⟨b, hb, j, hj, hbit, rfl⟩
    have hne : ¬ (b = page ∧ j = i) := by
      rintro ⟨rfl, rfl⟩
      rw [hself j (by omega)] at hbit
      simp at hbit
    refine ⟨fun heq ↦ hne ?_, b, hb, j, hj, ?_, rfl⟩
    · exact SlotSize.slotAddr_inj (h.aligned b hb) (h.aligned page hpage) hj hi heq
    · by_cases hbp : b = page
      · subst hbp
        rw [hself j (by omega)] at hbit
        exact (Bool.or_eq_false_iff.1 hbit).1
      · rw [← hother b hbp, hbit]
  · rintro ⟨hne, b, hb, j, hj, hbit, rfl⟩
    refine ⟨b, hb, j, hj, ?_, rfl⟩
    by_cases hbp : b = page
    · subst hbp
      have hji : j ≠ i := fun heq ↦ hne (by rw [heq])
      rw [hself j (by omega), hbit]
      simp [hji]
    · rw [hother b hbp, hbit]

/-- `mc_allocator_free` of a live block takes exactly that block out of the live ones. -/
theorem Inv.mcAllocatorFree_spec (h : p.Inv top s) {a : ℕ} (ha : a ∈ p.live s) :
    (mcAllocatorFree a s.val p).Inv top s ∧
      (mcAllocatorFree a s.val p).live s = (p.live s).erase a ∧
      (mcAllocatorFree a s.val p).pages = p.pages := by
  obtain ⟨i, hi, hpage, heq, hbit, hidx⟩ := h.locate ha
  have hput := h.putSlot hpage hi hbit
  have hlive := h.live_putSlot hpage hi
  rw [← heq] at hlive
  rw [h.mcAllocatorFree_eq ha hidx]
  split_ifs
  · exact ⟨hput.setAvailable hpage, (live_setAvailable _).trans hlive, rfl⟩
  · exact ⟨hput, hlive, rfl⟩

/-- The pool that `mc_allocator_init` sets up. -/
theorem inv_mcAllocatorInit (s : SlotSize) {top : ℕ} {mmaps : List (Option ℕ)} (h : Headers)
    (htop : top % 4096 = 0) (hne : top ≠ 0)
    (hmm : ∀ a, some a ∈ mmaps → a % 4096 = 0 ∧ a ≠ 0)
    (hfresh : (top :: comingPages mmaps).Nodup) :
    (mcAllocatorInit top s.val h mmaps).Inv top s ∧
      (mcAllocatorInit top s.val h mmaps).live s = ∅ := by
  have hself : ∀ f, (linkHeader top none f top).top = top := fun f ↦ by
    rw [linkHeader, Headers.modify_self]
  have hnext : ((mcAllocatorInit top s.val h mmaps).header top).nextPoolLink = 0 := by
    refine (Headers.modify_proj MemblkPoolHeader.nextPoolLink rfl).trans ?_
    rw [linkHeader, Headers.modify_self]
  refine ⟨⟨⟨⟨rfl, hne, ?_⟩, ?_, ?_, ?_, List.mem_cons_self, ?_⟩, hmm, hfresh⟩, ?_⟩
  · exact hnext
  · intro a ha
    rw [List.mem_singleton.1 ha, htop]
  · intro a ha
    rw [List.mem_singleton.1 ha]
    exact headerOk_initHeader s none
  · intro a ha
    rw [List.mem_singleton.1 ha]
    exact (Headers.modify_proj MemblkPoolHeader.top rfl).trans (hself _)
  · change (initHeader top s.val none h top).nextAvailablePool ∈ [top]
    rw [initHeader, hself, Headers.modify_self]
    exact List.mem_cons_self
  · have hcap := s.capacity_le
    refine Finset.eq_empty_of_forall_notMem fun a ha ↦ ?_
    obtain ⟨page, hpage, i, hi, hbit, -⟩ := mem_live.1 ha
    rw [List.mem_singleton.1 hpage] at hbit
    have := @bit_initHeader top s.val h none i (by omega)
    exact absurd (this.symm.trans hbit) (by simp)

end Pool

end Memchk
