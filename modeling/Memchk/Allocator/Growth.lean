import Memchk.Allocator.Safety

/-!
# Growth of the pool

How many pages a run makes the pool map. As long as no call of `mc_allocator_alloc` walks past the
end of the chain while a page in front of `next_available_pool` still has a free slot, the number of
pages is bounded by the number of blocks live at a time (`pages_length_le`).

## The bound

Under that condition a batch is mapped only when every page is full, so the pages present before it
are paid for by the blocks live at that moment (`Tracks.card_blocks_of_full`). The condition is on
the state before each call, and it is the search order of the allocator that can break it: the
search is never wrapped around, and `mc_allocator_free` moves `next_available_pool` back only to a
page with strictly more free slots.

## Without the condition

Filling a page, starting the next one, and giving all blocks back with the new page's block first
leaves an empty pool whose search starts one page further on (`AtPage.cycle`). Repeating that maps
pages without end, with at most one block more than a page has slots live at any time, so no
function of the number of live blocks bounds the pages (`not_pages_bounded`).

The run is put together from its moves. `AtPage top s mmaps l page r x` is the state between them:
the search starts at `page`, the pages `l` lie behind it and `r` ahead. `AtPage.alloc`,
`AtPage.advance` and `AtPage.free` are the single calls, `AtPage.fill` and `AtPage.drain` repeat
them by induction, and a cycle is a fill, an advance and a drain.
-/

namespace Memchk

namespace Pool

variable {top : ℕ} {s : SlotSize} {p : Pool}

/-- If the search finds all pages it can reach full, then so are those it cannot reach. -/
def NoFreeBehind (top : ℕ) (p : Pool) : Prop :=
  (∀ a ∈ p.ahead top, p.Full a) → ∀ a ∈ p.behind top, p.Full a

theorem nextAvailablePool_setAvailable (page : ℕ) :
    ((p.setAvailable top page).header top).nextAvailablePool = page := by
  simp only [setAvailable, Headers.modify_self]

theorem nextAvailablePool_takeSlot (page i : ℕ) (a : ℕ) :
    ((takeSlot page i p).header a).nextAvailablePool = (p.header a).nextAvailablePool :=
  Headers.modify_proj MemblkPoolHeader.nextAvailablePool rfl

/-- Where `mc_allocator_free` leaves `next_available_pool`. -/
theorem Inv.nextAvailablePool_mcAllocatorFree (h : p.Inv top s) {a : ℕ} (ha : a ∈ p.live s) :
    let p' := mcAllocatorFree a s.val p
    (p'.header top).nextAvailablePool =
      if (p'.header (pageMask a)).numFree > (p'.header (p.header top).nextAvailablePool).numFree
      then pageMask a else (p.header top).nextAvailablePool := by
  obtain ⟨i, -, -, -, -, hidx⟩ := h.locate ha
  intro p'
  have hp' : p' = if _ then _ else _ := h.mcAllocatorFree_eq ha hidx
  have hfree : ∀ b, (p'.header b).numFree = ((p.putSlot (pageMask a) i).header b).numFree := by
    intro b
    rw [hp']
    split_ifs
    · exact Headers.modify_proj MemblkPoolHeader.numFree rfl
    · rfl
  rw [hfree, hfree, hp']
  split_ifs
  · exact nextAvailablePool_setAvailable _
  · exact Headers.modify_proj MemblkPoolHeader.nextAvailablePool rfl

end Pool

section Bound

variable {top : ℕ} {s : SlotSize} {h : Headers} {mmaps : List (Option ℕ)} {x y : PoolState}
  {call : PoolCall}

/-- If every page of the pool is full, then every slot is handed out. -/
theorem PoolState.Tracks.card_blocks_of_full (ht : x.Tracks top s)
    (hfull : ∀ a ∈ x.pool.pages, x.pool.Full a) :
    x.blocks.card = x.pool.pages.length * s.capacity := by
  have hnodup : x.pool.pages.Nodup := ht.inv.linked.nodup
  have hmaps : ∀ b ∈ x.blocks, b.page ∈ x.pool.pages.toFinset := fun b hb ↦
    List.mem_toFinset.2 (ht.place b hb).1
  rw [Finset.card_eq_sum_card_fiberwise hmaps, ← List.toFinset_card_of_nodup hnodup]
  refine Finset.sum_const_nat fun page hpage ↦ ?_
  have hpage := List.mem_toFinset.1 hpage
  have hcount := ht.numFree_eq hpage
  rw [show (x.pool.header page).numFree = 0 from hfull page hpage] at hcount
  omega

/-- A call that meets the condition maps pages only when all slots are handed out. -/
theorem PoolState.Tracks.pages_step (ht : x.Tracks top s) (hstep : PoolStep top s call x y)
    (hmeets : call = .alloc → x.pool.NoFreeBehind top) :
    y.pool.pages.length = x.pool.pages.length ∨
      y.pool.pages.length = x.pool.pages.length + 4 ∧
        y.blocks.card = x.pool.pages.length * s.capacity + 1 := by
  have hty := ht.step hstep
  cases hstep with
  | @alloc p p' blocks a page index halloc hne hslot =>
    rcases ht.inv.mcAllocatorAlloc_cases with ⟨l₁, page', l₂, i, -, -, -, -, -, halloc'⟩ |
      ⟨page', mmaps, hm, hfull, -, halloc'⟩ | ⟨-, -, -, halloc'⟩
    · obtain ⟨-, rfl⟩ : a = _ ∧ p' = _ := by simpa [halloc] using halloc'
      exact .inl rfl
    · obtain ⟨rfl, rfl⟩ : a = _ ∧ p' = _ := by simpa [halloc] using halloc'
      have hall : ∀ b ∈ p.pages, p.Full b := by
        intro b hb
        rw [← Pool.behind_append_ahead top p] at hb
        rcases List.mem_append.1 hb with hb | hb
        · exact hmeets rfl hfull b hb
        · exact hfull b hb
      have hpages := (ht.inv.toChain.addBatch mmaps (ht.inv.new_batch page' mmaps hm)).2.1
      refine .inr ⟨?_, ?_⟩
      · change (p.addBatch top s page' mmaps).pages.length = _
        rw [hpages, List.length_append]
        simp [Pool.batch]
      · rw [Finset.card_insert_of_notMem (ht.notMem_blocks halloc hne page index),
          ht.card_blocks_of_full hall]
    · have : a = 0 := by simpa [halloc] using congrArg (fun r ↦ r.map Prod.fst) halloc'
      exact absurd this hne
  | @allocFailed p p' blocks halloc =>
    obtain ⟨a', p'', halloc', -, hcases⟩ := ht.inv.mcAllocatorAlloc_spec
    obtain ⟨rfl, rfl⟩ : 0 = a' ∧ p' = p'' := by simpa [halloc] using halloc'
    rcases hcases with ⟨-, rfl, -⟩ | ⟨hne, -⟩
    · exact .inl rfl
    · exact absurd rfl hne
  | free hb => exact .inl rfl

/-- The number of pages is bounded as long as no call finds the rest of the chain full while a page
in front of `next_available_pool` has a free slot. -/
theorem pages_length_le (s : SlotSize) (hk : KernelAnswers top mmaps) (L : ℕ)
    (hrun : Relation.ReflTransGen
      (fun x y ↦ ∃ call, PoolStep top s call x y ∧
        (call = .alloc → x.pool.NoFreeBehind top) ∧ y.blocks.card ≤ L)
      (PoolState.init top s h mmaps) x) :
    x.pool.pages.length ≤ L / s.capacity + 4 := by
  have hinv : x.Tracks top s ∧ x.pool.pages.length ≤ L / s.capacity + 4 := by
    induction hrun with
    | refl =>
      refine ⟨.init s hk, ?_⟩
      exact le_trans (by decide : 1 ≤ 4) (Nat.le_add_left 4 _)
    | tail _ hstep ih =>
      obtain ⟨call, hstep, hmeets, hcard⟩ := hstep
      refine ⟨ih.1.step hstep, ?_⟩
      rcases ih.1.pages_step hstep hmeets with hlen | ⟨hlen, hfull⟩
      · rw [hlen]
        exact ih.2
      · rw [hfull] at hcard
        rw [hlen]
        have := (Nat.le_div_iff_mul_le s.capacity_pos).2 (Nat.le_of_succ_le hcard)
        omega
  exact hinv.2

theorem pages_length_le_oneBlock : oneBlock.pool.pages.length ≤ 1 / 62 + 4 :=
  pages_length_le allocMemblkSize (kernelAnswers_batches 0) 1
    (.single ⟨_, oneBlock_step, fun _ _ a ha ↦ absurd ha (by decide +revert +kernel), by decide⟩)

end Bound

section Unbounded

variable {top : ℕ} {s : SlotSize} {x y : PoolState} {page : ℕ} {l r : List ℕ}
  {mmaps : List (Option ℕ)}

/-- The steps of the runs with at most `L` blocks live at a time. -/
def LiveStep (top : ℕ) (s : SlotSize) (L : ℕ) (x y : PoolState) : Prop :=
  ∃ call, PoolStep top s call x y ∧ y.blocks.card ≤ L

/-- The search starts at `page`, which lies behind the pages `l`. -/
structure AtPage (top : ℕ) (s : SlotSize) (mmaps : List (Option ℕ)) (l : List ℕ) (page : ℕ)
    (r : List ℕ) (x : PoolState) : Prop where
  tracks : x.Tracks top s
  pages : x.pool.pages = l ++ page :: r
  next : (x.pool.header top).nextAvailablePool = page
  mmaps : x.pool.mmaps = mmaps

namespace AtPage

theorem page_mem (h : AtPage top s mmaps l page r x) : page ∈ x.pool.pages := by
  rw [h.pages]
  simp

/-- The pages ahead start with it. -/
theorem ahead_eq (h : AtPage top s mmaps l page r x) : x.pool.ahead top = page :: r := by
  have hnodup : x.pool.pages.Nodup := h.tracks.inv.linked.nodup
  rw [h.pages] at hnodup
  have hl : ∀ a ∈ l, decide (a ≠ page) = true := fun a ha ↦ by
    simpa using (List.nodup_append.1 hnodup).2.2 a ha page List.mem_cons_self
  rw [Pool.ahead, h.next, h.pages, List.dropWhile_append_of_pos hl]
  simp

/-- A page with a free slot gives its slot to the next `mc_allocator_alloc`. -/
theorem alloc (h : AtPage top s mmaps l page r x)
    (hcard : (x.blocks.filter fun b ↦ b.page = page).card < s.capacity) :
    ∃ y b, PoolStep top s .alloc x y ∧ AtPage top s mmaps l page r y ∧ b.page = page ∧
      b ∉ x.blocks ∧ y.blocks = insert b x.blocks := by
  have hnot : ¬ x.pool.Full page := by
    rw [Pool.Full, h.tracks.numFree_eq h.page_mem]
    omega
  rcases h.tracks.inv.mcAllocatorAlloc_cases with
    ⟨l₁, page', l₂, i, hsplit, hfull, hi, hbit, hslot, halloc⟩ | ⟨-, -, -, hfull, -⟩ |
    ⟨-, hfull, -⟩
  · rw [h.ahead_eq] at hsplit
    cases l₁ with
    | cons a l₁ =>
      obtain rfl : page = a := by simpa using congrArg List.head? hsplit
      exact absurd (hfull page List.mem_cons_self) hnot
    | nil =>
      obtain ⟨rfl, rfl⟩ : page = page' ∧ r = l₂ := by simpa using hsplit
      have hne : s.slotAddr page i ≠ 0 := by simp [SlotSize.slotAddr]
      have hstep := @PoolStep.alloc _ _ _ _ x.blocks _ _ _ halloc hne hslot
      refine ⟨_, _, hstep, ⟨h.tracks.step hstep, h.pages, ?_, h.mmaps⟩, rfl,
        h.tracks.notMem_blocks halloc hne page i, rfl⟩
      exact (Pool.nextAvailablePool_takeSlot page i top).trans
        (Pool.nextAvailablePool_setAvailable page)
  · exact absurd (hfull page (by simp [h.ahead_eq])) hnot
  · exact absurd (hfull page (by simp [h.ahead_eq])) hnot

/-- A page whose slots are all handed out makes the next `mc_allocator_alloc` go on to a later
page, mapping a batch if there is none. -/
theorem advance (h : AtPage top s mmaps l page r x) (hsome : ∀ m ∈ mmaps, m ≠ none)
    (hne : mmaps ≠ []) (hcard : (x.blocks.filter fun b ↦ b.page = page).card = s.capacity) :
    ∃ y b mmaps' l' page' r', PoolStep top s .alloc x y ∧ AtPage top s mmaps' l' page' r' y ∧
      l.length < l'.length ∧ page ∈ l' ∧ b.page = page' ∧ b ∉ x.blocks ∧
      y.blocks = insert b x.blocks ∧ mmaps' <:+ mmaps ∧ mmaps.length ≤ mmaps'.length + 1 := by
  have hfull : x.pool.Full page := by
    rw [Pool.Full, h.tracks.numFree_eq h.page_mem, hcard, sub_self]
  rcases h.tracks.inv.mcAllocatorAlloc_cases with
    ⟨l₁, page', l₂, i, hsplit, -, hi, hbit, hslot, halloc⟩ | ⟨page', mmaps', hm, -, hslot, halloc⟩ |
    ⟨hm, -⟩
  · have haddr : s.slotAddr page' i ≠ 0 := by simp [SlotSize.slotAddr]
    rw [h.ahead_eq] at hsplit
    cases l₁ with
    | nil =>
      obtain ⟨rfl, -⟩ : page = page' ∧ r = l₂ := by simpa using hsplit
      -- the page where the search starts is full
      have := (h.tracks.inv.headerOk page h.page_mem).numFree_eq_zero_iff.1 hfull i hi
      rw [hbit] at this
      exact absurd this (by simp)
    | cons a l₁ =>
      obtain ⟨rfl, rfl⟩ : page = a ∧ r = l₁ ++ page' :: l₂ := by simpa using hsplit
      have hstep := @PoolStep.alloc _ _ _ _ x.blocks _ _ _ halloc haddr hslot
      refine ⟨_, _, mmaps, l ++ page :: l₁, page', l₂, hstep,
        ⟨h.tracks.step hstep, ?_, ?_, h.mmaps⟩, ?_, by simp, rfl,
        h.tracks.notMem_blocks halloc haddr page' i, rfl, List.suffix_rfl, by omega⟩
      · change x.pool.pages = _
        rw [h.pages]
        simp
      · exact (Pool.nextAvailablePool_takeSlot page' i top).trans
          (Pool.nextAvailablePool_setAvailable page')
      · simp
  · have haddr : s.slotAddr page' 0 ≠ 0 := by simp [SlotSize.slotAddr]
    have hstep := @PoolStep.alloc _ _ _ _ x.blocks _ _ _ halloc haddr hslot
    obtain ⟨-, hpages, hmm, -, -⟩ :=
      h.tracks.inv.toChain.addBatch mmaps' (h.tracks.inv.new_batch page' mmaps' hm)
    refine ⟨_, _, mmaps', x.pool.pages, page', Pool.batch 3 (page' + 4096), hstep,
      ⟨h.tracks.step hstep, ?_, ?_, hmm⟩, ?_, h.page_mem, rfl,
      h.tracks.notMem_blocks halloc haddr page' 0, rfl, ?_, ?_⟩
    · exact hpages.trans (by rw [Pool.batch_succ])
    · exact (Pool.nextAvailablePool_takeSlot page' 0 top).trans
        (Pool.nextAvailablePool_setAvailable page')
    · rw [h.pages]
      simp
    · rw [← h.mmaps, hm]
      exact List.suffix_cons _ _
    · rw [← h.mmaps, hm, List.length_cons]
  · rw [h.mmaps] at hm
    cases mmaps with
    | nil => exact absurd rfl hne
    | cons m mmaps =>
      cases m with
      | none => exact absurd rfl (hsome none List.mem_cons_self)
      | some a => exact absurd rfl (hm a)

/-- Giving back a block of the page the search starts at, or of another page while that one is
empty, leaves the start of the search alone. -/
theorem free (h : AtPage top s mmaps l page r x) {b : Block} (hb : b ∈ x.blocks)
    (hwhere : b.page = page ∨ ∀ c ∈ x.blocks, c.page ≠ page) :
    ∃ y, PoolStep top s (.free b) x y ∧ AtPage top s mmaps l page r y ∧
      y.blocks = x.blocks.erase b := by
  have hlive := h.tracks.addr_mem_live hb
  have hstep : PoolStep top s (.free b) x _ := .free hb
  have ht := h.tracks.step hstep
  obtain ⟨-, -, hpages⟩ := h.tracks.inv.mcAllocatorFree_spec hlive
  have hmask : pageMask b.addr = b.page := (h.tracks.getIndex_eq hb).1
  refine ⟨_, hstep, ⟨ht, hpages.trans h.pages, ?_, ?_⟩, rfl⟩
  · change ((mcAllocatorFree b.addr s.val x.pool).header top).nextAvailablePool = page
    rw [h.tracks.inv.nextAvailablePool_mcAllocatorFree hlive, hmask, h.next]
    rcases hwhere with rfl | hwhere
    · exact ite_self _
    · -- the page the search starts at has all its slots free, and no page has more
      have hpage : page ∈ (mcAllocatorFree b.addr s.val x.pool).pages := by
        rw [hpages]
        exact h.page_mem
      have hbpage : b.page ∈ (mcAllocatorFree b.addr s.val x.pool).pages := by
        rw [hpages]
        exact (h.tracks.place b hb).1
      have hall := ht.numFree_eq hpage
      have hsome := ht.numFree_eq hbpage
      have hempty : ((x.blocks.erase b).filter fun c ↦ c.page = page) = ∅ :=
        Finset.filter_eq_empty_iff.2 fun c hc ↦ hwhere c (Finset.mem_of_mem_erase hc)
      simp only [hempty, Finset.card_empty, Nat.cast_zero, sub_zero] at hall hsome
      refine if_neg ?_
      rw [hall, hsome]
      omega
  · rw [← h.mmaps, mcAllocatorFree]

/-- Filling an empty page. -/
theorem fill (h : AtPage top s mmaps l page r x) (hempty : x.blocks = ∅) {n : ℕ}
    (hn : n ≤ s.capacity) :
    ∃ y, Relation.ReflTransGen (LiveStep top s (s.capacity + 1)) x y ∧
      AtPage top s mmaps l page r y ∧ (∀ b ∈ y.blocks, b.page = page) ∧ y.blocks.card = n := by
  induction n with
  | zero => exact ⟨x, .refl, h, by simp [hempty], by simp [hempty]⟩
  | succ n ih =>
    obtain ⟨y, hrun, hy, hpage, hcard⟩ := ih (by omega)
    have hfilter : (y.blocks.filter fun b ↦ b.page = page) = y.blocks :=
      Finset.filter_true_of_mem hpage
    obtain ⟨z, b, hstep, hz, hb, hnot, hblocks⟩ := hy.alloc (by rw [hfilter]; omega)
    have hcard' : z.blocks.card = n + 1 := by
      rw [hblocks, Finset.card_insert_of_notMem hnot, hcard]
    refine ⟨z, hrun.tail ⟨_, hstep, by omega⟩, hz, fun c hc ↦ ?_, hcard'⟩
    rw [hblocks] at hc
    rcases Finset.mem_insert.1 hc with rfl | hc
    · exact hb
    · exact hpage c hc

/-- Giving back all blocks while the page the search starts at is empty. -/
theorem drain (h : AtPage top s mmaps l page r x) (hne : ∀ b ∈ x.blocks, b.page ≠ page)
    (hcard : x.blocks.card ≤ s.capacity + 1) :
    ∃ y, Relation.ReflTransGen (LiveStep top s (s.capacity + 1)) x y ∧
      AtPage top s mmaps l page r y ∧ y.blocks = ∅ := by
  induction hn : x.blocks.card generalizing x with
  | zero => exact ⟨x, .refl, h, Finset.card_eq_zero.1 hn⟩
  | succ n ih =>
    obtain ⟨b, hb⟩ : x.blocks.Nonempty := Finset.card_pos.1 (by omega)
    obtain ⟨y, hstep, hy, hblocks⟩ := h.free hb (.inr hne)
    have hcard' : y.blocks.card = n := by
      rw [hblocks, Finset.card_erase_of_mem hb, hn, Nat.add_sub_cancel]
    obtain ⟨z, hrun, hz, hempty⟩ := ih hy
      (fun c hc ↦ hne c (Finset.mem_of_mem_erase (hblocks ▸ hc))) (by omega) hcard'
    exact ⟨z, .head ⟨_, hstep, by omega⟩ hrun, hz, hempty⟩

/-- From an empty pool to an empty pool whose search starts on a later page. -/
theorem cycle (h : AtPage top s mmaps l page r x) (hempty : x.blocks = ∅)
    (hsome : ∀ m ∈ mmaps, m ≠ none) (hne : mmaps ≠ []) :
    ∃ y mmaps' l' page' r', Relation.ReflTransGen (LiveStep top s (s.capacity + 1)) x y ∧
      AtPage top s mmaps' l' page' r' y ∧ y.blocks = ∅ ∧ l.length < l'.length ∧
      mmaps' <:+ mmaps ∧ mmaps.length ≤ mmaps'.length + 1 := by
  obtain ⟨x₁, hrun₁, h₁, hpage, hcard⟩ := h.fill hempty le_rfl
  have hfilter : (x₁.blocks.filter fun b ↦ b.page = page) = x₁.blocks :=
    Finset.filter_true_of_mem hpage
  obtain ⟨x₂, b, mmaps', l', page', r', hstep₂, h₂, hlen, hmem, hb, hnot, hblocks, hsuf, hmm⟩ :=
    h₁.advance hsome hne (by rw [hfilter, hcard])
  have hb₂ : b ∈ x₂.blocks := by
    rw [hblocks]
    exact Finset.mem_insert_self b _
  have hcard₂ : x₂.blocks.card = s.capacity + 1 := by
    rw [hblocks, Finset.card_insert_of_notMem hnot, hcard]
  -- the block of the new page goes first, so that no page has more free slots than that one
  obtain ⟨x₃, hstep₃, h₃, hblocks₃⟩ := h₂.free hb₂ (.inl hb)
  have hold : x₃.blocks = x₁.blocks := by
    rw [hblocks₃, hblocks, Finset.erase_insert hnot]
  have hpp : page ≠ page' := by
    have hnodup : x₂.pool.pages.Nodup := h₂.tracks.inv.linked.nodup
    rw [h₂.pages] at hnodup
    exact (List.nodup_append.1 hnodup).2.2 page hmem page' List.mem_cons_self
  obtain ⟨y, hrun, hy, hempty'⟩ := h₃.drain
    (fun c hc ↦ by rw [hpage c (hold ▸ hc)]; exact hpp) (by rw [hold]; omega)
  refine ⟨y, mmaps', l', page', r', ?_, hy, hempty', hlen, hsuf, hmm⟩
  exact ((hrun₁.tail ⟨_, hstep₂, by omega⟩).tail ⟨_, hstep₃, by rw [hold]; omega⟩).trans hrun

end AtPage

/-- With `mmap` answering often enough, an empty pool can be led to start its search on any later
page. -/
theorem exists_run_atPage (s : SlotSize) {h : Headers} (hk : KernelAnswers top mmaps)
    (hsome : ∀ m ∈ mmaps, m ≠ none) {n : ℕ} (hn : n ≤ mmaps.length) :
    ∃ y mmaps' l page r, Relation.ReflTransGen (LiveStep top s (s.capacity + 1))
        (PoolState.init top s h mmaps) y ∧
      AtPage top s mmaps' l page r y ∧ y.blocks = ∅ ∧ n ≤ l.length ∧ mmaps' <:+ mmaps ∧
      mmaps.length ≤ mmaps'.length + n := by
  induction n with
  | zero =>
    have ht := PoolState.Tracks.init s (h := h) hk
    obtain ⟨l, r, hl⟩ := List.append_of_mem ht.inv.available
    exact ⟨_, mmaps, l, _, r, .refl, ⟨ht, hl, rfl, rfl⟩, rfl, Nat.zero_le _, List.suffix_rfl,
      le_rfl⟩
  | succ n ih =>
    obtain ⟨y, mmaps', l, page, r, hrun, hy, hempty, hlen, hsuf, hmm⟩ := ih (by omega)
    have hne : mmaps' ≠ [] := by
      rintro rfl
      simp only [List.length_nil] at hmm
      omega
    obtain ⟨z, mmaps'', l', page', r', hrun', hz, hempty', hlen', hsuf', hmm'⟩ :=
      hy.cycle hempty (fun m hm ↦ hsome m (hsuf.subset hm)) hne
    exact ⟨z, mmaps'', l', page', r', hrun.trans hrun', hz, hempty', by omega, hsuf'.trans hsuf,
      by omega⟩

end Unbounded

/-- The number of pages is not bounded by the number of blocks live at a time: with slots for
`struct alloc_memblk`, at most 63 of them live at a time, a run can make the pool map any number of
pages. -/
theorem not_pages_bounded :
    ¬ ∀ s : SlotSize, ∃ B : ℕ → ℕ, ∀ (L top : ℕ) (h : Headers) (mmaps : List (Option ℕ))
      (x : PoolState), KernelAnswers top mmaps →
        Relation.ReflTransGen
          (fun x y ↦ ∃ call, PoolStep top s call x y ∧ y.blocks.card ≤ L)
          (PoolState.init top s h mmaps) x →
        x.pool.pages.length ≤ B L := by
  intro hbound
  obtain ⟨B, hB⟩ := hbound allocMemblkSize
  let L := allocMemblkSize.capacity + 1
  let mmaps : List (Option ℕ) := (List.range (B L)).map fun k ↦ some (8192 + 16384 * k)
  have hk : KernelAnswers 4096 mmaps := kernelAnswers_batches (B L)
  obtain ⟨y, mmaps', l, page, r, hrun, hy, -, hlen, -⟩ :=
    exists_run_atPage allocMemblkSize (h := fun _ ↦ default) (n := B L) hk (by simp [mmaps])
    (by simp [mmaps])
  have hle := hB L 4096 (fun _ ↦ default) mmaps y hk hrun
  rw [hy.pages, List.length_append, List.length_cons] at hle
  omega

end Memchk
