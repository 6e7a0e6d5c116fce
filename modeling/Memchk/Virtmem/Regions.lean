import Memchk.Virtmem.Chain

/-!
# The list of page regions

What `__register_block` does to the list behind `pageregion_head`, read as a list of intervals: it
is `insertInterval` (`registerBlock_spec`), so the regions stay in order with gaps and cover exactly
the pages of the blocks registered, and `__count_virtual_memory_size` counts those pages.

This needs the scan to start on the list. The cached start `pageregion_cand` is taken without asking
whether a merge has freed that node since: the condition `CandOnList` says that it was not.
`registerBlocks_loses` is a run where it was, and where the slot of the freed node is handed out
again.

## The abstract list

`insertInterval` of the library inserts an interval into a list of intervals in order with gaps, and
merges what it meets. That the result is in order, and covers what the list and the interval have
covered, is shown there. Here the chain of nodes is read as such a list, and the theorem on one
registration says that the code computes it.

## Starting in the middle

A scan from the cached node looks at a part of the list only. It is right because the block begins
behind that node, so that nothing in front of it can meet the block; `insertInterval` then leaves
the front of the list alone.

## Runs

The registrations of a command are a loop over the blocks of a table, in which a registration may
fail for want of a node. `registerBlocks_inv` is about the blocks that were registered, and
`registerBlocks_spec` says what the list is and what its total is, for every sequence of blocks.
-/

namespace Memchk

/-- The invariant: the nodes behind `pageregion_head` are `l`, all of them taken from the pool, and
their intervals are in order with gaps. -/
structure RegionInv (s : RegionState) (l : List ℕ) : Prop where
  pool : s.pool.Inv pageregionPoolHead pageregionSize
  linked : Linked s.next 0 pageregionHead (pageregionHead :: l)
  live : ∀ a ∈ l, a ∈ s.pool.live pageregionSize
  separated : Separated (l.map s.interval)

/-! ### One registration -/

/-- What a registration of the interval from `start` to `end_` may do: insert it, or fail and leave
the list alone. -/
def Registered (start end_ : ℕ) (s : RegionState) (l : List ℕ) (r : ℤ) (t : RegionState)
    (l' : List ℕ) : Prop :=
  RegionInv t l' ∧
    (r = 0 ∧ l'.map t.interval = insertInterval start end_ (l.map s.interval) ∨
      r = -1 ∧ l'.map t.interval = l.map s.interval)

section Scan

variable {s t : RegionState} {start end_ : ℕ} {l l₁ l₂ l' : List ℕ} {r : ℤ}

namespace RegionInv

theorem chain (h : RegionInv s l) : RegionChain s l :=
  ⟨h.pool, h.linked, h.live⟩

theorem of_chain (h : RegionChain s l) (hsep : Separated (l.map s.interval)) : RegionInv s l :=
  ⟨h.pool, h.linked, h.live, hsep⟩

/-- A scan that has passed only regions in front of `start` inserts the interval, or fails. -/
theorem scanned (h : RegionInv s (l₁ ++ l₂)) (hlt : start < end_)
    (hbefore : ∀ i ∈ l₁.map s.interval, i.2 < start) (hscan : Scanned start end_ s l₁ l₂ r t l') :
    Registered start end_ s (l₁ ++ l₂) r t l' := by
  have hchain := h.chain.scanned hscan
  have hsep := h.separated
  have hpos : ∀ j ∈ l₁.map s.interval, j.1 < j.2 := fun j hj ↦
    hsep.lt j (by rw [List.map_append]; exact List.mem_append_left _ hj)
  -- the intervals of the nodes that are not written to stay
  have hmap : ∀ {x : ℕ} {i : ℕ × ℕ} (k : List ℕ), (∀ a ∈ k, a ≠ x) →
      (∀ a, t.interval a = if a = x then i else s.interval a) →
      k.map t.interval = k.map s.interval :=
    fun k hk hint ↦ List.map_congr_left fun a ha ↦ by rw [hint, if_neg (hk a ha)]
  cases hscan with
  | failed hpool hlive hafter => exact ⟨of_chain hchain hsep, .inr ⟨rfl, rfl⟩⟩
  | @inserted new _ hpool hne hnot hlive hafter hnext hint =>
    have hfresh : ∀ a ∈ l₁ ++ l₂, a ≠ new := fun a ha ↦ ne_of_mem_of_not_mem (h.live a ha) hnot
    have hinsert : (l₁ ++ new :: l₂).map t.interval =
        insertInterval start end_ ((l₁ ++ l₂).map s.interval) := by
      rw [List.map_append, List.map_cons,
        hmap l₁ (fun a ha ↦ hfresh a (List.mem_append_left _ ha)) hint,
        hmap l₂ (fun a ha ↦ hfresh a (List.mem_append_right _ ha)) hint, hint, if_pos rfl,
        List.map_append, insertInterval_append hpos hbefore hlt]
      congr 1
      cases l₂ with
      | nil => rfl
      | cons x l₂ => rw [List.map_cons, insertInterval, if_pos (hafter x rfl)]
    exact ⟨of_chain hchain (hinsert ▸ hsep.insert hlt), .inl ⟨rfl, hinsert⟩⟩
  | @merged x taken rest _ hrest hpool hkeep hmeet hmeet' habsorb hnext hint =>
    subst hrest
    have hnodup : (l₁ ++ x :: (taken ++ rest)).Nodup := (List.nodup_cons.1 h.linked.nodup).2
    have hx₁ : ∀ a ∈ l₁, a ≠ x := fun a ha ↦
      (List.nodup_append.1 hnodup).2.2 a ha x List.mem_cons_self
    have hx₂ : ∀ a ∈ rest, a ≠ x := by
      rintro a ha rfl
      have := (List.nodup_cons.1 (List.nodup_append.1 hnodup).2.1).1
      exact this (List.mem_append_right _ ha)
    have hinsert : (l₁ ++ x :: rest).map t.interval =
        insertInterval start end_ ((l₁ ++ x :: (taken ++ rest)).map s.interval) := by
      rw [List.map_append, List.map_cons, hmap l₁ hx₁ hint, hmap rest hx₂ hint, hint, if_pos rfl,
        habsorb, @List.map_append _ _ _ l₁, insertInterval_append hpos hbefore hlt, List.map_cons,
        insertInterval, if_neg hmeet, if_pos hmeet']
    exact ⟨of_chain hchain (hinsert ▸ hsep.insert hlt), .inl ⟨rfl, hinsert⟩⟩

end RegionInv

end Scan

/-- If the scan is to start at the cached node, that node is on the list. -/
def CandOnList (addr : ℕ) (s : RegionState) : Prop :=
  (s.node pageregionHead).next ≠ 0 → (s.node s.cand).end_ < pageMask addr →
    ∃ l, Linked s.next 0 (s.node pageregionHead).next l ∧ s.cand ∈ l

/-- The pages of a block, rounded outwards, as an interval of addresses. -/
def blockInterval (b : ℕ × ℕ) : ℕ × ℕ :=
  (b.1 / 4096 * 4096, (b.1 + b.2 + 4095) / 4096 * 4096)

/-- The blocks that `__register_block` is called for: not empty, and not wrapping around. -/
def BlockOk (b : ℕ × ℕ) : Prop :=
  0 < b.2 ∧ b.1 + b.2 + 4095 < 18446744073709551616

instance (b : ℕ × ℕ) : Decidable (BlockOk b) :=
  inferInstanceAs (Decidable (_ ∧ _))

section Register

variable {s t : RegionState} {addr size : ℕ} {l : List ℕ}

/-- The pages of a block are not empty. -/
theorem blockInterval_lt {b : ℕ × ℕ} (hb : BlockOk b) :
    (blockInterval b).1 < (blockInterval b).2 := by
  have := hb.1
  simp only [blockInterval]
  omega

theorem blockStart_eq (addr size : ℕ) : blockStart addr = (blockInterval (addr, size)).1 :=
  pageMask_eq addr

theorem blockEnd_eq (hb : BlockOk (addr, size)) :
    blockEnd addr size = (blockInterval (addr, size)).2 := by
  rw [blockEnd, wrapSize_of_lt (by have := hb.2; simp only [pageSize]; omega), pageMask_eq]
  rfl

/-- A node on the list has another one in front of it that ends before it starts. -/
theorem RegionInv.cachedOnChain (h : RegionInv s l) (hb : BlockOk (addr, size))
    (hcand : CandOnList addr s) : CachedOnChain addr size s := by
  have hlt := blockInterval_lt hb
  rw [← blockStart_eq, ← blockEnd_eq hb] at hlt
  intro hempty hlow
  obtain ⟨l', hl', hmem⟩ := hcand hempty hlow
  obtain rfl : l' = l := hl'.unique h.linked.2.2
  have hpos := h.separated.lt _ (List.mem_map_of_mem (f := s.interval) hmem)
  obtain ⟨l₁, l₂, rfl⟩ := List.append_of_mem hmem
  exact ⟨l₁, l₂, hl', fun hfront ↦ absurd (hfront.trans (hpos.trans hlow)) hlt.asymm⟩

/-- `__register_block` inserts the pages of the block, or fails and leaves the list alone. -/
theorem registerBlock_spec (h : RegionInv s l) (hb : BlockOk (addr, size))
    (hcand : CandOnList addr s) :
    ∃ r t l', registerBlock addr size s = some (r, t) ∧
      Registered (blockInterval (addr, size)).1 (blockInterval (addr, size)).2 s l r t l' := by
  have hlt := blockInterval_lt hb
  rw [← blockStart_eq, ← blockEnd_eq hb] at hlt ⊢
  have hlt_of_mem : ∀ a ∈ l, (s.interval a).1 < (s.interval a).2 := fun a ha ↦
    h.separated.lt _ (List.mem_map_of_mem ha)
  obtain ⟨r, t, before, rest, l', rfl, hreg, hscan, hlast⟩ :=
    registerBlock_scanned h.chain (h.cachedOnChain hb hcand)
  refine ⟨r, t, l', hreg, h.scanned hlt (fun i hi ↦ ?_) hscan⟩
  -- the last region passed ends in front of the block, so all do
  rcases List.eq_nil_or_concat before with rfl | ⟨l₁, x, rfl⟩
  · cases hi
  · rw [List.concat_eq_append] at hlast hi h hlt_of_mem
    have hx : (s.interval x).2 < blockStart addr := by
      rcases hlast x (by simp) with hx | ⟨hmem, hfront, hlow⟩
      · exact hx
      · exact absurd (hfront.trans ((hlt_of_mem _ hmem).trans hlow)) hlt.asymm
    rw [List.map_append, List.mem_append] at hi
    rcases hi with hi | hi
    · have hsep := h.separated
      rw [List.append_assoc, List.map_append, List.singleton_append, List.map_cons] at hsep
      exact (hsep.end_lt_of_append hi).trans ((hlt_of_mem x (by simp)).trans hx)
    · rw [List.mem_singleton.1 hi]
      exact hx

/-- The nodes taken from the pool that are not on the list stay the same. -/
theorem registerBlock_live (h : RegionInv s l) (hb : BlockOk (addr, size))
    (hcand : CandOnList addr s) {r : ℤ} (hreg : registerBlock addr size s = some (r, t))
    {l' : List ℕ} (ht : RegionInv t l') (a : ℕ) :
    a ∈ t.pool.live pageregionSize ∧ a ∉ l' ↔ a ∈ s.pool.live pageregionSize ∧ a ∉ l := by
  obtain ⟨r', t', before, rest, l'', rfl, hreg', hscan, -⟩ :=
    registerBlock_scanned h.chain (h.cachedOnChain hb hcand)
  obtain ⟨rfl, rfl⟩ := Prod.mk.inj (Option.some.inj (hreg.symm.trans hreg'))
  obtain rfl : l'' = l' := (h.chain.scanned hscan).linked.2.2.unique ht.linked.2.2
  exact hscan.live_iff a

end Register

/-! ### Runs -/

/-- `__register_block` for one block after the other: the blocks whose registration did not fail. -/
def registerBlocks : List (ℕ × ℕ) → RegionState → Option (List (ℕ × ℕ) × RegionState)
  | [], s => some ([], s)
  | b :: blocks, s => do
    let (r, s) ← registerBlock b.1 b.2 s
    let (done, s) ← registerBlocks blocks s
    return (if r = 0 then b :: done else done, s)

/-- `CandOnList` holds before every call. -/
def CandsOnList : List (ℕ × ℕ) → RegionState → Prop
  | [], _ => True
  | b :: blocks, s =>
    CandOnList b.1 s ∧ ∀ r t, registerBlock b.1 b.2 s = some (r, t) → CandsOnList blocks t

/-- The pages that blocks touch. -/
def touchedPages (blocks : List (ℕ × ℕ)) : Finset ℕ :=
  blocks.toFinset.biUnion fun b ↦ Finset.Ico (b.1 / 4096) ((b.1 + b.2 + 4095) / 4096)

section Runs

variable {s t : RegionState} {l : List ℕ} {blocks done : List (ℕ × ℕ)}

/-- Registering blocks keeps the list of regions, and the blocks registered are among them. -/
theorem registerBlocks_inv (h : RegionInv s l) (hblocks : ∀ b ∈ blocks, BlockOk b)
    (hcand : CandsOnList blocks s) :
    ∃ done t l', registerBlocks blocks s = some (done, t) ∧ RegionInv t l' ∧
      (∀ b ∈ done, b ∈ blocks) ∧
      cover (l'.map t.interval) =
        cover (l.map s.interval) ∪ {x | ∃ b ∈ done, (blockInterval b).1 ≤ x ∧
          x < (blockInterval b).2} := by
  induction blocks generalizing s l with
  | nil => exact ⟨[], s, l, rfl, h, by simp, by simp⟩
  | cons b blocks ih =>
    have hb := hblocks b List.mem_cons_self
    obtain ⟨r, t, l₁, hreg, hinv, hcases⟩ := registerBlock_spec h hb hcand.1
    obtain ⟨done, u, l', hrun, hinv', hsub, hcover⟩ :=
      ih hinv (fun c hc ↦ hblocks c (List.mem_cons_of_mem _ hc)) (hcand.2 r t hreg)
    refine ⟨if r = 0 then b :: done else done, u, l', ?_, hinv', fun c hc ↦ ?_, ?_⟩
    · simp only [registerBlocks, hreg, Option.bind_eq_bind, Option.bind_some, hrun]
      rfl
    · split_ifs at hc
      · rcases List.mem_cons.1 hc with rfl | hc
        · exact List.mem_cons_self
        · exact List.mem_cons_of_mem _ (hsub c hc)
      · exact List.mem_cons_of_mem _ (hsub c hc)
    · rcases hcases with ⟨rfl, hmap⟩ | ⟨rfl, hmap⟩
      · rw [hcover, hmap, cover_insertInterval h.separated, if_pos rfl]
        ext x
        simp only [Set.mem_union, Set.mem_Ico, List.mem_cons, Set.mem_ofPred_eq, exists_eq_or_imp]
        rw [or_assoc]
        exact or_left_comm
      · rw [hcover, hmap, if_neg (by decide)]

/-- The total that `__count_virtual_memory_size` returns. -/
theorem countLoop_eq {rounds p ret : ℕ} {vmareas : List Vmarea × List (ℕ × ℕ)}
    (hl : Linked s.next 0 p l) (hlen : l.length < rounds)
    (hsep : ∀ i ∈ l.map s.interval, i.1 < i.2)
    (hsum : ret + ((l.map s.interval).map fun i ↦ i.2 - i.1).sum < 18446744073709551616) :
    ∃ v, countLoop s.node rounds p ret vmareas =
      some (ret + ((l.map s.interval).map fun i ↦ i.2 - i.1).sum, v) := by
  induction l generalizing p ret rounds vmareas with
  | nil =>
    obtain ⟨k, rfl⟩ := Nat.exists_eq_succ_of_ne_zero (by omega : rounds ≠ 0)
    rw [Linked.nil_iff] at hl
    exact ⟨vmareas, by rw [countLoop, if_pos hl]; rfl⟩
  | cons x l ih =>
    obtain ⟨k, rfl⟩ := Nat.exists_eq_succ_of_ne_zero (by omega : rounds ≠ 0)
    obtain ⟨rfl, hnull, hrest⟩ := hl
    rw [List.length_cons] at hlen
    rw [List.map_cons, List.map_cons, List.sum_cons] at hsum ⊢
    have hlt := hsep (s.interval p) (by simp)
    have hsub : wrapSize (ret + subSize (s.interval p).2 (s.interval p).1) =
        ret + ((s.interval p).2 - (s.interval p).1) := by
      rw [subSize_of_le hlt.le (by omega), wrapSize_of_lt (by omega)]
    obtain ⟨v, hv⟩ := @ih k _ (ret + ((s.interval p).2 - (s.interval p).1))
      (registerPageregion (s.node p) vmareas) hrest (by omega)
      (fun i hi ↦ hsep i (by rw [List.map_cons]; exact List.mem_cons_of_mem _ hi)) (by omega)
    refine ⟨v, ?_⟩
    rw [countLoop, if_neg hnull, ← Nat.add_assoc]
    exact (congrArg (fun total ↦ countLoop s.node k _ total _) hsub).trans hv

/-- A point lies in the pages of a block when its page is one the block touches. -/
theorem mem_blockInterval_iff {x : ℕ} :
    (∃ b ∈ done, (blockInterval b).1 ≤ x ∧ x < (blockInterval b).2) ↔
      x / 4096 ∈ touchedPages done := by
  simp only [touchedPages, Finset.mem_biUnion, List.mem_toFinset, Finset.mem_Ico, blockInterval]
  refine exists_congr fun b ↦ and_congr_right fun _ ↦ ?_
  omega

/-- The regions cover exactly the pages of the blocks registered, in order and with gaps, and the
total counted is the size of these pages, as long as no scan starts at a node that has left the
list. -/
theorem registerBlocks_spec (hpool : s.pool.Inv pageregionPoolHead pageregionSize)
    (hempty : (s.node pageregionHead).next = 0) (hblocks : ∀ b ∈ blocks, BlockOk b)
    (hcand : CandsOnList blocks s) (vmareas : List Vmarea) :
    ∃ done t l v, registerBlocks blocks s = some (done, t) ∧
      Linked t.next 0 (t.next pageregionHead) l ∧ Separated (l.map t.interval) ∧
      cover (l.map t.interval) =
        {x | ∃ b ∈ done, (blockInterval b).1 ≤ x ∧ x < (blockInterval b).2} ∧
      countVirtualMemorySize vmareas t = some (4096 * (touchedPages done).card, v) := by
  have h : RegionInv s [] := ⟨hpool, ⟨rfl, by decide, hempty⟩, by simp, .nil⟩
  obtain ⟨done, t, l, hrun, hinv, hsub, hcover⟩ := registerBlocks_inv h hblocks hcand
  rw [List.map_nil, cover_nil, Set.empty_union] at hcover
  obtain ⟨-, hsum⟩ := hinv.separated.sum_length
  have htotal : ((l.map t.interval).map fun i ↦ i.2 - i.1).sum =
      4096 * (touchedPages done).card := by
    rw [hsum, hcover, ← ncard_div_mem (by decide)]
    congr 1
    ext x
    exact mem_blockInterval_iff
  -- the pages all lie below the last one of the address space
  have hcard : (touchedPages done).card ≤ 4503599627370495 := by
    rw [← Finset.card_range 4503599627370495]
    refine Finset.card_le_card fun q hq ↦ ?_
    obtain ⟨b, hb, hq⟩ := Finset.mem_biUnion.1 hq
    have := (hblocks b (hsub b (List.mem_toFinset.1 hb))).2
    rw [Finset.mem_Ico] at hq
    rw [Finset.mem_range]
    omega
  obtain ⟨v, hv⟩ := @countLoop_eq t _ _ _ 0 (vmareas, [])
    hinv.linked.2.2 (length_lt_rounds hinv.linked.2.2 hinv.live) hinv.separated.lt
    (by rw [htotal]; omega)
  rw [Nat.zero_add, htotal] at hv
  exact ⟨done, t, l, v, hrun, hinv.linked.2.2, hinv.separated, hcover, hv⟩

end Runs

/-- The region list as the program starts out: the static head, no cached node, a fresh pool. -/
def RegionState.init (mmaps : List (Option ℕ)) : RegionState where
  node := fun _ ↦ default
  cand := 0
  prevCand := 0
  pool := mcAllocatorInit pageregionPoolHead pageregionSize.val (fun _ ↦ default) mmaps

theorem RegionState.inv_init :
    (RegionState.init []).pool.Inv pageregionPoolHead pageregionSize :=
  (Pool.inv_mcAllocatorInit pageregionSize _ (by decide) (by decide) (by simp)
    (by simp [comingPages])).1

/-- A run whose second scan starts at the cached node. -/
theorem registerBlocks_spec_two :
    ∃ v, ((registerBlocks [(8192, 100), (20480, 4097)] (.init [])).bind
      fun r ↦ countVirtualMemorySize [] r.2) = some (12288, v) := by
  have hcached : (registerBlock 8192 100 (.init [])).map
      (fun r ↦ (r.2.next pageregionHead, r.2.cand, r.2.next r.2.cand)) =
        some (16464, 16464, 0) := by decide +kernel
  have hcand : CandsOnList [(8192, 100), (20480, 4097)] (.init []) := by
    refine ⟨fun h ↦ absurd rfl h, fun r t hreg ↦ ⟨fun _ _ ↦ ⟨[16464], ?_, ?_⟩, fun _ _ _ ↦ trivial⟩⟩
    all_goals
      rw [hreg] at hcached
      simp only [Option.map_some, Option.some.injEq, Prod.mk.injEq] at hcached
    · refine ⟨hcached.1, by decide, ?_⟩
      rw [← hcached.2.1]
      exact hcached.2.2
    · rw [hcached.2.1]
      exact List.mem_singleton_self _
  obtain ⟨done, t, l, v, hrun, -, -, -, hcount⟩ :=
    @registerBlocks_spec _ [(8192, 100), (20480, 4097)] RegionState.inv_init rfl
      (by decide) hcand []
  refine ⟨v, ?_⟩
  have hdone : (registerBlocks [(8192, 100), (20480, 4097)] (.init [])).map Prod.fst =
      some [(8192, 100), (20480, 4097)] := by decide +kernel
  obtain rfl : done = _ := by simpa only [hrun, Option.map_some, Option.some.injEq] using hdone
  rw [hrun, Option.bind_some, hcount]
  have hcard : (touchedPages [(8192, 100), (20480, 4097)]).card = 3 := by decide +kernel
  rw [hcard]

/-- The blocks of a run in which a merge frees the cached node. The first three are registered
apart, the fourth closes the gap between the first and the third, whose node is the cached one. The
fifth gets the slot of that node, and is linked behind itself. -/
def losingBlocks : List (ℕ × ℕ) :=
  [(65536, 4096), (106496, 4096), (73728, 4096), (69632, 4096), (86016, 4096)]

/-- The fifth block of `losingBlocks` is not on the list and its page is not counted, although all
five were registered. -/
theorem registerBlocks_loses :
    ¬ ∃ done t l v, registerBlocks losingBlocks (.init []) = some (done, t) ∧
      Linked t.next 0 (t.next pageregionHead) l ∧ Separated (l.map t.interval) ∧
      cover (l.map t.interval) =
        {x | ∃ b ∈ done, (blockInterval b).1 ≤ x ∧ x < (blockInterval b).2} ∧
      countVirtualMemorySize [] t = some (4096 * (touchedPages done).card, v) := by
  rintro ⟨done, t, l, v, hrun, -, -, -, hcount⟩
  have hdone : (registerBlocks losingBlocks (.init [])).map Prod.fst = some losingBlocks := by
    decide +kernel
  have htotal : ((registerBlocks losingBlocks (.init [])).bind fun r ↦
      (countVirtualMemorySize [] r.2).map Prod.fst) = some (4096 * 4) := by decide +kernel
  have hpages : (touchedPages losingBlocks).card = 5 := by decide +kernel
  obtain rfl : done = _ := by simpa only [hrun, Option.map_some, Option.some.injEq] using hdone
  rw [hrun, Option.bind_some, hcount, hpages] at htotal
  simp at htotal

end Memchk
