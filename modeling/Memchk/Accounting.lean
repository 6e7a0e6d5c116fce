import Memchk.Copies
import Memchk.HookedRun
import Memchk.Library.Intervals

/-!
# Counters and tables

The counters of `memchk_manage_memblk.c` are kept apart from the table of live blocks that they
summarise. `Accounted` says how they follow it step by step, up to the wrapping of their types. As
long as fewer than `2 ^ 31` blocks were registered nothing wraps around, as the payloads of live
blocks do not meet, and the counters are exact (`counters_exact`).

## The bins

A bin of the histogram counts the blocks of a range of sizes, found by a loop over powers of four.
`InBin i size` says which sizes bin `i` is for, and the loop finds the one bin of a size
(`inBin_histogramIndex`, `InBin.unique`). Bin 0 is for sizes up to four, zero included, and the last
bin for all sizes too large for the others.

## What the counters follow

Counters are `int` or `size_t` and are stepped without a check. Modulo the range of its type each is
what it should be, however often it has wrapped: that is `Accounted`, an invariant without any bound
on the run. Registering a block adds to the counters what the table gains (`Accounted.recorded`),
and unregistering takes off what it loses (`Accounted.released`).

## Exactness

The number of live blocks is at most the number of blocks ever taken, and the sum of their sizes is
less than `2 ^ 63`, since their payloads are disjoint parts of user space (`Inv.sum_liveSizes_lt`).
With fewer than `2 ^ 31` blocks taken no counter can have wrapped, so `Accounted` is equality.
-/

namespace Memchk

/-- The sizes that bin `i` of the histogram counts. -/
def InBin (i size : ℕ) : Prop :=
  (i = 0 ∨ histoMagnification ^ i < size) ∧
    (i + 1 = histoBins ∨ size ≤ histoMagnification ^ (i + 1))

instance (i size : ℕ) : Decidable (InBin i size) :=
  inferInstanceAs (Decidable (_ ∧ _))

/-! ### The bins -/

section Bins

variable {size i j : ℕ}

/-- The loop stops at the first bin whose upper end is large enough. -/
theorem histogramLoop_spec {rounds : ℕ} (h : i + rounds = histoBins) :
    i ≤ histogramLoop size rounds i (histoMagnification ^ (i + 1)) ∧
      histogramLoop size rounds i (histoMagnification ^ (i + 1)) ≤ histoBins ∧
      (∀ k, i ≤ k → k < histogramLoop size rounds i (histoMagnification ^ (i + 1)) →
        histoMagnification ^ (k + 1) < size) ∧
      (histogramLoop size rounds i (histoMagnification ^ (i + 1)) < histoBins →
        size ≤ histoMagnification ^
          (histogramLoop size rounds i (histoMagnification ^ (i + 1)) + 1)) := by
  induction rounds generalizing i with
  | zero =>
    simp only [histogramLoop]
    refine ⟨le_rfl, h.le, fun k hk hlt ↦ absurd hlt (not_lt.2 hk), fun hlt ↦ ?_⟩
    omega
  | succ rounds ih =>
    rw [histogramLoop]
    split_ifs with hsize
    · exact ⟨le_rfl, by omega, fun k hk hlt ↦ absurd hlt (not_lt.2 hk), fun _ ↦ hsize⟩
    -- the upper end of the next bin is a `size_t`
    have hwrap : wrapSize (histoMagnification ^ (i + 1) * histoMagnification) =
        histoMagnification ^ (i + 1 + 1) := by
      rw [← pow_succ]
      refine wrapSize_of_lt (lt_of_le_of_lt
        (Nat.pow_le_pow_right (by decide) (by omega : i + 1 + 1 ≤ histoBins + 1)) (by decide))
    rw [hwrap]
    obtain ⟨hle, hend, hbelow, habove⟩ := ih (i := i + 1) (by omega)
    refine ⟨by omega, hend, fun k hk hlt ↦ ?_, habove⟩
    rcases hk.eq_or_lt with rfl | hk
    · exact not_le.1 hsize
    · exact hbelow k hk hlt

/-- The loop ends at a bin. -/
theorem histogramIndex_lt (size : ℕ) : histogramIndex size < histoBins := by
  obtain ⟨-, hend, -⟩ := @histogramLoop_spec size 0 histoBins rfl
  simp only [zero_add, pow_one] at hend
  simp only [histogramIndex]
  split_ifs with heq
  · rw [heq]
    exact Nat.sub_lt (by decide) one_pos
  · omega

/-- The loop ends at the bin of the size. -/
theorem inBin_histogramIndex (size : ℕ) : InBin (histogramIndex size) size := by
  obtain ⟨-, hend, hbelow, habove⟩ := @histogramLoop_spec size 0 histoBins rfl
  simp only [zero_add, pow_one] at hend hbelow habove
  simp only [histogramIndex]
  split_ifs with heq
  · rw [heq]
    refine ⟨.inr (hbelow 8 (by omega) ?_), .inl rfl⟩
    rw [heq]
    decide
  · refine ⟨?_, .inr (habove (by omega))⟩
    rcases Nat.eq_zero_or_pos (histogramLoop size histoBins 0 histoMagnification) with hzero | hpos
    · exact .inl hzero
    · obtain ⟨k, hk⟩ := Nat.exists_eq_succ_of_ne_zero hpos.ne'
      rw [hk]
      exact .inr (hbelow k (by omega) (by omega))

/-- No size is in two bins. -/
theorem InBin.unique (hi : InBin i size) (hj : InBin j size) (hlt : i < histoBins)
    (hlt' : j < histoBins) : i = j := by
  have hle : ∀ {i j}, InBin i size → InBin j size → j < histoBins → j ≤ i := by
    intro i j hi hj hlt
    by_contra hij
    have hsize := hi.2.resolve_left (by omega)
    have hsize' := hj.1.resolve_left (by omega)
    have := Nat.pow_le_pow_right (n := histoMagnification) (by decide) (by omega : i + 1 ≤ j)
    omega
  exact le_antisymm (hle hj hi hlt) (hle hi hj hlt')

/-- `__update_histogram` counts a size in its bin. -/
theorem histogramIndex_eq_iff (hi : i < histoBins) : histogramIndex size = i ↔ InBin i size :=
  ⟨fun heq ↦ heq ▸ inBin_histogramIndex size, fun hbin ↦
    (inBin_histogramIndex size).unique hbin (histogramIndex_lt size) hi⟩

/-- Every size is in one bin. -/
theorem sum_countP_inBin (sizes : List ℕ) :
    ((List.range histoBins).map fun i ↦ sizes.countP fun n ↦ decide (InBin i n)).sum =
      sizes.length := by
  induction sizes with
  | nil => simp
  | cons size sizes ih =>
    have hone : ((List.range histoBins).map fun i ↦ if InBin i size then 1 else 0).sum = 1 := by
      have hcount : (List.range histoBins).map (fun i ↦ if InBin i size then 1 else 0) =
          (List.range histoBins).map fun i ↦ if histogramIndex size = i then 1 else 0 :=
        List.map_congr_left fun i hi ↦ by simp only [histogramIndex_eq_iff (List.mem_range.1 hi)]
      rw [hcount]
      have hlt := histogramIndex_lt size
      generalize histogramIndex size = k at hlt
      interval_cases k <;> rfl
    simp only [List.countP_cons, decide_eq_true_eq, List.sum_map_add, ih, hone, List.length_cons]

end Bins

/-! ### What the counters follow -/

/-- The counters agree with a list of sizes. -/
structure Counters.Exact (c : Counters) (sizes : List ℕ) : Prop where
  numAllocMemblk : c.numAllocMemblk = sizes.length
  balance : c.numAllocMemblk = c.numAllocCnt - c.numFreeCnt
  allocatedSize : c.allocatedSize = sizes.sum
  histogram : ∀ i < histoBins, c.histogram i = sizes.countP fun n ↦ decide (InBin i n)
  nonneg : 0 ≤ c.numAllocMemblk ∧ 0 ≤ c.numAllocCnt ∧ 0 ≤ c.numFreeCnt ∧
    ∀ i < histoBins, 0 ≤ c.histogram i
  sum_histogram : ((List.range histoBins).map c.histogram).sum = c.numAllocMemblk

namespace State

/-- The sizes of the live blocks. -/
def liveSizes (s : State) (g : Contents) : List ℕ :=
  (g.nodes .live).map fun n ↦ (s.blocks.record n).memblk.usrsize

/-- The counters follow the live blocks and the blocks freed, as far as their types reach. -/
structure Accounted (s : State) (g : Contents) : Prop where
  taken : (Transfer.taken s.ledger).length = (g.nodes .live).length + s.quarantine.freed.length
  numAllocMemblk : s.counters.numAllocMemblk = toInt32 (s.liveSizes g).length
  numAllocCnt : s.counters.numAllocCnt = toInt32 (Transfer.taken s.ledger).length
  numFreeCnt : s.counters.numFreeCnt = toInt32 s.quarantine.freed.length
  allocatedSize : s.counters.allocatedSize = wrapSize (s.liveSizes g).sum
  histogram : ∀ i < histoBins, s.counters.histogram i =
    toInt32 ((s.liveSizes g).countP fun n ↦ decide (InBin i n))

section Steps

variable {s s' : State} {g g' : Contents} {env : Env} {i size : ℕ} {sizes sizes' : List ℕ}
  {histogram : ℕ → ℤ}

theorem toInt32_toInt32_add (z d : ℤ) : toInt32 (toInt32 z + d) = toInt32 (z + d) := by
  unfold toInt32
  omega

theorem wrapSize_wrapSize_add (m n : ℕ) : wrapSize (wrapSize m + n) = wrapSize (m + n) :=
  Nat.mod_add_mod m _ n

theorem subSize_wrapSize_add (m n : ℕ) : subSize (wrapSize (m + n)) m = wrapSize n := by
  unfold subSize wrapSize
  omega

/-- Counting one more size. -/
theorem updateHistogram_cons (hi : i < histoBins)
    (h : histogram i = toInt32 (sizes.countP fun n ↦ decide (InBin i n))) :
    updateHistogram size true histogram i =
      toInt32 ((size :: sizes).countP fun n ↦ decide (InBin i n)) := by
  simp only [updateHistogram, if_true, List.countP_cons, decide_eq_true_eq]
  by_cases heq : histogramIndex size = i
  · rw [heq, Function.update_self, if_pos ((histogramIndex_eq_iff hi).1 heq), h,
      toInt32_toInt32_add]
    rfl
  · rw [Function.update_of_ne (Ne.symm heq), if_neg fun hbin ↦
      heq ((histogramIndex_eq_iff hi).2 hbin),
      h]
    rfl

/-- Counting one size less. -/
theorem updateHistogram_of_cons (hi : i < histoBins)
    (h : histogram i = toInt32 ((size :: sizes).countP fun n ↦ decide (InBin i n))) :
    updateHistogram size false histogram i =
      toInt32 (sizes.countP fun n ↦ decide (InBin i n)) := by
  simp only [List.countP_cons, decide_eq_true_eq] at h
  simp only [updateHistogram, Bool.false_eq_true, if_false]
  by_cases heq : histogramIndex size = i
  · rw [if_pos ((histogramIndex_eq_iff hi).1 heq)] at h
    rw [heq, Function.update_self, h, Int.sub_eq_add_neg, toInt32_toInt32_add]
    congr 1
    push_cast
    ring
  · rw [if_neg fun hbin ↦ heq ((histogramIndex_eq_iff hi).2 hbin)] at h
    rw [Function.update_of_ne (Ne.symm heq), h]
    rfl

/-- A step that changes no node and transfers nothing keeps the account. -/
theorem Accounted.quiet (h : s.Accounted g) (hsame : s.SameNodes s')
    (hledger : s'.ledger = s.ledger) :
    s'.Accounted g := by
  have hsizes : s'.liveSizes g = s.liveSizes g := by rw [liveSizes, hsame.blocks, liveSizes]
  constructor
  · rw [hledger, hsame.quarantine]
    exact h.taken
  · rw [hsame.counters, hsizes]
    exact h.numAllocMemblk
  · rw [hsame.counters, hledger]
    exact h.numAllocCnt
  · rw [hsame.counters, hsame.quarantine]
    exact h.numFreeCnt
  · rw [hsame.counters, hsizes]
    exact h.allocatedSize
  · rw [hsame.counters, hsizes]
    exact h.histogram

/-- The counting of `mc_register_memblk`. -/
theorem Accounted.recorded (h : s.Accounted g) {x : Memblk} {usrptr buf n c : ℕ} {t : State}
    (hcounters : t.counters = s.counters) (hblocks : t.blocks = s.blocks)
    (hquarantine : t.quarantine = s.quarantine) (hrec : Recorded env x usrptr t g n c s' g')
    (hledger : s'.ledger = s.ledger ++ [.took buf]) : s'.Accounted g' := by
  have hsizes : s'.liveSizes g' = x.usrsize :: s.liveSizes g := by
    rw [liveSizes, hrec.nodes, Function.update_self, List.map_cons, hrec.record, liveSizes]
    refine congrArg _ (List.map_congr_left fun m hm ↦ ?_)
    rw [hrec.record_of_ne m (ne_of_mem_of_not_mem hm (hrec.notMem .live)), hblocks]
  have htaken : (Transfer.taken s'.ledger).length = (Transfer.taken s.ledger).length + 1 := by
    rw [hledger, Transfer.taken_append, List.length_append]
    rfl
  have hfreed : s'.quarantine.freed = s.quarantine.freed := by
    rw [hrec.quarantine, hquarantine]
  have hc : s'.counters = s.counters.register x.usrsize := hcounters ▸ hrec.counters
  constructor
  · rw [htaken, h.taken, hrec.nodes, Function.update_self, List.length_cons, hfreed]
    omega
  · simp only [hc, Counters.register]
    rw [hsizes, h.numAllocMemblk, toInt32_toInt32_add]
    rfl
  · simp only [hc, Counters.register]
    rw [htaken, h.numAllocCnt, toInt32_toInt32_add]
    rfl
  · simp only [hc, Counters.register]
    rw [hfreed]
    exact h.numFreeCnt
  · simp only [hc, Counters.register]
    rw [hsizes, h.allocatedSize, wrapSize_wrapSize_add, List.sum_cons, Nat.add_comm]
  · intro i hi
    simp only [hc, Counters.register]
    rw [hsizes]
    exact updateHistogram_cons hi (h.histogram i hi)

/-- The counting of `mc_unregister_memblk`. -/
theorem Accounted.released (h : s.Accounted g) {usrptr n new c : ℕ} {evicted : Option ℕ}
    {log evictLog : List Event} (hn : n ∈ g.nodes .live)
    (hun : Unregistered env usrptr s g n new c evicted log evictLog s' g') {t : State}
    (hcounters : t.counters = s'.counters) (hblocks : t.blocks = s'.blocks)
    (hquarantine : t.quarantine = s'.quarantine)
    (htaken : Transfer.taken t.ledger = Transfer.taken s.ledger) : t.Accounted g' := by
  have hperm := List.perm_cons_erase hn
  have hsizes : (s.liveSizes g).Perm ((s.blocks.record n).memblk.usrsize :: t.liveSizes g') := by
    rw [liveSizes, liveSizes, hun.nodes, Function.update_self, hblocks, hun.record]
    exact hperm.map _
  have hfreed : t.quarantine.freed.length = s.quarantine.freed.length + 1 := by
    rw [hquarantine, hun.history, List.length_append, List.length_singleton]
  have hc : t.counters = s.counters.unregister (s.blocks.record n).memblk.usrsize :=
    hcounters.trans hun.counters
  have hlen := hsizes.length_eq
  have hsum := hsizes.sum_eq
  rw [List.length_cons] at hlen
  rw [List.sum_cons] at hsum
  constructor
  · have hlive := hperm.length_eq
    rw [List.length_cons] at hlive
    rw [htaken, h.taken, hun.nodes, Function.update_self, hfreed]
    omega
  · simp only [hc, Counters.unregister]
    rw [h.numAllocMemblk, hlen, Int.sub_eq_add_neg, toInt32_toInt32_add]
    congr 1
    push_cast
    ring
  · simp only [hc, Counters.unregister]
    rw [htaken]
    exact h.numAllocCnt
  · simp only [hc, Counters.unregister]
    rw [hfreed, h.numFreeCnt, toInt32_toInt32_add]
    rfl
  · simp only [hc, Counters.unregister]
    rw [h.allocatedSize, hsum, subSize_wrapSize_add]
  · intro i hi
    simp only [hc, Counters.unregister]
    refine updateHistogram_of_cons hi ((h.histogram i hi).trans ?_)
    rw [hsizes.countP_eq]

end Steps

/-- The payloads of the live blocks do not meet, and none of them is at null. -/
theorem Inv.sum_liveSizes_lt {s : State} {g : Contents} (h : s.Inv g) :
    (s.liveSizes g).sum < 9223372036854775808 := by
  let buffer (n : ℕ) : ℕ × ℕ :=
    ((s.blocks.record n).memblk.buf,
      (s.blocks.record n).memblk.buf + (s.blocks.record n).memblk.bufsize)
  have hapart : ((0, 1) :: (g.nodes .live).map buffer).Pairwise fun i j ↦ i.2 ≤ j.1 ∨
      j.2 ≤ i.1 := by
    refine List.pairwise_cons.2 ⟨fun i hi ↦ ?_, List.pairwise_map.2 ?_⟩
    · obtain ⟨n, hn, rfl⟩ := List.mem_map.1 hi
      have hne := h.heap.ne_null _ (h.guarded n hn).mem
      exact .inl (Nat.one_le_iff_ne_zero.2 hne)
    · exact (h.blocks.table .live).nodup.pairwise_of_forall_ne fun m hm n hn hne ↦
        (h.guarded m hm).apart h.heap (h.guarded n hn) (h.live_buf_ne hm hn hne)
  have hend : ∀ i ∈ (0, 1) :: (g.nodes .live).map buffer, i.2 ≤ 9223372036854775808 := by
    intro i hi
    rcases List.mem_cons.1 hi with rfl | hi
    · decide
    · obtain ⟨n, hn, rfl⟩ := List.mem_map.1 hi
      exact (h.guarded n hn).end_le h.heap
  have hle := sum_length_le hapart hend
  rw [List.map_cons, List.sum_cons, List.map_map] at hle
  have hsizes : (s.liveSizes g).sum ≤ ((g.nodes .live).map ((fun i ↦ i.2 - i.1) ∘ buffer)).sum := by
    refine List.sum_le_sum fun n hn ↦ ?_
    have hshape := (h.guarded n hn).shape
    have hstart := hshape.le
    have hstop := hshape.end_le
    show (s.blocks.record n).memblk.usrsize ≤ (s.blocks.record n).memblk.buf +
      (s.blocks.record n).memblk.bufsize - (s.blocks.record n).memblk.buf
    omega
  omega

theorem Inv.sum_liveSizes_le {s : State} {g : Contents} (h : s.Inv g) :
    (s.liveSizes g).sum ≤ 9223372036854775808 :=
  h.sum_liveSizes_lt.le

end State

/-! ### Runs -/

section Runs

variable {s : State}

/-- The counters follow the tables in every state of a run. -/
theorem HookedReachable.accounted (hs : HookedReachable s) :
    ∃ g, s.Inv g ∧ s.Accounted g := by
  have hzero : toInt32 0 = 0 := toInt32_of_mem (by decide) (by decide)
  have hinit : ∀ k mem, (State.init k mem).Accounted ⟨fun _ ↦ [], [], []⟩ := fun k mem ↦
    ⟨rfl, hzero.symm, hzero.symm, hzero.symm, rfl, fun _ _ ↦ hzero.symm⟩
  have hstep : ∀ {env s s' g g'}, s.Inv g → s'.Inv g' → SuppliedEffect env s g s' g' →
      s.Accounted g → s'.Accounted g' := by
    intro env s s' g g' _ _ he h
    cases he with
    | quiet hsame hledger => exact h.quiet hsame hledger
    | recorded r n c hne ha hrec hledger =>
      exact h.recorded (t := (s.origMalloc env r.bufsize).2) rfl rfl rfl hrec hledger
    | released n usrptr new c evicted log evictLog t hn hkey hun hback hledger =>
      refine h.released hn hun ?_ ?_ ?_ ?_
      · rw [hback, State.counters_giveBack]
      · rw [hback, State.blocks_giveBack]
      · rw [hback, State.quarantine_giveBack]
      · rw [hledger, Transfer.taken_append]
        cases evicted <;> exact List.append_nil _
  obtain ⟨g, hinv, -, -, hacc⟩ := hs.induction hinit hstep
  exact ⟨g, hinv, hacc⟩

/-- In a run of fewer than `2 ^ 31` registrations, the counters say what the table of live blocks
holds. -/
theorem counters_exact (hs : HookedReachable s)
    (hfew : (Transfer.taken s.ledger).length < 2147483648) :
    s.counters.Exact
      ((s.blocks.tableNodes .live).map fun n ↦ (s.blocks.record n).memblk.usrsize) := by
  obtain ⟨g, hinv, hacc⟩ := hs.accounted
  have hperm : ((s.blocks.tableNodes .live).map fun n ↦
      (s.blocks.record n).memblk.usrsize).Perm (s.liveSizes g) :=
    (hinv.blocks.tableNodes_perm .live).map _
  generalize (s.blocks.tableNodes .live).map _ = sizes at hperm
  have hlen : (g.nodes .live).length = sizes.length :=
    (List.length_map ..).symm.trans hperm.length_eq.symm
  have htaken := hacc.taken
  -- no count reaches the number of blocks taken, so none has wrapped
  have hexact : ∀ {k : ℕ}, k < 2147483648 → toInt32 k = k := fun hk ↦
    toInt32_of_mem (by omega) (by omega)
  have hmemblk : s.counters.numAllocMemblk = sizes.length := by
    rw [hacc.numAllocMemblk, ← hperm.length_eq, hexact (by omega)]
  have halloc : s.counters.numAllocCnt = (Transfer.taken s.ledger).length := by
    rw [hacc.numAllocCnt, hexact hfew]
  have hfree : s.counters.numFreeCnt = s.quarantine.freed.length := by
    rw [hacc.numFreeCnt, hexact (by omega)]
  have hbin : ∀ i < histoBins, s.counters.histogram i =
      sizes.countP fun n ↦ decide (InBin i n) := by
    intro i hi
    have hle : sizes.countP (fun n ↦ decide (InBin i n)) ≤ sizes.length := List.countP_le_length
    rw [hacc.histogram i hi, ← hperm.countP_eq, hexact (by omega)]
  refine ⟨hmemblk, ?_, ?_, hbin, ⟨?_, ?_, ?_, fun i hi ↦ ?_⟩, ?_⟩
  · rw [hmemblk, halloc, hfree, htaken, hlen]
    push_cast
    ring
  · have hle := hinv.sum_liveSizes_le
    rw [hacc.allocatedSize, ← hperm.sum_eq, wrapSize_of_lt]
    rw [hperm.sum_eq]
    omega
  · exact hmemblk ▸ Int.natCast_nonneg _
  · exact halloc ▸ Int.natCast_nonneg _
  · exact hfree ▸ Int.natCast_nonneg _
  · exact hbin i hi ▸ Int.natCast_nonneg _
  · have hsum : (List.range histoBins).map s.counters.histogram = ((List.range histoBins).map
        fun i ↦ sizes.countP fun n ↦ decide (InBin i n)).map Nat.cast := by
      rw [List.map_map]
      exact List.map_congr_left fun i hi ↦ hbin i (List.mem_range.1 hi)
    rw [hsum, ← Nat.cast_list_sum, sum_countP_inBin, hmemblk]

end Runs

/-- The counters of a run with a live block. -/
theorem counters_exact_oneBlock : ∃ s : State, s.blocks.tableNodes .live ≠ [] ∧ s.counters.Exact
    ((s.blocks.tableNodes .live).map fun n ↦ (s.blocks.record n).memblk.usrsize) := by
  obtain ⟨s, g, n, c, hs, hc, -, -, hrec⟩ := hookedReachable_oneBlock
  have htrace : s.trace = [.origMalloc 48 1048576] := by
    rw [hrec.trace, if_neg hc]
    rfl
  have hfew : (Transfer.taken s.ledger).length < 2147483648 := by
    rw [State.ledger, htrace]
    decide
  have hn : n ∈ s.blocks.tableNodes .live := by
    rw [hrec.inv.blocks.mem_tableNodes, hrec.nodes, Function.update_self]
    exact List.mem_cons_self
  exact ⟨s, List.ne_nil_of_mem hn, counters_exact hs hfew⟩

end Memchk
