import Memchk.Listing

/-!
# The status

The counters of `memchk_manage_memblk.c` as they are read and printed. What they say is told by the
history of the run: how many blocks have been entered and have left, up to the wrapping of an `int`,
how many there are, and how large these are together (`status_history`).

## The history

The registry gives the blocks of a state as what is left of a list of operations. `Tallied` says how
the counters follow that list: the number of entries, of exits, and the sizes of what is there. The
counters of the books are the counters of the program, so that the refinement proves this too.

## The histogram

The histogram prints a line for each bin, with two limits and a number. The number is that of the
live blocks with a size between the limits, with one exception: the first line shows `1 - 4`, but
`__update_histogram` counts blocks of size zero in the first bin, too, as the table in the comment
in front of it says. `inBin_iff_shownIn` is the difference, and `status_history` states the numbers
by what the lines show.
-/

namespace Memchk

namespace State

/-- `mc_get_alloc_memblk_cnt`. -/
def mcGetAllocMemblkCnt (s : State) : ℤ :=
  s.counters.numAllocMemblk

/-- `mc_get_allocated_size`. -/
def mcGetAllocatedSize (s : State) : ℕ :=
  s.counters.allocatedSize

/-- `mc_get_alloc_cnt`. -/
def mcGetAllocCnt (s : State) : ℤ :=
  s.counters.numAllocCnt

/-- `mc_get_free_cnt`. -/
def mcGetFreeCnt (s : State) : ℤ :=
  s.counters.numFreeCnt

/-- The loop of `mc_print_histogram_alloc_memblk`. -/
def printHistogramLoop (histogram : ℕ → ℤ) : ℕ → ℕ → ℕ → List Event
  | 0, _, _ => []
  | rounds + 1, i, size =>
    let low := if i = 0 then 1 else wrapSize (size + 1)
    if i < histoBins - 1 then
      .histogramBin low (some (wrapSize (size * histoMagnification))) (histogram i) ::
        printHistogramLoop histogram rounds (i + 1) (wrapSize (size * histoMagnification))
    else .histogramBin low none (histogram i) :: printHistogramLoop histogram rounds (i + 1) size

/-- `mc_print_histogram_alloc_memblk`. -/
def mcPrintHistogramAllocMemblk (s : State) : State :=
  s.emit (printHistogramLoop s.counters.histogram histoBins 0 1)

end State

/-- The limits that the line of a bin shows. The last bin has no upper one. -/
def histogramLimits (i : ℕ) : ℕ × Option ℕ :=
  (if i = 0 then 1 else histoMagnification ^ i + 1,
    if i < histoBins - 1 then some (histoMagnification ^ (i + 1)) else none)

/-- The line of a bin. -/
def histogramLine (i : ℕ) (num : ℤ) : Event :=
  .histogramBin (histogramLimits i).1 (histogramLimits i).2 num

/-- The size lies between the limits that the line of the bin shows. -/
def ShownIn (i size : ℕ) : Prop :=
  (histogramLimits i).1 ≤ size ∧ ∀ limit ∈ (histogramLimits i).2, size ≤ limit

instance (i size : ℕ) : Decidable (ShownIn i size) :=
  inferInstanceAs (Decidable (_ ∧ _))

/-- A bin counts the sizes that its line shows, and the first bin counts zero as well. -/
theorem inBin_iff_shownIn {i : ℕ} (hi : i < histoBins) (size : ℕ) :
    InBin i size ↔ ShownIn i size ∨ i = 0 ∧ size = 0 := by
  rcases Nat.eq_zero_or_pos i with rfl | hpos
  · simp only [InBin, ShownIn, histogramLimits, histoMagnification, histoBins]
    simp
    omega
  · have hne : i ≠ 0 := hpos.ne'
    by_cases htop : i < histoBins - 1
    · have hlast : i + 1 ≠ histoBins := by omega
      simp only [InBin, ShownIn, histogramLimits, hne, htop, hlast, if_true, if_false, false_or,
        false_and, or_false, Option.mem_some_iff, forall_eq', Nat.succ_le_iff]
    · have hlast : i + 1 = histoBins := by omega
      simp only [InBin, ShownIn, histogramLimits, hne, htop, hlast, if_false, false_or, true_or,
        false_and, or_false, and_true, Option.not_mem_none, false_imp_iff, implies_true,
        Nat.succ_le_iff]

/-- What the lines show is short of the blocks of size zero, which the first bin counts. -/
theorem countP_inBin {i : ℕ} (hi : i < histoBins) (sizes : List ℕ) :
    (sizes.countP fun n ↦ decide (InBin i n)) =
      (sizes.countP fun n ↦ decide (ShownIn i n)) + if i = 0 then sizes.count 0 else 0 := by
  have hlow : ¬ShownIn 0 0 := by decide
  have hone : ∀ size, (if InBin i size then 1 else 0) =
      (if ShownIn i size then 1 else 0) + if i = 0 ∧ size = 0 then 1 else 0 := by
    intro size
    rw [if_congr (inBin_iff_shownIn hi size) rfl rfl]
    by_cases hzero : i = 0 ∧ size = 0
    · obtain ⟨rfl, rfl⟩ := hzero
      simp [hlow]
    · simp [hzero]
  induction sizes with
  | nil => simp
  | cons size sizes ih =>
    simp only [List.countP_cons, List.count_cons, ih, decide_eq_true_eq, beq_iff_eq, hone]
    by_cases hi0 : i = 0
    · simp only [hi0, true_and, if_true]
      omega
    · simp only [hi0, false_and, if_false]
      omega

theorem printHistogramLoop_eq (histogram : ℕ → ℤ) :
    State.printHistogramLoop histogram histoBins 0 1 =
      (List.range histoBins).map fun i ↦ histogramLine i (histogram i) :=
  rfl

namespace Books

/-- The counters of the books, for the blocks `entries` that are left of the operations `ops`. -/
structure Tallied (ops : List BlockOp) (entries : List Entry) (b : Books) : Prop where
  mem_iff : ∀ x, x ∈ entries ↔ b.registry.live x.usrptr = some (x.callstack, x.size)
  nodup : entries.Nodup
  balance : entries.length + Registry.departed ops = Registry.entered ops
  numAllocMemblk : b.counters.numAllocMemblk = toInt32 entries.length
  numAllocCnt : b.counters.numAllocCnt = toInt32 (Registry.entered ops)
  numFreeCnt : b.counters.numFreeCnt = toInt32 (Registry.departed ops)
  allocatedSize : b.counters.allocatedSize = wrapSize (entries.map Entry.size).sum
  histogram : ∀ i < histoBins, b.counters.histogram i =
    toInt32 ((entries.map Entry.size).countP fun n ↦ decide (InBin i n))

variable {ops : List BlockOp} {entries : List Entry} {b b' : Books} {ptr : ℕ} {v : List ℕ × ℕ}
  {o : List ℕ}

theorem tallied_empty : Tallied [] [] empty := by
  have hzero : (0 : ℤ) = toInt32 0 := (toInt32_of_mem (by decide) (by decide)).symm
  exact ⟨fun x ↦ iff_of_false List.not_mem_nil (by simp [empty, Registry.empty]),
    List.nodup_nil, rfl,
    hzero, hzero, hzero, rfl, fun _ _ ↦ hzero⟩

/-- A block that is entered is one more. -/
theorem Tallied.enter (h : Tallied ops entries b) (hstep : b.step (.enter ptr v) = some b') :
    Tallied (ops ++ [.enter ptr v]) (⟨ptr, v.2, v.1⟩ :: entries) b' := by
  obtain ⟨r, hr, rfl⟩ := Option.map_eq_some_iff.1 hstep
  obtain ⟨hlive, hchange⟩ := Registry.live_of_step hr
  simp only [Registry.Op.key, Registry.Op.value, Option.isSome_some] at hlive hchange
  have hnone : b.registry.live ptr = none := Option.not_isSome_iff_eq_none.1 hchange
  have hvalue : (Registry.Op.value (.enter ptr v : BlockOp)).isSome = true := rfl
  have hold : ∀ x ∈ entries, x.usrptr ≠ ptr := by
    rintro x hx rfl
    rw [(h.mem_iff x).1 hx] at hnone
    cases hnone
  constructor
  · intro x
    rw [List.mem_cons, hlive]
    by_cases hx : x.usrptr = ptr
    · rw [hx, Function.update_self, or_iff_left fun hmem ↦ hold x hmem hx, Option.some_inj]
      constructor
      · rintro rfl
        rfl
      · rintro rfl
        rw [← hx]
    · rw [Function.update_of_ne hx, ← h.mem_iff, or_iff_right]
      rintro rfl
      exact hx rfl
  · exact List.nodup_cons.2 ⟨fun hmem ↦ hold _ hmem rfl, h.nodup⟩
  · have hbalance := h.balance
    rw [List.length_cons, Registry.entered_append_singleton, Registry.departed_append_singleton,
      hvalue, if_pos rfl, if_pos rfl]
    omega
  · simp only [Counters.register, List.length_cons]
    rw [h.numAllocMemblk, State.toInt32_toInt32_add]
    rfl
  · simp only [Counters.register]
    rw [h.numAllocCnt, State.toInt32_toInt32_add, Registry.entered_append_singleton, hvalue,
      if_pos rfl]
    rfl
  · rw [Registry.departed_append_singleton, hvalue, if_pos rfl]
    exact h.numFreeCnt
  · simp only [Counters.register]
    rw [h.allocatedSize, State.wrapSize_wrapSize_add, List.map_cons, List.sum_cons, Nat.add_comm]
  · intro i hi
    exact State.updateHistogram_cons hi (h.histogram i hi)

/-- A block that leaves is one less. -/
theorem Tallied.leave (h : Tallied ops entries b) (hstep : b.step (.leave ptr o) = some b') :
    ∃ x, Tallied (ops ++ [.leave ptr o]) (entries.erase x) b' := by
  obtain ⟨r, hr, rfl⟩ := Option.map_eq_some_iff.1 hstep
  obtain ⟨hlive, hchange⟩ := Registry.live_of_step hr
  simp only [Registry.Op.key, Registry.Op.value, Option.isSome_none] at hlive hchange
  obtain ⟨v, hv⟩ : ∃ v, b.registry.live ptr = some v :=
    Option.isSome_iff_exists.1 (Bool.of_not_eq_false hchange)
  have hvalue : ¬(Registry.Op.value (.leave ptr o : BlockOp)).isSome = true := Bool.false_ne_true
  -- the entry that the operation takes off
  obtain ⟨x, hx⟩ : ∃ x : Entry, x = ⟨ptr, v.2, v.1⟩ := ⟨_, rfl⟩
  have hmem : x ∈ entries := by
    rw [h.mem_iff, hx]
    exact hv
  have hperm := List.perm_cons_erase hmem
  have hlen := hperm.length_eq
  have hsum := (hperm.map Entry.size).sum_eq
  rw [List.length_cons] at hlen
  rw [List.map_cons, List.sum_cons] at hsum
  have hsize : x.size = v.2 := by rw [hx]
  refine ⟨x, ?_, h.nodup.erase x, ?_, ?_, ?_, ?_, ?_, fun i hi ↦ ?_⟩
  · intro y
    rw [h.nodup.mem_erase_iff, hlive]
    by_cases hy : y.usrptr = ptr
    · rw [hy, Function.update_self]
      refine iff_of_false (fun hmem' ↦ hmem'.1 ?_) (by simp)
      have hlive' := (h.mem_iff y).1 hmem'.2
      rw [hy, hv, Option.some_inj] at hlive'
      rw [hx, hlive', ← hy]
    · rw [Function.update_of_ne hy, ← h.mem_iff, and_iff_right]
      rintro rfl
      exact hy (by rw [hx])
  · have hbalance := h.balance
    rw [Registry.entered_append_singleton, Registry.departed_append_singleton, if_neg hvalue,
      if_neg hvalue]
    omega
  · simp only [Counters.unregister]
    rw [h.numAllocMemblk, hlen, Int.sub_eq_add_neg, State.toInt32_toInt32_add]
    congr 1
    push_cast
    ring
  · rw [Registry.entered_append_singleton, if_neg hvalue]
    exact h.numAllocCnt
  · simp only [Counters.unregister]
    rw [h.numFreeCnt, State.toInt32_toInt32_add, Registry.departed_append_singleton, if_neg hvalue]
    rfl
  · simp only [Counters.unregister, hv, Option.elim_some]
    rw [h.allocatedSize, hsum, hsize, State.subSize_wrapSize_add]
  · simp only [Counters.unregister, hv, Option.elim_some]
    refine State.updateHistogram_of_cons hi ((h.histogram i hi).trans ?_)
    rw [(hperm.map Entry.size).countP_eq, List.map_cons, hsize]

/-- A run of operations. -/
theorem tallied_of_run (h : run ops empty = some b) : ∃ entries, Tallied ops entries b := by
  induction ops using List.reverseRecOn generalizing b with
  | nil =>
    obtain rfl := Option.some.inj h
    exact ⟨[], tallied_empty⟩
  | append_singleton ops op ih =>
    rw [run_append, Option.bind_eq_some_iff] at h
    obtain ⟨b₁, hrun, hstep⟩ := h
    rw [run_singleton] at hstep
    obtain ⟨entries, htally⟩ := ih hrun
    cases op with
    | enter ptr v => exact ⟨_, htally.enter hstep⟩
    | leave ptr o =>
      obtain ⟨x, hx⟩ := htally.leave hstep
      exact ⟨_, hx⟩

end Books

/-- The counters as they are read, and the histogram as it is printed, for the blocks that are live
by the history of the run. The number in the line of a bin is that of the live blocks with a size
between the limits that the line shows, and blocks of size zero count with the first bin. -/
theorem status_history {ops : List BlockOp} {s : State} (h : Logged ops s) :
    ∃ entries : List Entry, entries.Nodup ∧
      (∀ x, x ∈ entries ↔ Registry.current ops x.usrptr = some (x.callstack, x.size)) ∧
      entries.length + Registry.departed ops = Registry.entered ops ∧
      s.mcGetAllocMemblkCnt = toInt32 entries.length ∧
      s.mcGetAllocCnt = toInt32 (Registry.entered ops) ∧
      s.mcGetFreeCnt = toInt32 (Registry.departed ops) ∧
      s.mcGetAllocatedSize = (entries.map Entry.size).sum ∧
      s.mcPrintHistogramAllocMemblk.trace = s.trace ++ (List.range histoBins).map fun i ↦
        histogramLine i (toInt32 (((entries.map Entry.size).countP fun n ↦ decide (ShownIn i n)) +
          if i = 0 then (entries.map Entry.size).count 0 else 0 : ℕ)) := by
  obtain ⟨hrun, hlive⟩ := h.run_eq
  obtain ⟨entries, htally⟩ := Books.tallied_of_run hrun
  obtain ⟨g, hg⟩ := h.mapped.settled
  have hperm : entries.Perm s.entries := by
    refine (List.perm_ext_iff_of_nodup htally.nodup hg.inv.nodup_entries).2 fun x ↦ ?_
    exact (htally.mem_iff x).trans hg.inv.mem_entries.symm
  refine ⟨entries, htally.nodup, fun x ↦ ?_, htally.balance, htally.numAllocMemblk,
    htally.numAllocCnt, htally.numFreeCnt, ?_, ?_⟩
  · rw [htally.mem_iff, ← hlive]
    rfl
  · have hlt := hg.inv.sum_entries_lt
    rw [← (hperm.map Entry.size).sum_eq] at hlt
    exact htally.allocatedSize.trans (wrapSize_of_lt (hlt.trans (by decide)))
  · rw [State.mcPrintHistogramAllocMemblk, printHistogramLoop_eq]
    refine congrArg (s.trace ++ ·) (List.map_congr_left fun i hi ↦ ?_)
    have hlt := List.mem_range.1 hi
    have hnum := htally.histogram i hlt
    rw [countP_inBin hlt] at hnum
    exact congrArg (histogramLine i) hnum

/-- One block of 16 bytes is counted. -/
theorem status_history_oneBlock : ∃ (ops : List BlockOp) (s : State),
    s.registry.live 1048592 = some ([], 16) ∧ ∃ entries : List Entry, entries.Nodup ∧
      (∀ x, x ∈ entries ↔ Registry.current ops x.usrptr = some (x.callstack, x.size)) ∧
      entries.length + Registry.departed ops = Registry.entered ops ∧
      s.mcGetAllocMemblkCnt = toInt32 entries.length ∧
      s.mcGetAllocCnt = toInt32 (Registry.entered ops) ∧
      s.mcGetFreeCnt = toInt32 (Registry.departed ops) ∧
      s.mcGetAllocatedSize = (entries.map Entry.size).sum ∧
      s.mcPrintHistogramAllocMemblk.trace = s.trace ++ (List.range histoBins).map fun i ↦
        histogramLine i (toInt32 (((entries.map Entry.size).countP fun n ↦ decide (ShownIn i n)) +
          if i = 0 then (entries.map Entry.size).count 0 else 0 : ℕ)) := by
  obtain ⟨ops, s, h, -, hlive⟩ := logged_oneBlock
  exact ⟨ops, s, hlive, status_history h⟩

end Memchk
