import Memchk.Exhaustion

/-!
# What an allocating call promises

Two things should hold of every call that gives the program memory: the sizes it computes have not
wrapped around, and the block it hands out is recorded. Neither is checked by the code. The first
holds exactly for requests that stay below the end of the address space (`call_fits_iff`), the
second exactly if the metadata pools had memory for the call (`call_tracked_iff`).

## Sizes

For each entry point the buffer must have room for the payload and both red zones. The sizes are
sums, and in `calloc` a product, of arguments, computed in a `size_t`. `Call.Fits` compares the
buffer with the payload that was asked for, in natural numbers, and the theorem says that a call
either fails or fits if and only if the sum does not reach `2 ^ 64`. A call that has wrapped hands
out a pointer to fewer bytes than were asked for, or faults while it sets the red zones.

## Records

The result of `mc_register_memblk` is not looked at by its callers. If there is no node for the
block, the pointer is handed out all the same, and is unknown to `free` and to all reports; if there
is no node for the callstack, the block is recorded without one. `Call.Tracked` is what should hold,
and the condition is that the pools have a node and a callstack before the call.
-/

namespace Memchk

namespace Call

/-- The number of bytes that a call asks for, as an exact integer; `realloc` with size zero asks for
none, it frees. -/
def wanted : Call → Option ℕ
  | .malloc size => some size
  | .free _ => none
  | .realloc ptr size => if ptr ≠ 0 ∧ size = 0 then none else some size
  | .calloc nmems size => some (nmems * size)
  | .posixMemalign _ size | .alignedAlloc _ size | .memalign _ size => some size
  | .valloc size => some size
  | .pvalloc size => some ((size + pageSize - 1) / pageSize * pageSize)

/-- What the buffer is larger by: the red zones and the slack for the alignment. -/
def overhead : Call → ℕ
  | .malloc _ | .free _ | .realloc .. | .calloc .. => redzoneSize * 2
  | .posixMemalign alignment _ | .alignedAlloc alignment _ | .memalign alignment _ =>
    redzoneSize * 2 + alignment - 1
  | .valloc _ | .pvalloc _ => redzoneSize * 2 + pageSize - 1

/-- The call gets no buffer, and returns null. -/
def Fails (env : Env) (c : Call) (s : State) : Prop :=
  (c.request s = none ∨ env.answer.addr = 0) ∧ ∀ p s', c.exec env s = some (p, s') → p = 0

/-- The call takes a buffer from `mc_orig_malloc` that has room for `bytes` and the red zones, and
registers a block with at least that many bytes. -/
def Fits (env : Env) (c : Call) (s : State) (bytes : ℕ) : Prop :=
  ∃ r, c.request s = some r ∧ c.exec env s = (r.serve env s).bind (c.finish env s) ∧
    bytes + redzoneSize * 2 ≤ r.bufsize ∧ bytes ≤ r.usrsize

end Call

/-! ### Sizes -/

/-- The buffer of `malloc` has room unless the sum wraps. -/
theorem Request.fits_malloc_iff {size : ℕ} (hsize : size < 18446744073709551616) :
    size + redzoneSize * 2 ≤ (Request.malloc size).bufsize ↔
      size + redzoneSize * 2 < 18446744073709551616 := by
  simp only [Request.malloc, redzoneSize, wrapSize]
  omega

/-- The buffer of an aligned allocator has room unless the sum wraps. -/
theorem Request.fits_aligned_iff {alignment size : ℕ} (hpos : 0 < alignment)
    (halign : alignment < 18446744073709551616) (hsize : size < 18446744073709551616) :
    size + redzoneSize * 2 ≤ (Request.aligned alignment size).bufsize ↔
      size + (redzoneSize * 2 + alignment - 1) < 18446744073709551616 := by
  simp only [Request.aligned, redzoneSize, wrapSize]
  omega

/-- The size of `calloc` after the product has wrapped around is too small. -/
theorem Request.fits_calloc_iff (n : ℕ) :
    n + redzoneSize * 2 ≤ (Request.malloc (wrapSize n)).bufsize ∧ n ≤ wrapSize n ↔
      n + redzoneSize * 2 < 18446744073709551616 := by
  simp only [Request.malloc, redzoneSize, wrapSize]
  omega

/-- So is the size of `pvalloc` after the rounding has. -/
theorem Request.fits_pvalloc_iff {size : ℕ} (hsize : size < 18446744073709551616) :
    let n := (size + pageSize - 1) / pageSize * pageSize
    let rounded := pageMask (wrapSize (size + pageSize - 1))
    n + redzoneSize * 2 ≤ (Request.aligned pageSize rounded).bufsize ∧ n ≤ rounded ↔
      n + (redzoneSize * 2 + pageSize - 1) < 18446744073709551616 := by
  simp only [Request.aligned, redzoneSize, pageSize, wrapSize, pageMask_eq]
  omega

/-- The sizes of a request are large enough exactly if no sum has wrapped around. -/
theorem Call.InRange.fits_iff {c : Call} (hc : c.InRange) {s : State} {r : Request} {bytes : ℕ}
    (hr : c.request s = some r) (hbytes : c.wanted = some bytes) :
    bytes + redzoneSize * 2 ≤ r.bufsize ∧ bytes ≤ r.usrsize ↔
      bytes + c.overhead < 18446744073709551616 := by
  -- the three calls that take an alignment
  have haligned : ∀ {alignment size : ℕ}, ¬(alignment = 0 ∨ ¬Hook.isPowerOf2 alignment) →
      alignment < 18446744073709551616 → size < 18446744073709551616 →
      (size + redzoneSize * 2 ≤ (Request.aligned alignment size).bufsize ∧
        size ≤ (Request.aligned alignment size).usrsize ↔
        size + (redzoneSize * 2 + alignment - 1) < 18446744073709551616) := by
    intro alignment size hpow halign hsize
    rw [not_or] at hpow
    rw [← Request.fits_aligned_iff (Nat.pos_of_ne_zero hpow.1) halign hsize]
    exact and_iff_left le_rfl
  cases c with
  | malloc size =>
    obtain rfl := Option.some.inj hr
    obtain rfl := Option.some.inj hbytes
    exact (and_iff_left le_rfl).trans (Request.fits_malloc_iff hc)
  | free ptr => cases hr
  | realloc ptr size =>
    rw [wanted] at hbytes
    rw [request] at hr
    split_ifs at hbytes with hfree
    obtain rfl := Option.some.inj hbytes
    split_ifs at hr <;> obtain rfl := Option.some.inj hr <;>
      exact (and_iff_left le_rfl).trans (Request.fits_malloc_iff hc.2)
  | calloc nmems size =>
    obtain rfl := Option.some.inj hbytes
    rw [request] at hr
    split_ifs at hr
    obtain rfl := Option.some.inj hr
    exact Request.fits_calloc_iff _
  | posixMemalign alignment size =>
    obtain rfl := Option.some.inj hbytes
    rw [request] at hr
    split_ifs at hr with hpow
    obtain rfl := Option.some.inj hr
    exact haligned hpow hc.1 hc.2
  | alignedAlloc alignment size =>
    obtain rfl := Option.some.inj hbytes
    rw [request] at hr
    split_ifs at hr with hpow
    obtain rfl := Option.some.inj hr
    exact haligned hpow hc.1 hc.2
  | memalign alignment size =>
    obtain rfl := Option.some.inj hbytes
    rw [request] at hr
    split_ifs at hr with hpow
    obtain rfl := Option.some.inj hr
    exact haligned hpow hc.1 hc.2
  | valloc size =>
    obtain rfl := Option.some.inj hbytes
    obtain rfl := Option.some.inj hr
    exact haligned (by decide) (by decide) hc
  | pvalloc size =>
    obtain rfl := Option.some.inj hbytes
    obtain rfl := Option.some.inj hr
    exact Request.fits_pvalloc_iff hc

section Calls

variable {s s' : State} {g : Contents} {env : Env} {c : Call} {r : Request} {bytes p : ℕ}

/-- A call that gets no buffer returns null. -/
theorem Call.fails_of_request_eq_none (h0 : s.doNotHook = 0) (hr : c.request s = none) :
    c.Fails env s := by
  refine ⟨.inl hr, fun p s' hexec ↦ ?_⟩
  rw [Call.exec_of_request_eq_none (.inr h0) hr] at hexec
  have hfree : ∀ {ptr}, (Hook.free env ptr s).map (0, ·) = some (p, s') → p = 0 := by
    intro ptr hmap
    obtain ⟨t, -, heq⟩ := Option.map_eq_some_iff.1 hmap
    exact (congrArg Prod.fst heq).symm
  have hquiet : ∀ {t : State}, some ((0 : ℕ), t) = some (p, s') → p = 0 := fun heq ↦
    (congrArg Prod.fst (Option.some.inj heq)).symm
  cases c with
  | free ptr => exact hfree hexec
  | realloc ptr size =>
    rw [Call.refuse] at hexec
    split_ifs at hexec
    · exact hfree hexec
    · exact hquiet hexec
  | malloc _ | calloc _ _ | posixMemalign _ _ | alignedAlloc _ _ | memalign _ _ | valloc _
  | pvalloc _ => exact hquiet hexec

/-- A call fails if the function behind the hooks has no memory. -/
theorem Call.fails_of_answer_null (h : s.Inv g) (h0 : s.doNotHook = 0) (hr : c.request s = some r)
    (hnull : env.answer.addr = 0) : c.Fails env s := by
  refine ⟨.inr hnull, fun p s' hexec ↦ ?_⟩
  rw [Call.exec_of_request (.inr h0) hr (Call.isSome_mcHandleReallocMemblk h),
    Option.bind_eq_some_iff] at hexec
  obtain ⟨⟨p₁, t⟩, hserve, hfin⟩ := hexec
  have hp₁ : p₁ = 0 := by
    simp only [Request.serve, State.origMalloc, hnull, if_true] at hserve
    exact (congrArg Prod.fst (Option.some.inj hserve)).symm
  exact (Call.finish_spec hr hfin).1.trans hp₁

/-- A call either fails, or takes a buffer that is large enough and registers a block that is, if
and only if it is rejected, the library has no memory, or no sum wraps around. -/
theorem call_fits_iff (hs : Reachable s) (h0 : s.doNotHook = 0) (hc : c.InRange)
    (hbytes : c.wanted = some bytes) :
    c.Fails env s ∨ c.Fits env s bytes ↔
      c.request s = none ∨ env.answer.addr = 0 ∨ bytes + c.overhead < 18446744073709551616 := by
  obtain ⟨g, h⟩ := hs.inv
  constructor
  · rintro (⟨hnone | hnull, -⟩ | ⟨r, hr, -, hsizes⟩)
    · exact .inl hnone
    · exact .inr (.inl hnull)
    · exact .inr (.inr ((hc.fits_iff hr hbytes).1 hsizes))
  · intro hcond
    cases hr : c.request s with
    | none => exact .inl (Call.fails_of_request_eq_none h0 hr)
    | some r =>
      rw [hr] at hcond
      rcases hcond.resolve_left (by simp) with hnull | hlt
      · exact .inl (Call.fails_of_answer_null h h0 hr hnull)
      · exact .inr ⟨r, hr, Call.exec_of_request (.inr h0) hr (Call.isSome_mcHandleReallocMemblk h),
          (hc.fits_iff hr hbytes).2 hlt⟩

theorem call_fits_iff_sample : (Call.malloc 100).Fails (Env.handing 1048576) State.start ∨
    (Call.malloc 100).Fits (Env.handing 1048576) State.start 100 :=
  (call_fits_iff (c := .malloc 100) reachable_start rfl (by decide : 100 < _) rfl).2
    (.inr (.inr (by decide)))

/-- The product of `calloc` wraps around: it returns a buffer for `2 ^ 32` bytes instead of
`2 ^ 64 + 2 ^ 32`. -/
theorem not_call_fits :
    (Call.calloc 4294967296 4294967297).InRange ∧
      ((Call.calloc 4294967296 4294967297).exec (Env.handing 1048576) State.start).map Prod.fst =
        some 1048592 ∧
      ¬((Call.calloc 4294967296 4294967297).Fails (Env.handing 1048576) State.start ∨
        (Call.calloc 4294967296 4294967297).Fits (Env.handing 1048576) State.start
          (4294967296 * 4294967297)) := by
  refine ⟨⟨by decide, by decide⟩, by decide +kernel, ?_⟩
  rintro (⟨hnone | hnull, -⟩ | ⟨r, hr, -, hle, -⟩)
  · exact absurd hnone (by decide)
  · exact absurd hnull (by decide)
  · obtain rfl := Option.some.inj hr
    exact absurd hle (by decide)

/-! ### Records -/

/-- Nothing of the call is left: no buffer is outstanding that was not before, and nothing was
counted. -/
def Call.Untouched (s s' : State) : Prop :=
  s'.heap.outstanding = s.heap.outstanding ∧ s'.counters = s.counters

/-- The pointer is the payload of a live block in the buffer that was handed out, with a
callstack and with armed red zones. A later `free` of it is accepted if there is a node for the
freed block. -/
def Call.Tracked (env : Env) (p : ℕ) (s : State) : Prop :=
  ∃ n, s.blocks.find .live p = some n ∧ n ≠ 0 ∧
    (s.blocks.record n).memblk.buf = env.answer.addr ∧ (s.blocks.record n).allocator ≠ 0 ∧
    (s.blocks.record n).memblk.Intact p s.heap.mem ∧
    ∀ env' b ret buf t, (∃ m pool, mcAllocateFreeMemblk s.quarantine.pool =
    some (m, pool) ∧ m ≠ 0) →
      mcUnregisterMemblk env' p b s = some (ret, buf, t) → ret = 0

/-- A live block is freed if there is a node for the quarantine. -/
theorem State.Inv.unregister_accepted (h : s.Inv g) {n : ℕ} (hn : n ∈ g.nodes .live)
    (hkey : (s.blocks.record n).usrptr = p) {env' : Env} {b : ℕ} {ret : ℤ} {buf : ℕ} {t : State}
    (halloc : ∃ m pool, mcAllocateFreeMemblk s.quarantine.pool = some (m, pool) ∧ m ≠ 0)
    (hrun : mcUnregisterMemblk env' p b s = some (ret, buf, t)) : ret = 0 := by
  rcases h.unregister env' p b with
    ⟨hnone, -⟩ | ⟨m, -, -, ⟨-, hnone⟩ | ⟨rc, log, -, ⟨u, heq, hdrop⟩ | ⟨-, hnone⟩ |
      ⟨new, c, evicted, evictLog, u, g', heq, -⟩⟩⟩
  · exact absurd hkey (hnone n hn)
  · exact absurd (hrun.symm.trans hnone) (by simp)
  · obtain ⟨m, pool, halloc, hm⟩ := halloc
    rw [hdrop.failed, Option.some_inj, Prod.mk.injEq] at halloc
    exact absurd halloc.1.symm hm
  · exact absurd (hrun.symm.trans hnone) (by simp)
  · rw [heq, Option.some_inj, Prod.mk.injEq] at hrun
    exact hrun.1.symm

/-- A call that asks for memory and is rejected leaves everything as it was. -/
theorem Call.untouched_of_request_eq_none (h0 : s.doNotHook = 0) (hr : c.request s = none)
    (hbytes : c.wanted = some bytes) (hexec : c.exec env s = some (p, s')) :
    p = 0 ∧ Call.Untouched s s' := by
  rw [Call.exec_of_request_eq_none (.inr h0) hr] at hexec
  have hquiet : some ((0 : ℕ), s) = some (p, s') → p = 0 ∧ Call.Untouched s s' := by
    intro heq
    simp only [Option.some.injEq, Prod.mk.injEq] at heq
    exact ⟨heq.1.symm, heq.2 ▸ ⟨rfl, rfl⟩⟩
  cases c with
  | free ptr => cases hbytes
  | realloc ptr size =>
    rw [Call.wanted] at hbytes
    rw [Call.request] at hr
    rw [Call.refuse] at hexec
    split_ifs at hr with hptr hsize
    · simp [hptr, hsize] at hbytes
    · rw [if_neg hsize, Option.some_inj, Prod.mk.injEq] at hexec
      exact ⟨hexec.1.symm, hexec.2 ▸ ⟨rfl, rfl⟩⟩
  | malloc _ | calloc _ _ | posixMemalign _ _ | alignedAlloc _ _ | memalign _ _ | valloc _
  | pvalloc _ => exact hquiet hexec

/-- What the rest of a call leaves of the live blocks: all but the one that `realloc` frees, and
their bytes but for the payload handed out. -/
theorem Call.after_finish {t : State} {p₁ : ℕ} (ht : t.Inv g) (h0 : t.doNotHook = 0)
    (hgarbage : env.garbage ∉ t.liveBufs g ++ t.freedBufs g) (hr : c.request s = some r)
    (hfin : c.finish env s (p₁, t) = some (p, s')) :
    ∃ g', s'.Inv g' ∧ s'.blocks.record = t.blocks.record ∧
      (g'.nodes .live).Sublist (g.nodes .live) ∧
      (∀ m ∈ g.nodes .live, (∀ ptr size, c = .realloc ptr size →
        mcHandleReallocMemblk ptr s ≠ some 18446744073709551615 →
        (t.blocks.record m).usrptr ≠ ptr) → m ∈ g'.nodes .live) ∧
      ∀ m ∈ g'.nodes .live, ∀ y, ¬(p ≤ y ∧ y < p + r.usrsize) →
        (t.blocks.record m).memblk.buf ≤ y →
        y < (t.blocks.record m).memblk.buf + (t.blocks.record m).memblk.bufsize →
        s'.heap.mem y = t.heap.mem y := by
  obtain ⟨rfl, rfl | ⟨-, mem, hmem, rfl | ⟨ptr, size, hc, -, -, hold, hfree⟩⟩⟩ :=
    finish_spec hr hfin
  · exact ⟨g, ht, rfl, List.Sublist.refl _, fun _ hm _ ↦ hm, fun _ _ _ _ _ _ ↦ rfl⟩
  · exact ⟨g, ht.withMem mem, rfl, List.Sublist.refl _, fun _ hm _ ↦ hm,
      fun _ _ y hy _ _ ↦ hmem y hy⟩
  · obtain ⟨g', heffect, hafter⟩ := (ht.withMem mem).hookFree h0 hgarbage hfree
    exact ⟨g', heffect.inv (ht.withMem mem), hafter.record, hafter.sub,
      fun m hm hne ↦ hafter.kept m hm (hne ptr size hc hold),
      fun m hm y hy hle hlt ↦ (hafter.mem m hm y hle hlt).trans (hmem y hy)⟩

/-- A buffer that no node was found for is not tracked. -/
theorem Call.not_tracked_of_unrecorded {t : State} (h : s.Inv g)
    (ha : Heap.AnswerOk env.answer r.bufsize s.heap) (hne : env.answer.addr ≠ 0)
    (hun : Unrecorded (s.origMalloc env r.bufsize).2 g t) {g' : Contents} (hs' : s'.Inv g')
    (hrecord : s'.blocks.record = t.blocks.record)
    (hsub : (g'.nodes .live).Sublist (g.nodes .live)) : ¬Call.Tracked env p s' := by
  rintro ⟨n, hfind, hn, hbuf, -⟩
  have hlive := hsub.subset (hs'.of_find_live hfind hn).1
  rw [hrecord, hun.record] at hbuf
  refine h.answer_notMem ha hne ?_
  rw [List.mem_append]
  exact .inl (List.mem_map.2 ⟨n, hlive, hbuf⟩)

/-- A block just recorded is tracked exactly if it has a callstack. -/
theorem Call.tracked_iff_of_recorded {t : State} {g₁ g' : Contents} {n k : ℕ}
    (hrec : Recorded env (r.block env.answer.addr) (r.place env.answer.addr)
      (s.origMalloc env r.bufsize).2 g n k t g₁)
    (hs' : s'.Inv g') (hrecord : s'.blocks.record = t.blocks.record) (hn : n ∈ g'.nodes .live)
    (hmem : ∀ m ∈ g'.nodes .live, ∀ y, ¬(r.place env.answer.addr ≤ y ∧
      y < r.place env.answer.addr + r.usrsize) → (t.blocks.record m).memblk.buf ≤ y →
      y < (t.blocks.record m).memblk.buf + (t.blocks.record m).memblk.bufsize →
      s'.heap.mem y = t.heap.mem y) :
    Call.Tracked env (r.place env.answer.addr) s' ↔ k ≠ 0 := by
  have hself : s'.blocks.record n = ⟨r.place env.answer.addr, r.block env.answer.addr, k⟩ := by
    rw [hrecord, hrec.record]
  have hfind : s'.blocks.find .live (r.place env.answer.addr) = some n := by
    have := hs'.find_live hn
    rwa [hself] at this
  constructor
  · rintro ⟨m, hfind', -, -, hk, -⟩
    obtain rfl : n = m := Option.some.inj (hfind.symm.trans hfind')
    rwa [hself] at hk
  · intro hk
    refine ⟨n, hfind, hs'.blocks.ne_null hn, by rw [hself]; rfl, by rw [hself]; exact hk, ?_,
      fun env' b ret buf u halloc hrun ↦ hs'.unregister_accepted hn (by rw [hself]) halloc hrun⟩
    have harmed := @intact_armed _ _ true hrec.shape (s.origMalloc env r.bufsize).2.heap.mem
    have hsame := hmem n hn
    rw [hrec.record, hrec.heap] at hsame
    rw [hself]
    have hle := hrec.shape.le
    have hle' := hrec.shape.end_le
    simp only [Request.block] at hle hle' hsame
    refine ⟨fun y hy hy' ↦ ?_, fun y hy hy' ↦ ?_⟩
    · simp only [Request.block] at hy hy'
      exact (hsame y (by omega) hy (by omega)).trans (harmed.1 y hy hy')
    · simp only [Request.block] at hy hy'
      exact (hsame y (by omega) (by omega) hy').trans (harmed.2 y hy hy')

/-- `realloc` goes on only for the pointer of a live block. -/
theorem State.Inv.exists_of_realloc (h : s.Inv g) {ptr : ℕ}
    (hold : mcHandleReallocMemblk ptr s ≠ some 18446744073709551615) :
    ∃ m ∈ g.nodes .live, (s.blocks.record m).usrptr = ptr := by
  rcases h.blocks.find .live ptr with ⟨-, hfind⟩ | ⟨m, hm, hkey, -⟩
  · exact absurd (by rw [mcHandleReallocMemblk, hfind]; rfl) hold
  · exact ⟨m, hm, hkey⟩

/-- What a returning call promises of the pointer it returns holds if and only if it was rejected,
the library had no memory, or both pools had a node for the block. -/
theorem call_tracked_iff (hs : Reachable s) (h0 : s.doNotHook = 0) (hc : c.InRange)
    (henv : c.EnvOk env s) (hbytes : c.wanted = some bytes)
    (hexec : c.exec env s = some (p, s')) :
    ((p ≠ 0 → Call.Tracked env p s') ∧ (p = 0 → Call.Untouched s s')) ↔
      c.request s = none ∨ env.answer.addr = 0 ∨ s.HasNode ∧ s.HasCallstack env := by
  obtain ⟨g, h⟩ := hs.inv
  have hgarbage : env.garbage ∉ s.liveBufs g ++ s.freedBufs g :=
    fun hmem ↦ henv.garbage (h.tracks_iff.2 hmem)
  cases hr : c.request s with
  | none =>
    obtain ⟨hp, hsame⟩ := Call.untouched_of_request_eq_none h0 hr hbytes hexec
    exact iff_of_true ⟨fun hne ↦ absurd hp hne, fun _ ↦ hsame⟩ (.inl rfl)
  | some r =>
    have ha := henv.answer r hr
    rw [Call.exec_of_request (.inr h0) hr (Call.isSome_mcHandleReallocMemblk h),
      Option.bind_eq_some_iff] at hexec
    obtain ⟨⟨p₁, t⟩, hserve, hfin⟩ := hexec
    rcases h.serve (hc.request_ok hr) ha with ⟨hnull, heq⟩ | ⟨hne, ⟨u, heq, hun⟩ | ⟨-, hnone⟩ |
      ⟨u, g₁, n, k, heq, hrec⟩⟩
    · rw [heq, Option.some_inj, Prod.mk.injEq] at hserve
      obtain ⟨rfl, rfl⟩ := hserve
      obtain ⟨rfl, rfl | ⟨hp, -⟩⟩ := Call.finish_spec hr hfin
      · refine iff_of_true ⟨fun hp ↦ absurd rfl hp, fun _ ↦ ⟨?_, rfl⟩⟩ (.inr (.inl hnull))
        show (s.heap.origMalloc env.answer r.bufsize).outstanding = s.heap.outstanding
        rw [Heap.origMalloc, if_pos hnull]
      · exact absurd rfl hp
    · rw [heq, Option.some_inj, Prod.mk.injEq] at hserve
      obtain ⟨rfl, rfl⟩ := hserve
      have hgarbage' : env.garbage ∉ u.liveBufs g ++ u.freedBufs g := by
        simp only [State.liveBufs, State.freedBufs, hun.record, hun.quarantine]
        exact hgarbage
      obtain ⟨g', hs', hrecord, hsub, -, -⟩ :=
        Call.after_finish hun.inv (hun.doNotHook.trans h0) hgarbage' hr hfin
      refine iff_of_false (fun hall ↦ ?_) ?_
      · by_cases hp : p = 0
        · -- the buffer is outstanding
          have hu : s' = u := by
            obtain ⟨-, hu | ⟨hne', -⟩⟩ := Call.finish_spec hr hfin
            · exact hu
            · exact absurd hp hne'
          have hout := (hall.2 hp).1
          rw [hu, hun.heap] at hout
          exact absurd ((Heap.outstanding_origMalloc hne).symm.trans hout) (by simp)
        · exact Call.not_tracked_of_unrecorded h ha hne hun hs' hrecord hsub (hall.1 hp)
      · rintro (hnone | hnull | ⟨⟨n, pool, halloc, hn⟩, -⟩)
        · cases hnone
        · exact hne hnull
        · have hfailed : mcAllocateAllocMemblk s.blocks.pool = some (0, u.blocks.pool) := hun.failed
          rw [hfailed, Option.some_inj, Prod.mk.injEq] at halloc
          exact hn halloc.1.symm
    · exact absurd (hserve.symm.trans hnone) (by simp)
    · rw [heq, Option.some_inj, Prod.mk.injEq] at hserve
      obtain ⟨rfl, rfl⟩ := hserve
      have hgarbage' : env.garbage ∉ u.liveBufs g₁ ++ u.freedBufs g₁ := by
        rw [hrec.bufs.1, hrec.bufs.2, List.cons_append, List.mem_cons, not_or]
        refine ⟨fun heq ↦ ?_, hgarbage⟩
        rcases henv.garbage_ne with hzero | hother
        · exact hne (heq.symm.trans hzero)
        · exact hother heq
      obtain ⟨g', hs', hrecord, hsub, hkept, hmem⟩ :=
        Call.after_finish hrec.inv (hrec.doNotHook.trans h0) hgarbage' hr hfin
      obtain ⟨rfl, -⟩ := Call.finish_spec hr hfin
      have hn₁ : n ∈ g₁.nodes .live := by
        rw [hrec.nodes, Function.update_self]
        exact List.mem_cons_self
      have hn : n ∈ g'.nodes .live := by
        -- the block that `realloc` frees was live before
        refine hkept n hn₁ fun ptr size _ hold hkey ↦ ?_
        obtain ⟨m, hm, hmkey⟩ := h.exists_of_realloc hold
        have hmn := ne_of_mem_of_not_mem hm (hrec.notMem .live)
        refine hmn (hrec.inv.live_inj ?_ hn₁ ?_)
        · rw [hrec.nodes, Function.update_self]
          exact List.mem_cons_of_mem _ hm
        · rw [hrec.record_of_ne m hmn, hkey]
          exact hmkey
      have hp : r.place env.answer.addr ≠ 0 := by
        have := hrec.shape.le
        simp only [Request.block] at this
        omega
      have hnode : s.HasNode := ⟨n, u.blocks.pool, hrec.allocated, hs'.blocks.ne_null hn⟩
      have hcallstack : s.HasCallstack env ↔ k ≠ 0 := by
        have hgot : mcGetCallstack env.allocFrames s.callstacks = some (k, u.callstacks) := hrec.got
        refine ⟨?_, fun hk ↦ ⟨k, u.callstacks, hgot, hk⟩⟩
        rintro ⟨k', cs, hgot', hk⟩
        rw [hgot, Option.some_inj, Prod.mk.injEq] at hgot'
        exact hgot'.1 ▸ hk
      have htracked := Call.tracked_iff_of_recorded hrec hs' hrecord hn hmem
      constructor
      · exact fun hall ↦ .inr (.inr ⟨hnode, hcallstack.2 (htracked.1 (hall.1 hp))⟩)
      · rintro (hnone | hnull | ⟨-, hk⟩)
        · cases hnone
        · exact absurd hnull hne
        · exact ⟨fun _ ↦ htracked.2 (hcallstack.1 hk), fun hzero ↦ absurd hzero hp⟩

end Calls

/-- The first block of a run. -/
theorem call_tracked_iff_sample : ∃ p s',
    (Call.malloc 16).exec (Env.handing 1048576) State.start = some (p, s') ∧
      Call.Tracked (Env.handing 1048576) p s' := by
  obtain ⟨⟨p, s'⟩, hexec⟩ := Option.isSome_iff_exists.1 (by decide +kernel :
    ((Call.malloc 16).exec (Env.handing 1048576) State.start).isSome)
  have hp : some p = some 1048592 := by
    have hfst : ((Call.malloc 16).exec (Env.handing 1048576) State.start).map Prod.fst =
        some 1048592 := by decide +kernel
    rwa [hexec] at hfst
  refine ⟨p, s', hexec, ((call_tracked_iff (c := .malloc 16) reachable_start rfl
    (by decide : 16 < 18446744073709551616) (resting_start.envOk (by decide))
    (rfl : (Call.malloc 16).wanted = some 16) hexec).2
    (.inr (.inr ⟨hasNode_start, hasCallstack_start _⟩))).1 ?_⟩
  rw [Option.some.inj hp]
  decide

/-- When the 62 nodes of the first page are taken and no page can be mapped, `malloc` returns a
pointer to a buffer that no live block has. -/
theorem not_call_tracked : ∃ s p s', Reachable s ∧ s.doNotHook = 0 ∧
    (Call.malloc 16).EnvOk (Env.handing 1052544) s ∧
    (Call.malloc 16).exec (Env.handing 1052544) s = some (p, s') ∧ p ≠ 0 ∧
      ¬Call.Tracked (Env.handing 1052544) p s' := by
  obtain ⟨s, g, h, hpool, -⟩ := @Resting.mallocs 62 _ _ _ resting_start (by decide) (by decide)
    (by decide +kernel)
  have hnone : (mcAllocateAllocMemblk s.blocks.pool).map Prod.fst = some 0 := by
    rw [hpool]
    decide +kernel
  have hok : (Call.malloc 16).EnvOk (Env.handing 1052544) s := h.envOk (by decide)
  have ha := hok.answer (.malloc 16) rfl
  have hexec : (Call.malloc 16).exec (Env.handing 1052544) s =
      (Request.malloc 16).serve (Env.handing 1052544) s := Call.malloc_eq_serve h.mode 16
  have hplace : (Request.malloc 16).place 1052544 = 1052560 := by decide
  rcases h.inv.serve (Request.ok_malloc (by decide)) ha with ⟨hnull, -⟩ | ⟨hne, ⟨u, heq, hun⟩ |
    ⟨hshape, -⟩ | ⟨u, g₁, n, c, -, hrec⟩⟩
  · exact absurd hnull (by decide)
  · exact ⟨s, _, u, h.reachable, h.mode, hok, hexec.trans heq, hplace ▸ by decide,
      Call.not_tracked_of_unrecorded h.inv ha hne hun hun.inv rfl (List.Sublist.refl _)⟩
  · refine absurd ⟨?_, ?_⟩ hshape <;> decide
  · have hzero : some n = some 0 := by
      have halloc : mcAllocateAllocMemblk s.blocks.pool = some (n, u.blocks.pool) := hrec.allocated
      rwa [halloc] at hnone
    have hn : n ∈ g₁.nodes .live := by
      rw [hrec.nodes, Function.update_self]
      exact List.mem_cons_self
    exact absurd (Option.some.inj hzero) (hrec.inv.blocks.ne_null hn)

end Memchk
