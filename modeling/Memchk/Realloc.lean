import Memchk.CheckAll

/-!
# What `realloc` keeps

With hooks enabled `realloc` is an allocation, a copy and a `free`, on one memory. The copy reads
the old payload before `mc_set_freed_buffer` overwrites it, and it writes into a buffer that is
apart from all others, as are the buffer of the old block and that of the block that leaves the
quarantine. So the payload has moved (`Reallocated`), and no other live block has changed.

## The copy

The number of bytes copied is the smaller of the two sizes. Both ranges lie in buffers handed out,
and they do not overlap, so `memcpy` does not fault and has the expected effect (`Heap.memcpy_eq`,
`Heap.copied_add`, `Heap.copied_of_notMem`).

## The bytes

`Reallocated` is about bytes: those of the new payload are those of the old one as far as it goes
and the fill pattern behind it, and those of all other live payloads are what they were. Each is
followed through four writes: setting the new block, the copy, poisoning the old block, and
repairing or scribbling over what is evicted.

## The other cases

Without a buffer `realloc` returns null and the old block stays as it was. For a pointer that is not
live it returns null, with a message in the log (`realloc_spec`).
-/

namespace Memchk

namespace State

/-- The metadata that a `realloc` takes and reads is there: a node for the new block, one for the
old block in the quarantine, and the callstacks of all blocks. -/
structure Supplied (s : State) : Prop where
  node : s.HasNode
  freeNode : s.HasFreeNode
  allocator : ∀ n, s.IsLive n → (s.blocks.record n).allocator ≠ 0
  freed : ∀ n, s.IsFreed n →
    (s.quarantine.record n).allocator ≠ 0 ∧ (s.quarantine.record n).freer ≠ 0

/-- The live block `n`, whose payload was at `ptr`, has moved to `q` and has `size` bytes there. -/
structure Reallocated (ptr size : ℕ) (s : State) (n q : ℕ) (s' : State) : Prop where
  live : ∃ m, s'.IsLive m ∧ s'.blocks.find .live q = some m ∧
    (s'.blocks.record m).memblk.usrsize = size ∧ (s'.blocks.record m).memblk.Intact q s'.heap.mem
  kept : ∀ i < min (s.blocks.record n).memblk.usrsize size,
    s'.heap.mem (q + i) = s.heap.mem (ptr + i)
  fresh : ∀ i, (s.blocks.record n).memblk.usrsize ≤ i → i < size →
    s'.heap.mem (q + i) = initbufPattern
  newest : ∃ m, s'.IsFreed m ∧ s'.quarantine.find ptr = some m ∧
    s'.quarantine.freeMemblkArray
      ((s'.quarantine.freeFifoIdx + (freeFifoSize - 1)) % freeFifoSize) = m ∧
    (s'.quarantine.record m).memblk = (s.blocks.record n).memblk
  gone : s'.blocks.find .live ptr = some 0
  others : ∀ k, s.IsLive k → k ≠ n → s'.IsLive k ∧ s'.blocks.record k = s.blocks.record k ∧
    ∀ y, (s.blocks.record k).memblk.buf ≤ y →
      y < (s.blocks.record k).memblk.buf + (s.blocks.record k).memblk.bufsize →
      s'.heap.mem y = s.heap.mem y

end State

/-! ### The copy -/

section Copy

variable {h : Heap} {dest src len : ℕ}

/-- The bytes after `memcpy`. -/
def Heap.copied (dest src len : ℕ) (mem : ℕ → UInt8) (x : ℕ) : UInt8 :=
  if dest ≤ x ∧ x < dest + len then mem (src + (x - dest)) else mem x

theorem Heap.memcpy_eq (hdest : h.Accessible dest len) (hsrc : h.Accessible src len) :
    h.memcpy dest src len = some { h with mem := Heap.copied dest src len h.mem } :=
  if_pos ⟨hdest, hsrc⟩

theorem Heap.copied_add {i : ℕ} (hi : i < len) (mem : ℕ → UInt8) :
    Heap.copied dest src len mem (dest + i) = mem (src + i) := by
  rw [Heap.copied, if_pos ⟨Nat.le_add_right _ _, Nat.add_lt_add_left hi _⟩, Nat.add_sub_cancel_left]

theorem Heap.copied_of_notMem {x : ℕ} (hx : ¬(dest ≤ x ∧ x < dest + len)) (mem : ℕ → UInt8) :
    Heap.copied dest src len mem x = mem x :=
  if_neg hx

/-- A part of the payload of a block can be read and written. -/
theorem Guarded.accessible {x : Memblk} {p : ℕ} (hx : Guarded h x p) (hlen : len ≤ x.usrsize) :
    h.Accessible p len := by
  have hend := hx.shape.end_le
  exact .inr ⟨_, hx.mem, hx.shape.le, by show p + len ≤ x.buf + x.bufsize; omega⟩

end Copy

namespace State

variable {s t s' : State} {g g₁ g' : Contents} {env : Env} {size n : ℕ}

/-- `realloc` of a live block asks for a buffer as `malloc` does. -/
theorem Inv.request_realloc (h : s.Inv g) (hn : n ∈ g.nodes .live) (hsize : size ≠ 0) :
    (Call.realloc (s.blocks.record n).usrptr size).request s = some (.malloc size) ∧
      mcHandleReallocMemblk (s.blocks.record n).usrptr s =
        some (s.blocks.record n).memblk.usrsize ∧ (s.blocks.record n).usrptr ≠ 0 := by
  have hguarded := h.guarded n hn
  have hlow := hguarded.shape.le
  have hhigh := hguarded.shape.end_le
  have hend := hguarded.end_le h.heap
  have hbuf := h.heap.ne_null _ hguarded.mem
  simp only at hbuf
  have hptr : (s.blocks.record n).usrptr ≠ 0 := by omega
  have hold : mcHandleReallocMemblk (s.blocks.record n).usrptr s =
      some (s.blocks.record n).memblk.usrsize := by
    rw [mcHandleReallocMemblk, h.find_live hn]
    show some (if n = 0 then _ else _) = _
    rw [if_neg (h.blocks.ne_null hn)]
    rfl
  refine ⟨?_, hold, hptr⟩
  rw [Call.request, if_neg hptr, if_neg hsize, hold, if_neg]
  rw [Option.some_inj]
  omega

/-! ### The bytes -/

/-- The new buffer meets that of no live block. -/
theorem Inv.apart_answer (h : s.Inv g) (hn : n ∈ g.nodes .live)
    (ha : Heap.AnswerOk env.answer size s.heap) (hne : env.answer.addr ≠ 0) :
    env.answer.addr + size ≤ (s.blocks.record n).memblk.buf ∨
      (s.blocks.record n).memblk.buf + (s.blocks.record n).memblk.bufsize ≤ env.answer.addr := by
  have hapart := (ha.resolve_left hne).2 _ (h.guarded n hn).mem
  simp only [Heap.Apart] at hapart
  omega

/-- The bytes of a live block after another block was registered in a new buffer. -/
theorem Inv.mem_recorded (h : s.Inv g) (hn : n ∈ g.nodes .live) {x : Memblk} {usrptr m c y : ℕ}
    (ha : Heap.AnswerOk env.answer x.bufsize s.heap) (hne : env.answer.addr ≠ 0)
    (hx : x.buf = env.answer.addr)
    (hrec : Recorded env x usrptr (s.origMalloc env x.bufsize).2 g m c t g₁)
    (hy : (s.blocks.record n).memblk.buf ≤ y)
    (hy' : y < (s.blocks.record n).memblk.buf + (s.blocks.record n).memblk.bufsize) :
    t.heap.mem y = s.heap.mem y := by
  have hapart := h.apart_answer hn ha hne
  rw [hrec.heap]
  show armed x usrptr true (s.heap.origMalloc env.answer x.bufsize).mem y = s.heap.mem y
  rw [armed_of_notMem hrec.shape _ (by rw [hx]; omega),
    Heap.mem_origMalloc (h.guarded n hn).mem hy hy']

end State

/-- A live block is still one after another was registered. -/
theorem Recorded.mem_live {env : Env} {x : Memblk} {usrptr m n c : ℕ} {s s' : State}
    {g g' : Contents} (hrec : Recorded env x usrptr s g m c s' g') (hn : n ∈ g.nodes .live) :
    n ∈ g'.nodes .live := by
  rw [hrec.nodes, Function.update_self]
  exact List.mem_cons_of_mem _ hn

/-- The block freed last comes last in the quarantine. -/
theorem Unregistered.exists_freed_eq {env : Env} {usrptr n new c : ℕ} {evicted : Option ℕ}
    {log evictLog : List Event} {s s' : State} {g g' : Contents} (h : s.Inv g)
    (hun : Unregistered env usrptr s g n new c evicted log evictLog s' g') :
    ∃ rest, g'.freed = rest ++ [new] := by
  have hne : g'.freed ≠ [] := List.ne_nil_of_mem (h.new_mem hun)
  have hlast := hun.freed
  rw [← List.dropLast_append_getLast hne, ← List.append_assoc] at hlast
  have heq := (List.append_inj' hlast rfl).2
  exact ⟨g'.freed.dropLast, by rw [← heq, List.dropLast_append_getLast]⟩

namespace State

section Moved

variable {s u w : State} {g g₁ g₂ : Contents} {env : Env} {size q n m new c d : ℕ}
  {evicted : Option ℕ} {log evictLog : List Event}

/-- The state between the copy and the release of the old block. -/
def afterCopy (s u : State) (n q size : ℕ) : State :=
  u.withMem (Heap.copied q (s.blocks.record n).usrptr
    (min (s.blocks.record n).memblk.usrsize size) u.heap.mem)

/-- Outside the old block the release leaves the memory as the copy has left it. -/
theorem mem_afterCopy (hrecord : u.blocks.record n = s.blocks.record n)
    (hun : Unregistered env (s.blocks.record n).usrptr (s.afterCopy u n q size) g₁ n new d evicted
      log evictLog w g₂) (buf : ℕ) {y : ℕ}
    (hy : ¬((s.blocks.record n).memblk.buf ≤ y ∧
      y < (s.blocks.record n).memblk.buf + (s.blocks.record n).memblk.bufsize)) :
    (w.giveBack buf).heap.mem y = Heap.copied q (s.blocks.record n).usrptr
      (min (s.blocks.record n).memblk.usrsize size) u.heap.mem y := by
  have hvn : (s.afterCopy u n q size).blocks.record n = s.blocks.record n := hrecord
  rw [mem_giveBack, hun.heap]
  exact poisoned_of_notMem _ (by rwa [hvn])

section Released

variable {v s' : State} {ptr : ℕ}

/-- The block that was freed last is found in the quarantine, and is the newest in the ring. -/
theorem Inv.newest_of_unregistered (hv : v.Inv g₁)
    (hun : Unregistered env ptr v g₁ n new d evicted log evictLog w g₂) (hinv : s'.Inv g₂)
    (hquarantine : s'.quarantine = w.quarantine) :
    ∃ m, s'.IsFreed m ∧ s'.quarantine.find ptr = some m ∧
      s'.quarantine.freeMemblkArray
        ((s'.quarantine.freeFifoIdx + (freeFifoSize - 1)) % freeFifoSize) = m ∧
      (s'.quarantine.record m).memblk = (v.blocks.record n).memblk := by
  obtain ⟨rest, hrest⟩ := Unregistered.exists_freed_eq hv hun
  have hmem : new ∈ g₂.freed := hv.new_mem hun
  have hrecord : s'.quarantine.record new = ⟨ptr, (v.blocks.record n).memblk,
      (v.blocks.record n).allocator, d⟩ := by
    rw [hquarantine, hun.newRecord]
  have hfifo := hinv.fifo
  rw [hrest] at hfifo
  have hfind := hinv.find_freed hmem
  rw [hrecord] at hfind
  refine ⟨new, hinv.isFreed_iff.2 hmem, hfind, hfifo.newest, ?_⟩
  rw [hrecord]

/-- No live block has the pointer of the block that was freed. -/
theorem Inv.find_of_unregistered (hv : v.Inv g₁) (hn : n ∈ g₁.nodes .live)
    (hkey : (v.blocks.record n).usrptr = ptr)
    (hun : Unregistered env ptr v g₁ n new d evicted log evictLog w g₂) (hinv : s'.Inv g₂)
    (hblocks : s'.blocks = w.blocks) : s'.blocks.find .live ptr = some 0 := by
  rcases hinv.blocks.find .live ptr with ⟨-, hfind⟩ | ⟨k, hk, hkey', -⟩
  · exact hfind
  · -- a block with this pointer would be the one that was freed
    rw [hun.nodes, Function.update_self] at hk
    rw [hblocks, hun.record, ← hkey] at hkey'
    obtain rfl := hv.live_inj (List.mem_of_mem_erase hk) hn hkey'
    exact absurd hk (hv.blocks.table .live).nodup.not_mem_erase

end Released

/-- The block `n` has moved to a new block `m`, its payload copied, and was freed. -/
theorem Inv.reallocated (h : s.Inv g) (hn : n ∈ g.nodes .live) (hne : env.answer.addr ≠ 0)
    (ha : Heap.AnswerOk env.answer (size + redzoneSize * 2) s.heap)
    (hrec : Recorded env ⟨env.answer.addr, size + redzoneSize * 2, size⟩ q
      (s.origMalloc env (size + redzoneSize * 2)).2 g m c u g₁)
    (hun : Unregistered env (s.blocks.record n).usrptr (s.afterCopy u n q size) g₁ n new d evicted
      log evictLog w g₂) :
    Reallocated (s.blocks.record n).usrptr size s n q
      (w.giveBack ((s.afterCopy u n q size).evictedBuf evicted)) := by
  let v := s.afterCopy u n q size
  let s' := w.giveBack (v.evictedBuf evicted)
  have hv : v.Inv g₁ := hrec.inv.withMem _
  have hn₁ : n ∈ g₁.nodes .live := hrec.mem_live hn
  have hnm : ∀ {k}, k ∈ g.nodes .live → k ≠ m := fun hk ↦
    ne_of_mem_of_not_mem hk (hrec.notMem .live)
  have hvn : v.blocks.record n = s.blocks.record n := hrec.record_of_ne n (hnm hn)
  have hinv : s'.Inv g₂ := hun.inv.giveBack (hv.evictedBuf_notMem hn₁ hun)
  have hblocks : s'.blocks = w.blocks := blocks_giveBack _
  have hrecord : ∀ {k}, k ∈ g.nodes .live → s'.blocks.record k = s.blocks.record k := by
    intro k hk
    rw [hblocks, hun.record]
    exact hrec.record_of_ne k (hnm hk)
  have hrecord_m : s'.blocks.record m = ⟨q,
      ⟨env.answer.addr, size + redzoneSize * 2, size⟩, c⟩ := by
    rw [hblocks, hun.record]
    exact hrec.record
  have hlive : ∀ {k}, k ∈ g₁.nodes .live → k ≠ n → k ∈ g₂.nodes .live := by
    intro k hk hkn
    rw [hun.nodes, Function.update_self]
    exact (List.mem_erase_of_ne hkn).2 hk
  have hm : m ∈ g₂.nodes .live := by
    refine hlive ?_ (hnm hn).symm
    rw [hrec.nodes, Function.update_self]
    exact List.mem_cons_self
  -- outside the old block and the copy the memory is as the registration has left it
  have hbytes : ∀ {y}, ¬((s.blocks.record n).memblk.buf ≤ y ∧
      y < (s.blocks.record n).memblk.buf + (s.blocks.record n).memblk.bufsize) →
      s'.heap.mem y = Heap.copied q (s.blocks.record n).usrptr
        (min (s.blocks.record n).memblk.usrsize size) u.heap.mem y :=
    mem_afterCopy (u := u) hvn hun (v.evictedBuf evicted)
  have happart := h.apart_answer hn ha hne
  have hold := (h.guarded n hn).shape
  have hnew := hrec.shape
  have hlow : env.answer.addr ≤ q := hnew.le
  have hhigh : q + size ≤ env.answer.addr + (size + redzoneSize * 2) := hnew.end_le
  have hu : u.heap.mem = armed ⟨env.answer.addr, size + redzoneSize * 2, size⟩ q true
      (s.origMalloc env (size + redzoneSize * 2)).2.heap.mem := by
    rw [hrec.heap]
  refine ⟨⟨m, hinv.isLive_iff.2 hm, ?_, ?_, ?_⟩, fun i hi ↦ ?_, fun i hi hi' ↦ ?_, ?_,
    hv.find_of_unregistered hn₁ (congrArg AllocRecord.usrptr hvn) hun hinv hblocks,
    fun k hk hkn ↦ ?_⟩
  · have hfind := hinv.find_live hm
    rwa [hrecord_m] at hfind
  · rw [hrecord_m]
  · -- the copy stays inside the payload, so that the red zones are those of the new block
    rw [hrecord_m]
    have hintact : Memblk.Intact ⟨env.answer.addr, size + redzoneSize * 2, size⟩ q u.heap.mem := by
      rw [hu]
      exact intact_armed hnew _
    refine ⟨fun y hy hy' ↦ ?_, fun y hy hy' ↦ ?_⟩
    · have hy₀ : env.answer.addr ≤ y := hy
      rw [hbytes (by omega), Heap.copied_of_notMem (by omega)]
      exact hintact.1 y hy hy'
    · have hy₀ : q + size ≤ y := hy
      have hy₁ : y < env.answer.addr + (size + redzoneSize * 2) := hy'
      rw [hbytes (by omega), Heap.copied_of_notMem (by omega)]
      exact hintact.2 y hy hy'
  · have hle := hold.le
    have hend := hold.end_le
    rw [hbytes (by omega), Heap.copied_add hi]
    exact h.mem_recorded hn ha hne rfl hrec (by omega) (by omega)
  · rw [hbytes (by omega), Heap.copied_of_notMem (by omega), hu, armed]
    show (if _ ∧ q + i < q then _ else if q ≤ q + i ∧ q + i < q + size then _ else _) = _
    rw [if_neg (by omega), if_pos (by omega)]
    rfl
  · have hnewest := hv.newest_of_unregistered hun hinv (quarantine_giveBack _)
    rwa [hvn] at hnewest
  · have hk' := h.isLive_iff.1 hk
    refine ⟨hinv.isLive_iff.2 (hlive (hrec.mem_live hk') hkn), hrecord hk', fun y hy hy' ↦ ?_⟩
    have hapart := (h.guarded k hk').apart h.heap (h.guarded n hn) (h.live_buf_ne hk' hn hkn)
    have happart_k := h.apart_answer hk' ha hne
    rw [hbytes (by omega), Heap.copied_of_notMem (by omega)]
    exact h.mem_recorded hk' ha hne rfl hrec hy hy'

end Moved

/-! ### The call -/

variable {s : State} {g : Contents} {env : Env} {ptr size n : ℕ}

/-- With the metadata and a new buffer there, `realloc` moves a live block. -/
theorem Inv.realloc (h : s.Inv g) (h0 : s.doNotHook = 0) (hn : n ∈ g.nodes .live)
    (hsize : size ≠ 0) (hwrap : size + redzoneSize * 2 < 18446744073709551616)
    (hsupply : s.Supplied) (hne : env.answer.addr ≠ 0)
    (ha : Heap.AnswerOk env.answer (size + redzoneSize * 2) s.heap) :
    ∃ q s', Hook.realloc env (s.blocks.record n).usrptr size s = some (q, s') ∧
      Reallocated (s.blocks.record n).usrptr size s n q s' := by
  obtain ⟨hreq, hold, hptr⟩ := h.request_realloc hn hsize
  obtain ⟨u, g₁, m, c, hserve, hrec⟩ := h.serve_recorded hsupply.node hne hwrap ha
  let q := env.answer.addr + redzoneSize
  let len := min (s.blocks.record n).memblk.usrsize size
  have hq : ¬((s.blocks.record n).usrptr = 0 ∨ q = 0) := by
    rintro (hnull | hnull)
    · exact hptr hnull
    · simp [q] at hnull
  have hlen : (if size ≥ (s.blocks.record n).memblk.usrsize then
      (s.blocks.record n).memblk.usrsize else size) = len := (min_def _ _).symm
  -- the copy
  have hn₁ : n ∈ g₁.nodes .live := hrec.mem_live hn
  have hm : m ∈ g₁.nodes .live := by
    rw [hrec.nodes, Function.update_self]
    exact List.mem_cons_self
  have hrecord : u.blocks.record n = s.blocks.record n :=
    hrec.record_of_ne n (ne_of_mem_of_not_mem hn (hrec.notMem .live))
  have hsrc := hrec.inv.guarded n hn₁
  have hdest := hrec.inv.guarded m hm
  rw [hrecord] at hsrc
  rw [hrec.record] at hdest
  have hcopy := Heap.memcpy_eq (hdest.accessible (min_le_right _ _))
    (hsrc.accessible (min_le_left _ _))
  -- the release
  let v := s.afterCopy u n q size
  have hv : v.Inv g₁ := hrec.inv.withMem _
  have hvn : v.blocks.record n = s.blocks.record n := hrecord
  have hquarantine : v.quarantine = s.quarantine := hrec.quarantine
  have hnode : v.HasFreeNode := by
    rw [HasFreeNode, hquarantine]
    exact hsupply.freeNode
  have hallocator : (v.blocks.record n).allocator ≠ 0 := by
    rw [hvn]
    exact hsupply.allocator n (h.isLive_iff.2 hn)
  have hfreed : ∀ k ∈ g₁.freed,
      (v.quarantine.record k).allocator ≠ 0 ∧ (v.quarantine.record k).freer ≠ 0 := by
    intro k hk
    rw [hquarantine]
    exact hsupply.freed k (h.isFreed_iff.2 (hrec.freed ▸ hk))
  obtain ⟨new, d, evicted, log, evictLog, w, g₂, hfree, -, hun⟩ :=
    @Inv.hookFree_released v g₁ env n hv (hrec.doNotHook.trans h0) hn₁ hnode hallocator hfreed
  rw [hvn] at hfree hun
  refine ⟨q, _, ?_, h.reallocated hn hne ha hrec hun⟩
  have hexec := @Call.exec_of_request env s (.realloc (s.blocks.record n).usrptr size) _ (.inr h0)
    hreq (Call.isSome_mcHandleReallocMemblk h)
  rw [Call.exec] at hexec
  rw [hexec, hserve, Option.bind_some, Call.finish, if_neg hq, hold]
  simp only [Option.bind_eq_bind, Option.bind_some]
  rw [hlen, hcopy, Option.bind_some]
  exact congrArg (Option.bind · _) hfree

end State

/-- `realloc` with hooks enabled. A live block moves to a new buffer, with its payload and without a
change to another block, if there is a buffer and the metadata. Without a buffer, and for a pointer
that is not that of a live block, the call gives null and leaves nothing but a mark in the trace. -/
theorem realloc_spec {s : State} {env : Env} {ptr size : ℕ} (hs : Reachable s)
    (h0 : s.doNotHook = 0)
    (hptr : ptr ≠ 0) (hsize : 0 < size) (hwrap : size + redzoneSize * 2 < 18446744073709551616)
    (ha : Heap.AnswerOk env.answer (size + redzoneSize * 2) s.heap) :
    (∀ n, s.blocks.find .live ptr = some n → n ≠ 0 →
      (env.answer.addr ≠ 0 → s.Supplied → ∃ q s', Hook.realloc env ptr size s = some (q, s') ∧
        s.Reallocated ptr size n q s') ∧
      (env.answer.addr = 0 → Hook.realloc env ptr size s =
        some (0, s.emit [.origMalloc (size + redzoneSize * 2) 0]))) ∧
    (s.blocks.find .live ptr = some 0 → Hook.realloc env ptr size s =
      some (0, s.emit [.message "realloc: oldsize = -1"])) := by
  obtain ⟨g, h⟩ := hs.inv
  refine ⟨fun n hfind hn ↦ ?_, fun hfind ↦ ?_⟩
  · obtain ⟨hmem, rfl⟩ := h.of_find_live hfind hn
    refine ⟨fun hne hsupply ↦ h.realloc h0 hmem hsize.ne' hwrap hsupply hne ha, fun hnull ↦ ?_⟩
    obtain ⟨-, hold, -⟩ := h.request_realloc hmem hsize.ne'
    have hend := (h.guarded n hmem).end_le h.heap
    have hhigh := (h.guarded n hmem).shape.end_le
    have hold_ne : (s.blocks.record n).memblk.usrsize ≠ 18446744073709551615 := by omega
    rw [Hook.realloc, if_neg hptr, if_neg hsize.ne', if_neg (not_not_intro h0), hold]
    simp only [Option.bind_eq_bind, Option.bind_some, if_neg hold_ne, Hook.malloc,
      if_neg (not_not_intro h0), State.origMalloc, hnull, wrapSize_of_lt hwrap, Heap.origMalloc]
    rfl
  · rw [Hook.realloc, if_neg hptr, if_neg hsize.ne', if_neg (not_not_intro h0),
      mcHandleReallocMemblk, hfind]
    rfl

/-- The first block of a run, moved to a larger buffer; the same without a buffer; and a pointer
that nobody got. -/
theorem realloc_spec_oneBlock : ∃ s n, Reachable s ∧ s.IsLive n ∧
    (∃ q s', Hook.realloc (Env.handing 2097152) 1048592 32 s = some (q, s') ∧
      s.Reallocated 1048592 32 n q s') ∧
    Hook.realloc (Env.handing 0) 1048592 32 s = some (0, s.emit [.origMalloc 64 0]) ∧
    Hook.realloc (Env.handing 0) 1 32 s = some (0, s.emit [.message "realloc: oldsize = -1"]) := by
  obtain ⟨s, g, n, c, hs, hrec, hc, hnode, hfree⟩ := resting_oneBlock
  have hn : n ∈ g.nodes .live := by
    rw [hrec.nodes, Function.update_self]
    exact List.mem_cons_self
  have honly : ∀ {k}, k ∈ g.nodes .live → k = n := by
    intro k hk
    rw [hrec.nodes, Function.update_self] at hk
    exact List.mem_singleton.1 hk
  have hfind : s.blocks.find .live 1048592 = some n := by
    have hfind := hs.inv.find_live hn
    rwa [hrec.record] at hfind
  have hother : s.blocks.find .live 1 = some 0 := by
    rcases hs.inv.blocks.find .live 1 with ⟨-, hnone⟩ | ⟨k, hk, hkey, -⟩
    · exact hnone
    · rw [honly hk, hrec.record] at hkey
      have hkey' : 1048592 = 1 := hkey
      exact absurd hkey' (by decide)
  have hsupply : s.Supplied := by
    refine ⟨hnode, hfree, fun k hk ↦ ?_, fun k hk ↦ ?_⟩
    · rw [honly (hs.inv.isLive_iff.1 hk), hrec.record]
      exact hc
    · have hk' := hs.inv.isFreed_iff.1 hk
      rw [hrec.freed] at hk'
      exact absurd hk' List.not_mem_nil
  have hanswer : Heap.AnswerOk (Env.handing 2097152).answer (32 + redzoneSize * 2) s.heap := by
    refine .inr ⟨by decide, fun b hb ↦ .inr ((hs.below b hb).trans ?_)⟩
    show 1048640 ≤ 2097152
    decide
  have hlive := hs.inv.isLive_iff.2 hn
  refine ⟨s, n, hs.reachable, hlive, ?_, ?_, ?_⟩
  · exact ((realloc_spec hs.reachable hs.mode (by decide) (by decide) (by decide) hanswer).1 n hfind
      hlive.1).1 (by decide) hsupply
  · exact ((realloc_spec hs.reachable hs.mode (by decide) (by decide) (by decide) (.inl rfl)).1 n
      hfind hlive.1).2 rfl
  · exact (realloc_spec hs.reachable hs.mode (by decide) (by decide) (by decide) (.inl rfl)).2
      hother

end Memchk
