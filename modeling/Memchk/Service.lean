import Memchk.Request

/-!
# Serving a request

What `mc_orig_malloc` and `mc_orig_free` do to the invariant, and what comes of a request: nothing,
if `mc_orig_malloc` gives no buffer; a buffer that nobody knows of, if there is no node to record
it; a fault, if the size has wrapped around and the payload does not fit; or a live block.

## Requests

The allocating calls differ in the size they ask for, in the size of the payload and in where they
put it. A `Request` is these three things, and `Call.request` reads it off a call and the state. All
three are computed in `size_t`, so they may have wrapped around. `Request.Ok` collects the bounds
that they satisfy nevertheless for every call whose arguments are values of their types
(`Call.InRange.request_ok`).

## Looking up

Under the invariant the tables answer as expected: looking up the pointer of a live or a freed block
gives its node, and a node that is found is that of a block with this pointer (`Inv.find_live`,
`Inv.of_find_live`, and the same for the ring). `State.tracks` is the condition under which a buffer
must not be given back behind the checker, and `Inv.tracks_iff` says that it is having a block.

## The outcomes

`Inv.serve` is the case distinction on a request, with the state after it in each case. A new buffer
belongs to no block, by `Inv.answer_notMem`, and that is what makes the new block one of its own.
-/

namespace Memchk

namespace Heap

variable {h : Heap} {a : Answer} {size ptr : ℕ}

/-- `mc_orig_malloc` keeps the buffers handed out apart. -/
theorem Ok.origMalloc (hok : h.Ok) (ha : AnswerOk a size h) : (h.origMalloc a size).Ok := by
  rw [Heap.origMalloc]
  split_ifs with hnull
  · exact hok
  · obtain ⟨hend, hapart⟩ := ha.resolve_left hnull
    refine ⟨fun b hb ↦ ?_, fun b hb ↦ ?_, List.pairwise_cons.2 ⟨hapart, hok.apart⟩⟩
    · rcases List.mem_cons.1 hb with rfl | hb
      · exact hnull
      · exact hok.ne_null b hb
    · rcases List.mem_cons.1 hb with rfl | hb
      · exact hend
      · exact hok.end_le b hb

theorem Ok.origFree (hok : h.Ok) (ptr : ℕ) : (h.origFree ptr).Ok where
  ne_null b hb := hok.ne_null b (List.mem_of_mem_filter hb)
  end_le b hb := hok.end_le b (List.mem_of_mem_filter hb)
  apart := hok.apart.sublist List.filter_sublist

theorem outstanding_origMalloc (hne : a.addr ≠ 0) :
    (h.origMalloc a size).outstanding = (a.addr, size) :: h.outstanding := by
  rw [Heap.origMalloc, if_neg hne]

/-- `mc_orig_malloc` takes no buffer back. -/
theorem mem_outstanding_origMalloc {b : ℕ × ℕ} (hb : b ∈ h.outstanding) :
    b ∈ (h.origMalloc a size).outstanding := by
  rw [Heap.origMalloc]
  split_ifs
  · exact hb
  · exact List.mem_cons_of_mem _ hb

/-- A buffer handed out keeps its bytes. -/
theorem mem_origMalloc {b : ℕ × ℕ} {y : ℕ} (hb : b ∈ h.outstanding) (hle : b.1 ≤ y)
    (hlt : y < b.1 + b.2) : (h.origMalloc a size).mem y = h.mem y := by
  rw [Heap.origMalloc]
  split_ifs
  · rfl
  · exact if_pos ⟨b, hb, hle, hlt⟩

theorem mem_outstanding_origFree {b : ℕ × ℕ} :
    b ∈ (h.origFree ptr).outstanding ↔ b ∈ h.outstanding ∧ b.1 ≠ ptr := by
  simp [Heap.origFree]

end Heap

namespace State

variable {s : State} {g : Contents} {env : Env} {size ptr : ℕ}

/-- The pointer is the buffer of a block, live or in the quarantine. -/
def tracks (ptr : ℕ) (s : State) : Prop :=
  (∃ usrptr n, s.blocks.find .live usrptr = some n ∧ n ≠ 0 ∧ (s.blocks.memblk n).buf = ptr) ∨
    ∃ usrptr n, s.quarantine.find usrptr = some n ∧ n ≠ 0 ∧ (s.quarantine.memblk n).buf = ptr

/-- The last lines of `free`: the buffer goes back, unless it is null. -/
def giveBack (buf : ℕ) (s : State) : State :=
  if buf ≠ 0 then s.origFree buf else s

/-- Finding the pointer of a live block. -/
theorem Inv.find_live (h : s.Inv g) {n : ℕ} (hn : n ∈ g.nodes .live) :
    s.blocks.find .live (s.blocks.record n).usrptr = some n := by
  rcases h.blocks.find .live (s.blocks.record n).usrptr with ⟨hnone, -⟩ | ⟨m, hm, hkey, hfind⟩
  · exact absurd rfl (hnone n hn)
  · rw [hfind, h.live_inj hm hn hkey]

/-- What is found in the table of live blocks is a live block with that pointer. -/
theorem Inv.of_find_live (h : s.Inv g) {n : ℕ} (hfind : s.blocks.find .live ptr = some n)
    (hne : n ≠ 0) : n ∈ g.nodes .live ∧ (s.blocks.record n).usrptr = ptr := by
  rcases h.blocks.find .live ptr with ⟨-, hnull⟩ | ⟨m, hm, hkey, hfind'⟩
  · rw [hnull, Option.some_inj] at hfind
    exact absurd hfind.symm hne
  · rw [hfind', Option.some_inj] at hfind
    exact hfind ▸ ⟨hm, hkey⟩

/-- Finding the pointer of a block in the quarantine. -/
theorem Inv.find_freed (h : s.Inv g) {n : ℕ} (hn : n ∈ g.freed) :
    s.quarantine.find (s.quarantine.record n).usrptr = some n := by
  rcases h.quarantine.find (s.quarantine.record n).usrptr with ⟨hnone, -⟩ | ⟨m, hm, hkey, hfind⟩
  · exact absurd rfl (hnone n hn)
  · rw [hfind, h.freed_inj hm hn hkey]

/-- What is found in the quarantine is a block there with that pointer. -/
theorem Inv.of_find_freed (h : s.Inv g) {n : ℕ} (hfind : s.quarantine.find ptr = some n)
    (hne : n ≠ 0) : n ∈ g.freed ∧ (s.quarantine.record n).usrptr = ptr := by
  rcases h.quarantine.find ptr with ⟨-, hnull⟩ | ⟨m, hm, hkey, hfind'⟩
  · rw [hnull, Option.some_inj] at hfind
    exact absurd hfind.symm hne
  · rw [hfind', Option.some_inj] at hfind
    exact hfind ▸ ⟨hm, hkey⟩

/-- The checker tracks a buffer if a live or a freed block lies in it. -/
theorem Inv.tracks_iff (h : s.Inv g) : s.tracks ptr ↔ ptr ∈ s.liveBufs g ++ s.freedBufs g := by
  rw [List.mem_append, liveBufs, freedBufs, List.mem_map, List.mem_map]
  constructor
  · rintro (⟨usrptr, n, hfind, hne, rfl⟩ | ⟨usrptr, n, hfind, hne, rfl⟩)
    · exact .inl ⟨n, (h.of_find_live hfind hne).1, rfl⟩
    · exact .inr ⟨n, (h.of_find_freed hfind hne).1, rfl⟩
  · rintro (⟨n, hn, rfl⟩ | ⟨n, hn, rfl⟩)
    · exact .inl ⟨_, n, h.find_live hn, h.blocks.ne_null hn, rfl⟩
    · exact .inr ⟨_, n, h.find_freed hn, h.freed_ne_null hn, rfl⟩

theorem Inv.origMalloc (h : s.Inv g) (ha : Heap.AnswerOk env.answer size s.heap) :
    (s.origMalloc env size).2.Inv g :=
  h.of_heap rfl rfl rfl (h.heap.origMalloc ha) (fun _ _ _ _ ↦ Heap.mem_outstanding_origMalloc)
    fun _ _ _ _ ↦ Heap.mem_outstanding_origMalloc

/-- `mc_orig_free` keeps the invariant if its argument belongs to no block. -/
theorem Inv.origFree (h : s.Inv g) (hptr : ptr ∉ s.liveBufs g ++ s.freedBufs g) :
    (s.origFree ptr).Inv g := by
  rw [List.mem_append, not_or] at hptr
  refine h.of_heap rfl rfl rfl (h.heap.origFree ptr) (fun n hn b hb hmem ↦ ?_)
    fun n hn b hb hmem ↦ ?_
  · exact Heap.mem_outstanding_origFree.2
      ⟨hmem, fun heq ↦ hptr.1 (List.mem_map.2 ⟨n, hn, hb.symm.trans heq⟩)⟩
  · exact Heap.mem_outstanding_origFree.2
      ⟨hmem, fun heq ↦ hptr.2 (List.mem_map.2 ⟨n, hn, hb.symm.trans heq⟩)⟩

theorem Inv.giveBack (h : s.Inv g) (hptr : ptr ∉ s.liveBufs g ++ s.freedBufs g) :
    (s.giveBack ptr).Inv g := by
  rw [State.giveBack]
  split_ifs
  · exact h.origFree hptr
  · exact h

/-- A new buffer is none that a block has. -/
theorem Inv.answer_notMem (h : s.Inv g) (ha : Heap.AnswerOk env.answer size s.heap)
    (hne : env.answer.addr ≠ 0) : env.answer.addr ∉ s.liveBufs g ++ s.freedBufs g := by
  obtain ⟨-, hapart⟩ := ha.resolve_left hne
  have hnew : ∀ {x : Memblk} {p : ℕ}, Guarded s.heap x p → x.buf ≠ env.answer.addr := by
    intro x p hx heq
    have := hapart _ hx.mem
    simp only [Heap.Apart, heq] at this
    omega
  rw [List.mem_append, liveBufs, freedBufs, List.mem_map, List.mem_map]
  rintro (⟨n, hn, heq⟩ | ⟨n, hn, heq⟩)
  · exact hnew (h.guarded n hn) heq
  · exact hnew (h.guardedFreed n hn) heq

end State

/-! ### Requests in range -/

/-- The sizes are values of type `size_t`, and a payload that fits starts inside the buffer. -/
structure Request.Ok (r : Request) : Prop where
  bufsize_lt : r.bufsize < 18446744073709551616
  usrsize_lt : r.usrsize < 18446744073709551616
  place_lt : ∀ buf, r.place buf < 18446744073709551616
  place_lt_end : ∀ buf, buf + max 1 r.bufsize ≤ 9223372036854775808 →
    (r.block buf).Shape (r.place buf) → r.place buf < buf + r.bufsize

theorem wrapSize_lt (n : ℕ) : wrapSize n < 18446744073709551616 :=
  Nat.mod_lt _ (by decide)

/-- The request of `malloc` is in range. -/
theorem Request.ok_malloc {size : ℕ} (hsize : size < 18446744073709551616) :
    (Request.malloc size).Ok where
  bufsize_lt := wrapSize_lt _
  usrsize_lt := hsize
  place_lt _ := wrapSize_lt _
  place_lt_end buf hend hshape := by
    have hle := hshape.end_le
    simp only [Request.malloc, Request.block, redzoneSize] at hend hle ⊢
    rw [wrapSize_of_lt (n := buf + 16) (by omega)] at hle ⊢
    rcases Nat.eq_zero_or_pos size with rfl | hpos
    · rw [wrapSize_of_lt (by omega)]
      omega
    · omega

/-- Aligning an address gives an address. -/
theorem Hook.alignAddr_lt {addr : ℕ} (haddr : addr < 18446744073709551616) (alignment : ℕ) :
    alignAddr addr alignment < 18446744073709551616 := by
  rw [alignAddr]
  split_ifs
  · exact haddr
  · exact Nat.and_le_left.trans_lt (wrapSize_lt _)

/-- The request of an aligned allocator is in range. -/
theorem Request.ok_aligned {alignment size : ℕ} (halign : alignment < 18446744073709551616)
    (hpow : Hook.isPowerOf2 alignment = true) (hsize : size < 18446744073709551616) :
    (Request.aligned alignment size).Ok where
  bufsize_lt := wrapSize_lt _
  usrsize_lt := hsize
  place_lt _ := Hook.alignAddr_lt (wrapSize_lt _) _
  place_lt_end buf hend hshape := by
    obtain ⟨k, hk, rfl⟩ := Hook.exists_eq_two_pow halign hpow
    have hle := hshape.end_le
    have hk63 : 2 ^ k ≤ 2 ^ 63 := Nat.pow_le_pow_right two_pos (by omega)
    simp only [Request.aligned, Request.block, redzoneSize] at hend hle ⊢
    rcases Nat.eq_zero_or_pos size with rfl | hpos
    · rw [wrapSize_of_lt (n := 0 + 16 * 2 + 2 ^ k - 1) (by omega)] at hend ⊢
      rw [wrapSize_of_lt (n := buf + 16) (by omega)]
      have := (@Hook.alignAddr_bounds (buf + 16) k hk (by omega)).2
      omega
    · omega

theorem pageMask_le (addr : ℕ) : pageMask addr ≤ addr := by
  rw [pageMask_eq]
  exact Nat.div_mul_le_self _ _

/-- A call in range asks for what is in range. -/
theorem Call.InRange.request_ok {c : Call} (hc : c.InRange) {s : State} {r : Request}
    (hr : c.request s = some r) : r.Ok := by
  cases c with
  | malloc size =>
    obtain rfl := Option.some.inj hr
    exact Request.ok_malloc hc
  | free ptr => cases hr
  | realloc ptr size =>
    rw [request] at hr
    split_ifs at hr <;> obtain rfl := Option.some.inj hr <;> exact Request.ok_malloc hc.2
  | calloc nmems size =>
    rw [request] at hr
    split_ifs at hr
    obtain rfl := Option.some.inj hr
    exact Request.ok_malloc (wrapSize_lt _)
  | posixMemalign alignment size =>
    rw [request] at hr
    split_ifs at hr with halign
    obtain rfl := Option.some.inj hr
    rw [not_or, not_not] at halign
    exact Request.ok_aligned hc.1 halign.2 hc.2
  | alignedAlloc alignment size =>
    rw [request] at hr
    split_ifs at hr with halign
    obtain rfl := Option.some.inj hr
    rw [not_or, not_not] at halign
    exact Request.ok_aligned hc.1 halign.2 hc.2
  | memalign alignment size =>
    rw [request] at hr
    split_ifs at hr with halign
    obtain rfl := Option.some.inj hr
    rw [not_or, not_not] at halign
    exact Request.ok_aligned hc.1 halign.2 hc.2
  | valloc size =>
    obtain rfl := Option.some.inj hr
    exact Request.ok_aligned (by decide) (by decide) hc
  | pvalloc size =>
    obtain rfl := Option.some.inj hr
    exact Request.ok_aligned (by decide) (by decide) ((pageMask_le _).trans_lt (wrapSize_lt _))

/-! ### The outcomes -/

namespace State

variable {s : State} {g : Contents} {env : Env} {r : Request}

/-- Serving a request, in all its outcomes. -/
theorem Inv.serve (h : s.Inv g) (hr : r.Ok) (ha : Heap.AnswerOk env.answer r.bufsize s.heap) :
    env.answer.addr = 0 ∧ r.serve env s = some (0, (s.origMalloc env r.bufsize).2) ∨
      env.answer.addr ≠ 0 ∧
        ((∃ s', r.serve env s = some (r.place env.answer.addr, s') ∧
            Unrecorded (s.origMalloc env r.bufsize).2 g s') ∨
          ¬(r.block env.answer.addr).Shape (r.place env.answer.addr) ∧ r.serve env s = none ∨
          ∃ s' g' n c, r.serve env s = some (r.place env.answer.addr, s') ∧
            Recorded env (r.block env.answer.addr) (r.place env.answer.addr)
              (s.origMalloc env r.bufsize).2 g n c s' g') := by
  by_cases hne : env.answer.addr = 0
  · refine .inl ⟨hne, ?_⟩
    simp only [Request.serve, State.origMalloc, hne, if_true]
    rfl
  · refine .inr ⟨hne, ?_⟩
    have hend := (ha.resolve_left hne).1
    have hserve : r.serve env s = (mcRegisterMemblk env env.answer.addr
        (r.place env.answer.addr) r.bufsize r.usrsize (s.origMalloc env r.bufsize).2).bind
          fun x ↦ some (r.place env.answer.addr, x.2) := by
      simp only [Request.serve, State.origMalloc, hne, if_false]
      rfl
    have hbuf : (env.answer.addr, r.bufsize) ∈ (s.origMalloc env r.bufsize).2.heap.outstanding := by
      show _ ∈ (s.heap.origMalloc env.answer r.bufsize).outstanding
      rw [Heap.outstanding_origMalloc hne]
      exact List.mem_cons_self
    rw [hserve]
    rcases @Inv.register _ g env (r.block env.answer.addr) _ (h.origMalloc ha) hbuf
      (hr.place_lt _) hr.usrsize_lt (hr.place_lt_end _ hend) (h.answer_notMem ha hne) with
      ⟨s', hreg, hun⟩ | ⟨hshape, hreg⟩ | ⟨s', g', n, c, hreg, hrec⟩
    · refine .inl ⟨s', ?_, hun⟩
      exact (congrArg (Option.bind · _) hreg).trans rfl
    · refine .inr (.inl ⟨hshape, ?_⟩)
      exact (congrArg (Option.bind · _) hreg).trans rfl
    · refine .inr (.inr ⟨s', g', n, c, ?_, hrec⟩)
      exact (congrArg (Option.bind · _) hreg).trans rfl

end State

end Memchk
