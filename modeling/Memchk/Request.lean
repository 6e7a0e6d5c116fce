import Memchk.Unregister

/-!
# What an allocating call asks for

With hooks enabled all allocating calls do the same: they compute the size of a buffer, get it from
`mc_orig_malloc`, place the payload in it and register the block (`Request.serve`). They differ in
the `Request` and in what they do before and after: `Call.exec_of_request` takes every call apart
into its request, the service and `Call.finish`.

## Before

Some calls ask for nothing: `free`, `realloc` to no bytes or of a pointer that is not live, `calloc`
of no bytes, and the aligned allocators with an alignment that is no power of two. `Call.request c
s` is none for these, and `Call.refuse` is what they do instead.

## After

`malloc` and most others return the pointer and do nothing more. `calloc` clears the payload, and
`realloc` copies the old payload and frees the old block, both only if the pointer is not null.

## Where the payload starts

The payload of `malloc` starts behind one red zone. That of the aligned allocators is the next
multiple of the alignment, by the mask that the source computes with; for a power of two it is
rounding up (`Hook.alignAddr`).
-/

namespace Memchk

/-- The size of the buffer, the size of the payload, and where in the buffer the payload starts. -/
structure Request where
  bufsize : ℕ
  usrsize : ℕ
  place : ℕ → ℕ

namespace Request

/-- The request of `malloc`. -/
def malloc (size : ℕ) : Request where
  bufsize := wrapSize (size + redzoneSize * 2)
  usrsize := size
  place buf := wrapSize (buf + redzoneSize)

/-- The request of `__aligned_allocator`. -/
def aligned (alignment size : ℕ) : Request where
  bufsize := wrapSize (size + redzoneSize * 2 + alignment - 1)
  usrsize := size
  place buf := Hook.alignAddr (wrapSize (buf + redzoneSize)) alignment

/-- The block in the buffer at `buf`. -/
def block (r : Request) (buf : ℕ) : Memblk :=
  ⟨buf, r.bufsize, r.usrsize⟩

/-- The part that all allocating calls share. -/
def serve (env : Env) (r : Request) (s : State) : Option (ℕ × State) := do
  let (buf, s) := s.origMalloc env r.bufsize
  if buf = 0 then return (0, s)
  let (_, s) ← mcRegisterMemblk env buf (r.place buf) r.bufsize r.usrsize s
  return (r.place buf, s)

end Request

namespace Call

/-- The call goes through `__aligned_allocator`, which works the same with hooks disabled. -/
def isAligned : Call → Bool
  | .posixMemalign .. | .alignedAlloc .. | .memalign .. | .valloc _ | .pvalloc _ => true
  | .malloc _ | .free _ | .realloc .. | .calloc .. => false

/-- What a call asks for with hooks enabled, if it gets as far as `mc_orig_malloc`. -/
def request : Call → State → Option Request
  | .malloc size, _ => some (.malloc size)
  | .free _, _ => none
  | .realloc ptr size, s =>
    if ptr = 0 then some (.malloc size)
    else if size = 0 then none
    else if mcHandleReallocMemblk ptr s = some 18446744073709551615 then none
    else some (.malloc size)
  | .calloc nmems size, _ =>
    if wrapSize (nmems * size) = 0 then none else some (.malloc (wrapSize (nmems * size)))
  | .posixMemalign alignment size, _ | .alignedAlloc alignment size, _
  | .memalign alignment size, _ =>
    if alignment = 0 ∨ ¬Hook.isPowerOf2 alignment then none else some (.aligned alignment size)
  | .valloc size, _ => some (.aligned pageSize size)
  | .pvalloc size, _ => some (.aligned pageSize (pageMask (wrapSize (size + pageSize - 1))))

/-- What a call does after the service, with `s₀` the state that it was called in. -/
def finish (env : Env) : Call → State → ℕ × State → Option (ℕ × State)
  | .realloc ptr size, s₀, (newptr, s) =>
    if ptr = 0 ∨ newptr = 0 then some (newptr, s)
    else do
      let oldsize ← mcHandleReallocMemblk ptr s₀
      let heap ← s.heap.memcpy newptr ptr (if size ≥ oldsize then oldsize else size)
      return (newptr, ← Hook.free env ptr { s with heap := heap })
  | .calloc nmems size, _, (ret, s) =>
    if ret = 0 then some (ret, s)
    else do
      let heap ← s.heap.memset ret 0 (wrapSize (nmems * size))
      return (ret, { s with heap := heap })
  | _, _, x => some x

/-- What a call does that asks for nothing. -/
def refuse (env : Env) : Call → State → Option (ℕ × State)
  | .free ptr, s => (Hook.free env ptr s).map (0, ·)
  | .realloc ptr size, s =>
    if size = 0 then (Hook.free env ptr s).map (0, ·)
    else some (0, s.emit [.message "realloc: oldsize = -1"])
  | _, s => some (0, s)

variable {env : Env} {s : State} {c : Call} {r : Request}

theorem malloc_eq_serve (h0 : s.doNotHook = 0) (size : ℕ) :
    Hook.malloc env size s = (Request.malloc size).serve env s := by
  simp only [Hook.malloc, h0, ne_eq, not_true_eq_false, if_false]
  rfl

/-- An aligned allocator serves its request if it accepts the alignment. -/
theorem memalign_eq_serve {alignment : ℕ} (h : ¬(alignment = 0 ∨ ¬Hook.isPowerOf2 alignment))
    (size : ℕ) : Hook.memalign env alignment size s =
    (Request.aligned alignment size).serve env s := by
  rw [Hook.memalign, if_neg h]
  rfl

/-- A call that asks for a buffer is its request, served, and the rest of the call. -/
theorem exec_of_request (hmode : c.isAligned ∨ s.doNotHook = 0) (hr : c.request s = some r)
    (hfind : ∀ ptr, (mcHandleReallocMemblk ptr s).isSome) :
    c.exec env s = (r.serve env s).bind (c.finish env s) := by
  cases c with
  | malloc size =>
    obtain rfl := Option.some.inj hr
    have h0 := hmode.resolve_left Bool.false_ne_true
    rw [exec, malloc_eq_serve h0]
    exact (Option.bind_fun_some _).symm
  | free ptr => cases hr
  | realloc ptr size =>
    have h0 := hmode.resolve_left Bool.false_ne_true
    rw [request] at hr
    rw [exec, Hook.realloc]
    split_ifs at hr with hptr hsize hold
    · obtain rfl := Option.some.inj hr
      -- `realloc` of null is `malloc`
      rw [if_pos hptr, malloc_eq_serve h0]
      cases (Request.malloc size).serve env s with
      | none => rfl
      | some x =>
        simp only [finish, hptr, true_or, if_true, Option.bind_some]
    · obtain rfl := Option.some.inj hr
      -- the size of the old block is looked up before the request and again behind it
      obtain ⟨oldsize, holdsize⟩ := Option.isSome_iff_exists.1 (hfind ptr)
      rw [if_neg hptr, if_neg hsize, if_neg (not_not_intro h0), holdsize]
      have hne : oldsize ≠ 18446744073709551615 := fun heq ↦ hold (heq ▸ holdsize)
      simp only [Option.bind_eq_bind, Option.bind_some, if_neg hne, malloc_eq_serve h0]
      cases (Request.malloc size).serve env s with
      | none => rfl
      | some x =>
        obtain ⟨newptr, t⟩ := x
        simp only [Option.bind_some, finish, hptr, false_or, holdsize, Option.bind_eq_bind]
        rfl
  | calloc nmems size =>
    have h0 := hmode.resolve_left Bool.false_ne_true
    rw [request] at hr
    split_ifs at hr with hzero
    obtain rfl := Option.some.inj hr
    rw [exec, Hook.calloc, if_neg hzero, if_neg (not_not_intro h0), malloc_eq_serve h0]
    rfl
  | posixMemalign alignment size =>
    rw [request] at hr
    split_ifs at hr with halign
    obtain rfl := Option.some.inj hr
    have hserve : Hook.alignedAllocator env alignment size s =
        (Request.aligned alignment size).serve env s := rfl
    rw [exec, Hook.posixMemalign, if_neg halign, hserve]
    cases (Request.aligned alignment size).serve env s with
    | none => rfl
    | some x =>
      obtain ⟨ret, t⟩ := x
      simp only [Option.bind_eq_bind, Option.bind_some, finish]
      by_cases hret : ret = 0
      · subst hret
        rfl
      · rw [if_neg hret]
        rfl
  | alignedAlloc alignment size =>
    rw [request] at hr
    split_ifs at hr with halign
    obtain rfl := Option.some.inj hr
    rw [exec, Hook.alignedAlloc, if_neg halign]
    exact (Option.bind_fun_some _).symm
  | memalign alignment size =>
    rw [request] at hr
    split_ifs at hr with halign
    obtain rfl := Option.some.inj hr
    rw [exec, memalign_eq_serve halign]
    exact (Option.bind_fun_some _).symm
  | valloc size =>
    obtain rfl := Option.some.inj hr
    rw [exec, Hook.valloc, memalign_eq_serve (by decide)]
    exact (Option.bind_fun_some _).symm
  | pvalloc size =>
    obtain rfl := Option.some.inj hr
    rw [exec, Hook.pvalloc, memalign_eq_serve (by decide)]
    exact (Option.bind_fun_some _).symm

/-- A call that asks for nothing. -/
theorem exec_of_request_eq_none (hmode : c.isAligned ∨ s.doNotHook = 0)
    (hr : c.request s = none) : c.exec env s = c.refuse env s := by
  cases c with
  | free ptr => rfl
  | realloc ptr size =>
    have h0 := hmode.resolve_left Bool.false_ne_true
    rw [request] at hr
    split_ifs at hr with hptr hsize hold
    · rw [exec, Hook.realloc, if_neg hptr, if_pos hsize, refuse, if_pos hsize]
      cases Hook.free env ptr s <;> rfl
    · rw [exec, Hook.realloc, if_neg hptr, if_neg hsize, if_neg (not_not_intro h0), hold, refuse,
        if_neg hsize]
      rfl
  | calloc nmems size =>
    rw [request] at hr
    split_ifs at hr with hzero
    rw [exec, Hook.calloc, if_pos hzero]
    rfl
  | posixMemalign alignment size =>
    rw [request] at hr
    split_ifs at hr with halign
    rw [exec, Hook.posixMemalign, if_pos halign]
    rfl
  | alignedAlloc alignment size =>
    rw [request] at hr
    split_ifs at hr with halign
    rw [exec, Hook.alignedAlloc, if_pos halign]
    rfl
  | memalign alignment size =>
    rw [request] at hr
    split_ifs at hr with halign
    rw [exec, Hook.memalign, if_pos halign]
    rfl
  | malloc size => cases hr
  | valloc size => cases hr
  | pvalloc size => cases hr

end Call

/-! ### Where the payload starts -/

namespace Hook

/-- `__is_power_of_2` says what it should. -/
theorem exists_eq_two_pow {val : ℕ} (hlt : val < 18446744073709551616)
    (h : isPowerOf2 val = true) : ∃ k < 64, val = 2 ^ k := by
  obtain ⟨k, hk⟩ := List.length_eq_one_iff.1 (of_decide_eq_true h)
  have hmem : ∀ i, i ∈ (List.range 64).filter val.testBit ↔ i = k := fun i ↦ by
    rw [hk, List.mem_singleton]
  simp only [List.mem_filter, List.mem_range] at hmem
  refine ⟨k, ((hmem k).2 rfl).1, Nat.eq_of_testBit_eq fun i ↦ ?_⟩
  rw [Nat.testBit_two_pow]
  by_cases hi : i < 64
  · have := hmem i
    by_cases hik : k = i
    · subst hik
      rw [decide_eq_true rfl]
      exact ((hmem k).2 rfl).2
    · rw [decide_eq_false hik]
      by_contra hbit
      rw [Bool.not_eq_false] at hbit
      exact hik (this.1 ⟨hi, hbit⟩).symm
  · have hik : k ≠ i := by
      rintro rfl
      exact hi ((hmem k).2 rfl).1
    rw [decide_eq_false hik, Nat.testBit_lt_two_pow]
    exact hlt.trans_le (Nat.pow_le_pow_right two_pos (not_lt.1 hi))

/-- `__align_addr` rounds up to a multiple of the alignment. -/
theorem alignAddr_two_pow {addr k : ℕ} (hk : k < 64)
    (hlt : addr + 2 ^ k - 1 < 18446744073709551616) :
    alignAddr addr (2 ^ k) = (addr + 2 ^ k - 1) / 2 ^ k * 2 ^ k := by
  have hpos := Nat.two_pow_pos k
  rw [alignAddr, if_neg hpos.ne', wrapSize_of_lt hlt]
  refine Nat.eq_of_testBit_eq fun i ↦ ?_
  have hmask : 18446744073709551615 - (2 ^ k - 1) = 2 ^ 64 - (2 ^ k - 1 + 1) := by omega
  have hle : 2 ^ k - 1 < 2 ^ 64 := by
    have := Nat.pow_lt_pow_right (show 1 < 2 by decide) hk
    omega
  rw [hmask, Nat.testBit_and, Nat.testBit_two_pow_sub_succ hle, Nat.testBit_two_pow_sub_one,
    Nat.testBit_mul_two_pow, Nat.testBit_div_two_pow]
  by_cases hi : i < k
  · simp [hi, not_le.2 hi]
  · by_cases hi' : i < 64
    · simp [hi, not_lt.1 hi, hi']
    · have hzero : (addr + 2 ^ k - 1).testBit i = false :=
        Nat.testBit_lt_two_pow (hlt.trans_le (Nat.pow_le_pow_right two_pos (not_lt.1 hi')))
      simp [hi, not_lt.1 hi, hzero]

/-- The payload starts less than one alignment further. -/
theorem alignAddr_bounds {addr k : ℕ} (hk : k < 64)
    (hlt : addr + 2 ^ k - 1 < 18446744073709551616) :
    addr ≤ alignAddr addr (2 ^ k) ∧ alignAddr addr (2 ^ k) < addr + 2 ^ k := by
  rw [alignAddr_two_pow hk hlt]
  have hpos := Nat.two_pow_pos k
  have hmod := Nat.mod_lt (addr + 2 ^ k - 1) hpos
  have hdiv := Nat.div_add_mod' (addr + 2 ^ k - 1) (2 ^ k)
  omega

end Hook

end Memchk
