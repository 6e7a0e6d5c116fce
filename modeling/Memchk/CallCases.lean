import Memchk.Allocation
import Memchk.HookedRun

/-!
# What a call comes to

A call with hooks enabled is served by a live block, by a buffer that nobody knows of if there is no
node for it, or by nothing if the library has no memory; after that it may fill the payload and take
another pointer back (`Call.cases`). Taking a pointer back is reporting it, moving a live block to
the quarantine, or dropping the block if there is no node for it there (`State.Inv.hookFree_cases`).

## Compared with effects

`Call.effects` says of a call that it is some sequence of effects. That is enough for an invariant,
but not for a statement about a particular call, such as what `realloc` returns or whose callstack
is recorded. `Call.cases` says which sequence it is, with the state between the effects.

## The cases

`Served env r s g p u g'` is the first half, from `s` to `u`: the request `r` was answered with the
pointer `p`, which is null or in a new buffer. The second half depends on the call. `calloc`
writes zeros into the payload, `realloc` copies and takes its argument back, and the others do
nothing more. A call without a request has the second half only.
-/

namespace Memchk

namespace State

variable {s t : State} {g : Contents} {env : Env} {ptr n : ℕ}

/-- `free` with hooks enabled: the pointer is not that of a live block, or the block goes to the
quarantine, or there is no node for it there. -/
theorem Inv.hookFree_cases (h : s.Inv g) (h0 : s.doNotHook = 0)
    (hexec : Hook.free env ptr s = some t) :
    (∀ n ∈ g.nodes .live, (s.blocks.record n).usrptr ≠ ptr) ∧
      (∃ es, t = s.emit es ∧ ∀ e ∈ es, Event.isRemark e) ∨
      ∃ n ∈ g.nodes .live, (s.blocks.record n).usrptr = ptr ∧ ∃ rc log,
        mcCheckAllocatedBuffer (s.blocks.record n).memblk ptr
          (s.printCallstack (s.blocks.record n).allocator 2) (some (env.printCurrentCallstack 3))
          s.heap = some (rc, log) ∧
        ((∃ u, Dropped ptr s g n log u ∧ t = u.giveBack env.garbage) ∨
          ∃ new c evicted evictLog u g',
            Unregistered env ptr s g n new c evicted log evictLog u g' ∧
              t = u.giveBack (s.evictedBuf evicted)) := by
  rw [Hook.free] at hexec
  split_ifs at hexec with hnull hmode
  · obtain rfl := Option.some.inj hexec
    refine .inl ⟨fun n hn heq ↦ ?_, [], by rw [State.emit, List.append_nil], by simp⟩
    have hbuf := h.heap.ne_null _ (h.guarded n hn).mem
    have hle := (h.guarded n hn).shape.le
    simp only at hbuf
    omega
  · exact absurd h0 hmode
  simp only [Option.bind_eq_bind, Option.bind_eq_some_iff] at hexec
  obtain ⟨⟨ret, buf, u⟩, hun, hexec⟩ := hexec
  obtain rfl : u.giveBack buf = t := Option.some.inj hexec
  rcases h.unregister env ptr env.garbage with
    ⟨hnone, heq⟩ | ⟨n, hn, hkey, ⟨-, hnone⟩ | ⟨rc, log, hcheck, ⟨u', heq, hdrop⟩ | ⟨-, hnone⟩ |
      ⟨new, c, evicted, evictLog, u', g', heq, hrel⟩⟩⟩
  · rw [heq, Option.map_eq_some_iff] at hun
    obtain ⟨u', hreport, heq⟩ := hun
    simp only [Prod.mk.injEq] at heq
    obtain ⟨-, rfl, rfl⟩ := heq
    obtain ⟨es, rfl, hes⟩ := h.rejected hreport
    exact .inl ⟨hnone, es, rfl, hes⟩
  · exact absurd (hun.symm.trans hnone) (by simp)
  · rw [heq] at hun
    simp only [Option.some.injEq, Prod.mk.injEq] at hun
    obtain ⟨-, rfl, rfl⟩ := hun
    exact .inr ⟨n, hn, hkey, rc, log, hcheck, .inl ⟨u', hdrop, rfl⟩⟩
  · exact absurd (hun.symm.trans hnone) (by simp)
  · rw [heq] at hun
    simp only [Option.some.injEq, Prod.mk.injEq] at hun
    obtain ⟨-, rfl, rfl⟩ := hun
    exact .inr ⟨n, hn, hkey, rc, log, hcheck,
      .inr ⟨new, c, evicted, evictLog, u', g', hrel, rfl⟩⟩

/-- `free` only adds to the trace. -/
theorem Inv.trace_hookFree (h : s.Inv g) (h0 : s.doNotHook = 0)
    (hexec : Hook.free env ptr s = some t) : s.trace <+: t.trace := by
  rcases h.hookFree_cases h0 hexec with ⟨-, es, rfl, -⟩ |
    ⟨n, -, -, rc, log, -, ⟨u, hdrop, rfl⟩ | ⟨new, c, evicted, evictLog, u, g', hun, rfl⟩⟩
  · exact List.prefix_append _ _
  · rw [trace_giveBack, hdrop.trace, List.append_assoc]
    exact List.prefix_append _ _
  · rw [trace_giveBack, hun.trace, List.append_assoc]
    exact List.prefix_append _ _

end State

namespace Call

/-- The size of the block that an allocating call gives. -/
def payload : Call → ℕ
  | .malloc size | .realloc _ size | .posixMemalign _ size | .alignedAlloc _ size
  | .memalign _ size | .valloc size => size
  | .calloc nmems size => wrapSize (nmems * size)
  | .pvalloc size => pageMask (wrapSize (size + pageSize - 1))
  | .free _ => 0

/-- The pointer that a call that has returned `p` has given back. -/
def returned (p : ℕ) : Call → Option ℕ
  | .free ptr => some ptr
  | .realloc ptr size => if size = 0 ∨ p ≠ 0 then some ptr else none
  | _ => none

/-- Only bytes of the payload at `p` may have been written, and only by `calloc`, which runs into a
fault outside of the buffers handed out, or by `realloc`. -/
structure Filled (c : Call) (r : Request) (p : ℕ) (u : State) (mem : ℕ → UInt8) : Prop where
  outside : ∀ y, ¬(p ≠ 0 ∧ p ≤ y ∧ y < p + r.usrsize) → mem y = u.heap.mem y
  writer : mem = u.heap.mem ∨ r = .malloc r.usrsize ∧
    (u.heap.Accessible p r.usrsize ∨ ∃ ptr, ptr ≠ 0 ∧ c = .realloc ptr r.usrsize)

theorem Filled.same (c : Call) (r : Request) (p : ℕ) (u : State) : Filled c r p u u.heap.mem :=
  ⟨fun _ _ ↦ rfl, .inl rfl⟩

variable {env : Env} {s t u : State} {g : Contents} {c : Call} {r : Request} {p p₁ : ℕ}

/-- The size that is asked for. -/
theorem usrsize_of_request (hr : c.request s = some r) : r.usrsize = c.payload := by
  cases c with
  | free ptr => cases hr
  | malloc size | valloc size | pvalloc size =>
    obtain rfl := Option.some.inj hr
    rfl
  | realloc ptr size =>
    rw [request] at hr
    split_ifs at hr <;> obtain rfl := Option.some.inj hr <;> rfl
  | calloc nmems size | posixMemalign alignment size | alignedAlloc alignment size
  | memalign alignment size =>
    rw [request] at hr
    split_ifs at hr
    obtain rfl := Option.some.inj hr
    rfl

/-- The rest of a call behind the service, in what it does to blocks. -/
theorem finish_cases (hr : c.request s = some r) (hfin : c.finish env s (p₁, u) = some (p, t)) :
    p = p₁ ∧ ((∀ ptr, c.returned p = some ptr → ptr = 0) ∧
        (∃ mem, Filled c r p u mem ∧ t = { u with heap := { u.heap with mem := mem } }) ∨
      ∃ ptr mem, p ≠ 0 ∧ c.isAligned = false ∧ c.returned p = some ptr ∧
        mcHandleReallocMemblk ptr s ≠ some 18446744073709551615 ∧ Filled c r p u mem ∧
        Hook.free env ptr { u with heap := { u.heap with mem := mem } } = some t) := by
  obtain ⟨rfl, -⟩ := finish_spec hr hfin
  cases c with
  | realloc ptr size =>
    rw [finish] at hfin
    split_ifs at hfin with hnull
    · obtain rfl : u = t := (Prod.mk.inj (Option.some.inj hfin)).2
      refine ⟨rfl, .inl ⟨fun q hq ↦ ?_, u.heap.mem, .same .., rfl⟩⟩
      rw [returned] at hq
      split_ifs at hq with hsize
      obtain rfl := Option.some.inj hq
      rcases hnull with hptr | hp
      · exact hptr
      · rw [request] at hr
        split_ifs at hr with hptr hsize'
        · exact hptr
        · exact absurd hp (hsize.resolve_left hsize')
    rw [not_or] at hnull
    rw [request, if_neg hnull.1] at hr
    split_ifs at hr with hsize hold
    obtain rfl := Option.some.inj hr
    simp only [Heap.memcpy, Option.bind_eq_bind, Option.bind_eq_some_iff] at hfin
    obtain ⟨oldsize, -, heap, hcopy, s₁, hfree, heq⟩ := hfin
    simp only [Option.pure_def, Option.some.injEq, Prod.mk.injEq] at heq
    obtain ⟨-, rfl⟩ := heq
    obtain ⟨len, hlen⟩ : ∃ len, len = if size ≥ oldsize then oldsize else size := ⟨_, rfl⟩
    have hle : len ≤ size := by
      rw [hlen]
      split_ifs <;> omega
    rw [← hlen] at hcopy
    split_ifs at hcopy
    obtain rfl := Option.some.inj hcopy
    refine ⟨rfl, .inr ⟨ptr, _, hnull.2, rfl, if_pos (.inr hnull.2), hold,
      ⟨fun y hy ↦ ?_, .inr ⟨rfl, .inr ⟨ptr, hnull.1, rfl⟩⟩⟩, hfree⟩⟩
    refine if_neg fun hin ↦ hy ⟨hnull.2, hin.1, hin.2.trans_le ?_⟩
    exact Nat.add_le_add_left hle _
  | calloc nmems size =>
    refine ⟨rfl, .inl ⟨fun q hq ↦ absurd hq (by simp [returned]), ?_⟩⟩
    rw [request] at hr
    split_ifs at hr
    obtain rfl := Option.some.inj hr
    rw [finish] at hfin
    split_ifs at hfin with hnull
    · obtain rfl : u = t := (Prod.mk.inj (Option.some.inj hfin)).2
      exact ⟨u.heap.mem, .same .., rfl⟩
    simp only [Heap.memset, Option.bind_eq_bind] at hfin
    split_ifs at hfin with hacc
    · simp only [Option.bind_some, Option.pure_def, Option.some.injEq, Prod.mk.injEq] at hfin
      obtain ⟨-, rfl⟩ := hfin
      exact ⟨_, ⟨fun y hy ↦ if_neg fun hin ↦ hy ⟨hnull, hin⟩, .inr ⟨rfl, .inl hacc⟩⟩, rfl⟩
    · exact absurd hfin (by simp)
  | free ptr => cases hr
  | malloc _ | posixMemalign _ _ | alignedAlloc _ _ | memalign _ _ | valloc _ | pvalloc _ =>
    refine ⟨rfl, .inl ⟨fun q hq ↦ absurd hq (by simp [returned]), ?_⟩⟩
    obtain rfl : u = t := (Prod.mk.inj (Option.some.inj hfin)).2
    exact ⟨u.heap.mem, .same .., rfl⟩

/-- The rest of a call behind the service logs. -/
theorem trace_finish (h : u.Inv g) (h0 : c.isAligned = false → u.doNotHook = 0)
    (hr : c.request s = some r) (hfin : c.finish env s (p₁, u) = some (p, t)) :
    u.trace <+: t.trace := by
  obtain ⟨-, ⟨-, mem, -, rfl⟩ | ⟨ptr, mem, -, hplain, -, -, -, hfree⟩⟩ := finish_cases hr hfin
  · exact List.prefix_refl _
  · exact (h.withMem mem).trace_hookFree (h0 hplain) hfree

/-- A request has been served in the state `u`. -/
inductive Served (env : Env) (r : Request) (s : State) (g : Contents) : ℕ → State → Contents → Prop
  /-- The library has no memory. -/
  | refused (hnull : env.answer.addr = 0) : Served env r s g 0 (s.origMalloc env r.bufsize).2 g
  /-- There is no node to record the buffer. -/
  | unrecorded {u : State} (hne : env.answer.addr ≠ 0)
    (hun : Unrecorded (s.origMalloc env r.bufsize).2 g u) :
    Served env r s g (r.place env.answer.addr) u g
  /-- There is one more live block. -/
  | recorded {n k : ℕ} {u : State} {g' : Contents} (hne : env.answer.addr ≠ 0)
    (hrec : Recorded env (r.block env.answer.addr) (r.place env.answer.addr)
      (s.origMalloc env r.bufsize).2 g n k u g') : Served env r s g (r.place env.answer.addr) u g'

/-- A request that was served keeps the invariant. -/
theorem Served.inv {g' : Contents} (hserved : Served env r s g p u g') (h : s.Inv g)
    (ha : Heap.AnswerOk env.answer r.bufsize s.heap) : u.Inv g' := by
  cases hserved with
  | refused hnull => exact h.origMalloc ha
  | unrecorded hne hun => exact hun.inv
  | recorded hne hrec => exact hrec.inv

/-- Serving a request leaves the mode alone. -/
theorem Served.doNotHook {g' : Contents} (hserved : Served env r s g p u g') :
    u.doNotHook = s.doNotHook := by
  cases hserved with
  | refused hnull => rfl
  | unrecorded hne hun => exact hun.doNotHook
  | recorded hne hrec => exact hrec.doNotHook

/-- A call with hooks enabled. -/
theorem cases (h : s.Inv g) (hmode : c.isAligned ∨ s.doNotHook = 0) (hc : c.InRange)
    (ha : ∀ r, c.request s = some r → Heap.AnswerOk env.answer r.bufsize s.heap)
    (hexec : c.exec env s = some (p, t)) :
    c.request s = none ∧ c.refuse env s = some (p, t) ∨
      ∃ r u g', c.request s = some r ∧ Heap.AnswerOk env.answer r.bufsize s.heap ∧
        Served env r s g p u g' ∧ c.finish env s (p, u) = some (p, t) := by
  cases hr : c.request s with
  | none =>
    rw [exec_of_request_eq_none hmode hr] at hexec
    exact .inl ⟨rfl, hexec⟩
  | some r =>
    rw [exec_of_request hmode hr (isSome_mcHandleReallocMemblk h), Option.bind_eq_some_iff] at hexec
    obtain ⟨⟨p₁, u⟩, hserve, hfin⟩ := hexec
    obtain ⟨rfl, -⟩ := finish_cases hr hfin
    replace ha := ha r hr
    refine .inr ⟨r, u, ?_⟩
    rcases h.serve (hc.request_ok hr) ha with ⟨hzero, heq⟩ | ⟨hne, ⟨u', heq, hun⟩ | ⟨-, hnone⟩ |
      ⟨u', g₁, n, k, heq, hrec⟩⟩
    · obtain ⟨rfl, rfl⟩ := Prod.mk.inj (Option.some.inj (heq.symm.trans hserve))
      exact ⟨g, rfl, ha, .refused hzero, hfin⟩
    · obtain ⟨rfl, rfl⟩ := Prod.mk.inj (Option.some.inj (heq.symm.trans hserve))
      exact ⟨g, rfl, ha, .unrecorded hne hun, hfin⟩
    · exact absurd (hserve.symm.trans hnone) (by simp)
    · obtain ⟨rfl, rfl⟩ := Prod.mk.inj (Option.some.inj (heq.symm.trans hserve))
      exact ⟨g₁, rfl, ha, .recorded hne hrec, hfin⟩

end Call

end Memchk
