import Memchk.Run

/-!
# Runs in which metadata is there

As long as no pool was out of memory (there is no `mmapFailed` in the trace), every block has the
callstack that it was allocated from, and every block in the quarantine the one that it was freed
from. Reports read these callstacks, so that none of them reads a null pointer.

## What can run out

Three pools hand out metadata: nodes of blocks, callstacks, and nodes of freed blocks. A call that
finds one of them empty leaves the mark `mmapFailed` and goes on without the node, with a block that
is not recorded, or recorded without a callstack. The mark stays in the trace, so that the condition
on a state covers the whole run before it.

## The invariant

`State.Attributed` says that all callstacks of blocks are there. It is kept by every effect that
leaves no mark (`Effects.attributed`), and as the trace only grows (`Effects.trace_prefix`), the
condition at the end of a call gives it for each of its effects.

## Calls that find metadata

`State.HasNode`, `State.HasCallstack` and `State.HasFreeNode` say beforehand that a pool will not
run out in the next call. They are what the runs of examples use: a call under them returns, and
registers or unregisters its block (`State.supply_recorded`, `State.supply_unregistered`).
-/

namespace Memchk

/-- Every block has its callstacks. -/
structure State.Attributed (s : State) (g : Contents) : Prop where
  allocator : ∀ id, ∀ n ∈ g.nodes id, (s.blocks.record n).allocator ≠ 0
  freed : ∀ n ∈ g.freed,
    (s.quarantine.record n).allocator ≠ 0 ∧ (s.quarantine.record n).freer ≠ 0

/-- The pool has a node for a block. -/
def State.HasNode (s : State) : Prop :=
  ∃ n pool, mcAllocateAllocMemblk s.blocks.pool = some (n, pool) ∧ n ≠ 0

/-- There is a node for the callstack of an allocation. -/
def State.HasCallstack (env : Env) (s : State) : Prop :=
  ∃ k cs, mcGetCallstack env.allocFrames s.callstacks = some (k, cs) ∧ k ≠ 0

/-- There is a node for a block in the quarantine. -/
def State.HasFreeNode (s : State) : Prop :=
  ∃ m pool, mcAllocateFreeMemblk s.quarantine.pool = some (m, pool) ∧ m ≠ 0

namespace State

variable {s s' t : State} {g g' : Contents} {env : Env}

/-- Whether blocks have callstacks depends on the records only. -/
theorem Attributed.congr (h : s.Attributed g) (hblocks : t.blocks.record = s.blocks.record)
    (hquarantine : t.quarantine.record = s.quarantine.record) : t.Attributed g where
  allocator id n hn := by
    rw [hblocks]
    exact h.allocator id n hn
  freed n hn := by
    rw [hquarantine]
    exact h.freed n hn

@[simp]
theorem quarantine_giveBack (buf : ℕ) : (s.giveBack buf).quarantine = s.quarantine := by
  rw [giveBack]
  split_ifs <;> rfl

@[simp]
theorem counters_giveBack (buf : ℕ) : (s.giveBack buf).counters = s.counters := by
  rw [giveBack]
  split_ifs <;> rfl

@[simp]
theorem callstacks_giveBack (buf : ℕ) : (s.giveBack buf).callstacks = s.callstacks := by
  rw [giveBack]
  split_ifs <;> rfl

/-- Giving a buffer back is traced unless it is null. -/
theorem trace_giveBack (buf : ℕ) :
    (s.giveBack buf).trace = s.trace ++ if buf ≠ 0 then [.origFree buf] else [] := by
  rw [giveBack]
  split_ifs
  · rfl
  · exact (List.append_nil _).symm

/-- The nodes of a block that is registered, with its callstack. -/
theorem Attributed.recorded (h : s.Attributed g) {x : Memblk} {usrptr n c : ℕ}
    (hrec : Recorded env x usrptr s g n c s' g') (hc : c ≠ 0) : s'.Attributed g' where
  allocator id m hm := by
    by_cases hmn : m = n
    · rw [hmn, hrec.record]
      exact hc
    · rw [hrec.record_of_ne m hmn]
      refine h.allocator id m ?_
      rw [hrec.nodes] at hm
      by_cases hid : id = .live
      · subst hid
        rw [Function.update_self] at hm
        exact (List.mem_cons.1 hm).resolve_left hmn
      · rwa [Function.update_of_ne hid] at hm
  freed m hm := by
    rw [hrec.quarantine]
    exact h.freed m (hrec.freed ▸ hm)

/-- A block that is registered with its callstack has been found all its metadata. -/
theorem supply_recorded {x : Memblk} {usrptr n c size : ℕ}
    (hrec : Recorded env x usrptr (s.origMalloc env size).2 g n c s' g') (hc : c ≠ 0)
    (hsupply : .mmapFailed ∉ s.trace) : .mmapFailed ∉ s'.trace := by
  have horig : (s.origMalloc env size).2.trace = s.trace ++ [.origMalloc size env.answer.addr] :=
    rfl
  rw [hrec.trace, horig, if_neg hc, List.append_nil, List.mem_append, not_or]
  exact ⟨hsupply, by simp⟩

/-- So has one that goes to the quarantine with the callstack of `free`. -/
theorem supply_unregistered {usrptr n new c : ℕ} {evicted : Option ℕ} {log evictLog : List Event}
    (hun : Unregistered env usrptr s g n new c evicted log evictLog s' g')
    (hlog : ∀ e ∈ log, e.isDamage) (hc : c ≠ 0) (hsupply : .mmapFailed ∉ s.trace) :
    .mmapFailed ∉ s'.trace := by
  have hevict : ∀ e ∈ evictLog, e.isDamage := by
    cases evicted with
    | none =>
      rw [hun.evictLog_eq_nil rfl]
      exact fun e he ↦ absurd he List.not_mem_nil
    | some old =>
      obtain ⟨rc, hcheck⟩ := hun.evictCheck old rfl
      exact isDamage_mcCheckFreedBuffer hcheck
  rw [hun.trace, if_neg hc, List.nil_append]
  simp only [List.mem_append, not_or]
  exact ⟨hsupply, fun hmem ↦ Bool.false_ne_true (hlog _ hmem),
    fun hmem ↦ Bool.false_ne_true (hevict _ hmem)⟩

/-- The nodes of a block that goes to the quarantine, with its callstack. -/
theorem Attributed.unregistered (h : s.Attributed g) {usrptr n new c : ℕ} {evicted : Option ℕ}
    {log evictLog : List Event} (hn : n ∈ g.nodes .live)
    (hun : Unregistered env usrptr s g n new c evicted log evictLog s' g') (hc : c ≠ 0) :
    s'.Attributed g' where
  allocator id m hm := by
    rw [hun.record]
    rw [hun.nodes] at hm
    exact h.allocator id m (mem_of_mem_update_erase hm)
  freed m hm := by
    by_cases hmn : m = new
    · rw [hmn, hun.newRecord]
      exact ⟨h.allocator .live n hn, hc⟩
    · rw [hun.freedRecord m hmn]
      refine h.freed m ?_
      have hmem : m ∈ g.freed ++ [new] := hun.freed ▸ List.mem_append_right _ hm
      simpa [hmn] using hmem

end State

namespace Effect

variable {s s' : State} {g g' : Contents} {env : Env}

/-- The trace only grows. -/
theorem trace_prefix (he : Effect env s g s' g') : s.trace <+: s'.trace := by
  cases he with
  | logged hes => exact List.prefix_append _ _
  | refused size hnull => exact List.prefix_append _ _
  | unrecorded r hne ha hun => exact ⟨_, by rw [hun.trace, ← List.append_assoc]; rfl⟩
  | recorded r hne ha hrec => exact ⟨_, by rw [hrec.trace, ← List.append_assoc]; rfl⟩
  | wrote hn hmem => exact List.prefix_rfl
  | overwrote mem hfailed => exact List.prefix_rfl
  | dropped hn hkey hcheck hgarbage hdrop =>
    rw [State.trace_giveBack, hdrop.trace, List.append_assoc]
    exact List.prefix_append _ _
  | released hn hkey hcheck hun =>
    rw [State.trace_giveBack, hun.trace, List.append_assoc]
    exact List.prefix_append _ _

/-- An effect that finds metadata leaves all blocks with their callstacks. -/
theorem attributed (he : Effect env s g s' g') (h : s.Attributed g)
    (hok : .mmapFailed ∉ s'.trace) : s'.Attributed g' := by
  cases he with
  | logged hes => exact h.congr rfl rfl
  | refused size hnull => exact h.congr rfl rfl
  | unrecorded r hne ha hun =>
    rw [hun.trace] at hok
    simp at hok
  | recorded r hne ha hrec =>
    have h' : (s.origMalloc env r.bufsize).2.Attributed g := h.congr rfl rfl
    refine h'.recorded hrec fun hc ↦ hok ?_
    rw [hrec.trace, if_pos hc]
    simp
  | wrote hn hmem => exact h.congr rfl rfl
  | overwrote mem hfailed => exact absurd hfailed hok
  | dropped hn hkey hcheck hgarbage hdrop =>
    rw [State.trace_giveBack, hdrop.trace] at hok
    simp at hok
  | released hn hkey hcheck hun =>
    rw [State.trace_giveBack, hun.trace] at hok
    refine State.Attributed.congr (h.unregistered hn hun fun hc ↦ hok ?_) (by simp) (by simp)
    rw [if_pos hc]
    simp

end Effect

/-- Effects only add to the trace. -/
theorem Effects.trace_prefix {env : Env} {x y : State × Contents} (h : Effects env x y) :
    x.1.trace <+: y.1.trace := by
  induction h with
  | refl => exact List.prefix_rfl
  | tail _ hstep ih => exact ih.trans hstep.trace_prefix

/-- Effects without a mark keep the blocks attributed. -/
theorem Effects.attributed {env : Env} {x y : State × Contents} (h : Effects env x y)
    (hattr : x.1.Attributed x.2) (hok : .mmapFailed ∉ y.1.trace) : y.1.Attributed y.2 := by
  induction h with
  | refl => exact hattr
  | tail _ hstep ih =>
    exact hstep.attributed (ih fun hmem ↦ hok (hstep.trace_prefix.subset hmem)) hok

namespace State

variable {s s' : State} {g : Contents}

/-- No action takes anything off the trace. -/
theorem Inv.action_trace_prefix (h : s.Inv g) {a : Action} (hok : a.Ok s)
    (hexec : a.exec s = some s') : s.trace <+: s'.trace := by
  rcases h.action_cases hok hexec with ⟨env, g', he⟩ | ⟨hsame, -⟩
  · exact he.trace_prefix
  · exact hsame.trace

/-- An action that finds metadata leaves all blocks with their callstacks. -/
theorem Inv.action_attributed (h : s.Inv g) (hattr : s.Attributed g) {a : Action} (hok : a.Ok s)
    (hexec : a.exec s = some s') (hsupply : .mmapFailed ∉ s'.trace) :
    ∃ g', s'.Inv g' ∧ s'.Attributed g' := by
  rcases h.action_cases hok hexec with ⟨env, g', he⟩ | ⟨hsame, hinv⟩
  · exact ⟨g', @Inv.effects env (s, g) (s', g') h he, he.attributed hattr hsupply⟩
  · exact ⟨g, hinv, hattr.congr (by rw [hsame.blocks]) (by rw [hsame.quarantine])⟩

end State

/-! ### Calls that find metadata -/

namespace State

variable {s : State} {g : Contents} {env : Env} {size n : ℕ}

/-- A request of `malloc` whose size does not wrap around fits its buffer. -/
theorem malloc_fits {addr : ℕ} (hwrap : size + redzoneSize * 2 < 18446744073709551616)
    (hend : addr + max 1 (size + redzoneSize * 2) ≤ 9223372036854775808) :
    (Request.malloc size).bufsize = size + redzoneSize * 2 ∧
      (Request.malloc size).place addr = addr + redzoneSize ∧
      ((Request.malloc size).block addr).Shape ((Request.malloc size).place addr) := by
  have hbufsize : (Request.malloc size).bufsize = size + redzoneSize * 2 := wrapSize_of_lt hwrap
  have hplace : (Request.malloc size).place addr = addr + redzoneSize :=
    wrapSize_of_lt (by simp only [redzoneSize] at hend ⊢; omega)
  refine ⟨hbufsize, hplace, ?_⟩
  rw [hplace, Request.block, hbufsize]
  refine ⟨Nat.le_add_right _ _, ?_⟩
  show addr + redzoneSize + size ≤ addr + (size + redzoneSize * 2)
  omega

/-- A request that gets a buffer and a node becomes a live block. -/
theorem Inv.serve_recorded (h : s.Inv g) (hnode : s.HasNode) (hne : env.answer.addr ≠ 0)
    (hwrap : size + redzoneSize * 2 < 18446744073709551616)
    (ha : Heap.AnswerOk env.answer (size + redzoneSize * 2) s.heap) :
    ∃ s' g' n c, (Request.malloc size).serve env s =
        some (env.answer.addr + redzoneSize, s') ∧
      Recorded env ⟨env.answer.addr, size + redzoneSize * 2, size⟩ (env.answer.addr + redzoneSize)
        (s.origMalloc env (size + redzoneSize * 2)).2 g n c s' g' := by
  obtain ⟨hbufsize, hplace, hfits⟩ := malloc_fits hwrap (ha.resolve_left hne).1
  have hblock : (Request.malloc size).block env.answer.addr =
      ⟨env.answer.addr, size + redzoneSize * 2, size⟩ := by
    rw [Request.block, hbufsize]
    rfl
  rw [← hbufsize] at ha
  rcases h.serve (Request.ok_malloc (by simp only [redzoneSize] at hwrap; omega)) ha with
    ⟨hnull, -⟩ | ⟨-, ⟨u, -, hun⟩ | ⟨hshape, -⟩ | ⟨u, g₁, n, c, heq, hrec⟩⟩
  · exact absurd hnull hne
  · obtain ⟨n, pool, halloc, hn⟩ := hnode
    have hfailed : mcAllocateAllocMemblk s.blocks.pool = some (0, u.blocks.pool) := hun.failed
    rw [hfailed, Option.some_inj, Prod.mk.injEq] at halloc
    exact absurd halloc.1.symm hn
  · exact absurd hfits hshape
  · rw [hplace] at heq hrec
    rw [hblock, hbufsize] at hrec
    exact ⟨u, g₁, n, c, heq, hrec⟩

/-- Without a node in the quarantine a live block with its callstack is dropped. -/
theorem Inv.exists_dropped (h : s.Inv g) (hn : n ∈ g.nodes .live) (hnode : ¬s.HasFreeNode)
    (hallocator : (s.blocks.record n).allocator ≠ 0) (env : Env) (b : ℕ) :
    ∃ rc log t, mcCheckAllocatedBuffer (s.blocks.record n).memblk (s.blocks.record n).usrptr
        (s.printCallstack (s.blocks.record n).allocator 2) (some (env.printCurrentCallstack 3))
        s.heap = some (rc, log) ∧
      mcUnregisterMemblk env (s.blocks.record n).usrptr b s = some (-1, b, t) ∧
      Dropped (s.blocks.record n).usrptr s g n log t := by
  rcases h.unregister env (s.blocks.record n).usrptr b with
    ⟨hnone, -⟩ | ⟨m, hm, hkey, ⟨⟨-, hnull⟩, -⟩ | ⟨rc, log, hcheck, ⟨u, heq, hdrop⟩ |
      ⟨⟨hnode', -⟩, -⟩ | ⟨new, c, evicted, evictLog, u, g', -, hun⟩⟩⟩
  · exact absurd rfl (hnone n hn)
  · obtain rfl := h.live_inj hm hn hkey
    exact absurd hnull hallocator
  · obtain rfl := h.live_inj hm hn hkey
    exact ⟨rc, log, u, hcheck, heq, hdrop⟩
  · exact absurd hnode' hnode
  · obtain ⟨pool, halloc, -⟩ := hun.allocated
    exact absurd ⟨new, pool, halloc, hun.inv.freed_ne_null (h.new_mem hun)⟩ hnode

/-- A live block with its callstack goes to the quarantine when it is freed, if the blocks there
have theirs and there is a node for it. -/
theorem Inv.hookFree_released (h : s.Inv g) (h0 : s.doNotHook = 0) (hn : n ∈ g.nodes .live)
    (hnode : s.HasFreeNode) (hallocator : (s.blocks.record n).allocator ≠ 0)
    (hfreed : ∀ m ∈ g.freed,
      (s.quarantine.record m).allocator ≠ 0 ∧ (s.quarantine.record m).freer ≠ 0) :
    ∃ new c evicted log evictLog t g',
      Hook.free env (s.blocks.record n).usrptr s = some (t.giveBack (s.evictedBuf evicted)) ∧
        (∀ e ∈ log, e.isDamage) ∧
        Unregistered env (s.blocks.record n).usrptr s g n new c evicted log evictLog t g' := by
  have hguarded := h.guarded n hn
  have hlow := hguarded.shape.le
  have hbuf := h.heap.ne_null _ hguarded.mem
  simp only at hbuf
  have hptr : (s.blocks.record n).usrptr ≠ 0 := by omega
  rcases h.unregister env (s.blocks.record n).usrptr env.garbage with
    ⟨hnone, -⟩ | ⟨m, hm, hkey, ⟨⟨-, hnull⟩, -⟩ | ⟨rc, log, hcheck, ⟨u, -, hdrop⟩ |
      ⟨⟨-, old, hold, -, -, hnull⟩, -⟩ | ⟨new, c, evicted, evictLog, u, g', heq, hun⟩⟩⟩
  · exact absurd rfl (hnone n hn)
  · obtain rfl := h.live_inj hm hn hkey
    exact absurd hnull hallocator
  · obtain ⟨m, pool, halloc, hm⟩ := hnode
    rw [hdrop.failed, Option.some_inj, Prod.mk.injEq] at halloc
    exact absurd halloc.1.symm hm
  · rcases hnull with hnull | hnull
    · exact absurd hnull (hfreed old hold).1
    · exact absurd hnull (hfreed old hold).2
  · obtain rfl := h.live_inj hm hn hkey
    refine ⟨new, c, evicted, log, evictLog, u, g', ?_, isDamage_mcCheckAllocatedBuffer hcheck, hun⟩
    rw [Hook.free, if_neg hptr, if_neg (not_not_intro h0), heq]
    rfl

/-- `free` returns whatever it is called with, as long as all blocks have their callstacks. -/
theorem Inv.exists_hookFree (h : s.Inv g) (hattr : s.Attributed g) (h0 : s.doNotHook = 0)
    (env : Env) (ptr : ℕ) : ∃ t, Hook.free env ptr s = some t := by
  by_cases hptr : ptr = 0
  · refine ⟨s, ?_⟩
    rw [Hook.free, if_pos hptr]
    rfl
  have hfree : ∀ {x}, mcUnregisterMemblk env ptr env.garbage s = some x →
      ∃ t, Hook.free env ptr s = some t := by
    intro x heq
    refine ⟨x.2.2.giveBack x.2.1, ?_⟩
    rw [Hook.free, if_neg hptr, if_neg (not_not_intro h0), heq]
    rfl
  rcases h.unregister env ptr env.garbage with
    ⟨-, heq⟩ | ⟨n, hn, -, ⟨⟨-, hnull⟩, -⟩ | ⟨rc, log, -, ⟨u, heq, -⟩ |
      ⟨⟨-, old, hold, -, -, hnull⟩, -⟩ |
      ⟨new, c, evicted, evictLog, u, g', heq, -⟩⟩⟩
  · -- the pointer is not that of a live block: the report reads the callstacks of a freed one
    obtain ⟨t, ht⟩ : ∃ t, Memchk.handleIllegallyFreedBuffer env ptr s = some t := by
      rcases h.handleIllegallyFreedBuffer env ptr with ⟨-, ht⟩ | ⟨m, hm, -, ht⟩
      · exact ⟨_, ht⟩
      · obtain ⟨hallocator, hfreer⟩ := hattr.freed m hm
        obtain ⟨a, ha⟩ := Option.isSome_iff_exists.1 (isSome_printCallstack (s := s) 2 hallocator)
        obtain ⟨b, hb⟩ := Option.isSome_iff_exists.1 (isSome_printCallstack (s := s) 2 hfreer)
        exact ⟨_, by rw [ht, ha, hb]; rfl⟩
    rw [ht, Option.map_some] at heq
    exact hfree heq
  · exact absurd hnull (hattr.allocator .live n hn)
  · exact hfree heq
  · rcases hnull with hnull | hnull
    · exact absurd hnull (hattr.freed old hold).1
    · exact absurd hnull (hattr.freed old hold).2
  · exact hfree heq

/-- `malloc` returns, with hooks enabled. If the callstack it is called from is in the table, the
block has a callstack, and so have all others that had one. -/
theorem Inv.exists_malloc (h : s.Inv g) (hattr : s.Attributed g) (h0 : s.doNotHook = 0)
    (hframes : ∃ c ∈ g.callstacks,
      (s.callstacks.node c).trace = env.allocFrames.take maxCallstackDepth)
    (hwrap : size + redzoneSize * 2 < 18446744073709551616)
    (ha : Heap.AnswerOk env.answer (size + redzoneSize * 2) s.heap) :
    ∃ p t g', (Call.malloc size).exec env s = some (p, t) ∧ t.Inv g' ∧ t.Attributed g' ∧
      t.doNotHook = 0 := by
  have hbufsize : (Request.malloc size).bufsize = size + redzoneSize * 2 := wrapSize_of_lt hwrap
  rw [← hbufsize] at ha
  have hexec : (Call.malloc size).exec env s = (Request.malloc size).serve env s :=
    Call.malloc_eq_serve h0 size
  rw [hexec]
  rcases h.serve (Request.ok_malloc (by simp only [redzoneSize] at hwrap; omega)) ha with
    ⟨hnull, heq⟩ | ⟨hne, ⟨u, heq, hun⟩ | ⟨hshape, -⟩ | ⟨u, g₁, n, c, heq, hrec⟩⟩
  · exact ⟨_, _, g, heq, h.origMalloc ha, hattr.congr rfl rfl, h0⟩
  · exact ⟨_, u, g, heq, hun.inv, hattr.congr hun.record (congrArg _ hun.quarantine),
      hun.doNotHook.trans h0⟩
  · have hend := (ha.resolve_left hne).1
    have hplace : (Request.malloc size).place env.answer.addr = env.answer.addr + redzoneSize :=
      wrapSize_of_lt (by rw [hbufsize] at hend; simp only [redzoneSize] at hend ⊢; omega)
    refine absurd ⟨?_, ?_⟩ hshape
    · rw [hplace]
      exact Nat.le_add_right _ _
    · rw [hplace, Request.block, hbufsize]
      show env.answer.addr + redzoneSize + size ≤ env.answer.addr + (size + redzoneSize * 2)
      omega
  · obtain ⟨c', hc', htrace⟩ := hframes
    have hc : c ≠ 0 := h.callstacks.get_ne_zero hc' htrace hrec.got
    have horig : (s.origMalloc env (Request.malloc size).bufsize).2.Attributed g :=
      hattr.congr rfl rfl
    exact ⟨_, u, g₁, heq, hrec.inv, horig.recorded hrec hc, hrec.doNotHook.trans h0⟩

end State

/-- The null pointer is that of no block. -/
theorem State.Inv.not_tracks_zero {s : State} {g : Contents} (h : s.Inv g) : ¬s.tracks 0 := by
  rw [h.tracks_iff, List.mem_append, State.liveBufs, State.freedBufs, List.mem_map, List.mem_map]
  rintro (⟨n, hn, heq⟩ | ⟨n, hn, heq⟩)
  · exact h.heap.ne_null _ (h.guarded n hn).mem heq
  · exact h.heap.ne_null _ (h.guardedFreed n hn).mem heq

/-- The block recorded has a callstack if there was a node for one. -/
theorem Recorded.callstack_ne_zero {env : Env} {x : Memblk} {usrptr n c : ℕ} {s s' : State}
    {g g' : Contents} (hrec : Recorded env x usrptr s g n c s' g')
    (hcallstack : s.HasCallstack env) : c ≠ 0 := by
  obtain ⟨k, cs, hget, hk⟩ := hcallstack
  rw [hrec.got, Option.some_inj, Prod.mk.injEq] at hget
  exact hget.1 ▸ hk

/-- At the start there is a node, -/
theorem hasNode_start : State.start.HasNode := by
  obtain ⟨⟨n, pool⟩, halloc⟩ := Option.isSome_iff_exists.1 (by decide +kernel :
    (mcAllocateAllocMemblk State.start.blocks.pool).isSome)
  refine ⟨n, pool, halloc, fun hn ↦ ?_⟩
  have hfst : (mcAllocateAllocMemblk State.start.blocks.pool).map Prod.fst ≠ some 0 := by
    decide +kernel
  exact hfst (by rw [halloc, hn]; rfl)

theorem hasCallstack_start (a : ℕ) : State.start.HasCallstack (Env.handing a) := by
  obtain ⟨⟨k, cs⟩, hget⟩ := Option.isSome_iff_exists.1 (by decide +kernel :
    (mcGetCallstack [] State.start.callstacks).isSome)
  refine ⟨k, cs, hget, fun hk ↦ ?_⟩
  have hfst : (mcGetCallstack [] State.start.callstacks).map Prod.fst ≠ some 0 := by
    decide +kernel
  exact hfst (by rw [hget, hk]; rfl)

theorem hasFreeNode_start : State.start.HasFreeNode := by
  obtain ⟨⟨m, pool⟩, halloc⟩ := Option.isSome_iff_exists.1 (by decide +kernel :
    (mcAllocateFreeMemblk State.start.quarantine.pool).isSome)
  refine ⟨m, pool, halloc, fun hm ↦ ?_⟩
  have hfst : (mcAllocateFreeMemblk State.start.quarantine.pool).map Prod.fst ≠ some 0 := by
    decide +kernel
  exact hfst (by rw [halloc, hm]; rfl)

/-- In a run in which metadata is there, every block has its callstacks. -/
theorem Reachable.attributed {s : State} (hs : Reachable s) (hsupply : .mmapFailed ∉ s.trace) :
    ∃ g, s.Inv g ∧ s.Attributed g := by
  obtain ⟨k, mem, hk, hrun⟩ := hs
  induction hrun with
  | refl => exact ⟨_, State.inv_init hk mem, by simp, by simp⟩
  | @tail t u hrun hstep ih =>
    obtain ⟨a, hok, hexec⟩ := hstep
    obtain ⟨g₀, hg₀⟩ := Reachable.inv ⟨k, mem, hk, hrun⟩
    obtain ⟨g, hg, hattr⟩ := ih fun hmem ↦
      hsupply ((hg₀.action_trace_prefix hok hexec).subset hmem)
    exact hg.action_attributed hattr hok hexec hsupply

end Memchk
