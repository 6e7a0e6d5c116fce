import Memchk.Invariant

/-!
# What registering a block does

`mc_register_memblk` for a buffer that the allocator has just handed out. It gives up if there is no
node for the block (`Unrecorded`), or makes the buffer a live block (`Recorded`), with a null
callstack if there is no node for that. Where the payload does not lie inside the buffer, it writes
outside the buffer.

## The three outcomes

`Unrecorded` leaves everything but the pool and the trace as it was. `Recorded` names the node and
the callstack, and says what was written: the node is in the live table, the counters count it, the
patterns are set, and every node that was there says what it said before. The third outcome is a
fault, and it cannot happen unless the size has wrapped around (`Memblk.Shape` fails).

## The invariant

A block that is recorded keeps the invariant of the checker, since its buffer is none of those that
blocks have. That is a hypothesis here, and comes from the promise of the function behind the hooks
at the place where the buffer was handed out.
-/

namespace Memchk

/-- Nothing of the block is recorded: a pool had no memory. -/
structure Unrecorded (s : State) (g : Contents) (s' : State) : Prop where
  inv : s'.Inv g
  failed : mcAllocateAllocMemblk s.blocks.pool = some (0, s'.blocks.pool)
  heap : s'.heap = s.heap
  doNotHook : s'.doNotHook = s.doNotHook
  record : s'.blocks.record = s.blocks.record
  callstacks : s'.callstacks = s.callstacks
  quarantine : s'.quarantine = s.quarantine
  counters : s'.counters = s.counters
  trace : s'.trace =
    s.trace ++ [.mmapFailed, .message "mc_allocate_alloc_memblk failed"]

/-- The block `x` with payload at `usrptr` is the live block `n` now, allocated from `c`. -/
structure Recorded (env : Env) (x : Memblk) (usrptr : ℕ) (s : State) (g : Contents) (n c : ℕ)
    (s' : State) (g' : Contents) : Prop where
  inv : s'.Inv g'
  allocated : mcAllocateAllocMemblk s.blocks.pool = some (n, s'.blocks.pool)
  got : mcGetCallstack env.allocFrames s.callstacks = some (c, s'.callstacks)
  nodes : g'.nodes = Function.update g.nodes .live (n :: g.nodes .live)
  freed : g'.freed = g.freed
  notMem : ∀ id, n ∉ g.nodes id
  shape : x.Shape usrptr
  record : s'.blocks.record n = ⟨usrptr, x, c⟩
  record_of_ne : ∀ m, m ≠ n → s'.blocks.record m = s.blocks.record m
  interned : Callstacks.Interned env.allocFrames s.callstacks g.callstacks c s'.callstacks
    g'.callstacks
  heap : s'.heap = { s.heap with mem := armed x usrptr true s.heap.mem }
  doNotHook : s'.doNotHook = s.doNotHook
  quarantine : s'.quarantine = s.quarantine
  counters : s'.counters = s.counters.register x.usrsize
  trace : s'.trace = s.trace ++ if c = 0 then [.mmapFailed] else []

namespace State

/-- What a block is recorded as does not change with a frame. -/
theorem Inv.freedBlock_eq {s s' : State} {g : Contents} {frames ns' : List ℕ} {c : ℕ} (h : s.Inv g)
    (hcs : Callstacks.Interned frames s.callstacks g.callstacks c s'.callstacks ns') {n : ℕ}
    (hn : n ∈ g.freed) (hrecord : s'.quarantine.record n = s.quarantine.record n) :
    s'.freedBlock n = s.freedBlock n := by
  obtain ⟨halloc, hfreer⟩ := h.internedFreed n hn
  simp only [freedBlock, hrecord, hcs.traceOf_eq halloc, hcs.traceOf_eq hfreer]

/-- The pool of the blocks may change as long as the tables hold the same nodes. -/
theorem Inv.withPool {s : State} {g : Contents} (h : s.Inv g) {pool : Pool}
    (hblocks : ({ s.blocks with pool := pool } : Blocks).Holds g.nodes) :
    ({ s with blocks := { s.blocks with pool := pool } } : State).Inv g :=
  { h with blocks := hblocks }

/-- A block with a fresh buffer is added to the live ones. -/
theorem Inv.register_inv {s : State} {g : Contents} (h : s.Inv g) {x : Memblk} {usrptr n c : ℕ}
    {frames ns' : List ℕ} {s' : State}
    (hcs : Callstacks.Interned frames s.callstacks g.callstacks c s'.callstacks ns')
    (hholds : s'.blocks.Holds (Function.update g.nodes .live (n :: g.nodes .live)))
    (hn : ∀ id, n ∉ g.nodes id) (hrecord : s'.blocks.record n = ⟨usrptr, x, c⟩)
    (hrest : ∀ m, m ≠ n → s'.blocks.record m = s.blocks.record m)
    (hquarantine : s'.quarantine = s.quarantine)
    (houtstanding : s'.heap.outstanding = s.heap.outstanding)
    (hguarded : Guarded s.heap x usrptr) (hfresh : x.buf ∉ s.liveBufs g ++ s.freedBufs g) :
    s'.Inv ⟨Function.update g.nodes .live (n :: g.nodes .live), g.freed, ns'⟩ := by
  have hok : s'.heap.Ok :=
    ⟨houtstanding ▸ h.heap.ne_null, houtstanding ▸ h.heap.end_le, houtstanding ▸ h.heap.apart⟩
  have hold : ∀ id, ∀ m ∈ g.nodes id, s'.blocks.record m = s.blocks.record m := fun id m hm ↦
    hrest m (ne_of_mem_of_not_mem hm (hn id))
  have hkeep : ∀ {y : Memblk} {p : ℕ}, Guarded s.heap y p → Guarded s'.heap y p := fun hy ↦
    hy.of_outstanding fun hmem ↦ houtstanding ▸ hmem
  refine ⟨hholds, hquarantine ▸ h.quarantine, hquarantine ▸ h.fifo, hcs.holds, hok, fun m hm ↦ ?_,
    fun m hm ↦ ?_, ?_, fun id m hm ↦ ?_, fun m hm ↦ ?_, ?_⟩
  · simp only [Function.update_self] at hm
    rcases List.mem_cons.1 hm with rfl | hm
    · rw [hrecord]
      exact hkeep hguarded
    · rw [hold .live m hm]
      exact hkeep (h.guarded m hm)
  · rw [hquarantine]
    exact hkeep (h.guardedFreed m hm)
  · have hlive : (g.nodes .live).map (fun m ↦ (s'.blocks.record m).memblk.buf) =
        s.liveBufs g := List.map_congr_left fun m hm ↦ by rw [hold .live m hm]
    simp only [liveBufs, freedBufs, Function.update_self, List.map_cons, hrecord, hquarantine]
    rw [hlive, List.cons_append]
    exact List.nodup_cons.2 ⟨hfresh, h.bufs⟩
  · by_cases hid : id = .live
    · subst hid
      simp only [Function.update_self] at hm
      rcases List.mem_cons.1 hm with rfl | hm
      · rw [hrecord]
        exact hcs.result.imp_right And.left
      · rw [hold .live m hm]
        exact hcs.mem_of_mem (h.interned .live m hm)
    · simp only [Function.update_of_ne hid] at hm
      rw [hold id m hm]
      exact hcs.mem_of_mem (h.interned id m hm)
  · rw [hquarantine]
    exact (h.internedFreed m hm).imp hcs.mem_of_mem hcs.mem_of_mem
  · rw [hquarantine, ← h.history]
    exact List.map_congr_left fun m hm ↦ h.freedBlock_eq hcs hm (by rw [hquarantine])

section Register

variable {s : State} {g : Contents} {env : Env} {x : Memblk} {usrptr : ℕ}

/-- `mc_register_memblk`, in all its outcomes. -/
theorem Inv.register (h : s.Inv g) (hbuf : (x.buf, x.bufsize) ∈ s.heap.outstanding)
    (husr : usrptr < 18446744073709551616) (hsize : x.usrsize < 18446744073709551616)
    (hlt : x.Shape usrptr → usrptr < x.buf + x.bufsize)
    (hfresh : x.buf ∉ s.liveBufs g ++ s.freedBufs g) :
    (∃ s', mcRegisterMemblk env x.buf usrptr x.bufsize x.usrsize s = some (-1, s') ∧
        Unrecorded s g s') ∨
      ¬x.Shape usrptr ∧ mcRegisterMemblk env x.buf usrptr x.bufsize x.usrsize s = none ∨
      ∃ s' g' n c, mcRegisterMemblk env x.buf usrptr x.bufsize x.usrsize s = some (0, s') ∧
        Recorded env x usrptr s g n c s' g' := by
  obtain ⟨n, pool, halloc, hholds, hcases⟩ := h.blocks.allocate
  have hinv := h.withPool hholds
  rcases hcases with ⟨rfl, -⟩ | ⟨hdet, -, -⟩
  · let t := ({ s with blocks := { s.blocks with pool := pool } } : State).emit
      [.mmapFailed, .message "mc_allocate_alloc_memblk failed"]
    refine .inl ⟨t, ?_, hinv.of_heap rfl rfl rfl h.heap (fun _ _ _ _ ↦ id) fun _ _ _ _ ↦ id,
      halloc, rfl, rfl, rfl, rfl, rfl, rfl, rfl⟩
    rw [mcRegisterMemblk, halloc]
    rfl
  · -- there is a node; whether there is a callstack does not matter
    obtain ⟨c, cs', ns', hget, hcs⟩ := h.callstacks.intern env.allocFrames
    have hne := hdet.ne_null
    by_cases hshape : x.Shape usrptr
    · -- the payload lies in the buffer: the block is recorded
      have hset := @mcSetAllocatedBuffer_eq _ _ true _ h.heap hbuf hshape
      have hfill := hholds.fill hdet.notMem x usrptr c
      have hadd := hfill.add (n := n) ⟨hne, hdet.live, hdet.notMem⟩ .live
      let t := ({ s with
        heap := { s.heap with mem := armed x usrptr true s.heap.mem }
        blocks := (({ s.blocks with pool := pool } : Blocks).fill n x usrptr c).add .live n
        callstacks := cs'
        counters := s.counters.register x.usrsize } : State).emitFailure c
      have hself : t.blocks.record n = ⟨usrptr, x, c⟩ :=
        (Blocks.record_add n).trans Blocks.record_fill_self
      have hrest : ∀ m, m ≠ n → t.blocks.record m = s.blocks.record m := fun m hm ↦
        (Blocks.record_add m).trans (Blocks.record_fill_of_ne hm)
      refine .inr (.inr ⟨t, _, n, c, ?_,
        @Inv.register_inv _ _ h _ _ _ _ _ _ t hcs hadd hdet.notMem hself hrest rfl
        rfl ⟨hbuf, hshape, hlt hshape⟩ hfresh, halloc, hget, rfl, rfl, hdet.notMem, hshape, hself,
        hrest, hcs, rfl,
        rfl, rfl, rfl, rfl⟩)
      rw [mcRegisterMemblk, halloc]
      simp only [Option.bind_eq_bind, Option.bind_some, if_neg hne, hget, emitFailure, emit, hset]
      rfl
    · refine .inr (.inl ⟨hshape, ?_⟩)
      have hset : mcSetAllocatedBuffer x usrptr true s.heap = none := by
        cases hset : mcSetAllocatedBuffer x usrptr true s.heap with
        | none => rfl
        | some k => exact absurd (shape_of_mcSetAllocatedBuffer h.heap hbuf husr hsize hset) hshape
      rw [mcRegisterMemblk, halloc]
      simp only [Option.bind_eq_bind, Option.bind_some, if_neg hne, hget, emitFailure, emit, hset]
      rfl

end Register

end State

end Memchk
