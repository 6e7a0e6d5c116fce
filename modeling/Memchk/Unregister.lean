import Memchk.Register

/-!
# What unregistering a block does

`mc_unregister_memblk` for any pointer. It rejects a pointer that belongs to no live block with a
report; it drops the block if there is no node to keep it in quarantine (`Dropped`); otherwise the
block goes to the quarantine, and the one that has been there longest leaves it (`Unregistered`).
The checks it makes on the way read a callstack if they have damage to report, and fault if that
callstack is null.

## A pointer that belongs to no live block

The search in the live table gives null, and the table of freed blocks decides which report is
logged. Nothing else changes.

## From the live table to the ring

The block is checked and its counters are taken off; its node is removed from the table and given
back, and a node for the ring is filled with its record and the two callstacks. `Entered` is the
state at that point, with one block more in the ring than it will have: the invariant holds of it
(`Inv.enter`), but for the length of the ring.

## The block that leaves

If the ring was full, the block that was overwritten is looked up, checked, removed and given back;
its buffer is what the caller frees. `Entered.unregistered` is the case in which nothing leaves, and
`Entered.evict` the one in which a block does. The evicted node is the first of the list of the ring
before, by the lemma on pushing.
-/

namespace Memchk

/-- The live block `n` is gone, but not in the quarantine: its pool had no memory. -/
structure Dropped (usrptr : ℕ) (s : State) (g : Contents) (n : ℕ) (log : List Event) (s' : State) :
    Prop where
  inv : s'.Inv ⟨Function.update g.nodes .live ((g.nodes .live).erase n), g.freed, g.callstacks⟩
  failed : mcAllocateFreeMemblk s.quarantine.pool = some (0, s'.quarantine.pool)
  record : s'.blocks.record = s.blocks.record
  freedRecord : s'.quarantine.record = s.quarantine.record
  history : s'.quarantine.freed = s.quarantine.freed
  callstacks : s'.callstacks = s.callstacks
  heap : s'.heap = s.heap
  doNotHook : s'.doNotHook = s.doNotHook
  counters : s'.counters = s.counters
  trace : s'.trace = s.trace ++ (log ++ [.mmapFailed])

/-- The live block `n` is the block `new` of the quarantine now, freed from `c`, and the block
`evicted` has left it. -/
structure Unregistered (env : Env) (usrptr : ℕ) (s : State) (g : Contents) (n new c : ℕ)
    (evicted : Option ℕ) (log evictLog : List Event) (s' : State) (g' : Contents) : Prop where
  inv : s'.Inv g'
  allocated : ∃ pool, mcAllocateFreeMemblk s.quarantine.pool = some (new, pool) ∧
    (evicted = none → s'.quarantine.pool = pool)
  pool : s'.blocks.pool = mcFreeAllocMemblk n s.blocks.pool
  got : mcGetCallstack env.freeFrames s.callstacks = some (c, s'.callstacks)
  nodes : g'.nodes = Function.update g.nodes .live ((g.nodes .live).erase n)
  notMem : new ∉ g.freed
  freed : evicted.toList ++ g'.freed = g.freed ++ [new]
  evicted_iff : evicted.isSome ↔ freeFifoSize ≤ s.quarantine.freed.length
  record : s'.blocks.record = s.blocks.record
  newRecord : s'.quarantine.record new =
    ⟨usrptr, (s.blocks.record n).memblk, (s.blocks.record n).allocator, c⟩
  freedRecord : ∀ m, m ≠ new → s'.quarantine.record m = s.quarantine.record m
  interned : Callstacks.Interned env.freeFrames s.callstacks g.callstacks c s'.callstacks
    g'.callstacks
  history : s'.quarantine.freed = s.quarantine.freed ++ [⟨usrptr, (s.blocks.record n).memblk,
    s'.callstacks.traceOf (s.blocks.record n).allocator, s'.callstacks.traceOf c⟩]
  heap : s'.heap = { s.heap with mem := poisoned (s.blocks.record n).memblk s.heap.mem }
  doNotHook : s'.doNotHook = s.doNotHook
  counters : s'.counters = s.counters.unregister (s.blocks.record n).memblk.usrsize
  trace : s'.trace = s.trace ++ (log ++ ((if c = 0 then [.mmapFailed] else []) ++ evictLog))
  evictCheck : ∀ old ∈ evicted, ∃ rc, mcCheckFreedBuffer (s.quarantine.record old).memblk
    (s.quarantine.record old).usrptr (s'.printCallstack (s.quarantine.record old).allocator 2)
    (s'.printCallstack (s.quarantine.record old).freer 2) s'.heap = some (rc, evictLog)
  evictLog_eq_nil : evicted = none → evictLog = []

namespace State

variable {s s' : State} {g : Contents} {env : Env} {usrptr b m n new c : ℕ}

/-- The buffer of the block that leaves the quarantine, null if none does. -/
def evictedBuf (s : State) (evicted : Option ℕ) : ℕ :=
  evicted.elim 0 fun old ↦ (s.quarantine.record old).memblk.buf

/-! ### A pointer that belongs to no live block -/

/-- The report on a pointer that belongs to no live block. -/
theorem Inv.handleIllegallyFreedBuffer (h : s.Inv g) (env : Env) (usrptr : ℕ) :
    (∀ n ∈ g.freed, (s.quarantine.record n).usrptr ≠ usrptr) ∧
        handleIllegallyFreedBuffer env usrptr s =
          some (s.emit [.illegalFree usrptr (env.printCurrentCallstack 3)]) ∨
      ∃ n ∈ g.freed, (s.quarantine.record n).usrptr = usrptr ∧
        handleIllegallyFreedBuffer env usrptr s = do
          let allocTrace ← s.printCallstack (s.quarantine.record n).allocator 2
          let freeTrace ← s.printCallstack (s.quarantine.record n).freer 2
          return s.emit [.doubleFree usrptr, .allocatedFrom allocTrace, .freedFrom freeTrace,
            .thenBeingFreedFrom (env.printCurrentCallstack 3)] := by
  rcases h.quarantine.find usrptr with ⟨hnone, hfind⟩ | ⟨n, hn, hkey, hfind⟩
  · refine .inl ⟨hnone, ?_⟩
    rw [Memchk.handleIllegallyFreedBuffer, hfind]
    rfl
  · refine .inr ⟨n, hn, hkey, ?_⟩
    rw [Memchk.handleIllegallyFreedBuffer, hfind]
    simp only [Option.bind_eq_bind, Option.bind_some, if_neg (h.freed_ne_null hn)]
    rfl

/-! ### The invariant when a block changes its place -/

/-- A node that is still in a table was in it. -/
theorem mem_of_mem_update_erase {nodes : TableId → List ℕ} {id id' : TableId}
    (hm : m ∈ Function.update nodes id ((nodes id).erase n) id') : m ∈ nodes id' := by
  by_cases hid : id' = id
  · subst hid
    rw [Function.update_self] at hm
    exact List.mem_of_mem_erase hm
  · rwa [Function.update_of_ne hid] at hm

/-- A live block is taken out of its table and its node is given back. -/
theorem Inv.drop_inv (h : s.Inv g) (hholds : s'.blocks.Holds
      (Function.update g.nodes .live ((g.nodes .live).erase n)))
    (hrecord : s'.blocks.record = s.blocks.record) (hquarantine : s'.quarantine.Holds g.freed)
    (hfifo : s'.quarantine.Fifo g.freed) (hfreed : s'.quarantine.record = s.quarantine.record)
    (hhistory : s'.quarantine.freed = s.quarantine.freed)
    (hcallstacks : s'.callstacks = s.callstacks) (hheap : s'.heap = s.heap) :
    s'.Inv ⟨Function.update g.nodes .live ((g.nodes .live).erase n), g.freed, g.callstacks⟩ := by
  have hsub : ∀ id, ∀ m ∈ Function.update g.nodes .live ((g.nodes .live).erase n) id,
      m ∈ g.nodes id := fun _ _ ↦ mem_of_mem_update_erase
  have hfb : s'.freedBlock = s.freedBlock := by
    funext k
    simp only [freedBlock, hfreed, hcallstacks]
  refine ⟨hholds, hquarantine, hfifo, hcallstacks ▸ h.callstacks, hheap ▸ h.heap, fun m hm ↦ ?_,
    fun m hm ↦ ?_, ?_, fun id m hm ↦ ?_, fun m hm ↦ ?_, ?_⟩
  · rw [hrecord, hheap]
    exact h.guarded m (hsub .live m hm)
  · rw [hfreed, hheap]
    exact h.guardedFreed m hm
  · simp only [liveBufs, freedBufs, hrecord, hfreed, Function.update_self]
    exact h.bufs.sublist ((List.erase_sublist.map _).append (List.Sublist.refl _))
  · rw [hrecord]
    exact h.interned id m (hsub id m hm)
  · rw [hfreed]
    exact h.internedFreed m hm
  · rw [hfb, hhistory]
    exact h.history

/-- A live block goes to the quarantine, and the oldest one may leave it. -/
theorem Inv.quarantine_inv (h : s.Inv g) {frames ns' rest : List ℕ} {evicted : Option ℕ}
    (hn : n ∈ g.nodes .live) (hsplit : g.freed = evicted.toList ++ rest) (hnew : new ∉ g.freed)
    (hcs : Callstacks.Interned frames s.callstacks g.callstacks c s'.callstacks ns')
    (hholds : s'.blocks.Holds (Function.update g.nodes .live ((g.nodes .live).erase n)))
    (hrecord : s'.blocks.record = s.blocks.record)
    (hquarantine : s'.quarantine.Holds (rest ++ [new]))
    (hfifo : s'.quarantine.Fifo (rest ++ [new]))
    (hself : s'.quarantine.record new = ⟨(s.blocks.record n).usrptr, (s.blocks.record n).memblk,
      (s.blocks.record n).allocator, c⟩)
    (hrest : ∀ m, m ≠ new → s'.quarantine.record m = s.quarantine.record m)
    (hhistory : s'.quarantine.freed = s.quarantine.freed ++ [⟨(s.blocks.record n).usrptr,
      (s.blocks.record n).memblk, s'.callstacks.traceOf (s.blocks.record n).allocator,
      s'.callstacks.traceOf c⟩])
    (houtstanding : s'.heap.outstanding = s.heap.outstanding) :
    s'.Inv ⟨Function.update g.nodes .live ((g.nodes .live).erase n), rest ++ [new], ns'⟩ := by
  -- no buffer is handed out or given back on the way
  have hok : s'.heap.Ok :=
    ⟨houtstanding ▸ h.heap.ne_null, houtstanding ▸ h.heap.end_le, houtstanding ▸ h.heap.apart⟩
  have hkeep : ∀ {y : Memblk} {p : ℕ}, Guarded s.heap y p → Guarded s'.heap y p := fun hy ↦
    hy.of_outstanding fun hmem ↦ houtstanding ▸ hmem
  have hsub : ∀ id, ∀ m ∈ Function.update g.nodes .live ((g.nodes .live).erase n) id,
      m ∈ g.nodes id := fun _ _ ↦ mem_of_mem_update_erase
  have hmem : ∀ m ∈ rest, m ∈ g.freed := fun m hm ↦ hsplit ▸ List.mem_append_right _ hm
  have hold : ∀ m ∈ rest, s'.quarantine.record m = s.quarantine.record m := fun m hm ↦
    hrest m (ne_of_mem_of_not_mem (hmem m hm) hnew)
  refine ⟨hholds, hquarantine, hfifo, hcs.holds, hok, fun m hm ↦ ?_, fun m hm ↦ ?_, ?_,
    fun id m hm ↦ ?_, fun m hm ↦ ?_, ?_⟩
  · rw [hrecord]
    exact hkeep (h.guarded m (hsub .live m hm))
  · rcases List.mem_append.1 hm with hm | hm
    · rw [hold m hm]
      exact hkeep (h.guardedFreed m (hmem m hm))
    · rw [List.mem_singleton.1 hm, hself]
      exact hkeep (h.guarded n hn)
  · -- the buffers are those of before, in another order, less the one of the block that leaves
    have hlive : (s.liveBufs g).Perm ((s.blocks.record n).memblk.buf ::
        ((g.nodes .live).erase n).map fun m ↦ (s.blocks.record m).memblk.buf) :=
      (List.perm_cons_erase hn).map _
    have hfreed : (rest.map fun m ↦ (s.quarantine.record m).memblk.buf).Sublist
        (s.freedBufs g) := by
      rw [freedBufs, hsplit]
      exact (List.sublist_append_right _ _).map _
    have hnodup := ((hlive.append_right _).nodup_iff.1 h.bufs).sublist
      ((List.Sublist.refl _).append hfreed)
    have hmap : rest.map (fun m ↦ (s'.quarantine.record m).memblk.buf) =
        rest.map fun m ↦ (s.quarantine.record m).memblk.buf :=
      List.map_congr_left fun m hm ↦ by rw [hold m hm]
    simp only [liveBufs, freedBufs, hrecord, Function.update_self, List.map_append, List.map_cons,
      List.map_nil, hmap, hself]
    rw [← List.append_assoc]
    exact (List.perm_append_singleton _ _).nodup_iff.2 hnodup
  · rw [hrecord]
    exact hcs.mem_of_mem (h.interned id m (hsub id m hm))
  · rcases List.mem_append.1 hm with hm | hm
    · rw [hold m hm]
      exact (h.internedFreed m (hmem m hm)).imp hcs.mem_of_mem hcs.mem_of_mem
    · rw [List.mem_singleton.1 hm, hself]
      exact ⟨hcs.mem_of_mem (h.interned .live n hn), hcs.result.imp_right And.left⟩
  · -- the history gets the new block at its end, and `rest` is its tail without it
    have hlast : s'.freedBlock new = ⟨(s.blocks.record n).usrptr, (s.blocks.record n).memblk,
        s'.callstacks.traceOf (s.blocks.record n).allocator, s'.callstacks.traceOf c⟩ := by
      rw [freedBlock, hself]
    have hmap : rest.map s'.freedBlock = rest.map s.freedBlock := List.map_congr_left fun m hm ↦
      h.freedBlock_eq hcs (hmem m hm) (hold m hm)
    have hhist := h.history
    rw [hsplit, List.map_append] at hhist
    have hdrop : rest.map s.freedBlock =
        s.quarantine.freed.drop (s.quarantine.freed.length - rest.length) := by
      have := congrArg (List.drop (evicted.toList.map s.freedBlock).length) hhist
      rw [List.drop_left, List.drop_drop] at this
      rw [this]
      congr 1
      have hlen : (evicted.toList ++ rest).length ≤ s.quarantine.freed.length := by
        rw [← hsplit, h.fifo.ring.length]
        exact Nat.min_le_right _ _
      rw [List.length_append] at hlen ⊢
      rw [List.length_map]
      omega
    rw [List.map_append, hmap, hhistory, List.map_singleton, hlast, hdrop, List.length_append,
      List.length_append, List.length_singleton, List.length_singleton, Nat.add_sub_add_right,
      List.drop_append_of_le_length (Nat.sub_le _ _)]

/-! ### The call -/

theorem printCallstack_of_ne {from_ : ℕ} (hc : c ≠ 0) :
    s.printCallstack c from_ = some ((s.callstacks.traceOf c).drop from_) := by
  rw [printCallstack, if_neg hc, Callstacks.traceOf, if_neg hc]

theorem isSome_printCallstack (from_ : ℕ) (hc : c ≠ 0) : (s.printCallstack c from_).isSome := by
  rw [printCallstack_of_ne hc]
  rfl

/-- The block `old` leaves the quarantine, or its check has a null callstack to print. -/
theorem evictMemblk_spec {old : ℕ} {ns : List ℕ} (hholds : s.quarantine.Holds ns) (hold : old ∈ ns)
    (huniq : ∀ m ∈ ns, (s.quarantine.record m).usrptr = (s.quarantine.record old).usrptr → m = old)
    (hend : (s.quarantine.record old).memblk.buf + (s.quarantine.record old).memblk.bufsize ≤
      9223372036854775808) :
    (¬(s.quarantine.record old).memblk.Poisoned s.heap.mem ∧
        ((s.quarantine.record old).allocator = 0 ∨ (s.quarantine.record old).freer = 0)) ∧
        evictMemblk old s = none ∨
      ∃ rc log q, mcCheckFreedBuffer (s.quarantine.record old).memblk
      (s.quarantine.record old).usrptr
          (s.printCallstack (s.quarantine.record old).allocator 2)
          (s.printCallstack (s.quarantine.record old).freer 2) s.heap = some (rc, log) ∧
        evictMemblk old s = some ((s.quarantine.record old).memblk.buf,
          { s with quarantine := q }.emit log) ∧
        q.Holds (ns.erase old) ∧ q.record = s.quarantine.record ∧
        q.freed = s.quarantine.freed ∧ q.freeMemblkArray = s.quarantine.freeMemblkArray ∧
        q.freeFifoIdx = s.quarantine.freeFifoIdx := by
  obtain ⟨q, hremove, hq, hrecord, hfreed, harray, hidx⟩ := hholds.remove_free hold huniq
  cases hcheck : mcCheckFreedBuffer (s.quarantine.record old).memblk
      (s.quarantine.record old).usrptr (s.printCallstack (s.quarantine.record old).allocator 2)
      (s.printCallstack (s.quarantine.record old).freer 2) s.heap with
  | none =>
    refine .inl ⟨⟨fun hpoisoned ↦ ?_, ?_⟩, ?_⟩
    · rw [mcCheckFreedBuffer_of_poisoned hend hpoisoned] at hcheck
      exact absurd hcheck (by simp)
    · by_contra hne
      rw [not_or] at hne
      have hsome := @mcCheckFreedBuffer_isSome _ (s.quarantine.record old).usrptr s.heap hend _ _
        (isSome_printCallstack (s := s) 2 hne.1) (isSome_printCallstack (s := s) 2 hne.2)
      rw [hcheck] at hsome
      exact absurd hsome (by decide)
    · change (mcCheckFreedBuffer (s.quarantine.record old).memblk (s.quarantine.record old).usrptr
        (s.printCallstack (s.quarantine.record old).allocator 2)
        (s.printCallstack (s.quarantine.record old).freer 2) s.heap >>= _) = none
      rw [hcheck]
      rfl
  | some r =>
    obtain ⟨rc, log⟩ := r
    refine .inr ⟨rc, log, q.free old, rfl, ?_, hq, hrecord, hfreed, harray, hidx⟩
    change (mcCheckFreedBuffer (s.quarantine.record old).memblk (s.quarantine.record old).usrptr
      (s.printCallstack (s.quarantine.record old).allocator 2)
      (s.printCallstack (s.quarantine.record old).freer 2) s.heap >>= _) = _
    rw [hcheck]
    change (s.quarantine.remove (s.quarantine.record old).usrptr >>= _) = _
    rw [hremove]
    rfl

/-- The block `node` becomes the freed block `new`. -/
theorem quarantineMemblk_eq {node : ℕ} {heap : Heap} {cs' : Callstacks}
    (hget : mcGetCallstack env.freeFrames s.callstacks = some (c, cs'))
    (hset : mcSetFreedBuffer (s.blocks.memblk node) s.heap = some heap) :
    quarantineMemblk env node new s =
      let r := ((s.quarantine.fill new (s.blocks.memblk node) (s.blocks.memptr node)
        (s.blocks.allocator node) c).add new).pushFifo new
          ⟨(s.blocks.memptr node).ptr, s.blocks.memblk node,
            cs'.traceOf (s.blocks.allocator node), cs'.traceOf c⟩
      some (r.1, { s with
        callstacks := cs'
        heap := heap
        quarantine := r.2
        blocks := s.blocks.free node
        counters := s.counters.unregister (s.blocks.memblk node).usrsize }.emitFailure c) := by
  simp only [quarantineMemblk, hget, hset, Option.bind_eq_bind, Option.bind_some]
  rfl

/-- `mc_unregister_memblk` for the pointer of the live block `n`, behind the removal from the
table. -/
theorem mcUnregisterMemblk_eq {b' : Blocks} (hremove : s.blocks.remove .live usrptr = some (n, b'))
    (hne : n ≠ 0) (hrecord : b'.record = s.blocks.record)
    (hkey : (s.blocks.record n).usrptr = usrptr) :
    mcUnregisterMemblk env usrptr b s = do
      let (_, log) ← mcCheckAllocatedBuffer (s.blocks.record n).memblk usrptr
        (s.printCallstack (s.blocks.record n).allocator 2)
        (some (env.printCurrentCallstack 3)) s.heap
      let (new, pool) ← mcAllocateFreeMemblk s.quarantine.pool
      let s₁ := { s with
        blocks := b'
        quarantine := { s.quarantine with pool := pool } }.emit log
      if new = 0 then
        return (-1, b, { s₁ with blocks := s₁.blocks.free n }.emit [.mmapFailed])
      let (old, s₂) ← quarantineMemblk env n new s₁
      if old ≠ 0 then
        let (buf, s₃) ← evictMemblk old s₂
        return (0, buf, s₃)
      return (0, 0, s₂) := by
  have hmemblk : b'.memblk n = (s.blocks.record n).memblk := by
    rw [← congrFun hrecord n]
    rfl
  have hptr : (b'.memptr n).ptr = usrptr := by
    rw [← hkey, ← congrFun hrecord n]
    rfl
  have halloc : b'.allocator n = (s.blocks.record n).allocator := by
    rw [← congrFun hrecord n]
    rfl
  rw [mcUnregisterMemblk, hremove]
  simp only [Option.bind_eq_bind, Option.bind_some, if_neg hne, hmemblk, hptr, halloc]
  rfl

/-- Without a node for the quarantine the block is dropped. -/
theorem Inv.dropped (h : s.Inv g) {b' : Blocks} {pool : Pool} {log : List Event}
    (hfailed : mcAllocateFreeMemblk s.quarantine.pool = some (0, pool))
    (hblocks : (b'.free n).Holds (Function.update g.nodes .live ((g.nodes .live).erase n)))
    (hrecord : b'.record = s.blocks.record)
    (hq : ({ s.quarantine with pool := pool } : Quarantine).Holds g.freed) {t : State}
    (ht : t = { s with
      blocks := b'.free n
      quarantine := { s.quarantine with pool := pool }
      trace := s.trace ++ (log ++ [.mmapFailed]) }) : Dropped usrptr s g n log t := by
  subst ht
  have hrecord' : (b'.free n).record = s.blocks.record := Blocks.record_free.trans hrecord
  exact ⟨h.drop_inv hblocks hrecord' hq (h.fifo.congr rfl rfl rfl) rfl rfl rfl rfl,
    hfailed, hrecord',
    rfl, rfl, rfl, rfl, rfl, rfl, rfl⟩

/-- `quarantineMemblk` has made the block `n` the freed block `new`, and the oldest block has not
left the quarantine yet. -/
structure Entered (env : Env) (usrptr : ℕ) (s : State) (g : Contents) (n new c : ℕ)
    (log : List Event) (ns' : List ℕ) (u : State) : Prop where
  allocated : mcAllocateFreeMemblk s.quarantine.pool = some (new, u.quarantine.pool)
  blocks : u.blocks.Holds (Function.update g.nodes .live ((g.nodes .live).erase n))
  pool : u.blocks.pool = mcFreeAllocMemblk n s.blocks.pool
  record : u.blocks.record = s.blocks.record
  got : mcGetCallstack env.freeFrames s.callstacks = some (c, u.callstacks)
  interned : Callstacks.Interned env.freeFrames s.callstacks g.callstacks c u.callstacks ns'
  quarantine : u.quarantine.Holds (new :: g.freed)
  notMem : new ∉ g.freed
  newRecord : u.quarantine.record new =
    ⟨usrptr, (s.blocks.record n).memblk, (s.blocks.record n).allocator, c⟩
  freedRecord : ∀ m, m ≠ new → u.quarantine.record m = s.quarantine.record m
  history : u.quarantine.freed = s.quarantine.freed ++ [⟨usrptr, (s.blocks.record n).memblk,
    u.callstacks.traceOf (s.blocks.record n).allocator, u.callstacks.traceOf c⟩]
  heap : u.heap = { s.heap with mem := poisoned (s.blocks.record n).memblk s.heap.mem }
  doNotHook : u.doNotHook = s.doNotHook
  counters : u.counters = s.counters.unregister (s.blocks.record n).memblk.usrsize
  trace : u.trace = s.trace ++ (log ++ if c = 0 then [.mmapFailed] else [])

/-- With a node `new` the block enters the quarantine. As long as this is not full there is no block
to leave it. -/
theorem Inv.enter (h : s.Inv g) (env : Env) (log : List Event) (hn : n ∈ g.nodes .live)
    (hkey : (s.blocks.record n).usrptr = usrptr) {b' : Blocks} {pool : Pool}
    (hallocate : mcAllocateFreeMemblk s.quarantine.pool = some (new, pool))
    (hblocks : (b'.free n).Holds (Function.update g.nodes .live ((g.nodes .live).erase n)))
    (hrecord : b'.record = s.blocks.record) (hbpool : b'.pool = s.blocks.pool)
    (hq : ({ s.quarantine with pool := pool } : Quarantine).Holds g.freed)
    (hdet : ({ s.quarantine with pool := pool } : Quarantine).Detached g.freed new) :
    let s₁ := { s with
      blocks := b'
      quarantine := { s.quarantine with pool := pool } }.emit log
    ∃ old c ns' u, quarantineMemblk env n new s₁ = some (old, u) ∧
      Entered env usrptr s g n new c log ns' u ∧
      s.quarantine.freeMemblkArray s.quarantine.freeFifoIdx = old ∧
      (s.quarantine.freed.length < freeFifoSize ∧ old = 0 ∧ u.quarantine.Fifo (g.freed ++ [new]) ∨
        freeFifoSize ≤ s.quarantine.freed.length ∧ ∃ rest, g.freed = old :: rest ∧
          u.quarantine.Fifo (rest ++ [new])) := by
  intro s₁
  obtain ⟨c, cs', ns', hget, hcs⟩ := h.callstacks.intern env.freeFrames
  have hmemblk : b'.memblk n = (s.blocks.record n).memblk := by
    rw [← congrFun hrecord n]
    rfl
  have hptr : (b'.memptr n).ptr = usrptr := by
    rw [← hkey, ← congrFun hrecord n]
    rfl
  have halloc : b'.allocator n = (s.blocks.record n).allocator := by
    rw [← congrFun hrecord n]
    rfl
  have hset := mcSetFreedBuffer_eq (h.guarded n hn).mem
  rw [← hmemblk] at hset
  -- the quarantine with the new block, before the ring has it
  obtain ⟨q, hqdef⟩ : ∃ q, q = (({ s.quarantine with pool := pool } : Quarantine).fill new
    (b'.memblk n) (b'.memptr n) (b'.allocator n) c).add new := ⟨_, rfl⟩
  obtain ⟨x, hxdef⟩ : ∃ x : FreedBlock, x = ⟨(b'.memptr n).ptr, b'.memblk n,
    cs'.traceOf (b'.allocator n), cs'.traceOf c⟩ := ⟨_, rfl⟩
  have hadd : q.Holds (new :: g.freed) := by
    rw [hqdef]
    exact hq.add_fill hdet (b'.memblk n) (b'.memptr n) (b'.allocator n) c
  have hself : q.record new =
      ⟨usrptr, (s.blocks.record n).memblk, (s.blocks.record n).allocator, c⟩ := by
    rw [hqdef, Quarantine.record_add_fill_self, hptr, hmemblk, halloc]
  have hother : ∀ m, m ≠ new → q.record m = s.quarantine.record m := by
    intro m hm
    rw [hqdef, Quarantine.record_add_fill_of_ne hm]
    rfl
  have hfifo : q.Fifo g.freed := by
    rw [hqdef]
    exact h.fifo.congr rfl rfl rfl
  have hqfreed : q.freed = s.quarantine.freed := by
    rw [hqdef]
    rfl
  have hqpool : q.pool = pool := by
    rw [hqdef]
    rfl
  obtain ⟨u, hudef⟩ : ∃ u : State, u = { s with
    callstacks := cs'
    heap := { s.heap with mem := poisoned (b'.memblk n) s.heap.mem }
    quarantine := (q.pushFifo new x).2
    blocks := b'.free n
    counters := s.counters.unregister (b'.memblk n).usrsize
    trace := s.trace ++ log ++ if c = 0 then [.mmapFailed] else [] } := ⟨_, rfl⟩
  have hrun : quarantineMemblk env n new s₁ = some ((q.pushFifo new x).1, u) := by
    rw [quarantineMemblk_eq (s := s₁) hget hset, hudef, hqdef, hxdef]
    rfl
  rw [hmemblk, hptr, halloc] at hxdef
  rw [hmemblk] at hudef
  have huquarantine : u.quarantine = (q.pushFifo new x).2 := by rw [hudef]
  have hufreed : u.quarantine.freed = s.quarantine.freed ++ [x] := by
    rw [huquarantine, ← hqfreed]
    rfl
  have hucallstacks : u.callstacks = cs' := by rw [hudef]
  refine ⟨(q.pushFifo new x).1, c, ns', u, hrun, ?_, by rw [hqdef]; rfl, ?_⟩
  · refine ⟨?_, ?_, ?_, ?_, ?_, ?_, ?_, hdet.notMem, ?_, fun m hm ↦ ?_, ?_, ?_, ?_, ?_, ?_⟩
    · rw [hallocate, huquarantine, ← hqpool]
      rfl
    · rw [hudef]
      exact hblocks
    · rw [hudef, ← hbpool]
      rfl
    · rw [hudef]
      exact Blocks.record_free.trans hrecord
    · rw [hucallstacks, hget]
    · rw [hucallstacks]
      exact hcs
    · rw [huquarantine]
      exact hadd.congr rfl rfl
    · rw [huquarantine]
      exact hself
    · rw [huquarantine]
      exact hother m hm
    · rw [hufreed, hxdef, hucallstacks]
    · rw [hudef]
    · rw [hudef]
    · rw [hudef]
    · rw [hudef, List.append_assoc]
  · rw [huquarantine, ← hqfreed]
    exact hfifo.push new x

/-- Whatever leaves the quarantine, `q` is the quarantine after it. -/
theorem Entered.unregistered {log : List Event} {ns' : List ℕ} {u : State}
    (hu : Entered env usrptr s g n new c log ns' u) (h : s.Inv g) (hn : n ∈ g.nodes .live)
    (hkey : (s.blocks.record n).usrptr = usrptr) {q : Quarantine} {evicted : Option ℕ}
    {rest : List ℕ} {evictLog : List Event} (hsplit : g.freed = evicted.toList ++ rest)
    (hholds : q.Holds (rest ++ [new])) (hfifo : q.Fifo (rest ++ [new]))
    (hrecord : q.record = u.quarantine.record) (hfreed : q.freed = u.quarantine.freed)
    (hpool : evicted = none → q.pool = u.quarantine.pool)
    (hiff : evicted.isSome ↔ freeFifoSize ≤ s.quarantine.freed.length)
    (hcheck : ∀ old ∈ evicted, ∃ rc, mcCheckFreedBuffer (s.quarantine.record old).memblk
      (s.quarantine.record old).usrptr (u.printCallstack (s.quarantine.record old).allocator 2)
      (u.printCallstack (s.quarantine.record old).freer 2) u.heap = some (rc, evictLog))
    (hnil : evicted = none → evictLog = []) :
    Unregistered env usrptr s g n new c evicted log evictLog
      ({ u with quarantine := q }.emit evictLog)
      ⟨Function.update g.nodes .live ((g.nodes .live).erase n), rest ++ [new], ns'⟩ := by
  have hself : q.record new =
      ⟨usrptr, (s.blocks.record n).memblk, (s.blocks.record n).allocator, c⟩ := by
    rw [hrecord, hu.newRecord]
  have hother : ∀ m, m ≠ new → q.record m = s.quarantine.record m := fun m hm ↦ by
    rw [hrecord, hu.freedRecord m hm]
  have hhistory : q.freed = s.quarantine.freed ++ [⟨usrptr, (s.blocks.record n).memblk,
      u.callstacks.traceOf (s.blocks.record n).allocator, u.callstacks.traceOf c⟩] := by
    rw [hfreed, hu.history]
  have houtstanding : u.heap.outstanding = s.heap.outstanding := by rw [hu.heap]
  refine ⟨h.quarantine_inv hn hsplit hu.notMem hu.interned hu.blocks hu.record hholds
    hfifo ?_ hother
    ?_ houtstanding, ⟨_, hu.allocated, hpool⟩, hu.pool, hu.got, rfl, hu.notMem, ?_, hiff, hu.record,
    hself, hother, hu.interned, hhistory, hu.heap, hu.doNotHook, hu.counters, ?_, hcheck, hnil⟩
  · rw [hkey]
    exact hself
  · rw [hkey]
    exact hhistory
  · rw [hsplit, List.append_assoc]
  · simp only [emit, hu.trace, List.append_assoc]

/-- A block `old` leaves the quarantine, or its check has a null callstack to print. -/
theorem Entered.evict {log : List Event} {ns' : List ℕ} {u : State}
    (hu : Entered env usrptr s g n new c log ns' u) (h : s.Inv g) (hn : n ∈ g.nodes .live)
    (hkey : (s.blocks.record n).usrptr = usrptr) {old : ℕ} (hold : old ∈ g.freed) :
    (¬(s.quarantine.record old).memblk.Poisoned s.heap.mem ∧
        ((s.quarantine.record old).allocator = 0 ∨ (s.quarantine.record old).freer = 0)) ∧
        evictMemblk old u = none ∨
      ∃ rc evictLog q, mcCheckFreedBuffer (s.quarantine.record old).memblk
          (s.quarantine.record old).usrptr (u.printCallstack (s.quarantine.record old).allocator 2)
          (u.printCallstack (s.quarantine.record old).freer 2) u.heap = some (rc, evictLog) ∧
        evictMemblk old u = some ((s.quarantine.record old).memblk.buf,
          { u with quarantine := q }.emit evictLog) ∧
        q.Holds ((new :: g.freed).erase old) ∧ q.record = u.quarantine.record ∧
        q.freed = u.quarantine.freed ∧ q.freeMemblkArray = u.quarantine.freeMemblkArray ∧
        q.freeFifoIdx = u.quarantine.freeFifoIdx := by
  have hrecord : u.quarantine.record old = s.quarantine.record old :=
    hu.freedRecord old (ne_of_mem_of_not_mem hold hu.notMem)
  -- the pointer of the new block was live until now
  have huniq : ∀ m ∈ new :: g.freed,
      (u.quarantine.record m).usrptr = (u.quarantine.record old).usrptr → m = old := by
    intro m hm heq
    rw [hrecord] at heq
    rcases List.mem_cons.1 hm with rfl | hm
    · rw [hu.newRecord, ← hkey] at heq
      exact absurd heq (h.usrptr_ne hn hold)
    · rw [hu.freedRecord m (ne_of_mem_of_not_mem hm hu.notMem)] at heq
      exact h.freed_inj hm hold heq
  have hend := (h.guardedFreed old hold).end_le h.heap
  have hspec := evictMemblk_spec hu.quarantine (List.mem_cons_of_mem _ hold) huniq (hrecord ▸ hend)
  rw [hrecord] at hspec
  refine hspec.imp_left (And.imp_left (And.imp_left fun hdamaged hpoisoned ↦ hdamaged ?_))
  -- the buffer of the block that has just entered is a different one
  have hapart := (h.guarded n hn).apart h.heap (h.guardedFreed old hold) (h.buf_ne hn hold)
  intro y hy hy'
  rw [hu.heap]
  exact (poisoned_of_notMem _ (by omega)).trans (hpoisoned y hy hy')

/-- With a node `new` the block goes to the quarantine, unless the check of the block that leaves it
has a null callstack to print. -/
theorem Inv.quarantined (h : s.Inv g) (env : Env) (log : List Event) (hn : n ∈ g.nodes .live)
    (hkey : (s.blocks.record n).usrptr = usrptr) {b' : Blocks} {pool : Pool}
    (hallocate : mcAllocateFreeMemblk s.quarantine.pool = some (new, pool))
    (hblocks : (b'.free n).Holds (Function.update g.nodes .live ((g.nodes .live).erase n)))
    (hrecord : b'.record = s.blocks.record) (hbpool : b'.pool = s.blocks.pool)
    (hq : ({ s.quarantine with pool := pool } : Quarantine).Holds g.freed)
    (hdet : ({ s.quarantine with pool := pool } : Quarantine).Detached g.freed new) :
    let s₁ := { s with
      blocks := b'
      quarantine := { s.quarantine with pool := pool } }.emit log
    let run := do
      let (old, s₂) ← quarantineMemblk env n new s₁
      if old ≠ 0 then
        let (buf, s₃) ← evictMemblk old s₂
        return ((0 : ℤ), buf, s₃)
      return (0, 0, s₂)
    (∃ old ∈ g.freed, s.quarantine.freeMemblkArray s.quarantine.freeFifoIdx = old ∧
        ¬(s.quarantine.record old).memblk.Poisoned s.heap.mem ∧
        ((s.quarantine.record old).allocator = 0 ∨ (s.quarantine.record old).freer = 0)) ∧
        run = none ∨
      ∃ c evicted evictLog t g', run = some (0, s.evictedBuf evicted, t) ∧
        Unregistered env usrptr s g n new c evicted log evictLog t g' := by
  intro s₁ run
  obtain ⟨old, c, ns', u, hrun, hu, hslot, hcases⟩ :=
    h.enter env log hn hkey hallocate hblocks hrecord hbpool hq hdet
  simp only [run, s₁, hrun, Option.bind_eq_bind, Option.bind_some]
  rcases hcases with ⟨hlt, hzero, hfifo⟩ | ⟨hle, rest, hrest, hfifo⟩
  · -- the quarantine is not full yet
    have hsplit : g.freed = Option.toList none ++ g.freed := rfl
    have hholds : u.quarantine.Holds (g.freed ++ [new]) :=
      hu.quarantine.perm (List.perm_append_singleton _ _).symm
    refine .inr ⟨c, none, [], _, _, ?_, hu.unregistered h hn hkey hsplit hholds hfifo rfl rfl
      (fun _ ↦ rfl) ?_ (by simp) (fun _ ↦ rfl)⟩
    · rw [if_neg (not_not_intro hzero)]
      simp only [emit, List.append_nil]
      rfl
    · simp only [Option.isSome_none, Bool.false_eq_true, false_iff, not_le]
      exact hlt
  · -- the oldest block leaves
    have hold : old ∈ g.freed := hrest ▸ List.mem_cons_self
    have hne : old ≠ new := ne_of_mem_of_not_mem hold hu.notMem
    rw [if_pos (h.freed_ne_null hold)]
    rcases hu.evict h hn hkey hold with
      ⟨hnull, hnone⟩ | ⟨rc, evictLog, q, hcheck, hevict, hq', hrecord', hfreed, harray, hidx⟩
    · refine .inl ⟨⟨old, hold, hslot, hnull⟩, ?_⟩
      rw [hnone]
      rfl
    · refine .inr ⟨c, some old, evictLog, _, _, ?_, hu.unregistered h hn hkey (q := q) hrest ?_
        (hfifo.congr hfreed harray hidx) hrecord' hfreed (by simp) ?_ ?_ (by simp)⟩
      · rw [hevict]
        rfl
      · rw [hrest, List.erase_cons_tail (by simpa using hne.symm), List.erase_cons_head] at hq'
        exact hq'.perm (List.perm_append_singleton _ _).symm
      · simp only [Option.isSome_some, true_iff]
        exact hle
      · intro m hm
        obtain rfl := Option.mem_some_iff.1 hm
        exact ⟨rc, hcheck⟩

/-- `mc_unregister_memblk`, in all its outcomes. -/
theorem Inv.unregister (h : s.Inv g) (env : Env) (usrptr b : ℕ) :
    (∀ n ∈ g.nodes .live, (s.blocks.record n).usrptr ≠ usrptr) ∧
        mcUnregisterMemblk env usrptr b s =
          (Memchk.handleIllegallyFreedBuffer env usrptr s).map (fun t ↦ (-1, 0, t)) ∨
      ∃ n ∈ g.nodes .live, (s.blocks.record n).usrptr = usrptr ∧
        ((mcCheckAllocatedBuffer (s.blocks.record n).memblk usrptr
              (s.printCallstack (s.blocks.record n).allocator 2)
              (some (env.printCurrentCallstack 3)) s.heap = none ∧
            (s.blocks.record n).allocator = 0) ∧ mcUnregisterMemblk env usrptr b s = none ∨
          ∃ rc log, mcCheckAllocatedBuffer (s.blocks.record n).memblk usrptr
              (s.printCallstack (s.blocks.record n).allocator 2)
              (some (env.printCurrentCallstack 3)) s.heap = some (rc, log) ∧
            ((∃ t, mcUnregisterMemblk env usrptr b s = some (-1, b, t) ∧
                Dropped usrptr s g n log t) ∨
              ((∃ m pool, mcAllocateFreeMemblk s.quarantine.pool = some (m, pool) ∧ m ≠ 0) ∧
                ∃ old ∈ g.freed, s.quarantine.freeMemblkArray s.quarantine.freeFifoIdx = old ∧
                  ¬(s.quarantine.record old).memblk.Poisoned s.heap.mem ∧
                  ((s.quarantine.record old).allocator = 0 ∨
                    (s.quarantine.record old).freer = 0)) ∧
                mcUnregisterMemblk env usrptr b s = none ∨
              ∃ new c evicted evictLog t g',
                mcUnregisterMemblk env usrptr b s = some (0, s.evictedBuf evicted, t) ∧
                Unregistered env usrptr s g n new c evicted log evictLog t g')) := by
  rcases h.blocks.remove .live usrptr with ⟨hnone, -, hremove⟩ |
    ⟨n, hn, b', hkey, -, hremove, hholds, hdet, hrecord, hpool, -, -, -⟩
  · refine .inl ⟨hnone, ?_⟩
    rw [mcUnregisterMemblk, hremove]
    simp only [Option.bind_eq_bind, Option.bind_some, if_true]
    cases Memchk.handleIllegallyFreedBuffer env usrptr s <;> rfl
  refine .inr ⟨n, hn, hkey, ?_⟩
  have hfree := (hholds.free hdet).1
  rw [mcUnregisterMemblk_eq hremove (h.blocks.ne_null hn) hrecord hkey]
  cases hcheck : mcCheckAllocatedBuffer (s.blocks.record n).memblk usrptr
      (s.printCallstack (s.blocks.record n).allocator 2) (some (env.printCurrentCallstack 3))
      s.heap with
  | none =>
    refine .inl ⟨⟨rfl, ?_⟩, rfl⟩
    by_contra hnull
    have hsome := @mcCheckAllocatedBuffer_isSome (s.blocks.record n).memblk usrptr s.heap _
      (some (env.printCurrentCallstack 3)) (isSome_printCallstack (s := s) 2 hnull)
    rw [hcheck] at hsome
    exact absurd hsome (by decide)
  | some r =>
    obtain ⟨rc, log⟩ := r
    refine .inr ⟨rc, log, rfl, ?_⟩
    obtain ⟨new, pool, hallocate, hq, hcases⟩ := h.quarantine.allocate
    simp only [Option.bind_eq_bind, Option.bind_some, hallocate]
    rcases hcases with rfl | hdet'
    · refine .inl ⟨_, rfl, h.dropped hallocate hfree hrecord hq ?_⟩
      simp only [emit, List.append_assoc]
    · rw [if_neg hdet'.ne_null]
      rcases h.quarantined env log hn hkey hallocate hfree hrecord hpool hq hdet' with
        ⟨hnull, hnone⟩ | ⟨c, evicted, evictLog, t, g', hrun, hun⟩
      · exact .inr (.inl ⟨⟨⟨new, pool, rfl, hdet'.ne_null⟩, hnull⟩, hnone⟩)
      · exact .inr (.inr ⟨new, c, evicted, evictLog, t, g', hrun, hun⟩)

end State

end Memchk
