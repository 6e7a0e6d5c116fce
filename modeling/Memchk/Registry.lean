import Memchk.Library.Registry
import Memchk.CallCases
import Memchk.Difference

/-!
# The checker as a registry

What the checker is for: it knows of each block that the program has from which callstack it was
allocated and how large it is, and of the last `FREE_FIFO_SIZE` blocks that the program gave back
also from where it was freed, and it counts blocks and bytes. `State.books` reads this off the
nodes, by the search that the code itself uses and along the ring of freed blocks. Every call does
to the books what it should (`Call.ops`), and nothing else does anything to them
(`registry_refines`).

## The abstract side

A `Registry` of the library is a map from keys to what is known about them, with a bounded queue of
the entries that left it last. `Books` are a registry together with the counters; an operation
enters a block or removes one, and is not possible for a block that is there already, or is not
there.

## The refinement

`registry_refines` is about logged runs: to each run belongs the list of the operations of its
calls, and running that list on the empty books gives the books of the state that the run has
reached. It is proved step by step. An effect that records a block is an `enter`
(`Inv.books_recorded`), one that unregisters a block is a `leave` (`Inv.books_unregistered`), and
every other effect leaves the books alone (`books_congr`).

## The calls

`Call.ops` says what a call should do, from its arguments and its result alone: an allocation that
returns a pointer enters it, `free` of a live pointer removes it, and `realloc` does both. A call
that is passed on to the functions behind the hooks is no operation. The commands leave the books
alone: what they do is confined to tables that the books do not read.
-/

namespace Memchk

/-- Pointers, with the callstack and the size of the block, and with where it was freed from. -/
abbrev BlockRegistry := Registry ℕ (List ℕ × ℕ) (List ℕ)

/-- What happens to a block. -/
abbrev BlockOp := Registry.Op ℕ (List ℕ × ℕ) (List ℕ)

/-- What the checker knows of blocks, and what it has counted. -/
structure Books where
  registry : BlockRegistry
  counters : Counters

namespace Books

/-- Nothing has happened. -/
def empty : Books :=
  ⟨Registry.empty, ⟨0, 0, 0, 0, fun _ ↦ 0⟩⟩

/-- What an operation on a block does to the books, if it is possible. -/
def step (b : Books) (op : BlockOp) : Option Books :=
  (Registry.step freeFifoSize b.registry op).map fun r ↦ ⟨r, match op with
    | .enter _ v => b.counters.register v.2
    | .leave ptr _ => b.counters.unregister ((b.registry.live ptr).elim 0 Prod.snd)⟩

/-- A run of operations, if they are possible. -/
def run (ops : List BlockOp) (b : Books) : Option Books :=
  ops.foldlM step b

variable {b b' : Books}

theorem run_append (ops ops' : List BlockOp) (b : Books) :
    run (ops ++ ops') b = (run ops b).bind (run ops') :=
  List.foldlM_append

theorem run_singleton (op : BlockOp) (b : Books) : run [op] b = step b op := by
  rw [run, List.foldlM_cons]
  exact Option.bind_fun_some _

theorem registry_of_step {op : BlockOp} (h : step b op = some b') :
    Registry.step freeFifoSize b.registry op = some b'.registry := by
  obtain ⟨r, hr, rfl⟩ := Option.map_eq_some_iff.1 h
  exact hr

/-- The registry in the books goes its own way. -/
theorem registry_of_run {ops : List BlockOp} (h : run ops b = some b') :
    Registry.run freeFifoSize ops b.registry = some b'.registry := by
  induction ops generalizing b with
  | nil =>
    obtain rfl := Option.some.inj h
    rfl
  | cons op ops ih =>
    obtain ⟨b₁, hstep, hrun⟩ := Option.bind_eq_some_iff.1 h
    exact Option.bind_eq_some_iff.2 ⟨_, registry_of_step hstep, ih hrun⟩

end Books

/-- The nodes in `free_memblk_array`, oldest first. -/
def Quarantine.ring (q : Quarantine) : List ℕ :=
  ((List.range freeFifoSize).map fun i ↦
    q.freeMemblkArray ((q.freeFifoIdx + i) % freeFifoSize)).filter fun n ↦ n ≠ 0

namespace State

/-- What a node of the quarantine says of its block. -/
def freedOrigin (s : State) (n : ℕ) : ℕ × (List ℕ × ℕ) × List ℕ :=
  ((s.quarantine.record n).usrptr,
    (s.callstacks.traceOf (s.quarantine.record n).allocator,
    (s.quarantine.record n).memblk.usrsize),
    s.callstacks.traceOf (s.quarantine.record n).freer)

/-- What the checker knows of blocks. -/
def registry (s : State) : BlockRegistry where
  live ptr := (s.blocks.find .live ptr).bind fun n ↦ if n = 0 then none else some (s.origin n)
  gone := s.quarantine.ring.map s.freedOrigin

/-- The books of the checker. -/
def books (s : State) : Books :=
  ⟨s.registry, s.counters⟩

variable {s t : State} {g g' : Contents} {env : Env} {ptr n : ℕ} {v : List ℕ × ℕ}

theorem Inv.ring_eq (h : s.Inv g) : s.quarantine.ring = g.freed := by
  have hnull : 0 ∉ g.freed := fun hmem ↦ h.freed_ne_null hmem rfl
  rw [h.fifo.ring.eq_filter hnull, Quarantine.ring, h.fifo.idx]
  simp only [Nat.mod_add_mod]

theorem Inv.registry_gone (h : s.Inv g) : s.registry.gone = g.freed.map s.freedOrigin := by
  rw [registry, h.ring_eq]

theorem registry_live_eq (s : State) (ptr : ℕ) : s.registry.live ptr =
    (s.blocks.find .live ptr).bind fun n ↦ if n = 0 then none else some (s.origin n) :=
  rfl

theorem Inv.registry_live (h : s.Inv g) (hn : n ∈ g.nodes .live) :
    s.registry.live (s.blocks.record n).usrptr = some (s.origin n) := by
  rw [registry_live_eq, h.find_live hn, Option.bind_some, if_neg (h.blocks.ne_null hn)]

/-- Nothing is known about a pointer that no live block has. -/
theorem Inv.registry_live_eq_none (h : s.Inv g)
    (hnone : ∀ n ∈ g.nodes .live, (s.blocks.record n).usrptr ≠ ptr) :
    s.registry.live ptr = none := by
  rcases h.blocks.find .live ptr with ⟨-, hfind⟩ | ⟨n, hn, hkey, -⟩
  · rw [registry_live_eq, hfind, Option.bind_some, if_pos rfl]
  · exact absurd hkey (hnone n hn)

/-- Nothing is known about the null pointer. -/
theorem Inv.registry_live_null (h : s.Inv g) : s.registry.live 0 = none := by
  refine h.registry_live_eq_none fun n hn heq ↦ ?_
  have hbuf := h.heap.ne_null _ (h.guarded n hn).mem
  have hle := (h.guarded n hn).shape.le
  simp only at hbuf
  omega

/-- The registry knows the live blocks. -/
theorem Inv.registry_live_iff (h : s.Inv g) :
    s.registry.live ptr = some v ↔
      ∃ n ∈ g.nodes .live, (s.blocks.record n).usrptr = ptr ∧ s.origin n = v := by
  constructor
  · intro hlive
    by_contra hnone
    push Not at hnone
    rcases h.blocks.find .live ptr with ⟨hnot, -⟩ | ⟨n, hn, hkey, -⟩
    · rw [h.registry_live_eq_none hnot] at hlive
      exact absurd hlive (by simp)
    · rw [← hkey, h.registry_live hn, Option.some_inj] at hlive
      exact hnone n hn hkey hlive
  · rintro ⟨n, hn, rfl, rfl⟩
    exact h.registry_live hn

/-- The registry looks at the live blocks, the quarantine and the callstacks of both. -/
theorem Inv.registry_eq (hs : s.Inv g) (ht : t.Inv g')
    (hlive : ∀ n, n ∈ g'.nodes .live ↔ n ∈ g.nodes .live)
    (hrecord : ∀ n ∈ g.nodes .live, t.blocks.record n = s.blocks.record n)
    (hfreed : g'.freed = g.freed)
    (hfreedRecord : ∀ n ∈ g.freed, t.quarantine.record n = s.quarantine.record n)
    (htrace : ∀ c, c = 0 ∨ c ∈ g.callstacks → t.callstacks.traceOf c = s.callstacks.traceOf c) :
    t.registry = s.registry := by
  have horigin : ∀ n ∈ g.nodes .live, t.origin n = s.origin n := fun n hn ↦ by
    rw [origin, origin, hrecord n hn, htrace _ (hs.interned .live n hn)]
  have hsame : ∀ ptr, t.registry.live ptr = s.registry.live ptr := by
    refine fun ptr ↦ Option.ext fun v ↦ ?_
    rw [ht.registry_live_iff, hs.registry_live_iff]
    refine exists_congr fun n ↦ ?_
    rw [hlive]
    exact and_congr_right fun hn ↦ by rw [hrecord n hn, horigin n hn]
  have hgone : t.registry.gone = s.registry.gone := by
    rw [ht.registry_gone, hs.registry_gone, hfreed]
    refine List.map_congr_left fun n hn ↦ ?_
    obtain ⟨halloc, hfreer⟩ := hs.internedFreed n hn
    rw [freedOrigin, freedOrigin, hfreedRecord n hn, htrace _ halloc, htrace _ hfreer]
  exact congrArg₂ Registry.mk (funext hsame) hgone

/-! ### Blocks that come and go -/

/-- The registry is read off the blocks, the ring and the callstacks. -/
theorem registry_congr (hblocks : t.blocks = s.blocks) (hquarantine : t.quarantine = s.quarantine)
    (hcallstacks : t.callstacks = s.callstacks) : t.registry = s.registry := by
  have horigin : t.origin = s.origin := by
    funext n
    rw [origin, origin, hblocks, hcallstacks]
  have hfreed : t.freedOrigin = s.freedOrigin := by
    funext n
    rw [freedOrigin, freedOrigin, hquarantine, hcallstacks]
  rw [registry, registry, horigin, hfreed, hblocks, hquarantine]

/-- A block that is recorded is entered. -/
theorem Inv.registry_recorded (h : s.Inv g) {x : Memblk} {c : ℕ}
    (hrec : Recorded env x ptr s g n c t g') (hc : c ≠ 0) :
    Registry.step freeFifoSize s.registry
      (.enter ptr (env.allocFrames.take maxCallstackDepth, x.usrsize)) = some t.registry := by
  have hmem : ∀ {m}, m ∈ g'.nodes .live ↔ m = n ∨ m ∈ g.nodes .live := by
    intro m
    rw [hrec.nodes, Function.update_self, List.mem_cons]
  have hnew : n ∈ g'.nodes .live := hmem.2 (.inl rfl)
  have hkey : (t.blocks.record n).usrptr = ptr := by rw [hrec.record]
  have hold : ∀ m ∈ g.nodes .live, m ≠ n := fun m hm ↦ ne_of_mem_of_not_mem hm (hrec.notMem .live)
  have horigin : ∀ m ∈ g.nodes .live, t.origin m = s.origin m := fun m hm ↦ by
    rw [origin, origin, hrec.record_of_ne m (hold m hm),
      hrec.interned.traceOf_eq (h.interned .live m hm)]
  have hnewOrigin : t.origin n = (env.allocFrames.take maxCallstackDepth, x.usrsize) := by
    rw [origin, hrec.record, hrec.interned.traceOf_self hc]
  have hnone : s.registry.live ptr = none := by
    refine h.registry_live_eq_none fun m hm heq ↦ hold m hm ?_
    refine hrec.inv.live_inj (hmem.2 (.inr hm)) hnew ?_
    rw [hrec.record_of_ne m (hold m hm), heq, hkey]
  have hlive : ∀ q, t.registry.live q = Function.update s.registry.live ptr
      (some (env.allocFrames.take maxCallstackDepth, x.usrsize)) q := by
    intro q
    by_cases hq : q = ptr
    · subst hq
      rw [Function.update_self, ← hkey, hrec.inv.registry_live hnew, hnewOrigin]
    · rw [Function.update_of_ne hq]
      refine Option.ext fun v ↦ ?_
      rw [hrec.inv.registry_live_iff, h.registry_live_iff]
      constructor
      · rintro ⟨m, hm, rfl, rfl⟩
        rcases hmem.1 hm with rfl | hm
        · exact absurd hkey hq
        · exact ⟨m, hm, by rw [hrec.record_of_ne m (hold m hm)], (horigin m hm).symm⟩
      · rintro ⟨m, hm, rfl, rfl⟩
        exact ⟨m, hmem.2 (.inr hm), by rw [hrec.record_of_ne m (hold m hm)], horigin m hm⟩
  have hgone : t.registry.gone = s.registry.gone := by
    rw [hrec.inv.registry_gone, h.registry_gone, hrec.freed]
    refine List.map_congr_left fun m hm ↦ ?_
    obtain ⟨halloc, hfreer⟩ := h.internedFreed m hm
    rw [freedOrigin, freedOrigin, hrec.quarantine, hrec.interned.traceOf_eq halloc,
      hrec.interned.traceOf_eq hfreer]
  rw [Registry.step_enter hnone, Option.some_inj]
  exact (congrArg₂ Registry.mk (funext hlive) hgone).symm

/-- A block that goes to the quarantine leaves. -/
theorem Inv.registry_unregistered (h : s.Inv g) {new c : ℕ} {evicted : Option ℕ}
    {log evictLog : List Event} (hn : n ∈ g.nodes .live) (hkey : (s.blocks.record n).usrptr = ptr)
    (hun : Unregistered env ptr s g n new c evicted log evictLog t g') (hc : c ≠ 0) :
    Registry.step freeFifoSize s.registry (.leave ptr (env.freeFrames.take maxCallstackDepth)) =
      some t.registry := by
  have hnodup : (g.nodes .live).Nodup := (h.blocks.table .live).nodup
  have hmem : ∀ {m}, m ∈ g'.nodes .live ↔ m ≠ n ∧ m ∈ g.nodes .live := by
    intro m
    rw [hun.nodes, Function.update_self, hnodup.mem_erase_iff]
  have horigin : ∀ m ∈ g.nodes .live, t.origin m = s.origin m := fun m hm ↦ by
    rw [origin, origin, hun.record, hun.interned.traceOf_eq (h.interned .live m hm)]
  -- the pointer was that of one block only, so it is unknown once that block is gone
  have hlive : ∀ q, t.registry.live q = Function.update s.registry.live ptr none q := by
    intro q
    by_cases hq : q = ptr
    · subst hq
      rw [Function.update_self]
      refine hun.inv.registry_live_eq_none fun m hm heq ↦ (hmem.1 hm).1 ?_
      rw [hun.record] at heq
      exact h.live_inj (hmem.1 hm).2 hn (heq.trans hkey.symm)
    · rw [Function.update_of_ne hq]
      refine Option.ext fun v ↦ ?_
      rw [hun.inv.registry_live_iff, h.registry_live_iff, hun.record]
      constructor
      · rintro ⟨m, hm, hmkey, rfl⟩
        exact ⟨m, (hmem.1 hm).2, hmkey, (horigin m (hmem.1 hm).2).symm⟩
      · rintro ⟨m, hm, hmkey, rfl⟩
        refine ⟨m, hmem.2 ⟨?_, hm⟩, hmkey, horigin m hm⟩
        rintro rfl
        exact hq (hmkey.symm.trans hkey)
  have hfreed : ∀ m ∈ g.freed, t.freedOrigin m = s.freedOrigin m := fun m hm ↦ by
    obtain ⟨halloc, hfreer⟩ := h.internedFreed m hm
    rw [freedOrigin, freedOrigin, hun.freedRecord m (ne_of_mem_of_not_mem hm hun.notMem),
      hun.interned.traceOf_eq halloc, hun.interned.traceOf_eq hfreer]
  have hnew : t.freedOrigin new = (ptr, s.origin n, env.freeFrames.take maxCallstackDepth) := by
    rw [freedOrigin, hun.newRecord, hun.interned.traceOf_eq (h.interned .live n hn),
      hun.interned.traceOf_self hc]
    rfl
  have hall : (g.freed ++ [new]).map t.freedOrigin =
      s.registry.gone ++ [(ptr, s.origin n, env.freeFrames.take maxCallstackDepth)] := by
    rw [h.registry_gone, List.map_append, List.map_congr_left hfreed, List.map_singleton, hnew]
  -- the ring drops its first node exactly where the list would grow too long
  have hgone : t.registry.gone = (s.registry.gone ++
      [(ptr, s.origin n, env.freeFrames.take maxCallstackDepth)]).rtake freeFifoSize := by
    have hlen : g.freed.length = min freeFifoSize s.quarantine.freed.length := h.fifo.ring.length
    rw [hun.inv.registry_gone, ← hall, ← hun.freed, List.map_append, List.rtake, List.length_append,
      List.length_map, List.length_map]
    cases hold : evicted with
    | none =>
      have hnot := mt hun.evicted_iff.2 (by rw [hold]; simp)
      have hlen' := congrArg List.length hun.freed
      rw [hold] at hlen'
      simp only [Option.toList_none, List.nil_append, List.length_append,
        List.length_singleton] at hlen'
      rw [Option.toList_none, List.length_nil, List.map_nil, List.nil_append]
      have hzero : 0 + g'.freed.length - freeFifoSize = 0 := by omega
      rw [hzero, List.drop_zero]
    | some old =>
      have hfull := hun.evicted_iff.1 (by rw [hold]; rfl)
      have hlen' := congrArg List.length hun.freed
      rw [hold] at hlen'
      simp only [Option.toList_some, List.length_append, List.length_singleton] at hlen'
      have hone : [old].length + g'.freed.length - freeFifoSize = 1 := by
        rw [List.length_singleton]
        omega
      rw [Option.toList_some, hone]
      rfl
  rw [Registry.step_leave (hkey ▸ h.registry_live hn), Option.some_inj]
  exact (congrArg₂ Registry.mk (funext hlive) hgone).symm

theorem books_congr (hblocks : t.blocks = s.blocks) (hquarantine : t.quarantine = s.quarantine)
    (hcallstacks : t.callstacks = s.callstacks) (hcounters : t.counters = s.counters) :
    t.books = s.books := by
  rw [books, books, registry_congr hblocks hquarantine hcallstacks, hcounters]

/-- Recording a block enters it. -/
theorem Inv.books_recorded (h : s.Inv g) {x : Memblk} {c : ℕ}
    (hrec : Recorded env x ptr s g n c t g') (hc : c ≠ 0) :
    s.books.step (.enter ptr (env.allocFrames.take maxCallstackDepth, x.usrsize)) =
      some t.books := by
  rw [Books.step, books, h.registry_recorded hrec hc, Option.map_some, books, hrec.counters]

/-- Unregistering a block removes it. -/
theorem Inv.books_unregistered (h : s.Inv g) {new c : ℕ} {evicted : Option ℕ}
    {log evictLog : List Event} (hn : n ∈ g.nodes .live) (hkey : (s.blocks.record n).usrptr = ptr)
    (hun : Unregistered env ptr s g n new c evicted log evictLog t g') (hc : c ≠ 0) :
    s.books.step (.leave ptr (env.freeFrames.take maxCallstackDepth)) = some t.books := by
  have hlive := hkey ▸ h.registry_live hn
  rw [Books.step, books, h.registry_unregistered hn hkey hun hc, Option.map_some, books,
    hun.counters]
  simp only [hlive]
  rfl

/-- `free` with hooks enabled takes the pointer of a live block out of the registry, and no
other. -/
theorem Inv.books_hookFree (h : s.Inv g) (h0 : s.doNotHook = 0)
    (hexec : Hook.free env ptr s = some t) (hmapped : .mmapFailed ∉ t.trace) :
    Books.run (if (s.registry.live ptr).isSome then
      [.leave ptr (env.freeFrames.take maxCallstackDepth)] else []) s.books = some t.books := by
  rcases h.hookFree_cases h0 hexec with ⟨hnone, es, rfl, -⟩ |
    ⟨n, hn, hkey, rc, log, -, ⟨u, hdrop, rfl⟩ | ⟨new, c, evicted, evictLog, u, g', hun, rfl⟩⟩
  · rw [h.registry_live_eq_none hnone, Option.isSome_none, if_neg Bool.false_ne_true]
    exact congrArg some (books_congr rfl rfl rfl rfl).symm
  · rw [trace_giveBack, hdrop.trace] at hmapped
    simp at hmapped
  · have hc : c ≠ 0 := by
      rintro rfl
      rw [trace_giveBack, hun.trace] at hmapped
      simp at hmapped
    have hsome : (s.registry.live ptr).isSome := by
      rw [← hkey, h.registry_live hn]
      rfl
    have hback : (u.giveBack (s.evictedBuf evicted)).books = u.books :=
      books_congr (blocks_giveBack _) (quarantine_giveBack _) (callstacks_giveBack _)
        (counters_giveBack _)
    rw [if_pos hsome, Books.run_singleton, hback]
    exact h.books_unregistered hn hkey hun hc

/-! ### Commands -/

/-- Commands that leave the live blocks alone leave the books alone. -/
theorem Confined.books_eq {ids : List TableId} {L' : TableId → List ℕ} {es : List Event}
    (hc : Confined ids s g.nodes es t L') (h : s.Inv g) (hlive : .live ∉ ids) :
    t.books = s.books := by
  have hquarantine : t.quarantine = s.quarantine := by rw [hc.rest]
  have hcounters : t.counters = s.counters := by rw [hc.rest]
  refine congrArg₂ Books.mk ?_ hcounters
  refine h.registry_eq (h.confined hc hlive) (fun n ↦ ?_) (fun n hn ↦ ?_) rfl (fun n _ ↦ ?_)
    fun c _ ↦ ?_
  · simp only [hc.lists _ hlive]
  · exact (hc.sameAt h.blocks hlive hn).record_eq
  · rw [hquarantine]
  · rw [hc.callstacks.traceOf_eq]

/-- A command that is spared does not use the table of live blocks. -/
theorem Inv.confined_command (h : s.Inv g) (ht : s.Tidy g) {cenv : CommandEnv} {c : Command}
    {x : ℤ × State} (hrun : c.exec cenv s = some x) (hspared : c.Spared cenv s) :
    ∃ ids es L', TableId.live ∉ ids ∧ Confined ids s g.nodes es x.2 L' := by
  by_cases hc : c.isReport
  · obtain ⟨es, hconfined, -⟩ := h.report ht hc hrun hspared
    exact ⟨_, es, _, by decide, hconfined⟩
  cases c with
  | createSnapshot =>
    obtain ⟨new, ret, t, heq, hnew⟩ := createSnapshot_spec h.blocks
    obtain rfl : (ret, t) = x := Option.some.inj (heq.symm.trans hrun)
    obtain ⟨es, hconfined, -⟩ := hnew.confined
    exact ⟨_, es, _, by decide, hconfined⟩
  | destroySnapshot =>
    obtain rfl : (0, s.destroyed .snapshot) = x := by
      rw [Command.exec, mcDestroySnapshot, destroy_eq h.blocks] at hrun
      exact Option.some.inj hrun
    exact ⟨_, _, _, by decide, confined_destroyed h.blocks .snapshot⟩
  | printAllMemblk | printAllMemblkPerCallstack | compareWithSnapshot
  | compareWithSnapshotPerCallstack => exact absurd rfl hc

/-- A command that is spared leaves the books alone. -/
theorem Inv.books_command (h : s.Inv g) (ht : s.Tidy g) {cenv : CommandEnv} {c : Command}
    {x : ℤ × State} (hrun : c.exec cenv s = some x) (hspared : c.Spared cenv s) :
    x.2.books = s.books := by
  obtain ⟨ids, es, L', hlive, hconfined⟩ := h.confined_command ht hrun hspared
  exact hconfined.books_eq h hlive

end State

/-! ### Calls -/

namespace Call

/-- The block of which a call that has returned `p` has taken the pointer back. -/
def left (env : Env) (c : Call) (p : ℕ) (live : ℕ → Option (List ℕ × ℕ)) : List BlockOp :=
  match c.returned p with
  | none => []
  | some ptr =>
    if (live ptr).isSome then [.leave ptr (env.freeFrames.take maxCallstackDepth)] else []

/-- What a call that has returned `p` has done to blocks, if the blocks in `live` were live. -/
def ops (env : Env) (c : Call) (p : ℕ) (live : ℕ → Option (List ℕ × ℕ)) : List BlockOp :=
  (if p ≠ 0 then [.enter p (env.allocFrames.take maxCallstackDepth, c.payload)] else []) ++
    c.left env p live

variable {env : Env} {s t u : State} {g g' : Contents} {c : Call} {r : Request} {p : ℕ}

/-- A call that is rejected, or that frees. -/
theorem books_refuse (h : s.Inv g) (h0 : c.isAligned = false → s.doNotHook = 0)
    (hr : c.request s = none) (hexec : c.refuse env s = some (p, t))
    (hmapped : .mmapFailed ∉ t.trace) :
    Books.run (c.ops env p s.registry.live) s.books = some t.books := by
  have hfree : ∀ {ptr}, c.isAligned = false → c.returned 0 = some ptr →
      (Hook.free env ptr s).map (0, ·) = some (p, t) →
      Books.run (c.ops env p s.registry.live) s.books = some t.books := by
    intro ptr hfalse hret hmap
    obtain ⟨u, hfree, heq⟩ := Option.map_eq_some_iff.1 hmap
    simp only [Prod.mk.injEq] at heq
    obtain ⟨rfl, rfl⟩ := heq
    rw [ops, left, hret]
    exact h.books_hookFree (h0 hfalse) hfree hmapped
  have hquiet : c.returned 0 = none → ∀ {u : State}, u.books = s.books →
      some ((0 : ℕ), u) = some (p, t) →
      Books.run (c.ops env p s.registry.live) s.books = some t.books := by
    intro hret u hu heq
    obtain ⟨rfl, rfl⟩ := Prod.mk.inj (Option.some.inj heq)
    rw [ops, left, hret, hu]
    rfl
  cases c with
  | free ptr => exact hfree rfl rfl hexec
  | realloc ptr size =>
    rw [refuse] at hexec
    split_ifs at hexec with hsize
    · exact hfree rfl (if_pos (.inl hsize)) hexec
    · exact hquiet (u := s.emit [.message "realloc: oldsize = -1"]) (if_neg (by simp [hsize]))
        (State.books_congr rfl rfl rfl rfl) hexec
  | malloc _ | calloc _ _ | posixMemalign _ _ | alignedAlloc _ _ | memalign _ _ | valloc _
  | pvalloc _ => exact hquiet rfl rfl hexec

/-- A call whose pointers are unknown removes none. -/
theorem left_of_eq_none {live : ℕ → Option (List ℕ × ℕ)}
    (hret : ∀ ptr, c.returned p = some ptr → live ptr = none) : c.left env p live = [] := by
  rw [left]
  cases heq : c.returned p with
  | none => rfl
  | some ptr =>
    simp only
    rw [hret ptr heq, Option.isSome_none, if_neg Bool.false_ne_true]

/-- The rest of a call behind the service takes the block out of the books that `realloc` gives
back. -/
theorem books_finish (h : u.Inv g) (h0 : c.isAligned = false → u.doNotHook = 0)
    (hr : c.request s = some r) (hfin : c.finish env s (p, u) = some (p, t))
    (hmapped : .mmapFailed ∉ t.trace) :
    Books.run (c.left env p u.registry.live) u.books = some t.books := by
  obtain ⟨-, ⟨hret, mem, -, rfl⟩ | ⟨ptr, mem, -, hplain, hret, -, -, hfree⟩⟩ := finish_cases hr hfin
  · rw [left_of_eq_none fun ptr hptr ↦ hret ptr hptr ▸ h.registry_live_null]
    exact congrArg some (State.books_congr rfl rfl rfl rfl).symm
  · have hback := (h.withMem mem).books_hookFree (h0 hplain) hfree hmapped
    have hsame : ({ u with heap := { u.heap with mem := mem } } : State).books = u.books :=
      State.books_congr rfl rfl rfl rfl
    rw [hsame] at hback
    rw [left, hret]
    exact hback

/-- A call that enters a block leaves the block alone of which it takes the pointer back. -/
theorem left_enter (hr : c.request s = some r) (hfin : c.finish env s (p, u) = some (p, t))
    (h : s.Inv g) (hp : p ≠ 0) (hnone : s.registry.live p = none) {v : List ℕ × ℕ}
    (hu : u.registry.live = Function.update s.registry.live p (some v)) :
    c.left env p s.registry.live = c.left env p u.registry.live := by
  rw [left, left]
  cases hret : c.returned p with
  | none => rfl
  | some ptr =>
    have hne : ptr ≠ p := by
      obtain ⟨-, ⟨hzero, -⟩ | ⟨q, mem, -, -, hq, hold, -⟩⟩ := finish_cases hr hfin
      · exact (hzero ptr hret).trans_ne hp.symm
      · obtain rfl := Option.some.inj (hq.symm.trans hret)
        obtain ⟨n, hn, hkey⟩ := h.exists_of_realloc hold
        rintro rfl
        rw [← hkey, h.registry_live hn] at hnone
        cases hnone
    simp only
    rw [hu, Function.update_of_ne hne]

/-- With hooks enabled, a call that finds metadata does to the books what it should. -/
theorem refines (h : s.Inv g) (hmode : c.isAligned ∨ s.doNotHook = 0) (hc : c.InRange)
    (henv : c.EnvOk env s) (hexec : c.exec env s = some (p, t)) (hmapped : .mmapFailed ∉ t.trace) :
    Books.run (c.ops env p s.registry.live) s.books = some t.books := by
  have hplain : c.isAligned = false → s.doNotHook = 0 := fun hfalse ↦
    hmode.resolve_left (by rw [hfalse]; exact Bool.false_ne_true)
  rcases Call.cases h hmode hc henv.answer hexec with ⟨hr, hrefuse⟩ |
    ⟨r, u, g', hr, ha, hserved, hfin⟩
  · exact books_refuse h hplain hr hrefuse hmapped
  have hmode' : c.isAligned = false → u.doNotHook = 0 := fun hfalse ↦
    hserved.doNotHook.trans (hplain hfalse)
  have hrest := books_finish (hserved.inv h ha) hmode' hr hfin hmapped
  have hgrown := trace_finish (hserved.inv h ha) hmode' hr hfin
  have hsame : (s.origMalloc env r.bufsize).2.books = s.books := State.books_congr rfl rfl rfl rfl
  cases hserved with
  | refused hnull =>
    have hregistry : (s.origMalloc env r.bufsize).2.registry = s.registry :=
      congrArg Books.registry hsame
    rw [hsame, hregistry] at hrest
    rw [ops, if_neg (not_not_intro rfl), List.nil_append]
    exact hrest
  | unrecorded hne hun =>
    refine absurd (hgrown.subset ?_) hmapped
    rw [hun.trace]
    simp
  | recorded hne hrec =>
    have henter := (h.origMalloc ha).books_recorded hrec (by
      rintro rfl
      refine hmapped (hgrown.subset ?_)
      rw [hrec.trace]
      simp)
    rw [hsame] at henter
    have hp : r.place env.answer.addr ≠ 0 :=
      (Nat.pos_of_ne_zero hne |>.trans_le hrec.shape.le).ne'
    obtain ⟨hlive, hchange⟩ := Registry.live_of_step (Books.registry_of_step henter)
    have hnone : s.registry.live (r.place env.answer.addr) = none := by
      simp only [Registry.Op.key, Registry.Op.value, Option.isSome_some] at hchange
      exact Option.not_isSome_iff_eq_none.1 hchange
    rw [ops, if_pos hp, ← usrsize_of_request hr, left_enter hr hfin h hp hnone hlive,
      Books.run_append, Books.run_singleton]
    exact (congrArg (Option.bind · _) henter).trans hrest

end Call

/-! ### Runs -/

/-- What a step does to blocks, if those in `live` are live before. -/
def Step.ops (s : State) (live : ℕ → Option (List ℕ × ℕ)) : Step → List BlockOp
  | .action (.call env c) =>
    if c.isAligned ∨ s.doNotHook = 0 then
      ((c.exec env s).map fun x ↦ c.ops env x.1 live).getD []
    else []
  | _ => []

/-- A run, in which metadata is there, has done these operations to blocks and has led to the state.
What is live is told from the operations. -/
inductive Logged : List BlockOp → State → Prop
  | init {k : Kernel} {mem : ℕ → UInt8} (hk : k.Ok) : Logged [] (State.init k mem)
  | step {ops : List BlockOp} {s t : State} {a : Step} (h : Logged ops s) (hok : a.Ok s)
    (hexec : a.exec s = some t) (hmapped : .mmapFailed ∉ t.trace) :
    Logged (ops ++ a.ops s (Registry.current ops)) t

namespace State

variable {s t : State} {g : Contents} {a : Step}

/-- What is no call only changes the mode or the memory, or reports. -/
theorem sameNodes_of_exec {a : Action} (ha : ∀ env c, a ≠ .call env c) (hexec : a.exec s = some t) :
    s.SameNodes t := by
  cases a with
  | call env c => exact absurd rfl (ha env c)
  | disableHook =>
    obtain ⟨z, -, heq⟩ := Option.bind_eq_some_iff.1 hexec
    obtain rfl := Option.some.inj heq
    exact ⟨rfl, rfl, rfl, rfl, List.prefix_rfl⟩
  | checkAll =>
    rw [Action.exec, Option.map_eq_some_iff] at hexec
    obtain ⟨⟨ret, u⟩, hrun, rfl⟩ := hexec
    exact (same_of_mcCheckAllMemblk hrun).1
  | enableHook | store _ _ =>
    obtain rfl := Option.some.inj hexec
    exact ⟨rfl, rfl, rfl, rfl, List.prefix_rfl⟩

/-- A step does to the books what it does to blocks. -/
theorem Settled.books_step (h : s.Settled g) (hok : a.Ok s) (hexec : a.exec s = some t)
    (hmapped : .mmapFailed ∉ t.trace) :
    Books.run (a.ops s s.registry.live) s.books = some t.books := by
  have hquiet : a.ops s s.registry.live = [] → t.books = s.books →
      Books.run (a.ops s s.registry.live) s.books = some t.books := by
    intro hops heq
    rw [hops, heq]
    rfl
  have hsame : a.ops s s.registry.live = [] → s.SameNodes t →
      Books.run (a.ops s s.registry.live) s.books = some t.books :=
    fun hops hst ↦ hquiet hops (books_congr hst.blocks hst.quarantine hst.callstacks hst.counters)
  cases a with
  | action a =>
    rw [Step.exec] at hexec
    cases a with
    | call env c =>
      rw [Action.exec, Option.map_eq_some_iff] at hexec
      obtain ⟨⟨p, u⟩, hcall, rfl⟩ := hexec
      by_cases hmode : c.isAligned ∨ s.doNotHook = 0
      · have henv := hok.2
        rw [if_pos hmode] at henv
        rw [Step.ops, if_pos hmode, hcall]
        exact Call.refines h.inv hmode hok.1 henv hcall hmapped
      · refine hsame (if_neg hmode) ?_
        rw [not_or, Bool.not_eq_true] at hmode
        exact sameNodes_of_disabled hmode.2 hmode.1 hcall
    | disableHook | enableHook | checkAll | store _ _ =>
      exact hsame rfl (sameNodes_of_exec (by simp) hexec)
  | command cenv c =>
    obtain ⟨x, hrun, rfl⟩ := Option.map_eq_some_iff.1 hexec
    exact hquiet rfl (h.inv.books_command h.tidy hrun (h.inv.spared h.tidy hrun hmapped))

/-- At the start the books are empty. -/
theorem books_init {k : Kernel} (hk : k.Ok) (mem : ℕ → UInt8) :
    (State.init k mem).books = Books.empty := by
  have hinv := (settled_init hk mem).inv
  have hlive : ∀ ptr, (State.init k mem).registry.live ptr = none := fun ptr ↦
    hinv.registry_live_eq_none fun n hn ↦ absurd hn List.not_mem_nil
  exact congrArg₂ Books.mk (congrArg₂ Registry.mk (funext hlive) hinv.registry_gone) rfl

end State

/-- Every run in which metadata is there has done something to blocks. -/
theorem MappedReachable.logged {s : State} (hs : MappedReachable s) : ∃ ops, Logged ops s := by
  obtain ⟨k, mem, hk, hrun⟩ := hs
  induction hrun with
  | refl => exact ⟨[], .init hk⟩
  | tail _ hstep ih =>
    obtain ⟨ops, h⟩ := ih
    obtain ⟨a, hok, hexec, hmapped⟩ := hstep
    exact ⟨_, h.step hok hexec hmapped⟩

/-- A logged run is a run. -/
theorem Logged.mapped {ops : List BlockOp} {s : State} (h : Logged ops s) : MappedReachable s := by
  induction h with
  | init hk => exact ⟨_, _, hk, .refl⟩
  | step h hok hexec hmapped ih =>
    obtain ⟨k, mem, hk, hrun⟩ := ih
    exact ⟨k, mem, hk, hrun.tail ⟨_, hok, hexec, hmapped⟩⟩

/-- The books of the checker are what the operations of the run come to. -/
theorem Logged.run_eq {ops : List BlockOp} {s : State} (h : Logged ops s) :
    Books.run ops Books.empty = some s.books ∧ s.registry.live = Registry.current ops := by
  have hlive : ∀ {ops : List BlockOp} {s : State}, Books.run ops Books.empty = some s.books →
      s.registry.live = Registry.current ops := fun hrun ↦
    Registry.live_of_run (Books.registry_of_run hrun)
  suffices hrun : Books.run ops Books.empty = some s.books from ⟨hrun, hlive hrun⟩
  induction h with
  | init hk =>
    rw [State.books_init hk]
    rfl
  | step h hok hexec hmapped ih =>
    obtain ⟨g, hg⟩ := h.mapped.settled
    rw [Books.run_append, ih, Option.bind_some, ← hlive ih]
    exact hg.books_step hok hexec hmapped

/-- The checker refines a registry with counters: the search for live blocks finds what the last
operation on a pointer says, with the callstack and the size that it was entered with, and the ring
of freed blocks has those that left last. -/
theorem registry_refines {ops : List BlockOp} {s : State} (h : Logged ops s) :
    Books.run ops Books.empty = some s.books ∧ s.registry.live = Registry.current ops ∧
      ∀ ptr, (Registry.opsOn ptr ops).IsChain fun op op' ↦ op.value.isSome ≠ op'.value.isSome :=
  ⟨h.run_eq.1, h.run_eq.2, Registry.isChain_of_run (Books.registry_of_run h.run_eq.1)⟩

/-- A run with one allocation of 16 bytes. -/
theorem logged_oneBlock : ∃ (ops : List BlockOp) (s : State), Logged ops s ∧ s.doNotHook = 0 ∧
    s.registry.live 1048592 = some ([], 16) := by
  obtain ⟨s, g, n, c, hs, hc, h0, -, hrec⟩ := hookedReachable_oneBlock
  obtain ⟨ops, h⟩ := hs.mapped.logged
  have hn : n ∈ g.nodes .live := by
    rw [hrec.nodes, Function.update_self]
    exact List.mem_cons_self
  have hlive := hrec.inv.registry_live hn
  rw [State.origin, hrec.record, hrec.interned.traceOf_self hc] at hlive
  exact ⟨ops, s, h, h0, hlive⟩

/-- A run past an eviction: 129 blocks have gone, and the registry has the last 128 of them. -/
theorem registry_refines_evicted : ∃ (ops : List BlockOp) (s : State),
    s.quarantine.freed.length = 129 ∧ s.registry.gone.length = 128 ∧
      Books.run ops Books.empty = some s.books ∧ s.registry.live = Registry.current ops ∧
      ∀ ptr, (Registry.opsOn ptr ops).IsChain fun op op' ↦ op.value.isSome ≠ op'.value.isSome := by
  obtain ⟨s, g, hs, hinv, -, hfreed⟩ := hookedReachable_evicted
  obtain ⟨ops, h⟩ := hs.mapped.logged
  have hlen : g.freed.length = min freeFifoSize s.quarantine.freed.length := hinv.fifo.ring.length
  refine ⟨ops, s, hfreed, ?_, registry_refines h⟩
  rw [hinv.registry_gone, List.length_map, hlen, hfreed]
  rfl

end Memchk
