import Memchk.Copies
import Memchk.HookedRun

/-!
# What `free` makes of a pointer

`free` takes a pointer for that of a live block, of a block that was freed already, or of neither.
Which of these it is depends on the whole history: a block freed is known as long as it is one of
the last `FREE_FIFO_SIZE`, and as its buffer is not given back before, no live block has its
pointer. In every state that a run reaches with metadata there, `free` succeeds for the pointers of
live blocks only, and otherwise just reports (`free_classified`).

## The three cases

`State.LivePtr` and `State.FreedPtr` are the first two cases, said in terms of what a search in the
tables finds. Under the invariant they are what one expects, a live block or one of the ring with
this pointer (`Inv.livePtr_iff`, `Inv.freedPtr_iff`), and they exclude each other.

`FreeClassified` is what `free` does in each of them. A live pointer is unregistered, and its block
becomes the newest of the ring with the two callstacks recorded. For a pointer freed before, the
report names the callstack that allocated it and the one that freed it. For a pointer that is not
known the report names where `free` was called. In the last two cases the state differs in the trace
only.
-/

namespace Memchk

namespace State

/-- The program has the pointer of a live block. -/
def LivePtr (p : ℕ) (s : State) : Prop :=
  ∃ n ∈ s.blocks.tableNodes .live, (s.blocks.record n).usrptr = p

/-- The last blocks freed. -/
def lastFreed (s : State) : List FreedBlock :=
  s.quarantine.freed.drop (s.quarantine.freed.length - freeFifoSize)

/-- The pointer is that of one of the last blocks freed. -/
def FreedPtr (p : ℕ) (s : State) : Prop :=
  ∃ x ∈ s.lastFreed, x.usrptr = p

/-- What was added to the trace. -/
def added (s t : State) : List Event :=
  t.trace.drop s.trace.length

end State

/-- The report on a pointer to a block that was freed already. -/
def doubleFreeReport (env : Env) (x : FreedBlock) : List Event :=
  [.doubleFree x.usrptr, .allocatedFrom (x.allocTrace.drop 2), .freedFrom (x.freeTrace.drop 2),
    .thenBeingFreedFrom (env.printCurrentCallstack 3)]

/-- The report on a pointer that was never handed out, or to a block freed long ago. -/
def illegalFreeReport (env : Env) (p : ℕ) : List Event :=
  [.illegalFree p (env.printCurrentCallstack 3)]

/-- What is expected of `free p` with the result `ret` of `mc_unregister_memblk`: it succeeds,
reports a double free or reports an illegal one exactly where it should; on success the block is the
last one freed, and a report is all that there is if it does not succeed. -/
structure FreeClassified (env : Env) (p : ℕ) (s : State) (ret : ℤ) (t : State) : Prop where
  succeeds : ret = 0 ↔ s.LivePtr p
  doubleFree : .doubleFree p ∈ s.added t ↔ ¬s.LivePtr p ∧ s.FreedPtr p
  illegalFree : (∃ trace, .illegalFree p trace ∈ s.added t) ↔ ¬s.LivePtr p ∧ ¬s.FreedPtr p
  live : s.LivePtr p → ¬t.LivePtr p ∧ ∃ x, t.quarantine.freed = s.quarantine.freed ++
    [x] ∧ x.usrptr = p
  freed : ¬s.LivePtr p → ∀ x ∈ s.lastFreed, x.usrptr = p → t = s.emit (doubleFreeReport env x)
  unknown : ¬s.LivePtr p → ¬s.FreedPtr p → t = s.emit (illegalFreeReport env p)

namespace State

variable {s t : State} {g g' : Contents} {env : Env} {p : ℕ}

theorem Inv.livePtr_iff (h : s.Inv g) :
    s.LivePtr p ↔ ∃ n ∈ g.nodes .live, (s.blocks.record n).usrptr = p := by
  simp only [LivePtr, h.blocks.mem_tableNodes]

/-- The last blocks freed are those in the quarantine. -/
theorem Inv.lastFreed_eq (h : s.Inv g) : s.lastFreed = g.freed.map s.freedBlock := by
  have hlen : s.quarantine.freed.length - freeFifoSize =
      s.quarantine.freed.length - g.freed.length := by
    rw [h.fifo.ring.length]
    omega
  rw [h.history, lastFreed, hlen]

theorem Inv.freedPtr_iff (h : s.Inv g) :
    s.FreedPtr p ↔ ∃ n ∈ g.freed, (s.quarantine.record n).usrptr = p := by
  simp only [FreedPtr, h.lastFreed_eq, List.mem_map, exists_exists_and_eq_and]
  rfl

theorem added_of_trace_eq {es : List Event} (htrace : t.trace = s.trace ++ es) :
    s.added t = es := by
  rw [added, htrace, List.drop_left]

/-- A block freed that is known is reported with its callstacks. -/
theorem Inv.handleIllegallyFreedBuffer_eq (h : s.Inv g) (hattr : s.Attributed g) {x : FreedBlock}
    (hx : x ∈ s.lastFreed) (hp : x.usrptr = p) :
    Memchk.handleIllegallyFreedBuffer env p s = some (s.emit (doubleFreeReport env x)) := by
  rw [h.lastFreed_eq, List.mem_map] at hx
  obtain ⟨n, hn, rfl⟩ := hx
  rcases h.handleIllegallyFreedBuffer env p with ⟨hnone, -⟩ | ⟨m, hm, hkey, heq⟩
  · exact absurd hp (hnone n hn)
  · obtain rfl := h.freed_inj hm hn (hkey.trans hp.symm)
    obtain ⟨halloc, hfreer⟩ := hattr.freed m hm
    rw [heq, printCallstack_of_ne halloc, printCallstack_of_ne hfreer]
    simp only [Option.bind_eq_bind, Option.bind_some]
    rw [doubleFreeReport, hp]
    rfl

/-- A pointer that belongs to no live block. -/
theorem Inv.classified_of_not_live (h : s.Inv g) (hattr : s.Attributed g) (hlive : ¬s.LivePtr p) :
    ∃ t, Memchk.handleIllegallyFreedBuffer env p s = some t ∧ FreeClassified env p s (-1) t := by
  have hret : (-1 : ℤ) ≠ 0 := by decide
  by_cases hfreed : s.FreedPtr p
  · obtain ⟨x, hx, hp⟩ := hfreed
    have hevents : s.added (s.emit (doubleFreeReport env x)) = doubleFreeReport env x :=
      added_of_trace_eq rfl
    refine ⟨_, h.handleIllegallyFreedBuffer_eq hattr hx hp, iff_of_false hret hlive, ?_, ?_,
      fun hlive' ↦ absurd hlive' hlive, fun _ y hy hp' ↦ ?_, fun _ hnot ↦ absurd ⟨x, hx, hp⟩ hnot⟩
    · refine iff_of_true ?_ ⟨hlive, x, hx, hp⟩
      rw [hevents, doubleFreeReport, hp]
      exact List.mem_cons_self
    · refine iff_of_false ?_ fun hnot ↦ hnot.2 ⟨x, hx, hp⟩
      rw [hevents]
      rintro ⟨trace, hmem⟩
      simp [doubleFreeReport] at hmem
    · -- no two of them have the same pointer
      have heq : Memchk.handleIllegallyFreedBuffer env p s =
          some (s.emit (doubleFreeReport env x)) :=
        h.handleIllegallyFreedBuffer_eq hattr hx hp
      exact Option.some.inj (heq.symm.trans (h.handleIllegallyFreedBuffer_eq hattr hy hp'))
  · rcases h.handleIllegallyFreedBuffer env p with ⟨-, heq⟩ | ⟨m, hm, hkey, -⟩
    · have hevents : s.added (s.emit (illegalFreeReport env p)) = illegalFreeReport env p :=
        added_of_trace_eq rfl
      refine ⟨s.emit (illegalFreeReport env p), heq, iff_of_false hret hlive, ?_, ?_,
        fun hlive' ↦ absurd hlive' hlive, fun _ x hx hp ↦ absurd ⟨x, hx, hp⟩ hfreed, fun _ _ ↦ rfl⟩
      · refine iff_of_false ?_ fun hand ↦ hfreed hand.2
        rw [hevents]
        simp [illegalFreeReport]
      · refine iff_of_true ⟨env.printCurrentCallstack 3, ?_⟩ ⟨hlive, hfreed⟩
        rw [hevents]
        exact List.mem_cons_self
    · exact absurd (h.freedPtr_iff.2 ⟨m, hm, hkey⟩) hfreed

/-- A live block that goes to the quarantine. -/
theorem Inv.classified_of_unregistered (h : s.Inv g) {n new c : ℕ} {evicted : Option ℕ} {rc : ℤ}
    {log evictLog : List Event} (hn : n ∈ g.nodes .live) (hkey : (s.blocks.record n).usrptr = p)
    (hcheck : mcCheckAllocatedBuffer (s.blocks.record n).memblk p
      (s.printCallstack (s.blocks.record n).allocator 2) (some (env.printCurrentCallstack 3))
      s.heap = some (rc, log))
    (hun : Unregistered env p s g n new c evicted log evictLog t g') (buf : ℕ) :
    FreeClassified env p s 0 (t.giveBack buf) := by
  have hlive : s.LivePtr p := h.livePtr_iff.2 ⟨n, hn, hkey⟩
  -- the reports on damaged blocks are none on the pointer
  have hlog : ∀ e ∈ s.added (t.giveBack buf),
      e.isDamage ∨ e = .mmapFailed ∨ ∃ ptr, e = .origFree ptr := by
    have htrace : (t.giveBack buf).trace = s.trace ++
      (log ++ ((if c = 0 then [.mmapFailed] else []) ++
        evictLog) ++ if buf ≠ 0 then [.origFree buf] else []) := by
      rw [trace_giveBack, hun.trace, List.append_assoc]
    have hevict : ∀ e ∈ evictLog, e.isDamage := by
      cases evicted with
      | none =>
        rw [hun.evictLog_eq_nil rfl]
        exact fun e he ↦ absurd he List.not_mem_nil
      | some old =>
        obtain ⟨rc', hfreed⟩ := hun.evictCheck old rfl
        exact isDamage_mcCheckFreedBuffer hfreed
    rw [added_of_trace_eq htrace]
    simp only [List.mem_append]
    rintro e ((he | he | he) | he)
    · exact .inl (isDamage_mcCheckAllocatedBuffer hcheck e he)
    · split_ifs at he
      · exact .inr (.inl (List.mem_singleton.1 he))
      · exact absurd he List.not_mem_nil
    · exact .inl (hevict e he)
    · split_ifs at he
      · exact .inr (.inr ⟨buf, List.mem_singleton.1 he⟩)
      · exact absurd he List.not_mem_nil
  refine ⟨iff_of_true rfl hlive, iff_of_false (fun hmem ↦ ?_) fun hnot ↦ hnot.1 hlive,
    iff_of_false ?_ fun hnot ↦ hnot.1 hlive, fun _ ↦ ⟨?_, ?_⟩, fun hnot ↦ absurd hlive hnot,
    fun hnot ↦ absurd hlive hnot⟩
  · rcases hlog _ hmem with hdamage | heq | ⟨ptr, heq⟩
    · exact absurd hdamage Bool.false_ne_true
    · cases heq
    · cases heq
  · rintro ⟨trace, hmem⟩
    rcases hlog _ hmem with hdamage | heq | ⟨ptr, heq⟩
    · exact absurd hdamage Bool.false_ne_true
    · cases heq
    · cases heq
  · rw [LivePtr, blocks_giveBack]
    rintro ⟨m, hm, hmkey⟩
    rw [hun.inv.blocks.mem_tableNodes, hun.nodes, Function.update_self] at hm
    rw [hun.record] at hmkey
    obtain rfl := h.live_inj (List.mem_of_mem_erase hm) hn (hmkey.trans hkey.symm)
    exact (h.blocks.table .live).nodup.not_mem_erase hm
  · rw [quarantine_giveBack]
    exact ⟨_, hun.history, rfl⟩

end State

/-- As long as metadata is there, `free` takes every pointer for what it is. -/
theorem free_classified {s : State} {env : Env} {p : ℕ} (hs : Reachable s)
    (hsupply : .mmapFailed ∉ s.trace) (h0 : s.doNotHook = 0) (hp : p ≠ 0) :
    ∃ ret buf u, mcUnregisterMemblk env p env.garbage s = some (ret, buf, u) ∧
      Hook.free env p s = some (u.giveBack buf) ∧
      (.mmapFailed ∉ u.trace → FreeClassified env p s ret (u.giveBack buf)) := by
  obtain ⟨g, h, hattr⟩ := hs.attributed hsupply
  have hfree : ∀ {ret buf u}, mcUnregisterMemblk env p env.garbage s = some (ret, buf, u) →
      Hook.free env p s = some (u.giveBack buf) := by
    intro ret buf u heq
    rw [Hook.free, if_neg hp, if_neg (not_not_intro h0), heq]
    rfl
  rcases h.unregister env p env.garbage with
    ⟨hnone, heq⟩ | ⟨n, hn, hkey, ⟨⟨-, hnull⟩, -⟩ | ⟨rc, log, hcheck, ⟨u, heq, hdrop⟩ |
      ⟨⟨-, old, hold, -, -, hnull⟩, -⟩ | ⟨new, c, evicted, evictLog, u, g', heq, hun⟩⟩⟩
  · have hlive : ¬s.LivePtr p := fun hlive ↦ by
      obtain ⟨n, hn, hkey⟩ := h.livePtr_iff.1 hlive
      exact hnone n hn hkey
    obtain ⟨u, hreport, hclassified⟩ :
        ∃ u, handleIllegallyFreedBuffer env p s = some u ∧ FreeClassified env p s (-1) u :=
      h.classified_of_not_live hattr hlive
    rw [hreport] at heq
    exact ⟨-1, 0, u, heq, hfree heq, fun _ ↦ hclassified⟩
  · exact absurd hnull (hattr.allocator .live n hn)
  · refine ⟨-1, env.garbage, u, heq, hfree heq, fun hnot ↦ absurd ?_ hnot⟩
    rw [hdrop.trace]
    simp
  · rcases hnull with hnull | hnull
    · exact absurd hnull (hattr.freed old hold).1
    · exact absurd hnull (hattr.freed old hold).2
  · exact ⟨0, _, u, heq, hfree heq, fun _ ↦ h.classified_of_unregistered hn hkey hcheck hun _⟩

/-- A pointer that is not known, in a state with a live block. -/
theorem free_classified_unknown : ∃ s ret t, s.LivePtr 1048592 ∧
    Hook.free (Env.handing 0) 5 s = some t ∧ FreeClassified (Env.handing 0) 5 s ret t := by
  obtain ⟨s, g, n, c, hs, -, h0, hsupply, hrec⟩ := hookedReachable_oneBlock
  have hn : g.nodes .live = [n] := by rw [hrec.nodes, Function.update_self]
  have hkey : (s.blocks.record n).usrptr = 1048592 := by rw [hrec.record]
  obtain ⟨ret, buf, u, hun, hfree, hclassified⟩ :=
    @free_classified s (Env.handing 0) 5 hs.reachable hsupply h0 (by decide)
  refine ⟨s, ret, _, hrec.inv.livePtr_iff.2 ⟨n, by rw [hn]; exact List.mem_cons_self, hkey⟩, hfree,
    hclassified ?_⟩
  rcases hrec.inv.unregister (Env.handing 0) 5 0 with ⟨-, heq⟩ | ⟨m, hm, hm5, -⟩
  · have hrun := heq.symm.trans hun
    obtain ⟨t, hreport, ht⟩ := Option.map_eq_some_iff.1 hrun
    obtain ⟨es, rfl, hes⟩ := hrec.inv.rejected hreport
    simp only [Prod.mk.injEq] at ht
    rw [← ht.2.2]
    intro hmem
    rcases List.mem_append.1 hmem with hmem | hmem
    · exact hsupply hmem
    · exact absurd (hes _ hmem) Bool.false_ne_true
  · rw [hn, List.mem_singleton] at hm
    rw [hm, hkey] at hm5
    exact absurd hm5 (by decide)

end Memchk
