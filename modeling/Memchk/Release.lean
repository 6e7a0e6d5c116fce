import Memchk.Exhaustion

/-!
# What unregistering a block promises

`mc_unregister_memblk` should either take a block out of the live ones, into the quarantine, or
leave everything as it was, and in both cases say which buffer is to be freed. It does so unless it
has taken a live block out already when there is no node for the quarantine
(`unregister_atomic_iff`).

## The promise

`UnregisterAtomic` says that the output is null or the buffer of the block that has just left the
ring, and that with the result `-1` it is null and only lines of the log were added. On the path
that misses it the result is `-1`, the block is in neither table, and the output is what the caller
has put there.

## The condition

The pointer is that of no live block, or the pool has a node for the ring. It is read off the state
before the call, and the theorem is for every reachable state in which the call returns. The call
may fault instead, if a check has damage to report and a callstack is null.
-/

namespace Memchk

/-- The buffer is that of a block that was in the quarantine and has left it. -/
def State.Evicted (buf : ℕ) (s s' : State) : Prop :=
  ∃ ptr old, s.quarantine.find ptr = some old ∧ old ≠ 0 ∧ s'.quarantine.find ptr = some 0 ∧
    buf = (s.quarantine.record old).memblk.buf

/-- The result is all or nothing: `buf_to_be_freed` is null or the buffer of the block just evicted,
and if the result is `-1` it is null, and there are only more lines in the log. -/
def UnregisterAtomic (s : State) (ret : ℤ) (buf : ℕ) (s' : State) : Prop :=
  (buf = 0 ∨ s.Evicted buf s') ∧ (ret = -1 → buf = 0 ∧ ∃ es, s' = s.emit es)

namespace State

variable {s s' : State} {g g' : Contents} {env : Env} {p n new c : ℕ}

/-- Unregistering a block says which buffer is to be freed. -/
theorem Inv.evicted (h : s.Inv g) (hn : n ∈ g.nodes .live) (hkey : (s.blocks.record n).usrptr = p)
    {evicted : Option ℕ} {log evictLog : List Event}
    (hun : Unregistered env p s g n new c evicted log evictLog s' g') :
    s.evictedBuf evicted = 0 ∨ s.Evicted (s.evictedBuf evicted) s' := by
  cases hev : evicted with
  | none => exact .inl rfl
  | some old =>
    subst hev
    have hold : old ∈ g.freed := h.evicted_mem hun rfl
    refine .inr ⟨_, old, h.find_freed hold, h.freed_ne_null hold, ?_, rfl⟩
    rcases hun.inv.quarantine.find (s.quarantine.record old).usrptr with ⟨-, hfind⟩ |
      ⟨m, hm, hmkey, -⟩
    · exact hfind
    -- no other block has the pointer of the one evicted
    exfalso
    have hfreed : old :: g'.freed = g.freed ++ [new] := hun.freed
    have hnodup : (old :: g'.freed).Nodup := by
      rw [hfreed]
      exact List.nodup_append.2 ⟨h.quarantine.table.nodup, List.nodup_singleton _,
        fun a ha b hb ↦ by
          rw [List.mem_singleton.1 hb]
          exact ne_of_mem_of_not_mem ha hun.notMem⟩
    have hmem : m ∈ g.freed ++ [new] := hfreed ▸ List.mem_cons_of_mem old hm
    rcases List.mem_append.1 hmem with hmem | hmem
    · rw [hun.freedRecord m (ne_of_mem_of_not_mem hmem hun.notMem)] at hmkey
      exact (List.nodup_cons.1 hnodup).1 (h.freed_inj hmem hold hmkey ▸ hm)
    · rw [List.mem_singleton.1 hmem, hun.newRecord, ← hkey] at hmkey
      exact h.usrptr_ne hn hold hmkey

/-- A dropped block cannot be found any more. -/
theorem Inv.not_emit_of_dropped (h : s.Inv g) (hn : n ∈ g.nodes .live) {log : List Event}
    (hdrop : Dropped p s g n log s') (es : List Event) : s' ≠ s.emit es := by
  intro heq
  have hfind := h.find_live hn
  have hblocks : s'.blocks = s.blocks := by
    rw [heq]
    rfl
  have hfind' : s'.blocks.find .live (s.blocks.record n).usrptr = some n := by rw [hblocks, hfind]
  have hmem := (hdrop.inv.of_find_live hfind' (h.blocks.ne_null hn)).1
  simp only [Function.update_self] at hmem
  exact (h.blocks.table .live).nodup.not_mem_erase hmem

end State

/-- What a returning `mc_unregister_memblk` promises holds if and only if the pointer is not that of
a live block, or there is a node for the quarantine. -/
theorem unregister_atomic_iff {s t : State} {env : Env} {p b buf : ℕ} {ret : ℤ} (hs : Reachable s)
    (hrun : mcUnregisterMemblk env p b s = some (ret, buf, t)) :
    UnregisterAtomic s ret buf t ↔ s.blocks.find .live p = some 0 ∨ s.HasFreeNode := by
  obtain ⟨g, h⟩ := hs.inv
  rcases h.unregister env p b with
    ⟨hnone, heq⟩ | ⟨n, hn, hkey, ⟨-, hnone⟩ | ⟨rc, log, -, ⟨u, heq, hdrop⟩ | ⟨-, hnone⟩ |
      ⟨new, c, evicted, evictLog, u, g', heq, hun⟩⟩⟩
  · -- the pointer is not that of a live block
    rw [heq, Option.map_eq_some_iff] at hrun
    obtain ⟨u, hreport, hret⟩ := hrun
    obtain ⟨es, rfl, -⟩ := h.rejected hreport
    simp only [Prod.mk.injEq] at hret
    obtain ⟨rfl, rfl, rfl⟩ := hret
    refine iff_of_true ⟨.inl rfl, fun _ ↦ ⟨rfl, es, rfl⟩⟩ (.inl ?_)
    rcases h.blocks.find .live p with ⟨-, hfind⟩ | ⟨n, hn, hkey, -⟩
    · exact hfind
    · exact absurd hkey (hnone n hn)
  · exact absurd (hrun.symm.trans hnone) (by simp)
  · -- the block is dropped
    rw [heq] at hrun
    simp only [Option.some.injEq, Prod.mk.injEq] at hrun
    obtain ⟨rfl, rfl, rfl⟩ := hrun
    refine iff_of_false (fun hatomic ↦ ?_) ?_
    · obtain ⟨-, es, hes⟩ := hatomic.2 rfl
      exact h.not_emit_of_dropped hn hdrop es hes
    · rintro (hfind | ⟨m, pool, halloc, hm⟩)
      · have hfound := h.find_live hn
        rw [hkey, hfind, Option.some_inj] at hfound
        exact h.blocks.ne_null hn hfound.symm
      · rw [hdrop.failed, Option.some_inj, Prod.mk.injEq] at halloc
        exact hm halloc.1.symm
  · exact absurd (hrun.symm.trans hnone) (by simp)
  · -- the block goes to the quarantine
    rw [heq] at hrun
    simp only [Option.some.injEq, Prod.mk.injEq] at hrun
    obtain ⟨rfl, rfl, rfl⟩ := hrun
    obtain ⟨pool, halloc, -⟩ := hun.allocated
    have hne : new ≠ 0 := hun.inv.freed_ne_null (h.new_mem hun)
    exact iff_of_true ⟨h.evicted hn hkey hun, fun hret ↦ absurd hret (by decide)⟩
      (.inr ⟨new, pool, halloc, hne⟩)

/-- A live block is unregistered, with a node for the quarantine there. -/
theorem unregister_atomic_iff_sample : ∃ s ret buf t, s.blocks.find .live 1048592 ≠ some 0 ∧
    s.HasFreeNode ∧ mcUnregisterMemblk (Env.handing 0) 1048592 1 s = some (ret, buf, t) ∧
      UnregisterAtomic s ret buf t := by
  obtain ⟨s, g, n, c, hs, hrec, hc, -, hnode⟩ := resting_oneBlock
  have hn : n ∈ g.nodes .live := by
    rw [hrec.nodes, Function.update_self]
    exact List.mem_cons_self
  have hkey : (s.blocks.record n).usrptr = 1048592 := by rw [hrec.record]
  have hallocator : (s.blocks.record n).allocator ≠ 0 := by rwa [hrec.record]
  have hfreed : g.freed = [] := hrec.freed
  have hfind : s.blocks.find .live 1048592 ≠ some 0 := by
    rw [← hkey, hrec.inv.find_live hn]
    exact fun heq ↦ hrec.inv.blocks.ne_null hn (Option.some.inj heq)
  obtain ⟨⟨ret, buf, t⟩, hrun⟩ : ∃ x, mcUnregisterMemblk (Env.handing 0) 1048592 1 s = some x := by
    rcases hrec.inv.unregister (Env.handing 0) 1048592 1 with
      ⟨hnone, -⟩ | ⟨m, hm, hmkey, ⟨⟨-, hnull⟩, -⟩ | ⟨rc, log, -, ⟨u, heq, -⟩ |
        ⟨⟨-, old, hold, -⟩, -⟩ | ⟨new, d, evicted, evictLog, u, g', heq, -⟩⟩⟩
    · exact absurd hkey (hnone n hn)
    · obtain rfl := hrec.inv.live_inj hm hn (hmkey.trans hkey.symm)
      exact absurd hnull hallocator
    · exact ⟨_, heq⟩
    · rw [hfreed] at hold
      exact absurd hold List.not_mem_nil
    · exact ⟨_, heq⟩
  exact ⟨s, ret, buf, t, hfind, hnode, hrun,
    (unregister_atomic_iff hs.reachable hrun).2 (.inr hnode)⟩

/-- When the 71 nodes of the first page are in the quarantine and no page can be mapped, a live
block is not found any more although the result is `-1`, and `buf_to_be_freed` keeps the value 1. -/
theorem not_unregister_atomic : ∃ s p t, Reachable s ∧
    mcUnregisterMemblk (Env.handing 0) p 1 s = some (-1, 1, t) ∧
      ¬UnregisterAtomic s (-1) 1 t := by
  obtain ⟨s, g, -, n, -, -, hs, hattr, hnode, -, hn, -⟩ := resting_exhausted
  obtain ⟨rc, log, t, -, hrun, hdrop⟩ :=
    hs.inv.exists_dropped hn hnode (hattr.allocator .live n hn) (Env.handing 0) 1
  refine ⟨s, _, t, hs.reachable, hrun, fun hatomic ↦ ?_⟩
  obtain ⟨-, es, hes⟩ := hatomic.2 rfl
  exact hs.inv.not_emit_of_dropped hn hdrop es hes

end Memchk
