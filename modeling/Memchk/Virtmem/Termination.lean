import Memchk.Virtmem.Regions

/-!
# The loops of the block registration end

Every call of `__register_block` returns, for blocks of any kind in any order, and leaves a chain
that ends, as long as no call starts its scan at a node that has left the chain
(`registerBlocks_terminates`). In `not_registerBlocks_terminates` the slot of the cached node is
handed out again and linked behind itself, and the next scan goes round and round there.

## The run that does not end

The run begins like that of `registerBlocks_loses`: a merge gives the node of a region back to the
pool while `pageregion_cand` still points to it. A registration behind it takes the slot again, as
the pool hands out the lowest one, and links it behind the node where the scan has started, which is
the same node. The scan of the call after that meets a node whose successor is the node.

The calls are evaluated as far as the cached node, its link and its interval. That the scan from
there does not end for any number of rounds is an induction (`scanLoop_eq_none_of_next_eq`), and
holds of every node that is linked behind itself in front of the block.

## The condition

`CachedOnChains` is about the state before each call: where the scan would start at the cached node,
that node is on the chain. It asks nothing of the blocks, which may overlap, repeat, or wrap around
at the end of the address space, and nothing of the kernel, which may refuse pages at any call.
-/

namespace Memchk

/-- `CachedOnChain` holds before every call. -/
def CachedOnChains : List (ℕ × ℕ) → RegionState → Prop
  | [], _ => True
  | b :: blocks, s =>
    CachedOnChain b.1 b.2 s ∧ ∀ r t, registerBlock b.1 b.2 s = some (r, t) → CachedOnChains blocks t

section Runs

variable {s t : RegionState} {l : List ℕ} {blocks : List (ℕ × ℕ)} {start end_ p : ℕ}

/-- Every call returns and leaves a chain. -/
theorem RegionChain.registerBlocks (h : RegionChain s l) (hcached : CachedOnChains blocks s) :
    ∃ done t l', registerBlocks blocks s = some (done, t) ∧ RegionChain t l' := by
  induction blocks generalizing s l with
  | nil => exact ⟨[], s, l, rfl, h⟩
  | cons b blocks ih =>
    obtain ⟨r, t, before, rest, l₁, rfl, hreg, hscan, -⟩ := registerBlock_scanned h hcached.1
    obtain ⟨done, u, l', hrun, hchain⟩ := ih (h.scanned hscan) (hcached.2 r t hreg)
    refine ⟨if r = 0 then b :: done else done, u, l', ?_, hchain⟩
    simp only [Memchk.registerBlocks, hreg, Option.bind_eq_bind, Option.bind_some, hrun]
    rfl

/-- As long as no scan starts at a node that has left the chain, every call returns, and the `next`
fields lead from the head to the end without meeting a node twice. -/
theorem registerBlocks_terminates (hpool : s.pool.Inv pageregionPoolHead pageregionSize)
    (hempty : (s.node pageregionHead).next = 0) (hcached : CachedOnChains blocks s) :
    ∃ done t l, registerBlocks blocks s = some (done, t) ∧
      Linked t.next 0 (t.next pageregionHead) l ∧ l.Nodup := by
  have h : RegionChain s [] := ⟨hpool, ⟨rfl, by decide, hempty⟩, by simp⟩
  obtain ⟨done, t, l, hrun, hchain⟩ := h.registerBlocks hcached
  exact ⟨done, t, l, hrun, hchain.linked.2.2, hchain.linked.2.2.nodup⟩

/-- A scan that comes to a node linked behind itself, in front of the block, never ends. -/
theorem scanLoop_eq_none_of_next_eq (hne : p ≠ 0) (hnext : (s.node p).next = p)
    (hfront : ¬ end_ < (s.node p).start) (hpass : (s.node p).end_ < start) (rounds prev : ℕ) :
    scanLoop start end_ rounds p prev s = none := by
  induction rounds generalizing prev with
  | zero => rfl
  | succ rounds ih =>
    rw [scanLoop, if_neg hne, if_neg hfront, if_neg (not_le.2 hpass), hnext]
    exact ih p

end Runs

/-- The second block lies the wrong way round, and goes right in front of the cached node. -/
theorem registerBlocks_terminates_wrapped :
    ∃ done t l, registerBlocks [(8192, 100), (18446744073709551615, 1)] (.init []) =
        some (done, t) ∧
      Linked t.next 0 (t.next pageregionHead) l ∧ l.Nodup := by
  refine registerBlocks_terminates RegionState.inv_init rfl ⟨fun h ↦ absurd rfl h, fun r t hreg ↦
    ⟨fun _ _ ↦ ⟨[], [], ?_, fun _ ↦ ?_⟩, fun _ _ _ ↦ trivial⟩⟩
  all_goals
    have hcached : (registerBlock 8192 100 (.init [])).map
        (fun r ↦ (r.2.next pageregionHead, r.2.cand, r.2.next r.2.cand, r.2.prevCand)) =
          some (16464, 16464, 0, pageregionHead) := by decide +kernel
    rw [hreg] at hcached
    simp only [Option.map_some, Option.some.injEq, Prod.mk.injEq] at hcached
    obtain ⟨hhead, hcand, hnext, hprev⟩ := hcached
  · exact ⟨hhead.trans hcand.symm, by omega, hnext⟩
  · exact hprev

/-- After `losingBlocks` the cached node is linked behind itself, and the scan of a sixth call that
starts there never ends. -/
theorem not_registerBlocks_terminates :
    registerBlocks (losingBlocks ++ [(122880, 4096)]) (.init []) = none ∧
      ∃ done t, registerBlocks losingBlocks (.init []) = some (done, t) ∧
        (t.node pageregionHead).next ≠ 0 ∧ (t.node t.cand).end_ < blockStart 122880 ∧
        ∀ rounds, scanLoop (blockStart 122880) (blockEnd 122880 4096) rounds t.cand t.prevCand t =
          none := by
  have hnone : (registerBlocks (losingBlocks ++ [(122880, 4096)]) (.init [])).isNone = true := by
    decide +kernel
  have hcycle : (registerBlocks losingBlocks (.init [])).map (fun r ↦
      (r.2.cand, r.2.next r.2.cand, r.2.interval r.2.cand, r.2.next pageregionHead)) =
        some (16512, 16512, (86016, 90112), 16464) := by decide +kernel
  refine ⟨Option.isNone_iff_eq_none.1 hnone, ?_⟩
  obtain ⟨⟨done, t⟩, hrun, hfields⟩ := Option.map_eq_some_iff.1 hcycle
  simp only [Prod.mk.injEq] at hfields
  obtain ⟨hcand, hnext, hinterval, hhead⟩ := hfields
  have hstart : (t.node t.cand).start = 86016 := congrArg Prod.fst hinterval
  have hend : (t.node t.cand).end_ = 90112 := congrArg Prod.snd hinterval
  have hlow : (t.node t.cand).end_ < blockStart 122880 := by
    rw [hend]
    decide
  refine ⟨done, t, hrun, ?_, hlow, fun rounds ↦ ?_⟩
  · change t.next pageregionHead ≠ 0
    omega
  · refine scanLoop_eq_none_of_next_eq (by omega) (hnext.trans hcand.symm) ?_ hlow rounds _
    rw [hstart]
    decide

end Memchk
