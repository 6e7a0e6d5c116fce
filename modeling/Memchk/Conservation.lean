import Memchk.Classification
import Memchk.Exhaustion

/-!
# Where the buffers are

Every buffer that the checker got from `mc_orig_malloc` belongs to a live block, waits in the
quarantine, or went back through `mc_orig_free`, and the buffers go back in the order in which their
blocks were freed, each `FREE_FIFO_SIZE` frees later. The table and the ring of the quarantine hold
the same nodes, those of the last blocks freed. All this is so between any two calls of a run with
hooks enabled (`buffers_conserved`).

## Two accounts

The ledger of the trace says what was taken from the functions behind the hooks and what was given
back. The tables say what the checker still has. `State.Balanced` ties them together: replaying the
ledger never gives back what is not held, what is held in the end are the buffers of the tables, and
what was given back are the buffers of the oldest frees, in their order.

## The steps

An effect that records a block takes a buffer and adds it to the live ones. One that unregisters a
block moves a buffer from the live ones to the ring, and gives back the one that is evicted, if any.
All other effects are `Balanced.quiet`. The order of the frees is `Quarantine.freed`, which the
invariant already ties to the ring.
-/

namespace Memchk

namespace Quarantine

/-- The nodes of the table, in the order in which `for_each_hashnode` comes to them. -/
@[irreducible]
def tableNodes (q : Quarantine) : List ℕ :=
  (forEachNode 0 q.store.next q.store.head q.rounds
    (tableIndices freeMemptrHashtableSize)).getD []

/-- The entries of `free_memblk_array` that are not null. -/
def arrayNodes (q : Quarantine) : List ℕ :=
  ((List.range freeFifoSize).map q.freeMemblkArray).filter fun n ↦ n ≠ 0

/-- The walk over the table of freed blocks meets its nodes. -/
theorem Holds.tableNodes_perm {q : Quarantine} {ns : List ℕ} (h : q.Holds ns) :
    q.tableNodes.Perm ns := by
  obtain ⟨K, hK, hperm, hlen⟩ := HashChains.exists_buckets h.table
  have hrounds : ∀ i ∈ tableIndices freeMemptrHashtableSize, (K i).length < q.rounds :=
    fun i hi ↦ lt_of_le_of_lt (hlen i hi) h.length_lt_rounds
  have hnode : forEachNode 0 q.store.next q.store.head q.rounds
      (tableIndices freeMemptrHashtableSize) = some _ := forEachNode_eq hK hrounds
  unfold tableNodes
  rw [hnode, Option.getD_some]
  exact hperm.symm

end Quarantine

namespace State

/-- The buffers of the blocks in the table of live blocks. -/
def tableBufs (s : State) : List ℕ :=
  (s.blocks.tableNodes .live).map fun n ↦ (s.blocks.record n).memblk.buf

/-- The buffers of the blocks in the table of the quarantine. -/
def quarantineBufs (s : State) : List ℕ :=
  s.quarantine.tableNodes.map fun n ↦ (s.quarantine.record n).memblk.buf

/-- Every buffer is in its place. -/
structure Conserved (s : State) : Prop where
  /-- Only what is held is ever given back, and what is held belongs to a block. -/
  held : ∃ held, Transfer.holdings s.ledger = some held ∧
    held.Perm (s.tableBufs ++ s.quarantineBufs)
  nodup : (s.tableBufs ++ s.quarantineBufs).Nodup
  /-- Everything taken is in one of the three places. -/
  placed : (Transfer.taken s.ledger).Perm
    (s.tableBufs ++ s.quarantineBufs ++ Transfer.given s.ledger)
  array : s.quarantine.tableNodes.Perm s.quarantine.arrayNodes
  last : (s.quarantine.tableNodes.map s.freedBlock).Perm s.lastFreed
  length : s.quarantine.tableNodes.length = min freeFifoSize s.quarantine.freed.length
  /-- What went back are the buffers of all blocks freed but the last ones, in this order. -/
  released : Transfer.given s.ledger = (s.quarantine.freed.take
    (s.quarantine.freed.length - freeFifoSize)).map fun x ↦ x.memblk.buf

/-- What the ledger says of the lists: what is held belongs to blocks, and the blocks freed are
those given back and those in the quarantine, in this order. -/
structure Balanced (s : State) (g : Contents) : Prop where
  held : ∃ held, Transfer.holdings s.ledger = some held ∧
    held.Perm (s.liveBufs g ++ s.freedBufs g)
  freed : Transfer.given s.ledger ++ s.freedBufs g = s.quarantine.freed.map fun x ↦ x.memblk.buf

section Steps

variable {s s' t : State} {g g' : Contents} {env : Env}

/-- A step that changes no node and transfers nothing keeps the balance. -/
theorem Balanced.quiet (h : s.Balanced g) (hsame : s.SameNodes s')
    (hledger : s'.ledger = s.ledger) :
    s'.Balanced g := by
  have hlive : s'.liveBufs g = s.liveBufs g := by rw [liveBufs, hsame.blocks, liveBufs]
  have hfreed : s'.freedBufs g = s.freedBufs g := by rw [freedBufs, hsame.quarantine, freedBufs]
  constructor
  · rw [hledger, hlive, hfreed]
    exact h.held
  · rw [hledger, hfreed, hsame.quarantine]
    exact h.freed

/-- A buffer is taken for a block. -/
theorem Balanced.recorded (h : s.Balanced g) {x : Memblk} {usrptr n c : ℕ}
    (hblocks : t.blocks = s.blocks) (hquarantine : t.quarantine = s.quarantine)
    (hrec : Recorded env x usrptr t g n c s' g') (hledger : s'.ledger = s.ledger ++ [.took x.buf]) :
    s'.Balanced g' := by
  have hlive : s'.liveBufs g' = x.buf :: s.liveBufs g := by
    rw [liveBufs, hrec.nodes, Function.update_self, List.map_cons, hrec.record, liveBufs]
    refine congrArg _ (List.map_congr_left fun m hm ↦ ?_)
    rw [hrec.record_of_ne m (ne_of_mem_of_not_mem hm (hrec.notMem .live)), hblocks]
  have hfreed : s'.freedBufs g' = s.freedBufs g := by
    rw [freedBufs, hrec.freed, hrec.quarantine, hquarantine, freedBufs]
  constructor
  · obtain ⟨held, hheld, hperm⟩ := h.held
    refine ⟨x.buf :: held, ?_, ?_⟩
    · rw [hledger]
      exact Transfer.holdings_took hheld
    · rw [hlive, hfreed]
      exact hperm.cons _
  · rw [hledger, Transfer.given_append, hfreed, hrec.quarantine, hquarantine, ← h.freed]
    exact congrArg (· ++ _) (List.append_nil _)

/-- A block goes to the quarantine, and the buffer of the one that leaves it is given back. -/
theorem Balanced.released (h : s.Balanced g) (hinv : s.Inv g) {usrptr n new c : ℕ}
    {evicted : Option ℕ} {log evictLog : List Event} (hn : n ∈ g.nodes .live)
    (hun : Unregistered env usrptr s g n new c evicted log evictLog t g')
    (hblocks : s'.blocks = t.blocks) (hquarantine : s'.quarantine = t.quarantine)
    (hledger : s'.ledger = s.ledger ++
      (evicted.map fun old ↦ .gave (s.quarantine.record old).memblk.buf).toList) :
    s'.Balanced g' := by
  let buf (n : ℕ) : ℕ := (s.quarantine.record n).memblk.buf
  have hlive : (s.liveBufs g).Perm ((s.blocks.record n).memblk.buf :: s'.liveBufs g') := by
    rw [liveBufs, liveBufs, hun.nodes, Function.update_self, hblocks, hun.record]
    exact (List.perm_cons_erase hn).map _
  -- the blocks freed, before and after
  have hfreed : (evicted.map buf).toList ++ s'.freedBufs g' =
      s.freedBufs g ++ [(s.blocks.record n).memblk.buf] := by
    have hmap := congrArg (List.map fun m ↦ (t.quarantine.record m).memblk.buf) hun.freed
    rw [List.map_append, List.map_append, List.map_singleton, hun.newRecord] at hmap
    have hold : ∀ m ∈ g.freed, (t.quarantine.record m).memblk.buf = buf m := fun m hm ↦ by
      rw [hun.freedRecord m (ne_of_mem_of_not_mem hm hun.notMem)]
    rw [List.map_congr_left hold] at hmap
    rw [freedBufs, hquarantine, freedBufs, ← hmap]
    congr 1
    cases hev : evicted with
    | none => rfl
    | some old =>
      subst hev
      exact congrArg (fun b ↦ [b]) (hold old (hinv.evicted_mem hun rfl)).symm
  have hhistory : (s'.quarantine.freed.map fun x ↦ x.memblk.buf) =
      (s.quarantine.freed.map fun x ↦ x.memblk.buf) ++ [(s.blocks.record n).memblk.buf] := by
    rw [hquarantine, hun.history, List.map_append, List.map_singleton]
  have hgiven : Transfer.given s'.ledger = Transfer.given s.ledger ++ (evicted.map buf).toList := by
    rw [hledger, Transfer.given_append]
    cases evicted <;> rfl
  constructor
  · obtain ⟨held, hheld, hperm⟩ := h.held
    have hall : held.Perm ((evicted.map buf).toList ++ (s'.liveBufs g' ++ s'.freedBufs g')) :=
      calc
        held.Perm ((s.blocks.record n).memblk.buf :: s'.liveBufs g' ++ s.freedBufs g) :=
          hperm.trans (hlive.append_right _)
        List.Perm _ (s'.liveBufs g' ++ (s.freedBufs g ++ [(s.blocks.record n).memblk.buf])) := by
          rw [← List.append_assoc]
          exact (List.perm_append_singleton _ _).symm
        List.Perm _ ((evicted.map buf).toList ++ (s'.liveBufs g' ++ s'.freedBufs g')) := by
          rw [← hfreed, ← List.append_assoc, ← List.append_assoc]
          exact List.perm_append_comm.append_right _
    cases evicted with
    | none =>
      refine ⟨held, ?_, hall⟩
      rw [hledger]
      exact (congrArg _ (List.append_nil _)).trans hheld
    | some old =>
      have hmem : buf old ∈ held := hall.symm.subset List.mem_cons_self
      refine ⟨held.erase (buf old), ?_, ?_⟩
      · rw [hledger]
        exact Transfer.holdings_gave hheld hmem
      · exact List.Perm.cons_inv ((List.perm_cons_erase hmem).symm.trans hall)
  · rw [hgiven, hhistory, ← h.freed, List.append_assoc, hfreed, List.append_assoc]

end Steps

/-- What the lists say, of the tables and the ring. -/
theorem Balanced.conserved {s : State} {g : Contents} (h : s.Balanced g) (hinv : s.Inv g) :
    s.Conserved := by
  have hlive : s.tableBufs.Perm (s.liveBufs g) := (hinv.blocks.tableNodes_perm .live).map _
  have hquarantine : s.quarantineBufs.Perm (s.freedBufs g) :=
    hinv.quarantine.tableNodes_perm.map _
  have hbufs := hlive.append hquarantine
  have hnodes := hinv.quarantine.tableNodes_perm
  have hlen : g.freed.length = min freeFifoSize s.quarantine.freed.length := hinv.fifo.ring.length
  obtain ⟨held, hheld, hperm⟩ := h.held
  refine ⟨⟨held, hheld, hperm.trans hbufs.symm⟩, hbufs.nodup_iff.2 hinv.bufs, ?_, ?_, ?_,
    hnodes.length_eq.trans hlen, ?_⟩
  · exact (Transfer.taken_perm hheld).trans ((hperm.trans hbufs.symm).append_right _)
  · have hnull : 0 ∉ g.freed := fun hmem ↦ hinv.freed_ne_null hmem rfl
    exact hnodes.trans (hinv.fifo.ring.perm hnull).symm
  · rw [hinv.lastFreed_eq]
    exact hnodes.map _
  · rw [List.map_take, ← h.freed]
    refine (List.take_left' ?_).symm
    have hall := congrArg List.length h.freed
    rw [List.length_append, List.length_map, freedBufs, List.length_map] at hall
    omega

end State

/-- Between any two calls of a run with hooks enabled every buffer is in its place. -/
theorem buffers_conserved {s : State} (hs : HookedReachable s) : s.Conserved := by
  have hinit : ∀ k mem, (State.init k mem).Balanced ⟨fun _ ↦ [], [], []⟩ := fun _ _ ↦
    ⟨⟨[], Transfer.holdings_nil, List.Perm.refl _⟩, rfl⟩
  have hstep : ∀ {env s s' g g'}, s.Inv g → s'.Inv g' → SuppliedEffect env s g s' g' →
      s.Balanced g → s'.Balanced g' := by
    intro env s s' g g' hinv _ he h
    cases he with
    | quiet hsame hledger => exact h.quiet hsame hledger
    | recorded r n c hne ha hrec hledger =>
      exact h.recorded (t := (s.origMalloc env r.bufsize).2) rfl rfl hrec hledger
    | released n usrptr new c evicted log evictLog t hn hkey hun hback hledger =>
      refine h.released hinv hn hun ?_ ?_ hledger
      · rw [hback, State.blocks_giveBack]
      · rw [hback, State.quarantine_giveBack]
  obtain ⟨g, hinv, -, -, hbalanced⟩ := hs.induction hinit hstep
  exact hbalanced.conserved hinv

/-- A run past an eviction: one block is live, 128 wait in the quarantine, and the buffer of the
first one freed went back. -/
theorem buffers_conserved_evicted : ∃ s : State, s.tableBufs.length = 1 ∧
    s.quarantineBufs.length = 128 ∧ (Transfer.given s.ledger).length = 1 ∧ s.Conserved := by
  obtain ⟨s, g, hs, hinv, hlive, hfreed⟩ := hookedReachable_evicted
  have h : s.Conserved := buffers_conserved hs
  refine ⟨s, ?_, ?_, ?_, h⟩
  · rw [State.tableBufs, List.length_map, (hinv.blocks.tableNodes_perm .live).length_eq, hlive]
  · rw [State.quarantineBufs, List.length_map, h.length, hfreed]
    rfl
  · rw [h.released, List.length_map, List.length_take, hfreed]
    rfl

end Memchk
