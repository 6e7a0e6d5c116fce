import Memchk.Comparison

/-!
# What the commands do

Every command copies the table of live blocks, works on the copy, and gives it back. The specs here
say of each command how far it has come when it returns: either all copies were given back and all
lists are empty again, so that nothing has changed but the trace (`Restored`), or the pool ran out
of nodes and the copies made by then are left behind (`Abandoned`). A command faults only if there
are too many blocks or callstacks for its counters, or if it reads a callstack that could not be
recorded.

## How the specs are stated

A spec is an `Outcome` of the library: either the command returns, and a description of the state
after it holds, or it does not, and then the condition for a fault was true. The parts of a command
compose as their outcomes do. So each spec gives a sufficient condition for returning, and a reason
when it does not.

## Nodes

Which copies are made depends on how many nodes the pool would still give. `nodesFor k` are these
nodes, at most `k`, computed from the pool without copying; copying `k` blocks succeeds if and only
if there are `k` of them (`Duplicated.nodesFor_eq`).

## The invariant

`State.Tidy` goes with the invariant of the checker: the tables that the commands copy to are empty,
and no callstack has a list. It holds between commands as long as they are spared, and is what every
spec starts from.
-/

namespace Memchk

/-- The first part of a number of allocations. -/
theorem takeNodes_add {allocate : Pool → Option (ℕ × Pool)} {a b : ℕ} {p q : Pool} {ns : List ℕ}
    (h : takeNodes allocate a p = (ns, q)) :
    (takeNodes allocate (a + b) p).1 =
      if ns.length = a then ns ++ (takeNodes allocate b q).1 else ns := by
  induction a generalizing p ns with
  | zero =>
    obtain ⟨rfl, rfl⟩ := Prod.mk.inj h
    rw [Nat.zero_add]
    rfl
  | succ a ih =>
    rw [Nat.add_right_comm, takeNodes]
    rw [takeNodes] at h
    rcases halloc : allocate p with - | ⟨n, p'⟩
    · rw [halloc] at h
      obtain ⟨rfl, rfl⟩ := Prod.mk.inj h
      rfl
    · rw [halloc] at h
      simp only at h ⊢
      split_ifs at h with hnull
      · obtain ⟨rfl, rfl⟩ := Prod.mk.inj h
        rw [if_pos hnull, if_neg (by simp)]
      · obtain ⟨rfl, rfl⟩ := Prod.mk.inj h
        rw [if_neg hnull]
        simp only [ih rfl, List.length_cons, Nat.add_right_cancel_iff]
        split_ifs <;> rfl

/-- No more nodes are taken than are asked for. -/
theorem length_takeNodes_le (allocate : Pool → Option (ℕ × Pool)) (k : ℕ) (p : Pool) :
    (takeNodes allocate k p).1.length ≤ k := by
  induction k generalizing p with
  | zero => exact le_rfl
  | succ k ih =>
    rw [takeNodes]
    rcases allocate p with - | ⟨n, p'⟩
    · exact Nat.zero_le _
    · by_cases hnull : n = 0
      · simp only [if_pos hnull]
        exact Nat.zero_le _
      · simp only [if_neg hnull, List.length_cons]
        exact Nat.succ_le_succ (ih p')

/-- If all of them succeed, so do those of the first part, and those after it. -/
theorem length_takeNodes_of_add {allocate : Pool → Option (ℕ × Pool)} {a b : ℕ} {p q : Pool}
    {ns : List ℕ} (h : takeNodes allocate a p = (ns, q))
    (hall : (takeNodes allocate (a + b) p).1.length = a + b) :
    ns.length = a ∧ (takeNodes allocate b q).1.length = b := by
  have hle := length_takeNodes_le allocate a p
  rw [h] at hle
  rw [takeNodes_add h] at hall
  split_ifs at hall with hlen
  · rw [List.length_append] at hall
    exact ⟨hlen, by omega⟩
  · exact absurd hall (by simp only at hle; omega)

namespace State

variable {s t u : State} {g : Contents} {L L' : TableId → List ℕ} {es : List Event}
  {new new' : List ℕ} {env : CommandEnv} {id dest src : TableId}

/-! ### The invariant -/

/-- The invariant looks at the live blocks, which no command changes. -/
theorem Inv.confined {ids : List TableId} (h : s.Inv g) (hc : Confined ids s g.nodes es t L')
    (hlive : .live ∉ ids) : t.Inv { g with nodes := L' } := by
  have hquarantine : t.quarantine = s.quarantine := by rw [hc.rest]
  have hheap : t.heap = s.heap := by rw [hc.rest]
  have hnodes : L' .live = g.nodes .live := hc.lists _ hlive
  have hrecord : ∀ n ∈ g.nodes .live, t.blocks.record n = s.blocks.record n := by
    intro n hn
    refine (hc.kept n (h.blocks.live _ n hn) fun id hid hmem ↦ ?_).1.record_eq
    exact h.blocks.disjoint .live id (fun heq ↦ hlive (heq ▸ hid)) hn hmem
  have hfreed : t.freedBlock = s.freedBlock := by
    funext n
    simp only [freedBlock, hquarantine, hc.callstacks.traceOf_eq]
  refine ⟨hc.holds, hquarantine ▸ h.quarantine, hquarantine ▸ h.fifo,
    hc.callstacks.holds h.callstacks, hheap ▸ h.heap, fun n hn ↦ ?_, fun n hn ↦ ?_, ?_,
    fun id n hn ↦ ?_, fun n hn ↦ ?_, ?_⟩
  · simp only [hnodes] at hn
    rw [hheap, hrecord n hn]
    exact h.guarded n hn
  · rw [hheap, hquarantine]
    exact h.guardedFreed n hn
  · have hbufs : t.liveBufs { g with nodes := L' } = s.liveBufs g := by
      simp only [liveBufs, hnodes]
      exact List.map_congr_left fun n hn ↦ by rw [hrecord n hn]
    rw [hbufs, freedBufs, hquarantine]
    exact h.bufs
  · obtain ⟨id', m, hm, heq⟩ := hc.records id n hn
    rw [heq]
    exact h.interned id' m hm
  · rw [hquarantine]
    exact h.internedFreed n hn
  · rw [hfreed, hquarantine]
    exact h.history

/-- Nothing is left of earlier commands, and no two blocks of the snapshot have the same address. -/
structure Tidy (s : State) (g : Contents) : Prop where
  liveCopy : g.nodes .liveCopy = []
  snapshotCopy : g.nodes .snapshotCopy = []
  head : ∀ link, ∀ c ∈ g.callstacks, s.head link c = 0
  distinct : s.blocks.Distinct (g.nodes .snapshot)

theorem Tidy.withCopies_eq (h : s.Tidy g) : withCopies g.nodes [] [] = g.nodes := by
  have hself := withCopies_self g.nodes
  rwa [h.liveCopy, h.snapshotCopy] at hself

theorem head_congr (h : t.callstacks = s.callstacks) : t.head = s.head := by
  funext link c
  rw [head, head, h]

/-- A command has given back all copies and emptied all lists. -/
structure Restored (s : State) (g : Contents) (es : List Event) (t : State) : Prop where
  confined : Confined scratch s g.nodes es t g.nodes
  nodup : (copiedNodes es).Nodup
  head : ∀ link, ∀ c ∈ g.callstacks, t.head link c = 0

/-- A command has left copies behind, when the pool ran out of nodes. -/
structure Abandoned (s : State) (g : Contents) (C S : List ℕ) (t : State) : Prop where
  confined : ∃ es, Confined scratch s g.nodes es t (withCopies g.nodes C S) ∧ .mmapFailed ∈ es
  head : ∀ link, ∀ c ∈ g.callstacks, t.head link c = 0

/-- Where a command may fault: there are more blocks or callstacks than its counters can count, or a
block has no callstack. -/
def Faulty (s : State) (g : Contents) : Prop :=
  (∃ id ∈ [TableId.live, .snapshot], 2147483648 ≤ (g.nodes id).length ∨
    ∃ n ∈ g.nodes id, (s.blocks.record n).allocator = 0) ∨ 2147483648 ≤ g.callstacks.length

/-- The nodes that the pool gives for copies of `k` blocks. -/
def nodesFor (k : ℕ) (s : State) : List ℕ :=
  (takeNodes mcAllocateAllocMemblk k s.blocks.pool).1

/-! ### Copying -/

/-- The blocks copied are all of the table, if the pool had enough nodes. -/
theorem Duplicated.record_eq (h : Duplicated dest src L new s 0 t) (hs : s.blocks.Holds L) :
    new.map t.blocks.record = (s.blocks.tableNodes src).map s.blocks.record := by
  have hlen : new.length = (L src).length := by
    have hret := h.ret_eq
    split_ifs at hret with hlen
    exact hlen
  rw [h.copied.record, hlen, ← (hs.tableNodes_perm src).length_eq, List.take_length]

/-- No more copies are made than there are blocks. -/
theorem Duplicated.length_le {ret : ℤ} (h : Duplicated dest src L new s ret t)
    (hs : s.blocks.Holds L) : new.length ≤ (L src).length := by
  have hlen := congrArg List.length h.copied.record
  rw [List.length_map, List.length_map, List.length_take,
      (hs.tableNodes_perm src).length_eq] at hlen
  omega

theorem Duplicated.nodup {ret : ℤ} (h : Duplicated dest src L new s ret t) : new.Nodup := by
  have hnodup := (h.copied.holds.table dest).nodup
  rw [Function.update_self] at hnodup
  exact List.nodup_reverse.1 (List.nodup_append.1 hnodup).1

theorem Duplicated.nodesFor_eq {ret : ℤ} (h : Duplicated dest src L new s ret t) :
    s.nodesFor (L src).length = new := by
  rw [nodesFor, h.taken]

/-- Copying the live blocks. -/
theorem copyLive_spec (h : s.blocks.Holds g.nodes) (ht : s.Tidy g) :
    ∃ new ret t, s.mcDuplicateAllAllocMemblk .liveCopy .live = some (ret, t) ∧
      Duplicated .liveCopy .live g.nodes new s ret t ∧
      Confined scratch s g.nodes (new.map .copied ++ if ret = 0 then [] else [.mmapFailed]) t
        (withCopies g.nodes new.reverse []) ∧ t.callstacks = s.callstacks := by
  obtain ⟨new, ret, t, hrun, hdup⟩ : ∃ new ret t,
      s.mcDuplicateAllAllocMemblk .liveCopy .live = some (ret, t) ∧
        Duplicated .liveCopy .live g.nodes new s ret t := duplicate_spec h (by decide)
  have hlists : Function.update g.nodes .liveCopy (new.reverse ++ g.nodes .liveCopy) =
      withCopies g.nodes new.reverse [] := by
    rw [ht.liveCopy, List.append_nil, ← update_withCopies_liveCopy g.nodes [] _ [],
      ht.withCopies_eq]
  have hconfined : Confined scratch s g.nodes _ t _ := (hdup.confined h).mono (by simp)
  rw [hlists] at hconfined
  exact ⟨new, ret, t, hrun, hdup, hconfined, by rw [hdup.copied.rest]⟩

/-- The first part of both commands that compare. -/
def copyBoth (s : State) : Option (ℤ × State) := do
  let (ret, s) ← s.mcDuplicateAllAllocMemblk .liveCopy .live
  if ret ≠ 0 then return (ret, s)
  s.mcDuplicateAllAllocMemblk .snapshotCopy .snapshot

/-- The nodes `new` are copies of the live blocks and `new'` of those of the snapshot. -/
structure BothCopied (s : State) (g : Contents) (new new' : List ℕ) (t : State) : Prop where
  confined : Confined scratch s g.nodes ((new ++ new').map .copied) t
    (withCopies g.nodes new.reverse new'.reverse)
  nodup : (new ++ new').Nodup
  callstacks : t.callstacks = s.callstacks
  current : new.map t.blocks.record = (s.blocks.tableNodes .live).map s.blocks.record
  snapshot : new'.map t.blocks.record = (s.blocks.tableNodes .snapshot).map s.blocks.record
  stacked : t.blocks.Stacked .liveCopy new

/-- Copying both tables: it succeeds exactly if the pool has nodes for all copies. -/
theorem copyBoth_spec (h : s.blocks.Holds g.nodes) (ht : s.Tidy g) :
    ∃ ret t new new', s.copyBoth = some (ret, t) ∧
      s.nodesFor ((g.nodes .live).length + (g.nodes .snapshot).length) = new ++ new' ∧
      (ret = 0 ∧ (new ++ new').length = (g.nodes .live).length + (g.nodes .snapshot).length ∧
          BothCopied s g new new' t ∨
        ret = -1 ∧ (new ++ new').length ≠ (g.nodes .live).length + (g.nodes .snapshot).length ∧
          Abandoned s g new.reverse new'.reverse t) := by
  obtain ⟨new, ret, t, hrun, hdup, hconfined, hcallstacks⟩ := copyLive_spec h ht
  -- the nodes of both copies are those that the pool would give one after the other
  have hnodes := @takeNodes_add mcAllocateAllocMemblk _ (g.nodes .snapshot).length _ _ _ hdup.taken
  have hret := hdup.ret_eq
  rw [copyBoth, hrun]
  simp only [Option.bind_eq_bind, Option.bind_some]
  split_ifs at hnodes hret with hlen
  · subst hret
    have hholds : t.blocks.Holds (withCopies g.nodes new.reverse []) := hconfined.holds
    obtain ⟨new', ret', u, hrun', hdup'⟩ : ∃ new' ret' u,
        t.mcDuplicateAllAllocMemblk .snapshotCopy .snapshot = some (ret', u) ∧
          Duplicated .snapshotCopy .snapshot (withCopies g.nodes new.reverse []) new' t ret' u :=
      duplicate_spec hholds (by decide)
    have hsnap : withCopies g.nodes new.reverse [] .snapshot = g.nodes .snapshot := rfl
    -- the second copy reads a table that the first one has not touched
    have hboth : Confined scratch s g.nodes (new.map .copied ++
        (new'.map .copied ++ if ret' = 0 then [] else [.mmapFailed])) u
        (withCopies g.nodes new.reverse new'.reverse) := by
      have hsecond : Confined scratch t _ _ u _ := (hdup'.confined hholds).mono (by simp)
      rw [update_withCopies_snapshotCopy] at hsecond
      have hnil : withCopies g.nodes new.reverse [] .snapshotCopy = [] := rfl
      rw [hnil, List.append_nil] at hsecond
      rw [if_pos rfl, List.append_nil] at hconfined
      exact hconfined.trans hsecond
    have hcallstacks' : u.callstacks = s.callstacks := by
      rw [hdup'.copied.rest]
      exact hcallstacks
    have hhead : ∀ link, ∀ c ∈ g.callstacks, u.head link c = 0 := by
      rw [head_congr hcallstacks']
      exact ht.head
    have hnodes' := hdup'.nodesFor_eq
    rw [hsnap] at hnodes'
    rw [show (takeNodes mcAllocateAllocMemblk (g.nodes .snapshot).length t.blocks.pool).1 = new'
      from hnodes'] at hnodes
    have hret' := hdup'.ret_eq
    rw [hsnap] at hret'
    rw [if_neg (not_not_intro rfl)]
    refine ⟨ret', u, new, new', hrun', hnodes, ?_⟩
    rw [List.length_append, hlen]
    split_ifs at hret' with hlen'
    · subst hret'
      refine .inl ⟨rfl, by rw [hlen'], ?_, ?_, hcallstacks', ?_, ?_, ?_⟩
      · rw [if_pos rfl, List.append_nil, ← List.map_append] at hboth
        exact hboth
      · refine List.nodup_append.2 ⟨hdup.nodup, hdup'.nodup, ?_⟩
        rintro n hn m hm rfl
        exact hdup'.copied.fresh n hm ((hdup.copied.live n).2 (.inr hn))
      · rw [← hdup.record_eq h]
        refine List.map_congr_left fun n hn ↦ (hdup'.copied.same n fun hm ↦ ?_).record_eq
        exact hdup'.copied.fresh n hm ((hdup.copied.live n).2 (.inr hn))
      · have hnot : TableId.snapshot ∉ scratch := by simp
        rw [hdup'.record_eq hholds, hconfined.tableNodes_eq h hnot]
        refine List.map_congr_left fun n hn ↦ (hconfined.sameAt h hnot ?_).record_eq
        exact h.mem_tableNodes.1 hn
      · refine (hdup.copied.stacked ht.liveCopy).congr (hdup'.copied.table _ (by decide))
          fun n hn ↦ (hdup'.copied.same n fun hm ↦ ?_).memptr
        exact hdup'.copied.fresh n hm ((hdup.copied.live n).2 (.inr hn))
    · subst hret'
      rw [if_neg (by decide)] at hboth
      refine .inr ⟨rfl, ?_, ⟨_, hboth, by simp⟩, hhead⟩
      rwa [ne_eq, Nat.add_left_cancel_iff]
  · subst hret
    refine ⟨-1, t, new, [], rfl, by rw [nodesFor, hnodes, List.append_nil], .inr ⟨rfl, ?_, ?_⟩⟩
    · have hle := hdup.length_le h
      rw [List.append_nil]
      omega
    · rw [if_neg (by decide)] at hconfined
      refine ⟨⟨_, hconfined, by simp⟩, ?_⟩
      rw [head_congr hcallstacks]
      exact ht.head

/-- A copy that is faulty is the copy of a table that is. -/
theorem Faulty.of_copied (h : s.blocks.Holds g.nodes) (hid : id ∈ [TableId.live, .snapshot])
    (hmap : new.map t.blocks.record = (s.blocks.tableNodes id).map s.blocks.record)
    (hfault : 2147483648 ≤ new.length ∨ ∃ n ∈ new, (t.blocks.record n).allocator = 0) :
    s.Faulty g := by
  refine .inl ⟨id, hid, hfault.imp (fun hlong ↦ ?_) fun hnull ↦ ?_⟩
  · have hlen := congrArg List.length hmap
    rw [List.length_map, List.length_map, (h.tableNodes_perm id).length_eq] at hlen
    exact hlen ▸ hlong
  · obtain ⟨n, hn, hzero⟩ := hnull
    have hmem : t.blocks.record n ∈ (s.blocks.tableNodes id).map s.blocks.record :=
      hmap ▸ List.mem_map_of_mem hn
    obtain ⟨m, hm, heq⟩ := List.mem_map.1 hmem
    exact ⟨m, h.mem_tableNodes.1 hm, by rw [heq, hzero]⟩

/-! ### Giving back -/

/-- Giving back one of the copies. -/
theorem Confined.destroy (h : Confined scratch s L es t L') (id : TableId) (hid : id ∈ scratch) :
    ∃ (ns : List ℕ) (u : State), t.mcDestroyAllAllocMemblk id = some u ∧
      Confined scratch s L (es ++ ns.map .released) u (Function.update L' id []) ∧
      u.callstacks = t.callstacks :=
  ⟨_, _, destroy_eq h.holds id,
    h.trans ((confined_destroyed h.holds id).mono (List.cons_subset.2 ⟨hid, List.nil_subset _⟩)),
    callstacks_destroyed id t⟩

/-- Giving back both copies. -/
theorem Confined.destroyBoth {C S : List ℕ} (h : Confined scratch s L es t (withCopies L C S)) :
    ∃ (ns : List ℕ) (u : State),
      (t.mcDestroyAllAllocMemblk .liveCopy).bind (mcDestroyAllAllocMemblk .snapshotCopy) = some u ∧
      Confined scratch s L (es ++ ns.map .released) u (withCopies L [] []) ∧
      u.callstacks = t.callstacks := by
  obtain ⟨ns, v, hrun, hconfined, hcallstacks⟩ := h.destroy .liveCopy (by simp)
  obtain ⟨ms, u, hrun', hconfined', hcallstacks'⟩ := hconfined.destroy .snapshotCopy (by simp)
  rw [update_withCopies_liveCopy, update_withCopies_snapshotCopy, List.append_assoc,
    ← List.map_append] at hconfined'
  refine ⟨ns ++ ms, u, ?_, hconfined', hcallstacks'.trans hcallstacks⟩
  rw [hrun, Option.bind_some, hrun']

/-! ### The commands -/

/-- A command has returned, as the pool did not have the `k` nodes for all copies. -/
def OutOfNodes (k : ℕ) (s : State) (g : Contents) (x : ℤ × State) : Prop :=
  (s.nodesFor k).length ≠ k ∧ x.1 = -1 ∧ ∃ C S, C.length + S.length = (s.nodesFor k).length ∧
    Abandoned s g C S x.2

/-- What a command that makes `k` copies has come to, and in `Q` what it has printed of them. -/
def Finished (k : ℕ) (s : State) (g : Contents) (Q : List Event → Prop) (x : ℤ × State) : Prop :=
  (s.nodesFor k).length = k ∧ x.1 = 0 ∧ (∃ new es gone : List _, Q es ∧
      Restored s g ((new.map .copied ++ es) ++ gone.map .released) x.2) ∨ OutOfNodes k s g x

/-- A command that works on a copy of the live blocks. -/
theorem withCopy_spec (body : State → Option State) (Q : List Event → Prop)
    (h : s.blocks.Holds g.nodes) (ht : s.Tidy g)
    (hbody : ∀ (new : List ℕ) (t : State) (es : List Event),
      new.map t.blocks.record = (s.blocks.tableNodes .live).map s.blocks.record →
      Confined scratch s g.nodes es t (withCopies g.nodes new.reverse []) →
      t.callstacks = s.callstacks → Outcome (s.Faulty g) (body t) fun u ↦ ∃ es', Quiet es' ∧ Q es' ∧
        Confined scratch s g.nodes (es ++ es') u (withCopies g.nodes new.reverse []) ∧
        ∀ link, ∀ c ∈ g.callstacks, u.head link c = 0) :
    Outcome (s.Faulty g) ((s.mcDuplicateAllAllocMemblk .liveCopy .live).bind fun x ↦
        if x.1 ≠ 0 then some x
        else (body x.2).bind fun s ↦ (s.mcDestroyAllAllocMemblk .liveCopy).bind fun s ↦ some (0, s))
      (s.Finished (g.nodes .live).length g Q) := by
  obtain ⟨new, ret, t, hrun, hdup, hconfined, hcallstacks⟩ := copyLive_spec h ht
  have hret := hdup.ret_eq
  have hnodes := hdup.nodesFor_eq
  rw [hrun, Option.bind_some]
  split_ifs at hret with hlen
  · subst hret
    rw [if_pos rfl, List.append_nil] at hconfined
    rw [if_neg (not_not_intro rfl)]
    refine (hbody new t _ (hdup.record_eq h) hconfined hcallstacks).bind fun u hu ↦ ?_
    obtain ⟨es', hquiet, hQ, hconfined', hzero⟩ := hu
    obtain ⟨ns, v, hrun', hconfined'', hcallstacks'⟩ := hconfined'.destroy .liveCopy (by simp)
    rw [hrun', Option.bind_some]
    rw [update_withCopies_liveCopy, ht.withCopies_eq] at hconfined''
    refine .some (.inl ⟨by rw [hnodes, hlen], rfl, new, es', ns, hQ, hconfined'', ?_, ?_⟩)
    · rw [copiedNodes_append, copiedNodes_append, copiedNodes_map_copied, hquiet.copiedNodes_eq,
        copiedNodes_map_released, List.append_nil, List.append_nil]
      exact hdup.nodup
    · rw [head_congr hcallstacks']
      exact hzero
  · subst hret
    rw [if_neg (by decide)] at hconfined
    refine .some (.inr ⟨by rwa [hnodes], rfl, new.reverse, [], by rw [hnodes]; simp,
      ⟨_, hconfined, by simp⟩, ?_⟩)
    rw [head_congr hcallstacks]
    exact ht.head

/-- What is reported of the live blocks. -/
def entries (s : State) : List Entry :=
  (s.blocks.tableNodes .live).map s.entry

/-- What is reported of a block does not change with its node. -/
theorem map_entry_eq {ns ms : List ℕ} (hcallstacks : t.callstacks.traceOf = s.callstacks.traceOf)
    (hmap : ns.map t.blocks.record = ms.map s.blocks.record) : ns.map t.entry = ms.map s.entry := by
  let show_ (x : AllocRecord) : Entry :=
    ⟨x.usrptr, x.memblk.usrsize, s.callstacks.traceOf x.allocator⟩
  have hentry : t.entry = show_ ∘ t.blocks.record := by
    funext n
    rw [entry, hcallstacks]
    rfl
  have hentry' : s.entry = show_ ∘ s.blocks.record := rfl
  rw [hentry, hentry', ← List.map_map, hmap, List.map_map]

/-- The lines that are printed if the sort buffer is granted. -/
def Prints (granted : Bool) (P : List Entry → List Event → Prop) (s : State) (es : List Event) :
    Prop :=
  if granted then P s.entries es else es = [.mmapFailed]

/-- `mc_print_all_memblk`. -/
theorem printAllMemblk_spec (h : s.Inv g) (ht : s.Tidy g) (env : CommandEnv) :
    Outcome (s.Faulty g) (s.mcPrintAllMemblk env)
      (s.Finished (g.nodes .live).length g (Prints (env.sortBuffer 0) ListsBlocks s)) := by
  have hsplit : s.mcPrintAllMemblk env = (s.mcDuplicateAllAllocMemblk .liveCopy .live).bind fun x ↦
      if x.1 ≠ 0 then some x
      else (printAllMemblkOnHashtable (env.sortBuffer 0) .liveCopy x.2).bind fun s ↦
        (s.mcDestroyAllAllocMemblk .liveCopy).bind fun s ↦ some (0, s) := rfl
  rw [hsplit]
  refine withCopy_spec _ _ h.blocks ht fun new t es hmap hconfined hcallstacks ↦ ?_
  refine ((printAllMemblkOnHashtable_spec hconfined.holds .liveCopy (env.sortBuffer 0)).weaken
    fun hfault ↦ ?_).mono fun u hu ↦ ?_
  · have hcopy : withCopies g.nodes new.reverse [] .liveCopy = new.reverse := rfl
    rw [hcopy, List.length_reverse] at hfault
    simp only [List.mem_reverse] at hfault
    exact .of_copied h.blocks (by simp) hmap hfault
  · obtain ⟨es', rfl, hes'⟩ := hu
    have hquiet : Quiet es' := by
      split_ifs at hes'
      · obtain ⟨array, -, rfl⟩ := hes'
        exact quiet_lines fun _ _ ↦ quiet_singleton rfl
      · exact hes' ▸ quiet_mmapFailed
    have hprints : Prints (env.sortBuffer 0) ListsBlocks s es' := by
      rw [Prints]
      split_ifs at hes' ⊢
      · obtain ⟨array, hsorted, rfl⟩ := hes'
        have hcopy : withCopies g.nodes new.reverse [] .liveCopy = new.reverse := rfl
        rw [hcopy] at hsorted
        rw [entries, ← map_entry_eq (by rw [hcallstacks]) hmap]
        exact (listsBlocks_of_sortedBy hsorted).perm ((List.reverse_perm new).map _)
      · exact hes'
    refine ⟨es', hquiet, hprints, hconfined.emit hquiet, ?_⟩
    rw [head_congr (s := s) (t := t.emit es') hcallstacks]
    exact ht.head

/-- The callstacks of copies are interned. -/
theorem Confined.interned {ids : List TableId} (hc : Confined ids s g.nodes es t L') (h : s.Inv g)
    {n : ℕ} (hn : n ∈ L' id) :
    (t.blocks.record n).allocator = 0 ∨ (t.blocks.record n).allocator ∈ g.callstacks := by
  obtain ⟨id', m, hm, heq⟩ := hc.records id n hn
  rw [heq]
  exact h.interned id' m hm

/-- `mc_print_all_memblk_per_callstack`. -/
theorem printAllMemblkPerCallstackCommand_spec (h : s.Inv g) (ht : s.Tidy g) (env : CommandEnv) :
    Outcome (s.Faulty g) (s.mcPrintAllMemblkPerCallstack env)
      (s.Finished (g.nodes .live).length g (Prints (env.sortBuffer 0) ListsGroups s)) := by
  have hsplit : s.mcPrintAllMemblkPerCallstack env =
      (s.mcDuplicateAllAllocMemblk .liveCopy .live).bind fun x ↦
        if x.1 ≠ 0 then some x
        else ((x.2.mcLinkSameCallstackGroup .liveCopy .current).bind fun s ↦
          (printAllMemblkPerCallstack (env.sortBuffer 0) .current s).bind
            (mcResetSameCallstackGroup .current)).bind fun s ↦
          (s.mcDestroyAllAllocMemblk .liveCopy).bind fun s ↦ some (0, s) := by
    simp only [mcPrintAllMemblkPerCallstack, Option.bind_eq_bind, Option.bind_assoc]
    rfl
  rw [hsplit]
  refine withCopy_spec (fun s ↦ (s.mcLinkSameCallstackGroup .liveCopy .current).bind fun s ↦
    (printAllMemblkPerCallstack (env.sortBuffer 0) .current s).bind
      (mcResetSameCallstackGroup .current)) _ h.blocks ht
        fun new t es hmap hconfined hcallstacks ↦ ?_
  have hcs : t.callstacks.Holds g.callstacks := hcallstacks ▸ h.callstacks
  have hhead : ∀ link, ∀ c ∈ g.callstacks, t.head link c = 0 := by
    rw [head_congr hcallstacks]
    exact ht.head
  have hcopy : withCopies g.nodes new.reverse [] .liveCopy = new.reverse := rfl
  have hlink : Outcome _ (t.mcLinkSameCallstackGroup .liveCopy .current) _ :=
    linkGroup_spec hconfined.holds (fun n hn ↦ hconfined.interned h hn) (hhead .current)
  refine (hlink.weaken fun hnull ↦ ?_).bind fun v hv ↦ ?_
  · rw [hcopy] at hnull
    simp only [List.mem_reverse] at hnull
    exact .of_copied h.blocks (by simp) hmap (.inr hnull)
  obtain ⟨hrel, ⟨G, hgroup⟩, hattr⟩ := hv
  have hlinked := hconfined.relinked hrel fun n hn ↦ ⟨_, by simp, hn⟩
  have hprint := printAllMemblkPerCallstack_spec (hrel.callstacks.holds hcs) hgroup
    (hlinked.holds.live .liveCopy) (env.sortBuffer 0)
  refine (hprint.weaken .inr).bind fun w hw ↦ ?_
  obtain ⟨u, es', hsum, rfl, hes'⟩ := hw
  have hquiet : Quiet es' := by
    split_ifs at hes'
    · obtain ⟨order, array, -, -, -, rfl⟩ := hes'
      exact quiet_lines fun _ _ ↦ quiet_singleton rfl
    · exact hes' ▸ quiet_mmapFailed
  have hprints : Prints (env.sortBuffer 0) ListsGroups s es' := by
    rw [Prints]
    split_ifs at hes' ⊢
    · obtain ⟨order, array, hsorted, hnodup, hmem, rfl⟩ := hes'
      have htrace : v.callstacks.traceOf = s.callstacks.traceOf := by
        funext c
        rw [hrel.callstacks.traceOf_eq, hcallstacks]
      rw [entries, ← map_entry_eq htrace (by rw [hrel.record]; exact hmap)]
      rw [hcopy] at hgroup hattr
      refine (listsGroups_of_sortedBy (hrel.callstacks.holds hcs) hgroup ?_ (fun n hn ↦ ?_) hsorted
        hnodup hmem).perm ((List.reverse_perm new).map _)
      · exact (hconfined.holds.table .liveCopy).nodup
      · have hmem' : n ∈ withCopies g.nodes new.reverse [] .liveCopy := hn
        rw [hrel.record]
        exact (hconfined.interned h hmem').resolve_left (hattr n hn)
    · exact hes'
  have hprinted := (hlinked.resummed hsum).emit hquiet
  obtain ⟨z, hreset, hrel', -, hzero⟩ :=
    reset_spec (s := u.emit es') (hsum.callstacks.holds (hrel.callstacks.holds hcs)) .current
  rw [hreset]
  refine .some ⟨es', hquiet, hprints, hprinted.relinked hrel' (by simp), fun link c hc ↦ ?_⟩
  cases link with
  | current => exact hzero c hc
  | snapshot =>
    have hkeep : u.head .snapshot c = 0 :=
      (hsum.head _ _).trans ((hrel.head .snapshot c (by decide)).trans (hhead .snapshot c hc))
    exact (hrel'.head .snapshot c (by decide)).trans hkeep

/-! ### Making and destroying a snapshot -/

/-- `mc_create_snapshot` has given the old snapshot back, and the live blocks, or the first of them,
were copied to the nodes `new`. -/
structure Recreated (s : State) (g : Contents) (new : List ℕ) (ret : ℤ) (t : State) : Prop where
  confined : ∃ es, Confined [.snapshot] s g.nodes es t
    (Function.update g.nodes .snapshot new.reverse) ∧ (.mmapFailed ∈ es ↔ ret ≠ 0)
  callstacks : t.callstacks = s.callstacks
  record : new.map t.blocks.record =
    ((s.blocks.tableNodes .live).take new.length).map s.blocks.record
  taken : takeNodes mcAllocateAllocMemblk (g.nodes .live).length
      (s.destroyed .snapshot).blocks.pool =
    (new, t.blocks.pool)
  ret_eq : ret = if new.length = (g.nodes .live).length then 0 else -1

theorem Recreated.nodesFor_eq {new : List ℕ} {ret : ℤ} (h : Recreated s g new ret t) :
    (s.destroyed .snapshot).nodesFor (g.nodes .live).length = new := by
  rw [nodesFor, h.taken]

/-- `mc_create_snapshot`. -/
theorem createSnapshot_spec (h : s.blocks.Holds g.nodes) :
    ∃ new ret t, s.mcCreateSnapshot = some (ret, t) ∧ Recreated s g new ret t := by
  have hdestroyed := confined_destroyed h .snapshot
  obtain ⟨new, ret, t, hrun, hdup⟩ : ∃ new ret t,
      (s.destroyed .snapshot).mcDuplicateAllAllocMemblk .snapshot .live = some (ret, t) ∧
        Duplicated .snapshot .live (Function.update g.nodes .snapshot []) new
          (s.destroyed .snapshot) ret t := duplicate_spec hdestroyed.holds (by decide)
  have hnot : TableId.live ∉ [TableId.snapshot] := by decide
  have hlive : Function.update g.nodes .snapshot [] .live = g.nodes .live := rfl
  have htaken := hdup.taken
  have hret := hdup.ret_eq
  rw [hlive] at htaken hret
  have hcopied := hdup.confined hdestroyed.holds
  rw [Function.update_self, List.append_nil, Function.update_idem] at hcopied
  refine ⟨new, ret, t, ?_, ⟨_, hdestroyed.trans hcopied, ?_⟩, ?_, ?_, htaken, hret⟩
  · rw [mcCreateSnapshot, destroy_eq h, Option.bind_eq_bind, Option.bind_some, hrun]
  · by_cases hzero : ret = 0 <;> simp [hzero]
  · rw [hdup.copied.rest]
    exact callstacks_destroyed .snapshot s
  · rw [hdup.copied.record, hdestroyed.tableNodes_eq h hnot]
    refine List.map_congr_left fun n hn ↦ (hdestroyed.sameAt h hnot ?_).record_eq
    exact h.mem_tableNodes.1 (List.mem_of_mem_take hn)

end State

end Memchk
