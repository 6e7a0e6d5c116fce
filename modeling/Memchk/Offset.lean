import Memchk.Groups
import Memchk.Library.Cancelling

/-!
# Cancelling the copies against each other

`offset_snapshot_against_current_alloc_memblk` goes through the copy of the live blocks and cancels
each block against one of the copy of the snapshot with the same size and callstack, if there is
one. `Offsetting` is its invariant. A pair that was cancelled is in no table and in no list any
more; its nodes are given back when the loop has come to the next block, since the loop still reads
the link of one of them.

## Choosing a partner

For a block the loop first looks in the snapshot for one with the same pointer, and takes it if size
and callstack agree. Otherwise it walks the list of the callstack and takes the first block of the
same size. `Preferring` records the first choice, for it decides which addresses are printed.

## Taking out a pair

Both blocks leave their tables and their lists (`removeBoth`, `unlinkBoth`). Each of the two lemmas
says which nodes are left and that every other node is the same.

## The invariant

`Offsetting L cs s gone held kept rest S t`: the pairs `gone` were given back, the pair `held` waits
for it, `kept` are the blocks passed without partner, `rest` those still to come, and `S` what is
left of the snapshot. No block of `kept` has a partner in `S`, and that stays true, as `S` only
shrinks. At the end `rest` is empty and the pair held is given back.

The lookups check each node they read for being allocated (`findChecked`); under the invariant they
are the lookups of the tables (`Holds.findChecked_eq`).
-/

namespace Memchk

/-- The contents of the tables, with other contents of the two copies. -/
def withCopies (L : TableId → List ℕ) (C S : List ℕ) : TableId → List ℕ
  | .liveCopy => C
  | .snapshotCopy => S
  | .live => L .live
  | .snapshot => L .snapshot

theorem withCopies_self (L : TableId → List ℕ) :
    withCopies L (L .liveCopy) (L .snapshotCopy) = L := by
  funext id
  cases id <;> rfl

theorem update_withCopies_liveCopy (L : TableId → List ℕ) (C C' S : List ℕ) :
    Function.update (withCopies L C S) .liveCopy C' = withCopies L C' S := by
  funext id
  cases id <;> rfl

theorem update_withCopies_snapshotCopy (L : TableId → List ℕ) (C S S' : List ℕ) :
    Function.update (withCopies L C S) .snapshotCopy S' = withCopies L C S' := by
  funext id
  cases id <;> rfl

theorem withCopies_withCopies (L : TableId → List ℕ) (C C' S S' : List ℕ) :
    withCopies (withCopies L C S) C' S' = withCopies L C' S' := by
  funext id
  cases id <;> rfl

namespace Blocks

variable {b : Blocks} {L : TableId → List ℕ} {id : TableId}

/-- No two of the nodes have the same key. -/
def Distinct (b : Blocks) (ns : List ℕ) : Prop :=
  ∀ m ∈ ns, ∀ n ∈ ns, (b.record m).usrptr = (b.record n).usrptr → m = n

/-- A search reads nodes of the table only. -/
theorem checkSearch_eq {t : PtrStore} {ptr rounds p : ℕ} {l : List ℕ} (hl : Linked t.next 0 p l)
    (hlen : l.length < rounds) (hlive : ∀ n ∈ l, n ∈ b.pool.live allocMemblkSize) :
    b.checkSearch ptr t rounds p = some () := by
  induction l generalizing p rounds with
  | nil =>
    obtain ⟨k, rfl⟩ := Nat.exists_eq_succ_of_ne_zero (by omega : rounds ≠ 0)
    rw [Linked.nil_iff] at hl
    rw [checkSearch, if_pos hl]
  | cons n l ih =>
    obtain ⟨k, rfl⟩ := Nat.exists_eq_succ_of_ne_zero (by omega : rounds ≠ 0)
    obtain ⟨rfl, hnull, hrest⟩ := hl
    rw [List.length_cons] at hlen
    rw [checkSearch, if_neg hnull, check_of_live (hlive p List.mem_cons_self)]
    simp only [Option.bind_eq_bind, Option.bind_some]
    split_ifs
    · rfl
    · exact ih hrest (by omega) fun n hn ↦ hlive n (List.mem_cons_of_mem _ hn)

/-- A search reads nodes that are allocated only. -/
theorem Holds.checkSearch (h : b.Holds L) (id : TableId) (ptr : ℕ) :
    b.checkSearch ptr (b.ptrStore id) b.rounds
      (b.table id (calcPtrHash ptr allocMemptrHashtableSize)) = some () := by
  obtain ⟨K, hK, hrounds, heq, hperm⟩ := h.buckets id
  have hi := @calcPtrHash_mem allocMemptrHashtableSize (by decide) (by decide) ptr
  refine checkSearch_eq (hK.linked _ hi) (hrounds _ hi) fun n hn ↦ h.live id n (hperm.subset ?_)
  rw [heq]
  exact List.mem_flatMap.2 ⟨_, hi, hn⟩

theorem Holds.findChecked_eq (h : b.Holds L) (id : TableId) (ptr : ℕ) :
    b.findChecked id ptr = b.find id ptr := by
  rw [findChecked, h.checkSearch]
  rfl

theorem Holds.removeChecked_eq (h : b.Holds L) (id : TableId) (ptr : ℕ) :
    b.removeChecked id ptr = b.remove id ptr := by
  rw [removeChecked, h.checkSearch]
  rfl

/-- The node was taken out of a table, in which the nodes `ns` were. -/
structure Removed (id : TableId) (ns : List ℕ) (n : ℕ) (b b' : Blocks) : Prop where
  record : b'.record = b.record
  pool : b'.pool = b.pool
  table : ∀ id', id' ≠ id → b'.table id' = b.table id'
  prev : b'.sameCallstackGroupPrev = b.sameCallstackGroupPrev
  next : b'.sameCallstackGroupNext = b.sameCallstackGroupNext
  memptr : ∀ m ∉ ns, b'.memptr m = b.memptr m
  ahead : ∀ rest, Ahead (b.ptrStore id).next 0 b.hashOf n rest →
    ∀ m ∈ n :: rest, b'.memptr m = b.memptr m
  head : ∀ i, i ≠ b.hashOf n → b'.table id i = b.table id i

theorem Removed.same {ns : List ℕ} {b' : Blocks} {m n : ℕ} (h : Removed id ns n b b')
    (hm : m ∉ ns) :
    b.SameAt b' m :=
  ⟨h.memptr m hm, congrArg AllocRecord.memblk (congrFun h.record m),
    congrArg AllocRecord.allocator (congrFun h.record m), congrFun h.prev m, congrFun h.next m⟩

/-- Removing a node of a table, by its key. -/
theorem Holds.removeChecked {n : ℕ} (h : b.Holds L) (id : TableId) (hn : n ∈ L id)
    (hkeys : b.Distinct (L id)) :
    ∃ b', b.removeChecked id (b.memptr n).ptr = some (n, b') ∧
      b'.Holds (Function.update L id ((L id).erase n)) ∧ Removed id (L id) n b b' := by
  rw [h.removeChecked_eq]
  rcases h.remove id (b.memptr n).ptr with ⟨hnone, -⟩ |
    ⟨m, hm, b', hkey, -, hremove, hholds, -, hrecord, hpool, htable, hprev, hnext, hother, hahead,
      hhead⟩
  · exact absurd rfl (hnone n hn)
  · obtain rfl := hkeys m hm n hn hkey
    exact ⟨b', hremove, hholds, hrecord, hpool, htable, hprev, hnext, hother, hahead, hhead⟩

end Blocks

namespace State

variable {s t : State} {L : TableId → List ℕ} {link : LinkIndex} {cs ns : List ℕ} {n m : ℕ}

/-- What two blocks must have in common to be cancelled against each other. -/
def kind (s : State) (n : ℕ) : ℕ × ℕ :=
  ((s.blocks.record n).allocator, (s.blocks.record n).memblk.usrsize)

/-- The address of a block. -/
def usrptr (s : State) (n : ℕ) : ℕ :=
  (s.blocks.record n).usrptr

/-- The last loop of the search for a partner. -/
theorem findInGroup_eq {b : Blocks} {usrsize rounds p : ℕ} {l : List ℕ}
    (hl : Linked b.sameCallstackGroupNext 0 p l) (hlen : l.length < rounds)
    (hlive : ∀ n ∈ l, n ∈ b.pool.live allocMemblkSize) :
    ∃ m, findInGroup usrsize b rounds p = some m ∧
      (m = 0 ∧ (∀ k ∈ l, usrsize ≠ (b.record k).memblk.usrsize) ∨
        m ∈ l ∧ usrsize = (b.record m).memblk.usrsize) := by
  induction l generalizing p rounds with
  | nil =>
    obtain ⟨k, rfl⟩ := Nat.exists_eq_succ_of_ne_zero (by omega : rounds ≠ 0)
    rw [Linked.nil_iff] at hl
    rw [findInGroup, if_pos hl]
    exact ⟨0, rfl, .inl ⟨rfl, by simp⟩⟩
  | cons n l ih =>
    obtain ⟨k, rfl⟩ := Nat.exists_eq_succ_of_ne_zero (by omega : rounds ≠ 0)
    obtain ⟨rfl, hnull, hrest⟩ := hl
    rw [List.length_cons] at hlen
    rw [findInGroup, if_neg hnull, Blocks.check_of_live (hlive p List.mem_cons_self)]
    simp only [Option.bind_eq_bind, Option.bind_some]
    split_ifs with hsize
    · exact ⟨p, rfl, .inr ⟨List.mem_cons_self, hsize⟩⟩
    · obtain ⟨m, hm, ⟨rfl, hnone⟩ | ⟨hmem, hsize'⟩⟩ :=
        ih hrest (by omega : l.length < k) fun n hn ↦ hlive n (List.mem_cons_of_mem _ hn)
      · refine ⟨0, hm, .inl ⟨rfl, fun j hj ↦ ?_⟩⟩
        rcases List.mem_cons.1 hj with rfl | hj
        · exact hsize
        · exact hnone j hj
      · exact ⟨m, hm, .inr ⟨List.mem_cons_of_mem _ hmem, hsize'⟩⟩

/-- The search for a partner finds one if there is one, and the one with the same address if there
is that. -/
theorem findSnapshotMemblk_spec {G : ℕ → List ℕ} (h : s.blocks.Holds L)
    (hcs : s.callstacks.Holds cs) (hgroup : Grouped .snapshot cs (L .snapshotCopy) G s)
    (hkeys : s.blocks.Distinct (L .snapshotCopy))
    (hattr : ∀ m ∈ L .snapshotCopy, (s.blocks.record m).allocator ∈ cs)
    (hn : n ∈ s.blocks.pool.live allocMemblkSize) (hc : (s.blocks.record n).allocator ∈ cs) :
    ∃ m, s.findSnapshotMemblk n = some m ∧
      (m = 0 ∧ (∀ k ∈ L .snapshotCopy, s.kind n ≠ s.kind k) ∨
        m ∈ L .snapshotCopy ∧ s.kind n = s.kind m ∧
          ∀ k ∈ L .snapshotCopy, s.kind n = s.kind k → s.usrptr n = s.usrptr k → k = m) := by
  rw [findSnapshotMemblk, Blocks.check_of_live hn]
  simp only [Option.bind_eq_bind, Option.bind_some]
  -- the block with the same address, if it matches
  obtain ⟨m, hm, hcases⟩ : ∃ m, s.findSameMemblk n = some m ∧
      (m = 0 ∧ (∀ k ∈ L .snapshotCopy, s.kind n = s.kind k → s.usrptr n ≠ s.usrptr k) ∨
        m ∈ L .snapshotCopy ∧ s.kind n = s.kind m ∧ s.usrptr n = s.usrptr m) := by
    rw [findSameMemblk, h.findChecked_eq]
    rcases h.find .snapshotCopy (s.blocks.memptr n).ptr with ⟨hnone, hfind⟩ | ⟨m, hm, hptr, hfind⟩
    · exact ⟨0, by rw [hfind]; rfl, .inl ⟨rfl, fun k hk _ hptr ↦ hnone k hk hptr.symm⟩⟩
    · rw [hfind]
      simp only [Option.bind_eq_bind, Option.bind_some, if_neg (h.ne_null hm)]
      have honly : ∀ k ∈ L .snapshotCopy, s.usrptr n = s.usrptr k → k = m := fun k hk hptr' ↦
        hkeys k hk m hm (hptr'.symm.trans hptr.symm)
      split_ifs with hsize hnull hmatch
      · exact absurd hnull (not_or.2 ⟨hcs.ne_null hc, hcs.ne_null (hattr m hm)⟩)
      · have hsame := hcs.inj _ hc _ (hattr m hm) (mcMatchCallstack_iff.1 hmatch)
        exact ⟨m, rfl, .inr ⟨hm, Prod.ext hsame hsize, hptr.symm⟩⟩
      · refine ⟨0, rfl, .inl ⟨rfl, fun k hk hkind hptr' ↦ hmatch (mcMatchCallstack_iff.2 ?_)⟩⟩
        obtain rfl := honly k hk hptr'
        exact congrArg (fun c ↦ (s.callstacks.node c).trace) (Prod.mk.inj hkind).1
      · refine ⟨0, rfl, .inl ⟨rfl, fun k hk hkind hptr' ↦ hsize ?_⟩⟩
        obtain rfl := honly k hk hptr'
        exact (Prod.mk.inj hkind).2
  rw [hm, Option.bind_some]
  rcases hcases with ⟨rfl, hapart⟩ | ⟨hmem, hkind, hptr⟩
  · -- the list of the callstack
    have hgroupEq : s.group (s.blocks.allocator n) .snapshot =
        some (s.head .snapshot (s.blocks.record n).allocator) := if_neg (hcs.ne_null hc)
    have hsub : ∀ k ∈ G (s.blocks.record n).allocator, k ∈ L .snapshotCopy := fun k hk ↦
      ((hgroup.mem_iff _ hc k).1 hk).1
    have hlen : (G (s.blocks.record n).allocator).length < s.blocks.rounds :=
      lt_of_le_of_lt ((hgroup.nodup hc).length_le_of_subset hsub) (h.length_lt_rounds .snapshotCopy)
    obtain ⟨m, hfind, hcases⟩ := @findInGroup_eq _ (s.blocks.memblk n).usrsize _ _ _
      (hgroup.linked _ hc).linked hlen fun k hk ↦ h.live _ k (hsub k hk)
    simp only [ne_eq, not_true_eq_false, if_false, hgroupEq, Option.bind_some]
    refine ⟨m, hfind, hcases.imp (fun hnone ↦ ⟨hnone.1, fun k hk heq ↦ ?_⟩) fun hfound ↦ ?_⟩
    · obtain ⟨halloc, hsize⟩ := Prod.mk.inj heq
      exact hnone.2 k ((hgroup.mem_iff _ hc k).2 ⟨hk, halloc.symm⟩) hsize
    · obtain ⟨hmem, halloc⟩ := (hgroup.mem_iff _ hc m).1 hfound.1
      exact ⟨hmem, Prod.ext halloc.symm hfound.2, fun k hk hkind hptr ↦
        absurd hptr (hapart k hk hkind)⟩
  · rw [if_pos (h.ne_null hmem)]
    exact ⟨m, rfl, .inr ⟨hmem, hkind, fun k hk _ hptr' ↦
      hkeys k hk m hmem (hptr'.symm.trans hptr)⟩⟩

/-! ### Giving back what was cancelled -/

theorem releaseAll_nil (s : State) : s.releaseAll [] = s := by
  simp [releaseAll, freeNodes, Blocks.withPool]

/-- Nodes in no table are given back. -/
theorem holds_releaseAll (h : s.blocks.Holds L) (hnodup : ns.Nodup)
    (hlive : ∀ n ∈ ns, n ∈ s.blocks.pool.live allocMemblkSize)
    (hnot : ∀ n ∈ ns, ∀ id, n ∉ L id) :
    (s.releaseAll ns).blocks.Holds L ∧
      ∀ n, n ∈ (s.releaseAll ns).blocks.pool.live allocMemblkSize ↔
        n ∈ s.blocks.pool.live allocMemblkSize ∧ n ∉ ns := by
  obtain ⟨hinv, hlive'⟩ := freeNodes_spec h.pool hlive hnodup
  refine ⟨⟨hinv, fun id ↦ (h.table id).congr rfl fun _ _ ↦ rfl, fun id n hn ↦ ?_, h.disjoint⟩,
    hlive'⟩
  exact (hlive' n).2 ⟨h.live id n hn, fun hmem ↦ hnot n hmem id hn⟩

/-- The nodes of the pairs, in the order in which they are given back. -/
def pairNodes (M : List (ℕ × ℕ)) : List ℕ :=
  M.flatMap fun p ↦ [p.2, p.1]

/-- The two calls at the begin of the body of the loop. -/
theorem free_held (held : Option (ℕ × ℕ)) (hne : ∀ p ∈ held, p.1 ≠ 0 ∧ p.2 ≠ 0) (s : State) :
    (s.freeAllocMemblkIfNotNull (held.elim 0 Prod.snd)).freeAllocMemblkIfNotNull
      (held.elim 0 Prod.fst) = s.releaseAll (pairNodes held.toList) := by
  cases held with
  | none => exact (releaseAll_nil s).symm
  | some p =>
    obtain ⟨hfst, hsnd⟩ := hne p rfl
    have hone := releaseMemblk_releaseAll (n := p.2) [] s
    rw [releaseAll_nil] at hone
    show (s.freeAllocMemblkIfNotNull p.2).freeAllocMemblkIfNotNull p.1 = s.releaseAll [p.2, p.1]
    rw [freeAllocMemblkIfNotNull, freeAllocMemblkIfNotNull, if_neg hfst, if_neg hsnd, hone,
      releaseMemblk_releaseAll]
    rfl

/-! ### The loop -/

/-- The part of the body of the loop that takes two blocks out of the copies and lists. -/
def cancelPair (n m : ℕ) (s : State) : Option State := do
  let (_, blocks) ← s.blocks.removeChecked .snapshotCopy (s.blocks.memptr m).ptr
  let s := { s with blocks := blocks }
  let (_, blocks) ← s.blocks.removeChecked .liveCopy (s.blocks.memptr n).ptr
  let s := { s with blocks := blocks }
  let s ← s.mcUnlinkMemblkFromCallstack m (s.blocks.allocator m) .snapshot
  s.mcUnlinkMemblkFromCallstack n (s.blocks.allocator n) .current

/-- Two copies that can be cancelled against each other: every block has a callstack, and no two
blocks of one copy have the same address. -/
structure Comparable (s : State) (L : TableId → List ℕ) (cs : List ℕ) : Prop where
  holds : s.blocks.Holds L
  callstacks : s.callstacks.Holds cs
  current : ∀ n ∈ L .liveCopy, (s.blocks.record n).allocator ∈ cs
  snapshot : ∀ n ∈ L .snapshotCopy, (s.blocks.record n).allocator ∈ cs
  currentKeys : s.blocks.Distinct (L .liveCopy)
  snapshotKeys : s.blocks.Distinct (L .snapshotCopy)

/-- The pairs `gone` were cancelled and given back, and the pair `held` was cancelled. Of the first
copy the blocks `kept` were kept and `rest` is still to come, of the other the blocks `S` are left.
Nothing else has changed. -/
structure Offsetting (L : TableId → List ℕ) (cs : List ℕ) (s : State) (gone : List (ℕ × ℕ))
    (held : Option (ℕ × ℕ)) (kept rest S : List ℕ) (t : State) : Prop where
  cancelling : Cancelling s.kind (L .liveCopy) (L .snapshotCopy) (gone ++ held.toList) kept rest S
  preferring : Preferring s.kind s.usrptr (L .liveCopy) rest S
  firstCome : ∃ done, s.blocks.tableNodes .liveCopy = done ++ rest ∧
    FirstCome s.kind (L .liveCopy) (L .snapshotCopy) kept done
  holds : t.blocks.Holds (withCopies L (kept ++ rest) S)
  current : ∃ G, Grouped .current cs (kept ++ rest) G t
  snapshot : ∃ G, Grouped .snapshot cs S G t
  record : t.blocks.record = s.blocks.record
  same : ∀ n, n ∉ L .liveCopy → n ∉ L .snapshotCopy → s.blocks.SameAt t.blocks n
  table : ∀ id, id ≠ .liveCopy → id ≠ .snapshotCopy → t.blocks.table id = s.blocks.table id
  callstacks : s.callstacks.Alike t.callstacks
  rest : t = { s with blocks := t.blocks, callstacks := t.callstacks, trace := t.trace }
  trace : t.trace = s.trace ++ (pairNodes gone).map .released
  live : ∀ n, n ∈ t.blocks.pool.live allocMemblkSize ↔
    n ∈ s.blocks.pool.live allocMemblkSize ∧ n ∉ pairNodes gone

variable {gone : List (ℕ × ℕ)} {held : Option (ℕ × ℕ)} {kept rest S : List ℕ}

theorem pairNodes_append (M N : List (ℕ × ℕ)) : pairNodes (M ++ N) = pairNodes M ++ pairNodes N :=
  List.flatMap_append

namespace Offsetting

/-- Before the first round. -/
theorem init {order : List ℕ} (hs : Comparable s L cs)
    (hcurrent : ∃ G, Grouped .current cs (L .liveCopy) G s)
    (hsnapshot : ∃ G, Grouped .snapshot cs (L .snapshotCopy) G s)
    (horder : s.blocks.tableNodes .liveCopy = order) :
    Offsetting L cs s [] none [] order (L .snapshotCopy) s := by
  have hperm : (L .liveCopy).Perm order := horder ▸ (hs.holds.tableNodes_perm .liveCopy).symm
  refine ⟨.init hperm, .init hperm.subset, ⟨[], horder, .init⟩, hs.holds.perm fun id ↦ ?_, ?_,
    hsnapshot, rfl, fun n _ _ ↦ .refl _ n, fun _ _ _ ↦ rfl, .refl _, rfl,
    (List.append_nil _).symm, fun n ↦ by simp [pairNodes]⟩
  · cases id with
    | liveCopy => exact hperm
    | snapshotCopy | live | snapshot => exact List.Perm.refl _
  · obtain ⟨G, hG⟩ := hcurrent
    exact ⟨G, hG.perm hperm⟩

/-- No node occurs twice among the cancelled ones and those in the copies. -/
theorem nodup (h : Offsetting L cs s gone held kept rest S t) (hs : Comparable s L cs) :
    (pairNodes gone ++ (pairNodes held.toList ++ (kept ++ rest ++ S))).Nodup := by
  have hperm := h.cancelling.perm_append
  rw [← pairNodes, pairNodes_append, List.append_assoc] at hperm
  refine hperm.nodup_iff.1 (List.nodup_append.2 ⟨(hs.holds.table _).nodup,
    (hs.holds.table _).nodup, fun n hn m hm heq ↦ ?_⟩)
  exact hs.holds.disjoint .liveCopy .snapshotCopy (by decide) hn (heq ▸ hm)

/-- A node that was cancelled belongs to one of the copies. -/
theorem mem_copies (h : Offsetting L cs s gone held kept rest S t)
    (hn : n ∈ pairNodes gone ++ (pairNodes held.toList ++ (kept ++ rest ++ S))) :
    n ∈ L .liveCopy ∨ n ∈ L .snapshotCopy := by
  have hperm := h.cancelling.perm_append
  rw [← pairNodes, pairNodes_append, List.append_assoc] at hperm
  exact List.mem_append.1 (hperm.mem_iff.2 hn)

/-- The nodes of the held pair are taken from the pool and in no table. -/
theorem held_spec (h : Offsetting L cs s gone held kept rest S t) (hs : Comparable s L cs) :
    (pairNodes held.toList).Nodup ∧
      (∀ n ∈ pairNodes held.toList, n ∈ t.blocks.pool.live allocMemblkSize) ∧
      ∀ n ∈ pairNodes held.toList, ∀ id, n ∉ withCopies L (kept ++ rest) S id := by
  have hnodup := h.nodup hs
  obtain ⟨-, hnodup', hgone⟩ := List.nodup_append.1 hnodup
  obtain ⟨hheld, -, hleft⟩ := List.nodup_append.1 hnodup'
  have hcopies : ∀ n ∈ pairNodes held.toList, n ∈ L .liveCopy ∨ n ∈ L .snapshotCopy := fun n hn ↦
    h.mem_copies (List.mem_append_right _ (List.mem_append_left _ hn))
  refine ⟨hheld, fun n hn ↦ (h.live n).2 ⟨?_, fun hmem ↦ ?_⟩, fun n hn id hmem ↦ ?_⟩
  · exact (hcopies n hn).elim (hs.holds.live _ n) (hs.holds.live _ n)
  · exact hgone n hmem n (List.mem_append_left _ hn) rfl
  · cases id with
    | liveCopy => exact hleft n hn n (List.mem_append_left _ hmem) rfl
    | snapshotCopy => exact hleft n hn n (List.mem_append_right _ hmem) rfl
    | live =>
      exact (hcopies n hn).elim (hs.holds.disjoint .live .liveCopy (by decide) hmem)
        (hs.holds.disjoint .live .snapshotCopy (by decide) hmem)
    | snapshot =>
      exact (hcopies n hn).elim (hs.holds.disjoint .snapshot .liveCopy (by decide) hmem)
        (hs.holds.disjoint .snapshot .snapshotCopy (by decide) hmem)

/-- The held pair is given back. -/
theorem flush (h : Offsetting L cs s gone held kept rest S t) (hs : Comparable s L cs) :
    Offsetting L cs s (gone ++ held.toList) none kept rest S
      (t.releaseAll (pairNodes held.toList)) := by
  obtain ⟨hnodup, hlive, hnot⟩ := h.held_spec hs
  obtain ⟨hholds, hlive'⟩ := holds_releaseAll h.holds hnodup hlive hnot
  obtain ⟨G, hG⟩ := h.current
  obtain ⟨G', hG'⟩ := h.snapshot
  refine ⟨?_, h.preferring, h.firstCome, hholds, ⟨G, hG.linked, hG.mem_iff⟩,
    ⟨G', hG'.linked, hG'.mem_iff⟩, h.record, fun n hn hn' ↦ (h.same n hn hn').trans
      ⟨rfl, rfl, rfl, rfl, rfl⟩, h.table, h.callstacks, ?_, ?_, fun n ↦ ?_⟩
  · rw [Option.toList_none, List.append_nil]
    exact h.cancelling
  · rw [h.rest]
    rfl
  · show t.trace ++ _ = _
    rw [h.trace, pairNodes_append, List.map_append, List.append_assoc]
  · rw [hlive', h.live, pairNodes_append, List.mem_append, not_or]
    exact and_assoc

/-- The blocks that the loop has come to. -/
theorem exists_done (h : Offsetting L cs s gone none kept (n :: rest) S t)
    (hs : Comparable s L cs) : ∃ done, s.blocks.tableNodes .liveCopy = done ++ [n] ++ rest ∧
      (L .liveCopy).Perm (done ++ n :: rest) ∧
      FirstCome s.kind (L .liveCopy) (L .snapshotCopy) kept done := by
  obtain ⟨done, horder, hfirst⟩ := h.firstCome
  refine ⟨done, ?_, ?_, hfirst⟩
  · rw [List.append_assoc, List.singleton_append]
    exact horder
  · rw [← horder]
    exact (hs.holds.tableNodes_perm .liveCopy).symm

/-- A block without a partner is kept. -/
theorem keep (h : Offsetting L cs s gone none kept (n :: rest) S t) (hs : Comparable s L cs)
    (hnone : ∀ b ∈ S, s.kind n ≠ s.kind b) : Offsetting L cs s gone none
    (kept ++ [n]) rest S t := by
  obtain ⟨done, horder, hdone, hfirst⟩ := h.exists_done hs
  have hlist : kept ++ n :: rest = kept ++ [n] ++ rest := by
    rw [List.append_assoc, List.singleton_append]
  refine ⟨h.cancelling.keep hnone, h.preferring.step (List.Subset.refl _)
    fun b hb hkind ↦ absurd hkind (hnone b hb),
    ⟨_, horder, hfirst.keep h.cancelling hdone hnone⟩, ?_, ?_, h.snapshot, h.record, h.same,
    h.table, h.callstacks, h.rest, h.trace, h.live⟩
  · rw [← hlist]
    exact h.holds
  · rw [← hlist]
    exact h.current

/-- The nodes of the two copies are different, and none occurs twice. -/
theorem lists (h : Offsetting L cs s gone held kept rest S t) (hs : Comparable s L cs) :
    (kept ++ rest).Nodup ∧ S.Nodup ∧ (kept ++ rest).Disjoint S := by
  obtain ⟨-, hnodup, -⟩ := List.nodup_append.1 (h.nodup hs)
  obtain ⟨-, hnodup, -⟩ := List.nodup_append.1 hnodup
  obtain ⟨hkept, hS, hapart⟩ := List.nodup_append.1 hnodup
  exact ⟨hkept, hS, fun _ hn hm ↦ hapart _ hn _ hm rfl⟩

/-- What is left of the copies belonged to them. -/
theorem subset (h : Offsetting L cs s gone held kept rest S t) :
    (∀ n ∈ kept ++ rest, n ∈ L .liveCopy) ∧ ∀ n ∈ S, n ∈ L .snapshotCopy :=
  ⟨fun _ hn ↦ h.cancelling.left.mem_iff.2 (List.mem_append_right _ hn),
    fun _ hn ↦ h.cancelling.right.mem_iff.2 (List.mem_append_right _ hn)⟩

/-- Two blocks are taken out of the tables of their copies. -/
theorem removeBoth (h : Offsetting L cs s gone held kept rest S t) (hs : Comparable s L cs)
    (hn : n ∈ kept ++ rest) (hm : m ∈ S) :
    ∃ b₁ b₂, t.blocks.removeChecked .snapshotCopy (t.blocks.memptr m).ptr = some (m, b₁) ∧
      b₁.removeChecked .liveCopy (b₁.memptr n).ptr = some (n, b₂) ∧
      Blocks.Removed .snapshotCopy S m t.blocks b₁ ∧
      Blocks.Removed .liveCopy (kept ++ rest) n b₁ b₂ ∧
      b₂.Holds (withCopies L ((kept ++ rest).erase n) (S.erase m)) := by
  obtain ⟨hsubC, hsubS⟩ := h.subset
  obtain ⟨b₁, hrun₁, hholds₁, hrem₁⟩ := h.holds.removeChecked .snapshotCopy hm fun k hk l hl ↦ by
    rw [h.record]
    exact hs.snapshotKeys k (hsubS k hk) l (hsubS l hl)
  rw [update_withCopies_snapshotCopy] at hholds₁
  obtain ⟨b₂, hrun₂, hholds₂, hrem₂⟩ := hholds₁.removeChecked .liveCopy hn fun k hk l hl ↦ by
    rw [hrem₁.record, h.record]
    exact hs.currentKeys k (hsubC k hk) l (hsubC l hl)
  rw [update_withCopies_liveCopy] at hholds₂
  exact ⟨b₁, b₂, hrun₁, hrun₂, hrem₁, hrem₂, hholds₂⟩

/-- Two blocks are taken out of the lists of their callstacks. -/
theorem unlinkBoth (h : Offsetting L cs s gone held kept rest S t) (hs : Comparable s L cs)
    (hn : n ∈ kept ++ rest) (hm : m ∈ S) {b : Blocks} (hrecord : b.record = s.blocks.record)
    (hpool : b.pool = t.blocks.pool)
    (hprev : b.sameCallstackGroupPrev = t.blocks.sameCallstackGroupPrev)
    (hnext : b.sameCallstackGroupNext = t.blocks.sameCallstackGroupNext) :
    ∃ u₁ u₂ G G', ({ t with blocks := b } : State).mcUnlinkMemblkFromCallstack m
        (b.record m).allocator .snapshot = some u₁ ∧
      u₁.mcUnlinkMemblkFromCallstack n (u₁.blocks.record n).allocator .current = some u₂ ∧
      Relinked S .snapshot { t with blocks := b } u₁ ∧ Relinked (kept ++ rest) .current u₁ u₂ ∧
      Grouped .current cs ((kept ++ rest).erase n) G u₂ ∧
      Grouped .snapshot cs (S.erase m) G' u₂ := by
  obtain ⟨hC, hS, hapart⟩ := h.lists hs
  obtain ⟨hsubC, hsubS⟩ := h.subset
  obtain ⟨G, hG⟩ := h.current
  obtain ⟨G', hG'⟩ := h.snapshot
  have hmcs : (b.record m).allocator ∈ cs := by
    rw [hrecord]
    exact hs.snapshot m (hsubS m hm)
  have hncs : (b.record n).allocator ∈ cs := by
    rw [hrecord]
    exact hs.current n (hsubC n hn)
  have hG₂ : Grouped .current cs (kept ++ rest) G { t with blocks := b } :=
    hG.congr (hrecord.trans h.record.symm) hprev hnext rfl
  have hG₂' : Grouped .snapshot cs S G' { t with blocks := b } :=
    hG'.congr (hrecord.trans h.record.symm) hprev hnext rfl
  obtain ⟨u₁, H₁, hrun₁, hrel₁, hgroup₁⟩ := unlink_spec hG₂' hS
    (fun k hk ↦ by rw [hpool]; exact h.holds.live .snapshotCopy k hk) hm hmcs
    (hs.callstacks.ne_null hmcs)
  have hG₃ := hrel₁.grouped hG₂ (by decide) hapart
  obtain ⟨u₂, H₂, hrun₂, hrel₂, hgroup₂⟩ := unlink_spec hG₃ hC
    (fun k hk ↦ by rw [hrel₁.pool, hpool]; exact h.holds.live .liveCopy k hk) hn
    (by rw [hrel₁.record]; exact hncs)
    (by rw [hrel₁.record]; exact hs.callstacks.ne_null hncs)
  have hgroup₃ := hrel₂.grouped hgroup₁ (by decide) fun k hk hk' ↦
    hapart hk' (List.mem_of_mem_erase hk)
  exact ⟨u₁, u₂, H₂, H₁, hrun₁, hrun₂, hrel₁, hrel₂, hgroup₂, hgroup₃⟩

/-- Two blocks are taken out of their copies and lists. -/
theorem cancel (h : Offsetting L cs s gone none kept (n :: rest) S t) (hs : Comparable s L cs)
    (hm : m ∈ S) (hkind : s.kind n = s.kind m)
    (hfirst : ∀ k ∈ S, s.kind n = s.kind k → s.usrptr n = s.usrptr k → k = m)
    (hahead : Ahead (t.blocks.ptrStore .liveCopy).next 0 s.blocks.hashOf n rest) :
    ∃ u, t.cancelPair n m = some u ∧ Offsetting L cs s gone (some (n, m)) kept rest (S.erase m) u ∧
      (∀ k ∈ n :: rest, u.blocks.memptr k = t.blocks.memptr k) ∧
      ∀ i, i ≠ s.blocks.hashOf n → u.blocks.table .liveCopy i = t.blocks.table .liveCopy i := by
  obtain ⟨-, hS, hapart⟩ := h.lists hs
  obtain ⟨hsubC, hsubS⟩ := h.subset
  obtain ⟨done, horder, hdone, hcome⟩ := h.exists_done hs
  have hn : n ∈ kept ++ n :: rest := List.mem_append_right _ List.mem_cons_self
  obtain ⟨b₁, b₂, hrun₁, hrun₂, hrem₁, hrem₂, hholds₂⟩ := h.removeBoth hs hn hm
  have hrecord : b₂.record = s.blocks.record := by
    rw [hrem₂.record, hrem₁.record, h.record]
  have hpool : b₂.pool = t.blocks.pool := hrem₂.pool.trans hrem₁.pool
  obtain ⟨u₁, u₂, H₂, H₁, hrun₃, hrun₄, hrel₁, hrel₂, hgroup₂, hgroup₃⟩ := h.unlinkBoth hs hn hm
    hrecord hpool (hrem₂.prev.trans hrem₁.prev) (hrem₂.next.trans hrem₁.next)
  have herase : ((kept ++ n :: rest).erase n).Perm (kept ++ rest) := by
    have hperm := (@List.perm_middle _ n kept rest).erase n
    rwa [List.erase_cons_head] at hperm
  have hblocks : ∀ k, k ∉ L .liveCopy → k ∉ L .snapshotCopy → t.blocks.SameAt u₂.blocks k := by
    intro k hk hk'
    have hkC : k ∉ kept ++ n :: rest := fun hmem ↦ hk (hsubC k hmem)
    have hkS : k ∉ S := fun hmem ↦ hk' (hsubS k hmem)
    exact (((hrem₁.same hkS).trans (hrem₂.same hkC)).trans (hrel₁.same k hkS)).trans
      (hrel₂.same k hkC)
  refine ⟨u₂, ?_, ⟨?_, h.preferring.step (fun k hk ↦ List.mem_of_mem_erase hk)
    fun k hk hkey hptr ↦ ?_, ⟨_, horder, hcome.cancel h.cancelling hdone hm hkind⟩, ?_,
    ⟨H₂, hgroup₂.perm herase⟩, ⟨H₁, hgroup₃⟩, ?_,
    fun k hk hk' ↦ (h.same k hk hk').trans (hblocks k hk hk'), fun id hid hid' ↦ ?_, ?_, ?_, ?_,
    fun k ↦ ?_⟩, fun k hk ↦ ?_, fun i hi ↦ ?_⟩
  · rw [cancelPair, hrun₁]
    simp only [Option.bind_eq_bind, Option.bind_some, hrun₂]
    show (mcUnlinkMemblkFromCallstack m (b₂.record m).allocator .snapshot
      { t with blocks := b₂ }).bind _ = _
    rw [hrun₃, Option.bind_some]
    exact hrun₄
  · have hcancel := h.cancelling.cancel hm hkind
    rwa [Option.toList_none, List.append_nil] at hcancel
  · obtain rfl := hfirst k (List.mem_of_mem_erase hk) hkey hptr
    exact hS.not_mem_erase hk
  · refine (hrel₂.holds (hrel₁.holds hholds₂)).perm fun id ↦ ?_
    cases id with
    | liveCopy => exact herase
    | snapshotCopy | live | snapshot => exact List.Perm.refl _
  · rw [hrel₂.record, hrel₁.record, hrecord]
  · rw [hrel₂.table, hrel₁.table]
    exact ((hrem₂.table id hid).trans (hrem₁.table id hid')).trans (h.table id hid hid')
  · exact h.callstacks.trans (hrel₁.callstacks.trans hrel₂.callstacks)
  · rw [hrel₂.rest, hrel₁.rest, h.rest]
  · rw [hrel₂.trace, hrel₁.trace]
    exact h.trace
  · rw [hrel₂.pool, hrel₁.pool, hpool]
    exact h.live k
  · have hkC : k ∈ kept ++ n :: rest := List.mem_append_right _ hk
    rw [hrel₂.memptr, hrel₁.memptr]
    refine (hrem₂.ahead rest ?_ k hk).trans (hrem₁.memptr k (hapart hkC))
    have hhash : b₁.hashOf = s.blocks.hashOf := by
      funext l
      rw [Blocks.hashOf, Blocks.hashOf, hrem₁.record, h.record]
    rw [hhash]
    exact hahead.congr fun l hl ↦ congrArg Memptr.hashNext
      (hrem₁.memptr l (hapart (List.mem_append_right _ hl)))
  · rw [hrel₂.table, hrel₁.table]
    refine (hrem₂.head i ?_).trans (congrFun (hrem₁.table .liveCopy (by decide)) i)
    rw [Blocks.hashOf, hrem₁.record, h.record]
    exact hi

end Offsetting

/-- The variables of the loop. -/
structure Offset.Counts (held : Option (ℕ × ℕ)) (kept rest S : List ℕ) (o : Offset) : Prop where
  current : o.numRemainingsCurrent = (kept ++ rest).length
  snapshot : o.numRemainingsSnapshot = S.length
  prevCurrent : o.prevCurrent = held.elim 0 Prod.fst
  prevSnapshot : o.prevSnapshot = held.elim 0 Prod.snd

/-- The two calls that give back the held pair. -/
theorem Offsetting.free (h : Offsetting L cs s gone held kept rest S t) (hs : Comparable s L cs)
    {o : Offset} (ho : o.Counts held kept rest S) :
    (t.freeAllocMemblkIfNotNull o.prevSnapshot).freeAllocMemblkIfNotNull o.prevCurrent =
      t.releaseAll (pairNodes held.toList) := by
  rw [ho.prevCurrent, ho.prevSnapshot]
  refine free_held held (fun p hp ↦ ?_) t
  have hne : ∀ k ∈ pairNodes held.toList, k ≠ 0 := fun k hk ↦
    (h.mem_copies (List.mem_append_right _ (List.mem_append_left _ hk))).elim
      (hs.holds.ne_null ·) (hs.holds.ne_null ·)
  obtain rfl : held = some p := hp
  exact ⟨hne p.1 (by simp [pairNodes]), hne p.2 (by simp [pairNodes])⟩

/-- One round of the loop. -/
theorem Offsetting.step (h : Offsetting L cs s gone held kept (n :: rest) S t)
    (hs : Comparable s L cs) {o : Offset} (ho : o.Counts held kept (n :: rest) S)
    (hahead : Ahead (t.blocks.ptrStore .liveCopy).next 0 s.blocks.hashOf n rest) :
    ∃ u o' held' kept' S', offsetMemblk n (t, o) = some (u, o') ∧
      Offsetting L cs s (gone ++ held.toList) held' kept' rest S' u ∧
      o'.Counts held' kept' rest S' ∧ n ∈ u.blocks.pool.live allocMemblkSize ∧
      (∀ k ∈ n :: rest, (u.blocks.memptr k).hashNext = (t.blocks.memptr k).hashNext) ∧
      ∀ i, i ≠ s.blocks.hashOf n → u.blocks.table .liveCopy i = t.blocks.table .liveCopy i := by
  -- the pair cancelled in the last round is given back first
  have hfree := h.free hs ho
  have hflush := h.flush hs
  obtain ⟨v, hv⟩ : ∃ v, v = t.releaseAll (pairNodes held.toList) := ⟨_, rfl⟩
  have hmemptr : v.blocks.memptr = t.blocks.memptr := by rw [hv]; rfl
  have htable : v.blocks.table = t.blocks.table := by rw [hv]; rfl
  rw [← hv] at hfree hflush
  obtain ⟨hsubC, hsubS⟩ := hflush.subset
  have hn : n ∈ kept ++ n :: rest := List.mem_append_right _ List.mem_cons_self
  have hlive : n ∈ v.blocks.pool.live allocMemblkSize := hflush.holds.live .liveCopy n hn
  obtain ⟨G, hG⟩ := hflush.snapshot
  have hkind : v.kind = s.kind := by
    funext k
    rw [kind, kind, hflush.record]
  have husrptr : v.usrptr = s.usrptr := by
    funext k
    rw [usrptr, usrptr, hflush.record]
  obtain ⟨m, hfind, hcases⟩ := @findSnapshotMemblk_spec v _ cs n G hflush.holds
    (hflush.callstacks.holds hs.callstacks) hG
    (fun k hk l hl ↦ by
      rw [hflush.record]
      exact hs.snapshotKeys k (hsubS k hk) l (hsubS l hl))
    (fun k hk ↦ by rw [hflush.record]; exact hs.snapshot k (hsubS k hk)) hlive
    (by rw [hflush.record]; exact hs.current n (hsubC n hn))
  rw [hkind, husrptr] at hcases
  rw [offsetMemblk]
  simp only [hfree, hfind, Option.bind_eq_bind, Option.bind_some]
  -- no partner: the block is kept
  rcases hcases with ⟨rfl, hnone⟩ | ⟨hm, heq, hfirst⟩
  · rw [if_neg (not_not_intro rfl)]
    refine ⟨v, _, none, kept ++ [n], S, rfl, hflush.keep hs hnone, ⟨?_, ho.snapshot, rfl, rfl⟩,
      hlive, fun k _ ↦ by rw [hmemptr], fun i _ ↦ by rw [htable]⟩
    rw [List.append_assoc, List.singleton_append]
    exact ho.current
  · -- a partner: both leave their tables and lists and wait to be given back
    replace hm : m ∈ S := hm
    have hmzero : m ≠ 0 := hs.holds.ne_null (hsubS m hm)
    obtain ⟨u, hcancel, hoff, hptr, hhead⟩ := hflush.cancel hs hm heq hfirst
      (hahead.congr fun k _ ↦ by rw [PtrStore.next, PtrStore.next, Blocks.ptrStore, hmemptr]; rfl)
    have hrun : ∀ x : Offset, ((v.blocks.removeChecked .snapshotCopy (v.blocks.memptr m).ptr).bind
        fun y ↦ (y.2.removeChecked .liveCopy (y.2.memptr n).ptr).bind fun z ↦
          (mcUnlinkMemblkFromCallstack m (z.2.allocator m) .snapshot { v with blocks := z.2 }).bind
            fun w ↦ (mcUnlinkMemblkFromCallstack n (w.blocks.allocator n) .current w).bind
              fun w ↦ some (w, x)) = some (u, x) := by
      intro x
      rw [← Option.bind_some (f := fun w : State ↦ some (w, x)), ← hcancel, cancelPair]
      simp only [Option.bind_eq_bind, Option.bind_assoc]
    rw [if_pos hmzero]
    refine ⟨u, _, some (n, m), kept, S.erase m, hrun _, hoff, ⟨?_, ?_, rfl, rfl⟩, ?_,
      fun k hk ↦ by rw [hptr k hk, hmemptr], fun i hi ↦ by rw [hhead i hi, htable]⟩
    · have hcur := ho.current
      simp only [List.length_append, List.length_cons] at hcur ⊢
      push_cast at hcur ⊢
      omega
    · have hlen := List.length_erase_of_mem hm
      have hpos := List.length_pos_of_mem hm
      have hsnap := ho.snapshot
      show o.numRemainingsSnapshot - 1 = _
      omega
    · refine (hoff.held_spec hs).2.1 n ?_
      simp [pairNodes]

/-- Counting the blocks of a table. -/
theorem countMemblk_spec (h : s.blocks.Holds L) (id : TableId) :
    Outcome (2147483648 ≤ (L id).length) (s.countMemblk id) (· = (s, ((L id).length : ℤ))) := by
  have hperm := h.tableNodes_perm id
  let I : List ℕ → State × ℤ → Prop := fun rest y ↦ rest <:+ s.blocks.tableNodes id ∧
    y.1 = s ∧ y.2 + rest.length = ((L id).length : ℤ)
  have hloop : Outcome (2147483648 ≤ (L id).length) (s.countMemblk id) (I []) := by
    rw [countMemblk]
    refine forEachMemblk_outcome I h (fun n rest y hI _ ↦ ?_)
      ⟨List.suffix_rfl, rfl, by rw [← hperm.length_eq]; exact zero_add _⟩
    obtain ⟨t, k⟩ := y
    obtain ⟨hrest, rfl, hk⟩ := hI
    rw [List.length_cons] at hk
    simp only at hk
    rw [incInt]
    split_ifs with hlt
    · refine .some ⟨⟨(List.suffix_cons n rest).trans hrest, rfl, ?_⟩, ?_, fun _ _ ↦ rfl,
        fun _ _ ↦ rfl⟩
      · show k + 1 + _ = _
        push_cast at hk
        omega
      · exact h.live id n (hperm.subset (hrest.subset List.mem_cons_self))
    · exact .none (by push_cast at hk; omega)
  refine hloop.mono ?_
  rintro ⟨t, k⟩ ⟨-, rfl, hk⟩
  exact Prod.ext rfl (by simpa using hk)

/-- `offset_snapshot_against_current_alloc_memblk` cancels the two copies against each other. It
returns unless there are too many blocks for its counters. -/
theorem offset_spec (hs : Comparable s L cs) (hcurrent : ∃ G, Grouped .current cs (L .liveCopy) G s)
    (hsnapshot : ∃ G, Grouped .snapshot cs (L .snapshotCopy) G s) :
    Outcome (2147483648 ≤ (L .liveCopy).length ∨ 2147483648 ≤ (L .snapshotCopy).length)
      s.offsetSnapshotAgainstCurrentAllocMemblk fun x ↦ ∃ gone kept S,
        Offsetting L cs s gone none kept [] S x.1 ∧ x.2 = ((kept.length : ℤ), (S.length : ℤ)) := by
  have hperm := hs.holds.tableNodes_perm .liveCopy
  let I : List ℕ → State × Offset → Prop := fun rest y ↦ ∃ gone held kept S,
    Offsetting L cs s gone held kept rest S y.1 ∧ y.2.Counts held kept rest S
  have hloop : Outcome (2147483648 ≤ (L .liveCopy).length ∨ 2147483648 ≤ (L .snapshotCopy).length)
      (forEachMemblk .liveCopy offsetMemblk
        (s, ⟨(L .liveCopy).length, (L .snapshotCopy).length, 0, 0⟩)) (I []) := by
    refine forEachMemblk_outcome I hs.holds (fun n rest y hI hahead ↦ ?_)
      ⟨[], none, [], L .snapshotCopy, .init hs hcurrent hsnapshot rfl, ?_, rfl, rfl, rfl⟩
    · obtain ⟨t, o⟩ := y
      obtain ⟨gone, held, kept, S, hoff, ho⟩ := hI
      obtain ⟨u, o', held', kept', S', hrun, hoff', ho', hlive, hnext, hhead⟩ :=
        hoff.step hs ho hahead
      rw [hrun]
      exact .some ⟨⟨_, held', kept', S', hoff', ho'⟩, hlive, hnext, hhead⟩
    · rw [List.nil_append, hperm.length_eq]
  rw [offsetSnapshotAgainstCurrentAllocMemblk]
  refine ((countMemblk_spec hs.holds .liveCopy).weaken .inl).bind ?_
  rintro - rfl
  refine ((countMemblk_spec hs.holds .snapshotCopy).weaken .inr).bind ?_
  rintro - rfl
  refine hloop.bind ?_
  rintro ⟨t, o⟩ ⟨gone, held, kept, S, hoff, ho⟩
  refine .some ⟨gone ++ held.toList, kept, S, ?_, ?_⟩
  · show Offsetting L cs s _ none kept [] S
      ((t.freeAllocMemblkIfNotNull o.prevSnapshot).freeAllocMemblkIfNotNull o.prevCurrent)
    rw [hoff.free hs ho]
    exact hoff.flush hs
  · have hcur := ho.current
    rw [List.append_nil] at hcur
    exact Prod.ext hcur ho.snapshot

end State

end Memchk
