import Memchk.Invariant
import Memchk.Snapshot

/-!
# Copying a table and giving it back

`mc_duplicate_all_alloc_memblk` copies the blocks of a table one after the other until the pool runs
out of nodes (`duplicate_spec`), and `mc_destroy_all_alloc_memblk` gives back the nodes of a table
(`destroy_spec`). Neither reads a node that is not taken from the pool, and both say exactly which
nodes they take and give back, what the copies are copies of, and that all other nodes stay as they
are.

## Walking a table

Both functions walk all chains of a table and change nodes on the way. `forEachMemblk_outcome` is
the rule for such a walk: a body that keeps an invariant over the nodes seen so far, and does not
change the links of the nodes still to come, leads to the invariant over all nodes. The order of the
walk is `tableNodes`, a list of the nodes that the table and the links determine
(`Holds.tableNodes_perm`).

## Copying

`Copied dest L order new s t` is the state of a copy under way: the first nodes of `order` have been
copied to `new`, and `t` differs from `s` in these alone. If the table was empty, the nodes of `new`
lie in it as they were added, so that a walk through a copy meets the blocks of a bucket in the
reverse order. A node that cannot be allocated ends the
copy, with the marks and the return value that the callers look at (`Copied.failed`).

## Giving back

The loop gives the nodes of all chains back and leaves null heads. What it comes to is a closed
expression, `State.destroyed`, and `destroy_eq` says that the loop computes it.
-/

namespace Memchk

/-- The nodes that commands took from the pool, by the trace. -/
def copiedNodes (es : List Event) : List ℕ :=
  es.filterMap fun
    | .copied n => some n
    | _ => none

/-- The nodes that commands gave back to the pool, by the trace. -/
def releasedNodes (es : List Event) : List ℕ :=
  es.filterMap fun
    | .released n => some n
    | _ => none

/-- The pool after the nodes were given back, one after the other. -/
def freeNodes (ns : List ℕ) (p : Pool) : Pool :=
  ns.foldl (fun p n ↦ mcFreeAllocMemblk n p) p

@[simp]
theorem copiedNodes_append (es es' : List Event) :
    copiedNodes (es ++ es') = copiedNodes es ++ copiedNodes es' :=
  List.filterMap_append

@[simp]
theorem releasedNodes_append (es es' : List Event) :
    releasedNodes (es ++ es') = releasedNodes es ++ releasedNodes es' :=
  List.filterMap_append

@[simp]
theorem copiedNodes_map_copied (ns : List ℕ) : copiedNodes (ns.map .copied) = ns := by
  induction ns with
  | nil => rfl
  | cons n ns ih => exact congrArg (n :: ·) ih

@[simp]
theorem copiedNodes_map_released (ns : List ℕ) : copiedNodes (ns.map .released) = [] := by
  induction ns with
  | nil => rfl
  | cons n ns ih => exact ih

@[simp]
theorem releasedNodes_map_copied (ns : List ℕ) : releasedNodes (ns.map .copied) = [] := by
  induction ns with
  | nil => rfl
  | cons n ns ih => exact ih

@[simp]
theorem releasedNodes_map_released (ns : List ℕ) : releasedNodes (ns.map .released) = ns := by
  induction ns with
  | nil => rfl
  | cons n ns ih => exact congrArg (n :: ·) ih

@[simp]
theorem freeNodes_append (ns ms : List ℕ) (p : Pool) :
    freeNodes (ns ++ ms) p = freeNodes ms (freeNodes ns p) :=
  List.foldl_append

theorem freeNodes_cons (n : ℕ) (ns : List ℕ) (p : Pool) :
    freeNodes (n :: ns) p = freeNodes ns (mcFreeAllocMemblk n p) :=
  List.foldl_cons ..

/-- Giving back nodes that are taken, each once. -/
theorem freeNodes_spec {ns : List ℕ} {p : Pool} (h : p.Inv allocMemblkPoolHead allocMemblkSize)
    (hlive : ∀ n ∈ ns, n ∈ p.live allocMemblkSize) (hnodup : ns.Nodup) :
    (freeNodes ns p).Inv allocMemblkPoolHead allocMemblkSize ∧
      ∀ n, n ∈ (freeNodes ns p).live allocMemblkSize ↔ n ∈ p.live allocMemblkSize ∧ n ∉ ns := by
  induction ns generalizing p with
  | nil => exact ⟨h, fun n ↦ by simp [freeNodes]⟩
  | cons m ns ih =>
    obtain ⟨hm, hnodup⟩ := List.nodup_cons.1 hnodup
    obtain ⟨hinv, hfree, -⟩ := h.mcAllocatorFree_spec (hlive m List.mem_cons_self)
    have hrest : ∀ n ∈ ns, n ∈ (mcAllocatorFree m allocMemblkSize.val p).live allocMemblkSize := by
      intro n hn
      rw [hfree, Finset.mem_erase]
      exact ⟨ne_of_mem_of_not_mem hn hm, hlive n (List.mem_cons_of_mem _ hn)⟩
    obtain ⟨hinv', hlive'⟩ := ih hinv hrest hnodup
    rw [freeNodes_cons, mcFreeAllocMemblk]
    refine ⟨hinv', fun n ↦ (hlive' n).trans ?_⟩
    rw [hfree, Finset.mem_erase, List.mem_cons]
    tauto

namespace Blocks

/-- The nodes of a table, in the order in which `for_each_hashnode` comes to them. -/
@[irreducible]
def tableNodes (id : TableId) (b : Blocks) : List ℕ :=
  (forEachNode 0 (b.ptrStore id).next (b.table id) b.rounds
    (tableIndices allocMemptrHashtableSize)).getD []

/-- The nodes with another pool. -/
def withPool (pool : Pool) (b : Blocks) : Blocks :=
  { b with pool := pool }

/-- The fields of the node are the same. -/
structure SameAt (b b' : Blocks) (n : ℕ) : Prop where
  memptr : b'.memptr n = b.memptr n
  memblk : b'.memblk n = b.memblk n
  allocator : b'.allocator n = b.allocator n
  prev : b'.sameCallstackGroupPrev n = b.sameCallstackGroupPrev n
  next : b'.sameCallstackGroupNext n = b.sameCallstackGroupNext n

variable {b b' b'' : Blocks} {L : TableId → List ℕ} {id dest src : TableId} {m n : ℕ}

theorem SameAt.refl (b : Blocks) (n : ℕ) : b.SameAt b n :=
  ⟨rfl, rfl, rfl, rfl, rfl⟩

theorem SameAt.trans (h : b.SameAt b' n) (h' : b'.SameAt b'' n) : b.SameAt b'' n :=
  ⟨h'.memptr.trans h.memptr, h'.memblk.trans h.memblk, h'.allocator.trans h.allocator,
    h'.prev.trans h.prev, h'.next.trans h.next⟩

/-- A node that is the same describes the same block. -/
theorem SameAt.record_eq (h : b.SameAt b' n) : b'.record n = b.record n := by
  simp only [record, h.memptr, h.memblk, h.allocator]

theorem check_of_live (h : n ∈ b.pool.live allocMemblkSize) : b.check n = some () :=
  if_pos h

/-- The hash of the node's key. -/
def hashOf (b : Blocks) (n : ℕ) : ℤ :=
  calcPtrHash (b.record n).usrptr allocMemptrHashtableSize

/-- The nodes of a table as a traversal finds them. -/
theorem Holds.buckets (h : b.Holds L) (id : TableId) :
    ∃ K, Buckets (b.ptrStore id).next 0 b.hashOf (b.table id)
        (tableIndices allocMemptrHashtableSize) K ∧
      (∀ i ∈ tableIndices allocMemptrHashtableSize, (K i).length < b.rounds) ∧
      b.tableNodes id = (tableIndices allocMemptrHashtableSize).flatMap K ∧
      (b.tableNodes id).Perm (L id) := by
  obtain ⟨K, hK, hperm, hlen⟩ := HashChains.exists_buckets (h.table id)
  have hrounds : ∀ i ∈ tableIndices allocMemptrHashtableSize, (K i).length < b.rounds :=
    fun i hi ↦ lt_of_le_of_lt (hlen i hi) (h.length_lt_rounds id)
  have heq : b.tableNodes id = (tableIndices allocMemptrHashtableSize).flatMap K := by
    have hnode : forEachNode 0 (b.ptrStore id).next (b.table id) b.rounds
        (tableIndices allocMemptrHashtableSize) = some _ := forEachNode_eq hK hrounds
    unfold tableNodes
    rw [hnode, Option.getD_some]
  exact ⟨K, hK, hrounds, heq, heq ▸ hperm.symm⟩

/-- The walk over a table meets its nodes. -/
theorem Holds.tableNodes_perm (h : b.Holds L) (id : TableId) : (b.tableNodes id).Perm (L id) := by
  obtain ⟨-, -, -, -, hperm⟩ := h.buckets id
  exact hperm

/-- The walk over a table meets a node if the table holds it. -/
theorem Holds.mem_tableNodes (h : b.Holds L) : n ∈ b.tableNodes id ↔ n ∈ L id :=
  (h.tableNodes_perm id).mem_iff

/-- The nodes `ns` were put into the table, which was empty, in this order. -/
def Stacked (id : TableId) (ns : List ℕ) (b : Blocks) : Prop :=
  StackedChains (b.ptrStore id).next 0 b.hashOf (b.table id)
    (tableIndices allocMemptrHashtableSize) ns

/-- An empty table. -/
theorem Holds.stacked_nil (h : b.Holds L) (hnil : L id = []) : b.Stacked id [] :=
  .nil ((HashChains.eq_nil_iff (h.table id)).1 hnil)

/-- The order depends on the heads of the table and on the nodes in it. -/
theorem Stacked.congr {ns : List ℕ} (h : b.Stacked id ns) (htable : b'.table id = b.table id)
    (hmemptr : ∀ n ∈ ns, b'.memptr n = b.memptr n) : b'.Stacked id ns := by
  have hhash : ∀ n ∈ ns, b'.hashOf n = b.hashOf n := fun n hn ↦ by
    rw [hashOf, hashOf, record, record, hmemptr n hn]
  have hnext : ∀ n ∈ ns, (b'.ptrStore id).next n = (b.ptrStore id).next n := fun n hn ↦
    congrArg Memptr.hashNext (hmemptr n hn)
  rw [Stacked, htable]
  exact StackedChains.congr h hnext hhash fun _ _ ↦ rfl

/-- The heads of a table that a node is added to. -/
theorem table_add (id : TableId) (n : ℕ) (b : Blocks) :
    (b.add id n).table id = Function.update (b.table id) (b.hashOf n) n := by
  have hhead : (b.add id n).table id =
      (mcAddPtrHashtable allocMemptrHashtableSize n (b.ptrStore id)).head := Function.update_self ..
  have hhash : calcPtrHash ((b.ptrStore id).key n) allocMemptrHashtableSize = b.hashOf n := by
    rw [hashOf]
    rfl
  rw [hhead, mcAddPtrHashtable, hhash]
  rfl

/-- One more node is put into the table. -/
theorem Stacked.add {ns : List ℕ} (h : b.Stacked id ns) (hnull : n ≠ 0) (hn : n ∉ ns) :
    (b.add id n).Stacked id (ns ++ [n]) := by
  have hhash : (b.add id n).hashOf = b.hashOf := by
    funext m
    rw [hashOf, hashOf, record_add]
  have hnext : ((b.add id n).ptrStore id).next =
      Function.update (b.ptrStore id).next n (b.table id (b.hashOf n)) := by
    rw [Blocks.add, ptrStore_withStore_self]
    exact PtrStore.next_setNext
  rw [Stacked, hhash, hnext, table_add]
  exact StackedChains.push h hnull hn

/-- The order of a walk through the table. -/
theorem Holds.tableNodes_of_stacked {ns : List ℕ} (h : b.Holds L) (hs : b.Stacked id ns) :
    b.tableNodes id = stackedOrder b.hashOf (tableIndices allocMemptrHashtableSize) ns := by
  obtain ⟨K, hK, -, heq, -⟩ := h.buckets id
  exact heq.trans (StackedChains.order_eq hs hK)

/-- A list of lists up to the order of each list. -/
theorem Holds.perm {L' : TableId → List ℕ} (h : b.Holds L) (hperm : ∀ id, (L id).Perm (L' id)) :
    b.Holds L' where
  pool := h.pool
  table id := (h.table id).perm (hperm id)
  live id _ hn := h.live id _ ((hperm id).mem_iff.2 hn)
  disjoint id id' hne _ hn hn' :=
    h.disjoint id id' hne ((hperm id).mem_iff.2 hn) ((hperm id').mem_iff.2 hn')

end Blocks

namespace State

variable {s t : State} {L : TableId → List ℕ} {id dest src : TableId} {n : ℕ}

/-- The rule of `for_each_hashnode` over a table of blocks: `I rest` holds when the nodes `rest` are
still to be visited. The body leaves these nodes and their links as they are. -/
theorem forEachMemblk_outcome {σ : Type} {fault : Prop} {body : ℕ → State × σ → Option (State × σ)}
    {x : State × σ} (I : List ℕ → State × σ → Prop) (h : x.1.blocks.Holds L)
    (hstep : ∀ n rest y, I (n :: rest) y →
      Ahead (y.1.blocks.ptrStore id).next 0 x.1.blocks.hashOf n rest →
      Outcome fault (body n y) fun z ↦ I rest z ∧ n ∈ z.1.blocks.pool.live allocMemblkSize ∧
        (∀ k ∈ n :: rest, (z.1.blocks.memptr k).hashNext = (y.1.blocks.memptr k).hashNext) ∧
        ∀ i, i ≠ x.1.blocks.hashOf n → z.1.blocks.table id i = y.1.blocks.table id i)
    (hinit : I (x.1.blocks.tableNodes id) x) :
    Outcome fault (forEachMemblk id body x) (I []) := by
  obtain ⟨K, hK, hrounds, heq, -⟩ := h.buckets id
  have his := nodup_tableIndices allocMemptrHashtableSize
  rw [heq] at hinit
  rw [forEachMemblk]
  generalize tableIndices allocMemptrHashtableSize = is at *
  refine forEachM_outcome I (fun n rest y hI hahead ↦ ?_) his hK hrounds hinit
  refine (hstep n rest y hI hahead).bind fun z hz ↦ ?_
  obtain ⟨hI', hlive, hnext, hhead⟩ := hz
  rw [Blocks.check_of_live hlive]
  exact .some ⟨hI', hnext, hhead⟩

/-! ### Copying -/

/-- The blocks that `order` begins with were copied to the nodes `new`, in this order, and nothing
else has changed but the pool and the trace. -/
structure Copied (dest : TableId) (L : TableId → List ℕ) (order new : List ℕ) (s t : State) :
    Prop where
  holds : t.blocks.Holds (Function.update L dest (new.reverse ++ L dest))
  rest : t = { s with blocks := t.blocks, trace := t.trace }
  same : ∀ n, n ∉ new → s.blocks.SameAt t.blocks n
  table : ∀ id, id ≠ dest → t.blocks.table id = s.blocks.table id
  live : ∀ n, n ∈ t.blocks.pool.live allocMemblkSize ↔
    n ∈ s.blocks.pool.live allocMemblkSize ∨ n ∈ new
  fresh : ∀ n ∈ new, n ∉ s.blocks.pool.live allocMemblkSize
  record : new.map t.blocks.record = (order.take new.length).map s.blocks.record
  stacked : L dest = [] → t.blocks.Stacked dest new

/-- At the start of a copy nothing has been copied. -/
theorem Copied.refl (h : s.blocks.Holds L) (dest : TableId) (order : List ℕ) :
    Copied dest L order [] s s where
  holds := by
    rw [List.reverse_nil, List.nil_append, Function.update_eq_self]
    exact h
  rest := rfl
  same n _ := .refl _ n
  table _ _ := rfl
  live n := by simp
  fresh n hn := absurd hn List.not_mem_nil
  record := by simp
  stacked := h.stacked_nil

/-- A pool that has no more nodes. -/
theorem Copied.failed {order new : List ℕ} (h : Copied dest L order new s t) {pool : Pool}
    (hholds : (t.blocks.withPool pool).Holds
      (Function.update L dest (new.reverse ++ L dest)))
    (hlive : pool.live allocMemblkSize = t.blocks.pool.live allocMemblkSize) (es : List Event) :
    Copied dest L order new s
      ({ t with blocks := t.blocks.withPool pool }.emit es) where
  holds := hholds
  rest := by
    rw [h.rest]
    rfl
  same n hn := (h.same n hn).trans ⟨rfl, rfl, rfl, rfl, rfl⟩
  table := h.table
  live n := by
    show n ∈ pool.live allocMemblkSize ↔ _
    rw [hlive]
    exact h.live n
  fresh := h.fresh
  record := h.record
  stacked hnil := (h.stacked hnil).congr rfl fun _ _ ↦ rfl

/-- One more block is copied. -/
theorem Copied.copy {order new : List ℕ} (h : Copied dest L order new s t) {pool : Pool} {m : ℕ}
    (hholds : (t.blocks.withPool pool).Holds
      (Function.update L dest (new.reverse ++ L dest)))
    (hm : (t.blocks.withPool pool).Detached
      (Function.update L dest (new.reverse ++ L dest)) m)
    (hlive : pool.live allocMemblkSize = insert m (t.blocks.pool.live allocMemblkSize))
    (hfresh : m ∉ t.blocks.pool.live allocMemblkSize) (hn : n ∈ s.blocks.pool.live allocMemblkSize)
    (hnext : order.take (new.length + 1) = order.take new.length ++ [n]) (es : List Event) :
    Copied dest L order (new ++ [m]) s
      ({ t with blocks :=
        ((t.blocks.withPool pool).copyAllocMemblk m n).add dest m }.emit es) := by
  rw [h.live, not_or] at hfresh
  have hnm : n ≠ m := fun heq ↦ hfresh.1 (heq ▸ hn)
  have hnnew : n ∉ new := fun hmem ↦ h.fresh n hmem hn
  -- the copy and the new link of the table are in the new node
  have hsame : ∀ k, k ≠ m → t.blocks.SameAt
      (((t.blocks.withPool pool).copyAllocMemblk m n).add dest m) k := by
    intro k hk
    refine ⟨?_, Function.update_of_ne hk _ _, Function.update_of_ne hk _ _,
      Function.update_of_ne hk _ _, Function.update_of_ne hk _ _⟩
    exact (PtrStore.memptr_setNext_of_ne hk).trans (Function.update_of_ne hk _ _)
  have hcopy : ((t.blocks.withPool pool).copyAllocMemblk m n).Holds
      (Function.update L dest (new.reverse ++ L dest)) :=
    hholds.congr rfl rfl fun id k hk ↦
      Function.update_of_ne (ne_of_mem_of_not_mem hk (hm.notMem id)) _ _
  have hadd := hcopy.add (n := m) ⟨hm.ne_null, hm.live, hm.notMem⟩ dest
  have hrecord : ((t.blocks.withPool pool).copyAllocMemblk m n).record m =
      s.blocks.record n := by
    rw [← (h.same n hnnew).record_eq]
    simp [Blocks.record, Blocks.copyAllocMemblk, Blocks.withPool]
  refine ⟨?_, ?_, fun k hk ↦ ?_, fun id hid ↦ ?_, fun k ↦ ?_, fun k hk ↦ ?_, ?_, fun hnil ↦ ?_⟩
  · have hlists : Function.update (Function.update L dest (new.reverse ++ L dest)) dest
        (m :: Function.update L dest (new.reverse ++ L dest) dest) =
        Function.update L dest ((new ++ [m]).reverse ++ L dest) := by
      rw [Function.update_idem, Function.update_self, List.reverse_append]
      rfl
    exact hlists ▸ hadd
  · rw [h.rest]
    rfl
  · rw [List.mem_append, List.mem_singleton, not_or] at hk
    exact (h.same k hk.1).trans (hsame k hk.2)
  · exact (Function.update_of_ne hid _ _).trans (h.table id hid)
  · show k ∈ pool.live allocMemblkSize ↔ _
    rw [hlive, Finset.mem_insert, h.live, List.mem_append, List.mem_singleton]
    tauto
  · rcases List.mem_append.1 hk with hk | hk
    · exact h.fresh k hk
    · exact List.mem_singleton.1 hk ▸ hfresh.1
  · have hold : new.map (((t.blocks.withPool pool).copyAllocMemblk m n).add
        dest m).record = new.map t.blocks.record :=
      List.map_congr_left fun k hk ↦ (hsame k (ne_of_mem_of_not_mem hk hfresh.2)).record_eq
    show (new ++ [m]).map
      (((t.blocks.withPool pool).copyAllocMemblk m n).add dest m).record = _
    rw [List.map_append, List.map_singleton, List.length_append, List.length_singleton, hnext,
      List.map_append, List.map_singleton, ← h.record, hold, Blocks.record_add, hrecord]
  · -- the fields of the copy are written before it goes to the front of its bucket
    have hstacked : ((t.blocks.withPool pool).copyAllocMemblk m n).Stacked dest new :=
      (h.stacked hnil).congr rfl fun k hk ↦
        Function.update_of_ne (ne_of_mem_of_not_mem hk hfresh.2) _ _
    exact hstacked.add hm.ne_null hfresh.2

/-- What `mc_duplicate_all_alloc_memblk` does. -/
structure Duplicated (dest src : TableId) (L : TableId → List ℕ) (new : List ℕ)
    (s : State) (ret : ℤ)
    (t : State) : Prop where
  copied : Copied dest L (s.blocks.tableNodes src) new s t
  taken : takeNodes mcAllocateAllocMemblk (L src).length s.blocks.pool = (new, t.blocks.pool)
  ret_eq : ret = if new.length = (L src).length then 0 else -1
  trace : t.trace =
    s.trace ++ (new.map .copied ++ if ret = 0 then [] else [.mmapFailed])

/-- The next element of a list that is walked through. -/
theorem take_succ_of_eq {α : Type*} {l rest : List α} {k : ℕ} {a : α}
    (h : l = l.take k ++ a :: rest) :
    l.take (k + 1) = l.take k ++ [a] ∧ l = l.take (k + 1) ++ rest := by
  have hdrop : l.drop k = a :: rest :=
    List.append_cancel_left ((List.take_append_drop k l).trans h)
  have htake : l.take (k + 1) = l.take k ++ [a] := by
    rw [List.take_add_one, ← List.head?_drop, hdrop]
    rfl
  refine ⟨htake, ?_⟩
  rw [htake, List.append_assoc]
  exact h

/-- No allocation has failed yet: the pool goes on giving what it would have given. -/
structure CopyingOn (dest : TableId) (L : TableId → List ℕ) (order : List ℕ) (s : State)
    (rest new : List ℕ) (t : State) : Prop where
  copied : Copied dest L order new s t
  visited : order = order.take new.length ++ rest
  trace : t.trace = s.trace ++ new.map .copied
  taken : takeNodes mcAllocateAllocMemblk order.length s.blocks.pool =
    (new ++ (takeNodes mcAllocateAllocMemblk rest.length t.blocks.pool).1,
      (takeNodes mcAllocateAllocMemblk rest.length t.blocks.pool).2)

/-- An allocation has failed: nothing more is done. -/
structure CopyingFailed (dest : TableId) (L : TableId → List ℕ) (order : List ℕ) (s : State)
    (rest new : List ℕ) (t : State) : Prop where
  copied : Copied dest L order new s t
  visited : rest <:+ order
  few : new.length < order.length
  trace : t.trace = s.trace ++ (new.map .copied ++ [.mmapFailed])
  taken : takeNodes mcAllocateAllocMemblk order.length s.blocks.pool = (new, t.blocks.pool)

/-- Adding a copy leaves the links of the other nodes alone. -/
theorem Blocks.hashNext_copy_add {b : Blocks} {k m : ℕ} (hk : k ≠ m) :
    (((b.copyAllocMemblk m n).add dest m).memptr k).hashNext = (b.memptr k).hashNext :=
  (congrArg Memptr.hashNext (PtrStore.memptr_setNext_of_ne hk)).trans
    (congrArg Memptr.hashNext (Function.update_of_ne hk _ _))

/-- One step of the copying. -/
theorem CopyingOn.step (h : s.blocks.Holds L) (hne : src ≠ dest) {order rest new : List ℕ}
    (hsub : ∀ k ∈ n :: rest, k ∈ L src) (hc : CopyingOn dest L order s (n :: rest) new t) :
    ∃ u ret, duplicateMemblk dest n (t, 0) = some (u, ret) ∧
      (ret = 0 ∧ (∃ m, CopyingOn dest L order s rest (new ++ [m]) u) ∨
        ret = -1 ∧ CopyingFailed dest L order s rest new u) ∧
      n ∈ u.blocks.pool.live allocMemblkSize ∧
      (∀ k ∈ n :: rest, (u.blocks.memptr k).hashNext = (t.blocks.memptr k).hashNext) ∧
      u.blocks.table src = t.blocks.table src := by
  have hnlive := h.live src n (hsub n List.mem_cons_self)
  obtain ⟨htakeSucc, hvisited⟩ := take_succ_of_eq hc.visited
  obtain ⟨m, pool, halloc, hholds, hcases⟩ := hc.copied.holds.allocate
  have htaken := hc.taken
  rw [List.length_cons, takeNodes, halloc] at htaken
  rw [duplicateMemblk]
  simp only [ne_eq, not_true_eq_false, if_false, halloc, Option.bind_eq_bind, Option.bind_some]
  rcases hcases with ⟨rfl, hlive⟩ | ⟨hm, hlive, hfresh⟩
  · -- the pool has no node: this copy and all to come are not made
    simp only [if_true] at htaken ⊢
    refine ⟨_, _, rfl, .inr ⟨rfl, hc.copied.failed hholds hlive _, ?_, ?_, ?_, ?_⟩, ?_,
      fun _ _ ↦ rfl, rfl⟩
    · exact ⟨_, hvisited.symm⟩
    · have hlen := congrArg List.length hc.visited
      rw [List.length_append, List.length_cons, List.length_take] at hlen
      omega
    · show t.trace ++ _ = _
      rw [hc.trace, List.append_assoc]
    · rw [htaken, List.append_nil]
      rfl
    · show n ∈ pool.live allocMemblkSize
      rw [hlive, hc.copied.live]
      exact .inl hnlive
  · -- the node that is copied is still taken, so it may be read
    have hnpool : n ∈ pool.live allocMemblkSize := by
      rw [hlive, Finset.mem_insert, hc.copied.live]
      exact .inr (.inl hnlive)
    have hcopy := hc.copied.copy hholds hm hlive hfresh hnlive htakeSucc [.copied m]
    have hcheck : ({ t.blocks with pool := pool } : Blocks).check n = some () := if_pos hnpool
    simp only [if_neg hm.ne_null] at htaken ⊢
    rw [hcheck]
    refine ⟨_, _, rfl, .inl ⟨rfl, m, hcopy, ?_, ?_, ?_⟩, hnpool, fun k hk ↦ ?_, ?_⟩
    · rw [List.length_append, List.length_singleton]
      exact hvisited
    · show t.trace ++ _ = _
      rw [hc.trace, List.append_assoc, List.map_append]
      rfl
    · rw [htaken, List.append_assoc]
      rfl
    · refine Blocks.hashNext_copy_add fun heq ↦ hm.notMem src ?_
      rw [Function.update_of_ne hne, ← heq]
      exact hsub k hk
    · exact Function.update_of_ne hne _ _

/-- `mc_duplicate_all_alloc_memblk` returns. -/
theorem duplicate_spec (h : s.blocks.Holds L) (hne : src ≠ dest) :
    ∃ new ret t, s.mcDuplicateAllAllocMemblk dest src = some (ret, t) ∧
      Duplicated dest src L new s ret t := by
  obtain ⟨order, horder⟩ : ∃ order, order = s.blocks.tableNodes src := ⟨_, rfl⟩
  have hperm : order.Perm (L src) := horder ▸ h.tableNodes_perm src
  let I : List ℕ → State × ℤ → Prop := fun rest x ↦ ∃ new,
    x.2 = 0 ∧ CopyingOn dest L order s rest new x.1 ∨
      x.2 = -1 ∧ CopyingFailed dest L order s rest new x.1
  have hloop : Outcome False (forEachMemblk src (duplicateMemblk dest) (s, 0)) (I []) := by
    refine forEachMemblk_outcome I h (fun n rest y hI _ ↦ ?_) ?_
    · obtain ⟨t, ret⟩ := y
      obtain ⟨new, ⟨rfl, hc⟩ | ⟨rfl, hc⟩⟩ := hI
      · have hsub : ∀ k ∈ n :: rest, k ∈ L src := fun k hk ↦
          hperm.subset (hc.visited ▸ List.mem_append_right _ hk)
        obtain ⟨u, ret, hrun, hcases, hlive, hnext, htable⟩ := hc.step h hne hsub
        rw [hrun]
        refine .some ⟨?_, hlive, hnext, fun i _ ↦ congrFun htable i⟩
        rcases hcases with ⟨rfl, m, hc'⟩ | ⟨rfl, hc'⟩
        · exact ⟨new ++ [m], .inl ⟨rfl, hc'⟩⟩
        · exact ⟨new, .inr ⟨rfl, hc'⟩⟩
      · have hn : n ∈ L src := hperm.subset (hc.visited.subset List.mem_cons_self)
        refine .some ⟨⟨new, .inr ⟨rfl, hc.copied, ?_, hc.few, hc.trace, hc.taken⟩⟩,
          (hc.copied.live n).2 (.inl (h.live src n hn)), fun _ _ ↦ rfl, fun _ _ ↦ rfl⟩
        exact (List.suffix_cons n rest).trans hc.visited
    · rw [← horder]
      exact ⟨[], .inl ⟨rfl, .refl h dest order, rfl, (List.append_nil _).symm, rfl⟩⟩
  obtain ⟨⟨t, ret⟩, hrun, new, hcases⟩ := hloop.exists_of_not id
  have heq : s.mcDuplicateAllAllocMemblk dest src = some (ret, t) := by
    rw [mcDuplicateAllAllocMemblk, hrun]
    rfl
  have hlen : order.length = (L src).length := hperm.length_eq
  rcases hcases with ⟨rfl, hc⟩ | ⟨rfl, hc⟩
  · have hnew : new.length = (L src).length := by
      have hrecord := congrArg List.length hc.copied.record
      have hvisited := congrArg List.length hc.visited
      simp only [List.length_map, List.length_take, List.length_append, List.length_nil] at *
      omega
    refine ⟨new, 0, t, heq, horder ▸ hc.copied, ?_, ?_, ?_⟩
    · rw [← hlen]
      simpa [takeNodes] using hc.taken
    · rw [if_pos hnew]
    · rw [hc.trace, if_pos rfl, List.append_nil]
  · refine ⟨new, -1, t, heq, horder ▸ hc.copied, ?_, ?_, ?_⟩
    · rw [← hlen]
      exact hc.taken
    · rw [if_neg (by rw [← hlen]; exact hc.few.ne)]
    · rw [hc.trace, if_neg (by decide)]

/-! ### Giving back -/

/-- The state after a command has given back the nodes. -/
def releaseAll (ns : List ℕ) (s : State) : State :=
  { s with
    blocks := s.blocks.withPool (freeNodes ns s.blocks.pool)
    trace := s.trace ++ ns.map .released }

/-- The state after `mc_destroy_all_alloc_memblk`. -/
def destroyed (id : TableId) (s : State) : State :=
  { s with
    blocks :=
      { s.blocks with
        pool := freeNodes (s.blocks.tableNodes id) s.blocks.pool
        table := Function.update s.blocks.table id fun _ ↦ 0 }
    trace := s.trace ++ (s.blocks.tableNodes id).map .released }

/-- Giving back a table leaves the callstacks alone. -/
theorem callstacks_destroyed (id : TableId) (s : State) :
    (s.destroyed id).callstacks = s.callstacks := by
  rw [destroyed]

/-- Giving back one more node behind others. -/
theorem releaseMemblk_releaseAll (ns : List ℕ) (s : State) :
    (s.releaseAll ns).releaseMemblk n = s.releaseAll (ns ++ [n]) := by
  simp only [releaseMemblk, releaseAll, emit, Blocks.free, Blocks.withPool, freeNodes_append,
    List.map_append, List.append_assoc]
  rfl

/-- `mc_destroy_all_alloc_memblk` returns. -/
theorem destroy_eq (h : s.blocks.Holds L) (id : TableId) :
    s.mcDestroyAllAllocMemblk id = some (s.destroyed id) := by
  have hmem : ∀ k ∈ s.blocks.tableNodes id, k ∈ L id := fun k hk ↦ h.mem_tableNodes.1 hk
  have hnodup : (s.blocks.tableNodes id).Nodup :=
    (h.tableNodes_perm id).nodup_iff.2 (h.table id).nodup
  -- the node that the loop is at is given back one round later
  let I : List ℕ → State × ℕ → Prop := fun rest x ↦ ∃ gone, x.1 = s.releaseAll gone ∧
    (x.2 = 0 ∧ gone = [] ∧ rest = s.blocks.tableNodes id ∨
      x.2 ≠ 0 ∧ s.blocks.tableNodes id = gone ++ x.2 :: rest)
  have hloop : Outcome False (forEachMemblk id
      (fun n x ↦ some (x.1.freeAllocMemblkIfNotNull x.2, n)) (s, 0)) (I []) := by
    refine forEachMemblk_outcome I h (fun n rest y hI _ ↦ .some ?_) ⟨[], ?_, .inl ⟨rfl, rfl, rfl⟩⟩
    · obtain ⟨t, prev⟩ := y
      -- what is given back by now
      obtain ⟨gone, hgone, hnodes⟩ : ∃ gone, t.freeAllocMemblkIfNotNull prev = s.releaseAll gone ∧
          s.blocks.tableNodes id = gone ++ n :: rest := by
        obtain ⟨gone, rfl, ⟨rfl, rfl, hrest⟩ | ⟨hprev, hnodes⟩⟩ := hI
        · exact ⟨[], rfl, hrest.symm⟩
        · refine ⟨gone ++ [prev], ?_, ?_⟩
          · rw [freeAllocMemblkIfNotNull, if_neg hprev, releaseMemblk_releaseAll]
          · rw [hnodes, List.append_assoc, List.singleton_append]
      have hn : n ∈ s.blocks.tableNodes id := by
        rw [hnodes]
        exact List.mem_append_right _ List.mem_cons_self
      have hsub : ∀ k ∈ gone, k ∈ s.blocks.tableNodes id := fun k hk ↦ by
        rw [hnodes]
        exact List.mem_append_left _ hk
      rw [hnodes] at hnodup
      obtain ⟨hgoneNodup, -, hapart⟩ := List.nodup_append.1 hnodup
      obtain ⟨-, hlive⟩ := freeNodes_spec h.pool (fun k hk ↦ h.live id k (hmem k (hsub k hk)))
        hgoneNodup
      refine ⟨⟨gone, hgone, .inr ⟨h.ne_null (hmem n hn), hnodes⟩⟩, ?_, ?_, ?_⟩
      · show n ∈ (t.freeAllocMemblkIfNotNull prev).blocks.pool.live allocMemblkSize
        rw [hgone]
        refine (hlive n).2 ⟨h.live id n (hmem n hn), fun hmemGone ↦ ?_⟩
        exact hapart n hmemGone n List.mem_cons_self rfl
      · intro k _
        show ((t.freeAllocMemblkIfNotNull prev).blocks.memptr k).hashNext = _
        rw [freeAllocMemblkIfNotNull]
        split_ifs <;> rfl
      · intro i _
        show (t.freeAllocMemblkIfNotNull prev).blocks.table id i = _
        rw [freeAllocMemblkIfNotNull]
        split_ifs <;> rfl
    · simp [releaseAll, freeNodes, Blocks.withPool]
  obtain ⟨⟨t, prev⟩, hrun, gone, ht, hcases⟩ := hloop.exists_of_not not_false
  rw [mcDestroyAllAllocMemblk, hrun]
  have hfinal : t.freeAllocMemblkIfNotNull prev = s.releaseAll (s.blocks.tableNodes id) := by
    simp only at ht hcases
    rcases hcases with ⟨rfl, rfl, hnil⟩ | ⟨hprev, hnodes⟩
    · rw [← hnil, freeAllocMemblkIfNotNull, if_pos rfl, ht]
    · rw [freeAllocMemblkIfNotNull, if_neg hprev, ht, releaseMemblk_releaseAll, hnodes]
  simp only [Option.bind_eq_bind, Option.bind_some, hfinal, releaseAll, destroyed,
    Blocks.withPool]
  rfl

/-- The tables after one of them has been given back. -/
theorem holds_destroyed (h : s.blocks.Holds L) (id : TableId) :
    (s.destroyed id).blocks.Holds (Function.update L id []) ∧
      ∀ n, n ∈ (s.destroyed id).blocks.pool.live allocMemblkSize ↔
        n ∈ s.blocks.pool.live allocMemblkSize ∧ n ∉ L id := by
  have hmem : ∀ {k}, k ∈ s.blocks.tableNodes id ↔ k ∈ L id := h.mem_tableNodes
  obtain ⟨hinv, hlive⟩ := freeNodes_spec h.pool (fun k hk ↦ h.live id k (hmem.1 hk))
    ((h.tableNodes_perm id).nodup_iff.2 (h.table id).nodup)
  have hlive' : ∀ n, n ∈ (s.destroyed id).blocks.pool.live allocMemblkSize ↔
      n ∈ s.blocks.pool.live allocMemblkSize ∧ n ∉ L id := fun n ↦ by
    rw [← hmem]
    exact hlive n
  refine ⟨⟨hinv, fun id' ↦ ?_, fun id' n hn ↦ ?_, fun id₁ id₂ hne ↦ ?_⟩, hlive'⟩
  · rcases eq_or_ne id' id with rfl | hne
    · rw [Function.update_self]
      refine PtrTable.empty fun i ↦ ?_
      show Function.update s.blocks.table id' (fun _ ↦ 0) id' i = 0
      rw [Function.update_self]
    · rw [Function.update_of_ne hne]
      refine (h.table id').congr ?_ fun _ _ ↦ rfl
      show Function.update s.blocks.table id (fun _ ↦ 0) id' = s.blocks.table id'
      rw [Function.update_of_ne hne]
  · rcases eq_or_ne id' id with rfl | hne
    · rw [Function.update_self] at hn
      exact absurd hn List.not_mem_nil
    · rw [Function.update_of_ne hne] at hn
      exact (hlive' n).2 ⟨h.live id' n hn, fun hn' ↦ h.disjoint id' id hne hn hn'⟩
  · rcases eq_or_ne id₁ id with rfl | hne₁
    · rw [Function.update_self]
      exact List.disjoint_nil_left _
    · rcases eq_or_ne id₂ id with rfl | hne₂
      · rw [Function.update_self]
        exact List.disjoint_nil_right _
      · rw [Function.update_of_ne hne₁, Function.update_of_ne hne₂]
        exact h.disjoint id₁ id₂ hne

end State

end Memchk
