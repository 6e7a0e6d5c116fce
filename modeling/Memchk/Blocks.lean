import Memchk.ManageMemblk

/-!
# The nodes of live blocks

`Blocks.Holds b L`: each of the four tables holds the nodes `L` says, these are live blocks of the
pool, and no node is in two tables. Every operation on the nodes keeps this and has the expected
effect on `L`; a node taken from the pool and not yet in a table is `Detached`.

## Records

What a node says about its block is its `record`: the pointer, the buffer and the callstack. The
links that the tables need are no part of it. An operation on a table changes links and therefore no
record (`record_add`, `record_free`), and the modules above state everything about blocks in terms
of records.

## The life of a node

A node is taken from the pool (`Holds.allocate`), filled (`Holds.fill`), and added to one table
(`Holds.add`). Removing it from the table (`Holds.remove`) makes it detached again, and it goes back
to the pool (`Holds.free`) or to another table. In each state the lemma about the next move has what
it needs as a hypothesis, so that a double free of a node, or a node in two tables, cannot be
written down as a legal sequence.

## Removing by pointer

Nothing in a table forbids several nodes for one pointer; that the live table has none is an
invariant of the calls. Removing and finding give one of them, and `Holds.remove` says which list is
left in that case: the list without that node.
-/

namespace Memchk

/-- What a node says about its block. -/
structure AllocRecord where
  usrptr : ℕ
  memblk : Memblk
  allocator : ℕ
deriving DecidableEq

namespace Blocks

/-- The record of a node. -/
def record (b : Blocks) (n : ℕ) : AllocRecord :=
  ⟨(b.memptr n).ptr, b.memblk n, b.allocator n⟩

/-- The tables hold the nodes `L`. -/
structure Holds (b : Blocks) (L : TableId → List ℕ) : Prop where
  pool : b.pool.Inv allocMemblkPoolHead allocMemblkSize
  table : ∀ id, PtrTable allocMemptrHashtableSize (b.ptrStore id) (L id)
  live : ∀ id, ∀ n ∈ L id, n ∈ b.pool.live allocMemblkSize
  disjoint : ∀ id id', id ≠ id' → (L id).Disjoint (L id')

/-- A node taken from the pool that is in no table. -/
structure Detached (b : Blocks) (L : TableId → List ℕ) (n : ℕ) : Prop where
  ne_null : n ≠ 0
  live : n ∈ b.pool.live allocMemblkSize
  notMem : ∀ id, n ∉ L id

variable {b : Blocks} {L : TableId → List ℕ} {n : ℕ} {id : TableId}

/-- Putting back the store of a table changes nothing. -/
theorem withStore_ptrStore (id : TableId) (b : Blocks) : b.withStore id (b.ptrStore id) = b := by
  simp only [withStore, ptrStore, Function.update_eq_self]

theorem ptrStore_withStore_self (t : PtrStore) : (b.withStore id t).ptrStore id = t := by
  simp only [withStore, ptrStore, Function.update_self]

theorem ptrStore_withStore_of_ne {id' : TableId} (h : id' ≠ id) (t : PtrStore) :
    (b.withStore id t).ptrStore id' = ⟨b.table id', t.memptr⟩ := by
  simp only [withStore, ptrStore, Function.update_of_ne h]

/-- The nodes of a table are fewer than the rounds of a loop along them. -/
theorem Holds.length_lt_rounds (h : b.Holds L) (id : TableId) : (L id).length < b.rounds := by
  rw [← List.toFinset_card_of_nodup (h.table id).nodup]
  refine Nat.lt_succ_of_le ((Finset.card_le_card fun n hn ↦ ?_).trans (Pool.card_live_le _ _))
  exact h.live id n (List.mem_toFinset.1 hn)

theorem Holds.ne_null (h : b.Holds L) (hn : n ∈ L id) : n ≠ 0 :=
  (h.table id).ne_null hn

/-- The tables only look at their heads, at the links and keys of their nodes and at the pool. -/
theorem Holds.congr {b' : Blocks} (h : b.Holds L) (hpool : b'.pool = b.pool)
    (htable : b'.table = b.table) (hptr : ∀ id, ∀ n ∈ L id, b'.memptr n = b.memptr n) :
    b'.Holds L where
  pool := hpool ▸ h.pool
  table id := (h.table id).congr (congrFun htable id) (hptr id)
  live id n hn := hpool ▸ h.live id n hn
  disjoint := h.disjoint

/-- `mc_allocate_alloc_memblk` fails and changes nothing that is in use, or gives a detached
node. -/
theorem Holds.allocate (h : b.Holds L) :
    ∃ n pool, mcAllocateAllocMemblk b.pool = some (n, pool) ∧
      ({ b with pool := pool } : Blocks).Holds L ∧
      (n = 0 ∧ pool.live allocMemblkSize = b.pool.live allocMemblkSize ∨
        ({ b with pool := pool } : Blocks).Detached L n ∧
          pool.live allocMemblkSize = insert n (b.pool.live allocMemblkSize) ∧
          n ∉ b.pool.live allocMemblkSize) := by
  obtain ⟨n, pool, halloc, hinv, hcases⟩ := h.pool.mcAllocatorAlloc_spec
  refine ⟨n, pool, halloc, ?_⟩
  rcases hcases with ⟨rfl, rfl, -⟩ | ⟨hne, hnot, hlive, -⟩
  · exact ⟨⟨hinv, h.table, h.live, h.disjoint⟩, .inl ⟨rfl, rfl⟩⟩
  · refine ⟨⟨hinv, h.table, fun id m hm ↦ ?_, h.disjoint⟩,
      .inr ⟨⟨hne, ?_, fun id hmem ↦ hnot (h.live id n hmem)⟩, hlive, hnot⟩⟩
    · change m ∈ pool.live allocMemblkSize
      rw [hlive]
      exact Finset.mem_insert_of_mem (h.live id m hm)
    · change n ∈ pool.live allocMemblkSize
      rw [hlive]
      exact Finset.mem_insert_self _ _

/-! ### Filling a node -/

section Fill

variable {x : Memblk} {usrptr allocator m : ℕ}

@[simp]
theorem record_fill_self : (b.fill n x usrptr allocator).record n = ⟨usrptr, x, allocator⟩ := by
  simp [record, fill]

theorem record_fill_of_ne (h : m ≠ n) :
    (b.fill n x usrptr allocator).record m = b.record m := by
  simp [record, fill, Function.update_of_ne h]

/-- A node outside the tables may be filled. -/
theorem Holds.fill (h : b.Holds L) (hn : ∀ id, n ∉ L id) (x : Memblk) (usrptr allocator : ℕ) :
    (b.fill n x usrptr allocator).Holds L :=
  h.congr rfl rfl fun id _ hm ↦ Function.update_of_ne (ne_of_mem_of_not_mem hm (hn id)) _ _

end Fill

/-! ### Adding and removing -/

/-- Adding a node to a table changes no record. -/
theorem record_add (m : ℕ) : (b.add id n).record m = b.record m := by
  have hkey : (mcAddPtrHashtable allocMemptrHashtableSize n (b.ptrStore id)).key m =
      (b.ptrStore id).key m := PtrStore.key_setNext
  simp only [record, add, withStore]
  congr 1

/-- Adding a detached node to a table. -/
theorem Holds.add (h : b.Holds L) (hn : b.Detached L n) (id : TableId) :
    (b.add id n).Holds (Function.update L id (n :: L id)) where
  pool := h.pool
  table id' := by
    by_cases heq : id' = id
    · subst heq
      rw [Blocks.add, ptrStore_withStore_self, Function.update_self]
      exact (h.table _).add hn.ne_null (hn.notMem _) (calcPtrHash_mem (by decide) (by decide) _)
    · rw [Blocks.add, ptrStore_withStore_of_ne heq, Function.update_of_ne heq]
      exact (h.table id').congr rfl fun m hm ↦
        PtrStore.memptr_setNext_of_ne (fun hmn ↦ hn.notMem id' (hmn ▸ hm))
  live id' m hm := by
    by_cases heq : id' = id
    · subst heq
      rw [Function.update_self] at hm
      rcases List.mem_cons.1 hm with rfl | hm
      · exact hn.live
      · exact h.live _ m hm
    · rw [Function.update_of_ne heq] at hm
      exact h.live id' m hm
  disjoint id₁ id₂ hne m hm₁ hm₂ := by
    have hmem : ∀ id', m ∈ Function.update L id (n :: L id) id' →
        m = n ∧ id' = id ∨ m ∈ L id' := by
      intro id' hm
      by_cases heq : id' = id
      · subst heq
        rw [Function.update_self] at hm
        exact (List.mem_cons.1 hm).imp_left fun h ↦ ⟨h, rfl⟩
      · rw [Function.update_of_ne heq] at hm
        exact .inr hm
    rcases hmem id₁ hm₁ with ⟨hmn, hid₁⟩ | hold₁ <;> rcases hmem id₂ hm₂ with ⟨hmn', hid₂⟩ | hold₂
    · exact hne (hid₁.trans hid₂.symm)
    · exact hn.notMem _ (hmn ▸ hold₂)
    · exact hn.notMem _ (hmn' ▸ hold₁)
    · exact h.disjoint id₁ id₂ hne hold₁ hold₂

/-- Removing a key and finding it: no node of the table has it, or the node found has it, and
removing detaches that node. -/
theorem Holds.remove (h : b.Holds L) (id : TableId) (ptr : ℕ) :
    (∀ n ∈ L id, (b.record n).usrptr ≠ ptr) ∧ b.find id ptr = some 0 ∧
        b.remove id ptr = some (0, b) ∨
      ∃ n ∈ L id, ∃ b', (b.record n).usrptr = ptr ∧ b.find id ptr = some n ∧
        b.remove id ptr = some (n, b') ∧ b'.Holds (Function.update L id ((L id).erase n)) ∧
        b'.Detached (Function.update L id ((L id).erase n)) n ∧ b'.record = b.record ∧
        b'.pool = b.pool ∧ (∀ id', id' ≠ id → b'.table id' = b.table id') ∧
        b'.sameCallstackGroupPrev = b.sameCallstackGroupPrev ∧
        b'.sameCallstackGroupNext = b.sameCallstackGroupNext ∧
        (∀ m ∉ L id, b'.memptr m = b.memptr m) ∧
        (∀ rest, Ahead (b.ptrStore id).next 0
            (fun n ↦ calcPtrHash (b.record n).usrptr allocMemptrHashtableSize) n rest →
          ∀ m ∈ n :: rest, b'.memptr m = b.memptr m) ∧
        ∀ i, i ≠ calcPtrHash ptr allocMemptrHashtableSize → b'.table id i = b.table id i := by
  rcases (h.table id).remove (calcPtrHash_mem (by decide) (by decide) ptr)
    (h.length_lt_rounds id) with
    ⟨hnone, hfind, hremove⟩ |
    ⟨n, hn, t, hkey, hfind, hremove, htable, hkeys, hother, hahead, hhead⟩
  · refine .inl ⟨hnone, hfind, ?_⟩
    rw [Blocks.remove, hremove]
    simp only [Option.bind_eq_bind, Option.bind_some, withStore_ptrStore]
    rfl
  · -- taking a node out of one list leaves the others what they were
    have hsub : ∀ id', ∀ m ∈ Function.update L id ((L id).erase n) id', m ∈ L id' := by
      intro id' m hm
      by_cases heq : id' = id
      · subst heq
        rw [Function.update_self] at hm
        exact List.mem_of_mem_erase hm
      · rwa [Function.update_of_ne heq] at hm
    refine .inr ⟨n, hn, b.withStore id t, hkey, hfind, ?_, ⟨h.pool, fun id' ↦ ?_,
      fun id' m hm ↦ h.live id' m (hsub id' m hm),
      fun id₁ id₂ hne m hm₁ hm₂ ↦ h.disjoint id₁ id₂ hne (hsub _ _ hm₁) (hsub _ _ hm₂)⟩,
      ⟨h.ne_null hn, h.live id n hn, fun id' hm ↦ ?_⟩, ?_, rfl,
      fun id' hne ↦ Function.update_of_ne hne _ _, rfl, rfl, hother, hahead, fun i hi ↦ ?_⟩
    · rw [Blocks.remove, hremove]
      rfl
    · by_cases heq : id' = id
      · subst heq
        rw [ptrStore_withStore_self, Function.update_self]
        exact htable
      · rw [ptrStore_withStore_of_ne heq, Function.update_of_ne heq]
        exact (h.table id').congr rfl fun m hm ↦
          hother m fun hmem ↦ h.disjoint id' id heq hm hmem
    · by_cases heq : id' = id
      · subst heq
        rw [Function.update_self] at hm
        exact (h.table _).nodup.not_mem_erase hm
      · rw [Function.update_of_ne heq] at hm
        exact h.disjoint id' id heq hm hn
    · funext m
      have := hkeys m
      simp only [record, withStore]
      congr 1
    · simp only [withStore, Function.update_self]
      exact hhead i hi

/-- Finding changes nothing. -/
theorem Holds.find (h : b.Holds L) (id : TableId) (ptr : ℕ) :
    (∀ n ∈ L id, (b.record n).usrptr ≠ ptr) ∧ b.find id ptr = some 0 ∨
      ∃ n ∈ L id, (b.record n).usrptr = ptr ∧ b.find id ptr = some n := by
  rcases h.remove id ptr with ⟨hnone, hfind, -⟩ | ⟨n, hn, -, hkey, hfind, -⟩
  · exact .inl ⟨hnone, hfind⟩
  · exact .inr ⟨n, hn, hkey, hfind⟩

@[simp]
theorem record_free : (b.free n).record = b.record := by
  funext m
  simp only [record, Blocks.free]

/-- `mc_free_alloc_memblk` on a detached node. -/
theorem Holds.free (h : b.Holds L) (hn : b.Detached L n) :
    (b.free n).Holds L ∧
      (b.free n).pool.live allocMemblkSize = (b.pool.live allocMemblkSize).erase n := by
  obtain ⟨hinv, hlive, -⟩ := h.pool.mcAllocatorFree_spec hn.live
  refine ⟨⟨hinv, h.table, fun id m hm ↦ ?_, h.disjoint⟩, hlive⟩
  change m ∈ (mcAllocatorFree n allocMemblkSize.val b.pool).live allocMemblkSize
  rw [hlive]
  exact Finset.mem_erase.2 ⟨fun heq ↦ hn.notMem id (heq ▸ hm), h.live id m hm⟩

end Blocks

end Memchk
