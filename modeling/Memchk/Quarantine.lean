import Memchk.Library.Ring
import Memchk.ManageMemblk

/-!
# The nodes of freed blocks

`Quarantine.Holds q ns`: the table of freed blocks holds the nodes `ns`, all of them live blocks of
their pool. `Quarantine.Fifo q qs`: the ring holds the nodes `qs`, oldest first, which are the last
`FREE_FIFO_SIZE` of the blocks freed so far. Between two calls both lists are the same; in the
middle of `mc_unregister_memblk` they are not.

## The ring

The ring is an array with the index of its next entry. An entry that was never written is null, and
once the array is full the next write evicts the oldest entry. `Fifo.push` says both: before the
ring is full nothing is evicted, and afterwards the node evicted is the first of `qs`.

The list of `qs` is tied to the history `Quarantine.freed`, to which every free adds its block: the
record of each node in the ring is the entry of the history at its place. The order of the releases
is then a matter of lists, and no index of the array appears above this file.

## The table

The table is one of the hash tables of pointers. A node is `Detached` while it is taken from the
pool and not in the table; it is filled in that state and then added (`Holds.add_fill`). The node
evicted is removed from the table and given back to the pool in one step (`Holds.remove_free`),
which needs that no other node of the table has the same pointer.
-/

namespace Memchk

/-- What a node says about its freed block. -/
structure FreeRecord where
  usrptr : ℕ
  memblk : Memblk
  allocator : ℕ
  freer : ℕ
deriving DecidableEq

namespace Quarantine

/-- The record of a node. -/
def record (q : Quarantine) (n : ℕ) : FreeRecord :=
  ⟨q.store.key n, q.memblk n, q.allocator n, q.freer n⟩

/-- The table holds the nodes `ns`. -/
structure Holds (q : Quarantine) (ns : List ℕ) : Prop where
  pool : q.pool.Inv freeMemblkPoolHead freeMemblkSize
  table : PtrTable freeMemptrHashtableSize q.store ns
  live : ∀ n ∈ ns, n ∈ q.pool.live freeMemblkSize

/-- The ring holds the nodes `qs`, oldest first. -/
structure Fifo (q : Quarantine) (qs : List ℕ) : Prop where
  ring : LastValues freeFifoSize q.freed.length q.freeMemblkArray 0 qs
  idx : q.freeFifoIdx = q.freed.length % freeFifoSize

/-- A node taken from the pool that is not in the table. -/
structure Detached (q : Quarantine) (ns : List ℕ) (n : ℕ) : Prop where
  ne_null : n ≠ 0
  live : n ∈ q.pool.live freeMemblkSize
  notMem : n ∉ ns

variable {q : Quarantine} {ns qs : List ℕ} {n : ℕ}

/-- A walk over a chain has rounds enough for all nodes. -/
theorem Holds.length_lt_rounds (h : q.Holds ns) : ns.length < q.rounds := by
  rw [← List.toFinset_card_of_nodup h.table.nodup]
  refine Nat.lt_succ_of_le ((Finset.card_le_card fun n hn ↦ ?_).trans (Pool.card_live_le _ _))
  exact h.live n (List.mem_toFinset.1 hn)

theorem Holds.ne_null (h : q.Holds ns) (hn : n ∈ ns) : n ≠ 0 :=
  h.table.ne_null hn

theorem Holds.congr {q' : Quarantine} (h : q.Holds ns) (hpool : q'.pool = q.pool)
    (hstore : q'.store = q.store) : q'.Holds ns :=
  ⟨hpool ▸ h.pool, hstore ▸ h.table, hpool ▸ h.live⟩

/-- The ring depends on the history, the array and the index only. -/
theorem Fifo.congr {q' : Quarantine} (h : q.Fifo qs) (hfreed : q'.freed = q.freed)
    (harray : q'.freeMemblkArray = q.freeMemblkArray) (hidx : q'.freeFifoIdx = q.freeFifoIdx) :
    q'.Fifo qs :=
  ⟨by rw [hfreed, harray]; exact h.ring, by rw [hfreed, hidx]; exact h.idx⟩

theorem Holds.perm {ms : List ℕ} (h : q.Holds ns) (hp : ns.Perm ms) : q.Holds ms :=
  ⟨h.pool, h.table.perm hp, fun n hn ↦ h.live n (hp.symm.subset hn)⟩

/-- `mc_allocate_free_memblk` fails and changes nothing that is in use, or gives a detached
node. -/
theorem Holds.allocate (h : q.Holds ns) :
    ∃ n pool, mcAllocateFreeMemblk q.pool = some (n, pool) ∧
      ({ q with pool := pool } : Quarantine).Holds ns ∧
      (n = 0 ∨ ({ q with pool := pool } : Quarantine).Detached ns n) := by
  obtain ⟨n, pool, halloc, hinv, hcases⟩ := h.pool.mcAllocatorAlloc_spec
  refine ⟨n, pool, halloc, ?_⟩
  rcases hcases with ⟨rfl, rfl, -⟩ | ⟨hne, hnot, hlive, -⟩
  · exact ⟨⟨hinv, h.table, h.live⟩, .inl rfl⟩
  · refine ⟨⟨hinv, h.table, fun m hm ↦ ?_⟩, .inr ⟨hne, ?_, fun hmem ↦ hnot (h.live n hmem)⟩⟩
    · change m ∈ pool.live freeMemblkSize
      rw [hlive]
      exact Finset.mem_insert_of_mem (h.live m hm)
    · change n ∈ pool.live freeMemblkSize
      rw [hlive]
      exact Finset.mem_insert_self _ _

/-! ### Filling and adding a node -/

section Insert

variable {x : Memblk} {memptr : Memptr} {allocator freer m : ℕ}

/-- A node that was filled and added describes its block. -/
theorem record_add_fill_self :
    ((q.fill n x memptr allocator freer).add n).record n = ⟨memptr.ptr, x, allocator, freer⟩ := by
  have hkey : (mcAddPtrHashtable freeMemptrHashtableSize n
      (q.fill n x memptr allocator freer).store).key n = memptr.ptr := by
    refine PtrStore.key_setNext.trans ?_
    simp [fill, PtrStore.key]
  rw [record]
  congr 1
  all_goals simp [fill, add]

theorem record_add_fill_of_ne (h : m ≠ n) :
    ((q.fill n x memptr allocator freer).add n).record m = q.record m := by
  have hkey : (mcAddPtrHashtable freeMemptrHashtableSize n
      (q.fill n x memptr allocator freer).store).key m = q.store.key m := by
    refine PtrStore.key_setNext.trans ?_
    simp [fill, PtrStore.key, Function.update_of_ne h]
  rw [record, record]
  congr 1
  all_goals simp [fill, add, Function.update_of_ne h]

/-- A detached node is filled and added to the table. -/
theorem Holds.add_fill (h : q.Holds ns) (hn : q.Detached ns n) (x : Memblk) (memptr : Memptr)
    (allocator freer : ℕ) : ((q.fill n x memptr allocator freer).add n).Holds (n :: ns) where
  pool := h.pool
  table := by
    refine PtrTable.add ?_ hn.ne_null hn.notMem (calcPtrHash_mem (by decide) (by decide) _)
    exact h.table.congr rfl fun m hm ↦
      Function.update_of_ne (ne_of_mem_of_not_mem hm hn.notMem) _ _
  live m hm := by
    rcases List.mem_cons.1 hm with rfl | hm
    · exact hn.live
    · exact h.live m hm

end Insert

/-! ### Finding and removing -/

/-- Removing the key of a node that no other node of the table has, and freeing the node. -/
theorem Holds.remove_free (h : q.Holds ns) (hn : n ∈ ns)
    (huniq : ∀ m ∈ ns, (q.record m).usrptr = (q.record n).usrptr → m = n) :
    ∃ q', q.remove (q.record n).usrptr = some (n, q') ∧ (q'.free n).Holds (ns.erase n) ∧
      (q'.free n).record = q.record ∧ (q'.free n).freed = q.freed ∧
      (q'.free n).freeMemblkArray = q.freeMemblkArray ∧
      (q'.free n).freeFifoIdx = q.freeFifoIdx := by
  rcases h.table.remove (calcPtrHash_mem (by decide) (by decide) (q.record n).usrptr)
    h.length_lt_rounds with
    ⟨hnone, -⟩ | ⟨m, hm, t, hkey, -, hremove, htable, hkeys, -⟩
  · exact absurd rfl (hnone n hn)
  obtain rfl : m = n := huniq m hm hkey
  obtain ⟨hinv, hlive, -⟩ := h.pool.mcAllocatorFree_spec (h.live m hm)
  refine ⟨{ q with store := t }, ?_, ⟨hinv, htable, fun k hk ↦ ?_⟩, ?_, rfl, rfl, rfl⟩
  · rw [remove, hremove]
    rfl
  · change k ∈ (mcAllocatorFree m freeMemblkSize.val q.pool).live freeMemblkSize
    rw [hlive]
    exact Finset.mem_erase.2 ⟨fun heq ↦ h.table.nodup.not_mem_erase (heq ▸ hk),
      h.live k (List.mem_of_mem_erase hk)⟩
  · funext k
    have := hkeys k
    simp only [record, free]
    congr 1

/-- Looking up a pointer gives the node of that pointer, or null if there is none. -/
theorem Holds.find (h : q.Holds ns) (ptr : ℕ) :
    (∀ n ∈ ns, (q.record n).usrptr ≠ ptr) ∧ q.find ptr = some 0 ∨
      ∃ n ∈ ns, (q.record n).usrptr = ptr ∧ q.find ptr = some n := by
  rcases h.table.remove (calcPtrHash_mem (by decide) (by decide) ptr) h.length_lt_rounds with
    ⟨hnone, hfind, -⟩ | ⟨n, hn, -, hkey, hfind, -⟩
  · exact .inl ⟨hnone, hfind⟩
  · exact .inr ⟨n, hn, hkey, hfind⟩

/-! ### The ring -/

/-- A block goes in; the oldest one comes out once the ring is full. -/
theorem Fifo.push (h : q.Fifo qs) (n : ℕ) (x : FreedBlock) :
    (q.freed.length < freeFifoSize ∧ (q.pushFifo n x).1 = 0 ∧ (q.pushFifo n x).2.Fifo (qs ++ [n])) ∨
      freeFifoSize ≤ q.freed.length ∧ ∃ rest, qs = (q.pushFifo n x).1 :: rest ∧
        (q.pushFifo n x).2.Fifo (rest ++ [n]) := by
  have hidx : (q.pushFifo n x).2.freeFifoIdx = (q.pushFifo n x).2.freed.length % freeFifoSize := by
    simp only [pushFifo, h.idx, List.length_append, List.length_singleton]
    exact ite_succ_mod_eq (by decide)
  have hring : (q.pushFifo n x).2.freed.length = q.freed.length + 1 := by simp [pushFifo]
  have harray : (q.pushFifo n x).2.freeMemblkArray =
      Function.update q.freeMemblkArray (q.freed.length % freeFifoSize) n := by
    rw [← h.idx]
    rfl
  have hold : (q.pushFifo n x).1 = q.freeMemblkArray (q.freed.length % freeFifoSize) := by
    rw [← h.idx]
    rfl
  by_cases hlt : q.freed.length < freeFifoSize
  · obtain ⟨hnull, hpush⟩ := h.ring.push_of_lt hlt n
    exact .inl ⟨hlt, hold.trans hnull, ⟨by rw [hring, harray]; exact hpush, hidx⟩⟩
  · obtain ⟨rest, hqs, hpush⟩ := h.ring.push_of_le (by decide) (by omega) n
    exact .inr ⟨by omega, rest, by rw [hold]; exact hqs,
      ⟨by rw [hring, harray]; exact hpush, hidx⟩⟩

/-- The block freed last is in the entry before the next one. -/
theorem Fifo.newest (h : q.Fifo (qs ++ [n])) :
    q.freeMemblkArray ((q.freeFifoIdx + (freeFifoSize - 1)) % freeFifoSize) = n := by
  have hlen := h.ring.length
  rw [List.length_append, List.length_singleton] at hlen
  obtain ⟨k, hk⟩ : ∃ k, q.freed.length = k + 1 :=
    Nat.exists_eq_succ_of_ne_zero fun hzero ↦ by rw [hzero] at hlen; omega
  have hidx : (q.freeFifoIdx + (freeFifoSize - 1)) % freeFifoSize = k % freeFifoSize := by
    rw [h.idx, hk]
    simp only [freeFifoSize]
    omega
  have hring := h.ring
  rw [hk] at hring
  rw [hidx, hring.get_last]

end Quarantine

end Memchk
