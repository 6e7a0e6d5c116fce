import Memchk.Library.HashChains
import Memchk.Words

/-!
# Hash tables of pointers

The tables of `memchk_hashtable.c`: an array of chain heads, and nodes that carry a key and the link
to the next node of their chain. A table is its heads and the store its nodes live in; several
tables share one store, because a node of the C program embeds its `struct memptr`.

## The operations

`mcAddPtrHashtable` puts a node in front of its chain, `mcFindPtrHashtable` and
`mcRemovePtrHashtable` walk a chain until they meet the key. The walk has no bound in the C program;
here it counts rounds, and the round count is a parameter that the callers take large enough for
every chain without a cycle. A walk that runs out of rounds has no result.

The hash is computed by `__calc_ptr_hash` into an `int`, which is negative for a table of more than
`2 ^ 31` heads. `tableIndices` are the indices that are in the array, and `calcPtrHash_mem_iff` says
exactly for which table sizes every hash is among them.

## The invariant

`PtrTable size t ns`: the nodes of the table are `ns`, in no particular order. It is `HashChains` of
the library at the hash of the key of a node, so the facts on chains of linked nodes are not proved
here but taken from there. Adding a node, removing the node of a key and finding it have the
expected effect on `ns` (`PtrTable.add`, `PtrTable.remove`), and `PtrTable.congr` is the frame: a
table does not notice changes to nodes of other tables of the same store.
-/

namespace Memchk

/-- `struct memptr`. -/
structure Memptr where
  ptr : ℕ
  hashNext : ℕ
deriving Inhabited

/-- `ALLOC_MEMPTR_HASHTABLE_SIZE`. -/
abbrev allocMemptrHashtableSize : ℕ := 416963

/-- `FREE_MEMPTR_HASHTABLE_SIZE`. -/
abbrev freeMemptrHashtableSize : ℕ := 521

/-- `CALLSTACK_HASHTABLE_SIZE`. -/
abbrev callstackHashtableSize : ℕ := 104729

/-- The values that the index of `for_each_hashnode`, an `int`, takes. -/
def tableIndices (size : ℕ) : List ℤ :=
  (List.range (min size 2147483648)).map Int.ofNat

/-- `__calc_ptr_hash`. -/
def calcPtrHash (ptr size : ℕ) : ℤ :=
  toInt32 (ptr % size : ℕ)

/-- The heads of a table and the store of its nodes. -/
structure PtrStore where
  head : ℤ → ℕ
  memptr : ℕ → Memptr

namespace PtrStore

/-- The link of a node. -/
def next (t : PtrStore) (n : ℕ) : ℕ :=
  (t.memptr n).hashNext

/-- The key of a node. -/
def key (t : PtrStore) (n : ℕ) : ℕ :=
  (t.memptr n).ptr

/-- A store into the link of a node. -/
def setNext (n q : ℕ) (t : PtrStore) : PtrStore :=
  { t with memptr := Function.update t.memptr n { t.memptr n with hashNext := q } }

/-- A store into the array of heads. -/
def setHead (i : ℤ) (n : ℕ) (t : PtrStore) : PtrStore :=
  { t with head := Function.update t.head i n }

variable {t : PtrStore} {m n q : ℕ}

/-- Setting a link changes the links at that node only. -/
@[simp]
theorem next_setNext : (t.setNext n q).next = Function.update t.next n q := by
  funext m
  by_cases h : m = n
  · subst h
    simp [next, setNext]
  · simp [next, setNext, Function.update_of_ne h]

/-- Setting a link leaves all keys alone. -/
@[simp]
theorem key_setNext : (t.setNext n q).key m = t.key m := by
  by_cases h : m = n
  · subst h
    simp [key, setNext]
  · simp [key, setNext, Function.update_of_ne h]

theorem memptr_setNext_of_ne (h : m ≠ n) : (t.setNext n q).memptr m = t.memptr m :=
  Function.update_of_ne h _ _

/-- Storing the link that a node has changes nothing. -/
theorem setNext_self : t.setNext n (t.next n) = t := by
  rw [setNext, next]
  cases hn : t.memptr n
  simp only [← hn, Function.update_eq_self]

end PtrStore

/-- `mc_add_ptr_hashtable`. -/
def mcAddPtrHashtable (size memptr : ℕ) (t : PtrStore) : PtrStore :=
  let hash := calcPtrHash (t.key memptr) size
  (t.setNext memptr (t.head hash)).setHead hash memptr

/-- The loop of the searches in a table: the node with the key, and the one before it. -/
def findNode (size ptr rounds : ℕ) (t : PtrStore) : Option (ℕ × ℕ) :=
  seek t.next 0 (fun n ↦ t.key n = ptr) rounds 0 (t.head (calcPtrHash ptr size))

/-- `mc_remove_ptr_hashtable`: the node removed, or null. -/
def mcRemovePtrHashtable (size ptr rounds : ℕ) (t : PtrStore) : Option (ℕ × PtrStore) := do
  let (prev, node) ← findNode size ptr rounds t
  if node = 0 then return (0, t)
  if prev ≠ 0 then return (node, t.setNext prev (t.next node))
  else return (node, t.setHead (calcPtrHash ptr size) (t.next node))

/-- `mc_find_ptr_hashtable`. -/
def mcFindPtrHashtable (size ptr rounds : ℕ) (t : PtrStore) : Option ℕ := do
  let (_, node) ← findNode size ptr rounds t
  return node

/-! ### The nodes of a table -/

theorem nodup_tableIndices (size : ℕ) : (tableIndices size).Nodup :=
  List.nodup_range.map Int.ofNat_injective

theorem pairwise_tableIndices (size : ℕ) : (tableIndices size).Pairwise (· < ·) :=
  List.pairwise_map.2 (List.pairwise_lt_range.imp Int.ofNat_lt.2)

/-- For a table of at most `2 ^ 31` heads every hash is an index of the table. -/
theorem calcPtrHash_mem {size : ℕ} (hpos : 0 < size) (hle : size ≤ 2147483648) (ptr : ℕ) :
    calcPtrHash ptr size ∈ tableIndices size := by
  have hlt := Nat.mod_lt ptr hpos
  rw [calcPtrHash, toInt32_of_mem (by omega) (by omega), tableIndices, min_eq_left hle]
  exact List.mem_map.2 ⟨ptr % size, List.mem_range.2 hlt, rfl⟩

/-- A hash is an index of the table unless the conversion to `int` makes it negative. -/
theorem calcPtrHash_mem_iff {size : ℕ} (hpos : 0 < size) (ptr : ℕ) :
    calcPtrHash ptr size ∈ tableIndices size ↔ 0 ≤ calcPtrHash ptr size := by
  have hlt := Nat.mod_lt ptr hpos
  rw [tableIndices, List.mem_map]
  constructor
  · rintro ⟨i, -, heq⟩
    rw [← heq]
    exact Int.natCast_nonneg i
  · intro hnonneg
    refine ⟨(calcPtrHash ptr size).toNat, List.mem_range.2 ?_, Int.toNat_of_nonneg hnonneg⟩
    rw [calcPtrHash, toInt32] at hnonneg ⊢
    omega

/-- The nodes of the table are `ns`, in some order. -/
def PtrTable (size : ℕ) (t : PtrStore) (ns : List ℕ) : Prop :=
  HashChains t.next 0 (fun n ↦ calcPtrHash (t.key n) size) t.head (tableIndices size) ns

namespace PtrTable

variable {size : ℕ} {t t' : PtrStore} {ns ms : List ℕ}

theorem nodup (h : PtrTable size t ns) : ns.Nodup :=
  HashChains.nodup h (nodup_tableIndices size)

theorem ne_null (h : PtrTable size t ns) {n : ℕ} (hn : n ∈ ns) : n ≠ 0 :=
  HashChains.ne_null_of_mem h hn

/-- The order in which the nodes of a table are listed does not matter. -/
theorem perm (h : PtrTable size t ns) (hp : ns.Perm ms) : PtrTable size t ms :=
  HashChains.perm h hp

/-- A table depends on its heads and on the links and keys of its own nodes only. -/
theorem congr (h : PtrTable size t ns) (hhead : t'.head = t.head)
    (hptr : ∀ n ∈ ns, t'.memptr n = t.memptr n) : PtrTable size t' ns :=
  HashChains.congr h (fun n hn ↦ by simp only [PtrStore.next, hptr n hn])
    (fun n hn ↦ by simp only [PtrStore.key, hptr n hn]) fun i _ ↦ by rw [hhead]

theorem empty (h : ∀ i, t.head i = 0) : PtrTable size t [] :=
  HashChains.of_head_null fun i _ ↦ h i

/-- `mc_add_ptr_hashtable` adds a fresh node, if the hash of its key is an index of the table. -/
theorem add (h : PtrTable size t ns) {n : ℕ} (hne : n ≠ 0) (hn : n ∉ ns)
    (hmem : calcPtrHash (t.key n) size ∈ tableIndices size) :
    PtrTable size (mcAddPtrHashtable size n t) (n :: ns) := by
  have hpush := HashChains.push h (nodup_tableIndices size) hne hn hmem
  refine HashChains.congr hpush (fun m _ ↦ ?_) (fun m _ ↦ ?_) fun _ _ ↦ rfl
  · exact congrFun PtrStore.next_setNext m
  · exact congrArg (calcPtrHash · size) PtrStore.key_setNext

/-- `mc_remove_ptr_hashtable` and `mc_find_ptr_hashtable`: no node has the key, or the node found
has it, and removing takes exactly that node out. A traversal may go on from that node. -/
theorem remove (h : PtrTable size t ns) {ptr : ℕ}
    (hmem : calcPtrHash ptr size ∈ tableIndices size) {rounds : ℕ} (hlen : ns.length < rounds) :
    (∀ n ∈ ns, t.key n ≠ ptr) ∧ mcFindPtrHashtable size ptr rounds t = some 0 ∧
        mcRemovePtrHashtable size ptr rounds t = some (0, t) ∨
      ∃ n ∈ ns, ∃ t', t.key n = ptr ∧ mcFindPtrHashtable size ptr rounds t = some n ∧
        mcRemovePtrHashtable size ptr rounds t = some (n, t') ∧ PtrTable size t' (ns.erase n) ∧
        (∀ m, t'.key m = t.key m) ∧ (∀ m ∉ ns, t'.memptr m = t.memptr m) ∧
        (∀ rest, Ahead t.next 0 (fun n ↦ calcPtrHash (t.key n) size) n rest →
          ∀ m ∈ n :: rest, t'.memptr m = t.memptr m) ∧
        ∀ i, i ≠ calcPtrHash ptr size → t'.head i = t.head i := by
  rcases HashChains.search h (nodup_tableIndices size) hmem hlen
    (fun n ↦ decide (t.key n = ptr)) with ⟨hnone, prev, hseek⟩ |
    ⟨prev, n, hn, -, hstop, hseek, hchains, hother⟩
  · have hfind : findNode size ptr rounds t = some (prev, 0) := hseek
    refine .inl ⟨fun n hn hkey ↦ ?_, ?_, ?_⟩
    · have hstop := hnone n hn (by rw [hkey])
      rw [decide_eq_false_iff_not] at hstop
      exact hstop hkey
    · rw [mcFindPtrHashtable, hfind]
      rfl
    · rw [mcRemovePtrHashtable, hfind]
      rfl
  · have hfind : findNode size ptr rounds t = some (prev, n) := hseek
    have hne : n ≠ 0 := h.ne_null hn
    have hkey : t.key n = ptr := of_decide_eq_true hstop
    have hfound : mcFindPtrHashtable size ptr rounds t = some n := by
      rw [mcFindPtrHashtable, hfind]
      rfl
    by_cases hprev : prev = 0
    · rw [unlinkNext, unlinkHead, if_pos hprev, if_pos hprev] at hchains
      refine .inr ⟨n, hn, t.setHead (calcPtrHash ptr size) (t.next n), hkey, hfound, ?_, hchains,
        fun _ ↦ rfl, fun _ _ ↦ rfl, fun _ _ _ _ ↦ rfl, fun i hi ↦ ?_⟩
      · rw [mcRemovePtrHashtable, hfind]
        simp only [Option.bind_eq_bind, Option.bind_some, if_neg hne, hprev, ne_eq,
          not_true_eq_false, if_false]
        rfl
      · simp only [PtrStore.setHead, Function.update_of_ne hi]
    · rw [unlinkNext, unlinkHead, if_neg hprev, if_neg hprev] at hchains
      rw [unlinkNext, if_neg hprev] at hother
      -- where the link of a node stays, so does the node
      have hkeep : ∀ m, Function.update t.next prev (t.next n) m = t.next m →
          (t.setNext prev (t.next n)).memptr m = t.memptr m := by
        intro m hm
        by_cases hmp : m = prev
        · subst hmp
          rw [Function.update_self] at hm
          rw [hm, PtrStore.setNext_self]
        · exact PtrStore.memptr_setNext_of_ne hmp
      refine .inr ⟨n, hn, t.setNext prev (t.next n), hkey, hfound, ?_, ?_,
        fun _ ↦ PtrStore.key_setNext, fun m hm ↦ hkeep m (hother.1 m hm),
        fun rest hrest m hm ↦ hkeep m (hother.2 rest hrest m hm), fun _ _ ↦ rfl⟩
      · rw [mcRemovePtrHashtable, hfind]
        simp only [Option.bind_eq_bind, Option.bind_some, if_neg hne, ne_eq, hprev,
          not_false_eq_true, if_true]
        rfl
      · exact HashChains.congr hchains (fun m _ ↦ congrFun PtrStore.next_setNext m)
          (fun m _ ↦ congrArg (calcPtrHash · size) PtrStore.key_setNext) fun _ _ ↦ rfl

end PtrTable

end Memchk
