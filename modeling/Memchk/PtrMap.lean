import Memchk.Hashtable

/-!
# The table of pointers is a map

A run of `mc_add_ptr_hashtable`, `mc_remove_ptr_hashtable` and `mc_find_ptr_hashtable` on a table
(`PtrOp.run`) beside the same run on a map from pointers to nodes (`PtrOp.runMap`). The table
represents the map as long as no hash becomes negative when it is converted to `int`, which it
cannot in a table with no more than `2 ^ 31` heads.

## The map

On the map adding is an update, removing clears an entry, and finding reads it. Adding a key that is
there, or a node that is in the table, is not legal: the code would put a second node into a chain,
or link a node behind itself.

## The refinement

`Represents size t ns m`: the nodes of the table are `ns`, and the map takes each of their keys to
the node and all other keys to nothing. The step lemma has a case for each operation, and uses the
lemmas on the tables. A removal and a lookup return what the map says.

## Exactness

An index that is negative lies in front of the array, so such an operation does not read or write a
head of the table. `ptrTable_refines_iff` says exactly when this does not happen and the results are
those of the map, for every size of the table and every list of operations.
-/

namespace Memchk

/-- The caller stores the key in a node that it is going to add. -/
def PtrStore.setKey (n ptr : ℕ) (t : PtrStore) : PtrStore :=
  { t with memptr := Function.update t.memptr n { t.memptr n with ptr := ptr } }

/-- An operation on a table. -/
inductive PtrOp
  | add (node ptr : ℕ)
  | remove (ptr : ℕ)
  | find (ptr : ℕ)
deriving DecidableEq

namespace PtrOp

/-- The key that is hashed. -/
def ptr : PtrOp → ℕ
  | add _ ptr | remove ptr | find ptr => ptr

/-- The node returned, null if there is none, and the table after the operation. An access in front
of the array of heads is a fault. -/
def exec (size rounds : ℕ) (op : PtrOp) (t : PtrStore) : Option (ℕ × PtrStore) :=
  if calcPtrHash op.ptr size < 0 then none
  else
    match op with
    | add node ptr => some (0, mcAddPtrHashtable size node (t.setKey node ptr))
    | remove ptr => mcRemovePtrHashtable size ptr rounds t
    | find ptr => (mcFindPtrHashtable size ptr rounds t).map fun node ↦ (node, t)

/-- The results of a sequence of operations, and the table after them. -/
def run (size rounds : ℕ) : List PtrOp → PtrStore → Option (List ℕ × PtrStore)
  | [], t => some ([], t)
  | op :: ops, t => do
    let (node, t) ← op.exec size rounds t
    let (nodes, t) ← run size rounds ops t
    return (node :: nodes, t)

/-! ### The map -/

/-- The operation on a map from pointers to nodes. -/
def apply : PtrOp → (ℕ → Option ℕ) → ℕ × (ℕ → Option ℕ)
  | add node ptr, m => (0, Function.update m ptr (some node))
  | remove ptr, m => ((m ptr).getD 0, Function.update m ptr none)
  | find ptr, m => ((m ptr).getD 0, m)

/-- Only a node that is not in the map is added, under a key that is not in the map. -/
def Allowed : PtrOp → (ℕ → Option ℕ) → Prop
  | add node ptr, m => node ≠ 0 ∧ m ptr = none ∧ ∀ q, m q ≠ some node
  | remove _, _ | find _, _ => True

/-- The results of a sequence of operations on a map, and the map after them. -/
def runMap : List PtrOp → (ℕ → Option ℕ) → List ℕ × (ℕ → Option ℕ)
  | [], m => ([], m)
  | op :: ops, m =>
    let (node, m) := op.apply m
    let (nodes, m) := runMap ops m
    (node :: nodes, m)

/-- All operations of the sequence are allowed when they are made. -/
def Legal : List PtrOp → (ℕ → Option ℕ) → Prop
  | [], _ => True
  | op :: ops, m => op.Allowed m ∧ Legal ops (op.apply m).2

/-- A run on a table gives what it gives on the map, and leaves exactly the entries of the map: a
traversal visits the node of each of them once, and each has the key that it is found under. -/
def RefinesMap (size rounds : ℕ) (ops : List PtrOp) (t : PtrStore) : Prop :=
  ∃ t' ns, run size rounds ops t = some ((runMap ops fun _ ↦ none).1, t') ∧
    forEachNode 0 t'.next t'.head rounds (tableIndices size) = some ns ∧ ns.Nodup ∧
    ∀ n ptr, (runMap ops fun _ ↦ none).2 ptr = some n ↔ n ∈ ns ∧ t'.key n = ptr

end PtrOp

/-! ### The table represents the map -/

/-- The nodes `ns` of the table are those of the map, each under its key. -/
structure Represents (size : ℕ) (t : PtrStore) (ns : List ℕ) (m : ℕ → Option ℕ) : Prop where
  table : PtrTable size t ns
  entry_iff : ∀ n ptr, m ptr = some n ↔ n ∈ ns ∧ t.key n = ptr

namespace Represents

variable {size rounds : ℕ} {t : PtrStore} {ns : List ℕ} {m : ℕ → Option ℕ} {n ptr : ℕ}

theorem empty (h : ∀ i ∈ tableIndices size, t.head i = 0) :
    Represents size t [] fun _ ↦ none :=
  ⟨HashChains.of_head_null h, by simp⟩

theorem eq_none_iff (h : Represents size t ns m) : m ptr = none ↔ ∀ n ∈ ns, t.key n ≠ ptr := by
  rw [Option.eq_none_iff_forall_ne_some]
  exact ⟨fun hnone n hn hkey ↦ hnone n ((h.entry_iff n ptr).2 ⟨hn, hkey⟩),
    fun hnone n hentry ↦ hnone n ((h.entry_iff n ptr).1 hentry).1 ((h.entry_iff n ptr).1 hentry).2⟩

/-- A fresh node under a fresh key. -/
theorem add (h : Represents size t ns m) (hne : n ≠ 0) (hn : ∀ q, m q ≠ some n)
    (hptr : m ptr = none) (hmem : calcPtrHash ptr size ∈ tableIndices size) :
    Represents size (mcAddPtrHashtable size n (t.setKey n ptr)) (n :: ns)
      (Function.update m ptr (some n)) := by
  have hnot : n ∉ ns := fun hmem ↦ hn (t.key n) ((h.entry_iff n _).2 ⟨hmem, rfl⟩)
  have hself : (t.setKey n ptr).key n = ptr := by
    rw [PtrStore.key, PtrStore.setKey]
    simp only [Function.update_self]
  have hold : ∀ k, k ≠ n → (t.setKey n ptr).memptr k = t.memptr k := fun k hk ↦
    Function.update_of_ne hk _ _
  have hkey : ∀ k, (mcAddPtrHashtable size n (t.setKey n ptr)).key k = (t.setKey n ptr).key k :=
    fun k ↦ PtrStore.key_setNext
  have hset : PtrTable size (t.setKey n ptr) ns :=
    h.table.congr rfl fun k hk ↦ hold k (ne_of_mem_of_not_mem hk hnot)
  refine ⟨hset.add hne hnot (by rwa [hself]), fun k q ↦ ?_⟩
  rw [hkey, List.mem_cons]
  by_cases hkn : k = n
  · subst hkn
    rw [hself]
    by_cases hq : q = ptr
    · subst hq
      rw [Function.update_self]
      exact iff_of_true rfl ⟨.inl rfl, rfl⟩
    · rw [Function.update_of_ne hq]
      exact iff_of_false (hn q) fun hboth ↦ hq hboth.2.symm
  · have hk : (t.setKey n ptr).key k = t.key k := by rw [PtrStore.key, hold k hkn, PtrStore.key]
    rw [hk]
    by_cases hq : q = ptr
    · subst hq
      rw [Function.update_self]
      refine iff_of_false (fun heq ↦ hkn (Option.some.inj heq).symm) ?_
      rintro ⟨hmemk, hkq⟩
      exact (h.eq_none_iff.1 hptr) k (hmemk.resolve_left hkn) hkq
    · rw [Function.update_of_ne hq, h.entry_iff]
      exact ⟨fun hboth ↦ ⟨.inr hboth.1, hboth.2⟩, fun hboth ↦ ⟨hboth.1.resolve_left hkn, hboth.2⟩⟩

/-- Finding a key and removing it. -/
theorem lookup (h : Represents size t ns m) (hmem : calcPtrHash ptr size ∈ tableIndices size)
    (hlen : ns.length < rounds) :
    mcFindPtrHashtable size ptr rounds t = some ((m ptr).getD 0) ∧
      ∃ t' ns', mcRemovePtrHashtable size ptr rounds t = some ((m ptr).getD 0, t') ∧
        Represents size t' ns' (Function.update m ptr none) ∧ ns'.length ≤ ns.length := by
  rcases h.table.remove hmem hlen with ⟨hnone, hfind, hremove⟩ |
    ⟨n, hn, t', hkey, hfind, hremove, htable, hkeys, -⟩
  · have hm : m ptr = none := h.eq_none_iff.2 hnone
    rw [hm]
    refine ⟨hfind, t, ns, hremove, ⟨h.table, fun k q ↦ ?_⟩, le_rfl⟩
    by_cases hq : q = ptr
    · subst hq
      rw [Function.update_self, ← hm]
      exact h.entry_iff k q
    · rw [Function.update_of_ne hq]
      exact h.entry_iff k q
  · have hm : m ptr = some n := (h.entry_iff n ptr).2 ⟨hn, hkey⟩
    rw [hm]
    refine ⟨hfind, t', ns.erase n, hremove, ⟨htable, fun k q ↦ ?_⟩, List.length_erase_le⟩
    rw [hkeys, h.table.nodup.mem_erase_iff]
    by_cases hq : q = ptr
    · subst hq
      rw [Function.update_self]
      refine iff_of_false (by simp) ?_
      rintro ⟨⟨hkn, hk⟩, hkq⟩
      have hentry := (h.entry_iff k q).2 ⟨hk, hkq⟩
      rw [hm, Option.some_inj] at hentry
      exact hkn hentry.symm
    · rw [Function.update_of_ne hq, h.entry_iff]
      refine ⟨fun hboth ↦ ⟨⟨?_, hboth.1⟩, hboth.2⟩, fun hboth ↦ ⟨hboth.1.2, hboth.2⟩⟩
      rintro rfl
      exact hq (hboth.2.symm.trans hkey)

/-- One operation on the table and on the map. -/
theorem exec (h : Represents size t ns m) {op : PtrOp} (hop : op.Allowed m)
    (hmem : calcPtrHash op.ptr size ∈ tableIndices size) (hlen : ns.length < rounds) :
    ∃ t' ns', op.exec size rounds t = some ((op.apply m).1, t') ∧
      Represents size t' ns' (op.apply m).2 ∧ ns'.length ≤ ns.length + 1 := by
  have hnonneg : ¬calcPtrHash op.ptr size < 0 := by
    obtain ⟨i, -, hi⟩ := List.mem_map.1 hmem
    rw [← hi]
    exact not_lt.2 (Int.natCast_nonneg i)
  cases op with
  | add node ptr =>
    rw [PtrOp.exec, if_neg hnonneg]
    obtain ⟨hne, hptr, hnode⟩ := hop
    exact ⟨_, _, rfl, h.add hne hnode hptr hmem, le_rfl⟩
  | remove ptr =>
    rw [PtrOp.exec, if_neg hnonneg]
    obtain ⟨-, t', ns', hremove, hrep, hle⟩ := h.lookup hmem hlen
    exact ⟨t', ns', hremove, hrep, Nat.le_succ_of_le hle⟩
  | find ptr =>
    rw [PtrOp.exec, if_neg hnonneg]
    have hfind : mcFindPtrHashtable size ptr rounds t = some ((m ptr).getD 0) :=
      (h.lookup hmem hlen).1
    exact ⟨t, ns, by rw [hfind]; rfl, h, Nat.le_succ _⟩

/-- A run of operations on the table and on the map. -/
theorem run {ops : List PtrOp} (h : Represents size t ns m) (hlegal : PtrOp.Legal ops m)
    (hmem : ∀ op ∈ ops, calcPtrHash op.ptr size ∈ tableIndices size)
    (hlen : ns.length + ops.length < rounds) :
    ∃ t' ns', PtrOp.run size rounds ops t = some ((PtrOp.runMap ops m).1, t') ∧
      Represents size t' ns' (PtrOp.runMap ops m).2 ∧ ns'.length < rounds := by
  induction ops generalizing t ns m with
  | nil => exact ⟨t, ns, rfl, h, hlen⟩
  | cons op ops ih =>
    rw [List.length_cons] at hlen
    obtain ⟨t₁, ns₁, hexec, h₁, hle⟩ :=
      h.exec hlegal.1 (hmem op List.mem_cons_self) (by omega : ns.length < rounds)
    obtain ⟨t', ns', hrun, h', hlt⟩ :=
      ih h₁ hlegal.2 (fun o ho ↦ hmem o (List.mem_cons_of_mem _ ho)) (by omega)
    refine ⟨t', ns', ?_, h', hlt⟩
    rw [PtrOp.run, hexec]
    simp only [Option.bind_eq_bind, Option.bind_some, hrun]
    rfl

end Represents

/-- A run that returns has hashed no key to a negative index. -/
theorem PtrOp.nonneg_of_run {size rounds : ℕ} {ops : List PtrOp} {t : PtrStore}
    {x : List ℕ × PtrStore} (hrun : run size rounds ops t = some x) :
    ∀ op ∈ ops, 0 ≤ calcPtrHash op.ptr size := by
  induction ops generalizing t x with
  | nil => exact fun _ hop ↦ absurd hop List.not_mem_nil
  | cons op ops ih =>
    rw [run] at hrun
    obtain ⟨y, hexec, hrest⟩ := Option.bind_eq_some_iff.1 hrun
    obtain ⟨z, hrest, -⟩ := Option.bind_eq_some_iff.1 hrest
    intro o ho
    rcases List.mem_cons.1 ho with rfl | ho
    · unfold exec at hexec
      split_ifs at hexec with hneg
      exact not_lt.1 hneg
    · exact ih hrest o ho

/-- A run on an empty table refines the run on the map if and only if no hash is negative. -/
theorem ptrTable_refines_iff {size rounds : ℕ} {ops : List PtrOp} {t : PtrStore} (hsize : 0 < size)
    (hempty : ∀ i ∈ tableIndices size, t.head i = 0) (hlegal : PtrOp.Legal ops fun _ ↦ none)
    (hrounds : ops.length < rounds) :
    PtrOp.RefinesMap size rounds ops t ↔ ∀ op ∈ ops, 0 ≤ calcPtrHash op.ptr size := by
  constructor
  · rintro ⟨t', ns, hrun, -⟩
    exact PtrOp.nonneg_of_run hrun
  · intro hnonneg
    obtain ⟨t', ns', hrun, hrep, hlen⟩ := (Represents.empty hempty).run hlegal
      (fun op hop ↦ (calcPtrHash_mem_iff hsize op.ptr).2 (hnonneg op hop))
      (by simpa using hrounds)
    obtain ⟨K, hK, hperm, hle⟩ := HashChains.exists_buckets hrep.table
    have hvisit := forEachNode_eq hK fun i hi ↦ lt_of_le_of_lt (hle i hi) hlen
    refine ⟨t', _, hrun, hvisit, hperm.nodup_iff.1 hrep.table.nodup, fun n ptr ↦ ?_⟩
    rw [hrep.entry_iff, hperm.mem_iff]

/-- A run with two keys in one chain. -/
theorem ptrTable_refines_iff_collision :
    PtrOp.RefinesMap 2 6 [.add 10 4, .add 12 6, .remove 4, .add 10 8, .find 6]
      ⟨fun _ ↦ 0, default⟩ := by
  have hfresh : ∀ q, Function.update (Function.update (Function.update (fun _ ↦ none) 4 (some 10)) 6
      (some 12)) 4 none q ≠ some 10 := by
    intro q
    simp only [Function.update_apply]
    split_ifs <;> simp
  have hother : ∀ q, Function.update (fun _ ↦ none) 4 (some 10) q ≠ some 12 := by
    intro q
    simp only [Function.update_apply]
    split_ifs <;> simp
  have hlegal : PtrOp.Legal [.add 10 4, .add 12 6, .remove 4, .add 10 8, .find 6] fun _ ↦ none :=
    ⟨⟨by decide, rfl, by simp⟩, ⟨by decide, rfl, hother⟩, trivial, ⟨by decide, rfl, hfresh⟩,
      trivial, trivial⟩
  exact (ptrTable_refines_iff (by decide) (fun _ _ ↦ rfl) hlegal (by decide)).2 (by decide)

/-- In a table of `2 ^ 31 + 1` heads, the head that the key `2 ^ 31` is added at lies in front of
the array. -/
theorem not_ptrTable_refines :
    PtrOp.Legal [.add 10 2147483648] (fun _ ↦ none) ∧
      ¬PtrOp.RefinesMap 2147483649 2 [.add 10 2147483648] ⟨fun _ ↦ 0, default⟩ := by
  refine ⟨⟨⟨by decide, rfl, by simp⟩, trivial⟩, ?_⟩
  rintro ⟨t', ns, hrun, -⟩
  exact absurd (PtrOp.nonneg_of_run hrun (.add 10 2147483648) List.mem_cons_self) (by decide)

end Memchk
