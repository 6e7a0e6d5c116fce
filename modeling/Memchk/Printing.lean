import Memchk.Offset
import Memchk.Report
import Memchk.Sort

/-!
# What the reports print

The loops that count, sum up and print. They change nothing but the trace and the sums in the
callstacks (`Resummed`). A loop that prints an array gives one line for each of its entries
(`lines`), and the arrays hold each block of a table, or each callstack with blocks, exactly once,
the largest first if the comparators can tell (`SortedBy`).

## What a report says

`ListsBlocks entries es` and `ListsGroups entries es` are the contents of a report in terms of what
is reported: a list of `Entry`, each a callstack and a size, not a node. `ListsBlocks` asks for one
line for each entry, `ListsGroups` for one line for each callstack with the sizes of its entries.
Neither depends on the order of the entries.

## The order

The comparators of the C code subtract two keys and return the difference as an `int`, so they tell
the larger key only if the difference is in the range of that type: `Comparable`. A report is
promised to be sorted under that condition, and to list every entry exactly once in any case.

## The loops

A report counts its entries, fills an array, sorts it and prints it. Counting is in an `int` or in a
`ssize_t`, and a table with too many nodes makes the count overflow, which is no result; the lemmas
take that as a way to end (`Outcome`). The report by callstack first stores in each callstack the
sum of the sizes of its list (`totalOf`), and sorts by these sums.
-/

namespace Memchk

/-- The lines printed for the entries of an array, one after the other. -/
def lines (line : ℤ → ℕ → Event) (array : List ℕ) : List Event :=
  array.mapIdx fun i n ↦ line i n

theorem lines_append_singleton (line : ℤ → ℕ → Event) (array : List ℕ) (n : ℕ) :
    lines line (array ++ [n]) = lines line array ++ [line array.length n] :=
  List.mapIdx_concat

/-- Lines that show only what `f` gives of an entry. -/
theorem lines_eq_mapIdx {α : Type*} (f : ℕ → α) (line : ℤ → α → Event) (array : List ℕ) :
    lines (fun i n ↦ line i (f n)) array = (array.map f).mapIdx fun i x ↦ line i x := by
  refine (List.mapIdx_eq_iff.2 fun i ↦ ?_).symm
  rw [lines, List.getElem?_mapIdx, List.getElem?_map, Option.map_map]
  rfl

theorem mem_lines {line : ℤ → ℕ → Event} {array : List ℕ} {e : Event} (he : e ∈ lines line array) :
    ∃ (i : ℕ) (n : ℕ), n ∈ array ∧ e = line i n := by
  obtain ⟨i, hi, rfl⟩ := List.mem_mapIdx.1 he
  exact ⟨i, array[i], List.getElem_mem hi, rfl⟩

/-- A block as it is reported. -/
structure Entry where
  usrptr : ℕ
  size : ℕ
  callstack : List ℕ
deriving DecidableEq

/-- The line of a block. -/
def Entry.line (cnt : ℤ) (x : Entry) : Event :=
  .block cnt x.usrptr x.size (x.callstack.drop 2)

/-- The blocks of a callstack as they are reported, by their sizes. -/
structure Group where
  callstack : List ℕ
  sizes : List ℕ

/-- The total of a callstack, an `int64_t`. -/
def Group.total (x : Group) : ℤ :=
  State.addSizes x.sizes 0

/-- The line of a callstack. -/
def Group.line (cnt : ℤ) (x : Group) : Event :=
  .group cnt x.sizes [] x.total (x.callstack.drop 2)

/-- The keys differ by no more than the comparators can tell. -/
def KeysComparable (keys : List ℤ) : Prop :=
  ∀ a ∈ keys, ∀ b ∈ keys, b < a → 0 < (a - b) % 4294967296 ∧ (a - b) % 4294967296 < 2147483648

theorem comparable_iff {key : ℕ → ℤ} {ns : List ℕ} :
    Comparable key ns ↔ KeysComparable (ns.map key) := by
  simp only [Comparable, KeysComparable, List.forall_mem_map]

/-- The lines `es` list all blocks, each once, the largest first if the comparators can tell. -/
def ListsBlocks (entries : List Entry) (es : List Event) : Prop :=
  ∃ listed : List Entry, listed.Perm entries ∧ es = listed.mapIdx (fun i x ↦ x.line i) ∧
    (KeysComparable (entries.map fun x ↦ (x.size : ℤ)) → listed.Pairwise fun x y ↦ y.size ≤ x.size)

/-- The lines `es` list all callstacks, each once, with the sizes of all its blocks, the largest
total first if the comparators can tell. -/
def ListsGroups (entries : List Entry) (es : List Event) : Prop :=
  ∃ groups : List Group, (groups.map Group.callstack).Nodup ∧
    (∀ f, f ∈ groups.map Group.callstack ↔ f ∈ entries.map Entry.callstack) ∧
    (∀ x ∈ groups,
      x.sizes.Perm ((entries.filter fun y ↦ y.callstack = x.callstack).map Entry.size)) ∧
    es = groups.mapIdx (fun i x ↦ x.line i) ∧
    (KeysComparable (groups.map Group.total) → groups.Pairwise fun x y ↦ y.total ≤ x.total)

theorem KeysComparable.perm {keys keys' : List ℤ} (h : KeysComparable keys)
    (hperm : keys.Perm keys') :
    KeysComparable keys' :=
  fun a ha b hb ↦ h a (hperm.symm.subset ha) b (hperm.symm.subset hb)

/-- A report on blocks does not depend on the order of the entries. -/
theorem ListsBlocks.perm {entries entries' : List Entry} {es : List Event}
    (h : ListsBlocks entries es) (hperm : entries.Perm entries') : ListsBlocks entries' es := by
  obtain ⟨listed, hlisted, hes, hsorted⟩ := h
  exact ⟨listed, hlisted.trans hperm, hes, fun hkeys ↦ hsorted (hkeys.perm (hperm.symm.map _))⟩

/-- A report on callstacks does not depend on the order of the entries. -/
theorem ListsGroups.perm {entries entries' : List Entry} {es : List Event}
    (h : ListsGroups entries es) (hperm : entries.Perm entries') : ListsGroups entries' es := by
  obtain ⟨groups, hnodup, hmem, hsizes, hes⟩ := h
  exact ⟨groups, hnodup, fun f ↦ (hmem f).trans (hperm.map _).mem_iff,
    fun x hx ↦ (hsizes x hx).trans ((hperm.filter _).map _), hes⟩

/-- The array holds the nodes `ns`, those with the largest keys first if the keys are comparable. -/
structure SortedBy (key : ℕ → ℤ) (ns array : List ℕ) : Prop where
  perm : array.Perm ns
  descending : Comparable key ns → array.Pairwise fun m n ↦ key n ≤ key m

/-- Only which keys there are matters for comparing them. -/
theorem Comparable.of_map {key key' : ℕ → ℤ} {ns ms : List ℕ} (h : Comparable key ns)
    (hsub : ms.map key' ⊆ ns.map key) : Comparable key' ms := by
  rw [comparable_iff] at h ⊢
  exact fun a ha b hb ↦ h a (hsub ha) b (hsub hb)

theorem sortedBy_mergeSort {cmp : ℕ → ℕ → ℤ} {key : ℕ → ℤ} {ns ms : List ℕ} (hperm : ns.Perm ms)
    (hcmp : ∀ m n, cmp m n = toInt32 (key n - key m)) :
    SortedBy key ms (ns.mergeSort fun a b ↦ cmp a b ≤ 0) where
  perm := (List.mergeSort_perm _ _).trans hperm
  descending h := by
    have hns : Comparable key ns := h.of_map (hperm.map key).subset
    exact (((sortsBySize_iff_comparable hcmp).2 hns).sorted _ sortsUnder_mergeSort).2

namespace State

variable {s t u : State} {L : TableId → List ℕ} {id : TableId} {link : LinkIndex}
  {links : List LinkIndex} {cs ns : List ℕ} {G : ℕ → List ℕ} {c n : ℕ}

/-- The loop that prints the entries of an array. -/
theorem printLoop_outcome {fault : Prop} {body : State × ℤ → ℕ → Option (State × ℤ)}
    {line : ℤ → ℕ → Event} {array : List ℕ} (hlong : 2147483648 ≤ array.length → fault)
    (hbody : ∀ n ∈ array, ∀ es k, Outcome (fault ∨ 2147483647 ≤ k) (body (s.emit es, k) n)
      (· = (s.emit (es ++ [line k n]), k + 1))) :
    Outcome fault (array.foldlM body (s, 0))
      (· = (s.emit (lines line array), (array.length : ℤ))) := by
  let I : List ℕ → State × ℤ → Prop := fun rest y ↦ ∃ done, array = done ++ rest ∧
    y = (s.emit (lines line done), (done.length : ℤ))
  have hinit : I array (s, 0) := by
    refine ⟨[], rfl, Prod.ext ?_ rfl⟩
    simp [lines, emit]
  refine (Outcome.foldlM I ?_ hinit).mono ?_
  · rintro n rest - ⟨done, hdone, rfl⟩
    have hn : n ∈ array := by simp [hdone]
    refine ((hbody n hn _ _).weaken fun h ↦ h.elim id fun hle ↦ hlong ?_).mono ?_
    · rw [hdone, List.length_append, List.length_cons]
      omega
    · rintro - rfl
      refine ⟨done ++ [n], by simp [hdone], ?_⟩
      rw [lines_append_singleton, List.length_append, List.length_singleton]
      rfl
  · rintro - ⟨done, hdone, rfl⟩
    rw [hdone, List.append_nil]

/-! ### Block by block -/

/-- The line of a block. -/
def blockLine (s : State) (cnt : ℤ) (n : ℕ) : Event :=
  .block cnt (s.blocks.record n).usrptr (s.blocks.record n).memblk.usrsize
    (s.callstacks.traceOf (s.blocks.record n).allocator |>.drop 2)

/-- What is reported of a block. -/
def entry (s : State) (n : ℕ) : Entry :=
  ⟨(s.blocks.record n).usrptr, (s.blocks.record n).memblk.usrsize,
    s.callstacks.traceOf (s.blocks.record n).allocator⟩

/-- The array of the nodes of a table. -/
theorem tableArray_eq (h : s.blocks.Holds L) (id : TableId) :
    forEachMemblk id (fun n x ↦ some (x.1, x.2 ++ [n])) (s, []) =
      some (s, s.blocks.tableNodes id) := by
  have hperm := h.tableNodes_perm id
  let I : List ℕ → State × List ℕ → Prop := fun rest y ↦
    y.1 = s ∧ y.2 ++ rest = s.blocks.tableNodes id
  have hloop : Outcome False (forEachMemblk id (fun n x ↦ some (x.1, x.2 ++ [n])) (s, []))
      (I []) := by
    refine forEachMemblk_outcome I h (fun n rest y hI _ ↦ .some ?_) ⟨rfl, List.nil_append _⟩
    obtain ⟨t, array⟩ := y
    obtain ⟨rfl, harray⟩ := hI
    refine ⟨⟨rfl, ?_⟩, ?_, fun _ _ ↦ rfl, fun _ _ ↦ rfl⟩
    · rw [← harray, List.append_assoc, List.singleton_append]
    · refine h.live id n (hperm.subset ?_)
      rw [← harray]
      exact List.mem_append_right _ List.mem_cons_self
  obtain ⟨⟨t, array⟩, hrun, rfl, harray⟩ := hloop.exists_of_not not_false
  rw [hrun, ← harray, List.append_nil]

/-- The loop that prints an array of blocks. -/
theorem printMemblks_outcome {array : List ℕ}
    (hlive : ∀ n ∈ array, n ∈ s.blocks.pool.live allocMemblkSize) :
    Outcome (2147483648 ≤ array.length ∨ ∃ n ∈ array, (s.blocks.record n).allocator = 0)
      (array.foldlM printMemblk (s, 0))
      (· = (s.emit (lines s.blockLine array), (array.length : ℤ))) := by
  refine printLoop_outcome .inl fun n hn es k ↦ ?_
  have hcheck : (s.emit es).blocks.check n = some () := Blocks.check_of_live (hlive n hn)
  rw [printMemblk]
  simp only [Option.bind_eq_bind]
  rw [hcheck, Option.bind_some]
  rcases eq_or_ne (s.blocks.record n).allocator 0 with hzero | hne
  · have hprint : (s.emit es).printCallstack ((s.emit es).blocks.allocator n) 2 = none :=
      if_pos hzero
    rw [hprint]
    exact .none (.inl (.inr ⟨n, hn, hzero⟩))
  · have hprint : (s.emit es).printCallstack ((s.emit es).blocks.allocator n) 2 =
        some ((s.callstacks.traceOf (s.blocks.record n).allocator).drop 2) := by
      rw [Callstacks.traceOf, if_neg hne]
      exact if_neg hne
    rw [hprint, Option.bind_some, incInt]
    split_ifs with hk
    · refine .some (Prod.ext ?_ rfl)
      simp only [emit, List.append_assoc]
      rfl
    · exact .none (.inr (by omega))

/-- The size of a block, as a key. -/
def sizeOf (s : State) (n : ℕ) : ℤ :=
  (s.blocks.record n).memblk.usrsize

/-- A sorted array of blocks, line by line. -/
theorem listsBlocks_of_sortedBy {array : List ℕ} (h : SortedBy s.sizeOf ns array) :
    ListsBlocks (ns.map s.entry) (lines s.blockLine array) := by
  refine ⟨array.map s.entry, h.perm.map _, ?_, fun hkeys ↦ ?_⟩
  · exact lines_eq_mapIdx s.entry Entry.line array
  · rw [List.map_map] at hkeys
    refine List.pairwise_map.2 ((h.descending (comparable_iff.2 hkeys)).imp fun hle ↦ ?_)
    exact Int.ofNat_le.1 hle

/-- `__print_all_memblk_on_hashtable` prints each block of the table once. -/
theorem printAllMemblkOnHashtable_spec (h : s.blocks.Holds L) (id : TableId) (granted : Bool) :
    Outcome (2147483648 ≤ (L id).length ∨ ∃ n ∈ L id, (s.blocks.record n).allocator = 0)
      (printAllMemblkOnHashtable granted id s) fun t ↦ ∃ es, t = s.emit es ∧
        if granted then ∃ array, SortedBy s.sizeOf (L id) array ∧ es = lines s.blockLine array
        else es = [.mmapFailed] := by
  obtain ⟨order, horder⟩ : ∃ order, order = s.blocks.tableNodes id := ⟨_, rfl⟩
  obtain ⟨array, harray⟩ : ∃ array, array = order.mergeSort fun m n ↦
    compareByAllocMemblk (s.blocks.memblk m).usrsize (s.blocks.memblk n).usrsize ≤ 0 := ⟨_, rfl⟩
  have hsorted : SortedBy s.sizeOf (L id) array := by
    rw [harray, horder]
    exact @sortedBy_mergeSort s.compareBlocks _ _ _ (h.tableNodes_perm id)
      fun _ _ ↦ toInt32_sub_toInt32 _ _
  have hperm := hsorted.perm
  rw [printAllMemblkOnHashtable]
  refine ((countMemblk_spec h id).weaken .inl).bind ?_
  rintro - rfl
  cases granted with
  | false => exact .some ⟨[.mmapFailed], rfl, rfl⟩
  | true =>
    have hrun : forEachMemblk id (fun n x ↦ some (x.1, x.2 ++ [n])) (s, []) = some (s, order) :=
      horder ▸ tableArray_eq h id
    have hloop := @printMemblks_outcome s array fun n hn ↦ h.live id n (hperm.subset hn)
    simp only [mcAllocateSortBuffer, if_true, not_true_eq_false, if_false, hrun,
      Option.bind_eq_bind, Option.bind_some, ← harray]
    refine (hloop.weaken ?_).bind ?_
    · rintro (hlong | ⟨n, hn, hzero⟩)
      · exact .inl (hperm.length_eq ▸ hlong)
      · exact .inr ⟨n, hperm.subset hn, hzero⟩
    · rintro - rfl
      exact .some ⟨_, rfl, array, hsorted, rfl⟩

/-! ### By callstack -/

/-- Only the sums in the callstacks may differ. -/
structure Resummed (s t : State) : Prop where
  rest : t = { s with callstacks := t.callstacks }
  callstacks : s.callstacks.Alike t.callstacks
  head : ∀ link c, t.head link c = s.head link c

namespace Resummed

theorem refl (s : State) : Resummed s s :=
  ⟨rfl, .refl _, fun _ _ ↦ rfl⟩

theorem trans (h : Resummed s t) (h' : Resummed t u) : Resummed s u where
  rest := by
    rw [h'.rest, h.rest]
  callstacks := h.callstacks.trans h'.callstacks
  head link c := (h'.head link c).trans (h.head link c)

theorem blocks (h : Resummed s t) : t.blocks = s.blocks := by
  rw [h.rest]

theorem grouped (h : Resummed s t) (hgroup : Grouped link cs ns G s) : Grouped link cs ns G t :=
  hgroup.congr (by rw [h.blocks]) (by rw [h.blocks]) (by rw [h.blocks])
  (funext fun c ↦ h.head link c)

theorem groupsEmpty_eq (h : Resummed s t) (links : List LinkIndex) (c : ℕ) :
    t.groupsEmpty links c = s.groupsEmpty links c := by
  rw [groupsEmpty, groupsEmpty]
  refine congrArg links.all (funext fun link ↦ ?_)
  have hhead : (t.callstacks.node c).sameCallstackGroupNext link =
      (s.callstacks.node c).sameCallstackGroupNext link := h.head link c
  rw [hhead]

/-- Storing one sum. -/
theorem setTotalSize (s : State) (c : ℕ) (size : ℤ) : Resummed s (s.setTotalSize c size) := by
  refine ⟨rfl, Callstacks.Alike.modify s.callstacks c (f := fun x ↦ { x with totalSize := size })
    (fun _ ↦ rfl) (fun _ ↦ rfl) fun _ ↦ rfl, fun link d ↦ ?_⟩
  rcases eq_or_ne d c with rfl | hne
  · simp only [State.head, State.setTotalSize, Callstacks.modify, Function.update_self]
  · simp only [State.head, State.setTotalSize, Callstacks.modify, Function.update_of_ne hne]

end Resummed

/-- `total_size` of a callstack. -/
def totalOf (s : State) (c : ℕ) : ℤ :=
  (s.callstacks.node c).totalSize

@[simp]
theorem totalOf_setTotalSize_self (s : State) (c : ℕ) (size : ℤ) :
    (s.setTotalSize c size).totalOf c = size := by
  simp only [totalOf, setTotalSize, Callstacks.modify, Function.update_self]

theorem totalOf_setTotalSize_of_ne {d : ℕ} (hne : d ≠ c) (s : State) (size : ℤ) :
    (s.setTotalSize c size).totalOf d = s.totalOf d := by
  simp only [totalOf, setTotalSize, Callstacks.modify, Function.update_of_ne hne]

/-- The nodes of a list, read one after the other. -/
theorem groupNodes_eq {b : Blocks} {rounds p : ℕ} {l : List ℕ}
    (hl : Linked b.sameCallstackGroupNext 0 p l) (hlen : l.length < rounds)
    (hlive : ∀ n ∈ l, n ∈ b.pool.live allocMemblkSize) : b.groupNodes rounds p = some l := by
  induction l generalizing p rounds with
  | nil =>
    obtain ⟨k, rfl⟩ := Nat.exists_eq_succ_of_ne_zero (by omega : rounds ≠ 0)
    rw [Linked.nil_iff] at hl
    rw [Blocks.groupNodes, if_pos hl]
  | cons n l ih =>
    obtain ⟨k, rfl⟩ := Nat.exists_eq_succ_of_ne_zero (by omega : rounds ≠ 0)
    obtain ⟨rfl, hnull, hrest⟩ := hl
    rw [List.length_cons] at hlen
    rw [Blocks.groupNodes, if_neg hnull, Blocks.check_of_live (hlive p List.mem_cons_self)]
    have hnodes := ih hrest (by omega : l.length < k) fun n hn ↦ hlive n (List.mem_cons_of_mem _ hn)
    simp only [Option.bind_eq_bind, Option.bind_some, hnodes]
    rfl

/-- The sizes of the blocks. -/
def sizes (s : State) (ns : List ℕ) : List ℕ :=
  ns.map fun n ↦ (s.blocks.record n).memblk.usrsize

/-- The sizes of the blocks in a list. -/
theorem groupSizes_eq (hgroup : Grouped link cs ns G s)
    (hlive : ∀ n ∈ ns, n ∈ s.blocks.pool.live allocMemblkSize) (hc : c ∈ cs) :
    s.groupSizes c link = some (s.sizes (G c)) := by
  have hsub : ∀ n ∈ G c, n ∈ s.blocks.pool.live allocMemblkSize := fun n hn ↦
    hlive n ((hgroup.mem_iff c hc n).1 hn).1
  have hlen : (G c).length < s.blocks.rounds := by
    rw [← List.toFinset_card_of_nodup (hgroup.nodup hc)]
    refine Nat.lt_succ_of_le ((Finset.card_le_card fun n hn ↦ ?_).trans (Pool.card_live_le _ _))
    exact hsub n (List.mem_toFinset.1 hn)
  have hnodes := groupNodes_eq (hgroup.linked c hc).linked hlen hsub
  rw [groupSizes, groupList]
  rw [head] at hnodes
  rw [hnodes]
  rfl

/-- A list is empty exactly if no block has its callstack. -/
theorem Grouped.head_eq_zero_iff (h : Grouped link cs ns G s) (hc : c ∈ cs) :
    s.head link c = 0 ↔ G c = [] := by
  constructor
  · intro hzero
    have hlinked := (h.linked c hc).linked
    rw [hzero] at hlinked
    exact hlinked.eq_nil_of_null
  · intro hnil
    have hlinked := h.linked c hc
    rwa [hnil] at hlinked

/-- Counting the callstacks with blocks. -/
theorem countCallstacks_spec {inc : ℤ → Option ℤ} (h : s.callstacks.Holds cs)
    (links : List LinkIndex) (hinc : ∀ z < 2147483647, inc z = some (z + 1)) :
    Outcome (2147483648 ≤ cs.length) (s.countCallstacks inc links) fun y ↦ ∃ k, y = (s, k) := by
  have hperm := h.tableNodes_perm
  let I : List ℕ → State × ℤ → Prop := fun rest y ↦
    y.1 = s ∧ (2147483648 ≤ cs.length ∨ y.2 + rest.length ≤ (cs.length : ℤ))
  rw [countCallstacks]
  refine (forEachCallstack_outcome I h (fun c rest y hI ↦ ?_) ⟨rfl, .inr ?_⟩).mono fun y hy ↦
    ⟨y.2, Prod.ext hy.1 rfl⟩
  · obtain ⟨t, k⟩ := y
    obtain ⟨rfl, hk⟩ := hI
    rw [List.length_cons] at hk
    push_cast at hk
    split_ifs with hempty
    · exact .some ⟨⟨rfl, by simp only; omega⟩, .refl _⟩
    · cases hrun : inc k with
      | none =>
        have hlarge : ¬k < 2147483647 := fun hlt ↦ by simp [hinc k hlt] at hrun
        exact .none (by omega)
      | some k' =>
        refine .some ⟨⟨rfl, ?_⟩, .refl _⟩
        by_cases hlt : k < 2147483647
        · obtain rfl : k + 1 = k' := Option.some.inj ((hinc k hlt).symm.trans hrun)
          simp only
          omega
        · exact .inl (by omega)
  · rw [← hperm.length_eq, zero_add]

theorem incInt_of_lt : ∀ z < 2147483647, incInt z = some (z + 1) :=
  fun _ h ↦ if_pos h

theorem incInt64_of_lt : ∀ z < 2147483647, incInt64 z = some (z + 1) :=
  fun _ h ↦ if_pos (h.trans (by decide))

/-- The loops that sum up the sizes and collect the callstacks with blocks. -/
theorem sumLoop_spec {body : ℕ → State × List ℕ → Option (State × List ℕ)} {total : ℕ → ℤ}
    (h : s.callstacks.Holds cs)
    (hbody : ∀ c ∈ cs, ∀ t array, Resummed s t → ∃ u, body c (t, array) =
        some (u, if s.groupsEmpty links c then array else array ++ [c]) ∧ Resummed t u ∧
      (∀ d, d ≠ c → u.totalOf d = t.totalOf d) ∧
      (s.groupsEmpty links c = false → u.totalOf c = total c)) :
    ∃ t, forEachCallstack body (s, []) =
        some (t, s.callstacks.tableNodes.filter fun c ↦ !s.groupsEmpty links c) ∧ Resummed s t ∧
      ∀ c ∈ cs, s.groupsEmpty links c = false → t.totalOf c = total c := by
  have hperm := h.tableNodes_perm
  have hnodup : s.callstacks.tableNodes.Nodup :=
    hperm.nodup_iff.2 (h.table.nodup (nodup_tableIndices _))
  let I : List ℕ → State × List ℕ → Prop := fun rest y ↦ ∃ done,
    s.callstacks.tableNodes = done ++ rest ∧ Resummed s y.1 ∧
      y.2 = done.filter (fun c ↦ !s.groupsEmpty links c) ∧
      ∀ c ∈ done, s.groupsEmpty links c = false → y.1.totalOf c = total c
  have hloop : Outcome False (forEachCallstack body (s, [])) (I []) := by
    refine forEachCallstack_outcome I h (fun c rest y hI ↦ ?_)
      ⟨[], (List.nil_append _).symm, .refl s, rfl, by simp⟩
    obtain ⟨t, array⟩ := y
    obtain ⟨done, hdone, hsum, harray, htotal⟩ := hI
    have hc : c ∈ cs := hperm.subset (hdone ▸ List.mem_append_right _ List.mem_cons_self)
    have hnew : ∀ d ∈ done, d ≠ c := by
      rw [hdone] at hnodup
      rintro d hd rfl
      exact (List.nodup_append.1 hnodup).2.2 d hd d List.mem_cons_self rfl
    obtain ⟨u, hrun, hsum', hother, hself⟩ := hbody c hc t array hsum
    rw [hrun]
    refine .some ⟨⟨done ++ [c], ?_, hsum.trans hsum', ?_, fun d hd hempty ↦ ?_⟩, hsum'.callstacks⟩
    · rw [hdone, List.append_assoc, List.singleton_append]
    · simp only at harray
      rw [List.filter_append, harray]
      cases hempty : s.groupsEmpty links c <;> simp [hempty]
    · rcases List.mem_append.1 hd with hd | hd
      · exact (hother d (hnew d hd)).trans (htotal d hd hempty)
      · obtain rfl := List.mem_singleton.1 hd
        exact hself hempty
  obtain ⟨⟨t, array⟩, hrun, done, hdone, hsum, harray, htotal⟩ := hloop.exists_of_not not_false
  rw [List.append_nil] at hdone
  simp only at harray htotal hsum
  refine ⟨t, ?_, hsum, fun c hc ↦ htotal c (hdone ▸ hperm.mem_iff.2 hc)⟩
  rw [hrun, harray, hdone]

/-- The line of a callstack with its blocks, those of the snapshot second. -/
def groupLine (s : State) (G G' : ℕ → List ℕ) (cnt : ℤ) (c : ℕ) : Event :=
  .group cnt (s.sizes (G c)) (s.sizes (G' c))
    (subSizes (s.sizes (G' c)) (addSizes (s.sizes (G c)) 0)) ((s.callstacks.traceOf c).drop 2)

/-- The array of the callstacks with blocks holds each of them once. -/
theorem callstackArray_spec (h : s.callstacks.Holds cs) (links : List LinkIndex) {array : List ℕ}
    (hperm : array.Perm (s.callstacks.tableNodes.filter fun c ↦ !s.groupsEmpty links c)) :
    array.Nodup ∧ (∀ c, c ∈ array ↔ c ∈ cs ∧ s.groupsEmpty links c = false) ∧
      array.length ≤ cs.length := by
  have hnodes := h.tableNodes_perm
  have hnodup := (hnodes.nodup_iff.2 (h.table.nodup (nodup_tableIndices _))).filter
    fun c ↦ !s.groupsEmpty links c
  refine ⟨hperm.nodup_iff.2 hnodup, fun c ↦ ?_, ?_⟩
  · rw [hperm.mem_iff, List.mem_filter, hnodes.mem_iff, Bool.not_eq_true']
  · rw [hperm.length_eq, ← hnodes.length_eq]
    exact List.length_filter_le _ _

/-- The sum over the list of one callstack. -/
theorem sumCallstack_spec (hgroup : Grouped link cs ns G s)
    (hlive : ∀ n ∈ ns, n ∈ s.blocks.pool.live allocMemblkSize) (hc : c ∈ cs) (array : List ℕ)
    (hsum : Resummed s t) :
    ∃ u, sumCallstack link c (t, array) =
        some (u, if s.groupsEmpty [link] c then array else array ++ [c]) ∧ Resummed t u ∧
      (∀ d, d ≠ c → u.totalOf d = t.totalOf d) ∧
      (s.groupsEmpty [link] c = false → u.totalOf c = addSizes (s.sizes (G c)) 0) := by
  have hzero := Resummed.setTotalSize t c 0
  have hsum' := hsum.trans hzero
  have hsizes := groupSizes_eq (hsum'.grouped hgroup)
    (fun n hn ↦ by rw [hsum'.blocks]; exact hlive n hn) hc
  rw [sizes, hsum'.blocks] at hsizes
  rw [sumCallstack]
  simp only [hsum'.groupsEmpty_eq [link] c]
  cases hempty : s.groupsEmpty [link] c with
  | true =>
    exact ⟨_, rfl, hzero, fun d hd ↦ totalOf_setTotalSize_of_ne hd t 0, fun h ↦ absurd h (by simp)⟩
  | false =>
    simp only [Bool.false_eq_true, if_false, hsizes, Option.bind_eq_bind, Option.bind_some]
    refine ⟨_, rfl, hzero.trans (.setTotalSize _ c _), fun d hd ↦ ?_,
      fun _ ↦ totalOf_setTotalSize_self _ _ _⟩
    exact (totalOf_setTotalSize_of_ne hd _ _).trans (totalOf_setTotalSize_of_ne hd t 0)

/-- The sum over the two lists of one callstack. -/
theorem sumBothCallstack_spec {ms : List ℕ} {G' : ℕ → List ℕ} (hgroup : Grouped .current cs ns G s)
    (hgroup' : Grouped .snapshot cs ms G' s)
    (hlive : ∀ n ∈ ns, n ∈ s.blocks.pool.live allocMemblkSize)
    (hlive' : ∀ n ∈ ms, n ∈ s.blocks.pool.live allocMemblkSize) (hc : c ∈ cs) (array : List ℕ)
    (hsum : Resummed s t) :
    ∃ u, sumBothCallstack c (t, array) =
        some (u, if s.groupsEmpty [.current, .snapshot] c then array else array ++ [c]) ∧
      Resummed t u ∧ (∀ d, d ≠ c → u.totalOf d = t.totalOf d) ∧
      (s.groupsEmpty [.current, .snapshot] c = false →
        u.totalOf c = subSizes (s.sizes (G' c)) (addSizes (s.sizes (G c)) 0)) := by
  have hsizes : ∀ {u}, Resummed s u → u.groupSizes c .current = some (s.sizes (G c)) ∧
      u.groupSizes c .snapshot = some (s.sizes (G' c)) := by
    intro u hu
    have hcur := groupSizes_eq (hu.grouped hgroup)
      (fun n hn ↦ by rw [hu.blocks]; exact hlive n hn) hc
    have hsnap := groupSizes_eq (hu.grouped hgroup')
      (fun n hn ↦ by rw [hu.blocks]; exact hlive' n hn) hc
    rw [sizes, hu.blocks] at hcur hsnap
    exact ⟨hcur, hsnap⟩
  rw [sumBothCallstack]
  simp only [hsum.groupsEmpty_eq [.current, .snapshot] c]
  cases hempty : s.groupsEmpty [.current, .snapshot] c with
  | true => exact ⟨t, rfl, .refl t, fun _ _ ↦ rfl, fun h ↦ absurd h (by simp)⟩
  | false =>
    have hone := Resummed.setTotalSize t c 0
    have htwo := hone.trans (.setTotalSize _ c (addSizes (s.sizes (G c)) 0))
    have htotal := totalOf_setTotalSize_self t c 0
    have htotal' := totalOf_setTotalSize_self (t.setTotalSize c 0) c (addSizes (s.sizes (G c)) 0)
    rw [totalOf] at htotal htotal'
    simp only [Bool.false_eq_true, if_false, (hsizes (hsum.trans hone)).1, htotal,
      (hsizes (hsum.trans htwo)).2, htotal', Option.bind_eq_bind, Option.bind_some]
    refine ⟨_, rfl, htwo.trans (.setTotalSize _ c _), fun d hd ↦ ?_,
      fun _ ↦ totalOf_setTotalSize_self _ _ _⟩
    exact (totalOf_setTotalSize_of_ne hd _ _).trans ((totalOf_setTotalSize_of_ne hd _ _).trans
      (totalOf_setTotalSize_of_ne hd t 0))

/-- What is printed of a callstack. -/
theorem printCallstack_eq (hsum : Resummed s t) (hc : c ≠ 0) (es : List Event) :
    (t.emit es).printCallstack c 2 = some ((s.callstacks.traceOf c).drop 2) := by
  rw [Callstacks.traceOf, if_neg hc, ← hsum.callstacks.trace c]
  exact if_neg hc

/-- The lists do not depend on the trace. -/
theorem groupSizes_emit (es : List Event) (c : ℕ) (link : LinkIndex) (s : State) :
    (s.emit es).groupSizes c link = s.groupSizes c link :=
  rfl

/-- The loop that prints the callstacks with their blocks. -/
theorem printCallstackGroups_outcome (hcs : s.callstacks.Holds cs) (hsum : Resummed s u)
    (hgroup : Grouped link cs ns G s) (hlive : ∀ n ∈ ns, n ∈ s.blocks.pool.live allocMemblkSize)
    {array : List ℕ} (hmem : ∀ c ∈ array, c ∈ cs)
    (htotal : ∀ c ∈ array, u.totalOf c = addSizes (s.sizes (G c)) 0) :
    Outcome (2147483648 ≤ array.length) (array.foldlM (printCallstackGroup link) (u, 0))
      (· = (u.emit (lines (s.groupLine G fun _ ↦ []) array), (array.length : ℤ))) := by
  refine printLoop_outcome id fun c hc es k ↦ ?_
  have hsizes := groupSizes_eq (hsum.grouped hgroup)
    (fun n hn ↦ by rw [hsum.blocks]; exact hlive n hn) (hmem c hc)
  rw [sizes, hsum.blocks] at hsizes
  rw [printCallstackGroup]
  simp only [groupSizes_emit, hsizes, printCallstack_eq hsum (hcs.ne_null (hmem c hc)),
    Option.bind_eq_bind, Option.bind_some, incInt]
  split_ifs with hk
  · refine .some (Prod.ext ?_ rfl)
    have htotal' : ((u.emit es).callstacks.node c).totalSize = addSizes (s.sizes (G c)) 0 :=
      htotal c hc
    rw [htotal']
    simp only [emit, List.append_assoc]
    rfl
  · exact .none (.inr (by omega))

/-- The loop that prints the callstacks with the blocks of both copies. -/
theorem printBothCallstackGroups_outcome {ms : List ℕ} {G' : ℕ → List ℕ}
    (hcs : s.callstacks.Holds cs) (hsum : Resummed s u) (hgroup : Grouped .current cs ns G s)
    (hgroup' : Grouped .snapshot cs ms G' s)
    (hlive : ∀ n ∈ ns, n ∈ s.blocks.pool.live allocMemblkSize)
    (hlive' : ∀ n ∈ ms, n ∈ s.blocks.pool.live allocMemblkSize) {array : List ℕ}
    (hmem : ∀ c ∈ array, c ∈ cs)
    (htotal : ∀ c ∈ array,
      u.totalOf c = subSizes (s.sizes (G' c)) (addSizes (s.sizes (G c)) 0)) :
    Outcome (2147483648 ≤ array.length) (array.foldlM printBothCallstackGroups (u, 0))
      (· = (u.emit (lines (s.groupLine G G') array), (array.length : ℤ))) := by
  refine printLoop_outcome id fun c hc es k ↦ ?_
  have hsizes := groupSizes_eq (hsum.grouped hgroup)
    (fun n hn ↦ by rw [hsum.blocks]; exact hlive n hn) (hmem c hc)
  have hsizes' := groupSizes_eq (hsum.grouped hgroup')
    (fun n hn ↦ by rw [hsum.blocks]; exact hlive' n hn) (hmem c hc)
  rw [sizes, hsum.blocks] at hsizes hsizes'
  rw [printBothCallstackGroups]
  simp only [groupSizes_emit, hsizes, hsizes', printCallstack_eq hsum (hcs.ne_null (hmem c hc)),
    Option.bind_eq_bind, Option.bind_some, incInt]
  split_ifs with hk
  · refine .some (Prod.ext ?_ rfl)
    have htotal' : ((u.emit es).callstacks.node c).totalSize =
        subSizes (s.sizes (G' c)) (addSizes (s.sizes (G c)) 0) := htotal c hc
    rw [htotal']
    simp only [emit, List.append_assoc]
    rfl
  · exact .none (.inr (by omega))

/-- The total of the blocks of a callstack. -/
def totalIn (s : State) (G : ℕ → List ℕ) (c : ℕ) : ℤ :=
  addSizes (s.sizes (G c)) 0

/-- `__print_all_memblk_per_callstack` prints each callstack with blocks once. -/
theorem printAllMemblkPerCallstack_spec (hcs : s.callstacks.Holds cs)
    (hgroup : Grouped link cs ns G s) (hlive : ∀ n ∈ ns, n ∈ s.blocks.pool.live allocMemblkSize)
    (granted : Bool) :
    Outcome (2147483648 ≤ cs.length) (printAllMemblkPerCallstack granted link s) fun t ↦
      ∃ u es, Resummed s u ∧ t = u.emit es ∧
        if granted then ∃ order array, SortedBy (s.totalIn G) order array ∧ order.Nodup ∧
          (∀ c, c ∈ order ↔ c ∈ cs ∧ G c ≠ []) ∧ es = lines (s.groupLine G fun _ ↦ []) array
        else es = [.mmapFailed] := by
  rw [printAllMemblkPerCallstack]
  refine (countCallstacks_spec hcs [link] incInt_of_lt).bind ?_
  rintro - ⟨k, rfl⟩
  cases granted with
  | false => exact .some ⟨s, [.mmapFailed], .refl s, rfl, rfl⟩
  | true =>
    obtain ⟨u, hrun, hsum, htotal⟩ := sumLoop_spec hcs fun c hc t array hsum ↦
      sumCallstack_spec hgroup hlive hc array hsum
    generalize horder : s.callstacks.tableNodes.filter (fun c ↦ !s.groupsEmpty [link] c) = order
      at hrun
    simp only [mcAllocateSortBuffer, if_true, not_true_eq_false, if_false, Option.bind_eq_bind]
    rw [hrun, Option.bind_some]
    have hsorted : SortedBy u.totalOf order (u.mcSortPerCallstack order) :=
      @sortedBy_mergeSort u.compareCallstacks _ _ _ (List.Perm.refl order)
        fun _ _ ↦ toInt32_sub_toInt32 _ _
    obtain ⟨hnodup, hmem, hlen⟩ := callstackArray_spec hcs [link] (List.Perm.of_eq horder.symm)
    have hsub : ∀ {c}, c ∈ u.mcSortPerCallstack order → c ∈ order := fun hc ↦ hsorted.perm.subset hc
    have hsum' : ∀ c ∈ order, u.totalOf c = s.totalIn G c := fun c hc ↦
      htotal c ((hmem c).1 hc).1 ((hmem c).1 hc).2
    have hloop := printCallstackGroups_outcome hcs hsum hgroup hlive
      (fun c hc ↦ ((hmem c).1 (hsub hc)).1) fun c hc ↦ hsum' c (hsub hc)
    refine (hloop.weaken fun hlong ↦ (hsorted.perm.length_eq ▸ hlong).trans hlen).bind ?_
    rintro - rfl
    refine .some ⟨u, _, hsum, rfl, order, _, ⟨hsorted.perm, fun hcomparable ↦ ?_⟩, hnodup,
      fun c ↦ (hmem c).trans (and_congr_right fun hc ↦ ?_), rfl⟩
    · have hkeys : order.map u.totalOf ⊆ order.map (s.totalIn G) := by
        rw [List.map_congr_left hsum']
        exact List.Subset.refl _
      refine (hsorted.descending (hcomparable.of_map hkeys)).imp_of_mem fun hc hd hle ↦ ?_
      rwa [hsum' _ (hsub hc), hsum' _ (hsub hd)] at hle
    · rw [ne_eq, ← hgroup.head_eq_zero_iff hc]
      simp [groupsEmpty, State.head]

end State

end Memchk
