import Memchk.Accounting
import Memchk.Difference
import Memchk.Library.Parts

/-!
# Comparing by callstack

The comparison by callstack prints each callstack whose blocks are not of the same sizes as those in
the snapshot, once, with the number of bytes by which they have grown. These numbers add up to the
bytes by which all live blocks have grown (`comparePerCallstack_bytes`).

## Sums in an `int64_t`

The growth is computed in an `int64_t`, by adding the sizes of the blocks left over on one side and
subtracting those on the other. Sizes are values of `size_t`, so the intermediate sums may wrap.
They do so modulo `2 ^ 64`, and the difference of two totals below `2 ^ 63` comes out right however
the sums have wrapped on the way (`subSizes_addSizes`).

## The blocks of one callstack

A comparison copies both tables and cancels blocks of the same size and callstack against each
other. `Split` says what this comes to for one callstack: the sizes on both sides are the sizes left
over and a common part. A callstack is then the same in both tables if and only if nothing is left
over on either side, and its growth is the difference of what is left over.

## The bounds

That the totals are below `2 ^ 63` is no hypothesis. Live blocks lie apart in user space, so their
payloads add up to less; and the snapshot is a copy of what was live at an earlier moment of the
same run (`MappedReachable.sum_snapshot_lt`).
-/

namespace Memchk

/-- A line of the comparison by callstack. -/
def Event.isGroupLine : Event → Bool
  | .group .. | .noBlockChanged => true
  | _ => false

namespace State

/-! ### Sums in an `int64_t` -/

theorem toInt64_emod (z : ℤ) : toInt64 z % 18446744073709551616 = z % 18446744073709551616 := by
  unfold toInt64
  omega

theorem toInt64_mem (z : ℤ) :
    -9223372036854775808 ≤ toInt64 z ∧ toInt64 z < 9223372036854775808 := by
  unfold toInt64
  omega

/-- Adding sizes one by one keeps the sum modulo `2 ^ 64`. -/
theorem addSizes_emod (sizes : List ℕ) (total : ℤ) :
    addSizes sizes total % 18446744073709551616 =
      (total + (sizes.sum : ℕ)) % 18446744073709551616 := by
  induction sizes generalizing total with
  | nil => simp [addSizes]
  | cons size sizes ih =>
    have hstep : addSizes (size :: sizes) total =
        addSizes sizes (toInt64 (total + toInt64 size)) := rfl
    have hsize := toInt64_emod size
    have hsum := toInt64_emod (total + toInt64 size)
    rw [hstep, ih, List.sum_cons]
    push_cast
    omega

/-- Subtracting sizes one by one keeps the difference modulo `2 ^ 64`. -/
theorem subSizes_emod (sizes : List ℕ) (total : ℤ) :
    subSizes sizes total % 18446744073709551616 =
      (total - (sizes.sum : ℕ)) % 18446744073709551616 := by
  induction sizes generalizing total with
  | nil => simp [subSizes]
  | cons size sizes ih =>
    have hstep : subSizes (size :: sizes) total =
        subSizes sizes (toInt64 (total - toInt64 size)) := rfl
    have hsize := toInt64_emod size
    have hsum := toInt64_emod (total - toInt64 size)
    rw [hstep, ih, List.sum_cons]
    push_cast
    omega

/-- Adding sizes stays in the range of the type. -/
theorem addSizes_mem {sizes : List ℕ} {total : ℤ}
    (h : -9223372036854775808 ≤ total ∧ total < 9223372036854775808) :
    -9223372036854775808 ≤ addSizes sizes total ∧ addSizes sizes total < 9223372036854775808 := by
  induction sizes generalizing total with
  | nil => exact h
  | cons size sizes ih => exact ih (toInt64_mem _)

/-- Subtracting sizes stays in the range of the type. -/
theorem subSizes_mem {sizes : List ℕ} {total : ℤ}
    (h : -9223372036854775808 ≤ total ∧ total < 9223372036854775808) :
    -9223372036854775808 ≤ subSizes sizes total ∧ subSizes sizes total < 9223372036854775808 := by
  induction sizes generalizing total with
  | nil => exact h
  | cons size sizes ih => exact ih (toInt64_mem _)

/-- The total of a group, if the sums fit in an `int64_t`. -/
theorem subSizes_addSizes {sizes sizes' : List ℕ} (h : sizes.sum < 9223372036854775808)
    (h' : sizes'.sum < 9223372036854775808) :
    subSizes sizes' (addSizes sizes 0) = (sizes.sum : ℤ) - (sizes'.sum : ℕ) := by
  have hadd := addSizes_emod sizes 0
  have hsub := subSizes_emod sizes' (addSizes sizes 0)
  have hmem : -9223372036854775808 ≤ subSizes sizes' (addSizes sizes 0) ∧
      subSizes sizes' (addSizes sizes 0) < 9223372036854775808 :=
    subSizes_mem (addSizes_mem (by decide))
  omega

/-! ### The blocks of one callstack -/

/-- The sizes of the blocks in a table. -/
def sizesOf (id : TableId) (s : State) : List ℕ :=
  s.sizes (s.blocks.tableNodes id)

/-- The sizes of the blocks in a table that were allocated from one callstack. -/
def sizesFrom (c : ℕ) (id : TableId) (s : State) : List ℕ :=
  s.sizes ((s.blocks.tableNodes id).filter fun n ↦ (s.blocks.record n).allocator = c)

/-- The bytes by which the live blocks of a callstack have grown since the snapshot. -/
def growth (s : State) (c : ℕ) : ℤ :=
  ((s.sizesFrom c .live).sum : ℤ) - (s.sizesFrom c .snapshot).sum

/-- The sizes among pairs of a callstack and a size. -/
def sizesAt (c : ℕ) (kinds : List (ℕ × ℕ)) : List ℕ :=
  (kinds.filter fun k ↦ k.1 = c).map Prod.snd

variable {s t v w : State} {g : Contents} {env : CommandEnv} {new new' kept S : List ℕ}
  {gone : List (ℕ × ℕ)} {es : List Event} {G G' : ℕ → List ℕ} {c : ℕ}

/-- The sizes of the blocks of one callstack, from their kinds. -/
theorem sizes_filter (s : State) (c : ℕ) (ns : List ℕ) :
    s.sizes (ns.filter fun n ↦ (s.blocks.record n).allocator = c) =
      sizesAt c (ns.map s.kind) := by
  rw [sizesAt, List.filter_map, List.map_map]
  rfl

theorem sizesAt_perm {kinds kinds' : List (ℕ × ℕ)} (h : kinds.Perm kinds') (c : ℕ) :
    (sizesAt c kinds).Perm (sizesAt c kinds') :=
  (h.filter _).map _

theorem sizesAt_append (c : ℕ) (kinds kinds' : List (ℕ × ℕ)) :
    sizesAt c (kinds ++ kinds') = sizesAt c kinds ++ sizesAt c kinds' := by
  rw [sizesAt, List.filter_append, List.map_append]
  rfl

theorem mem_sizesAt {kinds : List (ℕ × ℕ)} {size : ℕ} :
    size ∈ sizesAt c kinds ↔ (c, size) ∈ kinds := by
  simp [sizesAt]

/-- Cancelling leaves the difference of the sizes of every callstack. -/
theorem Cancelled.excess {L : TableId → List ℕ} {cs : List ℕ}
    (h : Cancelled L cs s gone kept S w) (hs : s.blocks.Holds L) (c : ℕ) :
    ∃ common, Excess (s.sizesFrom c .liveCopy) (s.sizesFrom c .snapshotCopy) common
      (sizesAt c (kept.map s.kind)) (sizesAt c (S.map s.kind)) := by
  obtain ⟨l, hlive, hsnapshot⟩ := h.cancelling.exists_common
  have htable : ∀ id, (s.sizesFrom c id).Perm (sizesAt c ((L id).map s.kind)) := fun id ↦ by
    rw [sizesFrom, sizes_filter]
    exact sizesAt_perm ((hs.tableNodes_perm id).map _) c
  refine ⟨sizesAt c l, ?_, ?_, fun size hkept hS ↦ ?_⟩
  · rw [← sizesAt_append]
    exact (htable .liveCopy).trans (sizesAt_perm hlive c)
  · rw [← sizesAt_append]
    exact (htable .snapshotCopy).trans (sizesAt_perm hsnapshot c)
  · obtain ⟨a, ha, hka⟩ := List.mem_map.1 (mem_sizesAt.1 hkept)
    obtain ⟨b, hb, hkb⟩ := List.mem_map.1 (mem_sizesAt.1 hS)
    exact h.cancelling.apart a ha b hb (hka.trans hkb.symm)

theorem sizesOf_eq (id : TableId) (s : State) : s.sizesOf id = (s.entriesIn id).map Entry.size := by
  rw [sizesOf, entriesIn, sizes, List.map_map]
  rfl

/-- The copies have the sizes of the tables. -/
theorem BothCopied.sizesOf_perm (hb : BothCopied s g new new' v) :
    (v.sizesOf .liveCopy).Perm (s.sizesOf .live) ∧
      (v.sizesOf .snapshotCopy).Perm (s.sizesOf .snapshot) := by
  have hv := hb.confined.holds
  simp only [sizesOf_eq]
  exact ⟨((entriesIn_perm hv .liveCopy).trans hb.entriesIn.1).map _,
    ((entriesIn_perm hv .snapshotCopy).trans hb.entriesIn.2).map _⟩

/-- The copies have the sizes of the tables, callstack by callstack. -/
theorem BothCopied.sizesFrom_perm (hb : BothCopied s g new new' v) (hs : s.blocks.Holds g.nodes)
    (c : ℕ) : (v.sizesFrom c .liveCopy).Perm (s.sizesFrom c .live) ∧
      (v.sizesFrom c .snapshotCopy).Perm (s.sizesFrom c .snapshot) := by
  have htable : ∀ {u : State} {L : TableId → List ℕ} (id : TableId), u.blocks.Holds L →
      (u.sizesFrom c id).Perm (sizesAt c ((L id).map u.kind)) := fun id hu ↦ by
    rw [sizesFrom, sizes_filter]
    exact sizesAt_perm ((hu.tableNodes_perm id).map _) c
  obtain ⟨hnew, hnew'⟩ := hb.kinds hs
  have hv := hb.confined.holds
  exact ⟨(htable .liveCopy hv).trans ((sizesAt_perm hnew c).trans (htable .live hs).symm),
    (htable .snapshotCopy hv).trans ((sizesAt_perm hnew' c).trans (htable .snapshot hs).symm)⟩

/-- The lists of a callstack have the sizes of its blocks. -/
theorem Partitioned.sizes_perm {cs ns : List ℕ} (h : v.Partitioned cs ns G) (hc : c ∈ cs) :
    (v.sizes (G c)).Perm (sizesAt c (ns.map v.kind)) := by
  rw [← sizes_filter]
  exact (h c hc).map _

/-- The callstacks of the table are listed once. -/
theorem nodup_callstackNodes {cs : List ℕ} (h : s.callstacks.Holds cs) :
    s.callstacks.tableNodes.Nodup :=
  h.tableNodes_perm.nodup_iff.2 (h.table.nodup (nodup_tableIndices _))

/-- The sizes of all blocks in a table are the sizes of the blocks of all callstacks. -/
theorem sum_sizesFrom {cs : List ℕ} (hcs : s.callstacks.Holds cs) {id : TableId}
    (hattr : ∀ n ∈ s.blocks.tableNodes id, (s.blocks.record n).allocator ∈ cs) :
    (s.callstacks.tableNodes.map fun c ↦ (s.sizesFrom c id).sum).sum = (s.sizesOf id).sum :=
  sum_map_filter_eq (nodup_callstackNodes hcs) fun n hn ↦
    hcs.tableNodes_perm.symm.subset (hattr n hn)

/-- The sizes of a callstack do not add up to more than those of all blocks. -/
theorem sum_sizesFrom_le {cs : List ℕ} (hcs : s.callstacks.Holds cs) {id : TableId}
    (hattr : ∀ n ∈ s.blocks.tableNodes id, (s.blocks.record n).allocator ∈ cs) (hc : c ∈ cs) :
    (s.sizesFrom c id).sum ≤ (s.sizesOf id).sum := by
  rw [← sum_sizesFrom hcs hattr]
  exact List.single_le_sum (by simp) _ (List.mem_map_of_mem
    (f := fun c ↦ (s.sizesFrom c id).sum) (hcs.tableNodes_perm.symm.subset hc))

/-! ### The comparison -/

theorem lines_congr {line line' : ℤ → ℕ → Event} {array : List ℕ}
    (h : ∀ (i : ℕ), ∀ n ∈ array, line i n = line' i n) : lines line array = lines line' array :=
  List.mapIdx_eq_mapIdx_iff.2 fun i hi ↦ h i _ (List.getElem_mem hi)

/-- The lines `es` that a comparison by callstack prints where the blocks of a callstack `c` have
the sizes `A c` on the one side and `B c` on the other: one for each callstack of `array`. -/
structure ChangedGroups (s : State) (A B : ℕ → List ℕ) (array : List ℕ) (es : List Event) :
    Prop where
  nodup : array.Nodup
  mem_iff : ∀ c, c ∈ array ↔ c ∈ s.callstacks.tableNodes ∧ ¬(A c).Perm (B c)
  groups : ∃ left right : ℕ → List ℕ,
    (∀ c ∈ array, ∀ size, (left c).count size = (A c).count size - (B c).count size ∧
      (right c).count size = (B c).count size - (A c).count size) ∧
    es.filter Event.isGroupLine = if array = [] then [.noBlockChanged] else
      lines (fun i c ↦ .group i (left c) (right c) ((A c).sum - (B c).sum : ℤ)
        ((s.callstacks.traceOf c).drop 2)) array

/-- The lines `es` that a comparison by callstack adds to the trace: one for each callstack of
`array`, with the sizes that only the live blocks have, and those that only the snapshot has. -/
structure GroupDifference (s : State) (array : List ℕ) (es : List Event) (t : State) : Prop where
  trace : t.trace = s.trace ++ es
  nodup : array.Nodup
  mem_iff : ∀ c, c ∈ array ↔ c ∈ s.callstacks.tableNodes ∧
    ¬(s.sizesFrom c .live).Perm (s.sizesFrom c .snapshot)
  groups : ∃ left right : ℕ → List ℕ,
    (∀ c ∈ array, ∀ size,
      (left c).count size = (s.sizesFrom c .live).count size -
      (s.sizesFrom c .snapshot).count size ∧
      (right c).count size =
        (s.sizesFrom c .snapshot).count size - (s.sizesFrom c .live).count size) ∧
    es.filter Event.isGroupLine = if array = [] then [.noBlockChanged] else
      lines (fun i c ↦ .group i (left c) (right c) (s.growth c)
        ((s.callstacks.traceOf c).drop 2)) array
  total : (array.map s.growth).sum = ((s.sizesOf .live).sum : ℤ) - (s.sizesOf .snapshot).sum

/-- Copies and their release print nothing. -/
theorem filter_isGroupLine (ns ms ks : List ℕ) :
    ((ns.map Event.copied ++ (ms.map Event.released ++ es) ++ ks.map Event.released).filter
      Event.isGroupLine) = es.filter Event.isGroupLine :=
  filter_command (fun _ ↦ rfl) (fun _ ↦ rfl) ns ms ks es

/-- The list of a callstack is empty if no block of it is left over. -/
theorem Partitioned.eq_nil_iff {cs ns : List ℕ} (h : v.Partitioned cs ns G) (hc : c ∈ cs) :
    G c = [] ↔ sizesAt c (ns.map v.kind) = [] := by
  have hlen := (h.sizes_perm hc).length_eq
  rw [sizes, List.length_map] at hlen
  rw [← List.length_eq_zero_iff, ← List.length_eq_zero_iff, hlen]

/-- What is left of the copies has callstacks in the table. -/
theorem Cancelled.exists_sizesAt {L : TableId → List ℕ} {cs : List ℕ}
    (h : Cancelled L cs v gone kept S w) (hsome : ¬(kept = [] ∧ S = [])) :
    ∃ c ∈ cs, ¬(sizesAt c (kept.map v.kind) = [] ∧ sizesAt c (S.map v.kind) = []) := by
  have hmem : ∀ {ns : List ℕ} {n}, n ∈ ns →
      sizesAt (v.blocks.record n).allocator (ns.map v.kind) ≠ [] := by
    intro ns n hn hnil
    have hsize := mem_sizesAt.2 (List.mem_map_of_mem (f := v.kind) hn)
    rw [hnil] at hsize
    exact List.not_mem_nil hsize
  rw [not_and_or] at hsome
  rcases hsome with hkept | hS
  · obtain ⟨n, hn⟩ := List.exists_mem_of_ne_nil _ hkept
    have hcopy : n ∈ L .liveCopy := h.cancelling.left.symm.subset (by simp [hn])
    exact ⟨_, h.interned _ (by simp) n hcopy, fun hnil ↦ hmem hn hnil.1⟩
  · obtain ⟨n, hn⟩ := List.exists_mem_of_ne_nil _ hS
    have hcopy : n ∈ L .snapshotCopy := h.cancelling.right.symm.subset (by simp [hn])
    exact ⟨_, h.interned _ (by simp) n hcopy, fun hnil ↦ hmem hn hnil.2⟩

/-- The total of a group is what its callstack has grown by. -/
theorem Partitioned.total_eq {A B common cs : List ℕ} (hG : v.Partitioned cs kept G)
    (hG' : v.Partitioned cs S G') (hc : c ∈ cs)
    (h : Excess A B common (sizesAt c (kept.map v.kind)) (sizesAt c (S.map v.kind)))
    (hA : A.sum < 9223372036854775808) (hB : B.sum < 9223372036854775808) :
    subSizes (v.sizes (G' c)) (addSizes (v.sizes (G c)) 0) = (A.sum : ℤ) - B.sum := by
  have hleft := (hG.sizes_perm hc).sum_eq
  have hright := (hG'.sizes_perm hc).sum_eq
  have hA' := h.perm_left.sum_eq
  have hB' := h.perm_right.sum_eq
  rw [List.sum_append] at hA' hB'
  rw [subSizes_addSizes (by omega) (by omega), hleft, hright, h.sum_sub_sum]

/-- What is printed of two copies that have been cancelled against each other. -/
theorem Cancelled.changedGroups {L : TableId → List ℕ} {cs : List ℕ}
    (h : Cancelled L cs v gone kept S w) (hv : v.blocks.Holds L) (hcs : v.callstacks.Holds cs)
    (hlive : (v.sizesOf .liveCopy).sum < 9223372036854775808)
    (hsnapshot : (v.sizesOf .snapshotCopy).sum < 9223372036854775808)
    (hprinted : kept = [] ∧ S = [] ∧ es = [.noBlockChanged] ∨
      ¬(kept = [] ∧ S = []) ∧ v.GroupReport cs kept S es) :
    ∃ array, v.ChangedGroups (fun c ↦ v.sizesFrom c .liveCopy)
      (fun c ↦ v.sizesFrom c .snapshotCopy) array es := by
  have hexcess := h.excess hv
  have hmemcs : ∀ {c}, c ∈ cs ↔ c ∈ v.callstacks.tableNodes := hcs.tableNodes_perm.mem_iff.symm
  have hattr : ∀ id ∈ scratch, ∀ n ∈ v.blocks.tableNodes id,
      (v.blocks.record n).allocator ∈ cs := fun id hid n hn ↦
    h.interned id hid n (hv.mem_tableNodes.1 hn)
  rcases hprinted with ⟨hkept, hS, rfl⟩ | ⟨hsome, G, G', array, hG, hG', hnodup, harray, rfl⟩
  · -- nothing is left, so every callstack has the same sizes on both sides
    refine ⟨[], List.nodup_nil, fun c ↦ ?_, ⟨fun _ ↦ [], fun _ ↦ [], by simp, rfl⟩⟩
    obtain ⟨common, hc⟩ := hexcess c
    have hperm := hc.perm_iff.2 (by rw [hkept, hS]; exact ⟨rfl, rfl⟩)
    exact iff_of_false List.not_mem_nil fun h ↦ h.2 hperm
  · -- something is left, so a callstack is printed
    have hne : array ≠ [] := by
      obtain ⟨c, hc, hchanged⟩ := h.exists_sizesAt hsome
      rw [← hG.eq_nil_iff hc, ← hG'.eq_nil_iff hc] at hchanged
      exact List.ne_nil_of_mem ((harray c).2 ⟨hc, hchanged⟩)
    refine ⟨array, hnodup, fun c ↦ ?_, ⟨fun c ↦ v.sizes (G c), fun c ↦ v.sizes (G' c), ?_, ?_⟩⟩
    · obtain ⟨common, hc⟩ := hexcess c
      rw [harray, hc.perm_iff, hmemcs]
      refine and_congr_right fun hmem ↦ not_congr ?_
      rw [hG.eq_nil_iff (hmemcs.2 hmem), hG'.eq_nil_iff (hmemcs.2 hmem)]
    · intro c hc size
      obtain ⟨common, hcommon⟩ := hexcess c
      have hc' := ((harray c).1 hc).1
      rw [(hG.sizes_perm hc').count_eq, (hG'.sizes_perm hc').count_eq]
      exact hcommon.count_eq size
    · rw [if_neg hne, List.filter_eq_self.2]
      · refine lines_congr fun i c hc ↦ ?_
        obtain ⟨common, hcommon⟩ := hexcess c
        obtain ⟨hc', -⟩ := (harray c).1 hc
        have htotal := hG.total_eq hG' hc' hcommon
          ((sum_sizesFrom_le hcs (hattr .liveCopy (by simp)) hc').trans_lt hlive)
          ((sum_sizesFrom_le hcs (hattr .snapshotCopy (by simp)) hc').trans_lt hsnapshot)
        rw [groupLine, htotal]
      · intro e he
        obtain ⟨i, c, -, rfl⟩ := mem_lines he
        rfl

namespace ChangedGroups

variable {A B A' B' : ℕ → List ℕ} {array : List ℕ}

/-- The order of the sizes does not matter. -/
theorem congr (h : ChangedGroups v A B array es) (hcallstacks : v.callstacks = s.callstacks)
    (hA : ∀ c, (A c).Perm (A' c)) (hB : ∀ c, (B c).Perm (B' c)) :
    ChangedGroups s A' B' array es where
  nodup := h.nodup
  mem_iff c := by
    rw [h.mem_iff, hcallstacks, (hA c).congr_left, (hB c).congr_right]
  groups := by
    obtain ⟨left, right, hcount, hlines⟩ := h.groups
    refine ⟨left, right, fun c hc size ↦ ?_, ?_⟩
    · rw [← (hA c).count_eq, ← (hB c).count_eq]
      exact hcount c hc size
    · rw [hlines]
      simp only [(hA _).sum_eq, (hB _).sum_eq, hcallstacks]

/-- The callstacks that have changed account for the difference of all sizes. -/
theorem sum_eq (h : ChangedGroups s A B array es) {cs : List ℕ} (hcs : s.callstacks.Holds cs) :
    (array.map fun c ↦ ((A c).sum : ℤ) - (B c).sum).sum =
      ((s.callstacks.tableNodes.map fun c ↦ (A c).sum).sum : ℤ) -
        (s.callstacks.tableNodes.map fun c ↦ (B c).sum).sum := by
  have hperm : array.Perm (s.callstacks.tableNodes.filter fun c ↦
      !decide ((A c).Perm (B c))) := by
    refine (List.perm_ext_iff_of_nodup h.nodup ((nodup_callstackNodes hcs).filter _)).2 fun c ↦ ?_
    rw [h.mem_iff, List.mem_filter, Bool.not_eq_true', decide_eq_false_iff_not]
  rw [(hperm.map _).sum_eq, sum_map_filter_of_eq_zero, sum_map_cast_sub]
  intro c _ hsame
  have hsizes : (A c).Perm (B c) := by simpa using hsame
  rw [hsizes.sum_eq]
  omega

end ChangedGroups

/-- The blocks of a table have their callstacks in the table of these. -/
theorem Settled.attributed_tableNodes (h : s.Settled g) (id : TableId) :
    ∀ n ∈ s.blocks.tableNodes id, (s.blocks.record n).allocator ∈ g.callstacks := by
  intro n hn
  have hn' : n ∈ g.nodes id := h.inv.blocks.mem_tableNodes.1 hn
  exact (h.inv.interned id n hn').resolve_left (h.attributed.allocator id n hn')

/-- The lines of a comparison by callstack, and the sum of their numbers. -/
theorem ComparedByCallstack.bytes
    (h : ComparedByCallstack env s g new new' gone kept S v w es t) (hs : s.Settled g)
    (hsort : env.sortBuffer 0 = true) (hlive : (s.sizesOf .live).sum < 9223372036854775808)
    (hsnapshot : (s.sizesOf .snapshot).sum < 9223372036854775808) :
    ∃ array es, GroupDifference s array es t := by
  obtain ⟨ns, htrace⟩ := h.trace
  have hv := h.both.confined.holds
  have hcs : v.callstacks.Holds g.callstacks := h.both.callstacks ▸ hs.inv.callstacks
  have hperm := h.both.sizesFrom_perm hs.inv.blocks
  have hprinted : kept = [] ∧ S = [] ∧ es = [.noBlockChanged] ∨
      ¬(kept = [] ∧ S = []) ∧ v.GroupReport g.callstacks kept S es := by
    have := h.printed
    rwa [if_pos hsort] at this
  have hsum := h.both.sizesOf_perm
  obtain ⟨array, hgroups⟩ := h.cancelled.changedGroups hv hcs (hsum.1.sum_eq ▸ hlive)
    (hsum.2.sum_eq ▸ hsnapshot) hprinted
  replace hgroups := hgroups.congr h.both.callstacks (fun c ↦ (hperm c).1) fun c ↦ (hperm c).2
  refine ⟨array, _, htrace, hgroups.nodup, hgroups.mem_iff, ?_, ?_⟩
  · rw [filter_isGroupLine]
    exact hgroups.groups
  · refine (hgroups.sum_eq hs.inv.callstacks).trans ?_
    rw [sum_sizesFrom hs.inv.callstacks (hs.attributed_tableNodes .live),
      sum_sizesFrom hs.inv.callstacks (hs.attributed_tableNodes .snapshot)]

/-! ### The sizes in both tables -/

theorem Inv.sum_sizesOf_lt (h : s.Inv g) : (s.sizesOf .live).sum < 9223372036854775808 := by
  have hperm : (s.sizesOf .live).Perm (s.liveSizes g) := (h.blocks.tableNodes_perm .live).map _
  rw [hperm.sum_eq]
  exact h.sum_liveSizes_lt

/-- The blocks of a snapshot were live once, all at the same time. -/
theorem Settled.sum_snapshot_lt (h : s.Settled g)
    (hsnapshot : (s.sizesOf .snapshot).sum < 9223372036854775808) (hstep : MappedStep s t) :
    (t.sizesOf .snapshot).sum < 9223372036854775808 := by
  have hsum : ∀ {id}, (t.entriesIn .snapshot).Perm (s.entriesIn id) →
      (t.sizesOf .snapshot).sum = (s.sizesOf id).sum := fun hperm ↦ by
    rw [sizesOf_eq, sizesOf_eq, (hperm.map _).sum_eq]
  obtain ⟨a, hok, hexec, hmapped⟩ := hstep
  by_cases hkeeps : a.KeepsSnapshot
  · obtain ⟨-, -, hperm⟩ := h.keepsSnapshot hkeeps hok hexec hmapped
    rwa [hsum hperm]
  cases a with
  | action a => exact absurd trivial hkeeps
  | command env c =>
    obtain ⟨x, hrun, rfl⟩ := Option.map_eq_some_iff.1 hexec
    cases c with
    | createSnapshot =>
      obtain ⟨new, ret, t, heq, hnew⟩ := createSnapshot_spec h.inv.blocks
      obtain rfl : (ret, t) = x := Option.some.inj (heq.symm.trans hrun)
      obtain ⟨es, hconfined, hfailed⟩ := hnew.confined
      rw [hconfined.trace_eq] at hmapped
      have hret : ret = 0 := by_contra fun hne ↦ hmapped (List.mem_append_right _ (hfailed.2 hne))
      rw [hsum (hnew.entriesIn h.inv.blocks hret)]
      exact h.inv.sum_sizesOf_lt
    | destroySnapshot =>
      rw [Command.exec, mcDestroySnapshot, destroy_eq h.inv.blocks] at hrun
      obtain rfl : (0, s.destroyed .snapshot) = x := Option.some.inj hrun
      have hperm := entriesIn_perm (holds_destroyed h.inv.blocks .snapshot).1 .snapshot
      rw [Function.update_self, List.map_nil] at hperm
      rw [sizesOf_eq, hperm.eq_nil]
      decide
    | printAllMemblk | printAllMemblkPerCallstack | compareWithSnapshot
    | compareWithSnapshotPerCallstack => exact absurd rfl hkeeps

end State

/-- The sizes of the blocks of a snapshot fit in an `int64_t`. -/
theorem MappedReachable.sum_snapshot_lt {s : State} (hs : MappedReachable s) :
    (s.sizesOf .snapshot).sum < 9223372036854775808 := by
  obtain ⟨k, mem, hk, hrun⟩ := hs
  induction hrun with
  | refl =>
    have hperm := State.entriesIn_perm (State.settled_init hk mem).inv.blocks .snapshot
    rw [State.sizesOf_eq, hperm.eq_nil]
    decide
  | tail hrun hstep ih =>
    obtain ⟨g, hg⟩ := MappedReachable.settled ⟨k, mem, hk, hrun⟩
    exact hg.sum_snapshot_lt ih hstep

/-- The comparison by callstack returns, if no counter overflows. With a buffer to sort in, it
prints each callstack whose live blocks are not of the same sizes as those in the snapshot once,
with the sizes that have no counterpart, and with the bytes by which its blocks have grown. These
add up to the bytes by which all blocks have grown. -/
theorem comparePerCallstack_bytes {s : State} (hs : MappedReachable s) (env : CommandEnv) :
    (s.mcCompareWithSnapshotPerCallstack env = none → s.Unwieldy) ∧
      ∀ t, s.mcCompareWithSnapshotPerCallstack env = some (0, t) → env.sortBuffer 0 = true →
        ∃ array es, State.GroupDifference s array es t := by
  obtain ⟨g, hg⟩ := hs.settled
  have hspec := State.compareWithSnapshotPerCallstack_spec hg.inv hg.tidy env
  refine ⟨fun hnone ↦ hg.unwieldy (hspec.fault hnone), fun t hcompare hsort ↦ ?_⟩
  rcases hspec.value _ hcompare with
    ⟨-, -, -, -, new, new', gone, kept, S, v, w, es, h⟩ | ⟨-, hret, -⟩
  · exact h.bytes hg hsort hg.inv.sum_sizesOf_lt hs.sum_snapshot_lt
  · simp at hret

namespace State.OneBlock

variable {s : State} {g : Contents} {n c : ℕ}

theorem sizesOf_live (h : s.OneBlock g n c) : s.sizesOf .live = [16] := by
  rw [State.sizesOf, h.tableNodes_live]
  show [(s.blocks.record n).memblk.usrsize] = [16]
  rw [h.record]

theorem sizesOf_snapshot (h : s.OneBlock g n c) : s.sizesOf .snapshot = [] := by
  rw [State.sizesOf, h.tableNodes_snapshot]
  rfl

end State.OneBlock

/-- One live block of 16 bytes, and an empty snapshot. -/
theorem comparePerCallstack_bytes_oneBlock : ∃ (s t : State) (array : List ℕ) (es : List Event),
    s.sizesOf .live = [16] ∧ s.sizesOf .snapshot = [] ∧
      s.mcCompareWithSnapshotPerCallstack ⟨fun _ ↦ true⟩ = some (0, t) ∧
      State.GroupDifference s array es t := by
  obtain ⟨s, g, n, c, h⟩ := State.exists_oneBlock
  obtain ⟨t, hrun⟩ := h.exists_report (k := .compareWithSnapshotPerCallstack) rfl ⟨fun _ ↦ true⟩
  obtain ⟨array, es, hbytes⟩ :=
    (comparePerCallstack_bytes h.hooked.mapped ⟨fun _ ↦ true⟩).2 t hrun rfl
  exact ⟨s, t, array, es, h.sizesOf_live, h.sizesOf_snapshot, hrun, hbytes⟩

end Memchk
