import Memchk.Confined

/-!
# Comparing two copies

`mc_compare_snapshot_and_current_alloc_memblk` and its variant by callstack link the blocks of the
two copies, cancel the copies against each other, and print what is left of them. `Cancelled` says
what is left, `compare_spec` and `comparePerCallstack_spec` what is printed of it, and where the
lists of the callstacks are empty in the end.

## The parts of a comparison

Both commands begin in the same way. The lists of the callstacks are emptied and the blocks of both
copies are linked, each copy at a link index of its own (`Prepared`). Then each block of the one
copy is matched with a block of the other that has the same callstack and size, if possible the one
at the same address, and both are given back; `Prepared.offset` is this loop, with the blocks that
are left and the two counts.

## What is left

`Cancelled L cs s gone kept S t`: the kinds of the two copies are `gone` and what is left, `kept` on
one side and `S` on the other, and no block that is left on one side has a partner on the other. As
multisets of callstacks and sizes, what is left is then the difference of the copies. Which of the
live blocks of a kind are left depends on the order of the loop, `tableNodes`.

## What is printed

The comparison block by block prints the two sides one after the other (`printRemainings_spec`), or
a line that says that there is nothing. The comparison by callstack prints a line for each callstack
with blocks left on either side. A null callstack, or a copy of `2 ^ 31` blocks, is a fault
(`State.Incomparable`), and the specifications say that there is no other.
-/

namespace Memchk

/-- The tables that commands copy to. -/
abbrev scratch : List TableId :=
  [.liveCopy, .snapshotCopy]

namespace State

variable {s t u : State} {L L' : TableId → List ℕ} {es : List Event} {cs kept S : List ℕ}
  {gone : List (ℕ × ℕ)} {env : CommandEnv} {id : TableId} {link : LinkIndex}

/-! ### Linking and cancelling -/

/-- Two copies that are to be compared, with empty lists. -/
structure Prepared (s : State) (L : TableId → List ℕ) (cs : List ℕ) : Prop where
  holds : s.blocks.Holds L
  callstacks : s.callstacks.Holds cs
  interned : ∀ id ∈ scratch, ∀ n ∈ L id,
    (s.blocks.record n).allocator = 0 ∨ (s.blocks.record n).allocator ∈ cs
  distinct : ∀ id ∈ scratch, s.blocks.Distinct (L id)
  head : ∀ link, ∀ c ∈ cs, s.head link c = 0

/-- Where comparing may fault: a copy has more blocks than its counter can count, or a block has no
callstack. -/
def Incomparable (s : State) (L : TableId → List ℕ) : Prop :=
  ∃ id ∈ scratch, 2147483648 ≤ (L id).length ∨ ∃ n ∈ L id, (s.blocks.record n).allocator = 0

/-- The first part of both functions: what is left of the copies when they have been cancelled
against each other, and the two numbers of blocks. -/
def offsetCopies (s : State) : Option (State × ℤ × ℤ) := do
  let s ← s.mcLinkSameCallstackGroup .liveCopy .current
  let s ← s.mcLinkSameCallstackGroup .snapshotCopy .snapshot
  s.offsetSnapshotAgainstCurrentAllocMemblk

/-- The pairs `gone` of blocks of the same kind were taken out of the copies, no two blocks of the
same kind are left, and none of the snapshot that is live at its address. Of the live blocks of a
kind, those were taken out that the loop came to first. -/
structure Cancelled (L : TableId → List ℕ) (cs : List ℕ) (s : State) (gone : List (ℕ × ℕ))
    (kept S : List ℕ) (t : State) : Prop where
  cancelling : Cancelling s.kind (L .liveCopy) (L .snapshotCopy) gone kept [] S
  preferring : Preferring s.kind s.usrptr (L .liveCopy) [] S
  firstCome : FirstCome s.kind (L .liveCopy) (L .snapshotCopy) kept (s.blocks.tableNodes .liveCopy)
  confined : Confined scratch s L ((pairNodes gone).map .released) t (withCopies L kept S)
  record : t.blocks.record = s.blocks.record
  current : ∃ G, Grouped .current cs kept G t
  snapshot : ∃ G, Grouped .snapshot cs S G t
  interned : ∀ id ∈ scratch, ∀ n ∈ L id, (s.blocks.record n).allocator ∈ cs

/-- What cancelling the copies comes to. -/
theorem Prepared.offset (h : Prepared s L cs) :
    Outcome (s.Incomparable L) s.offsetCopies fun x ↦ ∃ gone kept S,
      Cancelled L cs s gone kept S x.1 ∧ x.2 = ((kept.length : ℤ), (S.length : ℤ)) := by
  have hcur : .liveCopy ∈ scratch := by simp
  have hsnap : .snapshotCopy ∈ scratch := by simp
  rw [offsetCopies]
  -- the copy of the live blocks is linked first
  refine ((linkGroup_spec h.holds (h.interned _ hcur) (h.head .current)).weaken
    fun hnull ↦ ⟨_, hcur, .inr hnull⟩).bind fun t ht ↦ ?_
  obtain ⟨hrel, ⟨G, hgroup⟩, hattr⟩ := ht
  have hinterned : ∀ n ∈ L .snapshotCopy,
      (t.blocks.record n).allocator = 0 ∨ (t.blocks.record n).allocator ∈ cs := by
    rw [hrel.record]
    exact h.interned _ hsnap
  have hhead : ∀ c ∈ cs, t.head .snapshot c = 0 := fun c hc ↦
    (hrel.head .snapshot c (by decide)).trans (h.head .snapshot c hc)
  -- then that of the snapshot, at the other index
  refine ((linkGroup_spec (hrel.holds h.holds) hinterned hhead).weaken fun hnull ↦ ?_).bind
    fun u hu ↦ ?_
  · rw [hrel.record] at hnull
    exact ⟨_, hsnap, .inr hnull⟩
  obtain ⟨hrel', ⟨G', hgroup'⟩, hattr'⟩ := hu
  have hrecord : u.blocks.record = s.blocks.record := hrel'.record.trans hrel.record
  have hgroupU : Grouped .current cs (L .liveCopy) G u :=
    hrel'.grouped hgroup (by decide) (h.holds.disjoint .liveCopy .snapshotCopy (by decide))
  -- linking has not faulted, so every block of the copies has a callstack
  have hcs : ∀ id ∈ scratch, ∀ n ∈ L id, (s.blocks.record n).allocator ∈ cs := by
    intro id hid n hn
    refine (h.interned id hid n hn).resolve_left ?_
    rcases List.mem_cons.1 hid with rfl | hid
    · exact hattr n hn
    · obtain rfl := List.mem_singleton.1 hid
      rw [← hrel.record]
      exact hattr' n hn
  have hcomparable : Comparable u L cs := by
    refine ⟨hrel'.holds (hrel.holds h.holds),
      hrel'.callstacks.holds (hrel.callstacks.holds h.callstacks), ?_, ?_, ?_, ?_⟩
    · rw [hrecord]
      exact hcs _ hcur
    · rw [hrecord]
      exact hcs _ hsnap
    · rw [Blocks.Distinct, hrecord]
      exact h.distinct _ hcur
    · rw [Blocks.Distinct, hrecord]
      exact h.distinct _ hsnap
  have hconfined : Confined scratch s L [] u L :=
    ((Confined.refl h.holds scratch).relinked hrel fun n hn ↦ ⟨_, hcur, hn⟩).relinked hrel'
      fun n hn ↦ ⟨_, hsnap, hn⟩
  refine ((offset_spec hcomparable ⟨G, hgroupU⟩ ⟨G', hgroup'⟩).weaken ?_).mono ?_
  · rintro (hlong | hlong)
    · exact ⟨_, hcur, .inl hlong⟩
    · exact ⟨_, hsnap, .inl hlong⟩
  · rintro ⟨v, counts⟩ ⟨gone, kept, S, hoff, hcounts⟩
    have hkind : u.kind = s.kind := by
      funext n
      rw [kind, kind, hrecord]
    have husrptr : u.usrptr = s.usrptr := by
      funext n
      rw [usrptr, usrptr, hrecord]
    have hcancelling := hoff.cancelling
    rw [Option.toList_none, List.append_nil, hkind] at hcancelling
    have hcurrent := hoff.current
    rw [List.append_nil] at hcurrent
    -- linking has not changed the order in which the loop comes to the blocks
    have horder : u.blocks.tableNodes .liveCopy = s.blocks.tableNodes .liveCopy := by
      refine h.holds.tableNodes_eq hcomparable.holds ?_ fun n _ ↦ ?_
      · rw [hrel'.blocks, hrel.blocks]
      · rw [hrel'.blocks, hrel.blocks]
    obtain ⟨done, hdone, hfirst⟩ := hoff.firstCome
    rw [List.append_nil, horder] at hdone
    exact ⟨gone, kept, S, ⟨hcancelling, hkind ▸ husrptr ▸ hoff.preferring,
      hkind ▸ hdone ▸ hfirst, hconfined.trans (hoff.confined hcomparable),
      hoff.record.trans hrecord, hcurrent, hoff.snapshot, hcs⟩, hcounts⟩

/-- What is left of a copy. -/
theorem Cancelled.length_le (h : Cancelled L cs s gone kept S t) :
    kept.length ≤ (L .liveCopy).length ∧ S.length ≤ (L .snapshotCopy).length := by
  have hleft := h.cancelling.left.length_eq
  have hright := h.cancelling.right.length_eq
  simp only [List.length_append, List.length_map] at hleft hright
  omega

theorem Cancelled.subset (h : Cancelled L cs s gone kept S t) :
    kept ⊆ L .liveCopy ∧ S ⊆ L .snapshotCopy :=
  ⟨fun _ hn ↦ h.cancelling.left.mem_iff.2 (by simp [hn]),
    fun _ hn ↦ h.cancelling.right.mem_iff.2 (by simp [hn])⟩

/-- A fault in printing what is left is one of the copies. -/
theorem Cancelled.incomparable (h : Cancelled L cs s gone kept S t) (hid : id ∈ scratch)
    (hfault : 2147483648 ≤ (withCopies L kept S id).length ∨
      ∃ n ∈ withCopies L kept S id, (t.blocks.record n).allocator = 0) : s.Incomparable L := by
  obtain ⟨hkept, hS⟩ := h.length_le
  have hlen : (withCopies L kept S id).length ≤ (L id).length ∧ withCopies L kept S id ⊆ L id := by
    rcases List.mem_cons.1 hid with rfl | hid
    · exact ⟨hkept, h.subset.1⟩
    · obtain rfl := List.mem_singleton.1 hid
      exact ⟨hS, h.subset.2⟩
  refine ⟨id, hid, hfault.imp hlen.1.trans' fun hnull ↦ ?_⟩
  obtain ⟨n, hn, hzero⟩ := hnull
  refine ⟨n, hlen.2 hn, ?_⟩
  rwa [← h.record]

/-! ### Block by block -/

/-- What is printed of the blocks that are left of a copy. -/
def Remaining (granted : Bool) (s : State) (ns : List ℕ) (some_ none_ : Event) (es : List Event) :
    Prop :=
  if ns = [] then es = [none_]
  else if granted then ∃ array, array.Perm ns ∧ es = some_ :: lines s.blockLine array
  else es = [some_, .mmapFailed]

/-- What is printed of one side. -/
theorem printRemainings_spec (h : t.blocks.Holds L) (id : TableId) (granted : Bool)
    (some_ none_ : Event) :
    Outcome (2147483648 ≤ (L id).length ∨ ∃ n ∈ L id, (t.blocks.record n).allocator = 0)
      (t.printRemainings granted id (L id).length some_ none_) fun u ↦
        ∃ es, u = t.emit es ∧ t.Remaining granted (L id) some_ none_ es := by
  rw [printRemainings]
  by_cases hnil : L id = []
  · rw [if_neg (by simp [hnil])]
    exact .some ⟨[none_], rfl, by rw [Remaining, if_pos hnil]⟩
  · rw [if_pos (by simp [hnil])]
    have hprint := printAllMemblkOnHashtable_spec (s := t.emit [some_]) h id granted
    refine hprint.mono fun u hu ↦ ?_
    obtain ⟨es, rfl, hes⟩ := hu
    refine ⟨some_ :: es, ?_, ?_⟩
    · simp only [emit, List.append_assoc, List.singleton_append]
    · rw [Remaining, if_neg hnil]
      cases granted with
      | false => exact congrArg _ hes
      | true =>
        obtain ⟨array, hsorted, rfl⟩ := hes
        exact ⟨array, hsorted.perm, rfl⟩

/-- What is left of the copies, and what was printed of it. -/
theorem quiet_remaining {granted : Bool} {ns : List ℕ} {some_ none_ : Event}
    (hsome : some_.isLine) (hnone : none_.isLine)
    (h : s.Remaining granted ns some_ none_ es) : Quiet es := by
  rw [Remaining] at h
  split_ifs at h
  · exact h ▸ quiet_singleton hnone
  · obtain ⟨array, -, rfl⟩ := h
    exact (quiet_singleton hsome).append (quiet_lines fun _ _ ↦ quiet_singleton rfl)
  · exact h ▸ (quiet_singleton hsome).append quiet_mmapFailed

/-- What is printed of a side depends on the lines of its blocks only. -/
theorem Remaining.congr {granted : Bool} {ns : List ℕ} {some_ none_ : Event}
    (h : t.Remaining granted ns some_ none_ es) (hline : t.blockLine = s.blockLine) :
    s.Remaining granted ns some_ none_ es := by
  rwa [Remaining, ← hline]

/-- The lines depend on the blocks and on the traces. -/
theorem blockLine_eq (hrecord : t.blocks.record = s.blocks.record)
    (hcallstacks : s.callstacks.Alike t.callstacks) : t.blockLine = s.blockLine := by
  funext cnt n
  rw [blockLine, blockLine, hrecord, hcallstacks.traceOf_eq]

/-- The lists of all callstacks are emptied. -/
theorem resetBoth_spec (h : Confined scratch s L es t L') (hcs : t.callstacks.Holds cs) :
    ∃ u, (t.mcResetSameCallstackGroup .current).bind
    (mcResetSameCallstackGroup .snapshot) = some u ∧
      Confined scratch s L es u L' ∧ u.blocks = t.blocks ∧ ∀ link, ∀ c ∈ cs, u.head link c = 0 := by
  obtain ⟨v, hrun, hrel, hblocks, hzero⟩ := reset_spec hcs .current
  obtain ⟨u, hrun', hrel', hblocks', hzero'⟩ := reset_spec (hrel.callstacks.holds hcs) .snapshot
  refine ⟨u, ?_, (h.relinked hrel (by simp)).relinked hrel' (by simp), hblocks'.trans hblocks,
    fun link c hc ↦ ?_⟩
  · rw [hrun, Option.bind_some, hrun']
  · cases link with
    | snapshot => exact hzero' c hc
    | current => exact (hrel'.head .current c (by decide)).trans (hzero c hc)

/-- `mc_compare_snapshot_and_current_alloc_memblk` prints what is left of the copies, and leaves no
list. -/
theorem compare_spec (h : Prepared s L cs) (env : CommandEnv) :
    Outcome (s.Incomparable L) (s.mcCompareSnapshotAndCurrentAllocMemblk env) fun u ↦
      ∃ gone kept S v es es', s.offsetCopies = some (v, (kept.length : ℤ), (S.length : ℤ)) ∧
        Cancelled L cs s gone kept S v ∧
        Confined scratch s L ((pairNodes gone).map .released ++ (es ++ es')) u
        (withCopies L kept S) ∧
        (∀ link, ∀ c ∈ cs, u.head link c = 0) ∧
        s.Remaining (env.sortBuffer 0) kept (.blocksIncreased kept.length) .noBlockIncreased es ∧
        s.Remaining (env.sortBuffer 1) S (.blocksDecreased S.length) .noBlockDecreased es' := by
  have hsplit : s.mcCompareSnapshotAndCurrentAllocMemblk env = s.offsetCopies.bind fun x ↦
      (x.1.printRemainings (env.sortBuffer 0) .liveCopy x.2.1 (.blocksIncreased x.2.1)
        .noBlockIncreased).bind fun s ↦ (s.printRemainings (env.sortBuffer 1) .snapshotCopy x.2.2
        (.blocksDecreased x.2.2) .noBlockDecreased).bind fun s ↦
          (s.mcResetSameCallstackGroup .current).bind (mcResetSameCallstackGroup .snapshot) := by
    simp only [mcCompareSnapshotAndCurrentAllocMemblk, offsetCopies, Option.bind_eq_bind,
      Option.bind_assoc]
  rw [hsplit]
  have hoffset := h.offset
  cases hrun : s.offsetCopies with
  | none => exact .none (hoffset.fault hrun)
  | some x =>
    obtain ⟨v, counts⟩ := x
    obtain ⟨gone, kept, S, hcancel, heq⟩ := hoffset.value _ hrun
    simp only at heq hcancel
    subst heq
    refine ((printRemainings_spec hcancel.confined.holds .liveCopy (env.sortBuffer 0)
      (.blocksIncreased kept.length) .noBlockIncreased).weaken
        (hcancel.incomparable (by simp))).bind fun w hw ↦ ?_
    obtain ⟨es, rfl, hes⟩ := hw
    refine ((printRemainings_spec (t := v.emit es) hcancel.confined.holds .snapshotCopy
      (env.sortBuffer 1) (.blocksDecreased S.length) .noBlockDecreased).weaken
        (hcancel.incomparable (by simp))).bind fun w hw ↦ ?_
    obtain ⟨es', rfl, hes'⟩ := hw
    have hline : v.blockLine = s.blockLine :=
      blockLine_eq hcancel.record hcancel.confined.callstacks
    replace hes : s.Remaining (env.sortBuffer 0) kept _ _ es := hes.congr hline
    replace hes' : s.Remaining (env.sortBuffer 1) S _ _ es' := hes'.congr hline
    have hquiet : Quiet es := quiet_remaining rfl rfl hes
    have hquiet' : Quiet es' := quiet_remaining rfl rfl hes'
    obtain ⟨u, hreset, hconfined, -, hzero⟩ := resetBoth_spec
      ((hcancel.confined.emit hquiet).emit hquiet')
      (hcancel.confined.callstacks.holds h.callstacks)
    rw [List.append_assoc] at hconfined
    rw [hreset]
    exact .some ⟨gone, kept, S, v, es, es', rfl, hcancel, hconfined, hzero, hes, hes'⟩

/-! ### By callstack -/

/-- The blocks `G c` are those among `ns` with the callstack `c`. -/
def Partitioned (s : State) (cs ns : List ℕ) (G : ℕ → List ℕ) : Prop :=
  ∀ c ∈ cs, (G c).Perm (ns.filter fun n ↦ (s.blocks.record n).allocator = c)

/-- The lists of the callstacks partition what is left of a side. -/
theorem Grouped.partitioned {ns : List ℕ} {G : ℕ → List ℕ} (h : Grouped link cs ns G t)
    (hnodup : ns.Nodup) (hrecord : t.blocks.record = s.blocks.record) : s.Partitioned cs ns G := by
  intro c hc
  refine (List.perm_ext_iff_of_nodup (h.nodup hc) (hnodup.filter _)).2 fun n ↦ ?_
  rw [h.mem_iff c hc, List.mem_filter, decide_eq_true_iff, hrecord]

/-- A sorted array of callstacks with blocks, line by line. -/
theorem listsGroups_of_sortedBy {ns order array : List ℕ} {G : ℕ → List ℕ}
    (hcs : s.callstacks.Holds cs) (hgroup : Grouped link cs ns G s) (hnodup : ns.Nodup)
    (hattr : ∀ n ∈ ns, (s.blocks.record n).allocator ∈ cs)
    (hsorted : SortedBy (s.totalIn G) order array) (horder : order.Nodup)
    (hmem : ∀ c, c ∈ order ↔ c ∈ cs ∧ G c ≠ []) :
    ListsGroups (ns.map s.entry) (lines (s.groupLine G fun _ ↦ []) array) := by
  have hsub : ∀ {c}, c ∈ array → c ∈ cs := fun hc ↦ ((hmem _).1 (hsorted.perm.subset hc)).1
  have htrace : ∀ {c d}, c ∈ cs → d ∈ cs →
      s.callstacks.traceOf c = s.callstacks.traceOf d → c = d := by
    intro c d hc hd heq
    rw [Callstacks.traceOf, Callstacks.traceOf, if_neg (hcs.ne_null hc),
      if_neg (hcs.ne_null hd)] at heq
    exact hcs.inj _ hc _ hd heq
  let group (c : ℕ) : Group := ⟨s.callstacks.traceOf c, s.sizes (G c)⟩
  have hcallstacks : (array.map group).map Group.callstack = array.map s.callstacks.traceOf := by
    rw [List.map_map]
    rfl
  refine ⟨array.map group, ?_, fun f ↦ ?_, ?_, lines_eq_mapIdx group Group.line array,
    fun hkeys ↦ ?_⟩
  · rw [hcallstacks]
    refine (hsorted.perm.nodup_iff.2 horder).map_on fun c hc d hd heq ↦ ?_
    exact htrace (hsub hc) (hsub hd) heq
  · rw [hcallstacks, List.map_map, List.mem_map, List.mem_map]
    constructor
    · rintro ⟨c, hc, rfl⟩
      obtain ⟨hc', hne⟩ := (hmem c).1 (hsorted.perm.subset hc)
      obtain ⟨n, hn⟩ := List.exists_mem_of_ne_nil _ hne
      obtain ⟨hn', rfl⟩ := (hgroup.mem_iff c hc' n).1 hn
      exact ⟨n, hn', rfl⟩
    · rintro ⟨n, hn, rfl⟩
      have hn' := (hgroup.mem_iff _ (hattr n hn) n).2 ⟨hn, rfl⟩
      exact ⟨_, hsorted.perm.symm.subset ((hmem _).2 ⟨hattr n hn, List.ne_nil_of_mem hn'⟩), rfl⟩
  · rintro x hx
    obtain ⟨c, hc, rfl⟩ := List.mem_map.1 hx
    have hparts := hgroup.partitioned hnodup rfl c (hsub hc)
    rw [List.filter_map, List.map_map]
    refine (hparts.map _).trans (List.Perm.of_eq ?_)
    refine congrArg _ (List.filter_congr fun n hn ↦ ?_)
    exact decide_eq_decide.2 ⟨fun heq ↦ by rw [← heq]; rfl,
      fun heq ↦ htrace (hattr n hn) (hsub hc) heq⟩
  · have htotal : (array.map group).map Group.total = array.map (s.totalIn G) := by
      rw [List.map_map]
      rfl
    rw [htotal] at hkeys
    exact List.pairwise_map.2 (hsorted.descending
      (comparable_iff.2 (hkeys.perm (hsorted.perm.map _))))

/-- A callstack with blocks has a list that is not empty. -/
theorem Grouped.exists_head_ne {ns : List ℕ} {G : ℕ → List ℕ} {n : ℕ} (h : Grouped link cs ns G t)
    (hn : n ∈ ns) (hc : (t.blocks.record n).allocator ∈ cs) : ∃ c ∈ cs, t.head link c ≠ 0 := by
  refine ⟨_, hc, fun hzero ↦ ?_⟩
  have hmem := (h.mem_iff _ hc n).2 ⟨hn, rfl⟩
  rw [(h.head_eq_zero_iff hc).1 hzero] at hmem
  exact List.not_mem_nil hmem

/-- What is printed of the callstacks whose blocks are left of the copies `kept` and `S`. -/
def GroupReport (s : State) (cs kept S : List ℕ) (es : List Event) : Prop :=
  ∃ G G' array, s.Partitioned cs kept G ∧ s.Partitioned cs S G' ∧ array.Nodup ∧
    (∀ c, c ∈ array ↔ c ∈ cs ∧ ¬(G c = [] ∧ G' c = [])) ∧ es = lines (s.groupLine G G') array

theorem groupLine_eq {G G' : ℕ → List ℕ} (hrecord : t.blocks.record = s.blocks.record)
    (hcallstacks : s.callstacks.Alike t.callstacks) : t.groupLine G G' = s.groupLine G G' := by
  funext cnt c
  simp only [groupLine, sizes, hrecord, hcallstacks.traceOf_eq]

/-- The last loops of `mc_compare_snapshot_and_current_alloc_memblk_per_callstack`. -/
theorem printBothGroups_spec {ns ms : List ℕ} {G G' : ℕ → List ℕ} (hcs : s.callstacks.Holds cs)
    (hgroup : Grouped .current cs ns G s) (hgroup' : Grouped .snapshot cs ms G' s)
    (hlive : ∀ n ∈ ns, n ∈ s.blocks.pool.live allocMemblkSize)
    (hlive' : ∀ n ∈ ms, n ∈ s.blocks.pool.live allocMemblkSize) :
    Outcome (2147483648 ≤ cs.length)
      ((forEachCallstack sumBothCallstack (s, [])).bind fun x ↦
        (x.1.mcSortPerCallstack x.2).foldlM printBothCallstackGroups (x.1, 0)) fun y ↦
      ∃ u array, Resummed s u ∧ y.1 = u.emit (lines (s.groupLine G G') array) ∧ array.Nodup ∧
        ∀ c, c ∈ array ↔ c ∈ cs ∧ ¬(G c = [] ∧ G' c = []) := by
  obtain ⟨u, hrun, hsum, htotal⟩ := sumLoop_spec hcs fun c hc t array hsum ↦
    sumBothCallstack_spec hgroup hgroup' hlive hlive' hc array hsum
  generalize horder : s.callstacks.tableNodes.filter
    (fun c ↦ !s.groupsEmpty [.current, .snapshot] c) = order at hrun
  rw [hrun, Option.bind_some]
  have hperm : (u.mcSortPerCallstack order).Perm order := List.mergeSort_perm _ _
  rw [← horder] at hperm
  obtain ⟨hnodup, hmem, hlen⟩ := callstackArray_spec hcs [.current, .snapshot] hperm
  rw [horder] at *
  have hloop := printBothCallstackGroups_outcome hcs hsum hgroup hgroup' hlive hlive'
    (fun c hc ↦ ((hmem c).1 hc).1) fun c hc ↦ htotal c ((hmem c).1 hc).1 ((hmem c).1 hc).2
  refine (hloop.weaken fun hlong ↦ hlong.trans hlen).mono ?_
  rintro - rfl
  refine ⟨u, _, hsum, rfl, hnodup, fun c ↦ (hmem c).trans (and_congr_right fun hc ↦ ?_)⟩
  rw [← hgroup.head_eq_zero_iff hc, ← hgroup'.head_eq_zero_iff hc]
  simp [groupsEmpty, State.head]

/-- `mc_compare_snapshot_and_current_alloc_memblk_per_callstack` prints the callstacks whose blocks
are left of the copies. It leaves the lists of these callstacks behind if it gets no sort buffer. -/
theorem comparePerCallstack_spec (h : Prepared s L cs) (env : CommandEnv) :
    Outcome (s.Incomparable L ∨ 2147483648 ≤ cs.length)
      (s.mcCompareSnapshotAndCurrentAllocMemblkPerCallstack env) fun x ↦
        ∃ gone kept S v es, s.offsetCopies = some (v, (kept.length : ℤ), (S.length : ℤ)) ∧
          Cancelled L cs s gone kept S v ∧
          Confined scratch s L ((pairNodes gone).map .released ++ es) x.2 (withCopies L kept S) ∧
          (x.1 = 0 ∧ (∀ link, ∀ c ∈ cs, x.2.head link c = 0) ∧
              (kept = [] ∧ S = [] ∧ es = [.noBlockChanged] ∨
                ¬(kept = [] ∧ S = []) ∧ env.sortBuffer 0 = true ∧ s.GroupReport cs kept S es) ∨
            x.1 = -1 ∧ (∃ link, ∃ c ∈ cs, x.2.head link c ≠ 0) ∧ ¬(kept = [] ∧ S = []) ∧
              env.sortBuffer 0 = false ∧ es = [.mmapFailed]) := by
  -- the function in the parts that have specs of their own
  have hsplit : s.mcCompareSnapshotAndCurrentAllocMemblkPerCallstack env = s.offsetCopies.bind
      fun x ↦ if x.2.1 + x.2.2 = 0 then some (0, x.1.emit [.noBlockChanged]) else
        (x.1.countCallstacks incInt64 [.current, .snapshot]).bind fun y ↦
          if ¬(y.1.mcAllocateSortBuffer (env.sortBuffer 0)).1 then
            some (-1, (y.1.mcAllocateSortBuffer (env.sortBuffer 0)).2)
          else ((forEachCallstack sumBothCallstack
              ((y.1.mcAllocateSortBuffer (env.sortBuffer 0)).2, [])).bind fun x ↦
              (x.1.mcSortPerCallstack x.2).foldlM printBothCallstackGroups (x.1, 0)).bind fun y ↦
            ((y.1.mcResetSameCallstackGroup .current).bind
              (mcResetSameCallstackGroup .snapshot)).bind fun s ↦ some (0, s) := by
    simp only [mcCompareSnapshotAndCurrentAllocMemblkPerCallstack, offsetCopies,
      Option.bind_eq_bind, Option.bind_assoc]
    rfl
  rw [hsplit]
  have hoffset := h.offset
  cases hrun : s.offsetCopies with
  | none => exact .none (.inl (hoffset.fault hrun))
  | some x =>
    obtain ⟨v, counts⟩ := x
    obtain ⟨gone, kept, S, hcancel, heq⟩ := hoffset.value _ hrun
    simp only at heq hcancel
    subst heq
    have hconfined := hcancel.confined
    have hcs : v.callstacks.Holds cs := hconfined.callstacks.holds h.callstacks
    obtain ⟨G, hG⟩ := hcancel.current
    obtain ⟨G', hG'⟩ := hcancel.snapshot
    rw [Option.bind_some]
    by_cases hnil : kept = [] ∧ S = []
    · -- all blocks were taken out of the lists
      obtain ⟨rfl, rfl⟩ := hnil
      have hzero : ∀ link, ∀ c ∈ cs, (v.emit [.noBlockChanged]).head link c = 0 := by
        intro link c hc
        cases link with
        | snapshot => exact hG'.head_eq_zero hc
        | current => exact hG.head_eq_zero hc
      exact .some ⟨gone, [], [], v, _, rfl, hcancel, hconfined.emit (quiet_singleton rfl),
        .inl ⟨rfl, hzero, .inl ⟨rfl, rfl, rfl⟩⟩⟩
    have hsome : ¬((kept.length : ℤ) + (S.length : ℤ) = 0) := by
      rintro hsum
      exact hnil ⟨List.length_eq_zero_iff.1 (by omega), List.length_eq_zero_iff.1 (by omega)⟩
    rw [if_neg hsome]
    refine ((countCallstacks_spec hcs [.current, .snapshot] incInt64_of_lt).weaken .inr).bind ?_
    rintro - ⟨k, rfl⟩
    cases hgranted : env.sortBuffer 0 with
    | false =>
      -- no sort buffer: the lists of what is left stay, and one of them has a block
      refine .some ⟨gone, kept, S, v, [.mmapFailed], rfl, hcancel, hconfined.emit quiet_mmapFailed,
        .inr ⟨rfl, ?_, hnil, rfl, rfl⟩⟩
      have hmem : ∀ id ∈ scratch, ∀ n ∈ L id, (v.blocks.record n).allocator ∈ cs := by
        rw [hcancel.record]
        exact hcancel.interned
      rcases not_and_or.1 hnil with hkept | hS
      · obtain ⟨n, hn⟩ := List.exists_mem_of_ne_nil kept hkept
        exact ⟨.current, hG.exists_head_ne hn (hmem _ (by simp) n (hcancel.subset.1 hn))⟩
      · obtain ⟨n, hn⟩ := List.exists_mem_of_ne_nil S hS
        exact ⟨.snapshot, hG'.exists_head_ne hn (hmem _ (by simp) n (hcancel.subset.2 hn))⟩
    | true =>
      have hlive : ∀ id ∈ scratch, ∀ n ∈ withCopies L kept S id,
          n ∈ v.blocks.pool.live allocMemblkSize := fun id _ ↦ hconfined.holds.live id
      -- the report is printed from the lists, which are emptied behind it
      have hprint := printBothGroups_spec hcs hG hG' (hlive .liveCopy (by simp))
        (hlive .snapshotCopy (by simp))
      simp only [mcAllocateSortBuffer, if_true, not_true_eq_false, if_false]
      refine (hprint.weaken .inr).bind ?_
      rintro ⟨w, cnt⟩ ⟨u, array, hsum, rfl, hnodup, hmem⟩
      have hline : v.groupLine G G' = s.groupLine G G' :=
        groupLine_eq hcancel.record hconfined.callstacks
      rw [hline]
      have hquiet : Quiet (lines (s.groupLine G G') array) := quiet_lines fun _ _ ↦
        quiet_singleton rfl
      obtain ⟨z, hreset, hconfined', -, hzero⟩ := resetBoth_spec
        ((hconfined.resummed hsum).emit hquiet) (hsum.callstacks.holds hcs)
      rw [hreset]
      refine .some ⟨gone, kept, S, v, _, rfl, hcancel, hconfined',
        .inl ⟨rfl, hzero, .inr ⟨hnil, trivial, G, G', array, ?_, ?_, hnodup, hmem, rfl⟩⟩⟩
      · exact hG.partitioned (hconfined.holds.table .liveCopy).nodup hcancel.record
      · exact hG'.partitioned (hconfined.holds.table .snapshotCopy).nodup hcancel.record

end State

end Memchk
