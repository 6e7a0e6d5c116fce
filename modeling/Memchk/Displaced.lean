import Memchk.Survivors

/-!
# Blocks that lose their partner

A block that has outlived the snapshot has a partner there, at its own address. The comparison looks
for it first, but it may come too late: a block of the same callstack and size that the loop has
come to before, and that has no partner at its address, takes any block of that callstack and size.
The older block is then listed as increased. This module says exactly when that happens.

## The order of the loop

The loop goes through the copy of the live table. Copying puts each node in front of its bucket, so
the loop comes to the buckets in the order of their indices and, in each, to the oldest block first
(`compareOrder`). This is a list that depends on the live table alone.

## The condition

Every block takes a partner as long as one is left. So of each callstack and size the first blocks
in this order are cancelled, as many as the snapshot has, and the later ones are left (`FirstCome`).
A block that is in both tables is listed if and only if as many blocks of its callstack and size
come before it as the snapshot has (`ComparedWith.mem_left_iff`). Blocks of the snapshot are no
concern here: none that is live at its address is left (`Preferring`).
-/

namespace Memchk

/-- The line shows a block at the address. -/
def Event.Shows (ptr : ℕ) : Event → Prop
  | .block _ usrptr _ _ => usrptr = ptr
  | _ => False

namespace State

/-- The blocks that are at the same address, with the same size and callstack, in both tables. -/
def survivors (s : State) : List Entry :=
  (s.entriesIn .live).filter (· ∈ s.entriesIn .snapshot)

/-- The live blocks in the order in which the comparison comes to them. -/
def compareOrder (s : State) : List Entry :=
  stackedOrder (fun x : Entry ↦ calcPtrHash x.usrptr allocMemptrHashtableSize)
    (tableIndices allocMemptrHashtableSize) (s.entriesIn .live)

/-- The comparison comes to each survivor before it has come to as many blocks of that callstack and
size as the snapshot has. -/
def SurvivorsFirst (s : State) : Prop :=
  ∀ pre x post, s.compareOrder = pre ++ x :: post → x ∈ s.survivors →
    (pre.map Entry.origin).count x.origin < (s.origins .snapshot).count x.origin

variable {s t v w : State} {g : Contents} {env : CommandEnv} {new new' kept S : List ℕ}
  {gone : List (ℕ × ℕ)} {x y : Entry}

theorem mem_survivors : x ∈ s.survivors ↔ x ∈ s.entriesIn .live ∧ x ∈ s.entriesIn .snapshot := by
  rw [survivors, List.mem_filter, decide_eq_true_iff]

/-- No two blocks of the snapshot have the same address. -/
theorem Tidy.entriesIn_inj (ht : s.Tidy g) (h : s.blocks.Holds g.nodes) :
    ∀ x ∈ s.entriesIn .snapshot, ∀ y ∈ s.entriesIn .snapshot, x.usrptr = y.usrptr → x = y := by
  intro x hx y hy hptr
  obtain ⟨m, hm, rfl⟩ := List.mem_map.1 hx
  obtain ⟨n, hn, rfl⟩ := List.mem_map.1 hy
  rw [ht.distinct m (h.mem_tableNodes.1 hm) n (h.mem_tableNodes.1 hn) hptr]

/-- The loop comes to the blocks in this order. -/
theorem BothCopied.compareOrder (hb : BothCopied s g new new' v) :
    (v.blocks.tableNodes .liveCopy).map v.entry = s.compareOrder := by
  have htrace : v.callstacks.traceOf = s.callstacks.traceOf := by rw [hb.callstacks]
  rw [hb.confined.holds.tableNodes_of_stacked hb.stacked, State.compareOrder, State.entriesIn,
    ← map_entry_eq htrace hb.current, ← map_stackedOrder]
  rfl

/-- What is left of the copies, as it is reported. -/
theorem ComparedWith.entriesIn (h : ComparedWith env s g new new' gone kept S v w t) :
    (w.entriesIn .liveCopy).Perm (kept.map v.entry) ∧
      (w.entriesIn .snapshotCopy).Perm (S.map v.entry) := by
  have hentry : w.entry = v.entry := by
    funext n
    rw [entry, entry, h.cancelled.record, h.cancelled.confined.callstacks.traceOf_eq]
  rw [← hentry]
  exact ⟨entriesIn_perm h.cancelled.confined.holds .liveCopy,
    entriesIn_perm h.cancelled.confined.holds .snapshotCopy⟩

/-- A live block is left exactly if as many blocks of its callstack and size come before it as the
snapshot has. -/
theorem ComparedWith.mem_left_iff (h : ComparedWith env s g new new' gone kept S v w t)
    (hs : s.Inv g) {pre post : List Entry} (horder : s.compareOrder = pre ++ x :: post) :
    x ∈ w.entriesIn .liveCopy ↔
      (s.origins .snapshot).count x.origin ≤ (pre.map Entry.origin).count x.origin := by
  obtain ⟨hlive, hsnapshot⟩ := h.both.entriesIn
  have hcs : v.callstacks.Holds g.callstacks := h.both.callstacks ▸ hs.callstacks
  have hholds := h.both.confined.holds
  have hinterned := h.cancelled.interned
  -- the nodes are told apart by callstack and size in the same way as the blocks
  have hfirst : FirstCome v.origin new.reverse new'.reverse kept (v.blocks.tableNodes .liveCopy) :=
    h.cancelled.firstCome.congr_key (fun m hm n hn ↦ kind_eq_iff hcs
        (hm.elim (hinterned .liveCopy (by simp) m) (hinterned .snapshotCopy (by simp) m))
        (hinterned .liveCopy (by simp) n hn))
      h.cancelled.subset.1 (hholds.tableNodes_perm .liveCopy).subset
  have hfirst' := @FirstCome.map _ _ _ Entry.origin _ v.entry _ _ _ _ _ _ hfirst
    hlive.symm.subset hsnapshot.symm
  rw [h.both.compareOrder, horder] at hfirst'
  have hperm : (pre ++ x :: post).Perm (s.entriesIn .live) := by
    rw [← horder, ← h.both.compareOrder]
    exact ((hholds.tableNodes_perm .liveCopy).map _).trans hlive
  have hx : x ∈ s.entriesIn .live := hperm.subset (by simp)
  rw [h.entriesIn.1.mem_iff, origins_eq]
  exact hfirst'.mem_kept_iff hx (hperm.nodup_iff.2 hs.nodup_entries)

/-- No block of the snapshot that is live at its address is left. -/
theorem ComparedWith.notMem_left (h : ComparedWith env s g new new' gone kept S v w t)
    (hs : s.Inv g) (hx : x ∈ s.entriesIn .live) : x ∉ w.entriesIn .snapshotCopy := by
  have hcs : v.callstacks.Holds g.callstacks := h.both.callstacks ▸ hs.callstacks
  have hpref := h.cancelled.preferring.congr_key fun m hm n hn ↦ kind_eq_iff hcs
    (h.cancelled.interned .liveCopy (by simp) m hm)
    (h.cancelled.interned .snapshotCopy (by simp) n (h.cancelled.subset.2 hn))
  have hpref' := @Preferring.map _ _ _ Entry.origin Entry.usrptr _ v.entry _ _ _ _ hpref
    h.both.entriesIn.1.symm.subset h.entriesIn.2.subset
  exact fun hmem ↦ hpref' x hx List.not_mem_nil x hmem rfl rfl

/-- Only blocks that are left are shown. -/
theorem Remaining.exists_of_shows {granted : Bool} {ns : List ℕ} {some_ none_ e : Event}
    {es : List Event} {ptr : ℕ} (h : s.Remaining granted ns some_ none_ es) (he : e ∈ es)
    (hsome : ¬some_.Shows ptr) (hnone : ¬none_.Shows ptr) (hshows : e.Shows ptr) :
    ∃ y ∈ ns.map s.entry, y.usrptr = ptr := by
  have hcons : ∀ {l : List Event}, e ∈ some_ :: l → e ∈ l := fun hmem ↦
    (List.mem_cons.1 hmem).resolve_left fun heq ↦ hsome (heq ▸ hshows)
  rw [Remaining] at h
  split_ifs at h
  · exact absurd (List.mem_singleton.1 (h ▸ he) ▸ hshows) hnone
  · obtain ⟨array, hperm, rfl⟩ := h
    obtain ⟨i, n, hn, rfl⟩ := mem_lines (hcons he)
    exact ⟨s.entry n, List.mem_map_of_mem (hperm.subset hn), hshows⟩
  · rw [h] at he
    rw [List.mem_singleton.1 (hcons he)] at hshows
    exact hshows.elim

/-- A block that is in both tables is given back with both copies, and not shown, exactly if it is
not left of the live ones. -/
theorem ComparedWith.unlisted_iff (h : ComparedWith env s g new new' gone kept S v w t)
    (hs : s.Inv g) (ht : s.Tidy g) : ∃ es, t.trace = s.trace ++ es ∧ ∀ x ∈ s.survivors,
      (x ∉ w.entriesIn .liveCopy ∧ x ∉ w.entriesIn .snapshotCopy ∧ ∀ e ∈ es, ¬e.Shows x.usrptr) ↔
        x ∉ w.entriesIn .liveCopy := by
  obtain ⟨es, es', ns, htrace, hes, hes'⟩ := h.printed
  obtain ⟨hleft, hleft'⟩ := h.entriesIn
  refine ⟨_, htrace, fun x hx ↦ ⟨And.left, fun hnot ↦ ?_⟩⟩
  obtain ⟨hlive, hsnapshot⟩ := mem_survivors.1 hx
  have hnot' := h.notMem_left hs hlive
  refine ⟨hnot, hnot', fun e he hshows ↦ ?_⟩
  -- a line at this address is one of the block itself
  have hcases : e ∈ es ∨ e ∈ es' := by
    have hcopied : ∀ l : List ℕ, e ∉ l.map Event.copied := fun l hmem ↦ by
      obtain ⟨n, -, rfl⟩ := List.mem_map.1 hmem
      exact hshows
    have hreleased : ∀ l : List ℕ, e ∉ l.map Event.released := fun l hmem ↦ by
      obtain ⟨n, -, rfl⟩ := List.mem_map.1 hmem
      exact hshows
    simpa [hcopied, hreleased] using he
  rcases hcases with he | he
  · obtain ⟨y, hy, hptr⟩ := hes.exists_of_shows he id id hshows
    have hmem := hleft.symm.subset hy
    have hylive : y ∈ s.entriesIn .live := h.both.entriesIn.1.subset
      (List.map_subset _ h.cancelled.subset.1 hy)
    exact hnot (hs.entries_inj y hylive x hlive hptr ▸ hmem)
  · obtain ⟨y, hy, hptr⟩ := hes'.exists_of_shows he id id hshows
    have hmem := hleft'.symm.subset hy
    have hysnapshot : y ∈ s.entriesIn .snapshot := h.both.entriesIn.2.subset
      (List.map_subset _ h.cancelled.subset.2 hy)
    exact hnot' (ht.entriesIn_inj hs.blocks y hysnapshot x hsnapshot hptr ▸ hmem)

/-- The comparison lists none of the blocks that are in both tables exactly if it comes to them
early enough. -/
theorem ComparedWith.survivors_iff (h : ComparedWith env s g new new' gone kept S v w t)
    (hs : s.Inv g) (ht : s.Tidy g) : ∃ es, t.trace = s.trace ++ es ∧
      ((∀ x ∈ s.survivors, x ∉ w.entriesIn .liveCopy ∧ x ∉ w.entriesIn .snapshotCopy ∧
        ∀ e ∈ es, ¬e.Shows x.usrptr) ↔ s.SurvivorsFirst) := by
  obtain ⟨es, htrace, hiff⟩ := h.unlisted_iff hs ht
  refine ⟨es, htrace, (forall₂_congr hiff).trans ⟨fun hall pre x post horder hx ↦ ?_,
    fun hfirst x hx ↦ ?_⟩⟩
  · exact not_le.1 (mt (h.mem_left_iff hs horder).2 (hall x hx))
  · have hmem : x ∈ s.compareOrder := by
      rw [← h.both.compareOrder]
      refine (((h.both.confined.holds.tableNodes_perm .liveCopy).map _).trans
        h.both.entriesIn.1).symm.subset (mem_survivors.1 hx).1
    obtain ⟨pre, post, horder⟩ := List.append_of_mem hmem
    exact mt (h.mem_left_iff hs horder).1 (not_le.2 (hfirst pre x post horder hx))

end State

/-- The comparison with a snapshot gives back both copies of every block that is in both tables, and
lists its address neither as increased nor as decreased, if and only if it comes to these blocks
before it has come to as many of their callstack and size as the snapshot has. -/
theorem survivors_unlisted_iff {s : State} {g : Contents} (hs : s.Inv g) (ht : s.Tidy g)
    (env : CommandEnv) : (s.mcCompareWithSnapshot env = none → s.Faulty g) ∧
      ∀ t, s.mcCompareWithSnapshot env = some (0, t) → ∃ v w num num' es,
        s.copyBoth = some (0, v) ∧ v.offsetCopies = some (w, num, num') ∧
          t.trace = s.trace ++ es ∧
          ((∀ x ∈ s.survivors, x ∉ w.entriesIn .liveCopy ∧ x ∉ w.entriesIn .snapshotCopy ∧
            ∀ e ∈ es, ¬e.Shows x.usrptr) ↔ s.SurvivorsFirst) := by
  have hspec := State.compareWithSnapshot_spec hs ht env
  refine ⟨hspec.fault, fun t hcompare ↦ ?_⟩
  rcases hspec.value _ hcompare with ⟨-, -, -, new, new', gone, kept, S, v, w, h⟩ | ⟨-, hret, -⟩
  · obtain ⟨es, htrace, hiff⟩ := h.survivors_iff hs ht
    exact ⟨v, w, _, _, es, h.copied, h.offset, htrace, hiff⟩
  · simp at hret

namespace State

variable {s t v w : State} {g : Contents} {env : CommandEnv} {new new' kept S : List ℕ}
  {gone : List (ℕ × ℕ)} {x y : Entry} {a : ℕ}

/-- A block in an earlier bucket comes first. -/
theorem mem_of_hash_lt {pre post : List Entry} (horder : s.compareOrder = pre ++ x :: post)
    (hy : y ∈ s.entriesIn .live) (hlt : calcPtrHash y.usrptr allocMemptrHashtableSize <
      calcPtrHash x.usrptr allocMemptrHashtableSize) : y ∈ pre := by
  have hmem : y ∈ s.compareOrder :=
    mem_stackedOrder.2 ⟨hy, calcPtrHash_mem (by decide) (by decide) _⟩
  have hsorted : s.compareOrder.Pairwise _ := pairwise_stackedOrder (pairwise_tableIndices _)
  rw [horder] at hmem hsorted
  rcases List.mem_append.1 hmem with hmem | hmem
  · exact hmem
  · rcases List.mem_cons.1 hmem with rfl | hmem
    · exact absurd hlt (lt_irrefl _)
    · have hle := (List.pairwise_cons.1 (List.pairwise_append.1 hsorted).2.1).1 y hmem
      exact absurd hlt (not_lt.2 hle)

/-- All blocks that are left are shown, if there is a buffer. -/
theorem Remaining.exists_shows {ns : List ℕ} {some_ none_ : Event} {es : List Event}
    (h : s.Remaining true ns some_ none_ es) (hy : y ∈ ns.map s.entry) :
    ∃ e ∈ es, e.Shows y.usrptr := by
  obtain ⟨n, hn, rfl⟩ := List.mem_map.1 hy
  rw [Remaining, if_neg (List.ne_nil_of_mem hn), if_pos rfl] at h
  obtain ⟨array, hperm, rfl⟩ := h
  obtain ⟨i, hi, heq⟩ := List.mem_iff_getElem.1 (hperm.symm.subset hn)
  refine ⟨s.blockLine i array[i], List.mem_cons_of_mem _ (List.mem_mapIdx.2 ⟨i, hi, rfl⟩), ?_⟩
  rw [heq]
  rfl

namespace Grown

variable {s₀ s₁ : State}

/-- The older of the two blocks. -/
theorem mem_survivors_iff (h : Grown a s₀ s₁ s) : x ∈ s.survivors ↔ x = ⟨1048592, 16, []⟩ := by
  rw [State.mem_survivors, h.live.mem_iff, h.snapshot.mem_iff]
  simp +contextual

theorem count_snapshot (h : Grown a s₀ s₁ s) : (s.origins .snapshot).count ([], 16) = 1 := by
  rw [origins_eq, (h.snapshot.map _).count_eq]
  rfl

/-- The older block comes first if its bucket does. -/
theorem survivorsFirst (h : Grown a s₀ s₁ s) (hlt : calcPtrHash 1048592 allocMemptrHashtableSize <
    calcPtrHash (a + 16) allocMemptrHashtableSize) : s.SurvivorsFirst := by
  intro pre x post horder hx
  obtain rfl := h.mem_survivors_iff.1 hx
  obtain ⟨g, hg⟩ := h.mapped.settled
  have hnodup : s.compareOrder.Nodup :=
    nodup_stackedOrder (nodup_tableIndices _) hg.inv.nodup_entries
  have hcount : (s.origins .snapshot).count ([], 16) = 1 := h.count_snapshot
  -- the newer block cannot come before it, and there is no other
  have hpre : pre = [] := by
    refine List.eq_nil_iff_forall_not_mem.2 fun y hy ↦ ?_
    have hylive : y ∈ s.entriesIn .live := by
      have hmem : y ∈ s.compareOrder := horder ▸ List.mem_append_left _ hy
      exact (mem_stackedOrder.1 hmem).1
    rw [horder] at hnodup
    rcases List.mem_cons.1 (h.live.subset hylive) with rfl | hmem
    · have hxlive : (⟨1048592, 16, []⟩ : Entry) ∈ s.entriesIn .live := (State.mem_survivors.1 hx).1
      obtain ⟨pre', post', hsplit⟩ := List.append_of_mem hy
      have hlater : s.compareOrder =
          pre' ++ ⟨a + 16, 16, []⟩ :: (post' ++ ⟨1048592, 16, []⟩ :: post) := by
        rw [horder, hsplit, List.append_assoc, List.cons_append]
      have hearlier := mem_of_hash_lt hlater hxlive hlt
      refine (List.nodup_append.1 hnodup).2.2 _ ?_ _ List.mem_cons_self rfl
      rw [hsplit]
      exact List.mem_append_left _ hearlier
    · obtain rfl := List.mem_singleton.1 hmem
      exact (List.nodup_append.1 hnodup).2.2 _ hy _ List.mem_cons_self rfl
  rw [hpre]
  exact hcount ▸ Nat.one_pos

/-- Otherwise the newer block comes first, and there is none of the snapshot left for the older. -/
theorem exists_behind (h : Grown a s₀ s₁ s) (hlt : calcPtrHash (a + 16) allocMemptrHashtableSize <
    calcPtrHash 1048592 allocMemptrHashtableSize) :
    ∃ pre post, s.compareOrder = pre ++ ⟨1048592, 16, []⟩ :: post ∧
      (s.origins .snapshot).count ([], 16) ≤ (pre.map Entry.origin).count ([], 16) := by
  have hlive : ∀ x ∈ [(⟨a + 16, 16, []⟩ : Entry), ⟨1048592, 16, []⟩], x ∈ s.entriesIn .live :=
    fun x hx ↦ h.live.symm.subset hx
  have hmem : (⟨1048592, 16, []⟩ : Entry) ∈ s.compareOrder :=
    mem_stackedOrder.2 ⟨hlive _ (by simp), calcPtrHash_mem (by decide) (by decide) _⟩
  obtain ⟨pre, post, horder⟩ := List.append_of_mem hmem
  have hpre : (⟨a + 16, 16, []⟩ : Entry) ∈ pre := mem_of_hash_lt horder (hlive _ (by simp)) hlt
  refine ⟨pre, post, horder, ?_⟩
  rw [h.count_snapshot]
  exact List.count_pos_iff.2 (List.mem_map.2 ⟨_, hpre, rfl⟩)

end Grown

end State

/-- One block outlives the snapshot, and another of its callstack and size is allocated after it at
an address with a later bucket: the older block is not listed. -/
theorem survivors_unlisted_iff_oneBlock : ∃ (s t v w : State) (num num' : ℤ) (es : List Event),
    MappedReachable s ∧ s.mcCompareWithSnapshot ⟨fun _ ↦ true⟩ = some (0, t) ∧
      s.copyBoth = some (0, v) ∧ v.offsetCopies = some (w, num, num') ∧ t.trace = s.trace ++ es ∧
      ⟨1048592, 16, []⟩ ∈ s.survivors ∧ ⟨1048592, 16, []⟩ ∉ w.entriesIn .liveCopy ∧
      ⟨1048592, 16, []⟩ ∉ w.entriesIn .snapshotCopy ∧ ∀ e ∈ es, ¬e.Shows 1048592 := by
  obtain ⟨s₀, s₁, s, h⟩ := State.exists_grownAt (a := 1048640) (by decide) (by decide)
  obtain ⟨g, hg⟩ := h.mapped.settled
  obtain ⟨t, hcompare⟩ := h.returns ⟨fun _ ↦ true⟩
  obtain ⟨v, w, num, num', es, hcopied, hoffset, htrace, hiff⟩ :=
    (survivors_unlisted_iff hg.inv hg.tidy ⟨fun _ ↦ true⟩).2 t hcompare
  have hmem := h.mem_survivors_iff.2 rfl
  obtain ⟨hlive, hsnapshot, hshows⟩ := hiff.2 (h.survivorsFirst (by decide)) _ hmem
  exact ⟨s, t, v, w, num, num', es, h.mapped, hcompare, hcopied, hoffset, htrace, hmem, hlive,
    hsnapshot, hshows⟩

/-- The same run with the second block at an address with an earlier bucket: the comparison lists
the block that is in both tables. -/
theorem not_survivors_unlisted : ∃ (s t : State) (es : List Event) (x : Entry),
    MappedReachable s ∧ s.mcCompareWithSnapshot ⟨fun _ ↦ true⟩ = some (0, t) ∧
      t.trace = s.trace ++ es ∧ x ∈ s.entriesIn .live ∧ x ∈ s.entriesIn .snapshot ∧
      ∃ e ∈ es, e.Shows x.usrptr := by
  obtain ⟨s₀, s₁, s, h⟩ := State.exists_grownAt (a := 1250880) (by decide) (by decide)
  obtain ⟨g, hg⟩ := h.mapped.settled
  obtain ⟨t, hcompare⟩ := h.returns ⟨fun _ ↦ true⟩
  obtain ⟨hlive, hsnapshot⟩ := State.mem_survivors.1 (h.mem_survivors_iff.2 rfl)
  rcases (State.compareWithSnapshot_spec hg.inv hg.tidy _).value _ hcompare with
    ⟨-, -, -, new, new', gone, kept, S, v, w, hc⟩ | ⟨-, hret, -⟩
  · obtain ⟨pre, post, horder, hle⟩ := h.exists_behind (by decide)
    have hleft := hc.entriesIn.1.subset ((hc.mem_left_iff hg.inv horder).2 hle)
    obtain ⟨es, es', ns, htrace, hes, -⟩ := hc.printed
    obtain ⟨e, he, hshows⟩ := hes.exists_shows hleft
    exact ⟨s, t, _, _, h.mapped, hcompare, htrace, hlive, hsnapshot, e, by simp [he], hshows⟩
  · simp at hret

end Memchk
