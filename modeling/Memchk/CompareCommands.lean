import Memchk.Commands

/-!
# The commands that compare

Both commands that compare make copies of the live blocks and of the snapshot, compare the copies,
and give back what is left of them. `compareWithSnapshot_spec` and
`compareWithSnapshotPerCallstack_spec` say how far they come. The second leaves lists behind if it
gets no sort buffer and something has changed.

## The two copies

The live blocks are copied first, and the snapshot after them. Either copy may run out of nodes, and
the command then returns with what was copied by then (`Abandoned`). `BothCopied` is the state after
two copies that were made as a whole: the copies are the blocks of the two tables, and the pool has
lost their nodes and no others.

## What follows the copies

Comparing the copies is the subject of another module; its result is what is left on both sides, and
what was printed. Giving the rest back is the same for both commands, and so is the proof that the
command has restored everything if the lists of the callstacks are empty by then.

## Faults

A comparison faults where a copy has too many blocks or a block without callstack. As the copies are
those of the tables, this is a condition on the state before the command (`BothCopied.faulty`).
-/

namespace Memchk

namespace State

variable {s t u v w : State} {g : Contents} {new new' kept S : List ℕ} {gone : List (ℕ × ℕ)}
  {env : CommandEnv} {id : TableId}

/-! ### The two copies -/

/-- Copies of blocks with different addresses have different addresses. -/
theorem distinct_of_map {ns ms : List ℕ} (hnodup : ms.Nodup) (hd : s.blocks.Distinct ms)
    (hmap : ns.map t.blocks.record = ms.map s.blocks.record) : t.blocks.Distinct ns.reverse := by
  have hkeys : (ns.map fun n ↦ (t.blocks.record n).usrptr).Nodup := by
    have hmap' := congrArg (List.map AllocRecord.usrptr) hmap
    rw [List.map_map, List.map_map] at hmap'
    show (ns.map (AllocRecord.usrptr ∘ t.blocks.record)).Nodup
    rw [hmap']
    exact hnodup.map_on hd
  exact fun m hm n hn heq ↦ List.inj_on_of_nodup_map hkeys (List.mem_reverse.1 hm)
    (List.mem_reverse.1 hn) heq

/-- The two copies may be compared. -/
theorem BothCopied.prepared (hb : BothCopied s g new new' t) (h : s.Inv g) (ht : s.Tidy g) :
    Prepared t (withCopies g.nodes new.reverse new'.reverse) g.callstacks where
  holds := hb.confined.holds
  callstacks := hb.callstacks ▸ h.callstacks
  interned _ _ _ hn := hb.confined.interned h hn
  distinct id hid := by
    have hnodup : ∀ id, (s.blocks.tableNodes id).Nodup := fun id ↦
      (h.blocks.tableNodes_perm id).nodup_iff.2 (h.blocks.table id).nodup
    have hmem : ∀ {id n}, n ∈ s.blocks.tableNodes id → n ∈ g.nodes id := h.blocks.mem_tableNodes.1
    rcases List.mem_cons.1 hid with rfl | hid
    · exact distinct_of_map (hnodup _) (fun _ hm _ hn ↦ h.live_inj (hmem hm) (hmem hn)) hb.current
    · obtain rfl := List.mem_singleton.1 hid
      exact distinct_of_map (hnodup _) (fun m hm n hn ↦ ht.distinct m (hmem hm) n (hmem hn))
        hb.snapshot
  head := by
    rw [head_congr hb.callstacks]
    exact ht.head

/-- A fault in the copies is one of the tables. -/
theorem BothCopied.faulty (hb : BothCopied s g new new' t) (h : s.Inv g)
    (hfault : t.Incomparable (withCopies g.nodes new.reverse new'.reverse)) : s.Faulty g := by
  obtain ⟨id, hid, hfault⟩ := hfault
  have hmem : ∀ {ns : List ℕ}, 2147483648 ≤ ns.reverse.length ∨
      (∃ n ∈ ns.reverse, (t.blocks.record n).allocator = 0) →
      2147483648 ≤ ns.length ∨ ∃ n ∈ ns, (t.blocks.record n).allocator = 0 := by
    intro ns hns
    simpa only [List.length_reverse, List.mem_reverse] using hns
  rcases List.mem_cons.1 hid with rfl | hid
  · exact .of_copied h.blocks (by simp) hb.current (hmem hfault)
  · obtain rfl := List.mem_singleton.1 hid
    exact .of_copied h.blocks (by simp) hb.snapshot (hmem hfault)

/-- The live blocks are those of the snapshot, up to their addresses. -/
def SameKinds (s : State) (g : Contents) : Prop :=
  ((g.nodes .live).map s.kind).Perm ((g.nodes .snapshot).map s.kind)

/-- The copies have blocks of the same kinds as the tables. -/
theorem BothCopied.kinds (hb : BothCopied s g new new' t) (h : s.blocks.Holds g.nodes) :
    (new.reverse.map t.kind).Perm ((g.nodes .live).map s.kind) ∧
      (new'.reverse.map t.kind).Perm ((g.nodes .snapshot).map s.kind) := by
  let key : AllocRecord → ℕ × ℕ := fun r ↦ (r.allocator, r.memblk.usrsize)
  have hkey : ∀ {ns : List ℕ} {id : TableId},
      ns.map t.blocks.record = (s.blocks.tableNodes id).map s.blocks.record →
      (ns.reverse.map t.kind).Perm ((g.nodes id).map s.kind) := by
    intro ns id hmap
    have hmap' := congrArg (List.map key) hmap
    rw [List.map_map, List.map_map] at hmap'
    refine ((List.reverse_perm ns).map _).trans ?_
    have heq : ns.map t.kind = (s.blocks.tableNodes id).map s.kind := hmap'
    rw [heq]
    exact (h.tableNodes_perm id).map _
  exact ⟨hkey hb.current, hkey hb.snapshot⟩

/-- What is left of the copies is nothing exactly if the two tables have blocks of the same
kinds. -/
theorem Cancelled.nil_iff {gone : List (ℕ × ℕ)} {kept S : List ℕ}
    (hc : Cancelled (withCopies g.nodes new.reverse new'.reverse) g.callstacks t gone kept S u)
    (hb : BothCopied s g new new' t) (h : s.blocks.Holds g.nodes) :
    kept = [] ∧ S = [] ↔ s.SameKinds g := by
  obtain ⟨hlive, hsnapshot⟩ := hb.kinds h
  rw [hc.cancelling.nil_iff, SameKinds]
  exact ⟨fun hperm ↦ hlive.symm.trans (hperm.trans hsnapshot),
    fun hperm ↦ hlive.trans (hperm.trans hsnapshot.symm)⟩

/-! ### The commands -/

/-- A command has made both copies, from `s` to `v`, and has given back what was left of them, from
`u` to `t`. -/
structure Compared (s : State) (g : Contents) (new new' : List ℕ) (v u t : State) : Prop where
  copied : s.copyBoth = some (0, v)
  both : BothCopied s g new new' v
  destroyed : (u.mcDestroyAllAllocMemblk .liveCopy).bind
    (mcDestroyAllAllocMemblk .snapshotCopy) = some t

/-- The number of copies that a command that compares makes. -/
def bothLength (g : Contents) : ℕ :=
  (g.nodes .live).length + (g.nodes .snapshot).length

/-- Both commands begin with the two copies. -/
theorem copyBoth_bind (s : State) (f : State → Option (ℤ × State)) :
    (do
      let (ret, s) ← s.mcDuplicateAllAllocMemblk .liveCopy .live
      if ret ≠ 0 then return (ret, s)
      let (ret, s) ← s.mcDuplicateAllAllocMemblk .snapshotCopy .snapshot
      if ret ≠ 0 then return (ret, s)
      f s) = s.copyBoth.bind fun x ↦ if x.1 ≠ 0 then some x else f x.2 := by
  rw [copyBoth]
  cases s.mcDuplicateAllAllocMemblk .liveCopy .live with
  | none => simp only [Option.bind_eq_bind, Option.bind_none]
  | some x =>
    obtain ⟨ret, t⟩ := x
    simp only [Option.bind_eq_bind, Option.bind_some, Option.pure_def]
    split_ifs with hret
    · rw [Option.bind_some, if_pos hret]
    · rfl

/-- A command that works on copies of both tables. -/
theorem withBothCopies_spec (body : State → Option State) (h : s.blocks.Holds g.nodes)
    (ht : s.Tidy g) (hbody : ∀ (new new' : List ℕ) (v : State), BothCopied s g new new' v →
      Outcome (s.Faulty g) (body v) fun u ↦ ∃ es C S,
        Confined scratch s g.nodes es u (withCopies g.nodes C S)) :
    Outcome (s.Faulty g) (s.copyBoth.bind fun x ↦
        if x.1 ≠ 0 then some x
        else (body x.2).bind fun s ↦ ((s.mcDestroyAllAllocMemblk .liveCopy).bind
          (mcDestroyAllAllocMemblk .snapshotCopy)).bind fun s ↦ some (0, s)) fun x ↦
      (s.nodesFor (bothLength g)).length = bothLength g ∧ x.1 = 0 ∧
          (∃ new new' v u, Compared s g new new' v u x.2 ∧ body v = some u) ∨
        OutOfNodes (bothLength g) s g x := by
  obtain ⟨ret, v, new, new', hrun, hnodes, hcases⟩ := copyBoth_spec h ht
  change s.nodesFor (bothLength g) = _ at hnodes
  rw [hrun, Option.bind_some]
  rcases hcases with ⟨rfl, hlen, hboth⟩ | ⟨rfl, hlen, habandoned⟩
  · rw [if_neg (not_not_intro rfl)]
    have hout := hbody new new' v hboth
    cases hrun' : body v with
    | none => exact .none (hout.fault hrun')
    | some u =>
      obtain ⟨es, C, S, hconfined⟩ := hout.value u hrun'
      obtain ⟨ns, t, hdestroy, -, -⟩ := hconfined.destroyBoth
      rw [Option.bind_some, hdestroy, Option.bind_some]
      exact .some (.inl ⟨hnodes ▸ hlen, rfl, new, new', v, u, ⟨hrun, hboth, hdestroy⟩, hrun'⟩)
  · have hne : (-1 : ℤ) ≠ 0 := by decide
    rw [if_pos hne]
    refine .some (.inr ⟨hnodes ▸ hlen, rfl, _, _, ?_, habandoned⟩)
    rw [hnodes]
    simp

/-- What is left of the copies after they have been compared is given back. -/
theorem Compared.confined (hc : Compared s g new new' v u t) (ht : s.Tidy g)
    (hconfined : Confined scratch v (withCopies g.nodes new.reverse new'.reverse) es u
      (withCopies (withCopies g.nodes new.reverse new'.reverse) kept S)) :
    ∃ ns : List ℕ, Confined scratch s g.nodes
    ((new ++ new').map .copied ++ es ++ ns.map .released) t
      g.nodes ∧ t.callstacks = u.callstacks := by
  rw [withCopies_withCopies] at hconfined
  obtain ⟨ns, t', hrun, hall, hcallstacks⟩ := (hc.both.confined.trans hconfined).destroyBoth
  obtain rfl : t' = t := Option.some.inj (hrun.symm.trans hc.destroyed)
  rw [ht.withCopies_eq] at hall
  exact ⟨ns, hall, hcallstacks⟩

/-- What `mc_compare_with_snapshot` has done when it has made both copies: the pairs `gone` of
blocks of the same kind were taken out of the copies, and what was left of them was printed. -/
structure ComparedWith (env : CommandEnv) (s : State) (g : Contents) (new new' : List ℕ)
    (gone : List (ℕ × ℕ)) (kept S : List ℕ) (v w t : State) : Prop where
  copied : s.copyBoth = some (0, v)
  both : BothCopied s g new new' v
  offset : v.offsetCopies = some (w, (kept.length : ℤ), (S.length : ℤ))
  cancelled : Cancelled (withCopies g.nodes new.reverse new'.reverse) g.callstacks v gone kept S w
  printed : ∃ (es es' : List Event) (ns : List ℕ),
    t.trace = s.trace ++ ((new ++ new').map .copied ++
      ((pairNodes gone).map .released ++ (es ++ es')) ++ ns.map .released) ∧
    v.Remaining (env.sortBuffer 0) kept (.blocksIncreased kept.length) .noBlockIncreased es ∧
    v.Remaining (env.sortBuffer 1) S (.blocksDecreased S.length) .noBlockDecreased es'

/-- `mc_compare_with_snapshot`. -/
theorem compareWithSnapshot_spec (h : s.Inv g) (ht : s.Tidy g) (env : CommandEnv) :
    Outcome (s.Faulty g) (s.mcCompareWithSnapshot env) fun x ↦
      (s.nodesFor (bothLength g)).length = bothLength g ∧ x.1 = 0 ∧ (∃ es, Restored s g es x.2) ∧
          (∃ new new' gone kept S v w, ComparedWith env s g new new' gone kept S v w x.2) ∨
        OutOfNodes (bothLength g) s g x := by
  have hsplit : s.mcCompareWithSnapshot env = s.copyBoth.bind fun x ↦
      if x.1 ≠ 0 then some x
      else (x.2.mcCompareSnapshotAndCurrentAllocMemblk env).bind fun s ↦
        ((s.mcDestroyAllAllocMemblk .liveCopy).bind (mcDestroyAllAllocMemblk .snapshotCopy)).bind
          fun s ↦ some (0, s) := by
    refine Eq.trans ?_ (copyBoth_bind s fun s ↦ (s.mcCompareSnapshotAndCurrentAllocMemblk env).bind
      fun s ↦ ((s.mcDestroyAllAllocMemblk .liveCopy).bind
        (mcDestroyAllAllocMemblk .snapshotCopy)).bind fun s ↦ some (0, s))
    rw [mcCompareWithSnapshot]
    simp only [Option.bind_eq_bind, Option.bind_assoc, Option.pure_def]
  have hcompare : ∀ (new new' : List ℕ) (v : State), BothCopied s g new new' v →
      Outcome (s.Faulty g) (v.mcCompareSnapshotAndCurrentAllocMemblk env) _ := fun _ _ v hb ↦
    (compare_spec (hb.prepared h ht) env).weaken (hb.faulty h)
  rw [hsplit]
  refine (withBothCopies_spec _ h.blocks ht fun new new' v hb ↦
    (hcompare new new' v hb).mono ?_).mono
    ?_
  · rintro u ⟨gone, kept, S, w, es, es', -, -, hconfined, -⟩
    have hall := hb.confined.trans hconfined
    rw [withCopies_withCopies] at hall
    exact ⟨_, _, _, hall⟩
  · rintro x (⟨hlen, hret, new, new', v, u, hc, hrun⟩ | hout)
    · obtain ⟨gone, kept, S, w, es, es', hoffset, hcancel, hconfined, hzero, hes, hes'⟩ :=
        (hcompare new new' v hc.both).value u hrun
      obtain ⟨ns, hall, hcallstacks⟩ := hc.confined ht hconfined
      have hquiet : Quiet (es ++ es') :=
        (quiet_remaining rfl rfl hes).append (quiet_remaining rfl rfl hes')
      refine .inl ⟨hlen, hret, ⟨_, hall, ?_, ?_⟩, new, new', gone, kept, S, v, w,
        hc.copied, hc.both,
        hoffset, hcancel, es, es', ns, ?_, hes, hes'⟩
      · simp only [copiedNodes_append, copiedNodes_map_copied, copiedNodes_map_released,
          hquiet.copiedNodes_eq,
          List.append_nil]
        exact hc.both.nodup
      · rw [head_congr hcallstacks]
        exact hzero
      · rw [hall.rest]
    · exact .inr hout

/-- What `mc_compare_with_snapshot_per_callstack` has done when it has made both copies: the pairs
`gone` of blocks of the same kind were taken out of the copies, and the callstacks of what was left
were printed, if there was a sort buffer. -/
structure ComparedByCallstack (env : CommandEnv) (s : State) (g : Contents) (new new' : List ℕ)
    (gone : List (ℕ × ℕ)) (kept S : List ℕ) (v w : State) (es : List Event) (t : State) : Prop where
  both : BothCopied s g new new' v
  cancelled : Cancelled (withCopies g.nodes new.reverse new'.reverse) g.callstacks v gone kept S w
  trace : ∃ ns : List ℕ, t.trace = s.trace ++ ((new ++ new').map .copied ++
    ((pairNodes gone).map .released ++ es) ++ ns.map .released)
  printed : kept = [] ∧ S = [] ∧ es = [.noBlockChanged] ∨ ¬(kept = [] ∧ S = []) ∧
    if env.sortBuffer 0 then v.GroupReport g.callstacks kept S es else es = [.mmapFailed]

/-- `mc_compare_with_snapshot_per_callstack`. The lists of the callstacks that have changed are left
behind if there is no sort buffer. -/
theorem compareWithSnapshotPerCallstack_spec (h : s.Inv g) (ht : s.Tidy g) (env : CommandEnv) :
    Outcome (s.Faulty g) (s.mcCompareWithSnapshotPerCallstack env) fun x ↦
      (s.nodesFor (bothLength g)).length = bothLength g ∧ x.1 = 0 ∧
          (∃ es, Confined scratch s g.nodes es x.2 g.nodes ∧ (copiedNodes es).Nodup ∧
            (env.sortBuffer 0 = false → ¬s.SameKinds g → .mmapFailed ∈ es)) ∧
          ((∀ link, ∀ c ∈ g.callstacks, x.2.head link c = 0) ↔
            (env.sortBuffer 0 = true ∨ s.SameKinds g)) ∧
          (∃ new new' gone kept S v w es,
            ComparedByCallstack env s g new new' gone kept S v w es x.2) ∨
        OutOfNodes (bothLength g) s g x := by
  -- two copies, a comparison, and giving back what it leaves
  have hsplit : s.mcCompareWithSnapshotPerCallstack env = s.copyBoth.bind fun x ↦
      if x.1 ≠ 0 then some x
      else ((x.2.mcCompareSnapshotAndCurrentAllocMemblkPerCallstack env).map Prod.snd).bind fun s ↦
        ((s.mcDestroyAllAllocMemblk .liveCopy).bind (mcDestroyAllAllocMemblk .snapshotCopy)).bind
          fun s ↦ some (0, s) := by
    refine Eq.trans ?_ (copyBoth_bind s fun s ↦
      ((s.mcCompareSnapshotAndCurrentAllocMemblkPerCallstack env).map Prod.snd).bind fun s ↦
        ((s.mcDestroyAllAllocMemblk .liveCopy).bind (mcDestroyAllAllocMemblk .snapshotCopy)).bind
          fun s ↦ some (0, s))
    have hmap : ∀ (o : Option (ℤ × State)) (f : State → Option (ℤ × State)),
        (o.map Prod.snd).bind f = o.bind fun x ↦ f x.2 := fun o f ↦ Option.bind_map
    rw [mcCompareWithSnapshotPerCallstack]
    simp only [Option.bind_eq_bind, Option.bind_assoc, hmap, Option.pure_def]
  -- a fault of the comparison is one of the tables that were copied
  have hcompare : ∀ (new new' : List ℕ) (v : State), BothCopied s g new new' v →
      Outcome (s.Faulty g) (v.mcCompareSnapshotAndCurrentAllocMemblkPerCallstack env) _ :=
    fun _ _ v hb ↦ (comparePerCallstack_spec (hb.prepared h ht) env).weaken fun hfault ↦
      hfault.elim (hb.faulty h) .inr
  rw [hsplit]
  refine (withBothCopies_spec (fun s ↦
    (s.mcCompareSnapshotAndCurrentAllocMemblkPerCallstack env).map Prod.snd) h.blocks ht
      fun new new' v hb ↦ ⟨fun u hu ↦ ?_, fun hnone ↦ ?_⟩).mono ?_
  · obtain ⟨⟨ret, u⟩, hrun, rfl⟩ := Option.map_eq_some_iff.1 hu
    obtain ⟨gone, kept, S, w, es, -, -, hconfined, -⟩ := (hcompare new new' v hb).value _ hrun
    have hall := hb.confined.trans hconfined
    rw [withCopies_withCopies] at hall
    exact ⟨_, _, _, hall⟩
  · exact (hcompare new new' v hb).fault (Option.map_eq_none_iff.1 hnone)
  · rintro x (⟨hlen, hret, new, new', v, u, hc, hu⟩ | hout)
    · obtain ⟨⟨ret, u⟩, hrun, rfl⟩ := Option.map_eq_some_iff.1 hu
      obtain ⟨gone, kept, S, w, es, -, hcancel, hconfined, hcases⟩ :=
        (hcompare new new' v hc.both).value _ hrun
      obtain ⟨ns, hall, hcallstacks⟩ := hc.confined ht hconfined
      -- nothing is left over exactly if the two tables are of the same kinds
      have hnil := hcancel.nil_iff hc.both h.blocks
      have hquiet : Quiet es := by
        rcases hcases with ⟨-, -, ⟨-, -, rfl⟩ | ⟨-, -, hreport⟩⟩ | ⟨-, -, -, -, rfl⟩
        · exact quiet_singleton rfl
        · obtain ⟨G, G', array, -, -, -, -, rfl⟩ := hreport
          exact quiet_lines fun _ _ ↦ quiet_singleton rfl
        · exact quiet_mmapFailed
      refine .inl ⟨hlen, hret, ⟨_, hall, ?_, fun hrefused hkinds ↦ ?_⟩, ?_, new, new',
        gone, kept, S,
        v, w, es, hc.both, hcancel, ⟨ns, by rw [hall.rest]⟩, ?_⟩
      · simp only [copiedNodes_append, copiedNodes_map_copied, copiedNodes_map_released,
          hquiet.copiedNodes_eq,
          List.append_nil]
        exact hc.both.nodup
      · rcases hcases with ⟨-, -, ⟨hkept, hS, -⟩ | ⟨-, hgranted, -⟩⟩ | ⟨-, -, -, -, rfl⟩
        · exact absurd (hnil.1 ⟨hkept, hS⟩) hkinds
        · exact absurd hgranted (by simp [hrefused])
        · simp
      · rw [head_congr hcallstacks, ← hnil]
        rcases hcases with ⟨-, hzero, hleft⟩ | ⟨-, ⟨link, c, hc, hne⟩, hsome, hrefused, -⟩
        · exact iff_of_true hzero (hleft.symm.imp (fun h ↦ h.2.1) fun h ↦ ⟨h.1, h.2.1⟩)
        · refine iff_of_false (fun hzero ↦ hne (hzero link c hc)) ?_
          rw [not_or, hrefused]
          exact ⟨Bool.false_ne_true, hsome⟩
      · rcases hcases with ⟨-, -, hnone | ⟨hsome, hgranted, hreport⟩⟩ | ⟨-, -, hsome, hrefused, hes⟩
        · exact .inl hnone
        · rw [if_pos hgranted]
          exact .inr ⟨hsome, hreport⟩
        · rw [hrefused, if_neg Bool.false_ne_true]
          exact .inr ⟨hsome, hes⟩
    · exact .inr hout

end State

end Memchk
