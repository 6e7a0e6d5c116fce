import Memchk.Cleanup

/-!
# Reports change nothing

As long as metadata is there, a command that reports gives back all nodes that it has taken, each of
them once, and leaves the live blocks, the snapshot, the quarantine, the counters and the memory as
they were (`reports_pure`). A node that is read after it was given back is a fault of the model: a
report faults only if an `int` that counts blocks or callstacks overflows.

## From the specs

The specs of the commands say that a command that has nodes for its copies is confined to its
scratch tables, and that these are empty in the end. The balance of copies then says that each node
taken was given back, and `Callstacks.Alike` that nothing of a callstack was changed but lists and
sums.

## Which runs

The theorem is about the states of runs in which metadata was always there, and about a command that
finds nodes for its copies. There all blocks have callstacks, so that no report reads a null
pointer, and what is left of the faults are the counters of the reports.
-/

namespace Memchk

/-- A step in which all metadata is there. -/
def MappedStep (s t : State) : Prop :=
  ∃ a : Step, a.Ok s ∧ a.exec s = some t ∧ .mmapFailed ∉ t.trace

/-- The states that runs lead to in which all metadata is there. -/
def MappedReachable (s : State) : Prop :=
  ∃ k mem, k.Ok ∧ Relation.ReflTransGen MappedStep (State.init k mem) s

namespace State

/-- There are more blocks or callstacks than an `int` can count. -/
def Unwieldy (s : State) : Prop :=
  2147483648 ≤ (s.blocks.tableNodes .live).length ∨
    2147483648 ≤ (s.blocks.tableNodes .snapshot).length ∨
      2147483648 ≤ s.callstacks.tableNodes.length

/-- What the checker keeps for longer than a command is the same in both states. -/
structure Untouched (s t : State) : Prop where
  heap : t.heap = s.heap
  doNotHook : t.doNotHook = s.doNotHook
  quarantine : t.quarantine = s.quarantine
  counters : t.counters = s.counters
  tableNodes : ∀ id ∈ [TableId.live, .snapshot], t.blocks.tableNodes id = s.blocks.tableNodes id
  same : ∀ id ∈ [TableId.live, .snapshot], ∀ n ∈ s.blocks.tableNodes id,
    s.blocks.SameAt t.blocks n
  pool : t.blocks.pool.live allocMemblkSize = s.blocks.pool.live allocMemblkSize
  callstacks : s.callstacks.Alike t.callstacks

/-- The invariant between two steps while metadata is there. -/
structure Settled (s : State) (g : Contents) : Prop where
  inv : s.Inv g
  tidy : s.Tidy g
  attributed : s.Attributed g

variable {s t : State} {g : Contents} {c : Command} {env : CommandEnv} {es : List Event}

theorem Confined.trace_eq {ids : List TableId} {L L' : TableId → List ℕ}
    (h : Confined ids s L es t L') : t.trace = s.trace ++ es := by
  rw [h.rest]

/-- A command that finds metadata is spared. -/
theorem Inv.spared (h : s.Inv g) (ht : s.Tidy g) {x : ℤ × State} (hrun : c.exec env s = some x)
    (hmapped : .mmapFailed ∉ x.2.trace) : c.Spared env s := by
  have hreport : c.isReport → (s.nodesFor (c.copies s)).length = c.copies s ∧ ¬c.Strands env s := by
    intro hc
    rcases (report_spec h ht hc env).value x hrun with
      ⟨hlen, -, ⟨es, hconfined, -, hfailed⟩, -⟩ | ⟨-, -, C, S, -, ⟨es, hconfined, hfailed⟩, -⟩
    · rw [hconfined.trace_eq] at hmapped
      exact ⟨hlen, fun hs ↦ hmapped (List.mem_append_right _ (hfailed hs))⟩
    · rw [hconfined.trace_eq] at hmapped
      exact absurd (List.mem_append_right _ hfailed) hmapped
  cases c with
  | createSnapshot =>
    obtain ⟨new, ret, t, heq, hnew⟩ := createSnapshot_spec h.blocks
    obtain rfl : (ret, t) = x := Option.some.inj (heq.symm.trans hrun)
    obtain ⟨es, hconfined, hfailed⟩ := hnew.confined
    rw [hconfined.trace_eq] at hmapped
    have hret : ret = 0 := by_contra fun hne ↦ hmapped (List.mem_append_right _ (hfailed.2 hne))
    have hcopies : Command.createSnapshot.copies s = (g.nodes .live).length :=
      (h.blocks.tableNodes_perm .live).length_eq
    rw [Command.Spared, hcopies, hnew.nodesFor_eq]
    refine .inl (by_contra fun hlen ↦ ?_)
    have hret' := hnew.ret_eq
    rw [if_neg hlen, hret] at hret'
    exact absurd hret' (by decide)
  | destroySnapshot => exact trivial
  | printAllMemblk | printAllMemblkPerCallstack | compareWithSnapshot
  | compareWithSnapshotPerCallstack => exact .inr (hreport rfl)

/-- A step in which metadata is there keeps the invariant. -/
theorem Settled.step (h : s.Settled g) (hstep : MappedStep s t) : ∃ g', t.Settled g' := by
  obtain ⟨a, hok, hexec, hmapped⟩ := hstep
  have hspared : a.Spared s := by
    cases a with
    | action a => exact trivial
    | command env c =>
      obtain ⟨x, hrun, rfl⟩ := Option.map_eq_some_iff.1 hexec
      exact h.inv.spared h.tidy hrun hmapped
  obtain ⟨g', hinv, htidy, hattr⟩ := h.inv.step h.tidy hok hspared hexec
  exact ⟨g', hinv, htidy, hattr h.attributed hmapped⟩

theorem settled_init {k : Kernel} (hk : k.Ok) (mem : ℕ → UInt8) :
    (State.init k mem).Settled ⟨fun _ ↦ [], [], []⟩ :=
  ⟨inv_init hk mem, tidy_init k mem, ⟨by simp, by simp⟩⟩

/-- In a settled state, only a number of blocks or callstacks can be at fault. -/
theorem Settled.unwieldy (h : s.Settled g) (hfault : s.Faulty g) : s.Unwieldy := by
  have hlen : ∀ id, (s.blocks.tableNodes id).length = (g.nodes id).length := fun id ↦
    (h.inv.blocks.tableNodes_perm id).length_eq
  rw [Unwieldy, hlen, hlen, h.inv.callstacks.tableNodes_perm.length_eq]
  rcases hfault with ⟨id, hid, hlong | ⟨n, hn, hnull⟩⟩ | hlong
  · rcases List.mem_cons.1 hid with rfl | hid
    · exact .inl hlong
    · obtain rfl := List.mem_singleton.1 hid
      exact .inr (.inl hlong)
  · exact absurd hnull (h.attributed.allocator id n hn)
  · exact .inr (.inr hlong)

/-- A command that has given back all copies leaves everything untouched. -/
theorem Confined.untouched (h : Confined scratch s g.nodes es t g.nodes) (hinv : s.Inv g)
    (ht : s.Tidy g) : s.Untouched t := by
  have hnot : ∀ {id}, id ∈ [TableId.live, .snapshot] → id ∉ scratch := by decide
  have hnone : ∀ n, ∀ id ∈ scratch, n ∉ g.nodes id := by
    intro n id hid hn
    rcases List.mem_cons.1 hid with rfl | hid
    · rw [ht.liveCopy] at hn
      exact List.not_mem_nil hn
    · obtain rfl := List.mem_singleton.1 hid
      rw [ht.snapshotCopy] at hn
      exact List.not_mem_nil hn
  refine ⟨by rw [h.rest], by rw [h.rest], by rw [h.rest], by rw [h.rest],
    fun id hid ↦ h.tableNodes_eq hinv.blocks (hnot hid), fun id hid n hn ↦ ?_, ?_, h.callstacks⟩
  · exact h.sameAt hinv.blocks (hnot hid) (hinv.blocks.mem_tableNodes.1 hn)
  · ext n
    exact ⟨fun hn ↦ (h.fresh n hn (hnone n)).1, fun hn ↦ (h.kept n hn (hnone n)).2.1⟩

end State

/-- As long as metadata is there, the state is settled between two steps. -/
theorem MappedReachable.settled {s : State} (hs : MappedReachable s) : ∃ g, s.Settled g := by
  obtain ⟨k, mem, hk, hrun⟩ := hs
  induction hrun with
  | refl => exact ⟨_, State.settled_init hk mem⟩
  | tail _ hstep ih =>
    obtain ⟨g, hg⟩ := ih
    exact hg.step hstep

/-- A report faults only if one of its counters overflows. -/
theorem State.Settled.report_fault {s : State} {g : Contents} (h : s.Settled g) {c : Command}
    (hc : c.isReport) {env : CommandEnv} (hnone : c.exec env s = none) : s.Unwieldy :=
  h.unwieldy ((State.report_spec h.inv h.tidy hc env).fault hnone)

/-- A report that finds nodes for all its copies. -/
theorem State.Settled.report {s : State} {g : Contents} (h : s.Settled g) {c : Command}
    (hc : c.isReport) {env : CommandEnv} {x : ℤ × State} (hrun : c.exec env s = some x)
    (hnodes : (s.nodesFor (c.copies s)).length = c.copies s) :
    x.1 = 0 ∧ s.Untouched x.2 ∧ ∃ es, x.2.trace = s.trace ++ es ∧ (copiedNodes es).Nodup ∧
      (releasedNodes es).Perm (copiedNodes es) := by
  rcases (State.report_spec h.inv h.tidy hc env).value x hrun with
    ⟨-, hret, ⟨es, hconfined, hnodup, -⟩, -⟩ | ⟨hfew, -⟩
  · refine ⟨hret, hconfined.untouched h.inv h.tidy, es, hconfined.trace_eq, hnodup, ?_⟩
    exact ((List.perm_append_right_iff _).1 hconfined.balance).symm
  · exact absurd hnodes hfew

/-- A report returns, if its counters do not overflow. If the pool has nodes for all copies that it
makes, it leaves everything untouched, and gives back the nodes that it has taken, and no others,
each of them once, whether or not it gets the buffer to sort in. -/
theorem reports_pure {s : State} (hs : MappedReachable s) {c : Command} (hc : c.isReport)
    (env : CommandEnv) : (c.exec env s = none → s.Unwieldy) ∧
      ∀ ret t, c.exec env s = some (ret, t) → (s.nodesFor (c.copies s)).length = c.copies s →
        ret = 0 ∧ s.Untouched t ∧ ∃ es, t.trace = s.trace ++ es ∧ (copiedNodes es).Nodup ∧
          (releasedNodes es).Perm (copiedNodes es) := by
  obtain ⟨g, hg⟩ := hs.settled
  exact ⟨hg.report_fault hc, fun ret t hrun hnodes ↦ hg.report hc hrun hnodes⟩

/-- A run with hooks enabled in which metadata is there. -/
theorem HookedReachable.mapped {s : State} (hs : HookedReachable s) : MappedReachable s := by
  obtain ⟨k, mem, hk, hrun⟩ := hs
  suffices h : MappedReachable s ∧ .mmapFailed ∉ s.trace from h.1
  induction hrun with
  | refl => exact ⟨⟨k, mem, hk, .refl⟩, List.not_mem_nil⟩
  | tail hrun hstep ih =>
    obtain ⟨⟨k', mem', hk', hrun'⟩, hsupply⟩ := ih
    obtain ⟨g, hinv, -, h0⟩ := HookedReachable.inv ⟨k, mem, hk, hrun⟩
    obtain ⟨a, hok, hexec⟩ := hstep.action hinv h0
    have hmapped := hstep.supply hsupply
    exact ⟨⟨k', mem', hk', hrun'.tail ⟨.action a, hok, hexec, hmapped⟩⟩, hmapped⟩

/-- One live block and no snapshot. The comparison by callstack is refused the buffer to sort in. -/
theorem reports_pure_oneBlock : ∃ (s : State) (n : ℕ) (t : State),
    s.blocks.tableNodes .live = [n] ∧
      Command.compareWithSnapshotPerCallstack.exec ⟨fun _ ↦ false⟩ s = some (0, t) ∧
      s.Untouched t ∧ ∃ es, t.trace = s.trace ++ es ∧ (copiedNodes es).Nodup ∧
        (releasedNodes es).Perm (copiedNodes es) := by
  obtain ⟨s, g, n, c, h⟩ := State.exists_oneBlock
  have hc : Command.compareWithSnapshotPerCallstack.isReport := rfl
  obtain ⟨t, hrun⟩ := h.exists_report hc ⟨fun _ ↦ false⟩
  have hnodes : (s.nodesFor (Command.compareWithSnapshotPerCallstack.copies s)).length =
      Command.compareWithSnapshotPerCallstack.copies s := by
    rw [h.copies_eq hc, h.length_nodesFor]
  exact ⟨s, n, t, h.tableNodes_live, hrun,
    ((reports_pure h.hooked.mapped hc ⟨fun _ ↦ false⟩).2 0 t hrun hnodes).2⟩

end Memchk
