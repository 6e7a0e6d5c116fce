import Memchk.CommandRun
import Memchk.Library.Steps

/-!
# Cleaning up after a failure

When a command returns, the two tables that commands copy to should be empty, and so should the
lists of all callstacks; the snapshot should be what it was, or a copy of all live blocks if one was
made (`Command.Clean`). This is so exactly if the pool has nodes for all copies that the command
makes or for none of them, and if the comparison by callstack gets its sort buffer or finds nothing
changed (`commands_clean_iff`).

## What goes wrong

Two paths of the commands return early without giving everything back. A copy that runs out of nodes
in the middle leaves the copies made by then in the table, and the command prints that it had no
memory. And the comparison by callstack, when the array that it sorts could not be allocated,
returns with the blocks that are left over still linked.

## Spared commands

The condition is on the state and the environment before the command (`Command.Spared`): how many
nodes the pool would still give, and whether the sort buffer is granted where it is needed. It does
not run the command. As the next command starts in the state that this one leaves, a run of spared
commands is one in which every command is clean (`SparedReachable`). Seen as a list of steps, a run
has only clean commands exactly if it has only spared ones (`commandRun_clean_iff`), and there are
runs that have others (`not_commandRun_clean`).

## Runs

Calls, stores and changes of the mode leave the tables of the commands alone, so a run may mix them
with commands in any order. The states with one block at the end are where the witnesses start.
-/

namespace Memchk

namespace State

/-- The blocks in a table. -/
def contents (id : TableId) (s : State) : List AllocRecord :=
  (s.blocks.tableNodes id).map s.blocks.record

/-- No bucket of the table has a node. -/
def IsEmpty (id : TableId) (s : State) : Prop :=
  ∀ i ∈ tableIndices allocMemptrHashtableSize, s.blocks.table id i = 0

end State

namespace Command

/-- Nothing is left of the command but, possibly, a snapshot of all live blocks. -/
structure Clean (c : Command) (s : State) (ret : ℤ) (t : State) : Prop where
  liveCopy : t.IsEmpty .liveCopy
  snapshotCopy : t.IsEmpty .snapshotCopy
  head : ∀ link, ∀ d ∈ t.callstacks.tableNodes, t.head link d = 0
  snapshot : (t.contents .snapshot).Perm (s.contents .snapshot) ∨
    c = .createSnapshot ∧ ret = 0 ∧ (t.contents .snapshot).Perm (t.contents .live)

/-- The pool has nodes for all copies that the command makes, or for none of them, and the command
gets its sort buffer where blocks are still linked. A snapshot that is not made as a whole happens
to have the blocks of the old one. -/
def Spared (env : CommandEnv) (s : State) : Command → Prop
  | .createSnapshot =>
    let new := (s.destroyed .snapshot).nodesFor (createSnapshot.copies s)
    new.length = createSnapshot.copies s ∨
      ((s.contents .live).take new.length).Perm (s.contents .snapshot)
  | .destroySnapshot => True
  | c => (s.nodesFor (c.copies s)).length = 0 ∨
    (s.nodesFor (c.copies s)).length = c.copies s ∧ ¬c.Strands env s

end Command

namespace State

variable {s t : State} {g g' : Contents} {c : Command} {env : CommandEnv} {es : List Event}
  {id : TableId}

/-! ### One command -/

theorem isEmpty_iff {L : TableId → List ℕ} (h : t.blocks.Holds L) : t.IsEmpty id ↔ L id = [] :=
  (h.table id).eq_nil_iff.symm

theorem contents_perm {L : TableId → List ℕ} (h : t.blocks.Holds L) (id : TableId) :
    (t.contents id).Perm ((L id).map t.blocks.record) :=
  (h.tableNodes_perm id).map _

/-- The blocks of a table that a part of a command has not used. -/
theorem Confined.contents_eq {ids : List TableId} {L L' : TableId → List ℕ}
    (h : Confined ids s L es t L') (hs : s.blocks.Holds L) (hid : id ∉ ids) :
    t.contents id = s.contents id := by
  rw [contents, h.tableNodes_eq hs hid]
  exact List.map_congr_left fun n hn ↦ (h.sameAt hs hid (hs.mem_tableNodes.1 hn)).record_eq

/-- The lists of all callstacks are empty. -/
theorem forall_head_iff (h : t.callstacks.Holds g.callstacks) :
    (∀ link, ∀ d ∈ t.callstacks.tableNodes, t.head link d = 0) ↔
      ∀ link, ∀ d ∈ g.callstacks, t.head link d = 0 :=
  forall_congr' fun _ ↦ forall_congr' fun _ ↦ by rw [h.tableNodes_perm.mem_iff]

/-- A report is clean if it has emptied the tables and the lists that it has used. -/
theorem clean_iff {C S : List ℕ} {ret : ℤ} (hinv : s.Inv g)
    (hconfined : Confined scratch s g.nodes es t (withCopies g.nodes C S)) :
    c.Clean s ret t ↔ (C = [] ∧ S = []) ∧ ∀ link, ∀ d ∈ g.callstacks, t.head link d = 0 := by
  have hcs : t.callstacks.Holds g.callstacks := hconfined.callstacks.holds hinv.callstacks
  have hlive : t.IsEmpty .liveCopy ↔ C = [] := isEmpty_iff hconfined.holds
  have hsnapshot : t.IsEmpty .snapshotCopy ↔ S = [] := isEmpty_iff hconfined.holds
  have hsame : t.contents .snapshot = s.contents .snapshot :=
    hconfined.contents_eq hinv.blocks (by decide)
  rw [← forall_head_iff hcs, ← hlive, ← hsnapshot]
  exact ⟨fun h ↦ ⟨⟨h.liveCopy, h.snapshotCopy⟩, h.head⟩,
    fun h ↦ ⟨h.1.1, h.1.2, h.2, .inl (hsame ▸ List.Perm.refl _)⟩⟩

/-- If there is nothing to copy, nothing has changed. -/
theorem not_strands (hlen : c.copies s = 0) : ¬c.Strands env s := by
  rintro ⟨rfl, -, hkinds⟩
  obtain ⟨hlive, hsnapshot⟩ := Nat.add_eq_zero_iff.1 hlen
  refine hkinds ?_
  rw [KindsAgree, List.length_eq_zero_iff.1 hlive, List.length_eq_zero_iff.1 hsnapshot]

/-- A report is clean exactly if it was spared. -/
theorem report_clean_iff (h : s.Inv g) (ht : s.Tidy g) (hc : c.isReport) {x : ℤ × State}
    (hrun : c.exec env s = some x) : c.Clean s x.1 x.2 ↔ c.Spared env s := by
  have hspared : c.Spared env s ↔ (s.nodesFor (c.copies s)).length = 0 ∨
      (s.nodesFor (c.copies s)).length = c.copies s ∧ ¬c.Strands env s := by
    cases c <;> first | exact Iff.rfl | cases hc
  rw [hspared]
  rcases (report_spec h ht hc env).value x hrun with
    ⟨hlen, -, ⟨es, hconfined, -, -⟩, hhead⟩ | ⟨hlen, -, C, S, hsum, ⟨es, hconfined, -⟩, hhead⟩
  · have hnone : Confined scratch s g.nodes es x.2 (withCopies g.nodes [] []) := by
      rw [ht.withCopies_eq]
      exact hconfined
    rw [clean_iff h hnone, hhead, hlen]
    exact ⟨fun h ↦ .inr ⟨rfl, h.2⟩,
      fun h ↦ ⟨⟨rfl, rfl⟩, h.elim not_strands And.right⟩⟩
  · rw [clean_iff h hconfined, ← hsum, Nat.add_eq_zero_iff, List.length_eq_zero_iff,
      List.length_eq_zero_iff]
    rw [← hsum] at hlen
    exact ⟨fun h ↦ .inl h.1, fun h ↦ ⟨h.resolve_right fun h ↦ hlen h.1, hhead⟩⟩

/-- What is in the snapshot after it has been made. -/
theorem Recreated.contents_perm {new : List ℕ} {ret : ℤ} (h : Recreated s g new ret t) :
    (t.contents .snapshot).Perm ((s.contents .live).take new.length) := by
  obtain ⟨es, hconfined, -⟩ := h.confined
  refine (State.contents_perm hconfined.holds .snapshot).trans ?_
  rw [Function.update_self, contents, ← List.map_take, ← h.record]
  exact (List.reverse_perm new).map _

/-- Making a snapshot is clean exactly if it was spared. -/
theorem createSnapshot_clean_iff (h : s.Inv g) (ht : s.Tidy g) {x : ℤ × State}
    (hrun : s.mcCreateSnapshot = some x) :
    Command.createSnapshot.Clean s x.1 x.2 ↔ Command.createSnapshot.Spared env s := by
  obtain ⟨new, ret, t, heq, hnew⟩ := createSnapshot_spec h.blocks
  obtain rfl : (ret, t) = x := Option.some.inj (heq.symm.trans hrun)
  obtain ⟨es, hconfined, -⟩ := hnew.confined
  have hcopies : Command.createSnapshot.copies s = (g.nodes .live).length :=
    (h.blocks.tableNodes_perm .live).length_eq
  have hspared : Command.createSnapshot.Spared env s ↔ new.length = (g.nodes .live).length ∨
      ((s.contents .live).take new.length).Perm (s.contents .snapshot) := by
    rw [Command.Spared, hcopies, hnew.nodesFor_eq]
  have hret : ret = 0 ↔ new.length = (g.nodes .live).length := by
    rw [hnew.ret_eq]
    split_ifs with hlen <;> simp [hlen]
  have hlive : t.contents .live = s.contents .live := hconfined.contents_eq h.blocks (by decide)
  have hall : new.length = (g.nodes .live).length →
      (s.contents .live).take new.length = s.contents .live := by
    intro hlen
    rw [hlen, ← (h.blocks.tableNodes_perm .live).length_eq, contents, ← List.map_take,
      List.take_length]
  rw [hspared]
  constructor
  · intro hclean
    rcases hclean.snapshot with hsame | ⟨-, hzero, -⟩
    · exact .inr (hnew.contents_perm.symm.trans hsame)
    · exact .inl (hret.1 hzero)
  · intro hor
    refine ⟨(isEmpty_iff hconfined.holds).2 ht.liveCopy,
      (isEmpty_iff hconfined.holds).2 ht.snapshotCopy, ?_, ?_⟩
    · rw [forall_head_iff (hconfined.callstacks.holds h.callstacks), head_congr hnew.callstacks]
      exact ht.head
    · rcases hor with hlen | hsame
      · refine .inr ⟨rfl, hret.2 hlen, ?_⟩
        rw [hlive, ← hall hlen]
        exact hnew.contents_perm
      · exact .inl (hnew.contents_perm.trans hsame)

/-- A command is clean exactly if it is spared. -/
theorem command_clean_iff (h : s.Inv g) (ht : s.Tidy g) (hc : c ≠ .destroySnapshot) {x : ℤ × State}
    (hrun : c.exec env s = some x) : c.Clean s x.1 x.2 ↔ c.Spared env s := by
  cases c with
  | createSnapshot => exact createSnapshot_clean_iff h ht hrun
  | destroySnapshot => exact absurd rfl hc
  | printAllMemblk | printAllMemblkPerCallstack | compareWithSnapshot
  | compareWithSnapshotPerCallstack => exact report_clean_iff h ht rfl hrun

/-! ### Runs -/

/-- A report that is spared leaves everything as it was. -/
theorem Inv.report (h : s.Inv g) (ht : s.Tidy g) (hc : c.isReport) {x : ℤ × State}
    (hrun : c.exec env s = some x) (hspared : c.Spared env s) :
    ∃ es, Confined scratch s g.nodes es x.2 g.nodes ∧
      ∀ link, ∀ d ∈ g.callstacks, x.2.head link d = 0 := by
  have hclean := (report_clean_iff h ht hc hrun).2 hspared
  obtain ⟨C, S, es, hconfined⟩ : ∃ C S es,
      Confined scratch s g.nodes es x.2 (withCopies g.nodes C S) := by
    rcases (report_spec h ht hc env).value x hrun with
      ⟨-, -, ⟨es, hconfined, -⟩, -⟩ | ⟨-, -, C, S, -, ⟨es, hconfined, -⟩, -⟩
    · refine ⟨[], [], es, ?_⟩
      rw [ht.withCopies_eq]
      exact hconfined
    · exact ⟨C, S, es, hconfined⟩
  obtain ⟨⟨rfl, rfl⟩, hhead⟩ := (clean_iff h hconfined).1 hclean
  rw [ht.withCopies_eq] at hconfined
  exact ⟨es, hconfined, hhead⟩

/-- A command that gives back the snapshot, and may make another one, leaves the rest as it was. -/
theorem Tidy.resnapshot (ht : s.Tidy g) (h : s.Inv g) {ns : List ℕ}
    (hconfined : Confined [.snapshot] s g.nodes es t (Function.update g.nodes .snapshot ns))
    (hcallstacks : t.callstacks = s.callstacks) (hdistinct : t.blocks.Distinct ns) :
    ∃ g', t.Inv g' ∧ t.Tidy g' ∧ (s.Attributed g → t.Attributed g') := by
  refine ⟨_, h.confined hconfined (by decide), ⟨ht.liveCopy, ht.snapshotCopy, ?_, ?_⟩,
    fun hattr ↦ hattr.confined hconfined⟩
  · rw [head_congr hcallstacks]
    exact ht.head
  · simp only [Function.update_self]
    exact hdistinct

/-- A command that is spared leaves a tidy state. -/
theorem Inv.command (h : s.Inv g) (ht : s.Tidy g) {x : ℤ × State} (hrun : c.exec env s = some x)
    (hspared : c.Spared env s) :
    ∃ g', x.2.Inv g' ∧ x.2.Tidy g' ∧ (s.Attributed g → x.2.Attributed g') := by
  by_cases hc : c.isReport
  · obtain ⟨es, hconfined, hhead⟩ := h.report ht hc hrun hspared
    exact ⟨g, h.confined hconfined (by decide), (hconfined.undisturbed h ht hhead).tidy ht,
      fun hattr ↦ hattr.confined hconfined⟩
  cases c with
  | createSnapshot =>
    obtain ⟨new, ret, t, heq, hnew⟩ := createSnapshot_spec h.blocks
    obtain rfl : (ret, t) = x := Option.some.inj (heq.symm.trans hrun)
    obtain ⟨es, hconfined, -⟩ := hnew.confined
    have hsub : ∀ {n}, n ∈ (s.blocks.tableNodes .live).take new.length → n ∈ g.nodes .live :=
      fun hn ↦ h.blocks.mem_tableNodes.1 (List.mem_of_mem_take hn)
    have hnodup : (s.blocks.tableNodes .live).Nodup :=
      (h.blocks.tableNodes_perm .live).nodup_iff.2 (h.blocks.table .live).nodup
    exact ht.resnapshot h hconfined hnew.callstacks (distinct_of_map
      (hnodup.sublist (List.take_sublist _ _)) (fun _ hm _ hn ↦ h.live_inj (hsub hm) (hsub hn))
      hnew.record)
  | destroySnapshot =>
    obtain rfl : (0, s.destroyed .snapshot) = x := by
      rw [Command.exec, mcDestroySnapshot, destroy_eq h.blocks] at hrun
      exact Option.some.inj hrun
    exact ht.resnapshot h (confined_destroyed h.blocks .snapshot)
      (callstacks_destroyed .snapshot s) fun _ hm ↦ absurd hm List.not_mem_nil
  | printAllMemblk | printAllMemblkPerCallstack | compareWithSnapshot
  | compareWithSnapshotPerCallstack => exact absurd rfl hc

end State

/-- If the step is a command, it is spared. -/
def Step.Spared (s : State) : Step → Prop
  | .action _ => True
  | .command env c => c.Spared env s

/-- The states that runs lead to in which all commands are spared. -/
def SparedReachable (s : State) : Prop :=
  ∃ k mem, k.Ok ∧ Relation.ReflTransGen
    (fun s t ↦ ∃ a : Step, a.Ok s ∧ a.Spared s ∧ a.exec s = some t) (State.init k mem) s

namespace State

variable {s t : State} {g : Contents}

/-- At the start the tables of the commands are empty. -/
theorem tidy_init (k : Kernel) (mem : ℕ → UInt8) :
    (State.init k mem).Tidy ⟨fun _ ↦ [], [], []⟩ where
  liveCopy := rfl
  snapshotCopy := rfl
  head _ _ hc := absurd hc List.not_mem_nil
  distinct _ hm := absurd hm List.not_mem_nil

/-- A step in which a command is spared leaves a tidy state. -/
theorem Inv.step (h : s.Inv g) (ht : s.Tidy g) {a : Step} (hok : a.Ok s) (hspared : a.Spared s)
    (hexec : a.exec s = some t) : ∃ g', t.Inv g' ∧ t.Tidy g' ∧
      (s.Attributed g → .mmapFailed ∉ t.trace → t.Attributed g') := by
  cases a with
  | action a =>
    obtain ⟨g', hinv, hun, hattr⟩ := h.action_undisturbed hok hexec
    exact ⟨g', hinv, hun.tidy ht, hattr⟩
  | command env c =>
    obtain ⟨x, hrun, rfl⟩ := Option.map_eq_some_iff.1 hexec
    obtain ⟨g', hinv, htidy, hattr⟩ := h.command ht hrun hspared
    exact ⟨g', hinv, htidy, fun h _ ↦ hattr h⟩

end State

/-- A run without commands is one of spared commands. -/
theorem Reachable.spared {s : State} (hs : Reachable s) : SparedReachable s := by
  obtain ⟨k, mem, hk, hrun⟩ := hs
  refine ⟨k, mem, hk, Relation.ReflTransGen.mono (fun s t h ↦ ?_) _ _ hrun⟩
  obtain ⟨a, hok, hexec⟩ := h
  exact ⟨.action a, hok, trivial, hexec⟩

/-- As long as commands are spared, nothing is left of them. -/
theorem SparedReachable.tidy {s : State} (hs : SparedReachable s) : ∃ g, s.Inv g ∧ s.Tidy g := by
  obtain ⟨k, mem, hk, hrun⟩ := hs
  induction hrun with
  | refl => exact ⟨_, State.inv_init hk mem, State.tidy_init k mem⟩
  | tail _ hstep ih =>
    obtain ⟨g, hinv, htidy⟩ := ih
    obtain ⟨a, hok, hspared, hexec⟩ := hstep
    obtain ⟨g', hinv', htidy', -⟩ := hinv.step htidy hok hspared hexec
    exact ⟨g', hinv', htidy'⟩

/-- After any run in which all commands were spared, the next command is clean exactly if it is
spared, too. -/
theorem commands_clean_iff {s : State} (hs : SparedReachable s) {env : CommandEnv} {c : Command}
    (hc : c ≠ .destroySnapshot) {x : ℤ × State} (hrun : c.exec env s = some x) :
    c.Clean s x.1 x.2 ↔ c.Spared env s := by
  obtain ⟨g, hinv, htidy⟩ := hs.tidy
  exact State.command_clean_iff hinv htidy hc hrun

/-- If the step is a command that returns, it leaves nothing behind. A command that gives back the
snapshot is meant to change it. -/
def Step.Clean (s t : State) : Step → Prop
  | .action _ => True
  | .command env c => c = .destroySnapshot ∨ ∀ ret, c.exec env s = some (ret, t) → c.Clean s ret t

/-- A step is clean exactly if it is spared. -/
theorem State.step_clean_iff {s t : State} {g : Contents} (h : s.Inv g) (ht : s.Tidy g) {a : Step}
    (hexec : a.exec s = some t) : a.Clean s t ↔ a.Spared s := by
  cases a with
  | action a => exact Iff.rfl
  | command env c =>
    obtain ⟨⟨ret, u⟩, hrun, rfl⟩ := Option.map_eq_some_iff.1 hexec
    by_cases hc : c = .destroySnapshot
    · subst hc
      exact iff_of_true (.inl rfl) trivial
    · rw [Step.Clean, Step.Spared, ← command_clean_iff h ht hc hrun]
      refine ⟨fun hclean ↦ (hclean.resolve_left hc) ret hrun, fun hclean ↦ .inr fun ret' hrun' ↦ ?_⟩
      rw [hrun, Option.some.injEq, Prod.mk.injEq] at hrun'
      exact hrun'.1 ▸ hclean

/-- In a run from the start, with any failures of allocation, all commands are clean exactly if all
of them are spared. -/
theorem commandRun_clean_iff {k : Kernel} (hk : k.Ok) (mem : ℕ → UInt8) (as : List Step)
    (hok : ∀ x ∈ steps Step.exec as (State.init k mem), x.2.1.Ok x.1) :
    (∀ x ∈ steps Step.exec as (State.init k mem), x.2.1.Clean x.1 x.2.2) ↔
      ∀ x ∈ steps Step.exec as (State.init k mem), x.2.1.Spared x.1 := by
  have hstart : ∃ g, (State.init k mem).Inv g ∧ (State.init k mem).Tidy g :=
    ⟨_, State.inv_init hk mem, State.tidy_init k mem⟩
  refine @forall_good_iff _ _ Step.exec (fun s ↦ ∃ g, s.Inv g ∧ s.Tidy g) _ _
    (fun s a t ↦ a.Clean s t) (fun s a t hs hlegal hexec ↦ ?_) as _ hstart hok
  obtain ⟨g, hinv, htidy⟩ := hs
  have hiff := State.step_clean_iff hinv htidy hexec
  refine ⟨hiff, fun hclean ↦ ?_⟩
  obtain ⟨g', hinv', htidy', -⟩ := hinv.step htidy hlegal (hiff.1 hclean) hexec
  exact ⟨g', hinv', htidy'⟩

/-- A pool that has nodes for all copies has one for the first. -/
theorem State.hasNode_of_length_nodesFor {s : State} {k : ℕ}
    (h : (s.nodesFor (k + 1)).length = k + 1) :
    s.HasNode := by
  rw [State.nodesFor, takeNodes] at h
  rcases halloc : mcAllocateAllocMemblk s.blocks.pool with - | ⟨n, pool⟩
  · rw [halloc] at h
    cases h
  · refine ⟨n, pool, halloc, fun hnull ↦ ?_⟩
    rw [halloc] at h
    simp [hnull] at h

/-- A state with one live block of 16 bytes, the node `n`, with nodes for more. The callstack `c`
that it was allocated from is empty. -/
structure State.OneBlock (s : State) (g : Contents) (n c : ℕ) : Prop where
  resting : Resting 1048640 s g
  supply : .mmapFailed ∉ s.trace
  tidy : s.Tidy g
  attributed : s.Attributed g
  fair : ¬s.Faulty g
  live : g.nodes .live = [n]
  snapshot : g.nodes .snapshot = []
  record : s.blocks.record n = ⟨1048592, ⟨1048576, 48, 16⟩, c⟩
  callstacks : c ∈ g.callstacks
  trace : (s.callstacks.node c).trace = []
  few : g.callstacks.length ≤ 1
  room : (s.nodesFor 8).length = 8

/-- A run of one allocation leads to such a state. -/
theorem State.exists_oneBlock : ∃ s g n c, State.OneBlock s g n c := by
  obtain ⟨s, g, n, c, hs, hrec, hc, -, -⟩ := resting_oneBlock
  have hroom : (s.nodesFor 8).length = 8 := by
    have hall : (takeNodes mcAllocateAllocMemblk (1 + 8) State.start.blocks.pool).1.length =
        1 + 8 := by
      decide +kernel
    have halloc : mcAllocateAllocMemblk State.start.blocks.pool = some (n, s.blocks.pool) :=
      hrec.allocated
    have hmem : n ∈ g.nodes .live := by
      rw [hrec.nodes, Function.update_self]
      exact List.mem_cons_self
    have htake : takeNodes mcAllocateAllocMemblk 1 State.start.blocks.pool =
        ([n], s.blocks.pool) := by
      simp [takeNodes, halloc, hrec.inv.blocks.ne_null hmem]
    exact (length_takeNodes_of_add htake hall).2
  have hlive : g.nodes .live = [n] := by rw [hrec.nodes, Function.update_self]
  have hsnapshot : g.nodes .snapshot = [] := by
    rw [hrec.nodes, Function.update_of_ne (by decide)]
  have hallocator : (s.blocks.record n).allocator = c := by rw [hrec.record]
  have hstart : State.start.Attributed ⟨fun _ ↦ [], [], []⟩ := ⟨by simp, by simp⟩
  have horig : (State.start.origMalloc (Env.handing 1048576) 48).2.Attributed
      ⟨fun _ ↦ [], [], []⟩ :=
    hstart.congr rfl rfl
  have hattr : s.Attributed g := horig.recorded hrec hc
  have htidy : s.Tidy g := by
    have hquiet : State.start.Undisturbed ⟨fun _ ↦ [], [], []⟩
        (State.start.origMalloc (Env.handing 1048576) 48).2 ⟨fun _ ↦ [], [], []⟩ :=
      .of_eq rfl rfl (fun _ _ ↦ rfl) rfl
    exact (hquiet.trans hrec.undisturbed).tidy (State.tidy_init _ _)
  have hsupply : .mmapFailed ∉ s.trace := State.supply_recorded hrec hc List.not_mem_nil
  obtain ⟨hmem, htrace⟩ := hrec.interned.result.resolve_left hc
  have hfew : g.callstacks.length ≤ 1 := hrec.interned.length_le
  refine ⟨s, g, n, c, hs, hsupply, htidy, hattr, ?_, hlive, hsnapshot, hrec.record, hmem, htrace,
    hfew, hroom⟩
  rintro (⟨id, hid, hfault⟩ | hlong)
  · rcases List.mem_cons.1 hid with rfl | hid
    · simp [hlive, hallocator, hc] at hfault
    · obtain rfl := List.mem_singleton.1 hid
      simp [hsnapshot] at hfault
  · omega

namespace State.OneBlock

variable {s : State} {g : Contents} {n c : ℕ}

theorem hooked (h : s.OneBlock g n c) : HookedReachable s :=
  h.resting.hooked h.supply

theorem inv (h : s.OneBlock g n c) : s.Inv g :=
  h.resting.inv

theorem tableNodes_live (h : s.OneBlock g n c) : s.blocks.tableNodes .live = [n] := by
  have hperm := h.inv.blocks.tableNodes_perm .live
  rwa [h.live, List.perm_singleton] at hperm

theorem tableNodes_snapshot (h : s.OneBlock g n c) : s.blocks.tableNodes .snapshot = [] := by
  have hperm := h.inv.blocks.tableNodes_perm .snapshot
  rwa [h.snapshot, List.perm_nil] at hperm

/-- There is a node for a copy of the block. -/
theorem length_nodesFor (h : s.OneBlock g n c) : (s.nodesFor 1).length = 1 :=
  (length_takeNodes_of_add (a := 1) (b := 7) rfl h.room).1

/-- Every report copies the block. -/
theorem copies_eq (h : s.OneBlock g n c) {k : Command} (hk : k.isReport) : k.copies s = 1 := by
  cases k <;> first | exact absurd hk (by decide) |
    simp [Command.copies, h.tableNodes_live, h.tableNodes_snapshot]

/-- Every report returns, and finds a node for its copy. -/
theorem exists_report (h : s.OneBlock g n c) {k : Command} (hk : k.isReport) (env : CommandEnv) :
    ∃ t, k.exec env s = some (0, t) := by
  obtain ⟨⟨ret, t⟩, hrun, hx⟩ := (State.report_spec h.inv h.tidy hk env).exists_of_not h.fair
  rcases hx with ⟨-, rfl, -⟩ | ⟨hfew, -⟩
  · exact ⟨t, hrun⟩
  · exact absurd (by rw [h.copies_eq hk, h.length_nodesFor]) hfew

end State.OneBlock

/-- A run of one allocation and the comparison by callstack, which gets no sort buffer: it is not
spared, and leaves the list of the callstack. -/
theorem commands_clean_iff_oneBlock : ∃ (s : State) (env : CommandEnv) (x : ℤ × State),
    Command.compareWithSnapshotPerCallstack.exec env s = some x ∧
      ¬Command.compareWithSnapshotPerCallstack.Clean s x.1 x.2 := by
  obtain ⟨s, g, n, c, h⟩ := State.exists_oneBlock
  let env : CommandEnv := ⟨fun _ ↦ false⟩
  obtain ⟨x, hrun, -⟩ := (State.report_spec (c := .compareWithSnapshotPerCallstack) h.inv h.tidy rfl
    env).exists_of_not h.fair
  refine ⟨s, env, x, hrun, ?_⟩
  rw [commands_clean_iff h.resting.reachable.spared (by decide) hrun]
  have hcopies : Command.compareWithSnapshotPerCallstack.copies s = 1 := h.copies_eq rfl
  rintro (hzero | ⟨-, hnot⟩)
  · rw [hcopies, h.length_nodesFor] at hzero
    exact absurd hzero (by decide)
  · refine hnot ⟨rfl, rfl, fun hkinds ↦ ?_⟩
    have hlen := hkinds.length_eq
    rw [List.length_map, List.length_map, h.tableNodes_live, h.tableNodes_snapshot] at hlen
    simp at hlen

/-- The run to the state with one block, and one command. -/
theorem exists_commandRun (env : CommandEnv) {c : Command} (hc : c.isReport) :
    ∃ (k : Kernel) (mem : ℕ → UInt8) (as : List Step) (s t : State) (g : Contents) (n d : ℕ),
      k.Ok ∧ (∀ x ∈ steps Step.exec as (State.init k mem), x.2.1.Ok x.1) ∧ s.OneBlock g n d ∧
        c.exec env s = some (0, t) ∧
        (s, .command env c, t) ∈ steps Step.exec as (State.init k mem) ∧
        ∀ x ∈ steps Step.exec as (State.init k mem), x = (s, .command env c, t) ∨
          ∃ a, x.2.1 = .action a := by
  obtain ⟨s, g, n, d, h⟩ := State.exists_oneBlock
  obtain ⟨t, hrun⟩ := h.exists_report hc env
  obtain ⟨k, mem, hk, hreach⟩ := h.resting.reachable
  have hexec : (Step.command env c).exec s = some t := by
    rw [Step.exec, hrun]
    rfl
  have hrun' : Relation.ReflTransGen (fun s t ↦ ∃ a : Step, (a.Ok s ∧ ∃ b, a = .action b) ∧
      a.exec s = some t) (State.init k mem) s := by
    refine Relation.ReflTransGen.mono (fun s t h ↦ ?_) _ _ hreach
    obtain ⟨a, hok, hexec⟩ := h
    exact ⟨.action a, ⟨hok, a, rfl⟩, hexec⟩
  obtain ⟨as, has, happend⟩ := exists_steps hrun'
  have hsteps : steps Step.exec (as ++ [.command env c]) (State.init k mem) =
      steps Step.exec as (State.init k mem) ++ [(s, .command env c, t)] := by
    rw [happend, steps_cons_of_some hexec]
    rfl
  refine ⟨k, mem, as ++ [.command env c], s, t, g, n, d, hk, ?_, h, hrun, ?_, ?_⟩
  · rw [hsteps, List.forall_mem_append]
    exact ⟨fun x hx ↦ (has x hx).1, by simp [Step.Ok]⟩
  · rw [hsteps]
    simp
  · rw [hsteps, List.forall_mem_append]
    exact ⟨fun x hx ↦ .inr (has x hx).2, by simp⟩

/-- A run of one allocation and the comparison by callstack, which gets no sort buffer: it leaves
the list of the callstack. -/
theorem not_commandRun_clean : ∃ (k : Kernel) (mem : ℕ → UInt8) (as : List Step), k.Ok ∧
    (∀ x ∈ steps Step.exec as (State.init k mem), x.2.1.Ok x.1) ∧
    ¬∀ x ∈ steps Step.exec as (State.init k mem), x.2.1.Clean x.1 x.2.2 := by
  obtain ⟨k, mem, as, s, t, g, n, d, hk, hok, h, hrun, hmem, -⟩ :=
    exists_commandRun ⟨fun _ ↦ false⟩ (c := .compareWithSnapshotPerCallstack) rfl
  refine ⟨k, mem, as, hk, hok, fun hclean ↦ ?_⟩
  have hspared := (State.report_clean_iff h.inv h.tidy rfl hrun).1
    (((hclean _ hmem).resolve_left (by decide)) 0 hrun)
  have hcopies : Command.compareWithSnapshotPerCallstack.copies s = 1 := h.copies_eq rfl
  rcases hspared with hzero | ⟨-, hnot⟩
  · rw [hcopies, h.length_nodesFor] at hzero
    exact absurd hzero (by decide)
  · refine hnot ⟨rfl, rfl, fun hkinds ↦ ?_⟩
    have hlen := hkinds.length_eq
    rw [List.length_map, List.length_map, h.tableNodes_live, h.tableNodes_snapshot] at hlen
    simp at hlen

/-- A run of one allocation and the report of all blocks, which finds a node for its copy. -/
theorem commandRun_clean_iff_oneBlock : ∃ (k : Kernel) (mem : ℕ → UInt8) (as : List Step)
    (s t : State), (s.blocks.tableNodes .live).length = 1 ∧
    (s, .command ⟨fun _ ↦ false⟩ .printAllMemblk, t) ∈ steps Step.exec as (State.init k mem) ∧
    ∀ x ∈ steps Step.exec as (State.init k mem), x.2.1.Clean x.1 x.2.2 := by
  obtain ⟨k, mem, as, s, t, g, n, d, hk, hok, h, hrun, hmem, hall⟩ :=
    exists_commandRun ⟨fun _ ↦ false⟩ (c := .printAllMemblk) rfl
  refine ⟨k, mem, as, s, t, by rw [h.tableNodes_live]; rfl, hmem,
    (commandRun_clean_iff hk mem as hok).2 fun x hx ↦ ?_⟩
  rcases hall x hx with rfl | ⟨a, ha⟩
  · exact .inr ⟨by rw [h.copies_eq rfl, h.length_nodesFor], fun hs ↦ absurd hs.1 (by decide)⟩
  · rw [ha]
    trivial

end Memchk
