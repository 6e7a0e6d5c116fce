import Memchk.Printing

/-!
# What the commands leave alone

A command copies nodes, links them into lists, cancels copies and gives nodes back, all of it in the
tables that it uses as scratch. `Confined ids s L es t L'` says so of a part of a command that uses
the tables `ids`: it led from `s`, where the tables hold `L`, to `t`, where they hold `L'`; it left
the trace `es`; and whatever is not in these tables is the same. No node is lost on the way: each
node copied and not given back is in one of the tables (`Confined.balance`).

## The trace of a command

A command prints lines and marks the nodes it takes and gives back. A part of a trace is `Quiet` if
it marks no node; all lines of a report are. The account of the nodes is then read off the marks:
`copiedNodes` and `releasedNodes` of the trace, against the nodes of the four tables.

## Composing

`Confined` is made to be composed: parts one after the other are confined to the tables of both
(`Confined.trans`, after `Confined.mono`), a line printed or a sum stored in a callstack keeps it
(`Confined.emit`, `Confined.resummed`), and so does relinking nodes of the scratch tables
(`Confined.relinked`). Each loop of a command is confined by the lemma about that loop, and a
command by putting these together.

## What is read off it

A table that is no scratch table has the same nodes, in the same order, with the same contents
(`Confined.tableNodes_eq`, `Confined.sameAt`). For a command that returns normally the scratch
tables are empty again, and the balance says that every node copied was given back.
-/

namespace Memchk

/-- The nodes of all tables. -/
def allNodes (L : TableId → List ℕ) : List ℕ :=
  L .live ++ (L .liveCopy ++ (L .snapshot ++ L .snapshotCopy))

/-- The entry is a line that a command prints, or says that there was no memory for it. -/
def Event.isLine : Event → Bool
  | .mmapFailed | .block .. | .group .. | .blocksIncreased _ | .noBlockIncreased
  | .blocksDecreased _ | .noBlockDecreased | .noBlockChanged => true
  | _ => false

/-- The entry is left by a command. -/
def Event.isOfCommand : Event → Bool
  | .copied _ | .released _ => true
  | e => e.isLine

/-- The trace tells of no node taken or given back, and of nothing else that is not printed. -/
def Quiet (es : List Event) : Prop :=
  ∀ e ∈ es, e.isLine

theorem quiet_nil : Quiet [] :=
  fun _ he ↦ absurd he List.not_mem_nil

theorem quiet_singleton {e : Event} (he : e.isLine) : Quiet [e] := fun _ he' ↦
  List.mem_singleton.1 he' ▸ he

theorem Quiet.append {es es' : List Event} (h : Quiet es) (h' : Quiet es') : Quiet (es ++ es') :=
  fun e he ↦ (List.mem_append.1 he).elim (h e) (h' e)

theorem quiet_mmapFailed : Quiet [.mmapFailed] :=
  quiet_singleton rfl

theorem Quiet.copiedNodes_eq {es : List Event} (h : Quiet es) : copiedNodes es = [] := by
  refine List.filterMap_eq_nil_iff.2 fun e he ↦ ?_
  have hline := h e he
  cases e <;> first | rfl | exact absurd hline Bool.false_ne_true

theorem Quiet.releasedNodes_eq {es : List Event} (h : Quiet es) : releasedNodes es = [] := by
  refine List.filterMap_eq_nil_iff.2 fun e he ↦ ?_
  have hline := h e he
  cases e <;> first | rfl | exact absurd hline Bool.false_ne_true

/-- A quiet trace is one of a command. -/
theorem Quiet.isOfCommand {es : List Event} (h : Quiet es) : ∀ e ∈ es, e.isOfCommand := by
  intro e he
  have hline := h e he
  cases e <;> first | rfl | exact hline

theorem isOfCommand_append {es es' : List Event} (h : ∀ e ∈ es, e.isOfCommand)
    (h' : ∀ e ∈ es', e.isOfCommand) : ∀ e ∈ es ++ es', e.isOfCommand :=
  fun e he ↦ (List.mem_append.1 he).elim (h e) (h' e)

theorem isOfCommand_map_copied (ns : List ℕ) : ∀ e ∈ ns.map Event.copied, e.isOfCommand :=
  List.forall_mem_map.2 fun _ _ ↦ rfl

theorem isOfCommand_map_released (ns : List ℕ) : ∀ e ∈ ns.map Event.released, e.isOfCommand :=
  List.forall_mem_map.2 fun _ _ ↦ rfl

/-- Copies and their release are left out by a filter that takes neither. -/
theorem filter_command {p : Event → Bool} (hcopied : ∀ n, p (.copied n) = false)
    (hreleased : ∀ n, p (.released n) = false) (new gone ns : List ℕ) (es : List Event) :
    (new.map Event.copied ++ (gone.map Event.released ++ es) ++ ns.map Event.released).filter p =
      es.filter p := by
  have hnew : ∀ ns : List ℕ, (ns.map Event.copied).filter p = [] := fun ns ↦
    List.filter_eq_nil_iff.2 (List.forall_mem_map.2 fun n _ ↦ by simp [hcopied])
  have hgone : ∀ ns : List ℕ, (ns.map Event.released).filter p = [] := fun ns ↦
    List.filter_eq_nil_iff.2 (List.forall_mem_map.2 fun n _ ↦ by simp [hreleased])
  rw [List.filter_append, List.filter_append, List.filter_append, hnew, hgone, hgone,
    List.nil_append, List.nil_append, List.append_nil]

/-- A report of blocks or callstacks is quiet. -/
theorem quiet_lines {line : ℤ → ℕ → Event} {array : List ℕ} (hline : ∀ i n, Quiet [line i n]) :
    Quiet (lines line array) := by
  induction array using List.reverseRecOn with
  | nil => exact quiet_nil
  | append_singleton array n ih =>
    rw [lines_append_singleton]
    exact ih.append (hline _ n)

/-- How often a node is in the four tables. -/
theorem count_allNodes (L : TableId → List ℕ) (n : ℕ) : (allNodes L).count n =
    (L .live).count n + ((L .liveCopy).count n + ((L .snapshot).count n +
      (L .snapshotCopy).count n)) := by
  simp only [allNodes, List.count_append]

/-- One of the tables holds other nodes. -/
theorem count_allNodes_update (L : TableId → List ℕ) (id : TableId) (l : List ℕ) (n : ℕ) :
    (allNodes (Function.update L id l)).count n + (L id).count n =
      (allNodes L).count n + l.count n := by
  rw [count_allNodes, count_allNodes]
  cases id <;> simp only [Function.update, reduceCtorEq, dite_false, dite_true] <;> omega

/-- A traversal depends on the heads of the buckets and on the links of the nodes only. -/
theorem Blocks.Holds.tableNodes_eq {b b' : Blocks} {L L' : TableId → List ℕ} {id : TableId}
    (h : b.Holds L) (h' : b'.Holds L') (htable : b'.table id = b.table id)
    (hnext : ∀ n ∈ L id, (b'.memptr n).hashNext = (b.memptr n).hashNext) :
    b'.tableNodes id = b.tableNodes id := by
  obtain ⟨K, hK, -, heq, hperm⟩ := h.buckets id
  obtain ⟨K', hK', -, heq', -⟩ := h'.buckets id
  rw [heq, heq']
  refine List.flatMap_congr fun i hi ↦ (hK'.linked i hi).unique ?_
  rw [htable]
  refine (hK.linked i hi).congr fun n hn ↦ hnext n (hperm.subset ?_)
  rw [heq]
  exact List.mem_flatMap.2 ⟨i, hi, hn⟩

namespace State

variable {s t u : State} {L L' L'' : TableId → List ℕ} {ids ids' : List TableId} {id : TableId}
  {es es' : List Event} {link : LinkIndex} {cs ns touched : List ℕ} {n : ℕ}

/-- Only the tables `ids` and their nodes have changed. -/
structure Confined (ids : List TableId) (s : State) (L : TableId → List ℕ) (es : List Event)
    (t : State) (L' : TableId → List ℕ) : Prop where
  holds : t.blocks.Holds L'
  rest : t = { s with blocks := t.blocks, callstacks := t.callstacks, trace := s.trace ++ es }
  callstacks : s.callstacks.Alike t.callstacks
  lists : ∀ id, id ∉ ids → L' id = L id
  table : ∀ id, id ∉ ids → t.blocks.table id = s.blocks.table id
  kept : ∀ n ∈ s.blocks.pool.live allocMemblkSize, (∀ id ∈ ids, n ∉ L id) →
    s.blocks.SameAt t.blocks n ∧ n ∈ t.blocks.pool.live allocMemblkSize ∧ ∀ id ∈ ids, n ∉ L' id
  fresh : ∀ n ∈ t.blocks.pool.live allocMemblkSize, (∀ id ∈ ids, n ∉ L' id) →
    n ∈ s.blocks.pool.live allocMemblkSize ∧ ∀ id ∈ ids, n ∉ L id
  records : ∀ id, ∀ n ∈ L' id, ∃ id', ∃ m ∈ L id', t.blocks.record n = s.blocks.record m
  balance : (copiedNodes es ++ allNodes L).Perm (releasedNodes es ++ allNodes L')
  entries : ∀ e ∈ es, e.isOfCommand

namespace Confined

/-- Nothing was done. -/
theorem refl (h : s.blocks.Holds L) (ids : List TableId) : Confined ids s L [] s L where
  holds := h
  rest := by rw [List.append_nil]
  callstacks := .refl _
  lists _ _ := rfl
  table _ _ := rfl
  kept n hn hnot := ⟨.refl _ n, hn, hnot⟩
  fresh _ hn hnot := ⟨hn, hnot⟩
  records id n hn := ⟨id, n, hn, rfl⟩
  balance := List.Perm.refl _
  entries := quiet_nil.isOfCommand

/-- One part of a command after the other. -/
theorem trans (h : Confined ids s L es t L') (h' : Confined ids t L' es' u L'') :
    Confined ids s L (es ++ es') u L'' where
  holds := h'.holds
  rest := by
    rw [h'.rest, h.rest, List.append_assoc]
  callstacks := h.callstacks.trans h'.callstacks
  lists id hid := (h'.lists id hid).trans (h.lists id hid)
  table id hid := (h'.table id hid).trans (h.table id hid)
  kept n hn hnot := by
    obtain ⟨hsame, hlive, hnot'⟩ := h.kept n hn hnot
    obtain ⟨hsame', hlive', hnot''⟩ := h'.kept n hlive hnot'
    exact ⟨hsame.trans hsame', hlive', hnot''⟩
  fresh n hn hnot := by
    obtain ⟨hlive, hnot'⟩ := h'.fresh n hn hnot
    exact h.fresh n hlive hnot'
  records id n hn := by
    obtain ⟨id', m, hm, heq⟩ := h'.records id n hn
    obtain ⟨id'', k, hk, heq'⟩ := h.records id' m hm
    exact ⟨id'', k, hk, heq.trans heq'⟩
  balance := by
    have hbal := h.balance
    have hbal' := h'.balance
    rw [List.perm_iff_count] at hbal hbal' ⊢
    intro n
    have hn := hbal n
    have hn' := hbal' n
    simp only [List.count_append, copiedNodes_append, releasedNodes_append] at hn hn' ⊢
    omega
  entries := isOfCommand_append h.entries h'.entries

/-- The nodes of a table that is not used. -/
theorem sameAt (h : Confined ids s L es t L') (hs : s.blocks.Holds L) (hid : id ∉ ids)
    (hn : n ∈ L id) : s.blocks.SameAt t.blocks n :=
  (h.kept n (hs.live id n hn) fun _ hid' ↦
    fun hmem ↦ hs.disjoint id _ (fun heq ↦ hid (heq ▸ hid')) hn hmem).1

/-- A table that is not used has the same nodes in the same order. -/
theorem tableNodes_eq (h : Confined ids s L es t L') (hs : s.blocks.Holds L) (hid : id ∉ ids) :
    t.blocks.tableNodes id = s.blocks.tableNodes id :=
  hs.tableNodes_eq h.holds (h.table id hid) fun _ hn ↦
    congrArg Memptr.hashNext (h.sameAt hs hid hn).memptr

/-- More tables may be used. -/
theorem mono (h : Confined ids s L es t L') (hsub : ids ⊆ ids') : Confined ids' s L es t L' := by
  have hids : ∀ id ∈ ids', id ∉ ids → L' id = L id := fun id _ hid ↦ h.lists id hid
  refine { h with lists := fun id hid ↦ h.lists id fun hmem ↦ hid (hsub hmem),
                  table := fun id hid ↦ h.table id fun hmem ↦ hid (hsub hmem),
                  kept := fun n hn hnot ↦ ?_, fresh := fun n hn hnot ↦ ?_ }
  · obtain ⟨hsame, hlive, hnot'⟩ := h.kept n hn fun id hid ↦ hnot id (hsub hid)
    refine ⟨hsame, hlive, fun id hid ↦ ?_⟩
    by_cases hmem : id ∈ ids
    · exact hnot' id hmem
    · rw [hids id hid hmem]
      exact hnot id hid
  · obtain ⟨hlive, hnot'⟩ := h.fresh n hn fun id hid ↦ hnot id (hsub hid)
    refine ⟨hlive, fun id hid ↦ ?_⟩
    by_cases hmem : id ∈ ids
    · exact hnot' id hmem
    · rw [← hids id hid hmem]
      exact hnot id hid

/-- Something is printed. -/
theorem emit (h : Confined ids s L es t L') (hquiet : Quiet es') :
    Confined ids s L (es ++ es') (t.emit es') L' where
  holds := h.holds
  rest := by
    rw [h.rest]
    simp only [State.emit, List.append_assoc]
  callstacks := h.callstacks
  lists := h.lists
  table := h.table
  kept := h.kept
  fresh := h.fresh
  records := h.records
  balance := by
    rw [copiedNodes_append, releasedNodes_append, hquiet.copiedNodes_eq, hquiet.releasedNodes_eq,
      List.append_nil, List.append_nil]
    exact h.balance
  entries := isOfCommand_append h.entries hquiet.isOfCommand

/-- Sums do not matter. -/
theorem resummed (h : Confined ids s L es t L') (hsum : Resummed t u) :
    Confined ids s L es u L' where
  holds := hsum.blocks ▸ h.holds
  rest := by
    rw [hsum.rest, h.rest]
  callstacks := h.callstacks.trans hsum.callstacks
  lists := h.lists
  table := by
    rw [hsum.blocks]
    exact h.table
  kept := by
    rw [hsum.blocks]
    exact h.kept
  fresh := by
    rw [hsum.blocks]
    exact h.fresh
  records := by
    rw [hsum.blocks]
    exact h.records
  balance := h.balance
  entries := h.entries

/-- Nodes of the tables are linked into lists or taken out of them. -/
theorem relinked (h : Confined ids s L es t L') (hrel : Relinked touched link t u)
    (hsub : ∀ n ∈ touched, ∃ id ∈ ids, n ∈ L' id) : Confined ids s L es u L' where
  holds := hrel.holds h.holds
  rest := by
    rw [hrel.rest, h.rest]
  callstacks := h.callstacks.trans hrel.callstacks
  lists := h.lists
  table := by
    rw [hrel.table]
    exact h.table
  kept n hn hnot := by
    obtain ⟨hsame, hlive, hnot'⟩ := h.kept n hn hnot
    refine ⟨hsame.trans (hrel.same n fun hmem ↦ ?_), hrel.pool ▸ hlive, hnot'⟩
    obtain ⟨id, hid, hmem'⟩ := hsub n hmem
    exact hnot' id hid hmem'
  fresh := by
    rw [hrel.pool]
    exact h.fresh
  records := by
    rw [hrel.record]
    exact h.records
  balance := h.balance
  entries := h.entries

end Confined

/-! ### The parts of a command -/

/-- Copying a table uses the destination only. -/
theorem Duplicated.confined {dest src : TableId} {new : List ℕ} {ret : ℤ}
    (h : Duplicated dest src L new s ret t) (hs : s.blocks.Holds L) :
    Confined [dest] s L (new.map .copied ++ if ret = 0 then [] else [.mmapFailed]) t
      (Function.update L dest (new.reverse ++ L dest)) := by
  have hcopied := h.copied
  have hnew : ∀ n, n ∈ Function.update L dest (new.reverse ++ L dest) dest ↔ n ∈ new ∨
      n ∈ L dest := by
    intro n
    rw [Function.update_self, List.mem_append, List.mem_reverse]
  have hfail : Quiet (if ret = 0 then [] else [.mmapFailed]) := by
    split_ifs
    · exact quiet_nil
    · exact quiet_mmapFailed
  refine ⟨hcopied.holds, ?_, ?_, fun id hid ↦ ?_, fun id hid ↦ ?_, fun n hn hnot ↦ ?_,
    fun n hn hnot ↦ ?_, fun id n hn ↦ ?_, ?_,
      isOfCommand_append (isOfCommand_map_copied new) hfail.isOfCommand⟩
  · rw [← h.trace]
    rw [hcopied.rest]
  · rw [hcopied.rest]
    exact .refl _
  · exact Function.update_of_ne (by simpa using hid) _ _
  · exact hcopied.table id (by simpa using hid)
  · have hold : n ∉ new := fun hmem ↦ hcopied.fresh n hmem hn
    refine ⟨hcopied.same n hold, (hcopied.live n).2 (.inl hn), fun id hid ↦ ?_⟩
    obtain rfl := List.mem_singleton.1 hid
    rw [hnew, not_or]
    exact ⟨hold, hnot _ hid⟩
  · have hnot' := hnot dest List.mem_cons_self
    rw [hnew, not_or] at hnot'
    refine ⟨((hcopied.live n).1 hn).resolve_right hnot'.1, fun id hid ↦ ?_⟩
    obtain rfl := List.mem_singleton.1 hid
    exact hnot'.2
  · by_cases hmem : n ∈ new
    · have hrecord : t.blocks.record n ∈ new.map t.blocks.record := List.mem_map_of_mem hmem
      rw [hcopied.record] at hrecord
      obtain ⟨m, hm, heq⟩ := List.mem_map.1 hrecord
      exact ⟨src, m, hs.mem_tableNodes.1 (List.mem_of_mem_take hm), heq.symm⟩
    · refine ⟨id, n, ?_, (hcopied.same n hmem).record_eq⟩
      by_cases hid : id = dest
      · subst hid
        exact ((hnew n).1 hn).resolve_left hmem
      · rwa [Function.update_of_ne hid] at hn
  · rw [copiedNodes_append, releasedNodes_append, hfail.copiedNodes_eq, hfail.releasedNodes_eq,
      List.append_nil, List.append_nil, copiedNodes_map_copied, releasedNodes_map_copied,
      List.nil_append, List.perm_iff_count]
    intro n
    have hcount := count_allNodes_update L dest (new.reverse ++ L dest) n
    rw [List.count_append, List.count_reverse] at hcount
    rw [List.count_append]
    omega

/-- Giving back a table uses that table only. -/
theorem confined_destroyed (h : s.blocks.Holds L) (id : TableId) :
    Confined [id] s L ((s.blocks.tableNodes id).map .released) (s.destroyed id)
      (Function.update L id []) := by
  obtain ⟨hholds, hlive⟩ := holds_destroyed h id
  have hsame : ∀ n, s.blocks.SameAt (s.destroyed id).blocks n := fun n ↦ ⟨rfl, rfl, rfl, rfl, rfl⟩
  have hcallstacks := callstacks_destroyed id s
  refine ⟨hholds, ?_, ?_, fun id' hid ↦ ?_, fun id' hid ↦ ?_, fun n hn hnot ↦ ?_,
    fun n hn hnot ↦ ?_, fun id' n hn ↦ ?_, ?_, isOfCommand_map_released _⟩
  · rw [hcallstacks]
    rfl
  · rw [hcallstacks]
    exact .refl _
  · exact Function.update_of_ne (by simpa using hid) _ _
  · exact Function.update_of_ne (by simpa using hid) _ _
  · refine ⟨hsame n, (hlive n).2 ⟨hn, hnot id List.mem_cons_self⟩, fun id' hid ↦ ?_⟩
    obtain rfl := List.mem_singleton.1 hid
    rw [Function.update_self]
    exact List.not_mem_nil
  · obtain ⟨hold, hnot'⟩ := (hlive n).1 hn
    refine ⟨hold, fun id' hid ↦ ?_⟩
    obtain rfl := List.mem_singleton.1 hid
    exact hnot'
  · refine ⟨id', n, ?_, (hsame n).record_eq⟩
    by_cases hid : id' = id
    · rw [hid, Function.update_self] at hn
      exact absurd hn List.not_mem_nil
    · rwa [Function.update_of_ne hid] at hn
  · have hperm := h.tableNodes_perm id
    rw [copiedNodes_map_released, releasedNodes_map_released, List.nil_append, List.perm_iff_count]
    intro n
    have hcount := count_allNodes_update L id [] n
    rw [List.count_nil] at hcount
    rw [List.count_append, hperm.count_eq]
    omega

/-- Cancelling uses the two copies only. -/
theorem Offsetting.confined {gone : List (ℕ × ℕ)} {kept S : List ℕ}
    (h : Offsetting L cs s gone none kept [] S t) (hs : Comparable s L cs) :
    Confined [.liveCopy, .snapshotCopy] s L ((pairNodes gone).map .released) t
      (withCopies L kept S) := by
  -- the nodes of the two copies are those given back and those that are left
  have hnodes : ∀ n, n ∈ L .liveCopy ∨ n ∈ L .snapshotCopy ↔
      n ∈ pairNodes gone ∨ n ∈ kept ∨ n ∈ S := by
    intro n
    have hperm := h.cancelling.perm_append.mem_iff (a := n)
    rw [← pairNodes, Option.toList_none, List.append_nil, List.append_nil] at hperm
    simpa only [List.mem_append, or_assoc] using hperm
  have hapart : ∀ n ∈ pairNodes gone, n ∉ kept ∧ n ∉ S := by
    intro n hn
    have hnodup := h.nodup hs
    rw [List.append_nil] at hnodup
    have hne := (List.nodup_append.1 hnodup).2.2 n hn
    exact ⟨fun hmem ↦ hne n (by simp [hmem]) rfl, fun hmem ↦ hne n (by simp [hmem]) rfl⟩
  have hholds := h.holds
  rw [List.append_nil] at hholds
  refine ⟨hholds, ?_, h.callstacks, fun id hid ↦ ?_, fun id hid ↦ ?_, fun n hn hnot ↦ ?_,
    fun n hn hnot ↦ ?_, fun id n hn ↦ ⟨id, n, ?_, congrFun h.record n⟩, ?_,
      isOfCommand_map_released _⟩
  · rw [← h.trace]
    exact h.rest
  · cases id <;> simp at hid ⊢ <;> rfl
  · exact h.table id (by rintro rfl; simp at hid) (by rintro rfl; simp at hid)
  · have hcur := hnot .liveCopy (by simp)
    have hsnap := hnot .snapshotCopy (by simp)
    have hout := (hnodes n).not.1 (not_or.2 ⟨hcur, hsnap⟩)
    rw [not_or, not_or] at hout
    refine ⟨h.same n hcur hsnap, (h.live n).2 ⟨hn, hout.1⟩, fun id hid ↦ ?_⟩
    rcases List.mem_cons.1 hid with rfl | hid
    · exact hout.2.1
    · obtain rfl := List.mem_singleton.1 hid
      exact hout.2.2
  · have hcur : n ∉ kept := hnot .liveCopy (by simp)
    have hsnap : n ∉ S := hnot .snapshotCopy (by simp)
    obtain ⟨hold, hgone⟩ := (h.live n).1 hn
    have hout := (hnodes n).not.2 (not_or.2 ⟨hgone, not_or.2 ⟨hcur, hsnap⟩⟩)
    rw [not_or] at hout
    refine ⟨hold, fun id hid ↦ ?_⟩
    rcases List.mem_cons.1 hid with rfl | hid
    · exact hout.1
    · obtain rfl := List.mem_singleton.1 hid
      exact hout.2
  · cases id with
    | liveCopy => exact h.subset.1 n (by rwa [List.append_nil])
    | snapshotCopy => exact h.subset.2 n hn
    | live | snapshot => exact hn
  · -- each node of the copies was given back once, or is still in a table
    have hperm := h.cancelling.perm_append
    rw [← pairNodes, Option.toList_none, List.append_nil, List.append_nil] at hperm
    rw [copiedNodes_map_released, releasedNodes_map_released, List.nil_append, List.perm_iff_count]
    intro n
    have hcount := hperm.count_eq n
    rw [List.count_append, count_allNodes, count_allNodes]
    simp only [List.count_append] at hcount
    show (L .live).count n + _ = _ + ((L .live).count n + (kept.count n + ((L .snapshot).count n +
      S.count n)))
    omega

end State

end Memchk
