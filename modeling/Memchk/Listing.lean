import Memchk.ByCallstack
import Memchk.Registry

/-!
# What the reports list

`mc_print_all_memblk` lists the blocks that the program has entered and that have not left since,
each of them once, with the callstack and the size that it was entered with.
`mc_print_all_memblk_per_callstack` lists their callstacks, each of them once, with the sizes of all
its blocks and their sum, and these sums add up to the sizes of all blocks (`reports_list_history`).

## From nodes to the history

The reports walk the nodes of the live table. The registry says that these are the blocks of the
history: an operation list run on empty books. `State.entries` are the entries of the nodes, and the
registry turns them into those of the operations, each pointer once.

## The sums

The sums are computed in a `size_t` one size at a time. They do not wrap, since the payloads of the
live blocks are disjoint parts of user space (`Inv.sum_entries_lt`); and as every block with a
callstack is in the list of exactly one callstack, the sums of the lists add up to the sum of all
sizes (`ListsGroups.sums`).
-/

namespace Memchk

/-- The line of a block or of a callstack. -/
def Event.isListed : Event → Bool
  | .block .. | .group .. => true
  | _ => false

/-- The lines `es` list all callstacks, each once, with the sizes of all its blocks and with their
sum, the largest sum first if the comparators can tell. -/
def ListsSums (entries : List Entry) (es : List Event) : Prop :=
  ∃ groups : List Group, (groups.map Group.callstack).Nodup ∧
    (∀ f, f ∈ groups.map Group.callstack ↔ f ∈ entries.map Entry.callstack) ∧
    (∀ x ∈ groups,
      x.sizes.Perm ((entries.filter fun y ↦ y.callstack = x.callstack).map Entry.size)) ∧
    es = groups.mapIdx (fun i x ↦ .group i x.sizes [] x.sizes.sum (x.callstack.drop 2)) ∧
    (KeysComparable (groups.map fun x ↦ (x.sizes.sum : ℤ)) →
      groups.Pairwise fun x y ↦ y.sizes.sum ≤ x.sizes.sum) ∧
    (groups.map fun x ↦ x.sizes.sum).sum = (entries.map Entry.size).sum

variable {entries : List Entry} {es : List Event}

/-- The total of a callstack, if the sum fits in an `int64_t`. -/
theorem Group.total_eq {x : Group} (h : x.sizes.sum < 9223372036854775808) :
    x.total = x.sizes.sum := by
  have hexact := @State.subSizes_addSizes x.sizes [] h (by decide)
  rw [List.sum_nil, Nat.cast_zero, sub_zero] at hexact
  exact hexact

/-- The sums of all callstacks. -/
theorem sum_groups {groups : List Group} (hnodup : (groups.map Group.callstack).Nodup)
    (hmem : ∀ f, f ∈ groups.map Group.callstack ↔ f ∈ entries.map Entry.callstack)
    (hsizes : ∀ x ∈ groups,
      x.sizes.Perm ((entries.filter fun y ↦ y.callstack = x.callstack).map Entry.size)) :
    (groups.map fun x ↦ x.sizes.sum).sum = (entries.map Entry.size).sum := by
  have hparts := sum_map_filter_eq (g := Entry.size) hnodup fun x hx ↦
    (hmem x.callstack).2 (List.mem_map_of_mem (f := Entry.callstack) hx)
  rw [List.map_map] at hparts
  rw [← hparts]
  refine congrArg List.sum (List.map_congr_left fun x hx ↦ ?_)
  exact (hsizes x hx).sum_eq

/-- The sums of the groups add up to the sizes of all entries. -/
theorem ListsGroups.sums (h : ListsGroups entries es)
    (hsum : (entries.map Entry.size).sum < 9223372036854775808) : ListsSums entries es := by
  obtain ⟨groups, hnodup, hmem, hsizes, rfl, hsorted⟩ := h
  have htotal : ∀ x ∈ groups, x.total = x.sizes.sum := by
    intro x hx
    refine Group.total_eq (lt_of_le_of_lt ?_ hsum)
    rw [(hsizes x hx).sum_eq]
    exact (List.filter_sublist.map _).sum_le_sum fun _ _ ↦ Nat.zero_le _
  refine ⟨groups, hnodup, hmem, hsizes, ?_, fun hkeys ↦ ?_, sum_groups hnodup hmem hsizes⟩
  · refine List.mapIdx_eq_mapIdx_iff.2 fun i hi ↦ ?_
    rw [Group.line, htotal _ (List.getElem_mem hi)]
  · rw [← List.map_congr_left htotal] at hkeys
    refine (hsorted hkeys).imp_of_mem fun hx hy hle ↦ ?_
    rw [htotal _ hx, htotal _ hy] at hle
    exact Int.ofNat_le.1 hle

/-- Copies and their release are no lines. -/
theorem filter_isListed (new gone : List ℕ) :
    ((new.map Event.copied ++ es ++ gone.map Event.released).filter Event.isListed) =
      es.filter Event.isListed :=
  filter_command (fun _ ↦ rfl) (fun _ ↦ rfl) new [] gone es

/-- If all lines are listed lines, filtering keeps them. -/
theorem filter_mapIdx_eq {α : Type*} {line : ℕ → α → Event} (hline : ∀ i x, (line i x).isListed)
    (l : List α) : (l.mapIdx line).filter Event.isListed = l.mapIdx line := by
  refine List.filter_eq_self.2 fun e he ↦ ?_
  obtain ⟨i, hi, rfl⟩ := List.mem_mapIdx.1 he
  exact hline i _

namespace State

variable {s : State} {g : Contents} {ops : List BlockOp}

/-- The blocks that are reported are those in the registry. -/
theorem Inv.mem_entries (h : s.Inv g) {x : Entry} :
    x ∈ s.entries ↔ s.registry.live x.usrptr = some (x.callstack, x.size) := by
  rw [h.registry_live_iff, State.entries, List.mem_map]
  refine exists_congr fun n ↦ ?_
  rw [h.blocks.mem_tableNodes]
  refine and_congr_right fun _ ↦ ⟨?_, ?_⟩
  · rintro rfl
    exact ⟨rfl, rfl⟩
  · rintro ⟨hptr, horigin⟩
    rw [origin, Prod.mk.injEq] at horigin
    obtain ⟨usrptr, size, callstack⟩ := x
    simp only at hptr horigin
    rw [entry, hptr, horigin.1, horigin.2]

/-- No pointer is entered twice. -/
theorem Inv.nodup_entries (h : s.Inv g) : s.entries.Nodup := by
  have hnodup : (s.blocks.tableNodes .live).Nodup :=
    (h.blocks.tableNodes_perm .live).nodup_iff.2 (h.blocks.table .live).nodup
  refine hnodup.map_on fun m hm n hn heq ↦ ?_
  exact h.live_inj (h.blocks.mem_tableNodes.1 hm) (h.blocks.mem_tableNodes.1 hn)
    (congrArg Entry.usrptr heq)

/-- The sizes of the live blocks add up to less than `2 ^ 63`. -/
theorem Inv.sum_entries_lt (h : s.Inv g) :
    (s.entries.map Entry.size).sum < 9223372036854775808 := by
  have hsizes : s.entries.map Entry.size = s.sizesOf .live := by
    rw [State.entries, List.map_map]
    rfl
  rw [hsizes]
  exact h.sum_sizesOf_lt

end State

/-- The blocks that both reports list are those that are live by the history of the run. The reports
return if no counter overflows, and list all of them if they get the buffer to sort in. -/
theorem reports_list_history {ops : List BlockOp} {s : State} (h : Logged ops s)
    (env : CommandEnv) :
    s.entries.Nodup ∧
      (∀ x, x ∈ s.entries ↔ Registry.current ops x.usrptr = some (x.callstack, x.size)) ∧
      ((s.mcPrintAllMemblk env = none → s.Unwieldy) ∧
        ∀ t, s.mcPrintAllMemblk env = some (0, t) → env.sortBuffer 0 = true →
          ∃ es, t.trace = s.trace ++ es ∧ ListsBlocks s.entries (es.filter Event.isListed)) ∧
      (s.mcPrintAllMemblkPerCallstack env = none → s.Unwieldy) ∧
        ∀ t, s.mcPrintAllMemblkPerCallstack env = some (0, t) → env.sortBuffer 0 = true →
          ∃ es, t.trace = s.trace ++ es ∧ ListsSums s.entries (es.filter Event.isListed) := by
  obtain ⟨g, hg⟩ := h.mapped.settled
  have hblocks := State.printAllMemblk_spec hg.inv hg.tidy env
  have hgroups := State.printAllMemblkPerCallstackCommand_spec hg.inv hg.tidy env
  refine ⟨hg.inv.nodup_entries, fun x ↦ ?_, ⟨fun hnone ↦ hg.unwieldy (hblocks.fault hnone), ?_⟩,
    fun hnone ↦ hg.unwieldy (hgroups.fault hnone), ?_⟩
  · rw [hg.inv.mem_entries, h.run_eq.2]
  · intro t hrun hsort
    rcases hblocks.value _ hrun with ⟨-, -, new, es, gone, hprints, hrestored⟩ | ⟨-, hret, -⟩
    · refine ⟨_, hrestored.confined.trace_eq, ?_⟩
      rw [State.Prints, if_pos hsort] at hprints
      rw [filter_isListed]
      obtain ⟨listed, hperm, rfl, hsorted⟩ := hprints
      exact ⟨listed, hperm, filter_mapIdx_eq (fun _ _ ↦ rfl) _, hsorted⟩
    · simp at hret
  · intro t hrun hsort
    rcases hgroups.value _ hrun with ⟨-, -, new, es, gone, hprints, hrestored⟩ | ⟨-, hret, -⟩
    · refine ⟨_, hrestored.confined.trace_eq, ?_⟩
      rw [State.Prints, if_pos hsort] at hprints
      rw [filter_isListed]
      obtain ⟨groups, hnodup, hmem, hsizes, rfl, hsums⟩ := hprints.sums hg.inv.sum_entries_lt
      exact ⟨groups, hnodup, hmem, hsizes, filter_mapIdx_eq (fun _ _ ↦ rfl) _, hsums⟩
    · simp at hret

/-- One block of 16 bytes is listed by both reports, and both return. -/
theorem reports_list_history_oneBlock : ∃ (ops : List BlockOp) (s t t' : State),
    Registry.current ops 1048592 = some ([], 16) ∧
      (∀ x, x ∈ s.entries ↔ Registry.current ops x.usrptr = some (x.callstack, x.size)) ∧
      s.mcPrintAllMemblk ⟨fun _ ↦ true⟩ = some (0, t) ∧
      (∃ es, t.trace = s.trace ++ es ∧ ListsBlocks s.entries (es.filter Event.isListed)) ∧
      s.mcPrintAllMemblkPerCallstack ⟨fun _ ↦ true⟩ = some (0, t') ∧
      ∃ es, t'.trace = s.trace ++ es ∧ ListsSums s.entries (es.filter Event.isListed) := by
  obtain ⟨s, g, n, c, hone⟩ := State.exists_oneBlock
  obtain ⟨ops, h⟩ := hone.hooked.mapped.logged
  have hn : n ∈ g.nodes .live := hone.live ▸ List.mem_cons_self
  have hlive := hone.inv.registry_live hn
  have hc : c ≠ 0 := hone.inv.callstacks.ne_null hone.callstacks
  rw [State.origin, hone.record, Callstacks.traceOf, if_neg hc, hone.trace, h.run_eq.2] at hlive
  obtain ⟨t, hblocks⟩ := hone.exists_report (k := .printAllMemblk) rfl ⟨fun _ ↦ true⟩
  obtain ⟨t', hgroups⟩ := hone.exists_report (k := .printAllMemblkPerCallstack) rfl ⟨fun _ ↦ true⟩
  obtain ⟨-, hmem, ⟨-, hlist⟩, -, hsums⟩ := reports_list_history h ⟨fun _ ↦ true⟩
  exact ⟨ops, s, t, t', hlive, hmem, hblocks, hlist t hblocks rfl, hgroups, hsums t' hgroups rfl⟩

end Memchk
