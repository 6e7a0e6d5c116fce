import Memchk.Listing

/-!
# Blocks that outlive a snapshot

`mc_compare_with_snapshot` lists blocks with their addresses, so a reader takes a block under
"decreased" for one that is gone and a block under "increased" for one that is new. The first is
right: no block that is live at the address, with the size and from the callstack that it had when
the snapshot was made, is listed as decreased. The second is not: the new blocks are as many as the
listing says, but an older block of the same size and callstack may stand for a new one (`Changes`
and `compare_lists`).

## Why the first is right

For each live block the loop looks for one in the snapshot at the same address first. A block that
has outlived the snapshot finds itself there, and the pair is taken out before any other block can
take its partner; what is left of the snapshot is no such block (`Preferring`).

## Why the second is not

The block that finds no partner is the one that comes last in the order of the copied table, not the
one that was allocated last. `Changes` therefore states numbers: for each callstack and size the
lines under "increased" are as many as there are more blocks now than then.

## The addresses

A snapshot keeps pointers of blocks that may be gone, and an address may have been handed out again.
The statement is about addresses, sizes and callstacks together, which is what is printed.
-/

namespace Memchk

/-- What is printed for one of the two tables. -/
def verdictLines (some_ : ℤ → Event) (none_ : Event) (listed : List Entry) : List Event :=
  if listed = [] then [none_] else some_ listed.length :: listed.mapIdx fun i x ↦ x.line i

/-- The blocks `increased` and `decreased` are listed when the blocks `before` were live then and
the blocks `after` are live now. -/
structure Changes (before after increased decreased : List Entry) : Prop where
  increased_subset : increased ⊆ after
  increased_count : ∀ p, (increased.map Entry.origin).count p =
    (after.map Entry.origin).count p - (before.map Entry.origin).count p
  decreased_count : ∀ p, (decreased.map Entry.origin).count p =
    (before.map Entry.origin).count p - (after.map Entry.origin).count p
  gone : ∀ x ∈ decreased, x ∈ before ∧ x ∉ after
  gone_listed : ∀ x ∈ before, x ∉ after →
    (∀ y ∈ after, y.origin = x.origin → y ∈ before) → x ∈ decreased
  newcomer : ∀ x ∈ increased, ∃ y ∈ after, y.origin = x.origin ∧ y ∉ before

/-- An entry is its origin and its pointer. -/
theorem Entry.eq_of_origin {x y : Entry} (horigin : x.origin = y.origin)
    (hptr : x.usrptr = y.usrptr) : x = y := by
  obtain ⟨p, size, callstack⟩ := x
  obtain ⟨p', size', callstack'⟩ := y
  obtain ⟨hcallstack, hsize⟩ := Prod.mk.inj horigin
  simp only at hptr hcallstack hsize
  rw [hptr, hsize, hcallstack]

/-- Cancelling the blocks by their callstacks and sizes, with precedence for the same address. -/
theorem changes_of_cancelling {before after increased decreased : List Entry}
    {gone : List (Entry × Entry)}
    (h : Cancelling Entry.origin after before gone increased [] decreased)
    (hpref : Preferring Entry.origin Entry.usrptr after [] decreased)
    (hafter : after.Nodup) (hbefore : before.Nodup)
    (hptr : ∀ x ∈ after, ∀ y ∈ after, x.usrptr = y.usrptr → x = y)
    (hptr' : ∀ x ∈ before, ∀ y ∈ before, x.usrptr = y.usrptr → x = y) :
    Changes before after increased decreased where
  increased_subset x hx := h.left.symm.subset (by simp [hx])
  increased_count := h.count_left
  decreased_count := h.count_right
  gone x hx :=
    ⟨h.right.symm.subset (List.mem_append_right _ hx), fun hmem ↦
      hpref x hmem List.not_mem_nil x hx rfl rfl⟩
  gone_listed x hx hnot hall := by
    refine h.mem_of_unpaired hpref hafter hptr hbefore hptr' (fun y hy hkey ↦ ?_) hx
      fun y hy hkey heq ↦ hnot (Entry.eq_of_origin hkey heq ▸ hy)
    exact ⟨y, hall y hy hkey, hkey, rfl⟩
  newcomer x hx := by
    obtain ⟨y, hy, hkey, hnone⟩ := h.exists_unpaired hafter hptr hx
    exact ⟨y, hy, hkey, fun hmem ↦ hnone y hmem hkey rfl⟩

/-- Only lines are left of a trace without the copies. -/
theorem filter_isLine {es : List Event} (hquiet : Quiet es) (new gone ns : List ℕ) :
    (new.map Event.copied ++ (gone.map Event.released ++ es) ++ ns.map Event.released).filter
      Event.isLine = es :=
  (filter_command (fun _ ↦ rfl) (fun _ ↦ rfl) new gone ns es).trans (List.filter_eq_self.2 hquiet)

namespace State

variable {s s₀ t v w : State} {g g₀ : Contents} {env : CommandEnv} {new new' kept S : List ℕ}
  {gone : List (ℕ × ℕ)}

/-- What is left of a copy is listed, each block once. -/
theorem Remaining.listed {ns : List ℕ} {some_ : ℤ → Event} {none_ : Event} {es : List Event}
    (h : s.Remaining true ns (some_ ns.length) none_ es) :
    ∃ listed : List Entry, listed.Perm (ns.map s.entry) ∧ es = verdictLines some_ none_ listed := by
  rw [Remaining] at h
  split_ifs at h with hnil htrue
  · exact ⟨[], by rw [hnil]; rfl, h⟩
  · obtain ⟨array, hperm, rfl⟩ := h
    refine ⟨array.map s.entry, hperm.map _, ?_⟩
    have hne : array.map s.entry ≠ [] := by
      rw [Ne, List.map_eq_nil_iff]
      rintro rfl
      exact hnil hperm.symm.eq_nil
    rw [verdictLines, if_neg hne, List.length_map, hperm.length_eq]
    exact congrArg _ (lines_eq_mapIdx s.entry Entry.line array)
  · exact absurd rfl htrue

/-- No two live blocks have the same address. -/
theorem Inv.entries_inj (h : s.Inv g) :
    ∀ x ∈ s.entries, ∀ y ∈ s.entries, x.usrptr = y.usrptr → x = y := by
  intro x hx y hy hptr
  rw [h.mem_entries] at hx hy
  rw [hptr, hy, Option.some.injEq, Prod.mk.injEq] at hx
  exact Entry.eq_of_origin (Prod.ext hx.1.symm hx.2.symm) hptr

/-- What `mc_compare_with_snapshot` lists. -/
theorem ComparedWith.changes (h : ComparedWith env s g new new' gone kept S v w t)
    (hs : s.Inv g) (hs₀ : s₀.Inv g₀)
    (hbefore : (s.entriesIn .snapshot).Perm s₀.entries) (hsort : env.sortBuffer 0 = true)
    (hsort' : env.sortBuffer 1 = true) :
    ∃ es increased decreased, t.trace = s.trace ++ es ∧
      Changes s₀.entries s.entries increased decreased ∧
      es.filter Event.isLine = verdictLines .blocksIncreased .noBlockIncreased increased ++
        verdictLines .blocksDecreased .noBlockDecreased decreased := by
  obtain ⟨es, es', ns, htrace, hes, hes'⟩ := h.printed
  have hquiet : Quiet (es ++ es') :=
    (quiet_remaining rfl rfl hes).append (quiet_remaining rfl rfl hes')
  rw [hsort] at hes
  rw [hsort'] at hes'
  obtain ⟨increased, hincreased, rfl⟩ := hes.listed
  obtain ⟨decreased, hdecreased, rfl⟩ := hes'.listed
  obtain ⟨hlive, hsnapshot⟩ := h.both.entriesIn
  replace hsnapshot := hsnapshot.trans hbefore
  have hcs : v.callstacks.Holds g.callstacks := h.both.callstacks ▸ hs.callstacks
  obtain ⟨hcancel, -⟩ := h.cancelled.origins hcs
  have hS : S ⊆ new'.reverse := fun n hn ↦
    h.cancelled.cancelling.right.symm.subset (List.mem_append_right _ hn)
  have hpref := h.cancelled.preferring.congr_key fun m hm n hn ↦ kind_eq_iff hcs
    (h.cancelled.interned .liveCopy (by simp) m hm)
    (h.cancelled.interned .snapshotCopy (by simp) n (hS hn))
  refine ⟨_, increased, decreased, htrace, ?_, filter_isLine hquiet _ _ _⟩
  exact changes_of_cancelling (@Cancelling.map _ _ Entry.origin _ v.entry _ _ _ _ _ _ _ _ _ hcancel
      hlive.symm hsnapshot.symm hincreased hdecreased)
    (@Preferring.map _ _ _ Entry.origin Entry.usrptr _ v.entry _ _ _ _ hpref hlive.symm.subset
      hdecreased.subset)
    hs.nodup_entries hs₀.nodup_entries hs.entries_inj hs₀.entries_inj

end State

/-- After a snapshot was made and kept, its comparison with the live blocks returns if no counter
overflows. It lists blocks that are live as increased, as many of each size and callstack as there
are more than then, and some block of that size and callstack is new. It lists blocks that are gone
as decreased, and all of them of which no new block has the size and callstack. -/
theorem compare_lists {s₀ s₁ s : State} (hs : MappedReachable s₀)
    (hcreate : s₀.mcCreateSnapshot = some (0, s₁))
    (hrun : Relation.ReflTransGen (fun s t ↦ ∃ a : Step, a.KeepsSnapshot ∧ a.Ok s ∧
      a.exec s = some t ∧ .mmapFailed ∉ t.trace) s₁ s) (env : CommandEnv) :
    (s.mcCompareWithSnapshot env = none → s.Unwieldy) ∧
      ∀ t, s.mcCompareWithSnapshot env = some (0, t) →
        env.sortBuffer 0 = true → env.sortBuffer 1 = true → ∃ es increased decreased,
        t.trace = s.trace ++ es ∧
          Changes s₀.entries s.entries increased decreased ∧
          es.filter Event.isLine = verdictLines .blocksIncreased .noBlockIncreased increased ++
            verdictLines .blocksDecreased .noBlockDecreased decreased := by
  obtain ⟨g₀, hg₀⟩ := hs.settled
  obtain ⟨g, hg, hbefore⟩ := hg₀.snapshot_kept hcreate hs.mapped hrun
  have hspec := State.compareWithSnapshot_spec hg.inv hg.tidy env
  refine ⟨fun hnone ↦ hg.unwieldy (hspec.fault hnone), fun t hcompare hsort hsort' ↦ ?_⟩
  rcases hspec.value _ hcompare with ⟨-, -, -, new, new', gone, kept, S, v, w, h⟩ | ⟨-, hret, -⟩
  · exact h.changes hg.inv hg₀.inv hbefore hsort hsort'
  · simp at hret

/-- One block is live when the snapshot is made, and two when it is compared. -/
theorem compare_lists_oneBlock : ∃ (s₀ s₁ s t : State) (es : List Event)
    (increased decreased : List Entry), (s₀.blocks.tableNodes .live).length = 1 ∧
      (s.blocks.tableNodes .live).length = 2 ∧ s₀.mcCreateSnapshot = some (0, s₁) ∧
      s.mcCompareWithSnapshot ⟨fun _ ↦ true⟩ = some (0, t) ∧ t.trace = s.trace ++ es ∧
      Changes s₀.entries s.entries increased decreased ∧
      es.filter Event.isLine = verdictLines .blocksIncreased .noBlockIncreased increased ++
        verdictLines .blocksDecreased .noBlockDecreased decreased := by
  obtain ⟨s₀, s₁, s, t, hs, hcreate, hstep, hone, htwo, hrun⟩ := exists_grown ⟨fun _ ↦ true⟩
  obtain ⟨es, increased, decreased, htrace, hchanges, hlines⟩ :=
    (compare_lists hs hcreate (.single hstep) ⟨fun _ ↦ true⟩).2 t hrun rfl rfl
  exact ⟨s₀, s₁, s, t, es, increased, decreased, hone, htwo, hcreate, hrun, htrace,
    hchanges, hlines⟩

end Memchk
