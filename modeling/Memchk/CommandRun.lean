import Memchk.CompareCommands
import Memchk.Exhaustion

/-!
# Runs with commands

A run of a program and of the commands that the user gives meanwhile, one after the other (`Step`).
Between two commands the program only changes the live blocks: the tables that the commands use, the
snapshot and the lists of the callstacks are left as they were (`Undisturbed`), so that a command
finds what the last one left. As long as all commands clean up, or as long as all metadata is there,
the state is tidy whenever a command starts.

## The program

Every effect of a call leaves the other tables alone, and a new node of a callstack has no lists, so
whole calls do (`Effects.undisturbed`). A call with hooks disabled changes no node at all, and a
full check changes bytes only.

## The commands

A command that returns leaves the live blocks, and what its spec says of the rest. If it restored
everything, the state is tidy; if it abandoned copies, it is tidy if and only if there were none,
or, for a snapshot, if the blocks copied happen to be those of the old one. This is where the exact
condition of the theorem on cleaning up comes from.

## Reachability

`MappedReachable` are the states of runs in which metadata was always there. Their invariant is
`State.Settled`: the invariant of the checker, the callstacks of all blocks, and the tidiness of the
tables. Most theorems on commands start from it.
-/

namespace Memchk

/-- What happens next: the program does something, or a command is executed. -/
inductive Step
  | action (a : Action)
  | command (env : CommandEnv) (c : Command)

/-- The state after a step. -/
def Step.exec : Step → State → Option State
  | .action a, s => a.exec s
  | .command env c, s => (c.exec env s).map Prod.snd

/-- What is asked of the program and its environment. -/
def Step.Ok (s : State) : Step → Prop
  | .action a => a.Ok s
  | .command .. => True

namespace State

/-- The tables other than that of the live blocks have been left alone, and so have all lists. -/
structure Undisturbed (s : State) (g : Contents) (t : State) (g' : Contents) : Prop where
  nodes : ∀ id, id ≠ .live → g'.nodes id = g.nodes id
  record : ∀ id, id ≠ .live → ∀ n ∈ g.nodes id, t.blocks.record n = s.blocks.record n
  sub : g.callstacks ⊆ g'.callstacks
  extends_ : s.callstacks.Extends t.callstacks g.callstacks
  fresh : ∀ c ∈ g'.callstacks, c ∈ g.callstacks ∨ ∀ link, t.head link c = 0

variable {s t u : State} {g g' g'' : Contents} {env : Env} {es : List Event}

namespace Undisturbed

/-- Neither blocks nor callstacks have changed. -/
theorem of_eq (hblocks : t.blocks.record = s.blocks.record)
    (hcallstacks : t.callstacks = s.callstacks)
    (hnodes : ∀ id, id ≠ .live → g'.nodes id = g.nodes id)
    (hcs : g'.callstacks = g.callstacks) : Undisturbed s g t g' where
  nodes := hnodes
  record _ _ _ _ := by rw [hblocks]
  sub := hcs ▸ List.Subset.refl _
  extends_ := hcallstacks ▸ ⟨fun _ _ ↦ rfl, fun _ _ ↦ rfl⟩
  fresh _ hc := .inl (hcs ▸ hc)

theorem refl (s : State) (g : Contents) : Undisturbed s g s g :=
  of_eq rfl rfl (fun _ _ ↦ rfl) rfl

/-- Steps that leave the tables of the commands alone, one after the other. -/
theorem trans (h : Undisturbed s g t g') (h' : Undisturbed t g' u g'') : Undisturbed s g u g'' where
  nodes id hid := (h'.nodes id hid).trans (h.nodes id hid)
  record id hid n hn := by
    have hn' : n ∈ g'.nodes id := h.nodes id hid ▸ hn
    exact (h'.record id hid n hn').trans (h.record id hid n hn)
  sub := List.Subset.trans h.sub h'.sub
  extends_ :=
    ⟨fun c hc ↦ (h'.extends_.trace c (h.sub hc)).trans (h.extends_.trace c hc),
      fun c hc ↦ (h'.extends_.group c (h.sub hc)).trans (h.extends_.group c hc)⟩
  fresh c hc := by
    rcases h'.fresh c hc with hc' | hzero
    · refine (h.fresh c hc').imp_right fun hzero link ↦ ?_
      rw [head, h'.extends_.group c hc']
      exact hzero link
    · exact .inr hzero

/-- A frame may have been interned. -/
theorem of_interned {frames : List ℕ} {c : ℕ} (hnodes : ∀ id, id ≠ .live → g'.nodes id = g.nodes id)
    (hrecord : ∀ id, id ≠ .live → ∀ n ∈ g.nodes id, t.blocks.record n = s.blocks.record n)
    (h : Callstacks.Interned frames s.callstacks g.callstacks c t.callstacks g'.callstacks) :
    Undisturbed s g t g' :=
  ⟨hnodes, hrecord, h.sub, h.extends_, h.fresh⟩

/-- What was tidy stays tidy. -/
theorem tidy (h : Undisturbed s g t g') (ht : s.Tidy g) : t.Tidy g' where
  liveCopy := (h.nodes .liveCopy (by decide)).trans ht.liveCopy
  snapshotCopy := (h.nodes .snapshotCopy (by decide)).trans ht.snapshotCopy
  head link c hc := by
    rcases h.fresh c hc with hc | hzero
    · rw [head, h.extends_.group c hc]
      exact ht.head link c hc
    · exact hzero link
  distinct := by
    rw [h.nodes .snapshot (by decide)]
    intro m hm n hn
    rw [h.record .snapshot (by decide) m hm, h.record .snapshot (by decide) n hn]
    exact ht.distinct m hm n hn

end Undisturbed

end State

/-! ### The program -/

/-- A new block disturbs nothing. -/
theorem Recorded.undisturbed {env : Env} {x : Memblk} {usrptr n c : ℕ} {s t : State}
    {g g' : Contents} (hrec : Recorded env x usrptr s g n c t g') : s.Undisturbed g t g' := by
  refine .of_interned (fun id hid ↦ ?_) (fun id hid m hm ↦ ?_) hrec.interned
  · rw [hrec.nodes, Function.update_of_ne hid]
  · refine hrec.record_of_ne m ?_
    rintro rfl
    exact hrec.notMem id hm

/-- An effect disturbs nothing. -/
theorem Effect.undisturbed {env : Env} {s t : State} {g g' : Contents} (he : Effect env s g t g') :
    s.Undisturbed g t g' := by
  have hlive : ∀ {ns : List ℕ} (id : TableId), id ≠ .live →
      Function.update g.nodes .live ns id = g.nodes id := fun id hid ↦ Function.update_of_ne hid _ _
  cases he with
  | logged hes => exact .of_eq rfl rfl (fun _ _ ↦ rfl) rfl
  | refused size hnull => exact .of_eq rfl rfl (fun _ _ ↦ rfl) rfl
  | unrecorded r hne ha hun => exact .of_eq hun.record hun.callstacks (fun _ _ ↦ rfl) rfl
  | recorded r hne ha hrec =>
    have hsame : s.Undisturbed g (s.origMalloc env r.bufsize).2 g :=
      .of_eq rfl rfl (fun _ _ ↦ rfl) rfl
    exact hsame.trans hrec.undisturbed
  | wrote hn hmem => exact .of_eq rfl rfl (fun _ _ ↦ rfl) rfl
  | overwrote mem hfailed => exact .of_eq rfl rfl (fun _ _ ↦ rfl) rfl
  | dropped hn hkey hcheck hgarbage hdrop =>
    exact .of_eq (by rw [State.blocks_giveBack, hdrop.record])
      (by rw [State.callstacks_giveBack, hdrop.callstacks]) hlive rfl
  | released hn hkey hcheck hun =>
    refine .of_interned (fun id hid ↦ by rw [hun.nodes, hlive id hid]) (fun id hid n hn ↦ ?_)
      (by rw [State.callstacks_giveBack]; exact hun.interned)
    rw [State.blocks_giveBack, hun.record]

/-- Effects leave the tables of the commands alone. -/
theorem Effects.undisturbed {env : Env} {x y : State × Contents} (h : Effects env x y) :
    x.1.Undisturbed x.2 y.1 y.2 := by
  induction h with
  | refl => exact .refl _ _
  | tail _ hstep ih => exact ih.trans hstep.undisturbed

namespace State

variable {s t : State} {g : Contents} {es : List Event}

/-- An action disturbs nothing. -/
theorem Inv.action_undisturbed (h : s.Inv g) {a : Action} (hok : a.Ok s)
    (hexec : a.exec s = some t) : ∃ g', t.Inv g' ∧ s.Undisturbed g t g' ∧
      (s.Attributed g → .mmapFailed ∉ t.trace → t.Attributed g') := by
  rcases h.action_cases hok hexec with ⟨env, g', he⟩ | ⟨hsame, hinv⟩
  · exact ⟨g', @Inv.effects env (s, g) (t, g') h he, he.undisturbed, he.attributed⟩
  · exact ⟨g, hinv, .of_eq (by rw [hsame.blocks]) hsame.callstacks (fun _ _ ↦ rfl) rfl,
      fun hattr _ ↦ hattr.congr (by rw [hsame.blocks]) (by rw [hsame.quarantine])⟩

/-! ### The commands -/

/-- A command that has cleaned up disturbs nothing. -/
theorem Confined.undisturbed (h : Confined scratch s g.nodes es t g.nodes) (hinv : s.Inv g)
    (ht : s.Tidy g) (hhead : ∀ link, ∀ c ∈ g.callstacks, t.head link c = 0) :
    s.Undisturbed g t g where
  nodes _ _ := rfl
  record id hid n hn := by
    have hnot : id ∉ scratch := by
      intro hmem
      rcases List.mem_cons.1 hmem with rfl | hmem
      · rw [ht.liveCopy] at hn
        exact List.not_mem_nil hn
      · obtain rfl := List.mem_singleton.1 hmem
        rw [ht.snapshotCopy] at hn
        exact List.not_mem_nil hn
    exact (h.sameAt hinv.blocks hnot hn).record_eq
  sub := List.Subset.refl _
  extends_ := by
    refine ⟨fun c _ ↦ h.callstacks.trace c, fun c hc ↦ funext fun link ↦ ?_⟩
    exact (hhead link c hc).trans (ht.head link c hc).symm
  fresh _ hc := .inl hc

/-- The blocks of commands have their callstacks if those of the program have. -/
theorem Attributed.confined {ids : List TableId} {L' : TableId → List ℕ} (h : s.Attributed g)
    (hc : Confined ids s g.nodes es t L') : t.Attributed { g with nodes := L' } where
  allocator id n hn := by
    obtain ⟨id', m, hm, heq⟩ := hc.records id n hn
    rw [heq]
    exact h.allocator id' m hm
  freed := by
    rw [hc.rest]
    exact h.freed

/-- The live blocks and those of the snapshot are of the same kinds. -/
def KindsAgree (s : State) : Prop :=
  ((s.blocks.tableNodes .live).map s.kind).Perm ((s.blocks.tableNodes .snapshot).map s.kind)

theorem kindsAgree_iff (h : s.blocks.Holds g.nodes) : s.KindsAgree ↔ s.SameKinds g :=
  ((h.tableNodes_perm .live).map _).congr_left _ |>.trans
    (((h.tableNodes_perm .snapshot).map _).congr_right _)

end State

namespace Command

/-- The commands that report on the live blocks. -/
def isReport : Command → Bool
  | .createSnapshot | .destroySnapshot => false
  | _ => true

/-- How many blocks a command copies. -/
def copies (s : State) : Command → ℕ
  | .printAllMemblk | .printAllMemblkPerCallstack | .createSnapshot =>
    (s.blocks.tableNodes .live).length
  | .compareWithSnapshot | .compareWithSnapshotPerCallstack =>
    (s.blocks.tableNodes .live).length + (s.blocks.tableNodes .snapshot).length
  | .destroySnapshot => 0

/-- The command is refused the buffer that it sorts callstacks in, after it has linked blocks that
are not all cancelled. -/
def Strands (env : CommandEnv) (s : State) (c : Command) : Prop :=
  c = .compareWithSnapshotPerCallstack ∧ env.sortBuffer 0 = false ∧ ¬s.KindsAgree

end Command

namespace State

variable {s t : State} {g : Contents} {c : Command}

/-- What a report has come to. -/
structure Reported (env : CommandEnv) (c : Command) (s : State) (g : Contents)
    (t : State) : Prop where
  confined : ∃ es, Confined scratch s g.nodes es t g.nodes ∧ (copiedNodes es).Nodup ∧
    (c.Strands env s → .mmapFailed ∈ es)
  head : (∀ link, ∀ d ∈ g.callstacks, t.head link d = 0) ↔ ¬c.Strands env s

/-- A report either finds nodes for all copies, or leaves those that it has made behind. -/
theorem report_spec (h : s.Inv g) (ht : s.Tidy g) (hc : c.isReport) (env : CommandEnv) :
    Outcome (s.Faulty g) (c.exec env s) fun x ↦
      (s.nodesFor (c.copies s)).length = c.copies s ∧ x.1 = 0 ∧ Reported env c s g x.2 ∨
        OutOfNodes (c.copies s) s g x := by
  have hlive := (h.blocks.tableNodes_perm .live).length_eq
  have hsnapshot := (h.blocks.tableNodes_perm .snapshot).length_eq
  have hkinds := kindsAgree_iff h.blocks
  have hfinished : ∀ {x : ℤ × State}, c ≠ .compareWithSnapshotPerCallstack →
      (∃ es, Restored s g es x.2) → Reported env c s g x.2 := by
    rintro x hne ⟨es, hrestored⟩
    have hnot : ¬c.Strands env s := fun h ↦ hne h.1
    exact ⟨⟨es, hrestored.confined, hrestored.nodup, fun h ↦ absurd h hnot⟩,
      iff_of_true hrestored.head hnot⟩
  cases c with
  | printAllMemblk =>
    rw [Command.copies, hlive]
    refine (printAllMemblk_spec h ht env).mono fun x hx ↦ hx.imp_left ?_
    rintro ⟨hlen, hret, new, es, gone, -, hrestored⟩
    exact ⟨hlen, hret, hfinished (by decide) ⟨_, hrestored⟩⟩
  | printAllMemblkPerCallstack =>
    rw [Command.copies, hlive]
    refine (printAllMemblkPerCallstackCommand_spec h ht env).mono fun x hx ↦ hx.imp_left ?_
    rintro ⟨hlen, hret, new, es, gone, -, hrestored⟩
    exact ⟨hlen, hret, hfinished (by decide) ⟨_, hrestored⟩⟩
  | compareWithSnapshot =>
    rw [Command.copies, hlive, hsnapshot]
    exact (compareWithSnapshot_spec h ht env).mono fun x hx ↦
      hx.imp_left fun hx ↦ ⟨hx.1, hx.2.1, hfinished (by decide) hx.2.2.1⟩
  | compareWithSnapshotPerCallstack =>
    rw [Command.copies, hlive, hsnapshot]
    refine (compareWithSnapshotPerCallstack_spec h ht env).mono fun x hx ↦ hx.imp_left ?_
    rintro ⟨hlen, hret, ⟨es, hconfined, hnodup, hfailed⟩, hhead, -⟩
    refine ⟨hlen, hret, ⟨es, hconfined, hnodup, fun hs ↦ hfailed hs.2.1 ?_⟩, hhead.trans ?_⟩
    · rw [← hkinds]
      exact hs.2.2
    · rw [← hkinds, Command.Strands]
      cases env.sortBuffer 0 <;> simp
  | createSnapshot | destroySnapshot => cases hc

end State

end Memchk
