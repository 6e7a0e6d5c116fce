import Memchk.Purity

/-!
# Comparing with a snapshot

Whatever happens between the moment when a snapshot is made and the moment when the live blocks are
compared with it, short of making or destroying one: what the comparison leaves of the two copies is
the difference of the live blocks then and now, as multisets of callstacks and sizes
(`compare_difference`). Neither the addresses of the blocks matter nor the order of the buckets.

## Origins

A block is known to the comparison by its callstack and its size, its kind. A callstack is a node,
and for a statement about the program it has to be the trace that the node carries: the `origin` of
a block. Nodes of callstacks are never changed or given back, so blocks have the same kind if and
only if they have the same origin, also across the two moments.

## Until the comparison

The snapshot is a table that only two commands touch. All other steps keep its nodes and their
records: calls, stores, checks and changes of the mode by the frames of the effects, and commands by
being confined to other tables. So the origins in the snapshot are those of the live blocks at the
moment it was made.

## The comparison

`Cancelled` says that the comparison takes out pairs of the same kind until there are none. As
multisets, what is left on each side is the truncated difference of the two, which does not depend
on which pairs were taken.
-/

namespace Memchk

/-- The callstack and the size of a block. -/
def Entry.origin (x : Entry) : List ℕ × ℕ :=
  (x.callstack, x.size)

/-- The step neither makes nor destroys a snapshot. -/
def Step.KeepsSnapshot : Step → Prop
  | .action _ => True
  | .command _ c => c.isReport

/-- A line that says whether, and by how many, the blocks have become more or fewer. -/
def Event.isVerdict : Event → Bool
  | .blocksIncreased _ | .noBlockIncreased | .blocksDecreased _ | .noBlockDecreased => true
  | _ => false

namespace State

/-- The callstack that a block was allocated from, and its size. -/
def origin (s : State) (n : ℕ) : List ℕ × ℕ :=
  (s.callstacks.traceOf (s.blocks.record n).allocator, (s.blocks.record n).memblk.usrsize)

/-- The callstacks and sizes of the blocks in a table. -/
def origins (id : TableId) (s : State) : List (List ℕ × ℕ) :=
  (s.blocks.tableNodes id).map s.origin

/-- What is reported of the blocks in a table. -/
def entriesIn (id : TableId) (s : State) : List Entry :=
  (s.blocks.tableNodes id).map s.entry

variable {s t u v w : State} {g g' : Contents} {env : CommandEnv} {new new' kept S : List ℕ}
  {gone : List (ℕ × ℕ)} {id : TableId} {es : List Event}

theorem origins_perm {L : TableId → List ℕ} (h : t.blocks.Holds L) (id : TableId) :
    (t.origins id).Perm ((L id).map t.origin) :=
  (h.tableNodes_perm id).map _

theorem entriesIn_perm {L : TableId → List ℕ} (h : t.blocks.Holds L) (id : TableId) :
    (t.entriesIn id).Perm ((L id).map t.entry) :=
  (h.tableNodes_perm id).map _

/-- Callstacks and sizes are part of what is reported. -/
theorem map_origin_eq (ns : List ℕ) : ns.map s.origin = (ns.map s.entry).map Entry.origin := by
  rw [List.map_map]
  rfl

theorem origins_eq (id : TableId) (s : State) : s.origins id = (s.entriesIn id).map Entry.origin :=
  map_origin_eq _

/-! ### Until the comparison -/

/-- What was not disturbed is reported as before. -/
theorem Undisturbed.entriesIn (h : Undisturbed s g t g') (hs : s.Inv g) (ht : t.Inv g')
    (hid : id ≠ .live) : (t.entriesIn id).Perm (s.entriesIn id) := by
  refine (entriesIn_perm ht.blocks id).trans ?_
  rw [h.nodes id hid]
  refine List.Perm.trans ?_ (entriesIn_perm hs.blocks id).symm
  refine List.Perm.of_eq (List.map_congr_left fun n hn ↦ ?_)
  rw [entry, entry, h.record id hid n hn, h.extends_.traceOf_eq (hs.interned id n hn)]

/-- A block that is recorded is one more. -/
theorem Inv.entriesIn_recorded (h : s.Inv g) {env : Env} {x : Memblk} {ptr n c : ℕ}
    (hrec : Recorded env x ptr s g n c t g') (hc : c ≠ 0) : (t.entriesIn .live).Perm
      (⟨ptr, x.usrsize, env.allocFrames.take maxCallstackDepth⟩ :: s.entriesIn .live) := by
  have hnew : t.entry n = ⟨ptr, x.usrsize, env.allocFrames.take maxCallstackDepth⟩ := by
    rw [entry, hrec.record, hrec.interned.traceOf_self hc]
  have hold : (g.nodes .live).map t.entry = (g.nodes .live).map s.entry := by
    refine List.map_congr_left fun m hm ↦ ?_
    rw [entry, entry, hrec.record_of_ne m (ne_of_mem_of_not_mem hm (hrec.notMem .live)),
      hrec.interned.traceOf_eq (h.interned .live m hm)]
  refine (entriesIn_perm hrec.inv.blocks .live).trans ?_
  rw [hrec.nodes, Function.update_self, List.map_cons, hnew, hold]
  exact (entriesIn_perm h.blocks .live).symm.cons _

/-- A step that keeps the snapshot leaves its blocks. -/
theorem Settled.keepsSnapshot (h : s.Settled g) {a : Step} (hkeeps : a.KeepsSnapshot)
    (hok : a.Ok s) (hexec : a.exec s = some t) (hmapped : .mmapFailed ∉ t.trace) :
    ∃ g', t.Settled g' ∧ (t.entriesIn .snapshot).Perm (s.entriesIn .snapshot) := by
  cases a with
  | action a =>
    obtain ⟨g', hinv, hun, hattr⟩ := h.inv.action_undisturbed hok hexec
    exact ⟨g', ⟨hinv, hun.tidy h.tidy, hattr h.attributed hmapped⟩,
      hun.entriesIn h.inv hinv (by decide)⟩
  | command env c =>
    obtain ⟨x, hrun, rfl⟩ := Option.map_eq_some_iff.1 hexec
    obtain ⟨es, hconfined, hhead⟩ :=
      h.inv.report h.tidy hkeeps hrun (h.inv.spared h.tidy hrun hmapped)
    have hun := hconfined.undisturbed h.inv h.tidy hhead
    have hinv : x.2.Inv g := h.inv.confined hconfined (by decide)
    exact ⟨g, ⟨hinv, hun.tidy h.tidy, h.attributed.confined hconfined⟩,
      hun.entriesIn h.inv hinv (by decide)⟩

/-- A snapshot has the live blocks. -/
theorem Recreated.entriesIn {ret : ℤ} (h : Recreated s g new ret t) (hs : s.blocks.Holds g.nodes)
    (hret : ret = 0) : (t.entriesIn .snapshot).Perm (s.entriesIn .live) := by
  obtain ⟨es, hconfined, -⟩ := h.confined
  have hlen : new.length = (g.nodes .live).length := by
    by_contra hlen
    have hret' := h.ret_eq
    rw [if_neg hlen, hret] at hret'
    exact absurd hret' (by decide)
  have hrecord := h.record
  rw [hlen, ← (hs.tableNodes_perm .live).length_eq, List.take_length] at hrecord
  have hmap : new.map t.entry = (s.blocks.tableNodes .live).map s.entry :=
    map_entry_eq (by rw [h.callstacks]) hrecord
  refine (entriesIn_perm hconfined.holds .snapshot).trans ?_
  rw [Function.update_self, State.entriesIn, ← hmap]
  exact (List.reverse_perm new).map _

/-! ### The comparison -/

/-- The copies have the blocks of the tables. -/
theorem BothCopied.entriesIn (hb : BothCopied s g new new' v) :
    (new.reverse.map v.entry).Perm (s.entriesIn .live) ∧
      (new'.reverse.map v.entry).Perm (s.entriesIn .snapshot) := by
  have htrace : v.callstacks.traceOf = s.callstacks.traceOf := by rw [hb.callstacks]
  rw [State.entriesIn, State.entriesIn, ← map_entry_eq htrace hb.current,
    ← map_entry_eq htrace hb.snapshot]
  exact ⟨(List.reverse_perm new).map _, (List.reverse_perm new').map _⟩

/-- The copies have the origins of what they are copies of. -/
theorem BothCopied.origins (hb : BothCopied s g new new' v) :
    (new.reverse.map v.origin).Perm (s.origins .live) ∧
      (new'.reverse.map v.origin).Perm (s.origins .snapshot) := by
  rw [map_origin_eq, map_origin_eq, origins_eq, origins_eq]
  exact hb.entriesIn.imp (List.Perm.map _) (List.Perm.map _)

/-- Interned callstacks differ in their frames. -/
theorem kind_eq_iff {cs : List ℕ} (h : s.callstacks.Holds cs) {m n : ℕ}
    (hm : (s.blocks.record m).allocator ∈ cs) (hn : (s.blocks.record n).allocator ∈ cs) :
    s.kind m = s.kind n ↔ s.origin m = s.origin n := by
  rw [kind, kind, origin, origin, Prod.mk.injEq, Prod.mk.injEq]
  refine and_congr_left fun _ ↦ ⟨fun heq ↦ by rw [heq], fun heq ↦ ?_⟩
  rw [Callstacks.traceOf, Callstacks.traceOf, if_neg (h.ne_null hm), if_neg (h.ne_null hn)] at heq
  exact h.inj _ hm _ hn heq

/-- What is left of the copies, as callstacks and sizes. -/
theorem Cancelled.origins {L : TableId → List ℕ} {cs : List ℕ}
    (hc : Cancelled L cs v gone kept S w) (hcs : v.callstacks.Holds cs) :
    Cancelling v.origin (L .liveCopy) (L .snapshotCopy) gone kept [] S ∧ w.origin = v.origin := by
  refine ⟨hc.cancelling.congr_key fun m hm n hn ↦ ?_, ?_⟩
  · exact kind_eq_iff hcs (hc.interned _ (by simp) m hm) (hc.interned _ (by simp) n hn)
  · funext n
    rw [origin, origin, hc.record, hc.confined.callstacks.traceOf_eq]

end State

/-- The lines of a report are no verdicts. -/
theorem filter_lines {line : ℤ → ℕ → Event} {array : List ℕ} {p : Event → Bool}
    (hline : ∀ i n, p (line i n) = false) : (lines line array).filter p = [] := by
  refine List.filter_eq_nil_iff.2 fun e he ↦ ?_
  obtain ⟨i, n, -, rfl⟩ := mem_lines he
  rw [hline]
  exact Bool.false_ne_true

/-- The verdict on one of the two tables. -/
theorem State.Remaining.verdict {s : State} {granted : Bool} {ns : List ℕ} {some_ none_ : Event}
    {es : List Event} (h : s.Remaining granted ns some_ none_ es) (hsome : some_.isVerdict)
    (hnone : none_.isVerdict) :
    es.filter Event.isVerdict = [if ns = [] then none_ else some_] := by
  rw [Remaining] at h
  split_ifs at h ⊢ with hnil hgranted
  · rw [h, List.filter_singleton, hnone]
    rfl
  · obtain ⟨array, -, rfl⟩ := h
    rw [List.filter_cons_of_pos hsome, filter_lines fun _ _ ↦ rfl]
  · rw [h, List.filter_cons_of_pos hsome]
    rfl

/-- A comparison in the state `s` that leads to `t`: `v` and `w` are the states in which the copies
have been made and in which they have been cancelled against each other, and `before` tells of the
blocks that were live when the snapshot was made. -/
structure Difference (before : List (List ℕ × ℕ)) (s v w : State) (num num' : ℤ) (es : List Event)
    (t : State) : Prop where
  copied : s.copyBoth = some (0, v)
  offset : v.offsetCopies = some (w, num, num')
  increased : ∀ p, (w.origins .liveCopy).count p = (s.origins .live).count p - before.count p
  decreased : ∀ p, (w.origins .snapshotCopy).count p = before.count p - (s.origins .live).count p
  num_eq : num = (w.origins .liveCopy).length
  num'_eq : num' = (w.origins .snapshotCopy).length
  trace : t.trace = s.trace ++ es
  verdicts : es.filter Event.isVerdict =
    [if num = 0 then .noBlockIncreased else .blocksIncreased num,
      if num' = 0 then .noBlockDecreased else .blocksDecreased num']
  same : .noBlockIncreased ∈ es ∧ .noBlockDecreased ∈ es ↔ before.Perm (s.origins .live)

namespace State

variable {s s₀ s₁ t v w : State} {g : Contents} {env : CommandEnv} {new new' kept S : List ℕ}
  {gone : List (ℕ × ℕ)}

/-- What a comparison leaves is the difference. -/
theorem ComparedWith.difference {before : List (List ℕ × ℕ)}
    (h : ComparedWith env s g new new' gone kept S v w t) (hinv : s.Inv g)
    (hbefore : (s.origins .snapshot).Perm before) :
    ∃ es, Difference before s v w kept.length S.length es t := by
  obtain ⟨hlive, hsnapshot⟩ := h.both.origins
  replace hsnapshot := hsnapshot.trans hbefore
  obtain ⟨hcancel, horigin⟩ := h.cancelled.origins (h.both.callstacks ▸ hinv.callstacks)
  have hkept : (w.origins .liveCopy).Perm (kept.map v.origin) :=
    horigin ▸ origins_perm h.cancelled.confined.holds .liveCopy
  have hS : (w.origins .snapshotCopy).Perm (S.map v.origin) :=
    horigin ▸ origins_perm h.cancelled.confined.holds .snapshotCopy
  obtain ⟨es, es', ns, htrace, hes, hes'⟩ := h.printed
  have hverdict := hes.verdict rfl rfl
  have hverdict' := hes'.verdict rfl rfl
  have hverdicts : (((new ++ new').map Event.copied ++ ((pairNodes gone).map Event.released ++
      (es ++ es')) ++ ns.map Event.released).filter Event.isVerdict : List Event) =
        [if kept = [] then .noBlockIncreased else .blocksIncreased kept.length,
          if S = [] then .noBlockDecreased else .blocksDecreased S.length] := by
    refine (filter_command (fun _ ↦ rfl) (fun _ ↦ rfl) _ _ _ _).trans ?_
    rw [List.filter_append, hverdict, hverdict', List.singleton_append]
  have hnil : ∀ ns : List ℕ, (ns.length : ℤ) = 0 ↔ ns = [] := fun ns ↦ by
    rw [Nat.cast_eq_zero, List.length_eq_zero_iff]
  refine ⟨_, h.copied, h.offset, fun p ↦ ?_, fun p ↦ ?_, ?_, ?_, htrace, ?_, ?_⟩
  · rw [hkept.count_eq, hcancel.count_left]
    exact congrArg₂ _ (hlive.count_eq p) (hsnapshot.count_eq p)
  · rw [hS.count_eq, hcancel.count_right]
    exact congrArg₂ _ (hsnapshot.count_eq p) (hlive.count_eq p)
  · rw [hkept.length_eq, List.length_map]
  · rw [hS.length_eq, List.length_map]
  · simp only [hverdicts, hnil]
  · have hmem : ∀ e : Event, e.isVerdict → (e ∈ (new ++ new').map Event.copied ++
        ((pairNodes gone).map Event.released ++ (es ++ es')) ++ ns.map Event.released ↔
          e ∈ [if kept = [] then .noBlockIncreased else .blocksIncreased kept.length,
            if S = [] then .noBlockDecreased else .blocksDecreased S.length]) := by
      intro e he
      rw [← hverdicts, List.mem_filter]
      exact ⟨fun h ↦ ⟨h, he⟩, And.left⟩
    have hboth : kept = [] ∧ S = [] ↔ before.Perm (s.origins .live) := by
      rw [hcancel.nil_iff]
      exact ⟨fun hperm ↦ (hlive.symm.trans (hperm.trans hsnapshot)).symm,
        fun hperm ↦ hlive.trans (hperm.symm.trans hsnapshot.symm)⟩
    rw [hmem _ rfl, hmem _ rfl, ← hboth]
    split_ifs <;> simp [*]

/-- A snapshot that was made, and the steps that keep it. -/
theorem Settled.snapshot_kept (h : s₀.Settled g) (hcreate : s₀.mcCreateSnapshot = some (0, s₁))
    (hmapped : .mmapFailed ∉ s₀.trace) (hrun : Relation.ReflTransGen (fun s t ↦ ∃ a : Step,
      a.KeepsSnapshot ∧ a.Ok s ∧ a.exec s = some t ∧ .mmapFailed ∉ t.trace) s₁ s) :
    ∃ g, s.Settled g ∧ (s.entriesIn .snapshot).Perm (s₀.entriesIn .live) := by
  induction hrun with
  | refl =>
    obtain ⟨new, ret, t, heq, hnew⟩ := createSnapshot_spec h.inv.blocks
    obtain ⟨rfl, rfl⟩ := Prod.mk.inj (Option.some.inj (heq.symm.trans hcreate))
    obtain ⟨es, hconfined, hfailed⟩ := hnew.confined
    have hes : .mmapFailed ∉ es := fun hmem ↦ absurd rfl (hfailed.1 hmem)
    have hstep : MappedStep s₀ t := by
      refine ⟨.command ⟨fun _ ↦ true⟩ .createSnapshot, trivial, ?_, ?_⟩
      · rw [Step.exec, Command.exec, hcreate, Option.map_some]
      · rw [hconfined.trace_eq]
        exact fun hmem ↦ (List.mem_append.1 hmem).elim hmapped hes
    obtain ⟨g', hg'⟩ := h.step hstep
    exact ⟨g', hg', hnew.entriesIn h.inv.blocks rfl⟩
  | tail _ hstep ih =>
    obtain ⟨g', hg', hperm⟩ := ih
    obtain ⟨a, hkeeps, hok, hexec, hmapped'⟩ := hstep
    obtain ⟨g'', hg'', hperm'⟩ := hg'.keepsSnapshot hkeeps hok hexec hmapped'
    exact ⟨g'', hg'', hperm'.trans hperm⟩

end State

/-- In such a run no pool was out of memory. -/
theorem MappedReachable.mapped {s : State} (hs : MappedReachable s) : .mmapFailed ∉ s.trace := by
  obtain ⟨k, mem, -, hrun⟩ := hs
  rcases Relation.ReflTransGen.cases_tail hrun with rfl | ⟨t, -, a, -, -, hmapped⟩
  · exact List.not_mem_nil
  · exact hmapped

/-- A comparison that returns `0` leaves the difference. -/
theorem State.Settled.difference {s t : State} {g : Contents} (h : s.Settled g) {env : CommandEnv}
    {before : List (List ℕ × ℕ)} (hbefore : (s.origins .snapshot).Perm before)
    (hcompare : s.mcCompareWithSnapshot env = some (0, t)) :
    ∃ v w num num' es, Difference before s v w num num' es t := by
  rcases (State.compareWithSnapshot_spec h.inv h.tidy env).value _ hcompare with
    ⟨-, -, -, new, new', gone, kept, S, v, w, hcompared⟩ | ⟨-, hret, -⟩
  · obtain ⟨es, hdiff⟩ := hcompared.difference h.inv hbefore
    exact ⟨v, w, _, _, es, hdiff⟩
  · simp at hret

/-- A snapshot that was kept has the origins of the blocks that were live when it was made. -/
theorem State.Settled.origins_kept {s₀ s₁ s : State} {g₀ : Contents} (h : s₀.Settled g₀)
    (hcreate : s₀.mcCreateSnapshot = some (0, s₁)) (hmapped : .mmapFailed ∉ s₀.trace)
    (hrun : Relation.ReflTransGen (fun s t ↦ ∃ a : Step, a.KeepsSnapshot ∧ a.Ok s ∧
      a.exec s = some t ∧ .mmapFailed ∉ t.trace) s₁ s) :
    ∃ g, s.Settled g ∧ (s.origins .snapshot).Perm (s₀.origins .live) := by
  obtain ⟨g, hg, hbefore⟩ := h.snapshot_kept hcreate hmapped hrun
  rw [State.origins_eq, State.origins_eq]
  exact ⟨g, hg, hbefore.map Entry.origin⟩

/-- The comparison with a snapshot returns, if no counter overflows, and leaves of the two copies
the difference of the blocks that are live now and those that were live when the snapshot was
made. -/
theorem compare_difference {s₀ s₁ s : State} (hs : MappedReachable s₀)
    (hcreate : s₀.mcCreateSnapshot = some (0, s₁))
    (hrun : Relation.ReflTransGen (fun s t ↦ ∃ a : Step, a.KeepsSnapshot ∧ a.Ok s ∧
      a.exec s = some t ∧ .mmapFailed ∉ t.trace) s₁ s) (env : CommandEnv) :
    (s.mcCompareWithSnapshot env = none → s.Unwieldy) ∧
      ∀ t, s.mcCompareWithSnapshot env = some (0, t) →
        ∃ v w num num' es, Difference (s₀.origins .live) s v w num num' es t := by
  obtain ⟨g₀, hg₀⟩ := hs.settled
  obtain ⟨g, hg, hbefore⟩ := hg₀.origins_kept hcreate hs.mapped hrun
  exact ⟨fun hnone ↦ hg.report_fault (c := .compareWithSnapshot) rfl hnone,
    fun t hcompare ↦ hg.difference hbefore hcompare⟩

/-- A snapshot of one block is made in the state `s₁`, with nodes for more. -/
structure State.Snapshotted (s s₁ : State) (g₁ : Contents) : Prop where
  create : s.mcCreateSnapshot = some (0, s₁)
  reachable : MappedReachable s₁
  settled : s₁.Settled g₁
  mode : s₁.doNotHook = 0
  below : s₁.heap.Below 1048640
  live : (s₁.entriesIn .live).Perm [⟨1048592, 16, []⟩]
  snapshot : (s₁.entriesIn .snapshot).Perm [⟨1048592, 16, []⟩]
  callstack : ∃ c ∈ g₁.callstacks, (s₁.callstacks.node c).trace = []
  few : g₁.callstacks.length ≤ 1
  room : (s₁.nodesFor 7).length = 7

/-- The one block. -/
theorem State.OneBlock.entriesIn_live {s : State} {g : Contents} {n c : ℕ} (h : s.OneBlock g n c) :
    s.entriesIn .live = [⟨1048592, 16, []⟩] := by
  have htrace : s.callstacks.traceOf c = [] := by
    rw [Callstacks.traceOf, h.trace, ite_self]
  rw [State.entriesIn, h.tableNodes_live, List.map_singleton, State.entry, h.record, htrace]

/-- A snapshot of the state with one block. -/
theorem State.OneBlock.exists_snapshotted {s : State} {g : Contents} {n c : ℕ}
    (h : s.OneBlock g n c) : ∃ s₁ g₁, s.Snapshotted s₁ g₁ := by
  obtain ⟨new, ret, s₁, hcreate, hnew⟩ := State.createSnapshot_spec h.inv.blocks
  have hpool : (s.destroyed .snapshot).blocks.pool = s.blocks.pool := by
    rw [State.destroyed, h.tableNodes_snapshot]
    rfl
  have htaken := hnew.taken
  rw [hpool, h.live] at htaken
  have hall : (takeNodes mcAllocateAllocMemblk (1 + 7) s.blocks.pool).1.length = 1 + 7 := h.room
  obtain ⟨hlen, hroom⟩ := @length_takeNodes_of_add _ 1 7 _ _ _ htaken hall
  obtain rfl : ret = 0 := by
    rw [hnew.ret_eq, h.live]
    exact if_pos hlen
  obtain ⟨es, hconfined, hfailed⟩ := hnew.confined
  have hstep : MappedStep s s₁ := by
    refine ⟨.command ⟨fun _ ↦ true⟩ .createSnapshot, trivial, ?_, ?_⟩
    · rw [Step.exec, Command.exec, hcreate, Option.map_some]
    · rw [hconfined.trace_eq]
      exact fun hmem ↦ (List.mem_append.1 hmem).elim h.supply fun hmem ↦ absurd rfl (hfailed.1 hmem)
  obtain ⟨g₁, hg₁⟩ : ∃ g₁, s₁.Settled g₁ :=
    State.Settled.step ⟨h.inv, h.tidy, h.attributed⟩ hstep
  have hcallstacks : g₁.callstacks.Perm g.callstacks := by
    have hperm := hg₁.inv.callstacks.tableNodes_perm
    rw [hnew.callstacks] at hperm
    exact hperm.symm.trans h.inv.callstacks.tableNodes_perm
  -- making a snapshot leaves the live blocks alone
  have hlive : s₁.entriesIn .live = s.entriesIn .live := by
    have hnot : TableId.live ∉ [TableId.snapshot] := by decide
    rw [State.entriesIn, State.entriesIn, hconfined.tableNodes_eq h.inv.blocks hnot]
    refine State.map_entry_eq (by rw [hnew.callstacks]) (List.map_congr_left fun m hm ↦ ?_)
    exact (hconfined.sameAt h.inv.blocks hnot (h.inv.blocks.mem_tableNodes.1 hm)).record_eq
  obtain ⟨k, mem, hk, hrun⟩ := h.hooked.mapped
  refine ⟨s₁, g₁, hcreate, ⟨k, mem, hk, hrun.tail hstep⟩, hg₁, ?_, ?_, ?_, ?_,
    ⟨c, hcallstacks.symm.subset h.callstacks, ?_⟩, hcallstacks.length_eq.trans_le h.few, hroom⟩
  · rw [hconfined.rest]
    exact h.resting.mode
  · rw [hconfined.rest]
    exact h.resting.below
  · rw [hlive, h.entriesIn_live]
  · rw [← h.entriesIn_live]
    exact hnew.entriesIn h.inv.blocks rfl
  · rw [hnew.callstacks]
    exact h.trace

/-- The buffer of another block may be anywhere above the first. -/
theorem State.Snapshotted.answerOk {s s₁ : State} {g₁ : Contents} (h : s.Snapshotted s₁ g₁)
    {a : ℕ} (hle : 1048640 ≤ a) (hlt : a + 64 ≤ 9223372036854775808) :
    Heap.AnswerOk (Env.handing a).answer 48 s₁.heap := by
  have hbelow : s₁.heap.Below a := fun b hb ↦ (h.below b hb).trans hle
  exact hbelow.answerOk (by omega)

/-- One more block is allocated, at an address above the first. -/
theorem State.Snapshotted.exists_malloc {s s₁ : State} {g₁ : Contents} (h : s.Snapshotted s₁ g₁)
    {a : ℕ} (hle : 1048640 ≤ a) (hlt : a + 64 ≤ 9223372036854775808) : ∃ t g₂ m c, c ≠ 0 ∧
      (Step.action (.call (Env.handing a) (.malloc 16))).Ok s₁ ∧
      (Step.action (.call (Env.handing a) (.malloc 16))).exec s₁ = some t ∧
      .mmapFailed ∉ t.trace ∧ Recorded (Env.handing a) ⟨a, 48, 16⟩ (a + 16)
        (s₁.origMalloc (Env.handing a) 48).2 g₁ m c t g₂ := by
  have hnode : s₁.HasNode := State.hasNode_of_length_nodesFor h.room
  have ha : Heap.AnswerOk (Env.handing a).answer (16 + redzoneSize * 2) s₁.heap :=
    h.answerOk hle hlt
  have hne : (Env.handing a).answer.addr ≠ 0 := (Nat.lt_of_lt_of_le (by decide) hle).ne'
  obtain ⟨t, g₂, m, c, hserve, hrec⟩ := h.settled.inv.serve_recorded hnode hne (by decide) ha
  have hexec : (Call.malloc 16).exec (Env.handing a) s₁ = some (a + 16, t) :=
    (Call.malloc_eq_serve h.mode 16).trans hserve
  obtain ⟨e, he, hnil⟩ := h.callstack
  have hc : c ≠ 0 := h.settled.inv.callstacks.get_ne_zero he (by rw [hnil]; rfl) hrec.got
  refine ⟨t, g₂, m, c, hc, ⟨(by decide : 16 < 18446744073709551616), ?_⟩, ?_, ?_, hrec⟩
  · rw [if_pos (.inr h.mode)]
    refine ⟨fun r hr ↦ ?_, h.settled.inv.not_tracks_zero, .inl rfl⟩
    obtain rfl := Option.some.inj hr
    exact ha
  · rw [Step.exec, Action.exec, hexec]
    rfl
  · have horig : (s₁.origMalloc (Env.handing a) (16 + redzoneSize * 2)).2.trace =
        s₁.trace ++ [.origMalloc 48 a] := rfl
    rw [hrec.trace, if_neg hc, List.append_nil, horig]
    exact fun hmem ↦ (List.mem_append.1 hmem).elim h.reachable.mapped (by simp)

/-- A snapshot `s₁` was made of one block, after which another of the same size was allocated from
the same callstack, with its buffer at `a`. -/
structure State.Grown (a : ℕ) (s₀ s₁ s : State) : Prop where
  reachable : MappedReachable s₀
  mapped : MappedReachable s
  create : s₀.mcCreateSnapshot = some (0, s₁)
  step : ∃ x : Step, x.KeepsSnapshot ∧ x.Ok s₁ ∧ x.exec s₁ = some s ∧ .mmapFailed ∉ s.trace
  before : s₀.entriesIn .live = [⟨1048592, 16, []⟩]
  live : (s.entriesIn .live).Perm [⟨a + 16, 16, []⟩, ⟨1048592, 16, []⟩]
  snapshot : (s.entriesIn .snapshot).Perm [⟨1048592, 16, []⟩]
  returns : ∀ env, ∃ t, s.mcCompareWithSnapshot env = some (0, t)

/-- Such a run, wherever the second block is. The comparison returns after it. -/
theorem State.exists_grownAt {a : ℕ} (hle : 1048640 ≤ a) (hlt : a + 64 ≤ 9223372036854775808) :
    ∃ s₀ s₁ s, State.Grown a s₀ s₁ s := by
  obtain ⟨s₀, g, n, c, h₀⟩ := State.exists_oneBlock
  obtain ⟨s₁, g₁, h₁⟩ := h₀.exists_snapshotted
  obtain ⟨s, g₂, m, d, hd, hok, hexec, hmapped, hrec⟩ := h₁.exists_malloc hle hlt
  obtain ⟨g₃, h⟩ := h₁.settled.step ⟨_, hok, hexec, hmapped⟩
  have horig : (s₁.origMalloc (Env.handing a) 48).2.Inv g₁ :=
    h₁.settled.inv.origMalloc (h₁.answerOk hle hlt)
  have hlive : (s.entriesIn .live).Perm [⟨a + 16, 16, []⟩, ⟨1048592, 16, []⟩] :=
    (horig.entriesIn_recorded hrec hd).trans (h₁.live.cons _)
  have hsnapshot : (s.entriesIn .snapshot).Perm [⟨1048592, 16, []⟩] :=
    (hrec.undisturbed.entriesIn horig hrec.inv (by decide)).trans h₁.snapshot
  have hlength : ∀ id, (s.blocks.tableNodes id).length = (s.entriesIn id).length := fun _ ↦
    (List.length_map ..).symm
  have hcallstacks : s.callstacks.tableNodes.length ≤ 2 := by
    have hle := hrec.interned.length_le
    have hfew := h₁.few
    rw [hrec.inv.callstacks.tableNodes_perm.length_eq]
    omega
  have hwieldy : ¬s.Unwieldy := by
    rw [State.Unwieldy, hlength, hlength, hlive.length_eq, hsnapshot.length_eq]
    simp only [List.length_cons, List.length_nil]
    omega
  -- three nodes: two live blocks and one in the snapshot
  have hnodes : (s.nodesFor 3).length = 3 := by
    have htake : takeNodes mcAllocateAllocMemblk 1 s₁.blocks.pool = ([m], s.blocks.pool) := by
      have hm : m ∈ g₂.nodes .live := by
        rw [hrec.nodes, Function.update_self]
        exact List.mem_cons_self
      have halloc : mcAllocateAllocMemblk s₁.blocks.pool = some (m, s.blocks.pool) := hrec.allocated
      simp [takeNodes, halloc, hrec.inv.blocks.ne_null hm]
    have hall : (takeNodes mcAllocateAllocMemblk (1 + 6) s₁.blocks.pool).1.length = 1 + 6 := h₁.room
    have hroom : (takeNodes mcAllocateAllocMemblk (3 + 3) s.blocks.pool).1.length = 3 + 3 :=
      (length_takeNodes_of_add htake hall).2
    exact (length_takeNodes_of_add rfl hroom).1
  obtain ⟨k, mem, hk, hreach⟩ := h₁.reachable
  refine ⟨s₀, s₁, s, h₀.hooked.mapped, ⟨k, mem, hk, hreach.tail ⟨_, hok, hexec, hmapped⟩⟩,
    h₁.create,
    ⟨.action _, trivial, hok, hexec, hmapped⟩, h₀.entriesIn_live, hlive, hsnapshot, fun env ↦ ?_⟩
  obtain ⟨⟨ret, t⟩, hrun, hx⟩ := (State.report_spec (c := .compareWithSnapshot) h.inv h.tidy rfl
    env).exists_of_not fun hfault ↦ hwieldy (h.unwieldy hfault)
  have hcopies : Command.compareWithSnapshot.copies s = 3 := by
    rw [Command.copies, hlength, hlength, hlive.length_eq, hsnapshot.length_eq]
    rfl
  rcases hx with ⟨-, rfl, -⟩ | ⟨hfew, -⟩
  · exact ⟨t, hrun⟩
  · exact absurd (by rw [hcopies, hnodes]) hfew

/-- A run with a snapshot of one block, `s₁`, after which another block is allocated. The comparison
returns in the state after that. -/
theorem exists_grown (env : CommandEnv) : ∃ s₀ s₁ s t : State, MappedReachable s₀ ∧
    s₀.mcCreateSnapshot = some (0, s₁) ∧
    (∃ a : Step, a.KeepsSnapshot ∧ a.Ok s₁ ∧ a.exec s₁ = some s ∧ .mmapFailed ∉ s.trace) ∧
    (s₀.blocks.tableNodes .live).length = 1 ∧ (s.blocks.tableNodes .live).length = 2 ∧
    s.mcCompareWithSnapshot env = some (0, t) := by
  obtain ⟨s₀, s₁, s, h⟩ := State.exists_grownAt (a := 1048640) (by decide) (by decide)
  obtain ⟨t, hrun⟩ := h.returns env
  have hlength : ∀ s : State, (s.blocks.tableNodes .live).length = (s.entriesIn .live).length :=
    fun _ ↦ (List.length_map ..).symm
  refine ⟨s₀, s₁, s, t, h.reachable, h.create, h.step, ?_, ?_, hrun⟩
  · rw [hlength, h.before]
    rfl
  · rw [hlength, h.live.length_eq]
    rfl

/-- One block is live when the snapshot is made, and two when it is compared. -/
theorem compare_difference_oneBlock : ∃ (s₀ s₁ s t v w : State) (num num' : ℤ)
    (es : List Event), (s₀.blocks.tableNodes .live).length = 1 ∧
      (s.blocks.tableNodes .live).length = 2 ∧ s₀.mcCreateSnapshot = some (0, s₁) ∧
      s.mcCompareWithSnapshot ⟨fun _ ↦ true⟩ = some (0, t) ∧
      Difference (s₀.origins .live) s v w num num' es t := by
  obtain ⟨s₀, s₁, s, t, hs, hcreate, hstep, hone, htwo, hrun⟩ := exists_grown ⟨fun _ ↦ true⟩
  obtain ⟨v, w, num, num', es, hdiff⟩ :=
    (compare_difference hs hcreate (.single hstep) ⟨fun _ ↦ true⟩).2 t hrun
  exact ⟨s₀, s₁, s, t, v, w, num, num', es, hone, htwo, hcreate, hrun, hdiff⟩

end Memchk
