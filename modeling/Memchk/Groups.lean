import Memchk.Copies
import Memchk.Library.Doubly

/-!
# The blocks of one callstack

The lists that `mc_link_same_callstack_group` threads through the nodes of a table, one list for
each callstack and link index. `Grouped` says which nodes are in them. Linking a table puts each of
its nodes into the list of its callstack, unlinking a node takes just that node out, and the lists
of the other link index are not touched.

## The lists

A list is doubly linked, with its head in the node of the callstack and its links in the nodes of
the blocks; a block without callstack is in no list. `Grouped link cs ns G s`: for each callstack
`c` of `cs` the list at `link` is `G c`, and together these are the nodes of `ns` that have a
callstack. It is `DoublyLinked` of the library, for each callstack.

## What linking changes

`Relinked touched link s t` is the frame of all operations here: the group links at `link` of the
nodes `touched`, and the heads of the callstacks at `link`. The tables, the records, the pool and
the trace stay the same, and `Callstacks.Alike` says it of the callstacks: traces and usages are the
same, heads may differ. Lists at the other link index are kept (`Relinked.grouped`).

## The walks

A function over all callstacks walks the chains of the callstack table, and `forEachCallstack` is
the walk with its rule, as for the tables of blocks. `reset_spec` is one use: all heads at a link
index are cleared, and the lists are empty afterwards whatever they were.
-/

namespace Memchk

/-- The callstacks are the same, apart from their lists and sums. -/
structure Callstacks.Alike (cs cs' : Callstacks) : Prop where
  pool : cs'.pool = cs.pool
  table : cs'.table = cs.table
  trace : ∀ c, (cs'.node c).trace = (cs.node c).trace
  usage : ∀ c, (cs'.node c).usage = (cs.node c).usage
  hashNext : ∀ c, (cs'.node c).hashNext = (cs.node c).hashNext

namespace Callstacks.Alike

variable {cs cs' cs'' : Callstacks} {ns : List ℕ}

theorem refl (cs : Callstacks) : cs.Alike cs :=
  ⟨rfl, rfl, fun _ ↦ rfl, fun _ ↦ rfl, fun _ ↦ rfl⟩

theorem trans (h : cs.Alike cs') (h' : cs'.Alike cs'') : cs.Alike cs'' :=
  ⟨h'.pool.trans h.pool, h'.table.trans h.table, fun c ↦ (h'.trace c).trans (h.trace c),
    fun c ↦ (h'.usage c).trans (h.usage c), fun c ↦ (h'.hashNext c).trans (h.hashNext c)⟩

theorem holds (h : cs.Alike cs') (hcs : cs.Holds ns) : cs'.Holds ns :=
  hcs.congr h.pool h.table fun c _ ↦ ⟨h.hashNext c, h.trace c⟩

theorem traceOf_eq (h : cs.Alike cs') (c : ℕ) : cs'.traceOf c = cs.traceOf c := by
  simp only [traceOf, h.trace]

/-- A store into the list or the sum of a node. -/
theorem modify (cs : Callstacks) (c : ℕ) {f : Callstack → Callstack}
    (htrace : ∀ x, (f x).trace = x.trace) (husage : ∀ x, (f x).usage = x.usage)
    (hnext : ∀ x, (f x).hashNext = x.hashNext) : cs.Alike (cs.modify c f) := by
  have hnode : ∀ d, (cs.modify c f).node d = if d = c then f (cs.node d) else cs.node d := by
    intro d
    rcases eq_or_ne d c with rfl | hne
    · simp only [if_true, Callstacks.modify, Function.update_self]
    · simp only [if_neg hne, Callstacks.modify, Function.update_of_ne hne]
  refine ⟨rfl, rfl, fun d ↦ ?_, fun d ↦ ?_, fun d ↦ ?_⟩
  · rw [hnode]
    split_ifs
    · exact htrace _
    · rfl
  · rw [hnode]
    split_ifs
    · exact husage _
    · rfl
  · rw [hnode]
    split_ifs
    · exact hnext _
    · rfl

end Callstacks.Alike

namespace Callstacks

/-- The nodes of the table, in the order in which `for_each_hashnode` comes to them. -/
@[irreducible]
def tableNodes (cs : Callstacks) : List ℕ :=
  (forEachNode 0 cs.next cs.table cs.rounds (tableIndices callstackHashtableSize)).getD []

/-- The table as a traversal finds it. -/
theorem Holds.buckets {cs : Callstacks} {ns : List ℕ} (h : cs.Holds ns) :
    ∃ K, Buckets cs.next 0
        (fun n ↦ calcCallstackHash (cs.node n).trace callstackHashtableSize) cs.table
        (tableIndices callstackHashtableSize) K ∧
      (∀ i ∈ tableIndices callstackHashtableSize, (K i).length < cs.rounds) ∧
      cs.tableNodes = (tableIndices callstackHashtableSize).flatMap K ∧ cs.tableNodes.Perm ns := by
  obtain ⟨K, hK, hperm, hlen⟩ := h.table.exists_buckets
  have hrounds : ∀ i ∈ tableIndices callstackHashtableSize, (K i).length < cs.rounds :=
    fun i hi ↦ lt_of_le_of_lt (hlen i hi) h.length_lt_rounds
  have heq : cs.tableNodes = (tableIndices callstackHashtableSize).flatMap K := by
    have hnode := forEachNode_eq hK hrounds
    unfold tableNodes
    rw [hnode, Option.getD_some]
  exact ⟨K, hK, hrounds, heq, heq ▸ hperm.symm⟩

/-- The walk over the callstacks meets the nodes of the table. -/
theorem Holds.tableNodes_perm {cs : Callstacks} {ns : List ℕ} (h : cs.Holds ns) :
    cs.tableNodes.Perm ns := by
  obtain ⟨-, -, -, -, hperm⟩ := h.buckets
  exact hperm

end Callstacks

namespace State

/-- The rule of `for_each_hashnode` over the callstacks. -/
theorem forEachCallstack_outcome {σ : Type} {fault : Prop}
    {body : ℕ → State × σ → Option (State × σ)} {x : State × σ} {cs : List ℕ}
    (I : List ℕ → State × σ → Prop) (h : x.1.callstacks.Holds cs)
    (hstep : ∀ c rest y, I (c :: rest) y →
      Outcome fault (body c y) fun z ↦ I rest z ∧ y.1.callstacks.Alike z.1.callstacks)
    (hinit : I x.1.callstacks.tableNodes x) : Outcome fault (forEachCallstack body x) (I []) := by
  obtain ⟨K, hK, hrounds, heq, -⟩ := h.buckets
  have his := nodup_tableIndices callstackHashtableSize
  rw [heq] at hinit
  rw [forEachCallstack]
  generalize tableIndices callstackHashtableSize = is at *
  refine forEachM_outcome I (fun c rest y hI _ ↦ ?_) his hK hrounds hinit
  refine (hstep c rest y hI).mono fun z hz ↦ ⟨hz.1, fun k _ ↦ hz.2.hashNext k, fun i _ ↦ ?_⟩
  rw [hz.2.table]

variable {s t u : State} {L : TableId → List ℕ} {id : TableId} {link link' : LinkIndex}
  {cs ns ms touched : List ℕ} {G : ℕ → List ℕ} {c n : ℕ}

/-- The head of a list. -/
def head (s : State) (link : LinkIndex) (c : ℕ) : ℕ :=
  (s.callstacks.node c).sameCallstackGroupNext link

/-- The list of the callstack `c` is `G c`, and these are the nodes among `ns` with this
callstack. -/
structure Grouped (link : LinkIndex) (cs ns : List ℕ) (G : ℕ → List ℕ) (s : State) : Prop where
  linked : ∀ c ∈ cs, DoublyLinked s.blocks.sameCallstackGroupNext s.blocks.sameCallstackGroupPrev 0
    0 (s.head link c) (G c)
  mem_iff : ∀ c ∈ cs, ∀ n, n ∈ G c ↔ n ∈ ns ∧ (s.blocks.record n).allocator = c

/-- Only the links of the nodes `touched` and the heads of the lists for `link` may differ. -/
structure Relinked (touched : List ℕ) (link : LinkIndex) (s t : State) : Prop where
  rest : t = { s with blocks := t.blocks, callstacks := t.callstacks }
  blocks : t.blocks = { s.blocks with
    sameCallstackGroupPrev := t.blocks.sameCallstackGroupPrev
    sameCallstackGroupNext := t.blocks.sameCallstackGroupNext }
  same : ∀ n, n ∉ touched → s.blocks.SameAt t.blocks n
  callstacks : s.callstacks.Alike t.callstacks
  head : ∀ link' c, link' ≠ link → t.head link' c = s.head link' c

namespace Relinked

theorem refl (touched : List ℕ) (link : LinkIndex) (s : State) : Relinked touched link s s :=
  ⟨rfl, rfl, fun _ _ ↦ .refl _ _, .refl _, fun _ _ _ ↦ rfl⟩

/-- Relinking twice. -/
theorem trans (h : Relinked touched link s t) (h' : Relinked touched link t u) :
    Relinked touched link s u where
  rest := by
    rw [h'.rest, h.rest]
  blocks := by
    rw [h'.blocks, h.blocks]
  same n hn := (h.same n hn).trans (h'.same n hn)
  callstacks := h.callstacks.trans h'.callstacks
  head link' c hne := (h'.head link' c hne).trans (h.head link' c hne)

theorem mono (h : Relinked touched link s t) (hsub : touched ⊆ ms) : Relinked ms link s t :=
  { h with same := fun n hn ↦ h.same n fun hmem ↦ hn (hsub hmem) }

theorem pool (h : Relinked touched link s t) : t.blocks.pool = s.blocks.pool := by
  rw [h.blocks]

theorem memptr (h : Relinked touched link s t) : t.blocks.memptr = s.blocks.memptr := by
  rw [h.blocks]

theorem table (h : Relinked touched link s t) : t.blocks.table = s.blocks.table := by
  rw [h.blocks]

/-- Relinking does not touch the records. -/
theorem record (h : Relinked touched link s t) : t.blocks.record = s.blocks.record := by
  rw [h.blocks]
  rfl

theorem trace (h : Relinked touched link s t) : t.trace = s.trace := by
  rw [h.rest]

theorem holds (h : Relinked touched link s t) (hs : s.blocks.Holds L) : t.blocks.Holds L :=
  hs.congr h.pool h.table fun _ _ _ ↦ congrFun h.memptr _

/-- The lists of the other link index stay if their nodes do. -/
theorem grouped (h : Relinked touched link s t) (hgroup : Grouped link' cs ns G s)
    (hlink : link' ≠ link) (happart : ns.Disjoint touched) : Grouped link' cs ns G t where
  linked c hc := by
    rw [h.head link' c hlink]
    have hsame : ∀ n ∈ G c, s.blocks.SameAt t.blocks n := fun n hn ↦
      h.same n fun hmem ↦ happart ((hgroup.mem_iff c hc n).1 hn).1 hmem
    exact (hgroup.linked c hc).congr (fun n hn ↦ (hsame n hn).next) fun n hn ↦ (hsame n hn).prev
  mem_iff c hc n := by
    rw [h.record]
    exact hgroup.mem_iff c hc n

end Relinked

theorem Grouped.nodup (h : Grouped link cs ns G s) (hc : c ∈ cs) : (G c).Nodup :=
  (h.linked c hc).linked.nodup

/-- Empty lists. -/
theorem grouped_nil (h : ∀ c ∈ cs, s.head link c = 0) : Grouped link cs [] (fun _ ↦ []) s :=
  ⟨h, fun _ _ _ ↦ by simp⟩

/-- Lists of no blocks have null heads. -/
theorem Grouped.head_eq_zero (h : Grouped link cs [] G s) (hc : c ∈ cs) : s.head link c = 0 := by
  have hnil : G c = [] := List.eq_nil_iff_forall_not_mem.2 fun n hn ↦
    absurd ((h.mem_iff c hc n).1 hn).1 List.not_mem_nil
  have hlinked := h.linked c hc
  rwa [hnil] at hlinked

/-- The lists depend on the links, the heads and the callstacks only. -/
theorem Grouped.congr (h : Grouped link cs ns G s) (hrecord : t.blocks.record = s.blocks.record)
    (hprev : t.blocks.sameCallstackGroupPrev = s.blocks.sameCallstackGroupPrev)
    (hnext : t.blocks.sameCallstackGroupNext = s.blocks.sameCallstackGroupNext)
    (hhead : t.head link = s.head link) : Grouped link cs ns G t where
  linked c hc := by
    rw [hprev, hnext, hhead]
    exact h.linked c hc
  mem_iff c hc n := by
    rw [hrecord]
    exact h.mem_iff c hc n

/-- The order in which the blocks are listed does not matter. -/
theorem Grouped.perm (h : Grouped link cs ns G s) (hperm : ns.Perm ms) : Grouped link cs ms G s :=
  ⟨h.linked, fun c hc n ↦ by rw [h.mem_iff c hc, hperm.mem_iff]⟩

/-- The head of a list is null or a node of the list. -/
theorem Grouped.head_cases (h : Grouped link cs ns G s) (hc : c ∈ cs) :
    s.head link c = 0 ∨ s.head link c ∈ G c := by
  have hlinked := h.linked c hc
  cases hG : G c with
  | nil =>
    rw [hG] at hlinked
    exact .inl hlinked
  | cons n l =>
    rw [hG] at hlinked
    exact .inr (hlinked.1 ▸ List.mem_cons_self)

/-- Setting the head of a list sets that one only. -/
theorem head_setGroup (hne : c ≠ 0) (hset : s.setGroup c link n = some t) :
    t.head link c = n ∧ (∀ d, d ≠ c → t.head link d = s.head link d) ∧
      (∀ link' d, link' ≠ link → t.head link' d = s.head link' d) ∧
      s.callstacks.Alike t.callstacks ∧ t = { s with callstacks := t.callstacks } := by
  rw [setGroup, if_neg hne] at hset
  obtain rfl := Option.some.inj hset
  refine ⟨?_, fun d hd ↦ ?_, fun link' d hlink ↦ ?_, ?_, rfl⟩
  · simp only [head, Callstacks.modify, Function.update_self]
  · simp only [head, Callstacks.modify, Function.update_of_ne hd]
  · rcases eq_or_ne d c with rfl | hd
    · simp only [head, Callstacks.modify, Function.update_self, Function.update_of_ne hlink]
    · simp only [head, Callstacks.modify, Function.update_of_ne hd]
  · exact Callstacks.Alike.modify s.callstacks c (f := fun x ↦ { x with
      sameCallstackGroupNext := Function.update x.sameCallstackGroupNext link n })
      (fun _ ↦ rfl) (fun _ ↦ rfl) fun _ ↦ rfl

/-! ### Linking -/

/-- The store into the backward link of the first node of a list. -/
theorem setGroupPrev_eq {b : Blocks} {p n : ℕ} (hp : p = 0 ∨ p ∈ b.pool.live allocMemblkSize) :
    b.setGroupPrev p n = some { b with
      sameCallstackGroupPrev := if p = 0 then b.sameCallstackGroupPrev
        else Function.update b.sameCallstackGroupPrev p n } := by
  rw [Blocks.setGroupPrev]
  split_ifs with hzero
  · rfl
  · rw [Blocks.check_of_live (hp.resolve_left hzero)]
    rfl

/-- What linking and unlinking store: the links of the nodes, and the head of one list. -/
structure Regrouped (c : ℕ) (link : LinkIndex) (next prev : ℕ → ℕ) (first : ℕ) (s t : State) :
    Prop where
  blocks : t.blocks = { s.blocks with
    sameCallstackGroupPrev := prev
    sameCallstackGroupNext := next }
  head_self : t.head link c = first
  head_other : ∀ d, d ≠ c → t.head link d = s.head link d
  links : ∀ link' d, link' ≠ link → t.head link' d = s.head link' d
  alike : s.callstacks.Alike t.callstacks
  rest : t = { s with blocks := t.blocks, callstacks := t.callstacks }

/-- `mc_link_memblk_to_callstack` as it is computed. -/
theorem link_regrouped (link : LinkIndex) (hne : c ≠ 0)
    (hn : n ∈ s.blocks.pool.live allocMemblkSize)
    (hhead : s.head link c = 0 ∨ s.head link c ∈ s.blocks.pool.live allocMemblkSize) :
    ∃ t, s.mcLinkMemblkToCallstack n c link = some t ∧
      Regrouped c link (Function.update s.blocks.sameCallstackGroupNext n (s.head link c))
        (if s.head link c = 0 then Function.update s.blocks.sameCallstackGroupPrev n 0
          else Function.update (Function.update s.blocks.sameCallstackGroupPrev n 0)
            (s.head link c) n) n s t := by
  obtain ⟨b, hb⟩ : ∃ b : Blocks, b = { s.blocks with
      sameCallstackGroupPrev := if s.head link c = 0
        then Function.update s.blocks.sameCallstackGroupPrev n 0
        else Function.update (Function.update s.blocks.sameCallstackGroupPrev n 0)
          (s.head link c) n
      sameCallstackGroupNext :=
        Function.update s.blocks.sameCallstackGroupNext n (s.head link c) } := ⟨_, rfl⟩
  obtain ⟨t, ht⟩ : ∃ t, { s with blocks := b }.setGroup c link n = some t := by
    rw [setGroup, if_neg hne]
    exact ⟨_, rfl⟩
  obtain ⟨hself, hother, hlinks, halike, hrest⟩ := head_setGroup hne ht
  have hrun : s.mcLinkMemblkToCallstack n c link = some t := by
    rw [mcLinkMemblkToCallstack, group, if_neg hne]
    simp only [Option.bind_eq_bind, Option.bind_some, Blocks.check_of_live hn]
    have hset := @setGroupPrev_eq { s.blocks with
      sameCallstackGroupPrev := Function.update s.blocks.sameCallstackGroupPrev n 0
      sameCallstackGroupNext :=
        Function.update s.blocks.sameCallstackGroupNext n (s.head link c) } (s.head link c) n
      hhead
    rw [head] at hset hb
    rw [hset, Option.bind_some, ← hb, ht]
  refine ⟨t, hrun, ?_, hself, hother, hlinks, halike, ?_⟩
  · rw [hrest, hb]
  · rw [hrest]

/-- Linking one more node. -/
theorem link_spec (hgroup : Grouped link cs ns G s) (hc : c ∈ cs) (hne : c ≠ 0)
    (hlive : ∀ m ∈ ns, m ∈ s.blocks.pool.live allocMemblkSize)
    (hn : n ∈ s.blocks.pool.live allocMemblkSize) (hnull : n ≠ 0) (hnew : n ∉ ns)
    (halloc : (s.blocks.record n).allocator = c) :
    ∃ t G', s.mcLinkMemblkToCallstack n c link = some t ∧ Relinked (n :: ns) link s t ∧
      Grouped link cs (n :: ns) G' t := by
  have hhead : s.head link c = 0 ∨ s.head link c ∈ ns :=
    (hgroup.head_cases hc).imp_right fun hmem ↦ ((hgroup.mem_iff c hc _).1 hmem).1
  have hpush := (hgroup.linked c hc).push hnull fun hmem ↦ hnew ((hgroup.mem_iff c hc n).1 hmem).1
  obtain ⟨t, hrun, hblocks, hself, hother, hlinks, halike, hrest⟩ :=
    link_regrouped link hne hn (hhead.imp_right (hlive _))
  have hsame : ∀ m, m ∉ n :: ns → s.blocks.SameAt t.blocks m := by
    intro m hm
    rw [List.mem_cons, not_or] at hm
    rw [hblocks]
    refine ⟨rfl, rfl, rfl, ?_, Function.update_of_ne hm.1 _ _⟩
    simp only
    split_ifs with hzero
    · exact Function.update_of_ne hm.1 _ _
    · have hmhead : m ≠ s.head link c := fun heq ↦ hm.2 (heq ▸ hhead.resolve_left hzero)
      exact (Function.update_of_ne hmhead _ _).trans (Function.update_of_ne hm.1 _ _)
  have hrelinked : Relinked (n :: ns) link s t :=
    ⟨hrest, by rw [hblocks], hsame, halike, hlinks⟩
  refine ⟨t, Function.update G c (n :: G c), hrun, hrelinked, fun d hd ↦ ?_, fun d hd m ↦ ?_⟩
  · rcases eq_or_ne d c with rfl | hdc
    · rw [hself, Function.update_self, hblocks]
      exact hpush
    · rw [hother d hdc, Function.update_of_ne hdc]
      -- the nodes of another list have another callstack
      have hkeep : ∀ m ∈ G d, m ≠ n ∧ m ≠ s.head link c := by
        intro m hm
        obtain ⟨hmns, hmd⟩ := (hgroup.mem_iff d hd m).1 hm
        refine ⟨ne_of_mem_of_not_mem hmns hnew, ?_⟩
        rintro rfl
        rcases hgroup.head_cases hc with hzero | hmem
        · exact (hgroup.linked d hd).linked.ne_null_of_mem hm hzero
        · exact hdc (hmd.symm.trans ((hgroup.mem_iff c hc _).1 hmem).2)
      rw [hblocks]
      refine (hgroup.linked d hd).congr (fun m hm ↦ Function.update_of_ne (hkeep m hm).1 _ _)
        fun m hm ↦ ?_
      simp only
      split_ifs
      · exact Function.update_of_ne (hkeep m hm).1 _ _
      · exact (Function.update_of_ne (hkeep m hm).2 _ _).trans
          (Function.update_of_ne (hkeep m hm).1 _ _)
  · rw [hrelinked.record]
    rcases eq_or_ne d c with rfl | hdc
    · rw [Function.update_self, List.mem_cons, hgroup.mem_iff d hd, List.mem_cons]
      constructor
      · rintro (rfl | ⟨hmem, hmd⟩)
        · exact ⟨.inl rfl, halloc⟩
        · exact ⟨.inr hmem, hmd⟩
      · rintro ⟨rfl | hmem, hmd⟩
        · exact .inl rfl
        · exact .inr ⟨hmem, hmd⟩
    · rw [Function.update_of_ne hdc, hgroup.mem_iff d hd, List.mem_cons]
      constructor
      · exact fun h ↦ ⟨.inr h.1, h.2⟩
      · rintro ⟨rfl | hmem, hmd⟩
        · exact absurd (hmd.symm.trans halloc) hdc
        · exact ⟨hmem, hmd⟩

/-- `mc_link_same_callstack_group` on a table, when no lists are there: it returns unless a block of
the table has no callstack. -/
theorem linkGroup_spec (h : s.blocks.Holds L)
    (hinterned : ∀ n ∈ L id, (s.blocks.record n).allocator = 0 ∨ (s.blocks.record n).allocator ∈ cs)
    (hhead : ∀ c ∈ cs, s.head link c = 0) :
    Outcome (∃ n ∈ L id, (s.blocks.record n).allocator = 0) (s.mcLinkSameCallstackGroup id link)
      fun t ↦ Relinked (L id) link s t ∧ (∃ G, Grouped link cs (L id) G t) ∧
        ∀ n ∈ L id, (s.blocks.record n).allocator ≠ 0 := by
  have hmem : ∀ {k}, k ∈ s.blocks.tableNodes id ↔ k ∈ L id := h.mem_tableNodes
  have hnodup : (s.blocks.tableNodes id).Nodup :=
    (h.tableNodes_perm id).nodup_iff.2 (h.table id).nodup
  -- the blocks walked over are linked, and those still to come are untouched
  let I : List ℕ → State × Unit → Prop := fun rest x ↦ ∃ done G,
    (s.blocks.tableNodes id).Perm (done ++ rest) ∧ Relinked (L id) link s x.1 ∧
      Grouped link cs done G x.1 ∧ ∀ n ∈ done, (s.blocks.record n).allocator ≠ 0
  have hloop : Outcome (∃ n ∈ L id, (s.blocks.record n).allocator = 0) (forEachMemblk id
      (fun n x ↦ do
        x.1.blocks.check n
        return (← x.1.mcLinkMemblkToCallstack n (x.1.blocks.allocator n) link, ())) (s, ()))
      (I []) := by
    refine forEachMemblk_outcome I h (fun n rest y hI _ ↦ ?_)
      ⟨[], _, by rw [List.nil_append], .refl _ _ _, grouped_nil hhead, by simp⟩
    obtain ⟨t, x⟩ := y
    obtain ⟨done, G, hperm, hrelinked, hgroup, hne⟩ := hI
    have hnodup' := hperm.nodup_iff.1 hnodup
    have hsub : ∀ k ∈ done ++ n :: rest, k ∈ L id := fun k hk ↦ hmem.1 (hperm.mem_iff.2 hk)
    have hn : n ∈ L id := hsub n (List.mem_append_right _ List.mem_cons_self)
    have hlive : ∀ k ∈ L id, k ∈ t.blocks.pool.live allocMemblkSize := by
      rw [hrelinked.pool]
      exact h.live id
    have halloc : t.blocks.allocator n = (s.blocks.record n).allocator := by
      rw [← hrelinked.record]
      rfl
    simp only [Option.bind_eq_bind, Blocks.check_of_live (hlive n hn), Option.bind_some]
    -- linking a block reads its callstack
    rcases eq_or_ne (s.blocks.record n).allocator 0 with hzero | hnz
    · rw [mcLinkMemblkToCallstack, group, if_pos (halloc.trans hzero)]
      exact .none ⟨n, hn, hzero⟩
    have hc : t.blocks.allocator n ∈ cs := halloc ▸ (hinterned n hn).resolve_left hnz
    have hnew : n ∉ done := fun hmem' ↦
      (List.nodup_append.1 hnodup').2.2 n hmem' n List.mem_cons_self rfl
    obtain ⟨u, G', hrun, hrelinked', hgroup'⟩ := link_spec hgroup hc (halloc ▸ hnz)
      (fun m hm ↦ hlive m (hsub m (List.mem_append_left _ hm))) (hlive n hn)
      (h.ne_null hn) hnew rfl
    rw [hrun]
    have hboth : Relinked (L id) link s u := hrelinked.trans (hrelinked'.mono fun m hm ↦ by
      rcases List.mem_cons.1 hm with rfl | hm
      · exact hn
      · exact hsub m (List.mem_append_left _ hm))
    refine .some ⟨⟨n :: done, G', hperm.trans List.perm_middle, hboth, hgroup', ?_⟩, ?_,
      fun k _ ↦ ?_, fun i _ ↦ ?_⟩
    · intro m hm
      rcases List.mem_cons.1 hm with rfl | hm
      · exact hnz
      · exact hne m hm
    · show n ∈ u.blocks.pool.live allocMemblkSize
      rw [hboth.pool]
      exact h.live id n hn
    · show (u.blocks.memptr k).hashNext = (t.blocks.memptr k).hashNext
      rw [hrelinked'.memptr]
    · show u.blocks.table id i = t.blocks.table id i
      rw [hrelinked'.table]
  rw [mcLinkSameCallstackGroup]
  refine hloop.bind ?_
  rintro ⟨t, x⟩ ⟨done, G, hperm, hrelinked, hgroup, hne⟩
  refine .some ?_
  rw [List.append_nil] at hperm
  have hdone : ∀ k, k ∈ done ↔ k ∈ L id := fun k ↦ hperm.mem_iff.symm.trans hmem
  refine ⟨hrelinked, ⟨G, hgroup.linked, fun c hc k ↦ ?_⟩, fun k hk ↦ hne k ((hdone k).2 hk)⟩
  rw [hgroup.mem_iff c hc, hdone]

/-! ### Unlinking -/

/-- `mc_unlink_memblk_from_callstack` as it is computed, on a node between nodes of the pool. -/
theorem unlink_regrouped (link : LinkIndex) (hne : c ≠ 0)
    (hn : n ∈ s.blocks.pool.live allocMemblkSize)
    (hnext : s.blocks.sameCallstackGroupNext n = 0 ∨
      s.blocks.sameCallstackGroupNext n ∈ s.blocks.pool.live allocMemblkSize)
    (hprev : s.blocks.sameCallstackGroupPrev n = 0 ∨
      s.blocks.sameCallstackGroupPrev n ∈ s.blocks.pool.live allocMemblkSize) :
    ∃ t, s.mcUnlinkMemblkFromCallstack n c link = some t ∧
      Regrouped c link
        (DoublyLinked.unlinkForward s.blocks.sameCallstackGroupNext
          s.blocks.sameCallstackGroupPrev 0 n)
        (DoublyLinked.unlinkBackward s.blocks.sameCallstackGroupNext
          s.blocks.sameCallstackGroupPrev 0 n)
        (DoublyLinked.unlinkStart s.blocks.sameCallstackGroupNext
          s.blocks.sameCallstackGroupPrev 0 (s.head link c) n) s t := by
  rw [mcUnlinkMemblkFromCallstack]
  simp only [Option.bind_eq_bind, Blocks.check_of_live hn, Option.bind_some]
  split_ifs with hzero
  · obtain ⟨u, hu⟩ : ∃ u, s.setGroup c link (s.blocks.sameCallstackGroupNext n) = some u := by
      rw [setGroup, if_neg hne]
      exact ⟨_, rfl⟩
    obtain ⟨hself, hother, hlinks, halike, hrest⟩ := head_setGroup hne hu
    have hblocks : u.blocks = s.blocks := by rw [hrest]
    have hset := @setGroupPrev_eq u.blocks (s.blocks.sameCallstackGroupNext n) 0
      (by rw [hblocks]; exact hnext)
    rw [hu, Option.bind_some, hset]
    refine ⟨_, rfl, ?_, ?_, hother, hlinks, halike, ?_⟩
    · rw [DoublyLinked.unlinkForward, if_pos hzero, DoublyLinked.unlinkBackward, hzero, hblocks]
    · rw [DoublyLinked.unlinkStart, if_pos hzero]
      exact hself
    · rw [hrest]
  · have hset := @setGroupPrev_eq { s.blocks with
      sameCallstackGroupNext := Function.update s.blocks.sameCallstackGroupNext
        (s.blocks.sameCallstackGroupPrev n) (s.blocks.sameCallstackGroupNext n) }
      (s.blocks.sameCallstackGroupNext n) (s.blocks.sameCallstackGroupPrev n) hnext
    rw [Blocks.check_of_live (hprev.resolve_left hzero), Option.bind_some, hset]
    refine ⟨_, rfl, ?_, ?_, fun _ _ ↦ rfl, fun _ _ _ ↦ rfl, .refl _, rfl⟩
    · rw [DoublyLinked.unlinkForward, if_neg hzero, DoublyLinked.unlinkBackward]
    · rw [DoublyLinked.unlinkStart, if_neg hzero]
      rfl

/-- `mc_unlink_memblk_from_callstack` on a node of a list. -/
theorem unlink_spec (hgroup : Grouped link cs ns G s) (hns : ns.Nodup)
    (hlive : ∀ m ∈ ns, m ∈ s.blocks.pool.live allocMemblkSize) (hn : n ∈ ns)
    (hc : (s.blocks.record n).allocator ∈ cs) (hne : (s.blocks.record n).allocator ≠ 0) :
    ∃ t G', s.mcUnlinkMemblkFromCallstack n (s.blocks.record n).allocator link = some t ∧
      Relinked ns link s t ∧ Grouped link cs (ns.erase n) G' t := by
  obtain ⟨c, hcn⟩ : ∃ c, c = (s.blocks.record n).allocator := ⟨_, rfl⟩
  rw [← hcn] at hc hne ⊢
  have hmem : ∀ {d m}, d ∈ cs → m ∈ G d → m ∈ ns := fun hd hm ↦ ((hgroup.mem_iff _ hd _).1 hm).1
  obtain ⟨l₁, l₂, hG⟩ := List.append_of_mem ((hgroup.mem_iff c hc n).2 ⟨hn, hcn.symm⟩)
  have hlinked := hgroup.linked c hc
  have hnodup := hgroup.nodup hc
  rw [hG] at hlinked hnodup
  have hunlink := hlinked.unlink
  -- the neighbours of the node are in its list
  have hnext : s.blocks.sameCallstackGroupNext n = 0 ∨ s.blocks.sameCallstackGroupNext n ∈ G c := by
    rw [hG]
    exact hlinked.next_mem_or.imp_right fun h ↦ by simp [h]
  have hprev : s.blocks.sameCallstackGroupPrev n = 0 ∨ s.blocks.sameCallstackGroupPrev n ∈ G c := by
    rw [hG]
    exact hlinked.prev_mem_or.imp_right fun h ↦ by simp [h]
  obtain ⟨t, hrun, hblocks, hhead, hother, hlinks, halike, hrest⟩ :=
    unlink_regrouped link hne (hlive n hn) (hnext.imp_right fun h ↦ hlive _ (hmem hc h))
      (hprev.imp_right fun h ↦ hlive _ (hmem hc h))
  -- nodes of other lists, and nodes in no list, keep their links
  have hkeep : ∀ m, m ∉ G c → t.blocks.sameCallstackGroupNext m =
    s.blocks.sameCallstackGroupNext m ∧
      t.blocks.sameCallstackGroupPrev m = s.blocks.sameCallstackGroupPrev m := by
    intro m hm
    rw [hG] at hm
    rw [hblocks]
    exact ⟨hlinked.unlinkForward_of_notMem hm, hlinked.unlinkBackward_of_notMem hm⟩
  have hrelinked : Relinked ns link s t := by
    refine ⟨hrest, ?_, fun m hm ↦ ?_, halike, hlinks⟩
    · rw [hblocks]
    · obtain ⟨hnext, hprev⟩ := hkeep m fun hmem' ↦ hm (hmem hc hmem')
      refine ⟨?_, ?_, ?_, hprev, hnext⟩ <;> rw [hblocks]
  refine ⟨t, Function.update G c (l₁ ++ l₂), hrun, hrelinked, fun d hd ↦ ?_, fun d hd m ↦ ?_⟩
  · rcases eq_or_ne d c with rfl | hdc
    · rw [Function.update_self, hhead, hblocks]
      exact hunlink
    · rw [Function.update_of_ne hdc, hother d hdc]
      have hdis : ∀ m ∈ G d, m ∉ G c := fun m hm hm' ↦
        hdc (((hgroup.mem_iff d hd m).1 hm).2.symm.trans ((hgroup.mem_iff c hc m).1 hm').2)
      exact (hgroup.linked d hd).congr (fun m hm ↦ (hkeep m (hdis m hm)).1)
        fun m hm ↦ (hkeep m (hdis m hm)).2
  · rw [hrelinked.record, hns.mem_erase_iff]
    rcases eq_or_ne d c with rfl | hdc
    · have hiff := hgroup.mem_iff d hd m
      have hnot := (List.nodup_middle.1 hnodup).notMem
      rw [hG, List.mem_append, List.mem_cons] at hiff
      rw [Function.update_self, List.mem_append]
      constructor
      · intro h
        have hm := hiff.1 (h.imp_right .inr)
        refine ⟨⟨?_, hm.1⟩, hm.2⟩
        rintro rfl
        exact hnot (List.mem_append.2 h)
      · rintro ⟨⟨hmn, hm⟩, hmd⟩
        rcases hiff.2 ⟨hm, hmd⟩ with h | rfl | h
        · exact .inl h
        · exact absurd rfl hmn
        · exact .inr h
    · rw [Function.update_of_ne hdc, hgroup.mem_iff d hd]
      constructor
      · rintro ⟨hm, hmd⟩
        refine ⟨⟨?_, hm⟩, hmd⟩
        rintro rfl
        exact hdc (hmd.symm.trans hcn.symm)
      · rintro ⟨⟨-, hm⟩, hmd⟩
        exact ⟨hm, hmd⟩

/-! ### Emptying the lists -/

/-- `mc_reset_same_callstack_group` returns. -/
theorem reset_spec (h : s.callstacks.Holds cs) (link : LinkIndex) :
    ∃ t, s.mcResetSameCallstackGroup link = some t ∧ Relinked [] link s t ∧
      t.blocks = s.blocks ∧ ∀ c ∈ cs, t.head link c = 0 := by
  have hperm := h.tableNodes_perm
  let I : List ℕ → State × Unit → Prop := fun rest x ↦ ∃ done,
    s.callstacks.tableNodes = done ++ rest ∧ Relinked [] link s x.1 ∧ x.1.blocks = s.blocks ∧
      ∀ c ∈ done, x.1.head link c = 0
  have hloop : Outcome False (forEachCallstack
      (fun c x ↦ do return (← x.1.setGroup c link 0, ())) (s, ())) (I []) := by
    refine forEachCallstack_outcome I h (fun c rest y hI ↦ ?_)
      ⟨[], (List.nil_append _).symm, .refl _ _ _, rfl, by simp⟩
    obtain ⟨t, x⟩ := y
    obtain ⟨done, hdone, hrelinked, hblocks, hzero⟩ := hI
    have hc : c ∈ cs := hperm.subset (hdone ▸ List.mem_append_right _ List.mem_cons_self)
    obtain ⟨u, hu⟩ : ∃ u, t.setGroup c link 0 = some u := by
      rw [setGroup, if_neg (h.ne_null hc)]
      exact ⟨_, rfl⟩
    obtain ⟨hself, hother, hlinks, halike, hrest⟩ := head_setGroup (h.ne_null hc) hu
    have hublocks : u.blocks = t.blocks := by rw [hrest]
    simp only [hu, Option.bind_eq_bind, Option.bind_some]
    refine .some ⟨⟨done ++ [c], ?_, ?_, hublocks.trans hblocks, fun d hd ↦ ?_⟩, halike⟩
    · rw [hdone, List.append_assoc, List.singleton_append]
    · refine hrelinked.trans ⟨?_, ?_, fun n _ ↦ ?_, halike, hlinks⟩
      · rw [hrest]
      · rw [hublocks]
      · rw [hublocks]
        exact .refl _ _
    · rcases eq_or_ne d c with rfl | hdc
      · exact hself
      · rw [hother d hdc]
        rcases List.mem_append.1 hd with hd | hd
        · exact hzero d hd
        · exact absurd (List.mem_singleton.1 hd) hdc
  obtain ⟨⟨t, x⟩, hrun, done, hdone, hrelinked, hblocks, hzero⟩ := hloop.exists_of_not not_false
  rw [List.append_nil] at hdone
  refine ⟨t, ?_, hrelinked, hblocks, fun c hc ↦ hzero c (hdone ▸ hperm.mem_iff.2 hc)⟩
  rw [mcResetSameCallstackGroup, hrun]
  rfl

end State

end Memchk
