import Memchk.Allocator.AllocBlk
import Memchk.Hashtable

/-!
# Callstacks

The interned callstacks of `memchk_callstack.c`. Every distinct backtrace gets one node, kept for
good in a table hashed by the sum of the return addresses; `mc_get_callstack` returns the node of
the current backtrace. The nodes also head the lists of the blocks of one callstack that the reports
build, one list for each link index.

## The operations

`mc_get_callstack` captures at most as many frames as a node has room for, looks the backtrace up,
and either counts the use of the node found or enters a new one. The count is an `int` that is
stepped without a check. When the pool of nodes has run out of pages the call returns the null
pointer, and the block is registered with no callstack.

## The invariant

`Callstacks.Holds cs ns`: the table holds the nodes `ns`, no two of them carry the same trace, and
all are live blocks of the pool. `Callstacks.Extends cs cs' ns` is what every call gives to the
modules above: nodes that were there keep their traces. A node is never removed, so traces of a
state are traces of all later states.

## Main results

* `Holds.get_cases`: the three ways `mc_get_callstack` ends, each with the state after it.
* `Holds.get`: it returns, the invariant holds of the nodes and the one that was entered, and the
  node returned carries the backtrace.
* `Holds.intern`: the same as a step from one list of nodes to the next, `Interned`, the form the
  hooks use.
-/

namespace Memchk

/-- `LINK_SNAPSHOT` and `LINK_CURRENT`. -/
inductive LinkIndex
  | snapshot
  | current
deriving DecidableEq

/-- `struct callstack`; `depth` is the length of `trace`. -/
structure Callstack where
  trace : List ℕ
  hashNext : ℕ
  sameCallstackGroupNext : LinkIndex → ℕ
  totalSize : ℤ
  usage : ℤ

/-- The pool of callstacks, its nodes, and `mc_callstack_hashtable`. -/
structure Callstacks where
  pool : Pool
  node : ℕ → Callstack
  table : ℤ → ℕ

/-- `MAX_CALLSTACK_DEPTH`. -/
abbrev maxCallstackDepth : ℕ := 32

/-- `__calc_callstack_hash`. -/
def calcCallstackHash (trace : List ℕ) (size : ℕ) : ℤ :=
  toInt32 (trace.foldl (fun val a ↦ wrapSize (val + a)) 0 % size : ℕ)

/-- `mc_match_callstack` returns `0`. -/
def mcMatchCallstack (cs1 cs2 : List ℕ) : Bool :=
  cs1.length = cs2.length && cs1 = cs2

namespace Callstacks

/-- The link of a node in its bucket. -/
def next (cs : Callstacks) (n : ℕ) : ℕ :=
  (cs.node n).hashNext

/-- A store into a node. -/
def modify (n : ℕ) (f : Callstack → Callstack) (cs : Callstacks) : Callstacks :=
  { cs with node := Function.update cs.node n (f (cs.node n)) }

/-- The trace that a pointer to a callstack stands for, if it is not null. -/
def traceOf (cs : Callstacks) (n : ℕ) : List ℕ :=
  if n = 0 then [] else (cs.node n).trace

/-- The rounds of the loops over the callstacks. -/
def rounds (cs : Callstacks) : ℕ :=
  cs.pool.rounds callstackSize

end Callstacks

/-- `mc_add_callstack_hashtable`. -/
def mcAddCallstackHashtable (callstack : ℕ) (cs : Callstacks) : Callstacks :=
  let hash := calcCallstackHash (cs.node callstack).trace callstackHashtableSize
  let cs := cs.modify callstack fun x ↦ { x with hashNext := cs.table hash }
  { cs with table := Function.update cs.table hash callstack }

/-- `mc_find_callstack_hashtable`. -/
def mcFindCallstackHashtable (trace : List ℕ) (cs : Callstacks) : Option ℕ :=
  (seek cs.next 0 (fun n ↦ mcMatchCallstack (cs.node n).trace trace) cs.rounds 0
    (cs.table (calcCallstackHash trace callstackHashtableSize))).map Prod.snd

/-- `mc_get_callstack`, with `frames` what `backtrace` finds. The fields of a new node that are
copied from the stack without having been set (`hash_next`, `total_size`) are set before they are
read. -/
def mcGetCallstack (frames : List ℕ) (cs : Callstacks) : Option (ℕ × Callstacks) := do
  let trace := frames.take maxCallstackDepth
  let found ← mcFindCallstackHashtable trace cs
  if found ≠ 0 then
    return (found, cs.modify found fun x ↦ { x with usage := toInt32 (x.usage + 1) })
  let (new, pool) ← mcAllocateCallstack cs.pool
  let cs := { cs with pool := pool }
  if new = 0 then return (0, cs)
  let cs := cs.modify new fun x ↦
    { x with trace := trace, usage := 1, sameCallstackGroupNext := fun _ ↦ 0 }
  return (new, mcAddCallstackHashtable new cs)

/-! ### The table of callstacks -/

theorem mcMatchCallstack_iff {t₁ t₂ : List ℕ} : mcMatchCallstack t₁ t₂ = true ↔ t₁ = t₂ := by
  rw [mcMatchCallstack, Bool.and_eq_true, decide_eq_true_iff, decide_eq_true_iff]
  exact ⟨And.right, fun h ↦ ⟨congrArg List.length h, h⟩⟩

theorem calcCallstackHash_mem (trace : List ℕ) :
    calcCallstackHash trace callstackHashtableSize ∈ tableIndices callstackHashtableSize :=
  calcPtrHash_mem (by decide) (by decide) _

/-- The table holds the nodes `ns`: live blocks of the pool, with one node for each trace. -/
structure Callstacks.Holds (cs : Callstacks) (ns : List ℕ) : Prop where
  pool : cs.pool.Inv callstackPoolHead callstackSize
  table : HashChains cs.next 0
    (fun n ↦ calcCallstackHash (cs.node n).trace callstackHashtableSize) cs.table
    (tableIndices callstackHashtableSize) ns
  live : ∀ n ∈ ns, n ∈ cs.pool.live callstackSize
  inj : ∀ m ∈ ns, ∀ n ∈ ns, (cs.node m).trace = (cs.node n).trace → m = n

namespace Callstacks.Holds

variable {cs cs' : Callstacks} {ns : List ℕ}

theorem ne_null (h : cs.Holds ns) {n : ℕ} (hn : n ∈ ns) : n ≠ 0 :=
  h.table.ne_null_of_mem hn

/-- A walk over a chain has rounds enough for all nodes. -/
theorem length_lt_rounds (h : cs.Holds ns) : ns.length < cs.rounds := by
  have hnodup := h.table.nodup (nodup_tableIndices _)
  rw [← List.toFinset_card_of_nodup hnodup]
  refine Nat.lt_succ_of_le ((Finset.card_le_card fun n hn ↦ ?_).trans (Pool.card_live_le _ _))
  exact h.live n (List.mem_toFinset.1 hn)

/-- The invariant looks at the links and traces of the table's nodes only. -/
theorem congr (h : cs.Holds ns) (hpool : cs'.pool = cs.pool) (htable : cs'.table = cs.table)
    (hnode : ∀ n ∈ ns, (cs'.node n).hashNext = (cs.node n).hashNext ∧
      (cs'.node n).trace = (cs.node n).trace) : cs'.Holds ns where
  pool := hpool ▸ h.pool
  table := h.table.congr (fun n hn ↦ (hnode n hn).1) (fun n hn ↦ by rw [(hnode n hn).2])
    fun i _ ↦ by rw [htable]
  live n hn := hpool ▸ h.live n hn
  inj m hm n hn heq := h.inj m hm n hn (by rw [← (hnode m hm).2, ← (hnode n hn).2, heq])

/-- The search finds the node of a trace, if there is one. -/
theorem find (h : cs.Holds ns) (trace : List ℕ) :
    (∀ n ∈ ns, (cs.node n).trace ≠ trace) ∧ mcFindCallstackHashtable trace cs = some 0 ∨
      ∃ n ∈ ns, (cs.node n).trace = trace ∧ mcFindCallstackHashtable trace cs = some n := by
  rcases h.table.search (nodup_tableIndices _) (calcCallstackHash_mem trace) h.length_lt_rounds
    (fun n ↦ mcMatchCallstack (cs.node n).trace trace) with ⟨hnone, prev, hseek⟩ |
    ⟨prev, n, hn, -, hstop, hseek, -⟩
  · refine .inl ⟨fun n hn heq ↦ ?_, by rw [mcFindCallstackHashtable, hseek]; rfl⟩
    have hstop := hnone n hn (by rw [heq])
    rw [mcMatchCallstack_iff.2 heq] at hstop
    exact absurd hstop (by simp)
  · exact .inr ⟨n, hn, mcMatchCallstack_iff.1 hstop, by rw [mcFindCallstackHashtable, hseek]; rfl⟩

end Callstacks.Holds

/-- What `mc_get_callstack` may change: the node `c` is used once more, and all other nodes that
were in the table are as before. -/
structure Callstacks.Extends (cs cs' : Callstacks) (ns : List ℕ) : Prop where
  trace : ∀ n ∈ ns, (cs'.node n).trace = (cs.node n).trace
  group : ∀ n ∈ ns, (cs'.node n).sameCallstackGroupNext = (cs.node n).sameCallstackGroupNext

/-- Nodes that were there keep their traces, and the null pointer has none. -/
theorem Callstacks.Extends.traceOf_eq {cs cs' : Callstacks} {ns : List ℕ} (h : cs.Extends cs' ns)
    {n : ℕ} (hn : n = 0 ∨ n ∈ ns) : cs'.traceOf n = cs.traceOf n := by
  by_cases h0 : n = 0
  · rw [traceOf, traceOf, if_pos h0, if_pos h0]
  · rw [traceOf, traceOf, if_neg h0, if_neg h0, h.trace n (hn.resolve_left h0)]

namespace Callstacks

/-- The callstacks when `mc_get_callstack` has made `new` the node of a trace. -/
def enter (trace : List ℕ) (new : ℕ) (pool : Pool) (cs : Callstacks) : Callstacks :=
  mcAddCallstackHashtable new (({ cs with pool := pool } : Callstacks).modify new fun x ↦
    { x with trace := trace, usage := 1, sameCallstackGroupNext := fun _ ↦ 0 })

/-- The callstacks when `mc_get_callstack` has found the node `c`. -/
def use (c : ℕ) (cs : Callstacks) : Callstacks :=
  cs.modify c fun x ↦ { x with usage := toInt32 (x.usage + 1) }

variable {cs : Callstacks} {ns trace : List ℕ} {n new c : ℕ} {pool : Pool}

/-- A node that is entered carries the trace. -/
theorem node_enter_self : (cs.enter trace new pool).node new =
    { cs.node new with
      trace := trace
      hashNext := cs.table (calcCallstackHash trace callstackHashtableSize)
      sameCallstackGroupNext := fun _ ↦ 0
      usage := 1 } := by
  simp [enter, mcAddCallstackHashtable, modify]

theorem node_enter_of_ne (hn : n ≠ new) : (cs.enter trace new pool).node n = cs.node n := by
  simp [enter, mcAddCallstackHashtable, modify, hn]

theorem table_enter : (cs.enter trace new pool).table =
    Function.update cs.table (calcCallstackHash trace callstackHashtableSize) new := by
  simp [enter, mcAddCallstackHashtable, modify]

/-- Only how often the node was used has changed. -/
theorem fields_use (n : ℕ) : ((cs.use c).node n).hashNext = (cs.node n).hashNext ∧
    ((cs.use c).node n).trace = (cs.node n).trace ∧
    ((cs.use c).node n).sameCallstackGroupNext = (cs.node n).sameCallstackGroupNext := by
  by_cases hn : n = c
  · subst hn
    simp [use, modify]
  · simp [use, modify, hn]

/-- Entering a new node leaves the nodes of the table as they were. -/
theorem extends_enter (hnew : new ∉ ns) : cs.Extends (cs.enter trace new pool) ns where
  trace n hn := by rw [node_enter_of_ne (ne_of_mem_of_not_mem hn hnew)]
  group n hn := by rw [node_enter_of_ne (ne_of_mem_of_not_mem hn hnew)]

theorem extends_use : cs.Extends (cs.use c) ns :=
  ⟨fun n _ ↦ (fields_use n).2.1, fun n _ ↦ (fields_use n).2.2⟩

theorem Holds.use (h : cs.Holds ns) : (cs.use c).Holds ns :=
  h.congr rfl rfl fun n _ ↦ ⟨(fields_use n).1, (fields_use n).2.1⟩

/-- A trace that no node has gets one. -/
theorem Holds.enter (h : cs.Holds ns) (hpool : pool.Inv callstackPoolHead callstackSize)
    (hlive : pool.live callstackSize = insert new (cs.pool.live callstackSize)) (hne : new ≠ 0)
    (hnew : new ∉ ns) (hnone : ∀ n ∈ ns, (cs.node n).trace ≠ trace) :
    (cs.enter trace new pool).Holds (new :: ns) where
  pool := hpool
  table := by
    have hself : ((cs.enter trace new pool).node new).trace = trace := by rw [node_enter_self]
    have htable : HashChains cs.next 0 (fun n ↦ calcCallstackHash
        ((cs.enter trace new pool).node n).trace callstackHashtableSize) cs.table
        (tableIndices callstackHashtableSize) ns :=
      h.table.congr (fun _ _ ↦ rfl)
        (fun n hn ↦ by rw [node_enter_of_ne (ne_of_mem_of_not_mem hn hnew)]) fun _ _ ↦ rfl
    refine (htable.push (nodup_tableIndices _) hne hnew (calcCallstackHash_mem _)).congr
      (fun n _ ↦ ?_) (fun _ _ ↦ rfl) fun i _ ↦ ?_
    · by_cases hn : n = new
      · subst hn
        rw [Function.update_self, next, node_enter_self]
      · rw [Function.update_of_ne hn, next, node_enter_of_ne hn]
        rfl
    · rw [table_enter, hself]
  live n hn := by
    show n ∈ pool.live callstackSize
    rw [hlive]
    rcases List.mem_cons.1 hn with rfl | hn
    · exact Finset.mem_insert_self _ _
    · exact Finset.mem_insert_of_mem (h.live n hn)
  inj m hm n hn heq := by
    have hself : ((cs.enter trace new pool).node new).trace = trace := by rw [node_enter_self]
    have hother : ∀ k ∈ ns, ((cs.enter trace new pool).node k).trace = (cs.node k).trace :=
      (extends_enter hnew).trace
    rcases List.mem_cons.1 hm with rfl | hm' <;> rcases List.mem_cons.1 hn with rfl | hn'
    · rfl
    · rw [hself, hother n hn'] at heq
      exact absurd heq.symm (hnone n hn')
    · rw [hother m hm', hself] at heq
      exact absurd heq (hnone m hm')
    · rw [hother m hm', hother n hn'] at heq
      exact h.inj m hm' n hn' heq

/-- The ways of `mc_get_callstack`: the node of the trace is in the table, or there is no node for
it, or a new one is entered. -/
theorem Holds.get_cases (h : cs.Holds ns) (frames : List ℕ) :
    (∃ n ∈ ns, (cs.node n).trace = frames.take maxCallstackDepth ∧
      mcGetCallstack frames cs = some (n, cs.use n)) ∨
    (∀ n ∈ ns, (cs.node n).trace ≠ frames.take maxCallstackDepth) ∧
      ((∃ pool : Pool, pool.Inv callstackPoolHead callstackSize ∧
          pool.live callstackSize = cs.pool.live callstackSize ∧
          mcGetCallstack frames cs = some (0, { cs with pool := pool })) ∨
        ∃ new, ∃ pool : Pool, pool.Inv callstackPoolHead callstackSize ∧
          pool.live callstackSize = insert new (cs.pool.live callstackSize) ∧ new ≠ 0 ∧ new ∉ ns ∧
          mcGetCallstack frames cs =
            some (new, cs.enter (frames.take maxCallstackDepth) new pool)) := by
  rcases h.find (frames.take maxCallstackDepth) with ⟨hnone, hfind⟩ | ⟨c, hc, htrace, hfind⟩
  · obtain ⟨new, pool, halloc, hinv, hcases⟩ := h.pool.mcAllocatorAlloc_spec
    have halloc' : mcAllocateCallstack cs.pool = some (new, pool) := halloc
    refine .inr ⟨hnone, ?_⟩
    rw [mcGetCallstack, hfind]
    simp only [Option.bind_eq_bind, Option.bind_some, ne_eq, not_true_eq_false, if_false, halloc']
    rcases hcases with ⟨rfl, rfl, -⟩ | ⟨hne, hnot, hlive, -⟩
    · exact .inl ⟨_, hinv, rfl, if_pos rfl⟩
    · exact .inr ⟨new, pool, hinv, hlive, hne, fun hmem ↦ hnot (h.live new hmem), if_neg hne⟩
  · refine .inl ⟨c, hc, htrace, ?_⟩
    rw [mcGetCallstack, hfind]
    simp only [Option.bind_eq_bind, Option.bind_some, ne_eq, h.ne_null hc, not_false_eq_true,
      if_true]
    rfl

/-- `mc_get_callstack` gives the one node of the trace, new or not; it fails only if the pool
does. -/
theorem Holds.get (h : cs.Holds ns) (frames : List ℕ) :
    ∃ c cs', mcGetCallstack frames cs = some (c, cs') ∧ cs.Extends cs' ns ∧
      (c = 0 ∧ cs'.Holds ns ∨
        (cs'.node c).trace = frames.take maxCallstackDepth ∧
          (c ∈ ns ∧ cs'.Holds ns ∨
            c ∉ ns ∧ cs'.Holds (c :: ns) ∧ ∀ i, (cs'.node c).sameCallstackGroupNext i = 0)) := by
  rcases h.get_cases frames with ⟨c, hc, htrace, hget⟩ |
    ⟨hnone, ⟨pool, hinv, hlive, hget⟩ | ⟨new, pool, hinv, hlive, hne, hnew, hget⟩⟩
  · exact ⟨c, cs.use c, hget, extends_use,
      .inr ⟨(fields_use c).2.1.trans htrace, .inl ⟨hc, h.use⟩⟩⟩
  · exact ⟨0, _, hget, ⟨fun _ _ ↦ rfl, fun _ _ ↦ rfl⟩,
      .inl ⟨rfl, hinv, h.table, fun n hn ↦ hlive ▸ h.live n hn, h.inj⟩⟩
  · refine ⟨new, _, hget, extends_enter hnew,
      .inr ⟨?_, .inr ⟨hnew, h.enter hinv hlive hne hnew hnone, fun i ↦ ?_⟩⟩⟩
    · rw [node_enter_self]
    · rw [node_enter_self]

/-- A callstack that is in the table is found again, whatever the pool does. -/
theorem Holds.get_ne_zero {cs' : Callstacks} {frames : List ℕ} (h : cs.Holds ns) (hn : n ∈ ns)
    (htrace : (cs.node n).trace = frames.take maxCallstackDepth)
    (hget : mcGetCallstack frames cs = some (c, cs')) : c ≠ 0 := by
  rcases h.get_cases frames with ⟨m, hm, -, hget'⟩ | ⟨hnone, -⟩
  · obtain ⟨rfl, -⟩ := Prod.mk.inj (Option.some.inj (hget'.symm.trans hget))
    exact h.ne_null hm
  · exact absurd htrace (hnone n hn)

end Callstacks

/-- The callstack `c` was got for a backtrace, or is null: the table holds `ns'` now. -/
structure Callstacks.Interned (frames : List ℕ) (cs : Callstacks) (ns : List ℕ) (c : ℕ)
    (cs' : Callstacks) (ns' : List ℕ) : Prop where
  holds : cs'.Holds ns'
  extends_ : cs.Extends cs' ns
  sub : ns ⊆ ns'
  length_le : ns'.length ≤ ns.length + 1
  result : c = 0 ∨ c ∈ ns' ∧ (cs'.node c).trace = frames.take maxCallstackDepth
  fresh : ∀ n ∈ ns', n ∈ ns ∨ ∀ i, (cs'.node n).sameCallstackGroupNext i = 0

/-- `mc_get_callstack` returns. -/
theorem Callstacks.Holds.intern {cs : Callstacks} {ns : List ℕ} (h : cs.Holds ns)
    (frames : List ℕ) :
    ∃ c cs' ns', mcGetCallstack frames cs = some (c, cs') ∧
      Callstacks.Interned frames cs ns c cs' ns' := by
  obtain ⟨c, cs', hget, hext, ⟨rfl, hholds⟩ | ⟨htrace, ⟨hc, hholds⟩ | ⟨hc, hholds, hgroup⟩⟩⟩ :=
    h.get frames
  · exact ⟨0, cs', ns, hget, hholds, hext, fun _ ↦ id, Nat.le_succ _, .inl rfl, fun _ ↦ .inl⟩
  · exact ⟨c, cs', ns, hget, hholds, hext, fun _ ↦ id, Nat.le_succ _, .inr ⟨hc, htrace⟩,
      fun _ ↦ .inl⟩
  · refine ⟨c, cs', c :: ns, hget, hholds, hext, fun _ ↦ List.mem_cons_of_mem c, le_rfl,
      .inr ⟨List.mem_cons_self, htrace⟩, fun n hn ↦ ?_⟩
    rcases List.mem_cons.1 hn with rfl | hn
    · exact .inr hgroup
    · exact .inl hn

namespace Callstacks.Interned

variable {frames : List ℕ} {cs cs' : Callstacks} {ns ns' : List ℕ} {c n : ℕ}

/-- Interning a backtrace does not change the traces of the nodes that were there. -/
theorem traceOf_eq (h : Interned frames cs ns c cs' ns') (hn : n = 0 ∨ n ∈ ns) :
    cs'.traceOf n = cs.traceOf n :=
  h.extends_.traceOf_eq hn

theorem mem_of_mem (h : Interned frames cs ns c cs' ns') (hn : n = 0 ∨ n ∈ ns) :
    n = 0 ∨ n ∈ ns' :=
  hn.imp_right fun hn ↦ h.sub hn

/-- The node returned carries the backtrace. -/
theorem traceOf_self (h : Interned frames cs ns c cs' ns') (hc : c ≠ 0) :
    cs'.traceOf c = frames.take maxCallstackDepth := by
  rw [traceOf, if_neg hc]
  exact (h.result.resolve_left hc).2

end Callstacks.Interned

end Memchk
