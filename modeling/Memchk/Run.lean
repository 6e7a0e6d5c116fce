import Memchk.Allocator.Safety
import Memchk.Effect

/-!
# Runs

A run of a sequential program under the checker: calls with hooks enabled or disabled, full checks
and stores of its own, in any number and order. The library behind the hooks and the kernel answer
as they like within what they promise, so that every allocation may fail.

`Action.Ok` is what is asked of the program and its environment at one step: calls hand over values
of their types, stores go to buffers handed out, and with hooks disabled no buffer is given back
that a block still has. The invariant holds in every state that is reached (`Reachable.inv`).

## The steps

A call with hooks enabled is an effect on the blocks, or several (`Effects`): `realloc` of a live
block, for instance, registers a block and unregisters another. With hooks disabled a call reaches
the functions behind the hooks and changes no node (`Inv.call_of_disabled`). A full check may write:
it repairs the patterns that it found damaged, so that the same damage is not reported twice. It
changes no node either, and no buffer comes or goes (`same_of_mcCheckAllMemblk`).

## From steps to runs

`Inv.action_cases` lists what an action does to the state, `Inv.action` is the step lemma, and
`Reachable.inv` the induction. A state with no metadata pages at all, `State.start`, is reachable,
and so is every state that the examples start from.
-/

namespace Memchk

namespace Heap

variable {h : Heap} {a : Answer} {nmems size ptr : ℕ}

/-- `mc_orig_calloc` keeps the buffers handed out apart. -/
theorem Ok.origCalloc (hok : h.Ok) (ha : AnswerOk a (nmems * size) h) :
    (h.origCalloc a nmems size).Ok := by
  have hmalloc := hok.origMalloc ha
  rw [Heap.origMalloc] at hmalloc
  rw [Heap.origCalloc]
  split_ifs at hmalloc ⊢
  · exact hok
  · exact ⟨hmalloc.ne_null, hmalloc.end_le, hmalloc.apart⟩

/-- `mc_orig_realloc` does too. -/
theorem Ok.origRealloc (hok : h.Ok) (ha : AnswerOk a size (h.origFree ptr)) :
    (h.origRealloc a ptr size).Ok := by
  have hmalloc := (hok.origFree ptr).origMalloc ha
  rw [Heap.origMalloc] at hmalloc
  rw [Heap.origRealloc]
  split_ifs at hmalloc ⊢
  · exact hok
  · exact ⟨hmalloc.ne_null, hmalloc.end_le, hmalloc.apart⟩

/-- `mc_orig_calloc` takes no buffer back. -/
theorem mem_outstanding_origCalloc {b : ℕ × ℕ} (hb : b ∈ h.outstanding) :
    b ∈ (h.origCalloc a nmems size).outstanding := by
  rw [Heap.origCalloc]
  split_ifs
  · exact hb
  · exact List.mem_cons_of_mem _ hb

/-- `mc_orig_realloc` takes back the buffer of its argument only. -/
theorem mem_outstanding_origRealloc {b : ℕ × ℕ} (hb : b ∈ h.outstanding) (hne : b.1 ≠ ptr) :
    b ∈ (h.origRealloc a ptr size).outstanding := by
  rw [Heap.origRealloc]
  split_ifs
  · exact hb
  · exact List.mem_cons_of_mem _ (mem_outstanding_origFree.2 ⟨hb, hne⟩)

end Heap

/-! ### States with the same nodes -/

namespace State

variable {s t : State} {g : Contents}

/-- All nodes and counters are the same in both states, and the trace has only grown. -/
structure SameNodes (s t : State) : Prop where
  blocks : t.blocks = s.blocks
  quarantine : t.quarantine = s.quarantine
  callstacks : t.callstacks = s.callstacks
  counters : t.counters = s.counters
  trace : s.trace <+: t.trace

theorem SameNodes.refl (s : State) : s.SameNodes s :=
  ⟨rfl, rfl, rfl, rfl, List.prefix_rfl⟩

theorem SameNodes.trans {u : State} (h : s.SameNodes t) (h' : t.SameNodes u) : s.SameNodes u :=
  ⟨h'.blocks.trans h.blocks, h'.quarantine.trans h.quarantine, h'.callstacks.trans h.callstacks,
    h'.counters.trans h.counters, h.trace.trans h'.trace⟩

/-- The invariant depends on the nodes and the buffers handed out. -/
theorem Inv.of_same (h : s.Inv g) (hsame : s.SameNodes t)
    (hout : t.heap.outstanding = s.heap.outstanding) : t.Inv g :=
  h.of_heap hsame.blocks hsame.quarantine hsame.callstacks
    ⟨hout ▸ h.heap.ne_null, hout ▸ h.heap.end_le, hout ▸ h.heap.apart⟩
    (fun _ _ _ _ hmem ↦ hout ▸ hmem) fun _ _ _ _ hmem ↦ hout ▸ hmem

end State

/-! ### Calls with hooks disabled -/

/-- What the environment and the program owe a call with hooks disabled: the library keeps its
promise, and a buffer given back belongs to no block. -/
def Call.PassedOk (env : Env) (s : State) : Call → Prop
  | .malloc size => Heap.AnswerOk env.answer size s.heap
  | .free ptr => ¬s.tracks ptr
  | .realloc ptr size =>
    if ptr = 0 then Heap.AnswerOk env.answer size s.heap
    else ¬s.tracks ptr ∧ Heap.AnswerOk env.answer size (s.heap.origFree ptr)
  | .calloc nmems size => Heap.AnswerOk env.answer (nmems * size) s.heap
  | .posixMemalign .. | .alignedAlloc .. | .memalign .. | .valloc _ | .pvalloc _ => True

namespace State

variable {s s' t : State} {g : Contents} {env : Env} {c : Call} {p : ℕ}

/-- `mc_orig_calloc` keeps the invariant. -/
theorem Inv.origCalloc (h : s.Inv g) {nmems size : ℕ}
    (ha : Heap.AnswerOk env.answer (nmems * size) s.heap) :
    (s.origCalloc env nmems size).2.Inv g :=
  h.of_heap rfl rfl rfl (h.heap.origCalloc ha) (fun _ _ _ _ ↦ Heap.mem_outstanding_origCalloc)
    fun _ _ _ _ ↦ Heap.mem_outstanding_origCalloc

/-- `mc_orig_realloc` keeps the invariant if its argument belongs to no block. -/
theorem Inv.origRealloc (h : s.Inv g) {ptr size : ℕ} (hptr : ¬s.tracks ptr)
    (ha : Heap.AnswerOk env.answer size (s.heap.origFree ptr)) :
    (s.origRealloc env ptr size).2.Inv g := by
  rw [h.tracks_iff, List.mem_append, not_or] at hptr
  refine h.of_heap rfl rfl rfl (h.heap.origRealloc ha) (fun n hn b hb hmem ↦ ?_)
    fun n hn b hb hmem ↦ ?_
  · exact Heap.mem_outstanding_origRealloc hmem fun heq ↦
      hptr.1 (List.mem_map.2 ⟨n, hn, hb.symm.trans heq⟩)
  · exact Heap.mem_outstanding_origRealloc hmem fun heq ↦
      hptr.2 (List.mem_map.2 ⟨n, hn, hb.symm.trans heq⟩)

/-- What a call does that is passed on. -/
theorem sameNodes_of_disabled (hmode : s.doNotHook ≠ 0) (hc : c.isAligned = false)
    (hexec : c.exec env s = some (p, s')) : s.SameNodes s' := by
  have hmalloc : ∀ {size}, Hook.malloc env size s = some (p, s') → s.SameNodes s' := by
    intro size heq
    simp only [Hook.malloc, hmode, ne_eq, not_false_eq_true, if_true] at heq
    obtain rfl : (s.origMalloc env size).2 = s' := congrArg Prod.snd (Option.some.inj heq)
    exact ⟨rfl, rfl, rfl, rfl, List.prefix_append _ _⟩
  have hfree : ∀ {ptr}, Hook.free env ptr s = some s' → s.SameNodes s' := by
    intro ptr heq
    rw [Hook.free] at heq
    split_ifs at heq
    · exact Option.some.inj heq ▸ SameNodes.refl s
    · obtain rfl : s.origFree ptr = s' := Option.some.inj heq
      exact ⟨rfl, rfl, rfl, rfl, List.prefix_append _ _⟩
  cases c with
  | malloc size => exact hmalloc hexec
  | free ptr =>
    obtain ⟨t, heq, ht⟩ := Option.map_eq_some_iff.1 hexec
    obtain rfl : t = s' := congrArg Prod.snd ht
    exact hfree heq
  | realloc ptr size =>
    rw [Call.exec, Hook.realloc] at hexec
    split_ifs at hexec with hptr hsize
    · exact @hmalloc size (by simpa using hexec)
    · obtain ⟨t, heq, ht⟩ := Option.bind_eq_some_iff.1 hexec
      obtain rfl : t = s' := congrArg Prod.snd (Option.some.inj ht)
      exact hfree heq
    · obtain rfl : (s.origRealloc env ptr size).2 = s' := congrArg Prod.snd (Option.some.inj hexec)
      exact ⟨rfl, rfl, rfl, rfl, List.prefix_append _ _⟩
  | calloc nmems size =>
    rw [Call.exec, Hook.calloc] at hexec
    split_ifs at hexec
    · obtain rfl : s = s' := congrArg Prod.snd (Option.some.inj hexec)
      exact SameNodes.refl s
    · obtain rfl : (s.origCalloc env nmems size).2 = s' := congrArg Prod.snd (Option.some.inj hexec)
      exact ⟨rfl, rfl, rfl, rfl, List.prefix_append _ _⟩
  | posixMemalign _ _ | alignedAlloc _ _ | memalign _ _ | valloc _ | pvalloc _ =>
    exact absurd hc (by simp [Call.isAligned])

/-- With hooks disabled `free` keeps the invariant if its argument belongs to no block. -/
theorem Inv.hookFree_of_disabled (h : s.Inv g) (hmode : s.doNotHook ≠ 0) {ptr : ℕ}
    (hptr : ¬s.tracks ptr) (hexec : Hook.free env ptr s = some s') : s'.Inv g := by
  rw [Hook.free] at hexec
  split_ifs at hexec
  · exact Option.some.inj hexec ▸ h
  · obtain rfl : s.origFree ptr = s' := Option.some.inj hexec
    exact h.origFree fun hmem ↦ hptr (h.tracks_iff.2 hmem)

/-- A call that is passed on keeps the invariant. -/
theorem Inv.call_of_disabled (h : s.Inv g) (hmode : s.doNotHook ≠ 0) (hc : c.isAligned = false)
    (hok : c.PassedOk env s) (hexec : c.exec env s = some (p, s')) : s'.Inv g := by
  have hmalloc : ∀ {size}, Heap.AnswerOk env.answer size s.heap →
      Hook.malloc env size s = some (p, s') → s'.Inv g := by
    intro size ha heq
    simp only [Hook.malloc, hmode, ne_eq, not_false_eq_true, if_true] at heq
    obtain rfl : (s.origMalloc env size).2 = s' := congrArg Prod.snd (Option.some.inj heq)
    exact h.origMalloc ha
  cases c with
  | malloc size => exact hmalloc hok hexec
  | free ptr =>
    obtain ⟨t, hfree, heq⟩ := Option.map_eq_some_iff.1 hexec
    obtain rfl : t = s' := congrArg Prod.snd heq
    exact h.hookFree_of_disabled hmode hok hfree
  | realloc ptr size =>
    rw [Call.PassedOk] at hok
    rw [Call.exec, Hook.realloc] at hexec
    split_ifs at hok hexec with hptr hsize
    · refine @hmalloc size hok ?_
      simpa using hexec
    · obtain ⟨t, hfree, heq⟩ := Option.bind_eq_some_iff.1 hexec
      obtain rfl : t = s' := congrArg Prod.snd (Option.some.inj heq)
      exact h.hookFree_of_disabled hmode hok.1 hfree
    · obtain rfl : (s.origRealloc env ptr size).2 = s' := congrArg Prod.snd (Option.some.inj hexec)
      exact h.origRealloc hok.1 hok.2
  | calloc nmems size =>
    rw [Call.exec, Hook.calloc] at hexec
    split_ifs at hexec
    · obtain rfl : s = s' := congrArg Prod.snd (Option.some.inj hexec)
      exact h
    · obtain rfl : (s.origCalloc env nmems size).2 = s' := congrArg Prod.snd (Option.some.inj hexec)
      exact h.origCalloc hok
  | posixMemalign _ _ | alignedAlloc _ _ | memalign _ _ | valloc _ | pvalloc _ =>
    exact absurd hc (by simp [Call.isAligned])

end State

/-! ### Full checks -/

/-- `memset` hands out no buffer and takes none back. -/
theorem Heap.outstanding_memset {h h' : Heap} {addr len : ℕ} {b : UInt8}
    (hset : h.memset addr b len = some h') : h'.outstanding = h.outstanding := by
  rw [Heap.memset] at hset
  split_ifs at hset
  exact Option.some.inj hset ▸ rfl

theorem outstanding_mcSetFreedBuffer {x : Memblk} {h h' : Heap}
    (hset : mcSetFreedBuffer x h = some h') : h'.outstanding = h.outstanding :=
  Heap.outstanding_memset hset

/-- Arming a buffer leaves it handed out. -/
theorem outstanding_mcSetAllocatedBuffer {x : Memblk} {usrptr : ℕ} {init : Bool} {h h' : Heap}
    (hset : mcSetAllocatedBuffer x usrptr init h = some h') : h'.outstanding = h.outstanding := by
  simp only [mcSetAllocatedBuffer, Option.bind_eq_bind, Option.bind_eq_some_iff] at hset
  obtain ⟨h₁, hset₁, hset⟩ := hset
  rw [← Heap.outstanding_memset hset₁]
  split_ifs at hset
  · obtain ⟨h₂, hset₂, hset₃⟩ := Option.bind_eq_some_iff.1 hset
    exact (Heap.outstanding_memset hset₃).trans (Heap.outstanding_memset hset₂)
  · exact Heap.outstanding_memset hset

namespace State

variable {s s' : State} {g : Contents}

/-- Only bytes of memory differ, and the trace has grown. -/
def SameOutstanding (s t : State) : Prop :=
  s.SameNodes t ∧ t.heap.outstanding = s.heap.outstanding

theorem SameOutstanding.trans {t u : State} (h : s.SameOutstanding t) (h' : t.SameOutstanding u) :
    s.SameOutstanding u :=
  ⟨h.1.trans h'.1, h'.2.trans h.2⟩

/-- The end of a check: the block may be written anew, and what was found is logged. -/
theorem same_of_repaired {c : Prop} [Decidable c] {set : Option Heap} {log : List Event} {ret : ℤ}
    {x : State × ℤ} (hset : ∀ {h}, set = some h → h.outstanding = s.heap.outstanding)
    (hrun : (if c then set.bind fun h ↦ some ({ s with heap := h }.emit log, ret)
      else some (s.emit log, ret)) = some x) : s.SameOutstanding x.1 := by
  split_ifs at hrun
  · obtain ⟨heap, hheap, heq⟩ := Option.bind_eq_some_iff.1 hrun
    obtain rfl := Option.some.inj heq
    exact ⟨⟨rfl, rfl, rfl, rfl, List.prefix_append _ _⟩, hset hheap⟩
  · obtain rfl := Option.some.inj hrun
    exact ⟨⟨rfl, rfl, rfl, rfl, List.prefix_append _ _⟩, rfl⟩

/-- The check of a live block changes no node and no buffer handed out. -/
theorem same_of_checkAllocMemblk {n : ℕ} {x x' : State × ℤ}
    (hrun : checkAllocMemblk n x = some x') : x.1.SameOutstanding x'.1 := by
  obtain ⟨t, ret⟩ := x
  rw [checkAllocMemblk, Option.bind_eq_bind] at hrun
  obtain ⟨⟨rc, log⟩, -, hrun⟩ := Option.bind_eq_some_iff.1 hrun
  exact same_of_repaired (fun hset ↦ outstanding_mcSetAllocatedBuffer hset) hrun

/-- The check of a freed block does not either. -/
theorem same_of_checkFreeMemblk {n : ℕ} {x x' : State × ℤ}
    (hrun : checkFreeMemblk n x = some x') : x.1.SameOutstanding x'.1 := by
  obtain ⟨t, ret⟩ := x
  obtain ⟨⟨rc, log⟩, -, hrun⟩ := Option.bind_eq_some_iff.1 hrun
  exact same_of_repaired (fun hset ↦ outstanding_mcSetFreedBuffer hset) hrun

/-- `mc_check_all_memblk` changes bytes of memory and the trace only. -/
theorem same_of_mcCheckAllMemblk {ret : ℤ} (hrun : mcCheckAllMemblk s = some (ret, s')) :
    s.SameOutstanding s' := by
  simp only [mcCheckAllMemblk, Option.bind_eq_bind, Option.bind_eq_some_iff] at hrun
  obtain ⟨x, hlive, y, hfreed, heq⟩ := hrun
  obtain rfl : y.1 = s' := congrArg Prod.snd (Option.some.inj heq)
  have hx : s.SameOutstanding x.1 :=
    forEachM_invariant (fun x : State × ℤ ↦ s.SameOutstanding x.1)
      (fun _ _ _ h hbody ↦ h.trans (same_of_checkAllocMemblk hbody)) ⟨SameNodes.refl s, rfl⟩ hlive
  exact forEachM_invariant (fun x : State × ℤ ↦ s.SameOutstanding x.1)
    (fun _ _ _ h hbody ↦ h.trans (same_of_checkFreeMemblk hbody)) hx hfreed

end State

/-! ### Steps of a run -/

/-- What a program may do next. -/
inductive Action
  | call (env : Env) (c : Call)
  | disableHook
  | enableHook
  | checkAll
  | store (addr : ℕ) (byte : UInt8)

/-- The state after an action. -/
def Action.exec : Action → State → Option State
  | .call env c, s => (c.exec env s).map Prod.snd
  | .disableHook, s => s.mcDisableHook
  | .enableHook, s => some s.mcEnableHook
  | .checkAll, s => (mcCheckAllMemblk s).map Prod.snd
  | .store addr byte, s => some { s with heap := s.heap.store addr byte }

/-- What is asked of the program and its environment. -/
def Action.Ok (s : State) : Action → Prop
  | .call env c => c.InRange ∧
    if c.isAligned ∨ s.doNotHook = 0 then c.EnvOk env s else c.PassedOk env s
  | .store addr _ => s.heap.Covered addr
  | .disableHook | .enableHook | .checkAll => True

/-- The answers of the kernel to the pools. -/
structure Kernel where
  allocMemblk : List (Option ℕ)
  freeMemblk : List (Option ℕ)
  callstack : List (Option ℕ)

/-- What the kernel promises. -/
structure Kernel.Ok (k : Kernel) : Prop where
  allocMemblk : KernelAnswers allocMemblkPoolHead k.allocMemblk
  freeMemblk : KernelAnswers freeMemblkPoolHead k.freeMemblk
  callstack : KernelAnswers callstackPoolHead k.callstack

/-- The state before the first action: static storage is zero, and `mc_alloc_blk_init` has set up
the pools. -/
def State.init (k : Kernel) (mem : ℕ → UInt8) : State where
  heap := ⟨mem, []⟩
  doNotHook := 0
  blocks :=
    { pool := mcAllocatorInit allocMemblkPoolHead allocMemblkSize.val default k.allocMemblk
      memptr := default
      memblk := default
      allocator := default
      sameCallstackGroupPrev := default
      sameCallstackGroupNext := default
      table := fun _ _ ↦ 0 }
  callstacks :=
    { pool := mcAllocatorInit callstackPoolHead callstackSize.val default k.callstack
      node := fun _ ↦ ⟨[], 0, fun _ ↦ 0, 0, 0⟩
      table := fun _ ↦ 0 }
  quarantine :=
    { pool := mcAllocatorInit freeMemblkPoolHead freeMemblkSize.val default k.freeMemblk
      store := ⟨fun _ ↦ 0, default⟩
      memblk := default
      allocator := default
      freer := default
      freeFifoIdx := 0
      freeMemblkArray := fun _ ↦ 0
      freed := [] }
  counters := ⟨0, 0, 0, 0, fun _ ↦ 0⟩
  trace := []

/-- The states that runs lead to. -/
def Reachable (s : State) : Prop :=
  ∃ k mem, k.Ok ∧ Relation.ReflTransGen
    (fun s t ↦ ∃ a : Action, a.Ok s ∧ a.exec s = some t) (State.init k mem) s

/-- The same, of a program that never disables hooks and asks for short buffers only, with nothing
asked of its environment but the promise of `mc_orig_malloc`. -/
def Action.Promised (s : State) : Action → Prop
  | .call env c => c.InRange ∧ ∀ r, c.request s = some r →
    r.bufsize < 2147483648 ∧ Heap.AnswerOk env.answer r.bufsize s.heap
  | .store addr _ => s.heap.Covered addr
  | .checkAll => True
  | .disableHook | .enableHook => False

/-- The states that runs of such actions lead to. -/
def PromisedReachable (s : State) : Prop :=
  ∃ k mem, k.Ok ∧ Relation.ReflTransGen
    (fun s t ↦ ∃ a : Action, a.Promised s ∧ a.exec s = some t) (State.init k mem) s

theorem PromisedReachable.step {s s' : State} (hs : PromisedReachable s) {a : Action}
    (hok : a.Promised s) (hexec : a.exec s = some s') : PromisedReachable s' := by
  obtain ⟨k, mem, hk, hrun⟩ := hs
  exact ⟨k, mem, hk, hrun.tail ⟨a, hok, hexec⟩⟩

/-- The state before the first action, under a kernel that maps no pages. -/
def State.start : State :=
  State.init ⟨[], [], []⟩ fun _ ↦ 0

theorem kernelAnswers_nil {top : ℕ} (haligned : top % 4096 = 0) (hne : top ≠ 0) :
    KernelAnswers top [] :=
  ⟨haligned, hne, by simp, by simp [comingPages]⟩

theorem kernel_ok_nil : (⟨[], [], []⟩ : Kernel).Ok :=
  ⟨kernelAnswers_nil (by decide) (by decide), kernelAnswers_nil (by decide) (by decide),
    kernelAnswers_nil (by decide) (by decide)⟩

theorem reachable_start : Reachable State.start :=
  ⟨_, _, kernel_ok_nil, .refl⟩

/-- An environment in which the buffer at `a` is handed out. -/
def Env.handing (a : ℕ) : Env :=
  ⟨⟨a, fun _ ↦ 0⟩, [], [], [], 0⟩

/-- A legal action leads from a reachable state to a reachable one. -/
theorem Reachable.step {s s' : State} (hs : Reachable s) {a : Action} (hok : a.Ok s)
    (hexec : a.exec s = some s') : Reachable s' := by
  obtain ⟨k, mem, hk, hrun⟩ := hs
  exact ⟨k, mem, hk, hrun.tail ⟨a, hok, hexec⟩⟩

namespace State

variable {s s' : State} {g : Contents}

/-- The invariant holds at the start, with no nodes. -/
theorem inv_init {k : Kernel} (hk : k.Ok) (mem : ℕ → UInt8) :
    (State.init k mem).Inv ⟨fun _ ↦ [], [], []⟩ := by
  have hpool : ∀ (z : SlotSize) {top : ℕ} {mmaps : List (Option ℕ)}, KernelAnswers top mmaps →
      (mcAllocatorInit top z.val default mmaps).Inv top z := fun z _ _ h ↦
    (Pool.inv_mcAllocatorInit z default h.top_aligned h.top_ne h.aligned h.fresh).1
  refine ⟨⟨hpool _ hk.allocMemblk, fun _ ↦ PtrTable.empty fun _ ↦ rfl, by simp, by simp⟩,
    ⟨hpool _ hk.freeMemblk, PtrTable.empty fun _ ↦ rfl, by simp⟩,
    ⟨LastValues.empty _ fun _ _ ↦ rfl, rfl⟩,
    ⟨hpool _ hk.callstack, HashChains.of_head_null fun _ _ ↦ rfl, by simp, by simp⟩,
    ⟨by simp [State.init], by simp [State.init], List.Pairwise.nil⟩, by simp, by simp,
    List.nodup_nil,
    by simp, by simp, rfl⟩

/-- Every sequence of effects keeps the invariant. -/
theorem Inv.effects {env : Env} {x y : State × Contents} (h : x.1.Inv x.2)
    (he : Effects env x y) : y.1.Inv y.2 := by
  induction he with
  | refl => exact h
  | tail _ hstep ih => exact hstep.inv ih

/-- An action is a call that consists of effects, or leaves all nodes as they were. -/
theorem Inv.action_cases (h : s.Inv g) {a : Action} (hok : a.Ok s) (hexec : a.exec s = some s') :
    (∃ env g', Effects env (s, g) (s', g')) ∨ s.SameNodes s' ∧ s'.Inv g := by
  cases a with
  | call env c =>
    obtain ⟨hc, hok⟩ := hok
    rw [Action.exec, Option.map_eq_some_iff] at hexec
    obtain ⟨⟨p, t⟩, hcall, rfl⟩ := hexec
    split_ifs at hok with hmode
    · exact .inl ⟨env, Call.effects h hmode hc hok hcall⟩
    · rw [not_or, Bool.not_eq_true] at hmode
      exact .inr ⟨sameNodes_of_disabled hmode.2 hmode.1 hcall,
        h.call_of_disabled hmode.2 hmode.1 hok hcall⟩
  | disableHook =>
    obtain ⟨z, -, heq⟩ := Option.bind_eq_some_iff.1 hexec
    obtain rfl := Option.some.inj heq
    have hsame : s.SameNodes { s with doNotHook := z } := ⟨rfl, rfl, rfl, rfl, List.prefix_rfl⟩
    exact .inr ⟨hsame, h.of_same hsame rfl⟩
  | enableHook =>
    obtain rfl := Option.some.inj hexec
    have hsame : s.SameNodes s.mcEnableHook := ⟨rfl, rfl, rfl, rfl, List.prefix_rfl⟩
    exact .inr ⟨hsame, h.of_same hsame rfl⟩
  | checkAll =>
    rw [Action.exec, Option.map_eq_some_iff] at hexec
    obtain ⟨⟨ret, t⟩, hrun, rfl⟩ := hexec
    have hsame := same_of_mcCheckAllMemblk hrun
    exact .inr ⟨hsame.1, h.of_same hsame.1 hsame.2⟩
  | store addr byte =>
    obtain rfl := Option.some.inj hexec
    have hsame : s.SameNodes { s with heap := s.heap.store addr byte } :=
      ⟨rfl, rfl, rfl, rfl, List.prefix_rfl⟩
    exact .inr ⟨hsame, h.of_same hsame rfl⟩

/-- An action keeps the invariant. -/
theorem Inv.action (h : s.Inv g) {a : Action} (hok : a.Ok s) (hexec : a.exec s = some s') :
    ∃ g', s'.Inv g' := by
  rcases h.action_cases hok hexec with ⟨env, g', he⟩ | ⟨-, hinv⟩
  · exact ⟨g', @Inv.effects env (s, g) (s', g') h he⟩
  · exact ⟨g, hinv⟩

end State

/-- The invariant holds in every state that is reached. -/
theorem Reachable.inv {s : State} (h : Reachable s) : ∃ g, s.Inv g := by
  obtain ⟨k, mem, hk, hrun⟩ := h
  induction hrun with
  | refl => exact ⟨_, State.inv_init hk mem⟩
  | tail _ hstep ih =>
    obtain ⟨g, hg⟩ := ih
    obtain ⟨a, hok, hexec⟩ := hstep
    exact hg.action hok hexec

end Memchk
