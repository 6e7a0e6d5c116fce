import Memchk.HookedRun

/-!
# How a pool runs out

Under a kernel that maps no more pages, the pools have the slots of their first page only. Every
live block takes a node of its pool for good, and so does every block freed until the quarantine is
full. The runs here use up the slots, `Resting.mallocs` those for live blocks, `Resting.mallocsFrom`
those for callstacks as well, and `Resting.churn` those for freed blocks. What the code does then is
not what it promises.

## Runs by induction

A run of a hundred calls is not evaluated but put together: `Resting a s g` is the state between two
calls of such a run, where hooks are enabled and no buffer was handed out from the address `a` on,
and one call leads to such a state again, further up. The lemmas on many calls are inductions on
their number, and count the live blocks and the nodes that are left in each pool.

## A run that fills the page of the ring

In the state of `resting_exhausted` two blocks are live, and there is no node for the quarantine
when one of them is freed. Unregistering it then does not keep its promise, and damage may be
missed.

## A run past an eviction

The last section needs the opposite, a kernel that has pages enough (`Kernel.generous`). A run that
takes and frees more blocks than the ring has places reaches a state in which a buffer was evicted,
and given back behind the hooks. It is the witness of the theorems whose most interesting case is
the eviction.
-/

namespace Memchk

/-- All buffers handed out lie below the address. -/
def Heap.Below (a : ℕ) (h : Heap) : Prop :=
  ∀ b ∈ h.outstanding, b.1 + max 1 b.2 ≤ a

/-- A state that a run has reached, with hooks enabled and all buffers below the address. -/
structure Resting (a : ℕ) (s : State) (g : Contents) : Prop where
  reachable : Reachable s
  promised : PromisedReachable s
  hooked : .mmapFailed ∉ s.trace → HookedReachable s
  inv : s.Inv g
  mode : s.doNotHook = 0
  below : s.heap.Below a

theorem resting_init {k : Kernel} (hk : k.Ok) (mem : ℕ → UInt8) :
    Resting 1048576 (State.init k mem) ⟨fun _ ↦ [], [], []⟩ :=
  ⟨⟨k, mem, hk, .refl⟩, ⟨k, mem, hk, .refl⟩, fun _ ↦ ⟨k, mem, hk, .refl⟩, State.inv_init hk mem,
    rfl, fun _ hb ↦ absurd hb List.not_mem_nil⟩

theorem resting_start : Resting 1048576 State.start ⟨fun _ ↦ [], [], []⟩ :=
  resting_init kernel_ok_nil _

section Steps

variable {s : State} {g : Contents} {a n : ℕ}

theorem Heap.Below.answerOk {h : Heap} (hbelow : h.Below a) {junk : ℕ → UInt8} {size : ℕ}
    (hlt : a + max 1 size ≤ 9223372036854775808) : Heap.AnswerOk ⟨a, junk⟩ size h :=
  .inr ⟨hlt, fun b hb ↦ .inr (hbelow b hb)⟩

/-- What the program has to keep to, so that the call below may be made. -/
theorem Resting.envOkFrom (h : Resting a s g) (hlt : a + 64 ≤ 9223372036854775808)
    (frames : List ℕ) : (Call.malloc 16).EnvOk { Env.handing a with allocFrames := frames } s := by
  refine ⟨fun r hr ↦ ?_, h.inv.not_tracks_zero, .inl rfl⟩
  obtain rfl := Option.some.inj hr
  exact h.below.answerOk (by show a + max 1 48 ≤ _; omega)

theorem Resting.envOk (h : Resting a s g) (hlt : a + 64 ≤ 9223372036854775808) :
    (Call.malloc 16).EnvOk (Env.handing a) s :=
  h.envOkFrom hlt []

/-- One more allocation returns. -/
theorem Resting.exec_malloc (h : Resting a s g) (hpos : 0 < a) (hlt : a + 64 ≤ 9223372036854775808)
    (hnode : s.HasNode) (frames : List ℕ) :
    ∃ s' g' n c, (Call.malloc 16).exec { Env.handing a with allocFrames := frames } s =
        some (a + 16, s') ∧
      Recorded { Env.handing a with allocFrames := frames } ⟨a, 48, 16⟩ (a + 16)
        (s.origMalloc (Env.handing a) 48).2 g n c s' g' := by
  let env : Env := { Env.handing a with allocFrames := frames }
  obtain ⟨u, g₁, n, c, heq, hrec⟩ := @State.Inv.serve_recorded s g env 16 h.inv hnode hpos.ne'
    (by decide) ((h.envOkFrom hlt frames).answer _ rfl)
  exact ⟨u, g₁, n, c, (Call.malloc_eq_serve h.mode 16).trans heq, hrec⟩

/-- One more allocation, called from `frames`. -/
theorem Resting.mallocFrom (h : Resting a s g) (hpos : 0 < a) (hlt : a + 64 ≤ 9223372036854775808)
    (hnode : s.HasNode) (frames : List ℕ) :
    ∃ s' g' n c, Resting (a + 64) s' g' ∧
      Recorded { Env.handing a with allocFrames := frames } ⟨a, 48, 16⟩ (a + 16)
        (s.origMalloc (Env.handing a) 48).2 g n c s' g' := by
  let env : Env := { Env.handing a with allocFrames := frames }
  have hok : (Call.malloc 16).EnvOk env s := h.envOkFrom hlt frames
  obtain ⟨u, g₁, n, c, hexec, hrec⟩ := h.exec_malloc hpos hlt hnode frames
  have haction : (Action.call env (.malloc 16)).exec s = some u := by
    rw [Action.exec, hexec]
    rfl
  have haction_ok : (Action.call env (.malloc 16)).Ok s := by
    refine ⟨(by decide : 16 < 18446744073709551616), ?_⟩
    rwa [if_pos (.inr h.mode)]
  have hpromised : (Action.call env (.malloc 16)).Promised s := by
    refine ⟨(by decide : 16 < 18446744073709551616), fun r hr ↦ ⟨?_, hok.answer r hr⟩⟩
    obtain rfl := Option.some.inj hr
    decide
  have hhooked : .mmapFailed ∉ u.trace → HookedReachable u := fun hsupply ↦
    (h.hooked fun hmem ↦
      hsupply ((h.inv.action_trace_prefix haction_ok haction).subset hmem)).step
        (.inl ⟨env, .malloc 16, _, (by decide : 16 < 18446744073709551616), hok.answer,
          hexec, hsupply⟩)
  refine ⟨u, g₁, n, c, ⟨h.reachable.step haction_ok haction, h.promised.step hpromised haction,
    hhooked, hrec.inv, hrec.doNotHook.trans h.mode, fun b hb ↦ ?_⟩, hrec⟩
  have hout : u.heap.outstanding = (s.heap.origMalloc env.answer 48).outstanding := by
    rw [hrec.heap]
    rfl
  rw [hout, Heap.outstanding_origMalloc hpos.ne'] at hb
  rcases List.mem_cons.1 hb with rfl | hb
  · show a + max 1 48 ≤ a + 64
    omega
  · have := h.below b hb
    omega

/-- One more allocation. -/
theorem Resting.malloc (h : Resting a s g) (hpos : 0 < a) (hlt : a + 64 ≤ 9223372036854775808)
    (hnode : s.HasNode) :
    ∃ s' g' n c, Resting (a + 64) s' g' ∧
      Recorded (Env.handing a) ⟨a, 48, 16⟩ (a + 16) (s.origMalloc (Env.handing a) 48).2 g n c
        s' g' :=
  h.mallocFrom hpos hlt hnode []

/-- The call that frees a live block is one of the run. -/
theorem Resting.step_free (h : Resting a s g) {t : State} (hn : n ∈ g.nodes .live)
    (hfree : Hook.free (Env.handing a) (s.blocks.record n).usrptr s = some t) :
    Reachable t ∧ PromisedReachable t ∧ (.mmapFailed ∉ t.trace → HookedReachable t) := by
  have hguarded := h.inv.guarded n hn
  have hend := hguarded.end_le h.inv.heap
  have hlt := hguarded.lt
  have hok : (Action.call (Env.handing a) (.free (s.blocks.record n).usrptr)).Ok s := by
    refine ⟨(by omega : (s.blocks.record n).usrptr < 18446744073709551616), ?_⟩
    rw [if_pos (.inr h.mode)]
    exact ⟨fun r hr ↦ absurd hr (by simp [Call.request]), h.inv.not_tracks_zero, .inl rfl⟩
  have hcall : (Call.free (s.blocks.record n).usrptr).exec (Env.handing a) s = some (0, t) := by
    rw [Call.exec, hfree]
    rfl
  have hexec : (Action.call (Env.handing a) (.free (s.blocks.record n).usrptr)).exec s =
      some t := by
    rw [Action.exec, hcall]
    rfl
  have hpromised : (Action.call (Env.handing a) (.free (s.blocks.record n).usrptr)).Promised s :=
    ⟨hok.1, fun r hr ↦ absurd hr (by simp [Call.request])⟩
  refine ⟨h.reachable.step hok hexec, h.promised.step hpromised hexec, fun hsupply ↦ ?_⟩
  have hfront : s.trace <+: t.trace := h.inv.action_trace_prefix hok hexec
  exact (h.hooked fun hmem ↦ hsupply (hfront.subset hmem)).step
    (.inl ⟨Env.handing a, .free (s.blocks.record n).usrptr, 0, hok.1, fun r hr ↦
      absurd hr (by simp [Call.request]), hcall, hsupply⟩)

/-- One more live block is freed, while the quarantine is not full. -/
theorem Resting.free (h : Resting a s g) (hattr : s.Attributed g) (hn : n ∈ g.nodes .live)
    (hfew : s.quarantine.freed.length < freeFifoSize) (hnode : s.HasFreeNode) :
    ∃ s' g' new c log, Resting a s' g' ∧ (∀ e ∈ log, e.isDamage) ∧
      Unregistered (Env.handing a) (s.blocks.record n).usrptr s g n new c none log [] s' g' := by
  obtain ⟨new, c, evicted, log, evictLog, u, g', hfree, hlog, hun⟩ :=
    @State.Inv.hookFree_released s g (Env.handing a) n h.inv h.mode hn hnode
      (hattr.allocator .live n hn) hattr.freed
  obtain rfl : evicted = none := by
    cases evicted with
    | none => rfl
    | some old => exact absurd (hun.evicted_iff.1 rfl) (not_le.2 hfew)
  obtain rfl := hun.evictLog_eq_nil rfl
  obtain ⟨hreachable, hpromised, hhooked⟩ := h.step_free hn hfree
  refine ⟨u, g', new, c, log,
    ⟨hreachable, hpromised, hhooked, hun.inv, hun.doNotHook.trans h.mode, ?_⟩, hlog, hun⟩
  rw [hun.heap]
  exact h.below

/-- After the first node there is another one. -/
theorem hasNode_of_start {s : State} {n : ℕ}
    (halloc : mcAllocateAllocMemblk State.start.blocks.pool = some (n, s.blocks.pool)) :
    s.HasNode := by
  have hnext : (mcAllocateAllocMemblk State.start.blocks.pool).bind (fun r ↦
      (mcAllocateAllocMemblk r.2).map fun r ↦ decide (r.1 ≠ 0)) = some true := by decide +kernel
  rw [halloc] at hnext
  obtain ⟨⟨m, pool⟩, halloc', hm⟩ := Option.map_eq_some_iff.1 hnext
  exact ⟨m, pool, halloc', of_decide_eq_true hm⟩

/-- The first allocation of a run: there are nodes for it, for its callstack and for the next. -/
theorem resting_oneBlock : ∃ s g n c, Resting 1048640 s g ∧ Recorded (Env.handing 1048576)
    ⟨1048576, 48, 16⟩ 1048592 (State.start.origMalloc (Env.handing 1048576) 48).2
    ⟨fun _ ↦ [], [], []⟩
      n c s g ∧ c ≠ 0 ∧ s.HasNode ∧ s.HasFreeNode := by
  obtain ⟨s, g, n, c, hs, hrec⟩ := resting_start.malloc (by decide) (by decide) hasNode_start
  refine ⟨s, g, n, c, hs, hrec, hrec.callstack_ne_zero (hasCallstack_start _),
    hasNode_of_start hrec.allocated, ?_⟩
  have hquarantine : s.quarantine = State.start.quarantine := hrec.quarantine
  obtain ⟨m, pool, halloc, hm⟩ := hasFreeNode_start
  exact ⟨m, pool, by rw [hquarantine]; exact halloc, hm⟩

end Steps

/-! ### Many steps -/

/-- The callstacks after each of `frames` has been interned. -/
def internAll : List (List ℕ) → Callstacks → Option Callstacks
  | [], cs => some cs
  | frames :: rest, cs => do
    let (_, cs) ← mcGetCallstack frames cs
    internAll rest cs

/-- As many blocks as the pool has nodes for become live, each allocated from another place. -/
theorem Resting.mallocsFrom {frames : List (List ℕ)} {s : State} {g : Contents} {a : ℕ}
    (h : Resting a s g) (hpos : 0 < a) (hlt : a + 64 * frames.length ≤ 9223372036854775808)
    (htake : (takeNodes mcAllocateAllocMemblk frames.length s.blocks.pool).1.length =
      frames.length) :
    ∃ s' g', Resting (a + 64 * frames.length) s' g' ∧
      s'.blocks.pool = (takeNodes mcAllocateAllocMemblk frames.length s.blocks.pool).2 ∧
      internAll frames s.callstacks = some s'.callstacks ∧
      (g'.nodes .live).length = (g.nodes .live).length + frames.length ∧
      (∀ id, id ≠ .live → g'.nodes id = g.nodes id) ∧ g'.freed = g.freed ∧
      ∀ m ∈ g'.nodes .live, m ∈ g.nodes .live ∧ s'.blocks.record m = s.blocks.record m ∨
        (s'.blocks.record m).memblk.bufsize = 48 := by
  induction frames generalizing s g a with
  | nil => exact ⟨s, g, h, rfl, rfl, rfl, fun _ _ ↦ rfl, rfl, fun m hm ↦ .inl ⟨hm, rfl⟩⟩
  | cons from_ frames ih =>
    rw [List.length_cons] at hlt htake ⊢
    obtain ⟨n, pool, halloc, -⟩ := h.inv.blocks.allocate
    rw [takeNodes, halloc] at htake ⊢
    simp only at htake ⊢
    split_ifs at htake ⊢ with hn
    simp only [List.length_cons, Nat.add_right_cancel_iff] at htake
    obtain ⟨t, g₁, m, c, ht, hrec⟩ := h.mallocFrom hpos (by omega) ⟨n, pool, halloc, hn⟩ from_
    have hpool : t.blocks.pool = pool := by
      have := hrec.allocated.symm.trans halloc
      simp only [Option.some.injEq, Prod.mk.injEq] at this
      exact this.2
    subst hpool
    have hgot : mcGetCallstack from_ s.callstacks = some (c, t.callstacks) := hrec.got
    obtain ⟨s', g', hs', htaken, hintern, hlen, hother, hfreed, hsmall⟩ :=
      ih ht (by omega) (by omega) htake
    refine ⟨s', g', ?_, htaken, ?_, ?_, fun id hid ↦ ?_, hfreed.trans hrec.freed, fun k hk ↦ ?_⟩
    · have heq : a + 64 + 64 * frames.length = a + 64 * (frames.length + 1) := by ring
      exact heq ▸ hs'
    · rw [internAll, hgot]
      exact hintern
    · rw [hlen, hrec.nodes, Function.update_self, List.length_cons]
      omega
    · rw [hother id hid, hrec.nodes, Function.update_of_ne hid]
    · rcases hsmall k hk with ⟨hmem, hrecord⟩ | hsize
      · rw [hrec.nodes, Function.update_self] at hmem
        rcases List.mem_cons.1 hmem with rfl | hmem
        · exact .inr (by rw [hrecord, hrec.record])
        · have hne : k ≠ m := ne_of_mem_of_not_mem hmem (hrec.notMem .live)
          exact .inl ⟨hmem, hrecord.trans (hrec.record_of_ne k hne)⟩
      · exact .inr hsize

/-- As many blocks as the pool has nodes for become live. -/
theorem Resting.mallocs {k : ℕ} {s : State} {g : Contents} {a : ℕ} (h : Resting a s g)
    (hpos : 0 < a) (hlt : a + 64 * k ≤ 9223372036854775808)
    (htake : (takeNodes mcAllocateAllocMemblk k s.blocks.pool).1.length = k) :
    ∃ s' g', Resting (a + 64 * k) s' g' ∧
      s'.blocks.pool = (takeNodes mcAllocateAllocMemblk k s.blocks.pool).2 ∧
      (g'.nodes .live).length = (g.nodes .live).length + k ∧
      ∀ id, id ≠ .live → g'.nodes id = g.nodes id := by
  have hlen : (List.replicate k ([] : List ℕ)).length = k := List.length_replicate
  obtain ⟨s', g', hs', hpool, -, hcount, hother, -⟩ :=
    @Resting.mallocsFrom (List.replicate k []) s g a h hpos (by rw [hlen]; exact hlt)
      (by rw [hlen]; exact htake)
  rw [hlen] at hs' hpool hcount
  exact ⟨s', g', hs', hpool, hcount, hother⟩

/-- The pools after `k` blocks have been allocated and freed again, one at a time, if there were
nodes for them. -/
def churnPools : ℕ → Pool → Pool → Option (Pool × Pool)
  | 0, p, q => some (p, q)
  | k + 1, p, q => do
    let (n, p) ← mcAllocateAllocMemblk p
    let (m, q) ← mcAllocateFreeMemblk q
    if n = 0 ∨ m = 0 then none else churnPools k (mcFreeAllocMemblk n p) q

/-- As many blocks as the pools have nodes for go to the quarantine. -/
theorem Resting.churn {k : ℕ} {s : State} {g : Contents} {a : ℕ} {p q : Pool} (h : Resting a s g)
    (hattr : s.Attributed g) (htrace : ∃ n ∈ g.callstacks, (s.callstacks.node n).trace = [])
    (hpos : 0 < a) (hlt : a + 64 * k ≤ 9223372036854775808)
    (hfew : s.quarantine.freed.length + k ≤ freeFifoSize)
    (hchurn : churnPools k s.blocks.pool s.quarantine.pool = some (p, q)) :
    ∃ s' g', Resting (a + 64 * k) s' g' ∧ s'.blocks.pool = p ∧ s'.quarantine.pool = q ∧
      s'.Attributed g' ∧ (∃ n ∈ g'.callstacks, (s'.callstacks.node n).trace = []) ∧
      g'.nodes = g.nodes ∧ s'.quarantine.freed.length = s.quarantine.freed.length + k ∧
      (.mmapFailed ∉ s.trace → .mmapFailed ∉ s'.trace) ∧
      ∀ m ∈ g.nodes .live, s'.blocks.record m = s.blocks.record m := by
  induction k generalizing s g a with
  | zero =>
    simp only [churnPools, Option.some.injEq, Prod.mk.injEq] at hchurn
    exact ⟨s, g, h, hchurn.1, hchurn.2, hattr, htrace, rfl, rfl, id, fun _ _ ↦ rfl⟩
  | succ k ih =>
    simp only [churnPools, Option.bind_eq_bind, Option.bind_eq_some_iff] at hchurn
    obtain ⟨⟨n, p₁⟩, halloc, ⟨m, q₁⟩, hfree, hchurn⟩ := hchurn
    simp only at hchurn
    split_ifs at hchurn with hnull
    rw [not_or] at hnull
    -- one block is taken and freed again
    obtain ⟨t, g₁, n', c, ht, hrec⟩ := h.malloc hpos (by omega) ⟨n, p₁, halloc, hnull.1⟩
    obtain ⟨rfl, rfl⟩ : n = n' ∧ p₁ = t.blocks.pool := by
      have := halloc.symm.trans hrec.allocated
      simpa only [Option.some.injEq, Prod.mk.injEq] using this
    obtain ⟨e, he, hnil⟩ := htrace
    -- the empty backtrace is interned already, so no callstack is needed
    have hc : c ≠ 0 := h.inv.callstacks.get_ne_zero he (by rw [hnil]; rfl) hrec.got
    have hattr₁ : t.Attributed g₁ :=
      State.Attributed.recorded (s := (s.origMalloc (Env.handing a) 48).2)
        (hattr.congr rfl rfl) hrec hc
    have hn₁ : n ∈ g₁.nodes .live := by
      rw [hrec.nodes, Function.update_self]
      exact List.mem_cons_self
    have hquarantine : t.quarantine = s.quarantine := hrec.quarantine
    have hnil₁ : (t.callstacks.node e).trace = [] := (hrec.interned.extends_.trace e he).trans hnil
    have he₁ : e ∈ g₁.callstacks := hrec.interned.sub he
    obtain ⟨u, g₂, m', d, log, hu, hlog, hun⟩ := ht.free hattr₁ hn₁ (by rw [hquarantine]; omega)
      ⟨m, q₁, by rw [hquarantine]; exact hfree, hnull.2⟩
    have hd : d ≠ 0 := ht.inv.callstacks.get_ne_zero he₁ (by rw [hnil₁]; rfl) hun.got
    obtain ⟨q', hfree', hq'⟩ := hun.allocated
    obtain ⟨rfl, rfl⟩ : m = m' ∧ q₁ = u.quarantine.pool := by
      rw [hquarantine, hfree] at hfree'
      simp only [Option.some.injEq, Prod.mk.injEq] at hfree'
      exact ⟨hfree'.1, hfree'.2.trans (hq' rfl).symm⟩
    rw [← hun.pool] at hchurn
    have hlen : u.quarantine.freed.length = s.quarantine.freed.length + 1 := by
      rw [hun.history, hquarantine, List.length_append, List.length_singleton]
    have hsupply : .mmapFailed ∉ s.trace → .mmapFailed ∉ u.trace := fun hsupply ↦
      State.supply_unregistered hun hlog hd (State.supply_recorded hrec hc hsupply)
    have hnodes : g₂.nodes = g.nodes := by
      rw [hun.nodes, hrec.nodes, Function.update_self, List.erase_cons_head, Function.update_idem,
        Function.update_eq_self]
    obtain ⟨s', g', hs', hp, hq, hattr', htrace', hnodes', hlen', hsupply', hrecord'⟩ :=
      ih hu (hattr₁.unregistered hn₁ hun hd)
        ⟨e, hun.interned.sub he₁, (hun.interned.extends_.trace e he₁).trans hnil₁⟩ (by omega)
        (by omega) (by omega) hchurn
    have heq : a + 64 + 64 * k = a + 64 * (k + 1) := by ring
    refine ⟨s', g', heq ▸ hs', hp, hq, hattr', htrace', hnodes'.trans hnodes, by omega,
      hsupply' ∘ hsupply, fun m hm ↦ ?_⟩
    -- the node that was taken is none of those that were there
    rw [hrecord' m (hnodes ▸ hm), hun.record]
    exact hrec.record_of_ne m (ne_of_mem_of_not_mem hm (hrec.notMem .live))

/-! ### A run that fills the page of the ring -/

/-- Two blocks are live, the 71 nodes of the first page are in the quarantine, and no page can be
mapped. -/
theorem resting_exhausted : ∃ s g m n c d, Resting 1053248 s g ∧ s.Attributed g ∧
    ¬s.HasFreeNode ∧ m ∈ g.nodes .live ∧ n ∈ g.nodes .live ∧
      s.blocks.record m = ⟨1048592, ⟨1048576, 48, 16⟩, c⟩ ∧
      s.blocks.record n = ⟨1053200, ⟨1053184, 48, 16⟩, d⟩ := by
  -- the callstack that all allocations here have is interned by the first one
  have hchurn : ((churnPools 71 (takeNodes mcAllocateAllocMemblk 1 State.start.blocks.pool).2
      State.start.quarantine.pool).map fun x ↦ ((mcAllocateAllocMemblk x.1).map Prod.fst,
        (mcAllocateFreeMemblk x.2).map Prod.fst)) = some (some 4240, some 0) := by decide +kernel
  obtain ⟨⟨p, q⟩, hpools, hfst⟩ := Option.map_eq_some_iff.1 hchurn
  simp only [Prod.mk.injEq] at hfst
  obtain ⟨⟨⟨k, p'⟩, hlast, hk⟩, hfull⟩ := hfst.imp_left Option.map_eq_some_iff.1
  obtain rfl : k = 4240 := hk
  obtain ⟨⟨n₀, p₀⟩, hfirst, hn₀⟩ := Option.map_eq_some_iff.1 (by decide +kernel :
    (mcAllocateAllocMemblk State.start.blocks.pool).map Prod.fst = some 4176)
  obtain rfl : n₀ = 4176 := hn₀
  obtain ⟨s₁, g₁, n₁, c₁, h₁, hrec₁⟩ :=
    resting_start.malloc (by decide) (by decide) ⟨_, _, hfirst, by decide⟩
  have hpool : (takeNodes mcAllocateAllocMemblk 1 State.start.blocks.pool).2 = s₁.blocks.pool := by
    have halloc : some (4176, p₀) = some (n₁, s₁.blocks.pool) :=
      hfirst.symm.trans hrec₁.allocated
    simp only [Option.some.injEq, Prod.mk.injEq] at halloc
    rw [takeNodes, hfirst]
    exact halloc.2
  have hc₁ : c₁ ≠ 0 := hrec₁.callstack_ne_zero (hasCallstack_start _)
  have horig : (State.start.origMalloc (Env.handing 1048576) 48).2.Attributed
      ⟨fun _ ↦ [], [], []⟩ := ⟨by simp, by simp⟩
  obtain ⟨hmem, htrace⟩ := hrec₁.interned.result.resolve_left hc₁
  obtain ⟨s₂, g₂, h₂, rfl, rfl, hattr₂, ⟨e, he, hnil⟩, hnodes₂, -, -, hrecord₂⟩ :=
    h₁.churn (horig.recorded hrec₁ hc₁) ⟨c₁, hmem, htrace⟩
      (by decide) (by decide) (by rw [hrec₁.quarantine]; decide) (k := 71) (p := p) (q := q) (by
        rw [← hpool, hrec₁.quarantine]
        exact hpools)
  obtain ⟨s₃, g₃, n, c, h₃, hrec⟩ := h₂.malloc (by decide) (by decide) ⟨_, _, hlast, by decide⟩
  have hc : c ≠ 0 := h₂.inv.callstacks.get_ne_zero he (by rw [hnil]; rfl) hrec.got
  have horig₂ : (s₂.origMalloc (Env.handing (1048576 + 64 + 64 * 71)) 48).2.Attributed g₂ :=
    hattr₂.congr rfl rfl
  have hn₁ : n₁ ∈ g₁.nodes .live := by
    rw [hrec₁.nodes, Function.update_self]
    exact List.mem_cons_self
  have hn₂ : n₁ ∈ g₂.nodes .live := hnodes₂ ▸ hn₁
  have hrecord : s₃.blocks.record n₁ = s₁.blocks.record n₁ :=
    (hrec.record_of_ne n₁ (ne_of_mem_of_not_mem hn₂ (hrec.notMem .live))).trans (hrecord₂ n₁ hn₁)
  refine ⟨s₃, g₃, n₁, n, c₁, c, h₃, horig₂.recorded hrec hc, ?_, ?_, ?_,
    hrecord.trans hrec₁.record, hrec.record⟩
  · rintro ⟨m, pool, halloc, hm⟩
    have hquarantine : s₃.quarantine = s₂.quarantine := hrec.quarantine
    rw [hquarantine] at halloc
    rw [halloc] at hfull
    exact hm (Option.some.inj hfull)
  · rw [hrec.nodes, Function.update_self]
    exact List.mem_cons_of_mem _ hn₂
  · rw [hrec.nodes, Function.update_self]
    exact List.mem_cons_self

/-! ### A run past an eviction -/

/-- `mmap` will answer the next `k` calls of the pool. -/
def Pool.Backed (k : ℕ) (p : Pool) : Prop :=
  k ≤ p.mmaps.length ∧ ∀ m ∈ p.mmaps, m ≠ none

/-- As long as `mmap` answers, an allocation succeeds. -/
theorem Pool.Inv.alloc_of_backed {top k : ℕ} {z : SlotSize} {p : Pool} (h : p.Inv top z)
    (hk : p.Backed (k + 1)) :
    ∃ a p', mcAllocatorAlloc top z.val p = some (a, p') ∧ a ≠ 0 ∧ p'.Backed k := by
  rcases h.mcAllocatorAlloc_cases with ⟨l₁, page, l₂, i, -, -, -, -, -, halloc⟩ |
    ⟨page, mmaps, hm, -, -, halloc⟩ | ⟨hm, -, -, -⟩
  · exact ⟨_, _, halloc, by simp [SlotSize.slotAddr], (Nat.le_succ k).trans hk.1, hk.2⟩
  · have hmmaps : (p.addBatch top z page mmaps).mmaps = mmaps :=
      (h.toChain.addBatch mmaps (h.new_batch page mmaps hm)).2.2.1
    obtain ⟨hlen, hsome⟩ := hk
    rw [hm, List.length_cons, Nat.add_le_add_iff_right] at hlen
    refine ⟨_, _, halloc, by simp [SlotSize.slotAddr], ?_⟩
    show k ≤ (p.addBatch top z page mmaps).mmaps.length ∧
      ∀ m ∈ (p.addBatch top z page mmaps).mmaps, m ≠ none
    rw [hmmaps]
    exact ⟨hlen, fun m hmem ↦ hsome m (hm ▸ List.mem_cons_of_mem _ hmem)⟩
  · obtain ⟨hlen, hsome⟩ := hk
    exfalso
    cases hmm : p.mmaps with
    | nil =>
      rw [hmm] at hlen
      exact absurd hlen (Nat.not_succ_le_zero k)
    | cons m mmaps =>
      cases m with
      | none => exact hsome none (hmm ▸ List.mem_cons_self) rfl
      | some page => exact hm page (by rw [hmm]; rfl)

/-- As long as `mmap` answers, there are nodes for blocks that are allocated and freed again. -/
theorem exists_churnPools {k j : ℕ} {p q : Pool} (hp : p.Inv allocMemblkPoolHead allocMemblkSize)
    (hq : q.Inv freeMemblkPoolHead freeMemblkSize) (hpk : p.Backed (k + j))
    (hqk : q.Backed (k + j)) :
    ∃ p' q', churnPools k p q = some (p', q') ∧ p'.Backed j ∧ q'.Backed j := by
  induction k generalizing p q with
  | zero =>
    rw [Nat.zero_add] at hpk hqk
    exact ⟨p, q, rfl, hpk, hqk⟩
  | succ k ih =>
    rw [Nat.add_right_comm] at hpk hqk
    obtain ⟨n, p₁, halloc, hn, hpk₁⟩ := hp.alloc_of_backed hpk
    obtain ⟨m, q₁, hfree, hm, hqk₁⟩ := hq.alloc_of_backed hqk
    obtain ⟨n', p₁', halloc', hp₁, hspec⟩ := hp.mcAllocatorAlloc_spec
    obtain ⟨m', q₁', hfree', hq₁, -⟩ := hq.mcAllocatorAlloc_spec
    obtain ⟨rfl, rfl⟩ := Prod.mk.inj (Option.some.inj (halloc.symm.trans halloc'))
    obtain ⟨rfl, rfl⟩ := Prod.mk.inj (Option.some.inj (hfree.symm.trans hfree'))
    have hlive : n ∈ p₁.live allocMemblkSize := by
      rcases hspec with ⟨hzero, -⟩ | ⟨-, -, hlive, -⟩
      · exact absurd hzero hn
      · rw [hlive]
        exact Finset.mem_insert_self _ _
    obtain ⟨p', q', hchurn, hback⟩ := ih (hp₁.mcAllocatorFree_spec hlive).1 hq₁ hpk₁ hqk₁
    refine ⟨p', q', ?_, hback⟩
    rw [churnPools, mcAllocateAllocMemblk, halloc]
    show (mcAllocateFreeMemblk q).bind _ = _
    rw [mcAllocateFreeMemblk, hfree]
    show (if n = 0 ∨ m = 0 then none else churnPools k (mcFreeAllocMemblk n p₁) q₁) = _
    rw [if_neg (by rw [not_or]; exact ⟨hn, hm⟩)]
    exact hchurn

/-- A kernel that answers 200 calls of each of the pools for blocks. -/
def Kernel.generous : Kernel where
  allocMemblk := (List.range 200).map fun k ↦ some (32768 + 16384 * k)
  freeMemblk := (List.range 200).map fun k ↦ some (32768 + 16384 * k)
  callstack := []

/-- A kernel that maps one batch behind the other keeps its promise. -/
theorem kernel_ok_generous : Kernel.generous.Ok :=
  ⟨kernelAnswers_batchesFrom (by decide) (by decide) (by decide) (by decide) 200,
    kernelAnswers_batchesFrom (by decide) (by decide) (by decide) (by decide) 200,
    kernelAnswers_nil (by decide) (by decide)⟩

/-- A pool can grow as often as the kernel has answers. -/
theorem backed_mcAllocatorInit {top k : ℕ} (z : SlotSize) (h : Headers) (base : ℕ → ℕ) :
    (mcAllocatorInit top z.val h ((List.range k).map fun i ↦ some (base i))).Backed k := by
  refine ⟨?_, fun m hm ↦ ?_⟩
  · show k ≤ ((List.range k).map fun i ↦ some (base i)).length
    rw [List.length_map, List.length_range]
  · obtain ⟨i, -, rfl⟩ := List.mem_map.1 hm
    exact Option.some_ne_none _

/-- A run past an eviction: one block is live, 129 others have been allocated and freed, and the
first of these has left the quarantine. -/
theorem hookedReachable_evicted : ∃ s g, HookedReachable s ∧ s.Inv g ∧
    (g.nodes .live).length = 1 ∧ s.quarantine.freed.length = 129 := by
  have h₀ := resting_init kernel_ok_generous fun _ ↦ 0
  have hp₀ : (State.init .generous fun _ ↦ 0).blocks.pool.Backed (199 + 1) :=
    backed_mcAllocatorInit _ _ fun i ↦ 32768 + 16384 * i
  have hq₀ : (State.init .generous fun _ ↦ 0).quarantine.pool.Backed 200 :=
    backed_mcAllocatorInit _ _ fun i ↦ 32768 + 16384 * i
  -- the callstack that all calls here come from is interned with the block that stays live
  obtain ⟨n₀, p₀, halloc₀, hn₀, hp₁⟩ := h₀.inv.blocks.pool.alloc_of_backed hp₀
  obtain ⟨s₁, g₁, n₁, c₁, h₁, hrec₁⟩ := h₀.malloc (by decide) (by decide) ⟨n₀, p₀, halloc₀, hn₀⟩
  obtain ⟨rfl, rfl⟩ := Prod.mk.inj (Option.some.inj (halloc₀.symm.trans hrec₁.allocated))
  have hc₁ : c₁ ≠ 0 := hrec₁.callstack_ne_zero (hasCallstack_start 1048576)
  have horig : ((State.init .generous fun _ ↦ 0).origMalloc (Env.handing 1048576) 48).2.Attributed
      ⟨fun _ ↦ [], [], []⟩ := ⟨by simp, by simp⟩
  have hattr₁ := horig.recorded hrec₁ hc₁
  obtain ⟨hmem, htrace⟩ := hrec₁.interned.result.resolve_left hc₁
  have hquarantine₁ : s₁.quarantine = (State.init .generous fun _ ↦ 0).quarantine :=
    hrec₁.quarantine
  have hsupply₁ : .mmapFailed ∉ s₁.trace := State.supply_recorded hrec₁ hc₁ List.not_mem_nil
  -- 128 blocks fill the quarantine
  obtain ⟨p₂, q₂, hchurn, hp₂, hq₂⟩ := exists_churnPools (k := 128) (j := 71) h₁.inv.blocks.pool
    h₁.inv.quarantine.pool hp₁ ⟨by rw [hquarantine₁]; exact hq₀.1.trans' (by decide), by
      rw [hquarantine₁]; exact hq₀.2⟩
  obtain ⟨s₂, g₂, h₂, rfl, rfl, hattr₂, ⟨e, he, hnil⟩, hnodes₂, hlen₂,
      hsupply₂, -⟩ :=
    h₁.churn hattr₁ ⟨c₁, hmem, htrace⟩ (by decide) (by decide) (by rw [hquarantine₁]; decide) hchurn
  have hfull : s₂.quarantine.freed.length = 128 := by
    rw [hlen₂, hquarantine₁]
    rfl
  -- one more block pushes the first of them out
  obtain ⟨m, p₃, halloc, hm, -⟩ := h₂.inv.blocks.pool.alloc_of_backed hp₂
  obtain ⟨s₃, g₃, n, c, h₃, hrec⟩ := h₂.malloc (by decide) (by decide) ⟨m, p₃, halloc, hm⟩
  have hc : c ≠ 0 := h₂.inv.callstacks.get_ne_zero he (by rw [hnil]; rfl) hrec.got
  have horig₂ : (s₂.origMalloc (Env.handing (1048576 + 64 + 64 * 128)) 48).2.Attributed g₂ :=
    hattr₂.congr rfl rfl
  have hattr₃ := horig₂.recorded hrec hc
  have hquarantine₃ : s₃.quarantine = s₂.quarantine := hrec.quarantine
  have hn : n ∈ g₃.nodes .live := by
    rw [hrec.nodes, Function.update_self]
    exact List.mem_cons_self
  obtain ⟨m', q₃, hfree₃, hm', -⟩ := h₂.inv.quarantine.pool.alloc_of_backed hq₂
  obtain ⟨new, d, evicted, log, evictLog, t, g', hfree, hlog, hun⟩ :=
    @State.Inv.hookFree_released s₃ g₃ (Env.handing (1048576 + 64 + 64 * 128 + 64)) n
    h₃.inv h₃.mode hn
      ⟨m', q₃, by rw [hquarantine₃]; exact hfree₃, hm'⟩ (hattr₃.allocator .live n hn) hattr₃.freed
  have hnil₃ : (s₃.callstacks.node e).trace = [] := (hrec.interned.extends_.trace e he).trans hnil
  have hd : d ≠ 0 := h₃.inv.callstacks.get_ne_zero (hrec.interned.sub he) (by rw [hnil₃]; rfl)
    hun.got
  have hsupply₃ : .mmapFailed ∉ t.trace := State.supply_unregistered hun hlog hd
    (State.supply_recorded hrec hc (hsupply₂ hsupply₁))
  have hone : (g'.nodes .live).length = 1 := by
    rw [hun.nodes, hrec.nodes, Function.update_self, Function.update_self, List.erase_cons_head,
      hnodes₂, hrec₁.nodes, Function.update_self]
    rfl
  refine ⟨t.giveBack (s₃.evictedBuf evicted), g', (h₃.step_free hn hfree).2.2 ?_,
    hun.inv.giveBack (h₃.inv.evictedBuf_notMem hn hun), hone, ?_⟩
  · rw [State.trace_giveBack, List.mem_append, not_or]
    refine ⟨hsupply₃, ?_⟩
    split_ifs <;> simp
  · rw [State.quarantine_giveBack, hun.history, hquarantine₃, List.length_append, hfull]
    rfl

end Memchk
