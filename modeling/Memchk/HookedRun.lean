import Memchk.Supply
import Memchk.Library.Ledger

/-!
# Runs of calls with hooks enabled

Runs that consist of calls of `malloc`, `free` and the others and of the stores of the program in
between, with hooks enabled throughout and metadata there (`HookedStep`). The program may hand over
whatever it likes, pointers that are not live included, and of the environment only the promise of
`mc_orig_malloc` is asked (`HookedCall`).

## What the stack holds

`free` declares `buf_to_be_freed` without a value and reads it after `mc_unregister_memblk`, which
sets it on all paths but one: where the pool of the ring had no memory. In the runs of this file it
always has, so what the stack held does not matter (`Call.exec_quiet`), and the environment may be
taken to be quiet.

## Runs as effects

Such a run is a sequence of effects, so that what holds at the start and is kept by every effect
holds in every state between two calls (`HookedReachable.induction`). That is the rule by which the
properties of runs are proved in the modules behind: the counters, the conservation of buffers, the
attribution to callstacks. Each of them gives a lemma for each kind of effect, and a store of the
program is the case in which the bytes of the memory change and nothing else.

## The ledger

The ledger of a state is its trace reduced to the transfers between the checker and the functions
behind the hooks: `took` a buffer, `gave` one back. Each effect adds to it what its lemma here says,
and lines of the log add nothing.
-/

namespace Memchk

/-- A call with hooks enabled that finds metadata, in an environment where `mc_orig_malloc` keeps
its promise. -/
def HookedCall (s t : State) : Prop :=
  ∃ (env : Env) (c : Call) (p : ℕ), c.InRange ∧
    (∀ r, c.request s = some r → Heap.AnswerOk env.answer r.bufsize s.heap) ∧
    c.exec env s = some (p, t) ∧ .mmapFailed ∉ t.trace

/-- The program calls a hooked function, or writes to a buffer that `mc_orig_malloc` has handed out,
into a red zone or a freed area if it comes to it. -/
def HookedStep (s t : State) : Prop :=
  HookedCall s t ∨
    ∃ addr byte, s.heap.Covered addr ∧ t = { s with heap := s.heap.store addr byte }

/-- The states between two calls of a run with hooks enabled in which metadata is there. -/
def HookedReachable (s : State) : Prop :=
  ∃ k mem, k.Ok ∧ Relation.ReflTransGen HookedStep (State.init k mem) s

/-! ### What the stack holds -/

/-- The environment in which `buf_to_be_freed` happens to be null. -/
def Env.quiet (env : Env) : Env :=
  { env with garbage := 0 }

section Quiet

variable {env : Env} {s t : State} {ptr p b b' buf : ℕ} {ret : ℤ} {c : Call}

/-- Where there is a node for the block, `mc_unregister_memblk` sets `*buf_to_be_freed`. -/
theorem mcUnregisterMemblk_quiet (hun : mcUnregisterMemblk env ptr b s = some (ret, buf, t))
    (hsupply : s.HasFreeNode ∨ .mmapFailed ∉ t.trace) :
    mcUnregisterMemblk env.quiet ptr b' s = some (ret, buf, t) := by
  rw [mcUnregisterMemblk] at hun ⊢
  obtain ⟨⟨node, blocks⟩, hremove, hun⟩ := Option.bind_eq_some_iff.1 hun
  refine Option.bind_eq_some_iff.2 ⟨_, hremove, ?_⟩
  by_cases hnode : node = 0
  · simp only [if_pos hnode] at hun ⊢
    exact hun
  simp only [if_neg hnode] at hun ⊢
  obtain ⟨⟨rc, log⟩, hcheck, hun⟩ := Option.bind_eq_some_iff.1 hun
  refine Option.bind_eq_some_iff.2 ⟨_, hcheck, ?_⟩
  obtain ⟨⟨new, pool⟩, hallocate, hun⟩ := Option.bind_eq_some_iff.1 hun
  refine Option.bind_eq_some_iff.2 ⟨_, hallocate, ?_⟩
  by_cases hnew : new = 0
  · -- the block is dropped
    simp only [if_pos hnew, Option.pure_def, Option.some.injEq, Prod.mk.injEq] at hun
    obtain ⟨-, -, rfl⟩ := hun
    rcases hsupply with ⟨m, pool', halloc, hm⟩ | hsupply
    · have heq := halloc.symm.trans hallocate
      rw [Option.some_inj, Prod.mk.injEq] at heq
      exact absurd (heq.1.trans hnew) hm
    · exact absurd (List.mem_append_right _ List.mem_cons_self) hsupply
  · simp only [if_neg hnew] at hun ⊢
    exact hun

/-- `free` does not depend on what the stack holds. -/
theorem Hook.free_quiet (hfree : Hook.free env ptr s = some t)
    (hsupply : s.HasFreeNode ∨ .mmapFailed ∉ t.trace) : Hook.free env.quiet ptr s = some t := by
  rw [Hook.free] at hfree ⊢
  split_ifs at hfree ⊢ with hnull hmode
  · exact hfree
  · exact hfree
  obtain ⟨⟨ret, buf, u⟩, hun, hback⟩ := Option.bind_eq_some_iff.1 hfree
  obtain rfl : u.giveBack buf = t := Option.some.inj hback
  have hfront : u.trace <+: (u.giveBack buf).trace := by
    rw [State.trace_giveBack]
    exact List.prefix_append _ _
  exact Option.bind_eq_some_iff.2
    ⟨_, mcUnregisterMemblk_quiet hun (hsupply.imp_right fun h hmem ↦ h (hfront.subset hmem)), rfl⟩

/-- `malloc` leaves the quarantine alone. -/
theorem Hook.quarantine_malloc {size : ℕ} (hmalloc : Hook.malloc env size s = some (p, t)) :
    t.quarantine = s.quarantine := by
  rw [Hook.malloc] at hmalloc
  dsimp only at hmalloc
  split_ifs at hmalloc
  · obtain rfl : (s.origMalloc env size).2 = t := congrArg Prod.snd (Option.some.inj hmalloc)
    rfl
  · obtain rfl : (s.origMalloc env _).2 = t := congrArg Prod.snd (Option.some.inj hmalloc)
    rfl
  · obtain ⟨⟨ret, u⟩, hreg, heq⟩ := Option.bind_eq_some_iff.1 hmalloc
    obtain rfl : u = t := congrArg Prod.snd (Option.some.inj heq)
    rw [mcRegisterMemblk] at hreg
    obtain ⟨⟨new, pool⟩, -, hreg⟩ := Option.bind_eq_some_iff.1 hreg
    dsimp only at hreg
    split_ifs at hreg
    · exact (congrArg (fun x ↦ x.2.quarantine) (Option.some.inj hreg)).symm
    · obtain ⟨⟨c, cs⟩, -, hreg⟩ := Option.bind_eq_some_iff.1 hreg
      obtain ⟨heap, -, hreg⟩ := Option.bind_eq_some_iff.1 hreg
      exact (congrArg (fun x ↦ x.2.quarantine) (Option.some.inj hreg)).symm

/-- A call that finds metadata does the same whatever the stack held. -/
theorem Call.exec_quiet (hexec : c.exec env s = some (p, t))
    (hsupply : s.HasFreeNode ∨ .mmapFailed ∉ t.trace) : c.exec env.quiet s = some (p, t) := by
  cases c with
  | free ptr =>
    obtain ⟨u, hfree, heq⟩ := Option.map_eq_some_iff.1 hexec
    obtain rfl : u = t := congrArg Prod.snd heq
    exact Option.map_eq_some_iff.2 ⟨u, Hook.free_quiet hfree hsupply, heq⟩
  | realloc ptr size =>
    rw [Call.exec, Hook.realloc] at hexec ⊢
    split_ifs at hexec ⊢ with hptr hsize hmode
    · exact hexec
    · obtain ⟨u, hfree, heq⟩ := Option.bind_eq_some_iff.1 hexec
      obtain rfl : u = t := congrArg Prod.snd (Option.some.inj heq)
      exact Option.bind_eq_some_iff.2 ⟨u, Hook.free_quiet hfree hsupply, heq⟩
    · exact hexec
    obtain ⟨oldsize, hold, hexec⟩ := Option.bind_eq_some_iff.1 hexec
    refine Option.bind_eq_some_iff.2 ⟨oldsize, hold, ?_⟩
    by_cases hnone : oldsize = 18446744073709551615
    · rw [if_pos hnone] at hexec ⊢
      exact hexec
    rw [if_neg hnone] at hexec ⊢
    obtain ⟨⟨newptr, u⟩, hmalloc, hexec⟩ := Option.bind_eq_some_iff.1 hexec
    refine Option.bind_eq_some_iff.2 ⟨(newptr, u), hmalloc, ?_⟩
    by_cases hnull : newptr = 0
    · simp only [if_pos hnull] at hexec ⊢
      exact hexec
    simp only [if_neg hnull] at hexec ⊢
    obtain ⟨heap, hcopy, hexec⟩ := Option.bind_eq_some_iff.1 hexec
    obtain ⟨v, hfree, heq⟩ := Option.bind_eq_some_iff.1 hexec
    obtain rfl : v = t := congrArg Prod.snd (Option.some.inj heq)
    have hquarantine : u.quarantine = s.quarantine := Hook.quarantine_malloc hmalloc
    have hnode : ({ u with heap := heap } : State).HasFreeNode ∨ .mmapFailed ∉ v.trace := by
      refine hsupply.imp_left fun hnode ↦ ?_
      rw [State.HasFreeNode, hquarantine]
      exact hnode
    exact Option.bind_eq_some_iff.2
      ⟨heap, hcopy, Option.bind_eq_some_iff.2 ⟨v, Hook.free_quiet hfree hnode, heq⟩⟩
  | malloc _ | calloc _ _ | posixMemalign _ _ | alignedAlloc _ _ | memalign _ _ | valloc _
  | pvalloc _ => exact hexec

end Quiet

/-! ### Runs as effects -/

/-- What an event says about the buffers that are handed out behind the hooks. -/
def Event.transfers : Event → List (Transfer ℕ)
  | .origMalloc _ ret | .origCalloc _ _ ret => if ret = 0 then [] else [.took ret]
  | .origRealloc ptr _ ret => [.gave ptr, .took (if ret = 0 then ptr else ret)]
  | .origFree ptr => [.gave ptr]
  | _ => []

/-- The buffers that the checker got from the functions behind the hooks, and gave back to them. -/
def State.ledger (s : State) : List (Transfer ℕ) :=
  s.trace.flatMap Event.transfers

section Ledgers

variable {s t : State} {es log : List Event}

theorem State.ledger_eq (htrace : t.trace = s.trace ++ es) :
    t.ledger = s.ledger ++ es.flatMap Event.transfers := by
  rw [ledger, htrace, List.flatMap_append]
  rfl

/-- Reports of damage transfer nothing. -/
theorem transfers_of_isDamage (hlog : ∀ e ∈ log, e.isDamage) :
    log.flatMap Event.transfers = [] := by
  rw [List.flatMap_eq_nil_iff]
  intro e he
  have := hlog e he
  cases e <;> first | rfl | exact absurd this Bool.false_ne_true

/-- Remarks transfer nothing. -/
theorem transfers_of_isRemark (hes : ∀ e ∈ es, Event.isRemark e) :
    es.flatMap Event.transfers = [] := by
  rw [List.flatMap_eq_nil_iff]
  intro e he
  have := hes e he
  cases e <;> first | rfl | exact absurd this Bool.false_ne_true

theorem State.ledger_origFree (ptr : ℕ) : (s.origFree ptr).ledger = s.ledger ++ [.gave ptr] := by
  have htrace : (s.origFree ptr).trace = s.trace ++ [.origFree ptr] := rfl
  rw [ledger_eq htrace]
  rfl

theorem State.ledger_giveBack {buf : ℕ} (hbuf : buf ≠ 0) :
    (s.giveBack buf).ledger = s.ledger ++ [.gave buf] := by
  rw [giveBack, if_pos hbuf, ledger_origFree]

/-- `mc_orig_malloc` takes a buffer if it succeeds. -/
theorem State.ledger_origMalloc (env : Env) (size : ℕ) :
    (s.origMalloc env size).2.ledger =
      s.ledger ++ if env.answer.addr = 0 then [] else [.took env.answer.addr] := by
  have htrace : (s.origMalloc env size).2.trace = s.trace ++ [.origMalloc size env.answer.addr] :=
    rfl
  rw [ledger_eq htrace, List.flatMap_singleton, Event.transfers]

theorem Unrecorded.ledger {g : Contents} (h : Unrecorded s g t) : t.ledger = s.ledger := by
  rw [State.ledger_eq h.trace]
  exact List.append_nil _

theorem Recorded.ledger {env : Env} {x : Memblk} {usrptr n c : ℕ} {g g' : Contents}
    (h : Recorded env x usrptr s g n c t g') : t.ledger = s.ledger := by
  rw [State.ledger_eq h.trace]
  split_ifs <;> exact List.append_nil _

theorem Dropped.ledger {usrptr n : ℕ} {g : Contents} (h : Dropped usrptr s g n log t)
    (hlog : ∀ e ∈ log, e.isDamage) : t.ledger = s.ledger := by
  rw [State.ledger_eq h.trace, List.flatMap_append, transfers_of_isDamage hlog]
  exact List.append_nil _

/-- Unregistering a block transfers nothing: the buffer evicted is given back after it. -/
theorem Unregistered.ledger {env : Env} {usrptr n new c : ℕ} {evicted : Option ℕ}
    {evictLog : List Event} {g g' : Contents}
    (h : Unregistered env usrptr s g n new c evicted log evictLog t g')
    (hlog : ∀ e ∈ log, e.isDamage) : t.ledger = s.ledger := by
  have hevict : evictLog.flatMap Event.transfers = [] := by
    cases evicted with
    | none => rw [h.evictLog_eq_nil rfl, List.flatMap_nil]
    | some old =>
      obtain ⟨rc, hcheck⟩ := h.evictCheck old rfl
      exact transfers_of_isDamage (isDamage_mcCheckFreedBuffer hcheck)
  rw [State.ledger_eq h.trace, List.flatMap_append, List.flatMap_append, transfers_of_isDamage hlog,
    hevict, List.append_nil, List.nil_append]
  split_ifs <;> exact List.append_nil _

end Ledgers

/-- The effects there are as long as metadata is there: one that changes no node, one that makes a
buffer a live block, and one that takes a live block to the quarantine and gives the buffer of the
block that leaves it back. -/
inductive SuppliedEffect (env : Env) (s : State) (g : Contents) (s' : State) : Contents → Prop
  | quiet (hsame : s.SameNodes s') (hledger : s'.ledger = s.ledger) : SuppliedEffect env s g s' g
  | recorded {g'} (r : Request) (n c : ℕ) (hne : env.answer.addr ≠ 0)
    (ha : Heap.AnswerOk env.answer r.bufsize s.heap)
    (hrec : Recorded env (r.block env.answer.addr) (r.place env.answer.addr)
      (s.origMalloc env r.bufsize).2 g n c s' g')
    (hledger : s'.ledger = s.ledger ++ [.took env.answer.addr]) : SuppliedEffect env s g s' g'
  | released {g'} (n usrptr new c : ℕ) (evicted : Option ℕ) (log evictLog : List Event) (t : State)
    (hn : n ∈ g.nodes .live) (hkey : (s.blocks.record n).usrptr = usrptr)
    (hun : Unregistered env usrptr s g n new c evicted log evictLog t g')
    (hback : s' = t.giveBack (s.evictedBuf evicted))
    (hledger : s'.ledger = s.ledger ++
      (evicted.map fun old ↦ .gave (s.quarantine.record old).memblk.buf).toList) :
    SuppliedEffect env s g s' g'

section Runs

variable {s s' t : State} {g g' : Contents}

/-- With metadata there, an effect is one with metadata there. -/
theorem Effect.supplied {env : Env} (he : Effect env s g s' g') (h : s.Inv g)
    (hsupply : .mmapFailed ∉ s'.trace) : SuppliedEffect env s g s' g' := by
  cases he with
  | @logged es hes =>
    refine .quiet ⟨rfl, rfl, rfl, rfl, List.prefix_append _ _⟩ ?_
    have htrace : (s.emit es).trace = s.trace ++ es := rfl
    rw [State.ledger_eq htrace, transfers_of_isRemark hes, List.append_nil]
  | refused size hnull =>
    refine .quiet ⟨rfl, rfl, rfl, rfl, List.prefix_append _ _⟩ ?_
    rw [State.ledger_origMalloc, if_pos hnull, List.append_nil]
  | unrecorded r hne ha hun =>
    rw [hun.trace] at hsupply
    simp at hsupply
  | @recorded _ _ n c r hne ha hrec =>
    refine .recorded r n c hne ha hrec ?_
    rw [hrec.ledger, State.ledger_origMalloc, if_neg hne]
  | wrote hn hmem => exact .quiet ⟨rfl, rfl, rfl, rfl, List.prefix_rfl⟩ rfl
  | overwrote mem hfailed => exact absurd hfailed hsupply
  | dropped hn hkey hcheck hgarbage hdrop =>
    rw [State.trace_giveBack, hdrop.trace] at hsupply
    simp at hsupply
  | @released t _ n usrptr new c rc log evicted evictLog hn hkey hcheck hun =>
    refine .released n usrptr new c evicted log evictLog t hn hkey hun rfl ?_
    have hledger := hun.ledger (isDamage_mcCheckAllocatedBuffer hcheck)
    cases evicted with
    | none =>
      rw [show s.evictedBuf none = 0 from rfl, State.giveBack, if_neg (not_not_intro rfl), hledger]
      exact (List.append_nil _).symm
    | some old =>
      have hbuf : s.evictedBuf (some old) ≠ 0 :=
        h.heap.ne_null _ (h.guardedFreed old (h.evicted_mem hun rfl)).mem
      rw [State.ledger_giveBack hbuf, hledger]
      rfl

/-- A step with hooks enabled is an action of a run, whatever the stack holds. -/
theorem HookedStep.action (hstep : HookedStep s t) (h : s.Inv g) (h0 : s.doNotHook = 0) :
    ∃ a : Action, a.Ok s ∧ a.exec s = some t := by
  rcases hstep with ⟨env, c, p, hc, ha, hexec, hsupply⟩ | ⟨addr, byte, hcovered, rfl⟩
  · refine ⟨.call env.quiet c, ⟨hc, ?_⟩, ?_⟩
    · rw [if_pos (.inr h0)]
      exact ⟨ha, h.not_tracks_zero, .inl rfl⟩
    · rw [Action.exec, Call.exec_quiet hexec (.inr hsupply)]
      rfl
  · exact ⟨.store addr byte, hcovered, rfl⟩

/-- A step does not add a failure of `mmap` to the trace. -/
theorem HookedStep.supply (hstep : HookedStep s t) (hsupply : .mmapFailed ∉ s.trace) :
    .mmapFailed ∉ t.trace := by
  rcases hstep with ⟨env, c, p, -, -, -, hsupply'⟩ | ⟨addr, byte, -, rfl⟩
  · exact hsupply'
  · exact hsupply

/-- A step with hooks enabled is a store or a sequence of effects. -/
theorem HookedStep.effects (hstep : HookedStep s t) (h : s.Inv g) (h0 : s.doNotHook = 0) :
    (∃ addr byte, t = { s with heap := s.heap.store addr byte }) ∨
      .mmapFailed ∉ t.trace ∧ ∃ env g', Effects env (s, g) (t, g') := by
  rcases hstep with ⟨env, c, p, hc, ha, hexec, hsupply⟩ | ⟨addr, byte, -, rfl⟩
  · exact .inr ⟨hsupply, env.quiet, Call.effects h (.inr h0) hc ⟨ha, h.not_tracks_zero, .inl rfl⟩
      (Call.exec_quiet hexec (.inr hsupply))⟩
  · exact .inl ⟨addr, byte, rfl⟩

/-- What every effect keeps that finds metadata is kept by a sequence of them. -/
theorem Effects.induction {P : State → Contents → Prop} {env : Env} {x y : State × Contents}
    (hstep : ∀ {s s' : State} {g g' : Contents}, s.Inv g → s'.Inv g' →
      SuppliedEffect env s g s' g' → P s g → P s' g')
    (he : Effects env x y) (hsupply : .mmapFailed ∉ y.1.trace) (hinv : x.1.Inv x.2)
    (hattr : x.1.Attributed x.2) (hx : P x.1 x.2) :
    y.1.Inv y.2 ∧ y.1.Attributed y.2 ∧ y.1.doNotHook = x.1.doNotHook ∧ P y.1 y.2 := by
  induction he with
  | refl => exact ⟨hinv, hattr, rfl, hx⟩
  | tail _ hlast ih =>
    obtain ⟨hinv', hattr', hmode, hP⟩ := ih fun hmem ↦ hsupply (hlast.trace_prefix.subset hmem)
    exact ⟨hlast.inv hinv', hlast.attributed hattr' hsupply, hlast.doNotHook.trans hmode,
      hstep hinv' (hlast.inv hinv') (hlast.supplied hinv' hsupply) hP⟩

/-- What holds at the start and is kept by every effect holds between any two calls. A store of the
program is an effect that changes no node. -/
theorem HookedReachable.induction {P : State → Contents → Prop} (hs : HookedReachable s)
    (hinit : ∀ k mem, P (State.init k mem) ⟨fun _ ↦ [], [], []⟩)
    (hstep : ∀ {env : Env} {s s' : State} {g g' : Contents}, s.Inv g → s'.Inv g' →
      SuppliedEffect env s g s' g' → P s g → P s' g') :
    ∃ g, s.Inv g ∧ s.Attributed g ∧ s.doNotHook = 0 ∧ P s g := by
  obtain ⟨k, mem, hk, hrun⟩ := hs
  induction hrun with
  | refl => exact ⟨_, State.inv_init hk mem, ⟨by simp, by simp⟩, rfl, hinit k mem⟩
  | @tail u t _ hlast ih =>
    obtain ⟨g, hinv, hattr, h0, hP⟩ := ih
    rcases hlast.effects hinv h0 with ⟨addr, byte, rfl⟩ | ⟨hsupply, env, g', he⟩
    · have hsame : u.SameNodes { u with heap := u.heap.store addr byte } :=
        ⟨rfl, rfl, rfl, rfl, List.prefix_rfl⟩
      have hinv' := hinv.of_same hsame rfl
      exact ⟨g, hinv', hattr.congr rfl rfl, h0,
        @hstep (Env.handing 0) _ _ _ _ hinv hinv' (.quiet hsame rfl) hP⟩
    · obtain ⟨hinv', hattr', hmode, hP'⟩ := he.induction hstep hsupply hinv hattr hP
      exact ⟨g', hinv', hattr', hmode.trans h0, hP'⟩

/-- The invariants hold in every state of such a run. -/
theorem HookedReachable.inv (hs : HookedReachable s) :
    ∃ g, s.Inv g ∧ s.Attributed g ∧ s.doNotHook = 0 := by
  obtain ⟨g, hinv, hattr, h0, -⟩ := hs.induction (P := fun _ _ ↦ True) (fun _ _ ↦ trivial)
    fun _ _ _ _ ↦ trivial
  exact ⟨g, hinv, hattr, h0⟩

/-- One more step. -/
theorem HookedReachable.step (hs : HookedReachable s) (hstep : HookedStep s t) :
    HookedReachable t := by
  obtain ⟨k, mem, hk, hrun⟩ := hs
  exact ⟨k, mem, hk, hrun.tail hstep⟩

/-- A run with hooks enabled is a run. -/
theorem HookedReachable.reachable (hs : HookedReachable s) : Reachable s := by
  obtain ⟨k, mem, hk, hrun⟩ := hs
  induction hrun with
  | refl => exact ⟨k, mem, hk, .refl⟩
  | tail hrun hstep ih =>
    obtain ⟨g, hinv, -, h0⟩ := HookedReachable.inv ⟨k, mem, hk, hrun⟩
    obtain ⟨a, hok, hexec⟩ := hstep.action hinv h0
    exact ih.step hok hexec

/-- One more allocation in a run with hooks enabled. -/
theorem HookedReachable.malloc {env : Env} {size : ℕ} (hs : HookedReachable s) (h : s.Inv g)
    (h0 : s.doNotHook = 0) (hsupply : .mmapFailed ∉ s.trace) (hnode : s.HasNode)
    (hcallstack : s.HasCallstack env) (hne : env.answer.addr ≠ 0)
    (hwrap : size + redzoneSize * 2 < 18446744073709551616)
    (ha : Heap.AnswerOk env.answer (size + redzoneSize * 2) s.heap) :
    ∃ s' g' n c, HookedReachable s' ∧ c ≠ 0 ∧ s'.doNotHook = 0 ∧ .mmapFailed ∉ s'.trace ∧
      Recorded env ⟨env.answer.addr, size + redzoneSize * 2, size⟩ (env.answer.addr + redzoneSize)
        (s.origMalloc env (size + redzoneSize * 2)).2 g n c s' g' := by
  obtain ⟨s', g', n, c, hserve, hrec⟩ := h.serve_recorded hnode hne hwrap ha
  have hc : c ≠ 0 := hrec.callstack_ne_zero hcallstack
  have hexec : (Call.malloc size).exec env s = some (env.answer.addr + redzoneSize, s') :=
    (Call.malloc_eq_serve h0 size).trans hserve
  have hsupply' : .mmapFailed ∉ s'.trace := State.supply_recorded hrec hc hsupply
  refine ⟨s', g', n, c, hs.step (.inl ⟨env, .malloc size, _, ?_, fun r hr ↦ ?_, hexec, hsupply'⟩),
    hc, hrec.doNotHook.trans h0, hsupply', hrec⟩
  · show size < 18446744073709551616
    omega
  · obtain rfl := Option.some.inj hr
    have hbufsize : (Request.malloc size).bufsize = size + redzoneSize * 2 := wrapSize_of_lt hwrap
    rwa [hbufsize]

/-- A run of one allocation. -/
theorem hookedReachable_oneBlock : ∃ s g n c, HookedReachable s ∧ c ≠ 0 ∧ s.doNotHook = 0 ∧
    .mmapFailed ∉ s.trace ∧ Recorded (Env.handing 1048576) ⟨1048576, 48, 16⟩ 1048592
      (State.start.origMalloc (Env.handing 1048576) 48).2 ⟨fun _ ↦ [], [], []⟩ n c s g :=
  @HookedReachable.malloc _ _ (Env.handing 1048576) _ ⟨_, _, kernel_ok_nil, .refl⟩
    (State.inv_init kernel_ok_nil _) rfl List.not_mem_nil hasNode_start (hasCallstack_start _)
    (by decide) (by decide) (by decide)

end Runs

end Memchk
