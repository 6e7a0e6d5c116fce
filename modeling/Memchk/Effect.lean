import Memchk.Service

/-!
# What a call does

A call of the program with hooks enabled is a sequence of effects: it gets a buffer and makes it a
live block, writes into a payload, unregisters a block, or logs what is wrong. `Call.effects` takes
every call apart like that, so that what holds of all runs is shown for one effect at a time.

Once a metadata pool has been out of memory there is a buffer that no block has, and where its size
has wrapped around, the copying of `realloc` may go anywhere (`Effect.overwrote`).

## The effects

`Effect env s g s' g'` has a constructor for each thing that can happen between two moments at which
the invariant holds, with all that is known about it: the memory, the lists of nodes, the counters
and what is added to the trace. `Effects` is any number of effects with the same environment, and it
composes at the end (`Effects.andThen`).

## What the checks log

Unregistering a block checks it, and the block that is evicted is checked too. What a check logs are
reports of damage (`Event.isDamage`), all of them on the block that was checked
(`Event.isDamageOf`). This is proved once for each of the two checks; that a report is no transfer,
and names no other pointer, is read off it.

## Why it is done

A property of all runs needs a lemma for each effect, and not for each way in which one of the nine
calls can end. When a hook changes, `Call.effects` has to be proved again for it, and the properties
of runs are not touched.
-/

namespace Memchk

/-- The entry is a line of the log that reports no damage. -/
def Event.isRemark : Event → Bool
  | .allocatedFrom _ | .freedFrom _ | .illegalFree .. | .doubleFree _ | .thenBeingFreedFrom _
  | .message _ => true
  | _ => false

/-- The entry is a line of the report on a damaged block. -/
def Event.isDamage : Event → Bool
  | .underRun .. | .overRun .. | .freedArea .. | .allocatedFrom _ | .isBeingFreedFrom _
  | .freedFrom _ => true
  | _ => false

/-- The entry is a line of the report on the damaged block with payload at `usrptr`. -/
def Event.isDamageOf (usrptr : ℕ) : Event → Bool
  | .underRun _ _ p _ _ | .overRun _ _ p _ _ | .freedArea p _ _ _ _ => p = usrptr
  | .allocatedFrom _ | .isBeingFreedFrom _ | .freedFrom _ => true
  | _ => false

section Logs

variable {x : Memblk} {usrptr : ℕ} {allocator freeing freer : Option (List ℕ)} {h : Heap} {rc : ℤ}
  {log : List Event}

theorem isDamage_of_isDamageOf {e : Event} (he : e.isDamageOf usrptr) : e.isDamage := by
  cases e <;> first | rfl | exact absurd he Bool.false_ne_true

/-- A report names the pointer of its block only. -/
theorem eq_of_isDamageOf {e : Event} {p : ℕ} (he : e.isDamageOf usrptr) (hp : e.isReportOn p) :
    usrptr = p := by
  cases e <;> first
    | exact (of_decide_eq_true he).symm.trans (of_decide_eq_true hp)
    | exact absurd hp Bool.false_ne_true

/-- The check of a live block logs a report on that block, or nothing. -/
theorem isDamageOf_mcCheckAllocatedBuffer
    (hcheck : mcCheckAllocatedBuffer x usrptr allocator freeing h = some (rc, log)) :
    ∀ e ∈ log, e.isDamageOf usrptr := by
  rw [mcCheckAllocatedBuffer] at hcheck
  split_ifs at hcheck
  · simp only [Option.some.injEq, Prod.mk.injEq] at hcheck
    rw [← hcheck.2]
    exact fun e he ↦ absurd he List.not_mem_nil
  · obtain ⟨callstack, -, heq⟩ := Option.bind_eq_some_iff.1 hcheck
    simp only [Option.pure_def, Option.some.injEq, Prod.mk.injEq] at heq
    rw [← heq.2]
    cases underRunIndex x usrptr h <;> cases overRunIndex x usrptr h <;> cases freeing <;>
      simp [underRunReport, overRunReport, Event.isDamageOf]

/-- So does the check of a freed block. -/
theorem isDamageOf_mcCheckFreedBuffer
    (hcheck : mcCheckFreedBuffer x usrptr allocator freer h = some (rc, log)) :
    ∀ e ∈ log, e.isDamageOf usrptr := by
  obtain ⟨i, -, hlog⟩ := Option.bind_eq_some_iff.1 hcheck
  cases i with
  | none =>
    simp only [Option.pure_def, Option.some.injEq, Prod.mk.injEq] at hlog
    rw [← hlog.2]
    exact fun e he ↦ absurd he List.not_mem_nil
  | some i =>
    obtain ⟨allocTrace, -, hlog⟩ := Option.bind_eq_some_iff.1 hlog
    obtain ⟨freeTrace, -, hlog⟩ := Option.bind_eq_some_iff.1 hlog
    simp only [Option.pure_def, Option.some.injEq, Prod.mk.injEq] at hlog
    rw [← hlog.2]
    simp [Event.isDamageOf]

theorem isDamage_mcCheckAllocatedBuffer
    (hcheck : mcCheckAllocatedBuffer x usrptr allocator freeing h = some (rc, log)) :
    ∀ e ∈ log, e.isDamage :=
  fun e he ↦ isDamage_of_isDamageOf (isDamageOf_mcCheckAllocatedBuffer hcheck e he)

theorem isDamage_mcCheckFreedBuffer
    (hcheck : mcCheckFreedBuffer x usrptr allocator freer h = some (rc, log)) :
    ∀ e ∈ log, e.isDamage :=
  fun e he ↦ isDamage_of_isDamageOf (isDamageOf_mcCheckFreedBuffer hcheck e he)

end Logs

/-- One effect of a call, on the state and on the lists of the nodes. -/
inductive Effect (env : Env) : State → Contents → State → Contents → Prop
  | logged {s g es} (hes : ∀ e ∈ es, Event.isRemark e) : Effect env s g (s.emit es) g
  | refused {s g} (size : ℕ) (hnull : env.answer.addr = 0) :
    Effect env s g (s.origMalloc env size).2 g
  | unrecorded {s g s'} (r : Request) (hne : env.answer.addr ≠ 0)
    (ha : Heap.AnswerOk env.answer r.bufsize s.heap)
    (h : Unrecorded (s.origMalloc env r.bufsize).2 g s') : Effect env s g s' g
  | recorded {s g s' g' n c} (r : Request) (hne : env.answer.addr ≠ 0)
    (ha : Heap.AnswerOk env.answer r.bufsize s.heap)
    (h : Recorded env (r.block env.answer.addr) (r.place env.answer.addr)
      (s.origMalloc env r.bufsize).2 g n c s' g') : Effect env s g s' g'
  | wrote {s g} {n : ℕ} {mem : ℕ → UInt8} (hn : n ∈ g.nodes .live)
    (hmem : ∀ y, ¬((s.blocks.record n).usrptr ≤ y ∧
      y < (s.blocks.record n).usrptr + (s.blocks.record n).memblk.usrsize) →
      mem y = s.heap.mem y) :
    Effect env s g { s with heap := { s.heap with mem := mem } } g
  | overwrote {s g} (mem : ℕ → UInt8) (hfailed : .mmapFailed ∈ s.trace) :
    Effect env s g { s with heap := { s.heap with mem := mem } } g
  | dropped {s g t} {n usrptr : ℕ} {rc : ℤ} {log : List Event} (hn : n ∈ g.nodes .live)
    (hkey : (s.blocks.record n).usrptr = usrptr)
    (hcheck : mcCheckAllocatedBuffer (s.blocks.record n).memblk usrptr
      (s.printCallstack (s.blocks.record n).allocator 2) (some (env.printCurrentCallstack 3))
      s.heap = some (rc, log))
    (hgarbage : env.garbage ∉ s.liveBufs g ++ s.freedBufs g)
    (h : Dropped usrptr s g n log t) :
    Effect env s g (t.giveBack env.garbage)
      ⟨Function.update g.nodes .live ((g.nodes .live).erase n), g.freed, g.callstacks⟩
  | released {s g t g'} {n usrptr new c : ℕ} {rc : ℤ} {log : List Event} {evicted : Option ℕ}
    {evictLog : List Event} (hn : n ∈ g.nodes .live)
    (hkey : (s.blocks.record n).usrptr = usrptr)
    (hcheck : mcCheckAllocatedBuffer (s.blocks.record n).memblk usrptr
      (s.printCallstack (s.blocks.record n).allocator 2) (some (env.printCurrentCallstack 3))
      s.heap = some (rc, log))
    (h : Unregistered env usrptr s g n new c evicted log evictLog t g') :
    Effect env s g (t.giveBack (s.evictedBuf evicted)) g'

/-- A sequence of effects. -/
def Effects (env : Env) (x y : State × Contents) : Prop :=
  Relation.ReflTransGen (fun x y ↦ Effect env x.1 x.2 y.1 y.2) x y

theorem Effect.effects {env : Env} {s s' : State} {g g' : Contents} (h : Effect env s g s' g') :
    Effects env (s, g) (s', g') :=
  .single h

theorem Effects.andThen {env : Env} {s t s' : State} {g g₁ g' : Contents}
    (h : Effects env (s, g) (t, g₁)) (he : Effect env t g₁ s' g') : Effects env (s, g) (s', g') :=
  Relation.ReflTransGen.tail h he

namespace State

variable {s t : State} {g g' : Contents} {env : Env} {n : ℕ}

@[simp]
theorem doNotHook_giveBack (buf : ℕ) : (s.giveBack buf).doNotHook = s.doNotHook := by
  rw [giveBack]
  split_ifs <;> rfl

/-- The invariant does not look at the bytes of memory. -/
theorem Inv.withMem (h : s.Inv g) (mem : ℕ → UInt8) :
    ({ s with heap := { s.heap with mem := mem } } : State).Inv g :=
  h.of_heap rfl rfl rfl ⟨h.heap.ne_null, h.heap.end_le, h.heap.apart⟩ (fun _ _ _ _ ↦ id)
    fun _ _ _ _ ↦ id

theorem Inv.emit (h : s.Inv g) (es : List Event) : (s.emit es).Inv g :=
  h.of_heap rfl rfl rfl h.heap (fun _ _ _ _ ↦ id) fun _ _ _ _ ↦ id

/-- The block that leaves the quarantine was in it before. -/
theorem Inv.evicted_mem (h : s.Inv g) {usrptr new c old : ℕ} {evicted : Option ℕ}
    {log evictLog : List Event}
    (hun : Unregistered env usrptr s g n new c evicted log evictLog t g') (hold : old ∈ evicted) :
    old ∈ g.freed := by
  obtain rfl := Option.mem_def.1 hold
  have hfreed : old :: g'.freed = g.freed ++ [new] := hun.freed
  have hfull : 128 ≤ s.quarantine.freed.length := hun.evicted_iff.1 rfl
  have hlen : g.freed.length = min 128 s.quarantine.freed.length := h.fifo.ring.length
  rw [min_eq_left hfull] at hlen
  have hne : g.freed ≠ [] := List.ne_nil_of_length_pos (by omega)
  rw [← List.cons_head_tail hne, List.cons_append] at hfreed
  exact (List.cons.inj hfreed).1 ▸ List.head_mem hne

/-- The block just freed is in the quarantine. -/
theorem Inv.new_mem (h : s.Inv g) {usrptr new c : ℕ} {evicted : Option ℕ}
    {log evictLog : List Event}
    (hun : Unregistered env usrptr s g n new c evicted log evictLog t g') : new ∈ g'.freed := by
  have hmem : new ∈ evicted.toList ++ g'.freed := by
    rw [hun.freed]
    exact List.mem_append_right _ List.mem_cons_self
  rcases List.mem_append.1 hmem with hmem | hmem
  · exact absurd (h.evicted_mem hun (Option.mem_toList.1 hmem)) hun.notMem
  · exact hmem

/-- The buffer of the block that has left the quarantine belongs to no block any more. -/
theorem Inv.evictedBuf_notMem (h : s.Inv g) (hn : n ∈ g.nodes .live) {usrptr new c : ℕ}
    {evicted : Option ℕ} {log evictLog : List Event}
    (hun : Unregistered env usrptr s g n new c evicted log evictLog t g') :
    s.evictedBuf evicted ∉ t.liveBufs g' ++ t.freedBufs g' := by
  cases evicted with
  | none =>
    -- no buffer is null
    have hnull : ∀ {x : Memblk} {p : ℕ}, Guarded t.heap x p → x.buf ≠ 0 := fun hx ↦
      hun.inv.heap.ne_null _ hx.mem
    rw [List.mem_append, liveBufs, freedBufs, List.mem_map, List.mem_map]
    rintro (⟨m, hm, heq⟩ | ⟨m, hm, heq⟩)
    · exact hnull (hun.inv.guarded m hm) heq
    · exact hnull (hun.inv.guardedFreed m hm) heq
  | some old =>
    have hfreed : g.freed ++ [new] = old :: g'.freed := hun.freed.symm
    have hold : old ∈ g.freed := h.evicted_mem hun rfl
    have hne : ∀ m ∈ g.nodes .live, (s.blocks.record m).memblk.buf ≠
        (s.quarantine.record old).memblk.buf := fun m hm ↦ h.buf_ne hm hold
    rw [List.mem_append, liveBufs, freedBufs, List.mem_map, List.mem_map]
    rintro (⟨m, hm, heq⟩ | ⟨m, hm, heq⟩)
    · rw [hun.nodes, Function.update_self] at hm
      rw [hun.record] at heq
      exact hne m (List.mem_of_mem_erase hm) heq
    · by_cases hnew : m = new
      · rw [hnew, hun.newRecord] at heq
        exact hne n hn heq
      · have hmem : m ∈ old :: g'.freed := List.mem_cons_of_mem _ hm
        rw [← hfreed, List.mem_append, List.mem_singleton] at hmem
        rw [hun.freedRecord m hnew] at heq
        have hmold : m ≠ old := by
          rintro rfl
          have hnodup : (m :: g'.freed).Nodup := by
            rw [← hfreed]
            exact List.nodup_append.2 ⟨h.quarantine.table.nodup, List.nodup_singleton _,
              fun a ha b hb ↦ by
                rw [List.mem_singleton.1 hb]
                exact ne_of_mem_of_not_mem ha hun.notMem⟩
          exact (List.nodup_cons.1 hnodup).1 hm
        exact h.freed_buf_ne (hmem.resolve_right hnew) hold hmold heq

end State

namespace Effect

variable {env : Env} {s s' : State} {g g' : Contents}

/-- An effect keeps the invariant. -/
theorem inv (he : Effect env s g s' g') (h : s.Inv g) : s'.Inv g' := by
  cases he with
  | logged hes => exact h.emit _
  | refused size hnull => exact h.origMalloc (.inl hnull)
  | unrecorded r hne ha hun => exact hun.inv
  | recorded r hne ha hrec => exact hrec.inv
  | wrote hn hmem => exact h.withMem _
  | overwrote mem hfailed => exact h.withMem _
  | dropped hn hkey hcheck hgarbage hdrop =>
    refine hdrop.inv.giveBack fun hmem ↦ hgarbage ?_
    simp only [State.liveBufs, State.freedBufs, hdrop.record, hdrop.freedRecord,
      Function.update_self] at hmem
    exact ((List.erase_sublist.map _).append (List.Sublist.refl _)).subset hmem
  | released hn hkey hcheck hun => exact hun.inv.giveBack (h.evictedBuf_notMem hn hun)

/-- An effect does not change the mode. -/
theorem doNotHook (he : Effect env s g s' g') : s'.doNotHook = s.doNotHook := by
  cases he with
  | logged hes => rfl
  | refused size hnull => rfl
  | unrecorded r hne ha hun => exact hun.doNotHook
  | recorded r hne ha hrec => exact hrec.doNotHook
  | wrote hn hmem => rfl
  | overwrote mem hfailed => rfl
  | dropped hn hkey hcheck hgarbage hdrop =>
    exact (State.doNotHook_giveBack _).trans hdrop.doNotHook
  | released hn hkey hcheck hun => exact (State.doNotHook_giveBack _).trans hun.doNotHook

end Effect

/-- No sequence of effects changes the mode. -/
theorem Effects.doNotHook {env : Env} {x y : State × Contents} (h : Effects env x y) :
    y.1.doNotHook = x.1.doNotHook := by
  induction h with
  | refl => rfl
  | tail _ hstep ih => exact hstep.doNotHook.trans ih

/-! ### Calls as effects -/

namespace State

variable {s s' t : State} {g g' : Contents} {env : Env} {n ptr : ℕ}

/-- A report on a pointer that belongs to no live block only adds lines to the log. -/
theorem Inv.rejected (h : s.Inv g) {t : State}
    (hreport : Memchk.handleIllegallyFreedBuffer env ptr s = some t) :
    ∃ es, t = s.emit es ∧ ∀ e ∈ es, Event.isRemark e := by
  rcases h.handleIllegallyFreedBuffer env ptr with
    ⟨-, heq⟩ | ⟨n, -, -, heq⟩
  · rw [heq, Option.some_inj] at hreport
    exact ⟨_, hreport.symm, by simp [Event.isRemark]⟩
  · rw [heq] at hreport
    simp only [Option.bind_eq_bind, Option.bind_eq_some_iff] at hreport
    obtain ⟨allocTrace, -, freeTrace, -, hreport⟩ := hreport
    exact ⟨_, (Option.some.inj hreport).symm, by simp [Event.isRemark]⟩

/-- What `free` leaves of the live blocks: those with another pointer, and their bytes. -/
structure AfterFree (ptr : ℕ) (s : State) (g : Contents) (s' : State) (g' : Contents) : Prop where
  record : s'.blocks.record = s.blocks.record
  sub : (g'.nodes .live).Sublist (g.nodes .live)
  kept : ∀ m ∈ g.nodes .live, (s.blocks.record m).usrptr ≠ ptr → m ∈ g'.nodes .live
  mem : ∀ m ∈ g'.nodes .live, ∀ y, (s.blocks.record m).memblk.buf ≤ y →
    y < (s.blocks.record m).memblk.buf + (s.blocks.record m).memblk.bufsize →
    s'.heap.mem y = s.heap.mem y

@[simp]
theorem blocks_giveBack (buf : ℕ) : (s.giveBack buf).blocks = s.blocks := by
  rw [giveBack]
  split_ifs <;> rfl

@[simp]
theorem mem_giveBack (buf : ℕ) : (s.giveBack buf).heap.mem = s.heap.mem := by
  rw [giveBack]
  split_ifs <;> rfl

/-- The live blocks after one of them has been taken out. -/
theorem Inv.afterFree (h : s.Inv g) (hn : n ∈ g.nodes .live)
    (hkey : (s.blocks.record n).usrptr = ptr) (hrecord : s'.blocks.record = s.blocks.record)
    (hnodes : g'.nodes .live = (g.nodes .live).erase n)
    (hmem : s'.heap.mem = s.heap.mem ∨
      s'.heap.mem = poisoned (s.blocks.record n).memblk s.heap.mem) :
    AfterFree ptr s g s' g' where
  record := hrecord
  sub := hnodes ▸ List.erase_sublist
  kept m hm hne := by
    rw [hnodes]
    exact (List.mem_erase_of_ne fun heq ↦ hne (by rw [heq, hkey])).2 hm
  mem m hm y hle hlt := by
    rcases hmem with hmem | hmem
    · rw [hmem]
    · rw [hnodes] at hm
      have hne : m ≠ n := by
        rintro rfl
        exact (h.blocks.table .live).nodup.not_mem_erase hm
      have hmlive := List.mem_of_mem_erase hm
      have hapart := (h.guarded m hmlive).apart h.heap (h.guarded n hn)
        (h.live_buf_ne hmlive hn hne)
      rw [hmem]
      exact poisoned_of_notMem _ (by omega)

/-- `free` with hooks enabled is one effect. -/
theorem Inv.hookFree (h : s.Inv g) (h0 : s.doNotHook = 0)
    (hgarbage : env.garbage ∉ s.liveBufs g ++ s.freedBufs g)
    (hexec : Hook.free env ptr s = some s') :
    ∃ g', Effect env s g s' g' ∧ AfterFree ptr s g s' g' := by
  have hquiet : ∀ es, AfterFree ptr s g (s.emit es) g := fun _ ↦
    ⟨rfl, List.Sublist.refl _, fun _ hm _ ↦ hm, fun _ _ _ _ _ ↦ rfl⟩
  rw [Hook.free] at hexec
  split_ifs at hexec with hnull hmode
  · obtain rfl := Option.some.inj hexec
    have hlog : Effect env s g (s.emit []) g := .logged (by simp)
    have hafter := hquiet []
    rw [State.emit, List.append_nil] at hlog hafter
    exact ⟨g, hlog, hafter⟩
  · exact absurd h0 hmode
  simp only [Option.bind_eq_bind, Option.bind_eq_some_iff] at hexec
  obtain ⟨⟨ret, buf, t⟩, hun, hexec⟩ := hexec
  obtain rfl : t.giveBack buf = s' := Option.some.inj hexec
  rcases h.unregister env ptr env.garbage with
    ⟨-, heq⟩ | ⟨n, hn, hkey, ⟨-, hnone⟩ | ⟨rc, log, hcheck, ⟨u, heq, hdrop⟩ | ⟨-, hnone⟩ |
      ⟨new, c, evicted, evictLog, u, g', heq, hrel⟩⟩⟩
  · rw [heq, Option.map_eq_some_iff] at hun
    obtain ⟨u, hreport, heq⟩ := hun
    simp only [Prod.mk.injEq] at heq
    obtain ⟨-, rfl, rfl⟩ := heq
    obtain ⟨es, rfl, hes⟩ := h.rejected hreport
    exact ⟨g, .logged hes, hquiet es⟩
  · exact absurd (hun.symm.trans hnone) (by simp)
  · rw [heq] at hun
    simp only [Option.some.injEq, Prod.mk.injEq] at hun
    obtain ⟨-, rfl, rfl⟩ := hun
    refine ⟨_, .dropped hn hkey hcheck hgarbage hdrop, h.afterFree hn hkey ?_ ?_ (.inl ?_)⟩
    · rw [blocks_giveBack, hdrop.record]
    · simp only [Function.update_self]
    · rw [mem_giveBack, hdrop.heap]
  · exact absurd (hun.symm.trans hnone) (by simp)
  · rw [heq] at hun
    simp only [Option.some.injEq, Prod.mk.injEq] at hun
    obtain ⟨-, rfl, rfl⟩ := hun
    refine ⟨g', .released hn hkey hcheck hrel, h.afterFree hn hkey ?_ ?_ (.inr ?_)⟩
    · rw [blocks_giveBack, hrel.record]
    · rw [hrel.nodes, Function.update_self]
    · rw [mem_giveBack, hrel.heap]

end State

/-- What the environment owes a call with hooks enabled. `mc_orig_malloc` keeps its promise, and
where `free` reads `buf_to_be_freed` without having set it, this is not the buffer of a block. -/
structure Call.EnvOk (env : Env) (s : State) (c : Call) : Prop where
  answer : ∀ r, c.request s = some r → Heap.AnswerOk env.answer r.bufsize s.heap
  garbage : ¬s.tracks env.garbage
  garbage_ne : env.garbage = 0 ∨ env.garbage ≠ env.answer.addr

/-- The buffers of the blocks after one more has been registered. -/
theorem Recorded.bufs {env : Env} {x : Memblk} {usrptr n c : ℕ} {s s' : State} {g g' : Contents}
    (h : Recorded env x usrptr s g n c s' g') :
    s'.liveBufs g' = x.buf :: s.liveBufs g ∧ s'.freedBufs g' = s.freedBufs g := by
  refine ⟨?_, ?_⟩
  · have hmap : (g.nodes .live).map (fun m ↦ (s'.blocks.record m).memblk.buf) =
        (g.nodes .live).map fun m ↦ (s.blocks.record m).memblk.buf :=
      List.map_congr_left fun m hm ↦ by rw [h.record_of_ne m (ne_of_mem_of_not_mem hm (h.notMem _))]
    simp only [State.liveBufs, h.nodes, Function.update_self, List.map_cons, h.record, hmap]
  · simp only [State.freedBufs, h.freed, h.quarantine]

namespace Call

variable {s s' t : State} {g : Contents} {env : Env} {c : Call} {r : Request} {p p₁ : ℕ}

/-- The rest of a call behind the service: it may fill the payload, and `realloc` frees the old
block. -/
theorem finish_spec (hr : c.request s = some r) (hfin : c.finish env s (p₁, t) = some (p, s')) :
    p = p₁ ∧ (s' = t ∨ p ≠ 0 ∧ ∃ mem : ℕ → UInt8,
      (∀ y, ¬(p ≤ y ∧ y < p + r.usrsize) → mem y = t.heap.mem y) ∧
      (s' = { t with heap := { t.heap with mem := mem } } ∨
        ∃ ptr size, c = .realloc ptr size ∧ ptr ≠ 0 ∧ size ≠ 0 ∧
          mcHandleReallocMemblk ptr s ≠ some 18446744073709551615 ∧
          Hook.free env ptr { t with heap := { t.heap with mem := mem } } = some s')) := by
  have hquiet : some (p₁, t) = some (p, s') → p = p₁ ∧ s' = t := by
    intro heq
    simp only [Option.some.injEq, Prod.mk.injEq] at heq
    exact ⟨heq.1.symm, heq.2.symm⟩
  cases c with
  | calloc nmems size =>
    rw [request] at hr
    split_ifs at hr with hzero
    obtain rfl := Option.some.inj hr
    rw [finish] at hfin
    split_ifs at hfin with hnull
    · exact (hquiet hfin).imp_right .inl
    simp only [Heap.memset, Option.bind_eq_bind] at hfin
    split_ifs at hfin with hacc
    · simp only [Option.bind_some, Option.pure_def, Option.some.injEq, Prod.mk.injEq] at hfin
      obtain ⟨rfl, rfl⟩ := hfin
      exact ⟨rfl, .inr ⟨hnull, _, fun y hy ↦ if_neg hy, .inl rfl⟩⟩
    · exact absurd hfin (by simp)
  | realloc ptr size =>
    rw [finish] at hfin
    split_ifs at hfin with hnull
    · exact (hquiet hfin).imp_right .inl
    rw [not_or] at hnull
    rw [request, if_neg hnull.1] at hr
    split_ifs at hr with hsize hold
    obtain rfl := Option.some.inj hr
    simp only [Heap.memcpy, Option.bind_eq_bind, Option.bind_eq_some_iff] at hfin
    obtain ⟨oldsize, -, heap, hcopy, s₁, hfree, heq⟩ := hfin
    simp only [Option.pure_def, Option.some.injEq, Prod.mk.injEq] at heq
    obtain ⟨rfl, rfl⟩ := heq
    obtain ⟨len, hlen⟩ : ∃ len, len = if size ≥ oldsize then oldsize else size := ⟨_, rfl⟩
    have hle : len ≤ size := by
      rw [hlen]
      split_ifs with hge
      · exact hge
      · exact le_rfl
    rw [← hlen] at hcopy
    split_ifs at hcopy with hacc
    obtain rfl := Option.some.inj hcopy
    exact ⟨rfl, .inr ⟨hnull.2, _, fun y hy ↦ if_neg fun hy' ↦
      hy ⟨hy'.1, hy'.2.trans_le (Nat.add_le_add_left hle _)⟩,
      .inr ⟨ptr, size, rfl, hnull.1, hsize, hold, hfree⟩⟩⟩
  | malloc _ | free _ | posixMemalign _ _ | alignedAlloc _ _ | memalign _ _ | valloc _
  | pvalloc _ =>
    exact (hquiet hfin).imp_right .inl

/-- Finding the size of a block always returns. -/
theorem isSome_mcHandleReallocMemblk (h : s.Inv g) (ptr : ℕ) :
    (mcHandleReallocMemblk ptr s).isSome := by
  rw [mcHandleReallocMemblk]
  rcases h.blocks.find .live ptr with ⟨-, hfind⟩ | ⟨n, -, -, hfind⟩ <;> rw [hfind] <;> rfl

/-- Every call with hooks enabled is a sequence of effects. -/
theorem effects (h : s.Inv g) (hmode : c.isAligned ∨ s.doNotHook = 0) (hc : c.InRange)
    (henv : c.EnvOk env s) (hexec : c.exec env s = some (p, s')) :
    ∃ g', Effects env (s, g) (s', g') := by
  have hgarbage : env.garbage ∉ s.liveBufs g ++ s.freedBufs g :=
    fun hmem ↦ henv.garbage (h.tracks_iff.2 hmem)
  cases hr : c.request s with
  | none =>
    -- a call that asks for nothing frees, logs, or does nothing
    rw [exec_of_request_eq_none hmode hr] at hexec
    have hfree : ∀ {ptr}, c.isAligned = false → (Hook.free env ptr s).map (0, ·) = some (p, s') →
        ∃ g', Effects env (s, g) (s', g') := by
      intro ptr hfalse hmap
      have h0 := hmode.resolve_left (by rw [hfalse]; exact Bool.false_ne_true)
      obtain ⟨t, hfree, heq⟩ := Option.map_eq_some_iff.1 hmap
      simp only [Prod.mk.injEq] at heq
      obtain ⟨g', heffect, -⟩ := h.hookFree h0 hgarbage hfree
      exact ⟨g', heq.2 ▸ heffect.effects⟩
    have hquiet : some ((0 : ℕ), s) = some (p, s') → ∃ g', Effects env (s, g) (s', g') := by
      intro heq
      simp only [Option.some.injEq, Prod.mk.injEq] at heq
      exact ⟨g, heq.2 ▸ .refl⟩
    cases c with
    | free ptr => exact hfree rfl hexec
    | realloc ptr size =>
      rw [refuse] at hexec
      split_ifs at hexec
      · exact hfree rfl hexec
      · simp only [Option.some.injEq, Prod.mk.injEq] at hexec
        exact ⟨g, hexec.2 ▸ Effect.effects (.logged (by simp [Event.isRemark]))⟩
    | malloc _ | calloc _ _ | posixMemalign _ _ | alignedAlloc _ _ | memalign _ _ | valloc _
    | pvalloc _ => exact hquiet hexec
  | some r =>
    have ha := henv.answer r hr
    rw [exec_of_request hmode hr (isSome_mcHandleReallocMemblk h), Option.bind_eq_some_iff] at hexec
    obtain ⟨⟨p₁, t⟩, hserve, hfin⟩ := hexec
    obtain ⟨rfl, hrest⟩ := finish_spec hr hfin
    rcases h.serve (hc.request_ok hr) ha with ⟨hnull, heq⟩ | ⟨hne, ⟨u, heq, hun⟩ | ⟨-, hnone⟩ |
      ⟨u, g₁, n, k, heq, hrec⟩⟩
    · rw [heq] at hserve
      simp only [Option.some.injEq, Prod.mk.injEq] at hserve
      obtain ⟨rfl, rfl⟩ := hserve
      -- the library has no memory, and nothing follows
      rcases hrest with rfl | ⟨hp, -⟩
      · exact ⟨g, Effect.effects (.refused _ hnull)⟩
      · exact absurd rfl hp
    · rw [heq] at hserve
      simp only [Option.some.injEq, Prod.mk.injEq] at hserve
      obtain ⟨rfl, rfl⟩ := hserve
      -- no node: the pointer is handed out all the same, and what follows may write anywhere
      have hfirst : Effect env s g u g := .unrecorded r hne ha hun
      have hfailed : Event.mmapFailed ∈ u.trace := by
        rw [hun.trace]
        simp
      rcases hrest with rfl | ⟨-, mem, -, rfl | ⟨ptr, size, rfl, -, -, -, hfree⟩⟩
      · exact ⟨g, hfirst.effects⟩
      · exact ⟨g, hfirst.effects.andThen (.overwrote mem hfailed)⟩
      · have hgarbage' : env.garbage ∉ u.liveBufs g ++ u.freedBufs g := by
          simp only [State.liveBufs, State.freedBufs, hun.record, hun.quarantine]
          exact hgarbage
        have h0 := hmode.resolve_left Bool.false_ne_true
        obtain ⟨g', hlast, -⟩ :=
          (hun.inv.withMem mem).hookFree (hun.doNotHook.trans h0) hgarbage' hfree
        exact ⟨g', (hfirst.effects.andThen (.overwrote mem hfailed)).andThen hlast⟩
    · -- a payload outside of its buffer is a fault
      exact absurd (hserve.symm.trans hnone) (by simp)
    · rw [heq] at hserve
      simp only [Option.some.injEq, Prod.mk.injEq] at hserve
      obtain ⟨rfl, rfl⟩ := hserve
      -- a live block, whose payload is what may be written
      have hfirst : Effect env s g u g₁ := .recorded r hne ha hrec
      have hn : n ∈ g₁.nodes .live := by
        rw [hrec.nodes, Function.update_self]
        exact List.mem_cons_self
      have hwrote : ∀ {mem : ℕ → UInt8}, (∀ y, ¬(r.place env.answer.addr ≤ y ∧
          y < r.place env.answer.addr + r.usrsize) → mem y = u.heap.mem y) →
          Effect env u g₁ { u with heap := { u.heap with mem := mem } } g₁ := fun hmem ↦
        .wrote hn (by rw [hrec.record]; exact hmem)
      rcases hrest with rfl | ⟨-, mem, hmem, rfl | ⟨ptr, size, rfl, -, -, -, hfree⟩⟩
      · exact ⟨g₁, hfirst.effects⟩
      · exact ⟨g₁, hfirst.effects.andThen (hwrote hmem)⟩
      · have hgarbage' : env.garbage ∉ u.liveBufs g₁ ++ u.freedBufs g₁ := by
          rw [hrec.bufs.1, hrec.bufs.2, List.cons_append, List.mem_cons, not_or]
          refine ⟨fun heq ↦ ?_, hgarbage⟩
          rcases henv.garbage_ne with hzero | hother
          · exact hne (heq.symm.trans hzero)
          · exact hother heq
        have h0 := hmode.resolve_left Bool.false_ne_true
        obtain ⟨g', hlast, -⟩ :=
          (hrec.inv.withMem mem).hookFree (hrec.doNotHook.trans h0) hgarbage' hfree
        exact ⟨g', (hfirst.effects.andThen (hwrote hmem)).andThen hlast⟩

end Call

end Memchk
