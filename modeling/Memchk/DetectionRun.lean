import Memchk.Detection
import Memchk.Provenance

/-!
# Detection over runs without metadata

The runs of `damage_reported` find metadata at every step. Here pages may be refused at any time,
and of the environment only the promise of `mc_orig_malloc` is asked, so that `free` may find
anything in `buf_to_be_freed`. The program calls hooked functions, runs full checks, and stores
wherever it likes in the buffers handed out (`Action.Promised`).

## Regular steps

Three things can go wrong then, and `Action.Regular` says of one step that they do not. A damaged
block that is checked has the callstacks that the report prints. Where `free` finds no node in the
quarantine for a live block, what it hands over instead is the buffer of no block. A `realloc` that
finds no node for the block it moves to copies into a buffer of the right size. All three are read
off the state and the environment before the step.

## Steps

`Action.Checks` says which blocks an action checks: a full check all of them, a call that gives a
live block back this one and the one that leaves the quarantine for it. The state between two steps
of a regular run is `Guarding`. Each action is a store or tended to (`Guarding.action`), and what a
regular action checks it reports on, if it is damaged (`Guarding.announces`). Calls are carried over
to an environment that owes them nothing (`Call.exists_envOk`), where the lemmas on calls apply.

## Main results

`detection_sound_complete` is about runs of regular steps. If the stores are to payloads of live
blocks only, nothing is ever reported. If a guard byte of a block differs from its pattern, an
action that checks the block returns and reports it before the buffer is given back, and over any
run that does not restore the byte the block is reported on first or its buffer is kept. Without
`Action.Regular` a buffer is given back unseen (`not_detection_complete`).
-/

namespace Memchk

/-! ### Short buffers -/

namespace State

variable {s t u : State} {g g' : Contents} {w : Watch} {n : ℕ} {env : Env}

theorem smallBufs_iff : s.SmallBufs ↔ ∀ w, s.Watches w → w.memblk.bufsize < 2147483648 := by
  constructor
  · rintro hsmall w (⟨n, hn, rfl⟩ | ⟨n, hn, rfl⟩)
    · exact hsmall.live n hn
    · exact hsmall.freed n hn
  · exact fun h ↦ ⟨fun n hn ↦ h _ (.inl ⟨n, hn, rfl⟩), fun n hn ↦ h _ (.inr ⟨n, hn, rfl⟩)⟩

/-- Blocks that were there before are short. -/
theorem SmallBufs.of_watches (hsmall : s.SmallBufs) (h : ∀ w, t.Watches w → s.Watches w) :
    t.SmallBufs :=
  smallBufs_iff.2 fun w hw ↦ smallBufs_iff.1 hsmall w (h w hw)

theorem SmallBufs.giveBack (hsmall : s.SmallBufs) (buf : ℕ) : (s.giveBack buf).SmallBufs :=
  hsmall.of_watches fun w ↦ (watches_congr (blocks_giveBack buf) (quarantine_giveBack buf) w).1

/-- `free` leaves short blocks behind. -/
theorem Inv.smallBufs_hookFree (h : s.Inv g) (h0 : s.doNotHook = 0) (hsmall : s.SmallBufs)
    {ptr : ℕ} (hexec : Hook.free env ptr s = some t) : t.SmallBufs := by
  rcases h.hookFree_cases h0 hexec with ⟨-, es, rfl, -⟩ |
    ⟨n, hn, rfl, rc, log, -, ⟨u, hdrop, rfl⟩ | ⟨new, c, evicted, evictLog, u, g', hun, rfl⟩⟩
  · exact hsmall.of_watches fun w ↦ (watches_congr rfl rfl w).1
  · exact (hsmall.of_watches (h.watches_dropped hdrop).2).giveBack _
  · refine SmallBufs.giveBack (smallBufs_iff.2 fun w hw ↦ ?_) _
    rcases (h.watches_unregistered hn hun).2 w hw with rfl | ⟨-, hw⟩
    · -- the block that was live a moment ago
      show (u.quarantine.record new).memblk.bufsize < 2147483648
      rw [hun.newRecord]
      exact hsmall.live n (h.isLive_iff.2 hn)
    · exact smallBufs_iff.1 hsmall w hw

end State

namespace Call

variable {env : Env} {s t u : State} {g g' : Contents} {c : Call} {r : Request} {p : ℕ}

/-- A request for a short buffer is served with a short block. -/
theorem Served.smallBufs (hserved : Served env r s g p u g') (h : s.Inv g) (hsmall : s.SmallBufs)
    (ha : Heap.AnswerOk env.answer r.bufsize s.heap) (hr : r.bufsize < 2147483648) :
    u.SmallBufs := by
  have horig : (s.origMalloc env r.bufsize).2.SmallBufs :=
    hsmall.of_watches fun w ↦ (State.watches_congr rfl rfl w).1
  cases hserved with
  | refused hnull => exact horig
  | unrecorded hne hun =>
    exact horig.of_watches fun w ↦
      ((h.origMalloc ha).watches_of_record hun.inv hun.record hun.quarantine w).1
  | @recorded n k u g' hne hrec =>
    refine State.smallBufs_iff.2 fun w hw ↦ ?_
    rcases ((h.origMalloc ha).watches_recorded hrec w).1 hw with rfl | hw
    · show (u.blocks.record n).memblk.bufsize < 2147483648
      rw [hrec.record]
      exact hr
    · exact State.smallBufs_iff.1 horig w hw

/-- A call that asks for a short buffer leaves short blocks behind. -/
theorem smallBufs (h : s.Inv g) (hsmall : s.SmallBufs) (h0 : s.doNotHook = 0) (hc : c.InRange)
    (ha : ∀ r, c.request s = some r →
      r.bufsize < 2147483648 ∧ Heap.AnswerOk env.answer r.bufsize s.heap)
    (hexec : c.exec env s = some (p, t)) : t.SmallBufs := by
  rcases Call.cases h (.inr h0) hc (fun r hr ↦ (ha r hr).2) hexec with
    ⟨-, hrefuse⟩ | ⟨r, u, g', hr, hanswer, hserved, hfin⟩
  · have hfree : ∀ {ptr}, (Hook.free env ptr s).map (0, ·) = some (p, t) → t.SmallBufs := by
      intro ptr hmap
      obtain ⟨u, hfree, heq⟩ := Option.map_eq_some_iff.1 hmap
      obtain rfl : u = t := congrArg Prod.snd heq
      exact h.smallBufs_hookFree h0 hsmall hfree
    cases c with
    | free ptr => exact hfree hrefuse
    | realloc ptr size =>
      rw [refuse] at hrefuse
      split_ifs at hrefuse with hsize
      · exact hfree hrefuse
      · obtain rfl : s.emit [.message "realloc: oldsize = -1"] = t :=
          congrArg Prod.snd (Option.some.inj hrefuse)
        exact hsmall.of_watches fun w ↦ (State.watches_congr rfl rfl w).1
    | malloc _ | calloc _ _ | posixMemalign _ _ | alignedAlloc _ _ | memalign _ _ | valloc _
    | pvalloc _ =>
      obtain rfl : s = t := congrArg Prod.snd (Option.some.inj hrefuse)
      exact hsmall
  · have hu := hserved.inv h hanswer
    have hfilled : ∀ mem, State.SmallBufs { u with heap := { u.heap with mem := mem } } := fun mem ↦
      (hserved.smallBufs h hsmall hanswer (ha r hr).1).of_watches fun w ↦
        (State.watches_congr rfl rfl w).1
    obtain ⟨-, ⟨-, mem, -, rfl⟩ | ⟨ptr, mem, -, -, -, -, -, hfree⟩⟩ := finish_cases hr hfin
    · exact hfilled mem
    · exact (hu.withMem mem).smallBufs_hookFree (hserved.doNotHook.trans h0) (hfilled mem) hfree

/-! ### What the stack holds -/

/-- A `realloc` whose size wraps around gets no buffer, or it runs into a fault. -/
theorem answer_eq_zero_of_wraps {size : ℕ} {x : ℕ × State} (h : s.Inv g)
    (hr : (Request.malloc size).Ok)
    (ha : Heap.AnswerOk env.answer (Request.malloc size).bufsize s.heap)
    (hwrap : ¬size + redzoneSize * 2 < 18446744073709551616)
    (hnode : s.HasNode)
    (hserve : (Request.malloc size).serve env s = some x) : env.answer.addr = 0 := by
  by_contra hne
  rcases h.serve hr ha with ⟨hzero, -⟩ | ⟨-, ⟨u, -, hun⟩ | ⟨-, hnone⟩ | ⟨u, g', n, k, -, hrec⟩⟩
  · exact hne hzero
  · obtain ⟨m, pool, halloc, hm⟩ := hnode
    have hfailed : mcAllocateAllocMemblk s.blocks.pool = some (0, u.blocks.pool) := hun.failed
    rw [hfailed, Option.some_inj, Prod.mk.injEq] at halloc
    exact hm halloc.1.symm
  · exact absurd (hserve.symm.trans hnone) (by simp)
  · -- the block would be larger than its buffer
    have hle : env.answer.addr ≤ (Request.malloc size).place env.answer.addr := hrec.shape.le
    have hend : (Request.malloc size).place env.answer.addr + size ≤
        env.answer.addr + wrapSize (size + redzoneSize * 2) := hrec.shape.end_le
    have hlt : size < 18446744073709551616 := hr.usrsize_lt
    simp only [wrapSize, redzoneSize] at hend hwrap
    omega

/-- A call that does not give the block back does not look at what the stack holds. -/
theorem exec_quiet_of_not_givesBack (h : s.Inv g) (h0 : s.doNotHook = 0) (hc : c.InRange)
    (ha : ∀ r, c.request s = some r → Heap.AnswerOk env.answer r.bufsize s.heap)
    (hsized : c.Sized env s) {n : ℕ} (hn : n ∈ g.nodes .live)
    (hptr : c.releases = some (s.blocks.record n).usrptr)
    (hkept : ¬c.GivesBack env (s.blocks.record n).usrptr) (hexec : c.exec env s = some (p, t)) :
    c.exec env.quiet s = some (p, t) := by
  have hkey : ∀ {ptr}, (if ptr = 0 then none else some ptr) = some (s.blocks.record n).usrptr →
      ptr = (s.blocks.record n).usrptr := by
    intro ptr heq
    split_ifs at heq
    exact Option.some.inj heq
  cases c with
  | free ptr => exact absurd (hkey hptr) hkept
  | realloc ptr size =>
    obtain rfl := hkey hptr
    rw [GivesBack, eq_self, true_and, not_or, not_and] at hkept
    obtain ⟨hsize, hwraps⟩ := hkept
    obtain ⟨hreq, -, hne⟩ := h.request_realloc hn hsize
    have hfind := isSome_mcHandleReallocMemblk h
    rw [exec_of_request (.inr h0) hreq hfind] at hexec ⊢
    obtain ⟨⟨p₁, u⟩, hserve, hfin⟩ := Option.bind_eq_some_iff.1 hexec
    -- the library has no memory
    have hnull : env.answer.addr = 0 := by
      by_contra hanswer
      have hnode : s.HasNode :=
        (hsized _ _ rfl hne (by rw [hreq]; rfl) hanswer).resolve_right (hwraps hanswer)
      exact hanswer (answer_eq_zero_of_wraps h (hc.request_ok hreq) (ha _ hreq) (hwraps hanswer)
        hnode hserve)
    rcases h.serve (hc.request_ok hreq) (ha _ hreq) with ⟨-, heq⟩ | ⟨hanswer, -⟩
    · obtain ⟨rfl, rfl⟩ := Prod.mk.inj (Option.some.inj (heq.symm.trans hserve))
      have hquiet : (Request.malloc size).serve env.quiet s = (Request.malloc size).serve env s :=
        rfl
      rw [finish, if_pos (.inr rfl)] at hfin
      rw [hquiet, hserve, Option.bind_some, finish, if_pos (.inr rfl), hfin]
    · exact absurd hnull hanswer
  | malloc _ | calloc _ _ | posixMemalign _ _ | alignedAlloc _ _ | memalign _ _ | valloc _
  | pvalloc _ => cases hptr

/-- The call does the same in an environment that keeps all promises. -/
theorem exists_envOk (h : s.Inv g) (h0 : s.doNotHook = 0) (hc : c.InRange)
    (ha : ∀ r, c.request s = some r → Heap.AnswerOk env.answer r.bufsize s.heap)
    (hslot : ∀ n, s.IsLive n → c.GivesBack env (s.blocks.record n).usrptr →
      s.HasFreeNode ∨ c.Harmless env s)
    (hsized : c.Sized env s) (hexec : c.exec env s = some (p, t)) :
    ∃ env', c.EnvOk env' s ∧ c.Sized env' s ∧ c.exec env' s = some (p, t) := by
  have hquiet : c.EnvOk env.quiet s := ⟨ha, h.not_tracks_zero, .inl rfl⟩
  by_cases hreg : ∀ ptr, c.releases = some ptr →
      s.blocks.find .live ptr = some 0 ∨ s.HasFreeNode ∨ env.garbage = 0
  · exact ⟨env.quiet, hquiet, hsized, h.exec_quiet (.inr h0) hreg hexec⟩
  push Not at hreg
  obtain ⟨ptr, hptr, hfind, hnode, hgarbage⟩ := hreg
  rcases h.blocks.find .live ptr with ⟨-, hnone⟩ | ⟨n, hn, rfl, -⟩
  · exact absurd hnone hfind
  by_cases hgives : c.GivesBack env (s.blocks.record n).usrptr
  · have hharmless := (hslot n (h.isLive_iff.2 hn) hgives).resolve_left hnode
    obtain ⟨hnot, hne⟩ := hharmless.resolve_left hgarbage
    cases hr : c.request s with
    | some r => exact ⟨env, ⟨ha, hnot, .inr (hne (by rw [hr]; rfl))⟩, hsized, hexec⟩
    | none =>
      -- a call that asks for nothing does not look at the answer
      refine ⟨{ env with answer := ⟨0, env.answer.junk⟩ }, ⟨fun r hr' ↦ ?_, hnot, .inr hgarbage⟩,
        fun _ _ _ _ _ hne ↦ absurd rfl hne, ?_⟩
      · exact absurd (hr.symm.trans hr') (by simp)
      · rw [exec_of_request_eq_none (.inr h0) hr] at hexec ⊢
        exact hexec
  · exact ⟨env.quiet, hquiet, hsized,
      exec_quiet_of_not_givesBack h h0 hc ha hsized hn hptr hgives hexec⟩

end Call

/-! ### Regular steps -/

/-- The action checks the block: a full check does, and a call that gives a live block back checks
this one and the one that leaves the quarantine for it. -/
def Action.Checks (s : State) (w : Watch) : Action → Prop
  | .checkAll => True
  | .call env c => ∃ n, s.IsLive n ∧ c.GivesBack env (s.blocks.record n).usrptr ∧ s.CheckedWith n w
  | .store .. | .disableHook | .enableHook => False

/-- The action does not meet one of the flaws that metadata which is refused brings to light. -/
structure Action.Regular (s : State) (a : Action) : Prop where
  /-- A report finds the callstacks that it prints. -/
  heard : ∀ w, a.Checks s w → ¬s.Mute w
  /-- A live block that is given back finds a node in the quarantine, or the stack holds the buffer
  of no block. -/
  slot : ∀ env c n, a = .call env c → s.IsLive n → c.GivesBack env (s.blocks.record n).usrptr →
    s.HasFreeNode ∨ c.Harmless env s
  /-- A `realloc` that moves a block finds a node for it, or the size does not wrap around. -/
  sized : ∀ env c, a = .call env c → c.Sized env s

/-- A regular step of a program that keeps its promises, and what it logs. -/
def RegularStep (P : State → Action → Prop) (s : State) (es : List Event) (t : State) : Prop :=
  ∃ a : Action, P s a ∧ a.Promised s ∧ a.Regular s ∧ a.exec s = some t ∧ t.trace = s.trace ++ es

/-- What holds between two regular steps. -/
structure Guarding (s : State) : Prop where
  inv : ∃ g, s.Inv g
  mode : s.doNotHook = 0
  small : s.SmallBufs

section Steps

variable {P : State → Action → Prop} {s t : State} {es : List Event} {a : Action} {w : Watch}
  {y ptr : ℕ}

theorem guarding_init {k : Kernel} (hk : k.Ok) (mem : ℕ → UInt8) : Guarding (State.init k mem) := by
  have hinv := State.inv_init hk mem
  refine ⟨⟨_, hinv⟩, rfl, fun n hn ↦ ?_, fun n hn ↦ ?_⟩
  · exact absurd (hinv.isLive_iff.1 hn) List.not_mem_nil
  · exact absurd (hinv.isFreed_iff.1 hn) List.not_mem_nil

/-- A regular call is tended to. -/
theorem Guarding.call (h : Guarding s) {env : Env} {c : Call} {p : ℕ}
    (hok : (Action.call env c).Promised s) (hreg : (Action.call env c).Regular s)
    (hexec : c.exec env s = some (p, t)) : Guarding t ∧ s.Tends t := by
  obtain ⟨⟨g, hg⟩, h0, hsmall⟩ := h
  obtain ⟨hc, hrequest⟩ := hok
  have ha : ∀ r, c.request s = some r → Heap.AnswerOk env.answer r.bufsize s.heap :=
    fun r hr ↦ (hrequest r hr).2
  obtain ⟨env', henv, hsized', hexec'⟩ := Call.exists_envOk hg h0 hc ha
    (fun n ↦ hreg.slot env c n rfl) (hreg.sized env c rfl) hexec
  obtain ⟨g', heffects⟩ := Call.effects hg (.inr h0) hc henv hexec'
  exact ⟨⟨⟨g', @State.Inv.effects env' (s, g) (t, g') hg heffects⟩,
    heffects.doNotHook.trans h0, Call.smallBufs hg hsmall h0 hc hrequest hexec⟩,
    Call.tends hg hsmall (.inr h0) hc henv.answer henv.harmless hsized' hexec'⟩

/-- A regular action is a store, or it is tended to. -/
theorem Guarding.action (h : Guarding s) (hok : a.Promised s) (hreg : a.Regular s)
    (hexec : a.exec s = some t) : Guarding t ∧
      ((∃ addr byte, a = .store addr byte ∧ t = { s with heap := s.heap.store addr byte }) ∨
        s.Tends t) := by
  cases a with
  | call env c =>
    rw [Action.exec, Option.map_eq_some_iff] at hexec
    obtain ⟨⟨p, u⟩, hcall, rfl⟩ := hexec
    exact (h.call hok hreg hcall).imp_right .inr
  | checkAll =>
    obtain ⟨⟨g, hg⟩, h0, hsmall⟩ := h
    rw [Action.exec, Option.map_eq_some_iff] at hexec
    obtain ⟨⟨ret, u⟩, hrun, rfl⟩ := hexec
    obtain ⟨-, l₁, l₂, -, -, hins⟩ := (hg.mcCheckAllMemblk hsmall).value _ hrun
    have htends := hg.tends_checkAll hsmall hrun
    have hu := hg.inspected hins
    obtain rfl : u = _ := hins.state
    exact ⟨⟨⟨g, hu⟩, h0, hsmall.of_watches fun w ↦ (State.watches_congr rfl rfl w).1⟩, .inr htends⟩
  | store addr byte =>
    obtain ⟨⟨g, hg⟩, h0, hsmall⟩ := h
    obtain rfl := Option.some.inj hexec
    exact ⟨⟨⟨g, hg.of_same ⟨rfl, rfl, rfl, rfl, List.prefix_rfl⟩ rfl⟩, h0,
      hsmall.of_watches fun w ↦ (State.watches_congr rfl rfl w).1⟩, .inl ⟨addr, byte, rfl, rfl⟩⟩
  | disableHook | enableHook => exact hok.elim

/-- A step of a run is a store, or it is tended to. -/
theorem RegularStep.cases (hstep : RegularStep P s es t) (h : Guarding s) : Guarding t ∧
    ((∃ addr byte, P s (.store addr byte) ∧ es = [] ∧
      t = { s with heap := s.heap.store addr byte }) ∨ monitor.Tended s es t) := by
  obtain ⟨a, hP, hok, hreg, hexec, htrace⟩ := hstep
  obtain ⟨ht, ⟨addr, byte, rfl, rfl⟩ | ⟨es', htrace', htended⟩⟩ := h.action hok hreg hexec
  · exact ⟨ht, .inl ⟨addr, byte, hP, List.append_right_eq_self.1 htrace.symm, rfl⟩⟩
  · rw [List.append_cancel_left (htrace'.symm.trans htrace)] at htended
    exact ⟨ht, .inr htended⟩

/-- A regular check returns, and reports on the block if it is damaged. -/
theorem Guarding.announces (h : Guarding s) (hok : a.Promised s) (hreg : a.Regular s)
    (hchecks : a.Checks s w) (hw : s.Watches w) (hbroken : monitor.Broken s w y) :
    ∃ t, a.exec s = some t ∧ s.Announces w t := by
  obtain ⟨⟨g, hg⟩, h0, hsmall⟩ := h
  cases a with
  | call env c =>
    obtain ⟨hc, hrequest⟩ := hok
    obtain ⟨n, hn, hgives, hwith⟩ := hchecks
    have hn' := hg.isLive_iff.1 hn
    have ha : ∀ r, c.request s = some r → Heap.AnswerOk env.answer r.bufsize s.heap :=
      fun r hr ↦ (hrequest r hr).2
    obtain ⟨p, t, hexec⟩ := Call.exists_exec hg hsmall h0 ha hn' hgives
      fun w hw ↦ hreg.heard w ⟨n, hn, hgives, hw⟩
    exact ⟨t, by rw [Action.exec, hexec]; rfl,
      Call.announces hg hsmall h0 ha hn' hgives hwith hw hbroken hexec⟩
  | checkAll =>
    have hnone : ¬s.NullReport := by
      rw [State.nullReport_iff, not_exists]
      exact fun w ↦ hreg.heard w trivial
    obtain ⟨⟨ret, t⟩, hrun, -⟩ := (hg.mcCheckAllMemblk hsmall).exists_of_not hnone
    exact ⟨t, by rw [Action.exec, hrun]; rfl, hg.announces_checkAll hsmall hrun hw hbroken⟩
  | store _ _ | disableHook | enableHook => exact hchecks.elim

/-- Over a run whose stores leave the damage, the monitor is alert. -/
theorem RegularStep.alert
    (hstep : RegularStep (fun _ a ↦ (Step.action a).LeavesDamage w y) s es t) (h : Guarding s) :
    monitor.Alert w y s es t ∧ Guarding t := by
  obtain ⟨ht, ⟨addr, byte, hleaves, rfl, rfl⟩ | htended⟩ := hstep.cases h
  · exact ⟨State.alert_store hleaves, ht⟩
  · exact ⟨htended.alert w y, ht⟩

/-- Over a run that writes payloads only, the monitor is honest. -/
theorem RegularStep.honest
    (hstep : RegularStep (fun s a ↦ (Step.action a).WritesPayload s) s es t) (h : Guarding s)
    (ptr : ℕ) : monitor.Honest ptr s es t ∧ Guarding t := by
  obtain ⟨ht, ⟨addr, byte, ⟨n, hn, hin⟩, rfl, rfl⟩ | htended⟩ := hstep.cases h
  · obtain ⟨g, hg⟩ := h.inv
    exact ⟨State.honest_store fun w hw _ hy ↦
      hg.not_payload_of_guards hw hy (hg.isLive_iff.1 hn) hin, ht⟩
  · exact ⟨htended.honest ptr, ht⟩

end Steps

/-! ### Runs -/

/-- A run of regular steps keeps the invariant. -/
theorem guarding_of_run {P : State → Action → Prop} {k : Kernel} (hk : k.Ok) {mem : ℕ → UInt8}
    {s : State} {es : List Event} (hrun : LoggedRun (RegularStep P) (State.init k mem) es s) :
    Guarding s :=
  (hrun.induction (R := fun _ _ _ ↦ True) (guarding_init hk mem) (fun _ ↦ trivial)
    (fun _ _ ↦ trivial) fun h hstep ↦ ⟨trivial, (hstep.cases h).1⟩).2

/-- In runs of regular steps, a program that writes payloads of live blocks only is never reported
on, and a block that is damaged is reported on when it is checked, before its buffer is given
back. -/
theorem detection_sound_complete {k : Kernel} (hk : k.Ok) (mem : ℕ → UInt8) :
    (∀ t es, LoggedRun (RegularStep fun s a ↦ (Step.action a).WritesPayload s)
      (State.init k mem) es t → ∀ e ∈ es, ∀ ptr, ¬e.isReportOn ptr) ∧
    ∀ s es, LoggedRun (RegularStep fun _ _ ↦ True) (State.init k mem) es s →
      ∀ w y, s.Watches w → w.Guards y → s.heap.mem y ≠ w.pattern →
        (∀ a : Action, a.Promised s → a.Regular s → a.Checks s w →
          ∃ t, a.exec s = some t ∧ s.Announces w t) ∧
        ∀ t es', LoggedRun (RegularStep fun _ a ↦ (Step.action a).LeavesDamage w y) s es' t →
          monitor.Announced w es' ∨ monitor.Pending w y es' t := by
  refine ⟨fun t es hrun e he ptr ↦ ?_, fun s es hrun w y hw hy hbroken ↦ ?_⟩
  · have hwhole : monitor.Whole ptr (State.init k mem) := by
      intro w hw
      rcases (State.inv_init hk mem).watches_iff.1 hw with ⟨n, hn, -⟩ | ⟨n, hn, -⟩ <;>
        exact absurd hn List.not_mem_nil
    have hhonest := (hrun.induction (guarding_init hk mem) Monitor.Honest.refl Monitor.Honest.trans
      fun h hstep ↦ hstep.honest h ptr).1
    exact (hhonest hwhole).2 e he
  · have hs := guarding_of_run hk hrun
    refine ⟨fun a hok hreg hchecks ↦ hs.announces hok hreg hchecks hw ⟨hy, hbroken⟩, ?_⟩
    intro t es' hrun'
    exact (hrun'.induction hs Monitor.Alert.refl Monitor.Alert.trans fun h hstep ↦
      hstep.alert h).1 hw ⟨hy, hbroken⟩

/-! ### A block that is damaged -/

section Samples

variable {P : State → Action → Prop} {s t : State} {g : Contents} {a : Action}

/-- An action that is regular, where the log has grown. -/
theorem exists_regularStep (hP : P s a) (hok : a.Promised s) (hreg : a.Regular s)
    (hexec : a.exec s = some t) (hgrown : s.trace <+: t.trace) : ∃ es, RegularStep P s es t := by
  obtain ⟨es, hes⟩ := hgrown
  exact ⟨es, a, hP, hok, hreg, hexec, hes.symm⟩

theorem regular_malloc (env : Env) (size : ℕ) : (Action.call env (.malloc size)).Regular s where
  heard := fun _ ⟨_, _, hgives, _⟩ ↦ hgives.elim
  slot := by
    rintro env c n ⟨⟩ - hgives
    exact hgives.elim
  sized := by
    rintro env c ⟨⟩ ptr size heq
    cases heq

theorem regular_store (addr : ℕ) (byte : UInt8) : (Action.store addr byte).Regular s where
  heard := fun _ hchecks ↦ hchecks.elim
  slot := nofun
  sized := nofun

/-- Where all metadata is there, `free` is regular. -/
theorem regular_free (h : s.Inv g) (hattr : s.Attributed g) (hnode : s.HasFreeNode) (env : Env)
    (ptr : ℕ) : (Action.call env (.free ptr)).Regular s where
  heard := fun w _ ↦ h.not_mute hattr w
  slot := fun _ _ _ _ _ _ ↦ .inl hnode
  sized := by
    rintro env c ⟨⟩ ptr size heq
    cases heq

/-- The red zone in front is written, and the block is freed. -/
theorem detection_sound_complete_oneBlock : ∃ (s t : State) (w : Watch), s.Watches w ∧
    w.Guards 1048576 ∧ s.heap.mem 1048576 = 0 ∧
      (Action.call (Env.handing 0) (.free 1048592)).exec s = some t ∧ s.Announces w t := by
  obtain ⟨s₁, g, n, c, hexec, hrec⟩ :=
    resting_start.exec_malloc (by decide) (by decide) hasNode_start []
  have horig : (State.start.origMalloc (Env.handing 1048576) 48).2.Attributed
      ⟨fun _ ↦ [], [], []⟩ := ⟨by simp, by simp⟩
  have hattr : s₁.Attributed g :=
    horig.recorded hrec (hrec.callstack_ne_zero (hasCallstack_start _))
  have hn : n ∈ g.nodes .live := by
    rw [hrec.nodes, Function.update_self]
    exact List.mem_cons_self
  obtain ⟨s₂, hs₂⟩ : ∃ s₂, s₂ = { s₁ with heap := s₁.heap.store 1048576 0 } := ⟨_, rfl⟩
  have hinv : s₂.Inv g := hs₂ ▸ hrec.inv.withMem _
  have hattr₂ : s₂.Attributed g := hs₂ ▸ hattr.congr rfl rfl
  have hmem : s₂.heap.mem 1048576 = 0 := by rw [hs₂, Heap.mem_store]
  have hrecord : s₂.blocks.record n = ⟨1048592, ⟨1048576, 48, 16⟩, c⟩ := by rw [hs₂, ← hrec.record]
  have hw₁ : s₁.Watches (.live ⟨1048576, 48, 16⟩ 1048592) :=
    hrec.inv.watches_iff.2 (.inl ⟨n, hn, by rw [State.liveWatch, hrec.record]⟩)
  have hnode : s₂.HasFreeNode := by
    have hquarantine : s₁.quarantine = State.start.quarantine := hrec.quarantine
    subst hs₂
    rw [State.HasFreeNode, hquarantine]
    exact hasFreeNode_start
  -- the two steps
  obtain ⟨es₁, hfirst⟩ : ∃ es, RegularStep (fun _ _ ↦ True) State.start es s₁ := by
    have hok : (Action.call (Env.handing 1048576) (.malloc 16)).Promised State.start := by
      refine ⟨(by decide : 16 < 18446744073709551616), fun r hr ↦ ?_⟩
      obtain rfl := Option.some.inj hr
      exact ⟨by decide, (resting_start.envOk (by decide)).answer _ rfl⟩
    have hrun : (Action.call (Env.handing 1048576) (.malloc 16)).exec State.start = some s₁ :=
      congrArg (Option.map Prod.snd) hexec
    exact exists_regularStep trivial hok (regular_malloc _ 16) hrun List.nil_prefix
  obtain ⟨es₂, hsecond⟩ : ∃ es, RegularStep (fun _ _ ↦ True) s₁ es s₂ := by
    have hok : (Action.store 1048576 0).Promised s₁ := hrec.inv.covered hw₁ (by decide)
    subst hs₂
    exact exists_regularStep trivial hok (regular_store 1048576 0) rfl List.prefix_rfl
  have hw : s₂.Watches (.live ⟨1048576, 48, 16⟩ 1048592) := by
    subst hs₂
    exact (State.watches_congr rfl rfl _).2 hw₁
  have hbroken : s₂.heap.mem 1048576 ≠ redzonePattern := by
    rw [hmem]
    decide
  have hpromised : (Action.call (Env.handing 0) (.free 1048592)).Promised s₂ :=
    ⟨(by decide : 1048592 < 18446744073709551616), fun r hr ↦ absurd hr (by simp [Call.request])⟩
  have hchecks : (Action.call (Env.handing 0) (.free 1048592)).Checks s₂
      (.live ⟨1048576, 48, 16⟩ 1048592) :=
    ⟨n, hinv.isLive_iff.2 hn, by rw [hrecord]; rfl, .inl (by rw [State.liveWatch, hrecord])⟩
  obtain ⟨t, hfree, hannounced⟩ := ((detection_sound_complete kernel_ok_nil fun _ ↦ 0).2 s₂ _
    (.tail (.tail (.refl _) hfirst) hsecond) _ _ hw (by decide) hbroken).1 _ hpromised
      (regular_free hinv hattr₂ hnode _ _) hchecks
  exact ⟨s₂, t, _, hw, by decide, hmem, hfree, hannounced⟩

/-- The nodes of the quarantine are used up. A red zone of one block is written and another block is
freed, while the stack holds the buffer of the first, which is given back without a report. -/
theorem not_detection_complete : ∃ (s t : State) (a : Action) (w : Watch) (y : ℕ)
    (es : List Event), PromisedReachable s ∧ s.Watches w ∧ w.Guards y ∧ s.heap.mem y ≠ w.pattern ∧
      a.Promised s ∧ a.exec s = some t ∧ t.trace = s.trace ++ es ∧
      (∃ e ∈ es, .gave w.memblk.buf ∈ e.transfers) ∧ ∀ e ∈ es, ¬e.isReportOn w.usrptr := by
  obtain ⟨s, g, m, n, c, d, hs, hattr, hnode, hm, hn, hfirst, hsecond⟩ := resting_exhausted
  obtain ⟨s₁, hs₁⟩ : ∃ s₁, s₁ = { s with heap := s.heap.store 1048576 0 } := ⟨_, rfl⟩
  have hinv : s₁.Inv g := hs₁ ▸ hs.inv.withMem _
  have hmode : s₁.doNotHook = 0 := hs₁ ▸ hs.mode
  have hattr₁ : s₁.Attributed g := hs₁ ▸ hattr.congr rfl rfl
  have hnode₁ : ¬s₁.HasFreeNode := hs₁ ▸ hnode
  have hn₁ : s₁.blocks.record n = ⟨1053200, ⟨1053184, 48, 16⟩, d⟩ := by rw [hs₁, ← hsecond]
  have hw₀ : s.Watches (.live ⟨1048576, 48, 16⟩ 1048592) :=
    hs.inv.watches_iff.2 (.inl ⟨m, hm, by rw [State.liveWatch, hfirst]⟩)
  have hw : s₁.Watches (.live ⟨1048576, 48, 16⟩ 1048592) := by
    subst hs₁
    exact (State.watches_congr rfl rfl _).2 hw₀
  have hbroken : s₁.heap.mem 1048576 ≠ redzonePattern := by
    rw [hs₁, Heap.mem_store]
    decide
  have hreached : PromisedReachable s₁ := by
    have hok : (Action.store 1048576 0).Promised s := hs.inv.covered hw₀ (by decide)
    exact hs₁ ▸ hs.promised.step hok rfl
  obtain ⟨env, henv⟩ : ∃ env : Env, env = { Env.handing 0 with garbage := 1048576 } := ⟨_, rfl⟩
  obtain ⟨rc, log, u, hcheck, hun, hdrop⟩ :=
    hinv.exists_dropped hn hnode₁ (hattr₁.allocator .live n hn) env env.garbage
  have hsmall : (s₁.blocks.record n).memblk.bufsize < 2147483648 := by
    rw [hn₁]
    exact (by decide : 48 < 2147483648)
  have hchecked := hinv.checked_liveWatch hn hsmall hcheck
  rw [hn₁] at hun
  have hexec : (Action.call env (.free 1053200)).exec s₁ = some (u.giveBack env.garbage) := by
    rw [Action.exec, Call.exec, Hook.free, if_neg (by decide), if_neg (not_not_intro hmode), hun]
    rfl
  have hgarbage : env.garbage = 1048576 := by rw [henv]
  have htrace : (u.giveBack env.garbage).trace =
      s₁.trace ++ (log ++ [.mmapFailed] ++ [.origFree 1048576]) := by
    rw [State.trace_giveBack, hdrop.trace, hgarbage, List.append_assoc]
    rfl
  have hok : (Action.call env (.free 1053200)).Promised s₁ :=
    ⟨(by decide : 1053200 < 18446744073709551616), fun r hr ↦ absurd hr (by simp [Call.request])⟩
  refine ⟨s₁, _, _, _, 1048576, _, hreached, hw, by decide, hbroken, hok, hexec, htrace,
    ⟨.origFree 1048576, by simp, List.mem_singleton.2 rfl⟩, fun e he hreport ↦ ?_⟩
  rw [List.mem_append, List.mem_append] at he
  rcases he with (he | he) | he
  · -- the check of the block that is freed reports on no other
    have hkey := (hchecked.deserved e he _ hreport).1
    rw [State.liveWatch, hn₁] at hkey
    exact absurd hkey (by decide : (1053200 : ℕ) ≠ 1048592)
  · rw [List.mem_singleton.1 he] at hreport
    exact absurd hreport Bool.false_ne_true
  · rw [List.mem_singleton.1 he] at hreport
    exact absurd hreport Bool.false_ne_true

end Samples

end Memchk
