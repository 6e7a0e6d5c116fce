import Memchk.CallCases
import Memchk.Realloc
import Memchk.Watching

/-!
# Calls under watch

What a call does to the blocks that are watched, with whatever metadata it finds. A call with hooks
enabled is tended to (`Call.tends`), and so is a call that is passed on (`Call.tends_of_disabled`).
A call that gives a live block back reports on it if it is damaged, and on the block that leaves the
quarantine for it (`Call.announces`), and it returns if the callstacks are there that these reports
print (`Call.exists_exec`).

## Where the code relies on luck

Two things are asked beyond the promise of `mc_orig_malloc`. Where `free` finds no node for the
quarantine it hands over what `buf_to_be_freed` held before, and this must not be the buffer of a
block (`Call.Harmless`). And where `realloc` finds no node for the block that it moves to, the copy
must stay in the new buffer, so the size must not have wrapped around (`Call.Sized`).

## The halves of a call

As in `Call.cases`, a call is a service and a rest. The service writes in the new buffer only, which
holds no guard, and the rest fills the payload and takes a pointer back.
-/

namespace Memchk

namespace State

variable {s t u : State} {g g' : Contents} {w : Watch} {n y : ℕ} {env : Env}

/-- Freeing the live block `n` checks the block, and the block that leaves the quarantine for it if
there is a node. -/
def CheckedWith (s : State) (n : ℕ) (w : Watch) : Prop :=
  w = s.liveWatch n ∨ s.HasFreeNode ∧ ∃ old, old ≠ 0 ∧
    s.quarantine.freeMemblkArray s.quarantine.freeFifoIdx = old ∧ w = s.freedWatch old

/-- The block is damaged, and a callstack is null that a report on it prints. -/
def Mute (s : State) (w : Watch) : Prop :=
  (∃ n, s.IsLive n ∧ w = s.liveWatch n ∧ s.LiveDamaged n ∧ (s.blocks.record n).allocator = 0) ∨
    ∃ n, s.IsFreed n ∧ w = s.freedWatch n ∧ s.FreedDamaged n ∧
      ((s.quarantine.record n).allocator = 0 ∨ (s.quarantine.record n).freer = 0)

/-- A full check has something to say that it cannot if one of the blocks is mute. -/
theorem nullReport_iff : s.NullReport ↔ ∃ w, s.Mute w := by
  constructor
  · rintro (⟨n, hn, hmute⟩ | ⟨n, hn, hmute⟩)
    · exact ⟨_, .inl ⟨n, hn, rfl, hmute⟩⟩
    · exact ⟨_, .inr ⟨n, hn, rfl, hmute⟩⟩
  · rintro ⟨w, ⟨n, hn, -, hmute⟩ | ⟨n, hn, -, hmute⟩⟩
    · exact .inl ⟨n, hn, hmute⟩
    · exact .inr ⟨n, hn, hmute⟩

/-- Where all callstacks are there, every report can be printed. -/
theorem Inv.not_mute (h : s.Inv g) (hattr : s.Attributed g) (w : Watch) : ¬s.Mute w := by
  rintro (⟨n, hn, -, -, hnull⟩ | ⟨n, hn, -, -, hnull⟩)
  · exact hattr.allocator .live n (h.isLive_iff.1 hn) hnull
  · have hfreed := hattr.freed n (h.isFreed_iff.1 hn)
    exact hnull.elim hfreed.1 hfreed.2

/-! ### Taking a pointer back -/

/-- A buffer of no block is given back, if it is not null. -/
theorem Inv.tends_giveBack (h : s.Inv g) {buf : ℕ}
    (hbuf : buf = 0 ∨ buf ∉ s.liveBufs g ++ s.freedBufs g) : s.Tends (s.giveBack buf) := by
  rw [State.giveBack]
  split_ifs with hne
  · refine ⟨_, rfl, tended_origFree fun w hw heq ↦ hbuf.resolve_left hne ?_⟩
    rw [List.mem_append]
    rcases h.watches_iff.1 hw with ⟨m, hm, rfl⟩ | ⟨m, hm, rfl⟩
    · exact .inl (List.mem_map.2 ⟨m, hm, heq⟩)
    · exact .inr (List.mem_map.2 ⟨m, hm, heq⟩)
  · exact Tends.refl s

/-- `free` with hooks enabled is tended to, unless it gives back the buffer of a block that the
stack happened to hold. -/
theorem Inv.tends_hookFree (h : s.Inv g) (h0 : s.doNotHook = 0) {ptr : ℕ}
    (hsmall : ∀ n ∈ g.nodes .live, (s.blocks.record n).usrptr = ptr →
      (s.blocks.record n).memblk.bufsize < 2147483648)
    (hsmallFreed : ∀ m ∈ g.freed, (s.quarantine.record m).memblk.bufsize < 2147483648)
    (hgarbage : env.garbage = 0 ∨ env.garbage ∉ s.liveBufs g ++ s.freedBufs g)
    (hexec : Hook.free env ptr s = some t) : s.Tends t := by
  rcases h.hookFree_cases h0 hexec with ⟨-, es, rfl, hes⟩ |
    ⟨n, hn, rfl, rc, log, hcheck, ⟨u, hdrop, rfl⟩ | ⟨new, c, evicted, evictLog, u, g', hun, rfl⟩⟩
  · exact ⟨es, rfl, tended_of_same rfl rfl rfl fun e he ↦ isIdle_of_isRemark (hes e he)⟩
  · have hdropped : s.Tends u :=
      ⟨_, hdrop.trace, h.tended_dropped hn (hsmall n hn rfl) hcheck hdrop⟩
    refine hdropped.trans (hdrop.inv.tends_giveBack (hgarbage.imp_right fun hnot hmem ↦ hnot ?_))
    simp only [liveBufs, freedBufs, hdrop.record, hdrop.freedRecord, Function.update_self] at hmem
    exact ((List.erase_sublist.map _).append (List.Sublist.refl _)).subset hmem
  · have hreleased : s.Tends u := ⟨_, hun.trace, h.tended_unregistered hn (hsmall n hn rfl)
      hsmallFreed hcheck hun isIdle_of_failure⟩
    exact hreleased.trans (hun.inv.tends_giveBack (.inr (h.evictedBuf_notMem hn hun)))

/-- The block that leaves the quarantine is the one in the next place of the ring. -/
theorem Inv.mem_evicted (h : s.Inv g) {ptr new c old : ℕ} {evicted : Option ℕ}
    {log evictLog : List Event}
    (hun : Unregistered env ptr s g n new c evicted log evictLog u g')
    (hslot : s.quarantine.freeMemblkArray s.quarantine.freeFifoIdx = old) (hne : old ≠ 0) :
    old ∈ evicted := by
  rcases h.fifo.push new ⟨0, default, [], []⟩ with ⟨-, hzero, -⟩ | ⟨hfull, rest, hrest, -⟩
  · exact absurd (hslot.symm.trans hzero) hne
  · replace hrest : g.freed = old :: rest := by
      rw [hrest, ← hslot]
      rfl
    obtain ⟨m, rfl⟩ := Option.isSome_iff_exists.1 (hun.evicted_iff.2 hfull)
    have hfreed : m :: g'.freed = old :: (rest ++ [new]) := by
      have := hun.freed
      rw [hrest] at this
      exact this
    exact congrArg some (List.cons.inj hfreed).1

/-- A buffer that is given back behind the report does not matter. -/
theorem Announces.giveBack (h : s.Announces w u) (buf : ℕ) : s.Announces w (u.giveBack buf) := by
  obtain ⟨es, htrace, hannounced⟩ := h
  exact ⟨_, by rw [trace_giveBack, htrace, List.append_assoc], hannounced.append _⟩

/-- `free` of a live block reports on it if it is damaged, and on the block that leaves the
quarantine for it. -/
theorem Inv.announces_hookFree (h : s.Inv g) (h0 : s.doNotHook = 0) (hn : n ∈ g.nodes .live)
    (hsmall : (s.blocks.record n).memblk.bufsize < 2147483648)
    (hsmallFreed : ∀ m ∈ g.freed, (s.quarantine.record m).memblk.bufsize < 2147483648)
    (hw : s.CheckedWith n w) (hbroken : monitor.Broken s w y)
    (hexec : Hook.free env (s.blocks.record n).usrptr s = some t) : s.Announces w t := by
  rcases h.hookFree_cases h0 hexec with ⟨hnone, -⟩ |
    ⟨m, hm, hkey, rc, log, hcheck, ⟨u, hdrop, rfl⟩ | ⟨new, c, evicted, evictLog, u, g', hun, rfl⟩⟩
  · exact absurd rfl (hnone n hn)
  · obtain rfl := h.live_inj hm hn hkey
    rcases hw with rfl | ⟨⟨k, pool, halloc, hk⟩, -⟩
    · obtain ⟨e, es, rfl, he⟩ := (h.checked_liveWatch hn hsmall hcheck).reported ⟨y, hbroken⟩
      have hannounced : monitor.Announced (s.liveWatch m) (e :: es ++ [.mmapFailed]) :=
        ⟨[], e, es ++ [.mmapFailed], by simp, he, by simp⟩
      exact Announces.giveBack ⟨_, hdrop.trace, hannounced⟩ _
    · rw [hdrop.failed, Option.some_inj, Prod.mk.injEq] at halloc
      exact absurd halloc.1.symm hk
  · obtain rfl := h.live_inj hm hn hkey
    refine Announces.giveBack ⟨_, hun.trace, ?_⟩ _
    refine h.announced_unregistered hn hsmall hsmallFreed hcheck hun isIdle_of_failure
      (hw.imp_right ?_) ⟨y, hbroken⟩
    rintro ⟨-, old, hne, hslot, rfl⟩
    exact ⟨old, h.mem_evicted hun hslot hne, rfl⟩

/-- `free` of a live block returns, if the callstacks are there that its reports print. -/
theorem Inv.exists_hookFree_of_live (h : s.Inv g) (h0 : s.doNotHook = 0) (hn : n ∈ g.nodes .live)
    (hsmall : (s.blocks.record n).memblk.bufsize < 2147483648)
    (hallocator : s.LiveDamaged n → (s.blocks.record n).allocator ≠ 0)
    (hevicted : s.HasFreeNode → ∀ old ∈ g.freed,
      s.quarantine.freeMemblkArray s.quarantine.freeFifoIdx = old → s.FreedDamaged old →
        (s.quarantine.record old).allocator ≠ 0 ∧ (s.quarantine.record old).freer ≠ 0)
    (env : Env) : ∃ t, Hook.free env (s.blocks.record n).usrptr s = some t := by
  have hguarded := h.guarded n hn
  have hlow := hguarded.shape.le
  have hbuf := h.heap.ne_null _ hguarded.mem
  simp only at hbuf
  have hptr : (s.blocks.record n).usrptr ≠ 0 := by omega
  have hfree : ∀ {x}, mcUnregisterMemblk env (s.blocks.record n).usrptr env.garbage s = some x →
      ∃ t, Hook.free env (s.blocks.record n).usrptr s = some t := by
    intro x heq
    refine ⟨x.2.2.giveBack x.2.1, ?_⟩
    rw [Hook.free, if_neg hptr, if_neg (not_not_intro h0), heq]
    rfl
  rcases h.unregister env (s.blocks.record n).usrptr env.garbage with
    ⟨hnone, -⟩ | ⟨m, hm, hkey, ⟨⟨hcheck, hnull⟩, -⟩ | ⟨rc, log, -, ⟨u, heq, -⟩ |
      ⟨⟨hnode, old, hold, hslot, hdamaged, hnull⟩, -⟩ |
        ⟨new, c, evicted, evictLog, u, g', heq, -⟩⟩⟩
  · exact absurd rfl (hnone n hn)
  · -- an intact block needs no callstack
    obtain rfl := h.live_inj hm hn hkey
    refine absurd hnull (hallocator fun hintact ↦ ?_)
    have hfits : (s.blocks.record m).memblk.Fits (s.blocks.record m).usrptr :=
      ⟨hguarded.shape, hsmall, hguarded.end_le h.heap⟩
    rw [hfits.mcCheckAllocatedBuffer_of_intact hintact] at hcheck
    exact absurd hcheck (by simp)
  · exact hfree heq
  · obtain ⟨hallocator', hfreer⟩ := hevicted hnode old hold hslot hdamaged
    exact absurd hnull (not_or.2 ⟨hallocator', hfreer⟩)
  · exact hfree heq

/-- The same blocks are watched as long as the nodes hold what they held. -/
theorem Inv.watches_of_record (h : s.Inv g) (ht : t.Inv g)
    (hrecord : t.blocks.record = s.blocks.record) (hquarantine : t.quarantine = s.quarantine)
    (w : Watch) : t.Watches w ↔ s.Watches w := by
  rw [ht.watches_iff, h.watches_iff]
  simp only [liveWatch, freedWatch, hrecord, hquarantine]

end State

namespace Call

variable {env : Env} {s t u : State} {g g' : Contents} {c : Call} {r : Request} {p n : ℕ}

/-- What `buf_to_be_freed` holds before it is set belongs to no block, nor is it the buffer that the
call has just got. -/
def Harmless (env : Env) (s : State) (c : Call) : Prop :=
  env.garbage = 0 ∨
    ¬s.tracks env.garbage ∧ ((c.request s).isSome → env.garbage ≠ env.answer.addr)

theorem EnvOk.harmless (henv : c.EnvOk env s) : c.Harmless env s :=
  henv.garbage_ne.imp_right fun hne ↦ ⟨henv.garbage, fun _ ↦ hne⟩

/-- A `realloc` of a live block that gets a buffer finds a node for it, or its size does not wrap
around. -/
def Sized (env : Env) (s : State) (c : Call) : Prop :=
  ∀ ptr size, c = .realloc ptr size → ptr ≠ 0 → (c.request s).isSome → env.answer.addr ≠ 0 →
    s.HasNode ∨ size + redzoneSize * 2 < 18446744073709551616

/-! ### The service -/

/-- What the stack holds still belongs to no block. -/
theorem Served.harmless (hserved : Served env r s g p u g') (h : s.Inv g)
    (hr : c.request s = some r) (hslot : c.Harmless env s) :
    env.garbage = 0 ∨ env.garbage ∉ u.liveBufs g' ++ u.freedBufs g' := by
  refine hslot.imp_right fun ⟨hnot, hne⟩ ↦ ?_
  replace hne := hne (by rw [hr]; rfl)
  rw [h.tracks_iff] at hnot
  cases hserved with
  | refused hnull => exact hnot
  | unrecorded _ hun =>
    simp only [State.liveBufs, State.freedBufs, hun.record, hun.quarantine]
    exact hnot
  | recorded _ hrec =>
    rw [hrec.bufs.1, hrec.bufs.2, List.cons_append, List.mem_cons, not_or]
    exact ⟨hne, hnot⟩

/-- The service. -/
theorem Served.tends (hserved : Served env r s g p u g') (h : s.Inv g)
    (ha : Heap.AnswerOk env.answer r.bufsize s.heap) : s.Tends u := by
  have hasked : s.Tends (s.origMalloc env r.bufsize).2 := ⟨_, rfl, h.tended_origMalloc env _⟩
  cases hserved with
  | refused hnull => exact hasked
  | unrecorded hne hun =>
    refine hasked.trans ⟨_, hun.trace, State.tended_of_idle ?_ (fun _ _ _ _ ↦ by rw [hun.heap]) ?_
      fun w _ e he ↦ ?_⟩
    · exact (h.origMalloc ha).watches_of_record hun.inv hun.record hun.quarantine
    · simp [Event.isReportOn]
    · simp only [List.mem_cons, List.not_mem_nil, or_false] at he
      rcases he with rfl | rfl <;> exact List.not_mem_nil
  | recorded hne hrec =>
    have hrecorded := (h.origMalloc ha).tended_recorded hrec
    exact hasked.trans ⟨_, hrec.trace,
      hrecorded.trans (State.tended_of_same rfl rfl rfl isIdle_of_failure)⟩

/-- Without a node the payload that is filled lies in the new buffer all the same. -/
theorem Filled.mem_eq {mem : ℕ → UInt8} (hmem : Filled c r p u mem)
    (hp : p = r.place env.answer.addr) (hok : u.heap.Ok)
    (hend : env.answer.addr + max 1 r.bufsize ≤ 9223372036854775808)
    (hwrap : ∀ ptr, ptr ≠ 0 → c = .realloc ptr r.usrsize →
      r.usrsize + redzoneSize * 2 < 18446744073709551616) {y : ℕ}
    (hy : ¬(env.answer.addr ≤ y ∧ y < env.answer.addr + r.bufsize)) : mem y = u.heap.mem y := by
  rcases hmem.writer with hsame | ⟨hr, hfits⟩
  · rw [hsame]
  have hsize : r.usrsize + redzoneSize * 2 < 18446744073709551616 := by
    rcases hfits with (hzero | ⟨b, hb, hle, hle'⟩) | ⟨ptr, hptr, hc⟩
    · rw [hzero]
      decide
    · -- the buffers handed out end far below
      have := hok.end_le b hb
      simp only [redzoneSize]
      omega
    · exact hwrap ptr hptr hc
  refine hmem.outside y fun ⟨_, hge, hlt⟩ ↦ hy ?_
  have hbufsize : r.bufsize = r.usrsize + redzoneSize * 2 := by
    rw [hr]
    exact wrapSize_of_lt hsize
  rw [hbufsize] at hend ⊢
  have hplace := (State.malloc_fits hsize hend).2.1
  rw [← hr, ← hp] at hplace
  rw [hplace] at hge hlt
  simp only [redzoneSize] at hge hlt ⊢
  omega

/-- Only a payload is written where a call fills its block. -/
theorem Served.tended_filled (hserved : Served env r s g p u g') (h : s.Inv g)
    (ha : Heap.AnswerOk env.answer r.bufsize s.heap) (hr : c.request s = some r)
    (hsized : c.Sized env s) {mem : ℕ → UInt8} (hmem : Filled c r p u mem) :
    monitor.Tended u [] { u with heap := { u.heap with mem := mem } } := by
  cases hserved with
  | refused hnull =>
    refine (h.origMalloc ha).tended_filled fun y _ ↦ hmem.outside y fun hin ↦ hin.1 rfl
  | unrecorded hne hun =>
    have horig := h.origMalloc ha
    refine State.tended_of_idle (State.watches_congr rfl rfl) (fun w hw y hy ↦ ?_) (by simp)
      (by simp)
    -- a guard lies in a buffer that was handed out before
    have hcovered : s.heap.Covered y :=
      h.covered ((horig.watches_of_record hun.inv hun.record hun.quarantine w).1 hw) hy
    refine hmem.mem_eq rfl hun.inv.heap (ha.resolve_left hne).1 (fun ptr hptr hc ↦ ?_)
      (ha.not_mem_of_covered hne hcovered)
    rcases hsized ptr _ hc hptr (by rw [hr]; rfl) hne with ⟨m, pool, halloc, hm⟩ | hwrap
    · have hfailed : mcAllocateAllocMemblk s.blocks.pool = some (0, u.blocks.pool) := hun.failed
      rw [hfailed, Option.some_inj, Prod.mk.injEq] at halloc
      exact absurd halloc.1.symm hm
    · exact hwrap
  | @recorded n k u g' hne hrec =>
    refine hrec.inv.tended_filled fun y hy ↦ hmem.outside y fun hin ↦ hy n ?_ ?_
    · rw [hrec.nodes, Function.update_self]
      exact List.mem_cons_self
    · rw [hrec.record]
      exact hin.2

/-- The service leaves the blocks that were live before as they were. -/
theorem Served.live (hserved : Served env r s g p u g') {m : ℕ} (hm : m ∈ g.nodes .live) :
    m ∈ g'.nodes .live ∧ u.blocks.record m = s.blocks.record m := by
  cases hserved with
  | refused hnull => exact ⟨hm, rfl⟩
  | unrecorded hne hun => exact ⟨hm, congrFun hun.record m⟩
  | recorded hne hrec =>
    exact ⟨hrec.mem_live hm, hrec.record_of_ne m (ne_of_mem_of_not_mem hm (hrec.notMem .live))⟩

theorem Served.quarantine (hserved : Served env r s g p u g') : u.quarantine = s.quarantine := by
  cases hserved with
  | refused hnull => rfl
  | unrecorded hne hun => exact hun.quarantine
  | recorded hne hrec => exact hrec.quarantine

/-- The blocks of the quarantine are small as long as they are the same. -/
theorem small_freed (hsmall : s.SmallBufs) (hu : u.Inv g')
    (hquarantine : u.quarantine = s.quarantine) {m : ℕ} (hm : m ∈ g'.freed) :
    (u.quarantine.record m).memblk.bufsize < 2147483648 := by
  have hfreed := hu.isFreed_iff.2 hm
  rw [State.IsFreed, hquarantine] at hfreed
  rw [hquarantine]
  exact hsmall.freed m hfreed

/-! ### Calls with hooks enabled -/

/-- A call that is rejected, or that frees. -/
theorem tends_refuse (h : s.Inv g) (hsmall : s.SmallBufs)
    (h0 : c.isAligned = false → s.doNotHook = 0) (hr : c.request s = none)
    (hslot : c.Harmless env s) (hexec : c.refuse env s = some (p, t)) : s.Tends t := by
  have hfree : ∀ {ptr}, c.isAligned = false → (Hook.free env ptr s).map (0, ·) = some (p, t) →
      s.Tends t := by
    intro ptr hfalse hmap
    obtain ⟨u, hfree, heq⟩ := Option.map_eq_some_iff.1 hmap
    obtain rfl : u = t := congrArg Prod.snd heq
    refine h.tends_hookFree (h0 hfalse) (fun n hn _ ↦ hsmall.live n (h.isLive_iff.2 hn))
      (fun n hn ↦ hsmall.freed n (h.isFreed_iff.2 hn)) (hslot.imp_right fun hnot ↦ ?_) hfree
    exact fun hmem ↦ hnot.1 (h.tracks_iff.2 hmem)
  cases c with
  | free ptr => exact hfree rfl hexec
  | realloc ptr size =>
    rw [refuse] at hexec
    split_ifs at hexec with hsize
    · exact hfree rfl hexec
    · obtain rfl : s.emit [.message "realloc: oldsize = -1"] = t :=
        congrArg Prod.snd (Option.some.inj hexec)
      refine ⟨_, rfl, State.tended_of_same rfl rfl rfl fun e he ↦ ?_⟩
      rw [List.mem_singleton.1 he]
      exact ⟨rfl, fun _ ↦ Bool.false_ne_true⟩
  | malloc _ | calloc _ _ | posixMemalign _ _ | alignedAlloc _ _ | memalign _ _ | valloc _
  | pvalloc _ =>
    obtain rfl : s = t := congrArg Prod.snd (Option.some.inj hexec)
    exact State.Tends.refl s

/-- The rest of a call behind the service. -/
theorem tends_finish (h : s.Inv g) (hsmall : s.SmallBufs)
    (h0 : c.isAligned = false → s.doNotHook = 0) (hr : c.request s = some r)
    (ha : Heap.AnswerOk env.answer r.bufsize s.heap) (hslot : c.Harmless env s)
    (hsized : c.Sized env s) (hserved : Served env r s g p u g')
    (hfin : c.finish env s (p, u) = some (p, t)) : u.Tends t := by
  have hu := hserved.inv h ha
  obtain ⟨-, ⟨-, mem, hmem, rfl⟩ | ⟨ptr, mem, hp, hplain, -, hold, hmem, hfree⟩⟩ :=
    finish_cases hr hfin
  · exact ⟨[], (List.append_nil _).symm, hserved.tended_filled h ha hr hsized hmem⟩
  have hfill : u.Tends { u with heap := { u.heap with mem := mem } } :=
    ⟨[], (List.append_nil _).symm, hserved.tended_filled h ha hr hsized hmem⟩
  refine hfill.trans ((hu.withMem mem).tends_hookFree ?_ ?_ ?_ (hserved.harmless h hr hslot) hfree)
  · exact hserved.doNotHook.trans (h0 hplain)
  · -- the block given back was there before the service
    obtain ⟨m, hm, hkey⟩ := h.exists_of_realloc hold
    obtain ⟨hm', hrecord⟩ := hserved.live hm
    intro n hn hnkey
    obtain rfl := hu.live_inj hn hm' (by rw [hrecord]; exact hnkey.trans hkey.symm)
    show (u.blocks.record n).memblk.bufsize < 2147483648
    rw [hrecord]
    exact hsmall.live n (h.isLive_iff.2 hm)
  · exact fun n hn ↦ small_freed hsmall hu hserved.quarantine hn

/-- A call with hooks enabled. -/
theorem tends (h : s.Inv g) (hsmall : s.SmallBufs) (hmode : c.isAligned ∨ s.doNotHook = 0)
    (hc : c.InRange) (ha : ∀ r, c.request s = some r → Heap.AnswerOk env.answer r.bufsize s.heap)
    (hslot : c.Harmless env s) (hsized : c.Sized env s) (hexec : c.exec env s = some (p, t)) :
    s.Tends t := by
  have hplain : c.isAligned = false → s.doNotHook = 0 := fun hfalse ↦
    hmode.resolve_left (by rw [hfalse]; exact Bool.false_ne_true)
  rcases Call.cases h hmode hc ha hexec with ⟨hr, hrefuse⟩ | ⟨r, u, g', hr, ha, hserved, hfin⟩
  · exact tends_refuse h hsmall hplain hr hslot hrefuse
  · exact (hserved.tends h ha).trans
      (tends_finish h hsmall hplain hr ha hslot hsized hserved hfin)

/-- Where metadata was there, the request found a node. -/
theorem sized_of_mapped (h : s.Inv g) (hmode : c.isAligned ∨ s.doNotHook = 0) (hc : c.InRange)
    (ha : ∀ r, c.request s = some r → Heap.AnswerOk env.answer r.bufsize s.heap)
    (hexec : c.exec env s = some (p, t)) (hmapped : .mmapFailed ∉ t.trace) : c.Sized env s := by
  intro ptr size hcall _ hsome hne
  have hplain : c.isAligned = false → s.doNotHook = 0 := fun hfalse ↦
    hmode.resolve_left (by rw [hfalse]; exact Bool.false_ne_true)
  rcases Call.cases h hmode hc ha hexec with ⟨hr, -⟩ | ⟨r, u, g', hr, ha, hserved, hfin⟩
  · rw [hr] at hsome
    exact absurd hsome Bool.false_ne_true
  have hgrown := trace_finish (hserved.inv h ha)
    (fun hfalse ↦ hserved.doNotHook.trans (hplain hfalse)) hr hfin
  cases hserved with
  | refused hnull => exact absurd hnull hne
  | unrecorded _ hun =>
    refine absurd (hgrown.subset ?_) hmapped
    rw [hun.trace]
    simp
  | @recorded n k u g' _ hrec =>
    refine .inl ⟨n, u.blocks.pool, hrec.allocated, ?_⟩
    have hmem : n ∈ g'.nodes .live := by
      rw [hrec.nodes, Function.update_self]
      exact List.mem_cons_self
    exact hrec.inv.blocks.ne_null hmem

/-! ### Calls that give a block back -/

/-- The call gives the pointer back: `realloc` does if it gets a buffer, of a size that does not
wrap around. -/
def GivesBack (env : Env) (ptr : ℕ) : Call → Prop
  | .free q => q = ptr
  | .realloc q size => q = ptr ∧
    (size = 0 ∨ env.answer.addr ≠ 0 ∧ size + redzoneSize * 2 < 18446744073709551616)
  | _ => False

/-- A request of `malloc` that gets a buffer is served, if its size does not wrap around. -/
theorem exists_served {size : ℕ} (h : s.Inv g) (hne : env.answer.addr ≠ 0)
    (hwrap : size + redzoneSize * 2 < 18446744073709551616)
    (ha : Heap.AnswerOk env.answer (size + redzoneSize * 2) s.heap) :
    ∃ u g', (Request.malloc size).serve env s = some (env.answer.addr + redzoneSize, u) ∧
      Served env (.malloc size) s g (env.answer.addr + redzoneSize) u g' := by
  obtain ⟨hbufsize, hplace, hfits⟩ := State.malloc_fits hwrap (ha.resolve_left hne).1
  have hr : (Request.malloc size).Ok :=
    Request.ok_malloc (by simp only [redzoneSize] at hwrap; omega)
  rw [← hbufsize] at ha
  rw [← hplace]
  rcases h.serve hr ha with ⟨hnull, -⟩ | ⟨-, ⟨u, heq, hun⟩ | ⟨hshape, -⟩ |
    ⟨u, g', n, k, heq, hrec⟩⟩
  · exact absurd hnull hne
  · exact ⟨u, g, heq, .unrecorded hne hun⟩
  · exact absurd hfits hshape
  · exact ⟨u, g', heq, .recorded hne hrec⟩

/-- The new buffer can be accessed after the service. -/
theorem Served.mem_outstanding (hserved : Served env r s g p u g') (hne : env.answer.addr ≠ 0) :
    (env.answer.addr, r.bufsize) ∈ u.heap.outstanding := by
  have hnew : (env.answer.addr, r.bufsize) ∈
      (s.heap.origMalloc env.answer r.bufsize).outstanding := by
    rw [Heap.outstanding_origMalloc hne]
    exact List.mem_cons_self
  cases hserved with
  | refused hnull => exact absurd hnull hne
  | unrecorded _ hun =>
    rw [hun.heap]
    exact hnew
  | recorded _ hrec =>
    rw [hrec.heap]
    exact hnew

/-- The copy of `realloc` stays in the two buffers. -/
theorem Served.exists_memcpy {size len : ℕ}
    (hserved : Served env (.malloc size) s g (env.answer.addr + redzoneSize) u g') (hu : u.Inv g')
    (hne : env.answer.addr ≠ 0) (hwrap : size + redzoneSize * 2 < 18446744073709551616)
    (hn : n ∈ g'.nodes .live) (hlen : len ≤ size)
    (hlen' : len ≤ (u.blocks.record n).memblk.usrsize) {ptr : ℕ} (hptr : ptr ≠ 0) :
    ∃ mem, u.heap.memcpy (env.answer.addr + redzoneSize) (u.blocks.record n).usrptr len =
        some { u.heap with mem := mem } ∧
      Filled (.realloc ptr size) (.malloc size) (env.answer.addr + redzoneSize) u mem := by
  have hbufsize : (Request.malloc size).bufsize = size + redzoneSize * 2 := wrapSize_of_lt hwrap
  have hdest : u.heap.Accessible (env.answer.addr + redzoneSize) len := by
    refine .inr ⟨_, hserved.mem_outstanding hne, Nat.le_add_right _ _, ?_⟩
    rw [hbufsize]
    simp only [redzoneSize]
    omega
  refine ⟨_, Heap.memcpy_eq hdest ((hu.guarded n hn).accessible hlen'), fun y hy ↦ ?_,
    .inr ⟨rfl, .inr ⟨ptr, hptr, rfl⟩⟩⟩
  refine Heap.copied_of_notMem (fun hin ↦ hy ⟨by simp, hin.1, hin.2.trans_le ?_⟩) _
  exact Nat.add_le_add_left hlen _

/-- A call that gives a live block back is tended to up to the `free` at its end, which finds the
block and the quarantine as they were. -/
theorem exists_release (h : s.Inv g) (h0 : s.doNotHook = 0)
    (ha : ∀ r, c.request s = some r → Heap.AnswerOk env.answer r.bufsize s.heap)
    (hn : n ∈ g.nodes .live) (hgives : c.GivesBack env (s.blocks.record n).usrptr) :
    ∃ p u g', s.Tends u ∧ u.Inv g' ∧ u.doNotHook = 0 ∧ n ∈ g'.nodes .live ∧
      u.blocks.record n = s.blocks.record n ∧ u.quarantine = s.quarantine ∧
      c.exec env s = (Hook.free env (s.blocks.record n).usrptr u).map fun t ↦ (p, t) := by
  cases c with
  | free q =>
    obtain rfl := hgives
    exact ⟨0, s, g, .refl s, h, h0, hn, rfl, rfl, rfl⟩
  | realloc q size =>
    obtain ⟨rfl, hsize⟩ := hgives
    by_cases hzero : size = 0
    · have hptr : (s.blocks.record n).usrptr ≠ 0 := (h.request_realloc hn one_ne_zero).2.2
      refine ⟨0, s, g, .refl s, h, h0, hn, rfl, rfl, ?_⟩
      rw [exec_of_request_eq_none (.inr h0) (by rw [request, if_neg hptr, if_pos hzero]), refuse,
        if_pos hzero]
    obtain ⟨hne, hwrap⟩ := hsize.resolve_left hzero
    obtain ⟨hreq, hold, hptr⟩ := h.request_realloc hn hzero
    have hbufsize : (Request.malloc size).bufsize = size + redzoneSize * 2 := wrapSize_of_lt hwrap
    have ha' := ha _ hreq
    obtain ⟨u, g', hserve, hserved⟩ := exists_served h hne hwrap (hbufsize ▸ ha')
    have hu := hserved.inv h ha'
    obtain ⟨hn', hrecord⟩ := hserved.live hn
    obtain ⟨len, hlen⟩ : ∃ len, len = if size ≥ (s.blocks.record n).memblk.usrsize then
      (s.blocks.record n).memblk.usrsize else size := ⟨_, rfl⟩
    have hle : len ≤ size ∧ len ≤ (s.blocks.record n).memblk.usrsize := by
      rw [hlen]
      split_ifs <;> omega
    obtain ⟨mem, hcopy, hfilled⟩ := hserved.exists_memcpy hu hne hwrap hn' hle.1
      (hrecord ▸ hle.2) hptr
    rw [hrecord] at hcopy
    have hsized : Call.Sized env s (.realloc (s.blocks.record n).usrptr size) := by
      intro ptr size' heq _ _ _
      obtain ⟨-, rfl⟩ := Call.realloc.inj heq
      exact .inr hwrap
    have hfill : u.Tends { u with heap := { u.heap with mem := mem } } :=
      ⟨[], (List.append_nil _).symm, hserved.tended_filled h ha' hreq hsized hfilled⟩
    refine ⟨env.answer.addr + redzoneSize, { u with heap := { u.heap with mem := mem } }, g',
      (hserved.tends h ha').trans hfill, hu.withMem mem, hserved.doNotHook.trans h0, hn', hrecord,
      hserved.quarantine, ?_⟩
    have hnull : ¬((s.blocks.record n).usrptr = 0 ∨ env.answer.addr + redzoneSize = 0) := by
      simp [hptr]
    rw [exec_of_request (.inr h0) hreq (isSome_mcHandleReallocMemblk h), hserve, Option.bind_some,
      finish, if_neg hnull, hold]
    simp only [Option.bind_eq_bind, Option.bind_some]
    rw [← hlen, hcopy, Option.bind_some]
    cases Hook.free env (s.blocks.record n).usrptr
      { u with heap := { u.heap with mem := mem } } <;> rfl
  | malloc _ | calloc _ _ | posixMemalign _ _ | alignedAlloc _ _ | memalign _ _ | valloc _
  | pvalloc _ => exact hgives.elim

/-- A call that gives a live block back reports on it if it is damaged, and on the block that leaves
the quarantine for it. -/
theorem announces (h : s.Inv g) (hsmall : s.SmallBufs) (h0 : s.doNotHook = 0)
    (ha : ∀ r, c.request s = some r → Heap.AnswerOk env.answer r.bufsize s.heap)
    (hn : n ∈ g.nodes .live) (hgives : c.GivesBack env (s.blocks.record n).usrptr) {w : Watch}
    {y : ℕ} (hw : s.CheckedWith n w) (hwatch : s.Watches w) (hbroken : monitor.Broken s w y)
    (hexec : c.exec env s = some (p, t)) : s.Announces w t := by
  obtain ⟨q, u, g', htends, hu, hmode, hn', hrecord, hquarantine, hcall⟩ :=
    exists_release h h0 ha hn hgives
  rw [hcall, ← hrecord] at hexec
  obtain ⟨v, hfree, heq⟩ := Option.map_eq_some_iff.1 hexec
  obtain rfl : v = t := congrArg Prod.snd heq
  refine htends.announces hwatch hbroken (hu.trace_hookFree hmode hfree) fun _ hbroken' ↦ ?_
  refine hu.announces_hookFree hmode hn' ?_ (fun m hm ↦ small_freed hsmall hu hquarantine hm) ?_
    hbroken' hfree
  · rw [hrecord]
    exact hsmall.live n (h.isLive_iff.2 hn)
  · simp only [State.CheckedWith, State.liveWatch, State.HasFreeNode, State.freedWatch, hrecord,
      hquarantine] at hw ⊢
    exact hw

/-- A call that gives a live block back returns, if no block that it checks is mute. -/
theorem exists_exec (h : s.Inv g) (hsmall : s.SmallBufs) (h0 : s.doNotHook = 0)
    (ha : ∀ r, c.request s = some r → Heap.AnswerOk env.answer r.bufsize s.heap)
    (hn : n ∈ g.nodes .live) (hgives : c.GivesBack env (s.blocks.record n).usrptr)
    (hheard : ∀ w, s.CheckedWith n w → ¬s.Mute w) : ∃ p t, c.exec env s = some (p, t) := by
  obtain ⟨p, u, g', ⟨es, -, htended⟩, hu, hmode, hn', hrecord, hquarantine, hcall⟩ :=
    exists_release h h0 ha hn hgives
  have hlive : u.liveWatch n = s.liveWatch n := by rw [State.liveWatch, State.liveWatch, hrecord]
  have hfreed : u.freedWatch = s.freedWatch := by
    funext m
    rw [State.freedWatch, State.freedWatch, hquarantine]
  have hsmall' : (u.blocks.record n).memblk.bufsize < 2147483648 := by
    rw [hrecord]
    exact hsmall.live n (h.isLive_iff.2 hn)
  -- what is damaged before the `free` was damaged when the call came
  have hallocator : u.LiveDamaged n → (u.blocks.record n).allocator ≠ 0 := by
    intro hdamaged hnull
    obtain ⟨y, hbroken⟩ := (hu.exists_broken_live_iff hn').2 hdamaged
    have hbroken' := (htended.broken _ y (hu.watches_iff.2 (.inl ⟨n, hn', rfl⟩)) hbroken).2
    rw [hlive] at hbroken'
    rw [hrecord] at hnull
    exact hheard _ (.inl rfl) (.inl ⟨n, h.isLive_iff.2 hn, rfl,
      (h.exists_broken_live_iff hn).1 hbroken', hnull⟩)
  have hevicted : u.HasFreeNode → ∀ old ∈ g'.freed,
      u.quarantine.freeMemblkArray u.quarantine.freeFifoIdx = old → u.FreedDamaged old →
        (u.quarantine.record old).allocator ≠ 0 ∧ (u.quarantine.record old).freer ≠ 0 := by
    intro hnode old hold hslot hdamaged
    obtain ⟨y, hbroken⟩ := State.exists_broken_freed_iff.2 hdamaged
    have hbroken' := (htended.broken _ y (hu.watches_iff.2 (.inr ⟨old, hold, rfl⟩)) hbroken).2
    have hfreed' : s.IsFreed old := by
      have := hu.isFreed_iff.2 hold
      rwa [State.IsFreed, hquarantine] at this
    rw [hfreed] at hbroken'
    rw [hquarantine] at hslot ⊢
    rw [State.HasFreeNode, hquarantine] at hnode
    rw [← not_or]
    exact fun hnull ↦ hheard _ (.inr ⟨hnode, old, hfreed'.1, hslot, rfl⟩)
      (.inr ⟨old, hfreed', rfl, State.exists_broken_freed_iff.1 hbroken', hnull⟩)
  obtain ⟨t, hfree⟩ := hu.exists_hookFree_of_live hmode hn' hsmall' hallocator hevicted env
  rw [hrecord] at hfree
  exact ⟨p, t, by rw [hcall, hfree, Option.map_some]⟩

/-- A call that is passed on. -/
theorem tends_of_disabled (h : s.Inv g) (hmode : s.doNotHook ≠ 0) (hc : c.isAligned = false)
    (hok : c.PassedOk env s) (hexec : c.exec env s = some (p, t)) : s.Tends t := by
  have hmalloc : ∀ {size}, Hook.malloc env size s = some (p, t) → s.Tends t := by
    intro size heq
    simp only [Hook.malloc, hmode, ne_eq, not_false_eq_true, if_true] at heq
    obtain rfl : (s.origMalloc env size).2 = t := congrArg Prod.snd (Option.some.inj heq)
    exact ⟨_, rfl, h.tended_origMalloc env size⟩
  have hfree : ∀ {ptr}, ¬s.tracks ptr → Hook.free env ptr s = some t → s.Tends t := by
    intro ptr hptr heq
    rw [Hook.free] at heq
    split_ifs at heq
    · obtain rfl := Option.some.inj heq
      exact State.Tends.refl s
    · obtain rfl : s.origFree ptr = t := Option.some.inj heq
      exact ⟨_, rfl, State.tended_origFree (h.buf_ne_of_not_tracks hptr)⟩
  cases c with
  | malloc size => exact hmalloc hexec
  | free ptr =>
    obtain ⟨u, hfree', heq⟩ := Option.map_eq_some_iff.1 hexec
    obtain rfl : u = t := congrArg Prod.snd heq
    exact hfree hok hfree'
  | realloc ptr size =>
    rw [Call.PassedOk] at hok
    rw [Call.exec, Hook.realloc] at hexec
    split_ifs at hok hexec with hptr hsize
    · refine @hmalloc size ?_
      simpa using hexec
    · obtain ⟨u, hfree', heq⟩ := Option.bind_eq_some_iff.1 hexec
      obtain rfl : u = t := congrArg Prod.snd (Option.some.inj heq)
      exact hfree hok.1 hfree'
    · obtain rfl : (s.origRealloc env ptr size).2 = t := congrArg Prod.snd (Option.some.inj hexec)
      exact ⟨_, rfl, h.tended_origRealloc (h.buf_ne_of_not_tracks hok.1) hok.2⟩
  | calloc nmems size =>
    rw [Call.exec, Hook.calloc] at hexec
    split_ifs at hexec
    · obtain rfl : s = t := congrArg Prod.snd (Option.some.inj hexec)
      exact State.Tends.refl s
    · obtain rfl : (s.origCalloc env nmems size).2 = t := congrArg Prod.snd (Option.some.inj hexec)
      exact ⟨_, rfl, h.tended_origCalloc hok⟩
  | posixMemalign _ _ | alignedAlloc _ _ | memalign _ _ | valloc _ | pvalloc _ =>
    exact absurd hc (by simp [Call.isAligned])

end Call

end Memchk
