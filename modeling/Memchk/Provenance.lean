import Memchk.HookedRun

/-!
# Pointers that go back behind the hooks

A program that gets its memory partly with hooks enabled and partly between `mc_disable_hook` and
`mc_enable_hook`, and gives each pointer back in the mode in which it got it. The functions behind
the hooks should only ever be handed pointers that they returned and that are still outstanding
(`State.Provenance`). They are (`provenance`), unless the program gives back what one of the aligned
allocators returned while hooks were disabled: these do not look at the mode, and their pointer is
not the one that `mc_orig_malloc` returned (`not_provenance`). Nor may `free` come to a live block
for which there is no node in the quarantine, as it then hands over whatever the stack held.

## Loans

A `Loan` is a pointer the program has got and not yet given back, with the mode it got it in. A
`Turn` is a call together with the loan it gives back, or a change of the mode; `Turn.Ok` is what
the program promises, and `Turn.Regular` excludes the two cases above.

## The invariant

`State.Backed` ties the ledger to the memory: replaying it gives the buffers handed out. What the
program holds with hooks disabled is untracked, that is in no live or freed block, so that giving it
back takes no buffer away from a block. `Honest` is both together with the invariant of the checker.

## The steps

An effect keeps the account (`Inv.kept`), and a call that is passed on keeps it too
(`Inv.passedOn`). `Honest.served` and `Honest.passed` are the two kinds of turns, `Honest.toggled`
the change of the mode, and `Honest.turn` puts them together for the induction over the run.
-/

namespace Memchk

/-- Whatever was handed to `mc_orig_free` or `mc_orig_realloc` had been returned by one of the
functions behind the hooks, and was outstanding at that moment. -/
def State.Provenance (s : State) : Prop :=
  ∀ ts ptr ts', s.ledger = ts ++ .gave ptr :: ts' →
    ∃ held, Transfer.holdings ts = some held ∧ ptr ∈ held

/-- A pointer that the program got and has not given back. -/
structure Loan where
  ptr : ℕ
  /-- Whether hooks were enabled. -/
  hooked : Bool
  /-- Whether one of the aligned allocators returned it. -/
  aligned : Bool
deriving DecidableEq

/-- The pointer is one that a function behind the hooks returned. -/
def Loan.passed (l : Loan) : Bool :=
  !l.hooked && !l.aligned

/-- The pointer that a call gives back if it succeeds. -/
def Call.releases : Call → Option ℕ
  | .free ptr | .realloc ptr _ => if ptr = 0 then none else some ptr
  | _ => none

/-- Whether the pointer is given back by a call that returns `p`: only a `realloc` can fail. -/
def Call.gaveUp (p : ℕ) : Call → Bool
  | .realloc _ size => size = 0 ∨ p ≠ 0
  | _ => true

/-- The functions behind the hooks keep their promise to a call that is passed on. -/
def Call.PassedAnswered (env : Env) (s : State) : Call → Prop
  | .malloc size => Heap.AnswerOk env.answer size s.heap
  | .realloc ptr size =>
    Heap.AnswerOk env.answer size (if ptr = 0 then s.heap else s.heap.origFree ptr)
  | .calloc nmems size => Heap.AnswerOk env.answer (nmems * size) s.heap
  | .free _ | .posixMemalign .. | .alignedAlloc .. | .memalign .. | .valloc _ | .pvalloc _ => True

/-- The functions behind the hooks keep their promise. -/
def Call.Answered (env : Env) (s : State) (c : Call) : Prop :=
  if c.isAligned ∨ s.doNotHook = 0 then
    ∀ r, c.request s = some r → Heap.AnswerOk env.answer r.bufsize s.heap
  else c.PassedAnswered env s

/-- What a program does next: a call, with what it gives back, or a change of mode. -/
inductive Turn
  | call (env : Env) (c : Call) (loan : Option Loan)
  | disableHook
  | enableHook

namespace Turn

/-- The program gives back what it got in the same mode and still has. -/
def Ok (x : State × List Loan) : Turn → Prop
  | .call env c loan => c.InRange ∧ c.Answered env x.1 ∧ loan.map Loan.ptr = c.releases ∧
    ∀ l ∈ loan, l ∈ x.2 ∧ l.hooked = decide (x.1.doNotHook = 0)
  | .disableHook | .enableHook => True

/-- The state after a turn, and what the program has then. -/
def exec (x : State × List Loan) : Turn → Option (State × List Loan)
  | .call env c loan => (c.exec env x.1).map fun r ↦
    (r.2, (if r.1 = 0 then [] else [⟨r.1, decide (x.1.doNotHook = 0), c.isAligned⟩]) ++
      if c.gaveUp r.1 then loan.elim x.2 x.2.erase else x.2)
  | .disableHook => x.1.mcDisableHook.map fun s ↦ (s, x.2)
  | .enableHook => some (x.1.mcEnableHook, x.2)

/-- With hooks disabled, nothing that an aligned allocator returned is given back. With hooks
enabled, there is a node in the quarantine for a live block that is given back, unless the stack
happens to hold a null pointer. -/
def Regular (x : State × List Loan) : Turn → Prop
  | .call env _ loan => ∀ l ∈ loan,
    if l.hooked then x.1.blocks.find .live l.ptr = some 0 ∨ x.1.HasFreeNode ∨ env.garbage = 0
    else l.aligned = false
  | .disableHook | .enableHook => True

end Turn

/-! ### The ledger and the memory -/

/-- No two buffers have the same address. -/
theorem Heap.Ok.nodup {h : Heap} (hok : h.Ok) : (h.outstanding.map Prod.fst).Nodup := by
  refine List.pairwise_map.2 (hok.apart.imp fun hapart heq ↦ ?_)
  simp only [Heap.Apart] at hapart
  omega

namespace State

/-- What is held by the ledger are the buffers handed out. -/
def Backed (s : State) : Prop :=
  ∃ held, Transfer.holdings s.ledger = some held ∧ held.Perm (s.heap.outstanding.map Prod.fst)

/-- A buffer handed out that no block has. -/
structure Untracked (ptr : ℕ) (s : State) (g : Contents) : Prop where
  mem : ptr ∈ s.heap.outstanding.map Prod.fst
  notMem : ptr ∉ s.liveBufs g ++ s.freedBufs g

variable {s s' t : State} {g g' : Contents} {env : Env} {ptr q size : ℕ}

/-- A ledger that gives the buffers handed out hands nothing over that is not outstanding. -/
theorem Backed.replays (h : s.Backed) : s.Provenance := by
  obtain ⟨held, hheld, -⟩ := h
  intro ts ptr ts' heq
  have hsome : (Transfer.holdings (ts ++ .gave ptr :: ts')).isSome := by
    rw [← heq, hheld]
    rfl
  exact Transfer.mem_of_holdings_append hsome

/-- The account depends on the ledger and the buffers handed out only. -/
theorem Backed.congr (h : s.Backed) (hledger : t.ledger = s.ledger)
    (hout : t.heap.outstanding = s.heap.outstanding) : t.Backed := by
  rw [Backed, hledger, hout]
  exact h

/-- A buffer taken is handed out. -/
theorem Backed.took (h : s.Backed) (hledger : t.ledger = s.ledger ++ [.took ptr])
    (hout : t.heap.outstanding = (ptr, size) :: s.heap.outstanding) : t.Backed := by
  obtain ⟨held, hheld, hperm⟩ := h
  refine ⟨ptr :: held, ?_, ?_⟩
  · rw [hledger]
    exact Transfer.holdings_took hheld
  · rw [hout, List.map_cons]
    exact hperm.cons _

/-- A buffer given back is no longer handed out. -/
theorem Backed.gave (h : s.Backed) (hok : s.heap.Ok) (hptr : ptr ∈ s.heap.outstanding.map Prod.fst)
    (hledger : t.ledger = s.ledger ++ [.gave ptr])
    (hout : t.heap.outstanding = (s.heap.origFree ptr).outstanding) : t.Backed := by
  obtain ⟨held, hheld, hperm⟩ := h
  refine ⟨held.erase ptr, ?_, ?_⟩
  · rw [hledger]
    exact Transfer.holdings_gave hheld (hperm.symm.subset hptr)
  · have hfilter : (s.heap.origFree ptr).outstanding.map Prod.fst =
        (s.heap.outstanding.map Prod.fst).erase ptr := by
      rw [hok.nodup.erase_eq_filter, List.filter_map]
      refine congrArg _ (List.filter_congr fun b _ ↦ ?_)
      by_cases hb : b.1 = ptr <;> simp [hb]
    rw [hout, hfilter]
    exact hperm.erase ptr

/-- What every effect keeps: the ledger fits the memory, and the buffers that no block has stay as
they are. -/
structure Kept (s : State) (g : Contents) (s' : State) (g' : Contents) : Prop where
  backed : s.Backed → s'.Backed
  untracked : ∀ q, s.Untracked q g → s'.Untracked q g'

theorem Kept.refl (s : State) (g : Contents) : Kept s g s g :=
  ⟨id, fun _ ↦ id⟩

theorem Kept.trans {g₁ : Contents} (h : Kept s g t g₁) (h' : Kept t g₁ s' g') : Kept s g s' g' :=
  ⟨h'.backed ∘ h.backed, fun q ↦ h'.untracked q ∘ h.untracked q⟩

/-- Nothing is taken or given back, and no block gets a buffer. -/
theorem Kept.of_subset (hledger : s'.ledger = s.ledger)
    (hout : s'.heap.outstanding = s.heap.outstanding)
    (hbufs : s'.liveBufs g' ++ s'.freedBufs g' ⊆ s.liveBufs g ++ s.freedBufs g) : Kept s g s' g' :=
  ⟨fun h ↦ h.congr hledger hout, fun _ h ↦ ⟨hout ▸ h.mem, fun hmem ↦ h.notMem (hbufs hmem)⟩⟩

/-- A buffer is taken, and at most this one belongs to a new block. -/
theorem Kept.of_took (hne : env.answer.addr ≠ 0) (ha : Heap.AnswerOk env.answer size s.heap)
    (hledger : s'.ledger = s.ledger ++ [.took env.answer.addr])
    (hout : s'.heap.outstanding = (env.answer.addr, size) :: s.heap.outstanding)
    (hbufs : s'.liveBufs g' ++ s'.freedBufs g' ⊆
      env.answer.addr :: (s.liveBufs g ++ s.freedBufs g)) : Kept s g s' g' := by
  refine ⟨fun h ↦ h.took hledger hout, fun q h ↦ ⟨?_, fun hmem ↦ ?_⟩⟩
  · rw [hout]
    exact List.mem_cons_of_mem _ h.mem
  · rcases List.mem_cons.1 (hbufs hmem) with rfl | hmem
    · obtain ⟨b, hb, heq⟩ := List.mem_map.1 h.mem
      have hapart := (ha.resolve_left hne).2 b hb
      simp only [Heap.Apart] at hapart
      omega
    · exact h.notMem hmem

/-- The buffer of a block is given back, and no block gets one. -/
theorem Kept.of_gave (hok : s.heap.Ok) (hptr : ptr ∈ s.heap.outstanding.map Prod.fst)
    (htracked : ptr ∈ s.liveBufs g ++ s.freedBufs g)
    (hledger : s'.ledger = s.ledger ++ [.gave ptr])
    (hout : s'.heap.outstanding = (s.heap.origFree ptr).outstanding)
    (hbufs : s'.liveBufs g' ++ s'.freedBufs g' ⊆ s.liveBufs g ++ s.freedBufs g) : Kept
    s g s' g' := by
  refine ⟨fun h ↦ h.gave hok hptr hledger hout, fun q h ↦ ⟨?_, fun hmem ↦ h.notMem (hbufs hmem)⟩⟩
  obtain ⟨b, hb, rfl⟩ := List.mem_map.1 h.mem
  rw [hout]
  refine List.mem_map.2 ⟨b, Heap.mem_outstanding_origFree.2 ⟨hb, fun heq ↦ ?_⟩, rfl⟩
  exact h.notMem (heq ▸ htracked)

/-- The blocks in use after a block has gone to the quarantine. -/
theorem bufs_of_unregistered {usrptr n new c : ℕ} {evicted : Option ℕ} {log evictLog : List Event}
    (hn : n ∈ g.nodes .live)
    (hun : Unregistered env usrptr s g n new c evicted log evictLog t g') :
    t.liveBufs g' ++ t.freedBufs g' ⊆ s.liveBufs g ++ s.freedBufs g := by
  intro b hb
  rcases List.mem_append.1 hb with hb | hb
  · obtain ⟨m, hm, rfl⟩ := List.mem_map.1 hb
    rw [hun.nodes, Function.update_self] at hm
    rw [hun.record]
    exact List.mem_append_left _ (List.mem_map.2 ⟨m, List.mem_of_mem_erase hm, rfl⟩)
  · obtain ⟨m, hm, rfl⟩ := List.mem_map.1 hb
    have hmem : m ∈ g.freed ++ [new] := hun.freed ▸ List.mem_append_right _ hm
    rcases List.mem_append.1 hmem with hmem | hmem
    · rw [hun.freedRecord m (ne_of_mem_of_not_mem hmem hun.notMem)]
      exact List.mem_append_right _ (List.mem_map.2 ⟨m, hmem, rfl⟩)
    · rw [List.mem_singleton.1 hmem, hun.newRecord]
      exact List.mem_append_left _ (List.mem_map.2 ⟨n, hn, rfl⟩)

/-- What an effect does to the ledger and to the memory, where the stack holds a null pointer. -/
theorem Inv.kept (h : s.Inv g) (hgarbage : env.garbage = 0) (he : Effect env s g s' g') :
    Kept s g s' g' := by
  cases he with
  | @logged es hes =>
    refine .of_subset ?_ rfl (List.Subset.refl _)
    have htrace : (s.emit es).trace = s.trace ++ es := rfl
    rw [ledger_eq htrace, transfers_of_isRemark hes, List.append_nil]
  | refused size hnull =>
    refine .of_subset ?_ ?_ (List.Subset.refl _)
    · rw [ledger_origMalloc, if_pos hnull, List.append_nil]
    · show (s.heap.origMalloc env.answer size).outstanding = _
      rw [Heap.origMalloc, if_pos hnull]
  | unrecorded r hne ha hun =>
    refine .of_took hne ha ?_ ?_ ?_
    · rw [hun.ledger, ledger_origMalloc, if_neg hne]
    · rw [hun.heap]
      exact Heap.outstanding_origMalloc hne
    · simp only [liveBufs, freedBufs, hun.record, hun.quarantine]
      exact List.subset_cons_self _ _
  | recorded r hne ha hrec =>
    refine .of_took hne ha ?_ ?_ ?_
    · rw [hrec.ledger, ledger_origMalloc, if_neg hne]
    · rw [hrec.heap]
      exact Heap.outstanding_origMalloc hne
    · rw [hrec.bufs.1, hrec.bufs.2]
      exact List.Subset.refl _
  | wrote hn hmem => exact .of_subset rfl rfl (List.Subset.refl _)
  | overwrote mem hfailed => exact .of_subset rfl rfl (List.Subset.refl _)
  | @dropped t n usrptr rc log hn hkey hcheck hnot hdrop =>
    rw [hgarbage, State.giveBack, if_neg (not_not_intro rfl)]
    refine .of_subset (hdrop.ledger (isDamage_mcCheckAllocatedBuffer hcheck))
      (by rw [hdrop.heap]) ?_
    simp only [liveBufs, freedBufs, hdrop.record, hdrop.freedRecord, Function.update_self]
    have hlive := List.map_subset (fun m ↦ (s.blocks.record m).memblk.buf)
      (List.erase_subset (a := n) (l := g.nodes .live))
    exact List.append_subset.2 ⟨List.Subset.trans hlive (List.subset_append_left _ _),
      List.subset_append_right _ _⟩
  | @released t _ n usrptr new c rc log evicted evictLog hn hkey hcheck hun =>
    have hledger := hun.ledger (isDamage_mcCheckAllocatedBuffer hcheck)
    have hbufs := bufs_of_unregistered hn hun
    cases evicted with
    | none =>
      rw [show s.evictedBuf none = 0 from rfl, State.giveBack, if_neg (not_not_intro rfl)]
      exact .of_subset hledger (by rw [hun.heap]) hbufs
    | some old =>
      have hold : old ∈ g.freed := h.evicted_mem hun rfl
      -- the buffer evicted is one that is handed out
      have hguarded := h.guardedFreed old hold
      have hne : s.evictedBuf (some old) ≠ 0 := h.heap.ne_null _ hguarded.mem
      have hmem : s.evictedBuf (some old) ∈ s.heap.outstanding.map Prod.fst :=
        List.mem_map.2 ⟨_, hguarded.mem, rfl⟩
      refine .of_gave h.heap hmem (List.mem_append_right _ (List.mem_map.2 ⟨old, hold, rfl⟩)) ?_ ?_
        ?_
      · rw [ledger_giveBack hne, hledger]
      · rw [State.giveBack, if_pos hne]
        show (t.heap.origFree _).outstanding = _
        rw [hun.heap]
        rfl
      · have hgive : ∀ buf, (t.giveBack buf).liveBufs g' ++ (t.giveBack buf).freedBufs g' =
            t.liveBufs g' ++ t.freedBufs g' := by
          intro buf
          simp only [liveBufs, freedBufs, blocks_giveBack, quarantine_giveBack]
        rw [hgive]
        exact hbufs

/-- Sequences of effects keep the account. -/
theorem Inv.kept_of_effects {x y : State × Contents} (h : x.1.Inv x.2) (he : Effects env x y)
    (hgarbage : env.garbage = 0) : Kept x.1 x.2 y.1 y.2 := by
  induction he with
  | refl => exact .refl _ _
  | tail hfront hlast ih => exact ih.trans ((h.effects hfront).kept hgarbage hlast)

/-! ### Calls with hooks disabled -/

/-- What a call that is passed on does to the buffers that no block has: one may be given back, and
one may be new. -/
structure PassedOn (s : State) (g : Contents) (given : Option ℕ) (p : ℕ) (s' : State) : Prop where
  backed : s'.Backed
  untracked : ∀ q, s.Untracked q g → given ≠ some q → s'.Untracked q g ∧ q ≠ p
  fresh : p ≠ 0 → s'.Untracked p g

theorem Inv.untracked_ne_zero (h : s.Inv g) (hq : s.Untracked q g) : q ≠ 0 := by
  obtain ⟨b, hb, rfl⟩ := List.mem_map.1 hq.mem
  exact h.heap.ne_null b hb

/-- A call that reaches no function behind the hooks. -/
theorem Inv.passedOn_quiet (h : s.Inv g) (hb : s.Backed) (hledger : s'.ledger = s.ledger)
    (hout : s'.heap.outstanding = s.heap.outstanding) (hblocks : s'.blocks = s.blocks)
    (hquarantine : s'.quarantine = s.quarantine) (given : Option ℕ) : PassedOn s g given 0 s' := by
  have hkept : Kept s g s' g := by
    refine .of_subset hledger hout ?_
    simp only [liveBufs, freedBufs, hblocks, hquarantine]
    exact List.Subset.refl _
  exact ⟨hkept.backed hb, fun q hq _ ↦ ⟨hkept.untracked q hq, h.untracked_ne_zero hq⟩,
    fun hne ↦ absurd rfl hne⟩

/-- A call that takes a buffer. -/
theorem Inv.passedOn_took (h : s.Inv g) (hb : s.Backed) (hne : env.answer.addr ≠ 0)
    (ha : Heap.AnswerOk env.answer size s.heap)
    (hledger : s'.ledger = s.ledger ++ [.took env.answer.addr])
    (hout : s'.heap.outstanding = (env.answer.addr, size) :: s.heap.outstanding)
    (hblocks : s'.blocks = s.blocks) (hquarantine : s'.quarantine = s.quarantine) :
    PassedOn s g none env.answer.addr s' := by
  have hbufs : s'.liveBufs g ++ s'.freedBufs g = s.liveBufs g ++ s.freedBufs g := by
    simp only [liveBufs, freedBufs, hblocks, hquarantine]
  have hkept : Kept s g s' g := by
    refine .of_took hne ha hledger hout ?_
    rw [hbufs]
    exact List.subset_cons_self _ _
  refine ⟨hkept.backed hb, fun q hq _ ↦ ⟨hkept.untracked q hq, ?_⟩, fun _ ↦ ⟨?_, ?_⟩⟩
  · rintro rfl
    obtain ⟨b, hb, heq⟩ := List.mem_map.1 hq.mem
    have hapart := (ha.resolve_left hne).2 b hb
    simp only [Heap.Apart] at hapart
    omega
  · rw [hout]
    exact List.mem_cons_self
  · rw [hbufs]
    exact h.answer_notMem ha hne

/-- A call that gives a buffer back. -/
theorem Inv.passedOn_gave (h : s.Inv g) (hb : s.Backed) (hptr : s.Untracked ptr g) :
    PassedOn s g (some ptr) 0 (s.origFree ptr) := by
  refine ⟨hb.gave h.heap hptr.mem (ledger_origFree ptr) rfl, fun q hq hne ↦ ⟨⟨?_, hq.notMem⟩,
    h.untracked_ne_zero hq⟩, fun hne ↦ absurd rfl hne⟩
  obtain ⟨b, hb, rfl⟩ := List.mem_map.1 hq.mem
  exact List.mem_map.2 ⟨b, Heap.mem_outstanding_origFree.2
    ⟨hb, fun heq ↦ hne (congrArg some heq.symm)⟩, rfl⟩

/-- `mc_orig_realloc` gives the old buffer back and takes a new one, or does nothing. -/
theorem Inv.passedOn_realloc (h : s.Inv g) (hb : s.Backed) (hptr : s.Untracked ptr g)
    (ha : Heap.AnswerOk env.answer size (s.heap.origFree ptr)) :
    PassedOn s g (if env.answer.addr = 0 then none else some ptr) env.answer.addr
      (s.origRealloc env ptr size).2 := by
  have htrace : (s.origRealloc env ptr size).2.trace =
      s.trace ++ [.origRealloc ptr size env.answer.addr] := rfl
  have hledger : (s.origRealloc env ptr size).2.ledger = s.ledger ++ [.gave ptr,
      .took (if env.answer.addr = 0 then ptr else env.answer.addr)] := by
    rw [ledger_eq htrace]
    rfl
  have hfirst := h.passedOn_gave hb hptr
  have hinv : (s.origFree ptr).Inv g := h.origFree hptr.notMem
  by_cases hnull : env.answer.addr = 0
  · rw [if_pos hnull] at hledger
    have hheap : (s.origRealloc env ptr size).2.heap = s.heap := by
      show s.heap.origRealloc env.answer ptr size = s.heap
      rw [Heap.origRealloc, if_pos hnull]
    have hbacked : (s.origRealloc env ptr size).2.Backed := by
      obtain ⟨held, hheld, hperm⟩ := hb
      have hmem : ptr ∈ held := hperm.symm.subset hptr.mem
      refine ⟨ptr :: held.erase ptr, ?_, ?_⟩
      · rw [hledger, ← List.singleton_append, ← List.append_assoc]
        exact Transfer.holdings_took (Transfer.holdings_gave hheld hmem)
      · rw [hheap]
        exact (List.perm_cons_erase hmem).symm.trans hperm
    rw [if_pos hnull, hnull]
    refine ⟨hbacked, fun q hq _ ↦ ⟨⟨?_, hq.notMem⟩, h.untracked_ne_zero hq⟩,
      fun hne ↦ absurd rfl hne⟩
    rw [hheap]
    exact hq.mem
  · rw [if_neg hnull] at hledger ⊢
    have hrest : PassedOn (s.origFree ptr) g none env.answer.addr
        (s.origRealloc env ptr size).2 := by
      refine hinv.passedOn_took hfirst.backed hnull ha ?_ ?_ rfl rfl
      · rw [hledger, ledger_origFree, List.append_assoc]
        rfl
      · show (s.heap.origRealloc env.answer ptr size).outstanding = _
        rw [Heap.origRealloc, if_neg hnull]
        rfl
    exact ⟨hrest.backed, fun q hq hne ↦
      hrest.untracked q (hfirst.untracked q hq hne).1 (by simp), hrest.fresh⟩

/-- A call with hooks disabled of a function that looks at the mode. -/
theorem Inv.passedOn (h : s.Inv g) (hb : s.Backed) (hmode : s.doNotHook ≠ 0) {c : Call} {p : ℕ}
    (hc : c.isAligned = false) (ha : c.Answered env s)
    (hptr : ∀ ptr, c.releases = some ptr → s.Untracked ptr g)
    (hexec : c.exec env s = some (p, s')) :
    PassedOn s g (if c.gaveUp p then c.releases else none) p s' := by
  have hor : ¬(c.isAligned = true ∨ s.doNotHook = 0) := by simp [hc, hmode]
  rw [Call.Answered, if_neg hor] at ha
  -- `malloc` and `free` are also what two of the other calls come to
  have hmalloc : ∀ {size}, Heap.AnswerOk env.answer size s.heap →
      Hook.malloc env size s = some (p, s') → PassedOn s g none p s' := by
    intro size ha heq
    simp only [Hook.malloc, hmode, ne_eq, not_false_eq_true, if_true, Option.pure_def,
      Option.some.injEq] at heq
    obtain ⟨rfl, rfl⟩ : env.answer.addr = p ∧ (s.origMalloc env size).2 = s' :=
      ⟨congrArg Prod.fst heq, congrArg Prod.snd heq⟩
    by_cases hnull : env.answer.addr = 0
    · have hout : (s.origMalloc env size).2.heap.outstanding = s.heap.outstanding := by
        show (s.heap.origMalloc env.answer size).outstanding = _
        rw [Heap.origMalloc, if_pos hnull]
      have hledger : (s.origMalloc env size).2.ledger = s.ledger := by
        rw [ledger_origMalloc, if_pos hnull, List.append_nil]
      rw [hnull]
      exact h.passedOn_quiet hb hledger hout rfl rfl none
    · refine h.passedOn_took hb hnull ha ?_ (Heap.outstanding_origMalloc hnull) rfl rfl
      rw [ledger_origMalloc, if_neg hnull]
  have hfree : ∀ {ptr}, (ptr ≠ 0 → s.Untracked ptr g) → Hook.free env ptr s = some s' →
      PassedOn s g (if ptr = 0 then none else some ptr) 0 s' := by
    intro ptr hptr heq
    rw [Hook.free] at heq
    split_ifs at heq ⊢ with hzero
    · obtain rfl := Option.some.inj heq
      exact h.passedOn_quiet hb rfl rfl rfl rfl _
    · obtain rfl : s.origFree ptr = s' := Option.some.inj heq
      exact h.passedOn_gave hb (hptr hzero)
  cases c with
  | malloc size => exact hmalloc ha hexec
  | free ptr =>
    obtain ⟨t, heq, ht⟩ := Option.map_eq_some_iff.1 hexec
    simp only [Prod.mk.injEq] at ht
    obtain ⟨rfl, rfl⟩ := ht
    exact hfree (fun hne ↦ hptr ptr (if_neg hne)) heq
  | realloc ptr size =>
    have hreleases : (Call.realloc ptr size).releases = if ptr = 0 then none else some ptr := rfl
    have hgaveUp : (Call.realloc ptr size).gaveUp p = decide (size = 0 ∨ p ≠ 0) := rfl
    rw [hreleases] at hptr
    rw [hreleases, hgaveUp]
    rw [Call.exec, Hook.realloc] at hexec
    rw [Call.PassedAnswered] at ha
    split_ifs at hexec with hzero hsize
    · -- a null pointer: a `malloc`
      rw [if_pos hzero, ite_self]
      rw [if_pos hzero] at ha
      exact hmalloc ha (by simpa using hexec)
    · -- no bytes: a `free`
      obtain ⟨t, heq, ht⟩ := Option.bind_eq_some_iff.1 hexec
      simp only [Option.pure_def, Option.some.injEq, Prod.mk.injEq] at ht
      obtain ⟨rfl, rfl⟩ := ht
      have := hfree (fun hne ↦ hptr ptr (if_neg hne)) heq
      simpa [hsize] using this
    · obtain ⟨rfl, rfl⟩ : env.answer.addr = p ∧ (s.origRealloc env ptr size).2 = s' :=
        ⟨congrArg Prod.fst (Option.some.inj hexec), congrArg Prod.snd (Option.some.inj hexec)⟩
      rw [if_neg hzero] at ha
      have := h.passedOn_realloc hb (hptr ptr (if_neg hzero)) ha
      simpa [hsize, hzero] using this
  | calloc nmems size =>
    rw [Call.exec, Hook.calloc] at hexec
    split_ifs at hexec
    · obtain ⟨rfl, rfl⟩ : 0 = p ∧ s = s' :=
        ⟨congrArg Prod.fst (Option.some.inj hexec), congrArg Prod.snd (Option.some.inj hexec)⟩
      exact h.passedOn_quiet hb rfl rfl rfl rfl _
    · obtain ⟨rfl, rfl⟩ : env.answer.addr = p ∧ (s.origCalloc env nmems size).2 = s' :=
        ⟨congrArg Prod.fst (Option.some.inj hexec), congrArg Prod.snd (Option.some.inj hexec)⟩
      have htrace : (s.origCalloc env nmems size).2.trace =
          s.trace ++ [.origCalloc nmems size env.answer.addr] := rfl
      have hledger : (s.origCalloc env nmems size).2.ledger =
          s.ledger ++ if env.answer.addr = 0 then [] else [.took env.answer.addr] := by
        rw [ledger_eq htrace, List.flatMap_singleton, Event.transfers]
      by_cases hnull : env.answer.addr = 0
      · rw [if_pos hnull, List.append_nil] at hledger
        have hout : (s.origCalloc env nmems size).2.heap.outstanding = s.heap.outstanding := by
          show (s.heap.origCalloc env.answer nmems size).outstanding = _
          rw [Heap.origCalloc, if_pos hnull]
        rw [hnull]
        exact h.passedOn_quiet hb hledger hout rfl rfl none
      · rw [if_neg hnull] at hledger
        refine h.passedOn_took hb hnull ha hledger ?_ rfl rfl
        show (s.heap.origCalloc env.answer nmems size).outstanding = _
        rw [Heap.origCalloc, if_neg hnull]
  | posixMemalign _ _ | alignedAlloc _ _ | memalign _ _ | valloc _ | pvalloc _ =>
    exact absurd hc (by simp [Call.isAligned])

/-- The program may make the call. -/
theorem Inv.passedOk (h : s.Inv g) (hmode : s.doNotHook ≠ 0) {c : Call}
    (hc : c.isAligned = false) (ha : c.Answered env s)
    (hptr : ∀ ptr, c.releases = some ptr → s.Untracked ptr g) : c.PassedOk env s := by
  have hor : ¬(c.isAligned = true ∨ s.doNotHook = 0) := by simp [hc, hmode]
  rw [Call.Answered, if_neg hor] at ha
  have hnot : ∀ {ptr}, s.Untracked ptr g → ¬s.tracks ptr := fun hptr htracks ↦
    hptr.notMem (h.tracks_iff.1 htracks)
  cases c with
  | malloc size => exact ha
  | calloc nmems size => exact ha
  | free ptr =>
    show ¬s.tracks ptr
    by_cases hzero : ptr = 0
    · rw [hzero]
      exact h.not_tracks_zero
    · exact hnot (hptr ptr (if_neg hzero))
  | realloc ptr size =>
    rw [Call.PassedAnswered] at ha
    rw [Call.PassedOk]
    split_ifs at ha ⊢ with hzero
    · exact ha
    · exact ⟨hnot (hptr ptr (if_neg hzero)), ha⟩
  | posixMemalign _ _ | alignedAlloc _ _ | memalign _ _ | valloc _ | pvalloc _ => exact trivial

/-- A call that is not passed on does not read what the stack holds, unless there is no node in the
quarantine for a live block that it gives back. -/
theorem Inv.exec_quiet (h : s.Inv g) {c : Call} {p : ℕ} (hmode : c.isAligned ∨ s.doNotHook = 0)
    (hreg : ∀ ptr, c.releases = some ptr →
      s.blocks.find .live ptr = some 0 ∨ s.HasFreeNode ∨ env.garbage = 0)
    (hexec : c.exec env s = some (p, s')) : c.exec env.quiet s = some (p, s') := by
  have hnot : ∀ {ptr}, s.blocks.find .live ptr = some 0 →
      ∀ n ∈ g.nodes .live, (s.blocks.record n).usrptr ≠ ptr := by
    rintro ptr hfind n hn rfl
    rw [h.find_live hn, Option.some_inj] at hfind
    exact h.blocks.ne_null hn hfind
  have hfree : ∀ {ptr t}, s.blocks.find .live ptr = some 0 → Hook.free env ptr s = some t →
      Hook.free env.quiet ptr s = some t := by
    intro ptr t hfind heq
    rw [Hook.free] at heq ⊢
    split_ifs at heq ⊢
    · exact heq
    · exact heq
    -- the same report in both cases
    have hreport : ∀ env : Env, mcUnregisterMemblk env ptr env.garbage s =
        (Memchk.handleIllegallyFreedBuffer env ptr s).map fun t ↦ (-1, 0, t) := by
      intro env
      rcases h.unregister env ptr env.garbage with ⟨-, hrun⟩ | ⟨n, hn, hkey, -⟩
      · exact hrun
      · exact absurd hkey (hnot hfind n hn)
    rw [hreport] at heq ⊢
    exact heq
  by_cases hzero : env.garbage = 0
  · have heq : env.quiet = env := by
      rw [Env.quiet, ← hzero]
    rwa [heq]
  cases c with
  | free ptr =>
    obtain ⟨t, heq, ht⟩ := Option.map_eq_some_iff.1 hexec
    by_cases hptr : ptr = 0
    · rw [Hook.free, if_pos hptr] at heq
      refine Option.map_eq_some_iff.2 ⟨t, ?_, ht⟩
      rw [Hook.free, if_pos hptr, heq]
    rcases hreg ptr (if_neg hptr) with hfind | hnode | hgarbage
    · exact Option.map_eq_some_iff.2 ⟨t, hfree hfind heq, ht⟩
    · exact Call.exec_quiet hexec (.inl hnode)
    · exact absurd hgarbage hzero
  | realloc ptr size =>
    by_cases hptr : ptr = 0
    · rw [Call.exec, Hook.realloc, if_pos hptr] at hexec ⊢
      exact hexec
    rcases hreg ptr (if_neg hptr) with hfind | hnode | hgarbage
    · have h0 : s.doNotHook = 0 := hmode.resolve_left Bool.false_ne_true
      rw [Call.exec, Hook.realloc, if_neg hptr] at hexec ⊢
      split_ifs at hexec ⊢ with hsize hmode'
      · obtain ⟨t, heq, ht⟩ := Option.bind_eq_some_iff.1 hexec
        exact Option.bind_eq_some_iff.2 ⟨t, hfree hfind heq, ht⟩
      · exact absurd h0 hmode'
      · simp only [mcHandleReallocMemblk, hfind, Option.bind_eq_bind, Option.bind_some, if_true,
          Option.pure_def] at hexec ⊢
        exact hexec
    · exact Call.exec_quiet hexec (.inl hnode)
    · exact absurd hgarbage hzero
  | malloc _ | calloc _ _ | posixMemalign _ _ | alignedAlloc _ _ | memalign _ _ | valloc _
  | pvalloc _ => exact hexec

end State

/-! ### Runs -/

/-- The pointers that the program got from functions that pass the call on. -/
def passedPtrs (loans : List Loan) : List ℕ :=
  (loans.filter Loan.passed).map Loan.ptr

/-- What holds between two turns. -/
structure Honest (x : State × List Loan) (g : Contents) : Prop where
  inv : x.1.Inv g
  backed : x.1.Backed
  nodup : (passedPtrs x.2).Nodup
  untracked : ∀ q ∈ passedPtrs x.2, x.1.Untracked q g

section Runs

variable {x y : State × List Loan} {g : Contents} {loans loans' : List Loan} {l : Loan} {q : ℕ}

theorem passedPtrs_sublist (h : loans.Sublist loans') :
    (passedPtrs loans).Sublist (passedPtrs loans') :=
  (h.filter _).map _

theorem perm_passedPtrs_erase (hl : l ∈ loans) (hpassed : l.passed) :
    (passedPtrs loans).Perm (l.ptr :: passedPtrs (loans.erase l)) := by
  have hperm := ((List.perm_cons_erase hl).filter Loan.passed).map Loan.ptr
  rwa [List.filter_cons_of_pos hpassed, List.map_cons] at hperm

/-- What is left of the loans. -/
theorem rest_sublist (loans : List Loan) (loan : Option Loan) (gaveUp : Bool) :
    (if gaveUp then loan.elim loans loans.erase else loans).Sublist loans := by
  cases gaveUp
  · exact List.Sublist.refl _
  · cases loan
    · exact List.Sublist.refl _
    · exact List.erase_sublist

/-- A loan from a function behind the hooks adds its pointer. -/
theorem passedPtrs_cons_of_passed (hpassed : l.passed) :
    passedPtrs (l :: loans) = l.ptr :: passedPtrs loans := by
  rw [passedPtrs, List.filter_cons_of_pos hpassed]
  rfl

/-- A loan from the checker adds none. -/
theorem passedPtrs_cons_of_not_passed (hpassed : l.passed = false) :
    passedPtrs (l :: loans) = passedPtrs loans := by
  rw [passedPtrs, List.filter_cons_of_neg (by rw [hpassed]; exact Bool.false_ne_true)]
  rfl

/-- Enabling and disabling hooks leaves the buffers where they are. -/
theorem Honest.toggled {s : State} (h : Honest (s, loans) g) (mode : ℤ) :
    Honest ({ s with doNotHook := mode }, loans) g where
  inv := h.inv.of_same ⟨rfl, rfl, rfl, rfl, List.prefix_rfl⟩ rfl
  backed := h.backed
  nodup := h.nodup
  untracked q hq := ⟨(h.untracked q hq).mem, (h.untracked q hq).notMem⟩

section Calls

variable {s s' : State} {env : Env} {c : Call} {loan : Option Loan} {p : ℕ}

/-- A call that works on a buffer of its own. -/
theorem Honest.served (h : Honest (s, loans) g) (hok : (Turn.call env c loan).Ok (s, loans))
    (hreg : (Turn.call env c loan).Regular (s, loans)) (hmode : c.isAligned ∨ s.doNotHook = 0)
    (hcall : c.exec env s = some (p, s')) :
    ∃ g', Honest (s', (if p = 0 then [] else [⟨p, decide (s.doNotHook = 0), c.isAligned⟩]) ++
      if c.gaveUp p then loan.elim loans loans.erase else loans) g' := by
  obtain ⟨hinv, hbacked, hnodup, huntracked⟩ := h
  obtain ⟨hc, ha, hloan, hheld⟩ := hok
  simp only at hinv hbacked hnodup huntracked ha hheld
  have hquiet : c.exec env.quiet s = some (p, s') := by
    refine hinv.exec_quiet hmode (fun ptr hptr ↦ ?_) hcall
    rw [← hloan] at hptr
    obtain ⟨l, hl, rfl⟩ := Option.map_eq_some_iff.1 hptr
    have h0 : s.doNotHook = 0 := by
      refine hmode.resolve_left fun haligned ↦ ?_
      cases c <;> first | exact absurd haligned Bool.false_ne_true | (subst hl; cases hloan)
    have hl' := hreg l hl
    rwa [if_pos (by rw [(hheld l hl).2]; exact decide_eq_true h0)] at hl'
  rw [Call.Answered, if_pos hmode] at ha
  have henv : c.EnvOk env.quiet s := ⟨ha, hinv.not_tracks_zero, .inl rfl⟩
  obtain ⟨g', heffects⟩ := Call.effects hinv hmode hc henv hquiet
  have hkept := State.Inv.kept_of_effects (x := (s, g)) hinv heffects rfl
  -- the loan that comes is not of a pointer that was passed on
  have hnew : Loan.passed ⟨p, decide (s.doNotHook = 0), c.isAligned⟩ = false := by
    rcases hmode with haligned | h0
    · simp [Loan.passed, haligned]
    · simp [Loan.passed, h0]
  have hpassed : passedPtrs ((if p = 0 then [] else
      [⟨p, decide (s.doNotHook = 0), c.isAligned⟩]) ++
        if c.gaveUp p then loan.elim loans loans.erase else loans) =
      passedPtrs (if c.gaveUp p then loan.elim loans loans.erase else loans) := by
    by_cases hp : p = 0
    · rw [if_pos hp, List.nil_append]
    · rw [if_neg hp, List.singleton_append, passedPtrs_cons_of_not_passed hnew]
  have hsub := passedPtrs_sublist (rest_sublist loans loan (c.gaveUp p))
  refine ⟨g', State.Inv.effects (x := (s, g)) hinv heffects, hkept.backed hbacked, ?_,
    fun q hq ↦ ?_⟩
  · rw [hpassed]
    exact hnodup.sublist hsub
  · rw [hpassed] at hq
    exact hkept.untracked q (huntracked q (hsub.subset hq))

/-- What a call that is passed on leaves of the loans of such pointers. -/
theorem Honest.kept_of_passedOn (h : Honest (s, loans) g) (hloan : loan.map Loan.ptr = c.releases)
    (hheld : ∀ l ∈ loan, l ∈ loans ∧ l.passed)
    (hpassed : s.PassedOn g (if c.gaveUp p then c.releases else none) p s') :
    ∀ q ∈ passedPtrs (if c.gaveUp p then loan.elim loans loans.erase else loans),
      s'.Untracked q g ∧ q ≠ p := by
  intro q hq
  have hsub := passedPtrs_sublist (rest_sublist loans loan (c.gaveUp p))
  refine hpassed.untracked q (h.untracked q (hsub.subset hq)) ?_
  split_ifs at hq ⊢
  · rw [← hloan]
    cases loan with
    | none => simp
    | some l =>
      -- what is given back is not among the rest
      intro heq
      obtain rfl := Option.some.inj heq
      have hperm := perm_passedPtrs_erase (hheld l rfl).1 (hheld l rfl).2
      exact (List.nodup_cons.1 (hperm.nodup_iff.1 h.nodup)).1 hq
  · simp

/-- A call that is passed on. -/
theorem Honest.passed (h : Honest (s, loans) g) (hok : (Turn.call env c loan).Ok (s, loans))
    (hreg : (Turn.call env c loan).Regular (s, loans)) (haligned : c.isAligned = false)
    (hmode : s.doNotHook ≠ 0) (hcall : c.exec env s = some (p, s')) :
    Honest (s', (if p = 0 then [] else [⟨p, decide (s.doNotHook = 0), c.isAligned⟩]) ++
      if c.gaveUp p then loan.elim loans loans.erase else loans) g := by
  obtain ⟨hc, ha, hloan, hheld⟩ := hok
  simp only at ha hheld
  have hgiven : ∀ l ∈ loan, l ∈ loans ∧ l.passed := by
    intro l hl
    have hhooked : l.hooked = false := (hheld l hl).2.trans (decide_eq_false hmode)
    have hl' := hreg l hl
    rw [if_neg (by rw [hhooked]; exact Bool.false_ne_true)] at hl'
    refine ⟨(hheld l hl).1, ?_⟩
    rw [Loan.passed, hhooked, hl']
    rfl
  have hptr : ∀ ptr, c.releases = some ptr → s.Untracked ptr g := by
    intro ptr heq
    rw [← hloan] at heq
    obtain ⟨l, hl, rfl⟩ := Option.map_eq_some_iff.1 heq
    exact h.untracked l.ptr ((perm_passedPtrs_erase (hgiven l hl).1 (hgiven l hl).2).symm.subset
      List.mem_cons_self)
  have hpassed := h.inv.passedOn h.backed hmode haligned ha hptr hcall
  have hinv' : s'.Inv g := h.inv.call_of_disabled hmode haligned
    (h.inv.passedOk hmode haligned ha hptr) hcall
  have hkept := h.kept_of_passedOn hloan hgiven hpassed
  have hnodup := h.nodup.sublist (passedPtrs_sublist (rest_sublist loans loan (c.gaveUp p)))
  by_cases hp : p = 0
  · rw [if_pos hp, List.nil_append]
    exact ⟨hinv', hpassed.backed, hnodup, fun q hq ↦ (hkept q hq).1⟩
  · have hnew : Loan.passed ⟨p, decide (s.doNotHook = 0), c.isAligned⟩ := by
      simp [Loan.passed, haligned, hmode]
    rw [if_neg hp, List.singleton_append]
    refine ⟨hinv', hpassed.backed, ?_, fun q hq ↦ ?_⟩
    · rw [passedPtrs_cons_of_passed hnew]
      exact List.nodup_cons.2 ⟨fun hmem ↦ (hkept p hmem).2 rfl, hnodup⟩
    · rw [passedPtrs_cons_of_passed hnew] at hq
      rcases List.mem_cons.1 hq with rfl | hq
      · exact hpassed.fresh hp
      · exact (hkept q hq).1

end Calls

/-- A turn keeps the invariant. -/
theorem Honest.turn (h : Honest x g) {a : Turn} (hok : a.Ok x) (hreg : a.Regular x)
    (hexec : a.exec x = some y) : ∃ g', Honest y g' := by
  obtain ⟨s, loans⟩ := x
  cases a with
  | disableHook =>
    obtain ⟨t, hdisable, rfl⟩ := Option.map_eq_some_iff.1 hexec
    obtain ⟨z, -, heq⟩ := Option.bind_eq_some_iff.1 hdisable
    obtain rfl := Option.some.inj heq
    exact ⟨g, h.toggled z⟩
  | enableHook =>
    obtain rfl := Option.some.inj hexec
    exact ⟨g, h.toggled _⟩
  | call env c loan =>
    obtain ⟨⟨p, s'⟩, hcall, rfl⟩ := Option.map_eq_some_iff.1 hexec
    by_cases hmode : c.isAligned ∨ s.doNotHook = 0
    · exact h.served hok hreg hmode hcall
    · rw [not_or, Bool.not_eq_true] at hmode
      exact ⟨g, h.passed hok hreg hmode.1 hmode.2 hcall⟩

/-- As long as no aligned pointer is given back with hooks disabled, and no live block for which
there is no node in the quarantine, only what is outstanding goes back behind the hooks. -/
theorem provenance {k : Kernel} {mem : ℕ → UInt8} (hk : k.Ok)
    (hrun : Relation.ReflTransGen (fun x y ↦ ∃ a : Turn, a.Ok x ∧ a.Regular x ∧ a.exec x = some y)
      (State.init k mem, []) x) : x.1.Provenance := by
  have hinit : Honest (State.init k mem, []) ⟨fun _ ↦ [], [], []⟩ :=
    ⟨State.inv_init hk mem, ⟨[], Transfer.holdings_nil, List.Perm.refl _⟩, List.nodup_nil,
      fun q hq ↦ absurd hq List.not_mem_nil⟩
  have hhonest : ∃ g, Honest x g := by
    induction hrun with
    | refl => exact ⟨_, hinit⟩
    | tail _ hstep ih =>
      obtain ⟨g, h⟩ := ih
      obtain ⟨a, hok, hreg, hexec⟩ := hstep
      exact h.turn hok hreg hexec
  obtain ⟨g, h⟩ := hhonest
  exact h.backed.replays

end Runs

/-- The state after `mc_disable_hook`, at the start of a run. -/
def State.disabled : State :=
  { State.start with doNotHook := 1 }

theorem Turn.exec_disableHook :
    Turn.exec (State.start, []) .disableHook = some (State.disabled, []) :=
  rfl

/-- `free` with hooks disabled. -/
theorem Turn.exec_free {s : State} {loans : List Loan} {env : Env} {l : Loan} (hptr : l.ptr ≠ 0)
    (hmode : s.doNotHook ≠ 0) :
    Turn.exec (s, loans) (.call env (.free l.ptr) (some l)) =
      some (s.origFree l.ptr, loans.erase l) := by
  have hfree : Hook.free env l.ptr s = some (s.origFree l.ptr) := by
    rw [Hook.free, if_neg hptr, if_pos hmode]
    rfl
  rw [Turn.exec, Call.exec, hfree]
  rfl

/-- A run that takes a buffer with hooks disabled and gives it back. -/
theorem provenance_sample : ∃ s : State, s.ledger = [.took 1048576, .gave 1048576] ∧
    s.Provenance := by
  let env := Env.handing 1048576
  let l : Loan := ⟨1048576, false, false⟩
  let t := (State.disabled.origMalloc env 16).2
  have hfirst : Turn.Ok (State.disabled, []) (.call env (.malloc 16) none) := by
    refine ⟨(by decide : 16 < 18446744073709551616), ?_, rfl, by simp⟩
    show Heap.AnswerOk env.answer 16 State.disabled.heap
    decide
  have hexec : Turn.exec (State.disabled, []) (.call env (.malloc 16) none) = some (t, [l]) := rfl
  have hlast : Turn.Ok (t, [l]) (.call env (.free 1048576) (some l)) := by
    refine ⟨(by decide : 1048576 < 18446744073709551616), trivial, rfl, ?_⟩
    intro m hm
    obtain rfl := Option.mem_some_iff.1 hm
    exact ⟨List.mem_cons_self, rfl⟩
  have hlastRegular : Turn.Regular (t, [l]) (.call env (.free 1048576) (some l)) := by
    intro m hm
    obtain rfl := Option.mem_some_iff.1 hm
    exact rfl
  have hfree : Turn.exec (t, [l]) (.call env (.free 1048576) (some l)) =
      some (t.origFree 1048576, []) := Turn.exec_free (by decide) (by decide)
  exact ⟨t.origFree 1048576, rfl, provenance (x := (t.origFree 1048576, [])) kernel_ok_nil
    (((Relation.ReflTransGen.refl.tail ⟨.disableHook, trivial, trivial, Turn.exec_disableHook⟩).tail
      ⟨_, hfirst, by simp [Turn.Regular], hexec⟩).tail ⟨_, hlast, hlastRegular, hfree⟩)⟩

/-- With hooks disabled, `posix_memalign` returns a pointer into a buffer that `mc_orig_malloc`
gave, and `free` hands this pointer to `mc_orig_free`. -/
theorem not_provenance : ∃ x, Relation.ReflTransGen
    (fun x y ↦ ∃ a : Turn, a.Ok x ∧ a.exec x = some y) (State.start, []) x ∧
      ¬x.1.Provenance := by
  let env := Env.handing 1048576
  let l : Loan := ⟨1048592, false, true⟩
  have hresult : (Turn.exec (State.disabled, []) (.call env (.posixMemalign 16 16) none)).map
      (fun x ↦ (x.2, x.1.ledger, x.1.doNotHook)) = some ([l], [.took 1048576], 1) := by
    decide +kernel
  obtain ⟨⟨t, loans⟩, hexec, heq⟩ := Option.map_eq_some_iff.1 hresult
  simp only [Prod.mk.injEq] at heq
  obtain ⟨rfl, hledger, hmode⟩ := heq
  have hfirst : Turn.Ok (State.disabled, []) (.call env (.posixMemalign 16 16) none) := by
    refine ⟨⟨by decide, by decide⟩, fun r hr ↦ ?_, rfl, by simp⟩
    obtain rfl : Request.aligned 16 16 = r := Option.some.inj hr
    decide
  have hlast : Turn.Ok (t, [l]) (.call env (.free 1048592) (some l)) := by
    refine ⟨(by decide : 1048592 < 18446744073709551616), ?_, rfl, ?_⟩
    · rw [Call.Answered, if_neg (by simp [Call.isAligned, hmode])]
      exact trivial
    · intro m hm
      obtain rfl := Option.mem_some_iff.1 hm
      exact ⟨List.mem_cons_self, by rw [hmode]; rfl⟩
  have hfree : Turn.exec (t, [l]) (.call env (.free 1048592) (some l)) =
      some (t.origFree 1048592, []) := Turn.exec_free (by decide) (by rw [hmode]; decide)
  refine ⟨(t.origFree 1048592, []),
    ((Relation.ReflTransGen.refl.tail ⟨.disableHook, trivial, Turn.exec_disableHook⟩).tail
      ⟨_, hfirst, hexec⟩).tail ⟨_, hlast, hfree⟩, fun hprovenance ↦ ?_⟩
  have hend : (t.origFree 1048592).ledger = [.took 1048576] ++ .gave 1048592 :: [] := by
    rw [State.ledger_origFree, hledger]
  obtain ⟨held, hheld, hmem⟩ := hprovenance _ _ _ hend
  obtain rfl := Option.some.inj hheld
  simp at hmem

end Memchk
