import Memchk.Library.Monitor
import Memchk.CheckAll
import Memchk.Registry

/-!
# What the checker watches

The checker as a `Monitor` of blocks: live ones, of which the program must write the payload only,
and freed ones, of which it must write nothing. A block is checked when it leaves the live blocks
and when it leaves the quarantine, the check of a block finds all its damage and names no other
pointer (`Checked`), and nothing but a check mends a guard. So whatever the checker and the library
do is tended to: here the effects of which calls consist, with metadata and without, and full checks
(`State.Inv.tends_checkAll`). What follows for calls is in the next module.

## The monitor

A `Watch` is a block with what the checker remembers about it, and its guard bytes are those that
`Watch.Guards` says: the red zones of a live block, the whole buffer of a freed one. `monitor` is
the instance of the library, with the state, the trace and the reports of this program. A step is
`Tended` if it loses no damage without a report, does none itself, and reports on nothing but blocks
that were damaged.

## Steps

The library behind the hooks writes outside of the buffers handed out only, and guards lie inside
(`Inv.covered`), so what it does is tended to. For the blocks that come and go each effect has two
lemmas, one that says which blocks are watched then (`Inv.watches_recorded`, `Inv.watches_dropped`,
`Inv.watches_unregistered`), and one that says that it is tended to. A full check mends guards, and
reports what it mends.

## Entries that concern no block

Most entries of a trace are neither a report nor a buffer given back (`Event.isIdle`); a step whose
entries are all of this kind and that leaves the memory alone has nothing to show.
-/

namespace Memchk

/-- A block, with its payload at `usrptr`. -/
inductive Watch
  | live (x : Memblk) (usrptr : ℕ)
  | freed (x : Memblk) (usrptr : ℕ)

namespace Watch

def memblk : Watch → Memblk
  | .live x _ | .freed x _ => x

def usrptr : Watch → ℕ
  | .live _ usrptr | .freed _ usrptr => usrptr

/-- What the bytes hold that are not for the program to write. -/
def pattern : Watch → UInt8
  | .live .. => redzonePattern
  | .freed .. => freedbufPattern

/-- The byte is not for the program to write. -/
def Guards : Watch → ℕ → Prop
  | .live x usrptr, y =>
    x.buf ≤ y ∧ y < x.buf + x.bufsize ∧ ¬(usrptr ≤ y ∧ y < usrptr + x.usrsize)
  | .freed x _, y => x.buf ≤ y ∧ y < x.buf + x.bufsize

instance : ∀ (w : Watch) (y : ℕ), Decidable (w.Guards y)
  | .live _ _, _ => inferInstanceAs (Decidable (_ ∧ _ ∧ ¬_))
  | .freed _ _, _ => inferInstanceAs (Decidable (_ ∧ _))

/-- Guard bytes lie in the buffer of the block. -/
theorem Guards.mem {w : Watch} {y : ℕ} (h : w.Guards y) :
    w.memblk.buf ≤ y ∧ y < w.memblk.buf + w.memblk.bufsize := by
  cases w with
  | live x usrptr => exact ⟨h.1, h.2.1⟩
  | freed x usrptr => exact h

end Watch

namespace State

/-- The live block at a node. -/
def liveWatch (s : State) (n : ℕ) : Watch :=
  .live (s.blocks.record n).memblk (s.blocks.record n).usrptr

/-- The freed block at a node. -/
def freedWatch (s : State) (n : ℕ) : Watch :=
  .freed (s.quarantine.record n).memblk (s.quarantine.record n).usrptr

/-- The block is live, or in the quarantine. -/
def Watches (s : State) (w : Watch) : Prop :=
  (∃ n, s.IsLive n ∧ w = s.liveWatch n) ∨ ∃ n, s.IsFreed n ∧ w = s.freedWatch n

end State

/-- The checker, as what it is for. -/
def monitor : Monitor State Watch ℕ ℕ Event where
  Watches := State.Watches
  Broken s w y := w.Guards y ∧ s.heap.mem y ≠ w.pattern
  key := Watch.usrptr
  Reports e usrptr := e.isReportOn usrptr
  Drops e w := .gave w.memblk.buf ∈ e.transfers

/-! ### What the checks find -/

/-- What a check of a block logs. -/
structure Checked (damaged : Prop) (usrptr : ℕ) (log : List Event) : Prop where
  isDamage : ∀ e ∈ log, e.isDamage
  reported : damaged → ∃ e es, log = e :: es ∧ e.isReportOn usrptr
  deserved : ∀ e ∈ log, ∀ p, e.isReportOn p → usrptr = p ∧ damaged

/-- A check that finds one condition finds an equivalent one. -/
theorem Checked.congr {damaged damaged' : Prop} {usrptr : ℕ} {log : List Event}
    (h : Checked damaged usrptr log) (hiff : damaged ↔ damaged') : Checked damaged' usrptr log where
  isDamage := h.isDamage
  reported hdamaged := h.reported (hiff.2 hdamaged)
  deserved e he p hp := (h.deserved e he p hp).imp_right hiff.1

section Checks

variable {x : Memblk} {usrptr : ℕ} {allocator freeing freer : Option (List ℕ)} {h : Heap} {rc : ℤ}
  {log : List Event}

/-- The check of a live block. -/
theorem checked_live (hx : x.Fits usrptr)
    (hcheck : mcCheckAllocatedBuffer x usrptr allocator freeing h = some (rc, log)) :
    Checked (¬x.Intact usrptr h.mem) usrptr log where
  isDamage := isDamage_mcCheckAllocatedBuffer hcheck
  reported hdamaged := (hx.mcCheckAllocatedBuffer_of_damaged hdamaged hcheck).2
  deserved e he p hp := by
    refine ⟨eq_of_isDamageOf (isDamageOf_mcCheckAllocatedBuffer hcheck e he) hp, fun hintact ↦ ?_⟩
    rw [hx.mcCheckAllocatedBuffer_of_intact hintact] at hcheck
    obtain rfl := (Prod.mk.inj (Option.some.inj hcheck)).2
    exact List.not_mem_nil he

/-- The check of a freed block. -/
theorem checked_freed (hend : x.buf + x.bufsize ≤ 9223372036854775808)
    (hsmall : x.bufsize ≤ 2147483648)
    (hcheck : mcCheckFreedBuffer x usrptr allocator freer h = some (rc, log)) :
    Checked (¬x.Poisoned h.mem) usrptr log where
  isDamage := isDamage_mcCheckFreedBuffer hcheck
  reported hdamaged := (mcCheckFreedBuffer_of_damaged hend hsmall hdamaged hcheck).2
  deserved e he p hp := by
    refine ⟨eq_of_isDamageOf (isDamageOf_mcCheckFreedBuffer hcheck e he) hp, fun hpoisoned ↦ ?_⟩
    rw [mcCheckFreedBuffer_of_poisoned hend hpoisoned] at hcheck
    obtain rfl := (Prod.mk.inj (Option.some.inj hcheck)).2
    exact List.not_mem_nil he

/-- What a zone logs is what the check of its block logs. -/
theorem checked_liveZone {callstack : List ℕ} {mem : ℕ → UInt8} (hx : x.Fits usrptr) :
    Checked (¬x.Intact usrptr mem) usrptr ((liveZone x usrptr callstack).log mem) := by
  obtain ⟨r, hr⟩ := Option.isSome_iff_exists.1
    (@mcCheckAllocatedBuffer_isSome x usrptr ⟨mem, []⟩ (some callstack) none rfl)
  rw [log_liveZone, hr]
  exact checked_live hx hr

/-- The check of a freed block finds its damage. -/
theorem checked_freedZone {allocTrace freeTrace : List ℕ} {mem : ℕ → UInt8}
    (hend : x.buf + x.bufsize ≤ 9223372036854775808) (hsmall : x.bufsize < 2147483648) :
    Checked (¬x.Poisoned mem) usrptr ((freedZone x usrptr allocTrace freeTrace).log mem) := by
  obtain ⟨r, hr⟩ := Option.isSome_iff_exists.1
    (@mcCheckFreedBuffer_isSome x usrptr ⟨mem, []⟩ hend (some allocTrace) (some freeTrace) rfl rfl)
  rw [log_freedZone, hr]
  exact checked_freed hend hsmall.le hr

end Checks

/-! ### Entries that concern no block -/

/-- The entry neither reports damage nor tells of a buffer. -/
def Event.isIdle (e : Event) : Prop :=
  e.transfers = [] ∧ ∀ p, ¬e.isReportOn p

/-- The mark of a callstack that could not be allocated. -/
theorem isIdle_of_failure {c : ℕ} :
    ∀ e ∈ if c = 0 then [Event.mmapFailed] else [], Event.isIdle e := by
  split_ifs
  · exact fun e he ↦ List.mem_singleton.1 he ▸ ⟨rfl, fun _ ↦ Bool.false_ne_true⟩
  · exact fun e he ↦ absurd he List.not_mem_nil

theorem isIdle_of_isRemark {e : Event} (he : e.isRemark) : e.isIdle := by
  cases e <;> first | exact ⟨rfl, fun _ ↦ Bool.false_ne_true⟩ | exact absurd he Bool.false_ne_true

theorem isIdle_of_isOfCommand {e : Event} (he : e.isOfCommand) : e.isIdle := by
  cases e <;> first | exact ⟨rfl, fun _ ↦ Bool.false_ne_true⟩ | exact absurd he Bool.false_ne_true

theorem not_gave_of_isDamage {e : Event} (he : e.isDamage) (b : ℕ) : .gave b ∉ e.transfers := by
  cases e <;> first | exact List.not_mem_nil | exact absurd he Bool.false_ne_true

namespace State

variable {s t u : State} {g g' : Contents} {w : Watch} {es : List Event} {n y : ℕ}

theorem Inv.watches_iff (h : s.Inv g) : s.Watches w ↔
    (∃ n ∈ g.nodes .live, w = s.liveWatch n) ∨ ∃ n ∈ g.freed, w = s.freedWatch n := by
  simp only [Watches, h.isLive_iff, h.isFreed_iff]

theorem watches_congr (hblocks : t.blocks = s.blocks) (hquarantine : t.quarantine = s.quarantine)
    (w : Watch) : t.Watches w ↔ s.Watches w := by
  simp only [Watches, IsLive, IsFreed, liveWatch, freedWatch, hblocks, hquarantine]

/-- The buffer of a block is one that was handed out. -/
theorem Inv.guarded_of_watches (h : s.Inv g) (hw : s.Watches w) :
    Guarded s.heap w.memblk w.usrptr := by
  rcases h.watches_iff.1 hw with ⟨n, hn, rfl⟩ | ⟨n, hn, rfl⟩
  · exact h.guarded n hn
  · exact h.guardedFreed n hn

/-- A live block is damaged if it is broken somewhere. -/
theorem Inv.exists_broken_live_iff (h : s.Inv g) (hn : n ∈ g.nodes .live) :
    (∃ y, monitor.Broken s (s.liveWatch n) y) ↔ s.LiveDamaged n := by
  have hshape := (h.guarded n hn).shape
  obtain ⟨hle, hle'⟩ := hshape
  rw [LiveDamaged, Memblk.Intact]
  constructor
  · rintro ⟨y, ⟨hy, hy', hout⟩, hne⟩ ⟨hlead, htrail⟩
    rcases Nat.lt_or_ge y (s.blocks.record n).usrptr with hlt | hge
    · exact hne (hlead y hy hlt)
    · exact hne (htrail y (by omega) hy')
  · intro hdamaged
    by_contra hnone
    push Not at hnone
    refine hdamaged ⟨fun y hy hy' ↦ ?_, fun y hy hy' ↦ ?_⟩
    · by_contra hne
      exact hnone y ⟨⟨hy, by omega, by omega⟩, hne⟩
    · by_contra hne
      exact hnone y ⟨⟨by omega, hy', by omega⟩, hne⟩

/-- So is a freed one. -/
theorem exists_broken_freed_iff :
    (∃ y, monitor.Broken s (s.freedWatch n) y) ↔ s.FreedDamaged n := by
  rw [FreedDamaged, Memblk.Poisoned]
  push Not
  exact exists_congr fun y ↦ and_assoc

/-! ### Steps that change nothing about a block -/

/-- Neither the blocks nor their guards have changed. -/
theorem tended_of_idle (hwatches : ∀ w, t.Watches w ↔ s.Watches w)
    (hmem : ∀ w, s.Watches w → ∀ y, w.Guards y → t.heap.mem y = s.heap.mem y)
    (hreports : ∀ e ∈ es, ∀ p, ¬e.isReportOn p)
    (hkept : ∀ w, s.Watches w → ∀ e ∈ es, .gave w.memblk.buf ∉ e.transfers) :
    monitor.Tended s es t := by
  refine .of_same hwatches (fun w y hw ↦ ?_) hreports hkept
  exact and_congr_right fun hy ↦ by rw [hmem w hw y hy]

/-- A step that changes neither blocks nor memory is tended to. -/
theorem tended_of_same (hblocks : t.blocks = s.blocks) (hquarantine : t.quarantine = s.quarantine)
    (hmem : t.heap.mem = s.heap.mem) (hes : ∀ e ∈ es, e.isIdle) : monitor.Tended s es t := by
  refine tended_of_idle (watches_congr hblocks hquarantine) (fun _ _ _ _ ↦ by rw [hmem])
    (fun e he ↦ (hes e he).2) fun w _ e he ↦ ?_
  rw [(hes e he).1]
  exact List.not_mem_nil

/-- What belongs to a payload guards no block. -/
theorem Inv.not_payload_of_guards (h : s.Inv g) (hw : s.Watches w) (hy : w.Guards y)
    (hn : n ∈ g.nodes .live) : ¬((s.blocks.record n).usrptr ≤ y ∧
      y < (s.blocks.record n).usrptr + (s.blocks.record n).memblk.usrsize) := by
  have hshape := (h.guarded n hn).shape
  obtain ⟨hle, hle'⟩ := hshape
  have hout : ∀ {x : Memblk} {p : ℕ}, Guarded s.heap x p → (s.blocks.record n).memblk.buf ≠ x.buf →
      x.buf ≤ y → y < x.buf + x.bufsize → ¬((s.blocks.record n).usrptr ≤ y ∧
        y < (s.blocks.record n).usrptr + (s.blocks.record n).memblk.usrsize) := by
    intro x p hx hne hy hy'
    have := (h.guarded n hn).apart h.heap hx hne
    omega
  rcases h.watches_iff.1 hw with ⟨m, hm, rfl⟩ | ⟨m, hm, rfl⟩
  · by_cases hmn : n = m
    · subst hmn
      exact hy.2.2
    · exact hout (h.guarded m hm) (h.live_buf_ne hn hm hmn) hy.1 hy.2.1
  · exact hout (h.guardedFreed m hm) (h.buf_ne hn hm) hy.1 hy.2

/-- Only payloads have been written. -/
theorem Inv.tended_filled (h : s.Inv g) {mem : ℕ → UInt8}
    (hmem : ∀ y, (∀ n ∈ g.nodes .live, ¬((s.blocks.record n).usrptr ≤ y ∧
      y < (s.blocks.record n).usrptr + (s.blocks.record n).memblk.usrsize)) →
        mem y = s.heap.mem y) :
    monitor.Tended s [] { s with heap := { s.heap with mem := mem } } := by
  refine tended_of_idle (watches_congr rfl rfl) (fun w hw y hy ↦ ?_) (by simp) (by simp)
  exact hmem y fun n hn ↦ h.not_payload_of_guards hw hy hn

end State

/-! ### What the library does behind the hooks -/

namespace Heap

variable {h : Heap} {a : Answer} {y : ℕ}

theorem scribble_of_covered (hy : h.Covered y) : h.scribble a.junk y = h.mem y :=
  if_pos hy

/-- Bytes that are handed out are not in a new buffer. -/
theorem AnswerOk.not_mem_of_covered {size : ℕ} (ha : AnswerOk a size h) (hne : a.addr ≠ 0)
    (hy : h.Covered y) : ¬(a.addr ≤ y ∧ y < a.addr + size) := by
  obtain ⟨b, hb, hle, hlt⟩ := hy
  have := (ha.resolve_left hne).2 b hb
  simp only [Apart] at this
  omega

/-- `mc_orig_calloc` leaves the buffers handed out alone. -/
theorem mem_origCalloc {nmems size : ℕ} (ha : AnswerOk a (nmems * size) h) (hy : h.Covered y) :
    (h.origCalloc a nmems size).mem y = h.mem y := by
  rw [origCalloc]
  split_ifs with hnull
  · rfl
  · exact (if_neg (ha.not_mem_of_covered hnull hy)).trans (scribble_of_covered hy)

/-- `mc_orig_realloc` leaves the other buffers handed out alone. -/
theorem mem_origRealloc {ptr size : ℕ} (ha : AnswerOk a size (h.origFree ptr))
    (hy : (h.origFree ptr).Covered y) : (h.origRealloc a ptr size).mem y = h.mem y := by
  rw [origRealloc]
  split_ifs with hnull
  · rfl
  · refine (if_neg fun hin ↦ ?_).trans (scribble_of_covered hy)
    exact ha.not_mem_of_covered hnull hy
      ⟨hin.1, hin.2.trans_le (Nat.add_le_add_left (min_le_right _ _) _)⟩

end Heap

namespace State

variable {s t u : State} {g g' : Contents} {w : Watch} {es : List Event} {n y : ℕ} {env : Env}

theorem Inv.covered (h : s.Inv g) (hw : s.Watches w) (hy : w.Guards y) : s.heap.Covered y :=
  ⟨_, (h.guarded_of_watches hw).mem, hy.mem⟩

/-- `mc_orig_malloc` is tended to. -/
theorem Inv.tended_origMalloc (h : s.Inv g) (env : Env) (size : ℕ) :
    monitor.Tended s [.origMalloc size env.answer.addr] (s.origMalloc env size).2 := by
  refine tended_of_idle (watches_congr rfl rfl) (fun w hw y hy ↦ ?_) (by simp [Event.isReportOn])
    fun w _ e he ↦ ?_
  · obtain ⟨b, hb, hin⟩ := h.covered hw hy
    exact Heap.mem_origMalloc hb hin.1 hin.2
  · rw [List.mem_singleton.1 he, Event.transfers]
    split_ifs <;> simp

/-- `mc_orig_calloc` is tended to. -/
theorem Inv.tended_origCalloc (h : s.Inv g) {nmems size : ℕ}
    (ha : Heap.AnswerOk env.answer (nmems * size) s.heap) :
    monitor.Tended s [.origCalloc nmems size env.answer.addr] (s.origCalloc env nmems size).2 := by
  refine tended_of_idle (watches_congr rfl rfl) (fun w hw y hy ↦ ?_) (by simp [Event.isReportOn])
    fun w _ e he ↦ ?_
  · exact Heap.mem_origCalloc ha (h.covered hw hy)
  · rw [List.mem_singleton.1 he, Event.transfers]
    split_ifs <;> simp

/-- A buffer that belongs to no block is given back. -/
theorem tended_origFree {ptr : ℕ} (hptr : ∀ w, s.Watches w → w.memblk.buf ≠ ptr) :
    monitor.Tended s [.origFree ptr] (s.origFree ptr) := by
  refine tended_of_idle (watches_congr rfl rfl) (fun _ _ _ _ ↦ rfl) (by simp [Event.isReportOn])
    fun w hw e he ↦ ?_
  rw [List.mem_singleton.1 he, Event.transfers, List.mem_singleton, Transfer.gave.injEq]
  exact hptr w hw

/-- `mc_orig_realloc` of a buffer that no block has is tended to. -/
theorem Inv.tended_origRealloc (h : s.Inv g) {ptr size : ℕ}
    (hptr : ∀ w, s.Watches w → w.memblk.buf ≠ ptr)
    (ha : Heap.AnswerOk env.answer size (s.heap.origFree ptr)) :
    monitor.Tended s [.origRealloc ptr size env.answer.addr] (s.origRealloc env ptr size).2 := by
  refine tended_of_idle (watches_congr rfl rfl) (fun w hw y hy ↦ ?_) (by simp [Event.isReportOn])
    fun w hw e he ↦ ?_
  · obtain ⟨b, hb, hin⟩ : (s.heap.origFree ptr).Covered y := by
      have hmem := (h.guarded_of_watches hw).mem
      exact ⟨_, Heap.mem_outstanding_origFree.2 ⟨hmem, hptr w hw⟩, hy.mem⟩
    exact Heap.mem_origRealloc ha ⟨b, hb, hin⟩
  · rw [List.mem_singleton.1 he, Event.transfers]
    simp [hptr w hw]

/-- Passed-on buffers belong to no block. -/
theorem Inv.buf_ne_of_not_tracks (h : s.Inv g) {ptr : ℕ} (hptr : ¬s.tracks ptr) :
    ∀ w, s.Watches w → w.memblk.buf ≠ ptr := by
  rw [h.tracks_iff, List.mem_append, not_or] at hptr
  rintro w hw rfl
  rcases h.watches_iff.1 hw with ⟨n, hn, rfl⟩ | ⟨n, hn, rfl⟩
  · exact hptr.1 (List.mem_map.2 ⟨n, hn, rfl⟩)
  · exact hptr.2 (List.mem_map.2 ⟨n, hn, rfl⟩)

/-! ### Blocks that come and go -/

/-- The live blocks from before look the same when one more is recorded. -/
theorem liveWatch_recorded {x : Memblk} {usrptr c m : ℕ}
    (hrec : Recorded env x usrptr s g n c t g') (hm : m ∈ g.nodes .live) :
    t.liveWatch m = s.liveWatch m := by
  have hne : m ≠ n := ne_of_mem_of_not_mem hm (hrec.notMem .live)
  rw [liveWatch, liveWatch, hrec.record_of_ne m hne]

/-- One block more is watched when it is recorded. -/
theorem Inv.watches_recorded (h : s.Inv g) {x : Memblk} {usrptr c : ℕ}
    (hrec : Recorded env x usrptr s g n c t g') (w : Watch) :
    t.Watches w ↔ w = t.liveWatch n ∨ s.Watches w := by
  have hmem : ∀ {m}, m ∈ g'.nodes .live ↔ m = n ∨ m ∈ g.nodes .live := by
    intro m
    rw [hrec.nodes, Function.update_self, List.mem_cons]
  have hfreed : t.freedWatch = s.freedWatch := by
    funext m
    rw [freedWatch, freedWatch, hrec.quarantine]
  rw [hrec.inv.watches_iff, h.watches_iff, hrec.freed, hfreed, ← or_assoc]
  refine or_congr_left ⟨?_, ?_⟩
  · rintro ⟨m, hm, rfl⟩
    rcases hmem.1 hm with rfl | hm
    · exact .inl rfl
    · exact .inr ⟨m, hm, liveWatch_recorded hrec hm⟩
  · rintro (rfl | ⟨m, hm, rfl⟩)
    · exact ⟨n, hmem.2 (.inl rfl), rfl⟩
    · exact ⟨m, hmem.2 (.inr hm), (liveWatch_recorded hrec hm).symm⟩

/-- A block that is recorded comes intact, and the others do not notice. -/
theorem Inv.tended_recorded (h : s.Inv g) {x : Memblk} {usrptr c : ℕ}
    (hrec : Recorded env x usrptr s g n c t g') : monitor.Tended s [] t := by
  have hnodes : g'.nodes .live = n :: g.nodes .live := by rw [hrec.nodes, Function.update_self]
  have hnew : n ∈ g'.nodes .live := hnodes ▸ List.mem_cons_self
  have hwatches := h.watches_recorded hrec
  have hbuf : ∀ w, s.Watches w → w.memblk.buf ≠ x.buf := by
    have hx : (t.blocks.record n).memblk.buf = x.buf := by rw [hrec.record]
    rw [← hx]
    intro w hw
    rcases h.watches_iff.1 hw with ⟨m, hm, rfl⟩ | ⟨m, hm, rfl⟩
    · rw [← liveWatch_recorded hrec hm]
      exact hrec.inv.live_buf_ne (hnodes ▸ List.mem_cons_of_mem _ hm) hnew
        (ne_of_mem_of_not_mem hm (hrec.notMem .live))
    · have hne := (hrec.inv.buf_ne hnew (hrec.freed ▸ hm)).symm
      rwa [hrec.quarantine] at hne
  -- the writes lie in the new buffer, away from all guards of the others
  have hsame : ∀ w, s.Watches w → ∀ y, w.Guards y → t.heap.mem y = s.heap.mem y := by
    intro w hw y hy
    have hguarded : Guarded t.heap x usrptr := by
      have := hrec.inv.guarded n hnew
      rwa [hrec.record] at this
    have hapart := (hrec.inv.guarded_of_watches ((hwatches w).2 (.inr hw))).apart hrec.inv.heap
      hguarded (hbuf w hw)
    have hin := hy.mem
    rw [hrec.heap]
    exact armed_of_notMem hrec.shape _ (by omega)
  refine ⟨fun w y hw hbroken ↦ .inr ⟨(hwatches w).2 (.inr hw), ?_, by simp⟩,
    fun w y hw hbroken ↦ ?_,
    by simp⟩
  · exact ⟨hbroken.1, by rw [hsame w hw y hbroken.1]; exact hbroken.2⟩
  · -- the new block is armed, so only a block from before can be broken
    rcases (hwatches w).1 hw with rfl | hw
    · refine absurd ?_ ((hrec.inv.exists_broken_live_iff hnew).1 ⟨y, hbroken⟩)
      rw [hrec.record, hrec.heap]
      exact intact_armed hrec.shape _
    · exact ⟨hw, y, hbroken.1, by rw [← hsame w hw y hbroken.1]; exact hbroken.2⟩

/-- What becomes of the blocks that are watched when one goes to the quarantine. -/
theorem Inv.watches_unregistered (h : s.Inv g) {new c : ℕ} {evicted : Option ℕ}
    {log evictLog : List Event} (hn : n ∈ g.nodes .live)
    (hun : Unregistered env (s.blocks.record n).usrptr s g n new c evicted log evictLog u g') :
    (∀ w, s.Watches w → w = s.liveWatch n ∨
      w.memblk.buf ≠ (s.blocks.record n).memblk.buf ∧
        ((∃ old ∈ evicted, w = s.freedWatch old) ∨ u.Watches w)) ∧
      ∀ w, u.Watches w → w = u.freedWatch new ∨
        w.memblk.buf ≠ (s.blocks.record n).memblk.buf ∧ s.Watches w := by
  have hnodup : (g.nodes .live).Nodup := (h.blocks.table .live).nodup
  have hmem : ∀ {m}, m ∈ g'.nodes .live ↔ m ≠ n ∧ m ∈ g.nodes .live := by
    intro m
    rw [hun.nodes, Function.update_self, hnodup.mem_erase_iff]
  have hfreedMem : ∀ m, m ∈ evicted ∨ m ∈ g'.freed ↔ m ∈ g.freed ∨ m = new := by
    intro m
    have heq : m ∈ evicted.toList ++ g'.freed ↔ m ∈ g.freed ++ [new] := by rw [hun.freed]
    rwa [List.mem_append, Option.mem_toList, List.mem_append, List.mem_singleton] at heq
  have hlive : u.liveWatch = s.liveWatch := by
    funext m
    rw [liveWatch, liveWatch, hun.record]
  have hfreed : ∀ m ∈ g.freed, u.freedWatch m = s.freedWatch m := fun m hm ↦ by
    rw [freedWatch, freedWatch, hun.freedRecord m (ne_of_mem_of_not_mem hm hun.notMem)]
  constructor
  · intro w hw
    rcases h.watches_iff.1 hw with ⟨m, hm, rfl⟩ | ⟨m, hm, rfl⟩
    · by_cases hmn : m = n
      · exact .inl (by rw [hmn])
      · refine .inr ⟨h.live_buf_ne hm hn hmn, .inr ?_⟩
        exact hun.inv.watches_iff.2 (.inl ⟨m, hmem.2 ⟨hmn, hm⟩, by rw [hlive]⟩)
    · refine .inr ⟨(h.buf_ne hn hm).symm, ?_⟩
      rcases (hfreedMem m).2 (.inl hm) with hold | hm'
      · exact .inl ⟨m, hold, rfl⟩
      · exact .inr (hun.inv.watches_iff.2 (.inr ⟨m, hm', (hfreed m hm).symm⟩))
  · intro w hw
    rcases hun.inv.watches_iff.1 hw with ⟨m, hm, rfl⟩ | ⟨m, hm, rfl⟩
    · obtain ⟨hmn, hm⟩ := hmem.1 hm
      rw [hlive]
      exact .inr ⟨h.live_buf_ne hm hn hmn, h.watches_iff.2 (.inl ⟨m, hm, rfl⟩)⟩
    · rcases (hfreedMem m).1 (.inr hm) with hm' | rfl
      · rw [hfreed m hm']
        exact .inr ⟨(h.buf_ne hn hm').symm, h.watches_iff.2 (.inr ⟨m, hm', rfl⟩)⟩
      · exact .inl rfl

/-- The check of a live block, made by `free`. -/
theorem Inv.checked_liveWatch (h : s.Inv g) {rc : ℤ} {log : List Event}
    {freeing : Option (List ℕ)} (hn : n ∈ g.nodes .live)
    (hsmall : (s.blocks.record n).memblk.bufsize < 2147483648)
    (hcheck : mcCheckAllocatedBuffer (s.blocks.record n).memblk (s.blocks.record n).usrptr
      (s.printCallstack (s.blocks.record n).allocator 2) freeing s.heap = some (rc, log)) :
    Checked (∃ y, monitor.Broken s (s.liveWatch n) y) (s.liveWatch n).usrptr log :=
  have hguarded := h.guarded n hn
  (checked_live ⟨hguarded.shape, hsmall, hguarded.end_le h.heap⟩ hcheck).congr
    (h.exists_broken_live_iff hn).symm

/-- One block less is watched when it is dropped. -/
theorem Inv.watches_dropped (h : s.Inv g) {log : List Event}
    (hdrop : Dropped (s.blocks.record n).usrptr s g n log u) :
    (∀ w, s.Watches w → w = s.liveWatch n ∨ u.Watches w) ∧ ∀ w, u.Watches w → s.Watches w := by
  have hlive : u.liveWatch = s.liveWatch := by
    funext m
    rw [liveWatch, liveWatch, hdrop.record]
  have hfreed : u.freedWatch = s.freedWatch := by
    funext m
    rw [freedWatch, freedWatch, hdrop.freedRecord]
  constructor
  · intro w hw
    rw [hdrop.inv.watches_iff, hlive, hfreed]
    rcases h.watches_iff.1 hw with ⟨m, hm, rfl⟩ | hw
    · by_cases hmn : m = n
      · exact .inl (by rw [hmn])
      · refine .inr (.inl ⟨m, ?_, rfl⟩)
        simp only [Function.update_self]
        exact (List.mem_erase_of_ne hmn).2 hm
    · exact .inr (.inr hw)
  · intro w hw
    rw [hdrop.inv.watches_iff, hlive, hfreed] at hw
    rw [h.watches_iff]
    refine hw.imp_left (Exists.imp fun m ↦ And.imp_left fun hm ↦ ?_)
    simp only [Function.update_self] at hm
    exact List.mem_of_mem_erase hm

/-- A block that is dropped is checked. Its buffer stays handed out. -/
theorem Inv.tended_dropped (h : s.Inv g) {rc : ℤ} {log : List Event} {freeing : Option (List ℕ)}
    (hn : n ∈ g.nodes .live) (hsmall : (s.blocks.record n).memblk.bufsize < 2147483648)
    (hcheck : mcCheckAllocatedBuffer (s.blocks.record n).memblk (s.blocks.record n).usrptr
      (s.printCallstack (s.blocks.record n).allocator 2) freeing s.heap = some (rc, log))
    (hdrop : Dropped (s.blocks.record n).usrptr s g n log u) :
    monitor.Tended s (log ++ [.mmapFailed]) u := by
  have hchecked := h.checked_liveWatch hn hsmall hcheck
  obtain ⟨hforth, hback⟩ := h.watches_dropped hdrop
  have hbroken : ∀ w y, monitor.Broken u w y ↔ monitor.Broken s w y := by
    intro w y
    show _ ∧ u.heap.mem y ≠ _ ↔ _ ∧ s.heap.mem y ≠ _
    rw [hdrop.heap]
  refine ⟨fun w y hw hb ↦ ?_, fun w y hw hb ↦ ⟨hback w hw, y, (hbroken w y).1 hb⟩,
    fun e he p hp ↦ ?_⟩
  · rcases hforth w hw with rfl | hw'
    · obtain ⟨e, es, rfl, he⟩ := hchecked.reported ⟨y, hb⟩
      exact .inl ⟨[], e, es ++ [.mmapFailed], by simp, he, by simp⟩
    · refine .inr ⟨hw', (hbroken w y).2 hb, fun d hd ↦ ?_⟩
      rcases List.mem_append.1 hd with hd | hd
      · exact not_gave_of_isDamage (hchecked.isDamage d hd) _
      · rw [List.mem_singleton.1 hd]
        exact List.not_mem_nil
  · rcases List.mem_append.1 he with he | he
    · obtain ⟨rfl, y, hb⟩ := hchecked.deserved e he p hp
      exact ⟨_, y, h.watches_iff.2 (.inl ⟨n, hn, rfl⟩), hb, rfl⟩
    · rw [List.mem_singleton.1 he] at hp
      exact absurd hp Bool.false_ne_true

section Release

variable {new c : ℕ} {evicted : Option ℕ} {rc : ℤ} {log mid evictLog : List Event}
  {freeing : Option (List ℕ)}

/-- The check of the block that leaves the quarantine. -/
theorem Inv.checked_evicted (h : s.Inv g) (hn : n ∈ g.nodes .live)
    (hsmallFreed : ∀ m ∈ g.freed, (s.quarantine.record m).memblk.bufsize < 2147483648)
    (hun : Unregistered env (s.blocks.record n).usrptr s g n new c evicted log evictLog u g')
    {old : ℕ} (hold : old ∈ evicted) : s.Watches (s.freedWatch old) ∧
      Checked (∃ y, monitor.Broken s (s.freedWatch old) y) (s.freedWatch old).usrptr evictLog := by
  have hin := h.evicted_mem hun hold
  obtain ⟨rc', hcheck'⟩ := hun.evictCheck old hold
  have hchecked := checked_freed ((h.guardedFreed old hin).end_le h.heap) (hsmallFreed old hin).le
    hcheck'
  refine ⟨h.watches_iff.2 (.inr ⟨old, hin, rfl⟩), hchecked.congr ?_⟩
  rw [exists_broken_freed_iff, FreedDamaged]
  -- the block that has just been freed has another buffer
  have hapart := (h.guardedFreed old hin).apart h.heap (h.guarded n hn) (h.buf_ne hn hin).symm
  refine not_congr (forall_congr' fun y ↦ imp_congr_right fun hy ↦ imp_congr_right fun hy' ↦ ?_)
  rw [hun.heap]
  show poisoned _ _ y = _ ↔ _
  rw [poisoned_of_notMem _ (by omega)]

/-- The block that is freed is reported if it was damaged, and so is the block that leaves the
quarantine for it. -/
theorem Inv.announced_unregistered (h : s.Inv g) (hn : n ∈ g.nodes .live)
    (hsmall : (s.blocks.record n).memblk.bufsize < 2147483648)
    (hsmallFreed : ∀ m ∈ g.freed, (s.quarantine.record m).memblk.bufsize < 2147483648)
    (hcheck : mcCheckAllocatedBuffer (s.blocks.record n).memblk (s.blocks.record n).usrptr
      (s.printCallstack (s.blocks.record n).allocator 2) freeing s.heap = some (rc, log))
    (hun : Unregistered env (s.blocks.record n).usrptr s g n new c evicted log evictLog u g')
    (hmid : ∀ e ∈ mid, e.isIdle)
    (hw : w = s.liveWatch n ∨ ∃ old ∈ evicted, w = s.freedWatch old)
    (hbroken : ∃ y, monitor.Broken s w y) : monitor.Announced w (log ++ (mid ++ evictLog)) := by
  have hchecked := h.checked_liveWatch hn hsmall hcheck
  rcases hw with rfl | ⟨old, hold, rfl⟩
  · obtain ⟨e, es, rfl, he⟩ := hchecked.reported hbroken
    exact ⟨[], e, es ++ (mid ++ evictLog), by simp, he, by simp⟩
  · obtain ⟨e, es, rfl, he⟩ := (h.checked_evicted hn hsmallFreed hun hold).2.reported hbroken
    refine ⟨log ++ mid, e, es, by simp, he, fun d hd ↦ ?_⟩
    rcases List.mem_append.1 hd with hd | hd
    · exact not_gave_of_isDamage (hchecked.isDamage d hd) _
    · show Transfer.gave _ ∉ d.transfers
      rw [(hmid d hd).1]
      exact List.not_mem_nil

/-- A block that goes to the quarantine is checked, and so is the block that leaves the quarantine
for it. -/
theorem Inv.tended_unregistered (h : s.Inv g) (hn : n ∈ g.nodes .live)
    (hsmall : (s.blocks.record n).memblk.bufsize < 2147483648)
    (hsmallFreed : ∀ m ∈ g.freed, (s.quarantine.record m).memblk.bufsize < 2147483648)
    (hcheck : mcCheckAllocatedBuffer (s.blocks.record n).memblk (s.blocks.record n).usrptr
      (s.printCallstack (s.blocks.record n).allocator 2) freeing s.heap = some (rc, log))
    (hun : Unregistered env (s.blocks.record n).usrptr s g n new c evicted log evictLog u g')
    (hmid : ∀ e ∈ mid, e.isIdle) : monitor.Tended s (log ++ (mid ++ evictLog)) u := by
  obtain ⟨hforth, hback⟩ := h.watches_unregistered hn hun
  have hguarded := h.guarded n hn
  have hlive : s.Watches (s.liveWatch n) := h.watches_iff.2 (.inl ⟨n, hn, rfl⟩)
  have hmem : u.heap.mem = poisoned (s.blocks.record n).memblk s.heap.mem := by rw [hun.heap]
  -- the bytes of the other blocks
  have hsame : ∀ w y, s.Watches w → w.memblk.buf ≠ (s.blocks.record n).memblk.buf → w.Guards y →
      u.heap.mem y = s.heap.mem y := by
    intro w y hw hne hy
    have hapart := (h.guarded_of_watches hw).apart h.heap hguarded hne
    have hin := hy.mem
    rw [hmem]
    exact poisoned_of_notMem _ (by omega)
  -- the two checks
  have hchecked := h.checked_liveWatch hn hsmall hcheck
  have hevictLog : ∀ e ∈ evictLog, ∃ old ∈ evicted, e ∈ evictLog := by
    intro e he
    cases hev : evicted with
    | none =>
      rw [hun.evictLog_eq_nil hev] at he
      exact absurd he List.not_mem_nil
    | some old => exact ⟨old, rfl, he⟩
  have hkept : ∀ e ∈ log ++ (mid ++ evictLog), ∀ b, .gave b ∉ e.transfers := by
    intro e he b
    rcases List.mem_append.1 he with he | he
    · exact not_gave_of_isDamage (hchecked.isDamage e he) b
    · rcases List.mem_append.1 he with he | he
      · rw [(hmid e he).1]
        exact List.not_mem_nil
      · obtain ⟨old, hold, -⟩ := hevictLog e he
        exact not_gave_of_isDamage
          ((h.checked_evicted hn hsmallFreed hun hold).2.isDamage e he) b
  refine ⟨fun w y hw hbroken ↦ ?_, fun w y hw hbroken ↦ ?_, fun e he p hp ↦ ?_⟩
  · have hannounced := fun hw ↦ h.announced_unregistered (w := w) hn hsmall hsmallFreed hcheck hun
      hmid hw ⟨y, hbroken⟩
    rcases hforth w hw with hw' | ⟨hne, hw' | hw'⟩
    · exact .inl (hannounced (.inl hw'))
    · exact .inl (hannounced (.inr hw'))
    · refine .inr ⟨hw', ⟨hbroken.1, ?_⟩, fun d hd ↦ hkept d hd _⟩
      rw [hsame w y hw hne hbroken.1]
      exact hbroken.2
  · rcases hback w hw with rfl | ⟨hne, hw'⟩
    · -- the block that has just been freed
      have hdamaged := exists_broken_freed_iff.1 ⟨y, hbroken⟩
      rw [FreedDamaged, hun.newRecord, hmem] at hdamaged
      exact absurd (poisoned_poisoned _ _) hdamaged
    · refine ⟨hw', y, hbroken.1, ?_⟩
      rw [← hsame w y hw' hne hbroken.1]
      exact hbroken.2
  · rcases List.mem_append.1 he with he | he
    · obtain ⟨rfl, y, hbroken⟩ := hchecked.deserved e he p hp
      exact ⟨_, y, hlive, hbroken, rfl⟩
    · rcases List.mem_append.1 he with he | he
      · exact absurd hp ((hmid e he).2 p)
      · obtain ⟨old, hold, -⟩ := hevictLog e he
        obtain ⟨hw, hchecked'⟩ := h.checked_evicted hn hsmallFreed hun hold
        obtain ⟨rfl, y, hbroken⟩ := hchecked'.deserved e he p hp
        exact ⟨_, y, hw, hbroken, rfl⟩

end Release

/-! ### Full checks -/

/-- What is logged on the way is tended to. -/
def Tends (s t : State) : Prop :=
  ∃ es, t.trace = s.trace ++ es ∧ monitor.Tended s es t

theorem Tends.refl (s : State) : s.Tends s :=
  ⟨[], (List.append_nil _).symm, .refl s⟩

theorem Tends.trans {v : State} (h : s.Tends u) (h' : u.Tends v) : s.Tends v := by
  obtain ⟨es, htrace, htended⟩ := h
  obtain ⟨es', htrace', htended'⟩ := h'
  exact ⟨es ++ es', by rw [htrace', htrace, List.append_assoc], htended.trans htended'⟩

/-- The block is reported on, before its buffer is given back. -/
def Announces (s : State) (w : Watch) (t : State) : Prop :=
  ∃ es, t.trace = s.trace ++ es ∧ monitor.Announced w es

/-- Damage that is there before a step that is tended to is reported, if it is reported where it is
there after the step. -/
theorem Tends.announces (h : s.Tends u) (hw : s.Watches w) (hbroken : monitor.Broken s w y)
    (hgrown : u.trace <+: t.trace)
    (hrest : u.Watches w → monitor.Broken u w y → u.Announces w t) : s.Announces w t := by
  obtain ⟨es, htrace, htended⟩ := h
  rcases htended.alert w y hw hbroken with hannounced | ⟨hw', hbroken', hkept⟩
  · obtain ⟨es', heq⟩ := hgrown
    exact ⟨es ++ es', by rw [← heq, htrace, List.append_assoc], hannounced.append es'⟩
  · obtain ⟨es', htrace', hannounced⟩ := hrest hw' hbroken'
    exact ⟨es ++ es', by rw [htrace', htrace, List.append_assoc], hannounced.after hkept⟩

/-- A full check leaves nothing broken. -/
theorem Inv.whole_checkAll (h : s.Inv g) (hsmall : s.SmallBufs) {ret : ℤ}
    (hrun : Memchk.mcCheckAllMemblk s = some (ret, t)) (p : ℕ) : monitor.Whole p t := by
  obtain ⟨-, l₁, l₂, h₁, h₂, hins⟩ := (h.mcCheckAllMemblk hsmall).value _ hrun
  have hfull := h.fullCheck hsmall h₁ h₂ hins
  have ht : t.Inv g := h.inspected hins
  intro w hw _ y hbroken
  rcases ht.watches_iff.1 hw with ⟨n, hn, rfl⟩ | ⟨n, hn, rfl⟩
  · have hdamaged := (ht.exists_broken_live_iff hn).1 ⟨y, hbroken⟩
    exact hfull.intact n (h.isLive_iff.2 hn) hdamaged
  · have hdamaged := exists_broken_freed_iff.1 ⟨y, hbroken⟩
    exact hfull.poisoned n (h.isFreed_iff.2 hn) hdamaged

/-- A full check reports on every block that is damaged, and on no other. -/
theorem Inv.tends_checkAll (h : s.Inv g) (hsmall : s.SmallBufs) {ret : ℤ}
    (hrun : Memchk.mcCheckAllMemblk s = some (ret, t)) : s.Tends t := by
  obtain ⟨-, l₁, l₂, h₁, h₂, hins⟩ := (h.mcCheckAllMemblk hsmall).value _ hrun
  have hlive : ∀ n ∈ g.nodes .live, Checked (∃ y, monitor.Broken s (s.liveWatch n) y)
      (s.liveWatch n).usrptr ((s.liveZone n).log s.heap.mem) := fun n hn ↦
    (checked_liveZone (h.fits hsmall hn)).congr (h.exists_broken_live_iff hn).symm
  have hfreed : ∀ n ∈ g.freed, Checked (∃ y, monitor.Broken s (s.freedWatch n) y)
      (s.freedWatch n).usrptr ((s.freedZone n).log s.heap.mem) := fun n hn ↦
    (checked_freedZone ((h.guardedFreed n hn).end_le h.heap)
      (hsmall.freed n (h.isFreed_iff.2 hn))).congr exists_broken_freed_iff.symm
  -- each zone is that of a block, and each block has one
  have hzone : ∀ z ∈ l₁.map s.liveZone ++ l₂.map s.freedZone, ∃ w, s.Watches w ∧
      Checked (∃ y, monitor.Broken s w y) w.usrptr (z.log s.heap.mem) := by
    intro z hz
    rcases List.mem_append.1 hz with hz | hz
    · obtain ⟨n, hn, rfl⟩ := List.mem_map.1 hz
      exact ⟨_, h.watches_iff.2 (.inl ⟨n, h₁.subset hn, rfl⟩), hlive n (h₁.subset hn)⟩
    · obtain ⟨n, hn, rfl⟩ := List.mem_map.1 hz
      exact ⟨_, h.watches_iff.2 (.inr ⟨n, h₂.subset hn, rfl⟩), hfreed n (h₂.subset hn)⟩
  have hblock : ∀ w, s.Watches w → ∃ z ∈ l₁.map s.liveZone ++ l₂.map s.freedZone,
      Checked (∃ y, monitor.Broken s w y) w.usrptr (z.log s.heap.mem) := by
    intro w hw
    rcases h.watches_iff.1 hw with ⟨n, hn, rfl⟩ | ⟨n, hn, rfl⟩
    · exact ⟨_, List.mem_append_left _ (List.mem_map_of_mem (h₁.mem_iff.2 hn)), hlive n hn⟩
    · exact ⟨_, List.mem_append_right _ (List.mem_map_of_mem (h₂.mem_iff.2 hn)), hfreed n hn⟩
  refine ⟨_, congrArg State.trace hins.state, fun w y hw hbroken ↦ ?_, fun w y hw hbroken ↦ ?_,
    fun e he p hp ↦ ?_⟩
  · obtain ⟨z, hz, hchecked⟩ := hblock w hw
    obtain ⟨e, es, hlog, he⟩ := hchecked.reported ⟨y, hbroken⟩
    have hmem : e ∈ (l₁.map s.liveZone ++ l₂.map s.freedZone).flatMap fun z ↦ z.log s.heap.mem :=
      List.mem_flatMap.2 ⟨z, hz, by rw [hlog]; exact List.mem_cons_self⟩
    obtain ⟨front, back, hsplit⟩ := List.append_of_mem hmem
    refine .inl ⟨front, e, back, hsplit, he, fun d hd ↦ ?_⟩
    have hd' : d ∈ (l₁.map s.liveZone ++ l₂.map s.freedZone).flatMap fun z ↦ z.log s.heap.mem := by
      rw [hsplit]
      exact List.mem_append_left _ hd
    obtain ⟨z', hz', hdlog⟩ := List.mem_flatMap.1 hd'
    obtain ⟨w', -, hchecked'⟩ := hzone z' hz'
    exact not_gave_of_isDamage (hchecked'.isDamage d hdlog) _
  · exact absurd hbroken (h.whole_checkAll hsmall hrun _ w hw rfl y)
  · obtain ⟨z, hz, hlog⟩ := List.mem_flatMap.1 he
    obtain ⟨w, hw, hchecked⟩ := hzone z hz
    obtain ⟨rfl, y, hbroken⟩ := hchecked.deserved e hlog p hp
    exact ⟨w, y, hw, hbroken, rfl⟩

/-- A full check reports on every block that is damaged. -/
theorem Inv.announces_checkAll (h : s.Inv g) (hsmall : s.SmallBufs) {ret : ℤ}
    (hrun : Memchk.mcCheckAllMemblk s = some (ret, t)) (hw : s.Watches w)
    (hbroken : monitor.Broken s w y) : s.Announces w t :=
  (h.tends_checkAll hsmall hrun).announces hw hbroken (List.prefix_refl _) fun hw' hbroken' ↦
    absurd hbroken' (h.whole_checkAll hsmall hrun _ w hw' rfl y)

end State

end Memchk
