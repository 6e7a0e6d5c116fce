import Memchk.FreedCheck
import Memchk.Library.Outcome
import Memchk.Library.Zones

/-!
# Blocks as zones

A live block and a freed one as a `Zone`: the region is the buffer, the damage and the repair are
those of the red zones or of the whole buffer, and the log is what the check of `memchk_buffer.c`
writes when it can. Where the sizes are small enough for the `int` arithmetic of the checks, both
are lawful: check and repair agree on the bytes they are about.

## The zones

`liveZone` and `freedZone` take a block and the callstacks that a report on it prints. Damage is the
negation of `Memblk.Intact` and `Memblk.Poisoned`, repairing is `armed` and `poisoned`, and the log
is empty if there is no damage. A zone has no faults: that a callstack is null is a matter of the
check, and `CheckAll` treats it there.

## What the reports say

A report names the pointer and an offset, which is that of a byte that differs from the pattern. The
lemmas say so of the zones, and with the agreement of check and zone they say it of the code.
-/

namespace Memchk

/-- A live block whose allocation has the callstack. -/
def liveZone (x : Memblk) (usrptr : ℕ) (callstack : List ℕ) : Zone ℕ UInt8 Event where
  region := Set.Ico x.buf (x.buf + x.bufsize)
  Damaged mem := ¬x.Intact usrptr mem
  log mem := ((mcCheckAllocatedBuffer x usrptr (some callstack) none ⟨mem, []⟩).map
    Prod.snd).getD []
  repair := armed x usrptr false

/-- A freed block whose allocation and release have the callstacks. -/
def freedZone (x : Memblk) (usrptr : ℕ) (allocTrace freeTrace : List ℕ) :
    Zone ℕ UInt8 Event where
  region := Set.Ico x.buf (x.buf + x.bufsize)
  Damaged mem := ¬x.Poisoned mem
  log mem := ((mcCheckFreedBuffer x usrptr (some allocTrace) (some freeTrace) ⟨mem, []⟩).map
    Prod.snd).getD []
  repair := poisoned x

/-- The bytes of the leading red zone that were written. -/
def Memblk.leadingDamage (x : Memblk) (usrptr : ℕ) (mem : ℕ → UInt8) : Set ℕ :=
  {y | x.buf ≤ y ∧ y < usrptr ∧ mem y ≠ redzonePattern}

/-- The bytes of the trailing red zone that were written. -/
def Memblk.trailingDamage (x : Memblk) (usrptr : ℕ) (mem : ℕ → UInt8) : Set ℕ :=
  {y | usrptr + x.usrsize ≤ y ∧ y < x.buf + x.bufsize ∧ mem y ≠ redzonePattern}

/-- What the check of a live block logs. -/
theorem log_liveZone {x : Memblk} {usrptr : ℕ} {callstack : List ℕ} {mem : ℕ → UInt8} :
    (liveZone x usrptr callstack).log mem =
      ((mcCheckAllocatedBuffer x usrptr (some callstack) none ⟨mem, []⟩).map Prod.snd).getD [] := by
  rw [liveZone]

/-- What the check of a freed block logs. -/
theorem log_freedZone {x : Memblk} {usrptr : ℕ} {allocTrace freeTrace : List ℕ}
    {mem : ℕ → UInt8} : (freedZone x usrptr allocTrace freeTrace).log mem =
      ((mcCheckFreedBuffer x usrptr (some allocTrace) (some freeTrace) ⟨mem, []⟩).map
        Prod.snd).getD [] := by
  rw [freedZone]

section Live

variable {x : Memblk} {usrptr : ℕ} {callstack : List ℕ} {mem mem' : ℕ → UInt8} {h : Heap}

/-- Only the bytes of the red zones matter. -/
theorem Memblk.Shape.intact_congr (hx : x.Shape usrptr)
    (heq : Set.EqOn mem mem' (Set.Ico x.buf (x.buf + x.bufsize))) :
    x.Intact usrptr mem ↔ x.Intact usrptr mem' := by
  obtain ⟨hle, hle'⟩ := hx
  refine and_congr (forall_congr' fun y ↦ ?_) (forall_congr' fun y ↦ ?_)
  · refine imp_congr_right fun hy ↦ imp_congr_right fun hy' ↦ ?_
    rw [heq ⟨hy, by omega⟩]
  · refine imp_congr_right fun hy ↦ imp_congr_right fun hy' ↦ ?_
    rw [heq ⟨by omega, hy'⟩]

/-- An intact block does not need to be armed. -/
theorem Memblk.Intact.armed_eq (h : x.Intact usrptr mem) : armed x usrptr false mem = mem := by
  funext y
  rw [armed]
  split_ifs with hlead hpay hinit htrail
  · exact (h.1 y hlead.1 hlead.2).symm
  · exact absurd hinit id
  · rfl
  · exact (h.2 y htrail.1 htrail.2).symm
  · rfl

/-- The payload is not written when a block is armed again. -/
theorem armed_of_mem_payload {y : ℕ} (hy : usrptr ≤ y) (hy' : y < usrptr + x.usrsize) :
    armed x usrptr false mem y = mem y := by
  rw [armed, if_neg (by omega), if_pos ⟨hy, hy'⟩]
  exact if_neg Bool.false_ne_true

/-- The check of a live block reads its buffer only. -/
theorem Memblk.Fits.mcCheckAllocatedBuffer_congr (hx : x.Fits usrptr)
    (heq : Set.EqOn mem mem' (Set.Ico x.buf (x.buf + x.bufsize)))
    (allocator freeing : Option (List ℕ)) (out out' : List (ℕ × ℕ)) :
    mcCheckAllocatedBuffer x usrptr allocator freeing ⟨mem, out⟩ =
      mcCheckAllocatedBuffer x usrptr allocator freeing ⟨mem', out'⟩ := by
  have hleading := hx.leadingRedzoneSize_eq
  have htrailing := hx.trailingRedzoneSize_eq
  have hshape := hx.toShape
  have hend := hx.end_lt
  obtain ⟨hle, hle'⟩ := hshape
  have hlead : ∀ i < usrptr - x.buf, mem (x.buf + i) = mem' (x.buf + i) := fun i hi ↦
    heq ⟨by omega, by omega⟩
  have htrail : ∀ i < x.buf + x.bufsize - (usrptr + x.usrsize),
      mem (usrptr + x.usrsize + i) = mem' (usrptr + x.usrsize + i) := fun i hi ↦
    heq ⟨by omega, by omega⟩
  have hunder : underRunIndex x usrptr ⟨mem, out⟩ = underRunIndex x usrptr ⟨mem', out'⟩ := by
    rw [underRunIndex, underRunIndex, hleading, Int.toNat_natCast]
    refine List.find?_congr fun i hi ↦ ?_
    show decide (mem _ ≠ _) = decide (mem' _ ≠ _)
    rw [hlead i (List.mem_range.1 hi)]
  have hover : overRunIndex x usrptr ⟨mem, out⟩ = overRunIndex x usrptr ⟨mem', out'⟩ := by
    rw [overRunIndex, overRunIndex, htrailing, Int.toNat_natCast]
    refine List.find?_congr fun i hi ↦ ?_
    have hi' := List.mem_range.1 (List.mem_reverse.1 hi)
    show decide (mem _ ≠ _) = decide (mem' _ ≠ _)
    rw [hx.trailingAddr_eq hi', htrail i hi']
  have hunderReport : underRunReport x usrptr ⟨mem, out⟩ = underRunReport x usrptr
      ⟨mem', out'⟩ := by
    funext i
    simp only [underRunReport, hleading, Int.toNat_natCast]
    rw [List.map_congr_left fun k hk ↦ hlead k (List.mem_range.1 hk)]
  have hoverReport : overRunReport x usrptr ⟨mem, out⟩ = overRunReport x usrptr ⟨mem', out'⟩ := by
    funext i
    simp only [overRunReport, htrailing, Int.toNat_natCast]
    rw [List.map_congr_left fun k hk ↦ ?_]
    have hk' := List.mem_range.1 hk
    rw [wrapSize_of_lt (by omega), htrail k hk']
  simp only [mcCheckAllocatedBuffer, hunder, hover, hunderReport, hoverReport]

/-- The zone of a live block is lawful. -/
theorem Memblk.Fits.lawful_liveZone (hx : x.Fits usrptr) :
    (liveZone x usrptr callstack).Lawful where
  damaged_congr heq := not_congr (hx.toShape.intact_congr heq)
  log_congr heq := by
    rw [log_liveZone, log_liveZone, hx.mcCheckAllocatedBuffer_congr heq _ _ [] []]
  repair_congr heq y hy := by
    show armed x usrptr false _ y = armed x usrptr false _ y
    simp only [armed, heq hy]
  repair_of_notMem mem y hy := armed_of_notMem hx.toShape mem hy
  repair_of_not_damaged mem hdamaged := (not_not.1 hdamaged).armed_eq
  not_damaged_repair mem := not_not_intro (intact_armed hx.toShape mem)

/-- What the check of a live block does, if the callstack is there where it is needed. -/
theorem Memblk.Fits.mcCheckAllocatedBuffer_outcome (hx : x.Fits usrptr)
    (allocator : Option (List ℕ)) (hcallstack : ∀ trace ∈ allocator, trace = callstack) :
    Outcome ((liveZone x usrptr callstack).Damaged h.mem ∧ allocator = none)
      (mcCheckAllocatedBuffer x usrptr allocator none h) fun r ↦
        r.2 = (liveZone x usrptr callstack).log h.mem ∧
        (r.1 ≠ 0 ↔ (liveZone x usrptr callstack).Damaged h.mem) ∧
        ((liveZone x usrptr callstack).Damaged h.mem → allocator ≠ none) := by
  have hlog : (liveZone x usrptr callstack).log h.mem =
      ((mcCheckAllocatedBuffer x usrptr (some callstack) none h).map Prod.snd).getD [] := by
    rw [log_liveZone, hx.mcCheckAllocatedBuffer_congr (Set.eqOn_refl h.mem _) _ _ [] h.outstanding]
  by_cases hintact : x.Intact usrptr h.mem
  · have hdamaged : ¬(liveZone x usrptr callstack).Damaged h.mem := not_not_intro hintact
    rw [hx.mcCheckAllocatedBuffer_of_intact hintact] at hlog ⊢
    exact .some ⟨hlog.symm, iff_of_false (by simp) hdamaged, fun hd ↦ absurd hd hdamaged⟩
  · have hdamaged : (liveZone x usrptr callstack).Damaged h.mem := hintact
    cases allocator with
    | none =>
      refine ⟨fun r hr ↦ ?_, fun _ ↦ ⟨hdamaged, rfl⟩⟩
      -- a report cannot do without the callstack
      obtain ⟨e, es, hes, he⟩ := (hx.mcCheckAllocatedBuffer_of_damaged hintact hr).2
      rw [mcCheckAllocatedBuffer] at hr
      split_ifs at hr with hnone
      · obtain rfl := Option.some.inj hr
        cases hes
      · cases hr
    | some trace =>
      obtain rfl := hcallstack trace rfl
      obtain ⟨r, hr⟩ := Option.isSome_iff_exists.1
        (@mcCheckAllocatedBuffer_isSome x usrptr h (some trace) none rfl)
      rw [hr] at hlog ⊢
      have hret := (hx.mcCheckAllocatedBuffer_of_damaged hintact hr).1
      exact .some ⟨hlog.symm, iff_of_true (by rw [hret]; decide) hdamaged, fun _ ↦ by simp⟩

/-! ### What the reports say -/

/-- The first loop stops at the lowest damaged byte. -/
theorem Memblk.Fits.isLeast_leadingDamage (hx : x.Fits usrptr) {i : ℕ}
    (hi : underRunIndex x usrptr h = some i) :
    IsLeast (x.leadingDamage usrptr h.mem) (x.buf + i) ∧ x.buf + i < usrptr := by
  rw [underRunIndex, hx.leadingRedzoneSize_eq, Int.toNat_natCast, List.find?_range_eq_some] at hi
  obtain ⟨hne, hmem, hbefore⟩ := hi
  have hle := hx.toShape.le
  have hlt := List.mem_range.1 hmem
  refine ⟨⟨⟨Nat.le_add_right _ _, by omega, of_decide_eq_true hne⟩, ?_⟩, by omega⟩
  rintro y ⟨hy, hy', hyne⟩
  by_contra hless
  have := hbefore (y - x.buf) (by omega)
  rw [show x.buf + (y - x.buf) = y by omega] at this
  simp only [hyne, ne_eq, not_false_eq_true, decide_true, Bool.not_true] at this
  exact absurd this Bool.false_ne_true

/-- The second loop stops at the highest damaged byte. -/
theorem Memblk.Fits.isGreatest_trailingDamage (hx : x.Fits usrptr) {i : ℕ}
    (hi : overRunIndex x usrptr h = some i) :
    IsGreatest (x.trailingDamage usrptr h.mem) (usrptr + x.usrsize + i) ∧
      i < x.buf + x.bufsize - (usrptr + x.usrsize) := by
  rw [overRunIndex, hx.trailingRedzoneSize_eq, Int.toNat_natCast,
    List.find?_eq_some_iff_append] at hi
  obtain ⟨hne, front, back, hsplit, hfront⟩ := hi
  have hin : ∀ {k}, k ∈ front ++ i :: back ↔ k < x.buf + x.bufsize - (usrptr + x.usrsize) := by
    intro k
    rw [← hsplit, List.mem_reverse, List.mem_range]
  have hlt : i < x.buf + x.bufsize - (usrptr + x.usrsize) := hin.1 (by simp)
  -- what comes later in the list is smaller
  have hsorted : (front ++ i :: back).Pairwise fun a b ↦ b < a := by
    rw [← hsplit, List.pairwise_reverse]
    exact List.pairwise_lt_range
  have hback := (List.pairwise_cons.1 (List.pairwise_append.1 hsorted).2.1).1
  rw [hx.trailingAddr_eq hlt] at hne
  refine ⟨⟨⟨Nat.le_add_right _ _, by omega, of_decide_eq_true hne⟩, ?_⟩, hlt⟩
  rintro y ⟨hy, hy', hyne⟩
  by_contra hless
  have hk : y - (usrptr + x.usrsize) < x.buf + x.bufsize - (usrptr + x.usrsize) := by omega
  have hfound := hx.trailingAddr_eq hk
  rw [show usrptr + x.usrsize + (y - (usrptr + x.usrsize)) = y by omega] at hfound
  rcases List.mem_append.1 (hin.2 hk) with hmem | hmem
  · have := hfront _ hmem
    rw [hfound] at this
    simp only [hyne, ne_eq, not_false_eq_true, decide_true, Bool.not_true] at this
    exact absurd this Bool.false_ne_true
  · rcases List.mem_cons.1 hmem with heq | hmem
    · omega
    · have := hback _ hmem
      omega

/-- What the two loops report, and the callstack behind it. -/
theorem exists_log_liveZone (x : Memblk) (usrptr : ℕ) (callstack : List ℕ) (mem : ℕ → UInt8) :
    ∃ low high : List Event,
      low = ((underRunIndex x usrptr ⟨mem, []⟩).map (underRunReport x usrptr ⟨mem, []⟩)).toList ∧
      high = ((overRunIndex x usrptr ⟨mem, []⟩).map (overRunReport x usrptr ⟨mem, []⟩)).toList ∧
      (liveZone x usrptr callstack).log mem =
        if low ++ high = [] then [] else low ++ high ++ [.allocatedFrom callstack] := by
  obtain ⟨low, hlow⟩ : ∃ l, l =
    ((underRunIndex x usrptr ⟨mem, []⟩).map (underRunReport x usrptr ⟨mem, []⟩)).toList := ⟨_, rfl⟩
  obtain ⟨high, hhigh⟩ : ∃ l, l =
    ((overRunIndex x usrptr ⟨mem, []⟩).map (overRunReport x usrptr ⟨mem, []⟩)).toList := ⟨_, rfl⟩
  refine ⟨low, high, hlow, hhigh, ?_⟩
  rw [log_liveZone]
  simp only [mcCheckAllocatedBuffer, ← hlow, ← hhigh]
  split_ifs <;> rfl

/-- The lines that the check of a live block logs. -/
theorem mem_log_liveZone {e : Event} (he : e ∈ (liveZone x usrptr callstack).log mem) :
    (∃ i, underRunIndex x usrptr ⟨mem, []⟩ = some i ∧ e = underRunReport x usrptr ⟨mem, []⟩ i) ∨
      (∃ i, overRunIndex x usrptr ⟨mem, []⟩ = some i ∧ e = overRunReport x usrptr ⟨mem, []⟩ i) ∨
        e = .allocatedFrom callstack := by
  obtain ⟨low, high, hlow, hhigh, hlog⟩ := exists_log_liveZone x usrptr callstack mem
  rw [hlog] at he
  split_ifs at he
  · exact absurd he List.not_mem_nil
  · rw [List.mem_append, List.mem_append, List.mem_singleton] at he
    rcases he with (he | he) | he
    · rw [hlow, Option.mem_toList, Option.map_eq_some_iff] at he
      obtain ⟨i, hi, heq⟩ := he
      exact .inl ⟨i, hi, heq.symm⟩
    · rw [hhigh, Option.mem_toList, Option.map_eq_some_iff] at he
      obtain ⟨i, hi, heq⟩ := he
      exact .inr (.inl ⟨i, hi, heq.symm⟩)
    · exact .inr (.inr he)

/-- Whatever the loops find is logged. -/
theorem report_mem_log {e : Event}
    (he : e ∈ ((underRunIndex x usrptr ⟨mem, []⟩).map (underRunReport x usrptr ⟨mem, []⟩)).toList ++
      ((overRunIndex x usrptr ⟨mem, []⟩).map (overRunReport x usrptr ⟨mem, []⟩)).toList) :
    e ∈ (liveZone x usrptr callstack).log mem := by
  obtain ⟨low, high, hlow, hhigh, hlog⟩ := exists_log_liveZone x usrptr callstack mem
  rw [← hlow, ← hhigh] at he
  rw [hlog, if_neg (List.ne_nil_of_mem he)]
  exact List.mem_append_left _ he

end Live

section Freed

variable {x : Memblk} {usrptr : ℕ} {allocTrace freeTrace : List ℕ} {mem mem' : ℕ → UInt8} {h : Heap}

theorem Memblk.poisoned_congr (heq : Set.EqOn mem mem' (Set.Ico x.buf (x.buf + x.bufsize))) :
    x.Poisoned mem ↔ x.Poisoned mem' :=
  forall_congr' fun y ↦ imp_congr_right fun hy ↦ imp_congr_right fun hy' ↦ by rw [heq ⟨hy, hy'⟩]

/-- A poisoned buffer does not need to be poisoned. -/
theorem Memblk.Poisoned.poisoned_eq (h : x.Poisoned mem) : poisoned x mem = mem := by
  funext y
  rw [poisoned]
  split_ifs with hy
  · exact (h y hy.1 hy.2).symm
  · rfl

/-- The scan of a buffer that does not wrap around stops where its bytes say. -/
theorem StopsAt.congr {m : ℕ} (hend : x.buf + x.bufsize ≤ 9223372036854775808)
    (heq : Set.EqOn mem mem' (Set.Ico x.buf (x.buf + x.bufsize))) {out out' : List (ℕ × ℕ)}
    (hm : StopsAt x ⟨mem, out⟩ m) : StopsAt x ⟨mem', out'⟩ m := by
  have hbyte : ∀ j < x.bufsize, mem (wrapSize (x.buf + j)) = mem' (wrapSize (x.buf + j)) := by
    intro j hj
    rw [wrapSize_of_lt (by omega)]
    exact heq ⟨by omega, by omega⟩
  refine ⟨fun hlt ↦ ?_, hm.lt_of_lt, fun j hj ↦ ?_⟩
  · show mem' _ ≠ _
    rw [← hbyte m hlt]
    exact hm.stop hlt
  · show mem' _ = _
    rw [← hbyte j (hm.lt_of_lt j hj)]
    exact hm.mem_of_lt j hj

/-- In a buffer that does not wrap around, written means not poisoned. -/
theorem Memblk.written_iff (hend : x.buf + x.bufsize ≤ 9223372036854775808) :
    x.Written h ↔ ¬x.Poisoned h.mem := by
  rw [Memblk.Poisoned, not_forall]
  constructor
  · rintro ⟨j, hj, hne⟩
    rw [wrapSize_of_lt (by omega)] at hne
    exact ⟨x.buf + j, fun hall ↦ hne (hall (by omega) (by omega))⟩
  · rintro ⟨y, hy⟩
    rw [Classical.not_imp, Classical.not_imp] at hy
    obtain ⟨hle, hlt, hne⟩ := hy
    refine ⟨y - x.buf, by omega, ?_⟩
    rwa [wrapSize_of_lt (by omega), show x.buf + (y - x.buf) = y by omega]

/-- The zone of a freed block is lawful. -/
theorem lawful_freedZone (hsmall : x.bufsize < 2147483648)
    (hend : x.buf + x.bufsize ≤ 9223372036854775808) :
    (freedZone x usrptr allocTrace freeTrace).Lawful where
  damaged_congr heq := not_congr (Memblk.poisoned_congr heq)
  log_congr {mem mem'} heq := by
    obtain ⟨m, hm⟩ := exists_stopsAt x ⟨mem, []⟩
    have hlt := lt_of_le_of_lt hm.le hsmall
    have hm' : StopsAt x ⟨mem', []⟩ m := hm.congr hend heq
    rw [log_freedZone, log_freedZone, hm.mcCheckFreedBuffer_eq hlt, hm'.mcCheckFreedBuffer_eq hlt]
  repair_congr heq y hy := by
    show poisoned x _ y = poisoned x _ y
    simp only [poisoned, heq hy]
  repair_of_notMem mem y hy := poisoned_of_notMem mem hy
  repair_of_not_damaged mem hdamaged := (not_not.1 hdamaged).poisoned_eq
  not_damaged_repair mem := not_not_intro (poisoned_poisoned x mem)

/-- What the check of a freed block does, if the callstacks are there where they are needed. -/
theorem mcCheckFreedBuffer_outcome (hsmall : x.bufsize < 2147483648)
    (hend : x.buf + x.bufsize ≤ 9223372036854775808) (allocator freer : Option (List ℕ))
    (halloc : ∀ trace ∈ allocator, trace = allocTrace)
    (hfree : ∀ trace ∈ freer, trace = freeTrace) :
    Outcome ((freedZone x usrptr allocTrace freeTrace).Damaged h.mem ∧
        (allocator = none ∨ freer = none))
      (mcCheckFreedBuffer x usrptr allocator freer h) fun r ↦
        r.2 = (freedZone x usrptr allocTrace freeTrace).log h.mem ∧
        (r.1 ≠ 0 ↔ (freedZone x usrptr allocTrace freeTrace).Damaged h.mem) ∧
        ((freedZone x usrptr allocTrace freeTrace).Damaged h.mem →
          allocator ≠ none ∧ freer ≠ none) := by
  obtain ⟨m, hm⟩ := exists_stopsAt x h
  have hlt := lt_of_le_of_lt hm.le hsmall
  have hm' : StopsAt x ⟨h.mem, []⟩ m := StopsAt.congr hend (Set.eqOn_refl h.mem _) hm
  have hlog := @log_freedZone x usrptr allocTrace freeTrace h.mem
  have hdamaged : (freedZone x usrptr allocTrace freeTrace).Damaged h.mem ↔ m < x.bufsize := by
    rw [← hm.written_iff, Memblk.written_iff hend]
    rfl
  rw [hm'.mcCheckFreedBuffer_eq hlt] at hlog
  rw [hm.mcCheckFreedBuffer_eq hlt]
  rw [hdamaged]
  split_ifs at hlog ⊢ with hin
  · cases allocator with
    | none => exact .none ⟨hin, .inl rfl⟩
    | some trace =>
      cases freer with
      | none => exact .none ⟨hin, .inr rfl⟩
      | some trace' =>
        obtain rfl := halloc trace rfl
        obtain rfl := hfree trace' rfl
        exact .some ⟨hlog.symm, iff_of_true (by simp) hin, fun _ ↦ by simp⟩
  · exact .some ⟨hlog.symm, iff_of_false (by simp) hin, fun hd ↦ absurd hd hin⟩

/-- The lines that the check of a freed block logs. -/
theorem mem_log_freedZone (hsmall : x.bufsize < 2147483648) {e : Event}
    (he : e ∈ (freedZone x usrptr allocTrace freeTrace).log mem) :
    (∃ i : ℕ, e = .freedArea usrptr x.usrsize (leadingRedzoneSize x usrptr)
        (trailingRedzoneSize x usrptr) i) ∨
      e = .allocatedFrom allocTrace ∨ e = .freedFrom freeTrace := by
  obtain ⟨m, hm⟩ := exists_stopsAt x ⟨mem, []⟩
  rw [log_freedZone, hm.mcCheckFreedBuffer_eq (lt_of_le_of_lt hm.le hsmall)] at he
  split_ifs at he
  · rcases List.mem_cons.1 he with heq | he
    · exact .inl ⟨m, heq⟩
    · rcases List.mem_cons.1 he with heq | he
      · exact .inr (.inl heq)
      · exact .inr (.inr (List.mem_singleton.1 he))
  · exact absurd he List.not_mem_nil

end Freed

end Memchk
