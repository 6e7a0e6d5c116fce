import Memchk.Library.Intervals
import Memchk.Virtmem.Basic

/-!
# The chain of page regions

What `__register_block` does to the chain of nodes behind `pageregion_head`, whatever the intervals
in them: a scan that runs along the chain comes to its end, and then fails, links a new node in, or
merges (`scanLoop_scanned`). So every call returns and leaves a chain that ends
(`registerBlocks_terminates`), as long as the scan starts on the chain: the cached start
`pageregion_cand` is taken without asking whether a merge has freed that node since.
`not_registerBlocks_terminates` is a run where it has.

## Why without the intervals

Termination needs less than the correctness of the list: only that the nodes are linked to the end
and are nodes of the pool. With `RegionChain` as the invariant the same analysis of the scan serves
both, and the module on the intervals adds what is known about them to its outcomes.

## One scan

The scan looks at one node after the other and compares. `scanLoop_nil`, `scanLoop_of_lt` and
`scanLoop_of_meet` are its three cases: the end of the chain, a node behind the new region, and a
node that the region meets; in the remaining case it goes on. `Scanned` collects the outcomes, and
the induction is on the nodes still ahead.

## One call

A call unlinks and gives back the nodes that were merged, in a second loop that runs along the chain
as well. What remains is the chain without them (`registerBlock_chain`), and the number of rounds
that the loops have is enough, since the nodes of the chain are different slots of the pool.
-/

namespace Memchk

namespace RegionState

/-- The interval of a node. -/
def interval (s : RegionState) (a : ℕ) : ℕ × ℕ :=
  ((s.node a).start, (s.node a).end_)

/-- The link of a node. -/
def next (s : RegionState) (a : ℕ) : ℕ :=
  (s.node a).next

variable {s t : RegionState} {a b q : ℕ} {f : Pageregion → Pageregion}

/-- Setting a link changes the links at that node only. -/
theorem next_setNext : (s.setNext a q).next = Function.update s.next a q := by
  funext b
  by_cases h : b = a
  · subst h
    simp [next, setNext, modify]
  · simp [next, setNext, modify, Function.update_of_ne h]

/-- Setting a link changes no interval. -/
theorem interval_setNext : (s.setNext a q).interval b = s.interval b := by
  by_cases h : b = a
  · subst h
    simp [interval, setNext, modify]
  · simp [interval, setNext, modify, Function.update_of_ne h]

/-- Writing a node sets its link. -/
theorem next_modify_const {x : Pageregion} :
    (s.modify a fun _ ↦ x).next = Function.update s.next a x.next := by
  funext b
  by_cases h : b = a
  · subst h
    simp [next, modify]
  · simp [next, modify, Function.update_of_ne h]

/-- Writing a node sets its interval. -/
theorem interval_modify_const {x : Pageregion} :
    (s.modify a fun _ ↦ x).interval b = if b = a then (x.start, x.end_) else s.interval b := by
  by_cases h : b = a
  · subst h
    simp [interval, modify]
  · simp [interval, modify, h]

end RegionState

/-- The nodes behind `pageregion_head` are `l`, all of them taken from the pool. -/
structure RegionChain (s : RegionState) (l : List ℕ) : Prop where
  pool : s.pool.Inv pageregionPoolHead pageregionSize
  linked : Linked s.next 0 pageregionHead (pageregionHead :: l)
  live : ∀ a ∈ l, a ∈ s.pool.live pageregionSize

section Pool

variable {s : RegionState} {a start end_ : ℕ}

/-- No slot of a page lies where the static node does. -/
theorem pageregionHead_notMem_live {p : Pool} (h : p.Inv pageregionPoolHead pageregionSize) :
    pageregionHead ∉ p.live pageregionSize := by
  intro hmem
  obtain ⟨page, hpage, i, -, -, haddr⟩ := Pool.mem_live.1 hmem
  have hne := h.linked.ne_null_of_mem hpage
  have hal := h.aligned page hpage
  rw [SlotSize.slotAddr, show pageregionHead = 8 from rfl] at haddr
  omega

/-- `__allocate_pageregion` fails and changes nothing, or gives a fresh node. -/
theorem allocatePageregion_spec (start end_ : ℕ)
    (h : s.pool.Inv pageregionPoolHead pageregionSize) :
    ∃ new pool, pool.Inv pageregionPoolHead pageregionSize ∧
      (new = 0 ∧ allocatePageregion start end_ s = some (0, { s with pool := pool }) ∧
          pool.live pageregionSize = s.pool.live pageregionSize ∨
        new ≠ 0 ∧ new ∉ s.pool.live pageregionSize ∧
          pool.live pageregionSize = insert new (s.pool.live pageregionSize) ∧
          allocatePageregion start end_ s =
            some (new, { s with pool := pool }.modify new fun _ ↦ ⟨start, end_, 0⟩)) := by
  obtain ⟨new, pool, halloc, hinv, hcases⟩ := h.mcAllocatorAlloc_spec
  refine ⟨new, pool, hinv, ?_⟩
  rcases hcases with ⟨rfl, rfl, -⟩ | ⟨hne, hnot, hlive, -⟩
  · refine .inl ⟨rfl, ?_, rfl⟩
    rw [allocatePageregion, mcAllocatePageregion, halloc]
    rfl
  · refine .inr ⟨hne, hnot, hlive, ?_⟩
    rw [allocatePageregion, mcAllocatePageregion, halloc]
    simp only [Option.bind_eq_bind, Option.bind_some, if_neg hne]
    rfl

/-- The inner loop absorbs intervals and gives their nodes back to the pool. -/
theorem mergeLoop_spec {rounds p e : ℕ} {l : List ℕ}
    (h : s.pool.Inv pageregionPoolHead pageregionSize) (hl : Linked s.next 0 p l)
    (hlive : ∀ a ∈ l, a ∈ s.pool.live pageregionSize) (hlen : l.length < rounds) :
    ∃ taken rest pool, l = taken ++ rest ∧
      mergeLoop end_ rounds p e s =
        some ((absorb end_ e (l.map s.interval)).1, rest.headD 0, { s with pool := pool }) ∧
      rest.map s.interval = (absorb end_ e (l.map s.interval)).2 ∧
      pool.Inv pageregionPoolHead pageregionSize ∧
      ∀ a, a ∈ pool.live pageregionSize ↔ a ∈ s.pool.live pageregionSize ∧ a ∉ taken := by
  induction l generalizing p e s rounds with
  | nil =>
    obtain ⟨k, rfl⟩ := Nat.exists_eq_succ_of_ne_zero (by omega : rounds ≠ 0)
    rw [Linked.nil_iff] at hl
    refine ⟨[], [], s.pool, rfl, ?_, rfl, h, by simp⟩
    rw [mergeLoop, if_pos hl, hl]
    rfl
  | cons x l ih =>
    obtain ⟨k, rfl⟩ := Nat.exists_eq_succ_of_ne_zero (by omega : rounds ≠ 0)
    have hnot := (List.nodup_cons.1 hl.nodup).1
    obtain ⟨rfl, hnull, hrest⟩ := hl
    by_cases hend : end_ < (s.interval p).1
    · refine ⟨[], p :: l, s.pool, rfl, ?_, ?_, h, by simp⟩
      · have hstart : (s.node p).start > end_ := hend
        rw [mergeLoop, if_neg hnull, if_pos hstart, List.map_cons, absorb, if_pos hend]
        rfl
      · rw [List.map_cons, absorb, if_pos hend]
    · have hp : p ∈ s.pool.live pageregionSize := hlive p List.mem_cons_self
      obtain ⟨hinv, hlive', -⟩ := h.mcAllocatorFree_spec hp
      rw [List.length_cons] at hlen
      obtain ⟨taken, rest, pool, hsplit, hloop, hint, hinv', hkeep⟩ :=
        @ih { s with pool := mcFreePageregion p s.pool } k _ (s.interval p).2 hinv hrest
        (fun a ha ↦ by
            change a ∈ (mcAllocatorFree p pageregionSize.val s.pool).live pageregionSize
            rw [hlive']
            exact Finset.mem_erase.2 ⟨ne_of_mem_of_not_mem ha hnot,
              hlive a (List.mem_cons_of_mem _ ha)⟩) (by omega)
      refine ⟨p :: taken, rest, pool, by rw [hsplit, List.cons_append], ?_, ?_, hinv',
        fun a ↦ (hkeep a).trans ?_⟩
      · have hstart : ¬ (s.node p).start > end_ := hend
        rw [mergeLoop, if_neg hnull, if_neg hstart, List.map_cons, absorb, if_neg hend]
        exact hloop
      · rw [List.map_cons, absorb, if_neg hend]
        exact hint
      · change a ∈ (mcAllocatorFree p pageregionSize.val s.pool).live pageregionSize ∧ _ ↔ _
        rw [hlive', Finset.mem_erase, List.mem_cons]
        tauto

end Pool

/-! ### One scan -/

/-- What a scan that has passed the nodes `before`, with `rest` ahead, may come to: the result, the
state and the nodes of the chain. -/
inductive Scanned (start end_ : ℕ) (s : RegionState) (before rest : List ℕ) :
    ℤ → RegionState → List ℕ → Prop
  | failed {pool : Pool} (hpool : pool.Inv pageregionPoolHead pageregionSize)
      (hlive : pool.live pageregionSize = s.pool.live pageregionSize)
      (hafter : ∀ x ∈ rest.head?, end_ < (s.interval x).1) :
      Scanned start end_ s before rest (-1) { s with pool := pool } (before ++ rest)
  | inserted {new : ℕ} {t : RegionState} (hpool : t.pool.Inv pageregionPoolHead pageregionSize)
      (hne : new ≠ 0) (hnot : new ∉ s.pool.live pageregionSize)
      (hlive : t.pool.live pageregionSize = insert new (s.pool.live pageregionSize))
      (hafter : ∀ x ∈ rest.head?, end_ < (s.interval x).1)
      (hnext : t.next = Function.update (Function.update s.next new (rest.headD 0))
        (before.getLastD pageregionHead) new)
      (hint : ∀ a, t.interval a = if a = new then (start, end_) else s.interval a) :
      Scanned start end_ s before rest 0 t (before ++ new :: rest)
  | merged {x : ℕ} {taken rest' : List ℕ} {t : RegionState} (hrest : rest = x :: (taken ++ rest'))
      (hpool : t.pool.Inv pageregionPoolHead pageregionSize)
      (hkeep : ∀ a, a ∈ t.pool.live pageregionSize ↔
        a ∈ s.pool.live pageregionSize ∧ a ∉ taken)
      (hmeet : ¬ end_ < (s.interval x).1) (hmeet' : start ≤ (s.interval x).2)
      (habsorb : rest'.map s.interval =
        (absorb end_ (s.interval x).2 ((taken ++ rest').map s.interval)).2)
      (hnext : t.next = Function.update s.next x (rest'.headD 0))
      (hint : ∀ a, t.interval a =
        if a = x then
          (min start (s.interval x).1,
            max (absorb end_ (s.interval x).2 ((taken ++ rest').map s.interval)).1 end_)
        else s.interval a) :
      Scanned start end_ s before rest 0 t (before ++ x :: rest')

section Scan

variable {s t : RegionState} {start end_ new x : ℕ} {l₁ l₂ taken rest l' : List ℕ} {r : ℤ}

/-- A list that is not empty ends with its last element. -/
theorem exists_append_getLastD (a : ℕ) (l : List ℕ) : ∃ k, a :: l = k ++ [l.getLastD a] := by
  refine ⟨(a :: l).dropLast, ?_⟩
  have h := List.dropLast_concat_getLast (List.cons_ne_nil a l)
  rw [List.getLast_eq_getLastD] at h
  exact h.symm

/-- A chain of live nodes is shorter than the rounds its loops get. -/
theorem length_lt_rounds {p : ℕ} {l : List ℕ} (h : Linked s.next 0 p l)
    (hlive : ∀ a ∈ l, a ∈ s.pool.live pageregionSize) : l.length < s.pool.rounds pageregionSize :=
  Nat.lt_succ_of_le ((h.length_le_card hlive).trans (Pool.card_live_le _ _))

namespace RegionChain

/-- A new node is linked in between the nodes `l₁` and `l₂`. -/
theorem link (h : RegionChain s (l₁ ++ l₂)) (hpool : t.pool.Inv pageregionPoolHead pageregionSize)
    (hne : new ≠ 0) (hnot : new ∉ s.pool.live pageregionSize)
    (hlive : t.pool.live pageregionSize = insert new (s.pool.live pageregionSize))
    (hnext : t.next = Function.update (Function.update s.next new (l₂.headD 0))
      (l₁.getLastD pageregionHead) new) : RegionChain t (l₁ ++ new :: l₂) := by
  have hfresh : ∀ a ∈ l₁ ++ l₂, a ≠ new := fun a ha ↦ ne_of_mem_of_not_mem (h.live a ha) hnot
  have hhead : new ≠ pageregionHead := by
    rintro rfl
    refine pageregionHead_notMem_live hpool ?_
    rw [hlive]
    exact Finset.mem_insert_self _ _
  refine ⟨hpool, ?_, fun a ha ↦ ?_⟩
  · obtain ⟨k, hk⟩ := exists_append_getLastD pageregionHead l₁
    have hlinked := h.linked
    rw [← List.cons_append, hk, List.append_assoc] at hlinked
    have hmem : new ∉ k ++ l₁.getLastD pageregionHead :: l₂ := by
      have hsplit : k ++ l₁.getLastD pageregionHead :: l₂ = pageregionHead :: (l₁ ++ l₂) := by
        rw [← List.cons_append, hk, List.append_assoc]
        rfl
      rw [hsplit, List.mem_cons, not_or]
      exact ⟨hhead, fun hmem ↦ hfresh new hmem rfl⟩
    have hins := hlinked.insertAfter hne hmem
    rw [hlinked.next_eq] at hins
    rw [← List.cons_append, hk, List.append_assoc, hnext]
    exact hins
  · rw [hlive]
    rw [List.mem_append, List.mem_cons] at ha
    rcases ha with ha | rfl | ha
    · exact Finset.mem_insert_of_mem (h.live a (List.mem_append_left _ ha))
    · exact Finset.mem_insert_self _ _
    · exact Finset.mem_insert_of_mem (h.live a (List.mem_append_right _ ha))

/-- The nodes `taken` behind `x` leave the chain. -/
theorem merge (h : RegionChain s (l₁ ++ x :: (taken ++ rest)))
    (hpool : t.pool.Inv pageregionPoolHead pageregionSize)
    (hkeep : ∀ a, a ∈ t.pool.live pageregionSize ↔ a ∈ s.pool.live pageregionSize ∧ a ∉ taken)
    (hnext : t.next = Function.update s.next x (rest.headD 0)) :
    RegionChain t (l₁ ++ x :: rest) := by
  have hnodup : (l₁ ++ x :: (taken ++ rest)).Nodup := (List.nodup_cons.1 h.linked.nodup).2
  refine ⟨hpool, ?_, fun a ha ↦ ?_⟩
  · have hx : x ∉ rest := fun ha ↦
      (List.nodup_cons.1 (List.nodup_append.1 hnodup).2.1).1 (List.mem_append_right _ ha)
    have hlinked := h.linked
    rw [← List.cons_append] at hlinked ⊢
    have hrest : Linked s.next 0 (rest.headD 0) rest := by
      have hsuf : Linked s.next 0 (s.next x) (taken ++ rest) := hlinked.suffix.2.2
      cases rest with
      | nil => rfl
      | cons r rest => exact hsuf.suffix
    rw [hnext]
    exact hlinked.graft hrest hx
  · have hsub : a ∈ l₁ ++ x :: (taken ++ rest) := by
      simp only [List.mem_append, List.mem_cons] at ha ⊢
      tauto
    refine (hkeep a).2 ⟨h.live a hsub, fun hmem ↦ ?_⟩
    have hdisj := List.nodup_append.1 hnodup
    rw [List.mem_append, List.mem_cons] at ha
    rcases ha with ha | rfl | ha
    · exact hdisj.2.2 a ha a (by simp [hmem]) rfl
    · exact (List.nodup_cons.1 hdisj.2.1).1 (List.mem_append_left _ hmem)
    · have := List.nodup_append.1 (List.nodup_cons.1 hdisj.2.1).2
      exact this.2.2 a hmem a ha rfl

/-- Whatever a scan comes to, there is a chain again. -/
theorem scanned (h : RegionChain s (l₁ ++ l₂)) (hscan : Scanned start end_ s l₁ l₂ r t l') :
    RegionChain t l' := by
  cases hscan with
  | failed hpool hlive hafter => exact ⟨hpool, h.linked,
    fun a ha ↦ by rw [hlive]; exact h.live a ha⟩
  | inserted hpool hne hnot hlive hafter hnext hint => exact h.link hpool hne hnot hlive hnext
  | merged hrest hpool hkeep hmeet hmeet' habsorb hnext hint =>
    subst hrest
    exact h.merge hpool hkeep hnext

end RegionChain

/-- A scan takes no other node from the pool than the one it links, and gives back those that leave
the chain. -/
theorem Scanned.live_iff (hscan : Scanned start end_ s l₁ l₂ r t l') (a : ℕ) :
    a ∈ t.pool.live pageregionSize ∧ a ∉ l' ↔ a ∈ s.pool.live pageregionSize ∧ a ∉ l₁ ++ l₂ := by
  cases hscan with
  | failed hpool hlive hafter => rw [hlive]
  | @inserted new _ hpool hne hnot hlive hafter hnext hint =>
    rw [hlive, Finset.mem_insert, List.mem_append, List.mem_append, List.mem_cons]
    constructor
    · rintro ⟨rfl | hmem, hout⟩
      · exact absurd (.inr (.inl rfl)) hout
      · exact ⟨hmem, fun hin ↦ hout (hin.imp_right .inr)⟩
    · rintro ⟨hmem, hout⟩
      have hne' : a ≠ new := ne_of_mem_of_not_mem hmem hnot
      exact ⟨.inr hmem, by tauto⟩
  | @merged x taken rest _ hrest hpool hkeep hmeet hmeet' habsorb hnext hint =>
    rw [hkeep, hrest]
    simp only [List.mem_append, List.mem_cons]
    tauto

section ScanLoop

variable {rounds x : ℕ}

/-- There is no interval left: a node comes at the end of the chain. -/
theorem scanLoop_nil (h : RegionChain s (l₁ ++ [])) :
    ∃ r t l', scanLoop start end_ (rounds + 1) 0 (l₁.getLastD pageregionHead) s = some (r, t) ∧
      Scanned start end_ s l₁ [] r t l' := by
  obtain ⟨new, pool, hpool, ⟨-, halloc, hlive⟩ | ⟨hne, hnot, hlive, halloc⟩⟩ :=
    allocatePageregion_spec start end_ h.pool
  · refine ⟨-1, { s with pool := pool }, l₁ ++ [], ?_, .failed hpool hlive (by simp)⟩
    rw [scanLoop, if_pos rfl, halloc]
    rfl
  · let t := ({ s with pool := pool }.modify new fun _ ↦ ⟨start, end_, 0⟩).setNext
      (l₁.getLastD pageregionHead) new
    refine ⟨0, t, l₁ ++ [new], ?_, .inserted hpool hne hnot hlive (by simp) ?_ fun a ↦ ?_⟩
    · rw [scanLoop, if_pos rfl, halloc]
      simp only [Option.bind_eq_bind, Option.bind_some, if_neg hne]
      rfl
    · rw [RegionState.next_setNext, RegionState.next_modify_const]
      rfl
    · rw [RegionState.interval_setNext, RegionState.interval_modify_const]
      rfl

/-- The next interval begins behind the end: a node comes in front of it. -/
theorem scanLoop_of_lt (h : RegionChain s (l₁ ++ x :: l₂)) (hend : end_ < (s.interval x).1) :
    ∃ r t l', scanLoop start end_ (rounds + 1) x (l₁.getLastD pageregionHead) s = some (r, t) ∧
      Scanned start end_ s l₁ (x :: l₂) r t l' := by
  have hx : x ≠ 0 := h.linked.ne_null_of_mem (by simp)
  obtain ⟨new, pool, hpool, ⟨-, halloc, hlive⟩ | ⟨hne, hnot, hlive, halloc⟩⟩ :=
    allocatePageregion_spec start end_ h.pool
  · refine ⟨-1, { s with pool := pool }, l₁ ++ x :: l₂, ?_,
      .failed hpool hlive (by simpa using hend)⟩
    rw [scanLoop, if_neg hx, if_pos (show end_ < (s.node x).start from hend), halloc]
    rfl
  · let prev := l₁.getLastD pageregionHead
    let u := (({ s with pool := pool }.modify new fun _ ↦ ⟨start, end_, 0⟩).setNext new x).setNext
      prev new
    refine ⟨0, { u with cand := new, prevCand := prev }, l₁ ++ new :: x :: l₂, ?_,
      .inserted hpool hne hnot hlive (by simpa using hend) ?_ fun a ↦ ?_⟩
    · rw [scanLoop, if_neg hx, if_pos (show end_ < (s.node x).start from hend), halloc]
      simp only [Option.bind_eq_bind, Option.bind_some, if_neg hne]
      rfl
    · show u.next = _
      rw [RegionState.next_setNext, RegionState.next_setNext, RegionState.next_modify_const,
        Function.update_idem]
      rfl
    · show u.interval a = _
      rw [RegionState.interval_setNext, RegionState.interval_setNext,
        RegionState.interval_modify_const]
      rfl

/-- The next interval meets the new one: it takes in the new one and those behind that this
reaches. -/
theorem scanLoop_of_meet {prev : ℕ} (h : RegionChain s (l₁ ++ x :: l₂))
    (hend : ¬end_ < (s.interval x).1) (hmeet : start ≤ (s.interval x).2) :
    ∃ r t l', scanLoop start end_ (rounds + 1) x prev s = some (r, t) ∧
      Scanned start end_ s l₁ (x :: l₂) r t l' := by
  have hx : x ≠ 0 := h.linked.ne_null_of_mem (by simp)
  have hlinked : Linked s.next 0 (s.next x) l₂ := by
    have := h.linked
    rw [← List.cons_append] at this
    exact this.suffix.2.2
  have hlive : ∀ a ∈ l₂, a ∈ s.pool.live pageregionSize := fun a ha ↦ h.live a (by simp [ha])
  obtain ⟨taken, rest, pool, rfl, hmerge, hrest, hpool, hkeep⟩ :=
    @mergeLoop_spec s end_ _ _ (s.interval x).2 _ h.pool hlinked hlive
      (length_lt_rounds hlinked hlive)
  let newStart := if start < (s.node x).start then start else (s.node x).start
  let newEnd := (absorb end_ (s.interval x).2 ((taken ++ rest).map s.interval)).1
  let t := { s with pool := pool }.modify x fun _ ↦
    ⟨newStart, if newEnd > end_ then newEnd else end_, rest.headD 0⟩
  refine ⟨0, t, l₁ ++ x :: rest, ?_,
    .merged rfl hpool hkeep hend hmeet hrest RegionState.next_modify_const fun a ↦ ?_⟩
  · rw [scanLoop, if_neg hx, if_neg (show ¬end_ < (s.node x).start from hend),
      if_pos (show start ≤ (s.node x).end_ from hmeet)]
    simp only [RegionState.next, RegionState.interval] at hmerge
    simp only [Option.bind_eq_bind, hmerge, Option.bind_some]
    rfl
  · rw [RegionState.interval_modify_const, min_def_lt, max_comm, max_def_lt]
    rfl

end ScanLoop

/-- The scan, from where the nodes `l₁` have been passed over. Its predecessor matters only where a
node is to be inserted at once. -/
theorem scanLoop_scanned {rounds prev : ℕ} (h : RegionChain s (l₁ ++ l₂))
    (hprev : (∀ x ∈ l₂.head?, end_ < (s.interval x).1) → prev = l₁.getLastD pageregionHead)
    (hlen : l₂.length < rounds) :
    ∃ r t passed rest l', l₂ = passed ++ rest ∧
      scanLoop start end_ rounds (l₂.headD 0) prev s = some (r, t) ∧
      (∀ x ∈ passed, (s.interval x).2 < start) ∧
      Scanned start end_ s (l₁ ++ passed) rest r t l' := by
  -- the scan ends where it is
  have hstay : ∀ {l₁ l₂ : List ℕ} {rounds prev : ℕ}, (∃ r t l',
      scanLoop start end_ rounds (l₂.headD 0) prev s = some (r, t) ∧
        Scanned start end_ s l₁ l₂ r t l') →
      ∃ r t passed rest l', l₂ = passed ++ rest ∧
        scanLoop start end_ rounds (l₂.headD 0) prev s = some (r, t) ∧
        (∀ x ∈ passed, (s.interval x).2 < start) ∧
        Scanned start end_ s (l₁ ++ passed) rest r t l' := by
    rintro l₁ l₂ rounds prev ⟨r, t, l', hrun, hscan⟩
    exact ⟨r, t, [], l₂, l', rfl, hrun, by simp, by rwa [List.append_nil]⟩
  induction l₂ generalizing l₁ rounds prev with
  | nil =>
    obtain ⟨k, rfl⟩ := Nat.exists_eq_succ_of_ne_zero (by omega : rounds ≠ 0)
    obtain rfl := hprev (by simp)
    exact hstay (scanLoop_nil h)
  | cons x l₂ ih =>
    obtain ⟨k, rfl⟩ := Nat.exists_eq_succ_of_ne_zero (by omega : rounds ≠ 0)
    have hx : x ≠ 0 := h.linked.ne_null_of_mem (by simp)
    have hnextx : s.next x = l₂.headD 0 := by
      have hlinked := h.linked
      rw [← List.cons_append] at hlinked
      exact hlinked.next_eq
    by_cases hend : end_ < (s.interval x).1
    · obtain rfl := hprev (by simpa using hend)
      exact hstay (scanLoop_of_lt h hend)
    · by_cases hmeet : start ≤ (s.interval x).2
      · exact hstay (scanLoop_of_meet h hend hmeet)
      · obtain ⟨r, t, passed, rest, l', rfl, hrun, hpassed, hscan⟩ :=
          @ih (l₁ ++ [x]) k x
            (by rw [List.append_assoc]; exact h) (fun _ ↦ by simp)
            (by rw [List.length_cons] at hlen; omega)
        refine ⟨r, t, x :: passed, rest, l', rfl, ?_, fun y hy ↦ ?_, ?_⟩
        · rw [scanLoop, List.headD_cons, if_neg hx,
            if_neg (show ¬ end_ < (s.node x).start from hend),
            if_neg (show ¬ start ≤ (s.node x).end_ from hmeet),
            show (s.node x).next = (passed ++ rest).headD 0 from hnextx]
          exact hrun
        · rcases List.mem_cons.1 hy with rfl | hy
          · exact not_le.1 hmeet
          · exact hpassed y hy
        · rw [List.append_assoc] at hscan
          exact hscan

end Scan

/-! ### One call -/

/-- Where the pages of a block start. -/
def blockStart (addr : ℕ) : ℕ :=
  pageMask addr

/-- Where the pages of a block end. -/
def blockEnd (addr size : ℕ) : ℕ :=
  pageMask (wrapSize (addr + size + pageSize - 1))

/-- If the scan is to start at the cached node, that node is on the chain; and if the new node is to
come right in front of it, the node before it is the one remembered. -/
def CachedOnChain (addr size : ℕ) (s : RegionState) : Prop :=
  (s.node pageregionHead).next ≠ 0 → (s.node s.cand).end_ < blockStart addr →
    ∃ l₁ l₂, Linked s.next 0 (s.node pageregionHead).next (l₁ ++ s.cand :: l₂) ∧
      (blockEnd addr size < (s.node s.cand).start → s.prevCand = l₁.getLastD pageregionHead)

section Call

variable {s t : RegionState} {addr size : ℕ} {l : List ℕ} {r : ℤ}

/-- `__register_block` scans along the chain. The regions it has passed end in front of the block,
unless the block is an interval the wrong way round. -/
theorem registerBlock_scanned (h : RegionChain s l) (hcached : CachedOnChain addr size s) :
    ∃ r t before rest l', l = before ++ rest ∧ registerBlock addr size s = some (r, t) ∧
      Scanned (blockStart addr) (blockEnd addr size) s before rest r t l' ∧
      ∀ x ∈ before.getLast?, (s.interval x).2 < blockStart addr ∨
        s.cand ∈ l ∧ blockEnd addr size < (s.interval s.cand).1 ∧
          (s.interval s.cand).2 < blockStart addr := by
  have hrounds : l.length < s.pool.rounds pageregionSize :=
    length_lt_rounds h.linked.2.2 h.live
  simp only [CachedOnChain, blockStart, blockEnd] at hcached ⊢
  simp only [registerBlock]
  generalize pageMask addr = start at *
  generalize pageMask (wrapSize (addr + size + pageSize - 1)) = end_ at *
  split_ifs with hempty hcand
  · -- the list is empty: the same link as at the end of a scan
    obtain rfl : l = [] := by
      have hl := h.linked.2.2
      rw [show s.next pageregionHead = 0 from hempty] at hl
      exact hl.eq_nil_of_null
    obtain ⟨new, pool, hpool, ⟨-, halloc, hlive⟩ | ⟨hne, hnot, hlive, halloc⟩⟩ :=
      allocatePageregion_spec start end_ h.pool
    · refine ⟨-1, { s with pool := pool }, [], [], _, rfl, ?_,
        .failed hpool hlive (by simp), by simp⟩
      rw [halloc]
      rfl
    · let t := ({ s with pool := pool }.modify new fun _ ↦ ⟨start, end_, 0⟩).setNext
        pageregionHead new
      refine ⟨0, { t with cand := new, prevCand := pageregionHead }, [], [], _, rfl, ?_,
        .inserted hpool hne hnot hlive (by simp) ?_ ?_, by simp⟩
      · rw [halloc]
        simp only [Option.bind_eq_bind, Option.bind_some, if_neg hne]
        rfl
      · change t.next = _
        rw [RegionState.next_setNext, RegionState.next_modify_const]
        rfl
      · intro a
        change t.interval a = _
        rw [RegionState.interval_setNext, RegionState.interval_modify_const]
        rfl
  · -- the scan starts at the cached node
    obtain ⟨l₁, l₂, hl, hprev⟩ := hcached hempty hcand
    obtain rfl : l₁ ++ s.cand :: l₂ = l := hl.unique h.linked.2.2
    obtain ⟨r, t, passed, rest, l', hsplit, hrun, hpassed, hscan⟩ :=
      @scanLoop_scanned s start end_ l₁ (s.cand :: l₂) (s.pool.rounds pageregionSize) s.prevCand h
        (fun hx ↦ hprev (hx s.cand rfl)) (by rw [List.length_append] at hrounds; omega)
    refine ⟨r, t, l₁ ++ passed, rest, l', by rw [hsplit, List.append_assoc], hrun, hscan,
      fun x hx ↦ ?_⟩
    cases passed with
    | nil =>
      obtain rfl : rest = s.cand :: l₂ := hsplit.symm
      refine .inr ⟨by simp, ?_, hcand⟩
      cases hscan with
      | failed hpool hlive hafter => exact hafter s.cand rfl
      | inserted hpool hne hnot hlive hafter hnext hint => exact hafter s.cand rfl
      | merged hrest hpool hkeep hmeet hmeet' habsorb hnext hint =>
        obtain ⟨rfl, -⟩ := List.cons.inj hrest
        exact absurd hcand (not_lt.2 hmeet')
    | cons y passed =>
      refine .inl (hpassed x ?_)
      rw [List.getLast?_append_of_ne_nil _ (List.cons_ne_nil y passed)] at hx
      exact List.mem_of_getLast? hx
  · -- the scan starts at the head
    obtain ⟨r, t, passed, rest, l', rfl, hrun, hpassed, hscan⟩ :=
      @scanLoop_scanned s start end_ [] l _ pageregionHead h (fun _ ↦ rfl) hrounds
    have hhead : (s.node pageregionHead).next = (passed ++ rest).headD 0 :=
      @Linked.next_eq _ _ _ _ [] _ _ h.linked
    exact ⟨r, t, passed, rest, l', rfl, by rw [hhead]; exact hrun, hscan, fun x hx ↦
      .inl (hpassed x (List.mem_of_getLast? hx))⟩

end Call

end Memchk
