import Memchk.BlockZones
import Memchk.Copies
import Memchk.Exhaustion

/-!
# The full check

`mc_check_all_memblk` is a traversal of the table of live blocks and one of the table of freed
blocks. Each call of a loop body checks one block, logs what it finds and repairs it. The buffers do
not meet, so this is what checking the `Zone` of every block for itself amounts to (`Inspected`), as
long as every report finds the callstacks it prints (`NullReport`). What the check promises
(`FullCheck`) is read off the zones.

## Zones

A `Zone` of the library is a region of the memory with its check, its log and its repair. The zone
of a live block is its red zones, that of a freed block its whole buffer. Zones of different blocks
share no address, so that repairing one changes neither the condition of another nor what is logged
for it, and the order of the walk does not matter.

## One block

`checkAllocMemblk_eq` and `checkFreeMemblk_eq` write out the two loop bodies, and the lemmas on the
checks of a buffer say that they inspect the zone. Both read their callstacks only if there is
something to report, and a null callstack is then a fault.

## All blocks

`Inspected s zs x` is the invariant of both loops: the zones `zs` have been inspected, starting from
`s`. At the end it is the inspection of all zones of the state, and the theorem says that the check
returns if and only if there is no `NullReport`, and what it returns, logs and repairs.
-/

namespace Memchk

namespace State

/-- The node is found in the table of live blocks. -/
def IsLive (s : State) (n : ℕ) : Prop :=
  n ≠ 0 ∧ ∃ usrptr, s.blocks.find .live usrptr = some n

/-- The node is found in the table of freed blocks. -/
def IsFreed (s : State) (n : ℕ) : Prop :=
  n ≠ 0 ∧ ∃ usrptr, s.quarantine.find usrptr = some n

/-- The red zones of the live block are damaged. -/
def LiveDamaged (s : State) (n : ℕ) : Prop :=
  ¬(s.blocks.record n).memblk.Intact (s.blocks.record n).usrptr s.heap.mem

/-- The freed block was written. -/
def FreedDamaged (s : State) (n : ℕ) : Prop :=
  ¬(s.quarantine.record n).memblk.Poisoned s.heap.mem

/-- There is something to report about a block for which a callstack could not be allocated. -/
def NullReport (s : State) : Prop :=
  (∃ n, s.IsLive n ∧ s.LiveDamaged n ∧ (s.blocks.record n).allocator = 0) ∨
    ∃ n, s.IsFreed n ∧ s.FreedDamaged n ∧
      ((s.quarantine.record n).allocator = 0 ∨ (s.quarantine.record n).freer = 0)

/-- The number in a report of an under-run is the distance from the payload down to the lowest
damaged byte, and that in a report of an over-run the distance from the end of the payload to the
end of the highest damaged byte. -/
def TrueReport (s : State) : Event → Prop
  | .underRun _ bytes usrptr usrsize _ => ∃ n a, s.IsLive n ∧ (s.blocks.record n).usrptr = usrptr ∧
      (s.blocks.record n).memblk.usrsize = usrsize ∧
      IsLeast ((s.blocks.record n).memblk.leadingDamage usrptr s.heap.mem) a ∧
      bytes = (usrptr : ℤ) - a
  | .overRun _ bytes usrptr usrsize _ => ∃ n a, s.IsLive n ∧ (s.blocks.record n).usrptr = usrptr ∧
      (s.blocks.record n).memblk.usrsize = usrsize ∧
      IsGreatest ((s.blocks.record n).memblk.trailingDamage usrptr s.heap.mem) a ∧
      bytes = (a : ℤ) + 1 - (usrptr + usrsize)
  | _ => True

/-- All but the bytes of memory and the trace. -/
structure Unchanged (s s' : State) : Prop where
  blocks : s'.blocks = s.blocks
  quarantine : s'.quarantine = s.quarantine
  callstacks : s'.callstacks = s.callstacks
  counters : s'.counters = s.counters
  doNotHook : s'.doNotHook = s.doNotHook
  outstanding : s'.heap.outstanding = s.heap.outstanding

/-- What a full check that returned `ret` in the state `s'` should have done. -/
structure FullCheck (s : State) (ret : ℤ) (s' : State) : Prop where
  ret_iff : ret ≠ 0 ↔ (∃ n, s.IsLive n ∧ s.LiveDamaged n) ∨ ∃ n, s.IsFreed n ∧ s.FreedDamaged n
  reports : ∃ es, s'.trace = s.trace ++ es ∧ (∀ e ∈ es, s.TrueReport e) ∧
    ∀ n, s.IsLive n →
      (((s.blocks.record n).memblk.leadingDamage (s.blocks.record n).usrptr s.heap.mem).Nonempty →
        ∃ atLeast bytes contents, .underRun atLeast bytes (s.blocks.record n).usrptr
          (s.blocks.record n).memblk.usrsize contents ∈ es) ∧
      (((s.blocks.record n).memblk.trailingDamage (s.blocks.record n).usrptr s.heap.mem).Nonempty →
        ∃ atLeast bytes contents, .overRun atLeast bytes (s.blocks.record n).usrptr
          (s.blocks.record n).memblk.usrsize contents ∈ es)
  intact : ∀ n, s.IsLive n → ¬s'.LiveDamaged n
  poisoned : ∀ n, s.IsFreed n → ¬s'.FreedDamaged n
  payload : ∀ n, s.IsLive n → ∀ y, (s.blocks.record n).usrptr ≤ y →
    y < (s.blocks.record n).usrptr + (s.blocks.record n).memblk.usrsize →
    s'.heap.mem y = s.heap.mem y
  unchanged : Unchanged s s'
  again : ∃ s'', mcCheckAllMemblk s' = some (0, s'')

/-- The live block at a node, as a zone. -/
def liveZone (s : State) (n : ℕ) : Zone ℕ UInt8 Event :=
  Memchk.liveZone (s.blocks.record n).memblk (s.blocks.record n).usrptr
    ((s.callstacks.node (s.blocks.record n).allocator).trace.drop 2)

/-- The freed block at a node, as a zone. -/
def freedZone (s : State) (n : ℕ) : Zone ℕ UInt8 Event :=
  Memchk.freedZone (s.quarantine.record n).memblk (s.quarantine.record n).usrptr
    ((s.callstacks.node (s.quarantine.record n).allocator).trace.drop 2)
    ((s.callstacks.node (s.quarantine.record n).freer).trace.drop 2)

/-- The state with other bytes in memory. -/
def withMem (mem : ℕ → UInt8) (s : State) : State :=
  { s with heap := { s.heap with mem := mem } }

/-- The state and the result after the zones have been checked, logged and repaired. -/
structure Inspected (s : State) (zs : List (Zone ℕ UInt8 Event)) (x : State × ℤ) : Prop where
  state : x.1 = (s.withMem (Zone.repaired zs s.heap.mem)).emit (zs.flatMap fun z ↦ z.log s.heap.mem)
  ret : x.2 ≠ 0 ↔ ∃ z ∈ zs, z.Damaged s.heap.mem

/-! ### One block -/

section Blocks

variable {s t : State} {g : Contents} {n : ℕ} {ret : ℤ}

/-- The effect of a loop body on one zone. -/
structure InspectedOne (z : Zone ℕ UInt8 Event) (x x' : State × ℤ) : Prop where
  state : x'.1 = (x.1.withMem (z.repair x.1.heap.mem)).emit (z.log x.1.heap.mem)
  ret : x'.2 ≠ 0 ↔ x.2 ≠ 0 ∨ z.Damaged x.1.heap.mem

/-- Printing a callstack faults for the null pointer only. -/
theorem printCallstack_eq_none_iff {c : ℕ} : s.printCallstack c 2 = none ↔ c = 0 := by
  rw [printCallstack]
  split_ifs with hc
  · exact iff_of_true rfl hc
  · exact iff_of_false (by simp) hc

/-- What is printed is the trace without its first two frames. -/
theorem eq_of_mem_printCallstack {c : ℕ} : ∀ trace ∈ s.printCallstack c 2,
    trace = (s.callstacks.node c).trace.drop 2 := by
  intro trace htrace
  rw [printCallstack] at htrace
  split_ifs at htrace
  · cases htrace
  · exact (Option.mem_some.1 htrace).symm

/-- The loop body over the live blocks. -/
theorem checkAllocMemblk_eq : checkAllocMemblk n (t, ret) =
    (mcCheckAllocatedBuffer (t.blocks.record n).memblk (t.blocks.record n).usrptr
      (t.printCallstack (t.blocks.record n).allocator 2) none t.heap).bind fun r ↦
        if r.1 ≠ 0 then
          (mcSetAllocatedBuffer (t.blocks.record n).memblk (t.blocks.record n).usrptr false
            t.heap).bind fun heap ↦ some (({ t with heap := heap } : State).emit r.2, r.1)
        else some (t.emit r.2, ret) := by
  simp only [checkAllocMemblk, Blocks.record, Option.bind_eq_bind]
  refine congrArg (Option.bind _) (funext fun r ↦ ?_)
  split_ifs <;> rfl

/-- The loop body over the freed blocks. -/
theorem checkFreeMemblk_eq : checkFreeMemblk n (t, ret) =
    (mcCheckFreedBuffer (t.quarantine.record n).memblk (t.quarantine.record n).usrptr
      (t.printCallstack (t.quarantine.record n).allocator 2)
      (t.printCallstack (t.quarantine.record n).freer 2) t.heap).bind fun r ↦
        if r.1 ≠ 0 then
          (mcSetFreedBuffer (t.quarantine.record n).memblk t.heap).bind fun heap ↦
            some (({ t with heap := heap } : State).emit r.2, r.1)
        else some (t.emit r.2, ret) := by
  simp only [checkFreeMemblk, Quarantine.record, Option.bind_eq_bind]
  refine congrArg (Option.bind _) (funext fun r ↦ ?_)
  split_ifs <;> rfl

/-- The body of the first loop. -/
theorem checkAllocMemblk_outcome (ret : ℤ) (hok : t.heap.Ok)
    (hmem : ((t.blocks.record n).memblk.buf, (t.blocks.record n).memblk.bufsize) ∈
      t.heap.outstanding)
    (hx : (t.blocks.record n).memblk.Fits (t.blocks.record n).usrptr) :
    Outcome (t.LiveDamaged n ∧ (t.blocks.record n).allocator = 0) (checkAllocMemblk n (t, ret))
      fun x' ↦ InspectedOne (t.liveZone n) (t, ret) x' ∧
        (t.LiveDamaged n → (t.blocks.record n).allocator ≠ 0) := by
  have hcheck := hx.mcCheckAllocatedBuffer_outcome (h := t.heap)
    (t.printCallstack (t.blocks.record n).allocator 2) eq_of_mem_printCallstack
  rw [← liveZone] at hcheck
  have hlawful : (t.liveZone n).Lawful := hx.lawful_liveZone
  rw [checkAllocMemblk_eq]
  refine (hcheck.weaken ?_).bind ?_
  · rintro ⟨hdamaged, hnone⟩
    exact ⟨hdamaged, printCallstack_eq_none_iff.1 hnone⟩
  rintro r ⟨hlog, hrc, hnonnull⟩
  have hnonnull' : t.LiveDamaged n → (t.blocks.record n).allocator ≠ 0 := fun hdamaged hzero ↦
    hnonnull hdamaged (printCallstack_eq_none_iff.2 hzero)
  by_cases hdamaged : t.LiveDamaged n
  · have hne : r.1 ≠ 0 := hrc.2 hdamaged
    simp only [if_pos hne, @mcSetAllocatedBuffer_eq _ _ false _ hok hmem hx.toShape,
      Option.bind_some, hlog]
    exact .some ⟨⟨rfl, iff_of_true hne (.inr hdamaged)⟩, hnonnull'⟩
  · have hzero : ¬r.1 ≠ 0 := fun hne ↦ hdamaged (hrc.1 hne)
    have hrepair : (t.liveZone n).repair t.heap.mem = t.heap.mem :=
      hlawful.repair_of_not_damaged _ hdamaged
    simp only [if_neg hzero, hlog]
    refine .some ⟨⟨?_, ?_⟩, hnonnull'⟩
    · rw [hrepair]
      rfl
    · exact (or_iff_left hdamaged).symm

/-- The body of the second loop. -/
theorem checkFreeMemblk_outcome (ret : ℤ)
    (hmem : ((t.quarantine.record n).memblk.buf, (t.quarantine.record n).memblk.bufsize) ∈
      t.heap.outstanding)
    (hsmall : (t.quarantine.record n).memblk.bufsize < 2147483648)
    (hend : (t.quarantine.record n).memblk.buf + (t.quarantine.record n).memblk.bufsize ≤
      9223372036854775808) :
    Outcome (t.FreedDamaged n ∧
        ((t.quarantine.record n).allocator = 0 ∨ (t.quarantine.record n).freer = 0))
      (checkFreeMemblk n (t, ret)) fun x' ↦ InspectedOne (t.freedZone n) (t, ret) x' ∧
        (t.FreedDamaged n →
          (t.quarantine.record n).allocator ≠ 0 ∧ (t.quarantine.record n).freer ≠ 0) := by
  have hlawful : (t.freedZone n).Lawful := lawful_freedZone hsmall hend
  rw [checkFreeMemblk_eq]
  refine ((mcCheckFreedBuffer_outcome hsmall hend _ _ eq_of_mem_printCallstack
    eq_of_mem_printCallstack).weaken ?_).bind ?_
  · rintro ⟨hdamaged, hnone⟩
    exact ⟨hdamaged, hnone.imp printCallstack_eq_none_iff.1 printCallstack_eq_none_iff.1⟩
  rintro ⟨rc, log⟩ ⟨rfl, hrc, hnonnull⟩
  have hnonnull' : t.FreedDamaged n →
      (t.quarantine.record n).allocator ≠ 0 ∧ (t.quarantine.record n).freer ≠ 0 := fun hdamaged ↦
    (hnonnull hdamaged).imp (mt printCallstack_eq_none_iff.2) (mt printCallstack_eq_none_iff.2)
  by_cases hdamaged : t.FreedDamaged n
  · have hne : rc ≠ 0 := hrc.2 hdamaged
    simp only [if_pos hne, mcSetFreedBuffer_eq hmem, Option.bind_some]
    exact .some ⟨⟨rfl, iff_of_true hne (.inr hdamaged)⟩, hnonnull'⟩
  · have hzero : ¬rc ≠ 0 := fun hne ↦ hdamaged (hrc.1 hne)
    have hrepair : (t.freedZone n).repair t.heap.mem = t.heap.mem :=
      hlawful.repair_of_not_damaged _ hdamaged
    simp only [if_neg hzero]
    refine .some ⟨⟨?_, ?_⟩, hnonnull'⟩
    · rw [hrepair]
      rfl
    · exact (or_iff_left hdamaged).symm

end Blocks

/-! ### All blocks -/

section Passes

variable {s s' : State} {g : Contents} {n : ℕ} {ret : ℤ} {zs : List (Zone ℕ UInt8 Event)}
  {z : Zone ℕ UInt8 Event} {x x' : State × ℤ}

theorem Inspected.same (h : Inspected s zs x) : Unchanged s x.1 := by
  rw [h.state]
  exact ⟨rfl, rfl, rfl, rfl, rfl, rfl⟩

theorem Inspected.mem (h : Inspected s zs x) : x.1.heap.mem = Zone.repaired zs s.heap.mem := by
  rw [h.state]
  rfl

theorem inspected_nil (s : State) : Inspected s [] (s, 0) := by
  refine ⟨?_, by simp⟩
  show s = { s with trace := s.trace ++ [] }
  rw [List.append_nil]

/-- A zone that does not meet those inspected so far is found as it was. -/
theorem Inspected.step (h : Inspected s zs x) (hapart : Zone.Apart (zs ++ [z]))
    (hone : InspectedOne z x x') : Inspected s (zs ++ [z]) x' := by
  have hmem := h.mem
  have hfront : Set.EqOn x.1.heap.mem s.heap.mem z.region := hmem ▸ hapart.eqOn_front
  have hlawful := hapart.lawful z (by simp)
  refine ⟨?_, ?_⟩
  · rw [hone.state, hlawful.log_congr hfront, hmem, Zone.repaired_append_singleton, h.state]
    simp only [withMem, emit, List.flatMap_append, List.flatMap_cons, List.flatMap_nil,
      List.append_nil, List.append_assoc]
  · rw [hone.ret, h.ret, hlawful.damaged_congr hfront]
    simp only [List.mem_append, List.mem_singleton, or_and_right, exists_or, exists_eq_left]

theorem Inv.isLive_iff (h : s.Inv g) : s.IsLive n ↔ n ∈ g.nodes .live :=
  ⟨fun ⟨hne, _, hfind⟩ ↦ (h.of_find_live hfind hne).1,
    fun hn ↦ ⟨h.blocks.ne_null hn, _, h.find_live hn⟩⟩

theorem Inv.isFreed_iff (h : s.Inv g) : s.IsFreed n ↔ n ∈ g.freed :=
  ⟨fun ⟨hne, _, hfind⟩ ↦ (h.of_find_freed hfind hne).1,
    fun hn ↦ ⟨h.freed_ne_null hn, _, h.find_freed hn⟩⟩

/-- The buffers are small enough for the `int` arithmetic of the checks. -/
structure SmallBufs (s : State) : Prop where
  live : ∀ n, s.IsLive n → (s.blocks.record n).memblk.bufsize < 2147483648
  freed : ∀ n, s.IsFreed n → (s.quarantine.record n).memblk.bufsize < 2147483648

theorem Inv.fits (h : s.Inv g) (hsmall : s.SmallBufs) (hn : n ∈ g.nodes .live) :
    (s.blocks.record n).memblk.Fits (s.blocks.record n).usrptr :=
  ⟨(h.guarded n hn).shape, hsmall.live n (h.isLive_iff.2 hn), (h.guarded n hn).end_le h.heap⟩

/-- The zones of the blocks do not meet. -/
theorem Inv.apart (h : s.Inv g) (hsmall : s.SmallBufs) {l₁ l₂ : List ℕ}
    (h₁ : l₁.Perm (g.nodes .live)) (h₂ : l₂.Perm g.freed) :
    Zone.Apart (l₁.map s.liveZone ++ l₂.map s.freedZone) := by
  have hdisjoint : ∀ {x y : Memblk} {p q : ℕ}, Guarded s.heap x p → Guarded s.heap y q →
      x.buf ≠ y.buf →
        Disjoint (Set.Ico x.buf (x.buf + x.bufsize)) (Set.Ico y.buf (y.buf + y.bufsize)) := by
    intro x y p q hx hy hne
    have := hx.apart h.heap hy hne
    refine Set.disjoint_left.2 fun a ha ha' ↦ ?_
    rw [Set.mem_Ico] at ha ha'
    omega
  have hnodup₁ : l₁.Nodup := h₁.nodup_iff.2 (h.blocks.table .live).nodup
  have hnodup₂ : l₂.Nodup := h₂.nodup_iff.2 h.quarantine.table.nodup
  refine ⟨fun z hz ↦ ?_, List.pairwise_append.2 ⟨?_, ?_, ?_⟩⟩
  · rcases List.mem_append.1 hz with hz | hz
    · obtain ⟨n, hn, rfl⟩ := List.mem_map.1 hz
      exact (h.fits hsmall (h₁.subset hn)).lawful_liveZone
    · obtain ⟨n, hn, rfl⟩ := List.mem_map.1 hz
      have hn' := h₂.subset hn
      exact lawful_freedZone (hsmall.freed n (h.isFreed_iff.2 hn'))
        ((h.guardedFreed n hn').end_le h.heap)
  · rw [List.pairwise_map]
    exact hnodup₁.pairwise_of_forall_ne fun m hm n hn hne ↦ hdisjoint (h.guarded m (h₁.subset hm))
      (h.guarded n (h₁.subset hn)) (h.live_buf_ne (h₁.subset hm) (h₁.subset hn) hne)
  · rw [List.pairwise_map]
    exact hnodup₂.pairwise_of_forall_ne fun m hm n hn hne ↦
      hdisjoint (h.guardedFreed m (h₂.subset hm)) (h.guardedFreed n (h₂.subset hn))
        (h.freed_buf_ne (h₂.subset hm) (h₂.subset hn) hne)
  · intro z hz w hw
    obtain ⟨m, hm, rfl⟩ := List.mem_map.1 hz
    obtain ⟨n, hn, rfl⟩ := List.mem_map.1 hw
    exact hdisjoint (h.guarded m (h₁.subset hm)) (h.guardedFreed n (h₂.subset hn))
      (h.buf_ne (h₁.subset hm) (h₂.subset hn))

/-- A traversal of a table whose body inspects the zone of the node it is called on. `ok` is what
there is to know of a node for which the body has returned. -/
theorem Inspected.forEach {next : State × ℤ → ℕ → ℕ} {head : State × ℤ → ℤ → ℕ}
    {body : ℕ → State × ℤ → Option (State × ℤ)} {hash : ℕ → ℤ} {rounds : ℕ} {is : List ℤ}
    {K : ℤ → List ℕ} {fault : Prop} (zone : ℕ → Zone ℕ UInt8 Event) (ok : ℕ → Prop)
    (h : Inspected s zs x) (hapart : Zone.Apart (zs ++ (is.flatMap K).map zone))
    (hsame : ∀ {z x x'}, InspectedOne z x x' → next x' = next x ∧ head x' = head x)
    (hbody : ∀ n ∈ is.flatMap K, ∀ mem es ret, Set.EqOn mem s.heap.mem (zone n).region →
      Outcome fault (body n ((s.withMem mem).emit es, ret)) fun x' ↦
        InspectedOne (zone n) ((s.withMem mem).emit es, ret) x' ∧ ok n)
    (his : is.Nodup) (hK : Buckets (next x) 0 hash (head x) is K)
    (hrounds : ∀ i ∈ is, (K i).length < rounds) :
    Outcome fault (forEachM next 0 head body rounds is x) fun x' ↦
      Inspected s (zs ++ (is.flatMap K).map zone) x' ∧ ∀ n ∈ is.flatMap K, ok n := by
  let I : List ℕ → State × ℤ → Prop := fun rest x ↦ ∃ done, is.flatMap K = done ++ rest ∧
    Inspected s (zs ++ done.map zone) x ∧ ∀ n ∈ done, ok n
  have hstep : ∀ n rest x, I (n :: rest) x → Ahead (next x) 0 hash n rest →
      Outcome fault (body n x) fun x' ↦ I rest x' ∧ (∀ k ∈ n :: rest, next x' k = next x k) ∧
        ∀ i, i ≠ hash n → head x' i = head x i := by
    rintro n rest ⟨t, ret⟩ ⟨done, hdone, hins, hok⟩ -
    obtain rfl : t = _ := hins.state
    rw [hdone, List.map_append, List.map_cons, ← List.append_assoc] at hapart
    have hone := hbody n (by rw [hdone]; simp) _
      ((zs ++ done.map zone).flatMap fun z ↦ z.log s.heap.mem) ret hapart.eqOn_front
    refine hone.mono ?_
    rintro x' ⟨hx', hn⟩
    obtain ⟨hnext, hhead⟩ := hsame hx'
    refine ⟨⟨done ++ [n], by rw [hdone, List.append_assoc]; rfl, ?_, ?_⟩,
      fun k _ ↦ congrFun hnext k, fun i _ ↦ congrFun hhead i⟩
    · rw [List.map_append, ← List.append_assoc]
      refine hins.step ?_ hx'
      rw [List.append_cons] at hapart
      exact hapart.left
    · intro k hk
      rcases List.mem_append.1 hk with hk | hk
      · exact hok k hk
      · rw [List.mem_singleton.1 hk]
        exact hn
  refine (forEachM_outcome I hstep his hK hrounds ⟨[], rfl, ?_, by simp⟩).mono ?_
  · rwa [List.map_nil, List.append_nil]
  · rintro x' ⟨done, hdone, hins, hok⟩
    rw [List.append_nil] at hdone
    exact hdone ▸ ⟨hins, hok⟩

/-- `mc_check_all_memblk` inspects the zones of all blocks, unless a report lacks a callstack. -/
theorem Inv.mcCheckAllMemblk (h : s.Inv g) (hsmall : s.SmallBufs) :
    Outcome s.NullReport (Memchk.mcCheckAllMemblk s) fun x ↦ ¬s.NullReport ∧
      ∃ l₁ l₂ : List ℕ, l₁.Perm (g.nodes .live) ∧ l₂.Perm g.freed ∧
        Inspected s (l₁.map s.liveZone ++ l₂.map s.freedZone) (x.2, x.1) := by
  -- the chains of both tables, in the order in which they are walked
  obtain ⟨K, hK, hrounds, heq, hperm⟩ := h.blocks.buckets .live
  rw [heq] at hperm
  obtain ⟨K', hK', hperm', hlen'⟩ := HashChains.exists_buckets h.quarantine.table
  have hapart := h.apart hsmall hperm hperm'.symm
  have hblocks : ∀ {z : Zone ℕ UInt8 Event} {x x' : State × ℤ}, InspectedOne z x x' →
      x'.1.blocks = x.1.blocks ∧ x'.1.quarantine = x.1.quarantine := fun hone ↦ by
    rw [hone.state]
    exact ⟨rfl, rfl⟩
  have hleft := hapart.left
  rw [← List.nil_append (List.map s.liveZone _)] at hleft
  rw [Memchk.mcCheckAllMemblk]
  refine Outcome.bind (Inspected.forEach s.liveZone (fun n ↦ s.LiveDamaged n →
    (s.blocks.record n).allocator ≠ 0) (inspected_nil s) hleft
    (fun hone ↦ by simp only [(hblocks hone).1, and_self]) ?_
    (nodup_tableIndices allocMemptrHashtableSize) hK hrounds) ?_
  · intro n hn mem es ret heq
    have hn' := hperm.subset hn
    have hlawful : (s.liveZone n).Lawful := hapart.left.lawful _ (List.mem_map_of_mem hn)
    have hcongr := hlawful.damaged_congr heq
    have hone := checkAllocMemblk_outcome ret (t := (s.withMem mem).emit es) (n := n)
      ⟨h.heap.ne_null, h.heap.end_le, h.heap.apart⟩ (h.guarded n hn').mem (h.fits hsmall hn')
    refine (hone.weaken fun hnull ↦ .inl ⟨n, h.isLive_iff.2 hn', hcongr.1 hnull.1, hnull.2⟩).mono ?_
    exact fun x' hx' ↦ ⟨hx'.1, fun hdamaged ↦ hx'.2 (hcongr.2 hdamaged)⟩
  · rintro x ⟨hins, hlive⟩
    have hx := hins.same.quarantine
    rw [List.nil_append] at hins
    refine Outcome.bind (Inspected.forEach s.freedZone (fun n ↦ s.FreedDamaged n →
      (s.quarantine.record n).allocator ≠ 0 ∧ (s.quarantine.record n).freer ≠ 0) hins hapart
       (fun hone ↦ by simp only [(hblocks hone).2, and_self]) ?_
      (nodup_tableIndices freeMemptrHashtableSize) (by rw [hx]; exact hK') fun i hi ↦ ?_) ?_
    · intro n hn mem es ret heq
      have hn' := hperm'.symm.subset hn
      have hlawful : (s.freedZone n).Lawful :=
        hapart.lawful _ (List.mem_append_right _ (List.mem_map_of_mem hn))
      have hcongr := hlawful.damaged_congr heq
      have hone := checkFreeMemblk_outcome ret (t := (s.withMem mem).emit es) (n := n)
        (h.guardedFreed n hn').mem (hsmall.freed n (h.isFreed_iff.2 hn'))
        ((h.guardedFreed n hn').end_le h.heap)
      refine (hone.weaken fun hnull ↦
        .inr ⟨n, h.isFreed_iff.2 hn', hcongr.1 hnull.1, hnull.2⟩).mono ?_
      exact fun x' hx' ↦ ⟨hx'.1, fun hdamaged ↦ hx'.2 (hcongr.2 hdamaged)⟩
    · rw [hx]
      exact lt_of_le_of_lt (hlen' i hi) h.quarantine.length_lt_rounds
    · rintro y ⟨hins', hfreed⟩
      refine .some ⟨?_, _, _, hperm, hperm'.symm, hins'⟩
      -- both loops have ended, so no report has met a null callstack
      rintro (⟨n, hn, hdamaged, hnull⟩ | ⟨n, hn, hdamaged, hnull⟩)
      · exact hlive n (hperm.mem_iff.2 (h.isLive_iff.1 hn)) hdamaged hnull
      · have hne := hfreed n (hperm'.mem_iff.1 (h.isFreed_iff.1 hn)) hdamaged
        exact hnull.elim hne.1 hne.2

/-! ### What the full check promises -/

/-- The numbers that the reports on a live block give. -/
theorem Inv.trueReport (h : s.Inv g) (hsmall : s.SmallBufs) (hn : n ∈ g.nodes .live) {e : Event}
    (he : e ∈ (s.liveZone n).log s.heap.mem) : s.TrueReport e := by
  have hx := h.fits hsmall hn
  have hlive := h.isLive_iff.2 hn
  rcases mem_log_liveZone he with ⟨i, hi, rfl⟩ | ⟨i, hi, rfl⟩ | rfl
  · obtain ⟨hleast, hlt⟩ := hx.isLeast_leadingDamage hi
    refine ⟨n, _, hlive, rfl, rfl, hleast, ?_⟩
    rw [hx.leadingRedzoneSize_eq]
    split_ifs with hzero <;> omega
  · obtain ⟨hgreatest, hlt⟩ := hx.isGreatest_trailingDamage hi
    refine ⟨n, _, hlive, rfl, rfl, hgreatest, ?_⟩
    rw [hx.trailingRedzoneSize_eq]
    split_ifs with hlast <;> omega
  · trivial

/-- Damage in front of the payload is reported. -/
theorem Inv.exists_underRun (h : s.Inv g) (hsmall : s.SmallBufs) (hn : n ∈ g.nodes .live)
    (hdamage : ((s.blocks.record n).memblk.leadingDamage (s.blocks.record n).usrptr
      s.heap.mem).Nonempty) :
    ∃ atLeast bytes contents, .underRun atLeast bytes (s.blocks.record n).usrptr
      (s.blocks.record n).memblk.usrsize contents ∈ (s.liveZone n).log s.heap.mem := by
  obtain ⟨y, hy, hy', hne⟩ := hdamage
  cases hi : underRunIndex (s.blocks.record n).memblk (s.blocks.record n).usrptr
      ⟨s.heap.mem, []⟩ with
  | none => exact absurd ((h.fits hsmall hn).underRunIndex_eq_none_iff.1 hi y hy hy') hne
  | some i =>
    have hmem : underRunReport (s.blocks.record n).memblk (s.blocks.record n).usrptr
        ⟨s.heap.mem, []⟩ i ∈ (s.liveZone n).log s.heap.mem :=
      report_mem_log (List.mem_append_left _ (by rw [hi]; exact List.mem_singleton.2 rfl))
    exact ⟨_, _, _, hmem⟩

/-- So is damage behind it. -/
theorem Inv.exists_overRun (h : s.Inv g) (hsmall : s.SmallBufs) (hn : n ∈ g.nodes .live)
    (hdamage : ((s.blocks.record n).memblk.trailingDamage (s.blocks.record n).usrptr
      s.heap.mem).Nonempty) :
    ∃ atLeast bytes contents, .overRun atLeast bytes (s.blocks.record n).usrptr
      (s.blocks.record n).memblk.usrsize contents ∈ (s.liveZone n).log s.heap.mem := by
  obtain ⟨y, hy, hy', hne⟩ := hdamage
  cases hi : overRunIndex (s.blocks.record n).memblk (s.blocks.record n).usrptr
      ⟨s.heap.mem, []⟩ with
  | none => exact absurd ((h.fits hsmall hn).overRunIndex_eq_none_iff.1 hi y hy hy') hne
  | some i =>
    have hmem : overRunReport (s.blocks.record n).memblk (s.blocks.record n).usrptr
        ⟨s.heap.mem, []⟩ i ∈ (s.liveZone n).log s.heap.mem :=
      report_mem_log (List.mem_append_right _ (by rw [hi]; exact List.mem_singleton.2 rfl))
    exact ⟨_, _, _, hmem⟩

/-- The lines about a freed block give no such numbers. -/
theorem Inv.trueReport_freed (h : s.Inv g) (hsmall : s.SmallBufs) (hn : n ∈ g.freed) {e : Event}
    (he : e ∈ (s.freedZone n).log s.heap.mem) : s.TrueReport e := by
  rcases mem_log_freedZone (hsmall.freed n (h.isFreed_iff.2 hn)) he with ⟨i, rfl⟩ | rfl | rfl <;>
    trivial

/-- The state after the check has the invariant. -/
theorem Inv.inspected (h : s.Inv g) (hins : Inspected s zs x) : x.1.Inv g := by
  rw [hins.state]
  exact (h.withMem _).emit _

/-- After an inspection of all zones the full check has done what it should. -/
theorem Inv.fullCheck (h : s.Inv g) (hsmall : s.SmallBufs) {l₁ l₂ : List ℕ}
    (h₁ : l₁.Perm (g.nodes .live)) (h₂ : l₂.Perm g.freed)
    (hins : Inspected s (l₁.map s.liveZone ++ l₂.map s.freedZone) (s', ret)) :
    FullCheck s ret s' := by
  have hapart := h.apart hsmall h₁ h₂
  have hsame : Unchanged s s' := hins.same
  have hmem : s'.heap.mem = Zone.repaired (l₁.map s.liveZone ++ l₂.map s.freedZone) s.heap.mem :=
    hins.mem
  have hlive : ∀ n ∈ g.nodes .live, s.liveZone n ∈ l₁.map s.liveZone ++ l₂.map s.freedZone :=
    fun n hn ↦ List.mem_append_left _ (List.mem_map_of_mem (h₁.mem_iff.2 hn))
  have hfreed : ∀ n ∈ g.freed, s.freedZone n ∈ l₁.map s.liveZone ++ l₂.map s.freedZone :=
    fun n hn ↦ List.mem_append_right _ (List.mem_map_of_mem (h₂.mem_iff.2 hn))
  -- repairing all zones repairs each of them, since they do not meet
  have hintact : ∀ n, s.IsLive n → ¬s'.LiveDamaged n := by
    intro n hn
    rw [LiveDamaged, hsame.blocks, hmem]
    exact hapart.not_damaged_repaired (hlive n (h.isLive_iff.1 hn))
  have hpoisoned : ∀ n, s.IsFreed n → ¬s'.FreedDamaged n := by
    intro n hn
    rw [FreedDamaged, hsame.quarantine, hmem]
    exact hapart.not_damaged_repaired (hfreed n (h.isFreed_iff.1 hn))
  refine ⟨?_, ⟨_, congrArg State.trace hins.state, fun e he ↦ ?_, fun n hn ↦ ?_⟩,
    hintact, hpoisoned,
    fun n hn y hy hy' ↦ ?_, hsame, ?_⟩
  · rw [hins.ret]
    simp only [List.mem_append, List.mem_map, h₁.mem_iff, h₂.mem_iff, ← h.isLive_iff,
      ← h.isFreed_iff, or_and_right, exists_or, exists_exists_and_eq_and]
    rfl
  · obtain ⟨z, hz, he⟩ := List.mem_flatMap.1 he
    rcases List.mem_append.1 hz with hz | hz
    · obtain ⟨n, hn, rfl⟩ := List.mem_map.1 hz
      exact h.trueReport hsmall (h₁.subset hn) he
    · obtain ⟨n, hn, rfl⟩ := List.mem_map.1 hz
      exact h.trueReport_freed hsmall (h₂.subset hn) he
  · have hn' := h.isLive_iff.1 hn
    refine ⟨fun hdamage ↦ ?_, fun hdamage ↦ ?_⟩
    · obtain ⟨atLeast, bytes, contents, he⟩ := h.exists_underRun hsmall hn' hdamage
      exact ⟨atLeast, bytes, contents, List.mem_flatMap.2 ⟨_, hlive n hn', he⟩⟩
    · obtain ⟨atLeast, bytes, contents, he⟩ := h.exists_overRun hsmall hn' hdamage
      exact ⟨atLeast, bytes, contents, List.mem_flatMap.2 ⟨_, hlive n hn', he⟩⟩
  · have hn' := h.isLive_iff.1 hn
    have hshape := (h.guarded n hn').shape
    have hin : y ∈ (s.liveZone n).region := ⟨hshape.le.trans hy, hy'.trans_le hshape.end_le⟩
    rw [hmem, hapart.repaired_eqOn (hlive n hn') hin]
    exact armed_of_mem_payload hy hy'
  · -- nothing is left to find for a second check
    have hinv : s'.Inv g := h.inspected hins
    have hlive' : ∀ n, s'.IsLive n ↔ s.IsLive n := fun n ↦ by rw [IsLive, hsame.blocks]; rfl
    have hfreed' : ∀ n, s'.IsFreed n ↔ s.IsFreed n := fun n ↦ by rw [IsFreed, hsame.quarantine]; rfl
    have hsmall' : s'.SmallBufs :=
      ⟨fun n hn ↦ by rw [hsame.blocks]; exact hsmall.live n ((hlive' n).1 hn),
        fun n hn ↦ by rw [hsame.quarantine]; exact hsmall.freed n ((hfreed' n).1 hn)⟩
    have hnone : ¬s'.NullReport := by
      rintro (⟨n, hn, hdamaged, -⟩ | ⟨n, hn, hdamaged, -⟩)
      · exact hintact n ((hlive' n).1 hn) hdamaged
      · exact hpoisoned n ((hfreed' n).1 hn) hdamaged
    obtain ⟨⟨ret', s''⟩, hrun, -, l₁', l₂', h₁', h₂', hins'⟩ :=
      (hinv.mcCheckAllMemblk hsmall').exists_of_not hnone
    have hzero : ¬ret' ≠ 0 := by
      rw [hins'.ret]
      rintro ⟨z, hz, hdamaged⟩
      rcases List.mem_append.1 hz with hz | hz
      · obtain ⟨n, hn, rfl⟩ := List.mem_map.1 hz
        exact hintact n ((hlive' n).1 (hinv.isLive_iff.2 (h₁'.subset hn))) hdamaged
      · obtain ⟨n, hn, rfl⟩ := List.mem_map.1 hz
        exact hpoisoned n ((hfreed' n).1 (hinv.isFreed_iff.2 (h₂'.subset hn))) hdamaged
    obtain rfl := not_not.1 hzero
    exact ⟨s'', hrun⟩

/-- From every set of live and quarantined blocks that a run leads to, with any contents of memory,
the full check does what it should exactly if every report finds its callstacks. -/
theorem fullCheck_iff (hs : Reachable s) (hsmall : s.SmallBufs) (mem : ℕ → UInt8) :
    (∃ ret s', Memchk.mcCheckAllMemblk (s.withMem mem) = some (ret, s') ∧
      FullCheck (s.withMem mem) ret s') ↔ ¬(s.withMem mem).NullReport := by
  obtain ⟨g, h⟩ := hs.inv
  have hmem : (s.withMem mem).Inv g := h.withMem mem
  have hsmall' : (s.withMem mem).SmallBufs := ⟨hsmall.live, hsmall.freed⟩
  have hcheck := hmem.mcCheckAllMemblk hsmall'
  constructor
  · rintro ⟨ret, s', hrun, -⟩
    exact (hcheck.value _ hrun).1
  · intro hnone
    obtain ⟨⟨ret, s'⟩, hrun, -, l₁, l₂, h₁, h₂, hins⟩ := hcheck.exists_of_not hnone
    exact ⟨ret, s', hrun, hmem.fullCheck hsmall' h₁ h₂ hins⟩

/-- A check of one live block, damaged in front, whose callstack is there. -/
theorem fullCheck_iff_oneBlock : ∃ s, Reachable s ∧ ∃ n, s.IsLive n ∧ ∃ mem ret s',
    (s.withMem mem).LiveDamaged n ∧ Memchk.mcCheckAllMemblk (s.withMem mem) = some (ret, s') ∧
      FullCheck (s.withMem mem) ret s' := by
  obtain ⟨s, g, n, c, hs, hrec, hc, -⟩ := resting_oneBlock
  have hnodes : ∀ k, s.IsLive k ↔ k = n := by
    intro k
    rw [hs.inv.isLive_iff, hrec.nodes, Function.update_self]
    exact List.mem_singleton
  have hnone : ∀ k, ¬s.IsFreed k := by
    intro k
    rw [hs.inv.isFreed_iff, hrec.freed]
    exact List.not_mem_nil
  have hsmall : s.SmallBufs := by
    refine ⟨fun k hk ↦ ?_, fun k hk ↦ absurd hk (hnone k)⟩
    rw [(hnodes k).1 hk, hrec.record]
    show 48 < 2147483648
    decide
  let mem := Function.update s.heap.mem 1048576 0
  have hwritten : (s.withMem mem).heap.mem 1048576 = 0 := by
    show Function.update s.heap.mem 1048576 0 1048576 = 0
    exact Function.update_self ..
  have hdamaged : (s.withMem mem).LiveDamaged n := by
    intro hintact
    have hrecord : (s.withMem mem).blocks.record n = _ := hrec.record
    rw [hrecord] at hintact
    have hbyte := hintact.1 1048576 (by show 1048576 ≤ 1048576; decide)
      (by show 1048576 < 1048576 + 16; decide)
    rw [hwritten] at hbyte
    exact absurd hbyte (by decide)
  obtain ⟨ret, s', hrun, hcheck⟩ := (fullCheck_iff hs.reachable hsmall mem).2 (by
    rintro (⟨k, hk, -, hnull⟩ | ⟨k, hk, -⟩)
    · rw [(hnodes k).1 hk, show (s.withMem mem).blocks.record n = _ from hrec.record] at hnull
      exact hc hnull
    · exact hnone k hk)
  exact ⟨s, hs.reachable, n, (hnodes n).2 rfl, mem, ret, s', hdamaged, hrun, hcheck⟩

/-- When the 13 slots of the first page of callstacks are taken and no page can be mapped, the block
allocated next has none. Damage to it is found, but the report reads the null pointer. -/
theorem not_fullCheck : ∃ s mem n, Reachable s ∧ s.SmallBufs ∧ s.IsLive n ∧
    (s.withMem mem).LiveDamaged n ∧ Memchk.mcCheckAllMemblk (s.withMem mem) = none ∧
      ¬∃ ret s', Memchk.mcCheckAllMemblk (s.withMem mem) = some (ret, s') ∧
        FullCheck (s.withMem mem) ret s' := by
  obtain ⟨t, g₁, ht, hpool, hintern, -, -, hfreed, hsizes⟩ :=
    @Resting.mallocsFrom ((List.range 13).map fun k ↦ [k]) _ _ _ resting_start
    (by decide) (by decide)
      (by decide +kernel)
  have hnode : t.HasNode := by
    have hsome : (mcAllocateAllocMemblk t.blocks.pool).map (fun r ↦ decide (r.1 ≠ 0)) =
        some true := by
      rw [hpool]
      decide +kernel
    obtain ⟨⟨n, pool⟩, halloc, hn⟩ := Option.map_eq_some_iff.1 hsome
    exact ⟨n, pool, halloc, of_decide_eq_true hn⟩
  obtain ⟨s, g, n, c, hs, hrec⟩ := ht.mallocFrom (by decide) (by decide) hnode [13]
  obtain rfl : c = 0 := by
    have hgot : mcGetCallstack [13] t.callstacks = some (c, s.callstacks) := hrec.got
    have hzero : ((internAll ((List.range 13).map fun k ↦ [k]) State.start.callstacks).bind
        fun cs ↦ (mcGetCallstack [13] cs).map Prod.fst) = some 0 := by decide +kernel
    rw [hintern, Option.bind_some, hgot] at hzero
    exact Option.some.inj hzero
  have hnone : ∀ k, ¬s.IsFreed k := by
    intro k
    rw [hs.inv.isFreed_iff, hrec.freed, hfreed]
    exact List.not_mem_nil
  have hn : n ∈ g.nodes .live := by
    rw [hrec.nodes, Function.update_self]
    exact List.mem_cons_self
  have hlive := hs.inv.isLive_iff.2 hn
  have hsmall : s.SmallBufs := by
    refine ⟨fun k hk ↦ ?_, fun k hk ↦ absurd hk (hnone k)⟩
    have hk' := hs.inv.isLive_iff.1 hk
    rw [hrec.nodes, Function.update_self] at hk'
    rcases List.mem_cons.1 hk' with rfl | hk'
    · rw [hrec.record]
      show 48 < 2147483648
      decide
    · rw [hrec.record_of_ne k (ne_of_mem_of_not_mem hk' (hrec.notMem .live))]
      rcases hsizes k hk' with ⟨hmem, -⟩ | hsize
      · exact absurd hmem List.not_mem_nil
      · exact lt_of_eq_of_lt hsize (by decide)
  let mem := Function.update s.heap.mem 1049408 0
  have hwritten : (s.withMem mem).heap.mem 1049408 = 0 := by
    show Function.update s.heap.mem 1049408 0 1049408 = 0
    exact Function.update_self ..
  have hdamaged : (s.withMem mem).LiveDamaged n := by
    intro hintact
    have hrecord : (s.withMem mem).blocks.record n = _ := hrec.record
    rw [hrecord] at hintact
    have hbyte := hintact.1 1049408 (by show 1049408 ≤ 1049408; decide)
      (by show 1049408 < 1049408 + 16; decide)
    rw [hwritten] at hbyte
    exact absurd hbyte (by decide)
  have hnull : (s.withMem mem).NullReport := by
    refine .inl ⟨n, hlive, hdamaged, ?_⟩
    rw [show (s.withMem mem).blocks.record n = _ from hrec.record]
  have hfault : Memchk.mcCheckAllMemblk (s.withMem mem) = none := by
    cases hrun : Memchk.mcCheckAllMemblk (s.withMem mem) with
    | none => rfl
    | some x =>
      have hmem : (s.withMem mem).Inv g := hs.inv.withMem mem
      exact absurd hnull ((hmem.mcCheckAllMemblk ⟨hsmall.live, hsmall.freed⟩).value x hrun).1
  refine ⟨s, mem, n, hs.reachable, hsmall, hlive, hdamaged, hfault, ?_⟩
  rintro ⟨ret, s', hrun, -⟩
  rw [hfault] at hrun
  cases hrun

end Passes

end State

end Memchk
