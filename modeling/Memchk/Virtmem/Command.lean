import Memchk.Purity
import Memchk.Virtmem.Readings
import Memchk.Virtmem.Usage

/-!
# The command for virtual memory

`mc_get_virtual_memory_usage` copies the table of live blocks, registers the pages of each copy,
gives the copies back, reads the mappings of the process, attributes the page regions to them, and
gives the regions back.

All other readers of `/proc/self/maps` disable the hooks before they open the file. This command
does not, so what `fopen`, `fgets` and `fclose` ask of the allocator goes through the hooks: the
buffer of the stream becomes a live block, and a block in the quarantine when the file is closed,
where it may push out an older one. Which calls there are is up to the library (`MapsEnv.calls`),
and `State.runCalls` makes them, between the copies and the counting.

`virtual_memory_usage` says what comes of a command in any state of a run. If the pool has no nodes
for the copies, the command returns `(uint64_t)-1`. If it has, the copies are given back and leave
everything untouched, the state after the command is the one that the calls of the library lead to
from there, all page regions are back in their pool, and the value returned is the number of bytes
on the pages of the buffers that could be registered. Between two commands no page region is taken
from the pool (`UsageReachable.settled`), as long as no registration starts its scan at a node that
a merge has freed (`State.UsageCall`).
-/

namespace Memchk

namespace RegionState

/-- The loop of `__free_all_pageregions`. -/
def freeLoop : ℕ → ℕ → RegionState → Option RegionState
  | 0, _, _ => none
  | rounds + 1, pageregion, s =>
    if pageregion = 0 then some s
    else
      freeLoop rounds (s.node pageregion).next
        { s with pool := mcFreePageregion pageregion s.pool }

/-- `__free_all_pageregions`. -/
def freeAllPageregions (s : RegionState) : Option RegionState := do
  let s ← freeLoop (s.pool.rounds pageregionSize) (s.node pageregionHead).next s
  return s.setNext pageregionHead 0

end RegionState

/-- The entries that the loops over `vmarea_array` read. -/
def VmareaArray.entries (s : VmareaArray) : List Vmarea :=
  (List.range s.cnt.toNat).map s.array

/-- What the command finds outside: the two readings of the file with the mappings, the answer of
`mmap` for the array, what the local variables of `__init_filemaps` happen to hold, and the calls of
the allocator that opening, reading and closing the file come to, in their order. -/
structure MapsEnv where
  answer : Option ℕ
  text₁ : List Char
  text₂ : List Char
  vars : ScanVars
  calls : List (Env × Call)

/-- Calls of the allocator, one after the other. -/
def State.runCalls : List (Env × Call) → State → Option State
  | [], s => some s
  | (env, c) :: calls, s => do
    let (_, s) ← c.exec env s
    s.runCalls calls

/-- The array that the command reads the mappings into. -/
def MapsEnv.initFilemaps (env : MapsEnv) : Option (ℤ × VmareaArray) :=
  VmareaArray.initFilemaps env.answer env.text₁ env.text₂ env.vars

/-- `__init_filemaps` does not return, or the array is missing though it has entries. -/
def MapsEnv.Faulty (env : MapsEnv) : Prop :=
  ∀ k array, env.initFilemaps = some (k, array) → array.vmareaArray = 0 ∧ 0 < array.cnt

/-- What the command returns and logs: the usage, the mappings with theirs, and the page regions
that lie in no mapping. -/
structure UsageReport where
  usage : ℕ
  vmareas : List Vmarea
  unmatched : List (ℕ × ℕ)

/-- The body of the loop of `mc_get_virtual_memory_usage`. It does not look at what
`__register_block` returns. -/
def registerMemblk (n : ℕ) (x : State × RegionState) : Option (State × RegionState) := do
  x.1.blocks.check n
  let (_, r) ← registerBlock (x.1.blocks.memblk n).buf (x.1.blocks.memblk n).bufsize x.2
  return (x.1, r)

/-- `mc_get_virtual_memory_usage`. The hooks are not disabled while the file is read. If the array
of mappings is missing, it is read all the same. -/
def mcGetVirtualMemoryUsage (env : MapsEnv) (s : State) (r : RegionState) :
    Option (UsageReport × State × RegionState) := do
  let (rc, s) ← s.mcDuplicateAllAllocMemblk .liveCopy .live
  if rc ≠ 0 then return (⟨18446744073709551615, [], []⟩, s, r)
  let (s, r) ← State.forEachMemblk .liveCopy registerMemblk (s, r.setNext pageregionHead 0)
  let s ← s.mcDestroyAllAllocMemblk .liveCopy
  let s ← s.runCalls env.calls
  let (_, array) ← env.initFilemaps
  if array.vmareaArray = 0 ∧ 0 < array.cnt then none
  else
    let (usage, vmareas, unmatched) ← countVirtualMemorySize array.entries r
    let r ← r.freeAllPageregions
    return (⟨usage, vmareas, unmatched⟩, s, r)

/-! ### The page regions -/

/-- The addresses on the pages that the blocks touch. -/
def touchedBytes (blocks : List (ℕ × ℕ)) : Set ℕ :=
  {x | x / 4096 ∈ touchedPages blocks}

section Regions

variable {s t : RegionState} {l l' : List ℕ} {blocks done : List (ℕ × ℕ)} {areas : List Vmarea}
  {addr : ℕ}

theorem touchedBytes_eq : touchedBytes done =
    {x | ∃ b ∈ done, (blockInterval b).1 ≤ x ∧ x < (blockInterval b).2} := by
  ext x
  exact mem_blockInterval_iff.symm

theorem touchedBytes_subset (hdone : ∀ b ∈ done, BlockOk b) :
    touchedBytes done ⊆ Set.Ico 0 18446744073709551615 := by
  rw [touchedBytes_eq]
  rintro x ⟨b, hb, -, hlt⟩
  have := (hdone b hb).2
  simp only [blockInterval] at hlt
  exact ⟨Nat.zero_le x, by omega⟩

/-- Registrations take the nodes on the list from the pool, and no others. -/
theorem registerBlocks_live (h : RegionInv s l) (hblocks : ∀ b ∈ blocks, BlockOk b)
    (hcand : CandsOnList blocks s) (hrun : registerBlocks blocks s = some (done, t))
    (ht : RegionInv t l') (a : ℕ) :
    a ∈ t.pool.live pageregionSize ∧ a ∉ l' ↔ a ∈ s.pool.live pageregionSize ∧ a ∉ l := by
  induction blocks generalizing s l done with
  | nil =>
    obtain ⟨rfl, rfl⟩ := Prod.mk.inj (Option.some.inj hrun)
    rw [h.linked.2.2.unique ht.linked.2.2]
  | cons b blocks ih =>
    have hb := hblocks b List.mem_cons_self
    obtain ⟨r, u, l₁, hreg, hinv, -⟩ := registerBlock_spec h hb hcand.1
    simp only [registerBlocks, hreg, Option.bind_eq_bind, Option.bind_some] at hrun
    obtain ⟨⟨done', t'⟩, hrun', heq⟩ := Option.bind_eq_some_iff.1 hrun
    obtain ⟨-, rfl⟩ := Prod.mk.inj (Option.some.inj heq)
    have hrest : ∀ c ∈ blocks, BlockOk c := fun c hc ↦ hblocks c (List.mem_cons_of_mem _ hc)
    exact (ih hinv hrest (hcand.2 r u hreg) hrun').trans
      (registerBlock_live h hb hcand.1 hreg hinv a)

/-- The loop gives the nodes of the list back to the pool. -/
theorem freeLoop_spec {rounds p : ℕ} (h : s.pool.Inv pageregionPoolHead pageregionSize)
    (hl : Linked s.next 0 p l) (hlive : ∀ a ∈ l, a ∈ s.pool.live pageregionSize)
    (hlen : l.length < rounds) :
    ∃ pool, RegionState.freeLoop rounds p s = some { s with pool := pool } ∧
      pool.Inv pageregionPoolHead pageregionSize ∧
      ∀ a, a ∈ pool.live pageregionSize ↔ a ∈ s.pool.live pageregionSize ∧ a ∉ l := by
  induction l generalizing p s rounds with
  | nil =>
    obtain ⟨k, rfl⟩ := Nat.exists_eq_succ_of_ne_zero (by omega : rounds ≠ 0)
    rw [Linked.nil_iff] at hl
    exact ⟨s.pool, by rw [RegionState.freeLoop, if_pos hl], h, by simp⟩
  | cons x l ih =>
    obtain ⟨k, rfl⟩ := Nat.exists_eq_succ_of_ne_zero (by omega : rounds ≠ 0)
    have hnot := (List.nodup_cons.1 hl.nodup).1
    obtain ⟨rfl, hnull, hrest⟩ := hl
    obtain ⟨hinv, hlive', -⟩ := h.mcAllocatorFree_spec (hlive p List.mem_cons_self)
    obtain ⟨pool, hloop, hinv', hkeep⟩ :=
      @ih { s with pool := mcFreePageregion p s.pool } k _ hinv hrest (fun a ha ↦ by
          show a ∈ (mcAllocatorFree p pageregionSize.val s.pool).live pageregionSize
          rw [hlive']
          exact Finset.mem_erase.2 ⟨ne_of_mem_of_not_mem ha hnot,
            hlive a (List.mem_cons_of_mem _ ha)⟩) (by rw [List.length_cons] at hlen; omega)
    refine ⟨pool, ?_, hinv', fun a ↦ (hkeep a).trans ?_⟩
    · rw [RegionState.freeLoop, if_neg hnull]
      exact hloop
    · show a ∈ (mcAllocatorFree p pageregionSize.val s.pool).live pageregionSize ∧ _ ↔ _
      rw [hlive', Finset.mem_erase, List.mem_cons]
      tauto

/-- `__free_all_pageregions` leaves an empty list. -/
theorem freeAllPageregions_spec (h : RegionInv s l) : ∃ t, s.freeAllPageregions = some t ∧
    t.pool.Inv pageregionPoolHead pageregionSize ∧
    ∀ a, a ∈ t.pool.live pageregionSize ↔ a ∈ s.pool.live pageregionSize ∧ a ∉ l := by
  have hlinked : Linked s.next 0 (s.next pageregionHead) l := h.linked.2.2
  have hhead : (s.node pageregionHead).next = s.next pageregionHead := rfl
  obtain ⟨pool, hloop, hinv, hlive⟩ :=
    freeLoop_spec h.pool hlinked h.live (length_lt_rounds hlinked h.live)
  refine ⟨({ s with pool := pool } : RegionState).setNext pageregionHead 0, ?_, hinv, hlive⟩
  rw [RegionState.freeAllPageregions, hhead, hloop]
  simp only [Option.bind_eq_bind, Option.bind_some, Option.pure_def]

/-- The mappings are in order, have not been used yet, and have all the addresses. -/
structure MapsCover (areas : List Vmarea) (bytes : Set ℕ) : Prop where
  area : ∀ v ∈ areas, v.start < v.end_ ∧ v.end_ < 18446744073709551616 ∧ v.usage = 0
  sorted : (areas.map Vmarea.interval).Pairwise fun i j ↦ i.2 ≤ j.1
  sub : bytes ⊆ cover (areas.map Vmarea.interval)

/-- The total is the number of bytes that the regions cover, and each mapping is charged those that
it has, if the mappings cover the regions. -/
theorem RegionInv.count (h : RegionInv s l) (areas : List Vmarea)
    (hend : cover (l.map s.interval) ⊆ Set.Ico 0 18446744073709551615) :
    ∃ vmareas unmatched,
      countVirtualMemorySize areas s = some ((cover (l.map s.interval)).ncard, vmareas, unmatched) ∧
      (MapsCover areas (cover (l.map s.interval)) → unmatched = [] ∧ vmareas = areas.map fun v ↦
        { v with usage := (Set.Ico v.start v.end_ ∩ cover (l.map s.interval)).ncard }) := by
  have hlen := length_lt_rounds h.linked.2.2 h.live
  obtain ⟨hfinite, hsum⟩ := h.separated.sum_length
  have hle : (cover (l.map s.interval)).ncard ≤ 18446744073709551615 := by
    have := Set.ncard_le_ncard hend (Set.finite_Ico _ _)
    rwa [ncard_Ico (0, 18446744073709551615)] at this
  obtain ⟨⟨vmareas, unmatched⟩, hcount⟩ := @countLoop_eq s _ _ _ 0 (areas, []) h.linked.2.2 hlen
    h.separated.lt (by rw [hsum]; omega)
  rw [Nat.zero_add, hsum] at hcount
  refine ⟨vmareas, unmatched, hcount, fun hcover ↦ ?_⟩
  have hregions : (l.map s.interval).Pairwise fun i j ↦ i.2 ≤ j.1 :=
    h.separated.gap.imp fun hgap ↦ hgap.le
  obtain ⟨total, htotal⟩ := @countLoop_areas s areas l (s.pool.rounds pageregionSize) _ 0 []
    h.linked.2.2 hlen (fun a ha ↦ h.separated.lt _ (List.mem_map_of_mem ha))
    (fun v hv ↦ (hcover.area v hv).1) hcover.sorted
    (fun a ha x hx ↦ hcover.sub ⟨_, List.mem_map_of_mem ha, hx.1, hx.2⟩) fun v hv ↦ by
      have := sum_overlap_le hregions v.interval
      have := hcover.area v hv
      simp only [Vmarea.interval] at *
      omega
  obtain ⟨-, rfl, rfl⟩ : _ = total ∧ vmareas = _ ∧ unmatched = _ := by
    simpa only [Prod.mk.injEq] using Option.some.inj (hcount.symm.trans htotal)
  refine ⟨rfl, List.map_congr_left fun v hv ↦ ?_⟩
  rw [Vmarea.charge, sum_overlap hregions, (hcover.area v hv).2.2, Nat.zero_add]
  rfl

end Regions

/-! ### One command -/

namespace State

variable {s t u : State} {g : Contents} {L : TableId → List ℕ} {r r' : RegionState}
  {done : List (ℕ × ℕ)} {env : MapsEnv} {new : List ℕ} {id : TableId}

/-- The buffer of a block. -/
def buffer (s : State) (n : ℕ) : ℕ × ℕ :=
  ((s.blocks.record n).memblk.buf, (s.blocks.record n).memblk.bufsize)

/-- The buffers of the blocks in a table. -/
def buffers (id : TableId) (s : State) : List (ℕ × ℕ) :=
  (s.blocks.tableNodes id).map s.buffer

/-- No registration of the copies starts its scan at a node that has left the list. -/
def UsageCall (s : State) (r : RegionState) : Prop :=
  ∀ t, s.mcDuplicateAllAllocMemblk .liveCopy .live = some (0, t) →
    CandsOnList (t.buffers .liveCopy) (r.setNext pageregionHead 0)

/-- What a command has returned for the buffers `done`, when the array of mappings had the entries
`areas`. -/
structure UsageOf (areas : List Vmarea) (done : List (ℕ × ℕ)) (x : UsageReport) : Prop where
  usage : x.usage = (touchedBytes done).ncard
  charged : MapsCover areas (touchedBytes done) → x.unmatched = [] ∧
    x.vmareas = areas.map fun v ↦
      { v with usage := (Set.Ico v.start v.end_ ∩ touchedBytes done).ncard }

/-- The live buffers can be registered: they are in user space, and have room for a payload. -/
theorem Inv.blockOk (h : s.Inv g) : ∀ b ∈ s.buffers .live, BlockOk b := by
  intro b hb
  obtain ⟨n, hn, rfl⟩ := List.mem_map.1 hb
  have hguarded := h.guarded n (h.blocks.mem_tableNodes.1 hn)
  have hend := hguarded.end_le h.heap
  have hle := hguarded.shape.le
  have hlt := hguarded.lt
  refine ⟨?_, ?_⟩
  · simp only [buffer]
    omega
  · simp only [buffer]
    omega

/-- The loop registers the copies one after the other. -/
theorem registerLoop_eq (h : s.blocks.Holds L)
    (hrun : registerBlocks (s.buffers id) r = some (done, r')) :
    forEachMemblk id registerMemblk (s, r) = some (s, r') := by
  have hperm := h.tableNodes_perm id
  let I : List ℕ → State × RegionState → Prop := fun rest y ↦ y.1 = s ∧
    rest <:+ s.blocks.tableNodes id ∧
      (registerBlocks (rest.map s.buffer) y.2).map Prod.snd = some r'
  have hloop : Outcome False (forEachMemblk id registerMemblk (s, r)) (I []) := by
    refine forEachMemblk_outcome I h (fun n rest y hI _ ↦ ?_) ⟨rfl, List.suffix_rfl, ?_⟩
    · obtain ⟨t, q⟩ := y
      obtain ⟨rfl, hrest, hblocks⟩ := hI
      have hlive : n ∈ t.blocks.pool.live allocMemblkSize :=
        h.live id n (hperm.subset (hrest.subset List.mem_cons_self))
      obtain ⟨⟨done', q'⟩, hstep, rfl⟩ := Option.map_eq_some_iff.1 hblocks
      obtain ⟨⟨ret, q₁⟩, hreg, hrest'⟩ := Option.bind_eq_some_iff.1 hstep
      obtain ⟨⟨done₁, q₂⟩, hblocks', heq⟩ := Option.bind_eq_some_iff.1 hrest'
      have hbody : registerMemblk n (t, q) = some (t, q₁) := by
        show (t.blocks.check n).bind (fun _ ↦ (registerBlock (t.buffer n).1 (t.buffer n).2 q).bind
          fun y ↦ some (t, y.2)) = _
        rw [Blocks.check_of_live hlive, Option.bind_some, hreg, Option.bind_some]
      rw [hbody]
      refine .some ⟨⟨rfl, (List.suffix_cons n rest).trans hrest, ?_⟩, hlive, fun _ _ ↦ rfl,
        fun _ _ ↦ rfl⟩
      obtain ⟨-, rfl⟩ := Prod.mk.inj (Option.some.inj heq)
      simp only at hblocks' ⊢
      rw [hblocks', Option.map_some]
    · show (registerBlocks (s.buffers id) r).map Prod.snd = _
      rw [hrun]
      rfl
  obtain ⟨⟨t, q⟩, hloop, rfl, -, hq⟩ := hloop.exists_of_not not_false
  rw [hloop]
  exact congrArg (fun q ↦ some (t, q)) (Option.some.inj hq)

/-- The copies have the buffers of the live blocks. -/
theorem buffers_of_copied (h : s.Inv g) (ht : s.Tidy g)
    (hcopy : s.mcDuplicateAllAllocMemblk .liveCopy .live = some (0, t)) :
    (t.buffers .liveCopy).Perm (s.buffers .live) := by
  obtain ⟨new, ret, u, hrun, hdup, hconfined, -⟩ := copyLive_spec h.blocks ht
  obtain ⟨rfl, rfl⟩ := Prod.mk.inj (Option.some.inj (hcopy.symm.trans hrun))
  let pair : AllocRecord → ℕ × ℕ := fun x ↦ (x.memblk.buf, x.memblk.bufsize)
  have hpair : ∀ u : State, u.buffer = pair ∘ u.blocks.record := fun _ ↦ rfl
  have hbuffers : new.map t.buffer = s.buffers .live := by
    rw [buffers, hpair, hpair, ← List.map_map, hdup.record_eq h.blocks, List.map_map]
  rw [← hbuffers, buffers]
  exact ((hconfined.holds.tableNodes_perm .liveCopy).trans (List.reverse_perm new)).map _

/-- The buffers `done` are those of the copies whose registration has found a page region. -/
def RegisteredBuffers (s : State) (r : RegionState) (done : List (ℕ × ℕ)) : Prop :=
  ∃ t q, s.mcDuplicateAllAllocMemblk .liveCopy .live = some (0, t) ∧
    (t.buffers .liveCopy).Perm (s.buffers .live) ∧
    registerBlocks (t.buffers .liveCopy) (r.setNext pageregionHead 0) = some (done, q)

/-- `u` is the state in which the copies of the live blocks have been made and given back. -/
def CopiedBack (s u : State) : Prop :=
  ∃ t, s.mcDuplicateAllAllocMemblk .liveCopy .live = some (0, t) ∧
    t.mcDestroyAllAllocMemblk .liveCopy = some u

/-- Making the copies and giving them back leaves no trace but on the pool of the nodes. -/
theorem CopiedBack.restored (h : s.Inv g) (ht : s.Tidy g) (hu : s.CopiedBack u) :
    (∃ es, Restored s g es u) ∧ u.callstacks = s.callstacks := by
  obtain ⟨t, hcopy, hdestroy⟩ := hu
  obtain ⟨new, ret, t', hrun, hdup, hconfined, hcallstacks⟩ := copyLive_spec h.blocks ht
  obtain ⟨rfl, rfl⟩ := Prod.mk.inj (Option.some.inj (hcopy.symm.trans hrun))
  rw [if_pos rfl, List.append_nil] at hconfined
  obtain ⟨ns, u', hdestroy', hconfined', hcallstacks'⟩ := hconfined.destroy .liveCopy (by simp)
  obtain rfl := Option.some.inj (hdestroy.symm.trans hdestroy')
  rw [update_withCopies_liveCopy, ht.withCopies_eq] at hconfined'
  have hsame := hcallstacks'.trans hcallstacks
  refine ⟨⟨_, hconfined', ?_, ?_⟩, hsame⟩
  · rw [copiedNodes_append, copiedNodes_map_copied, copiedNodes_map_released, List.append_nil]
    exact hdup.nodup
  · rw [head_congr hsame]
    exact ht.head

/-- The state that the copies leave is settled. -/
theorem CopiedBack.settled (hu : s.CopiedBack u) (h : s.Settled g) : u.Settled g := by
  obtain ⟨es, hconfined, -, hhead⟩ := (hu.restored h.inv h.tidy).1
  exact ⟨h.inv.confined hconfined (by decide),
    (hconfined.undisturbed h.inv h.tidy hhead).tidy h.tidy, h.attributed.confined hconfined⟩

/-- A command that has found nodes for all copies: the state `u` in which they have been given back,
the page regions `r'`, which have been given back as well, and the report `x`, if there is one. -/
structure UsageTaken (env : MapsEnv) (s : State) (r : RegionState) (u : State) (r' : RegionState)
    (x : Option UsageReport) : Prop where
  copied : s.CopiedBack u
  pool : r'.pool.Inv pageregionPoolHead pageregionSize
  live : r'.pool.live pageregionSize = r.pool.live pageregionSize
  report : ∃ done, s.RegisteredBuffers r done ∧ Outcome env.Faulty x fun report ↦
    ∃ k array, env.initFilemaps = some (k, array) ∧ UsageOf array.entries done report
  run : mcGetVirtualMemoryUsage env s r =
    x.bind fun report ↦ (u.runCalls env.calls).map fun t ↦ (report, t, r')

/-- Registering the copies, and what is counted of their pages. -/
theorem registered_spec (hr : r.pool.Inv pageregionPoolHead pageregionSize)
    {blocks : List (ℕ × ℕ)} (hblocks : ∀ b ∈ blocks, BlockOk b)
    (hcands : CandsOnList blocks (r.setNext pageregionHead 0)) :
    ∃ done q, registerBlocks blocks (r.setNext pageregionHead 0) = some (done, q) ∧
      (∀ areas, ∃ report : UsageReport, countVirtualMemorySize areas q =
        some (report.usage, report.vmareas, report.unmatched) ∧ UsageOf areas done report) ∧
      ∃ q', q.freeAllPageregions = some q' ∧ q'.pool.Inv pageregionPoolHead pageregionSize ∧
        q'.pool.live pageregionSize = r.pool.live pageregionSize := by
  have hempty : RegionInv (r.setNext pageregionHead 0) [] := by
    refine ⟨hr, ⟨rfl, by decide, ?_⟩, by simp, .nil⟩
    rw [RegionState.next_setNext, Function.update_self]
    rfl
  obtain ⟨done, q, l, hrun, hinv, hsub, hcover⟩ := registerBlocks_inv hempty hblocks hcands
  rw [List.map_nil, cover_nil, Set.empty_union, ← touchedBytes_eq] at hcover
  refine ⟨done, q, hrun, fun areas ↦ ?_, ?_⟩
  · obtain ⟨vmareas, unmatched, hcount, hcharged⟩ := hinv.count areas
      (hcover ▸ touchedBytes_subset fun b hb ↦ hblocks b (hsub b hb))
    rw [hcover] at hcount hcharged
    exact ⟨⟨_, vmareas, unmatched⟩, hcount, rfl, hcharged⟩
  · obtain ⟨q', hfree, hpool, hlive⟩ := freeAllPageregions_spec hinv
    refine ⟨q', hfree, hpool, Finset.ext fun a ↦ (hlive a).trans ?_⟩
    refine (registerBlocks_live hempty hblocks hcands hrun hinv a).trans ?_
    exact and_iff_left List.not_mem_nil

/-- `mc_get_virtual_memory_usage`. The calls of the library find the state that the copies have
left, and the counting does not look at what the calls have made of it. -/
theorem usage_spec (h : s.Inv g) (ht : s.Tidy g)
    (hr : r.pool.Inv pageregionPoolHead pageregionSize) (hcall : s.UsageCall r) (env : MapsEnv) :
    (∃ u, mcGetVirtualMemoryUsage env s r = some (⟨18446744073709551615, [], []⟩, u, r) ∧
      OutOfNodes (g.nodes .live).length s g (-1, u)) ∨
    (s.nodesFor (g.nodes .live).length).length = (g.nodes .live).length ∧
      ∃ u r' x, UsageTaken env s r u r' x := by
  obtain ⟨new, ret, t, hrun, hdup, hconfined, hcallstacks⟩ := copyLive_spec h.blocks ht
  have hret := hdup.ret_eq
  have hnodes := hdup.nodesFor_eq
  have hsplit : mcGetVirtualMemoryUsage env s r =
      (s.mcDuplicateAllAllocMemblk .liveCopy .live).bind fun x ↦
        if x.1 ≠ 0 then some (⟨18446744073709551615, [], []⟩, x.2, r)
        else (forEachMemblk .liveCopy registerMemblk (x.2, r.setNext pageregionHead 0)).bind fun y ↦
          (y.1.mcDestroyAllAllocMemblk .liveCopy).bind fun s ↦ (s.runCalls env.calls).bind fun s ↦
            env.initFilemaps.bind fun z ↦
              if z.2.vmareaArray = 0 ∧ 0 < z.2.cnt then none
              else (countVirtualMemorySize z.2.entries y.2).bind fun c ↦
                y.2.freeAllPageregions.bind fun r ↦ some (⟨c.1, c.2.1, c.2.2⟩, s, r) := rfl
  rw [hrun, Option.bind_some] at hsplit
  split_ifs at hret with hlen
  · subst hret
    rw [if_pos rfl, List.append_nil] at hconfined
    -- the copies have the buffers of the live blocks, so their pages can be registered
    have hperm := buffers_of_copied h ht hrun
    obtain ⟨done, q, hreg, hcount, q', hfree, hpool, hlive⟩ := registered_spec hr
      (fun b hb ↦ h.blockOk b (hperm.subset hb)) (hcall t hrun)
    obtain ⟨ns, u, hdestroy, -, -⟩ := hconfined.destroy .liveCopy (by simp)
    rw [if_neg (not_not_intro rfl), registerLoop_eq hconfined.holds hreg, Option.bind_some,
      hdestroy, Option.bind_some] at hsplit
    have hdone : s.RegisteredBuffers r done := ⟨t, q, hrun, hperm, hreg⟩
    -- what remains depends on the file of mappings and faults only with it
    obtain ⟨x, hx, hrun'⟩ : ∃ x : Option UsageReport,
        (Outcome env.Faulty x fun report ↦
          ∃ k array, env.initFilemaps = some (k, array) ∧ UsageOf array.entries done report) ∧
        mcGetVirtualMemoryUsage env s r =
          x.bind fun report ↦ (u.runCalls env.calls).map fun t ↦ (report, t, q') := by
      cases hinit : env.initFilemaps with
      | none =>
        refine ⟨none, .none fun k array heq ↦ ?_, ?_⟩
        · rw [hinit] at heq
          cases heq
        · rw [hsplit, hinit]
          exact Option.bind_fun_none _
      | some z =>
        by_cases hnull : z.2.vmareaArray = 0 ∧ 0 < z.2.cnt
        · refine ⟨none, .none fun k array heq ↦ ?_, ?_⟩
          · obtain rfl := Option.some.inj (hinit.symm.trans heq)
            exact hnull
          · rw [hsplit, hinit]
            simp only [Option.bind_some, if_pos hnull]
            exact Option.bind_fun_none _
        · obtain ⟨report, hcounted, husage⟩ := hcount z.2.entries
          refine ⟨some report, .some ⟨z.1, z.2, rfl, husage⟩, ?_⟩
          rw [hsplit, hinit]
          simp only [Option.bind_some, if_neg hnull, hcounted, hfree]
          exact Option.map_eq_bind.symm
    exact .inr ⟨by rw [hnodes, hlen], u, q', x, ⟨t, hrun, hdestroy⟩, hpool, hlive,
      ⟨done, hdone, hx⟩, hrun'⟩
  · subst hret
    have hne : (-1 : ℤ) ≠ 0 := by decide
    rw [if_pos hne] at hsplit
    refine .inl ⟨t, hsplit, by rwa [hnodes], rfl, new.reverse, [], by rw [hnodes]; simp,
      ⟨_, hconfined, by simp⟩, ?_⟩
    rw [head_congr hcallstacks]
    exact ht.head

end State

/-! ### Runs -/

/-- What is asked of the library and the environment for calls one after the other. -/
def CallsOk : List (Env × Call) → State → Prop
  | [], _ => True
  | (env, c) :: calls, s =>
    (Action.call env c).Ok s ∧ ∀ x, c.exec env s = some x → CallsOk calls x.2

/-- A step of a run with commands for the virtual memory. -/
def UsageStep (x y : State × RegionState) : Prop :=
  MappedStep x.1 y.1 ∧ y.2 = x.2 ∨
    x.1.UsageCall x.2 ∧ ∃ env report, mcGetVirtualMemoryUsage env x.1 x.2 = some (report, y) ∧
      (∀ u, x.1.CopiedBack u → CallsOk env.calls u) ∧ .mmapFailed ∉ y.1.trace

/-- The states that runs with commands for the virtual memory lead to. -/
def UsageReachable (s : State) (r : RegionState) : Prop :=
  ∃ k mem mmaps, k.Ok ∧ KernelAnswers pageregionPoolHead mmaps ∧
    Relation.ReflTransGen UsageStep (State.init k mem, RegionState.init mmaps) (s, r)

section Runs

variable {s t u : State} {g : Contents} {r r' : RegionState} {x y : State × RegionState}

/-- Between two commands, no page region is taken from the pool. -/
structure RegionState.Idle (r : RegionState) : Prop where
  pool : r.pool.Inv pageregionPoolHead pageregionSize
  live : r.pool.live pageregionSize = ∅

theorem RegionState.idle_init {mmaps : List (Option ℕ)}
    (hk : KernelAnswers pageregionPoolHead mmaps) : (RegionState.init mmaps).Idle := by
  obtain ⟨hinv, hlive⟩ := Pool.inv_mcAllocatorInit pageregionSize default hk.top_aligned hk.top_ne
    hk.aligned hk.fresh
  exact ⟨hinv, hlive⟩

theorem exec_call {env : Env} {c : Call} {p : ℕ} (hexec : c.exec env s = some (p, t)) :
    (Action.call env c).exec s = some t := by
  rw [Action.exec, hexec]
  rfl

/-- No call takes anything off the trace. -/
theorem State.Inv.runCalls_trace_prefix {calls : List (Env × Call)} (h : s.Inv g)
    (hok : CallsOk calls s) (hrun : s.runCalls calls = some t) : s.trace <+: t.trace := by
  induction calls generalizing s g with
  | nil =>
    obtain rfl := Option.some.inj hrun
    exact List.prefix_rfl
  | cons x calls ih =>
    obtain ⟨⟨p, u⟩, hexec, hrest⟩ := Option.bind_eq_some_iff.1 hrun
    obtain ⟨g', hinv⟩ := h.action hok.1 (exec_call hexec)
    exact (h.action_trace_prefix hok.1 (exec_call hexec)).trans (ih hinv (hok.2 _ hexec) hrest)

/-- Calls find the state settled and leave it settled, as long as metadata is there. -/
theorem State.Settled.runCalls {calls : List (Env × Call)} (h : s.Settled g)
    (hok : CallsOk calls s) (hrun : s.runCalls calls = some t) (hmapped : .mmapFailed ∉ t.trace) :
    ∃ g', t.Settled g' := by
  induction calls generalizing s g with
  | nil =>
    obtain rfl := Option.some.inj hrun
    exact ⟨g, h⟩
  | cons x calls ih =>
    obtain ⟨env, c⟩ := x
    obtain ⟨⟨p, u⟩, hexec, hrest⟩ := Option.bind_eq_some_iff.1 hrun
    have hok' := hok.2 _ hexec
    -- Had there been no metadata for this call, the trace would still say so at the end.
    obtain ⟨g₁, hinv⟩ := h.inv.action hok.1 (exec_call hexec)
    have hgrows := hinv.runCalls_trace_prefix hok' hrest
    obtain ⟨g', hg'⟩ := h.step ⟨.action (.call env c), hok.1, exec_call hexec, fun hmem ↦
      hmapped (hgrows.subset hmem)⟩
    exact ih hg' hok' hrest

/-- A step keeps the invariants of both parts of the state. -/
theorem UsageStep.settled (hstep : UsageStep x y) (h : x.1.Settled g) (hr : x.2.Idle) :
    (∃ g', y.1.Settled g') ∧ y.2.Idle := by
  rcases hstep with ⟨hstep, heq⟩ | ⟨hcall, env, report, hrun, hok, hmapped⟩
  · exact ⟨h.step hstep, heq ▸ hr⟩
  · rcases State.usage_spec h.inv h.tidy hr.pool hcall env with
      ⟨u, hfail, -, -, C, S, -, ⟨es, hconfined, hfailed⟩, -⟩ | ⟨-, u, r', report', htaken⟩
    · obtain ⟨-, rfl⟩ := Prod.mk.inj (Option.some.inj (hrun.symm.trans hfail))
      rw [hconfined.trace_eq] at hmapped
      exact absurd (List.mem_append_right _ hfailed) hmapped
    · rw [htaken.run, Option.bind_eq_some_iff] at hrun
      obtain ⟨report', -, hmap⟩ := hrun
      obtain ⟨t, hcalls, heq⟩ := Option.map_eq_some_iff.1 hmap
      obtain ⟨-, rfl⟩ := Prod.mk.inj heq
      exact ⟨(htaken.copied.settled h).runCalls (hok u htaken.copied) hcalls hmapped, htaken.pool,
        htaken.live.trans hr.live⟩

/-- A run keeps them, too. -/
theorem settled_of_usageSteps (hrun : Relation.ReflTransGen UsageStep x y)
    (h : ∃ g, x.1.Settled g) (hr : x.2.Idle) : (∃ g, y.1.Settled g) ∧ y.2.Idle := by
  induction hrun with
  | refl => exact ⟨h, hr⟩
  | tail _ hstep ih =>
    obtain ⟨⟨g, hg⟩, hr⟩ := ih
    exact hstep.settled hg hr

theorem UsageReachable.settled (hs : UsageReachable s r) : (∃ g, s.Settled g) ∧ r.Idle := by
  obtain ⟨k, mem, mmaps, hk, hregions, hrun⟩ := hs
  exact settled_of_usageSteps hrun ⟨_, State.settled_init hk mem⟩ (RegionState.idle_init hregions)

end Runs

/-! ### The mappings of a file -/

/-- The entry for a line of the file. -/
def MapsLine.vmarea (l : MapsLine) : Vmarea :=
  ⟨l.startAddr.value, l.endAddr.value, 0⟩

/-- The first `n` lines of the file that are of interest. -/
def vmareasOf (n : ℕ) (lines : List MapsLine) : List Vmarea :=
  ((qualifying VmareaArray.isPrivate lines).take n).map MapsLine.vmarea

/-- The array has as many entries as the first reading counted, with what the second one shows. -/
theorem initFilemaps_entries {addr : ℕ} (haddr : addr ≠ 0) {lines₁ lines₂ : List MapsLine}
    (hreads : VmareaArray.Reads lines₁ lines₂)
    (hmore : (qualifying VmareaArray.isPrivate lines₁).length ≤
      (qualifying VmareaArray.isPrivate lines₂).length) (v : ScanVars) :
    ∃ array, VmareaArray.initFilemaps (some addr) (mapsText lines₁) (mapsText lines₂) v =
        some (0, array) ∧ array.vmareaArray ≠ 0 ∧
      array.entries = vmareasOf (qualifying VmareaArray.isPrivate lines₁).length lines₂ := by
  obtain ⟨array, hrun, hmapped, hcnt, hentry⟩ :=
    (VmareaArray.initFilemaps_mapsText haddr lines₁ lines₂ v).1 hreads
  refine ⟨array, hrun, hmapped ▸ haddr, ?_⟩
  rw [VmareaArray.entries, hcnt, Int.toNat_natCast]
  refine List.ext_getElem ?_ fun i hi hi' ↦ ?_
  · rw [List.length_map, List.length_range, vmareasOf, List.length_map, List.length_take,
      min_eq_left hmore]
  · simp only [List.length_map, List.length_range] at hi
    simp only [List.getElem_map, List.getElem_range, vmareasOf, List.getElem_take]
    exact hentry i _ (List.getElem?_eq_getElem (hi.trans_le hmore))

/-- In every state of a run, if the readings of the file do not make it fault: without nodes for all
copies, the command returns `(uint64_t)-1`. With them, making the copies and giving them back leads
to a state `u` in which everything is as it was, and the command returns exactly if the calls of the
library return that it makes from there, in the state that these lead to, with no page region left.
What it returns and charges to the mappings is what the blocks occupy that it could register. -/
theorem virtual_memory_usage {s : State} {r : RegionState} (hs : UsageReachable s r)
    (hcall : s.UsageCall r) {addr : ℕ} (haddr : addr ≠ 0) {lines₁ lines₂ : List MapsLine}
    (hreads : VmareaArray.Reads lines₁ lines₂)
    (hmore : (qualifying VmareaArray.isPrivate lines₁).length ≤
      (qualifying VmareaArray.isPrivate lines₂).length) (v : ScanVars) (calls : List (Env × Call)) :
    ((s.nodesFor (s.blocks.tableNodes .live).length).length ≠ (s.blocks.tableNodes .live).length →
      ∃ t, mcGetVirtualMemoryUsage ⟨some addr, mapsText lines₁, mapsText lines₂, v, calls⟩ s r =
        some (⟨18446744073709551615, [], []⟩, t, r) ∧ .mmapFailed ∈ t.trace) ∧
    ((s.nodesFor (s.blocks.tableNodes .live).length).length = (s.blocks.tableNodes .live).length →
      ∃ report u r', s.CopiedBack u ∧ s.Untouched u ∧ r'.pool.live pageregionSize = ∅ ∧
        (∃ done, s.RegisteredBuffers r done ∧
          State.UsageOf (vmareasOf (qualifying VmareaArray.isPrivate lines₁).length lines₂) done
            report) ∧
        mcGetVirtualMemoryUsage ⟨some addr, mapsText lines₁, mapsText lines₂, v, calls⟩ s r =
          (u.runCalls calls).map fun t ↦ (report, t, r')) := by
  obtain ⟨⟨g, hg⟩, hr⟩ := hs.settled
  obtain ⟨array, hinit, hmapped, hentries⟩ := initFilemaps_entries haddr hreads hmore v
  let env : MapsEnv := ⟨some addr, mapsText lines₁, mapsText lines₂, v, calls⟩
  have hinit' : env.initFilemaps = some (0, array) := hinit
  have hnot : ¬env.Faulty := fun h ↦ hmapped (h 0 array hinit').1
  have hlen := (hg.inv.blocks.tableNodes_perm .live).length_eq
  rw [hlen]
  rcases State.usage_spec hg.inv hg.tidy hr.pool hcall env with
    ⟨t, hfail, hfew, -, C, S, -, ⟨es, hconfined, hfailed⟩, -⟩ | ⟨hnodes, u, r', x, htaken⟩
  · refine ⟨fun _ ↦ ⟨t, hfail, ?_⟩, fun hnodes ↦ absurd hnodes hfew⟩
    rw [hconfined.trace_eq]
    exact List.mem_append_right _ hfailed
  · refine ⟨fun hfew ↦ absurd hnodes hfew, fun _ ↦ ?_⟩
    obtain ⟨⟨es, hconfined, -⟩, -⟩ := htaken.copied.restored hg.inv hg.tidy
    obtain ⟨done, hdone, hx⟩ := htaken.report
    obtain ⟨report, hreport, k, array', heq, husage⟩ := hx.exists_of_not hnot
    obtain ⟨-, rfl⟩ := Prod.mk.inj (Option.some.inj (hinit'.symm.trans heq))
    refine ⟨report, u, r', htaken.copied, hconfined.untouched hg.inv hg.tidy,
      htaken.live.trans hr.live,
      ⟨done, hdone, hentries ▸ husage⟩, ?_⟩
    rw [htaken.run, hreport, Option.bind_some]

/-- The library asks for the buffer of a stream, at `a`, and gives it back. -/
def streamCalls (a : ℕ) : List (Env × Call) :=
  [(Env.handing a, .malloc 552), (Env.handing 0, .free (a + redzoneSize))]

/-- These calls return, with hooks enabled. -/
theorem State.Settled.exists_streamCalls {s : State} {g : Contents} {a : ℕ} (h : s.Settled g)
    (h0 : s.doNotHook = 0) (hframes : ∃ c ∈ g.callstacks, (s.callstacks.node c).trace = [])
    (ha : Heap.AnswerOk ⟨a, fun _ ↦ 0⟩ 584 s.heap) : ∃ t, s.runCalls (streamCalls a) = some t := by
  obtain ⟨p, u, g', hmalloc, hinv, hattr, h0'⟩ :=
    @State.Inv.exists_malloc s g (Env.handing a) 552 h.inv h.attributed h0 hframes (by decide) ha
  obtain ⟨t, hfree⟩ := hinv.exists_hookFree hattr h0' (Env.handing 0) (a + redzoneSize)
  have hexec : (Call.free (a + redzoneSize)).exec (Env.handing 0) u = some (0, t) := by
    rw [Call.exec, hfree]
    rfl
  refine ⟨t, ?_⟩
  simp only [streamCalls, State.runCalls, hmalloc, hexec, Option.bind_eq_bind, Option.bind_some]

/-- One live block, a page for the regions, one mapping that the file shows both times, and a stream
with a buffer. -/
theorem virtual_memory_usage_oneBlock : ∃ (s : State) (r : RegionState) (report : UsageReport)
    (u t : State) (r' : RegionState), s.buffers .live = [(1048576, 48)] ∧ s.Untouched u ∧
      (∃ done, s.RegisteredBuffers r done ∧
        State.UsageOf (vmareasOf 1 [.readWrite (.page 0) (.page 1)]) done report) ∧
      u.runCalls (streamCalls 1048640) = some t ∧
      mcGetVirtualMemoryUsage ⟨some 4198400, mapsText [.readWrite (.page 0) (.page 1)],
        mapsText [.readWrite (.page 0) (.page 1)], .zero, streamCalls 1048640⟩ s r =
          some (report, t, r') := by
  obtain ⟨s, g, n, c, h⟩ := State.exists_oneBlock
  have hregions : KernelAnswers pageregionPoolHead [some 32768] :=
    ⟨by decide, by decide, by simp, by decide⟩
  have hbuffers : s.buffers .live = [(1048576, 48)] := by
    rw [State.buffers, h.tableNodes_live, List.map_singleton, State.buffer, h.record]
  have hreach : UsageReachable s (.init [some 32768]) := by
    obtain ⟨k, mem, hk, hrun⟩ := h.hooked.mapped
    exact ⟨k, mem, _, hk, hregions, hrun.lift (·, _) fun _ _ hstep ↦ .inl ⟨hstep, rfl⟩⟩
  have hcall : s.UsageCall (.init [some 32768]) := by
    intro t hcopy
    have hcopied := State.buffers_of_copied h.inv h.tidy hcopy
    rw [hbuffers, List.perm_singleton] at hcopied
    rw [hcopied]
    refine ⟨fun hne ↦ absurd ?_ hne, fun _ _ _ ↦ trivial⟩
    exact (congrFun RegionState.next_setNext _).trans (Function.update_self ..)
  have hfits : ∀ l ∈ [MapsLine.readWrite (.page 0) (.page 1)], l.Fits := by
    rw [List.forall_mem_singleton]
    exact MapsLine.plain_anonymous.fits
  have hnodes : (s.nodesFor (s.blocks.tableNodes .live).length).length =
      (s.blocks.tableNodes .live).length := by
    rw [h.tableNodes_live]
    exact h.length_nodesFor
  obtain ⟨report, u, r', hu, huntouched, -, hreport, hrun⟩ :=
    (@virtual_memory_usage s _ hreach hcall 4198400 (by decide) _ _
    ⟨by decide, hfits, by decide, by decide⟩ le_rfl
      ScanVars.zero (streamCalls 1048640)).2 hnodes
  -- the calls find a settled state with the callstack that they are made from
  have hsettled : s.Settled g := ⟨h.inv, h.tidy, h.attributed⟩
  have hcallstacks := (hu.restored h.inv h.tidy).2
  obtain ⟨t, ht⟩ := (hu.settled hsettled).exists_streamCalls
    (huntouched.doNotHook.trans h.resting.mode)
    ⟨c, h.callstacks, by rw [hcallstacks]; exact h.trace⟩
    (a := 1048640) (huntouched.heap ▸ h.resting.below.answerOk (by decide))
  refine ⟨s, _, report, u, t, r', hbuffers, huntouched, hreport, ht, ?_⟩
  rw [hrun, ht, Option.map_some]

end Memchk
