import Memchk.Blocks
import Memchk.Hook
import Memchk.Quarantine

/-!
# The invariant of the checker

`State.Inv s g`: the tables, the ring and the pools hold the nodes that `g` lists, every block among
them lies in a buffer of its own, and the ring agrees with the history of the blocks freed. It holds
between any two calls, in any mode and whether or not the metadata pools run out of memory, as long
as only buffers that belong to no block are given back behind the checker.

## Contents

The invariant speaks about a state together with the lists of its nodes, `Contents`: for each of the
four tables, for the ring, and for the callstacks. A step is described by what it does to these
lists, and the lists of a state are determined by it up to their order.

## Blocks and buffers

A block of the live table or the ring is `Guarded`: its buffer is handed out, and its payload lies
inside. No two of the buffers are the same, live or freed. As buffers handed out do not meet, two
different blocks have no byte in common (`Guarded.apart`), and no pointer is that of two blocks
(`Inv.live_inj`, `Inv.usrptr_ne`). A write to one block then leaves all others alone, which is how
the checks of different blocks stay independent of each other.

## The operations

The two operations on blocks are described by `Registered` and `Unregistered`: what they do to the
lists, to the memory, to the counters and to the trace. Everything that is said about runs follows
from these. `Frame` is the part of both that says what they leave alone.
-/

namespace Memchk

/-- The nodes in use: those of the four tables, those of the quarantine, oldest first, and the
callstacks. -/
structure Contents where
  nodes : TableId → List ℕ
  freed : List ℕ
  callstacks : List ℕ

/-- The block has a buffer handed out by the allocator, and its payload starts and ends in it. -/
structure Guarded (h : Heap) (x : Memblk) (usrptr : ℕ) : Prop where
  mem : (x.buf, x.bufsize) ∈ h.outstanding
  shape : x.Shape usrptr
  lt : usrptr < x.buf + x.bufsize

namespace State

/-- The buffers of the live blocks. -/
def liveBufs (s : State) (g : Contents) : List ℕ :=
  (g.nodes .live).map fun n ↦ (s.blocks.record n).memblk.buf

/-- The buffers of the blocks in the quarantine, oldest first. -/
def freedBufs (s : State) (g : Contents) : List ℕ :=
  g.freed.map fun n ↦ (s.quarantine.record n).memblk.buf

/-- What a node of the quarantine stands for. -/
def freedBlock (s : State) (n : ℕ) : FreedBlock :=
  ⟨(s.quarantine.record n).usrptr, (s.quarantine.record n).memblk,
    s.callstacks.traceOf (s.quarantine.record n).allocator,
    s.callstacks.traceOf (s.quarantine.record n).freer⟩

/-- The invariant. -/
structure Inv (s : State) (g : Contents) : Prop where
  blocks : s.blocks.Holds g.nodes
  quarantine : s.quarantine.Holds g.freed
  fifo : s.quarantine.Fifo g.freed
  callstacks : s.callstacks.Holds g.callstacks
  heap : s.heap.Ok
  guarded : ∀ n ∈ g.nodes .live,
    Guarded s.heap (s.blocks.record n).memblk (s.blocks.record n).usrptr
  guardedFreed : ∀ n ∈ g.freed,
    Guarded s.heap (s.quarantine.record n).memblk (s.quarantine.record n).usrptr
  bufs : (s.liveBufs g ++ s.freedBufs g).Nodup
  interned : ∀ id, ∀ n ∈ g.nodes id,
    (s.blocks.record n).allocator = 0 ∨ (s.blocks.record n).allocator ∈ g.callstacks
  internedFreed : ∀ n ∈ g.freed,
    ((s.quarantine.record n).allocator = 0 ∨ (s.quarantine.record n).allocator ∈ g.callstacks) ∧
      ((s.quarantine.record n).freer = 0 ∨ (s.quarantine.record n).freer ∈ g.callstacks)
  history : g.freed.map s.freedBlock =
    s.quarantine.freed.drop (s.quarantine.freed.length - g.freed.length)

/-- The nodes that `g` lists say the same in both states. -/
structure Frame (s s' : State) (g : Contents) : Prop where
  record : ∀ id, ∀ n ∈ g.nodes id, s'.blocks.record n = s.blocks.record n
  freedRecord : ∀ n ∈ g.freed, s'.quarantine.record n = s.quarantine.record n
  callstacks : s.callstacks.Extends s'.callstacks g.callstacks

end State

/-! ### Blocks have buffers of their own -/

namespace Guarded

variable {h : Heap} {x y : Memblk} {p q : ℕ}

/-- Two blocks whose payloads start at the same address have the same buffer. -/
theorem buf_eq (hok : h.Ok) (hx : Guarded h x p) (hy : Guarded h y p) : x.buf = y.buf := by
  have hle := hx.shape.le
  have hle' := hy.shape.le
  have hlt := hx.lt
  have hlt' := hy.lt
  exact congrArg Prod.fst (hok.unique (x := p) hx.mem hy.mem ⟨hle, by simp only; omega⟩
    ⟨hle', by simp only; omega⟩)

/-- Two blocks with different buffers have no byte in common. -/
theorem apart (hok : h.Ok) (hx : Guarded h x p) (hy : Guarded h y q) (hne : x.buf ≠ y.buf) :
    x.buf + x.bufsize ≤ y.buf ∨ y.buf + y.bufsize ≤ x.buf := by
  have hapart := hok.apart.forall hx.mem hy.mem fun heq ↦ hne (congrArg Prod.fst heq)
  simp only [Heap.Apart] at hapart
  omega

/-- The buffer of a block ends in user space. -/
theorem end_le (hok : h.Ok) (hx : Guarded h x p) :
    x.buf + x.bufsize ≤ 9223372036854775808 := by
  have := hok.end_le _ hx.mem
  simp only at this
  omega

/-- A block stays guarded as long as its buffer is handed out. -/
theorem of_outstanding {h' : Heap} (hx : Guarded h x p)
    (hsub : (x.buf, x.bufsize) ∈ h.outstanding → (x.buf, x.bufsize) ∈ h'.outstanding) :
    Guarded h' x p :=
  ⟨hsub hx.mem, hx.shape, hx.lt⟩

end Guarded

namespace State.Inv

variable {s s' : State} {g : Contents} {m n : ℕ}

theorem live_inj (h : s.Inv g) (hm : m ∈ g.nodes .live) (hn : n ∈ g.nodes .live)
    (heq : (s.blocks.record m).usrptr = (s.blocks.record n).usrptr) : m = n := by
  refine List.inj_on_of_nodup_map (List.nodup_append.1 h.bufs).1 hm hn ?_
  exact (h.guarded m hm).buf_eq h.heap (heq ▸ h.guarded n hn)

/-- A pointer is that of one freed block only. -/
theorem freed_inj (h : s.Inv g) (hm : m ∈ g.freed) (hn : n ∈ g.freed)
    (heq : (s.quarantine.record m).usrptr = (s.quarantine.record n).usrptr) : m = n := by
  refine List.inj_on_of_nodup_map (List.nodup_append.1 h.bufs).2.1 hm hn ?_
  exact (h.guardedFreed m hm).buf_eq h.heap (heq ▸ h.guardedFreed n hn)

/-- A live block and one in the quarantine differ in their buffers. -/
theorem buf_ne (h : s.Inv g) (hm : m ∈ g.nodes .live) (hn : n ∈ g.freed) :
    (s.blocks.record m).memblk.buf ≠ (s.quarantine.record n).memblk.buf := by
  have hm' : (s.blocks.record m).memblk.buf ∈ s.liveBufs g := List.mem_map.2 ⟨m, hm, rfl⟩
  have hn' : (s.quarantine.record n).memblk.buf ∈ s.freedBufs g := List.mem_map.2 ⟨n, hn, rfl⟩
  exact (List.nodup_append.1 h.bufs).2.2 _ hm' _ hn'

/-- No pointer is that of a live block and that of one in the quarantine. -/
theorem usrptr_ne (h : s.Inv g) (hm : m ∈ g.nodes .live) (hn : n ∈ g.freed) :
    (s.blocks.record m).usrptr ≠ (s.quarantine.record n).usrptr := fun heq ↦
  h.buf_ne hm hn ((h.guarded m hm).buf_eq h.heap (heq ▸ h.guardedFreed n hn))

theorem live_buf_ne (h : s.Inv g) (hm : m ∈ g.nodes .live) (hn : n ∈ g.nodes .live)
    (hne : m ≠ n) : (s.blocks.record m).memblk.buf ≠ (s.blocks.record n).memblk.buf := fun heq ↦
  hne (List.inj_on_of_nodup_map (List.nodup_append.1 h.bufs).1 hm hn heq)

theorem freed_buf_ne (h : s.Inv g) (hm : m ∈ g.freed) (hn : n ∈ g.freed) (hne : m ≠ n) :
    (s.quarantine.record m).memblk.buf ≠ (s.quarantine.record n).memblk.buf := fun heq ↦
  hne (List.inj_on_of_nodup_map (List.nodup_append.1 h.bufs).2.1 hm hn heq)

theorem freed_ne_null (h : s.Inv g) (hn : n ∈ g.freed) : n ≠ 0 :=
  h.quarantine.ne_null hn

/-! ### Changes that the invariant does not see -/

/-- The invariant does not look at the trace, the counters, the mode, nor at the bytes of memory. -/
theorem of_heap (h : s.Inv g) (hblocks : s'.blocks = s.blocks)
    (hquarantine : s'.quarantine = s.quarantine) (hcallstacks : s'.callstacks = s.callstacks)
    (hok : s'.heap.Ok)
    (hlive : ∀ n ∈ g.nodes .live, ∀ b, b.1 = (s.blocks.record n).memblk.buf →
      b ∈ s.heap.outstanding → b ∈ s'.heap.outstanding)
    (hfreed : ∀ n ∈ g.freed, ∀ b, b.1 = (s.quarantine.record n).memblk.buf →
      b ∈ s.heap.outstanding → b ∈ s'.heap.outstanding) : s'.Inv g := by
  have hfb : s'.freedBlock = s.freedBlock := by
    funext n
    simp only [freedBlock, hquarantine, hcallstacks]
  refine ⟨hblocks ▸ h.blocks, hquarantine ▸ h.quarantine, hquarantine ▸ h.fifo,
    hcallstacks ▸ h.callstacks, hok, fun n hn ↦ ?_, fun n hn ↦ ?_, ?_, fun id n hn ↦ ?_,
    fun n hn ↦ ?_, ?_⟩
  · rw [hblocks]
    exact (h.guarded n hn).of_outstanding fun hmem ↦ hlive n hn _ rfl hmem
  · rw [hquarantine]
    exact (h.guardedFreed n hn).of_outstanding fun hmem ↦ hfreed n hn _ rfl hmem
  · simp only [liveBufs, freedBufs, hblocks, hquarantine]
    exact h.bufs
  · rw [hblocks]
    exact h.interned id n hn
  · rw [hquarantine]
    exact h.internedFreed n hn
  · rw [hfb, hquarantine]
    exact h.history

end State.Inv

end Memchk
