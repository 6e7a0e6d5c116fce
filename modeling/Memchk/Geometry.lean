import Memchk.Supply

/-!
# Where the payload and the red zones lie

`__aligned_allocator` asks for two red zones and room for the alignment, and rounds the address
behind the leading red zone up. As long as no sum wraps around, the payload it returns is placed as
it should be (`Memblk.Placed`), and the three writes of `mc_set_allocated_buffer`, each with an
address and a length computed in `size_t`, meet every byte of the buffer once and no other byte
(`Memblk.Partitioned`).

## The writes

A `Fill` is one call of `memset`: an address, a length and a byte. `setAllocatedFills` are those of
`mc_set_allocated_buffer`, with the expressions of the source, and `mcSetAllocatedBuffer_eq_fill`
says that the function does these writes one after the other, a fault in any of them included.

`Memblk.Partitioned` says three things: which addresses each write covers, that every byte of the
buffer is covered by exactly one of them, and that the function makes the writes, so that afterwards
the memory holds the byte of its fill at each address of the buffer and is unchanged elsewhere.

## The placement

Rounding up adds less than the alignment, which is what the buffer was made larger by. So both red
zones are at least as large as they should be, and the payload is aligned. All of it rests on the
sums not wrapping, which is the hypothesis of the theorem and is decided elsewhere.
-/

namespace Memchk

/-- One call of `memset`. -/
structure Fill where
  addr : ℕ
  pattern : UInt8
  len : ℕ
deriving DecidableEq

/-- The byte is written. -/
def Fill.Covers (f : Fill) (y : ℕ) : Prop :=
  f.addr ≤ y ∧ y < f.addr + f.len

instance (f : Fill) (y : ℕ) : Decidable (f.Covers y) :=
  inferInstanceAs (Decidable (_ ∧ _))

theorem Fill.covers_iff {f : Fill} {y : ℕ} : f.Covers y ↔ f.addr ≤ y ∧ y < f.addr + f.len :=
  Iff.rfl

/-- The calls of `memset` one after the other. -/
def Heap.fill (fills : List Fill) (h : Heap) : Option Heap :=
  fills.foldlM (fun h f ↦ h.memset f.addr f.pattern f.len) h

/-- The calls of `memset` in `mc_set_allocated_buffer`. -/
def setAllocatedFills (x : Memblk) (usrptr : ℕ) (initUsrptr : Bool) : List Fill :=
  let leading := subSize usrptr x.buf
  let trailing := subSize (subSize x.bufsize leading) x.usrsize
  [⟨x.buf, redzonePattern, leading⟩] ++
    (if initUsrptr then [⟨wrapSize (x.buf + leading), initbufPattern, x.usrsize⟩] else []) ++
    [⟨wrapSize (x.buf + leading + x.usrsize), redzonePattern, trailing⟩]

/-- The payload is aligned, with room for a red zone on each side. -/
structure Memblk.Placed (alignment : ℕ) (x : Memblk) (usrptr : ℕ) : Prop where
  dvd : alignment ∣ usrptr
  low : x.buf + redzoneSize ≤ usrptr
  high : usrptr ≤ x.buf + redzoneSize + alignment - 1
  room : usrptr + x.usrsize + redzoneSize ≤ x.buf + x.bufsize

/-- What `mc_set_allocated_buffer` does to memory is to make three writes, a leading red zone, the
payload and a trailing red zone. Each byte of the buffer is in one of them, and no other byte is. On
a buffer that is handed out all of them are made, and each byte holds the pattern of its zone. -/
structure Memblk.Partitioned (x : Memblk) (usrptr : ℕ) : Prop where
  writes : ∀ initUsrptr h, mcSetAllocatedBuffer x usrptr initUsrptr h =
    h.fill (setAllocatedFills x usrptr initUsrptr)
  made : ∀ initUsrptr h, h.Ok → (x.buf, x.bufsize) ∈ h.outstanding →
    mcSetAllocatedBuffer x usrptr initUsrptr h =
      some { h with mem := armed x usrptr initUsrptr h.mem }
  zones : ∃ leading trailing, setAllocatedFills x usrptr true =
    [⟨x.buf, redzonePattern, leading⟩, ⟨usrptr, initbufPattern, x.usrsize⟩,
      ⟨usrptr + x.usrsize, redzonePattern, trailing⟩] ∧
    redzoneSize ≤ leading ∧ redzoneSize ≤ trailing
  once : ∀ y, (setAllocatedFills x usrptr true).countP (fun f ↦ f.Covers y) =
    if x.buf ≤ y ∧ y < x.buf + x.bufsize then 1 else 0
  frame : ∀ initUsrptr h h', mcSetAllocatedBuffer x usrptr initUsrptr h = some h' →
    ∀ y, ¬(x.buf ≤ y ∧ y < x.buf + x.bufsize) → h'.mem y = h.mem y

/-! ### The writes -/

section Fills

variable {x : Memblk} {usrptr alignment : ℕ} {fills : List Fill} {h h' : Heap}

/-- Bytes that are not covered keep their values. -/
theorem Heap.mem_fill (hfill : h.fill fills = some h') {y : ℕ} (hy : ∀ f ∈ fills, ¬f.Covers y) :
    h'.mem y = h.mem y := by
  induction fills generalizing h with
  | nil =>
    obtain rfl := Option.some.inj hfill
    rfl
  | cons f fills ih =>
    obtain ⟨h₁, hset, hrest⟩ := Option.bind_eq_some_iff.1 hfill
    obtain ⟨-, rfl⟩ := Heap.memset_eq_some_iff.1 hset
    rw [ih hrest fun f hf ↦ hy f (List.mem_cons_of_mem _ hf)]
    exact if_neg (hy f List.mem_cons_self)

theorem mcSetAllocatedBuffer_eq_fill (x : Memblk) (usrptr : ℕ) (initUsrptr : Bool) (h : Heap) :
    mcSetAllocatedBuffer x usrptr initUsrptr h =
    h.fill (setAllocatedFills x usrptr initUsrptr) := by
  cases initUsrptr <;> simp [mcSetAllocatedBuffer, setAllocatedFills, Heap.fill]

/-- A payload that is placed lies inside the buffer. -/
theorem Memblk.Placed.shape (hx : x.Placed alignment usrptr) : x.Shape usrptr :=
  ⟨by have := hx.low; omega, by have := hx.room; omega⟩

namespace Memblk.Shape

/-- The writes of `mc_set_allocated_buffer` where no sum wraps around. -/
theorem setAllocatedFills_eq (hx : x.Shape usrptr)
    (hend : usrptr + x.usrsize < 18446744073709551616)
    (hsize : x.bufsize < 18446744073709551616) (initUsrptr : Bool) :
    setAllocatedFills x usrptr initUsrptr =
      [⟨x.buf, redzonePattern, usrptr - x.buf⟩] ++
        (if initUsrptr then [⟨usrptr, initbufPattern, x.usrsize⟩] else []) ++
        [⟨usrptr + x.usrsize, redzonePattern, x.buf + x.bufsize - (usrptr + x.usrsize)⟩] := by
  obtain ⟨hle, hle'⟩ := hx
  have hleading : subSize usrptr x.buf = usrptr - x.buf := subSize_of_le hle (by omega)
  have htrailing : subSize (subSize x.bufsize (usrptr - x.buf)) x.usrsize =
      x.buf + x.bufsize - (usrptr + x.usrsize) := by
    rw [subSize_of_le (m := x.bufsize) (by omega) (by omega), subSize_of_le (by omega) (by omega)]
    omega
  rw [setAllocatedFills, hleading, htrailing, show x.buf + (usrptr - x.buf) = usrptr by omega,
    wrapSize_of_lt (n := usrptr) (by omega), wrapSize_of_lt hend]

/-- No write leaves the buffer. -/
theorem not_covers (hx : x.Shape usrptr) (hend : usrptr + x.usrsize < 18446744073709551616)
    (hsize : x.bufsize < 18446744073709551616) (initUsrptr : Bool) {y : ℕ}
    (hy : ¬(x.buf ≤ y ∧ y < x.buf + x.bufsize)) :
    ∀ f ∈ setAllocatedFills x usrptr initUsrptr, ¬f.Covers y := by
  rw [hx.setAllocatedFills_eq hend hsize]
  obtain ⟨hle, hle'⟩ := hx
  intro f hf
  cases initUsrptr with
  | false =>
    rcases List.mem_cons.1 hf with rfl | hf
    · simp only [Fill.covers_iff]
      omega
    · obtain rfl := List.mem_singleton.1 hf
      simp only [Fill.covers_iff]
      omega
  | true =>
    rcases List.mem_cons.1 hf with rfl | hf
    · simp only [Fill.covers_iff]
      omega
    · rcases List.mem_cons.1 hf with rfl | hf
      · simp only [Fill.covers_iff]
        omega
      · obtain rfl := List.mem_singleton.1 hf
        simp only [Fill.covers_iff]
        omega

/-- A byte of the buffer lies in front of the payload, in it, or behind it. -/
theorem countP_covers (hx : x.Shape usrptr) (hend : usrptr + x.usrsize < 18446744073709551616)
    (hsize : x.bufsize < 18446744073709551616) (y : ℕ) :
    (setAllocatedFills x usrptr true).countP (fun f ↦ f.Covers y) =
      if x.buf ≤ y ∧ y < x.buf + x.bufsize then 1 else 0 := by
  rw [hx.setAllocatedFills_eq hend hsize]
  obtain ⟨hle, hle'⟩ := hx
  simp only [if_true, List.cons_append, List.nil_append, List.countP_cons, List.countP_nil,
    decide_eq_true_eq]
  simp only [Fill.covers_iff]
  split_ifs <;> omega

end Memblk.Shape

/-- The writes to a block that is placed partition its buffer. -/
theorem Memblk.Placed.partitioned (hx : x.Placed alignment usrptr)
    (hend : x.buf + x.bufsize ≤ 18446744073709551616) (hne : x.buf ≠ 0) : x.Partitioned usrptr := by
  have hlow := hx.low
  have hroom := hx.room
  simp only [redzoneSize] at hlow hroom
  have hend' : usrptr + x.usrsize < 18446744073709551616 := by omega
  have hsize : x.bufsize < 18446744073709551616 := by omega
  refine ⟨mcSetAllocatedBuffer_eq_fill x usrptr,
    fun initUsrptr h hok hbuf ↦ mcSetAllocatedBuffer_eq hok hbuf hx.shape,
    ⟨usrptr - x.buf, x.buf + x.bufsize - (usrptr + x.usrsize),
      hx.shape.setAllocatedFills_eq hend' hsize true, ?_, ?_⟩, hx.shape.countP_covers hend' hsize,
    fun initUsrptr h h' hset y hy ↦ ?_⟩
  · show 16 ≤ _
    omega
  · show 16 ≤ _
    omega
  · rw [mcSetAllocatedBuffer_eq_fill] at hset
    exact Heap.mem_fill hset (hx.shape.not_covers hend' hsize initUsrptr hy)

end Fills

/-! ### The placement -/

section Aligned

variable {env : Env} {alignment size buf : ℕ}

/-- `__aligned_allocator` places the payload as it should, if no sum wraps around. -/
theorem Request.placed_aligned (halign : alignment < 18446744073709551616)
    (hpow : Hook.isPowerOf2 alignment = true) (hne : buf ≠ 0)
    (hend : buf + (size + redzoneSize * 2 + alignment - 1) ≤ 18446744073709551616) :
    ((Request.aligned alignment size).block buf).Placed alignment
      ((Request.aligned alignment size).place buf) := by
  obtain ⟨k, hk, rfl⟩ := Hook.exists_eq_two_pow halign hpow
  have hpos := Nat.two_pow_pos k
  simp only [redzoneSize] at hend
  have hbounds := @Hook.alignAddr_bounds (buf + 16) k hk (by omega)
  have hround := @Hook.alignAddr_two_pow (buf + 16) k hk (by omega)
  simp only [Request.aligned, Request.block, redzoneSize]
  rw [wrapSize_of_lt (n := buf + 16) (by omega), wrapSize_of_lt (n := size + _ + _ - 1) (by omega)]
  refine ⟨hround ▸ Nat.dvd_mul_left _ _, hbounds.1, ?_, ?_⟩
  · simp only [redzoneSize]
    omega
  · simp only [redzoneSize]
    omega

/-- Whatever the service returns is where the request places the payload. -/
theorem Request.eq_place_of_serve {r : Request} {s s' : State} {p : ℕ} (hne : env.answer.addr ≠ 0)
    (hserve : r.serve env s = some (p, s')) : p = r.place env.answer.addr := by
  simp only [Request.serve, State.origMalloc, hne, if_false] at hserve
  obtain ⟨x, -, heq⟩ := Option.bind_eq_some_iff.1 hserve
  exact (congrArg Prod.fst (Option.some.inj heq)).symm

/-- For every alignment that is a power of two, every size and every buffer such that no sum wraps
around, `__aligned_allocator` returns a payload that is placed as it should be, and the writes to
the block partition the buffer. From a reachable state it does return, with that block recorded and
written to unless the pool has no node for it. -/
theorem alignedAllocator_geometry (hne : env.answer.addr ≠ 0)
    (halign : alignment < 18446744073709551616) (hpow : Hook.isPowerOf2 alignment = true)
    (hend : env.answer.addr + (size + redzoneSize * 2 + alignment - 1) ≤ 18446744073709551616) :
    let x : Memblk := ⟨env.answer.addr, size + redzoneSize * 2 + alignment - 1, size⟩
    (∀ s p s', Hook.alignedAllocator env alignment size s = some (p, s') →
      x.Placed alignment p ∧ x.Partitioned p) ∧
      ∀ s, Reachable s → Heap.AnswerOk env.answer x.bufsize s.heap →
        ∃ p s', Hook.alignedAllocator env alignment size s = some (p, s') ∧
          (s.HasNode → ∃ n c, s'.blocks.find .live p = some n ∧ n ≠ 0 ∧
            s'.blocks.record n = ⟨p, x, c⟩ ∧
            mcSetAllocatedBuffer x p true (s.origMalloc env x.bufsize).2.heap = some s'.heap) := by
  intro x
  have hsize : (Request.aligned alignment size).bufsize =
      size + redzoneSize * 2 + alignment - 1 := by
    refine wrapSize_of_lt ?_
    omega
  have hblock : (Request.aligned alignment size).block env.answer.addr = x := by
    simp only [Request.block, hsize]
    rfl
  have hplaced := @Request.placed_aligned alignment size _ halign hpow hne hend
  rw [hblock] at hplaced
  refine ⟨fun s p s' hcall ↦ ?_, fun s hs ha ↦ ?_⟩
  · obtain rfl := Request.eq_place_of_serve (r := .aligned alignment size) hne hcall
    exact ⟨hplaced, hplaced.partitioned hend hne⟩
  · obtain ⟨g, h⟩ := hs.inv
    have hsize_lt : size < 18446744073709551616 := by
      simp only [redzoneSize] at hend
      omega
    have hok := Request.ok_aligned halign hpow hsize_lt
    have ha' : Heap.AnswerOk env.answer (Request.aligned alignment size).bufsize s.heap := by
      rw [hsize]
      exact ha
    rcases h.serve hok ha' with ⟨hnull, -⟩ | ⟨-, ⟨s', hserve, hun⟩ | ⟨hshape, -⟩ |
      ⟨s', g', n, c, hserve, hrec⟩⟩
    · exact absurd hnull hne
    · refine ⟨_, s', hserve, ?_⟩
      -- there was a node, so the block cannot be unrecorded
      rintro ⟨n, pool, halloc, hn⟩
      have hzero := hun.failed.symm.trans halloc
      exact absurd (congrArg Prod.fst (Option.some.inj hzero)).symm hn
    · exact absurd (hblock ▸ hplaced.shape) hshape
    · have hn : n ∈ g'.nodes .live := by
        rw [hrec.nodes, Function.update_self]
        exact List.mem_cons_self
      have hfind := hrec.inv.find_live hn
      rw [hrec.record] at hfind
      have hguarded := hrec.inv.guarded n hn
      rw [hrec.record, hblock] at hguarded
      have hmem : (x.buf, x.bufsize) ∈ (s.origMalloc env x.bufsize).2.heap.outstanding := by
        have := hguarded.mem
        rwa [hrec.heap, hsize] at this
      refine ⟨_, s', hserve, fun _ ↦ ⟨n, c, hfind, hrec.inv.blocks.ne_null hn,
        hblock ▸ hrec.record, ?_⟩⟩
      rw [mcSetAllocatedBuffer_eq (h.origMalloc ha).heap hmem hplaced.shape, hrec.heap,
        hsize, hblock]

/-- A page-aligned block in the buffer at `1048576`. -/
theorem alignedAllocator_geometry_page :
    (∀ s p s', Hook.alignedAllocator (Env.handing 1048576) 4096 100 s = some (p, s') →
      (⟨1048576, 4227, 100⟩ : Memblk).Placed 4096 p ∧
      (⟨1048576, 4227, 100⟩ : Memblk).Partitioned p) ∧
      ∃ p s', Hook.alignedAllocator (Env.handing 1048576) 4096 100 .start = some (p, s') := by
  have hgeometry := @alignedAllocator_geometry (Env.handing 1048576) 4096 100
    (by decide) (by decide)
    (by decide) (by decide)
  refine ⟨hgeometry.1, ?_⟩
  obtain ⟨p, s', hcall, -⟩ := hgeometry.2 .start reachable_start (by decide)
  exact ⟨p, s', hcall⟩

end Aligned

end Memchk
