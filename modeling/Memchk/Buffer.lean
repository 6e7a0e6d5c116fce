import Memchk.State

/-!
# Guarded buffers

The writes and the checks of `memchk_buffer.c`. A live block is the payload in the middle of its
buffer, with a red zone on each side; a freed block is its whole buffer. Setting writes the
patterns, checking looks for bytes that differ from them and reports what it finds.

## What is written

`Memblk.Shape` says that the payload lies in its buffer. For such a block `mcSetAllocatedBuffer` and
`mcSetFreedBuffer` do not fault, and they give the memory a fixed content on the whole buffer
(`armed`, `poisoned`) without touching anything outside (`armed_of_notMem`, `poisoned_of_notMem`).

## What is checked

`Memblk.Intact` and `Memblk.Poisoned` are the two conditions on the memory that a check looks at. A
check reports a block if and only if its condition fails; the two directions are
`mcCheckAllocatedBuffer_of_intact` and `mcCheckAllocatedBuffer_of_damaged` for a live block, and the
same pair for a freed one. The check of a live block needs `Memblk.Fits`, which adds that the sizes
of the red zones are values of `int`.

## Two details of the source

The check of a freed block counts its index in an `int` and reads at most `2 ^ 31` bytes, so the
theorem on damage needs the buffer to be smaller than that. And the last line of a report prints
callstacks: with a null callstack pointer the check of a damaged block faults after the lines before
have been written, so the theorems that it returns take the callstacks as given.
-/

namespace Memchk

/-- `mc_set_allocated_buffer`, for the block `x` with payload at `usrptr`. -/
def mcSetAllocatedBuffer (x : Memblk) (usrptr : ℕ) (initUsrptr : Bool) (h : Heap) :
    Option Heap := do
  let leading := subSize usrptr x.buf
  let trailing := subSize (subSize x.bufsize leading) x.usrsize
  let h ← h.memset x.buf redzonePattern leading
  let h ←
    if initUsrptr then h.memset (wrapSize (x.buf + leading)) initbufPattern x.usrsize
    else some h
  h.memset (wrapSize (x.buf + leading + x.usrsize)) redzonePattern trailing

/-- `leading_redzone_size` in the checks, an `int`. -/
def leadingRedzoneSize (x : Memblk) (usrptr : ℕ) : ℤ :=
  toInt32 (subSize usrptr x.buf)

/-- `trailing_redzone_size` in the checks, an `int`. -/
def trailingRedzoneSize (x : Memblk) (usrptr : ℕ) : ℤ :=
  toInt32 (subSize (subSize x.bufsize (toSizeT (leadingRedzoneSize x usrptr))) x.usrsize)

/-- The address that the over-run loop reads at index `i`. -/
def trailingAddr (x : Memblk) (usrptr i : ℕ) : ℕ :=
  wrapSize (x.buf + wrapSize (toSizeT (leadingRedzoneSize x usrptr) + x.usrsize + i))

/-- The first loop of `mc_check_allocated_buffer`: the lowest byte of the leading red zone that was
written. -/
def underRunIndex (x : Memblk) (usrptr : ℕ) (h : Heap) : Option ℕ :=
  (List.range (leadingRedzoneSize x usrptr).toNat).find? fun i ↦
    h.mem (x.buf + i) ≠ redzonePattern

/-- The second loop: the highest byte of the trailing red zone that was written. -/
def overRunIndex (x : Memblk) (usrptr : ℕ) (h : Heap) : Option ℕ :=
  (List.range (trailingRedzoneSize x usrptr).toNat).reverse.find? fun i ↦
    h.mem (trailingAddr x usrptr i) ≠ redzonePattern

/-- The report of an under-run found at index `i`. -/
def underRunReport (x : Memblk) (usrptr : ℕ) (h : Heap) (i : ℕ) : Event :=
  let size := leadingRedzoneSize x usrptr
  .underRun (i = 0) (if i = 0 then size else size - i) usrptr x.usrsize
    ((List.range size.toNat).map fun k ↦ h.mem (x.buf + k))

/-- The report of an over-run found at index `i`. -/
def overRunReport (x : Memblk) (usrptr : ℕ) (h : Heap) (i : ℕ) : Event :=
  let size := trailingRedzoneSize x usrptr
  .overRun (i = size - 1) (if i = size - 1 then size else i + 1) usrptr x.usrsize
    ((List.range size.toNat).map fun k ↦ h.mem (wrapSize (usrptr + x.usrsize + k)))

/-- `mc_check_allocated_buffer`: the result and the lines logged. `allocator` is the trace to print,
which is read only if something was found (`none` if the pointer to it is null), and `freeing` the
current callstack if `freeing_now`. -/
def mcCheckAllocatedBuffer (x : Memblk) (usrptr : ℕ) (allocator freeing : Option (List ℕ))
    (h : Heap) : Option (ℤ × List Event) :=
  let reports := ((underRunIndex x usrptr h).map (underRunReport x usrptr h)).toList ++
    ((overRunIndex x usrptr h).map (overRunReport x usrptr h)).toList
  if reports = [] then some (0, [])
  else do
    let callstack ← allocator
    return (-1, reports ++ .allocatedFrom callstack ::
      (freeing.map Event.isBeingFreedFrom).toList)

/-- `mc_set_freed_buffer`. -/
def mcSetFreedBuffer (x : Memblk) (h : Heap) : Option Heap :=
  h.memset x.buf freedbufPattern x.bufsize

/-- The loop of `mc_check_freed_buffer`, with an `int` index that is compared as a `size_t`. -/
def scanFreed (x : Memblk) (h : Heap) : ℕ → ℤ → Option (Option ℤ)
  | 0, _ => none
  | rounds + 1, i =>
    if toSizeT i < x.bufsize then
      if h.mem (toSizeT (x.buf + i)) ≠ freedbufPattern then some (some i)
      else scanFreed x h rounds (toInt32 (i + 1))
    else some none

/-- `mc_check_freed_buffer`: the result and the lines logged. The index takes at most `2 ^ 32`
values. -/
def mcCheckFreedBuffer (x : Memblk) (usrptr : ℕ) (allocator freer : Option (List ℕ)) (h : Heap) :
    Option (ℤ × List Event) := do
  match ← scanFreed x h 4294967297 0 with
  | none => return (0, [])
  | some i =>
    let allocTrace ← allocator
    let freeTrace ← freer
    return (-1, [.freedArea usrptr x.usrsize (leadingRedzoneSize x usrptr)
      (trailingRedzoneSize x usrptr) i, .allocatedFrom allocTrace, .freedFrom freeTrace])

/-! ### Buffers handed out do not meet -/

namespace Heap

instance : Std.Symm Apart :=
  ⟨fun _ _ h ↦ h.symm⟩

variable {h : Heap} {b c : ℕ × ℕ} {x addr len : ℕ}

/-- A byte belongs to one buffer. -/
theorem Ok.unique (hok : h.Ok) (hb : b ∈ h.outstanding) (hc : c ∈ h.outstanding)
    (hxb : b.1 ≤ x ∧ x < b.1 + max 1 b.2) (hxc : c.1 ≤ x ∧ x < c.1 + max 1 c.2) : b = c := by
  by_contra hne
  have := hok.apart.forall hb hc hne
  unfold Apart at this
  omega

/-- A range that starts inside a buffer is accessible only if it ends inside that buffer. -/
theorem Ok.accessible_iff (hok : h.Ok) (hb : b ∈ h.outstanding) (hlow : b.1 ≤ addr)
    (hhigh : addr < b.1 + max 1 b.2) :
    h.Accessible addr len ↔ len = 0 ∨ addr + len ≤ b.1 + b.2 := by
  constructor
  · rintro (hlen | ⟨c, hc, hc₁, hc₂⟩)
    · exact .inl hlen
    · by_cases hlen : len = 0
      · exact .inl hlen
      · obtain rfl := hok.unique (x := addr) hb hc ⟨hlow, hhigh⟩ (by omega)
        exact .inr hc₂
  · rintro (hlen | hend)
    · exact .inl hlen
    · exact .inr ⟨b, hb, hlow, hend⟩

/-- `memset` faults outside the buffers handed out, and otherwise writes its bytes only. -/
theorem memset_eq_some_iff {c : UInt8} {h' : Heap} :
    h.memset addr c len = some h' ↔ h.Accessible addr len ∧
      h' = { h with mem := fun x ↦ if addr ≤ x ∧ x < addr + len then c else h.mem x } := by
  rw [memset]
  split_ifs with hacc
  · simp [hacc, eq_comm]
  · simp [hacc]

end Heap

/-! ### Setting the patterns -/

/-- The payload lies inside the buffer. -/
structure Memblk.Shape (x : Memblk) (usrptr : ℕ) : Prop where
  le : x.buf ≤ usrptr
  end_le : usrptr + x.usrsize ≤ x.buf + x.bufsize

/-- The bytes of a block after `mc_set_allocated_buffer`. -/
def armed (x : Memblk) (usrptr : ℕ) (initUsrptr : Bool) (mem : ℕ → UInt8) (y : ℕ) : UInt8 :=
  if x.buf ≤ y ∧ y < usrptr then redzonePattern
  else if usrptr ≤ y ∧ y < usrptr + x.usrsize then
    if initUsrptr then initbufPattern else mem y
  else if usrptr + x.usrsize ≤ y ∧ y < x.buf + x.bufsize then redzonePattern
  else mem y

section SetAllocated

variable {x : Memblk} {usrptr : ℕ} {init : Bool} {h h' : Heap}

/-- The three writes succeed only if the payload lies inside the buffer: the sizes that the red
zones are computed from have not wrapped around. -/
theorem shape_of_mcSetAllocatedBuffer (hok : h.Ok) (hbuf : (x.buf, x.bufsize) ∈ h.outstanding)
    (husr : usrptr < 18446744073709551616) (hsize : x.usrsize < 18446744073709551616)
    (hset : mcSetAllocatedBuffer x usrptr true h = some h') : x.Shape usrptr := by
  have hend := hok.end_le _ hbuf
  have hne := hok.ne_null _ hbuf
  simp only at hend hne
  simp only [mcSetAllocatedBuffer, Option.bind_eq_bind, Option.bind_eq_some_iff, if_true,
    Heap.memset_eq_some_iff] at hset
  obtain ⟨h₁, ⟨hacc₁, rfl⟩, h₂, ⟨hacc₂, rfl⟩, hacc₃, -⟩ := hset
  -- the leading red zone lies in the buffer, which the first write starts in
  have hle : subSize usrptr x.buf ≤ x.bufsize := by
    rw [hok.accessible_iff hbuf le_rfl (by simp only; omega)] at hacc₁
    simp only at hacc₁
    omega
  have husr_le : x.buf ≤ usrptr := by
    by_contra hlt
    have : subSize usrptr x.buf = usrptr + (18446744073709551616 - x.buf) := by
      unfold subSize
      rw [Nat.mod_eq_of_lt (show x.buf < 18446744073709551616 by omega),
        Nat.mod_eq_of_lt (by omega)]
    omega
  have hleading : subSize usrptr x.buf = usrptr - x.buf := subSize_of_le husr_le (by omega)
  rw [hleading] at hle hacc₂ hacc₃
  rw [show x.buf + (usrptr - x.buf) = usrptr by omega] at hacc₂ hacc₃
  rw [wrapSize_of_lt husr] at hacc₂
  refine ⟨husr_le, ?_⟩
  by_cases hin : usrptr < x.buf + x.bufsize
  · -- the payload starts inside the buffer
    have hacc₂' := (Heap.Ok.accessible_iff (b := (x.buf, x.bufsize)) hok hbuf husr_le
      (by simp only; omega)).1 hacc₂
    simp only at hacc₂'
    omega
  · -- the payload starts right behind the buffer: the trailing red zone would be longer than any
    -- buffer
    by_contra hout
    obtain ⟨b, hb, -, hb₂⟩ := hacc₂.resolve_left (by omega)
    have hbend := hok.end_le b hb
    have htrailing : subSize (subSize x.bufsize (usrptr - x.buf)) x.usrsize =
        18446744073709551616 - x.usrsize := by
      rw [show usrptr - x.buf = x.bufsize by omega, subSize_of_le le_rfl (by omega), Nat.sub_self]
      unfold subSize
      rw [Nat.mod_eq_of_lt hsize, Nat.zero_add, Nat.mod_eq_of_lt (by omega)]
    rw [htrailing] at hacc₃
    obtain ⟨c, hc, -, hc₂⟩ := hacc₃.resolve_left (by omega)
    have hcend := hok.end_le c hc
    omega

/-- The three writes on a block whose payload lies inside its buffer. -/
theorem mcSetAllocatedBuffer_eq (hok : h.Ok) (hbuf : (x.buf, x.bufsize) ∈ h.outstanding)
    (hshape : x.Shape usrptr) :
    mcSetAllocatedBuffer x usrptr init h =
      some { h with mem := armed x usrptr init h.mem } := by
  have hend := hok.end_le _ hbuf
  have hne := hok.ne_null _ hbuf
  obtain ⟨hle, hle'⟩ := hshape
  simp only at hend hne
  have hleading : subSize usrptr x.buf = usrptr - x.buf := subSize_of_le hle (by omega)
  have htrailing : subSize (subSize x.bufsize (usrptr - x.buf)) x.usrsize =
      x.buf + x.bufsize - (usrptr + x.usrsize) := by
    rw [subSize_of_le (m := x.bufsize) (by omega) (by omega), subSize_of_le (by omega) (by omega)]
    omega
  -- a write inside the buffer, or an empty one
  have hset : ∀ (k : Heap) (addr len : ℕ) (c : UInt8), k.outstanding = h.outstanding →
      (len = 0 ∨ x.buf ≤ addr ∧ addr + len ≤ x.buf + x.bufsize) →
      k.memset addr c len =
        some { k with mem := fun y ↦ if addr ≤ y ∧ y < addr + len then c else k.mem y } := by
    intro k addr len c hk hin
    exact Heap.memset_eq_some_iff.2 ⟨hin.imp_right fun hin ↦ ⟨_, hk ▸ hbuf, hin⟩, rfl⟩
  have hpay : x.usrsize = 0 ∨ wrapSize usrptr = usrptr := by
    by_cases hz : x.usrsize = 0
    · exact .inl hz
    · exact .inr (wrapSize_of_lt (by omega))
  have htrail : x.buf + x.bufsize - (usrptr + x.usrsize) = 0 ∨
      wrapSize (usrptr + x.usrsize) = usrptr + x.usrsize := by
    by_cases hz : x.buf + x.bufsize - (usrptr + x.usrsize) = 0
    · exact .inl hz
    · exact .inr (wrapSize_of_lt (by omega))
  have hpay' : x.usrsize = 0 ∨
      x.buf ≤ wrapSize usrptr ∧ wrapSize usrptr + x.usrsize ≤ x.buf + x.bufsize := by
    omega
  have htrail' : x.buf + x.bufsize - (usrptr + x.usrsize) = 0 ∨
      x.buf ≤ wrapSize (usrptr + x.usrsize) ∧ wrapSize (usrptr + x.usrsize) +
        (x.buf + x.bufsize - (usrptr + x.usrsize)) ≤ x.buf + x.bufsize := by
    omega
  simp only [mcSetAllocatedBuffer, hleading, htrailing,
    show x.buf + (usrptr - x.buf) = usrptr by omega]
  rw [hset h _ _ _ rfl (.inr ⟨le_rfl, by omega⟩)]
  simp only [Option.bind_eq_bind, Option.bind_some]
  -- the address of an empty write does not matter
  have hmem : ∀ (m : ℕ → UInt8) (a len : ℕ) (c : UInt8), (len = 0 ∨ wrapSize a = a) →
      (fun y ↦ if wrapSize a ≤ y ∧ y < wrapSize a + len then c else m y) =
        fun y ↦ if a ≤ y ∧ y < a + len then c else m y := by
    intro m a len c hcases
    rcases hcases with rfl | heq
    · funext y
      rw [if_neg (by omega), if_neg (by omega)]
    · rw [heq]
  cases init with
  | true =>
    rw [if_pos rfl, hset _ _ _ _ (by rfl) hpay', Option.bind_some, hset _ _ _ _ (by rfl) htrail']
    simp only [hmem _ _ _ _ htrail, Option.some.injEq, Heap.mk.injEq, and_true]
    funext y
    simp only [armed]
    split_ifs <;> first | rfl | omega
  | false =>
    rw [if_neg Bool.false_ne_true, hset _ _ _ _ (by rfl) htrail']
    simp only [hmem _ _ _ _ htrail, Option.some.injEq, Heap.mk.injEq, and_true]
    funext y
    simp only [armed]
    split_ifs <;> first | rfl | omega | simp_all

/-- The red zones hold their pattern. -/
def Memblk.Intact (x : Memblk) (usrptr : ℕ) (mem : ℕ → UInt8) : Prop :=
  (∀ y, x.buf ≤ y → y < usrptr → mem y = redzonePattern) ∧
    ∀ y, usrptr + x.usrsize ≤ y → y < x.buf + x.bufsize → mem y = redzonePattern

/-- `mc_set_allocated_buffer` arms the block. -/
theorem intact_armed (hshape : x.Shape usrptr) (mem : ℕ → UInt8) :
    x.Intact usrptr (armed x usrptr init mem) := by
  obtain ⟨hle, hle'⟩ := hshape
  constructor
  · intro y hy hy'
    rw [armed, if_pos ⟨hy, hy'⟩]
  · intro y hy hy'
    rw [armed, if_neg (by omega), if_neg (by omega), if_pos ⟨hy, hy'⟩]

/-- Nothing outside the buffer is written. -/
theorem armed_of_notMem {y : ℕ} (hshape : x.Shape usrptr) (mem : ℕ → UInt8)
    (hy : ¬(x.buf ≤ y ∧ y < x.buf + x.bufsize)) : armed x usrptr init mem y = mem y := by
  obtain ⟨hle, hle'⟩ := hshape
  rw [armed, if_neg (by omega), if_neg (by omega), if_neg (by omega)]

end SetAllocated

/-- All bytes of the buffer hold the pattern of freed memory. -/
def Memblk.Poisoned (x : Memblk) (mem : ℕ → UInt8) : Prop :=
  ∀ y, x.buf ≤ y → y < x.buf + x.bufsize → mem y = freedbufPattern

/-- The bytes of a block after `mc_set_freed_buffer`. -/
def poisoned (x : Memblk) (mem : ℕ → UInt8) (y : ℕ) : UInt8 :=
  if x.buf ≤ y ∧ y < x.buf + x.bufsize then freedbufPattern else mem y

theorem mcSetFreedBuffer_eq {x : Memblk} {h : Heap} (hbuf : (x.buf, x.bufsize) ∈ h.outstanding) :
    mcSetFreedBuffer x h = some { h with mem := poisoned x h.mem } :=
  Heap.memset_eq_some_iff.2 ⟨.inr ⟨_, hbuf, le_rfl, le_rfl⟩, rfl⟩

/-- `mc_set_freed_buffer` poisons the buffer. -/
theorem poisoned_poisoned (x : Memblk) (mem : ℕ → UInt8) : x.Poisoned (poisoned x mem) :=
  fun _ hy hy' ↦ if_pos ⟨hy, hy'⟩

/-- Nothing outside the buffer is written. -/
theorem poisoned_of_notMem {x : Memblk} {y : ℕ} (mem : ℕ → UInt8)
    (hy : ¬(x.buf ≤ y ∧ y < x.buf + x.bufsize)) : poisoned x mem y = mem y :=
  if_neg hy

/-! ### Looking for damage -/

section Check

variable {x : Memblk} {usrptr : ℕ} {h : Heap}

/-- The bounds within which the `int` sizes of the checks are exact. -/
structure Memblk.Fits (x : Memblk) (usrptr : ℕ) : Prop extends x.Shape usrptr where
  small : x.bufsize < 2147483648
  end_lt : x.buf + x.bufsize ≤ 9223372036854775808

theorem Memblk.Fits.leadingRedzoneSize_eq (hx : x.Fits usrptr) :
    leadingRedzoneSize x usrptr = (usrptr - x.buf : ℕ) := by
  obtain ⟨⟨hle, hle'⟩, hsmall, hend⟩ := hx
  rw [leadingRedzoneSize, subSize_of_le hle (by omega), toInt32_of_mem (by omega) (by omega)]

/-- The `int` holds the size of the trailing red zone. -/
theorem Memblk.Fits.trailingRedzoneSize_eq (hx : x.Fits usrptr) :
    trailingRedzoneSize x usrptr = (x.buf + x.bufsize - (usrptr + x.usrsize) : ℕ) := by
  have hleading := hx.leadingRedzoneSize_eq
  obtain ⟨⟨hle, hle'⟩, hsmall, hend⟩ := hx
  rw [trailingRedzoneSize, hleading, toSizeT_natCast (by omega),
    subSize_of_le (m := x.bufsize) (by omega) (by omega), subSize_of_le (by omega) (by omega),
    toInt32_of_mem (by omega) (by omega)]
  omega

/-- The addresses that the check computes for the trailing red zone do not wrap. -/
theorem Memblk.Fits.trailingAddr_eq (hx : x.Fits usrptr) {i : ℕ}
    (hi : i < x.buf + x.bufsize - (usrptr + x.usrsize)) :
    trailingAddr x usrptr i = usrptr + x.usrsize + i := by
  have hleading := hx.leadingRedzoneSize_eq
  obtain ⟨⟨hle, hle'⟩, hsmall, hend⟩ := hx
  rw [trailingAddr, hleading, toSizeT_natCast (by omega),
    wrapSize_of_lt (n := usrptr - x.buf + x.usrsize + i) (by omega), wrapSize_of_lt (by omega)]
  omega

/-- The first loop finds nothing exactly if the leading red zone is intact. -/
theorem Memblk.Fits.underRunIndex_eq_none_iff (hx : x.Fits usrptr) :
    underRunIndex x usrptr h = none ↔
      ∀ y, x.buf ≤ y → y < usrptr → h.mem y = redzonePattern := by
  rw [underRunIndex, hx.leadingRedzoneSize_eq, Int.toNat_natCast, List.find?_eq_none]
  constructor
  · intro hnone y hy hy'
    have := hnone (y - x.buf) (List.mem_range.2 (by omega))
    rw [show x.buf + (y - x.buf) = y by omega] at this
    simpa using this
  · intro hmem i hi
    have := List.mem_range.1 hi
    simpa using hmem (x.buf + i) (by omega) (by omega)

/-- The second loop finds nothing exactly if the trailing red zone is intact. -/
theorem Memblk.Fits.overRunIndex_eq_none_iff (hx : x.Fits usrptr) :
    overRunIndex x usrptr h = none ↔
      ∀ y, usrptr + x.usrsize ≤ y → y < x.buf + x.bufsize → h.mem y = redzonePattern := by
  rw [overRunIndex, hx.trailingRedzoneSize_eq, Int.toNat_natCast, List.find?_eq_none]
  constructor
  · intro hnone y hy hy'
    have hlt : y - (usrptr + x.usrsize) < x.buf + x.bufsize - (usrptr + x.usrsize) := by omega
    have := hnone (y - (usrptr + x.usrsize))
      (List.mem_reverse.2 (List.mem_range.2 hlt))
    rw [hx.trailingAddr_eq hlt, show usrptr + x.usrsize + (y - (usrptr + x.usrsize)) = y by
      omega] at this
    simpa using this
  · intro hmem i hi
    have hlt := List.mem_range.1 (List.mem_reverse.1 hi)
    rw [hx.trailingAddr_eq hlt]
    simpa using hmem (usrptr + x.usrsize + i) (by omega) (by omega)

/-- A report of damage to the block with payload at `usrptr`. -/
def Event.isReportOn (usrptr : ℕ) : Event → Bool
  | .underRun _ _ p _ _ => p = usrptr
  | .overRun _ _ p _ _ => p = usrptr
  | .freedArea p _ _ _ _ => p = usrptr
  | _ => false

/-- A check of a live block needs the callstack of its allocation only if it has something to
report. -/
theorem mcCheckAllocatedBuffer_isSome (allocator freeing : Option (List ℕ))
    (ha : allocator.isSome) :
    (mcCheckAllocatedBuffer x usrptr allocator freeing h).isSome := by
  obtain ⟨callstack, rfl⟩ := Option.isSome_iff_exists.1 ha
  rw [mcCheckAllocatedBuffer]
  split_ifs <;> rfl

/-- An intact block passes its check. -/
theorem Memblk.Fits.mcCheckAllocatedBuffer_of_intact (hx : x.Fits usrptr)
    (hintact : x.Intact usrptr h.mem) (allocator freeing : Option (List ℕ)) :
    mcCheckAllocatedBuffer x usrptr allocator freeing h = some (0, []) := by
  rw [mcCheckAllocatedBuffer, hx.underRunIndex_eq_none_iff.2 hintact.1,
    hx.overRunIndex_eq_none_iff.2 hintact.2]
  rfl

theorem isReportOn_underRunReport (i : ℕ) : (underRunReport x usrptr h i).isReportOn usrptr :=
  decide_eq_true rfl

theorem isReportOn_overRunReport (i : ℕ) : (overRunReport x usrptr h i).isReportOn usrptr :=
  decide_eq_true rfl

/-- A damaged block is reported first of all. -/
theorem Memblk.Fits.mcCheckAllocatedBuffer_of_damaged (hx : x.Fits usrptr)
    (hdamaged : ¬x.Intact usrptr h.mem) {allocator freeing : Option (List ℕ)} {r : ℤ × List Event}
    (hcheck : mcCheckAllocatedBuffer x usrptr allocator freeing h = some r) :
    r.1 = -1 ∧ ∃ e es, r.2 = e :: es ∧ e.isReportOn usrptr := by
  have hreports : ∃ e es, ((underRunIndex x usrptr h).map (underRunReport x usrptr h)).toList ++
      ((overRunIndex x usrptr h).map (overRunReport x usrptr h)).toList = e :: es ∧
        e.isReportOn usrptr := by
    cases hu : underRunIndex x usrptr h with
    | some i => exact ⟨_, _, List.cons_append, isReportOn_underRunReport i⟩
    | none =>
      cases ho : overRunIndex x usrptr h with
      | some i => exact ⟨_, _, List.nil_append _, isReportOn_overRunReport i⟩
      | none =>
        exact absurd ⟨hx.underRunIndex_eq_none_iff.1 hu, hx.overRunIndex_eq_none_iff.1 ho⟩ hdamaged
  obtain ⟨e, es, hreports, he⟩ := hreports
  rw [mcCheckAllocatedBuffer] at hcheck
  simp only [hreports, reduceCtorEq, if_false] at hcheck
  obtain ⟨callstack, -, hr⟩ := Option.bind_eq_some_iff.1 hcheck
  obtain rfl := Option.some.inj hr
  exact ⟨rfl, e, _, List.cons_append, he⟩

/-- The scan of a freed buffer from index `i` on. Indices from `2 ^ 31` on are compared as sizes
beyond every buffer. -/
theorem scanFreed_spec (hend : x.buf + x.bufsize ≤ 9223372036854775808) {rounds i : ℕ}
    (hi : i ≤ 2147483648) (hrounds : 2147483648 - i < rounds) :
    ∃ r, scanFreed x h rounds (toInt32 i) = some r ∧
      (r = none ↔ ∀ j, i ≤ j → j < min x.bufsize 2147483648 →
        h.mem (x.buf + j) = freedbufPattern) := by
  induction rounds generalizing i with
  | zero => omega
  | succ rounds ih =>
    by_cases hlast : i = 2147483648
    · have hneg : ¬toSizeT (toInt32 i) < x.bufsize := by
        unfold toSizeT toInt32
        omega
      exact ⟨none, by rw [scanFreed, if_neg hneg], by
        simp only [true_iff]
        intro j hj hj'
        omega⟩
    · have hint : toInt32 (i : ℕ) = i := toInt32_of_mem (by omega) (by omega)
      rw [scanFreed, hint, toSizeT_natCast (by omega)]
      by_cases hlt : i < x.bufsize
      · rw [if_pos hlt, show ((x.buf : ℤ) + (i : ℤ)) = ((x.buf + i : ℕ) : ℤ) by push_cast; rfl,
          toSizeT_natCast (by omega)]
        by_cases hmem : h.mem (x.buf + i) = freedbufPattern
        · obtain ⟨r, hr, hiff⟩ := ih (i := i + 1) (by omega) (by omega)
          refine ⟨r, ?_, hiff.trans ⟨fun hall j hj hj' ↦ ?_, fun hall j hj hj' ↦
            hall j (by omega) hj'⟩⟩
          · have hcast : ((i + 1 : ℕ) : ℤ) = (i : ℤ) + 1 := by omega
            rw [hcast] at hr
            rw [if_neg (not_not_intro hmem)]
            exact hr
          · rcases Nat.eq_or_lt_of_le hj with rfl | hj
            · exact hmem
            · exact hall j hj hj'
        · refine ⟨some i, if_pos hmem, ?_⟩
          simp only [reduceCtorEq, false_iff]
          exact fun hall ↦ hmem (hall i le_rfl (by omega))
      · refine ⟨none, if_neg hlt, ?_⟩
        simp only [true_iff]
        intro j hj hj'
        omega

/-- The scan of a freed buffer ends, and finds nothing if and only if the bytes it reads carry the
pattern. -/
theorem scanFreed_zero (hend : x.buf + x.bufsize ≤ 9223372036854775808) :
    ∃ r, scanFreed x h 4294967297 0 = some r ∧
      (r = none ↔ ∀ j, j < min x.bufsize 2147483648 → h.mem (x.buf + j) = freedbufPattern) := by
  obtain ⟨r, hr, hiff⟩ := @scanFreed_spec x h hend 4294967297 0 (Nat.zero_le _) (by omega)
  rw [show toInt32 ((0 : ℕ) : ℤ) = 0 from toInt32_of_mem (by omega) (by omega)] at hr
  exact ⟨r, hr, hiff.trans ⟨fun hall j ↦ hall j (Nat.zero_le _), fun hall j _ ↦ hall j⟩⟩

/-- With both callstacks at hand the check of a freed buffer returns. -/
theorem mcCheckFreedBuffer_isSome (hend : x.buf + x.bufsize ≤ 9223372036854775808)
    (allocator freer : Option (List ℕ)) (ha : allocator.isSome) (hf : freer.isSome) :
    (mcCheckFreedBuffer x usrptr allocator freer h).isSome := by
  obtain ⟨allocTrace, rfl⟩ := Option.isSome_iff_exists.1 ha
  obtain ⟨freeTrace, rfl⟩ := Option.isSome_iff_exists.1 hf
  obtain ⟨r, hr, -⟩ := scanFreed_zero (h := h) hend
  rw [mcCheckFreedBuffer, hr]
  cases r <;> rfl

/-- A freed block that was not written passes its check. -/
theorem mcCheckFreedBuffer_of_poisoned (hend : x.buf + x.bufsize ≤ 9223372036854775808)
    (hpoisoned : x.Poisoned h.mem) (allocator freer : Option (List ℕ)) :
    mcCheckFreedBuffer x usrptr allocator freer h = some (0, []) := by
  obtain ⟨r, hr, hiff⟩ := scanFreed_zero (h := h) hend
  obtain rfl := hiff.2 fun j hj ↦ hpoisoned (x.buf + j) (by omega) (by omega)
  rw [mcCheckFreedBuffer, hr]
  rfl

/-- A write into a freed block is reported first of all. -/
theorem mcCheckFreedBuffer_of_damaged (hend : x.buf + x.bufsize ≤ 9223372036854775808)
    (hsmall : x.bufsize ≤ 2147483648) (hdamaged : ¬x.Poisoned h.mem)
    {allocator freer : Option (List ℕ)} {r : ℤ × List Event}
    (hcheck : mcCheckFreedBuffer x usrptr allocator freer h = some r) :
    r.1 = -1 ∧ ∃ e es, r.2 = e :: es ∧ e.isReportOn usrptr := by
  obtain ⟨found, hfound, hiff⟩ := scanFreed_zero (h := h) hend
  cases found with
  | none =>
    refine absurd (fun y hy hy' ↦ ?_) hdamaged
    have := hiff.1 rfl (y - x.buf) (by omega)
    rwa [show x.buf + (y - x.buf) = y by omega] at this
  | some i =>
    rw [mcCheckFreedBuffer, hfound] at hcheck
    simp only [Option.bind_eq_bind, Option.bind_some] at hcheck
    obtain ⟨allocTrace, -, hcheck⟩ := Option.bind_eq_some_iff.1 hcheck
    obtain ⟨freeTrace, -, hcheck⟩ := Option.bind_eq_some_iff.1 hcheck
    obtain rfl := Option.some.inj hcheck
    exact ⟨rfl, _, _, rfl, by simp [Event.isReportOn]⟩

end Check

end Memchk
