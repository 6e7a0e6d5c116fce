import Memchk.Words

/-!
# The memory behind the hooks

The allocator that the hooks call, `mc_orig_malloc` and its kin, and the memory it hands out. The
program does not contain that allocator, so the model does not choose its answers: every call gets
an `Answer`, the address returned and the contents of all memory that is not handed out at that
moment.

## The state

A `Heap` is the list of the buffers handed out, each with its size, and the byte at every address. A
buffer is no object of its own: what a pointer into it means follows from the list. Addresses that
no buffer covers have contents too, and `scribble` replaces them at every call, because the C
library keeps its own records there.

A write of the checker outside a buffer handed out is a fault, `none`. A read there gives what the
memory holds, as a load of a mapped address does. `store` is the exception among the writes: it is
the program's own, which the checker neither sees nor restricts.

## The assumption

`Heap.AnswerOk` is what the C library promises about an answer: it is null, or a new buffer that
lies in user space and meets no buffer handed out. That the buffers handed out keep their contents
needs no assumption, since the calls change no other bytes by definition. `Heap.Ok` is what follows
for the list over a whole run. Every theorem about runs takes `AnswerOk` for the answers of that run
and derives `Ok`.
-/

namespace Memchk

/-- The bytes of memory, and the buffers handed out, each with its size. -/
structure Heap where
  mem : ℕ → UInt8
  outstanding : List (ℕ × ℕ)

/-- What a call behind the hooks returns, and what it leaves in memory that is not handed out. -/
structure Answer where
  addr : ℕ
  junk : ℕ → UInt8

namespace Heap

/-- The address lies in a buffer handed out. -/
def Covered (h : Heap) (x : ℕ) : Prop :=
  ∃ b ∈ h.outstanding, b.1 ≤ x ∧ x < b.1 + b.2

instance (h : Heap) (x : ℕ) : Decidable (h.Covered x) :=
  inferInstanceAs (Decidable (∃ b ∈ h.outstanding, _))

/-- The range from `addr` on lies in one buffer handed out, or is empty. -/
def Accessible (h : Heap) (addr len : ℕ) : Prop :=
  len = 0 ∨ ∃ b ∈ h.outstanding, b.1 ≤ addr ∧ addr + len ≤ b.1 + b.2

instance (h : Heap) (addr len : ℕ) : Decidable (h.Accessible addr len) :=
  inferInstanceAs (Decidable (_ ∨ _))

/-- `memset`. -/
def memset (addr : ℕ) (c : UInt8) (len : ℕ) (h : Heap) : Option Heap :=
  if h.Accessible addr len then
    some { h with mem := fun x ↦ if addr ≤ x ∧ x < addr + len then c else h.mem x }
  else none

/-- `memcpy`. -/
def memcpy (dest src len : ℕ) (h : Heap) : Option Heap :=
  if h.Accessible dest len ∧ h.Accessible src len then
    some { h with
      mem := fun x ↦ if dest ≤ x ∧ x < dest + len then h.mem (src + (x - dest)) else h.mem x }
  else none

/-- A store of one byte by the program. -/
def store (addr : ℕ) (c : UInt8) (h : Heap) : Heap :=
  { h with mem := Function.update h.mem addr c }

/-- The memory after the allocator has worked outside the buffers handed out. -/
def scribble (junk : ℕ → UInt8) (h : Heap) : ℕ → UInt8 :=
  fun x ↦ if h.Covered x then h.mem x else junk x

/-- `mc_orig_malloc`. -/
def origMalloc (a : Answer) (size : ℕ) (h : Heap) : Heap :=
  if a.addr = 0 then h
  else { mem := h.scribble a.junk, outstanding := (a.addr, size) :: h.outstanding }

/-- `mc_orig_calloc`. -/
def origCalloc (a : Answer) (nmems size : ℕ) (h : Heap) : Heap :=
  if a.addr = 0 then h
  else
    { mem := fun x ↦
        if a.addr ≤ x ∧ x < a.addr + nmems * size then 0 else h.scribble a.junk x
      outstanding := (a.addr, nmems * size) :: h.outstanding }

/-- `mc_orig_free`. -/
def origFree (ptr : ℕ) (h : Heap) : Heap :=
  { h with outstanding := h.outstanding.filter fun b ↦ b.1 ≠ ptr }

/-- The size of the buffer handed out at `ptr`. -/
def sizeAt (ptr : ℕ) (h : Heap) : ℕ :=
  ((h.outstanding.find? fun b ↦ b.1 = ptr).map Prod.snd).getD 0

/-- `mc_orig_realloc`: the old buffer is gone and its bytes are in the new one, unless it fails. -/
def origRealloc (a : Answer) (ptr size : ℕ) (h : Heap) : Heap :=
  if a.addr = 0 then h
  else
    let rest := h.origFree ptr
    { mem := fun x ↦
        if a.addr ≤ x ∧ x < a.addr + min (h.sizeAt ptr) size then h.mem (ptr + (x - a.addr))
        else rest.scribble a.junk x
      outstanding := (a.addr, size) :: rest.outstanding }

/-- The two buffers have no byte in common, and different addresses even if they are empty. -/
def Apart (b c : ℕ × ℕ) : Prop :=
  b.1 + max 1 b.2 ≤ c.1 ∨ c.1 + max 1 c.2 ≤ b.1

instance (b c : ℕ × ℕ) : Decidable (Apart b c) :=
  inferInstanceAs (Decidable (_ ∨ _))

/-- What the C library promises about the answer to a request for `size` bytes: it fails for more
than `PTRDIFF_MAX` bytes, and gives a buffer in user space that meets no other. -/
def AnswerOk (a : Answer) (size : ℕ) (h : Heap) : Prop :=
  a.addr = 0 ∨ a.addr + max 1 size ≤ 9223372036854775808 ∧
    ∀ b ∈ h.outstanding, Apart (a.addr, size) b

instance (a : Answer) (size : ℕ) (h : Heap) : Decidable (AnswerOk a size h) :=
  inferInstanceAs (Decidable (_ ∨ _))

/-- Buffers handed out lie in user space, away from null, and apart from each other. -/
structure Ok (h : Heap) : Prop where
  ne_null : ∀ b ∈ h.outstanding, b.1 ≠ 0
  end_le : ∀ b ∈ h.outstanding, b.1 + max 1 b.2 ≤ 9223372036854775808
  apart : h.outstanding.Pairwise Apart

end Heap

end Memchk
