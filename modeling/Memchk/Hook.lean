import Memchk.ManageMemblk

/-!
# The hooks

The allocation functions of `memchk_hook.c`. With hooks enabled they hand out the payload of a
guarded buffer and register it; between `mc_disable_hook` and `mc_enable_hook` they pass the call on
to the functions behind the hooks. A call is a `Call`, and `Call.exec` gives what it returns and the
state after it.

## The shape of a hook

The lock that every hook takes has a module of its own. Inside it an allocation asks for the size of
the request and room for the red zones, sets the patterns and registers the block under the pointer
that the program gets. The aligned family goes through `__aligned_allocator`, which asks for the
alignment as well and moves the payload up to it.

The requests are computed in `size_t` without a check, so a size close to `2 ^ 64` wraps; the
definitions wrap as the C code does. `Call.InRange` only says that the arguments of a call are
values of their types; which calls wrap is for the theorems to say.

## Return values

`posix_memalign` returns a number and stores the pointer through its argument, so its result has a
place for both; the other members give the pointer. A null pointer from the function behind the hook
is passed on and leaves nothing registered. Where a hook calls another function of the checker that
faults or does not end, it has no result, and neither does `Call.exec`.
-/

namespace Memchk

/-- `EINVAL`. -/
abbrev einval : ℤ := 22

/-- `ENOMEM`. -/
abbrev enomem : ℤ := 12

namespace State

/-- `mc_orig_malloc`. -/
def origMalloc (env : Env) (size : ℕ) (s : State) : ℕ × State :=
  (env.answer.addr, { s with heap := s.heap.origMalloc env.answer size }.emit
    [.origMalloc size env.answer.addr])

/-- `mc_orig_calloc`. -/
def origCalloc (env : Env) (nmems size : ℕ) (s : State) : ℕ × State :=
  (env.answer.addr, { s with heap := s.heap.origCalloc env.answer nmems size }.emit
    [.origCalloc nmems size env.answer.addr])

/-- `mc_orig_realloc`. -/
def origRealloc (env : Env) (ptr size : ℕ) (s : State) : ℕ × State :=
  (env.answer.addr, { s with heap := s.heap.origRealloc env.answer ptr size }.emit
    [.origRealloc ptr size env.answer.addr])

/-- `mc_orig_free`. -/
def origFree (ptr : ℕ) (s : State) : State :=
  { s with heap := s.heap.origFree ptr }.emit [.origFree ptr]

end State

namespace Hook

/-- `malloc`. -/
def malloc (env : Env) (size : ℕ) (s : State) : Option (ℕ × State) := do
  let bufsize := wrapSize (size + redzoneSize * 2)
  if s.doNotHook ≠ 0 then return s.origMalloc env size
  let (buf, s) := s.origMalloc env bufsize
  if buf = 0 then return (0, s)
  let usrptr := wrapSize (buf + redzoneSize)
  let (_, s) ← mcRegisterMemblk env buf usrptr bufsize size s
  return (usrptr, s)

/-- `free`. -/
def free (env : Env) (ptr : ℕ) (s : State) : Option State := do
  if ptr = 0 then return s
  if s.doNotHook ≠ 0 then return s.origFree ptr
  let (_, bufToBeFreed, s) ← mcUnregisterMemblk env ptr env.garbage s
  return if bufToBeFreed ≠ 0 then s.origFree bufToBeFreed else s

/-- `realloc`. -/
def realloc (env : Env) (ptr size : ℕ) (s : State) : Option (ℕ × State) := do
  if ptr = 0 then return ← malloc env size s
  if size = 0 then return (0, ← free env ptr s)
  if s.doNotHook ≠ 0 then return s.origRealloc env ptr size
  let oldsize ← mcHandleReallocMemblk ptr s
  if oldsize = 18446744073709551615 then
    return (0, s.emit [.message "realloc: oldsize = -1"])
  let (newptr, s) ← malloc env size s
  if newptr = 0 then return (newptr, s)
  let heap ← s.heap.memcpy newptr ptr (if size ≥ oldsize then oldsize else size)
  return (newptr, ← free env ptr { s with heap := heap })

/-- `calloc`. -/
def calloc (env : Env) (nmems size : ℕ) (s : State) : Option (ℕ × State) := do
  if wrapSize (nmems * size) = 0 then return (0, s)
  if s.doNotHook ≠ 0 then return s.origCalloc env nmems size
  let (ret, s) ← malloc env (wrapSize (nmems * size)) s
  if ret = 0 then return (ret, s)
  let heap ← s.heap.memset ret 0 (wrapSize (nmems * size))
  return (ret, { s with heap := heap })

/-- `__is_power_of_2`. -/
def isPowerOf2 (val : ℕ) : Bool :=
  ((List.range 64).filter val.testBit).length = 1

/-- `__align_addr`. -/
def alignAddr (addr alignment : ℕ) : ℕ :=
  if alignment = 0 then addr
  else wrapSize (addr + alignment - 1) &&& (18446744073709551615 - (alignment - 1))

/-- `__aligned_allocator`. -/
def alignedAllocator (env : Env) (alignment size : ℕ) (s : State) : Option (ℕ × State) := do
  let bufsize := wrapSize (size + redzoneSize * 2 + alignment - 1)
  let (buf, s) := s.origMalloc env bufsize
  if buf = 0 then return (0, s)
  let usrptr := alignAddr (wrapSize (buf + redzoneSize)) alignment
  let (_, s) ← mcRegisterMemblk env buf usrptr bufsize size s
  return (usrptr, s)

/-- `posix_memalign`, with the value of `*memptr` if it was set. -/
def posixMemalign (env : Env) (alignment size : ℕ) (s : State) :
    Option (ℤ × Option ℕ × State) := do
  if alignment = 0 ∨ ¬isPowerOf2 alignment then return (einval, none, s)
  let (usrptr, s) ← alignedAllocator env alignment size s
  if usrptr = 0 then return (enomem, none, s)
  return (0, some usrptr, s)

/-- `aligned_alloc`. -/
def alignedAlloc (env : Env) (alignment size : ℕ) (s : State) : Option (ℕ × State) := do
  if alignment = 0 ∨ ¬isPowerOf2 alignment then return (0, s)
  alignedAllocator env alignment size s

/-- `memalign`. -/
def memalign (env : Env) (alignment size : ℕ) (s : State) : Option (ℕ × State) := do
  if alignment = 0 ∨ ¬isPowerOf2 alignment then return (0, s)
  alignedAllocator env alignment size s

/-- `valloc`. -/
def valloc (env : Env) (size : ℕ) (s : State) : Option (ℕ × State) :=
  memalign env pageSize size s

/-- `pvalloc`. -/
def pvalloc (env : Env) (size : ℕ) (s : State) : Option (ℕ × State) :=
  memalign env pageSize (pageMask (wrapSize (size + pageSize - 1))) s

end Hook

/-- A call of the program. -/
inductive Call
  | malloc (size : ℕ)
  | free (ptr : ℕ)
  | realloc (ptr size : ℕ)
  | calloc (nmems size : ℕ)
  | posixMemalign (alignment size : ℕ)
  | alignedAlloc (alignment size : ℕ)
  | memalign (alignment size : ℕ)
  | valloc (size : ℕ)
  | pvalloc (size : ℕ)
deriving DecidableEq

/-- The pointer a call gives the program, null if it gives none, and the state after the call. -/
def Call.exec (env : Env) : Call → State → Option (ℕ × State)
  | .malloc size, s => Hook.malloc env size s
  | .free ptr, s => (Hook.free env ptr s).map (0, ·)
  | .realloc ptr size, s => Hook.realloc env ptr size s
  | .calloc nmems size, s => Hook.calloc env nmems size s
  | .posixMemalign alignment size, s =>
    (Hook.posixMemalign env alignment size s).map fun x ↦ (x.2.1.getD 0, x.2.2)
  | .alignedAlloc alignment size, s => Hook.alignedAlloc env alignment size s
  | .memalign alignment size, s => Hook.memalign env alignment size s
  | .valloc size, s => Hook.valloc env size s
  | .pvalloc size, s => Hook.pvalloc env size s

/-- The arguments of a call are values of type `size_t` or pointers. -/
def Call.InRange : Call → Prop
  | .malloc size | .valloc size | .pvalloc size => size < 18446744073709551616
  | .free ptr => ptr < 18446744073709551616
  | .realloc a b | .calloc a b | .posixMemalign a b | .alignedAlloc a b | .memalign a b =>
    a < 18446744073709551616 ∧ b < 18446744073709551616

end Memchk
