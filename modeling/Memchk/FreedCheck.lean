import Memchk.Buffer

/-!
# The check of a freed buffer at every size

`mc_set_freed_buffer` fills a buffer with a `size_t` length, and `mc_check_freed_buffer` reads it
with an `int` index. Whether the two agree is a matter of where the scan stops: the first offset
that is beyond the buffer or holds another byte (`StopsAt`). If it stops below `2 ^ 31`, the index
runs from `0` to that offset and the result is right; otherwise the index leaves the range of `int`.

## The scan

`StopsAt x h m` is about the memory alone: all bytes of the buffer before the offset `m` carry the
pattern, and the byte at `m` does not or is beyond the buffer. There is exactly one such offset. As
long as it is below `2 ^ 31` the scan finds it, by induction over the offsets before.

## Main result

`freedChecked_iff` takes any block and any memory: the check stays in the range of its index and
reports damage exactly if there is some, if and only if the buffer is smaller than `2 ^ 31` bytes or
has a damaged byte below that offset, and the callstacks that a report prints are there.
-/

namespace Memchk

section Freed

variable (x : Memblk) (h : Heap)

/-- Some byte of the buffer does not hold the pattern of freed memory. -/
def Memblk.Written : Prop :=
  ∃ j < x.bufsize, h.mem (wrapSize (x.buf + j)) ≠ freedbufPattern

/-- The values that `i` takes in the loop of `mc_check_freed_buffer`, each before it is stored in an
`int`. -/
inductive ScanIndex : ℤ → Prop
  | zero : ScanIndex 0
  | succ {i : ℤ} : ScanIndex i → toSizeT (toInt32 i) < x.bufsize →
      h.mem (toSizeT (x.buf + toInt32 i)) = freedbufPattern → ScanIndex (toInt32 i + 1)

/-- The offset `m` is beyond the buffer or was written, and it is the first such offset. -/
structure StopsAt (m : ℕ) : Prop where
  stop : m < x.bufsize → h.mem (wrapSize (x.buf + m)) ≠ freedbufPattern
  lt_of_lt : ∀ j < m, j < x.bufsize
  mem_of_lt : ∀ j < m, h.mem (wrapSize (x.buf + j)) = freedbufPattern

/-- What is expected of the filler and of the checker of a freed buffer: the one writes all its
bytes, and the other returns `-1` exactly if one of them was written since, without the index
leaving the range of `int`. -/
structure FreedChecked (usrptr : ℕ) (allocator freer : Option (List ℕ)) : Prop where
  filled : ∀ h', mcSetFreedBuffer x h = some h' →
    ∀ j < x.bufsize, h'.mem (x.buf + j) = freedbufPattern
  exact : ∃ r, mcCheckFreedBuffer x usrptr allocator freer h = some r ∧ (r.1 = -1 ↔ x.Written h)
  index : ∀ i, ScanIndex x h i → -2147483648 ≤ i ∧ i < 2147483648

variable {x h}

/-- The address that the check reads at an index that is not negative. -/
theorem toSizeT_natCast_add (m n : ℕ) : toSizeT ((m : ℤ) + (n : ℤ)) = wrapSize (m + n) := by
  unfold toSizeT wrapSize
  omega

/-- Every buffer has a first offset at which the scan should stop. -/
theorem exists_stopsAt (x : Memblk) (h : Heap) : ∃ m, StopsAt x h m := by
  let stops : ℕ → Prop := fun j ↦ j < x.bufsize → h.mem (wrapSize (x.buf + j)) ≠ freedbufPattern
  have hstops : ∃ j, stops j := ⟨x.bufsize, fun hlt ↦ absurd hlt (lt_irrefl _)⟩
  classical
  have hbefore : ∀ j < Nat.find hstops, j < x.bufsize ∧
      h.mem (wrapSize (x.buf + j)) = freedbufPattern := by
    intro j hj
    simpa [stops] using Nat.find_min hstops hj
  exact ⟨Nat.find hstops, Nat.find_spec hstops, fun j hj ↦ (hbefore j hj).1,
    fun j hj ↦ (hbefore j hj).2⟩

namespace StopsAt

variable {m : ℕ}

theorem le (hm : StopsAt x h m) : m ≤ x.bufsize := by
  by_contra hlt
  exact lt_irrefl _ (hm.lt_of_lt x.bufsize (by omega))

/-- The buffer was written exactly if the scan should stop inside it. -/
theorem written_iff (hm : StopsAt x h m) : x.Written h ↔ m < x.bufsize := by
  constructor
  · rintro ⟨j, hj, hne⟩
    by_contra hle
    exact hne (hm.mem_of_lt j (by omega))
  · intro hlt
    exact ⟨m, hlt, hm.stop hlt⟩

/-- One round of the loop, at an offset that fits in an `int`. -/
theorem scanFreed_succ {i rounds : ℕ} (hi : i < 2147483648) :
    scanFreed x h (rounds + 1) i =
      if i < x.bufsize then
        if h.mem (wrapSize (x.buf + i)) ≠ freedbufPattern then some (some (i : ℤ))
        else scanFreed x h rounds (toInt32 (i + 1))
      else some none := by
  rw [scanFreed, toSizeT_natCast (by omega), toSizeT_natCast_add]

/-- A scan that should stop below `2 ^ 31` does stop there. -/
theorem scanFreed_eq (hm : StopsAt x h m) (hlt : m < 2147483648) {rounds i : ℕ} (hi : i ≤ m)
    (hrounds : m - i < rounds) :
    scanFreed x h rounds i = some (if m < x.bufsize then some (m : ℤ) else none) := by
  induction rounds generalizing i with
  | zero => omega
  | succ rounds ih =>
    rw [scanFreed_succ (by omega)]
    rcases Nat.lt_or_eq_of_le hi with hi | rfl
    · rw [if_pos (hm.lt_of_lt i hi), if_neg (not_not_intro (hm.mem_of_lt i hi)),
        toInt32_of_mem (by omega) (by omega)]
      exact_mod_cast ih (i := i + 1) (by omega) (by omega)
    · split_ifs with hin hmem
      · rfl
      · exact absurd (hm.stop hin) hmem
      · rfl

/-- The index takes every value up to the offset where the scan should stop, as long as these fit in
an `int`, and the one after them. -/
theorem scanIndex (hm : StopsAt x h m) {i : ℕ} (hi : i ≤ m) (hlt : i ≤ 2147483648) :
    ScanIndex x h i := by
  induction i with
  | zero => exact .zero
  | succ i ih =>
    have hint : toInt32 (i : ℤ) = i := toInt32_of_mem (by omega) (by omega)
    have hin : toSizeT (toInt32 (i : ℤ)) < x.bufsize := by
      rw [hint, toSizeT_natCast (by omega)]
      exact hm.lt_of_lt i hi
    have hstep := ScanIndex.succ (ih (by omega) (by omega)) hin (by
      rw [hint, toSizeT_natCast_add]
      exact hm.mem_of_lt i hi)
    rw [hint] at hstep
    exact_mod_cast hstep

/-- If the scan should stop below `2 ^ 31`, the index takes no other values. -/
theorem of_scanIndex (hm : StopsAt x h m) (hlt : m < 2147483648) {i : ℤ} (hi : ScanIndex x h i) :
    0 ≤ i ∧ i ≤ m := by
  induction hi with
  | zero => exact ⟨le_rfl, Int.natCast_nonneg m⟩
  | @succ i _ hin hmem ih =>
    obtain ⟨k, rfl⟩ := Int.eq_ofNat_of_zero_le ih.1
    have hint : toInt32 (k : ℤ) = k := toInt32_of_mem (by omega) (by omega)
    rw [hint] at hin hmem ⊢
    rw [toSizeT_natCast (by omega)] at hin
    rw [toSizeT_natCast_add] at hmem
    -- at the offset where it stops there is no further round
    have hne : k ≠ m := by
      rintro rfl
      exact hm.stop hin hmem
    omega

/-- The index stays in range exactly if the scan should stop below `2 ^ 31`. -/
theorem index_iff (hm : StopsAt x h m) :
    (∀ i, ScanIndex x h i → -2147483648 ≤ i ∧ i < 2147483648) ↔ m < 2147483648 := by
  constructor
  · intro hrange
    by_contra hge
    have := hrange _ (hm.scanIndex (i := 2147483648) (by omega) le_rfl)
    omega
  · intro hlt i hi
    have := hm.of_scanIndex hlt hi
    omega

/-- The result of the check, if the scan should stop below `2 ^ 31`. -/
theorem mcCheckFreedBuffer_eq (hm : StopsAt x h m) (hlt : m < 2147483648) (usrptr : ℕ)
    (allocator freer : Option (List ℕ)) :
    mcCheckFreedBuffer x usrptr allocator freer h =
      if m < x.bufsize then do
        let allocTrace ← allocator
        let freeTrace ← freer
        return (-1, [.freedArea usrptr x.usrsize (leadingRedzoneSize x usrptr)
          (trailingRedzoneSize x usrptr) m, .allocatedFrom allocTrace, .freedFrom freeTrace])
      else some (0, []) := by
  have hscan : scanFreed x h 4294967297 ((0 : ℕ) : ℤ) = _ :=
    hm.scanFreed_eq hlt (Nat.zero_le m) (by omega)
  rw [mcCheckFreedBuffer, show (0 : ℤ) = ((0 : ℕ) : ℤ) from rfl, hscan]
  split_ifs <;> rfl

end StopsAt

/-- The filler writes every byte of the buffer. -/
theorem mem_of_mcSetFreedBuffer {h' : Heap} (hset : mcSetFreedBuffer x h = some h') {j : ℕ}
    (hj : j < x.bufsize) : h'.mem (x.buf + j) = freedbufPattern := by
  obtain ⟨-, rfl⟩ := Heap.memset_eq_some_iff.1 hset
  exact if_pos ⟨by omega, by omega⟩

/-- The filler and the checker of a freed buffer agree exactly if the checker meets the end of the
buffer or a written byte before offset `2 ^ 31`, and finds both callstacks where it has something to
report. -/
theorem freedChecked_iff (x : Memblk) (h : Heap) (usrptr : ℕ) (allocator freer : Option (List ℕ)) :
    FreedChecked x h usrptr allocator freer ↔
      (x.bufsize < 2147483648 ∨
        ∃ j < 2147483648, j < x.bufsize ∧ h.mem (wrapSize (x.buf + j)) ≠ freedbufPattern) ∧
      (x.Written h → allocator.isSome ∧ freer.isSome) := by
  obtain ⟨m, hm⟩ := exists_stopsAt x h
  have hstop : (x.bufsize < 2147483648 ∨
      ∃ j < 2147483648, j < x.bufsize ∧ h.mem (wrapSize (x.buf + j)) ≠ freedbufPattern) ↔
        m < 2147483648 := by
    constructor
    · rintro (hsmall | ⟨j, hj, -, hne⟩)
      · exact lt_of_le_of_lt hm.le hsmall
      · by_contra hge
        exact hne (hm.mem_of_lt j (by omega))
    · intro hlt
      rcases Nat.lt_or_eq_of_le hm.le with hin | rfl
      · exact .inr ⟨m, hlt, hin, hm.stop hin⟩
      · exact .inl hlt
  rw [hstop, hm.written_iff]
  constructor
  · rintro ⟨-, ⟨r, hr, -⟩, hindex⟩
    have hlt := hm.index_iff.1 hindex
    refine ⟨hlt, fun hin ↦ ?_⟩
    rw [hm.mcCheckFreedBuffer_eq hlt, if_pos hin] at hr
    obtain ⟨allocTrace, hallocator, hr⟩ := Option.bind_eq_some_iff.1 hr
    obtain ⟨freeTrace, hfreer, -⟩ := Option.bind_eq_some_iff.1 hr
    exact ⟨Option.isSome_of_eq_some hallocator, Option.isSome_of_eq_some hfreer⟩
  · rintro ⟨hlt, hcallstacks⟩
    refine ⟨fun h' hset j ↦ mem_of_mcSetFreedBuffer hset, ?_, hm.index_iff.2 hlt⟩
    rw [hm.mcCheckFreedBuffer_eq hlt, hm.written_iff]
    split_ifs with hin
    · obtain ⟨hallocator, hfreer⟩ := hcallstacks hin
      obtain ⟨allocTrace, rfl⟩ := Option.isSome_iff_exists.1 hallocator
      obtain ⟨freeTrace, rfl⟩ := Option.isSome_iff_exists.1 hfreer
      exact ⟨_, rfl, iff_of_true rfl hin⟩
    · exact ⟨_, rfl, iff_of_false (by simp) hin⟩

/-- In a buffer of `2 ^ 31 + 32` bytes, a write at offset `2 ^ 31 + 16` is not found: after
`2 ^ 31` rounds the index is negative, which as a size is beyond the buffer. -/
theorem not_freedChecked :
    let x : Memblk := ⟨1048576, 2147483680, 2147483648⟩
    let h : Heap := ⟨fun y ↦ if y = 2148532240 then 0 else freedbufPattern, [(1048576, 2147483680)]⟩
    mcCheckFreedBuffer x 1048592 (some []) (some []) h = some (0, []) ∧
      ¬FreedChecked x h 1048592 (some []) (some []) := by
  intro x h
  have hcheck : mcCheckFreedBuffer x 1048592 (some []) (some []) h = some (0, []) := by
    obtain ⟨r, hr, hiff⟩ := @scanFreed_zero x h (by decide)
    obtain rfl := hiff.2 fun j hj ↦ if_neg (by
      simp only [x] at hj ⊢
      omega)
    rw [mcCheckFreedBuffer, hr]
    rfl
  have hwritten : x.Written h := ⟨2147483664, by decide, by decide⟩
  refine ⟨hcheck, fun hchecked ↦ ?_⟩
  obtain ⟨r, hr, hiff⟩ := hchecked.exact
  rw [hcheck] at hr
  obtain rfl := Option.some.inj hr
  exact absurd (hiff.2 hwritten) (by decide)

end Freed

end Memchk
