import Memchk.Library.Comparator
import Memchk.Report
import Memchk.Run

/-!
# The order of the reports

Both comparators of `memchk_sort.c` convert the sizes to `int` and subtract them: what they compare
is the difference modulo `2 ^ 32`. It has the sign of the difference for every two sizes of an array
exactly if these are `Comparable`, and only then do the reports come in descending order whatever
`qsort` does beyond its contract (`sorts_by_size_iff`).

## The contract of the sort

The C library promises that the result is a permutation, and that it is in order if the comparator
is a consistent one. Nothing is promised for a comparator that is not. The theorem quantifies over
all sorts that keep this contract, so a size that compares wrongly is enough for one of them to give
an array that is not in order.

## The condition

Two sizes compare rightly if they are equal, or if their difference modulo `2 ^ 32` lies in the half
of the range that belongs to its sign. Sizes below `2 ^ 31` always do. Sizes that differ by a
multiple of `2 ^ 32` compare as equal, and those that differ by a little more than `2 ^ 31` compare
the wrong way round.
-/

namespace Memchk

/-- A comparator and a sort that should put an array in descending order of a key: the sign is that
of the order, the order is total, and every sort that keeps its contract gives a permutation of the
array in that order. -/
structure SortsBySize (cmp : ℕ → ℕ → ℤ) (key : ℕ → ℤ) (array : List ℕ) : Prop where
  sign : ∀ m ∈ array, ∀ n ∈ array, (cmp m n < 0 ↔ key n < key m) ∧ (cmp m n = 0 ↔ key m = key n) ∧
    (0 < cmp m n ↔ key m < key n)
  preorder : TotalPreorderOn cmp array
  sorted : ∀ qsort, SortsUnder qsort →
    (qsort cmp array).Perm array ∧ (qsort cmp array).Pairwise fun m n ↦ key n ≤ key m

/-- The differences of the keys keep their sign modulo `2 ^ 32`: those of keys less than `2 ^ 31`
apart do. -/
def Comparable (key : ℕ → ℤ) (array : List ℕ) : Prop :=
  ∀ m ∈ array, ∀ n ∈ array, key n < key m →
    0 < (key m - key n) % 4294967296 ∧ (key m - key n) % 4294967296 < 2147483648

namespace State

/-- `__compare_by_alloc_memblk` on two nodes. -/
def compareBlocks (s : State) (m n : ℕ) : ℤ :=
  compareByAllocMemblk (s.blocks.memblk m).usrsize (s.blocks.memblk n).usrsize

/-- `__compare_per_callstack` on two nodes. -/
def compareCallstacks (s : State) (c d : ℕ) : ℤ :=
  comparePerCallstack (s.callstacks.node c).totalSize (s.callstacks.node d).totalSize

end State

/-- The conversions do not matter: it is the difference that is converted. -/
theorem toInt32_sub_toInt32 (a b : ℤ) : toInt32 (toInt32 b - toInt32 a) = toInt32 (b - a) := by
  unfold toInt32
  omega

/-- The sign of a difference that is converted, for a difference that is positive. -/
theorem toInt32_pos_iff {d : ℤ} :
    0 < toInt32 d ↔ 0 < d % 4294967296 ∧ d % 4294967296 < 2147483648 := by
  unfold toInt32
  omega

section Comparators

variable {cmp : ℕ → ℕ → ℤ} {key : ℕ → ℤ} {array : List ℕ}

/-- The comparator has the sign of the order of the keys where these are comparable. -/
theorem Comparable.sign_eq (h : Comparable key array)
    (hcmp : ∀ m n, cmp m n = toInt32 (key n - key m)) {m n : ℕ} (hm : m ∈ array) (hn : n ∈ array) :
    (cmp m n).sign = (key n - key m).sign := by
  rw [hcmp]
  rcases lt_trichotomy (key m) (key n) with hlt | heq | hgt
  · rw [Int.sign_eq_one_of_pos (toInt32_pos_iff.2 (h n hn m hm hlt)),
      Int.sign_eq_one_of_pos (sub_pos.2 hlt)]
  · rw [heq, sub_self]
    rfl
  · have hneg : toInt32 (key n - key m) < 0 := by
      have := h m hm n hn hgt
      unfold toInt32
      omega
    rw [Int.sign_eq_neg_one_of_neg hneg, Int.sign_eq_neg_one_of_neg (sub_neg.2 hgt)]

/-- A comparator that converts the difference of the keys sorts an array exactly if these are
comparable. -/
theorem sortsBySize_iff_comparable (hcmp : ∀ m n, cmp m n = toInt32 (key n - key m)) :
    SortsBySize cmp key array ↔ Comparable key array := by
  constructor
  · intro h m hm n hn hlt
    have hpos := (h.sign n hn m hm).2.2.2 hlt
    rw [hcmp] at hpos
    exact toInt32_pos_iff.1 hpos
  · intro h
    have hsign : ∀ m ∈ array, ∀ n ∈ array, (cmp m n).sign = (key n - key m).sign :=
      fun m hm n hn ↦ h.sign_eq hcmp hm hn
    refine ⟨fun m hm n hn ↦ ⟨?_, ?_, ?_⟩, .of_sign hsign, fun qsort hqsort ↦
      hqsort.descending hsign⟩
    · rw [← Int.sign_eq_neg_one_iff_neg, hsign m hm n hn, Int.sign_eq_neg_one_iff_neg, sub_neg]
    · rw [← Int.sign_eq_zero_iff_zero, hsign m hm n hn, Int.sign_eq_zero_iff_zero, sub_eq_zero,
        eq_comm]
    · rw [← Int.sign_eq_one_iff_pos, hsign m hm n hn, Int.sign_eq_one_iff_pos, sub_pos]

/-- Both reports come in descending order of the sizes, for blocks of any size and callstacks of any
total, exactly if the sizes in the array are comparable. -/
theorem sorts_by_size_iff (s : State) (blocks callstacks : List ℕ) :
    (SortsBySize s.compareBlocks (fun n ↦ (s.blocks.memblk n).usrsize) blocks ↔
      Comparable (fun n ↦ (s.blocks.memblk n).usrsize) blocks) ∧
    (SortsBySize s.compareCallstacks (fun c ↦ (s.callstacks.node c).totalSize) callstacks ↔
      Comparable (fun c ↦ (s.callstacks.node c).totalSize) callstacks) :=
  ⟨sortsBySize_iff_comparable fun _ _ ↦ toInt32_sub_toInt32 _ _,
    sortsBySize_iff_comparable fun _ _ ↦ toInt32_sub_toInt32 _ _⟩

/-- A block of `2 ^ 32` bytes comes behind a block of one byte: as an `int` its size is zero. -/
theorem not_sorts_by_size :
    let s : State := { State.start with blocks := { State.start.blocks with
      memblk := fun n ↦ ⟨0, 0, if n = 64 then 4294967296 else 1⟩ } }
    s.compareBlocks 64 128 = 1 ∧
      ¬SortsBySize s.compareBlocks (fun n ↦ (s.blocks.memblk n).usrsize) [64, 128] := by
  intro s
  have hcmp : s.compareBlocks 64 128 = 1 := by
    simp [s, State.compareBlocks, compareByAllocMemblk, toInt32]
  refine ⟨hcmp, fun h ↦ ?_⟩
  have hlarger : (1 : ℤ) < 4294967296 := by decide
  have hneg := (h.sign 64 (by decide) 128 (by decide)).1.2 hlarger
  rw [hcmp] at hneg
  exact absurd hneg (by decide)

end Comparators

end Memchk
