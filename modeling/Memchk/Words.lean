import Mathlib.Data.Nat.Bitwise
import Mathlib.Data.Int.ModEq
import Mathlib.Tactic

/-!
# Addresses and machine integers

Addresses and sizes are natural numbers, and the null pointer is `0`. Nothing is rounded or reduced
silently: where the program depends on the width of `size_t` or of `int`, the definition that models
it applies one of the conversions of this file, so that a reader sees where a value can wrap.

## The conversions

`wrapSize` and `subSize` are the sum and the difference of `size_t`, modulo `2 ^ 64`. `toInt32` and
`toInt64` store a value in an `int` or a `ssize_t`, `toSizeT` reads a signed value as a `size_t`.
All five are total, since the conversions of the compiler are.

Counting up a signed integer is different: it has no result past the largest value. `incInt` and
`incInt64` are partial for that reason, and a loop whose index overflows is a run without result.

## Main results

* `pageMask_eq`: `PAGE_MASK` rounds down to a multiple of the page size.
* `wrapSize_of_lt`, `subSize_of_le`, `toInt32_of_mem`, `toSizeT_natCast`: inside its range a
  conversion changes nothing. These are the lemmas by which the later modules get rid of the
  conversions.
-/

namespace Memchk

/-- `PAGE_SIZE`. -/
abbrev pageSize : ℕ := 4096

/-- The value of a sum or product of `size_t` operands. -/
def wrapSize (n : ℕ) : ℕ :=
  n % 18446744073709551616

/-- The difference of two `size_t` operands. -/
def subSize (m n : ℕ) : ℕ :=
  (m + (18446744073709551616 - n % 18446744073709551616)) % 18446744073709551616

/-- Conversion to `int`. -/
def toInt32 (z : ℤ) : ℤ :=
  (z + 2147483648) % 4294967296 - 2147483648

/-- Conversion to `int64_t`. -/
def toInt64 (z : ℤ) : ℤ :=
  (z + 9223372036854775808) % 18446744073709551616 - 9223372036854775808

/-- `++` on an `int` that only counts: overflow is undefined, a fault. -/
def incInt (z : ℤ) : Option ℤ :=
  if z < 2147483647 then some (z + 1) else none

/-- `++` on an `int64_t`. -/
def incInt64 (z : ℤ) : Option ℤ :=
  if z < 9223372036854775807 then some (z + 1) else none

/-- Conversion of an `int` to `size_t`. -/
def toSizeT (z : ℤ) : ℕ :=
  (z % 18446744073709551616).toNat

/-- `addr & ~(PAGE_SIZE - 1)`: the low twelve bits are cleared. -/
def pageMask (addr : ℕ) : ℕ :=
  addr >>> 12 <<< 12

/-- Clearing the low twelve bits is rounding down to a multiple of the page size. -/
theorem pageMask_eq (addr : ℕ) : pageMask addr = addr / 4096 * 4096 := by
  simp [pageMask, Nat.shiftRight_eq_div_pow, Nat.shiftLeft_eq]

theorem wrapSize_of_lt {n : ℕ} (h : n < 18446744073709551616) : wrapSize n = n :=
  Nat.mod_eq_of_lt h

/-- A difference that is not negative does not wrap. -/
theorem subSize_of_le {m n : ℕ} (h : n ≤ m) (hlt : m - n < 18446744073709551616) :
    subSize m n = m - n := by
  unfold subSize
  omega

/-- An `int` holds every value of its range. -/
theorem toInt32_of_mem {z : ℤ} (h : -2147483648 ≤ z) (h' : z < 2147483648) :
    toInt32 z = z := by
  unfold toInt32
  omega

/-- A natural number below `2 ^ 64` is itself as a `size_t`. -/
theorem toSizeT_natCast {n : ℕ} (h : n < 18446744073709551616) : toSizeT n = n := by
  unfold toSizeT
  omega

end Memchk
