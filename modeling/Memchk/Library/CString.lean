import Mathlib.Data.List.GetD
import Mathlib.Data.List.TakeWhile
import Mathlib.Tactic

/-!
# Strings in buffers

A buffer of characters is a function from offsets to characters; its size is known to those who use
it. `getString` is the string in a buffer, up to the first NUL, and `putString` stores a string with
its NUL, or faults where the buffer is too small. What the buffer held behind the NUL stays there.
`strncpy` fills the rest with NULs instead, and leaves the NUL out where there is no room for it.

## Strings

A string in the sense of C has no NUL in it (`IsCString`); `CString` is the subtype of such strings,
for the places where a caller promises one. A buffer of a given size holds the string `w`
(`HoldsString`) if the string in it is `w` and its NUL lies in the buffer. A buffer without any NUL
holds no string, although `getString` still gives its characters: whoever reads such a buffer as a
string reads on behind its end.

## What is read back

What `putString` has stored is read back (`getString_putString`). What `strncpy` has stored is read
back up to its length `n` (`getString_strncpy`), but the buffer holds the string only if it was
shorter than `n`, or if there is a NUL behind those `n` characters already
(`holdsString_strncpy_iff`). The latter is what a program relies on that passes the size of the
buffer less one and clears the buffer once.
-/

/-- The string at the start of a buffer: the characters in front of the first NUL. -/
def getString (size : ℕ) (buf : ℕ → Char) : List Char :=
  ((List.range size).map buf).takeWhile (· ≠ '\x00')

/-- Stores a string and its NUL. -/
def putString (size : ℕ) (w : List Char) (buf : ℕ → Char) : Option (ℕ → Char) :=
  if w.length < size then
    some fun i ↦ if i < w.length then w.getD i '\x00' else if i = w.length then '\x00' else buf i
  else none

/-- `strncpy`: the first `n` characters, and NULs up to `n` characters. -/
def strncpy (n : ℕ) (w : List Char) (buf : ℕ → Char) (i : ℕ) : Char :=
  if i < n then w.getD i '\x00' else buf i

/-- A list of characters is a string if there is no NUL in it. -/
def IsCString (w : List Char) : Prop :=
  ∀ c ∈ w, c ≠ '\x00'

theorem IsCString.of_all {w : List Char} (h : w.all (· ≠ '\x00') = true) : IsCString w :=
  fun c hc ↦ of_decide_eq_true (List.all_eq_true.1 h c hc)

theorem IsCString.append {w w' : List Char} (hw : IsCString w) (hw' : IsCString w') :
    IsCString (w ++ w') := fun c hc ↦ (List.mem_append.1 hc).elim (hw c) (hw' c)

theorem IsCString.cons {w : List Char} {c : Char} (hc : c ≠ '\x00') (hw : IsCString w) :
    IsCString (c :: w) := fun d hd ↦ by
  rcases List.mem_cons.1 hd with rfl | hd
  · exact hc
  · exact hw d hd

/-- All of a string is in front of the first NUL. -/
theorem IsCString.takeWhile_eq {w : List Char} (hw : IsCString w) :
    w.takeWhile (· ≠ '\x00') = w :=
  List.takeWhile_eq_self_iff.2 fun c hc ↦ decide_eq_true (hw c hc)

/-- A string. -/
abbrev CString : Type :=
  { w : List Char // IsCString w }

/-- A buffer holds a string, with a NUL, up to what there is room for. -/
structure HoldsString (size : ℕ) (w : List Char) (buf : ℕ → Char) : Prop where
  terminated : ∃ i < size, buf i = '\x00'
  string : getString size buf = w.take (size - 1)

section Strings

variable {size n : ℕ} {w : List Char} {buf buf' : ℕ → Char}

/-- A buffer that holds the characters of a string and a NUL behind them has this string. -/
theorem getString_eq_of_getD (hw : IsCString w) (hlen : w.length < size)
    (hget : ∀ i ≤ w.length, buf i = w.getD i '\x00') : getString size buf = w := by
  have hmap : (List.range size).map buf =
      w ++ '\x00' :: (List.range (size - (w.length + 1))).map fun i ↦ buf (w.length + 1 + i) := by
    refine List.ext_getElem (by simp; omega) fun i hi hi' ↦ ?_
    simp only [List.length_map, List.length_range] at hi
    rw [List.getElem_map, List.getElem_range]
    rcases Nat.lt_trichotomy i w.length with hlt | rfl | hgt
    · rw [hget i hlt.le, List.getElem_append_left hlt, List.getD_eq_getElem _ _ hlt]
    · rw [hget _ le_rfl, List.getElem_append_right le_rfl, List.getD_eq_default _ _ le_rfl]
      simp
    · rw [List.getElem_append_right hgt.le]
      obtain ⟨k, rfl⟩ := Nat.exists_eq_add_of_lt hgt
      simp [show w.length + k + 1 - w.length = k + 1 by omega,
        show w.length + 1 + k = w.length + k + 1 by omega]
  rw [getString, hmap, List.takeWhile_append_of_pos fun c hc ↦ decide_eq_true (hw c hc)]
  simp

/-- The string that was stored is read back. -/
theorem getString_putString (hw : IsCString w) (hput : putString size w buf = some buf') :
    getString size buf' = w := by
  rw [putString] at hput
  split_ifs at hput with hlen
  obtain rfl := Option.some.inj hput
  refine getString_eq_of_getD hw hlen fun i hi ↦ ?_
  rcases hi.lt_or_eq with hlt | rfl
  · exact if_pos hlt
  · rw [if_neg (lt_irrefl _), if_pos rfl, List.getD_eq_default _ _ le_rfl]

/-- The characters that were stored, one by one. -/
theorem putString_getD (hput : putString size w buf = some buf') {i : ℕ} (hi : i < w.length) :
    buf' i = w.getD i '\x00' := by
  rw [putString] at hput
  split_ifs at hput
  obtain rfl := Option.some.inj hput
  exact if_pos hi

theorem exists_putString (hlen : w.length < size) (buf : ℕ → Char) :
    ∃ buf', putString size w buf = some buf' :=
  ⟨_, if_pos hlen⟩

theorem putString_eq_none (hlen : size ≤ w.length) : putString size w buf = none :=
  if_neg (not_lt.2 hlen)

/-- A copy with a NUL behind the place that `strncpy` fills is the string, or the first part of
it. -/
theorem getString_strncpy (hw : IsCString w) (hnull : buf n = '\x00') :
    getString (n + 1) (strncpy n w buf) = w.take n := by
  have htake : IsCString (w.take n) := fun c hc ↦ hw c (List.mem_of_mem_take hc)
  have hlen : (w.take n).length ≤ n := List.length_take_le _ _
  refine getString_eq_of_getD htake (Nat.lt_succ_of_le hlen) fun i hi ↦ ?_
  rw [strncpy]
  split_ifs with hin
  · simp only [List.getD_eq_getElem?_getD, List.getElem?_take_of_lt hin]
  · obtain rfl : i = n := by omega
    rw [hnull, List.getD_eq_default]
    exact hlen

/-- What is read from a buffer has no NUL in it. -/
theorem isCString_getString : IsCString (getString size buf) := by
  intro c hc
  have hne : decide (c ≠ '\x00') = true :=
    List.mem_takeWhile_imp (p := fun d ↦ decide (d ≠ '\x00')) hc
  exact of_decide_eq_true hne

/-- The string in a buffer is empty if the buffer starts with a NUL. -/
theorem getString_eq_nil_iff (hpos : 0 < size) : getString size buf = [] ↔ buf 0 = '\x00' := by
  obtain ⟨k, rfl⟩ := Nat.exists_eq_succ_of_ne_zero hpos.ne'
  rw [getString, List.range_succ_eq_map, List.map_cons, List.takeWhile_cons]
  split_ifs with h <;> simp_all

/-- The string goes on as long as there is no NUL. -/
theorem lt_length_getString_iff (hn : n < size) :
    n < (getString size buf).length ↔ ∀ i ≤ n, buf i ≠ '\x00' := by
  constructor
  · intro hlt i hi heq
    have hi' : i < (getString size buf).length := lt_of_le_of_lt hi hlt
    have hget : (getString size buf)[i] = buf i := by
      have htake := (List.takeWhile_prefix (l := (List.range size).map buf)
        (fun c ↦ decide (c ≠ '\x00'))).getElem hi'
      rw [List.getElem_map, List.getElem_range] at htake
      exact htake
    exact isCString_getString _ (List.getElem_mem hi') (hget.trans heq)
  · intro hne
    have hsplit : (List.range size).map buf =
        (List.range (n + 1)).map buf ++ (List.range' (n + 1) (size - (n + 1))).map buf := by
      have hrange := @List.range'_append_1 0 (n + 1) (size - (n + 1))
      rw [Nat.zero_add, Nat.add_sub_cancel' hn] at hrange
      rw [← List.map_append, List.range_eq_range', List.range_eq_range', hrange]
    have hfront : ∀ c ∈ (List.range (n + 1)).map buf, decide (c ≠ '\x00') = true := by
      intro c hc
      obtain ⟨i, hi, rfl⟩ := List.mem_map.1 hc
      exact decide_eq_true (hne i (Nat.lt_succ_iff.1 (List.mem_range.1 hi)))
    rw [getString, hsplit, List.takeWhile_append_of_pos hfront, List.length_append, List.length_map,
      List.length_range]
    omega

/-- A copy of a string into a buffer with room for it behind what `strncpy` fills: it is there, with
a NUL, unless `strncpy` came to its limit and there was no NUL behind it. -/
theorem holdsString_strncpy_iff (hw : IsCString w) (hn : n < size)
    (hfull : w.length ≤ n ∨ n = size - 1) :
    HoldsString size w (strncpy n w buf) ↔ w.length < n ∨ buf n = '\x00' := by
  have htake : w.take (size - 1) = w.take n := by
    rcases hfull with hle | rfl
    · rw [List.take_of_length_le hle, List.take_of_length_le (by omega)]
    · rfl
  constructor
  · intro h
    by_contra hnot
    rw [not_or, not_lt] at hnot
    have hchars : ∀ i ≤ n, strncpy n w buf i ≠ '\x00' := by
      intro i hi
      rw [strncpy]
      split_ifs with hin
      · rw [List.getD_eq_getElem _ _ (by omega)]
        exact hw _ (List.getElem_mem _)
      · obtain rfl : i = n := by omega
        exact hnot.2
    have hlt := (lt_length_getString_iff hn).2 hchars
    rw [h.string, htake, List.length_take] at hlt
    omega
  · intro h
    have hnull : strncpy n w buf (min w.length n) = '\x00' := by
      rw [strncpy]
      split_ifs with hin
      · exact List.getD_eq_default _ _ (by omega)
      · rw [min_eq_right (by omega)]
        exact h.resolve_left (by omega)
    refine ⟨⟨min w.length n, by omega, hnull⟩, ?_⟩
    rw [htake]
    have hlen : (w.take n).length = min w.length n := by rw [List.length_take, min_comm]
    refine getString_eq_of_getD (fun c hc ↦ hw c (List.mem_of_mem_take hc)) (by omega) ?_
    intro i hi
    rw [hlen] at hi
    rcases hi.lt_or_eq with hlt | rfl
    · rw [strncpy, if_pos (by omega)]
      simp only [List.getD_eq_getElem?_getD, List.getElem?_take_of_lt (by omega : i < n)]
    · rw [hnull, List.getD_eq_default _ _ hlen.le]

end Strings
