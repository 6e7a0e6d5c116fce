import Memchk.Library.Decimal
import Memchk.Words

/-!
# The settings file

`set_settings` and `get_settings` of `memchk_client.c`. The pid is written without a NUL behind it,
and `get_settings` converts its buffer, which the file fills only in part: digits that happen to
stand in the buffer behind the pid become part of the number.

## The model

The file is its text, and the local buffer of `get_settings` an arbitrary function from indices to
characters, since the buffer is not initialised. `fread` replaces a prefix of it by the text of the
file, and `atoi` reads the result up to the first character that is no digit; the number that `atoi`
computes is reduced to an `int`, as the conversion in the C library does.

## Main result

`getSettings_eq_iff` says for every pid that was written and every buffer whether the pid is read
back. It is, if the buffer has no digit right behind the text, and otherwise only if the digits come
to an end inside the buffer and the longer number happens to be the same `int` (`Harmless`). The
condition is about the rest of the buffer, and a zero byte there satisfies it. Digits up to the end
of the buffer make `atoi` read behind it, which is a fault.
-/

namespace Memchk

/-- `sizeof(buf)` in `get_settings`. -/
abbrev settingsBufSize : ℕ := 32

/-- `atoi`, on the bytes that can be read. -/
def atoi (s : List Char) : Option ℤ :=
  (strtol s).map toInt32

/-- A buffer after `fread` has read a file of the given contents into it. -/
def fread (size : ℕ) (text : List Char) (buf : ℕ → Char) (i : ℕ) : Char :=
  if i < size then text.getD i (buf i) else buf i

/-- `set_settings`: the result, and the file afterwards. `opens` is whether `fopen` succeeds. -/
def setSettings (opens : Bool) (pid : ℤ) (file : Option (List Char)) : ℤ × Option (List Char) :=
  if opens then (0, some (printInt pid)) else (-1, file)

/-- `get_settings`, with `buf` what the array holds when the function is called. A read behind the
array is a fault. -/
def getSettings (file : Option (List Char)) (buf : ℕ → Char) : Option ℤ :=
  match file with
  | none => some (-1)
  | some text => atoi ((List.range settingsBufSize).map (fread settingsBufSize text buf))

/-- The part of the buffer behind a pid that was read into it. -/
def leftover (pid : ℤ) (buf : ℕ → Char) : List Char :=
  (List.range' (printInt pid).length (settingsBufSize - (printInt pid).length)).map buf

/-- What stands behind a pid leaves its value alone: there is no digit, or the digits come to an end
and the longer number is the same pid when it is converted to `int`. -/
def Harmless (pid : ℤ) (rest : List Char) : Prop :=
  let digits := rest.takeWhile Char.isDigit
  let longer := 10 ^ digits.length * pid.natAbs + Nat.ofDigitChars 10 digits 0
  digits = [] ∨ digits.length < rest.length ∧ longer < 9223372036854775808 ∧
    longer % 4294967296 = pid.natAbs % 4294967296

variable {pid : ℤ} {buf : ℕ → Char} {text rest : List Char}

/-- What `get_settings` converts is the text and the rest of the buffer. -/
theorem map_fread (hlen : text.length ≤ settingsBufSize) :
    (List.range settingsBufSize).map (fread settingsBufSize text buf) =
      text ++ (List.range' text.length (settingsBufSize - text.length)).map buf := by
  refine List.ext_getElem (by simp; omega) fun i hi hi' ↦ ?_
  simp only [List.length_map, List.length_range] at hi
  rw [List.getElem_map, List.getElem_range, fread, if_pos hi]
  by_cases hlt : i < text.length
  · rw [List.getElem_append_left hlt, List.getD_eq_getElem _ _ hlt]
  · rw [List.getElem_append_right (not_lt.1 hlt), List.getD_eq_default _ _ (not_lt.1 hlt),
      List.getElem_map, List.getElem_range']
    congr 1
    omega

/-- The value of a pid with something behind it. -/
theorem atoi_printInt_append (hpid : -2147483648 ≤ pid ∧ pid < 2147483648) (hrest : rest ≠ []) :
    atoi (printInt pid ++ rest) = some pid ↔ Harmless pid rest := by
  have hle : (rest.takeWhile Char.isDigit).length ≤ rest.length :=
    (List.takeWhile_sublist _).length_le
  have hpos : 0 < rest.length := List.length_pos_iff.2 hrest
  rw [atoi, strtol_printInt_append, Harmless]
  generalize hdigits : rest.takeWhile Char.isDigit = digits at *
  generalize hlonger : 10 ^ digits.length * pid.natAbs + Nat.ofDigitChars 10 digits 0 = longer
  have hnil : digits = [] → digits.length = 0 ∧ longer = pid.natAbs := by
    rintro rfl
    refine ⟨rfl, ?_⟩
    rw [← hlonger, List.length_nil, Nat.pow_zero, Nat.one_mul, Nat.ofDigitChars_nil, Nat.add_zero]
  by_cases hend : digits.length = rest.length
  · rw [if_pos hend]
    refine iff_of_false (by simp) ?_
    rintro (heq | ⟨hlt, -⟩)
    · have hzero := (hnil heq).1
      omega
    · omega
  · rw [if_neg hend, Option.map_some, Option.some_inj]
    have hlt : digits.length < rest.length := by omega
    -- a number that is too large becomes `-1` or `0`, and not the pid
    have hvalue : toInt32 (if pid < 0 then max (-9223372036854775808) (-(longer : ℤ))
        else min 9223372036854775807 (longer : ℤ)) = pid ↔
        longer < 9223372036854775808 ∧ longer % 4294967296 = pid.natAbs % 4294967296 := by
      rw [toInt32]
      split_ifs <;> omega
    rw [hvalue]
    constructor
    · exact fun h ↦ .inr ⟨hlt, h⟩
    · rintro (heq | ⟨-, h⟩)
      · have hsame := (hnil heq).2
        omega
      · exact h

/-- What `set_settings` wrote is what `get_settings` returns if and only if the bytes behind it in
the buffer are harmless. -/
theorem getSettings_eq_iff {opens : Bool} {file file' : Option (List Char)}
    (hpid : -2147483648 ≤ pid ∧ pid < 2147483648) (hset : setSettings opens pid file = (0, file')) :
    getSettings file' buf = some pid ↔ Harmless pid (leftover pid buf) := by
  have hfile : file' = some (printInt pid) := by
    rw [setSettings] at hset
    split_ifs at hset
    · exact (Prod.mk.inj hset).2.symm
    · exact absurd (Prod.mk.inj hset).1 (by decide)
  have hlen := length_printInt_le hpid
  have hsize : settingsBufSize = 32 := rfl
  have hrest : leftover pid buf ≠ [] := by
    rw [← List.length_pos_iff, leftover, List.length_map, List.length_range']
    omega
  rw [hfile, getSettings, map_fread (by omega)]
  exact atoi_printInt_append hpid hrest

theorem getSettings_eq_iff_twelve : getSettings (some ['1', '2']) (fun _ ↦ '\x00') = some 12 := by
  have hset : setSettings true 12 none = (0, some ['1', '2']) := by decide
  exact (getSettings_eq_iff (by decide) hset).2 (.inl (by decide))

/-- A digit behind the pid. -/
theorem not_getSettings : (setSettings true 12 none).1 = 0 ∧
    getSettings (setSettings true 12 none).2 (fun i ↦ if i = 2 then '3' else '\x00') =
      some 123 := by
  decide +kernel

end Memchk
