import Memchk.Library.Scanf

/-!
# Decimal numbers

The directive `%d` of `printf` and the conversion of `strtol`. Bytes that can be read are given as a
list; `strtol` reads on until it finds a byte that is no part of the number, and the conversion is a
fault if there is none among them. What is read back from a number with some text behind it is a
longer number, if the text starts with digits (`strtol_printInt_append`).

## Reading a number back

`strtol` skips blanks, takes a sign, and then as many digits as there are. A number that was printed
has no blanks in front and its sign is the one printed (`scanSign_printInt_append`), so that what
decides about the value is where the digits end. Behind the number in a buffer may stand anything:
digits, which make the number longer, a character that ends it, or the end of what can be read, and
then the call reads behind it. An `int` takes eleven characters at most (`length_printInt_le`).
-/

/-- The directive `%d`. -/
def printInt (z : ℤ) : List Char :=
  (if z < 0 then ['-'] else []) ++ Nat.toDigits 10 z.natAbs

/-- `strtol` in base ten. -/
def strtol (s : List Char) : Option ℤ :=
  let (negative, s) := scanSign (s.dropWhile isSpace)
  let digits := s.takeWhile Char.isDigit
  let value : ℤ := Nat.ofDigitChars 10 digits 0
  if digits.length = s.length then none
  else
    some (if negative then max (-9223372036854775808) (-value)
      else min 9223372036854775807 value)

section

variable {z : ℤ} {n : ℕ} {rest : List Char}

/-! ### The digits of a number -/

/-- A decimal digit is a digit to every base that is in use here. -/
theorem isSome_hexDigit_of_isDigit {c : Char} (hc : c.isDigit = true) : (hexDigit c).isSome := by
  rw [Char.isDigit, Bool.and_eq_true, decide_eq_true_iff, decide_eq_true_iff] at hc
  rw [hexDigit, if_pos ⟨hc.1, hc.2⟩]
  rfl

/-- The sign of a number that starts with a digit. -/
theorem scanSign_toDigits_append :
    scanSign ((Nat.toDigits 10 n ++ rest).dropWhile isSpace) =
      (false, Nat.toDigits 10 n ++ rest) := by
  obtain ⟨c, cs, hcs⟩ := List.exists_cons_of_ne_nil (@Nat.toDigits_ne_nil n 10)
  have hc : (hexDigit c).isSome := isSome_hexDigit_of_isDigit
    (Nat.isDigit_of_mem_toDigits (b := 10) (n := n) (by decide) (by decide) (by simp [hcs]))
  have hspace : isSpace c = false := by
    by_contra hspace
    rw [Bool.not_eq_false] at hspace
    rw [hexDigit_eq_none_of_space hspace] at hc
    exact absurd hc (by simp)
  rw [hcs, List.cons_append, List.dropWhile_cons, hspace]
  exact scanSign_of_hexDigit hc _

/-- A number that is not negative starts with a digit. -/
theorem head?_printInt_ne (hz : 0 ≤ z) : (printInt z).head? ≠ some '-' := by
  obtain ⟨c, cs, hcs⟩ := List.exists_cons_of_ne_nil (@Nat.toDigits_ne_nil z.natAbs 10)
  have hc : c.isDigit = true :=
    Nat.isDigit_of_mem_toDigits (b := 10) (n := z.natAbs) (by decide) (by decide) (by simp [hcs])
  rw [printInt, if_neg (not_lt.2 hz), List.nil_append, hcs, List.head?_cons, ne_eq,
    Option.some_inj]
  rintro rfl
  exact absurd hc (by decide)

/-- The sign and the digits of a number that was printed. -/
theorem scanSign_printInt_append :
    scanSign ((printInt z ++ rest).dropWhile isSpace) =
      (decide (z < 0), Nat.toDigits 10 z.natAbs ++ rest) := by
  rw [printInt]
  split_ifs with hneg
  · rw [decide_eq_true hneg]
    rfl
  · rw [decide_eq_false hneg, List.nil_append]
    exact scanSign_toDigits_append

/-- The digits that are read are those of the number and those that the text behind it starts
with. -/
theorem takeWhile_toDigits_append :
    (Nat.toDigits 10 n ++ rest).takeWhile Char.isDigit =
      Nat.toDigits 10 n ++ rest.takeWhile Char.isDigit :=
  List.takeWhile_append_of_pos fun _ hc ↦
    Nat.isDigit_of_mem_toDigits (by decide) (by decide) hc

/-! ### Reading a number back -/

/-- A number is read together with the digits behind it. -/
theorem strtol_printInt_append :
    strtol (printInt z ++ rest) =
      if (rest.takeWhile Char.isDigit).length = rest.length then none
      else
        let value : ℤ := (10 ^ (rest.takeWhile Char.isDigit).length * z.natAbs +
          Nat.ofDigitChars 10 (rest.takeWhile Char.isDigit) 0 : ℕ)
        some (if z < 0 then max (-9223372036854775808) (-value)
          else min 9223372036854775807 value) := by
  have hvalue : Nat.ofDigitChars 10 (Nat.toDigits 10 z.natAbs ++ rest.takeWhile Char.isDigit) 0 =
      10 ^ (rest.takeWhile Char.isDigit).length * z.natAbs +
        Nat.ofDigitChars 10 (rest.takeWhile Char.isDigit) 0 := by
    rw [Nat.ofDigitChars_append, Nat.ofDigitChars_toDigits (by decide) (by decide)]
    exact Nat.ofDigitChars_eq_ofDigitChars_zero
  rw [strtol, scanSign_printInt_append]
  simp only [takeWhile_toDigits_append, List.length_append, Nat.add_left_cancel_iff, hvalue,
    decide_eq_true_iff]

/-- A number in the range of an `int` takes eleven characters at most. -/
theorem length_printInt_le (hz : -2147483648 ≤ z ∧ z < 2147483648) : (printInt z).length ≤ 11 := by
  have hdigits : (Nat.toDigits 10 z.natAbs).length ≤ 10 :=
    (Nat.length_toDigits_le_iff (by decide) (by decide)).2 (by omega)
  rw [printInt, List.length_append]
  split_ifs
  · exact Nat.add_comm 1 _ ▸ Nat.succ_le_succ hdigits
  · rw [List.length_nil, Nat.zero_add]
    exact Nat.le_succ_of_le hdigits

end
