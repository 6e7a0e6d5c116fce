import Memchk.Library.CString

/-!
# Reading lines and words

The part of `stdio` that reads text files line by line: `fgets`, and the directives `%s` and `%lx`
of `sscanf`. A directive gives what it has read and the rest of the text, or `none` where `sscanf`
stops and leaves this and all later arguments as they were.

A list of words with blanks between them is read word by word (`scanWord_append`), and a text that
is made of lines is read line by line (`readLines_append`).

## Words and numbers

A word is a text without white space that is not empty (`IsWord`). `%s` skips white space, so that
the number of blanks in front of a word does not matter, and stops at the next white space, so that
something must stand behind a word that is to be read alone. `%lx` takes a sign and `0x` if they are
there. Digits alone (`IsHex`) are read as their value if there are at most sixteen of them
(`scanHex_append`), as then the value fits into an `unsigned long`; behind more digits the value
saturates.

## Lines

`fgets` with a buffer of `size` bytes takes up to a newline and no more than `size - 1` characters,
so that a longer line comes in pieces. `readLines` is what a loop over `fgets` sees until the end of
the file.
-/

/-- `isspace`. -/
def isSpace (c : Char) : Bool :=
  c = ' ' ∨ c = '\t' ∨ c = '\n' ∨ c = '\x0b' ∨ c = '\x0c' ∨ c = '\r'

/-- The directive `%s`. -/
def scanWord (s : List Char) : Option (List Char × List Char) :=
  let s := s.dropWhile isSpace
  if s = [] then none else some (s.takeWhile fun c ↦ !isSpace c, s.dropWhile fun c ↦ !isSpace c)

/-- The words that a number of directives `%s` read. -/
def scanWords : ℕ → List Char → List (List Char)
  | 0, _ => []
  | n + 1, s =>
    match scanWord s with
    | none => []
    | some (w, rest) => w :: scanWords n rest

/-- The value of a hexadecimal digit. -/
def hexDigit (c : Char) : Option ℕ :=
  if '0' ≤ c ∧ c ≤ '9' then some (c.toNat - '0'.toNat)
  else if 'a' ≤ c ∧ c ≤ 'f' then some (c.toNat - 'a'.toNat + 10)
  else if 'A' ≤ c ∧ c ≤ 'F' then some (c.toNat - 'A'.toNat + 10)
  else none

/-- The value of a hexadecimal number. -/
def hexValue (digits : List Char) : ℕ :=
  digits.foldl (fun v c ↦ 16 * v + (hexDigit c).getD 0) 0

/-- The sign of a number, if there is one. -/
def scanSign : List Char → Bool × List Char
  | '-' :: s => (true, s)
  | '+' :: s => (false, s)
  | s => (false, s)

/-- The text behind the prefix `0x`, if there is one with a digit behind it. -/
def scanPrefix : List Char → List Char
  | '0' :: x :: c :: s =>
    if (x = 'x' ∨ x = 'X') ∧ (hexDigit c).isSome then c :: s else '0' :: x :: c :: s
  | s => s

/-- The directive `%lx`. A value that is too large becomes the largest one. -/
def scanHex (s : List Char) : Option (ℕ × List Char) :=
  let (negative, s) := scanSign (s.dropWhile isSpace)
  let s := scanPrefix s
  let digits := s.takeWhile fun c ↦ (hexDigit c).isSome
  let value := hexValue digits
  if digits = [] then none
  else
    some (if value < 18446744073709551616 then
        if negative then (18446744073709551616 - value) % 18446744073709551616 else value
      else 18446744073709551615,
      s.dropWhile fun c ↦ (hexDigit c).isSome)

/-- The number of characters that `fgets` reads into a buffer of this size. -/
def fgetsLength (size : ℕ) (s : List Char) : ℕ :=
  min (size - 1) ((s.takeWhile (· ≠ '\n')).length + 1)

/-- The lines that successive calls of `fgets` give until the text is at its end. -/
def readLinesFrom (size : ℕ) : ℕ → List Char → List (List Char)
  | 0, _ => []
  | fuel + 1, s =>
    if s = [] then []
    else s.take (fgetsLength size s) :: readLinesFrom size fuel (s.drop (fgetsLength size s))

/-- The lines that `fgets` gives, for a buffer with room for at least one character. -/
def readLines (size : ℕ) (s : List Char) : List (List Char) :=
  readLinesFrom size s.length s

/-! ### Words -/

/-- The text is one word. -/
structure IsWord (w : List Char) : Prop where
  ne_nil : w ≠ []
  not_space : ∀ c ∈ w, isSpace c = false

section Words

variable {w s rest : List Char} {n : ℕ}

theorem IsWord.of_all (hne : w ≠ []) (h : w.all (fun c ↦ !isSpace c) = true) : IsWord w :=
  ⟨hne, fun c hc ↦ Bool.not_eq_true' _ ▸ List.all_eq_true.1 h c hc⟩

/-- Blanks in front are skipped. -/
theorem dropWhile_isSpace_replicate (k : ℕ) (s : List Char) :
    (List.replicate k ' ' ++ s).dropWhile isSpace = s.dropWhile isSpace :=
  List.dropWhile_append_of_pos fun c hc ↦ by
    rw [List.eq_of_mem_replicate hc]
    rfl

/-- A word is read up to the blank behind it. -/
theorem scanWord_append (hw : IsWord w) (k : ℕ) {b : Char} (hb : isSpace b = true) :
    scanWord (List.replicate k ' ' ++ (w ++ b :: rest)) = some (w, b :: rest) := by
  obtain ⟨c, cs, rfl⟩ := List.exists_cons_of_ne_nil hw.ne_nil
  have hc : isSpace c = false := hw.not_space c List.mem_cons_self
  have hword : ∀ d ∈ c :: cs, (!isSpace d) = true := fun d hd ↦ by rw [hw.not_space d hd]; rfl
  rw [scanWord, dropWhile_isSpace_replicate, List.cons_append, List.dropWhile_cons, hc]
  simp only [Bool.false_eq_true, if_false, reduceCtorEq]
  rw [← List.cons_append, List.takeWhile_append_of_pos hword, List.dropWhile_append_of_pos hword,
    List.takeWhile_cons, List.dropWhile_cons, hb]
  simp

theorem scanWords_append (hw : IsWord w) (k : ℕ) {b : Char} (hb : isSpace b = true) :
    scanWords (n + 1) (List.replicate k ' ' ++ (w ++ b :: rest)) = w :: scanWords n
    (b :: rest) := by
  rw [scanWords, scanWord_append hw k hb]

/-- Two words with a character between them that is not blank are one word. -/
theorem IsWord.append_cons {w' : List Char} (hw : IsWord w) {c : Char} (hc : isSpace c = false)
    (hw' : IsWord w') : IsWord (w ++ c :: w') where
  ne_nil := by simp
  not_space d hd := by
    rcases List.mem_append.1 hd with hd | hd
    · exact hw.not_space d hd
    · rcases List.mem_cons.1 hd with rfl | hd
      · exact hc
      · exact hw'.not_space d hd

/-- There is no word in blanks. -/
theorem scanWords_of_space (hs : ∀ c ∈ s, isSpace c = true) : scanWords n s = [] := by
  cases n with
  | zero => rfl
  | succ n =>
    rw [scanWords, scanWord, List.dropWhile_eq_nil_iff.2 hs]
    rfl

end Words

/-! ### Numbers -/

/-- The text is a hexadecimal number. -/
structure IsHex (digits : List Char) : Prop where
  ne_nil : digits ≠ []
  isSome : ∀ c ∈ digits, (hexDigit c).isSome

section Numbers

variable {digits rest : List Char}

theorem IsHex.of_all (hne : digits ≠ []) (h : digits.all (fun c ↦ (hexDigit c).isSome) = true) :
    IsHex digits :=
  ⟨hne, List.all_eq_true.1 h⟩

/-- The value of one digit. -/
theorem hexDigit_lt {c : Char} {d : ℕ} (h : hexDigit c = some d) : d < 16 := by
  rw [hexDigit] at h
  split_ifs at h with hdigit hlower hupper <;> obtain rfl := Option.some.inj h
  · have : c.toNat ≤ '9'.toNat := hdigit.2
    have : '9'.toNat = 57 := rfl
    have : '0'.toNat = 48 := rfl
    omega
  · have : c.toNat ≤ 'f'.toNat := hlower.2
    have : 'f'.toNat = 102 := rfl
    have : 'a'.toNat = 97 := rfl
    omega
  · have : c.toNat ≤ 'F'.toNat := hupper.2
    have : 'F'.toNat = 70 := rfl
    have : 'A'.toNat = 65 := rfl
    omega

/-- A number of `k` digits is less than `16 ^ k`. -/
theorem hexValue_lt (digits : List Char) : hexValue digits < 16 ^ digits.length := by
  induction digits using List.reverseRecOn with
  | nil => exact Nat.one_pos
  | append_singleton digits c ih =>
    have hd : (hexDigit c).getD 0 < 16 := by
      cases hc : hexDigit c with
      | none => exact Nat.succ_pos _
      | some d => exact hexDigit_lt hc
    have happend : hexValue (digits ++ [c]) = 16 * hexValue digits + (hexDigit c).getD 0 := by
      rw [hexValue, List.foldl_append]
      rfl
    rw [happend, List.length_append, List.length_singleton, pow_succ]
    omega

theorem hexDigit_eq_none_of_space {c : Char} (h : isSpace c = true) : hexDigit c = none := by
  rw [isSpace, decide_eq_true_iff] at h
  rcases h with rfl | rfl | rfl | rfl | rfl | rfl <;> rfl

/-- Digits are a word. -/
theorem IsHex.isWord (hd : IsHex digits) : IsWord digits where
  ne_nil := hd.ne_nil
  not_space c hc := by
    by_contra hspace
    rw [Bool.not_eq_false] at hspace
    have hsome := hd.isSome c hc
    rw [hexDigit_eq_none_of_space hspace] at hsome
    exact absurd hsome (by decide)

theorem IsHex.isCString (hd : IsHex digits) : IsCString digits := by
  rintro c hc rfl
  exact absurd (hd.isSome _ hc) (by decide)

/-- A digit is no sign. -/
theorem scanSign_of_hexDigit {c : Char} (hc : (hexDigit c).isSome) (s : List Char) :
    scanSign (c :: s) = (false, c :: s) := by
  rw [scanSign.eq_def]
  split
  · exact absurd hc (by simp_all [hexDigit])
  · exact absurd hc (by simp_all [hexDigit])
  · rfl

/-- Without an `x` in the second place there is no `0x`. -/
theorem scanPrefix_eq {s : List Char} (hs : ∀ c ∈ s[1]?, c ≠ 'x' ∧ c ≠ 'X') : scanPrefix s = s := by
  rw [scanPrefix.eq_def]
  split
  · obtain ⟨hne, hne'⟩ := hs _ rfl
    rw [if_neg]
    rintro ⟨rfl | rfl, -⟩
    · exact hne rfl
    · exact hne' rfl
  · rfl

/-- A number that fits is read up to the character behind it. -/
theorem scanHex_append (hd : IsHex digits) (hlen : digits.length ≤ 16)
    (hrest : ∀ c ∈ rest.head?, hexDigit c = none ∧ c ≠ 'x' ∧ c ≠ 'X') :
    scanHex (digits ++ rest) = some (hexValue digits, rest) := by
  obtain ⟨d, ds, rfl⟩ := List.exists_cons_of_ne_nil hd.ne_nil
  have hdigit : (hexDigit d).isSome := hd.isSome d List.mem_cons_self
  have hspace : isSpace d = false := hd.isWord.not_space d List.mem_cons_self
  have hdrop : (d :: ds ++ rest).dropWhile isSpace = d :: ds ++ rest := by
    rw [List.cons_append, List.dropWhile_cons, hspace]
    rfl
  have hx : ∀ {c}, (hexDigit c).isSome → c ≠ 'x' ∧ c ≠ 'X' := by
    rintro c hc
    constructor <;> rintro rfl <;> exact absurd hc (by decide)
  have hnumber : scanPrefix (d :: ds ++ rest) = d :: ds ++ rest := by
    refine scanPrefix_eq fun c hc ↦ ?_
    cases ds with
    | nil =>
      rw [List.cons_append, List.nil_append, List.getElem?_cons_succ,
        ← List.head?_eq_getElem?] at hc
      exact (hrest c hc).2
    | cons e ds =>
      obtain rfl : e = c := Option.some.inj hc
      exact hx (hd.isSome e (List.mem_cons_of_mem _ List.mem_cons_self))
  have hstop : (rest.takeWhile fun c ↦ (hexDigit c).isSome) = [] ∧
      (rest.dropWhile fun c ↦ (hexDigit c).isSome) = rest := by
    cases rest with
    | nil => exact ⟨rfl, rfl⟩
    | cons c rest =>
      have hc : (hexDigit c).isSome = false := by rw [(hrest c rfl).1]; rfl
      rw [List.takeWhile_cons, List.dropWhile_cons, hc]
      exact ⟨rfl, rfl⟩
  have hvalue : hexValue (d :: ds) < 18446744073709551616 :=
    (hexValue_lt _).trans_le (Nat.pow_le_pow_right (by decide) hlen)
  have hsign : scanSign (d :: ds ++ rest) = (false, d :: ds ++ rest) :=
    scanSign_of_hexDigit hdigit _
  rw [scanHex, hdrop, hsign]
  simp only [hnumber]
  rw [List.takeWhile_append_of_pos hd.isSome, List.dropWhile_append_of_pos hd.isSome, hstop.1,
    hstop.2, List.append_nil, if_neg (List.cons_ne_nil _ _), if_pos hvalue]
  rfl

end Numbers

/-! ### Lines -/

section Lines

variable {size : ℕ} {line s : List Char}

theorem fgetsLength_pos (hsize : 1 < size) : 0 < fgetsLength size s :=
  Nat.lt_min.2 ⟨by omega, Nat.succ_pos _⟩

/-- More rounds than characters are not needed. -/
theorem readLinesFrom_eq (hsize : 1 < size) {fuel fuel' : ℕ} (hfuel : s.length ≤ fuel)
    (hfuel' : s.length ≤ fuel') : readLinesFrom size fuel s = readLinesFrom size fuel' s := by
  have hnil : ∀ fuel, readLinesFrom size fuel [] = [] := by
    intro fuel
    cases fuel <;> rfl
  induction fuel generalizing s fuel' with
  | zero =>
    obtain rfl := List.length_eq_zero_iff.1 (Nat.le_zero.1 hfuel)
    rw [hnil, hnil]
  | succ fuel ih =>
    cases fuel' with
    | zero =>
      obtain rfl := List.length_eq_zero_iff.1 (Nat.le_zero.1 hfuel')
      rw [hnil, hnil]
    | succ fuel' =>
      have hpos := @fgetsLength_pos size s hsize
      rw [readLinesFrom, readLinesFrom]
      split_ifs with hs
      · rfl
      · have hlen : (s.drop (fgetsLength size s)).length < s.length := by
          rw [List.length_drop]
          have := List.length_pos_iff.2 hs
          omega
        rw [ih (by omega) (by omega : _ ≤ fuel')]

/-- A line that fits in the buffer is read at once. -/
theorem readLines_append (hline : '\n' ∉ line) (hlen : line.length + 1 < size) (s : List Char) :
    readLines size (line ++ '\n' :: s) = (line ++ ['\n']) :: readLines size s := by
  have htake : (line ++ '\n' :: s).takeWhile (· ≠ '\n') = line := by
    rw [List.takeWhile_append_of_pos fun c hc ↦ decide_eq_true (ne_of_mem_of_not_mem hc hline)]
    simp
  have hfgets : fgetsLength size (line ++ '\n' :: s) = (line ++ ['\n']).length := by
    rw [fgetsLength, htake, List.length_append, List.length_singleton]
    omega
  have hsplit : line ++ '\n' :: s = (line ++ ['\n']) ++ s := by simp
  have hpos : (line ++ '\n' :: s).length = (line.length + s.length) + 1 := by
    rw [List.length_append, List.length_cons]
    omega
  rw [readLines, hpos, readLinesFrom, if_neg (by simp), hfgets, hsplit, List.take_left,
    List.drop_left]
  exact congrArg _ (readLinesFrom_eq (by omega) (by omega) le_rfl)

end Lines
