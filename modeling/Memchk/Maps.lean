import Memchk.Library.Scanf
import Memchk.Words

/-!
# The lines of /proc/self/maps

`MapsLine` is a line as the kernel writes it: the range of addresses, the permissions, the offset,
the device, the inode and, unless the mapping is anonymous, blanks and the path. The functions
`__init_filemaps` of `memchk_filemap.c` and `memchk_virtmem.c` read such lines twice, with the same
calls of `sscanf` into the same local buffers (`ScanVars`). These live as long as the function runs:
an argument that a line has no word for keeps what an earlier line has left in it
(`MapsLine.scanFields`).

## Lines

The parts of a line carry their well-formedness: a number has at most so many hexadecimal digits, a
token is a word of bounded length, and a path is a word with what there is from its first blank on,
without a newline. `MapsLine.text` is the text of a line, and `mapsText` the text of the file. A
line is shorter than the buffer that `fgets` reads it into, so that reading the file gives the lines
one by one (`readLines_mapsText`).

## Words

`sscanf` with `%s` splits a line at blanks. `scanWords_text` computes the words of a line from its
parts; a path with a blank in it gives only its first word. `MapsLine.Fits` says that the words are
no longer than the local buffers, and a line that does not fit makes the scan write past one of
them, which is a fault (`scanFields_text_of_not_fits`).

## Counting

The first pass counts the lines whose permissions qualify, in an `int`; the second fills an array of
that many elements. `countLines_mapsText` is the first pass for both files.
-/

namespace Memchk

/-! ### Lines -/

/-- A word of at most `n` characters. -/
structure Token (n : ℕ) where
  chars : List Char
  isWord : IsWord chars
  isCString : IsCString chars
  length_le : chars.length ≤ n

/-- A hexadecimal number of at most `n` digits. -/
structure HexNumber (n : ℕ) where
  digits : List Char
  isHex : IsHex digits
  length_le : digits.length ≤ n

/-- The value of the digits. -/
def HexNumber.value {n : ℕ} (x : HexNumber n) : ℕ :=
  hexValue x.digits

/-- A path: a word, and what there is from the first blank on. -/
structure MapsPath where
  word : List Char
  isWord : IsWord word
  rest : List Char
  blank : ∀ c ∈ rest.head?, isSpace c = true
  newline : '\n' ∉ rest
  isCString : IsCString (word ++ rest)

/-- The characters of a path. -/
def MapsPath.chars (p : MapsPath) : List Char :=
  p.word ++ p.rest

theorem MapsPath.isCString_word (p : MapsPath) : IsCString p.word := fun c hc ↦
  p.isCString c (List.mem_append_left _ hc)

/-- A line that fits in `buf[1024]` with the newline and the null behind it. -/
structure MapsLine where
  startAddr : HexNumber 16
  endAddr : HexNumber 16
  perms : Token 4
  perms_length : perms.chars.length = 4
  offset : HexNumber 16
  device : Token 16
  inode : Token 20
  pad : ℕ
  path : Option MapsPath
  length_lt : startAddr.digits.length + endAddr.digits.length + offset.digits.length +
    device.chars.length + inode.chars.length + (path.map fun p ↦ pad + p.chars.length).getD 0 + 11 <
      1024

namespace MapsLine

/-- The range of addresses. -/
def range (l : MapsLine) : List Char :=
  l.startAddr.digits ++ '-' :: l.endAddr.digits

/-- The path and the blanks in front of it. -/
def ending (l : MapsLine) : List Char :=
  match l.path with
  | none => []
  | some p => List.replicate l.pad ' ' ++ p.chars

/-- The line without its end. -/
def body (l : MapsLine) : List Char :=
  l.range ++ ' ' :: (l.perms.chars ++ ' ' :: (l.offset.digits ++ ' ' :: (l.device.chars ++
    ' ' :: (l.inode.chars ++ ' ' :: l.ending))))

/-- The text of the line. -/
def text (l : MapsLine) : List Char :=
  l.body ++ ['\n']

/-- The name of the mapping, empty if it is anonymous. -/
def name (l : MapsLine) : List Char :=
  (l.path.map MapsPath.chars).getD []

/-- The permission number `i`. -/
def perm (l : MapsLine) (i : ℕ) : Char :=
  l.perms.chars.getD i '\x00'

/-- The offset and the first word of the path fit in `coffset` and `cfile`. -/
structure Fits (l : MapsLine) : Prop where
  offset : l.offset.digits.length < 10
  path : ∀ p ∈ l.path, p.word.length < 512

/-- The offset fits in `coffset`, and the path is one word that fits in an entry. -/
structure Plain (l : MapsLine) : Prop where
  offset : l.offset.digits.length < 10
  path : ∀ p ∈ l.path, p.rest = [] ∧ p.word.length < 256

theorem Plain.fits {l : MapsLine} (h : l.Plain) : l.Fits :=
  ⟨h.offset, fun p hp ↦ (h.path p hp).2.trans (by decide)⟩

end MapsLine

/-- The line of an anonymous mapping. -/
def MapsLine.anonymous (startAddr endAddr : HexNumber 16) (perms : Token 4)
    (perms_length : perms.chars.length = 4) : MapsLine where
  startAddr := startAddr
  endAddr := endAddr
  perms := perms
  perms_length := perms_length
  offset := ⟨['0', '0', '0', '0', '0', '0', '0', '0'], .of_all (by decide) rfl, by decide⟩
  device := ⟨['0', '0', ':', '0', '0'], .of_all (by decide) rfl, .of_all rfl, by decide⟩
  inode := ⟨['0'], .of_all (by decide) rfl, .of_all rfl, by decide⟩
  pad := 0
  path := none
  length_lt := by
    have hstart := startAddr.length_le
    have hend := endAddr.length_le
    show startAddr.digits.length + endAddr.digits.length + 8 + 5 + 1 + 0 + 11 < 1024
    omega

/-- An anonymous line is plain. -/
theorem MapsLine.plain_anonymous {startAddr endAddr : HexNumber 16} {perms : Token 4}
    {perms_length : perms.chars.length = 4} :
    (MapsLine.anonymous startAddr endAddr perms perms_length).Plain :=
  ⟨by show 8 < 10; decide, fun p hp ↦ by cases hp⟩

/-- The address of a page, six digits long. -/
def HexNumber.page (d : Fin 10) : HexNumber 16 where
  digits := ['4', '0', Char.ofNat (48 + d), '0', '0', '0']
  isHex := .of_all (by simp) (by
    revert d
    decide)
  length_le := by simp

/-- The text of the file. -/
def mapsText (lines : List MapsLine) : List Char :=
  lines.flatMap MapsLine.text

/-! ### Reading them -/

/-- The local variables of `__init_filemaps`. The two buffers that nothing but `sscanf` and `fgets`
write and read between them, `buf` and the rest of the text, are passed by value. -/
structure ScanVars where
  caddr : ℕ → Char
  cperm : ℕ → Char
  coffset : ℕ → Char
  tmp : ℕ → Char
  cfile : ℕ → Char
  startAddr : ℕ
  endAddr : ℕ
  offset : ℕ

namespace ScanVars

/-- The local variables, all zero. -/
def zero : ScanVars :=
  ⟨fun _ ↦ '\x00', fun _ ↦ '\x00', fun _ ↦ '\x00', fun _ ↦ '\x00', fun _ ↦ '\x00', 0, 0, 0⟩

/-- `%s` into `caddr[40]`. -/
def setCaddr (w : List Char) (v : ScanVars) : Option ScanVars := do
  return { v with caddr := ← putString 40 w v.caddr }

/-- `%s` into `cperm[8]`. -/
def setCperm (w : List Char) (v : ScanVars) : Option ScanVars := do
  return { v with cperm := ← putString 8 w v.cperm }

/-- `%s` into `coffset[10]`. -/
def setCoffset (w : List Char) (v : ScanVars) : Option ScanVars := do
  return { v with coffset := ← putString 10 w v.coffset }

/-- `%s` into `tmp[512]`. -/
def setTmp (w : List Char) (v : ScanVars) : Option ScanVars := do
  return { v with tmp := ← putString 512 w v.tmp }

/-- `%s` into `cfile[512]`. -/
def setCfile (w : List Char) (v : ScanVars) : Option ScanVars := do
  return { v with cfile := ← putString 512 w v.cfile }

/-- `sscanf` with directives `%s` only: the arguments get the words of the line, as far as there are
any. A word that is too long for its buffer is a fault. -/
def sscanf (arguments : List (List Char → ScanVars → Option ScanVars)) (line : List Char)
    (v : ScanVars) : Option ScanVars :=
  (arguments.zip (scanWords arguments.length (line.takeWhile (· ≠ '\x00')))).foldlM
    (fun v x ↦ x.1 x.2 v) v

/-- `sscanf(buf, "%s %s %s", caddr, cperm, tmp)`. -/
def scanPerms (line : List Char) (v : ScanVars) : Option ScanVars :=
  v.sscanf [setCaddr, setCperm, setTmp] line

/-- `sscanf(buf, "%s %s %s %s %s %s", caddr, cperm, coffset, tmp, tmp, cfile)`. -/
def scanFields (line : List Char) (v : ScanVars) : Option ScanVars :=
  v.sscanf [setCaddr, setCperm, setCoffset, setTmp, setTmp, setCfile] line

/-- `sscanf(caddr, "%lx-%lx", &start_addr, &end_addr)`. -/
def scanRange (v : ScanVars) : ScanVars :=
  match scanHex (getString 40 v.caddr) with
  | none => v
  | some (startAddr, '-' :: s) =>
    match scanHex s with
    | none => { v with startAddr := startAddr }
    | some (endAddr, _) => { v with startAddr := startAddr, endAddr := endAddr }
  | some (startAddr, _) => { v with startAddr := startAddr }

/-- `sscanf(coffset, "%lx", &offset)`. -/
def scanOffset (v : ScanVars) : ScanVars :=
  match scanHex (getString 10 v.coffset) with
  | none => v
  | some (offset, _) => { v with offset := offset }

/-- The body of the first loop, for lines that qualify by their permissions. -/
def countLine (qualifies : (ℕ → Char) → Bool) (x : ScanVars × ℤ) (line : List Char) :
    Option (ScanVars × ℤ) := do
  let v ← x.1.scanPerms line
  return (v, ← if qualifies v.cperm then incInt x.2 else some x.2)

/-- The first loop: the number of lines that qualify. -/
def countLines (qualifies : (ℕ → Char) → Bool) (text : List Char) (v : ScanVars) :
    Option (ScanVars × ℤ) :=
  (readLines 1024 text).foldlM (countLine qualifies) (v, 0)

end ScanVars

/-! ### The text of a line -/

namespace MapsLine

variable {l : MapsLine} {n : ℕ}

theorem isWord_range (l : MapsLine) : IsWord l.range :=
  l.startAddr.isHex.isWord.append_cons rfl l.endAddr.isHex.isWord

theorem isCString_range (l : MapsLine) : IsCString l.range :=
  l.startAddr.isHex.isCString.append (.cons (by decide) l.endAddr.isHex.isCString)

theorem length_range_lt (l : MapsLine) : l.range.length < 40 := by
  have hstart := l.startAddr.length_le
  have hend := l.endAddr.length_le
  rw [range, List.length_append, List.length_cons]
  omega

/-- The blanks and the path contain no null character. -/
theorem isCString_ending (l : MapsLine) : IsCString l.ending := by
  rw [ending]
  split
  · exact fun c hc ↦ absurd hc List.not_mem_nil
  · refine IsCString.append (fun c hc ↦ ?_) (MapsPath.isCString _)
    rw [List.eq_of_mem_replicate hc]
    decide

theorem isCString_body (l : MapsLine) : IsCString l.body :=
  l.isCString_range.append (.cons (by decide) (l.perms.isCString.append (.cons (by decide)
    (l.offset.isHex.isCString.append (.cons (by decide) (l.device.isCString.append
      (.cons (by decide) (l.inode.isCString.append (.cons (by decide) l.isCString_ending)))))))))

/-- The length of the blanks and the path. -/
theorem length_ending (l : MapsLine) :
    l.ending.length = (l.path.map fun p ↦ l.pad + p.chars.length).getD 0 := by
  rw [ending]
  split
  · next hp => simp [hp]
  · next p hp => simp [hp]

/-- A line fits into the buffer of `fgets`. -/
theorem length_body_lt (l : MapsLine) : l.body.length + 1 < 1024 := by
  have hlt := l.length_lt
  rw [← length_ending] at hlt
  simp only [body, range, List.length_append, List.length_cons, l.perms_length]
  omega

/-- A line has its newline at the end only. -/
theorem newline_notMem_body (l : MapsLine) : '\n' ∉ l.body := by
  have hword : ∀ {w : List Char}, IsWord w → '\n' ∉ w := fun hw hmem ↦
    absurd (hw.not_space _ hmem) (by decide)
  have hending : '\n' ∉ l.ending := by
    rw [ending]
    split
    · exact List.not_mem_nil
    · rw [List.mem_append, MapsPath.chars, List.mem_append, not_or, not_or]
      refine ⟨fun hmem ↦ ?_, hword (MapsPath.isWord _), MapsPath.newline _⟩
      exact absurd (List.eq_of_mem_replicate hmem) (by decide)
  simp only [body, List.mem_append, List.mem_cons, not_or]
  exact ⟨hword l.isWord_range, by decide, hword l.perms.isWord, by decide,
    hword l.offset.isHex.isWord, by decide, hword l.device.isWord, by decide, hword l.inode.isWord,
    by decide, hending⟩

theorem text_takeWhile (l : MapsLine) : l.text.takeWhile (· ≠ '\x00') = l.text :=
  (l.isCString_body.append fun c hc ↦ by rw [List.mem_singleton.1 hc]; decide).takeWhile_eq

/-! ### Its words -/

/-- A blank and a word in front of a line are its first word. -/
theorem scanWords_blank {w rest : List Char} {b : Char} (hw : IsWord w) (hb : isSpace b = true) :
    scanWords (n + 1) (' ' :: (w ++ b :: rest)) = w :: scanWords n (b :: rest) :=
  scanWords_append hw 1 hb

/-- The first word of a path ends at a blank or at the end of the line. -/
theorem scanWords_path (p : MapsPath) (k : ℕ) :
    scanWords 1 (List.replicate k ' ' ++ (p.chars ++ ['\n'])) = [p.word] := by
  rw [MapsPath.chars, List.append_assoc]
  cases hrest : p.rest with
  | nil => exact scanWords_append p.isWord k rfl
  | cons c cs =>
    have hblank : isSpace c = true := p.blank c (by
      rw [hrest]
      rfl)
    exact scanWords_append p.isWord k hblank

/-- Behind the inode there is the path, if there is one. -/
theorem scanWords_ending (l : MapsLine) :
    scanWords 1 (' ' :: (l.ending ++ ['\n'])) = (l.path.map MapsPath.word).toList := by
  cases hpath : l.path with
  | none =>
    refine scanWords_of_space fun c hc ↦ ?_
    simp only [ending, hpath, List.nil_append, List.mem_cons, List.not_mem_nil, or_false] at hc
    rcases hc with rfl | rfl <;> rfl
  | some p =>
    have happend : ' ' :: (l.ending ++ ['\n']) =
        List.replicate (l.pad + 1) ' ' ++ (p.chars ++ ['\n']) := by
      rw [ending, hpath, List.replicate_succ]
      simp
    rw [happend, scanWords_path]
    rfl

/-- The first words of a line. -/
theorem scanWords_text (l : MapsLine) : scanWords (n + 3) l.text =
    [l.range, l.perms.chars, l.offset.digits] ++
      scanWords n
        (' ' :: (l.device.chars ++ ' ' :: (l.inode.chars ++ ' ' :: (l.ending ++ ['\n'])))) := by
  have htext : l.text = List.replicate 0 ' ' ++ (l.range ++ ' ' :: (l.perms.chars ++
      ' ' :: (l.offset.digits ++ ' ' :: (l.device.chars ++ ' ' :: (l.inode.chars ++
        ' ' :: (l.ending ++ ['\n'])))))) := by
    simp [text, body]
  rw [htext, scanWords_append l.isWord_range 0 rfl, scanWords_blank l.perms.isWord rfl,
    scanWords_blank l.offset.isHex.isWord rfl]
  rfl

theorem scanWords_three (l : MapsLine) :
    scanWords 3 l.text = [l.range, l.perms.chars, l.offset.digits] := by
  rw [scanWords_text (n := 0), scanWords, List.append_nil]

/-- All words of a line. -/
theorem scanWords_six (l : MapsLine) : scanWords 6 l.text =
    [l.range, l.perms.chars, l.offset.digits, l.device.chars, l.inode.chars] ++
      (l.path.map MapsPath.word).toList := by
  rw [scanWords_text (n := 3), scanWords_blank l.device.isWord rfl,
    scanWords_blank l.inode.isWord rfl, scanWords_ending]
  rfl

end MapsLine

/-- The text is read line by line. -/
theorem readLines_mapsText (lines : List MapsLine) :
    readLines 1024 (mapsText lines) = lines.map MapsLine.text := by
  induction lines with
  | nil => rfl
  | cons l lines ih =>
    have htext : mapsText (l :: lines) = l.body ++ '\n' :: mapsText lines := by
      simp [mapsText, MapsLine.text]
    rw [htext, readLines_append l.newline_notMem_body l.length_body_lt, ih, List.map_cons]
    rfl

/-! ### What `sscanf` leaves in the buffers -/

namespace MapsLine

variable {l : MapsLine} {v v' : ScanVars}

/-- The buffers after all fields of a line were read. -/
structure Scanned (l : MapsLine) (v v' : ScanVars) : Prop where
  caddr : getString 40 v'.caddr = l.range
  cperm : ∀ i < 4, v'.cperm i = l.perm i
  coffset : getString 10 v'.coffset = l.offset.digits
  cfile : getString 512 v'.cfile = (l.path.map MapsPath.word).getD (getString 512 v.cfile)

/-- The first words go to their buffers. -/
theorem scanPerms_text (l : MapsLine) (v : ScanVars) :
    ∃ v', v.scanPerms l.text = some v' ∧ (∀ i < 4, v'.cperm i = l.perm i) ∧ v'.cfile = v.cfile := by
  have hperms := l.perms.length_le
  have hoffset := l.offset.length_le
  obtain ⟨caddr, hcaddr⟩ := exists_putString l.length_range_lt v.caddr
  obtain ⟨cperm, hcperm⟩ := exists_putString (by omega : l.perms.chars.length < 8) v.cperm
  obtain ⟨tmp, htmp⟩ := exists_putString (by omega : l.offset.digits.length < 512) v.tmp
  refine ⟨{ v with caddr := caddr, cperm := cperm, tmp := tmp }, ?_, fun i hi ↦ ?_, rfl⟩
  · rw [ScanVars.scanPerms, ScanVars.sscanf, l.text_takeWhile]
    simp only [List.length_cons, List.length_nil, Nat.zero_add, Nat.reduceAdd]
    rw [l.scanWords_three]
    simp [ScanVars.setCaddr, ScanVars.setCperm, ScanVars.setTmp, hcaddr, hcperm, htmp]
  · exact putString_getD hcperm (by rw [l.perms_length]; exact hi)

/-- All words go to their buffers. The one for the path stays as it was if there is none. -/
theorem scanFields_text (hfits : l.Fits) (v : ScanVars) :
    ∃ v', v.scanFields l.text = some v' ∧ l.Scanned v v' := by
  have hperms := l.perms.length_le
  have hdevice := l.device.length_le
  have hinode := l.inode.length_le
  obtain ⟨caddr, hcaddr⟩ := exists_putString l.length_range_lt v.caddr
  obtain ⟨cperm, hcperm⟩ := exists_putString (by omega : l.perms.chars.length < 8) v.cperm
  obtain ⟨coffset, hcoffset⟩ := exists_putString hfits.offset v.coffset
  obtain ⟨tmp₁, htmp₁⟩ := exists_putString (by omega : l.device.chars.length < 512) v.tmp
  obtain ⟨tmp₂, htmp₂⟩ := exists_putString (by omega : l.inode.chars.length < 512) tmp₁
  have hfile : ∃ cfile, ScanVars.sscanf [ScanVars.setCaddr, ScanVars.setCperm, ScanVars.setCoffset,
      ScanVars.setTmp, ScanVars.setTmp, ScanVars.setCfile] l.text v =
        some { v with
          caddr := caddr, cperm := cperm, coffset := coffset, tmp := tmp₂, cfile := cfile } ∧
      getString 512 cfile = (l.path.map MapsPath.word).getD (getString 512 v.cfile) := by
    rw [ScanVars.sscanf, l.text_takeWhile]
    simp only [List.length_cons, List.length_nil, Nat.zero_add, Nat.reduceAdd]
    rw [l.scanWords_six]
    cases hpath : l.path with
    | none =>
      refine ⟨v.cfile, ?_, by rw [Option.map_none, Option.getD_none]⟩
      simp [ScanVars.setCaddr, ScanVars.setCperm, ScanVars.setCoffset, ScanVars.setTmp, hcaddr,
        hcperm, hcoffset, htmp₁, htmp₂]
    | some p =>
      obtain ⟨cfile, hcfile⟩ := exists_putString (hfits.path p hpath) v.cfile
      refine ⟨cfile, ?_, by
        rw [Option.map_some, Option.getD_some, getString_putString p.isCString_word hcfile]⟩
      simp [ScanVars.setCaddr, ScanVars.setCperm, ScanVars.setCoffset, ScanVars.setTmp,
        ScanVars.setCfile, hcaddr, hcperm, hcoffset, htmp₁, htmp₂, hcfile]
  obtain ⟨cfile, hscan, hcfile⟩ := hfile
  exact ⟨_, hscan, getString_putString l.isCString_range hcaddr,
    fun i hi ↦ putString_getD hcperm (by rw [l.perms_length]; exact hi),
    getString_putString l.offset.isHex.isCString hcoffset, hcfile⟩

/-- A word that does not fit is a fault. -/
theorem scanFields_text_of_not_fits (h : ¬l.Fits) (v : ScanVars) : v.scanFields l.text = none := by
  rw [ScanVars.scanFields, ScanVars.sscanf, l.text_takeWhile]
  simp only [List.length_cons, List.length_nil, Nat.zero_add, Nat.reduceAdd]
  rw [l.scanWords_six]
  rcases Nat.lt_or_ge l.offset.digits.length 10 with hlt | hge
  · have hpath : ∃ p ∈ l.path, ¬p.word.length < 512 := by
      by_contra hall
      exact h ⟨hlt, fun p hp ↦ by_contra fun hp' ↦ hall ⟨p, hp, hp'⟩⟩
    obtain ⟨p, hp, hlen⟩ := hpath
    rw [show l.path = some p from hp]
    simp [ScanVars.setCaddr, ScanVars.setCperm, ScanVars.setCoffset, ScanVars.setTmp,
      ScanVars.setCfile, putString_eq_none (not_lt.1 hlen)]
  · simp [ScanVars.setCaddr, ScanVars.setCperm, ScanVars.setCoffset, putString_eq_none hge]

/-- The addresses of a line are those of its range. -/
theorem Scanned.scanRange (h : l.Scanned v v') : v'.scanRange =
    { v' with startAddr := l.startAddr.value, endAddr := l.endAddr.value } := by
  have hstart : scanHex (getString 40 v'.caddr) =
      some (l.startAddr.value, '-' :: l.endAddr.digits) := by
    rw [h.caddr]
    exact scanHex_append l.startAddr.isHex l.startAddr.length_le fun c hc ↦ by
      obtain rfl : '-' = c := Option.some.inj hc
      decide
  have hend : scanHex l.endAddr.digits = some (l.endAddr.value, []) := by
    have hscan := @scanHex_append _ [] l.endAddr.isHex l.endAddr.length_le fun c hc ↦ by
      cases hc
    rwa [List.append_nil] at hscan
  rw [ScanVars.scanRange, hstart]
  simp only [hend]

/-- The offset is that of the line. -/
theorem Scanned.scanOffset (h : l.Scanned v v') : v'.scanRange.scanOffset =
    { v' with
      startAddr := l.startAddr.value, endAddr := l.endAddr.value, offset := l.offset.value } := by
  have hoffset : scanHex (getString 10 v'.coffset) = some (l.offset.value, []) := by
    have hlen := l.offset.length_le
    have hscan := @scanHex_append _ [] l.offset.isHex (by omega) fun c hc ↦ by cases hc
    rw [List.append_nil] at hscan
    rw [h.coffset]
    exact hscan
  rw [h.scanRange, ScanVars.scanOffset]
  simp only [hoffset]

end MapsLine

/-! ### Counting -/

section Counting

variable {qualifies : (ℕ → Char) → Bool} {lines : List MapsLine}

/-- The lines that qualify by their permissions. -/
def qualifying (qualifies : (ℕ → Char) → Bool) (lines : List MapsLine) : List MapsLine :=
  lines.filter fun l ↦ qualifies l.perm

/-- Only the four permissions decide whether a line qualifies. -/
def OnPerms (qualifies : (ℕ → Char) → Bool) : Prop :=
  ∀ b b' : ℕ → Char, (∀ i < 4, b i = b' i) → qualifies b = qualifies b'

theorem incInt_natCast {n : ℕ} (h : n + 1 < 2147483648) :
    incInt (n : ℤ) = some ((n + 1 : ℕ) : ℤ) := by
  rw [incInt, if_pos (by omega)]
  rfl

/-- The first loop counts the lines that qualify, as long as the counter can, and leaves the buffer
of the path alone. -/
theorem countLines_mapsText (hq : OnPerms qualifies) (lines : List MapsLine) (v : ScanVars) :
    ((qualifying qualifies lines).length < 2147483648 →
      ∃ v', ScanVars.countLines qualifies (mapsText lines) v =
        some (v', ((qualifying qualifies lines).length : ℤ)) ∧ v'.cfile = v.cfile) ∧
    (2147483648 ≤ (qualifying qualifies lines).length →
      ScanVars.countLines qualifies (mapsText lines) v = none) := by
  rw [ScanVars.countLines, readLines_mapsText]
  -- from any number counted so far
  have hloop : ∀ (v : ScanVars) (n : ℕ), n < 2147483648 →
      (n + (qualifying qualifies lines).length < 2147483648 →
        ∃ v', (lines.map MapsLine.text).foldlM (ScanVars.countLine qualifies) (v, (n : ℤ)) =
          some (v', ((n + (qualifying qualifies lines).length : ℕ) : ℤ)) ∧ v'.cfile = v.cfile) ∧
      (2147483648 ≤ n + (qualifying qualifies lines).length →
        (lines.map MapsLine.text).foldlM (ScanVars.countLine qualifies) (v, (n : ℤ)) = none) := by
    induction lines with
    | nil =>
      intro v n hn
      exact ⟨fun _ ↦ ⟨v, rfl, rfl⟩, fun hle ↦ absurd hn (not_lt.2 hle)⟩
    | cons l lines ih =>
      intro v n hn
      obtain ⟨v₁, hscan, hperm, hfile⟩ := l.scanPerms_text v
      have hqual : qualifies v₁.cperm = qualifies l.perm := hq _ _ hperm
      rw [List.map_cons, List.foldlM_cons, ScanVars.countLine, hscan]
      simp only [Option.bind_eq_bind, Option.bind_some, hqual]
      cases hl : qualifies l.perm with
      | false =>
        have hlines : qualifying qualifies (l :: lines) = qualifying qualifies lines :=
          List.filter_cons_of_neg (by simp [hl])
        rw [hlines]
        obtain ⟨hfew, hmany⟩ := ih v₁ n hn
        refine ⟨fun hlt ↦ ?_, hmany⟩
        obtain ⟨v', hrest, hfile'⟩ := hfew hlt
        exact ⟨v', hrest, hfile'.trans hfile⟩
      | true =>
        have hlines : qualifying qualifies (l :: lines) = l :: qualifying qualifies lines :=
          List.filter_cons_of_pos hl
        rw [hlines, List.length_cons]
        simp only [if_true]
        rcases Nat.lt_or_ge (n + 1) 2147483648 with hn' | hn'
        · rw [incInt_natCast hn']
          obtain ⟨hfew, hmany⟩ := ih v₁ (n + 1) hn'
          have hsum : n + ((qualifying qualifies lines).length + 1) =
              n + 1 + (qualifying qualifies lines).length := by omega
          rw [hsum]
          refine ⟨fun hlt ↦ ?_, hmany⟩
          obtain ⟨v', hrest, hfile'⟩ := hfew hlt
          exact ⟨v', hrest, hfile'.trans hfile⟩
        · have hnone : incInt (n : ℤ) = none := by
            rw [incInt, if_neg (by omega)]
          rw [hnone]
          exact ⟨fun hlt ↦ absurd hlt (by omega), fun _ ↦ rfl⟩
  have hzero := hloop v 0 (by decide)
  rwa [Nat.zero_add] at hzero

end Counting

end Memchk
