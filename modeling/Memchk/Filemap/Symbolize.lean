import Memchk.Filemap.Parsing
import Memchk.Filemap.Symbols

/-!
# Names for addresses

`mc_get_symbol` of `memchk_symbol.c`: the name of the mapping that an address lies in, and for the
function at the address, and each function that it was inlined into, its name and its source file.
All names are copied with `strncpy`, which is given one character less than the buffer holds; the
last character of the buffer is never written. The caller's buffers are on the stack, so that a name
that is as long as the limit is a string only if a NUL happens to be there
(`symbols_terminated_iff`).

What `libbfd` knows of a file is an argument: its sections, with the nearest line in each of them,
the frames that this line was inlined into, and the demangler.

## Strings in buffers

`HoldsString n name buf` says that a buffer of `n` characters holds the name, cut at the limit, as a
string: with a zero byte inside the buffer. Each of the three stores has a lemma that says when the
buffer holds the string, in terms of the length of the name and of what the last character of the
buffer was before.

## Names in the array

Looking an address up may load symbols, which changes the entry that is found but not its name or
its range (`SameFiles`). The entries of every state that is reached have names that are strings
(`Filemaps.Named`), since the array comes from the kernel and is zero.

## Main result

`symbols_terminated_iff`: for all addresses, buffers and answers, every string that is handed out is
terminated if and only if no name reaches its limit in a buffer without a zero byte at the end.
-/

namespace Memchk

/-- `MAX_SYMFUNCNAME_LEN`. -/
abbrev maxSymfuncnameLen : ℕ := 1024

/-- `MAX_SYMFILENAME_LEN`. -/
abbrev maxSymfilenameLen : ℕ := 512

/-- `struct funcsymbol`. -/
structure Funcsymbol where
  funcname : ℕ → Char
  srcfilename : ℕ → Char
  line : ℕ

/-- A place in the source, as `libbfd` gives it. -/
structure BfdFrame where
  filename : Option CString
  funcname : Option CString
  line : ℕ

/-- A section, with what `bfd_find_nearest_line` finds at an offset in it. -/
structure BfdSection where
  alloc : Bool
  vma : ℕ
  size : ℕ
  nearestLine : ℕ → Option BfdFrame

/-- What `libbfd` knows of a file. -/
structure Bfd where
  sections : List BfdSection
  /-- The results of `bfd_find_inliner_info`, one after the other. -/
  inliners : List BfdFrame
  /-- `bfd_demangle`. -/
  demangle : CString → Option CString

namespace Bfd

/-- `find_address_in_section`; `found` is what the sections before have given. -/
def findAddressInSection (offset : ℕ) (found : Option BfdFrame) (section_ : BfdSection) :
    Option BfdFrame :=
  if found.isSome then found
  else if ¬section_.alloc then none
  else if offset < section_.vma then none
  else if wrapSize (section_.vma + section_.size) ≤ offset then none
  else section_.nearestLine (subSize offset section_.vma)

/-- `bfd_map_over_sections`. -/
def findAddress (offset : ℕ) (b : Bfd) : Option BfdFrame :=
  b.sections.foldl (findAddressInSection offset) none

/-- The name that is shown for a function. -/
def shownName (doDemangle : Bool) (name : CString) (b : Bfd) : CString :=
  if doDemangle then (b.demangle name).getD name else name

/-- The copy of the name of the source file, which may be null. -/
def storeFilename (filename : Option CString) (buf : ℕ → Char) : ℕ → Char :=
  match filename with
  | some name => strncpy (maxSymfilenameLen - 1) name buf
  | none => Function.update buf 0 '\x00'

/-- The body of the loop of `mc_get_symbol_from_offset`, on the entry of the caller's array. A null
pointer in the place of the function's name is a fault. -/
def storeFrame (doDemangle : Bool) (frame : BfdFrame) (x : Funcsymbol) (b : Bfd) :
    Option Funcsymbol := do
  let srcfilename := storeFilename frame.filename x.srcfilename
  let name ← frame.funcname
  return ⟨strncpy (maxSymfuncnameLen - 1) (b.shownName doDemangle name) x.funcname, srcfilename,
    frame.line⟩

/-- The loop of `mc_get_symbol_from_offset`. `frames` are the frames behind the current one. -/
def storeFrames (doDemangle : Bool) (maxUnwindInline : ℤ) (b : Bfd) :
    BfdFrame → List BfdFrame → ℕ → (ℕ → Funcsymbol) → Option (ℕ × (ℕ → Funcsymbol))
  | frame, frames, i, funcsymbol => do
    let x ← b.storeFrame doDemangle frame (funcsymbol i)
    let funcsymbol := Function.update funcsymbol i x
    match frames with
    | [] => return (i + 1, funcsymbol)
    | next :: frames =>
      if (i + 1 : ℤ) < maxUnwindInline then
        storeFrames doDemangle maxUnwindInline b next frames (i + 1) funcsymbol
      else return (i + 1, funcsymbol)

/-- `mc_get_symbol_from_offset`. -/
def mcGetSymbolFromOffset (offset : ℕ) (doDemangle : Bool) (funcsymbol : ℕ → Funcsymbol)
    (maxUnwindInline : ℤ) (b : Bfd) : Option (ℕ × (ℕ → Funcsymbol)) :=
  match b.findAddress offset with
  | none => some (0, funcsymbol)
  | some frame =>
    if frame.funcname.isSome then
      b.storeFrames doDemangle maxUnwindInline frame b.inliners 0 funcsymbol
    else some (0, funcsymbol)

end Bfd

/-- What `mc_get_symbol` is asked, and the buffers of its caller. -/
structure SymbolQuery where
  addr : ℕ
  doDemangle : Bool
  filemapname : ℕ → Char
  maxNameLen : ℤ
  funcsymbol : ℕ → Funcsymbol
  maxUnwindInline : ℤ

/-- The buffers afterwards, and the offset. -/
structure SymbolAnswer where
  ret : ℤ
  filemapname : ℕ → Char
  offset : ℕ
  funcsymbol : ℕ → Funcsymbol

namespace Filemaps

/-- The number of characters that `strncpy` is to fill in the buffer for the name of a mapping. -/
def nameLimit (maxNameLen : ℤ) : ℕ :=
  if (maxFilemapnameLen : ℤ) < maxNameLen then maxFilemapnameLen - 1 else toSizeT (maxNameLen - 1)

/-- The offset of an address in the file that an entry shows. -/
def fileOffset (addr : ℕ) (x : Filemap) : ℕ :=
  wrapSize (subSize addr x.startAddr + x.fileOffset)

/-- `mc_get_symbol`, with what `libbfd` knows of the file of the entry. -/
def mcGetSymbol (a : BfdAnswers) (b : Bfd) (q : SymbolQuery) (s : Filemaps) :
    Option (SymbolAnswer × Filemaps) := do
  let (filemap, s) ← s.mcFindAndInitBfdFilemap a q.addr
  match filemap with
  | none => return (⟨-1, q.filemapname, 0, q.funcsymbol⟩, s)
  | some i =>
    let filemapname := strncpy (nameLimit q.maxNameLen)
      (getString maxFilemapnameLen (s.array i).name) q.filemapname
    let offset := fileOffset q.addr (s.array i)
    let (k, funcsymbol) ←
      b.mcGetSymbolFromOffset offset q.doDemangle q.funcsymbol q.maxUnwindInline
    return (⟨k, filemapname, offset, funcsymbol⟩, s)

/-! ### Names in the array -/

/-- A call of one of the functions on the array. -/
inductive Step : Filemaps → Filemaps → Prop
  | init {s s' : Filemaps} {answer : Option ℕ} {text₁ text₂ : List Char} {v : ScanVars} {ret : ℤ} :
    s.initFilemaps answer text₁ text₂ v = some (ret, s') → Step s s'
  | find {s s' : Filemaps} {a : BfdAnswers} {addr : ℕ} {found : Option ℕ} :
    s.mcFindAndInitBfdFilemap a addr = some (found, s') → Step s s'
  | term {s s' : Filemaps} : s.mcTermFilemaps = some s' → Step s s'

/-- The states after any calls. -/
def Reachable (s : Filemaps) : Prop :=
  Relation.ReflTransGen Step start s

/-- The entries show the same files at the same places as those of `s`. -/
def SameFiles (s t : Filemaps) : Prop :=
  ∀ i, (t.array i).name = (s.array i).name ∧ (t.array i).startAddr = (s.array i).startAddr ∧
    (t.array i).fileOffset = (s.array i).fileOffset

/-- The last character of a name is the NUL that it was mapped with. -/
def Named (s : Filemaps) : Prop :=
  ∀ i, (s.array i).name (maxFilemapnameLen - 1) = '\x00'

section Names

variable {s t u : Filemaps} {a : BfdAnswers} {i addr : ℕ}

namespace SameFiles

theorem refl (s : Filemaps) : s.SameFiles s :=
  fun _ ↦ ⟨rfl, rfl, rfl⟩

theorem trans (h : s.SameFiles t) (h' : t.SameFiles u) : s.SameFiles u :=
  fun i ↦ ⟨(h' i).1.trans (h i).1, (h' i).2.1.trans (h i).2.1, (h' i).2.2.trans (h i).2.2⟩

theorem named (h : s.SameFiles t) (hs : s.Named) : t.Named :=
  fun i ↦ by rw [(h i).1, hs i]

/-- Changing other fields of an entry changes no name. -/
theorem modify {f : Filemap → Filemap}
    (hf : ∀ x, (f x).name = x.name ∧ (f x).startAddr = x.startAddr ∧
      (f x).fileOffset = x.fileOffset) : s.SameFiles (s.modify i f) := by
  intro k
  by_cases hk : k = i
  · subst hk
    simp only [Filemaps.modify, Function.update_self]
    exact hf _
  · simp only [Filemaps.modify, Function.update_of_ne hk, and_self]

theorem mallocSymbols : s.SameFiles (s.mallocSymbols i addr) := by
  have hmodify : s.SameFiles (s.modify i fun x ↦ { x with symbols := addr }) :=
    modify fun _ ↦ ⟨rfl, rfl, rfl⟩
  exact hmodify

/-- Giving symbols back changes no name. -/
theorem freeSymbols (h : s.freeSymbols i = some t) : s.SameFiles t := by
  rw [Filemaps.freeSymbols] at h
  split_ifs at h
  obtain rfl := Option.some.inj h
  exact refl s

/-- Filling symbols changes no name. -/
theorem canonicalize {num : ℤ} (h : s.canonicalize i num = some t) : s.SameFiles t := by
  rw [Filemaps.canonicalize] at h
  split_ifs at h
  · obtain rfl := Option.some.inj h
    exact refl s
  · obtain rfl := Option.some.inj h
    exact refl s

/-- Loading symbols. -/
theorem initBfdFilemap {ret : ℤ} (h : s.initBfdFilemap a i = some (ret, t)) : s.SameFiles t := by
  have hmark : s.SameFiles (s.modify i fun x ↦ { x with abfd := a.abfd }) :=
    modify fun _ ↦ ⟨rfl, rfl, rfl⟩
  rw [Filemaps.initBfdFilemap] at h
  generalize s.modify i (fun x ↦ { x with abfd := a.abfd }) = s₁ at *
  dsimp only at h
  generalize (if a.upperBound = 0 then a.dynamicUpperBound else a.upperBound) = storage at h
  generalize (if a.upperBound = 0 then a.dynamicNumSym else a.numSym) = numSym at h
  have hmalloc : s.SameFiles (s₁.mallocSymbols i a.symbols) := hmark.trans mallocSymbols
  split_ifs at h
  · obtain ⟨-, rfl⟩ := Prod.mk.inj (Option.some.inj h)
    exact hmark
  · obtain ⟨-, rfl⟩ := Prod.mk.inj (Option.some.inj h)
    exact hmalloc
  · obtain ⟨s₂, hcanon, h⟩ := Option.bind_eq_some_iff.1 h
    obtain ⟨s₃, hfree, h⟩ := Option.bind_eq_some_iff.1 h
    obtain ⟨-, rfl⟩ := Prod.mk.inj (Option.some.inj h)
    exact (hmalloc.trans (canonicalize hcanon)).trans (freeSymbols hfree)
  · obtain ⟨s₂, hcanon, h⟩ := Option.bind_eq_some_iff.1 h
    obtain ⟨s₃, hfree, h⟩ := Option.bind_eq_some_iff.1 h
    obtain ⟨s₄, hagain, h⟩ := Option.bind_eq_some_iff.1 h
    obtain ⟨-, rfl⟩ := Prod.mk.inj (Option.some.inj h)
    have hfirst : s.SameFiles s₃ := (hmalloc.trans (canonicalize hcanon)).trans (freeSymbols hfree)
    exact (hfirst.trans mallocSymbols).trans (canonicalize hagain)
  · obtain ⟨s₂, hcanon, h⟩ := Option.bind_eq_some_iff.1 h
    obtain ⟨-, rfl⟩ := Prod.mk.inj (Option.some.inj h)
    exact hmalloc.trans (canonicalize hcanon)

/-- Looking up an address. -/
theorem find {found : Option ℕ} (h : s.mcFindAndInitBfdFilemap a addr = some (found, t)) :
    s.SameFiles t := by
  rw [mcFindAndInitBfdFilemap] at h
  obtain ⟨x, hfind, h⟩ := Option.bind_eq_some_iff.1 h
  cases x with
  | none =>
    obtain ⟨-, rfl⟩ := Prod.mk.inj (Option.some.inj h)
    exact refl s
  | some j =>
    by_cases hmark : (s.array j).abfd = 0
    · simp only [hmark, if_true] at h
      obtain ⟨⟨ret, u⟩, hinit, h⟩ := Option.bind_eq_some_iff.1 h
      obtain ⟨-, rfl⟩ := Prod.mk.inj (Option.some.inj h)
      exact initBfdFilemap hinit
    · simp only [hmark, if_false] at h
      obtain ⟨-, rfl⟩ := Prod.mk.inj (Option.some.inj h)
      exact refl s

/-- Closing an entry. -/
theorem termBfdFilemap (h : s.termBfdFilemap i = some t) : s.SameFiles t := by
  have hmark : s.SameFiles (s.modify i fun x ↦ { x with abfd := 0 }) :=
    modify fun _ ↦ ⟨rfl, rfl, rfl⟩
  rw [Filemaps.termBfdFilemap] at h
  dsimp only at h
  split_ifs at h
  · obtain rfl := Option.some.inj h
    exact hmark
  · obtain ⟨u, hfree, h⟩ := Option.bind_eq_some_iff.1 h
    obtain rfl := Option.some.inj h
    exact (hmark.trans (freeSymbols hfree)).trans (modify fun _ ↦ ⟨rfl, rfl, rfl⟩)

/-- Closing a session. -/
theorem term (h : s.mcTermFilemaps = some t) : s.SameFiles t := by
  rw [mcTermFilemaps] at h
  dsimp only at h
  have hcount : s.SameFiles { s with usageCnt := s.usageCnt - 1 } := refl s
  split_ifs at h
  · obtain ⟨u, hloop, h⟩ := Option.bind_eq_some_iff.1 h
    obtain rfl := Option.some.inj h
    have hnames : Outcome True ((List.range s.cnt.toNat).foldlM Filemaps.termBfdFilemap
        { s with usageCnt := s.usageCnt - 1 }) s.SameFiles := by
      refine Outcome.foldlM (fun _ ↦ s.SameFiles) (fun k rest x hx ↦ ⟨fun y hy ↦ ?_, ?_⟩) hcount
      · exact hx.trans (termBfdFilemap hy)
      · exact fun _ ↦ trivial
    exact hnames.value u hloop
  · obtain rfl := Option.some.inj h
    exact hcount

end SameFiles

/-- Filling the array. -/
theorem named_fillLines {x y : ScanVars × ℤ × Filemaps} {lines : List (List Char)}
    (h : lines.foldlM fillLine x = some y) (hx : x.2.2.Named) : y.2.2.Named := by
  have hloop : Outcome True (lines.foldlM fillLine x) fun y ↦ y.2.2.Named := by
    refine Outcome.foldlM (fun _ (y : ScanVars × ℤ × Filemaps) ↦ y.2.2.Named)
      (fun line rest y hy ↦ ⟨fun z hz ↦ ?_, fun _ ↦ trivial⟩) hx
    obtain ⟨v, i, u⟩ := y
    simp only [fillLine, Option.bind_eq_bind, Option.bind_eq_some_iff] at hz
    obtain ⟨v', -, hz⟩ := hz
    split_ifs at hz
    · simp only [Option.bind_eq_some_iff, Option.pure_def, Option.some.injEq] at hz
      obtain ⟨n, -, w, hadd, rfl⟩ := hz
      rw [addFilemap] at hadd
      split_ifs at hadd
      obtain rfl := Option.some.inj hadd
      intro k
      -- `strncpy` does not come to the last character
      by_cases hk : k = i.toNat
      · subst hk
        simp only [modify, Function.update_self]
        exact hy i.toNat
      · simp only [modify, Function.update_of_ne hk]
        exact hy k
    · obtain rfl := Option.some.inj hz
      exact hy
  exact hloop.value y h

/-- Opening a session. -/
theorem Named.init {answer : Option ℕ} {text₁ text₂ : List Char} {v : ScanVars} {ret : ℤ}
    (hs : s.Named) (h : s.initFilemaps answer text₁ text₂ v = some (ret, t)) : t.Named := by
  rw [initFilemaps] at h
  split_ifs at h
  · obtain ⟨n, -, h⟩ := Option.bind_eq_some_iff.1 h
    obtain ⟨-, rfl⟩ := Prod.mk.inj (Option.some.inj h)
    exact hs
  · obtain ⟨⟨v₁, cnt⟩, -, h⟩ := Option.bind_eq_some_iff.1 h
    cases answer with
    | none =>
      simp only [allocFilemaps_none, Int.reduceNeg, Int.reduceLT, if_true] at h
      obtain ⟨-, rfl⟩ := Prod.mk.inj (Option.some.inj h)
      exact hs
    | some addr =>
      simp only [allocFilemaps_some, lt_irrefl, if_false] at h
      obtain ⟨⟨v₂, i, u⟩, hfill, h⟩ := Option.bind_eq_some_iff.1 h
      obtain ⟨n, -, h⟩ := Option.bind_eq_some_iff.1 h
      obtain ⟨-, rfl⟩ := Prod.mk.inj (Option.some.inj h)
      exact named_fillLines hfill fun _ ↦ rfl

/-- A name in the array is always shorter than the array. -/
theorem Reachable.named (hs : s.Reachable) : s.Named := by
  induction hs with
  | refl => exact fun _ ↦ rfl
  | tail _ hstep ih =>
    cases hstep with
    | init h => exact ih.init h
    | find h => exact (SameFiles.find h).named ih
    | term h => exact (SameFiles.term h).named ih

end Names

end Filemaps

/-! ### Frames -/

namespace BfdFrame

/-- The name of the source file; a null pointer becomes the empty string. -/
def file (f : BfdFrame) : List Char :=
  (f.filename.map Subtype.val).getD []

/-- The name of the function that is shown. -/
def name (b : Bfd) (doDemangle : Bool) (f : BfdFrame) : List Char :=
  (f.funcname.map fun w ↦ (b.shownName doDemangle w).val).getD []

end BfdFrame

/-- An entry holds the names of a frame. -/
structure Funcsymbol.Holds (b : Bfd) (doDemangle : Bool) (f : BfdFrame) (x : Funcsymbol) :
    Prop where
  funcname : HoldsString maxSymfuncnameLen (f.name b doDemangle) x.funcname
  srcfilename : HoldsString maxSymfilenameLen f.file x.srcfilename

/-- The names of a frame are shorter than the buffers of an entry, or a NUL stands at the end of the
buffer. -/
structure Funcsymbol.Fits (b : Bfd) (doDemangle : Bool) (f : BfdFrame) (x : Funcsymbol) : Prop where
  funcname : (f.name b doDemangle).length < maxSymfuncnameLen - 1 ∨
    x.funcname (maxSymfuncnameLen - 1) = '\x00'
  srcfilename : f.file.length < maxSymfilenameLen - 1 ∨
    x.srcfilename (maxSymfilenameLen - 1) = '\x00'

namespace Bfd

/-- The frames at an offset, the innermost first. -/
def frames (offset : ℕ) (b : Bfd) : List BfdFrame :=
  match b.findAddress offset with
  | none => []
  | some f => if f.funcname.isSome then f :: b.inliners else []

variable {b : Bfd} {doDemangle : Bool} {f : BfdFrame} {x y : Funcsymbol} {fs : List BfdFrame}
  {maxUnwindInline : ℤ} {i k offset : ℕ} {funcsymbol funcsymbol' : ℕ → Funcsymbol}

/-- When a source file is stored as a string. -/
theorem storeFilename_holds_iff {buf : ℕ → Char} :
    HoldsString maxSymfilenameLen f.file (storeFilename f.filename buf) ↔
      f.file.length < maxSymfilenameLen - 1 ∨ buf (maxSymfilenameLen - 1) = '\x00' := by
  obtain ⟨filename, funcname, line⟩ := f
  cases filename with
  | some name => exact holdsString_strncpy_iff name.property (by decide) (.inr rfl)
  | none =>
    have hpos : 0 < maxSymfilenameLen - 1 := by decide
    have hnull : storeFilename none buf 0 = '\x00' := by
      show Function.update buf 0 '\x00' 0 = '\x00'
      exact Function.update_self _ _ _
    have hempty := (getString_eq_nil_iff (by decide : 0 < maxSymfilenameLen)).2 hnull
    exact iff_of_true ⟨⟨0, by decide, hnull⟩, hempty⟩ (.inl hpos)

/-- One round of the loop stores the names if and only if they fit. -/
theorem storeFrame_holds_iff (h : b.storeFrame doDemangle f x = some y) :
    y.Holds b doDemangle f ↔ x.Fits b doDemangle f := by
  rw [storeFrame] at h
  obtain ⟨w, hw, h⟩ := Option.bind_eq_some_iff.1 h
  obtain rfl := Option.some.inj h
  have hname : f.name b doDemangle = (b.shownName doDemangle w).val := by
    rw [BfdFrame.name, hw]
    rfl
  have hfuncname : HoldsString maxSymfuncnameLen (f.name b doDemangle)
      (strncpy (maxSymfuncnameLen - 1) (b.shownName doDemangle w) x.funcname) ↔
      (f.name b doDemangle).length < maxSymfuncnameLen - 1 ∨
        x.funcname (maxSymfuncnameLen - 1) = '\x00' := by
    rw [hname]
    exact holdsString_strncpy_iff (b.shownName doDemangle w).property (by decide) (.inr rfl)
  exact ⟨fun hy ↦ ⟨hfuncname.1 hy.funcname, storeFilename_holds_iff.1 hy.srcfilename⟩,
    fun hx ↦ ⟨hfuncname.2 hx.funcname, storeFilename_holds_iff.2 hx.srcfilename⟩⟩

/-- What the loop has stored: one frame for each entry, up to the last frame or to the limit. -/
theorem storeFrames_spec
    (h : b.storeFrames doDemangle maxUnwindInline f fs i funcsymbol = some (k, funcsymbol')) :
    k = i + max 1 (min (maxUnwindInline - i).toNat (fs.length + 1)) ∧
      (∀ j < i, funcsymbol' j = funcsymbol j) ∧
      ∀ j, i + j < k → ∃ g, (f :: fs)[j]? = some g ∧
        b.storeFrame doDemangle g (funcsymbol (i + j)) = some (funcsymbol' (i + j)) := by
  induction fs generalizing f i funcsymbol with
  | nil =>
    rw [storeFrames] at h
    obtain ⟨x, hx, h⟩ := Option.bind_eq_some_iff.1 h
    obtain ⟨rfl, rfl⟩ := Prod.mk.inj (Option.some.inj h)
    refine ⟨by rw [List.length_nil]; omega, fun j hj ↦ Function.update_of_ne hj.ne _ _,
      fun j hj ↦ ?_⟩
    obtain rfl : j = 0 := by omega
    exact ⟨f, rfl, by rw [Nat.add_zero, Function.update_self, hx]⟩
  | cons next fs ih =>
    rw [storeFrames] at h
    obtain ⟨x, hx, h⟩ := Option.bind_eq_some_iff.1 h
    dsimp only at h
    split_ifs at h with hlimit
    · obtain ⟨hk, hbefore, hstored⟩ := ih h
      refine ⟨by rw [hk, List.length_cons]; omega, fun j hj ↦ ?_, fun j hj ↦ ?_⟩
      · rw [hbefore j (by omega), Function.update_of_ne hj.ne]
      · cases j with
        | zero =>
          rw [Nat.add_zero, hbefore i (Nat.lt_succ_self i), Function.update_self]
          exact ⟨f, rfl, hx⟩
        | succ j =>
          obtain ⟨g, hg, hstore⟩ := hstored j (by omega)
          have hindex : i + 1 + j = i + (j + 1) := by omega
          rw [hindex, Function.update_of_ne (by omega)] at hstore
          exact ⟨g, hg, hstore⟩
    · obtain ⟨rfl, rfl⟩ := Prod.mk.inj (Option.some.inj h)
      refine ⟨by rw [List.length_cons]; omega, fun j hj ↦ Function.update_of_ne hj.ne _ _,
        fun j hj ↦ ?_⟩
      obtain rfl : j = 0 := by omega
      exact ⟨f, rfl, by rw [Nat.add_zero, Function.update_self, hx]⟩

/-- What `mc_get_symbol_from_offset` has stored. -/
theorem mcGetSymbolFromOffset_spec (hmax : 1 ≤ maxUnwindInline)
    (h : b.mcGetSymbolFromOffset offset doDemangle funcsymbol maxUnwindInline =
      some (k, funcsymbol')) :
    k = min maxUnwindInline.toNat (b.frames offset).length ∧
      ∀ j < k, ∃ g, (b.frames offset)[j]? = some g ∧
        b.storeFrame doDemangle g (funcsymbol j) = some (funcsymbol' j) := by
  rw [mcGetSymbolFromOffset] at h
  rw [frames]
  cases hfound : b.findAddress offset with
  | none =>
    rw [hfound] at h
    obtain ⟨rfl, -⟩ := Prod.mk.inj (Option.some.inj h)
    exact ⟨(Nat.min_zero _).symm, fun j hj ↦ absurd hj (Nat.not_lt_zero j)⟩
  | some f =>
    rw [hfound] at h
    dsimp only at h ⊢
    split_ifs at h ⊢
    · obtain ⟨hk, -, hstored⟩ := storeFrames_spec h
      refine ⟨by rw [hk, List.length_cons]; omega, fun j hj ↦ ?_⟩
      have hframe := hstored j (by omega)
      rwa [Nat.zero_add] at hframe
    · obtain ⟨rfl, -⟩ := Prod.mk.inj (Option.some.inj h)
      exact ⟨(Nat.min_zero _).symm, fun j hj ↦ absurd hj (Nat.not_lt_zero j)⟩

end Bfd

/-! ### Names as strings -/

/-- All names that `mc_get_symbol` gives are there, with a NUL, up to what the buffers of the caller
have room for. -/
structure SymbolAnswer.Terminated (b : Bfd) (q : SymbolQuery) (x : Filemap) (r : SymbolAnswer) :
    Prop where
  count : r.ret ≤ q.maxUnwindInline
  filemapname :
    HoldsString q.maxNameLen.toNat (getString maxFilemapnameLen x.name) r.filemapname
  frames : ∀ j : ℕ, j < r.ret → ∃ f, (b.frames r.offset)[j]? = some f ∧
    (r.funcsymbol j).Holds b q.doDemangle f

/-- The names are shorter than the buffers that they are copied to, or a NUL stands where `strncpy`
ends. -/
structure SymbolQuery.Fits (b : Bfd) (x : Filemap) (q : SymbolQuery) : Prop where
  filemapname : (getString maxFilemapnameLen x.name).length < Filemaps.nameLimit q.maxNameLen ∨
    q.filemapname (Filemaps.nameLimit q.maxNameLen) = '\x00'
  frames : ∀ j : ℕ, j < q.maxUnwindInline →
    ∀ f, (b.frames (Filemaps.fileOffset q.addr x))[j]? = some f →
      (q.funcsymbol j).Fits b q.doDemangle f

namespace Filemaps

variable {s s' : Filemaps} {a : BfdAnswers} {b : Bfd} {q : SymbolQuery} {r : SymbolAnswer} {i : ℕ}

/-- A lookup gives the entry that is found, or none. -/
theorem find_cases {found : Option ℕ}
    (hfind : s.findLoop q.addr s.cnt.toNat 0 = some (some i))
    (h : s.mcFindAndInitBfdFilemap a q.addr = some (found, s')) :
    found = none ∨ found = some i := by
  rw [mcFindAndInitBfdFilemap, hfind] at h
  dsimp only [Option.bind_eq_bind, Option.bind_some] at h
  split_ifs at h
  · obtain ⟨⟨ret, u⟩, -, h⟩ := Option.bind_eq_some_iff.1 h
    obtain ⟨rfl, -⟩ := Prod.mk.inj (Option.some.inj h)
    split_ifs
    · exact .inl rfl
    · exact .inr rfl
  · obtain ⟨rfl, -⟩ := Prod.mk.inj (Option.some.inj h)
    exact .inr rfl

/-- The copy of the name of a mapping. -/
theorem filemapname_holds_iff (hs : s.Named) {maxNameLen : ℤ} (hlen : 1 ≤ maxNameLen)
    {buf : ℕ → Char} :
    HoldsString maxNameLen.toNat (getString maxFilemapnameLen (s.array i).name)
        (strncpy (nameLimit maxNameLen) (getString maxFilemapnameLen (s.array i).name) buf) ↔
      (getString maxFilemapnameLen (s.array i).name).length < nameLimit maxNameLen ∨
        buf (nameLimit maxNameLen) = '\x00' := by
  have hname : (getString maxFilemapnameLen (s.array i).name).length ≤ maxFilemapnameLen - 1 := by
    rw [← not_lt, lt_length_getString_iff (by decide)]
    exact fun h ↦ h _ le_rfl (hs i)
  have hlimit : nameLimit maxNameLen < maxNameLen.toNat ∧
      (nameLimit maxNameLen = maxFilemapnameLen - 1 ∨
        nameLimit maxNameLen = maxNameLen.toNat - 1) := by
    rw [nameLimit, toSizeT]
    simp only [maxFilemapnameLen]
    split_ifs <;> omega
  refine holdsString_strncpy_iff isCString_getString hlimit.1 ?_
  exact hlimit.2.imp_left fun heq ↦ by rw [heq]; exact hname

/-- What a call of `mc_get_symbol` has stored. -/
theorem mcGetSymbol_spec (hfind : s.findLoop q.addr s.cnt.toNat 0 = some (some i))
    (hmax : 1 ≤ q.maxUnwindInline) (hrun : s.mcGetSymbol a b q = some (r, s')) (hret : 0 ≤ r.ret) :
    ∃ k : ℕ, r.ret = k ∧ r.offset = fileOffset q.addr (s.array i) ∧
      r.filemapname = strncpy (nameLimit q.maxNameLen)
        (getString maxFilemapnameLen (s.array i).name) q.filemapname ∧
      k = min q.maxUnwindInline.toNat (b.frames r.offset).length ∧
      ∀ j < k, ∃ g, (b.frames r.offset)[j]? = some g ∧
        b.storeFrame q.doDemangle g (q.funcsymbol j) = some (r.funcsymbol j) := by
  rw [mcGetSymbol] at hrun
  obtain ⟨⟨found, t⟩, hlookup, hrun⟩ := Option.bind_eq_some_iff.1 hrun
  obtain ⟨hname, haddr, hoffset⟩ := SameFiles.find hlookup i
  rcases find_cases hfind hlookup with rfl | rfl
  · obtain ⟨rfl, -⟩ := Prod.mk.inj (Option.some.inj hrun)
    exact absurd (show (0 : ℤ) ≤ -1 from hret) (by decide)
  · obtain ⟨⟨k, funcsymbol⟩, hsymbols, hrun⟩ := Option.bind_eq_some_iff.1 hrun
    obtain ⟨rfl, -⟩ := Prod.mk.inj (Option.some.inj hrun)
    obtain ⟨hk, hstored⟩ := Bfd.mcGetSymbolFromOffset_spec hmax hsymbols
    refine ⟨k, rfl, ?_, ?_, hk, hstored⟩
    · show fileOffset q.addr (t.array i) = fileOffset q.addr (s.array i)
      rw [fileOffset, fileOffset, haddr, hoffset]
    · show strncpy _ (getString maxFilemapnameLen (t.array i).name) _ = _
      rw [hname]

/-- Names that are there fitted. -/
theorem fits_of_terminated (hs : s.Reachable)
    (hfind : s.findLoop q.addr s.cnt.toNat 0 = some (some i)) (hlen : 1 ≤ q.maxNameLen)
    (hmax : 1 ≤ q.maxUnwindInline) (hrun : s.mcGetSymbol a b q = some (r, s')) (hret : 0 ≤ r.ret)
    (h : r.Terminated b q (s.array i)) : q.Fits b (s.array i) := by
  obtain ⟨k, hrk, hoffset, hfilemapname, hk, hstored⟩ := mcGetSymbol_spec hfind hmax hrun hret
  have hholds := h.filemapname
  rw [hfilemapname] at hholds
  refine ⟨(filemapname_holds_iff hs.named hlen).1 hholds, fun j hj f hf ↦ ?_⟩
  rw [← hoffset] at hf
  have hjk : j < k := by
    have hlength := (List.getElem?_eq_some_iff.1 hf).1
    omega
  obtain ⟨g, hg, hstore⟩ := hstored j hjk
  obtain ⟨g', hg', hframe⟩ := h.frames j (by omega)
  rw [hg, Option.some_inj] at hg'
  rw [hf, Option.some_inj] at hg
  subst hg' hg
  exact (Bfd.storeFrame_holds_iff hstore).1 hframe

/-- Names that fit are there. -/
theorem terminated_of_fits (hs : s.Reachable)
    (hfind : s.findLoop q.addr s.cnt.toNat 0 = some (some i)) (hlen : 1 ≤ q.maxNameLen)
    (hmax : 1 ≤ q.maxUnwindInline) (hrun : s.mcGetSymbol a b q = some (r, s')) (hret : 0 ≤ r.ret)
    (h : q.Fits b (s.array i)) : r.Terminated b q (s.array i) := by
  obtain ⟨k, hrk, hoffset, hfilemapname, hk, hstored⟩ := mcGetSymbol_spec hfind hmax hrun hret
  refine ⟨by omega, ?_, fun j hj ↦ ?_⟩
  · rw [hfilemapname]
    exact (filemapname_holds_iff hs.named hlen).2 h.filemapname
  · obtain ⟨g, hg, hstore⟩ := hstored j (by omega)
    have hfits : (q.funcsymbol j).Fits b q.doDemangle g :=
      h.frames j (by omega) g (hoffset ▸ hg)
    exact ⟨g, hg, (Bfd.storeFrame_holds_iff hstore).2 hfits⟩

/-- After a call of `mc_get_symbol` that has found the address, all names are strings if and only if
they fit, or the buffers end with NULs already. -/
theorem symbols_terminated_iff (hs : s.Reachable)
    (hfind : s.findLoop q.addr s.cnt.toNat 0 = some (some i)) (hlen : 1 ≤ q.maxNameLen)
    (hmax : 1 ≤ q.maxUnwindInline) (hrun : s.mcGetSymbol a b q = some (r, s')) (hret : 0 ≤ r.ret) :
    r.Terminated b q (s.array i) ↔ q.Fits b (s.array i) :=
  ⟨fits_of_terminated hs hfind hlen hmax hrun hret, terminated_of_fits hs hfind hlen hmax hrun hret⟩

/-- The array in a session of a process with one mapping. -/
def oneMapping : Filemaps :=
  ((start.initFilemaps (some 65536) (mapsText [.named]) (mapsText [.named]) .zero).getD
    (0, start)).2

/-- A session with one mapping. -/
theorem reachable_oneMapping : oneMapping.Reachable := by
  have hret : (start.initFilemaps (some 65536) (mapsText [.named]) (mapsText [.named])
      .zero).map Prod.fst = some 0 := by decide +kernel
  obtain ⟨⟨ret, t⟩, hinit, hfst⟩ := Option.map_eq_some_iff.1 hret
  have ht : oneMapping = t := by rw [oneMapping, hinit, Option.getD_some]
  rw [ht]
  exact .single (.init hinit)

theorem find_oneMapping : oneMapping.findLoop 4194304 oneMapping.cnt.toNat 0 = some (some 0) := by
  decide +kernel

end Filemaps

/-- A file with one function. -/
def Bfd.oneFunction (name : CString) : Bfd :=
  ⟨[⟨true, 0, 4096, fun _ ↦ some ⟨none, some name, 1⟩⟩], [], fun _ ↦ none⟩

theorem Bfd.frames_oneFunction (name : CString) {offset : ℕ} (h : offset < 4096) :
    (Bfd.oneFunction name).frames offset = [⟨none, some name, 1⟩] := by
  simp [frames, findAddress, findAddressInSection, oneFunction, wrapSize, Nat.not_le.2 h]

/-- The query of `mc_print_callstack`, with buffers that hold the character `c` all over. -/
def SymbolQuery.printing (c : Char) : SymbolQuery :=
  ⟨4194304, true, fun _ ↦ c, 256, fun _ ↦ ⟨fun _ ↦ c, fun _ ↦ c, 0⟩, 10⟩

/-- What is asked lies on the first page of the file. -/
theorem fileOffset_oneMapping {c : Char} :
    Filemaps.fileOffset (SymbolQuery.printing c).addr (Filemaps.oneMapping.array 0) < 4096 := by
  show Filemaps.fileOffset 4194304 (Filemaps.oneMapping.array 0) < 4096
  decide +kernel

namespace Filemaps

/-- A short name. -/
theorem symbols_terminated_iff_main : ∃ r s',
    oneMapping.mcGetSymbol ⟨1, 8, 0, 4096, 1, 0, 0⟩
      (.oneFunction ⟨['m', 'a', 'i', 'n'], .of_all rfl⟩) (.printing 'x') = some (r, s') ∧
    0 ≤ r.ret ∧ r.Terminated (.oneFunction ⟨['m', 'a', 'i', 'n'], .of_all rfl⟩) (.printing 'x')
      (oneMapping.array 0) := by
  have hret : (oneMapping.mcGetSymbol ⟨1, 8, 0, 4096, 1, 0, 0⟩
      (.oneFunction ⟨['m', 'a', 'i', 'n'], .of_all rfl⟩) (.printing 'x')).map
        (fun x ↦ x.1.ret) = some 1 := by decide +kernel
  obtain ⟨⟨r, s'⟩, hrun, hone⟩ := Option.map_eq_some_iff.1 hret
  have hpos : 0 ≤ r.ret := by
    rw [show r.ret = 1 from hone]
    decide
  refine ⟨r, s', hrun, hpos, (symbols_terminated_iff reachable_oneMapping find_oneMapping
    (by decide) (by decide) hrun hpos).2 ⟨.inl (by decide +kernel), fun j _ f hf ↦ ?_⟩⟩
  rw [Bfd.frames_oneFunction _ fileOffset_oneMapping] at hf
  obtain rfl := List.mem_singleton.1 (List.mem_of_getElem? hf)
  exact ⟨.inl (by decide), .inl (by decide)⟩

/-- A name of 1023 characters. -/
def longName : CString :=
  ⟨List.replicate 1023 'f', fun c hc ↦ by rw [List.eq_of_mem_replicate hc]; decide⟩

/-- A name that `strncpy` copies without a NUL, in front of a character that is none. -/
theorem not_symbols_terminated : ∃ r s',
    oneMapping.mcGetSymbol ⟨1, 8, 0, 4096, 1, 0, 0⟩ (.oneFunction longName) (.printing 'x') =
      some (r, s') ∧ 0 ≤ r.ret ∧
    ¬r.Terminated (.oneFunction longName) (.printing 'x') (oneMapping.array 0) := by
  have hret : (oneMapping.mcGetSymbol ⟨1, 8, 0, 4096, 1, 0, 0⟩
      (.oneFunction longName) (.printing 'x')).map (fun x ↦ x.1.ret) = some 1 := by decide +kernel
  obtain ⟨⟨r, s'⟩, hrun, hone⟩ := Option.map_eq_some_iff.1 hret
  have hpos : 0 ≤ r.ret := by
    rw [show r.ret = 1 from hone]
    decide
  refine ⟨r, s', hrun, hpos, fun h ↦ ?_⟩
  have hfits := fits_of_terminated reachable_oneMapping find_oneMapping (by decide) (by decide)
    hrun hpos h
  have hframe := hfits.frames 0 (by decide) ⟨none, some longName, 1⟩ (by
    rw [Bfd.frames_oneFunction _ fileOffset_oneMapping]
    rfl)
  rcases hframe.funcname with hlt | hnull
  · have hlength : (BfdFrame.name (.oneFunction longName) true ⟨none, some longName, 1⟩).length =
        1023 := List.length_replicate
    exact absurd (hlength ▸ hlt) (by decide)
  · exact absurd (show 'x' = '\x00' from hnull) (by decide)

end Filemaps

end Memchk
