import Memchk.Allocator.Basic
import Memchk.Maps

/-!
# The mappings of executable files

The array of `memchk_filemap.c`, which says for every executable mapping of the process which file
it shows and, once it was asked for, holds the symbols of that file. It is there while a session is
open: `mc_init_filemaps_from_procmap` fills it when there is none, `mc_term_filemaps` gives it back
when `__usage_cnt` comes to zero. The functions give `none` on a fault.

## What is outside

The text of the file of mappings is an argument, once for each of the two times it is read, and so
are the answers of the kernel, of `libbfd` and of `mc_orig_malloc`. Of the symbols only the arrays
that hold them count: `symbolArrays` says which of them are allocated, and whether they are filled.

## The state

`Filemaps` are the static variables of the file, with the entries by index. Nothing bounds an index
but the size that was mapped: a store behind it is a fault, and so is giving an array of symbols
back that is not allocated. `events` are the arrays mapped and unmapped, for the statements about
sessions; no function reads them.

## The functions

The static helpers of the C file are definitions of their own, under their names. Loading symbols is
`initBfdFilemap`, with all its ways to fail, and `mcFindAndInitBfdFilemap` looks an address up and
loads the symbols of the entry that is found, if its mark says that this was not done.
-/

namespace Memchk

/-- `struct filemap`. -/
structure Filemap where
  startAddr : ℕ
  endAddr : ℕ
  fileOffset : ℕ
  name : ℕ → Char
  abfd : ℕ
  symbols : ℕ

/-- `sizeof(struct filemap)`. -/
abbrev filemapSize : ℕ := 296

/-- `MAX_FILEMAPNAME_LEN`. -/
abbrev maxFilemapnameLen : ℕ := 256

/-- `MAP_FAILED`. -/
abbrev mapFailed : ℕ := 18446744073709551615

/-- What is done to the array as a whole. -/
inductive FilemapEvent
  /-- `mmap` gave a mapping. -/
  | mapped (addr size : ℕ)
  /-- `munmap(addr, size)`. -/
  | unmapped (addr size : ℕ)
deriving DecidableEq

/-- The static variables of `memchk_filemap.c`, the array that `__filemap` points to, the mapping
that this array lies in, and the arrays of symbols. -/
structure Filemaps where
  filemap : ℕ
  cnt : ℤ
  usageCnt : ℤ
  size : ℕ
  array : ℕ → Filemap
  mapping : Option (ℕ × ℕ)
  events : List FilemapEvent
  /-- Whether an allocated array of symbols is filled. -/
  symbolArrays : ℕ → Option Bool

namespace Filemaps

/-- Before the first session. -/
def start : Filemaps where
  filemap := 0
  cnt := 0
  usageCnt := 0
  size := 0
  array _ := ⟨0, 0, 0, fun _ ↦ '\x00', 0, 0⟩
  mapping := none
  events := []
  symbolArrays _ := none

/-- The entry `__filemap[i]` lies in memory that is mapped. -/
def EntryOk (i : ℕ) (s : Filemaps) : Prop :=
  ∃ m ∈ s.mapping, m.1 = s.filemap ∧ filemapSize * (i + 1) ≤ m.2

instance (i : ℕ) (s : Filemaps) : Decidable (s.EntryOk i) :=
  inferInstanceAs (Decidable (∃ m ∈ s.mapping, _))

/-- A store into `__filemap[i]`. -/
def modify (i : ℕ) (f : Filemap → Filemap) (s : Filemaps) : Filemaps :=
  { s with array := Function.update s.array i (f (s.array i)) }

/-- `__alloc_filemaps`. A new mapping is filled with zeros. -/
def allocFilemaps (answer : Option ℕ) (s : Filemaps) : ℤ × Filemaps :=
  let size := getAlignedSize (wrapSize (filemapSize * toSizeT s.cnt)) pageSize
  match answer with
  | none => (-1, { s with size := size, filemap := mapFailed })
  | some addr =>
    (0, { s with
      size := size
      filemap := addr
      array := fun _ ↦ ⟨0, 0, 0, fun _ ↦ '\x00', 0, 0⟩
      mapping := some (addr, size)
      events := s.events ++ [.mapped addr size] })

theorem allocFilemaps_none (s : Filemaps) : s.allocFilemaps none = (-1, { s with
    size := getAlignedSize (wrapSize (filemapSize * toSizeT s.cnt)) pageSize
    filemap := mapFailed }) :=
  rfl

theorem allocFilemaps_some (addr : ℕ) (s : Filemaps) : s.allocFilemaps (some addr) = (0, { s with
    size := getAlignedSize (wrapSize (filemapSize * toSizeT s.cnt)) pageSize
    filemap := addr
    array := fun _ ↦ ⟨0, 0, 0, fun _ ↦ '\x00', 0, 0⟩
    mapping := some (addr, getAlignedSize (wrapSize (filemapSize * toSizeT s.cnt)) pageSize)
    events := s.events ++
      [.mapped addr (getAlignedSize (wrapSize (filemapSize * toSizeT s.cnt)) pageSize)] }) :=
  rfl

/-- `__add_filemap`. -/
def addFilemap (idx startAddr endAddr offset : ℕ) (name : List Char) (s : Filemaps) :
    Option Filemaps :=
  if s.EntryOk idx then
    some (s.modify idx fun x ↦
      ⟨startAddr, endAddr, offset, strncpy (maxFilemapnameLen - 1) name x.name, 0, 0⟩)
  else none

/-- A mapping is of interest if its third permission is `x`. -/
def isExecutable (cperm : ℕ → Char) : Bool :=
  cperm 2 = 'x'

/-- The body of the second loop of `__init_filemaps`. -/
def fillLine (x : ScanVars × ℤ × Filemaps) (line : List Char) :
    Option (ScanVars × ℤ × Filemaps) := do
  let (v, i, s) := x
  let v ← v.scanFields line
  if isExecutable v.cperm then
    let v := v.scanRange.scanOffset
    return (v, ← incInt i,
      ← s.addFilemap i.toNat v.startAddr v.endAddr v.offset (getString 512 v.cfile))
  else return (v, i, s)

/-- `__init_filemaps`, with what its local variables happen to hold and the two readings of the
file. -/
def initFilemaps (answer : Option ℕ) (text₁ text₂ : List Char) (v : ScanVars) (s : Filemaps) :
    Option (ℤ × Filemaps) := do
  if s.usageCnt ≠ 0 then return (0, { s with usageCnt := ← incInt s.usageCnt })
  let (v, cnt) ← v.countLines isExecutable text₁
  let (ret, s) := { s with cnt := cnt }.allocFilemaps answer
  if ret < 0 then return (-1, s)
  let (_, _, s) ← (readLines 1024 text₂).foldlM fillLine (v, 0, s)
  return (0, { s with usageCnt := ← incInt s.usageCnt })

/-! ### Symbols -/

/-- What `libbfd` and `mc_orig_malloc` answer in `__init_bfd_filemap`, each in the order in which it
is asked. -/
structure BfdAnswers where
  /-- `bfd_openr`, which succeeds. -/
  abfd : ℕ
  /-- `bfd_get_symtab_upper_bound`. -/
  upperBound : ℤ
  /-- `bfd_get_dynamic_symtab_upper_bound`. -/
  dynamicUpperBound : ℤ
  /-- `mc_orig_malloc`. -/
  symbols : ℕ
  /-- `bfd_canonicalize_symtab`. -/
  numSym : ℤ
  /-- `bfd_canonicalize_dynamic_symtab`. -/
  dynamicNumSym : ℤ
  /-- `mc_orig_malloc`, called again. -/
  dynamicSymbols : ℕ

/-- `__filemap[i].symbols = mc_orig_malloc(storage)`. -/
def mallocSymbols (i addr : ℕ) (s : Filemaps) : Filemaps :=
  { s.modify i fun x ↦ { x with symbols := addr } with
    symbolArrays :=
      if addr = 0 then s.symbolArrays else Function.update s.symbolArrays addr (some false) }

/-- `mc_orig_free(__filemap[i].symbols)`. A second `free` of an array is a fault. -/
def freeSymbols (i : ℕ) (s : Filemaps) : Option Filemaps :=
  let addr := (s.array i).symbols
  if (s.symbolArrays addr).isSome then
    some { s with symbolArrays := Function.update s.symbolArrays addr none }
  else none

/-- The symbols are stored in the array of the entry `i`, unless there is an error. -/
def canonicalize (i : ℕ) (num : ℤ) (s : Filemaps) : Option Filemaps :=
  let addr := (s.array i).symbols
  if num < 0 then some s
  else if (s.symbolArrays addr).isSome then
    some { s with symbolArrays := Function.update s.symbolArrays addr (some true) }
  else none

/-- `__init_bfd_filemap`. -/
def initBfdFilemap (a : BfdAnswers) (i : ℕ) (s : Filemaps) : Option (ℤ × Filemaps) := do
  let s := s.modify i fun x ↦ { x with abfd := a.abfd }
  let dynamic := a.upperBound = 0
  let storage := if dynamic then a.dynamicUpperBound else a.upperBound
  if storage < 0 then return (-1, s)
  let s := s.mallocSymbols i a.symbols
  if a.symbols = 0 then return (-1, s)
  let numSym := if dynamic then a.dynamicNumSym else a.numSym
  let s ← s.canonicalize i numSym
  if numSym < 0 then return (-1, ← s.freeSymbols i)
  if numSym = 0 ∧ ¬dynamic ∧ 0 < a.dynamicUpperBound then
    let s ← s.freeSymbols i
    let s := s.mallocSymbols i a.dynamicSymbols
    return (0, ← s.canonicalize i a.dynamicNumSym)
  return (0, s)

/-- `__term_bfd_filemap`. -/
def termBfdFilemap (s : Filemaps) (i : ℕ) : Option Filemaps :=
  if s.EntryOk i then do
    let s := s.modify i fun x ↦ { x with abfd := 0 }
    if (s.array i).symbols = 0 then return s
    return (← s.freeSymbols i).modify i fun x ↦ { x with symbols := 0 }
  else none

/-- `munmap(__filemap, __size)`, which has no effect on an address where nothing is mapped. -/
def munmap (s : Filemaps) : Filemaps :=
  { s with
    mapping := if s.mapping = some (s.filemap, s.size) then none else s.mapping
    events := s.events ++ [.unmapped s.filemap s.size] }

/-- `mc_term_filemaps`. -/
def mcTermFilemaps (s : Filemaps) : Option Filemaps := do
  let s := { s with usageCnt := s.usageCnt - 1 }
  if s.usageCnt = 0 then
    return (← (List.range s.cnt.toNat).foldlM termBfdFilemap s).munmap
  return s

/-- The loop of `mc_find_and_init_bfd_filemap`: the first entry from `i` on that has the address in
its range. -/
def findLoop (addr : ℕ) (s : Filemaps) : ℕ → ℕ → Option (Option ℕ)
  | 0, _ => some none
  | rounds + 1, i =>
    if s.EntryOk i then
      if (s.array i).startAddr ≤ addr ∧ addr < (s.array i).endAddr then some (some i)
      else findLoop addr s rounds (i + 1)
    else none

/-- `mc_find_and_init_bfd_filemap`, with the index of the entry it points to. -/
def mcFindAndInitBfdFilemap (a : BfdAnswers) (addr : ℕ) (s : Filemaps) :
    Option (Option ℕ × Filemaps) := do
  match ← s.findLoop addr s.cnt.toNat 0 with
  | none => return (none, s)
  | some i =>
    if (s.array i).abfd = 0 then
      let (ret, s) ← s.initBfdFilemap a i
      return (if ret < 0 then none else some i, s)
    return (some i, s)

/-- The array that `__alloc_filemaps` maps has room for all entries. -/
theorem size_allocFilemaps {n : ℕ} (hn : n < 2147483648) :
    filemapSize * n ≤ getAlignedSize (wrapSize (filemapSize * toSizeT (n : ℤ))) pageSize := by
  have hwrap : wrapSize (filemapSize * toSizeT (n : ℤ)) = filemapSize * n := by
    rw [toSizeT_natCast (by omega)]
    exact wrapSize_of_lt (by simp only [filemapSize]; omega)
  rw [hwrap]
  exact le_getAlignedSize (by decide) _

end Filemaps

end Memchk
