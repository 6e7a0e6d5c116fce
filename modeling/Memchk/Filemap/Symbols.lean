import Memchk.Filemap.Parsing
import Memchk.Filemap.Sessions

/-!
# Symbols

`mc_find_and_init_bfd_filemap` loads the symbols of an entry when the entry is found for the first
time, and takes a pointer in `abfd` for the mark that this was done. The pointer is stored before
anything else, so an entry whose symbols could not be loaded looks like one whose symbols are there.

As long as the symbols of every entry found are either rejected before there is an array for them or
loaded to the end, and an entry that was rejected is not found again (`Completes`), each array
belongs to one entry and is filled (`Owned`), and closing the session frees all of them. A lookup
that does not meet this either faults, or returns an entry without symbols, or leaves an array that
is freed twice (`symbols_loaded_iff`).

## Loading the symbols of an entry

`initBfdFilemap` can fail at several places, which differ in what is left behind: nothing but the
mark, the mark and an array that is not filled, or the mark and one that was given back. `setBfd` is
the entry with mark and array replaced, and the first section computes with it.

## The invariant

`Owned` says that no two entries have the same array, and that the arrays of entries are allocated
and filled. It holds when a session is opened (`Opened.owned`), since then there are none. The step
lemma is about one lookup, and its converse says what a lookup that does not complete breaks.

## Closing the session

`mc_term_filemaps` walks the entries and gives the array of each back. Under `Owned` every array is
given back once, and none is left.
-/

namespace Memchk

namespace Filemaps

namespace BfdAnswers

/-- How much room the first array must have. -/
def storage (a : BfdAnswers) : ℤ :=
  if a.upperBound = 0 then a.dynamicUpperBound else a.upperBound

/-- How many symbols are stored in the first array. -/
def numStored (a : BfdAnswers) : ℤ :=
  if a.upperBound = 0 then a.dynamicNumSym else a.numSym

/-- The first array has stayed empty, and there are dynamic symbols to try. -/
def Retries (a : BfdAnswers) : Prop :=
  a.numStored = 0 ∧ a.upperBound ≠ 0 ∧ 0 < a.dynamicUpperBound

/-- There is an error before there is an array. -/
def Rejected (a : BfdAnswers) : Prop :=
  a.storage < 0 ∨ a.symbols = 0

/-- There is no error once there is an array. -/
def Loads (a : BfdAnswers) : Prop :=
  0 ≤ a.numStored ∧ (a.Retries → a.dynamicSymbols ≠ 0 ∧ 0 ≤ a.dynamicNumSym)

/-- The answers are such as `bfd_openr`, which succeeds, and `mc_orig_malloc` can give: what is
allocated is not allocated again. -/
def Possible (s : Filemaps) (a : BfdAnswers) : Prop :=
  a.abfd ≠ 0 ∧ (a.symbols = 0 ∨ s.symbolArrays a.symbols = none) ∧
    (a.dynamicSymbols = 0 ∨ a.dynamicSymbols = a.symbols ∨
      s.symbolArrays a.dynamicSymbols = none)

instance (a : BfdAnswers) : Decidable a.Retries :=
  inferInstanceAs (Decidable (_ ∧ _ ∧ _))

instance (s : Filemaps) (a : BfdAnswers) : Decidable (a.Possible s) :=
  inferInstanceAs (Decidable (_ ∧ _ ∧ _))

end BfdAnswers

/-- The symbols of an entry are there: the array is filled, and was not freed. -/
def Filled (i : ℕ) (s : Filemaps) : Prop :=
  s.symbolArrays (s.array i).symbols = some true

/-- The session can be closed: no array is freed twice, and none is left. -/
def Closes (s : Filemaps) : Prop :=
  ∃ s', s.mcTermFilemaps = some s' ∧ ∀ p, s'.symbolArrays p = none

/-- A session has just been opened. -/
structure Opened (s : Filemaps) : Prop where
  usageCnt : s.usageCnt = 1
  entryOk : ∀ i < s.cnt.toNat, s.EntryOk i
  blank : ∀ i < s.cnt.toNat, (s.array i).abfd = 0 ∧ (s.array i).symbols = 0
  symbolArrays : ∀ p, s.symbolArrays p = none

/-- Every array is filled and belongs to one entry, and an entry that is not marked has none. -/
structure Owned (s : Filemaps) : Prop where
  usageCnt : s.usageCnt = 1
  entryOk : ∀ i < s.cnt.toNat, s.EntryOk i
  unmarked : ∀ i < s.cnt.toNat, (s.array i).abfd = 0 → (s.array i).symbols = 0
  filled : ∀ i < s.cnt.toNat, (s.array i).symbols ≠ 0 → s.Filled i
  distinct : ∀ i < s.cnt.toNat, ∀ j < s.cnt.toNat, (s.array i).symbols = (s.array j).symbols →
    (s.array i).symbols ≠ 0 → i = j
  null : s.symbolArrays 0 = none
  owner : ∀ p, (s.symbolArrays p).isSome → ∃ i < s.cnt.toNat, (s.array i).symbols = p

end Filemaps

/-- What a lookup gives, if it does not fault: the entry it has found, if any, and the state. -/
abbrev LookupResult := Option (Option ℕ × Filemaps)

/-- The next lookup, with the answers it gets and the address. There are no lookups with answers
that cannot be given, and none but a fault after a fault. -/
def lookup (x : Filemaps.BfdAnswers × ℕ) : LookupResult → Option LookupResult
  | none => some none
  | some (_, s) =>
    if x.1.Possible s then some (s.mcFindAndInitBfdFilemap x.1 x.2) else none

namespace LookupResult

/-- The lookup has returned, an entry that it gives has its symbols, and the session can be
closed. -/
def AllOrNothing (r : LookupResult) : Prop :=
  ∃ found s, r = some (found, s) ∧ (∀ i ∈ found, s.Filled i) ∧ s.Closes

/-- If the entry that is found is not marked, its symbols are rejected or loaded to the end, and if
it is marked, it has symbols. -/
def Completes (r : LookupResult) (x : Filemaps.BfdAnswers × ℕ) : Prop :=
  match r with
  | none => True
  | some (_, s) => ∀ i, s.findLoop x.2 s.cnt.toNat 0 = some (some i) →
    if (s.array i).abfd = 0 then x.1.Rejected ∨ x.1.Loads else (s.array i).symbols ≠ 0

end LookupResult

namespace Filemaps

variable {s t : Filemaps} {a : BfdAnswers} {i : ℕ}

/-! ### Loading the symbols of an entry -/

/-- The state with other symbols for an entry. -/
def setBfd (i abfd symbols : ℕ) (symbolArrays : ℕ → Option Bool) (s : Filemaps) : Filemaps :=
  { s.modify i fun x ↦ { x with abfd := abfd, symbols := symbols } with symbolArrays :=
  symbolArrays }

section SetBfd

variable {abfd p : ℕ} {symbolArrays : ℕ → Option Bool}

@[simp] theorem setBfd_array_self :
    (s.setBfd i abfd p symbolArrays).array i = { s.array i with abfd := abfd, symbols := p } :=
  Function.update_self ..

@[simp] theorem setBfd_array_of_ne {k : ℕ} (h : k ≠ i) :
    (s.setBfd i abfd p symbolArrays).array k = s.array k :=
  Function.update_of_ne h ..

@[simp] theorem setBfd_symbolArrays : (s.setBfd i abfd p symbolArrays).symbolArrays =
  symbolArrays :=
  rfl

/-- An entry without symbols that is marked otherwise. -/
theorem modify_abfd (h : (s.array i).symbols = 0) :
    (s.modify i fun x ↦ { x with abfd := abfd }) = s.setBfd i abfd 0 s.symbolArrays := by
  simp only [setBfd, modify, ← h]

theorem mallocSymbols_setBfd (addr : ℕ) : (s.setBfd i abfd p symbolArrays).mallocSymbols i addr =
    s.setBfd i abfd addr
      (if addr = 0 then symbolArrays else Function.update symbolArrays addr (some false)) := by
  simp only [mallocSymbols, setBfd, modify, Function.update_idem, Function.update_self]

/-- Giving the array of an entry back. -/
theorem freeSymbols_setBfd (h : (symbolArrays p).isSome) :
    (s.setBfd i abfd p symbolArrays).freeSymbols i =
      some (s.setBfd i abfd p (Function.update symbolArrays p none)) := by
  have hsymbols : ((s.setBfd i abfd p symbolArrays).array i).symbols = p := by
    rw [setBfd_array_self]
  rw [freeSymbols, hsymbols]
  exact if_pos h

/-- Giving back an array that is not allocated is a fault. -/
theorem freeSymbols_setBfd_of_none (h : symbolArrays p = none) :
    (s.setBfd i abfd p symbolArrays).freeSymbols i = none := by
  have hsymbols : ((s.setBfd i abfd p symbolArrays).array i).symbols = p := by
    rw [setBfd_array_self]
  rw [freeSymbols, hsymbols]
  exact if_neg (by rw [setBfd_symbolArrays, h]; exact Bool.false_ne_true)

theorem canonicalize_of_neg {num : ℤ} (h : num < 0) : s.canonicalize i num = some s :=
  if_pos h

/-- Filling the array of an entry. -/
theorem canonicalize_setBfd {num : ℤ} (hnum : 0 ≤ num) (h : (symbolArrays p).isSome) :
    (s.setBfd i abfd p symbolArrays).canonicalize i num =
      some (s.setBfd i abfd p (Function.update symbolArrays p (some true))) := by
  have hsymbols : ((s.setBfd i abfd p symbolArrays).array i).symbols = p := by
    rw [setBfd_array_self]
  rw [canonicalize, hsymbols]
  simp only [if_neg (not_lt.2 hnum), setBfd_symbolArrays, h, if_true]
  rfl

/-- Filling an array that is not allocated is a fault. -/
theorem canonicalize_setBfd_of_none {num : ℤ} (hnum : 0 ≤ num) (h : symbolArrays p = none) :
    (s.setBfd i abfd p symbolArrays).canonicalize i num = none := by
  have hsymbols : ((s.setBfd i abfd p symbolArrays).array i).symbols = p := by
    rw [setBfd_array_self]
  rw [canonicalize, hsymbols]
  simp only [if_neg (not_lt.2 hnum), setBfd_symbolArrays, h, Option.isSome_none,
    Bool.false_eq_true, if_false]

end SetBfd

/-- Symbols that are rejected leave the entry marked. -/
theorem initBfdFilemap_of_rejected (h0 : (s.array i).symbols = 0) (h : a.Rejected) :
    s.initBfdFilemap a i = some (-1, s.setBfd i a.abfd 0 s.symbolArrays) := by
  rw [initBfdFilemap, modify_abfd h0]
  simp only [mallocSymbols_setBfd]
  rcases h with hstorage | hsymbols
  · rw [BfdAnswers.storage] at hstorage
    rw [if_pos hstorage]
    rfl
  · simp only [hsymbols, if_true]
    split_ifs <;> rfl

/-- What is done from where the first array is there. -/
theorem initBfdFilemap_of_array (h0 : (s.array i).symbols = 0) (h : ¬a.Rejected) :
    s.initBfdFilemap a i =
      ((s.setBfd i a.abfd a.symbols
          (Function.update s.symbolArrays a.symbols (some false))).canonicalize i
          a.numStored).bind fun t ↦
        if a.numStored < 0 then (t.freeSymbols i).bind fun t ↦ some (-1, t)
        else if a.Retries then
          (t.freeSymbols i).bind fun t ↦
            ((t.mallocSymbols i a.dynamicSymbols).canonicalize i a.dynamicNumSym).bind fun t ↦
              some (0, t)
        else some (0, t) := by
  obtain ⟨hstorage, hsymbols⟩ := not_or.1 h
  rw [BfdAnswers.storage] at hstorage
  rw [initBfdFilemap, modify_abfd h0]
  simp only [mallocSymbols_setBfd, if_neg hstorage, if_neg hsymbols]
  rfl

/-- An error while the symbols are stored leaves the array in the entry, though it is freed. -/
theorem initBfdFilemap_of_neg (h0 : (s.array i).symbols = 0) (h : ¬a.Rejected)
    (hlive : s.symbolArrays a.symbols = none) (hnum : a.numStored < 0) :
    s.initBfdFilemap a i = some (-1, s.setBfd i a.abfd a.symbols s.symbolArrays) := by
  rw [initBfdFilemap_of_array h0 h, canonicalize_of_neg hnum, Option.bind_some, if_pos hnum,
    freeSymbols_setBfd (by rw [Function.update_self]; rfl), Function.update_idem, ← hlive,
    Function.update_eq_self]
  rfl

/-- Without a second array, the first one is filled. -/
theorem initBfdFilemap_of_not_retries (h0 : (s.array i).symbols = 0) (h : ¬a.Rejected)
    (hnum : 0 ≤ a.numStored) (hretries : ¬a.Retries) : s.initBfdFilemap a i = some (0,
      s.setBfd i a.abfd a.symbols (Function.update s.symbolArrays a.symbols (some true))) := by
  rw [initBfdFilemap_of_array h0 h,
    canonicalize_setBfd hnum (by rw [Function.update_self]; rfl), Option.bind_some,
    if_neg (not_lt.2 hnum), if_neg hretries, Function.update_idem]

/-- With a second array, it is the only one. -/
theorem initBfdFilemap_of_retries (h0 : (s.array i).symbols = 0) (h : ¬a.Rejected)
    (hlive : s.symbolArrays a.symbols = none) (hretries : a.Retries) :
    s.initBfdFilemap a i = ((s.setBfd i a.abfd a.dynamicSymbols
      (if a.dynamicSymbols = 0 then s.symbolArrays
        else Function.update s.symbolArrays a.dynamicSymbols (some false))).canonicalize i
      a.dynamicNumSym).bind fun t ↦ some (0, t) := by
  have hnum : 0 ≤ a.numStored := hretries.1.ge
  rw [initBfdFilemap_of_array h0 h,
    canonicalize_setBfd hnum (by rw [Function.update_self]; rfl), Option.bind_some,
    if_neg (not_lt.2 hnum), if_pos hretries,
    freeSymbols_setBfd (by rw [Function.update_self]; rfl), Function.update_idem,
    Function.update_idem, ← hlive, Function.update_eq_self, Option.bind_some, mallocSymbols_setBfd]

/-- Symbols that are loaded are in a filled array that is not one of the others. -/
theorem initBfdFilemap_of_loads (h0 : (s.array i).symbols = 0) (h : ¬a.Rejected)
    (hp : a.Possible s) (hloads : a.Loads) :
    ∃ p, p ≠ 0 ∧ s.symbolArrays p = none ∧ s.initBfdFilemap a i =
      some (0, s.setBfd i a.abfd p (Function.update s.symbolArrays p (some true))) := by
  obtain ⟨-, hfirst, hsecond⟩ := hp
  have hne : a.symbols ≠ 0 := (not_or.1 h).2
  have hlive := hfirst.resolve_left hne
  by_cases hretries : a.Retries
  · obtain ⟨hne', hnum⟩ := hloads.2 hretries
    have hlive' : s.symbolArrays a.dynamicSymbols = none := by
      rcases hsecond.resolve_left hne' with heq | hlive'
      · rw [heq]
        exact hlive
      · exact hlive'
    refine ⟨a.dynamicSymbols, hne', hlive', ?_⟩
    rw [initBfdFilemap_of_retries h0 h hlive hretries, if_neg hne',
      canonicalize_setBfd hnum (by rw [Function.update_self]; rfl), Option.bind_some,
      Function.update_idem]
  · exact ⟨a.symbols, hne, hlive, initBfdFilemap_of_not_retries h0 h hloads.1 hretries⟩

/-- If the second array is missing or is not filled, there is a fault, or the entry is given all the
same. -/
theorem not_filled_of_not_loads (hnull : s.symbolArrays 0 = none) (h0 : (s.array i).symbols = 0)
    (h : ¬a.Rejected) (hp : a.Possible s) (hnum : 0 ≤ a.numStored) (hloads : ¬a.Loads) {ret : ℤ}
    (hinit : s.initBfdFilemap a i = some (ret, t)) : ret = 0 ∧ ¬t.Filled i := by
  have hlive := hp.2.1.resolve_left (not_or.1 h).2
  obtain ⟨hretries, hfail⟩ : a.Retries ∧ ¬(a.dynamicSymbols ≠ 0 ∧ 0 ≤ a.dynamicNumSym) := by
    by_contra hnot
    exact hloads ⟨hnum, fun hretries ↦ by_contra fun hfail ↦ hnot ⟨hretries, hfail⟩⟩
  rw [initBfdFilemap_of_retries h0 h hlive hretries] at hinit
  rcases lt_or_ge a.dynamicNumSym 0 with hneg | hpos
  · rw [canonicalize_of_neg hneg] at hinit
    obtain ⟨rfl, rfl⟩ := Prod.mk.inj (Option.some.inj hinit)
    refine ⟨rfl, ?_⟩
    rw [Filled, setBfd_array_self, setBfd_symbolArrays]
    split_ifs with hzero
    · rw [hzero, hnull]
      exact (Option.some_ne_none _).symm
    · rw [Function.update_self]
      exact fun hfilled ↦ Bool.false_ne_true (Option.some.inj hfilled)
  · have hzero : a.dynamicSymbols = 0 := by_contra fun hne ↦ hfail ⟨hne, hpos⟩
    rw [hzero, if_pos rfl, canonicalize_setBfd_of_none hpos hnull] at hinit
    cases hinit

/-! ### Closing the session -/

theorem termBfdFilemap_of_null (hok : s.EntryOk i) (h0 : (s.array i).symbols = 0) :
    s.termBfdFilemap i = some (s.setBfd i 0 0 s.symbolArrays) := by
  rw [termBfdFilemap, if_pos hok, modify_abfd h0]
  exact if_pos (by rw [setBfd_array_self])

/-- Closing an entry with symbols gives its array back. -/
theorem termBfdFilemap_of_ne_null (hok : s.EntryOk i) (h0 : (s.array i).symbols ≠ 0) :
    s.termBfdFilemap i = ((s.setBfd i 0 (s.array i).symbols s.symbolArrays).freeSymbols i).bind
      fun t ↦ some (t.modify i fun x ↦ { x with symbols := 0 }) := by
  have hmark : (s.modify i fun x ↦ { x with abfd := 0 }) =
      s.setBfd i 0 (s.array i).symbols s.symbolArrays := by
    simp only [setBfd, modify]
  have hsymbols : ((s.setBfd i 0 (s.array i).symbols s.symbolArrays).array i).symbols ≠ 0 := by
    rw [setBfd_array_self]
    exact h0
  rw [termBfdFilemap, if_pos hok, hmark]
  exact if_neg hsymbols

theorem termBfdFilemap_of_live (hok : s.EntryOk i) (h0 : (s.array i).symbols ≠ 0)
    (hlive : (s.symbolArrays (s.array i).symbols).isSome) : s.termBfdFilemap i =
      some (s.setBfd i 0 0 (Function.update s.symbolArrays (s.array i).symbols none)) := by
  rw [termBfdFilemap_of_ne_null hok h0, freeSymbols_setBfd hlive, Option.bind_some]
  simp only [setBfd, modify, Function.update_idem, Function.update_self]

/-- An array that is not allocated is not freed. -/
theorem termBfdFilemap_of_dead (h0 : (s.array i).symbols ≠ 0)
    (hdead : s.symbolArrays (s.array i).symbols = none) : s.termBfdFilemap i = none := by
  by_cases hok : s.EntryOk i
  · rw [termBfdFilemap_of_ne_null hok h0, freeSymbols_setBfd_of_none hdead, Option.bind_none]
  · exact if_neg hok

/-- Closing an entry changes no other entry, and allocates nothing. -/
theorem termBfdFilemap_frame (h : s.termBfdFilemap i = some t) :
    (∀ k, k ≠ i → t.array k = s.array k) ∧
      ∀ p, s.symbolArrays p = none → t.symbolArrays p = none := by
  have hok : s.EntryOk i := by
    by_contra hok
    rw [termBfdFilemap, if_neg hok] at h
    cases h
  rcases eq_or_ne (s.array i).symbols 0 with h0 | h0
  · rw [termBfdFilemap_of_null hok h0] at h
    obtain rfl := Option.some.inj h
    exact ⟨fun k hk ↦ setBfd_array_of_ne hk, fun p hp ↦ hp⟩
  · cases hlive : s.symbolArrays (s.array i).symbols with
    | none =>
      rw [termBfdFilemap_of_dead h0 hlive] at h
      cases h
    | some filled =>
      rw [termBfdFilemap_of_live hok h0 (by rw [hlive]; rfl)] at h
      obtain rfl := Option.some.inj h
      refine ⟨fun k hk ↦ setBfd_array_of_ne hk, fun p hp ↦ ?_⟩
      rw [setBfd_symbolArrays]
      rcases eq_or_ne p (s.array i).symbols with rfl | hne
      · exact Function.update_self ..
      · rw [Function.update_of_ne hne]
        exact hp

/-- An entry whose array is not allocated stops the closing of the entries. -/
theorem termBfdLoop_of_dead {is : List ℕ} (hi : i ∈ is) (h0 : (s.array i).symbols ≠ 0)
    (hdead : s.symbolArrays (s.array i).symbols = none) : is.foldlM termBfdFilemap s = none := by
  induction is generalizing s with
  | nil => cases hi
  | cons k is ih =>
    rw [List.foldlM_cons]
    rcases eq_or_ne i k with rfl | hne
    · rw [termBfdFilemap_of_dead h0 hdead]
      rfl
    · cases hone : s.termBfdFilemap k with
      | none => rfl
      | some t =>
        obtain ⟨harray, harrays⟩ := termBfdFilemap_frame hone
        have hsame : t.array i = s.array i := harray i hne
        refine ih ((List.mem_cons.1 hi).resolve_left hne) ?_ ?_
        · rw [hsame]
          exact h0
        · rw [hsame]
          exact harrays _ hdead

/-- An entry with an array that is allocated, or with none, is closed. -/
theorem termBfdFilemap_of_owned (hok : s.EntryOk i) (hnull : s.symbolArrays 0 = none)
    (hlive : (s.array i).symbols ≠ 0 → (s.symbolArrays (s.array i).symbols).isSome) :
    s.termBfdFilemap i =
      some (s.setBfd i 0 0 (Function.update s.symbolArrays (s.array i).symbols none)) := by
  rcases eq_or_ne (s.array i).symbols 0 with h0 | h0
  · rw [termBfdFilemap_of_null hok h0, h0, ← hnull, Function.update_eq_self]
  · exact termBfdFilemap_of_live hok h0 (hlive h0)

/-- Entries that own the allocated arrays are closed one by one, and no array is left. -/
theorem termBfdLoop_of_owned {is : List ℕ} (hnodup : is.Nodup) (hok : ∀ i ∈ is, s.EntryOk i)
    (hnull : s.symbolArrays 0 = none)
    (hlive : ∀ i ∈ is, (s.array i).symbols ≠ 0 → (s.symbolArrays (s.array i).symbols).isSome)
    (hdistinct : ∀ i ∈ is, ∀ j ∈ is, (s.array i).symbols = (s.array j).symbols →
      (s.array i).symbols ≠ 0 → i = j)
    (howner : ∀ p, (s.symbolArrays p).isSome → ∃ i ∈ is, (s.array i).symbols = p) :
    ∃ t, is.foldlM termBfdFilemap s = some t ∧ ∀ p, t.symbolArrays p = none := by
  induction is generalizing s with
  | nil =>
    refine ⟨s, rfl, fun p ↦ ?_⟩
    by_contra hne
    obtain ⟨i, hi, -⟩ := howner p (Option.ne_none_iff_isSome.1 hne)
    cases hi
  | cons k is ih =>
    rw [List.nodup_cons] at hnodup
    rw [List.forall_mem_cons] at hok hlive
    rw [List.foldlM_cons, termBfdFilemap_of_owned hok.1 hnull hlive.1]
    -- the other entries do not change, nor do their arrays
    have hother : ∀ i ∈ is, (s.setBfd k 0 0
        (Function.update s.symbolArrays (s.array k).symbols none)).array i = s.array i :=
      fun i hi ↦ setBfd_array_of_ne fun hik ↦ hnodup.1 (hik ▸ hi)
    refine ih hnodup.2 hok.2 ?_ (fun i hi h0 ↦ ?_) (fun i hi j hj hsymbols h0 ↦ ?_) fun p hp ↦ ?_
    · rw [setBfd_symbolArrays, Function.update_apply, hnull, ite_self]
    · rw [hother i hi] at h0 ⊢
      have hne : (s.array i).symbols ≠ (s.array k).symbols := fun heq ↦
        hnodup.1 (hdistinct i (List.mem_cons_of_mem _ hi) k List.mem_cons_self heq h0 ▸ hi)
      rw [setBfd_symbolArrays, Function.update_of_ne hne]
      exact hlive.2 i hi h0
    · rw [hother i hi] at h0 hsymbols
      rw [hother j hj] at hsymbols
      exact hdistinct i (List.mem_cons_of_mem _ hi) j (List.mem_cons_of_mem _ hj) hsymbols h0
    · rw [setBfd_symbolArrays, Function.update_apply] at hp
      split_ifs at hp with heq
      · cases hp
      · obtain ⟨i, hi, hsymbols⟩ := howner p hp
        have hi' : i ∈ is := (List.mem_cons.1 hi).resolve_left fun hik ↦
          heq (hik ▸ hsymbols.symm)
        exact ⟨i, hi', by rw [hother i hi', hsymbols]⟩

/-- The entry whose array is not allocated keeps the session from being closed. -/
theorem not_closes_of_dead (husage : s.usageCnt = 1) (hi : i < s.cnt.toNat)
    (h0 : (s.array i).symbols ≠ 0) (hdead : s.symbolArrays (s.array i).symbols = none) :
    ¬s.Closes := by
  rintro ⟨s', hterm, -⟩
  rw [mcTermFilemaps] at hterm
  simp only [husage, sub_self, if_true] at hterm
  have hnone : (List.range s.cnt.toNat).foldlM termBfdFilemap { s with usageCnt := 0 } = none :=
    termBfdLoop_of_dead (List.mem_range.2 hi) h0 hdead
  rw [hnone] at hterm
  cases hterm

namespace Owned

/-- The session can be closed. -/
theorem closes (h : s.Owned) : s.Closes := by
  have hloop : ∃ t, (List.range s.cnt.toNat).foldlM termBfdFilemap { s with usageCnt := 0 } =
      some t ∧ ∀ p, t.symbolArrays p = none := by
    refine termBfdLoop_of_owned List.nodup_range (fun i hi ↦ h.entryOk i (List.mem_range.1 hi))
      h.null (fun i hi h0 ↦ ?_) (fun i hi j hj ↦ ?_) fun p hp ↦ ?_
    · have hfilled : s.symbolArrays (s.array i).symbols = some true :=
        h.filled i (List.mem_range.1 hi) h0
      show (s.symbolArrays (s.array i).symbols).isSome
      rw [hfilled]
      rfl
    · exact h.distinct i (List.mem_range.1 hi) j (List.mem_range.1 hj)
    · obtain ⟨i, hi, hsymbols⟩ := h.owner p hp
      exact ⟨i, List.mem_range.2 hi, hsymbols⟩
  obtain ⟨t, hloop, hfree⟩ := hloop
  refine ⟨t.munmap, ?_, hfree⟩
  rw [mcTermFilemaps]
  simp only [h.usageCnt, sub_self, if_true]
  rw [hloop]
  rfl

/-- An entry has its symbols exactly if it has an array. -/
theorem filled_iff (h : s.Owned) (hi : i < s.cnt.toNat) : s.Filled i ↔ (s.array i).symbols ≠ 0 := by
  refine ⟨fun hfilled h0 ↦ ?_, h.filled i hi⟩
  rw [Filled, h0, h.null] at hfilled
  cases hfilled

/-- An array that is not allocated is in no entry. -/
theorem ne_of_none (h : s.Owned) (hi : i < s.cnt.toNat) (h0 : (s.array i).symbols ≠ 0) {p : ℕ}
    (hp : p ≠ 0 → s.symbolArrays p = none) : (s.array i).symbols ≠ p := by
  rintro rfl
  have hfilled : s.symbolArrays (s.array i).symbols = some true := h.filled i hi h0
  rw [hp h0] at hfilled
  cases hfilled

/-- An entry without symbols is marked, and gets a new array that is filled, or none. -/
theorem setBfd (h : s.Owned) (hi : i < s.cnt.toNat) (h0 : (s.array i).symbols = 0) {abfd p : ℕ}
    (habfd : abfd ≠ 0) {symbolArrays : ℕ → Option Bool} (hnull : symbolArrays 0 = none)
    (hnew : p ≠ 0 → s.symbolArrays p = none ∧ symbolArrays p = some true)
    (hother : ∀ q, q ≠ p → symbolArrays q = s.symbolArrays q) :
    (s.setBfd i abfd p symbolArrays).Owned where
  usageCnt := h.usageCnt
  entryOk := h.entryOk
  null := hnull
  unmarked k hk hmark := by
    rcases eq_or_ne k i with rfl | hki
    · rw [setBfd_array_self] at hmark
      exact absurd hmark habfd
    · rw [setBfd_array_of_ne hki] at hmark ⊢
      exact h.unmarked k hk hmark
  filled k hk hne := by
    rw [Filled, setBfd_symbolArrays]
    rcases eq_or_ne k i with rfl | hki
    · rw [setBfd_array_self] at hne ⊢
      exact (hnew hne).2
    · rw [setBfd_array_of_ne hki] at hne ⊢
      rw [hother _ (h.ne_of_none hk hne fun hp ↦ (hnew hp).1)]
      exact h.filled k hk hne
  distinct k hk j hj heq hne := by
    rcases eq_or_ne k i with rfl | hki <;> rcases eq_or_ne j k with rfl | hjk
    · rfl
    · rw [setBfd_array_self, setBfd_array_of_ne hjk] at heq
      rw [setBfd_array_self] at hne
      exact absurd heq.symm (h.ne_of_none hj (heq ▸ hne) fun hp ↦ (hnew hp).1)
    · rfl
    · rw [setBfd_array_of_ne hki] at heq hne
      rcases eq_or_ne j i with rfl | hji
      · rw [setBfd_array_self] at heq
        exact absurd heq (h.ne_of_none hk hne fun hp ↦ (hnew hp).1)
      · rw [setBfd_array_of_ne hji] at heq
        exact h.distinct k hk j hj heq hne
  owner q hq := by
    rw [setBfd_symbolArrays] at hq
    rcases eq_or_ne q p with rfl | hqp
    · exact ⟨i, hi, by rw [setBfd_array_self]⟩
    · rw [hother q hqp] at hq
      obtain ⟨k, hk, hsymbols⟩ := h.owner q hq
      have hki : k ≠ i := by
        rintro rfl
        rw [← hsymbols, h0, h.null] at hq
        cases hq
      exact ⟨k, hk, by rw [setBfd_array_of_ne hki, hsymbols]⟩

end Owned

/-- When a session is opened no entry has symbols. -/
theorem Opened.owned (h : s.Opened) : s.Owned where
  usageCnt := h.usageCnt
  entryOk := h.entryOk
  unmarked i hi _ := (h.blank i hi).2
  filled i hi hne := absurd (h.blank i hi).2 hne
  distinct i hi j hj _ hne := absurd (h.blank i hi).2 hne
  null := h.symbolArrays 0
  owner p hp := by
    rw [h.symbolArrays p] at hp
    cases hp

/-- An `init` with no session open and no arrays of symbols opens one. -/
theorem opened_of_initFilemaps (h0 : s.usageCnt = 0) (harrays : ∀ p, s.symbolArrays p = none)
    {addr : ℕ} {text₁ text₂ : List Char} {v : ScanVars} {ret : ℤ}
    (hinit : s.initFilemaps (some addr) text₁ text₂ v = some (ret, t)) : t.Opened := by
  rcases initFilemaps_cases hinit with ⟨hne, -⟩ | ⟨-, hnone, -⟩ |
    ⟨-, addr', haddr, -, heq, hfit, hblank⟩
  · exact absurd h0 hne
  · cases hnone
  · refine ⟨by rw [heq], fun i hi ↦ ?_, fun i _ ↦ hblank i, fun p ↦ ?_⟩
    · have hmapping : t.mapping = some (addr', t.size) := by rw [heq]
      have hfilemap : t.filemap = addr' := by rw [heq]
      exact ⟨_, hmapping, hfilemap.symm, (Nat.mul_le_mul_left _ hi).trans hfit⟩
    · rw [heq]
      exact harrays p

/-! ### One lookup -/

/-- The loop of `mc_find_and_init_bfd_filemap` returns if all entries are mapped. -/
theorem findLoop_spec (addr : ℕ) {rounds : ℕ} (hok : ∀ k < i + rounds, s.EntryOk k) :
    ∃ found, s.findLoop addr rounds i = some found ∧ ∀ k ∈ found, k < i + rounds := by
  induction rounds generalizing i with
  | zero => exact ⟨none, rfl, fun k hk ↦ by cases hk⟩
  | succ rounds ih =>
    rw [findLoop, if_pos (hok i (by omega))]
    split_ifs
    · refine ⟨some i, rfl, fun k hk ↦ ?_⟩
      obtain rfl := Option.some.inj hk
      omega
    · obtain ⟨found, hloop, hlt⟩ := ih (i := i + 1) fun k hk ↦ hok k (by omega)
      exact ⟨found, hloop, fun k hk ↦ by have := hlt k hk; omega⟩

/-- What a lookup gives after `__init_bfd_filemap`. -/
def given (i : ℕ) (x : ℤ × Filemaps) : Option ℕ × Filemaps :=
  (if x.1 < 0 then none else some i, x.2)

theorem given_neg : given i (-1, s) = (none, s) :=
  rfl

theorem given_zero : given i (0, s) = (some i, s) :=
  rfl

section Lookup

variable {addr : ℕ}

theorem mcFind_of_none (hfind : s.findLoop addr s.cnt.toNat 0 = some none) :
    s.mcFindAndInitBfdFilemap a addr = some (none, s) := by
  rw [mcFindAndInitBfdFilemap, hfind]
  rfl

theorem mcFind_of_marked (hfind : s.findLoop addr s.cnt.toNat 0 = some (some i))
    (hmark : (s.array i).abfd ≠ 0) : s.mcFindAndInitBfdFilemap a addr = some (some i, s) := by
  rw [mcFindAndInitBfdFilemap, hfind]
  exact if_neg hmark

/-- An entry without the mark is returned once its symbols are loaded. -/
theorem mcFind_of_unmarked (hfind : s.findLoop addr s.cnt.toNat 0 = some (some i))
    (hmark : (s.array i).abfd = 0) :
    s.mcFindAndInitBfdFilemap a addr = (s.initBfdFilemap a i).map (given i) := by
  rw [mcFindAndInitBfdFilemap, hfind]
  refine (if_pos hmark).trans ?_
  cases s.initBfdFilemap a i <;> rfl

/-- The first lookup of an entry is all or nothing exactly if the symbols are rejected or loaded,
and then keeps the invariant. -/
theorem Owned.init_allOrNothing_iff (h : s.Owned) (hp : a.Possible s) (hi : i < s.cnt.toNat)
    (h0 : (s.array i).symbols = 0) :
    (LookupResult.AllOrNothing ((s.initBfdFilemap a i).map (given i)) ↔ a.Rejected ∨ a.Loads) ∧
    (a.Rejected ∨ a.Loads →
      ∃ found t, t.Owned ∧ (s.initBfdFilemap a i).map (given i) = some (found, t)) := by
  by_cases hrejected : a.Rejected
  · have howned : (s.setBfd i a.abfd 0 s.symbolArrays).Owned :=
      h.setBfd hi h0 hp.1 h.null (fun hne ↦ absurd rfl hne) fun _ _ ↦ rfl
    rw [initBfdFilemap_of_rejected h0 hrejected, Option.map_some, given_neg]
    refine ⟨iff_of_true ⟨none, _, rfl, fun k hk ↦ ?_, howned.closes⟩ (.inl hrejected),
      fun _ ↦ ⟨none, _, howned, rfl⟩⟩
    cases hk
  · simp only [hrejected, false_or]
    rcases lt_or_ge a.numStored 0 with hneg | hnum
    · -- the array stays in the entry
      have hne : a.symbols ≠ 0 := (not_or.1 hrejected).2
      have hlive := hp.2.1.resolve_left hne
      have hloads : ¬a.Loads := fun hloads ↦ absurd hloads.1 (not_le.2 hneg)
      rw [initBfdFilemap_of_neg h0 hrejected hlive hneg, Option.map_some, given_neg]
      refine ⟨iff_of_false ?_ hloads, fun hloads' ↦ absurd hloads' hloads⟩
      rintro ⟨found, t, heq, -, hcloses⟩
      obtain ⟨-, rfl⟩ := Prod.mk.inj (Option.some.inj heq)
      have hne' : ((s.setBfd i a.abfd a.symbols s.symbolArrays).array i).symbols ≠ 0 := by
        rw [setBfd_array_self]
        exact hne
      refine not_closes_of_dead ?_ ?_ hne' ?_ hcloses
      · exact h.usageCnt
      · exact hi
      · rw [setBfd_array_self]
        exact hlive
    · by_cases hloads : a.Loads
      · obtain ⟨p, hne, hlive, hinit⟩ := initBfdFilemap_of_loads h0 hrejected hp hloads
        have hnull : Function.update s.symbolArrays p (some true) 0 = none := by
          rw [Function.update_of_ne hne.symm]
          exact h.null
        have howned := h.setBfd hi h0 hp.1 hnull (fun _ ↦ ⟨hlive, Function.update_self ..⟩)
          fun q hq ↦ Function.update_of_ne hq ..
        rw [hinit, Option.map_some, given_zero]
        refine ⟨iff_of_true ⟨some i, _, rfl, fun k hk ↦ ?_, howned.closes⟩ hloads,
          fun _ ↦ ⟨some i, _, howned, rfl⟩⟩
        obtain rfl := Option.some.inj hk
        rw [howned.filled_iff hi, setBfd_array_self]
        exact hne
      · refine ⟨iff_of_false ?_ hloads, fun hloads' ↦ absurd hloads' hloads⟩
        rintro ⟨found, t, heq, hfilled, -⟩
        obtain ⟨⟨ret, t'⟩, hinit, heq⟩ := Option.map_eq_some_iff.1 heq
        obtain ⟨rfl, hnot⟩ :=
          not_filled_of_not_loads h.null h0 hrejected hp hnum hloads hinit
        obtain ⟨rfl, rfl⟩ := Prod.mk.inj heq
        exact hnot (hfilled i rfl)

/-- A lookup is all or nothing exactly if it completes, and then keeps the invariant. -/
theorem Owned.lookup_allOrNothing_iff (h : s.Owned) (hp : a.Possible s) (found : Option ℕ) :
    (LookupResult.AllOrNothing (s.mcFindAndInitBfdFilemap a addr) ↔
      LookupResult.Completes (some (found, s)) (a, addr)) ∧
    (LookupResult.Completes (some (found, s)) (a, addr) →
      ∃ found' t, t.Owned ∧ s.mcFindAndInitBfdFilemap a addr = some (found', t)) := by
  have hok : ∀ k < 0 + s.cnt.toNat, s.EntryOk k := fun k hk ↦ h.entryOk k (by omega)
  obtain ⟨r, hfind, hlt⟩ := findLoop_spec addr hok
  have hcompletes : LookupResult.Completes (some (found, s)) (a, addr) ↔ ∀ i ∈ r,
      if (s.array i).abfd = 0 then a.Rejected ∨ a.Loads else (s.array i).symbols ≠ 0 := by
    simp only [LookupResult.Completes, hfind, Option.some.injEq, Option.mem_def]
  rw [hcompletes]
  cases r with
  | none =>
    rw [mcFind_of_none hfind]
    refine ⟨iff_of_true ⟨none, s, rfl, fun k hk ↦ ?_, h.closes⟩ fun k hk ↦ ?_,
      fun _ ↦ ⟨none, s, h, rfl⟩⟩ <;> cases hk
  | some i =>
    have hi : i < s.cnt.toNat := by
      have := hlt i rfl
      omega
    simp only [Option.mem_def, Option.some.injEq, forall_eq']
    by_cases hmark : (s.array i).abfd = 0
    · rw [if_pos hmark, mcFind_of_unmarked hfind hmark]
      exact h.init_allOrNothing_iff hp hi (h.unmarked i hi hmark)
    · rw [if_neg hmark, mcFind_of_marked hfind hmark, ← h.filled_iff hi]
      refine ⟨⟨?_, fun hfilled ↦ ⟨some i, s, rfl, fun k hk ↦ ?_, h.closes⟩⟩,
        fun _ ↦ ⟨some i, s, h, rfl⟩⟩
      · rintro ⟨found, t, heq, hfilled, -⟩
        obtain ⟨rfl, rfl⟩ := Prod.mk.inj (Option.some.inj heq)
        exact hfilled i rfl
      · obtain rfl := Option.some.inj hk
        exact hfilled

end Lookup

end Filemaps

/-! ### A session -/

/-- In every sequence of lookups in a session, whatever `libbfd` and `mc_orig_malloc` answer, every
lookup gives only an entry that has its symbols, and leaves a session that frees every array once
when it is closed, exactly if every lookup completes. -/
theorem symbols_loaded_iff {s : Filemaps} (h : s.Opened)
    (lookups : List (Filemaps.BfdAnswers × ℕ)) :
    (s.Closes ∧ ∀ x ∈ steps lookup lookups (some (none, s)), x.2.2.AllOrNothing) ↔
      ∀ x ∈ steps lookup lookups (some (none, s)), x.1.Completes x.2.1 := by
  have hstep : ∀ (r : LookupResult) (x : Filemaps.BfdAnswers × ℕ) (r' : LookupResult),
      (∃ found t, t.Owned ∧ r = some (found, t)) → lookup x r = some r' →
      (r'.AllOrNothing ↔ r.Completes x) ∧
        (r'.AllOrNothing → ∃ found t, t.Owned ∧ r' = some (found, t)) := by
    rintro r ⟨a, addr⟩ r' ⟨found, t, howned, rfl⟩ hlookup
    rw [lookup] at hlookup
    split_ifs at hlookup with hp
    obtain rfl := Option.some.inj hlookup
    obtain ⟨hiff, hkeep⟩ := howned.lookup_allOrNothing_iff hp found
    exact ⟨hiff, fun hall ↦ hkeep (hiff.1 hall)⟩
  rw [and_iff_right h.owned.closes]
  exact forall_steps_iff hstep lookups ⟨none, s, h.owned, rfl⟩

/-- A session for the file with the one mapping `MapsLine.named`. -/
theorem Filemaps.exists_opened : ∃ s, Filemaps.start.initFilemaps (some 65536)
    (mapsText [.named]) (mapsText [.named]) .zero = some (0, s) ∧ s.Opened ∧ s.cnt = 1 ∧
      (s.array 0).startAddr ≤ 4194304 ∧ 4194304 < (s.array 0).endAddr := by
  have hclean : Clean .zero [.named] := by
    intro before l after heq _ hpath
    have hmem : l ∈ [MapsLine.named] := heq ▸ List.mem_append_right _ List.mem_cons_self
    obtain rfl := List.mem_singleton.1 hmem
    cases hpath
  obtain ⟨s, hinit, hcnt, hshows⟩ := parsed_of_clean (s := Filemaps.start) rfl 65536
    (List.forall_mem_singleton.2 MapsLine.plain_named) (by decide) hclean
  have hshow := hshows 0 .named rfl
  refine ⟨s, hinit, opened_of_initFilemaps rfl (fun _ ↦ rfl) hinit, hcnt, ?_, ?_⟩
  · rw [hshow.startAddr]
    decide
  · rw [hshow.endAddr]
    decide

/-- `libbfd` finds one symbol, and the array for it is at `addr`. -/
def Filemaps.BfdAnswers.oneSymbol (addr : ℕ) : BfdAnswers :=
  ⟨1, 8, 0, addr, 1, 0, 0⟩

/-- Answers that let the symbols be loaded. -/
theorem Filemaps.BfdAnswers.loads_oneSymbol (addr : ℕ) : (oneSymbol addr).Loads := by
  have hnum : (oneSymbol addr).numStored = 1 := rfl
  refine ⟨?_, fun hretries ↦ absurd (hnum.symm.trans hretries.1) (by decide)⟩
  rw [hnum]
  decide

/-- The first lookup in such a session gives the entry an array of symbols. -/
theorem Filemaps.Opened.exists_lookup {s : Filemaps} (h : s.Opened) {addr i : ℕ}
    (hfind : s.findLoop addr s.cnt.toNat 0 = some (some i)) (hi : i < s.cnt.toNat) :
    ∃ t : Filemaps, lookup (.oneSymbol 4096, addr) (some (none, s)) = some (some (some i, t)) ∧
      t.cnt = s.cnt ∧ (t.array i).symbols ≠ 0 := by
  have hpossible : (BfdAnswers.oneSymbol 4096).Possible s :=
    ⟨by decide, .inr (h.symbolArrays _), .inl rfl⟩
  have hrejected : ¬(BfdAnswers.oneSymbol 4096).Rejected := by
    rintro (hneg | hnull)
    · exact absurd hneg (by decide)
    · exact absurd hnull (by decide)
  obtain ⟨p, hne, -, hbfd⟩ := initBfdFilemap_of_loads (h.blank i hi).2 hrejected hpossible
    (BfdAnswers.loads_oneSymbol 4096)
  refine ⟨s.setBfd i 1 p (Function.update s.symbolArrays p (some true)), ?_, rfl, ?_⟩
  · rw [lookup, if_pos hpossible, mcFind_of_unmarked hfind (h.blank i hi).1, hbfd, Option.map_some,
      given_zero]
    rfl
  · rw [setBfd_array_self]
    exact hne

/-- In this session the symbols are loaded at the first lookup, and there at the second. -/
theorem symbols_loaded_iff_named : ∃ s, Filemaps.start.initFilemaps (some 65536)
    (mapsText [.named]) (mapsText [.named]) .zero = some (0, s) ∧
      s.findLoop 4194304 s.cnt.toNat 0 = some (some 0) ∧ s.Closes ∧ ∀ x ∈ steps lookup
        [(.oneSymbol 4096, 4194304), (.oneSymbol 8192, 4194304)] (some (none, s)),
        x.2.2.AllOrNothing := by
  obtain ⟨s, hinit, h, hcnt, hstart, hend⟩ := Filemaps.exists_opened
  have h0 : 0 < s.cnt.toNat := by
    rw [hcnt]
    decide
  have hfind : s.findLoop 4194304 s.cnt.toNat 0 = some (some 0) := by
    rw [hcnt]
    show (if s.EntryOk 0 then _ else _) = _
    rw [if_pos (h.entryOk 0 h0), if_pos ⟨hstart, hend⟩]
  obtain ⟨t, hlookup, hcnt', hsymbols⟩ := h.exists_lookup hfind h0
  refine ⟨s, hinit, hfind, (symbols_loaded_iff h _).2 fun x hx ↦ ?_⟩
  rw [steps_cons_of_some hlookup] at hx
  rcases List.mem_cons.1 hx with rfl | hx
  · -- the first lookup loads the symbols
    intro i hi
    obtain rfl : 0 = i := Option.some.inj (Option.some.inj (hfind.symm.trans hi))
    rw [if_pos (h.blank 0 h0).1]
    exact .inr (Filemaps.BfdAnswers.loads_oneSymbol 4096)
  · -- the second finds the same entry
    have hcompletes : LookupResult.Completes (some (some 0, t)) (.oneSymbol 8192, 4194304) := by
      intro i hi
      rw [hcnt', hcnt] at hi
      have hzero : i = 0 := by
        rw [show Int.toNat 1 = 0 + 1 from rfl, Filemaps.findLoop] at hi
        split_ifs at hi
        · exact (Option.some.inj (Option.some.inj hi)).symm
        · cases hi
      subst hzero
      split_ifs
      · exact .inr (Filemaps.BfdAnswers.loads_oneSymbol 8192)
      · exact hsymbols
    cases hsecond : lookup (.oneSymbol 8192, 4194304) (some (some 0, t)) with
    | none =>
      rw [steps_cons_of_none hsecond] at hx
      cases hx
    | some r =>
      rw [steps_cons_of_some hsecond] at hx
      obtain rfl := List.mem_singleton.1 hx
      exact hcompletes

/-- A session with one entry, for the addresses from 4194304 to 4198400. -/
def Filemaps.oneEntry : Filemaps :=
  { Filemaps.start with
    filemap := 65536
    cnt := 1
    usageCnt := 1
    size := 4096
    array := fun _ ↦ ⟨4194304, 4198400, 0, fun _ ↦ '\x00', 0, 0⟩
    mapping := some (65536, 4096)
    events := [.mapped 65536 4096] }

/-- A session with one entry that was just opened. -/
theorem Filemaps.opened_oneEntry : Filemaps.oneEntry.Opened :=
  ⟨rfl, fun i hi ↦ ⟨_, rfl, rfl, by
    obtain rfl : i = 0 := Nat.lt_one_iff.1 hi
    show 296 * (0 + 1) ≤ 4096
    decide⟩, fun _ _ ↦ ⟨rfl, rfl⟩, fun _ ↦ rfl⟩

/-- There is no symbol table at the first lookup. The second lookup gives the entry all the same. -/
theorem not_symbols_loaded : Filemaps.oneEntry.Opened ∧
    ¬(Filemaps.oneEntry.Closes ∧ ∀ x ∈ steps lookup
      [(⟨1, -1, 0, 4096, 0, 0, 0⟩, 4194304), (⟨1, -1, 0, 4096, 0, 0, 0⟩, 4194304)]
      (some (none, Filemaps.oneEntry)), x.2.2.AllOrNothing) := by
  refine ⟨Filemaps.opened_oneEntry, ?_⟩
  rintro ⟨-, h⟩
  obtain ⟨found, s, heq, hfilled, -⟩ := h (_, _, _) (List.mem_cons_of_mem _ List.mem_cons_self)
  obtain ⟨rfl, rfl⟩ := Prod.mk.inj (Option.some.inj heq)
  exact Option.some_ne_none _ (hfilled 0 rfl).symm

end Memchk
