import Memchk.Filemap.Basic

/-!
# What the entries say

Every entry is filled from the fields of one line, except that its name is what the buffer of the
path holds: the last path read so far, or what the buffer held at the start (`pathBuffer`). A line
of an executable mapping without a path therefore gets the name of another mapping, unless there was
no path before it (`Clean`).

## Names

`sscanf` stores the fields of a line into local buffers that outlive the line. For the path that is
visible: an anonymous line has no word for it and leaves the buffer alone. `pathBuffer g lines` is
what the buffer holds behind the lines, starting with `g`, and `entries g lines` are the executable
lines, each with the buffer at that moment.

A name is stored with `strncpy` and a limit, and cut at the limit if it is longer. The last
character of an entry is zero from the start, since the array is mapped and not allocated, so every
name is a string.

## Main results

* `filemaps_parsed_iff`: for every list of lines whose executable ones can be counted, the array
  says of each of them what the line says, if and only if the lines are `Clean`.
* `not_filemaps_parsed`: an anonymous executable mapping behind a named one, with the name of that.
-/

namespace Memchk

open Filemaps

/-- The buffer of the path after some lines, if it held `g` before. -/
def pathBuffer (g : List Char) (lines : List MapsLine) : List Char :=
  lines.foldl (fun g l ↦ (l.path.map MapsPath.word).getD g) g

/-- The entries for the executable mappings: the line, and what the buffer of the path holds when it
is read. -/
def entries : List Char → List MapsLine → List (MapsLine × List Char)
  | _, [] => []
  | g, l :: lines =>
    if isExecutable l.perm then (l, pathBuffer g [l]) :: entries (pathBuffer g [l]) lines
    else entries (pathBuffer g [l]) lines

/-- The entry says what the line says, and has the name. -/
structure Filemap.Shows (x : Filemap) (l : MapsLine) (name : List Char) : Prop where
  startAddr : x.startAddr = l.startAddr.value
  endAddr : x.endAddr = l.endAddr.value
  fileOffset : x.fileOffset = l.offset.value
  name : getString maxFilemapnameLen x.name = name

/-- The array has one entry for every line of an executable mapping, in the order of the lines, and
each says what its line says. -/
def Parsed (lines : List MapsLine) (r : Option (ℤ × Filemaps)) : Prop :=
  ∃ s, r = some (0, s) ∧ s.cnt = (qualifying isExecutable lines).length ∧
    ∀ i l, (qualifying isExecutable lines)[i]? = some l → (s.array i).Shows l l.name

/-- No executable mapping without a path comes behind a line with a path, and if there is one, then
`cfile` holds the empty string from the start. -/
def Clean (v : ScanVars) (lines : List MapsLine) : Prop :=
  ∀ before l after, lines = before ++ l :: after → isExecutable l.perm = true → l.path = none →
    (∀ m ∈ before, m.path = none) ∧ v.cfile 0 = '\x00'

/-! ### Names -/

section Names

variable {g : List Char} {lines : List MapsLine} {l : MapsLine} {name : List Char}

theorem onPerms_isExecutable : OnPerms isExecutable := fun _ _ h ↦ by
  rw [isExecutable, isExecutable, h 2 (by decide)]

theorem pathBuffer_cons : pathBuffer g (l :: lines) = pathBuffer (pathBuffer g [l]) lines :=
  rfl

/-- The entries are those of the executable lines. -/
theorem map_fst_entries (g : List Char) (lines : List MapsLine) :
    (entries g lines).map Prod.fst = qualifying isExecutable lines := by
  induction lines generalizing g with
  | nil => rfl
  | cons l lines ih =>
    rw [entries, qualifying, List.filter_cons]
    split_ifs
    · exact congrArg (l :: ·) (ih _)
    · exact ih _

/-- An entry is about a line and has what was left in the buffer when this line was read. -/
theorem mem_entries_iff : (l, name) ∈ entries g lines ↔ ∃ before after,
    lines = before ++ l :: after ∧ isExecutable l.perm = true ∧
      name = pathBuffer (pathBuffer g before) [l] := by
  induction lines generalizing g with
  | nil => simp [entries]
  | cons m lines ih =>
    have hrest : (l, name) ∈ entries (pathBuffer g [m]) lines ↔ ∃ before after,
        m :: lines = (m :: before) ++ l :: after ∧ isExecutable l.perm = true ∧
          name = pathBuffer (pathBuffer g (m :: before)) [l] := by
      rw [ih]
      simp only [List.cons_append, List.cons.injEq, true_and]
      rfl
    have hsplit : (∃ before after, m :: lines = before ++ l :: after ∧ isExecutable l.perm = true ∧
        name = pathBuffer (pathBuffer g before) [l]) ↔
        (m = l ∧ isExecutable l.perm = true ∧ name = pathBuffer g [l]) ∨
          (l, name) ∈ entries (pathBuffer g [m]) lines := by
      rw [hrest]
      constructor
      · rintro ⟨before, after, heq, hexec, hname⟩
        cases before with
        | nil => exact .inl ⟨(List.cons.inj heq).1, hexec, hname⟩
        | cons m' before =>
          obtain rfl : m = m' := (List.cons.inj heq).1
          exact .inr ⟨before, after, heq, hexec, hname⟩
      · rintro (⟨rfl, hexec, hname⟩ | ⟨before, after, heq, hexec, hname⟩)
        · exact ⟨[], lines, rfl, hexec, hname⟩
        · exact ⟨m :: before, after, heq, hexec, hname⟩
    rw [hsplit, entries]
    split_ifs with hexec
    · rw [List.mem_cons, Prod.mk.injEq]
      refine or_congr_left ⟨fun ⟨hl, hname⟩ ↦ ?_, fun ⟨hl, _, hname⟩ ↦ ?_⟩
      · subst hl
        exact ⟨rfl, hexec, hname⟩
      · subst hl
        exact ⟨rfl, hname⟩
    · refine ⟨.inr, fun h ↦ h.resolve_left ?_⟩
      rintro ⟨rfl, hexec', -⟩
      exact hexec hexec'

/-- The buffer is empty as long as there was no path and it was empty at the start. -/
theorem pathBuffer_eq_nil_iff :
    pathBuffer g lines = [] ↔ (∀ m ∈ lines, m.path = none) ∧ g = [] := by
  induction lines generalizing g with
  | nil => simp [pathBuffer]
  | cons l lines ih =>
    rw [pathBuffer_cons, ih, List.forall_mem_cons]
    have hone : pathBuffer g [l] = [] ↔ l.path = none ∧ g = [] := by
      show (l.path.map MapsPath.word).getD g = [] ↔ _
      cases hpath : l.path with
      | none => simp
      | some p => simp [p.isWord.ne_nil]
    rw [hone]
    tauto

/-- The name of an entry is that of its line if this has a path, or nothing was in the buffer. -/
theorem take_pathBuffer_eq_name_iff (hl : l.Plain) :
    (pathBuffer g [l]).take (maxFilemapnameLen - 1) = l.name ↔ l.path = none → g = [] := by
  show ((l.path.map MapsPath.word).getD g).take 255 = (l.path.map MapsPath.chars).getD [] ↔ _
  cases hpath : l.path with
  | none => simp [List.take_eq_nil_iff]
  | some p =>
    obtain ⟨hrest, hlen⟩ := hl.path p hpath
    simp [MapsPath.chars, hrest, List.take_of_length_le (Nat.le_of_lt_succ hlen)]

/-- All entries have the names of their lines exactly if the file is clean. -/
theorem entries_named_iff {v : ScanVars} (hplain : ∀ l ∈ lines, l.Plain) :
    (∀ x ∈ entries (getString 512 v.cfile) lines, x.2.take (maxFilemapnameLen - 1) = x.1.name) ↔
      Clean v lines := by
  constructor
  · intro h before l after hlines hexec hpath
    have hname := h (l, _) (mem_entries_iff.2 ⟨before, after, hlines, hexec, rfl⟩)
    have hl : l.Plain := hplain l (hlines ▸ List.mem_append_right _ List.mem_cons_self)
    obtain ⟨hnone, hempty⟩ :=
      pathBuffer_eq_nil_iff.1 ((take_pathBuffer_eq_name_iff hl).1 hname hpath)
    exact ⟨hnone, (getString_eq_nil_iff (by decide)).1 hempty⟩
  · rintro h ⟨l, name⟩ hmem
    obtain ⟨before, after, hlines, hexec, rfl⟩ := mem_entries_iff.1 hmem
    have hl : l.Plain := hplain l (hlines ▸ List.mem_append_right _ List.mem_cons_self)
    refine (take_pathBuffer_eq_name_iff hl).2 fun hpath ↦ ?_
    obtain ⟨hnone, hempty⟩ := h before l after hlines hexec hpath
    exact pathBuffer_eq_nil_iff.2 ⟨hnone, (getString_eq_nil_iff (by decide)).2 hempty⟩

end Names

/-! ### Filling the array -/

namespace Filemaps

variable {lines : List MapsLine} {v : ScanVars} {s : Filemaps} {i : ℕ}

/-- A name that was stored reads as the name, cut at the limit. -/
theorem getString_name {name : List Char} {buf : ℕ → Char} (hname : IsCString name)
    (hnull : buf 255 = '\x00') :
    getString maxFilemapnameLen (strncpy (maxFilemapnameLen - 1) name buf) =
      name.take (maxFilemapnameLen - 1) :=
  getString_strncpy hname hnull

/-- The second loop of `__init_filemaps`, on an array that is large enough, from the entry `i` on.
-/
theorem fillLines_mapsText (hfits : ∀ l ∈ lines, l.Fits)
    (hfit : ∀ j < i + (qualifying isExecutable lines).length, s.EntryOk j)
    (hlt : i + (qualifying isExecutable lines).length < 2147483648)
    (hzero : ∀ j, i ≤ j → (s.array j).name 255 = '\x00') :
    ∃ v' array, (lines.map MapsLine.text).foldlM fillLine (v, (i : ℤ), s) =
        some (v', ((i + (qualifying isExecutable lines).length : ℕ) : ℤ),
          { s with array := array }) ∧
      (∀ j < i, array j = s.array j) ∧
      ∀ k l name, (entries (getString 512 v.cfile) lines)[k]? = some (l, name) →
        (array (i + k)).Shows l (name.take (maxFilemapnameLen - 1)) := by
  -- on the lines, with the number of entries stored so far and the buffers as the last line has
  -- left them
  induction lines generalizing v s i with
  | nil => exact ⟨v, s.array, rfl, fun _ _ ↦ rfl, fun k l name hk ↦ by simp [entries] at hk⟩
  | cons l lines ih =>
    rw [List.forall_mem_cons] at hfits
    obtain ⟨v₁, hscan, hs⟩ := MapsLine.scanFields_text hfits.1 v
    have hexec : isExecutable v₁.cperm = isExecutable l.perm := onPerms_isExecutable _ _ hs.cperm
    have hbuffer : getString 512 v₁.cfile = pathBuffer (getString 512 v.cfile) [l] := hs.cfile
    rw [List.map_cons, List.foldlM_cons, fillLine, hscan]
    simp only [Option.bind_eq_bind, Option.bind_some, hexec]
    cases hl : isExecutable l.perm with
    | false =>
      have hlines : qualifying isExecutable (l :: lines) = qualifying isExecutable lines :=
        List.filter_cons_of_neg (by simp [hl])
      rw [hlines] at hfit hlt ⊢
      obtain ⟨v', array, hrest, hbefore, hshows⟩ := ih (v := v₁) hfits.2 hfit hlt hzero
      refine ⟨v', array, hrest, hbefore, fun k m name hk ↦ hshows k m name ?_⟩
      rwa [entries, hl, if_neg Bool.false_ne_true, ← hbuffer] at hk
    | true =>
      have hlines : qualifying isExecutable (l :: lines) = l :: qualifying isExecutable lines :=
        List.filter_cons_of_pos hl
      rw [hlines, List.length_cons] at hfit hlt ⊢
      have hsum : i + ((qualifying isExecutable lines).length + 1) =
          i + 1 + (qualifying isExecutable lines).length := by omega
      rw [hsum] at hfit hlt ⊢
      -- the entry is filled from this line, but for its name, which comes from the buffer
      let x : Filemap := ⟨l.startAddr.value, l.endAddr.value, l.offset.value,
        strncpy (maxFilemapnameLen - 1) (getString 512 v₁.cfile) (s.array i).name, 0, 0⟩
      have hx : x.Shows l ((pathBuffer (getString 512 v.cfile) [l]).take (maxFilemapnameLen - 1)) :=
        ⟨rfl, rfl, rfl, by
          rw [← hbuffer]
          exact getString_name isCString_getString (hzero i le_rfl)⟩
      let s₁ : Filemaps := { s with array := Function.update s.array i x }
      have hadd : s.addFilemap (i : ℤ).toNat l.startAddr.value l.endAddr.value l.offset.value
          (getString 512 v₁.cfile) = some s₁ := by
        rw [Int.toNat_natCast, addFilemap, if_pos (hfit i (by omega))]
        rfl
      simp only [if_true, hs.scanOffset, hadd, incInt_natCast (by omega : i + 1 < 2147483648),
        Option.bind_some]
      have hzero₁ : ∀ j, i + 1 ≤ j → (s₁.array j).name 255 = '\x00' := fun j hj ↦ by
        show (Function.update s.array i x j).name 255 = _
        rw [Function.update_of_ne (by omega)]
        exact hzero j (by omega)
      obtain ⟨v', array, hrest, hbefore, hshows⟩ := ih (v := { v₁ with
        startAddr := l.startAddr.value, endAddr := l.endAddr.value, offset := l.offset.value })
        (s := s₁) (i := i + 1) hfits.2 hfit hlt hzero₁
      refine ⟨v', array, hrest, fun j hj ↦ ?_, fun k m name hk ↦ ?_⟩
      · rw [hbefore j (by omega)]
        exact Function.update_of_ne (by omega) _ _
      · rw [entries, hl, if_pos rfl] at hk
        cases k with
        | zero =>
          obtain ⟨rfl, rfl⟩ := Prod.mk.inj (Option.some.inj hk)
          rw [Nat.add_zero, hbefore i (Nat.lt_succ_self i)]
          show (Function.update s.array i x i).Shows _ _
          rw [Function.update_self]
          exact hx
        | succ k =>
          rw [List.getElem?_cons_succ, ← hbuffer] at hk
          have := hshows k m name hk
          rwa [show i + 1 + k = i + (k + 1) by omega] at this

/-- `__init_filemaps` with no session open, on the lines of a file that does not change: the names
are what the buffer of the path holds. -/
theorem initFilemaps_mapsText (h0 : s.usageCnt = 0) (addr : ℕ) (hfits : ∀ l ∈ lines, l.Fits)
    (v : ScanVars) :
    ((qualifying isExecutable lines).length < 2147483648 →
      ∃ s', s.initFilemaps (some addr) (mapsText lines) (mapsText lines) v = some (0, s') ∧
        s'.cnt = (qualifying isExecutable lines).length ∧
        ∀ i l name, (entries (getString 512 v.cfile) lines)[i]? = some (l, name) →
          (s'.array i).Shows l (name.take (maxFilemapnameLen - 1))) ∧
    (2147483648 ≤ (qualifying isExecutable lines).length →
      s.initFilemaps (some addr) (mapsText lines) (mapsText lines) v = none) := by
  obtain ⟨hfew, hmany⟩ := countLines_mapsText onPerms_isExecutable lines v
  rw [initFilemaps, if_neg (not_not_intro h0)]
  refine ⟨fun hlt ↦ ?_, fun hle ↦ ?_⟩
  · obtain ⟨v₁, hcount, hfile⟩ := hfew hlt
    let s₁ := (({ s with cnt := ((qualifying isExecutable lines).length : ℤ) } :
      Filemaps).allocFilemaps (some addr)).2
    have hfit : ∀ j < 0 + (qualifying isExecutable lines).length, s₁.EntryOk j := fun j hj ↦
      ⟨_, rfl, rfl, (Nat.mul_le_mul_left _ (by omega)).trans (size_allocFilemaps hlt)⟩
    obtain ⟨v', array, hfill, -, hshows⟩ :=
      fillLines_mapsText (v := v₁) (i := 0) hfits hfit (by omega) fun _ _ ↦ rfl
    rw [Nat.zero_add] at hfill
    have hinc : incInt s.usageCnt = some 1 := by
      rw [h0]
      rfl
    refine ⟨{ s₁ with array := array, usageCnt := 1 }, ?_, rfl, fun i l name hi ↦ ?_⟩
    · have halloc : ({ s with cnt := ((qualifying isExecutable lines).length : ℤ) } :
          Filemaps).allocFilemaps (some addr) = (0, s₁) := rfl
      simp only [Option.bind_eq_bind, hcount, Option.bind_some, halloc, lt_irrefl, if_false,
        readLines_mapsText]
      have hfill' : (lines.map MapsLine.text).foldlM fillLine (v₁, (0 : ℤ), s₁) = _ := hfill
      rw [hfill']
      simp only [Option.bind_some]
      show (incInt s.usageCnt).bind _ = _
      rw [hinc]
      rfl
    · have := hshows i l name (by rwa [hfile])
      rwa [Nat.zero_add] at this
  · simp only [Option.bind_eq_bind, hmany hle, Option.bind_none]

/-- If the entries say what the lines say, the lines are clean. -/
theorem clean_of_parsed (h0 : s.usageCnt = 0) {addr : ℕ} (hplain : ∀ l ∈ lines, l.Plain)
    (hlt : (qualifying isExecutable lines).length < 2147483648)
    (h : Parsed lines (s.initFilemaps (some addr) (mapsText lines) (mapsText lines) v)) :
    Clean v lines := by
  obtain ⟨s', hrun, -, hshows⟩ := h
  obtain ⟨s'', hrun', -, hnames⟩ :=
    (initFilemaps_mapsText h0 addr (fun l hl ↦ (hplain l hl).fits) v).1 hlt
  obtain rfl : s'' = s' := congrArg Prod.snd (Option.some.inj (hrun'.symm.trans hrun))
  refine (entries_named_iff hplain).1 fun x hx ↦ ?_
  obtain ⟨i, hi⟩ := List.mem_iff_getElem?.1 hx
  have hline : (qualifying isExecutable lines)[i]? = some x.1 := by
    rw [← map_fst_entries (getString 512 v.cfile), List.getElem?_map, hi]
    rfl
  rw [← (hnames i x.1 x.2 hi).name, (hshows i x.1 hline).name]

/-- If the lines are clean, the entries say what they say. -/
theorem parsed_of_clean (h0 : s.usageCnt = 0) (addr : ℕ) (hplain : ∀ l ∈ lines, l.Plain)
    (hlt : (qualifying isExecutable lines).length < 2147483648) (h : Clean v lines) :
    Parsed lines (s.initFilemaps (some addr) (mapsText lines) (mapsText lines) v) := by
  obtain ⟨s', hrun, hcnt, hnames⟩ :=
    (initFilemaps_mapsText h0 addr (fun l hl ↦ (hplain l hl).fits) v).1 hlt
  refine ⟨s', hrun, hcnt, fun i l hi ↦ ?_⟩
  rw [← map_fst_entries (getString 512 v.cfile), List.getElem?_map, Option.map_eq_some_iff] at hi
  obtain ⟨⟨m, name⟩, hi, rfl⟩ := hi
  have hname := (entries_named_iff hplain).2 h _ (List.mem_of_getElem? hi)
  rw [← hname]
  exact hnames i m name hi

end Filemaps

/-- With no session open and a mapping for the array, `__init_filemaps` makes one entry of every
line of an executable mapping, in their order and with what they say, exactly if the file is clean
and the lines can be counted. -/
theorem filemaps_parsed_iff {s : Filemaps} (h0 : s.usageCnt = 0) (addr : ℕ) {lines : List MapsLine}
    (hplain : ∀ l ∈ lines, l.Plain) (v : ScanVars) :
    Parsed lines (s.initFilemaps (some addr) (mapsText lines) (mapsText lines) v) ↔
      (qualifying isExecutable lines).length < 2147483648 ∧ Clean v lines := by
  constructor
  · intro h
    have hlt : (qualifying isExecutable lines).length < 2147483648 := by
      by_contra hle
      obtain ⟨s', hrun, -⟩ := h
      rw [(initFilemaps_mapsText h0 addr (fun l hl ↦ (hplain l hl).fits) v).2
        (not_lt.1 hle)] at hrun
      cases hrun
    exact ⟨hlt, clean_of_parsed h0 hplain hlt h⟩
  · rintro ⟨hlt, hclean⟩
    exact parsed_of_clean h0 addr hplain hlt hclean

/-! ### A file with two mappings -/

/-- "400000-401000 r-xp 00000000 08:01 5 /a". -/
def MapsLine.named : MapsLine :=
  { MapsLine.anonymous (.page 0) (.page 1)
      ⟨['r', '-', 'x', 'p'], .of_all (by decide) rfl, .of_all rfl, by decide⟩ rfl with
    device := ⟨['0', '8', ':', '0', '1'], .of_all (by decide) rfl, .of_all rfl, by decide⟩
    inode := ⟨['5'], .of_all (by decide) rfl, .of_all rfl, by decide⟩
    path := some {
      word := ['/', 'a']
      isWord := .of_all (by decide) rfl
      rest := []
      blank := fun c hc ↦ by cases hc
      newline := List.not_mem_nil
      isCString := .of_all rfl }
    length_lt := by decide }

/-- "402000-403000 r-xp 00000000 00:00 0". -/
def MapsLine.unnamed : MapsLine :=
  .anonymous (.page 2) (.page 3) MapsLine.named.perms rfl

theorem MapsLine.plain_named : MapsLine.named.Plain :=
  ⟨by decide, fun p hp ↦ by
    obtain rfl := Option.some.inj hp
    exact ⟨rfl, by show 2 < 256; decide⟩⟩

/-- An anonymous executable mapping in front of a mapping of a file, and a blank `cfile`. -/
theorem filemaps_parsed_iff_named : Parsed [.unnamed, .named]
    (start.initFilemaps (some 65536) (mapsText [.unnamed, .named]) (mapsText [.unnamed, .named])
      .zero) := by
  have hplain : ∀ l ∈ [MapsLine.unnamed, .named], l.Plain := by
    rw [List.forall_mem_cons, List.forall_mem_singleton]
    exact ⟨MapsLine.plain_anonymous, MapsLine.plain_named⟩
  refine (filemaps_parsed_iff rfl 65536 hplain _).2 ⟨by decide, ?_⟩
  intro before l after heq _ hpath
  cases before with
  | nil => exact ⟨fun k hk ↦ absurd hk List.not_mem_nil, rfl⟩
  | cons k before =>
    obtain ⟨-, hrest⟩ := List.cons_eq_cons.1 heq
    have hmem : l ∈ [MapsLine.named] := hrest ▸ List.mem_append_right _ List.mem_cons_self
    obtain rfl := List.mem_singleton.1 hmem
    cases hpath

/-- An anonymous executable mapping behind a mapping of a file gets the name of this file. -/
theorem not_filemaps_parsed : ¬Parsed [.named, .unnamed]
    (start.initFilemaps (some 65536) (mapsText [.named, .unnamed])
      (mapsText [.named, .unnamed]) .zero) := by
  intro h
  have hplain : ∀ l ∈ [MapsLine.named, .unnamed], l.Plain := by
    rw [List.forall_mem_cons, List.forall_mem_singleton]
    exact ⟨MapsLine.plain_named, MapsLine.plain_anonymous⟩
  have hclean := clean_of_parsed rfl hplain (by decide) h
  have hnone := (hclean [.named] .unnamed [] rfl (by decide) rfl).1
  cases hnone _ List.mem_cons_self

end Memchk
