import Memchk.Filemap.Basic
import Memchk.Library.Outcome
import Memchk.Library.Steps

/-!
# Sessions

Everyone who prints a callstack opens a session with `mc_init_filemaps_from_procmap` and closes it
with `mc_term_filemaps`, whether or not the first of the two has failed. A session that failed was
not counted, but is counted off. As long as only sessions that were opened are closed, `__usage_cnt`
is the number of sessions that are open (`sessions_sound_iff`).

## Runs

A run is any sequence of openings and closings, with whatever texts the two readings of the file see
and whatever the kernel answers, so that any opening may fail. `Sessions` keeps next to the array
who has a session open, from the calls and their results, not from the counter.

## What should hold

The counter is the number of open sessions, the array is mapped while there are any and is not
mapped otherwise, and what the kernel was asked for is a sequence in which every array is unmapped
once, before the next is mapped (`followMappings`). `Sessions.Sound` is this for one state, and
`Sessions.Fresh` says that an opening gives the first session a newly filled array.

## Main result

`sessions_sound_iff` says for every run that the counter is right in every state if and only if each
close belongs to a session that was opened. A close after a failure makes the counter negative, the
next opening then takes it to zero without filling the array, and everything after goes wrong.
-/

namespace Memchk

/-- The static variables, and for every session that is open whether its `init` returned `0`. -/
structure Sessions where
  maps : Filemaps
  open_ : List Bool

/-- What a caller does. -/
inductive SessionAction
  /-- `mc_init_filemaps_from_procmap`, with the answer of `mmap` and the two readings of the
  file. -/
  | init (answer : Option ℕ) (text₁ text₂ : List Char) (v : ScanVars)
  /-- `mc_term_filemaps`, called by the owner of the session number `i`. -/
  | term (i : ℕ)

namespace SessionAction

/-- The state after an action. -/
def exec : SessionAction → Sessions → Option Sessions
  | .init answer text₁ text₂ v, s => do
    let (ret, maps) ← s.maps.initFilemaps answer text₁ text₂ v
    return ⟨maps, s.open_ ++ [decide (ret = 0)]⟩
  | .term i, s =>
    if i < s.open_.length then do
      let maps ← s.maps.mcTermFilemaps
      return ⟨maps, s.open_.eraseIdx i⟩
    else none

/-- Only a session whose `init` returned `0` is closed. -/
def ClosesOpened (s : Sessions) : SessionAction → Prop
  | .init .. => True
  | .term i => s.open_[i]? = some true

end SessionAction

/-- The mapping that is there after a sequence of calls, if every `mmap` meets no mapping and every
`munmap` is for the mapping that is there. -/
def followMappings : List FilemapEvent → Option (ℕ × ℕ) → Option (Option (ℕ × ℕ))
  | [], m => some m
  | .mapped addr size :: es, none => followMappings es (some (addr, size))
  | .unmapped addr size :: es, some m => if m = (addr, size) then followMappings es none else none
  | _, _ => none

namespace Sessions

/-- No session was opened yet. -/
def start : Sessions :=
  ⟨.start, []⟩

/-- What is expected of the state between two actions. -/
structure Sound (s : Sessions) : Prop where
  usageCnt : s.maps.usageCnt = (s.open_.count true : ℤ)
  mapped : s.maps.mapping.isSome ↔ 0 < s.maps.usageCnt
  once : followMappings s.maps.events none = some s.maps.mapping
  returns : ∀ i < s.open_.length, ((SessionAction.term i).exec s).isSome

/-- A session that is opened when no other is open whose `init` returned `0` gets what it would get
in a process that has opened no session yet, whether or not sessions that failed are still to be
closed. -/
def Fresh (s : Sessions) : SessionAction → Sessions → Prop
  | .init (some addr) text₁ text₂ v, t => true ∉ s.open_ → t.open_ = s.open_ ++ [true] ∧
    ∃ f, Filemaps.start.initFilemaps (some addr) text₁ text₂ v = some (0, f) ∧
      t.maps = { f with events := t.maps.events, symbolArrays := t.maps.symbolArrays }
  | _, _ => True

/-- What holds between two actions in any case. -/
structure Inv (s : Sessions) : Prop where
  mapped : s.maps.mapping.isSome ↔ 0 < s.maps.usageCnt
  current : ∀ m ∈ s.maps.mapping, m = (s.maps.filemap, s.maps.size) ∧
    filemapSize * s.maps.cnt.toNat ≤ s.maps.size
  symbols : ∀ i, (s.maps.array i).symbols = 0
  once : followMappings s.maps.events none = some s.maps.mapping

end Sessions

/-- The mappings of two parts of a run. -/
theorem followMappings_append (es es' : List FilemapEvent) (m : Option (ℕ × ℕ)) :
    followMappings (es ++ es') m = (followMappings es m).bind (followMappings es') := by
  induction es generalizing m with
  | nil => rfl
  | cons e es ih =>
    rw [List.cons_append]
    cases e with
    | mapped addr size =>
      cases m with
      | none => exact ih _
      | some m => rfl
    | unmapped addr size =>
      cases m with
      | none => rfl
      | some m =>
        rw [followMappings, followMappings]
        split_ifs
        · exact ih _
        · rfl

/-! ### What an `init` does -/

namespace Filemaps

variable {s s' : Filemaps} {answer : Option ℕ} {text₁ text₂ : List Char} {v : ScanVars} {ret : ℤ}

/-- The loop of the first reading does not leave the range of the counter. -/
theorem countLines_bounds {qualifies : (ℕ → Char) → Bool} {text : List Char} {x : ScanVars × ℤ}
    (h : v.countLines qualifies text = some x) : 0 ≤ x.2 ∧ x.2 < 2147483648 := by
  have hloop : Outcome True (v.countLines qualifies text) fun x ↦ 0 ≤ x.2 ∧ x.2 < 2147483648 := by
    refine Outcome.foldlM (fun _ (x : ScanVars × ℤ) ↦ 0 ≤ x.2 ∧ x.2 < 2147483648)
      (fun line rest x hx ↦ ⟨fun y hy ↦ ?_, fun _ ↦ trivial⟩)
      ⟨le_rfl, by show (0 : ℤ) < 2147483648; decide⟩
    obtain ⟨v', -, hy⟩ := Option.bind_eq_some_iff.1 hy
    split_ifs at hy
    · obtain ⟨n, hn, hy⟩ := Option.bind_eq_some_iff.1 hy
      obtain rfl := Option.some.inj hy
      rw [incInt] at hn
      split_ifs at hn
      obtain rfl := Option.some.inj hn
      show 0 ≤ x.2 + 1 ∧ x.2 + 1 < 2147483648
      omega
    · obtain rfl := Option.some.inj hy
      exact hx
  exact hloop.value x h

/-- The second reading only fills entries, and leaves no symbols in them. -/
theorem fillLines_spec {x y : ScanVars × ℤ × Filemaps} {lines : List (List Char)}
    (h : lines.foldlM fillLine x = some y) :
    y.2.2 = { x.2.2 with array := y.2.2.array } ∧
      ((∀ i, (x.2.2.array i).abfd = 0 ∧ (x.2.2.array i).symbols = 0) →
        ∀ i, (y.2.2.array i).abfd = 0 ∧ (y.2.2.array i).symbols = 0) := by
  have hloop : Outcome True (lines.foldlM fillLine x) fun y ↦
      y.2.2 = { x.2.2 with array := y.2.2.array } ∧
        ((∀ i, (x.2.2.array i).abfd = 0 ∧ (x.2.2.array i).symbols = 0) →
          ∀ i, (y.2.2.array i).abfd = 0 ∧ (y.2.2.array i).symbols = 0) := by
    refine Outcome.foldlM (fun _ (y : ScanVars × ℤ × Filemaps) ↦
      y.2.2 = { x.2.2 with array := y.2.2.array } ∧
        ((∀ i, (x.2.2.array i).abfd = 0 ∧ (x.2.2.array i).symbols = 0) →
          ∀ i, (y.2.2.array i).abfd = 0 ∧ (y.2.2.array i).symbols = 0))
      (fun line rest y hy ↦ ⟨fun z hz ↦ ?_, fun _ ↦ trivial⟩) ⟨rfl, id⟩
    obtain ⟨v, i, t⟩ := y
    simp only [fillLine, Option.bind_eq_bind, Option.bind_eq_some_iff] at hz
    obtain ⟨v', -, hz⟩ := hz
    split_ifs at hz
    · simp only [Option.bind_eq_some_iff, Option.pure_def, Option.some.injEq] at hz
      obtain ⟨n, -, u, hadd, rfl⟩ := hz
      rw [addFilemap] at hadd
      split_ifs at hadd
      obtain rfl := Option.some.inj hadd
      refine ⟨?_, fun hblank k ↦ ?_⟩
      · have ht : t = { x.2.2 with array := t.array } := hy.1
        simp only [modify]
        conv_lhs => rw [ht]
      · show (Function.update t.array _ _ k).abfd = 0 ∧ _
        rw [modify]
        rcases eq_or_ne k i.toNat with rfl | hk
        · simp only [Function.update_self, and_self]
        · simp only [Function.update_of_ne hk]
          exact hy.2 hblank k
    · obtain rfl := Option.some.inj hz
      exact hy
  exact hloop.value y h

/-- What an `init` that returns has done: it has counted one more session, or failed, or filled a
new array. -/
theorem initFilemaps_cases (h : s.initFilemaps answer text₁ text₂ v = some (ret, s')) :
    s.usageCnt ≠ 0 ∧ ret = 0 ∧ s' = { s with usageCnt := s.usageCnt + 1 } ∨
      s.usageCnt = 0 ∧ answer = none ∧ ret = -1 ∧
        s' = { s with cnt := s'.cnt, size := s'.size, filemap := s'.filemap } ∨
      s.usageCnt = 0 ∧ ∃ addr, answer = some addr ∧ ret = 0 ∧
        s' = { s with
          filemap := addr
          cnt := s'.cnt
          usageCnt := 1
          size := s'.size
          array := s'.array
          mapping := some (addr, s'.size)
          events := s.events ++ [.mapped addr s'.size] } ∧
        filemapSize * s'.cnt.toNat ≤ s'.size ∧
        ∀ i, (s'.array i).abfd = 0 ∧ (s'.array i).symbols = 0 := by
  rw [initFilemaps] at h
  split_ifs at h with h0
  · -- a session is open: the count goes up
    obtain ⟨n, hn, h⟩ := Option.bind_eq_some_iff.1 h
    obtain ⟨rfl, rfl⟩ := Prod.mk.inj (Option.some.inj h)
    rw [incInt] at hn
    split_ifs at hn
    obtain rfl := Option.some.inj hn
    exact .inl ⟨h0, rfl, rfl⟩
  · rw [not_not] at h0
    obtain ⟨⟨v₁, cnt⟩, hcount, h⟩ := Option.bind_eq_some_iff.1 h
    obtain ⟨hpos, hlt⟩ := countLines_bounds hcount
    cases answer with
    | none =>
      simp only [allocFilemaps_none, Int.reduceNeg, Int.reduceLT, if_true] at h
      obtain ⟨rfl, rfl⟩ := Prod.mk.inj (Option.some.inj h)
      exact .inr (.inl ⟨h0, rfl, rfl, rfl⟩)
    | some addr =>
      simp only [allocFilemaps_some, lt_irrefl, if_false] at h
      obtain ⟨⟨v₂, i, t⟩, hfill, h⟩ := Option.bind_eq_some_iff.1 h
      obtain ⟨n, hn, h⟩ := Option.bind_eq_some_iff.1 h
      obtain ⟨rfl, rfl⟩ := Prod.mk.inj (Option.some.inj h)
      -- the second reading stores entries and moves the count of no session
      obtain ⟨heq, hblank⟩ := fillLines_spec hfill
      simp only at heq
      have husage : t.usageCnt = 0 := by
        rw [heq]
        exact h0
      obtain rfl : n = 1 := by
        rw [husage] at hn
        exact (Option.some.inj hn).symm
      have hcnt : t.cnt = cnt := by rw [heq]
      have hsize : t.size = getAlignedSize (wrapSize (filemapSize * toSizeT cnt)) pageSize := by
        rw [heq]
      refine .inr (.inr ⟨h0, addr, rfl, rfl, ?_, ?_, hblank fun _ ↦ ⟨rfl, rfl⟩⟩)
      · rw [heq]
      · show filemapSize * t.cnt.toNat ≤ t.size
        obtain ⟨k, rfl⟩ := Int.eq_ofNat_of_zero_le hpos
        have hk : (k : ℤ) < 2147483648 := hlt
        rw [hsize, hcnt, Int.toNat_natCast]
        exact size_allocFilemaps (by omega)

/-! ### A fresh array -/

/-- The static variables with another history. -/
def withHistory (events : List FilemapEvent) (symbolArrays : ℕ → Option Bool) (s : Filemaps) :
    Filemaps :=
  { s with events := events, symbolArrays := symbolArrays }

/-- The second reading does not look at the history. -/
theorem fillLines_withHistory (events : List FilemapEvent) (symbolArrays : ℕ → Option Bool)
    (lines : List (List Char)) (v : ScanVars) (i : ℤ) (s : Filemaps) :
    lines.foldlM fillLine (v, i, s.withHistory events symbolArrays) =
      (lines.foldlM fillLine (v, i, s)).map fun y ↦
        (y.1, y.2.1, y.2.2.withHistory events symbolArrays) := by
  induction lines generalizing v i s with
  | nil => rfl
  | cons line lines ih =>
    have hone : fillLine (v, i, s.withHistory events symbolArrays) line =
        (fillLine (v, i, s) line).map fun y ↦
          (y.1, y.2.1, y.2.2.withHistory events symbolArrays) := by
      have hadd : ∀ idx a b c name, (s.withHistory events symbolArrays).addFilemap idx a b c name =
          (s.addFilemap idx a b c name).map (withHistory events symbolArrays) := by
        intro idx a b c name
        have hok : (s.withHistory events symbolArrays).EntryOk idx ↔ s.EntryOk idx := Iff.rfl
        rw [addFilemap, addFilemap]
        split_ifs with h h' h'
        · rfl
        · exact absurd (hok.1 h) h'
        · exact absurd (hok.2 h') h
        · rfl
      rw [fillLine, fillLine]
      cases v.scanFields line with
      | none => rfl
      | some v' =>
        simp only [Option.bind_eq_bind, Option.bind_some]
        split_ifs
        · cases incInt i with
          | none => rfl
          | some n =>
            simp only [Option.bind_some, hadd]
            cases s.addFilemap _ _ _ _ _ <;> rfl
        · rfl
    rw [List.foldlM_cons, List.foldlM_cons, hone]
    cases fillLine (v, i, s) line with
    | none => rfl
    | some y => exact ih y.1 y.2.1 y.2.2

/-- An array that is filled while no session is open does not depend on what was before. -/
theorem initFilemaps_fresh (h0 : s.usageCnt = 0) {addr : ℕ}
    (h : s.initFilemaps (some addr) text₁ text₂ v = some (ret, s')) :
    ∃ f, start.initFilemaps (some addr) text₁ text₂ v = some (0, f) ∧
      s' = { f with events := s'.events, symbolArrays := s'.symbolArrays } := by
  rw [initFilemaps, if_neg (not_not_intro h0)] at h
  obtain ⟨⟨v₁, cnt⟩, hcount, h⟩ := Option.bind_eq_some_iff.1 h
  simp only [allocFilemaps_some, lt_irrefl, if_false] at h
  obtain ⟨⟨v₂, i, t⟩, hfill, h⟩ := Option.bind_eq_some_iff.1 h
  obtain ⟨n, hn, h⟩ := Option.bind_eq_some_iff.1 h
  obtain ⟨rfl, rfl⟩ := Prod.mk.inj (Option.some.inj h)
  let size := getAlignedSize (wrapSize (filemapSize * toSizeT cnt)) pageSize
  let blank : Filemaps := { start with
    cnt := cnt
    size := size
    filemap := addr
    mapping := some (addr, size)
    events := start.events ++ [.mapped addr size] }
  have hsame : ({ s with
      cnt := cnt
      size := size
      filemap := addr
      array := fun _ ↦ ⟨0, 0, 0, fun _ ↦ '\x00', 0, 0⟩
      mapping := some (addr, size)
      events := s.events ++ [.mapped addr size] } : Filemaps) =
      blank.withHistory (s.events ++ [.mapped addr size]) s.symbolArrays := by
    rw [withHistory, h0]
    rfl
  have hfill' := fillLines_withHistory (s.events ++ [.mapped addr size]) s.symbolArrays
    (readLines 1024 text₂) v₁ 0 blank
  rw [← hsame, hfill] at hfill'
  obtain ⟨⟨v₃, j, f⟩, hblank, heq⟩ := Option.map_eq_some_iff.1 hfill'.symm
  obtain ⟨-, heq⟩ := Prod.mk.inj heq
  obtain ⟨-, rfl⟩ := Prod.mk.inj heq
  have hcount' : v.countLines isExecutable text₁ = some (v₁, cnt) := hcount
  refine ⟨{ f with usageCnt := n }, ?_, rfl⟩
  rw [initFilemaps, if_neg (by decide)]
  simp only [Option.bind_eq_bind, hcount', Option.bind_some, allocFilemaps_some,
    lt_irrefl, if_false]
  have hrun : (readLines 1024 text₂).foldlM fillLine (v₁, 0, blank) = some (v₃, j, f) := hblank
  show ((readLines 1024 text₂).foldlM fillLine (v₁, 0, blank)).bind _ = _
  rw [hrun]
  show (incInt f.usageCnt).bind _ = _
  have hn' : incInt f.usageCnt = some n := hn
  rw [hn']
  rfl

end Filemaps

/-! ### What a `term` does -/

namespace Filemaps

variable {s : Filemaps}

/-- Entries without symbols are only marked as not opened. -/
theorem termBfdLoop_eq {is : List ℕ} (hok : ∀ i ∈ is, s.EntryOk i)
    (hsymbols : ∀ i, (s.array i).symbols = 0) :
    ∃ array, is.foldlM termBfdFilemap s = some { s with array := array } ∧
      ∀ i, (array i).symbols = 0 := by
  induction is generalizing s with
  | nil => exact ⟨s.array, rfl, hsymbols⟩
  | cons i is ih =>
    let t := s.modify i fun x ↦ { x with abfd := 0 }
    have ht : ∀ k, (t.array k).symbols = 0 := by
      intro k
      show (Function.update s.array i _ k).symbols = 0
      rcases eq_or_ne k i with rfl | hk
      · rw [Function.update_self]
        exact hsymbols k
      · rw [Function.update_of_ne hk]
        exact hsymbols k
    have hone : s.termBfdFilemap i = some t := by
      rw [termBfdFilemap, if_pos (hok i List.mem_cons_self)]
      exact if_pos (ht i)
    obtain ⟨array, hrest, harray⟩ :=
      ih (s := t) (fun k hk ↦ hok k (List.mem_cons_of_mem _ hk)) ht
    rw [List.foldlM_cons, hone]
    exact ⟨array, hrest, harray⟩

end Filemaps

namespace Sessions

variable {s t : Sessions} {action : SessionAction}

theorem inv_start : start.Inv :=
  ⟨by decide, fun m hm ↦ absurd hm (by simp [start, Filemaps.start]), fun _ ↦ rfl, rfl⟩

/-- Closing a session always returns, and counts it off. -/
theorem Inv.term (h : s.Inv) (open_ : List Bool) :
    ∃ maps, s.maps.mcTermFilemaps = some maps ∧ maps.usageCnt = s.maps.usageCnt - 1 ∧
      Inv ⟨maps, open_⟩ := by
  rw [Filemaps.mcTermFilemaps]
  rcases eq_or_ne (s.maps.usageCnt - 1) 0 with hzero | hne
  · have hpos : 0 < s.maps.usageCnt := by omega
    obtain ⟨m, hm⟩ := Option.isSome_iff_exists.1 (h.mapped.2 hpos)
    obtain ⟨rfl, hfit⟩ := h.current m hm
    have hok : ∀ i ∈ List.range s.maps.cnt.toNat,
        ({ s.maps with usageCnt := s.maps.usageCnt - 1 } : Filemaps).EntryOk i := fun i hi ↦
      ⟨_, hm, rfl, (Nat.mul_le_mul_left _ (List.mem_range.1 hi)).trans hfit⟩
    obtain ⟨array, hloop, harray⟩ := Filemaps.termBfdLoop_eq hok h.symbols
    refine ⟨({ s.maps with usageCnt := s.maps.usageCnt - 1, array := array } : Filemaps).munmap, ?_,
      rfl, ?_⟩
    · simp only [hzero, if_true] at hloop ⊢
      rw [hloop]
      rfl
    · have hnone : (({ s.maps with usageCnt := s.maps.usageCnt - 1, array := array } :
          Filemaps).munmap).mapping = none := if_pos hm
      refine ⟨?_, fun m hm' ↦ ?_, harray, ?_⟩
      · rw [hnone]
        show false = true ↔ 0 < s.maps.usageCnt - 1
        simp [hzero]
      · rw [hnone] at hm'
        cases hm'
      · rw [hnone]
        show followMappings (s.maps.events ++ [.unmapped s.maps.filemap s.maps.size])
          none = some none
        rw [followMappings_append, h.once, hm, Option.bind_some, followMappings, if_pos rfl]
        rfl
  · refine ⟨{ s.maps with usageCnt := s.maps.usageCnt - 1 }, if_neg hne, rfl, ?_⟩
    refine ⟨?_, h.current, h.symbols, h.once⟩
    show s.maps.mapping.isSome ↔ 0 < s.maps.usageCnt - 1
    rw [h.mapped]
    omega

/-- What an `init` does to the count and to the invariant. -/
theorem Inv.init (h : s.Inv) {answer : Option ℕ} {text₁ text₂ : List Char} {v : ScanVars} {ret : ℤ}
    {maps : Filemaps} (hinit : s.maps.initFilemaps answer text₁ text₂ v = some (ret, maps))
    (open_ : List Bool) :
    maps.usageCnt = s.maps.usageCnt + (if ret = 0 then 1 else 0) ∧ Inv ⟨maps, open_⟩ := by
  rcases Filemaps.initFilemaps_cases hinit with ⟨hne, rfl, rfl⟩ | ⟨h0, rfl, rfl, heq⟩ |
    ⟨h0, addr, rfl, rfl, heq, hfit, hblank⟩
  · refine ⟨rfl, ?_, h.current, h.symbols, h.once⟩
    show s.maps.mapping.isSome ↔ 0 < s.maps.usageCnt + 1
    rw [h.mapped]
    omega
  · have hnone : s.maps.mapping = none := by
      rw [← Option.not_isSome_iff_eq_none, h.mapped, h0]
      exact lt_irrefl _
    refine ⟨by rw [heq, if_neg (by decide), add_zero], ?_, fun m hm ↦ ?_, fun i ↦ ?_, ?_⟩
    · rw [heq]
      exact h.mapped
    · rw [heq] at hm
      rw [show s.maps.mapping = none from hnone] at hm
      cases hm
    · rw [heq]
      exact h.symbols i
    · rw [heq]
      exact h.once
  · have hnone : s.maps.mapping = none := by
      rw [← Option.not_isSome_iff_eq_none, h.mapped, h0]
      exact lt_irrefl _
    refine ⟨by rw [heq, h0]; rfl, ?_, fun m hm ↦ ?_, fun i ↦ (hblank i).2, ?_⟩
    · rw [heq]
      exact ⟨fun _ ↦ Int.one_pos, fun _ ↦ rfl⟩
    · rw [heq] at hm ⊢
      exact ⟨(Option.some.inj hm).symm, hfit⟩
    · rw [heq]
      show followMappings (s.maps.events ++ [.mapped addr maps.size]) none = _
      rw [followMappings_append, h.once, hnone]
      rfl

/-- In a state that the actions can lead to, only the count can be wrong. -/
theorem Inv.sound_iff (h : s.Inv) : s.Sound ↔ s.maps.usageCnt = (s.open_.count true : ℤ) := by
  refine ⟨Sound.usageCnt, fun hcount ↦ ⟨hcount, h.mapped, h.once, fun i hi ↦ ?_⟩⟩
  obtain ⟨maps, hterm, -⟩ := h.term []
  simp only [SessionAction.exec, hterm, if_pos hi, Option.bind_eq_bind, Option.bind_some,
    Option.pure_def, Option.isSome_some]

/-- A session that is closed is no more among those that are open. -/
theorem count_eraseIdx_add {l : List Bool} {i : ℕ} (hi : i < l.length) :
    (l.eraseIdx i).count true + (if l[i] = true then 1 else 0) = l.count true := by
  have hperm := (List.getElem_cons_eraseIdx_perm hi).count_eq true
  simpa only [List.count_cons, beq_iff_eq] using hperm

/-- The count stays right exactly if no session is closed that was not counted. -/
theorem exec_sound_iff (h : s.Inv) (hs : s.Sound) (hexec : action.exec s = some t) :
    t.Inv ∧ (t.Sound ↔ action.ClosesOpened s) := by
  cases action with
  | init answer text₁ text₂ v =>
    obtain ⟨⟨ret, maps⟩, hinit, hexec⟩ := Option.bind_eq_some_iff.1 hexec
    obtain rfl := Option.some.inj hexec
    obtain ⟨husage, hinv⟩ := h.init hinit (s.open_ ++ [decide (ret = 0)])
    refine ⟨hinv, iff_of_true (hinv.sound_iff.2 ?_) trivial⟩
    show maps.usageCnt = _
    rw [husage, hs.usageCnt, List.count_append, List.count_singleton]
    by_cases hret : ret = 0 <;> simp [hret]
  | term i =>
    rw [SessionAction.exec] at hexec
    split_ifs at hexec with hi
    obtain ⟨maps, hterm, hexec⟩ := Option.bind_eq_some_iff.1 hexec
    obtain rfl := Option.some.inj hexec
    obtain ⟨maps', hterm', husage, hinv⟩ := h.term (s.open_.eraseIdx i)
    obtain rfl : maps = maps' := Option.some.inj (hterm.symm.trans hterm')
    refine ⟨hinv, hinv.sound_iff.trans ?_⟩
    have hcount := count_eraseIdx_add hi
    show maps.usageCnt = _ ↔ s.open_[i]? = some true
    rw [husage, hs.usageCnt, List.getElem?_eq_getElem hi, Option.some.injEq]
    show (s.open_.count true : ℤ) - 1 = ((s.open_.eraseIdx i).count true : ℤ) ↔ _
    split_ifs at hcount with hopened
    · exact iff_of_true (by omega) hopened
    · exact iff_of_false (by omega) hopened

/-- If the count is right, an array that is filled with no counted session open is a fresh one. -/
theorem Sound.fresh (hs : s.Sound) (hexec : action.exec s = some t) : Fresh s action t := by
  cases action with
  | term i => trivial
  | init answer text₁ text₂ v =>
    cases answer with
    | none => trivial
    | some addr =>
      intro hopen
      have h0 : s.maps.usageCnt = 0 := by
        rw [hs.usageCnt, List.count_eq_zero_of_not_mem hopen]
        rfl
      obtain ⟨⟨ret, maps⟩, hinit, hexec⟩ := Option.bind_eq_some_iff.1 hexec
      obtain rfl := Option.some.inj hexec
      have hret : ret = 0 := by
        rcases Filemaps.initFilemaps_cases hinit with ⟨-, hret, -⟩ | ⟨-, hnone, -⟩ |
          ⟨-, -, -, hret, -⟩
        · exact hret
        · cases hnone
        · exact hret
      refine ⟨?_, Filemaps.initFilemaps_fresh h0 hinit⟩
      show s.open_ ++ [decide (ret = 0)] = s.open_ ++ [true]
      rw [hret]
      rfl

end Sessions

/-- In every run of sessions the count is right, the array is there exactly if it is positive, every
mapping is given back once and a session that is alone has a fresh array, in all states, exactly if
only sessions are closed whose `init` returned `0`. -/
theorem sessions_sound_iff (actions : List SessionAction) :
    (∀ x ∈ steps SessionAction.exec actions Sessions.start,
      x.2.2.Sound ∧ Sessions.Fresh x.1 x.2.1 x.2.2) ↔
      ∀ x ∈ steps SessionAction.exec actions Sessions.start, x.2.1.ClosesOpened x.1 := by
  have hstart : Sessions.start.Inv ∧ Sessions.start.Sound :=
    ⟨Sessions.inv_start, Sessions.inv_start.sound_iff.2 rfl⟩
  have hstep : ∀ (s : Sessions) (a : SessionAction) (t : Sessions), s.Inv ∧ s.Sound →
      a.exec s = some t → (t.Sound ↔ a.ClosesOpened s) ∧ (t.Sound → t.Inv ∧ t.Sound) := by
    intro s a t hs hexec
    obtain ⟨hI, hiff⟩ := Sessions.exec_sound_iff hs.1 hs.2 hexec
    exact ⟨hiff, fun ht ↦ ⟨hI, ht⟩⟩
  have hiff := forall_steps_iff hstep actions hstart
  constructor
  · intro h
    exact hiff.1 fun x hx ↦ (h x hx).1
  · intro h x hx
    have hkeep := forall_steps_of_meets (fun s a t hs hmeets hexec ↦
      (hstep s a t hs hexec).2 ((hstep s a t hs hexec).1.2 hmeets)) actions hstart h x hx
    exact ⟨hkeep.2.2, hkeep.1.2.fresh (exec_of_mem_steps hx)⟩

/-- The only session was not counted, since there was no mapping for the array. Its owner closes it
all the same, and the count is `-1`. -/
theorem not_sessions_sound : ¬∀ x ∈ steps SessionAction.exec
    [.init none [] [] .zero, .term 0] Sessions.start,
      x.2.2.Sound ∧ Sessions.Fresh x.1 x.2.1 x.2.2 := by
  intro h
  have hsound := (h (_, _, _) (List.mem_cons_of_mem _ List.mem_cons_self)).1
  exact absurd hsound.usageCnt (by decide)

end Memchk
