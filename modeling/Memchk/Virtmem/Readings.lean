import Memchk.Maps
import Memchk.Virtmem.Basic

/-!
# The array of mappings

`__init_filemaps` of `memchk_virtmem.c` counts the private mappings that can be accessed, maps an
array with room for them and reads the file again to fill it. The array is a private mapping itself,
and the second reading shows it: as a line of its own, or as part of a mapping that it adjoins
(`Remapped`). If it has its own line, there is one entry more than was counted. This entry lies
behind the array where the entries counted fill its last page (`room_iff`), and `__cnt` never counts
it (`vmareas_filled_iff`).

## The two readings

The first reading and the second one are the same loop with different bodies, over two texts. What
the kernel shows in the second is the lines of the first, with the one change that the new mapping
makes; `Remapped` lists the ways in which it can show. Lines are counted in an `int`, so that a file
with `2 ^ 31` mappings has no result.

## Room

The array is mapped in whole pages, so there usually is room for one entry more. There is none if
and only if the entries counted fill the last page to the end, which depends on their number alone.

## Main results

* `vmareas_filled_iff`: when the entries counted are all the entries, and when no store is outside
  of the array.
* `not_vmareas_filled`: a file for which the new mapping is not counted, so that its pages are
  charged to no area.
-/

namespace Memchk

/-- `sizeof(struct vmarea)`. -/
abbrev vmareaSize : ℕ := 32

/-- The static variables `vmarea_array` and `__cnt`, the entries, and how much memory is mapped for
them. -/
structure VmareaArray where
  vmareaArray : ℕ
  cnt : ℤ
  array : ℕ → Vmarea
  allocSize : ℕ

namespace VmareaArray

/-- A mapping is of interest if its permissions are not `---` and it is private. -/
def isPrivate (cperm : ℕ → Char) : Bool :=
  ¬(cperm 0 = '-' ∧ cperm 1 = '-' ∧ cperm 2 = '-') ∧ cperm 3 = 'p'

/-- `__allocate_vmarea_array`: the address, and how much is mapped there. -/
def allocateVmareaArray (size : ℕ) (answer : Option ℕ) : ℕ × ℕ :=
  let allocSize := getAlignedSize size pageSize
  match answer with
  | none => (0, 0)
  | some ret => (ret, allocSize)

/-- A store into `vmarea_array[i]`. Behind the mapping it is a fault. -/
def store (i : ℕ) (x : Vmarea) (s : VmareaArray) : Option VmareaArray :=
  if vmareaSize * (i + 1) ≤ s.allocSize then some { s with array := Function.update s.array i x }
  else none

/-- The body of the second loop of `__init_filemaps`. -/
def fillLine (x : ScanVars × ℤ × VmareaArray) (line : List Char) :
    Option (ScanVars × ℤ × VmareaArray) := do
  let (v, i, s) := x
  let v ← v.scanFields line
  if isPrivate v.cperm then
    let v := v.scanRange
    let s ← s.store i.toNat ⟨v.startAddr, v.endAddr, 0⟩
    return (v, ← incInt i, s)
  else return (v, i, s)

/-- `__init_filemaps`, with the answer of `mmap`, what its local variables happen to hold and the
two readings of the file. A new mapping is filled with zeros. -/
def initFilemaps (answer : Option ℕ) (text₁ text₂ : List Char) (v : ScanVars) :
    Option (ℤ × VmareaArray) := do
  let (v, cnt) ← v.countLines isPrivate text₁
  let (addr, allocSize) := allocateVmareaArray (wrapSize (vmareaSize * toSizeT cnt)) answer
  let s : VmareaArray := ⟨addr, cnt, fun _ ↦ ⟨0, 0, 0⟩, allocSize⟩
  if addr = 0 then return (-1, s)
  let (_, _, s) ← (readLines 1024 text₂).foldlM fillLine (v, 0, s)
  return (0, s)

end VmareaArray

/-- What the file shows of a new private mapping of `size` bytes at `addr` that can be read and
written: nothing, a line of its own, or the line of a mapping that it adjoins. -/
inductive Remapped (addr size : ℕ) : List MapsLine → List MapsLine → Prop
  | unchanged (lines : List MapsLine) : Remapped addr size lines lines
  | inserted (before after : List MapsLine) (l : MapsLine)
      (perms : l.perms.chars = ['r', 'w', '-', 'p']) (path : l.path = none)
      (startAddr : l.startAddr.value = addr) (endAddr : l.endAddr.value = addr + size) :
      Remapped addr size (before ++ after) (before ++ l :: after)
  | enlarged (before after : List MapsLine) (l l' : MapsLine)
      (perms : l.perms.chars = ['r', 'w', '-', 'p']) (perms' : l'.perms = l.perms)
      (range : l.endAddr.value = addr ∧ l'.startAddr.value = l.startAddr.value ∧
          l'.endAddr.value = addr + size ∨
        l.startAddr.value = addr + size ∧ l'.startAddr.value = addr ∧
          l'.endAddr.value = l.endAddr.value) :
      Remapped addr size (before ++ l :: after) (before ++ l' :: after)

/-- The function has returned, and the first `__cnt` entries are those for the lines that qualify,
in the order of the lines. -/
def VmareasFilled (lines : List MapsLine) (r : Option (ℤ × VmareaArray)) : Prop :=
  ∃ s, r = some (0, s) ∧ s.cnt = (qualifying VmareaArray.isPrivate lines).length ∧
    ∀ i l, (qualifying VmareaArray.isPrivate lines)[i]? = some l →
      s.array i = ⟨l.startAddr.value, l.endAddr.value, 0⟩

/-! ### How many lines qualify -/

section Remapped

variable {addr size : ℕ} {lines lines' before after : List MapsLine} {l l' : MapsLine}

theorem onPerms_isPrivate : OnPerms VmareaArray.isPrivate := fun _ _ h ↦ by
  rw [VmareaArray.isPrivate, VmareaArray.isPrivate, h 0 (by decide), h 1 (by decide),
    h 2 (by decide), h 3 (by decide)]

/-- A private mapping that can be read and written qualifies. -/
theorem isPrivate_of_perms (h : l.perms.chars = ['r', 'w', '-', 'p']) :
    VmareaArray.isPrivate l.perm = true := by
  have hperm : ∀ i, l.perm i = ['r', 'w', '-', 'p'].getD i '\x00' := fun i ↦ by
    rw [MapsLine.perm, h]
  rw [VmareaArray.isPrivate, hperm, hperm, hperm, hperm]
  rfl

/-- One more private mapping is one more line that qualifies. -/
theorem length_qualifying_cons (hl : VmareaArray.isPrivate l.perm = true) :
    (qualifying VmareaArray.isPrivate (before ++ l :: after)).length =
      (qualifying VmareaArray.isPrivate (before ++ after)).length + 1 := by
  have hcons : (l :: after).filter (fun l ↦ VmareaArray.isPrivate l.perm) =
      l :: after.filter (fun l ↦ VmareaArray.isPrivate l.perm) := List.filter_cons_of_pos hl
  simp only [qualifying, List.filter_append, hcons, List.length_append, List.length_cons]
  omega

/-- One more line qualifies exactly if there is one more line. -/
theorem Remapped.length_qualifying (h : Remapped addr size lines lines') :
    (qualifying VmareaArray.isPrivate lines').length =
      (qualifying VmareaArray.isPrivate lines).length + (lines'.length - lines.length) ∧
    lines.length ≤ lines'.length ∧ lines'.length ≤ lines.length + 1 := by
  cases h with
  | unchanged => exact ⟨by rw [Nat.sub_self, Nat.add_zero], le_rfl, Nat.le_succ _⟩
  | inserted before after l perms =>
    rw [length_qualifying_cons (isPrivate_of_perms perms)]
    simp only [List.length_append, List.length_cons]
    omega
  | enlarged before after l l' perms perms' =>
    rw [length_qualifying_cons (isPrivate_of_perms perms),
      length_qualifying_cons (isPrivate_of_perms (perms' ▸ perms))]
    simp only [List.length_append, List.length_cons]
    omega

/-- Behind the entries that were counted there is room for one more unless they fill their pages. -/
theorem room_iff (n : ℕ) : vmareaSize * (n + 1) ≤ getAlignedSize (vmareaSize * n) pageSize ↔
    n = 0 ∨ ¬128 ∣ n := by
  obtain ⟨m, heq, hpos, hle, hleast⟩ :=
    getAlignedSize_spec (by decide : 0 < pageSize) (vmareaSize * n)
  rw [heq]
  clear heq
  simp only [vmareaSize, pageSize] at hle hleast ⊢
  constructor
  · rintro hroom
    by_contra hfull
    rw [not_or, not_not] at hfull
    obtain ⟨hn, k, rfl⟩ := hfull
    have hpages : 32 * (128 * k) = k * 4096 := by ring
    have hm := Nat.mul_le_mul_right 4096 (hleast k (by omega) hpages.le)
    linarith
  · rintro (rfl | hn)
    · omega
    · omega

end Remapped

/-! ### Filling the array -/

namespace VmareaArray

variable {lines : List MapsLine} {v : ScanVars} {s : VmareaArray} {i : ℕ}

theorem store_of_le (x : Vmarea) (h : vmareaSize * (i + 1) ≤ s.allocSize) :
    s.store i x = some { s with array := Function.update s.array i x } :=
  if_pos h

theorem store_of_lt (x : Vmarea) (h : s.allocSize < vmareaSize * (i + 1)) : s.store i x = none :=
  if_neg (not_le.2 h)

/-- The second loop of `__init_filemaps` from the entry `i` on: it fills one entry for every line
that qualifies, if all words fit in their buffers and all entries lie in the mapping and can be
counted. -/
theorem fillLines_mapsText (hi : vmareaSize * i ≤ s.allocSize ∧ i < 2147483648) :
    ((∀ l ∈ lines, l.Fits) ∧ i + (qualifying isPrivate lines).length < 2147483648 ∧
        vmareaSize * (i + (qualifying isPrivate lines).length) ≤ s.allocSize →
      ∃ v' array, (lines.map MapsLine.text).foldlM fillLine (v, (i : ℤ), s) =
          some (v', ((i + (qualifying isPrivate lines).length : ℕ) : ℤ),
            { s with array := array }) ∧
        (∀ j < i, array j = s.array j) ∧
        ∀ k l, (qualifying isPrivate lines)[k]? = some l →
          array (i + k) = ⟨l.startAddr.value, l.endAddr.value, 0⟩) ∧
    (¬((∀ l ∈ lines, l.Fits) ∧ i + (qualifying isPrivate lines).length < 2147483648 ∧
        vmareaSize * (i + (qualifying isPrivate lines).length) ≤ s.allocSize) →
      (lines.map MapsLine.text).foldlM fillLine (v, (i : ℤ), s) = none) := by
  -- on the lines, with the number of entries stored so far
  induction lines generalizing v s i with
  | nil =>
    refine ⟨fun _ ↦ ⟨v, s.array, rfl, fun _ _ ↦ rfl, fun k l hk ↦ by simp [qualifying] at hk⟩,
      fun hmany ↦ absurd ⟨fun l hl ↦ ?_, hi.2, hi.1⟩ hmany⟩
    cases hl
  | cons l lines ih =>
    rw [List.map_cons, List.foldlM_cons, fillLine, List.forall_mem_cons]
    by_cases hfits : l.Fits
    · obtain ⟨v₁, hscan, hs⟩ := MapsLine.scanFields_text hfits v
      have hqual : isPrivate v₁.cperm = isPrivate l.perm := onPerms_isPrivate _ _ hs.cperm
      simp only [hscan, Option.bind_eq_bind, Option.bind_some, hqual, hfits, true_and]
      cases hl : isPrivate l.perm with
      | false =>
        have hlines : qualifying isPrivate (l :: lines) = qualifying isPrivate lines :=
          List.filter_cons_of_neg (by simp [hl])
        rw [hlines]
        exact ih hi
      | true =>
        have hlines : qualifying isPrivate (l :: lines) = l :: qualifying isPrivate lines :=
          List.filter_cons_of_pos hl
        have hsum : i + ((qualifying isPrivate lines).length + 1) =
            i + 1 + (qualifying isPrivate lines).length := by omega
        rw [hlines, List.length_cons, hsum]
        simp only [if_true, hs.scanRange, Int.toNat_natCast]
        let x : Vmarea := ⟨l.startAddr.value, l.endAddr.value, 0⟩
        rcases Nat.lt_or_ge s.allocSize (vmareaSize * (i + 1)) with hfull | hroom
        · -- the entry lies behind the mapping
          rw [store_of_lt _ hfull]
          refine ⟨fun hfew ↦ absurd hfew.2.2 ?_, fun _ ↦ rfl⟩
          simp only [vmareaSize] at hfull ⊢
          omega
        · rw [store_of_le _ hroom, Option.bind_some]
          rcases Nat.lt_or_ge (i + 1) 2147483648 with hlt | hge
          · obtain ⟨hfew, hmany⟩ := ih (v := { v₁ with
              startAddr := l.startAddr.value, endAddr := l.endAddr.value })
              (s := { s with array := Function.update s.array i x }) (i := i + 1) ⟨hroom, hlt⟩
            rw [incInt_natCast hlt]
            refine ⟨fun h ↦ ?_, hmany⟩
            obtain ⟨v', array, hrest, hbefore, hentry⟩ := hfew h
            refine ⟨v', array, hrest, fun j hj ↦ ?_, fun k m hk ↦ ?_⟩
            · rw [hbefore j (by omega)]
              exact Function.update_of_ne (by omega) _ _
            · cases k with
              | zero =>
                obtain rfl : l = m := Option.some.inj hk
                rw [Nat.add_zero, hbefore i (Nat.lt_succ_self i)]
                exact Function.update_self ..
              | succ k =>
                rw [List.getElem?_cons_succ] at hk
                have hnext := hentry k m hk
                rwa [show i + 1 + k = i + (k + 1) by omega] at hnext
          · -- the counter has reached its end
            have hnone : incInt (i : ℤ) = none := by
              rw [incInt, if_neg (by omega)]
            rw [hnone]
            exact ⟨fun hfew ↦ absurd hfew.2.1 (by omega), fun _ ↦ rfl⟩
    · rw [MapsLine.scanFields_text_of_not_fits hfits]
      exact ⟨fun hfew ↦ absurd hfew.1.1 hfits, fun _ ↦ rfl⟩

/-- The readings do not make the function fault: the lines that qualify can be counted, those of the
second reading have room in an array that is sized after the first, and their words have room in the
buffers. -/
structure Reads (lines₁ lines₂ : List MapsLine) : Prop where
  counted : (qualifying isPrivate lines₁).length < 2147483648
  fits : ∀ l ∈ lines₂, l.Fits
  filled : (qualifying isPrivate lines₂).length < 2147483648
  room : vmareaSize * (qualifying isPrivate lines₂).length ≤
    getAlignedSize (vmareaSize * (qualifying isPrivate lines₁).length) pageSize

/-- `__init_filemaps` with a mapping for the array, on any two readings: the array is sized after
the first and filled with the lines of the second. -/
theorem initFilemaps_mapsText {addr : ℕ} (haddr : addr ≠ 0) (lines₁ lines₂ : List MapsLine)
    (v : ScanVars) :
    (Reads lines₁ lines₂ →
      ∃ s, initFilemaps (some addr) (mapsText lines₁) (mapsText lines₂) v = some (0, s) ∧
        s.vmareaArray = addr ∧ s.cnt = (qualifying isPrivate lines₁).length ∧
        ∀ i l, (qualifying isPrivate lines₂)[i]? = some l →
          s.array i = ⟨l.startAddr.value, l.endAddr.value, 0⟩) ∧
    (¬Reads lines₁ lines₂ →
      initFilemaps (some addr) (mapsText lines₁) (mapsText lines₂) v = none) := by
  obtain ⟨hcounted, hoverflow⟩ := countLines_mapsText onPerms_isPrivate lines₁ v
  rw [initFilemaps]
  rcases Nat.lt_or_ge (qualifying isPrivate lines₁).length 2147483648 with hlt | hge
  · obtain ⟨v₁, hcount, -⟩ := hcounted hlt
    let s₁ : VmareaArray := ⟨addr, ((qualifying isPrivate lines₁).length : ℤ), fun _ ↦ ⟨0, 0, 0⟩,
      getAlignedSize (vmareaSize * (qualifying isPrivate lines₁).length) pageSize⟩
    have hsize : wrapSize (vmareaSize * toSizeT ((qualifying isPrivate lines₁).length : ℤ)) =
        vmareaSize * (qualifying isPrivate lines₁).length := by
      rw [toSizeT_natCast (by omega)]
      exact wrapSize_of_lt (by simp only [vmareaSize]; omega)
    obtain ⟨hfew, hmany⟩ := @fillLines_mapsText lines₂ v₁ s₁ 0 ⟨Nat.zero_le _, by decide⟩
    rw [Nat.zero_add] at hfew hmany
    simp only [Option.bind_eq_bind, hcount, Option.bind_some, allocateVmareaArray, hsize,
      if_neg haddr, readLines_mapsText]
    refine ⟨fun h ↦ ?_, fun hnot ↦ ?_⟩
    · obtain ⟨v', array, hrun, -, hentry⟩ := hfew ⟨h.fits, h.filled, h.room⟩
      refine ⟨{ s₁ with array := array }, ?_, rfl, rfl, fun i l hil ↦ ?_⟩
      · have hrun' : (lines₂.map MapsLine.text).foldlM fillLine (v₁, (0 : ℤ), s₁) = _ := hrun
        rw [hrun']
        rfl
      · have hi := hentry i l hil
        rwa [Nat.zero_add] at hi
    · have hrun : (lines₂.map MapsLine.text).foldlM fillLine (v₁, (0 : ℤ), s₁) = none :=
        hmany fun h ↦ hnot ⟨hlt, h.1, h.2.1, h.2.2⟩
      rw [hrun]
      rfl
  · refine ⟨fun h ↦ absurd h.counted (not_lt.2 hge), fun _ ↦ ?_⟩
    simp only [Option.bind_eq_bind, hoverflow hge, Option.bind_none]

/-- The function returns exactly if the readings do not make it fault. -/
theorem isSome_initFilemaps_iff {addr : ℕ} (haddr : addr ≠ 0) (lines₁ lines₂ : List MapsLine)
    (v : ScanVars) : (initFilemaps (some addr) (mapsText lines₁) (mapsText lines₂) v).isSome ↔
      Reads lines₁ lines₂ := by
  obtain ⟨hreads, hfault⟩ := initFilemaps_mapsText haddr lines₁ lines₂ v
  constructor
  · intro hsome
    by_contra h
    rw [hfault h] at hsome
    cases hsome
  · intro h
    obtain ⟨s, hrun, -⟩ := hreads h
    rw [hrun]
    rfl

/-- All lines that qualify have counted entries exactly if the function returns and the two readings
have equally many. -/
theorem vmareasFilled_iff_reads {addr : ℕ} (haddr : addr ≠ 0) (lines₁ lines₂ : List MapsLine)
    (v : ScanVars) :
    VmareasFilled lines₂ (initFilemaps (some addr) (mapsText lines₁) (mapsText lines₂) v) ↔
      Reads lines₁ lines₂ ∧
        (qualifying isPrivate lines₂).length = (qualifying isPrivate lines₁).length := by
  obtain ⟨hreads, -⟩ := initFilemaps_mapsText haddr lines₁ lines₂ v
  constructor
  · rintro ⟨s, hrun, hcnt, -⟩
    have h : Reads lines₁ lines₂ := (isSome_initFilemaps_iff haddr lines₁ lines₂ v).1 (by
      rw [hrun]
      rfl)
    obtain ⟨s', hrun', -, hcnt', -⟩ := hreads h
    obtain rfl : s' = s := congrArg Prod.snd (Option.some.inj (hrun'.symm.trans hrun))
    exact ⟨h, Int.ofNat.inj (hcnt.symm.trans hcnt')⟩
  · rintro ⟨h, hlength⟩
    obtain ⟨s, hrun, -, hcnt, hentry⟩ := hreads h
    exact ⟨s, hrun, by rw [hcnt, hlength], hentry⟩

end VmareaArray

/-- For any lines of the file, and whatever it shows of the mapping that the array lies in, the
first `__cnt` entries are those for the lines of the second reading exactly if the new mapping has
no line of its own and the words of the lines fit in their buffers. With a line of its own, the
writes stay in the array unless the entries that were counted fill their pages. -/
theorem vmareas_filled_iff {addr : ℕ} (haddr : addr ≠ 0) {lines₁ lines₂ : List MapsLine}
    (h : Remapped addr (getAlignedSize (vmareaSize *
      (qualifying VmareaArray.isPrivate lines₁).length) pageSize) lines₁ lines₂) (v : ScanVars) :
    (VmareasFilled lines₂
        (VmareaArray.initFilemaps (some addr) (mapsText lines₁) (mapsText lines₂) v) ↔
      lines₂.length = lines₁.length ∧ (∀ l ∈ lines₂, l.Fits) ∧
        (qualifying VmareaArray.isPrivate lines₁).length < 2147483648) ∧
    ((VmareaArray.initFilemaps (some addr) (mapsText lines₁) (mapsText lines₂) v).isSome ↔
      (lines₂.length = lines₁.length ∨ (qualifying VmareaArray.isPrivate lines₁).length = 0 ∨
          ¬128 ∣ (qualifying VmareaArray.isPrivate lines₁).length) ∧
        (∀ l ∈ lines₂, l.Fits) ∧
        (qualifying VmareaArray.isPrivate lines₂).length < 2147483648) := by
  obtain ⟨hcount, hle, hle'⟩ := h.length_qualifying
  rw [VmareaArray.vmareasFilled_iff_reads haddr, VmareaArray.isSome_initFilemaps_iff haddr]
  -- the second reading shows as many lines as the first, or one more
  rcases hle.eq_or_lt with hsame | hmore
  · have hlength : (qualifying VmareaArray.isPrivate lines₂).length =
        (qualifying VmareaArray.isPrivate lines₁).length := by omega
    have hreads : VmareaArray.Reads lines₁ lines₂ ↔ (∀ l ∈ lines₂, l.Fits) ∧
        (qualifying VmareaArray.isPrivate lines₁).length < 2147483648 := by
      refine ⟨fun h ↦ ⟨h.fits, h.counted⟩, fun ⟨hfits, hlt⟩ ↦ ⟨hlt, hfits, hlength ▸ hlt, ?_⟩⟩
      rw [hlength]
      exact le_getAlignedSize (by decide) _
    simp only [hreads, hlength, hsame, and_true, true_and, true_or]
  · have hone : (qualifying VmareaArray.isPrivate lines₂).length =
        (qualifying VmareaArray.isPrivate lines₁).length + 1 := by omega
    have hroom := room_iff (qualifying VmareaArray.isPrivate lines₁).length
    rw [← hone] at hroom
    refine ⟨iff_of_false (fun h ↦ by omega) fun h ↦ by omega, ?_⟩
    rw [← hroom]
    constructor
    · intro h
      exact ⟨.inr h.room, h.fits, h.filled⟩
    · rintro ⟨hor, hfits, hlt⟩
      exact ⟨by omega, hfits, hlt, hor.resolve_left hmore.ne'⟩

/-! ### A file with one private mapping -/

/-- The line of an anonymous private mapping that can be read and written. -/
def MapsLine.readWrite (startAddr endAddr : HexNumber 16) : MapsLine :=
  .anonymous startAddr endAddr
    ⟨['r', 'w', '-', 'p'], .of_all (by decide) rfl, .of_all rfl, by decide⟩ rfl

/-- The new mapping adjoins the only one there was. -/
theorem vmareas_filled_iff_enlarged : VmareasFilled [.readWrite (.page 0) (.page 2)]
    (VmareaArray.initFilemaps (some 4198400) (mapsText [.readWrite (.page 0) (.page 1)])
      (mapsText [.readWrite (.page 0) (.page 2)]) .zero) := by
  have hremapped : Remapped 4198400 (getAlignedSize (vmareaSize * (qualifying VmareaArray.isPrivate
      [.readWrite (.page 0) (.page 1)]).length) pageSize)
      [.readWrite (.page 0) (.page 1)] [.readWrite (.page 0) (.page 2)] :=
    .enlarged [] [] _ _ rfl rfl (.inl ⟨by decide, rfl, by decide⟩)
  refine (vmareas_filled_iff (by decide) hremapped _).1.2 ⟨rfl, ?_, by decide⟩
  rw [List.forall_mem_singleton]
  exact MapsLine.plain_anonymous.fits

/-- The new mapping has a line of its own: one entry was counted, and two lines qualify. -/
theorem not_vmareas_filled :
    Remapped 4202496 4096 [.readWrite (.page 0) (.page 1)]
        [.readWrite (.page 0) (.page 1), .readWrite (.page 2) (.page 3)] ∧
      ¬VmareasFilled [.readWrite (.page 0) (.page 1), .readWrite (.page 2) (.page 3)]
        (VmareaArray.initFilemaps (some 4202496) (mapsText [.readWrite (.page 0) (.page 1)])
          (mapsText [.readWrite (.page 0) (.page 1), .readWrite (.page 2) (.page 3)]) .zero) := by
  constructor
  · exact .inserted [.readWrite (.page 0) (.page 1)] [] _ rfl rfl (by decide) (by decide)
  · intro h
    have hlength := ((VmareaArray.vmareasFilled_iff_reads (by decide) _ _ _).1 h).2
    exact absurd hlength (by decide)

end Memchk
