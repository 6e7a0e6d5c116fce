import Memchk.Allocator.Basic
import Mathlib.Algebra.Order.BigOperators.Group.Finset

/-!
# The bitmap of a pool page

The three words of a page's bitmap, read as one row of 192 bits (`MemblkPoolHeader.bit`). Setting
and clearing a bit act on that row as expected, and the scan of `__get_lowest_bit` finds the lowest
bit set below the capacity, provided the bits from the capacity on are all set.

## From words to a row

`bitmapBit` splits an index into a word and a bit of the word by three comparisons, as the source
does. `MemblkPoolHeader.bit_word` is the way back: bit `i` of word `w` is bit `64 * w + i` of the
row. All that follows is stated about the row.

## The scan

`__builtin_ffsl` gives the position of the lowest bit set of a word, counted from one, and `0` for a
word without. `getLowestBit_spec` says what the scan over three words gives: `-1` if no bit below
the capacity is set, and the lowest one otherwise. The bits from the capacity on are set by
`__init_header` and stay set; were one of them cleared, the scan would still be right, but a full
page could not be told from one with a free slot.

## The invariant of a header

`HeaderOk` is what every header keeps: the bits from the capacity on are set, and the counter
`num_free` is the number of bits set below it. Taking a slot and giving it back keep it
(`HeaderOk.clear`, `HeaderOk.set`), and with it `num_free = 0` says that no slot is free.
-/

namespace Memchk

namespace MemblkPoolHeader

/-- Bit `i` of the bitmap: set when slot `i` is free. -/
def bit (x : MemblkPoolHeader) (i : ℕ) : Bool :=
  (x.bitmap (bitmapBit i).1).getLsbD (bitmapBit i).2

/-- The slots below `n` whose bit is set. -/
def freeSlots (n : ℕ) (x : MemblkPoolHeader) : Finset ℕ :=
  (Finset.range n).filter fun i ↦ x.bit i = true

theorem mem_freeSlots {n i : ℕ} {x : MemblkPoolHeader} :
    i ∈ x.freeSlots n ↔ i < n ∧ x.bit i = true := by
  simp [freeSlots]

end MemblkPoolHeader

/-- A header in order: its sizes, all bits from the capacity `n` on set, and `num_free` the number
of bits set below. -/
structure HeaderOk (n : ℕ) (x : MemblkPoolHeader) : Prop where
  size : x.size = 80
  num : x.numMemblkInPool = n
  tail : ∀ i, n ≤ i → i < 192 → x.bit i = true
  numFree : x.numFree = (x.freeSlots n).card

/-- The comparisons of `__get_bitmap_bit` divide the row into three words. -/
theorem bitmapBit_natCast {i : ℕ} (h : i < 192) :
    bitmapBit i = if i < 64 then (0, i) else if i < 128 then (1, i - 64) else (2, i - 128) := by
  unfold bitmapBit
  rw [toSizeT_natCast (by omega)]

/-- The row of bits, word by word. -/
theorem MemblkPoolHeader.bit_word {x : MemblkPoolHeader} (w : Fin 3) {i : ℕ} (h : i < 64) :
    x.bit (64 * w + i) = (x.bitmap w).getLsbD i := by
  have hw := w.isLt
  rw [MemblkPoolHeader.bit, bitmapBit_natCast (by omega)]
  fin_cases w
  · simp [h]
  · simp [h, show 64 + i < 128 by omega]
  · simp [show ¬ 128 + i < 64 by omega]

/-! ### The scan -/

/-- `__builtin_ffsl` is zero for the word without bits. -/
theorem builtinFfsl_eq_zero_iff {x : BitVec 64} :
    builtinFfsl x = 0 ↔ ∀ i < 64, x.getLsbD i = false := by
  unfold builtinFfsl
  cases h : (List.range 64).find? fun i ↦ x.getLsbD i with
  | none =>
    rw [List.find?_eq_none] at h
    simpa using h
  | some i =>
    have hi := List.mem_of_find?_eq_some h
    have hbit := List.find?_some h
    simp only [Nat.add_eq_zero_iff, one_ne_zero, and_false, false_iff, not_forall]
    exact ⟨i, List.mem_range.1 hi, by simp [hbit]⟩

/-- Where it is not zero, `__builtin_ffsl` is one more than the position of the lowest bit set. -/
theorem builtinFfsl_spec {x : BitVec 64} (h : builtinFfsl x ≠ 0) :
    ∃ i < 64, builtinFfsl x = i + 1 ∧ x.getLsbD i = true ∧ ∀ j < i, x.getLsbD j = false := by
  unfold builtinFfsl at h ⊢
  cases hf : (List.range 64).find? fun i ↦ x.getLsbD i with
  | none => simp [hf] at h
  | some i =>
    obtain ⟨hbit, k, hk, hget, hlow⟩ := List.find?_eq_some_iff_getElem.1 hf
    have hki : k = i := by simpa using hget
    subst hki
    simp only [List.length_range] at hk
    refine ⟨k, hk, rfl, hbit, fun j hj ↦ ?_⟩
    simpa using hlow j hj

/-- The scan of one word, in terms of the row. -/
theorem builtinFfsl_word (x : MemblkPoolHeader) (w : Fin 3) :
    (builtinFfsl (x.bitmap w) = 0 ∧ ∀ j, 64 * (w : ℕ) ≤ j → j < 64 * w + 64 → x.bit j = false) ∨
      ∃ i, builtinFfsl (x.bitmap w) = i + 1 ∧ i < 64 ∧ x.bit (64 * w + i) = true ∧
        ∀ j, 64 * (w : ℕ) ≤ j → j < 64 * w + i → x.bit j = false := by
  by_cases h : builtinFfsl (x.bitmap w) = 0
  · refine .inl ⟨h, fun j hj hj' ↦ ?_⟩
    obtain ⟨k, rfl⟩ := Nat.exists_eq_add_of_le hj
    rw [MemblkPoolHeader.bit_word w (by omega)]
    exact builtinFfsl_eq_zero_iff.1 h k (by omega)
  · obtain ⟨i, hi, heq, hbit, hlow⟩ := builtinFfsl_spec h
    refine .inr ⟨i, heq, hi, by rw [MemblkPoolHeader.bit_word w hi, hbit], fun j hj hj' ↦ ?_⟩
    obtain ⟨k, rfl⟩ := Nat.exists_eq_add_of_le hj
    rw [MemblkPoolHeader.bit_word w (by omega)]
    exact hlow k (by omega)

/-- The three words are scanned as one row: `__get_lowest_bit` finds the lowest bit set below the
capacity and reports `-1` when there is none. The bits from the capacity on are set, which stops
the scan there; with a capacity of 192 there would be no such bit and the scan would go wrong. -/
theorem getLowestBit_spec {n : ℕ} {x : MemblkPoolHeader} (hn : n ≤ 191) (hx : HeaderOk n x) :
    (getLowestBit x = -1 ∧ ∀ i < n, x.bit i = false) ∨
      ∃ i < n, getLowestBit x = i ∧ x.bit i = true ∧ ∀ j < i, x.bit j = false := by
  have hnum := hx.num
  have htail := hx.tail n le_rfl (by omega)
  -- a bit found at or past the capacity means that there is none below
  have hend : ∀ (w : Fin 3) (i : ℕ), n ≤ 64 * w + i →
      (∀ j : ℕ, j < 64 * w → x.bit j = false) →
      (∀ j, 64 * (w : ℕ) ≤ j → j < 64 * w + i → x.bit j = false) → ∀ j < n, x.bit j = false := by
    intro w i hni hbefore hword j hj
    rcases Nat.lt_or_ge j (64 * w) with hlt | hge
    · exact hbefore j hlt
    · exact hword j hge (by omega)
  rcases builtinFfsl_word x 0 with ⟨h0, hw0⟩ | ⟨i, h0, hi, hbit, hlow⟩
  · rcases builtinFfsl_word x 1 with ⟨h1, hw1⟩ | ⟨i, h1, hi, hbit, hlow⟩
    · have h01 : ∀ j < 128, x.bit j = false := by
        intro j hj
        rcases Nat.lt_or_ge j 64 with hlt | hge
        · exact hw0 j (by simp) (by simpa using hlt)
        · exact hw1 j (by simpa using hge) (by simpa using hj)
      rcases builtinFfsl_word x 2 with ⟨h2, hw2⟩ | ⟨i, h2, hi, hbit, hlow⟩
      · by_cases hn1 : n ≤ 128
        · refine .inl ⟨?_, fun j hj ↦ h01 j (by omega)⟩
          simp only [getLowestBit, h0, h1, hnum, if_true, if_pos hn1, ite_self]
        · rw [hw2 n (by simp; omega) (by simp; omega)] at htail
          exact absurd htail (by simp)
      · simp only [getLowestBit, h0, h1, h2, hnum, if_true]
        by_cases hle : i + 1 + 128 ≤ n
        · refine .inr ⟨128 + i, by omega, ?_, hbit, fun j hj ↦ ?_⟩
          · rw [if_neg (by omega), if_neg (by omega), if_pos hle]
            push_cast
            omega
          · rcases Nat.lt_or_ge j 128 with hlt | hge
            · exact h01 j hlt
            · exact hlow j hge hj
        · refine .inl ⟨?_, hend 2 i (by simp; omega) h01 hlow⟩
          rw [if_neg hle, ite_self, ite_self]
    · have hb : ∀ j < 64, x.bit j = false := fun j hj ↦ hw0 j (by simp) (by simpa using hj)
      simp only [getLowestBit, h0, h1, hnum, if_true, Nat.add_eq_zero_iff, one_ne_zero, and_false,
        if_false]
      by_cases hle : i + 1 + 64 ≤ n
      · refine .inr ⟨64 + i, by omega, ?_, hbit, fun j hj ↦ ?_⟩
        · rw [if_neg (by omega), if_pos hle]
          push_cast
          omega
        · rcases Nat.lt_or_ge j 64 with hlt | hge
          · exact hb j hlt
          · exact hlow j hge hj
      · refine .inl ⟨?_, hend 1 i (by simp; omega) hb hlow⟩
        rw [if_neg hle, ite_self]
  · simp only [getLowestBit, h0, hnum, Nat.add_eq_zero_iff, one_ne_zero, and_false, if_false]
    by_cases hle : i + 1 ≤ n
    · refine .inr ⟨i, by omega, ?_, by simpa using hbit, fun j hj ↦ ?_⟩
      · rw [if_pos hle]
        push_cast
        omega
      · exact hlow j (by simp) (by simpa using hj)
    · refine .inl ⟨if_neg hle, hend 0 i (by simp; omega) (by simp) hlow⟩

/-! ### Setting and clearing -/

theorem bitmapBit_snd_lt {i : ℕ} (h : i < 192) : (bitmapBit i).2 < 64 := by
  rw [bitmapBit_natCast h]
  split_ifs <;> simp only <;> omega

/-- Two indices of the row are never the same bit of the same word. -/
theorem bitmapBit_injOn {i j : ℕ} (hi : i < 192) (hj : j < 192) (h : bitmapBit i = bitmapBit j) :
    i = j := by
  rw [bitmapBit_natCast hi, bitmapBit_natCast hj] at h
  split_ifs at h <;> simp_all <;> omega

/-- The mask of a bit has that bit set and no other. -/
theorem getLsbD_one_shiftLeft {k j : ℕ} (hk : k < 64) :
    (1#64 <<< k).getLsbD j = decide (j = k) := by
  rw [BitVec.getLsbD_shiftLeft, BitVec.getLsbD_one]
  by_cases h : j = k
  · subst h
    simp [hk]
  · simp only [h, decide_false]
    by_cases hlt : j < k
    · simp [hlt]
    · simp [show j - k ≠ 0 by omega]

/-- Setting a bit sets that bit of the row. -/
theorem bit_setBitmap {x : MemblkPoolHeader} {i j : ℕ} (hi : i < 192) (hj : j < 192) :
    (setBitmap i x).bit j = (x.bit j || decide (j = i)) := by
  have hpos := bitmapBit_snd_lt hi
  have hinj := bitmapBit_injOn hj hi
  simp only [setBitmap, MemblkPoolHeader.bit]
  by_cases hw : (bitmapBit j).1 = (bitmapBit i).1
  · rw [hw, Function.update_self, BitVec.getLsbD_or, getLsbD_one_shiftLeft hpos]
    congr 2
    exact propext ⟨fun h ↦ hinj (Prod.ext hw h), fun h ↦ by rw [h]⟩
  · rw [Function.update_of_ne hw]
    have hne : j ≠ i := fun h ↦ hw (by rw [h])
    simp [hne]

/-- Clearing a bit clears that bit of the row. -/
theorem bit_clearBitmap {x : MemblkPoolHeader} {i j : ℕ} (hi : i < 192) (hj : j < 192) :
    (clearBitmap i x).bit j = (x.bit j && !decide (j = i)) := by
  have hpos := bitmapBit_snd_lt hi
  have hinj := bitmapBit_injOn hj hi
  simp only [clearBitmap, MemblkPoolHeader.bit]
  by_cases hw : (bitmapBit j).1 = (bitmapBit i).1
  · rw [hw, Function.update_self, BitVec.getLsbD_and, BitVec.getLsbD_not,
      getLsbD_one_shiftLeft hpos, decide_eq_true (bitmapBit_snd_lt hj), Bool.true_and]
    congr 3
    exact propext ⟨fun h ↦ hinj (Prod.ext hw h), fun h ↦ by rw [h]⟩
  · rw [Function.update_of_ne hw]
    have hne : j ≠ i := fun h ↦ hw (by rw [h])
    simp [hne]

/-- The two tests for a free slot agree: the counter is zero exactly when the scan finds nothing. -/
theorem HeaderOk.numFree_eq_zero_iff {n : ℕ} {x : MemblkPoolHeader} (hx : HeaderOk n x) :
    x.numFree = 0 ↔ ∀ i < n, x.bit i = false := by
  rw [hx.numFree, Nat.cast_eq_zero, Finset.card_eq_zero, Finset.eq_empty_iff_forall_notMem]
  refine forall_congr' fun i ↦ ?_
  rw [MemblkPoolHeader.mem_freeSlots, not_and, Bool.not_eq_true]

/-- Marking a free slot as taken keeps the header in order. -/
theorem HeaderOk.clear {n i : ℕ} {x : MemblkPoolHeader} (hx : HeaderOk n x) (hn : n ≤ 191)
    (hi : i < n) (hbit : x.bit i = true) :
    HeaderOk n { clearBitmap i x with numFree := x.numFree - 1 } where
  size := hx.size
  num := hx.num
  tail j hj hj' := by
    change (clearBitmap i x).bit j = true
    rw [bit_clearBitmap (by omega) hj', hx.tail j hj hj']
    simp [show j ≠ i by omega]
  numFree := by
    have hfree : MemblkPoolHeader.freeSlots n
        { clearBitmap i x with numFree := x.numFree - 1 } = (x.freeSlots n).erase i := by
      ext j
      rw [MemblkPoolHeader.mem_freeSlots, Finset.mem_erase, MemblkPoolHeader.mem_freeSlots]
      change j < n ∧ (clearBitmap i x).bit j = true ↔ _
      constructor
      · rintro ⟨hj, hb⟩
        rw [bit_clearBitmap (by omega) (by omega)] at hb
        simp only [Bool.and_eq_true, Bool.not_eq_true', decide_eq_false_iff_not] at hb
        exact ⟨hb.2, hj, hb.1⟩
      · rintro ⟨hne, hj, hb⟩
        rw [bit_clearBitmap (by omega) (by omega)]
        simp [hb, hne, hj]
    have hmem : i ∈ x.freeSlots n := MemblkPoolHeader.mem_freeSlots.2 ⟨hi, hbit⟩
    have hpos := Finset.card_pos.2 ⟨i, hmem⟩
    change x.numFree - 1 = _
    rw [hfree, Finset.card_erase_of_mem hmem, hx.numFree]
    omega

/-- Marking a taken slot as free keeps the header in order. -/
theorem HeaderOk.set {n i : ℕ} {x : MemblkPoolHeader} (hx : HeaderOk n x) (hn : n ≤ 191)
    (hi : i < n) (hbit : x.bit i = false) :
    HeaderOk n { setBitmap i x with numFree := x.numFree + 1 } where
  size := hx.size
  num := hx.num
  tail j hj hj' := by
    change (setBitmap i x).bit j = true
    rw [bit_setBitmap (by omega) hj', hx.tail j hj hj', Bool.true_or]
  numFree := by
    have hfree : MemblkPoolHeader.freeSlots n
        { setBitmap i x with numFree := x.numFree + 1 } = insert i (x.freeSlots n) := by
      ext j
      rw [MemblkPoolHeader.mem_freeSlots, Finset.mem_insert, MemblkPoolHeader.mem_freeSlots]
      change j < n ∧ (setBitmap i x).bit j = true ↔ _
      constructor
      · rintro ⟨hj, hb⟩
        rw [bit_setBitmap (by omega) (by omega)] at hb
        simp only [Bool.or_eq_true, decide_eq_true_eq] at hb
        exact hb.symm.imp_right fun hb ↦ ⟨hj, hb⟩
      · rintro (rfl | ⟨hj, hb⟩)
        · rw [bit_setBitmap (by omega) (by omega)]
          simp [hi]
        · rw [bit_setBitmap (by omega) (by omega)]
          simp [hb, hj]
    have hmem : i ∉ x.freeSlots n := fun h ↦ by
      rw [(MemblkPoolHeader.mem_freeSlots.1 h).2] at hbit
      exact absurd hbit (by simp)
    change x.numFree + 1 = _
    rw [hfree, Finset.card_insert_of_notMem hmem, hx.numFree]
    push_cast
    rfl

end Memchk
