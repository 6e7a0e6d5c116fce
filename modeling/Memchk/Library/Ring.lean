import Mathlib.Data.List.Basic
import Mathlib.Logic.Function.Basic
import Mathlib.Tactic

/-!
# The last values put into a ring

An array of `size` entries that is written round and round: the value number `k` goes to the entry
`k % size` and takes the place of what was put there `size` values before. `LastValues size k array
null l` says that after `k` values the array holds the values `l`, the last `min size k` ones,
oldest first, and `null` where nothing was put yet.

## Two phases

As long as `k < size` a value takes the place of `null` and nothing is lost
(`LastValues.push_of_lt`). From then on it takes the place of the oldest value, which leaves the
list (`LastValues.push_of_le`). The array read from the current index on, round and round, is the
list once it is full (`LastValues.eq_rotate`), and so are, at any time, its entries that are not
`null` (`LastValues.eq_filter`).
-/

variable {α : Type*}

/-- The array holds the last `min size k` of `k` values. -/
structure LastValues (size k : ℕ) (array : ℕ → α) (null : α) (l : List α) : Prop where
  length : l.length = min size k
  get : ∀ i, i < min size k → l[i]? = some (array ((k - min size k + i) % size))
  null : ∀ j, k ≤ j → j < size → array j = null

namespace LastValues

variable {size k : ℕ} {array : ℕ → α} {null : α} {l : List α}

theorem empty (size : ℕ) (h : ∀ j, j < size → array j = null) :
    LastValues size 0 array null [] :=
  ⟨by simp, fun _ hi ↦ by omega, fun j _ hj ↦ h j hj⟩

/-- The first round fills the array up. -/
theorem push_of_lt (h : LastValues size k array null l) (hk : k < size) (x : α) :
    array (k % size) = null ∧
      LastValues size (k + 1) (Function.update array (k % size) x) null (l ++ [x]) := by
  have hlen : l.length = k := by rw [h.length, min_eq_right hk.le]
  have hmod : k % size = k := Nat.mod_eq_of_lt hk
  refine ⟨by rw [hmod]; exact h.null k le_rfl hk, ?_, fun i hi ↦ ?_, fun j hj hj' ↦ ?_⟩
  · rw [List.length_append, List.length_singleton, hlen, min_eq_right hk]
  · rw [min_eq_right hk] at hi ⊢
    rw [Nat.sub_self, Nat.zero_add, hmod, Nat.mod_eq_of_lt (by omega : i < size)]
    by_cases hik : i = k
    · subst hik
      rw [Function.update_self, List.getElem?_append_right (by omega), hlen, Nat.sub_self]
      rfl
    · have hget := h.get i (by omega)
      rw [min_eq_right hk.le, Nat.sub_self, Nat.zero_add, Nat.mod_eq_of_lt (by omega)] at hget
      rw [Function.update_of_ne hik, List.getElem?_append_left (by omega), hget]
  · rw [Function.update_of_ne (by omega)]
    exact h.null j (by omega) hj'

/-- Later the oldest value is replaced. -/
theorem push_of_le (h : LastValues size k array null l) (hpos : 0 < size) (hk : size ≤ k) (x : α) :
    ∃ l', l = array (k % size) :: l' ∧
      LastValues size (k + 1) (Function.update array (k % size) x) null (l' ++ [x]) := by
  have hmin : min size k = size := min_eq_left hk
  have hmin' : min size (k + 1) = size := min_eq_left (by omega)
  have hlen := h.length
  obtain ⟨y, l', rfl⟩ := List.exists_cons_of_length_pos (by omega : 0 < l.length)
  have hhead : array (k % size) = y := by
    have hget := h.get 0 (by omega)
    rw [hmin, Nat.add_zero, ← Nat.mod_eq_sub_mod hk] at hget
    simpa using hget.symm
  rw [List.length_cons, hmin] at hlen
  refine ⟨l', by rw [hhead], ?_, fun i hi ↦ ?_, fun j hj hj' ↦ by omega⟩
  · rw [List.length_append, List.length_singleton, hlen, hmin']
  · rw [hmin'] at hi ⊢
    rw [show k + 1 - size + i = k - size + (i + 1) by omega]
    by_cases hlast : i + 1 = size
    · rw [hlast, Nat.sub_add_cancel hk, Function.update_self,
        List.getElem?_append_right (by omega), show i - l'.length = 0 by omega]
      rfl
    · have hne : (k - size + (i + 1)) % size ≠ k % size := by
        intro heq
        rw [Nat.mod_eq_sub_mod hk] at heq
        have hmodEq : k - size + (i + 1) ≡ k - size + 0 [MOD size] := heq
        have := Nat.ModEq.add_left_cancel' _ hmodEq
        rw [Nat.ModEq, Nat.mod_eq_of_lt (by omega), Nat.mod_eq_of_lt (by omega)] at this
        omega
      have hget := h.get (i + 1) (by omega)
      rw [hmin, List.getElem?_cons_succ] at hget
      rw [Function.update_of_ne hne, List.getElem?_append_left (by omega), hget]

/-- The value put in last. -/
theorem get_last {x : α} (h : LastValues size (k + 1) array null (l ++ [x])) :
    array (k % size) = x := by
  have hlen := h.length
  rw [List.length_append, List.length_singleton] at hlen
  have hget := h.get l.length (by omega)
  have hidx : k + 1 - min size (k + 1) + l.length = k := by omega
  rw [hidx, List.getElem?_concat_length, Option.some_inj] at hget
  exact hget.symm

/-- A ring that is full holds its values from the oldest one on. -/
theorem eq_rotate (h : LastValues size k array null l) (hpos : 0 < size) (hk : size ≤ k) :
    l = ((List.range size).map array).rotate (k % size) := by
  have hmin : min size k = size := min_eq_left hk
  have hlen : l.length = size := h.length.trans hmin
  refine List.ext_getElem? fun i ↦ ?_
  rcases Nat.lt_or_ge i size with hi | hi
  · have hget := h.get i (by omega)
    have hmod : (k - size + i) % size = (i + k % size) % size := by
      rw [Nat.mod_eq_sub_mod hk, Nat.add_mod_mod, Nat.add_comm]
    rw [hget, hmin, hmod, List.getElem?_rotate (by simpa using hi), List.length_map,
      List.length_range, List.getElem?_map, List.getElem?_range (Nat.mod_lt _ hpos)]
    rfl
  · rw [List.getElem?_eq_none (by omega), List.getElem?_eq_none (by simpa using hi)]

/-- The values held are what is not `null` when the array is read once around from place `k` on. -/
theorem eq_filter [DecidableEq α] (h : LastValues size k array null l) (hnull : null ∉ l) :
    l = ((List.range size).map fun i ↦ array ((k + i) % size)).filter fun x ↦ x ≠ null := by
  have hself : l.filter (fun x ↦ x ≠ null) = l :=
    List.filter_eq_self.2 fun x hx ↦ decide_eq_true fun heq ↦ hnull (heq ▸ hx)
  have hlen := h.length
  have hle : min size k ≤ size := min_le_left _ _
  have hvalues : ((List.range size).map fun i ↦ array ((k + i) % size)) =
      List.replicate (size - min size k) null ++ l := by
    refine List.ext_getElem? fun i ↦ ?_
    rcases Nat.lt_or_ge i size with hi | hi
    · rw [List.getElem?_map, List.getElem?_range hi, Option.map_some]
      rcases Nat.lt_or_ge i (size - min size k) with hi' | hi'
      · -- the array is not full yet
        have hk : k + i < size := by omega
        rw [List.getElem?_append_left (by rwa [List.length_replicate]),
          List.getElem?_replicate_of_lt hi', Nat.mod_eq_of_lt hk, h.null _ (by omega) hk]
      · have hget := h.get (i - (size - min size k)) (by omega)
        have hmod : k + i = k - min size k + (i - (size - min size k)) + size := by omega
        rw [List.getElem?_append_right (by rwa [List.length_replicate]),
          List.length_replicate, hget,
          hmod, Nat.add_mod_right]
    · rw [List.getElem?_eq_none (by simpa using hi), List.getElem?_eq_none (by simp; omega)]
  rw [hvalues, List.filter_append, hself]
  simp

/-- The values held are the entries of the array that are not `null`. -/
theorem perm [DecidableEq α] (h : LastValues size k array null l) (hnull : null ∉ l) :
    (((List.range size).map array).filter fun x ↦ x ≠ null).Perm l := by
  have hself : l.filter (fun x ↦ x ≠ null) = l :=
    List.filter_eq_self.2 fun x hx ↦ decide_eq_true fun heq ↦ hnull (heq ▸ hx)
  rcases Nat.lt_or_ge k size with hk | hk
  · -- the entries from `k` on are `null`
    have hmin : min size k = k := min_eq_right hk.le
    have hvalues : (List.range size).map array = l ++ List.replicate (size - k) null := by
      refine List.ext_getElem? fun i ↦ ?_
      rw [List.getElem?_map]
      rcases Nat.lt_or_ge i k with hi | hi
      · have hget := h.get i (by omega)
        rw [hmin, Nat.sub_self, Nat.zero_add, Nat.mod_eq_of_lt (by omega)] at hget
        rw [List.getElem?_append_left (by rw [h.length]; omega), hget,
          List.getElem?_range (by omega)]
        rfl
      · rw [List.getElem?_append_right (by rw [h.length]; omega), h.length, hmin,
          List.getElem?_replicate]
        split_ifs with hin
        · rw [List.getElem?_range (by omega), Option.map_some, h.null i hi (by omega)]
        · rw [List.getElem?_eq_none (by rw [List.length_range]; omega)]
          rfl
    have hrest : (List.replicate (size - k) null).filter (fun x ↦ x ≠ null) = [] := by
      simp
    rw [hvalues, List.filter_append, hself, hrest, List.append_nil]
  · rcases Nat.eq_zero_or_pos size with rfl | hpos
    · have hlen := h.length
      rw [Nat.zero_min] at hlen
      rw [List.eq_nil_of_length_eq_zero hlen]
      exact List.Perm.refl _
    · have hrotate := h.eq_rotate hpos hk
      have hperm : l.Perm ((List.range size).map array) := by
        rw [hrotate]
        exact List.rotate_perm _ _
      exact (hperm.symm.filter _).trans (by rw [hself])

end LastValues

/-- The next place on a ring, found with one comparison. -/
theorem ite_succ_mod_eq {size k : ℕ} (hpos : 0 < size) :
    (if k % size + 1 = size then 0 else k % size + 1) = (k + 1) % size := by
  have hlt := Nat.mod_lt k hpos
  have hmod : (k + 1) % size = (k % size + 1) % size := (Nat.mod_add_mod k size 1).symm
  split_ifs with h
  · rw [hmod, h, Nat.mod_self]
  · have hlt' : k % size + 1 < size := by omega
    rw [hmod, Nat.mod_eq_of_lt hlt']
