import Mathlib.Data.Set.Card
import Mathlib.Order.Interval.Finset.Nat
import Mathlib.Tactic

/-!
# Sorted lists of intervals with gaps

A set of points kept as a list of half-open intervals `(a, b)`, in order and with a gap between
neighbours: each ends strictly before the next one starts (`Separated`). `insertInterval` adds one
more interval and merges whatever it meets or touches. It adds exactly the points of the interval
(`cover_insertInterval`) and keeps the gaps (`Separated.insert`), so the lengths of the intervals
always add up to the number of points covered (`Separated.sum_length`).

## Merging

An interval that meets the new one takes in all that the new one reaches: `absorb` goes on through
the list as long as the next interval starts no later than the end found so far, and gives the end
and what is left of the list. `absorb_spec` says what it has taken. Where the new interval lies
behind a part of the list, that part stays (`insertInterval_append`), which is what a search that
starts in the middle of the list relies on.

## Overlaps

Where one interval is compared with the intervals of a list that do not meet each other, what it has
in common with each (`overlap`) adds up to the points it has in common with all of them
(`sum_overlap`), and so to no more than its length. If the intervals of the list cover it, the sum
is its length (`sum_overlap_of_subset`).
-/

variable {α : Type*}

section Cover

variable [LinearOrder α]

/-- Nonempty intervals, each ending strictly before the later ones start. -/
structure Separated (l : List (α × α)) : Prop where
  lt : ∀ i ∈ l, i.1 < i.2
  gap : l.Pairwise fun i j ↦ i.2 < j.1

/-- The points of the intervals of a list. -/
def cover (l : List (α × α)) : Set α :=
  {x | ∃ i ∈ l, i.1 ≤ x ∧ x < i.2}

/-- Takes the intervals off the front of a list that start at `b` or before: the end of the last
one taken (`e` if there was none), and the rest. -/
def absorb (b : α) : α → List (α × α) → α × List (α × α)
  | e, [] => (e, [])
  | e, i :: l => if b < i.1 then (e, i :: l) else absorb b i.2 l

/-- Adds the interval from `a` to `b`, merged with all intervals it meets or touches. -/
def insertInterval (a b : α) : List (α × α) → List (α × α)
  | [] => [(a, b)]
  | i :: l =>
    if b < i.1 then (a, b) :: i :: l
    else if a ≤ i.2 then (min a i.1, max (absorb b i.2 l).1 b) :: (absorb b i.2 l).2
    else i :: insertInterval a b l

variable {a b e : α} {i : α × α} {l l₁ l₂ : List (α × α)}

@[simp]
theorem cover_nil : cover ([] : List (α × α)) = ∅ := by
  ext x
  simp [cover]

@[simp]
theorem cover_cons : cover (i :: l) = Set.Ico i.1 i.2 ∪ cover l := by
  ext x
  simp [cover]

namespace Separated

theorem nil : Separated ([] : List (α × α)) :=
  ⟨by simp, .nil⟩

/-- An interval in front must not be empty and must end before all others start. -/
theorem cons_iff :
    Separated (i :: l) ↔ i.1 < i.2 ∧ (∀ j ∈ l, i.2 < j.1) ∧ Separated l := by
  constructor
  · rintro ⟨hlt, hgap⟩
    rw [List.pairwise_cons] at hgap
    exact ⟨hlt i List.mem_cons_self, hgap.1, fun j hj ↦ hlt j (List.mem_cons_of_mem _ hj), hgap.2⟩
  · rintro ⟨hi, hgap, hl⟩
    refine ⟨fun j hj ↦ ?_, List.pairwise_cons.2 ⟨hgap, hl.gap⟩⟩
    rcases List.mem_cons.1 hj with rfl | hj
    · exact hi
    · exact hl.lt j hj

theorem right (h : Separated (l₁ ++ l₂)) : Separated l₂ :=
  ⟨fun j hj ↦ h.lt j (List.mem_append_right _ hj), (List.pairwise_append.1 h.gap).2.1⟩

/-- Intervals are in order as wholes. -/
theorem end_lt_of_append (h : Separated (l₁ ++ i :: l₂)) {j : α × α} (hj : j ∈ l₁) : j.2 < i.1 :=
  (List.pairwise_append.1 h.gap).2.2 j hj i List.mem_cons_self

/-- What `absorb` takes and leaves. -/
theorem absorb_spec (h : Separated l) (he : ∀ j ∈ l, e < j.1) :
    ∃ taken, l = taken ++ (absorb b e l).2 ∧ (∀ j ∈ taken, j.1 ≤ b) ∧
      (∀ j ∈ taken, j.2 ≤ (absorb b e l).1) ∧ (∀ j ∈ (absorb b e l).2, b < j.1) ∧
      (∀ j ∈ (absorb b e l).2, (absorb b e l).1 < j.1) ∧ e ≤ (absorb b e l).1 ∧
      ((absorb b e l).1 = e ∨ ∃ j ∈ taken, (absorb b e l).1 = j.2) := by
  induction l generalizing e with
  | nil => exact ⟨[], rfl, by simp, by simp, by simp [absorb], by simp [absorb], le_rfl, .inl rfl⟩
  | cons i l ih =>
    obtain ⟨hi, hgap, hl⟩ := cons_iff.1 h
    by_cases hb : b < i.1
    · rw [absorb, if_pos hb]
      refine ⟨[], rfl, by simp, by simp, fun j hj ↦ ?_, he, le_rfl, .inl rfl⟩
      rcases List.mem_cons.1 hj with rfl | hj
      · exact hb
      · exact hb.trans (hi.trans (hgap j hj))
    · obtain ⟨taken, hsplit, hstart, hend, hrest, hrest', hle, hlast⟩ := ih hl hgap
      rw [absorb, if_neg hb]
      refine ⟨i :: taken, by rw [List.cons_append, ← hsplit], ?_, ?_, hrest, hrest', ?_, ?_⟩
      · exact List.forall_mem_cons.2 ⟨not_lt.1 hb, hstart⟩
      · exact List.forall_mem_cons.2 ⟨hle, hend⟩
      · exact ((he i List.mem_cons_self).trans hi).le.trans hle
      · rcases hlast with heq | ⟨j, hj, heq⟩
        · exact .inr ⟨i, List.mem_cons_self, heq⟩
        · exact .inr ⟨j, List.mem_cons_of_mem _ hj, heq⟩

end Separated

/-- The points covered after an insertion are those covered before and those of the interval. -/
theorem cover_insertInterval (h : Separated l) :
    cover (insertInterval a b l) = Set.Ico a b ∪ cover l := by
  induction l with
  | nil => rw [insertInterval, cover_cons]
  | cons i l ih =>
    obtain ⟨hi, hgap, hl⟩ := Separated.cons_iff.1 h
    rw [insertInterval]
    split_ifs with hb ha
    · rw [cover_cons]
    · obtain ⟨taken, hsplit, hstart, hend, -, -, hle, hlast⟩ := hl.absorb_spec (b := b) hgap
      have hcover : cover l = cover taken ∪ cover (absorb b i.2 l).2 := by
        conv_lhs => rw [hsplit]
        ext x
        simp only [cover, List.mem_append, Set.mem_union, Set.mem_ofPred_eq]
        constructor
        · rintro ⟨j, hj | hj, hx⟩
          · exact .inl ⟨j, hj, hx⟩
          · exact .inr ⟨j, hj, hx⟩
        · rintro (⟨j, hj, hx⟩ | ⟨j, hj, hx⟩)
          · exact ⟨j, .inl hj, hx⟩
          · exact ⟨j, .inr hj, hx⟩
      have htaken : ∀ j ∈ taken, j ∈ l := fun j hj ↦ by
        rw [hsplit]
        exact List.mem_append_left _ hj
      -- the merged interval is the union of the new one, the first one met and those absorbed
      have hmerged : Set.Ico (min a i.1) (max (absorb b i.2 l).1 b) =
          Set.Ico a b ∪ (Set.Ico i.1 i.2 ∪ cover taken) := by
        ext x
        simp only [Set.mem_Ico, Set.mem_union, min_le_iff, lt_max_iff, cover, Set.mem_ofPred_eq]
        constructor
        · rintro ⟨hlow, hhigh⟩
          by_cases hxb : x < b
          · by_cases hxa : a ≤ x
            · exact .inl ⟨hxa, hxb⟩
            · refine .inr (.inl ⟨hlow.resolve_left hxa, ?_⟩)
              exact (not_le.1 hxa).trans_le ha
          · have hx : x < (absorb b i.2 l).1 := hhigh.resolve_right hxb
            rcases hlast with heq | ⟨j, hj, heq⟩
            · rw [heq] at hx
              exact .inr (.inl ⟨(not_lt.1 hb).trans (not_lt.1 hxb), hx⟩)
            · rw [heq] at hx
              exact .inr (.inr ⟨j, hj, (hstart j hj).trans (not_lt.1 hxb), hx⟩)
        · rintro (⟨hxa, hxb⟩ | ⟨hxi, hxi'⟩ | ⟨j, hj, hxj, hxj'⟩)
          · exact ⟨.inl hxa, .inr hxb⟩
          · exact ⟨.inr hxi, .inl (hxi'.trans_le hle)⟩
          · have hij := hgap j (htaken j hj)
            exact ⟨.inr ((hi.trans hij).le.trans hxj), .inl (hxj'.trans_le (hend j hj))⟩
      rw [cover_cons, cover_cons, hmerged, hcover]
      simp only [Set.union_assoc]
    · rw [cover_cons, ih hl, cover_cons]
      exact Set.union_left_comm _ _ _

/-- What is left is the end of the list. -/
theorem absorb_suffix (b e : α) (l : List (α × α)) : (absorb b e l).2 <:+ l := by
  induction l generalizing e with
  | nil => exact List.suffix_rfl
  | cons i l ih =>
    rw [absorb]
    split_ifs
    · exact List.suffix_rfl
    · exact (ih i.2).trans (List.suffix_cons i l)

/-- Insertion makes no new starting point but `a`. -/
theorem fst_insertInterval {j : α × α} (hj : j ∈ insertInterval a b l) :
    j.1 = a ∨ ∃ k ∈ l, j.1 = k.1 := by
  induction l with
  | nil => exact .inl (by rw [List.mem_singleton.1 hj])
  | cons i l ih =>
    rw [insertInterval] at hj
    split_ifs at hj
    · rcases List.mem_cons.1 hj with rfl | hj
      · exact .inl rfl
      · exact .inr ⟨j, hj, rfl⟩
    · rcases List.mem_cons.1 hj with rfl | hj
      · rcases min_choice a i.1 with heq | heq
        · exact .inl heq
        · exact .inr ⟨i, List.mem_cons_self, heq⟩
      · exact .inr ⟨j, List.mem_cons_of_mem _ ((absorb_suffix b i.2 l).subset hj), rfl⟩
    · rcases List.mem_cons.1 hj with rfl | hj
      · exact .inr ⟨j, List.mem_cons_self, rfl⟩
      · rcases ih hj with heq | ⟨k, hk, heq⟩
        · exact .inl heq
        · exact .inr ⟨k, List.mem_cons_of_mem _ hk, heq⟩

/-- Insertion keeps the gaps. -/
theorem Separated.insert (h : Separated l) (hab : a < b) : Separated (insertInterval a b l) := by
  induction l with
  | nil => exact cons_iff.2 ⟨hab, by simp, nil⟩
  | cons i l ih =>
    obtain ⟨hi, hgap, hl⟩ := cons_iff.1 h
    rw [insertInterval]
    split_ifs with hb ha
    · refine cons_iff.2 ⟨hab, fun j hj ↦ ?_, h⟩
      rcases List.mem_cons.1 hj with rfl | hj
      · exact hb
      · exact hb.trans (hi.trans (hgap j hj))
    · obtain ⟨taken, hsplit, -, -, hrest, hrest', -, -⟩ := hl.absorb_spec (b := b) hgap
      have hl' := hl
      rw [hsplit] at hl'
      refine cons_iff.2 ⟨?_, fun j hj ↦ max_lt (hrest' j hj) (hrest j hj), hl'.right⟩
      exact lt_max_of_lt_right ((min_le_left a i.1).trans_lt hab)
    · refine cons_iff.2 ⟨hi, fun j hj ↦ ?_, ih hl⟩
      rcases fst_insertInterval hj with heq | ⟨k, hk, heq⟩
      · rw [heq]
        exact not_le.1 ha
      · rw [heq]
        exact hgap k hk

/-- Intervals that end before `a` are passed over. -/
theorem insertInterval_append (hlt : ∀ j ∈ l₁, j.1 < j.2) (hend : ∀ j ∈ l₁, j.2 < a)
    (hab : a < b) : insertInterval a b (l₁ ++ l₂) = l₁ ++ insertInterval a b l₂ := by
  induction l₁ with
  | nil => rfl
  | cons i l₁ ih =>
    have hi := hend i List.mem_cons_self
    have hib : ¬ b < i.1 := not_lt.2 (((hlt i List.mem_cons_self).trans hi).trans hab).le
    rw [List.cons_append, insertInterval, if_neg hib, if_neg (not_le.2 hi), List.cons_append,
      ih (fun j hj ↦ hlt j (List.mem_cons_of_mem _ hj))
        fun j hj ↦ hend j (List.mem_cons_of_mem _ hj)]

end Cover

/-! ### Counting points -/

theorem ncard_Ico (i : ℕ × ℕ) : (Set.Ico i.1 i.2).ncard = i.2 - i.1 := by
  rw [← Finset.coe_Ico, Set.ncard_coe_finset, Nat.card_Ico]

/-- The lengths of intervals that do not meet add up to the number of points they cover. -/
theorem sum_length_of_pairwise {l : List (ℕ × ℕ)}
    (hl : l.Pairwise fun i j ↦ i.2 ≤ j.1 ∨ j.2 ≤ i.1) :
    (cover l).Finite ∧ (l.map fun i ↦ i.2 - i.1).sum = (cover l).ncard := by
  induction l with
  | nil => simp
  | cons i l ih =>
    obtain ⟨hi, hl⟩ := List.pairwise_cons.1 hl
    obtain ⟨hfin, hsum⟩ := ih hl
    have hdisj : Disjoint (Set.Ico i.1 i.2) (cover l) := by
      refine Set.disjoint_left.2 fun x hx ⟨j, hj, hjx, hxj⟩ ↦ ?_
      have := hi j hj
      have := hx.1
      have := hx.2
      omega
    rw [cover_cons]
    refine ⟨(Set.finite_Ico _ _).union hfin, ?_⟩
    rw [Set.ncard_union_eq hdisj (Set.finite_Ico _ _) hfin, ncard_Ico, List.map_cons, List.sum_cons,
      hsum]

/-- The lengths of separated intervals add up to the number of points they cover. -/
theorem Separated.sum_length {l : List (ℕ × ℕ)} (h : Separated l) :
    (cover l).Finite ∧ (l.map fun i ↦ i.2 - i.1).sum = (cover l).ncard :=
  sum_length_of_pairwise (h.gap.imp fun hgap ↦ .inl hgap.le)

/-- Intervals that do not meet have no more room than there is. -/
theorem sum_length_le {l : List (ℕ × ℕ)} {N : ℕ}
    (hl : l.Pairwise fun i j ↦ i.2 ≤ j.1 ∨ j.2 ≤ i.1) (hend : ∀ i ∈ l, i.2 ≤ N) :
    (l.map fun i ↦ i.2 - i.1).sum ≤ N := by
  have hsub : cover l ⊆ Set.Ico 0 N := fun x ⟨i, hi, _, hx⟩ ↦
    ⟨Nat.zero_le x, hx.trans_le (hend i hi)⟩
  calc (l.map fun i ↦ i.2 - i.1).sum
      = (cover l).ncard := (sum_length_of_pairwise hl).2
    _ ≤ (Set.Ico 0 N).ncard := Set.ncard_le_ncard hsub (Set.finite_Ico _ _)
    _ = N := ncard_Ico (0, N)

/-- The points of `s.card` blocks of `k` points. -/
theorem ncard_div_mem {k : ℕ} (hk : 0 < k) (s : Finset ℕ) :
    {x : ℕ | x / k ∈ s}.ncard = k * s.card := by
  have hset : {x : ℕ | x / k ∈ s} = ↑(s.biUnion fun q ↦ Finset.Ico (q * k) (q * k + k)) := by
    ext x
    simp only [Set.mem_ofPred_eq, Finset.coe_biUnion, Finset.coe_Ico, Set.mem_iUnion, Set.mem_Ico,
      exists_prop, Finset.mem_coe]
    constructor
    · intro hx
      exact ⟨x / k, hx, Nat.div_mul_le_self x k, Nat.lt_div_mul_add hk⟩
    · rintro ⟨q, hq, hlow, hhigh⟩
      rwa [Nat.div_eq_of_lt_le hlow (by rw [Nat.succ_mul]; exact hhigh)]
  rw [hset, Set.ncard_coe_finset, Finset.card_biUnion]
  · simp [Nat.card_Ico, Nat.mul_comm]
  · intro q _ q' _ hne
    refine Finset.disjoint_left.2 fun x hx hx' ↦ hne ?_
    rw [Finset.mem_Ico] at hx hx'
    rw [← Nat.div_eq_of_lt_le hx.1 (by rw [Nat.succ_mul]; exact hx.2),
      ← Nat.div_eq_of_lt_le hx'.1 (by rw [Nat.succ_mul]; exact hx'.2)]

/-! ### Overlaps -/

/-- The number of points that two intervals have in common. -/
def overlap (i j : ℕ × ℕ) : ℕ :=
  min i.2 j.2 - max i.1 j.1

section Overlap

variable {i j : ℕ × ℕ} {k l : List (ℕ × ℕ)}

theorem overlap_comm (i j : ℕ × ℕ) : overlap i j = overlap j i := by
  rw [overlap, overlap, min_comm, max_comm]

theorem overlap_eq_ncard (i j : ℕ × ℕ) :
    overlap i j = (Set.Ico i.1 i.2 ∩ Set.Ico j.1 j.2).ncard := by
  rw [Set.Ico_inter_Ico, ← Finset.coe_Ico, Set.ncard_coe_finset, Nat.card_Ico]
  rfl

/-- What an interval has in common with intervals that do not meet each other. -/
theorem sum_overlap (hl : l.Pairwise fun i j ↦ i.2 ≤ j.1) (i : ℕ × ℕ) :
    (l.map (overlap i)).sum = (Set.Ico i.1 i.2 ∩ cover l).ncard := by
  induction l with
  | nil => simp
  | cons j l ih =>
    obtain ⟨hj, hl⟩ := List.pairwise_cons.1 hl
    have hdisj : Disjoint (Set.Ico i.1 i.2 ∩ Set.Ico j.1 j.2) (Set.Ico i.1 i.2 ∩ cover l) := by
      refine Set.disjoint_left.2 ?_
      rintro x ⟨-, -, hx⟩ ⟨-, k, hk, hkx, -⟩
      have := hj k hk
      omega
    have hfin : (Set.Ico i.1 i.2).Finite := Set.finite_Ico _ _
    rw [List.map_cons, List.sum_cons, ih hl, overlap_eq_ncard, cover_cons,
      Set.inter_union_distrib_left,
      Set.ncard_union_eq hdisj (hfin.inter_of_left _) (hfin.inter_of_left _)]

/-- Intervals that do not meet have no more in common with an interval than it has points. -/
theorem sum_overlap_le (hl : l.Pairwise fun i j ↦ i.2 ≤ j.1) (i : ℕ × ℕ) :
    (l.map (overlap i)).sum ≤ i.2 - i.1 := by
  rw [sum_overlap hl, ← ncard_Ico]
  exact Set.ncard_le_ncard Set.inter_subset_left (Set.finite_Ico _ _)

/-- An interval that is covered has all its points in common with the list. -/
theorem sum_overlap_of_subset (hl : l.Pairwise fun i j ↦ i.2 ≤ j.1)
    (hi : Set.Ico i.1 i.2 ⊆ cover l) : (l.map (overlap i)).sum = i.2 - i.1 := by
  rw [sum_overlap hl, Set.inter_eq_left.2 hi, ncard_Ico]

/-- What the intervals of two lists have in common, added up either way. -/
theorem sum_sum_overlap (k l : List (ℕ × ℕ)) :
    (k.map fun i ↦ (l.map (overlap i)).sum).sum = (l.map fun j ↦ (k.map (overlap j)).sum).sum := by
  induction k with
  | nil => simp
  | cons i k ih =>
    simp only [List.map_cons, List.sum_cons, ih, ← List.sum_map_add]
    simp only [overlap_comm i]

end Overlap
