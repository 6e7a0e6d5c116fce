import Mathlib.Data.List.Basic
import Mathlib.Tactic

/-!
# Sorting under a comparator

A comparator gives a negative, zero or positive number. Sorting under it is only promised where it
is a total preorder on the elements of the array (`TotalPreorderOn`): what a sort does with any
other comparator is open (`SortsUnder`). A comparator that has the sign of the descending order of a
key is one (`TotalPreorderOn.of_sign`), and then the keys of the sorted array descend
(`SortsUnder.descending`).

## Why the preorder is on a list

A comparator that subtracts machine integers is no preorder on all values, but may well be one on
those that occur. The contract of `qsort` is about the array at hand, so both notions are relative
to a list. `sortsUnder_mergeSort` shows that there is a sort that keeps the contract, although its
comparator need not be an order anywhere else: the elements are sorted as members of the list, where
the comparator is total and transitive.
-/

variable {α : Type*}

/-- The comparator is a total preorder on the elements of the list. -/
structure TotalPreorderOn (cmp : α → α → ℤ) (l : List α) : Prop where
  swap : ∀ a ∈ l, ∀ b ∈ l, (cmp a b).sign = -(cmp b a).sign
  trans : ∀ a ∈ l, ∀ b ∈ l, ∀ c ∈ l, cmp a b ≤ 0 → cmp b c ≤ 0 → cmp a c ≤ 0

/-- The contract of a sort: under a total preorder it gives a permutation in order. -/
def SortsUnder (sort : (α → α → ℤ) → List α → List α) : Prop :=
  ∀ cmp l, TotalPreorderOn cmp l →
    (sort cmp l).Perm l ∧ (sort cmp l).Pairwise fun a b ↦ cmp a b ≤ 0

variable {cmp : α → α → ℤ} {key : α → ℤ} {l : List α} {sort : (α → α → ℤ) → List α → List α}

/-- Two elements of the list are in one order or the other. -/
theorem TotalPreorderOn.le_total (h : TotalPreorderOn cmp l) {a b : α} (ha : a ∈ l) (hb : b ∈ l) :
    cmp a b ≤ 0 ∨ cmp b a ≤ 0 := by
  rcases le_or_gt (cmp a b) 0 with hle | hgt
  · exact .inl hle
  · have hswap := h.swap a ha b hb
    rw [Int.sign_eq_one_of_pos hgt] at hswap
    have hneg : (cmp b a).sign = -1 := by omega
    exact .inr (Int.sign_eq_neg_one_iff_neg.1 hneg).le

/-- The comparator has the sign of the descending order of the keys. -/
theorem TotalPreorderOn.of_sign
    (h : ∀ a ∈ l, ∀ b ∈ l, (cmp a b).sign = (key b - key a).sign) : TotalPreorderOn cmp l where
  swap a ha b hb := by
    rw [h a ha b hb, h b hb a ha, ← Int.sign_neg, neg_sub]
  trans a ha b hb c hc hab hbc := by
    have hle : ∀ {x y}, x ∈ l → y ∈ l → (cmp x y ≤ 0 ↔ key y ≤ key x) := by
      intro x y hx hy
      rw [← Int.sign_nonpos_iff, h x hx y hy, Int.sign_nonpos_iff, sub_nonpos]
    exact (hle ha hc).2 (((hle hb hc).1 hbc).trans ((hle ha hb).1 hab))

/-- Sorting under it puts the keys in descending order. -/
theorem SortsUnder.descending (hsort : SortsUnder sort)
    (h : ∀ a ∈ l, ∀ b ∈ l, (cmp a b).sign = (key b - key a).sign) :
    (sort cmp l).Perm l ∧ (sort cmp l).Pairwise fun a b ↦ key b ≤ key a := by
  obtain ⟨hperm, hpairs⟩ := hsort cmp l (.of_sign h)
  refine ⟨hperm, hpairs.imp_of_mem fun {a b} ha hb hle ↦ ?_⟩
  rwa [← Int.sign_nonpos_iff, h a (hperm.subset ha) b (hperm.subset hb), Int.sign_nonpos_iff,
    sub_nonpos] at hle

/-- Merge sort keeps the contract. -/
theorem sortsUnder_mergeSort :
    SortsUnder fun (cmp : α → α → ℤ) l ↦ l.mergeSort fun a b ↦ cmp a b ≤ 0 := by
  intro cmp l h
  refine ⟨List.mergeSort_perm _ _, ?_⟩
  -- among the elements of the list the order is total
  let le : {a // a ∈ l} → {a // a ∈ l} → Bool := fun a b ↦ cmp a b ≤ 0
  have hmap : (l.attach.mergeSort le).map Subtype.val =
      l.mergeSort fun a b ↦ decide (cmp a b ≤ 0) := by
    have hval := List.map_mergeSort (r := le) (s := fun a b ↦ decide (cmp a b ≤ 0))
      (f := Subtype.val) (l := l.attach) fun a _ b _ ↦ rfl
    rwa [List.attach_map_subtype_val] at hval
  show List.Pairwise _ (l.mergeSort fun a b ↦ decide (cmp a b ≤ 0))
  rw [← hmap, List.pairwise_map]
  refine (@List.pairwise_mergeSort _ le ?_ ?_ l.attach).imp fun hab ↦ of_decide_eq_true hab
  · intro a b c hab hbc
    exact decide_eq_true (h.trans a a.2 b b.2 c c.2 (of_decide_eq_true hab) (of_decide_eq_true hbc))
  · intro a b
    rw [Bool.or_eq_true]
    exact (h.le_total a.2 b.2).imp decide_eq_true decide_eq_true
