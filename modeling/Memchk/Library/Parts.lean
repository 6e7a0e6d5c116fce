import Mathlib.Algebra.BigOperators.Group.List.Basic
import Mathlib.Data.List.Nodup
import Mathlib.Tactic

/-!
# Sums over parts of a list

A list is split into parts by the value of a function on its elements. The sums over the parts add
up to the sum over the list, whatever the order of the parts, and parts that count nothing may be
left out.

A report that groups its lines and gives a total for each group is such a split: the totals of the
groups add up to the total of all lines if every line is in a group that is listed once
(`sum_map_filter_eq`), and if the groups that are not shown have the total zero
(`sum_map_filter_of_eq_zero`).
-/

variable {α ι : Type*} [DecidableEq ι] {f : α → ι} {g : α → ℕ}

/-- The sum over all elements is the sum over the parts with one value each. -/
theorem sum_map_filter_eq {cs : List ι} (hnodup : cs.Nodup) {l : List α}
    (hmem : ∀ a ∈ l, f a ∈ cs) :
    (cs.map fun c ↦ ((l.filter fun a ↦ f a = c).map g).sum).sum = (l.map g).sum := by
  induction l with
  | nil => simp
  | cons a l ih =>
    have hone : ∀ c, (((a :: l).filter fun a ↦ f a = c).map g).sum =
        (if f a = c then g a else 0) + ((l.filter fun a ↦ f a = c).map g).sum := by
      intro c
      rw [List.filter_cons]
      by_cases hc : f a = c <;> simp [hc]
    have hself : (cs.map fun c ↦ if f a = c then g a else 0).sum = g a := by
      have hcount : ∀ cs : List ι, (cs.map fun c ↦ if f a = c then g a else 0).sum =
          cs.count (f a) * g a := by
        intro cs
        induction cs with
        | nil => simp
        | cons c cs ih =>
          rw [List.map_cons, List.sum_cons, ih, List.count_cons]
          by_cases hc : f a = c
          · rw [if_pos hc, if_pos (beq_iff_eq.2 hc.symm), Nat.add_mul, Nat.one_mul, Nat.add_comm]
          · have hne : ¬(c == f a) = true := fun heq ↦ hc (beq_iff_eq.1 heq).symm
            rw [if_neg hc, if_neg hne, Nat.zero_add, Nat.add_zero]
      rw [hcount, List.count_eq_one_of_mem hnodup (hmem a List.mem_cons_self), Nat.one_mul]
    simp only [hone, List.sum_map_add, hself]
    rw [ih fun b hb ↦ hmem b (List.mem_cons_of_mem _ hb), List.map_cons, List.sum_cons]

/-- Elements that count nothing may be left out of a sum. -/
theorem sum_map_filter_of_eq_zero {p : α → Bool} {h : α → ℤ} {l : List α}
    (hzero : ∀ a ∈ l, p a = false → h a = 0) : ((l.filter p).map h).sum = (l.map h).sum := by
  induction l with
  | nil => rfl
  | cons a l ih =>
    have hrest := ih fun b hb ↦ hzero b (List.mem_cons_of_mem _ hb)
    rw [List.filter_cons, List.map_cons, List.sum_cons, ← hrest]
    cases hp : p a with
    | true => rw [if_pos rfl, List.map_cons, List.sum_cons]
    | false => rw [if_neg Bool.false_ne_true, hzero a List.mem_cons_self hp, zero_add]

/-- The sum of differences is the difference of the sums. -/
theorem sum_map_cast_sub (a b : α → ℕ) (l : List α) :
    (l.map fun x ↦ (a x : ℤ) - b x).sum = ((l.map a).sum : ℤ) - (l.map b).sum := by
  induction l with
  | nil => rfl
  | cons x l ih =>
    simp only [List.map_cons, List.sum_cons, ih]
    push_cast
    omega
