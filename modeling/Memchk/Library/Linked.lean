import Mathlib.Data.List.Nodup
import Mathlib.Data.Finset.Card
import Mathlib.Logic.Function.Basic
import Mathlib.Tactic

/-!
# Chains of linked nodes

A singly linked chain in a store: `next : α → α` gives the successor of every node, `null` ends a
chain. `Linked next null p l` says that the chain read from `p` visits exactly the nodes of `l`, in
that order, and then ends. Nothing here depends on what a node is: `α` is any type with decidable
equality, and the store is whatever function `next` is at the moment.

## Laws

The laws are the ones a program with in-place updates needs: a chain is determined by its start
(`Linked.unique`) and never repeats a node (`Linked.nodup`); a store update away from the chain
leaves it alone (`Linked.congr`, `Linked.update_of_notMem`); pushing in front, inserting after a
node, unlinking a node and replacing what comes behind a node (`Linked.graft`) have the expected
effect on `l`. A chain whose nodes come from a finite set is no longer than that set
(`Linked.length_le_card`), which is how loops over chains get a bound.

## Loops

`seek` is the search loop `while (node) { if (stop node) break; prev = node; node = next node; }`
and `visit` collects the nodes of a chain; both count rounds and give `none` when the rounds run
out, so that a cyclic chain is not a chain of some length but a loop without a result.
-/

variable {α : Type*}

/-- The chain read from `p` visits exactly the nodes of `l`, none of them `null`, and ends. -/
def Linked (next : α → α) (null : α) : α → List α → Prop
  | p, [] => p = null
  | p, x :: l => p = x ∧ x ≠ null ∧ Linked next null (next x) l

namespace Linked

variable {next next' : α → α} {null : α} {p : α} {l l' : List α}

@[simp]
theorem nil_iff : Linked next null p [] ↔ p = null :=
  Iff.rfl

@[simp]
theorem cons_iff {x : α} :
    Linked next null p (x :: l) ↔ p = x ∧ x ≠ null ∧ Linked next null (next x) l :=
  Iff.rfl

/-- The start of a chain is its first node, or `null`. -/
theorem start_eq (h : Linked next null p l) : p = l.headD null := by
  cases l with
  | nil => exact h
  | cons x l => exact h.1

/-- A node of a chain is not `null`. -/
theorem ne_null_of_mem {x : α} (h : Linked next null p l) (hx : x ∈ l) : x ≠ null := by
  induction l generalizing p with
  | nil => exact absurd hx List.not_mem_nil
  | cons y l ih =>
    rcases List.mem_cons.1 hx with rfl | hx
    · exact h.2.1
    · exact ih h.2.2 hx

/-- A chain that starts at `null` is empty. -/
theorem eq_nil_of_null (h : Linked next null null l) : l = [] := by
  cases l with
  | nil => rfl
  | cons x l => exact absurd h.1.symm h.2.1

/-- A chain is determined by its start. -/
theorem unique (h : Linked next null p l) (h' : Linked next null p l') : l = l' := by
  induction l generalizing p l' with
  | nil =>
    rw [nil_iff] at h
    subst h
    exact h'.eq_nil_of_null.symm
  | cons x l ih =>
    cases l' with
    | nil => exact absurd (h.1.symm.trans h') h.2.1
    | cons y l' =>
      obtain rfl : x = y := h.1.symm.trans h'.1
      rw [ih h.2.2 h'.2.2]

/-- What comes from a node of a chain on is a chain. -/
theorem suffix {l₁ l₂ : List α} {x : α} (h : Linked next null p (l₁ ++ x :: l₂)) :
    Linked next null x (x :: l₂) := by
  induction l₁ generalizing p with
  | nil => exact ⟨rfl, h.2⟩
  | cons y l₁ ih => exact ih h.2.2

/-- A chain never visits a node twice: what follows a node is determined by the node. -/
theorem nodup (h : Linked next null p l) : l.Nodup := by
  induction l generalizing p with
  | nil => exact List.nodup_nil
  | cons x l ih =>
    refine List.nodup_cons.2 ⟨fun hmem ↦ ?_, ih h.2.2⟩
    obtain ⟨l₁, l₂, rfl⟩ := List.append_of_mem hmem
    have hrest : Linked next null x (x :: l₂) := h.2.2.suffix
    have heq : l₁ ++ x :: l₂ = l₂ := h.2.2.unique hrest.2.2
    have := congrArg List.length heq
    simp only [List.length_append, List.length_cons] at this
    omega

/-- Only the successors of the nodes on the chain matter. -/
theorem congr (h : Linked next null p l) (heq : ∀ x ∈ l, next' x = next x) :
    Linked next' null p l := by
  induction l generalizing p with
  | nil => exact h
  | cons x l ih =>
    refine ⟨h.1, h.2.1, ?_⟩
    rw [heq x List.mem_cons_self]
    exact ih h.2.2 fun y hy ↦ heq y (List.mem_cons_of_mem _ hy)

section Update

variable [DecidableEq α]

theorem update_of_notMem {x q : α} (h : Linked next null p l) (hx : x ∉ l) :
    Linked (Function.update next x q) null p l :=
  h.congr fun _ hy ↦ Function.update_of_ne (ne_of_mem_of_not_mem hy hx) _ _

/-- A fresh node put in front. -/
theorem push {x : α} (h : Linked next null p l) (hnull : x ≠ null) (hx : x ∉ l) :
    Linked (Function.update next x p) null x (x :: l) := by
  refine ⟨rfl, hnull, ?_⟩
  rw [Function.update_self]
  exact h.update_of_notMem hx

/-- A chain whose part `l₂` behind the node `a` is exchanged for another chain. -/
theorem graft {l₁ l₂ l₃ : List α} {a q : α} (h : Linked next null p (l₁ ++ a :: l₂))
    (hq : Linked next null q l₃) (ha : a ∉ l₃) :
    Linked (Function.update next a q) null p (l₁ ++ a :: l₃) := by
  have hnd := h.nodup
  induction l₁ generalizing p with
  | nil =>
    refine ⟨h.1, h.2.1, ?_⟩
    rw [Function.update_self]
    exact hq.update_of_notMem ha
  | cons y l₁ ih =>
    rw [List.cons_append, List.nodup_cons] at hnd
    have hne : y ≠ a := fun heq ↦ hnd.1 (by simp [heq])
    refine ⟨h.1, h.2.1, ?_⟩
    rw [Function.update_of_ne hne]
    exact ih h.2.2 hnd.2

/-- The node behind `a` is unlinked. -/
theorem unlink {l₁ l₂ : List α} {a x : α} (h : Linked next null p (l₁ ++ a :: x :: l₂)) :
    Linked (Function.update next a (next x)) null p (l₁ ++ a :: l₂) := by
  have hsuf : Linked next null a (a :: x :: l₂) := h.suffix
  have hnd := (List.nodup_cons.1 hsuf.nodup).1
  exact h.graft hsuf.2.2.2.2 fun hmem ↦ hnd (List.mem_cons_of_mem _ hmem)

/-- A fresh node is inserted behind `a`. -/
theorem insertAfter {l₁ l₂ : List α} {a x : α} (h : Linked next null p (l₁ ++ a :: l₂))
    (hnull : x ≠ null) (hx : x ∉ l₁ ++ a :: l₂) :
    Linked (Function.update (Function.update next x (next a)) a x) null p
      (l₁ ++ a :: x :: l₂) := by
  have hsuf : Linked next null a (a :: l₂) := h.suffix
  have hx₂ : x ∉ l₂ := fun hmem ↦ hx (by simp [hmem])
  have hne : a ≠ x := fun heq ↦ hx (by simp [heq])
  refine (h.update_of_notMem hx).graft (hsuf.2.2.push hnull hx₂) ?_
  simp only [List.mem_cons, not_or]
  exact ⟨hne, (List.nodup_cons.1 hsuf.nodup).1⟩

end Update

/-- The node behind `a` on a chain. -/
theorem next_eq {l₁ l₂ : List α} {a : α} (h : Linked next null p (l₁ ++ a :: l₂)) :
    next a = l₂.headD null :=
  h.suffix.2.2.start_eq

/-- A chain inside a finite set is no longer than the set is large. -/
theorem length_le_card [DecidableEq α] {s : Finset α} (h : Linked next null p l)
    (hs : ∀ x ∈ l, x ∈ s) : l.length ≤ s.card := by
  rw [← List.toFinset_card_of_nodup h.nodup]
  exact Finset.card_le_card fun x hx ↦ hs x (List.mem_toFinset.1 hx)

end Linked

/-! ### The search loop -/

section Loops

variable [DecidableEq α] (next : α → α) (null : α)

/-- `while (node) { if (stop node) break; prev = node; node = next node; }`, with at most
`rounds` tests of the loop condition: the final `prev` and `node`. -/
def seek (stop : α → Bool) : ℕ → α → α → Option (α × α)
  | 0, _, _ => none
  | rounds + 1, prev, node =>
    if node = null then some (prev, node)
    else if stop node then some (prev, node)
    else seek stop rounds node (next node)

/-- The nodes of the chain read from `node`, within `rounds` tests of the loop condition. -/
def visit : ℕ → α → Option (List α)
  | 0, _ => none
  | rounds + 1, node =>
    if node = null then some []
    else (visit rounds (next node)).map (node :: ·)

variable {next null}

/-- A search that is not stopped goes to the end. -/
theorem seek_of_forall_not {stop : α → Bool} {rounds : ℕ} {prev p : α} {l : List α}
    (h : Linked next null p l) (hlen : l.length < rounds) (hstop : ∀ x ∈ l, stop x = false) :
    seek next null stop rounds prev p = some (l.getLastD prev, null) := by
  induction l generalizing p prev rounds with
  | nil =>
    obtain ⟨k, rfl⟩ := Nat.exists_eq_succ_of_ne_zero (by omega : rounds ≠ 0)
    rw [Linked.nil_iff] at h
    simp [seek, h]
  | cons x l ih =>
    obtain ⟨k, rfl⟩ := Nat.exists_eq_succ_of_ne_zero (by omega : rounds ≠ 0)
    obtain ⟨rfl, hnull, hrest⟩ := h
    rw [List.length_cons] at hlen
    rw [seek, if_neg hnull, if_neg (by simp [hstop p List.mem_cons_self]),
      ih hrest (by omega) fun y hy ↦ hstop y (List.mem_cons_of_mem _ hy),
      List.getLastD_cons]

/-- A search stops at the first node for which it should, with the node in front of it. -/
theorem seek_of_stop {stop : α → Bool} {rounds : ℕ} {prev p x : α} {l₁ l₂ : List α}
    (h : Linked next null p (l₁ ++ x :: l₂)) (hlen : l₁.length < rounds)
    (hstop : ∀ y ∈ l₁, stop y = false) (hx : stop x = true) :
    seek next null stop rounds prev p = some (l₁.getLastD prev, x) := by
  induction l₁ generalizing p prev rounds with
  | nil =>
    obtain ⟨k, rfl⟩ := Nat.exists_eq_succ_of_ne_zero (by omega : rounds ≠ 0)
    obtain ⟨rfl, hnull, -⟩ := h
    simp [seek, hnull, hx]
  | cons y l₁ ih =>
    obtain ⟨k, rfl⟩ := Nat.exists_eq_succ_of_ne_zero (by omega : rounds ≠ 0)
    obtain ⟨rfl, hnull, hrest⟩ := h
    rw [List.length_cons] at hlen
    rw [seek, if_neg hnull, if_neg (by simp [hstop p List.mem_cons_self]),
      ih hrest (by omega) fun z hz ↦ hstop z (List.mem_cons_of_mem _ hz),
      List.getLastD_cons]

/-- The two ways the search ends: past the last node, or at the first node that stops it. -/
theorem seek_cases {stop : α → Bool} {rounds : ℕ} (prev : α) {p : α} {l : List α}
    (h : Linked next null p l) (hlen : l.length < rounds) :
    (∀ x ∈ l, stop x = false) ∧
        seek next null stop rounds prev p = some (l.getLastD prev, null) ∨
      ∃ l₁ x l₂, l = l₁ ++ x :: l₂ ∧ (∀ y ∈ l₁, stop y = false) ∧ stop x = true ∧
        seek next null stop rounds prev p = some (l₁.getLastD prev, x) := by
  cases hf : l.find? stop with
  | none =>
    have hall : ∀ x ∈ l, stop x = false := by simpa using hf
    exact .inl ⟨hall, seek_of_forall_not h hlen hall⟩
  | some x =>
    obtain ⟨hx, l₁, l₂, rfl, hl₁⟩ := List.find?_eq_some_iff_append.1 hf
    have hbefore : ∀ y ∈ l₁, stop y = false := by simpa using hl₁
    rw [List.length_append, List.length_cons] at hlen
    exact .inr ⟨l₁, x, l₂, rfl, hbefore, hx, seek_of_stop h (by omega) hbefore hx⟩

/-- The nodes of a chain, with a round for each and one for the end. -/
theorem visit_eq {rounds : ℕ} {p : α} {l : List α} (h : Linked next null p l)
    (hlen : l.length < rounds) : visit next null rounds p = some l := by
  induction l generalizing p rounds with
  | nil =>
    obtain ⟨k, rfl⟩ := Nat.exists_eq_succ_of_ne_zero (by omega : rounds ≠ 0)
    rw [Linked.nil_iff] at h
    simp [visit, h]
  | cons x l ih =>
    obtain ⟨k, rfl⟩ := Nat.exists_eq_succ_of_ne_zero (by omega : rounds ≠ 0)
    obtain ⟨rfl, hnull, hrest⟩ := h
    rw [List.length_cons] at hlen
    rw [visit, if_neg hnull, ih hrest (by omega), Option.map_some]

end Loops
