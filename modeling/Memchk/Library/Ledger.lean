import Mathlib.Data.List.Basic
import Mathlib.Tactic

/-!
# Ledgers

A ledger records what was taken and what was given back, in order. `holdings` replays it: what is
held at the end, or `none` if something was given back that was not held at that moment. A ledger
that replays accounts for everything taken: it is held, or it was given back, once.

## Replaying

What is held is a multiset, kept as a list with the last thing taken in front. The same thing may be
taken again after it was given back, as an allocator hands out an address again, so that a ledger
may have a thing several times; that it is held once at a time is for its user to show. `taken_perm`
is the account: what was taken is what is held and what was given back, with multiplicities. A
ledger that replays does so up to each of its entries (`isSome_holdings_of_append`), and what an
entry gives back was held there (`mem_of_holdings_append`).
-/

/-- An entry of a ledger. -/
inductive Transfer (α : Type*)
  | took (a : α)
  | gave (a : α)
deriving DecidableEq

namespace Transfer

variable {α : Type*}

/-- What was taken, in order. -/
def taken (ts : List (Transfer α)) : List α :=
  ts.filterMap fun
    | took a => some a
    | gave _ => none

/-- What was given back, in order. -/
def given (ts : List (Transfer α)) : List α :=
  ts.filterMap fun
    | took _ => none
    | gave a => some a

@[simp]
theorem taken_append (ts ts' : List (Transfer α)) : taken (ts ++ ts') = taken ts ++ taken ts' :=
  List.filterMap_append

@[simp]
theorem given_append (ts ts' : List (Transfer α)) : given (ts ++ ts') = given ts ++ given ts' :=
  List.filterMap_append

variable [DecidableEq α]

/-- What is held after a transfer. -/
def apply (held : List α) : Transfer α → Option (List α)
  | took a => some (a :: held)
  | gave a => if a ∈ held then some (held.erase a) else none

/-- What is held after all of the transfers. -/
def holdings (ts : List (Transfer α)) : Option (List α) :=
  ts.foldlM apply []

variable {ts ts' : List (Transfer α)} {held : List α} {a : α}

@[simp]
theorem holdings_nil : holdings ([] : List (Transfer α)) = some [] :=
  rfl

/-- A ledger is replayed in two parts. -/
theorem holdings_append : holdings (ts ++ ts') = (holdings ts).bind fun held ↦
    ts'.foldlM apply held := by
  rw [holdings, List.foldlM_append]
  rfl

/-- What was taken last is held. -/
theorem holdings_took (h : holdings ts = some held) :
    holdings (ts ++ [took a]) = some (a :: held) := by
  rw [holdings_append, h]
  rfl

/-- What is held can be given back. -/
theorem holdings_gave (h : holdings ts = some held) (ha : a ∈ held) :
    holdings (ts ++ [gave a]) = some (held.erase a) := by
  rw [holdings_append, h, Option.bind_some, List.foldlM_cons, apply, if_pos ha]
  rfl

/-- A front part of a ledger that replays does so too. -/
theorem isSome_holdings_of_append (h : (holdings (ts ++ ts')).isSome) : (holdings ts).isSome := by
  rw [holdings_append] at h
  exact Option.isSome_of_isSome_bind h

/-- What is given back is held at that moment. -/
theorem mem_of_holdings_append (h : (holdings (ts ++ gave a :: ts')).isSome) :
    ∃ held, holdings ts = some held ∧ a ∈ held := by
  obtain ⟨held, hheld⟩ := Option.isSome_iff_exists.1 (isSome_holdings_of_append h)
  refine ⟨held, hheld, ?_⟩
  rw [holdings_append, hheld, Option.bind_some, List.foldlM_cons, apply] at h
  by_contra ha
  rw [if_neg ha] at h
  exact absurd h Bool.false_ne_true

/-- Everything taken is held, or was given back. -/
theorem taken_perm (h : holdings ts = some held) : (taken ts).Perm (held ++ given ts) := by
  induction ts using List.reverseRecOn generalizing held with
  | nil =>
    obtain rfl := Option.some.inj h
    exact List.Perm.refl _
  | append_singleton ts t ih =>
    rw [holdings_append] at h
    obtain ⟨before, hbefore, hlast⟩ := Option.bind_eq_some_iff.1 h
    have hperm := ih hbefore
    cases t with
    | took a =>
      obtain rfl := Option.some.inj hlast
      rw [taken_append, given_append]
      change (taken ts ++ [a]).Perm (a :: before ++ (given ts ++ []))
      rw [List.append_nil]
      exact (List.perm_append_singleton a _).trans (hperm.cons a)
    | gave a =>
      simp only [List.foldlM_cons, List.foldlM_nil, apply] at hlast
      split_ifs at hlast with ha
      · obtain rfl := Option.some.inj hlast
        rw [taken_append, given_append]
        change (taken ts ++ []).Perm (before.erase a ++ (given ts ++ [a]))
        rw [List.append_nil, ← List.append_assoc]
        refine (hperm.trans ?_).trans (List.perm_append_singleton a _).symm
        exact (List.perm_cons_erase ha).append_right _
      · cases hlast

end Transfer
