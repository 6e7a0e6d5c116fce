import Mathlib.Data.List.Basic
import Mathlib.Logic.Relation
import Mathlib.Tactic

/-!
# Runs of actions

`steps exec as s` lists the steps that a run of the actions `as` from `s` takes, each with the state
before and the state after it; a run ends early where an action has no next state.

If a step from a state with the invariant leads to a sound state exactly if it meets a condition,
and keeps the invariant if it does, then all states of a run are sound exactly if all its steps meet
the condition (`forall_steps_iff`). More generally, a step may be good or not by what it leads from
and to, and only legal actions may be considered (`forall_good_iff`).

## Conditions on steps

The condition is about the state before a step and its action. It is looked at along the run itself,
so that `forall_steps_iff` is an equivalence for every sequence of actions and not only for those
that go well: at the first step that does not meet the condition the run reaches a state that is not
sound, and what comes behind it does not matter. `forall_steps_of_meets` is the direction for
properties that the condition is enough for.

A state that is reachable in the sense of `Relation.ReflTransGen` is the end of such a run
(`exists_steps`).
-/

variable {S A : Type*}

/-- The steps of a run. -/
def steps (exec : A → S → Option S) : List A → S → List (S × A × S)
  | [], _ => []
  | a :: as, s =>
    match exec a s with
    | none => []
    | some t => (s, a, t) :: steps exec as t

section Steps

variable {exec : A → S → Option S} {I Sound : S → Prop} {Meets Legal : S → A → Prop}
  {Good : S → A → S → Prop}

/-- The run goes on where the action has a next state. -/
theorem steps_cons_of_some {a : A} {as : List A} {s t : S} (h : exec a s = some t) :
    steps exec (a :: as) s = (s, a, t) :: steps exec as t := by
  rw [steps, h]

theorem steps_cons_of_none {a : A} {as : List A} {s : S} (h : exec a s = none) :
    steps exec (a :: as) s = [] := by
  rw [steps, h]

/-- A step leads from its first state to its second. -/
theorem exec_of_mem_steps {as : List A} {s : S} {x : S × A × S} (hx : x ∈ steps exec as s) :
    exec x.2.1 x.1 = some x.2.2 := by
  induction as generalizing s with
  | nil => cases hx
  | cons a as ih =>
    cases hexec : exec a s with
    | none =>
      rw [steps_cons_of_none hexec] at hx
      cases hx
    | some t =>
      rw [steps_cons_of_some hexec, List.mem_cons] at hx
      rcases hx with rfl | hx
      · exact hexec
      · exact ih hx

/-- What every step preserves if it meets the condition holds along a run whose steps all do. -/
theorem forall_steps_of_meets (hstep : ∀ s a t, I s → Meets s a → exec a s = some t → I t)
    (as : List A) {s : S} (hs : I s) (hmeets : ∀ x ∈ steps exec as s, Meets x.1 x.2.1) :
    ∀ x ∈ steps exec as s, I x.1 ∧ I x.2.2 := by
  induction as generalizing s with
  | nil => simp [steps]
  | cons a as ih =>
    cases hexec : exec a s with
    | none => simp [steps_cons_of_none hexec]
    | some t =>
      rw [steps_cons_of_some hexec, List.forall_mem_cons] at hmeets ⊢
      have ht := hstep s a t hs hmeets.1 hexec
      exact ⟨⟨hs, ht⟩, ih ht hmeets.2⟩

/-- All steps of a run of legal actions are good exactly if all of them meet the condition. -/
theorem forall_good_iff
    (hstep : ∀ s a t, I s → Legal s a → exec a s = some t →
      (Good s a t ↔ Meets s a) ∧ (Good s a t → I t))
    (as : List A) {s : S} (hs : I s) (hlegal : ∀ x ∈ steps exec as s, Legal x.1 x.2.1) :
    (∀ x ∈ steps exec as s, Good x.1 x.2.1 x.2.2) ↔ ∀ x ∈ steps exec as s, Meets x.1 x.2.1 := by
  induction as generalizing s with
  | nil => simp [steps]
  | cons a as ih =>
    cases hexec : exec a s with
    | none => simp [steps_cons_of_none hexec]
    | some t =>
      rw [steps_cons_of_some hexec, List.forall_mem_cons] at hlegal
      obtain ⟨hiff, hkeep⟩ := hstep s a t hs hlegal.1 hexec
      rw [steps_cons_of_some hexec, List.forall_mem_cons, List.forall_mem_cons, hiff]
      exact and_congr_right fun hmeets ↦ ih (hkeep (hiff.2 hmeets)) hlegal.2

/-- All states of a run are sound exactly if all its steps meet the condition. -/
theorem forall_steps_iff
    (hstep : ∀ s a t, I s → exec a s = some t → (Sound t ↔ Meets s a) ∧ (Sound t → I t))
    (as : List A) {s : S} (hs : I s) :
    (∀ x ∈ steps exec as s, Sound x.2.2) ↔ ∀ x ∈ steps exec as s, Meets x.1 x.2.1 :=
  @forall_good_iff _ _ exec I Meets (fun _ _ ↦ True) (fun _ _ t ↦ Sound t)
    (fun s a t hs _ hexec ↦ hstep s a t hs hexec) as s hs fun _ _ ↦ trivial

/-- What is reached by legal actions one after the other is reached by a list of actions, and the
run may go on from there. -/
theorem exists_steps {s t : S}
    (h : Relation.ReflTransGen (fun s t ↦ ∃ a, Legal s a ∧ exec a s = some t) s t) :
    ∃ as, (∀ x ∈ steps exec as s, Legal x.1 x.2.1) ∧
      ∀ bs, steps exec (as ++ bs) s = steps exec as s ++ steps exec bs t := by
  induction h using Relation.ReflTransGen.head_induction_on with
  | refl => exact ⟨[], by simp [steps], fun bs ↦ rfl⟩
  | head hstep _ ih =>
    obtain ⟨a, hlegal, hexec⟩ := hstep
    obtain ⟨as, has, happend⟩ := ih
    refine ⟨a :: as, ?_, fun bs ↦ ?_⟩
    · rw [steps_cons_of_some hexec, List.forall_mem_cons]
      exact ⟨hlegal, has⟩
    · rw [List.cons_append, steps_cons_of_some hexec, steps_cons_of_some hexec, happend,
        List.cons_append]

end Steps
