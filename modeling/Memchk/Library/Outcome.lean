import Mathlib.Order.Basic

/-!
# Computations that may fault

`Outcome fault x Q` says of a computation `x : Option β`, where `none` is a fault: if `x` gives a
value, the value has `Q`, and if it faults, then `fault` holds. With `fault := False` this is total
correctness; in general it tells at once what a returning computation has done and when it may fail
to return.

## Rules

The rules follow the structure of a computation: `Outcome.bind` for one step after the other,
`Outcome.mono` for a weaker postcondition, `Outcome.weaken` for more faults, and `Outcome.foldlM`
for a loop over a list, with an invariant on what is still to come. A specification in this form is
used in two ways: with a run at hand it gives what the run has done (`Outcome.value`), and where
there is no fault it gives a run (`Outcome.exists_of_not`).
-/

variable {α β γ : Type*}

/-- The computation gives a value with `Q`, or faults where `fault` allows it. -/
structure Outcome (fault : Prop) (x : Option β) (Q : β → Prop) : Prop where
  value : ∀ b, x = some b → Q b
  fault : x = none → fault

namespace Outcome

variable {fault : Prop} {x : Option β} {Q R : β → Prop} {b : β}

/-- A value is judged by the postcondition. -/
theorem some_iff : Outcome fault (some b) Q ↔ Q b :=
  ⟨fun h ↦ h.value b rfl, fun h ↦ ⟨fun _ heq ↦ Option.some.inj heq ▸ h, fun heq ↦ by cases heq⟩⟩

/-- A fault is judged by where it is allowed. -/
theorem none_iff : Outcome fault none Q ↔ fault :=
  ⟨fun h ↦ h.fault rfl, fun h ↦ ⟨fun _ heq ↦ (by cases heq), fun _ ↦ h⟩⟩

protected theorem some (h : Q b) : Outcome fault (some b) Q :=
  some_iff.2 h

protected theorem none (h : fault) : Outcome fault none Q :=
  none_iff.2 h

/-- A computation returns unless it may fault. -/
theorem exists_of_not (h : Outcome fault x Q) (hfault : ¬fault) : ∃ b, x = some b ∧ Q b := by
  cases x with
  | none => exact absurd (h.fault rfl) hfault
  | some b => exact ⟨b, rfl, h.value b rfl⟩

theorem mono (h : Outcome fault x Q) (himp : ∀ b, Q b → R b) : Outcome fault x R :=
  ⟨fun b heq ↦ himp b (h.value b heq), h.fault⟩

/-- More faults may be allowed. -/
theorem weaken {fault' : Prop} (h : Outcome fault x Q) (himp : fault → fault') :
    Outcome fault' x Q :=
  ⟨h.value, fun hnone ↦ himp (h.fault hnone)⟩

/-- One step after the other. -/
theorem bind {f : β → Option γ} {T : γ → Prop} (h : Outcome fault x Q)
    (hf : ∀ b, Q b → Outcome fault (f b) T) : Outcome fault (x.bind f) T := by
  cases x with
  | none => exact .none (h.fault rfl)
  | some b => exact hf b (h.value b rfl)

/-- A loop over a list: `I rest` holds when `rest` is still to come. -/
theorem foldlM {f : β → α → Option β} (I : List α → β → Prop)
    (hstep : ∀ a rest b, I (a :: rest) b → Outcome fault (f b a) (I rest)) {l : List α}
    (h : I l b) : Outcome fault (l.foldlM f b) (I []) := by
  induction l generalizing b with
  | nil => exact .some h
  | cons a l ih =>
    rw [List.foldlM_cons]
    exact (hstep a l b h).bind fun _ h ↦ ih h

end Outcome
