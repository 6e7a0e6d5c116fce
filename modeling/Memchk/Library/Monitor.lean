import Mathlib.Data.List.Basic
import Mathlib.Tactic

/-!
# Monitors

A monitor watches things, which may break at points. What happens leaves entries: some report on the
key of a thing, and some say that a thing is let go.

A step that is `Tended` to misses nothing and makes nothing up: a thing that is broken stays so and
is watched and kept unless it is reported on before it is let go, only what was broken is broken
after the step, and only the keys of broken things are reported on. Others may break things and mend
them in between. So over a run of both kinds of steps it is told point by point and key by key what
the monitor owes: a point that no other step mends keeps its thing until that is reported on
(`Alert`), and a key whose things no other step breaks is not reported on (`Honest`).

## How the two sides compose

Both properties relate the state before a run, its entries and the state after it, and both are
transitive (`Alert.trans`, `Honest.trans`), so that they are shown for one step and carried over a
run by `LoggedRun.induction`. `Alert` follows the thing: it is announced, or it is still broken at
the same point and still watched. A monitor may so let go of a broken thing only after a report on
it. `Honest` follows the key: if all things with the key were whole, they still are, and no entry
reports on it.
-/

/-- What is watched in which states, where it is broken there, and what entries say. -/
structure Monitor (σ ω π κ ε : Type*) where
  Watches : σ → ω → Prop
  Broken : σ → ω → π → Prop
  key : ω → κ
  Reports : ε → κ → Prop
  Drops : ε → ω → Prop

/-- A run of steps, and the entries that they leave. -/
inductive LoggedRun {σ ε : Type*} (step : σ → List ε → σ → Prop) : σ → List ε → σ → Prop
  | refl (s : σ) : LoggedRun step s [] s
  | tail {s t u : σ} {es es' : List ε} (h : LoggedRun step s es t) (hstep : step t es' u) :
    LoggedRun step s (es ++ es') u

/-- What holds of every step and is passed on from one to the next holds of every run. -/
theorem LoggedRun.induction {σ ε : Type*} {step R : σ → List ε → σ → Prop} {I : σ → Prop} {s t : σ}
    {es : List ε} (h : LoggedRun step s es t) (hs : I s) (hrefl : ∀ s, R s [] s)
    (htrans : ∀ {s t u es es'}, R s es t → R t es' u → R s (es ++ es') u)
    (hstep : ∀ {s t es}, I s → step s es t → R s es t ∧ I t) : R s es t ∧ I t := by
  induction h with
  | refl => exact ⟨hrefl s, hs⟩
  | tail _ hlast ih =>
    obtain ⟨hrun, ht⟩ := ih
    obtain ⟨hone, hu⟩ := hstep ht hlast
    exact ⟨htrans hrun hone, hu⟩

namespace Monitor

variable {σ ω π κ ε : Type*} (M : Monitor σ ω π κ ε)

/-- The thing is reported on, and it has not been let go before. -/
def Announced (w : ω) (es : List ε) : Prop :=
  ∃ front e back, es = front ++ e :: back ∧ M.Reports e (M.key w) ∧ ∀ d ∈ front, ¬M.Drops d w

/-- The thing is watched and broken at the point, and it has not been let go. -/
def Pending (w : ω) (p : π) (es : List ε) (t : σ) : Prop :=
  M.Watches t w ∧ M.Broken t w p ∧ ∀ d ∈ es, ¬M.Drops d w

/-- A thing that is broken at the point is reported on unless it stays so. -/
def Alert (w : ω) (p : π) (s : σ) (es : List ε) (t : σ) : Prop :=
  M.Watches s w → M.Broken s w p → M.Announced w es ∨ M.Pending w p es t

/-- Nothing that is watched under the key is broken. -/
def Whole (k : κ) (s : σ) : Prop :=
  ∀ w, M.Watches s w → M.key w = k → ∀ p, ¬M.Broken s w p

/-- A key under which nothing is broken is not reported on, and nothing breaks there. -/
def Honest (k : κ) (s : σ) (es : List ε) (t : σ) : Prop :=
  M.Whole k s → M.Whole k t ∧ ∀ e ∈ es, ¬M.Reports e k

/-- The step misses nothing and makes nothing up. -/
structure Tended (s : σ) (es : List ε) (t : σ) : Prop where
  alert : ∀ w p, M.Alert w p s es t
  broken : ∀ w p, M.Watches t w → M.Broken t w p → M.Watches s w ∧ ∃ q, M.Broken s w q
  reported : ∀ e ∈ es, ∀ k, M.Reports e k → ∃ w p, M.Watches s w ∧ M.Broken s w p ∧ M.key w = k

variable {M} {w : ω} {p : π} {k : κ} {s t u : σ} {es es' : List ε}

/-- What comes behind a report does not matter. -/
theorem Announced.append (h : M.Announced w es) (es' : List ε) : M.Announced w (es ++ es') := by
  obtain ⟨front, e, back, rfl, hreports, hkept⟩ := h
  exact ⟨front, e, back ++ es', by simp, hreports, hkept⟩

theorem Announced.after (h : M.Announced w es') (hkept : ∀ d ∈ es, ¬M.Drops d w) :
    M.Announced w (es ++ es') := by
  obtain ⟨front, e, back, rfl, hreports, hkept'⟩ := h
  refine ⟨es ++ front, e, back, by simp, hreports, fun d hd ↦ ?_⟩
  exact (List.mem_append.1 hd).elim (hkept d) (hkept' d)

theorem Alert.refl (s : σ) : M.Alert w p s [] s :=
  fun hw hp ↦ .inr ⟨hw, hp, fun _ hd ↦ absurd hd List.not_mem_nil⟩

/-- A run and another one behind it. -/
theorem Alert.trans (h : M.Alert w p s es t) (h' : M.Alert w p t es' u) :
    M.Alert w p s (es ++ es') u := by
  intro hw hp
  rcases h hw hp with hannounced | ⟨hw', hp', hkept⟩
  · exact .inl (hannounced.append es')
  rcases h' hw' hp' with hannounced | ⟨hw'', hp'', hkept'⟩
  · exact .inl (hannounced.after hkept)
  · exact .inr ⟨hw'', hp'', fun d hd ↦ (List.mem_append.1 hd).elim (hkept d) (hkept' d)⟩

theorem Honest.refl (s : σ) : M.Honest k s [] s :=
  fun hwhole ↦ ⟨hwhole, fun _ he ↦ absurd he List.not_mem_nil⟩

/-- Two runs that report nothing on a key whose things are whole. -/
theorem Honest.trans (h : M.Honest k s es t) (h' : M.Honest k t es' u) :
    M.Honest k s (es ++ es') u := by
  intro hwhole
  obtain ⟨ht, hes⟩ := h hwhole
  obtain ⟨hu, hes'⟩ := h' ht
  exact ⟨hu, fun e he ↦ (List.mem_append.1 he).elim (hes e) (hes' e)⟩

namespace Tended

theorem refl (s : σ) : M.Tended s [] s where
  alert _ _ := Alert.refl s
  broken _ p hw hp := ⟨hw, p, hp⟩
  reported _ he := absurd he List.not_mem_nil

/-- Two steps that are tended to, one after the other. -/
theorem trans (h : M.Tended s es t) (h' : M.Tended t es' u) : M.Tended s (es ++ es') u where
  alert w p := (h.alert w p).trans (h'.alert w p)
  broken w p hw hp := by
    obtain ⟨hw', q, hq⟩ := h'.broken w p hw hp
    exact h.broken w q hw' hq
  reported e he k hk := by
    rcases List.mem_append.1 he with he | he
    · exact h.reported e he k hk
    · -- what is reported was broken all along
      obtain ⟨w, p, hw, hp, hkey⟩ := h'.reported e he k hk
      obtain ⟨hw', q, hq⟩ := h.broken w p hw hp
      exact ⟨w, q, hw', hq, hkey⟩

/-- A step that is tended to is honest about every key. -/
theorem honest (h : M.Tended s es t) (k : κ) : M.Honest k s es t := by
  intro hwhole
  refine ⟨fun w hw hk p hp ↦ ?_, fun e he hreports ↦ ?_⟩
  · obtain ⟨hw', q, hq⟩ := h.broken w p hw hp
    exact hwhole w hw' hk q hq
  · obtain ⟨w, p, hw, hp, hk⟩ := h.reported e he k hreports
    exact hwhole w hw hk p hp

/-- What is watched is the same, nothing changes about it, and the entries do not concern it. -/
theorem of_same (hwatches : ∀ w, M.Watches t w ↔ M.Watches s w)
    (hbroken : ∀ w p, M.Watches s w → (M.Broken t w p ↔ M.Broken s w p))
    (hreports : ∀ e ∈ es, ∀ k, ¬M.Reports e k)
    (hkept : ∀ w, M.Watches s w → ∀ d ∈ es, ¬M.Drops d w) : M.Tended s es t where
  alert w p hw hp := .inr ⟨(hwatches w).2 hw, (hbroken w p hw).2 hp, hkept w hw⟩
  broken w p hw hp := by
    have hw' := (hwatches w).1 hw
    exact ⟨hw', p, (hbroken w p hw').1 hp⟩
  reported e he k hk := absurd hk (hreports e he k)

end Tended

end Monitor
