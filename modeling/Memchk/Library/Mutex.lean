import Mathlib.Logic.Function.Basic
import Mathlib.Tactic

/-!
# Recursive mutexes

A mutex that its owner may lock again, over any type of threads. `lock` gives `none` where the
thread would have to wait, `unlock` where it does not own the mutex.

`Held m h` says that thread `t` has locked the mutex `h t` times more than it has unlocked it. The
two laws say how an operation moves `h`, and `Held.eq_zero` is mutual exclusion: while one thread
owns the mutex, no other thread holds it.

## Use

A system with such a mutex takes for `h` the number of locks that the program counter of each thread
stands for. An invariant about a variable under the mutex is then stated for the threads with `0 < h
t`: there is at most one of them, and it is the owner (`Held.owner_eq`).
-/

variable {τ : Type*}

/-- The owner of the mutex, and how often it has locked it. -/
structure RecursiveMutex (τ : Type*) where
  owner : Option τ
  count : ℕ

namespace RecursiveMutex

/-- The mutex as it is initialised. -/
def free : RecursiveMutex τ :=
  ⟨none, 0⟩

/-- `pthread_mutex_lock`. -/
def lock [DecidableEq τ] (t : τ) (m : RecursiveMutex τ) : Option (RecursiveMutex τ) :=
  match m.owner with
  | none => some ⟨some t, 1⟩
  | some u => if u = t then some ⟨some t, m.count + 1⟩ else none

/-- `pthread_mutex_unlock`. -/
def unlock [DecidableEq τ] (t : τ) (m : RecursiveMutex τ) : Option (RecursiveMutex τ) :=
  if m.owner = some t then
    if m.count ≤ 1 then some ⟨none, 0⟩ else some ⟨some t, m.count - 1⟩
  else none

/-- Thread `t` holds the mutex `h t` times. -/
structure Held (m : RecursiveMutex τ) (h : τ → ℕ) : Prop where
  of_none : m.owner = none → ∀ t, h t = 0
  of_some : ∀ u, m.owner = some u → h u = m.count ∧ 0 < m.count ∧ ∀ t, t ≠ u → h t = 0

namespace Held

variable {m m' : RecursiveMutex τ} {h h' : τ → ℕ} {t u : τ}

theorem free_zero : Held (free : RecursiveMutex τ) fun _ ↦ 0 :=
  ⟨fun _ _ ↦ rfl, fun _ hu ↦ absurd hu (by simp [free])⟩

/-- Nobody but the owner holds the mutex. -/
theorem eq_zero (hm : Held m h) (ht : m.owner ≠ some t) : h t = 0 := by
  cases ho : m.owner with
  | none => exact hm.of_none ho t
  | some u => exact (hm.of_some u ho).2.2 t fun heq ↦ ht (by rw [ho, heq])

/-- A thread that holds the mutex owns it. -/
theorem owner_eq (hm : Held m h) (ht : 0 < h t) : m.owner = some t := by
  by_contra hne
  have := hm.eq_zero hne
  omega

theorem congr (hm : Held m h) (heq : ∀ t, h' t = h t) : Held m h' := by
  rwa [show h' = h from funext heq]

variable [DecidableEq τ]

/-- A thread that gets the mutex owns it and holds it once more. -/
theorem lock (hm : Held m h) (hlock : m.lock t = some m') :
    m'.owner = some t ∧ Held m' (Function.update h t (h t + 1)) := by
  unfold RecursiveMutex.lock at hlock
  cases ho : m.owner with
  | none =>
    simp only [ho, Option.some.injEq] at hlock
    subst hlock
    refine ⟨rfl, fun hn ↦ absurd hn (by simp), fun u hu ↦ ?_⟩
    obtain rfl : t = u := by simpa using hu
    refine ⟨by simp [hm.of_none ho], Nat.one_pos, fun v hv ↦ ?_⟩
    rw [Function.update_of_ne hv, hm.of_none ho]
  | some w =>
    obtain ⟨hcount, -, hother⟩ := hm.of_some w ho
    simp only [ho] at hlock
    split_ifs at hlock with hw
    subst hw
    obtain rfl := Option.some.inj hlock
    refine ⟨rfl, fun hn ↦ absurd hn (by simp), fun u hu ↦ ?_⟩
    obtain rfl : w = u := by simpa using hu
    refine ⟨by simp [hcount], Nat.succ_pos _, fun v hv ↦ ?_⟩
    rw [Function.update_of_ne hv, hother v hv]

/-- A thread can unlock only what it holds, and then holds it once less. -/
theorem unlock (hm : Held m h) (hunlock : m.unlock t = some m') :
    m.owner = some t ∧ 0 < h t ∧ Held m' (Function.update h t (h t - 1)) := by
  unfold RecursiveMutex.unlock at hunlock
  split_ifs at hunlock with ho hcount
  · obtain rfl := Option.some.inj hunlock
    obtain ⟨hc, hpos, hother⟩ := hm.of_some t ho
    refine ⟨ho, by omega, fun _ v ↦ ?_, fun u hu ↦ absurd hu (by simp)⟩
    by_cases hv : v = t
    · subst hv
      rw [Function.update_self]
      omega
    · rw [Function.update_of_ne hv, hother v hv]
  · obtain rfl := Option.some.inj hunlock
    obtain ⟨hc, hpos, hother⟩ := hm.of_some t ho
    refine ⟨ho, by omega, fun hn ↦ absurd hn (by simp), fun u hu ↦ ?_⟩
    obtain rfl : t = u := by simpa using hu
    refine ⟨by simp [hc], by simp only; omega, fun v hv ↦ ?_⟩
    rw [Function.update_of_ne hv, hother v hv]

end Held

end RecursiveMutex
