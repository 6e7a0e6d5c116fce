import Memchk.Library.Mutex
import Memchk.Words
import Mathlib.Logic.Relation

/-!
# Disabling the hooks with many threads

`do_not_hook` and the recursive mutex of `memchk_hook.c`, for any number of threads. Every thread
opens and closes sections with `mc_disable_hook` and `mc_enable_hook`, properly nested, and makes
hooked calls inside and outside of them. The steps are those between which another thread can run:
locking, unlocking, and the single loads and stores of `do_not_hook`.

## The positions of a thread

`HookPos` says how far a thread is in the function it executes, with the value of `do_not_hook` that
it has read and not yet used. The mutex is `RecursiveMutex` of the library, whose count is that of
its owner.

## The invariant

`mc_disable_hook` returns with the mutex locked, so that the counter is that of one thread at a
time: `HookState.Inv` says that it is the depth of the sections the owner is in, except in the
middle of an increment or a decrement, where it is what the position remembers. A thread that does
not own the mutex is in no section.

The step lemma goes through the kinds of steps; those that move one thread without touching the
mutex are `Inv.moveTo`, and locking and unlocking are `Inv.lock` and `Inv.unlock`.

## Main result

`hookState_private`: in every state that is reached, `do_not_hook` is the depth of the thread that
owns the mutex, all others are at depth zero, and a hooked call passes its request on exactly if its
own thread is in a section.
-/

namespace Memchk

/-- Where a thread is in the functions that use the mutex. -/
inductive HookPos
  /-- In none of them. -/
  | idle
  /-- In `mc_disable_hook`, behind `HOOK_LOCK`. -/
  | disabling
  /-- In `mc_disable_hook`, with the value of `do_not_hook` that `do_not_hook++` has loaded. -/
  | incrementing (v : ℤ)
  /-- In `mc_enable_hook`, with the value of `do_not_hook` that `do_not_hook--` has loaded. -/
  | decrementing (v : ℤ)
  /-- In `mc_enable_hook`, before `HOOK_UNLOCK`. -/
  | enabling
  /-- In a hooked call, behind `HOOK_LOCK`. -/
  | calling
  /-- In a hooked call, before `HOOK_UNLOCK`, with the outcome of `if (do_not_hook)`. -/
  | tested (passThrough : Bool)
  /-- In a branch of a hooked call, the mutex unlocked again. -/
  | branch (passThrough : Bool)
deriving DecidableEq

/-- The mutex, the counter, and the threads: where each is, and in how many sections. -/
structure HookState (τ : Type*) where
  mutex : RecursiveMutex τ
  doNotHook : ℤ
  pos : τ → HookPos
  depth : τ → ℕ

/-- The steps of a thread. -/
inductive HookAction
  /-- `mc_disable_hook` is called and locks the mutex. -/
  | lockDisable
  | loadInc
  | storeInc
  /-- `mc_enable_hook` is called, at the end of a section. -/
  | loadDec
  | storeDec
  | unlockEnable
  /-- A hooked function is called and locks the mutex. -/
  | lockCall
  | test
  | unlockCall
  /-- The hooked function returns. -/
  | return_
deriving DecidableEq

variable {τ : Type*} [DecidableEq τ]

namespace HookState

/-- The thread is now at `p`. -/
def moveTo (t : τ) (p : HookPos) (s : HookState τ) : HookState τ :=
  { s with pos := Function.update s.pos t p }

/-- The thread is now in `d` sections. -/
def setDepth (t : τ) (d : ℕ) (s : HookState τ) : HookState τ :=
  { s with depth := Function.update s.depth t d }

/-- What a step does, if the thread can take it. -/
def step (t : τ) (a : HookAction) (s : HookState τ) : Option (HookState τ) :=
  match a, s.pos t with
  | .lockDisable, .idle =>
    (s.mutex.lock t).map fun m ↦ { s with mutex := m }.moveTo t .disabling
  | .loadInc, .disabling => some (s.moveTo t (.incrementing s.doNotHook))
  | .storeInc, .incrementing v =>
    (incInt v).map fun w ↦
      ({ s with doNotHook := w }.moveTo t .idle).setDepth t (s.depth t + 1)
  | .loadDec, .idle =>
    if 0 < s.depth t then some (s.moveTo t (.decrementing s.doNotHook)) else none
  | .storeDec, .decrementing v =>
    some (({ s with doNotHook := v - 1 }.moveTo t .enabling).setDepth t (s.depth t - 1))
  | .unlockEnable, .enabling =>
    (s.mutex.unlock t).map fun m ↦ { s with mutex := m }.moveTo t .idle
  | .lockCall, .idle =>
    (s.mutex.lock t).map fun m ↦ { s with mutex := m }.moveTo t .calling
  | .test, .calling => some (s.moveTo t (.tested (s.doNotHook ≠ 0)))
  | .unlockCall, .tested b =>
    (s.mutex.unlock t).map fun m ↦ { s with mutex := m }.moveTo t (.branch b)
  | .return_, .branch _ => some (s.moveTo t .idle)
  | _, _ => none

/-- The state before any call. -/
def init : HookState τ where
  mutex := .free
  doNotHook := 0
  pos _ := .idle
  depth _ := 0

/-- The states that any interleaving of the threads can reach. -/
def Reachable (s : HookState τ) : Prop :=
  Relation.ReflTransGen (fun s s' ↦ ∃ t a, step t a s = some s') init s

/-- The times a thread at this place has locked the mutex without having opened a section. -/
def locked : HookPos → ℕ
  | .disabling | .incrementing _ | .enabling | .calling | .tested _ => 1
  | .idle | .decrementing _ | .branch _ => 0

/-- What a thread keeps in mind at this place, with `d` the sections it is in. -/
def remembers (doNotHook : ℤ) (d : ℕ) : HookPos → Prop
  | .incrementing v => v = doNotHook
  | .decrementing v => v = doNotHook ∧ 0 < d
  | .tested b | .branch b => (b = true ↔ 0 < d)
  | _ => True

/-- The invariant: the counter is the depth of the owner's sections. -/
structure Inv (s : HookState τ) : Prop where
  held : s.mutex.Held fun t ↦ s.depth t + locked (s.pos t)
  owner : ∀ t, s.mutex.owner = some t → s.doNotHook = s.depth t
  free : s.mutex.owner = none → s.doNotHook = 0
  remembers : ∀ t, remembers s.doNotHook (s.depth t) (s.pos t)

variable {s s' : HookState τ} {t : τ} {a : HookAction}

omit [DecidableEq τ] in
/-- A thread that does not hold the mutex does not mind what happens to the counter. -/
theorem remembers_of_not_held {d : ℕ} {p : HookPos} {v : ℤ} (h : remembers v d p)
    (hfree : d + locked p = 0) (w : ℤ) : remembers w d p := by
  cases p with
  | incrementing v => simp [locked] at hfree
  | decrementing v =>
    obtain ⟨-, hpos⟩ := h
    omega
  | branch b => exact h
  | _ => exact h

/-- What every step has to show: the thread `t` is now at `p` and in `d` sections, with the mutex
`m` and the counter `v`. The counter changes only while `t` owns the mutex. -/
theorem Inv.update (h : s.Inv) {m : RecursiveMutex τ} {v : ℤ} {p : HookPos} {d : ℕ}
    (hheld : m.Held (Function.update (fun u ↦ s.depth u + locked (s.pos u)) t (d + locked p)))
    (howner : ∀ u, m.owner = some u → v = (Function.update s.depth t d u : ℕ))
    (hfree : m.owner = none → v = 0) (hrem : HookState.remembers v d p)
    (hv : v = s.doNotHook ∨ s.mutex.owner = some t) :
    Inv ⟨m, v, Function.update s.pos t p, Function.update s.depth t d⟩ where
  held := by
    refine hheld.congr fun u ↦ ?_
    by_cases hu : u = t
    · subst hu
      simp
    · simp [Function.update_of_ne hu]
  owner := howner
  free := hfree
  remembers u := by
    by_cases hu : u = t
    · subst hu
      simpa using hrem
    · simp only [Function.update_of_ne hu]
      rcases hv with rfl | hv
      · exact h.remembers u
      · exact remembers_of_not_held (h.remembers u)
          (h.held.eq_zero (by rw [hv]; exact fun heq ↦ hu (Option.some.inj heq).symm)) v

/-- A step that leaves the mutex and the counter alone. -/
theorem Inv.moveTo (h : s.Inv) {p : HookPos} (hlocked : locked p = locked (s.pos t))
    (hrem : HookState.remembers s.doNotHook (s.depth t) p) : (s.moveTo t p).Inv := by
  have := h.update (t := t) (m := s.mutex) (v := s.doNotHook) (p := p) (d := s.depth t) ?_ ?_
    h.free hrem (.inl rfl)
  · rwa [Function.update_eq_self] at this
  · rw [hlocked]
    exact h.held.congr fun u ↦ congrFun (Function.update_eq_self t _) u
  · rw [Function.update_eq_self]
    exact h.owner

/-- A thread outside of all functions locks the mutex. -/
theorem Inv.lock (h : s.Inv) {m : RecursiveMutex τ} {p : HookPos} (hpos : s.pos t = .idle)
    (hp : locked p = 1) (hrem : HookState.remembers s.doNotHook (s.depth t) p)
    (hlock : s.mutex.lock t = some m) : ({ s with mutex := m }.moveTo t p).Inv := by
  obtain ⟨howner, hheld⟩ := h.held.lock hlock
  have hcount : s.doNotHook = s.depth t := by
    cases ho : s.mutex.owner with
    | none =>
      have := h.held.of_none ho t
      rw [h.free ho, show s.depth t = 0 by omega]
      rfl
    | some u =>
      obtain rfl : u = t := by
        by_contra hne
        simp [RecursiveMutex.lock, ho, hne] at hlock
      exact h.owner u ho
  have := h.update (t := t) (m := m) (v := s.doNotHook) (p := p) (d := s.depth t) ?_ ?_
    (fun hn ↦ absurd hn (by simp [howner])) hrem (.inl rfl)
  · rwa [Function.update_eq_self] at this
  · rw [hp]
    rwa [hpos, show locked .idle = 0 from rfl, Nat.add_zero] at hheld
  · intro u hu
    obtain rfl : t = u := by simpa [howner] using hu
    rw [Function.update_eq_self]
    exact hcount

/-- A thread unlocks the mutex that it locked without opening a section. -/
theorem Inv.unlock (h : s.Inv) {m : RecursiveMutex τ} {p : HookPos}
    (hpos : locked (s.pos t) = 1) (hp : locked p = 0)
    (hrem : HookState.remembers s.doNotHook (s.depth t) p)
    (hunlock : s.mutex.unlock t = some m) : ({ s with mutex := m }.moveTo t p).Inv := by
  obtain ⟨howner, -, hheld⟩ := h.held.unlock hunlock
  have hcount := h.owner t howner
  have hheld' : m.Held (Function.update (fun u ↦ s.depth u + locked (s.pos u)) t
      (s.depth t + locked p)) := by
    rw [hp]
    rwa [hpos, Nat.add_sub_cancel] at hheld
  have := h.update (t := t) (m := m) (v := s.doNotHook) (p := p) (d := s.depth t) hheld' ?_ ?_
    hrem (.inl rfl)
  · rwa [Function.update_eq_self] at this
  · intro u hu
    -- the mutex has no owner but `t`
    obtain rfl : t = u := by
      unfold RecursiveMutex.unlock at hunlock
      split_ifs at hunlock
      · obtain rfl := Option.some.inj hunlock
        simp at hu
      · obtain rfl := Option.some.inj hunlock
        simpa using hu
    rw [Function.update_eq_self]
    exact hcount
  · intro hn
    have := hheld'.of_none hn t
    rw [Function.update_self] at this
    rw [hcount, show s.depth t = 0 by omega]
    rfl

/-- Every step of every thread keeps the invariant. -/
theorem Inv.step (h : s.Inv) (hstep : step t a s = some s') : s'.Inv := by
  -- a thread that is not idle, or that has a section open, owns the mutex
  have hrem := h.remembers t
  have howner : 0 < s.depth t + locked (s.pos t) → s.mutex.owner = some t := h.held.owner_eq
  cases a with
  | lockDisable =>
    cases hpos : s.pos t <;> simp only [HookState.step, hpos, reduceCtorEq] at hstep
    obtain ⟨m, hm, rfl⟩ := Option.map_eq_some_iff.1 hstep
    exact h.lock hpos rfl trivial hm
  | loadInc =>
    cases hpos : s.pos t <;> simp only [HookState.step, hpos, reduceCtorEq] at hstep
    obtain rfl := Option.some.inj hstep
    exact h.moveTo (by rw [hpos]; rfl) rfl
  | storeInc =>
    cases hpos : s.pos t with
    | incrementing v =>
      simp only [HookState.step, hpos] at hstep
      obtain ⟨w, hw, rfl⟩ := Option.map_eq_some_iff.1 hstep
      rw [hpos] at hrem howner
      -- no other thread can have stored between the load and this store
      obtain rfl : v = s.doNotHook := hrem
      obtain rfl : s.doNotHook + 1 = w := by
        unfold incInt at hw
        split_ifs at hw
        exact Option.some.inj hw
      have ho := howner (by simp [locked])
      refine h.update (m := s.mutex) (v := s.doNotHook + 1) (p := .idle) (d := s.depth t + 1) ?_
        (fun u hu ↦ ?_) (fun hn ↦ absurd hn (by simp [ho])) trivial (.inr ho)
      · refine h.held.congr fun u ↦ ?_
        by_cases hu : u = t
        · subst hu
          simp [hpos, locked]
        · simp [Function.update_of_ne hu]
      · obtain rfl : t = u := by simpa [ho] using hu
        simp [h.owner t ho]
    | _ => simp [HookState.step, hpos] at hstep
  | loadDec =>
    cases hpos : s.pos t <;> simp only [HookState.step, hpos, reduceCtorEq] at hstep
    split_ifs at hstep with hd
    obtain rfl := Option.some.inj hstep
    exact h.moveTo (by rw [hpos]; rfl) ⟨rfl, hd⟩
  | storeDec =>
    cases hpos : s.pos t with
    | decrementing v =>
      simp only [HookState.step, hpos, Option.some.injEq] at hstep
      subst hstep
      rw [hpos] at hrem howner
      obtain ⟨rfl, hd⟩ := hrem
      have ho := howner (by omega)
      refine h.update (m := s.mutex) (v := s.doNotHook - 1) (p := .enabling) (d := s.depth t - 1)
        ?_ (fun u hu ↦ ?_) (fun hn ↦ absurd hn (by simp [ho])) trivial (.inr ho)
      · refine h.held.congr fun u ↦ ?_
        by_cases hu : u = t
        · subst hu
          simp only [Function.update_self, hpos, locked]
          omega
        · simp [Function.update_of_ne hu]
      · obtain rfl : t = u := by simpa [ho] using hu
        rw [Function.update_self, h.owner t ho]
        omega
    | _ => simp [HookState.step, hpos] at hstep
  | unlockEnable =>
    cases hpos : s.pos t <;> simp only [HookState.step, hpos, reduceCtorEq] at hstep
    obtain ⟨m, hm, rfl⟩ := Option.map_eq_some_iff.1 hstep
    exact h.unlock (by rw [hpos]; rfl) rfl trivial hm
  | lockCall =>
    cases hpos : s.pos t <;> simp only [HookState.step, hpos, reduceCtorEq] at hstep
    obtain ⟨m, hm, rfl⟩ := Option.map_eq_some_iff.1 hstep
    exact h.lock hpos rfl trivial hm
  | test =>
    cases hpos : s.pos t <;> simp only [HookState.step, hpos, reduceCtorEq] at hstep
    obtain rfl := Option.some.inj hstep
    rw [hpos] at howner
    refine h.moveTo (by rw [hpos]; rfl) ?_
    -- the thread owns the mutex here, so it reads its own depth
    have := h.owner t (howner (by simp [locked]))
    simp only [HookState.remembers, decide_eq_true_eq, this]
    omega
  | unlockCall =>
    cases hpos : s.pos t with
    | tested b =>
      simp only [HookState.step, hpos] at hstep
      obtain ⟨m, hm, rfl⟩ := Option.map_eq_some_iff.1 hstep
      rw [hpos] at hrem
      exact h.unlock (by rw [hpos]; rfl) rfl hrem hm
    | _ => simp [HookState.step, hpos] at hstep
  | return_ =>
    cases hpos : s.pos t <;> simp only [HookState.step, hpos, reduceCtorEq] at hstep
    obtain rfl := Option.some.inj hstep
    exact h.moveTo (by rw [hpos]; rfl) trivial

omit [DecidableEq τ] in
theorem inv_init : (init : HookState τ).Inv :=
  ⟨.free_zero, fun _ hu ↦ absurd hu (by simp [init, RecursiveMutex.free]), fun _ ↦ rfl,
    fun _ ↦ trivial⟩

/-- The invariant holds in every state that is reached. -/
theorem Reachable.inv (h : s.Reachable) : s.Inv := by
  induction h with
  | refl => exact inv_init
  | tail _ hstep ih =>
    obtain ⟨t, a, hstep⟩ := hstep
    exact ih.step hstep

end HookState

namespace HookState

/-- The state after the steps of a schedule. -/
def run (l : List (τ × HookAction)) (s : HookState τ) : Option (HookState τ) :=
  l.foldlM (fun s x ↦ step x.1 x.2 s) s

/-- A list of steps leads to a state that is reached. -/
theorem Reachable.run {l : List (τ × HookAction)} {s s' : HookState τ} (h : s.Reachable)
    (hrun : s.run l = some s') : s'.Reachable := by
  induction l generalizing s with
  | nil =>
    obtain rfl : s = s' := by simpa [HookState.run] using hrun
    exact h
  | cons x l ih =>
    rw [HookState.run, List.foldlM_cons] at hrun
    obtain ⟨s₁, hstep, hrest⟩ := Option.bind_eq_some_iff.1 hrun
    exact ih (h.tail ⟨x.1, x.2, hstep⟩) hrest

/-- One of two threads has opened a section and makes a call in it. -/
def inSection : HookState Bool :=
  ((init : HookState Bool).run [(true, .lockDisable), (true, .loadInc), (true, .storeInc),
    (true, .lockCall), (true, .test), (true, .unlockCall)]).get (by decide)

theorem inSection_reachable : inSection.Reachable :=
  Reachable.run .refl (Option.some_get _).symm

end HookState

/-- Disabling is private to the thread that disables: the counter is the depth of the sections of
the thread that owns the mutex, no other thread is in a section, and a hooked call is passed through
exactly if its own thread is in one. -/
theorem hookState_private {s : HookState τ} (h : s.Reachable) :
    (∀ t, s.mutex.owner = some t → s.doNotHook = s.depth t) ∧
      (s.mutex.owner = none → s.doNotHook = 0) ∧
      (∀ t, s.mutex.owner ≠ some t → s.depth t = 0) ∧
      (∀ t b, s.pos t = .tested b ∨ s.pos t = .branch b → (b = true ↔ 0 < s.depth t)) := by
  have hinv := h.inv
  refine ⟨hinv.owner, hinv.free, fun t ht ↦ ?_, fun t b hb ↦ ?_⟩
  · have := hinv.held.eq_zero ht
    omega
  · have hrem := hinv.remembers t
    rcases hb with hb | hb <;> rwa [hb] at hrem

/-- The depths of two threads, one of them in a section. -/
theorem hookState_private_inSection :
    HookState.inSection.doNotHook = HookState.inSection.depth true ∧
      HookState.inSection.depth false = 0 ∧ 0 < HookState.inSection.depth true := by
  have h := hookState_private HookState.inSection_reachable
  exact ⟨h.1 true (by decide), h.2.2.1 false (by decide),
    (h.2.2.2 true true (.inr (by decide))).1 rfl⟩

end Memchk
