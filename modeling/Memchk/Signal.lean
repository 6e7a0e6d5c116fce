import Mathlib.Data.List.Basic
import Mathlib.Logic.Function.Basic
import Mathlib.Logic.Relation
import Mathlib.Tactic

/-!
# Commands by signal

How a command gets from a signal to the working thread, in `memchk_signal.c`: the handlers call
`notify`, which stores the command in `__cmd` and signals the condition, and `work_thread` waits for
the condition and executes what it finds in `__cmd`. A signal can be delivered to any thread, the
working thread included, at any moment, and a handler can itself be interrupted by another signal;
each thread has a stack of the handlers that run on top of it. The mutex is not recursive, so that a
thread that locks it while it owns it waits for ever.

## The steps

A step is one access to shared state: the delivery of a signal, one of the four moves of `notify`,
or one of the moves of `work_thread`. `SignalState.step` gives the state after a step, or nothing if
the step cannot be made, and each kind of step has a lemma that says when it can be made and what it
does. The type of the threads is arbitrary.

`stored`, `completed` and `executed` count, for every command, the stores of `notify`, the calls of
`notify` that have come to their end, and the times `work_thread` has reached the command in its
`switch`; nothing reads them.

## The invariant

`SignalState.Inv` says who owns the mutex: a handler that has locked and not yet unlocked, or
`work_thread` at its test, in the `switch` or in the execution of a command, and nobody else. Only
the topmost handler of a thread can own it.

## Main results

* `commands_not_lost`: in a run all of whose stores find the slot empty, every `notify` that has
  ended stands for one execution of its command, or for the command waiting in the slot.
* `not_commands_not_lost`: without that condition a command is lost, by a store over another.
* `not_selfDeadlock`: no thread waits for itself in a run that delivers no signal to the owner of
  the mutex; `exists_selfDeadlock` is a run that does and gets stuck.
-/

namespace Memchk

/-- Where a call of `notify` is. -/
inductive NotifyPos
  | lock
  | store
  | signal
  | unlock
deriving DecidableEq

/-- A call of `notify`, by the handler of a command's signal. -/
structure NotifyCall where
  cmd : ℕ
  pos : NotifyPos
deriving DecidableEq

/-- Where `work_thread` is. -/
inductive WorkPos
  /-- At `if (__cmd == 0)`. -/
  | test
  /-- In `pthread_cond_wait`, waiting for the condition. -/
  | waiting
  /-- In `pthread_cond_wait`, woken but not yet with the mutex. -/
  | woken
  /-- At `switch (__cmd)`. -/
  | switch
  /-- In the branch of a command. -/
  | executing (cmd : ℕ)
deriving DecidableEq

/-- The mutex, the slot, the position of `work_thread`, and the handlers on top of each thread, the
innermost first. -/
structure SignalState (τ : Type*) where
  mutex : Option τ
  cmd : ℕ
  worker : WorkPos
  handlers : τ → List NotifyCall
  stored : ℕ → ℕ
  completed : ℕ → ℕ
  executed : ℕ → ℕ

/-- The steps. -/
inductive SignalAction (τ : Type*)
  /-- The signal of a command is delivered to a thread. -/
  | deliver (t : τ) (cmd : ℕ)
  | lock (t : τ)
  | store (t : τ)
  | signal (t : τ)
  | unlock (t : τ)
  | workTest
  /-- `pthread_cond_wait` may wake up without a signal. -/
  | workWake
  | workLock
  | workSwitch
  | workFinish
deriving DecidableEq

variable {τ : Type*} [DecidableEq τ] {work : τ}

namespace SignalState

/-- Counts one more of the command. -/
def count (cmd : ℕ) (f : ℕ → ℕ) : ℕ → ℕ :=
  Function.update f cmd (f cmd + 1)

/-- The handlers on top of `t` are now `l`. -/
def setHandlers (t : τ) (l : List NotifyCall) (s : SignalState τ) : SignalState τ :=
  { s with handlers := Function.update s.handlers t l }

/-- What a step does, if it can be taken. The thread `work` runs `work_thread`, and a thread runs
its own code only when no handler is on top of it. A command's signal is not delivered to a thread
in which its handler has not come to its end, and `0` is no command. -/
def step (work : τ) (a : SignalAction τ) (s : SignalState τ) : Option (SignalState τ) :=
  match a with
  | .deliver t cmd =>
    if cmd ≠ 0 ∧ ∀ x ∈ s.handlers t, x.cmd ≠ cmd then
      some (s.setHandlers t (⟨cmd, .lock⟩ :: s.handlers t))
    else none
  | .lock t =>
    match s.handlers t, s.mutex with
    | ⟨cmd, .lock⟩ :: rest, none =>
      some ({ s with mutex := some t }.setHandlers t (⟨cmd, .store⟩ :: rest))
    | _, _ => none
  | .store t =>
    match s.handlers t with
    | ⟨cmd, .store⟩ :: rest =>
      some ({ s with cmd := cmd, stored := count cmd s.stored }.setHandlers t
        (⟨cmd, .signal⟩ :: rest))
    | _ => none
  | .signal t =>
    match s.handlers t with
    | ⟨cmd, .signal⟩ :: rest =>
      some ({ s with worker := if s.worker = WorkPos.waiting then WorkPos.woken else s.worker
        }.setHandlers t
        (⟨cmd, .unlock⟩ :: rest))
    | _ => none
  | .unlock t =>
    match s.handlers t with
    | ⟨cmd, .unlock⟩ :: rest =>
      some ({ s with mutex := none, completed := count cmd s.completed }.setHandlers t rest)
    | _ => none
  | .workTest =>
    if s.handlers work = [] ∧ s.worker = .test then
      if s.cmd = 0 then some { s with mutex := none, worker := .waiting }
      else some { s with worker := .switch }
    else none
  | .workWake => if s.worker = .waiting then some { s with worker := .woken } else none
  | .workLock =>
    if s.handlers work = [] ∧ s.worker = .woken ∧ s.mutex = none then
      some { s with mutex := some work, worker := .switch }
    else none
  | .workSwitch =>
    if s.handlers work = [] ∧ s.worker = .switch then
      some { s with worker := .executing s.cmd, executed := count s.cmd s.executed }
    else none
  | .workFinish =>
    match s.handlers work, s.worker with
    | [], .executing _ => some { s with cmd := 0, worker := .test }
    | _, _ => none

/-- `work_thread` waits and no signal has come yet. -/
def init : SignalState τ where
  mutex := none
  cmd := 0
  worker := .waiting
  handlers _ := []
  stored _ := 0
  completed _ := 0
  executed _ := 0

/-- The states that an interleaving can reach whose steps all meet `p`. -/
def Reachable (work : τ) (p : SignalAction τ → SignalState τ → Bool) (s : SignalState τ) : Prop :=
  Relation.ReflTransGen (fun s s' ↦ ∃ a, p a s = true ∧ step work a s = some s') init s

/-- The state after the steps of a schedule that all meet `p`. -/
def run (work : τ) (p : SignalAction τ → SignalState τ → Bool) (l : List (SignalAction τ)) :
    Option (SignalState τ) :=
  l.foldlM (fun s a ↦ if p a s then step work a s else none) init

/-- Any step may be taken. -/
def anyStep : SignalAction τ → SignalState τ → Bool :=
  fun _ _ ↦ true

/-- A command is stored only when the slot is empty. -/
def slotEmpty : SignalAction τ → SignalState τ → Bool
  | .store _, s => s.cmd = 0
  | _, _ => true

/-- A signal is delivered only to a thread that does not own the mutex. -/
def notOwner : SignalAction τ → SignalState τ → Bool
  | .deliver t _, s => s.mutex ≠ some t
  | _, _ => true

/-- `work_thread` owns the mutex at this place. -/
def owns : WorkPos → Bool
  | .test | .switch | .executing _ => true
  | .waiting | .woken => false

/-- `work_thread` is in the branch of a command. -/
def isExecuting : WorkPos → Bool
  | .executing _ => true
  | _ => false

/-- A call of `notify` for the command is between its store and its end. -/
def isInFlight (cmd : ℕ) (x : NotifyCall) : Bool :=
  x.cmd = cmd && (x.pos = .signal || x.pos = .unlock)

/-- How many calls of `notify` for the command are between their store and their end. Only the
owner of the mutex can have one. -/
def inFlight (cmd : ℕ) (s : SignalState τ) : ℕ :=
  (s.mutex.elim [] s.handlers).countP (isInFlight cmd)

/-- How often the command waits in the slot to be executed. -/
def pending (cmd : ℕ) (s : SignalState τ) : ℕ :=
  if s.cmd = cmd ∧ isExecuting s.worker = false then 1 else 0

/-! ### What a step can do -/

section Steps

variable {s s' : SignalState τ} {t : τ} {cmd : ℕ}

/-- Any thread may get a signal at any moment. -/
theorem step_deliver (h : step work (.deliver t cmd) s = some s') :
    cmd ≠ 0 ∧ s' = s.setHandlers t (⟨cmd, .lock⟩ :: s.handlers t) := by
  simp only [step] at h
  split_ifs at h with hc
  exact ⟨hc.1, (Option.some.inj h).symm⟩

/-- A handler locks the mutex if nobody owns it. -/
theorem step_lock (h : step work (.lock t) s = some s') :
    ∃ cmd rest, s.handlers t = ⟨cmd, .lock⟩ :: rest ∧ s.mutex = none ∧
      s' = { s with mutex := some t }.setHandlers t (⟨cmd, .store⟩ :: rest) := by
  simp only [step] at h
  split at h
  · exact ⟨_, _, ‹_›, ‹_›, (Option.some.inj h).symm⟩
  · cases h

/-- A handler that has locked stores its command. -/
theorem step_store (h : step work (.store t) s = some s') :
    ∃ cmd rest, s.handlers t = ⟨cmd, .store⟩ :: rest ∧
      s' = { s with cmd := cmd, stored := count cmd s.stored }.setHandlers t
        (⟨cmd, .signal⟩ :: rest) := by
  simp only [step] at h
  split at h
  · exact ⟨_, _, ‹_›, (Option.some.inj h).symm⟩
  · cases h

/-- Signalling the condition wakes the working thread if it waits. -/
theorem step_signal (h : step work (.signal t) s = some s') :
    ∃ cmd rest, s.handlers t = ⟨cmd, .signal⟩ :: rest ∧
      s' = { s with
        worker := if s.worker = WorkPos.waiting then WorkPos.woken else s.worker }.setHandlers t
          (⟨cmd, .unlock⟩ :: rest) := by
  simp only [step] at h
  split at h
  · exact ⟨_, _, ‹_›, (Option.some.inj h).symm⟩
  · cases h

/-- The last move of a handler gives the mutex back and ends the handler. -/
theorem step_unlock (h : step work (.unlock t) s = some s') :
    ∃ cmd rest, s.handlers t = ⟨cmd, .unlock⟩ :: rest ∧
      s' = { s with mutex := none, completed := count cmd s.completed }.setHandlers t rest := by
  simp only [step] at h
  split at h
  · exact ⟨_, _, ‹_›, (Option.some.inj h).symm⟩
  · cases h

/-- The test of the slot gives the mutex up and waits, or goes on to the `switch`. -/
theorem step_workTest (h : step work .workTest s = some s') :
    s.handlers work = [] ∧ s.worker = .test ∧
      (s.cmd = 0 ∧ s' = { s with mutex := none, worker := .waiting } ∨
        s.cmd ≠ 0 ∧ s' = { s with worker := .switch }) := by
  simp only [step] at h
  split_ifs at h with hw hc
  · exact ⟨hw.1, hw.2, .inl ⟨hc, (Option.some.inj h).symm⟩⟩
  · exact ⟨hw.1, hw.2, .inr ⟨hc, (Option.some.inj h).symm⟩⟩

/-- The working thread may wake up without a reason. -/
theorem step_workWake (h : step work .workWake s = some s') :
    s.worker = .waiting ∧ s' = { s with worker := .woken } := by
  simp only [step] at h
  split_ifs at h with hw
  exact ⟨hw, (Option.some.inj h).symm⟩

/-- A working thread that woke up locks the mutex again. -/
theorem step_workLock (h : step work .workLock s = some s') :
    s.handlers work = [] ∧ s.worker = .woken ∧ s.mutex = none ∧
      s' = { s with mutex := some work, worker := .switch } := by
  simp only [step] at h
  split_ifs at h with hw
  exact ⟨hw.1, hw.2.1, hw.2.2, (Option.some.inj h).symm⟩

/-- In the `switch` the working thread begins to execute what is in the slot. -/
theorem step_workSwitch (h : step work .workSwitch s = some s') :
    s.handlers work = [] ∧ s.worker = .switch ∧
      s' = { s with worker := .executing s.cmd, executed := count s.cmd s.executed } := by
  simp only [step] at h
  split_ifs at h with hw
  exact ⟨hw.1, hw.2, (Option.some.inj h).symm⟩

/-- Once the command is executed the slot is cleared, whatever it holds by then. -/
theorem step_workFinish (h : step work .workFinish s = some s') :
    s.handlers work = [] ∧ (∃ c, s.worker = .executing c) ∧
      s' = { s with cmd := 0, worker := .test } := by
  simp only [step] at h
  split at h
  · exact ⟨‹_›, ⟨_, ‹_›⟩, (Option.some.inj h).symm⟩
  · cases h

end Steps

/-! ### Who owns the mutex -/

/-- The positions of the handlers and of `work_thread` say who owns the mutex. -/
structure Inv (work : τ) (s : SignalState τ) : Prop where
  handler : ∀ t, ∀ x ∈ s.handlers t, x.pos ≠ .lock → s.mutex = some t
  one : ∀ t, (s.handlers t).Pairwise fun x y ↦ x.pos = .lock ∨ y.pos = .lock
  worker : owns s.worker = true → s.mutex = some work ∧ ∀ x ∈ s.handlers work, x.pos = .lock
  executing : ∀ c, s.worker = .executing c → s.cmd = c
  owner : ∀ t, s.mutex = some t →
    (∃ x ∈ s.handlers t, x.pos ≠ .lock) ∨ t = work ∧ owns s.worker = true

variable {s s' : SignalState τ} {t : τ} {a : SignalAction τ}

omit [DecidableEq τ] in
/-- A handler behind its lock is the only one on its thread that is. -/
theorem Inv.rest_at_lock (h : s.Inv work) {x : NotifyCall} {rest : List NotifyCall}
    (ht : s.handlers t = x :: rest) (hx : x.pos ≠ .lock) : ∀ y ∈ rest, y.pos = .lock := by
  have hone := h.one t
  rw [ht] at hone
  exact fun y hy ↦ ((List.pairwise_cons.1 hone).1 y hy).resolve_left hx

omit [DecidableEq τ] in
/-- While the handler of a thread owns the mutex, `work_thread` does not. -/
theorem Inv.worker_not_owns (h : s.Inv work) {x : NotifyCall} {rest : List NotifyCall}
    (ht : s.handlers t = x :: rest) (hx : x.pos ≠ .lock) : owns s.worker = false := by
  by_contra howns
  obtain ⟨hmutex, hlock⟩ := h.worker (by simpa using howns)
  have hmem : x ∈ s.handlers t := by simp [ht]
  have := h.handler t x hmem hx
  rw [hmutex] at this
  obtain rfl := Option.some.inj this
  exact hx (hlock x hmem)

/-- The step of a handler that owns the mutex: it keeps it, or unlocks it and is done. -/
theorem Inv.handlerStep (h : s.Inv work) {x : NotifyCall} {rest l : List NotifyCall}
    (ht : s.handlers t = x :: rest) (hx : x.pos ≠ .lock)
    (hl : (s'.mutex = s.mutex ∧ ∃ y : NotifyCall, l = y :: rest ∧ y.pos ≠ .lock) ∨
      s'.mutex = none ∧ l = rest)
    (hhandlers : s'.handlers = Function.update s.handlers t l)
    (hworker : owns s'.worker = false) : s'.Inv work := by
  have hrest := h.rest_at_lock ht hx
  have howner : s.mutex = some t := h.handler t x (by simp [ht]) hx
  refine ⟨fun u y hy hpos ↦ ?_, fun u ↦ ?_, fun ho ↦ ?_, fun c hc ↦ ?_, fun u hu ↦ ?_⟩
  · by_cases hu : u = t
    · subst hu
      rw [hhandlers, Function.update_self] at hy
      rcases hl with ⟨hm, -⟩ | ⟨-, rfl⟩
      · rw [hm, howner]
      · exact absurd (hrest y hy) hpos
    · rw [hhandlers, Function.update_of_ne hu] at hy
      have := h.handler u y hy hpos
      rw [howner] at this
      exact absurd (Option.some.inj this).symm hu
  · by_cases hu : u = t
    · subst hu
      rw [hhandlers, Function.update_self]
      have htail : rest.Pairwise fun x y ↦ x.pos = .lock ∨ y.pos = .lock := by
        have hone := h.one u
        rw [ht] at hone
        exact (List.pairwise_cons.1 hone).2
      rcases hl with ⟨-, y, rfl, -⟩ | ⟨-, rfl⟩
      · exact List.pairwise_cons.2 ⟨fun z hz ↦ .inr (hrest z hz), htail⟩
      · exact htail
    · rw [hhandlers, Function.update_of_ne hu]
      exact h.one u
  · rw [hworker] at ho
    cases ho
  · rw [hc] at hworker
    cases hworker
  · rcases hl with ⟨hm, y, rfl, hy⟩ | ⟨hm, -⟩
    · rw [hm, howner] at hu
      obtain rfl := Option.some.inj hu
      exact .inl ⟨y, by simp [hhandlers], hy⟩
    · rw [hm] at hu
      cases hu

omit [DecidableEq τ] in
/-- The step of `work_thread`, after which it owns the mutex or nobody does. -/
theorem Inv.workStep (h : s.Inv work) (hw : s.handlers work = [])
    (hhandlers : s'.handlers = s.handlers) (hfree : s.mutex = none ∨ s.mutex = some work)
    (howns : s'.mutex = some work ∧ owns s'.worker = true ∨
      s'.mutex = none ∧ owns s'.worker = false)
    (hexec : ∀ c, s'.worker = .executing c → s'.cmd = c) : s'.Inv work := by
  refine ⟨fun u y hy hpos ↦ ?_, fun u ↦ by rw [hhandlers]; exact h.one u,
    fun ho ↦ ⟨?_, fun x hx ↦ ?_⟩, hexec, fun u hu ↦ ?_⟩
  · rw [hhandlers] at hy
    have hu := h.handler u y hy hpos
    rcases hfree with hm | hm
    · rw [hm] at hu
      cases hu
    · rw [hm] at hu
      obtain rfl := Option.some.inj hu
      rw [hw] at hy
      cases hy
  · rcases howns with ⟨hm, -⟩ | ⟨-, hno⟩
    · exact hm
    · rw [hno] at ho
      cases ho
  · rw [hhandlers, hw] at hx
    cases hx
  · rcases howns with ⟨hm, ho⟩ | ⟨hm, -⟩
    · rw [hm] at hu
      exact .inr ⟨(Option.some.inj hu).symm, ho⟩
    · rw [hm] at hu
      cases hu

/-- Every step keeps the invariant. -/
theorem Inv.step (h : s.Inv work) (hstep : step work a s = some s') : s'.Inv work := by
  cases a with
  | deliver t cmd =>
    -- a handler that was just delivered stands in front of its lock, and owns nothing
    obtain ⟨-, rfl⟩ := step_deliver hstep
    refine ⟨fun u x hx hpos ↦ ?_, fun u ↦ ?_, fun ho ↦ ⟨(h.worker ho).1, fun x hx ↦ ?_⟩,
      h.executing, fun u hu ↦ (h.owner u hu).imp_left ?_⟩
    · by_cases hu : u = t
      · subst hu
        rcases List.mem_cons.1 (by simpa [setHandlers] using hx) with rfl | hx
        · exact absurd rfl hpos
        · exact h.handler u x hx hpos
      · exact h.handler u x (by simpa [setHandlers, Function.update_of_ne hu] using hx) hpos
    · by_cases hu : u = t
      · subst hu
        simp only [setHandlers, Function.update_self]
        exact List.pairwise_cons.2 ⟨fun _ _ ↦ .inl rfl, h.one u⟩
      · simp only [setHandlers, Function.update_of_ne hu]
        exact h.one u
    · by_cases hu : work = t
      · subst hu
        rcases List.mem_cons.1 (by simpa [setHandlers] using hx) with rfl | hx
        · rfl
        · exact (h.worker ho).2 x hx
      · exact (h.worker ho).2 x (by simpa [setHandlers, Function.update_of_ne hu] using hx)
    · rintro ⟨x, hx, hpos⟩
      refine ⟨x, ?_, hpos⟩
      by_cases hu : u = t
      · subst hu
        simp [setHandlers, hx]
      · simpa [setHandlers, Function.update_of_ne hu] using hx
  | lock t =>
    obtain ⟨cmd, rest, ht, hmutex, rfl⟩ := step_lock hstep
    -- the mutex is free, so no handler of any thread is behind its lock
    have hlock : ∀ u, ∀ x ∈ s.handlers u, x.pos = .lock := by
      intro u x hx
      by_contra hpos
      have := h.handler u x hx hpos
      rw [hmutex] at this
      cases this
    refine ⟨fun u x hx hpos ↦ ?_, fun u ↦ ?_, fun ho ↦ ?_, h.executing, fun u hu ↦ ?_⟩
    · by_cases hu : u = t
      · rw [hu]
        rfl
      · simp only [setHandlers, Function.update_of_ne hu] at hx
        exact absurd (hlock u x hx) hpos
    · by_cases hu : u = t
      · subst hu
        have hone := h.one u
        rw [ht] at hone
        simp only [setHandlers, Function.update_self]
        exact List.pairwise_cons.2 ⟨fun y hy ↦ .inr (hlock u y (by simp [ht, hy])),
          (List.pairwise_cons.1 hone).2⟩
      · simp only [setHandlers, Function.update_of_ne hu]
        exact h.one u
    · have := (h.worker ho).1
      rw [hmutex] at this
      cases this
    · obtain rfl := Option.some.inj hu
      exact .inl ⟨⟨cmd, .store⟩, by simp [setHandlers], by simp⟩
  | store t =>
    obtain ⟨cmd, rest, ht, rfl⟩ := step_store hstep
    exact h.handlerStep ht (by simp) (.inl ⟨rfl, _, rfl, by simp⟩) rfl
      (h.worker_not_owns ht (by simp))
  | signal t =>
    obtain ⟨cmd, rest, ht, rfl⟩ := step_signal hstep
    refine h.handlerStep ht (by simp) (.inl ⟨rfl, _, rfl, by simp⟩) rfl ?_
    have := h.worker_not_owns ht (by simp)
    simp only [setHandlers]
    split_ifs
    · rfl
    · exact this
  | unlock t =>
    obtain ⟨cmd, rest, ht, rfl⟩ := step_unlock hstep
    exact h.handlerStep ht (by simp) (.inr ⟨rfl, rfl⟩) rfl (h.worker_not_owns ht (by simp))
  | workTest =>
    obtain ⟨hw, hpos, ⟨-, rfl⟩ | ⟨-, rfl⟩⟩ := step_workTest hstep
    · have howner := (h.worker (by rw [hpos]; rfl)).1
      exact h.workStep hw rfl (.inr howner) (.inr ⟨rfl, rfl⟩) fun _ hc ↦ WorkPos.noConfusion hc
    · have howner := (h.worker (by rw [hpos]; rfl)).1
      exact h.workStep hw rfl (.inr howner) (.inl ⟨howner, rfl⟩) fun _ hc ↦
        WorkPos.noConfusion hc
  | workWake =>
    obtain ⟨hpos, rfl⟩ := step_workWake hstep
    refine ⟨h.handler, h.one, fun ho ↦ absurd ho Bool.false_ne_true,
      fun _ hc ↦ WorkPos.noConfusion hc, fun u hu ↦ (h.owner u hu).imp_right ?_⟩
    -- a thread that waits does not own the mutex, so it loses nothing by waking up
    rintro ⟨-, ho⟩
    rw [hpos] at ho
    cases ho
  | workLock =>
    obtain ⟨hw, hpos, hmutex, rfl⟩ := step_workLock hstep
    exact h.workStep hw rfl (.inl hmutex) (.inl ⟨rfl, rfl⟩) fun _ hc ↦ WorkPos.noConfusion hc
  | workSwitch =>
    obtain ⟨hw, hpos, rfl⟩ := step_workSwitch hstep
    have howner := (h.worker (by rw [hpos]; rfl)).1
    exact h.workStep hw rfl (.inr howner) (.inl ⟨howner, rfl⟩) fun _ hc ↦
      WorkPos.executing.inj hc
  | workFinish =>
    obtain ⟨hw, ⟨c, hpos⟩, rfl⟩ := step_workFinish hstep
    have howner := (h.worker (by rw [hpos]; rfl)).1
    exact h.workStep hw rfl (.inr howner) (.inl ⟨howner, rfl⟩) fun _ hc ↦ WorkPos.noConfusion hc

omit [DecidableEq τ] in
theorem inv_init : (init : SignalState τ).Inv work :=
  ⟨fun _ _ hx ↦ absurd hx List.not_mem_nil, fun _ ↦ .nil, fun ho ↦ absurd ho Bool.false_ne_true,
    fun _ hc ↦ WorkPos.noConfusion hc, fun _ hu ↦ by cases hu⟩

/-- The invariant holds in every state that is reached. -/
theorem Reachable.inv {p : SignalAction τ → SignalState τ → Bool} (h : Reachable work p s) :
    s.Inv work := by
  induction h with
  | refl => exact inv_init
  | tail _ hstep ih =>
    obtain ⟨a, -, hstep⟩ := hstep
    exact ih.step hstep

/-- A list of steps leads to a state that is reached. -/
theorem Reachable.run {p : SignalAction τ → SignalState τ → Bool} {l : List (SignalAction τ)}
    (hrun : run work p l = some s) : Reachable work p s := by
  suffices ∀ s₀, Reachable work p s₀ →
      l.foldlM (fun s a ↦ if p a s then SignalState.step work a s else none) s₀ = some s →
      Reachable work p s from this init .refl hrun
  clear hrun
  induction l with
  | nil =>
    intro s₀ h₀ hrun
    obtain rfl : s₀ = s := by simpa using hrun
    exact h₀
  | cons a l ih =>
    intro s₀ h₀ hrun
    rw [List.foldlM_cons] at hrun
    obtain ⟨s₁, hstep, hrest⟩ := Option.bind_eq_some_iff.1 hrun
    split_ifs at hstep with ha
    exact ih s₁ (h₀.tail ⟨a, ha, hstep⟩) hrest

/-! ### No command is lost if the slot is empty -/

omit [DecidableEq τ] in
theorem countP_isInFlight_of_lock {l : List NotifyCall} (h : ∀ x ∈ l, x.pos = .lock) (cmd : ℕ) :
    l.countP (isInFlight cmd) = 0 := by
  refine List.countP_eq_zero.2 fun x hx ↦ ?_
  simp [isInFlight, h x hx]

omit [DecidableEq τ] in
theorem inFlight_of_mutex (h : s.mutex = some t) (cmd : ℕ) :
    s.inFlight cmd = (s.handlers t).countP (isInFlight cmd) := by
  rw [inFlight, h]
  rfl

theorem inFlight_setHandlers {l : List NotifyCall} (h : s.mutex = some t) (cmd : ℕ) :
    (s.setHandlers t l).inFlight cmd = l.countP (isInFlight cmd) := by
  simp only [inFlight, setHandlers, h, Option.elim_some, Function.update_self]

/-- The commands stored are those whose `notify` is done and those whose `notify` is not. -/
theorem Inv.completed_step (h : s.Inv work) (hstep : SignalState.step work a s = some s') {cmd : ℕ}
    (hcount : s.completed cmd + s.inFlight cmd = s.stored cmd) :
    s'.completed cmd + s'.inFlight cmd = s'.stored cmd := by
  cases a with
  | deliver t c =>
    obtain ⟨-, rfl⟩ := step_deliver hstep
    -- a handler in front of its lock is not in flight
    suffices (s.setHandlers t (⟨c, .lock⟩ :: s.handlers t)).inFlight cmd = s.inFlight cmd by
      rw [this]
      exact hcount
    cases hm : s.mutex with
    | none => simp [inFlight, setHandlers, hm]
    | some u =>
      by_cases hu : u = t
      · subst hu
        rw [inFlight_setHandlers hm, inFlight_of_mutex hm, List.countP_cons]
        simp [isInFlight]
      · simp [inFlight, setHandlers, hm, Function.update_of_ne hu]
  | lock t =>
    obtain ⟨c, rest, ht, hmutex, rfl⟩ := step_lock hstep
    -- nothing is in flight while nobody owns the mutex
    have hzero : s.inFlight cmd = 0 := by simp [inFlight, hmutex]
    have hrest : ∀ x ∈ rest, x.pos = .lock := by
      intro x hx
      by_contra hpos
      have := h.handler t x (by simp [ht, hx]) hpos
      rw [hmutex] at this
      cases this
    rw [inFlight_setHandlers rfl, List.countP_cons, countP_isInFlight_of_lock hrest]
    simpa [setHandlers, isInFlight, hzero] using hcount
  | store t =>
    obtain ⟨c, rest, ht, rfl⟩ := step_store hstep
    have hmutex := h.handler t _ (by rw [ht]; exact List.mem_cons_self) (by simp)
    -- of the handlers on this thread only the topmost one is behind its lock
    have hrest := h.rest_at_lock ht (by simp)
    rw [inFlight_of_mutex hmutex, ht, List.countP_cons, countP_isInFlight_of_lock hrest] at hcount
    rw [inFlight_setHandlers (by exact hmutex), List.countP_cons, countP_isInFlight_of_lock hrest]
    by_cases hc : cmd = c
    · subst hc
      simp [setHandlers, count, isInFlight] at hcount ⊢
      omega
    · simp [setHandlers, count, isInFlight, Function.update_of_ne hc, Ne.symm hc] at hcount ⊢
      omega
  | signal t =>
    obtain ⟨c, rest, ht, rfl⟩ := step_signal hstep
    have hmutex := h.handler t _ (by rw [ht]; exact List.mem_cons_self) (by simp)
    rw [inFlight_of_mutex hmutex, ht, List.countP_cons] at hcount
    rw [inFlight_setHandlers (by exact hmutex), List.countP_cons]
    simpa [setHandlers, isInFlight] using hcount
  | unlock t =>
    obtain ⟨c, rest, ht, rfl⟩ := step_unlock hstep
    have hmutex := h.handler t _ (by rw [ht]; exact List.mem_cons_self) (by simp)
    have hrest := h.rest_at_lock ht (by simp)
    rw [inFlight_of_mutex hmutex, ht, List.countP_cons, countP_isInFlight_of_lock hrest] at hcount
    simp only [setHandlers, inFlight, Option.elim_none, List.countP_nil]
    by_cases hc : cmd = c
    · subst hc
      simp [count, isInFlight] at hcount ⊢
      omega
    · simp [count, isInFlight, Function.update_of_ne hc, Ne.symm hc] at hcount ⊢
      omega
  | workTest =>
    obtain ⟨hw, hpos, ⟨-, rfl⟩ | ⟨-, rfl⟩⟩ := step_workTest hstep
    · rw [inFlight_of_mutex (h.worker (by rw [hpos]; rfl)).1, hw] at hcount
      simpa [inFlight] using hcount
    · exact hcount
  | workWake =>
    obtain ⟨-, rfl⟩ := step_workWake hstep
    exact hcount
  | workLock =>
    obtain ⟨hw, -, hmutex, rfl⟩ := step_workLock hstep
    rw [inFlight_of_mutex (t := work) rfl]
    simpa [inFlight, hmutex, hw] using hcount
  | workSwitch =>
    obtain ⟨-, -, rfl⟩ := step_workSwitch hstep
    exact hcount
  | workFinish =>
    obtain ⟨-, -, rfl⟩ := step_workFinish hstep
    exact hcount

/-- While the slot is filled only when it is empty, every command stored is executed or pending. -/
theorem Inv.executed_step (h : s.Inv work) (ha : slotEmpty a s = true)
    (hstep : SignalState.step work a s = some s') {cmd : ℕ} (hcmd : cmd ≠ 0)
    (hcount : s.stored cmd = s.executed cmd + s.pending cmd) :
    s'.stored cmd = s'.executed cmd + s'.pending cmd := by
  cases a with
  | deliver t c =>
    obtain ⟨-, rfl⟩ := step_deliver hstep
    exact hcount
  | lock t =>
    obtain ⟨c, rest, ht, hmutex, rfl⟩ := step_lock hstep
    exact hcount
  | store t =>
    obtain ⟨c, rest, ht, rfl⟩ := step_store hstep
    -- the store finds the slot empty, so it loses no command
    have hempty : s.cmd = 0 := by simpa [slotEmpty] using ha
    -- nor is a command being executed, whose end would clear the slot
    have hidle : isExecuting s.worker = false := by
      have := h.worker_not_owns ht (by simp)
      cases hw : s.worker <;> simp_all [owns, isExecuting]
    simp only [pending, hempty, hidle, Ne.symm hcmd, false_and, if_false] at hcount
    by_cases hc : cmd = c
    · subst hc
      simp [pending, setHandlers, count, hidle, hcount]
    · simp [pending, setHandlers, count, Function.update_of_ne hc, Ne.symm hc, hcount]
  | signal t =>
    obtain ⟨c, rest, ht, rfl⟩ := step_signal hstep
    have hidle : isExecuting (if s.worker = WorkPos.waiting then WorkPos.woken else s.worker) =
        isExecuting s.worker := by
      split_ifs with hwait
      · rw [hwait]
        rfl
      · rfl
    simpa only [pending, setHandlers, hidle] using hcount
  | unlock t =>
    obtain ⟨c, rest, ht, rfl⟩ := step_unlock hstep
    exact hcount
  | workTest =>
    obtain ⟨hw, hpos, ⟨-, rfl⟩ | ⟨-, rfl⟩⟩ := step_workTest hstep
    · simpa [pending, hpos, isExecuting] using hcount
    · simpa [pending, hpos, isExecuting] using hcount
  | workWake =>
    obtain ⟨hpos, rfl⟩ := step_workWake hstep
    simpa [pending, hpos, isExecuting] using hcount
  | workLock =>
    obtain ⟨-, hpos, -, rfl⟩ := step_workLock hstep
    simpa [pending, hpos, isExecuting] using hcount
  | workSwitch =>
    obtain ⟨-, hpos, rfl⟩ := step_workSwitch hstep
    simp only [pending, hpos, isExecuting, and_true] at hcount
    by_cases hc : cmd = s.cmd
    · subst hc
      simpa [pending, isExecuting, count] using hcount
    · simpa [pending, isExecuting, count, Function.update_of_ne hc, Ne.symm hc] using hcount
  | workFinish =>
    obtain ⟨-, ⟨c, hpos⟩, rfl⟩ := step_workFinish hstep
    simpa [pending, hpos, isExecuting, Ne.symm hcmd] using hcount

/-- With the slot empty at every store, both counts agree in every state reached. -/
theorem Reachable.counts (h : Reachable work slotEmpty s) {cmd : ℕ} (hcmd : cmd ≠ 0) :
    s.completed cmd + s.inFlight cmd = s.stored cmd ∧
      s.stored cmd = s.executed cmd + s.pending cmd := by
  induction h with
  | refl => simp [init, inFlight, pending, Ne.symm hcmd]
  | tail hreach hstep ih =>
    obtain ⟨a, ha, hstep⟩ := hstep
    have hinv : Inv work _ := Reachable.inv hreach
    exact ⟨hinv.completed_step hstep ih.1, hinv.executed_step ha hstep hcmd ih.2⟩

end SignalState

/-- In a run in which `notify` only stores into the empty slot, a command whose `notify` has come to
its end has been executed, is being executed or is pending: the numbers agree, but for a `notify`
that has stored its command and not yet unlocked the mutex. -/
theorem commands_not_lost {s : SignalState τ} (h : s.Reachable work SignalState.slotEmpty)
    {cmd : ℕ} (hcmd : cmd ≠ 0) :
    s.completed cmd + s.inFlight cmd = s.executed cmd + s.pending cmd ∧
      ((∀ t, ∀ x ∈ s.handlers t, x.pos ≠ .signal ∧ x.pos ≠ .unlock) →
        s.completed cmd = s.executed cmd + s.pending cmd) := by
  obtain ⟨hcompleted, hstored⟩ := h.counts hcmd
  refine ⟨hcompleted.trans hstored, fun hnone ↦ ?_⟩
  have hzero : s.inFlight cmd = 0 := by
    refine List.countP_eq_zero.2 fun x hx ↦ ?_
    obtain ⟨t, ht⟩ : ∃ t, x ∈ s.handlers t := by
      cases hm : s.mutex with
      | none => simp [hm] at hx
      | some t => exact ⟨t, by simpa [hm] using hx⟩
    simp [SignalState.isInFlight, hnone t x ht]
  omega

namespace SignalState

/-- A command goes all the way: one of two threads takes the signal, the other one works. -/
def oneCommand : SignalState Bool :=
  (run true slotEmpty [.deliver false 1, .lock false, .store false, .signal false, .unlock false,
    .workLock, .workSwitch, .workFinish, .workTest]).get (by decide)

theorem oneCommand_reachable : oneCommand.Reachable true slotEmpty :=
  Reachable.run (Option.some_get _).symm

/-- A second command is stored before the working thread, already woken, has got the mutex. -/
def twoCommands : SignalState Bool :=
  (run true anyStep [.deliver false 1, .lock false, .store false, .signal false, .unlock false,
    .deliver false 2, .lock false, .store false, .signal false, .unlock false,
    .workLock, .workSwitch, .workFinish, .workTest]).get (by decide)

theorem twoCommands_reachable : twoCommands.Reachable true anyStep :=
  Reachable.run (Option.some_get _).symm

end SignalState

/-- The count of the run that executes one command. -/
theorem commands_not_lost_oneCommand :
    SignalState.oneCommand.completed 1 = 1 ∧
      SignalState.oneCommand.completed 1 =
        SignalState.oneCommand.executed 1 + SignalState.oneCommand.pending 1 := by
  have h := @commands_not_lost _ _ _ _ SignalState.oneCommand_reachable 1 (by decide)
  have hzero : SignalState.oneCommand.inFlight 1 = 0 := by decide
  exact ⟨by decide, by simpa [hzero] using h.1⟩

/-- A command is lost if the next one comes before the working thread has got the mutex. -/
theorem not_commands_not_lost :
    ¬∀ s : SignalState Bool, s.Reachable true SignalState.anyStep → ∀ cmd ≠ 0,
      (∀ t, ∀ x ∈ s.handlers t, x.pos ≠ .signal ∧ x.pos ≠ .unlock) →
        s.completed cmd = s.executed cmd + s.pending cmd := by
  intro hall
  have h := hall _ SignalState.twoCommands_reachable 1 (by decide) (by decide)
  revert h
  decide

/-! ### The mutex and signals in the thread that owns it -/

namespace SignalState

/-- The next step of the thread in its own code is to lock the mutex: in a handler, or on the way
out of `pthread_cond_wait`. -/
def AboutToLock (work t : τ) (s : SignalState τ) : Prop :=
  (∃ cmd rest, s.handlers t = ⟨cmd, .lock⟩ :: rest) ∨
    t = work ∧ s.handlers t = [] ∧ s.worker = .woken

/-- A thread is about to lock the mutex that it owns. -/
def SelfDeadlock (work : τ) (s : SignalState τ) : Prop :=
  ∃ t, s.AboutToLock work t ∧ s.mutex = some t

variable {s s' : SignalState τ} {t : τ} {a : SignalAction τ}

omit [DecidableEq τ] in
/-- On the way out of `pthread_cond_wait` the thread does not own the mutex. -/
theorem Inv.selfDeadlock_iff (h : s.Inv work) : s.SelfDeadlock work ↔
    ∃ t cmd rest, s.handlers t = ⟨cmd, .lock⟩ :: rest ∧ s.mutex = some t := by
  constructor
  · rintro ⟨t, ⟨cmd, rest, ht⟩ | ⟨rfl, ht, hw⟩, hm⟩
    · exact ⟨t, cmd, rest, ht, hm⟩
    · rcases h.owner t hm with ⟨x, hx, -⟩ | ⟨-, ho⟩
      · rw [ht] at hx
        cases hx
      · rw [hw] at ho
        cases ho
  · rintro ⟨t, cmd, rest, ht, hm⟩
    exact ⟨t, .inl ⟨cmd, rest, ht⟩, hm⟩

/-- A step leads into a self-deadlock exactly if it delivers a signal to the owner of the mutex. -/
theorem Inv.selfDeadlock_step (h : s.Inv work) (hno : ¬s.SelfDeadlock work)
    (hstep : SignalState.step work a s = some s') :
    s'.SelfDeadlock work ↔ notOwner a s = false := by
  rw [(h.step hstep).selfDeadlock_iff]
  rw [h.selfDeadlock_iff] at hno
  -- the handlers of the owner are no other than before, or start behind their lock
  have hsame : notOwner a s = true → (∀ u, s'.mutex = some u → s.mutex = some u ∧
      s'.handlers u = s.handlers u ∨ (s'.handlers u).head?.all (·.pos ≠ .lock)) →
      ¬∃ t cmd rest, s'.handlers t = ⟨cmd, .lock⟩ :: rest ∧ s'.mutex = some t := by
    rintro - hown ⟨t, cmd, rest, ht, hm⟩
    rcases hown t hm with ⟨hm', ht'⟩ | hhead
    · exact hno ⟨t, cmd, rest, ht' ▸ ht, hm'⟩
    · simp [ht] at hhead
  cases a with
  | deliver t cmd =>
    obtain ⟨-, rfl⟩ := step_deliver hstep
    by_cases hm : s.mutex = some t
    · refine iff_of_true ⟨t, cmd, s.handlers t, ?_, hm⟩ (by simp [notOwner, hm])
      simp [setHandlers]
    · refine iff_of_false (hsame (by simp [notOwner, hm]) fun u hu ↦ .inl ⟨hu, ?_⟩)
        (by simp [notOwner, hm])
      have hne : u ≠ t := fun heq ↦ hm (heq ▸ hu)
      simp [setHandlers, Function.update_of_ne hne]
  | lock t =>
    obtain ⟨cmd, rest, ht, -, rfl⟩ := step_lock hstep
    refine iff_of_false (hsame rfl fun u hu ↦ .inr ?_) (by simp [notOwner])
    obtain rfl := Option.some.inj hu
    simp [setHandlers]
  | store t =>
    obtain ⟨cmd, rest, ht, rfl⟩ := step_store hstep
    refine iff_of_false (hsame rfl fun u hu ↦ .inr ?_) (by simp [notOwner])
    obtain rfl : t = u := Option.some.inj
      ((h.handler t _ (by rw [ht]; exact List.mem_cons_self) (by simp)).symm.trans hu)
    simp [setHandlers]
  | signal t =>
    obtain ⟨cmd, rest, ht, rfl⟩ := step_signal hstep
    refine iff_of_false (hsame rfl fun u hu ↦ .inr ?_) (by simp [notOwner])
    obtain rfl : t = u := Option.some.inj
      ((h.handler t _ (by rw [ht]; exact List.mem_cons_self) (by simp)).symm.trans hu)
    simp [setHandlers]
  | unlock t =>
    obtain ⟨cmd, rest, ht, rfl⟩ := step_unlock hstep
    refine iff_of_false (hsame rfl fun u hu ↦ ?_) (by simp [notOwner])
    cases hu
  | workTest =>
    obtain ⟨-, -, ⟨-, rfl⟩ | ⟨-, rfl⟩⟩ := step_workTest hstep
    · refine iff_of_false (hsame rfl fun u hu ↦ ?_) (by simp [notOwner])
      cases hu
    · exact iff_of_false (hsame rfl fun u hu ↦ .inl ⟨hu, rfl⟩) (by simp [notOwner])
  | workWake =>
    obtain ⟨-, rfl⟩ := step_workWake hstep
    exact iff_of_false (hsame rfl fun u hu ↦ .inl ⟨hu, rfl⟩) (by simp [notOwner])
  | workLock =>
    obtain ⟨hw, -, -, rfl⟩ := step_workLock hstep
    refine iff_of_false (hsame rfl fun u hu ↦ .inr ?_) (by simp [notOwner])
    obtain rfl := Option.some.inj hu
    simp [hw]
  | workSwitch =>
    obtain ⟨-, -, rfl⟩ := step_workSwitch hstep
    exact iff_of_false (hsame rfl fun u hu ↦ .inl ⟨hu, rfl⟩) (by simp [notOwner])
  | workFinish =>
    obtain ⟨-, -, rfl⟩ := step_workFinish hstep
    exact iff_of_false (hsame rfl fun u hu ↦ .inl ⟨hu, rfl⟩) (by simp [notOwner])

omit [DecidableEq τ] in
theorem not_selfDeadlock_init : ¬(init : SignalState τ).SelfDeadlock work := by
  rintro ⟨t, -, hm⟩
  cases hm

end SignalState

/-- In a run in which no signal is delivered to the thread that owns the mutex, no thread is ever
about to lock the mutex while it owns it; and the first signal that is delivered to the owner makes
it so. -/
theorem not_selfDeadlock {s : SignalState τ} (h : s.Reachable work SignalState.notOwner) :
    ¬s.SelfDeadlock work ∧ ∀ a s', SignalState.step work a s = some s' →
      (s'.SelfDeadlock work ↔ SignalState.notOwner a s = false) := by
  have hno : ¬s.SelfDeadlock work := by
    induction h with
    | refl => exact SignalState.not_selfDeadlock_init
    | tail hreach hstep ih =>
      obtain ⟨a, ha, hstep⟩ := hstep
      have hinv : SignalState.Inv work _ := SignalState.Reachable.inv hreach
      rw [hinv.selfDeadlock_step ih hstep, ha]
      exact Bool.noConfusion
  exact ⟨hno, fun a s' hstep ↦ h.inv.selfDeadlock_step hno hstep⟩

namespace SignalState

/-- The handler of a command runs in the other thread. -/
def otherThread : SignalState Bool :=
  (run true notOwner [.deliver false 1, .lock false, .store false, .signal false, .unlock false,
    .workLock, .workSwitch, .deliver false 2]).get (by decide)

theorem otherThread_reachable : otherThread.Reachable true notOwner :=
  Reachable.run (Option.some_get _).symm

/-- A signal reaches the working thread while it executes a command. -/
def sameThread : SignalState Bool :=
  (run true anyStep [.deliver false 1, .lock false, .store false, .signal false, .unlock false,
    .workLock, .workSwitch, .deliver true 2]).get (by decide)

theorem sameThread_reachable : sameThread.Reachable true anyStep :=
  Reachable.run (Option.some_get _).symm

end SignalState

theorem not_selfDeadlock_otherThread : ¬SignalState.otherThread.SelfDeadlock true :=
  (not_selfDeadlock SignalState.otherThread_reachable).1

/-- A signal that reaches the working thread while it executes a command makes it wait for
itself. -/
theorem exists_selfDeadlock :
    ¬∀ s : SignalState Bool, s.Reachable true SignalState.anyStep → ¬s.SelfDeadlock true := by
  intro hall
  refine hall _ SignalState.sameThread_reachable ⟨true, .inl ⟨2, [], ?_⟩, ?_⟩
  · decide
  · decide

end Memchk
