import Mathlib.Data.List.Chain
import Mathlib.Data.List.DropRight
import Mathlib.Tactic

/-!
# Registries with a bounded memory

A registry maps the keys that are in use to values. A key in use cannot be entered once more. When a
key leaves, a memory takes its value with a note, and keeps the last `N` of them. What a registry
maps a key to after a run of operations is what the last operation on that key says
(`Registry.live_of_run`), and the operations on a key are entering and leaving by turns
(`Registry.isChain_of_run`).

## Operations and runs

`Registry.step` is partial: entering a key in use and leaving with one that is not in use have no
next state. A run of operations from the empty registry that has a result is therefore a legal
history, and what can be read off the operations alone (`Registry.current`, `Registry.entered`,
`Registry.departed`) is what the registry has, and how many keys came and went. The lemmas about one
more operation behind a history are the steps of all inductions over runs.
-/

/-- What is in use, and what has left, oldest first. -/
structure Registry (κ ν ω : Type*) where
  live : κ → Option ν
  gone : List (κ × ν × ω)

namespace Registry

/-- A key is entered with a value, or leaves with a note. -/
inductive Op (κ ν ω : Type*)
  | enter (k : κ) (v : ν)
  | leave (k : κ) (o : ω)

variable {κ ν ω : Type*}

def Op.key : Op κ ν ω → κ
  | .enter k _ | .leave k _ => k

/-- What a key is mapped to by an operation on it. -/
def Op.value : Op κ ν ω → Option ν
  | .enter _ v => some v
  | .leave _ _ => none

/-- Nothing is in use and nothing has left. -/
def empty : Registry κ ν ω :=
  ⟨fun _ ↦ none, []⟩

variable [DecidableEq κ] {N : ℕ} {r r' : Registry κ ν ω} {op : Op κ ν ω} {ops : List (Op κ ν ω)}
  {k : κ}

/-- One operation, if it is possible. -/
def step (N : ℕ) (r : Registry κ ν ω) : Op κ ν ω → Option (Registry κ ν ω)
  | .enter k v =>
    match r.live k with
    | none => some ⟨Function.update r.live k (some v), r.gone⟩
    | some _ => none
  | .leave k o =>
    match r.live k with
    | none => none
    | some v => some ⟨Function.update r.live k none, (r.gone ++ [(k, v, o)]).rtake N⟩

/-- A run of operations, if they are possible. -/
def run (N : ℕ) (ops : List (Op κ ν ω)) (r : Registry κ ν ω) : Option (Registry κ ν ω) :=
  ops.foldlM (step N) r

/-- The operations on a key. -/
def opsOn (k : κ) (ops : List (Op κ ν ω)) : List (Op κ ν ω) :=
  ops.filter fun op ↦ op.key = k

/-- How often a key was entered. -/
def entered (ops : List (Op κ ν ω)) : ℕ :=
  ops.countP fun op ↦ op.value.isSome

/-- How often a key has left. -/
def departed (ops : List (Op κ ν ω)) : ℕ :=
  ops.countP fun op ↦ !op.value.isSome

/-- What the last operation on a key maps it to. -/
def current (ops : List (Op κ ν ω)) (k : κ) : Option ν :=
  (opsOn k ops).getLast?.bind Op.value

theorem run_append (ops ops' : List (Op κ ν ω)) (r : Registry κ ν ω) :
    run N (ops ++ ops') r = (run N ops r).bind (run N ops') :=
  List.foldlM_append

theorem run_singleton (op : Op κ ν ω) (r : Registry κ ν ω) : run N [op] r = step N r op := by
  rw [run, List.foldlM_cons]
  exact Option.bind_fun_some _

theorem step_enter {v : ν} (h : r.live k = none) :
    step N r (.enter k v) = some ⟨Function.update r.live k (some v), r.gone⟩ := by
  rw [step, h]

/-- A key in use can leave; the oldest entry of the memory makes room. -/
theorem step_leave {v : ν} {o : ω} (h : r.live k = some v) : step N r (.leave k o) =
    some ⟨Function.update r.live k none, (r.gone ++ [(k, v, o)]).rtake N⟩ := by
  rw [step, h]

/-- An operation changes what its key is mapped to, which it did not map to the same before. -/
theorem live_of_step (h : step N r op = some r') :
    r'.live = Function.update r.live op.key op.value ∧
      (r.live op.key).isSome ≠ op.value.isSome := by
  cases op with
  | enter k v =>
    cases hk : r.live k with
    | none =>
      rw [step_enter hk] at h
      obtain rfl := Option.some.inj h
      exact ⟨rfl, by simp [Op.key, Op.value, hk]⟩
    | some _ => simp [step, hk] at h
  | leave k o =>
    cases hk : r.live k with
    | none => simp [step, hk] at h
    | some v =>
      rw [step_leave hk] at h
      obtain rfl := Option.some.inj h
      exact ⟨rfl, by simp [Op.key, Op.value, hk]⟩

/-- One more operation, on this key or on another one. -/
theorem opsOn_append_singleton (k : κ) (ops : List (Op κ ν ω)) (op : Op κ ν ω) :
    opsOn k (ops ++ [op]) = if op.key = k then opsOn k ops ++ [op] else opsOn k ops := by
  rw [opsOn, List.filter_append, List.filter_singleton]
  split_ifs with hk <;> simp_all [opsOn]

omit [DecidableEq κ] in
theorem entered_append_singleton (ops : List (Op κ ν ω)) (op : Op κ ν ω) :
    entered (ops ++ [op]) = entered ops + if op.value.isSome then 1 else 0 := by
  rw [entered, List.countP_append, List.countP_singleton, entered]

omit [DecidableEq κ] in
/-- One more operation, and how many keys have left then. -/
theorem departed_append_singleton (ops : List (Op κ ν ω)) (op : Op κ ν ω) :
    departed (ops ++ [op]) = departed ops + if op.value.isSome then 0 else 1 := by
  rw [departed, List.countP_append, List.countP_singleton, departed]
  cases op.value.isSome <;> rfl

/-- The last operation on a key decides what it is mapped to. -/
theorem current_append_singleton (ops : List (Op κ ν ω)) (op : Op κ ν ω) :
    current (ops ++ [op]) = Function.update (current ops) op.key op.value := by
  funext k
  rw [current, opsOn_append_singleton]
  by_cases hk : op.key = k
  · rw [if_pos hk, ← hk, Function.update_self, List.getLast?_concat, Option.bind_some]
  · rw [if_neg hk, Function.update_of_ne (Ne.symm hk), current]

/-- A run has a last step. -/
theorem run_concat (h : run N (ops ++ [op]) r = some r') :
    ∃ r₁, run N ops r = some r₁ ∧ step N r₁ op = some r' := by
  rw [run_append, Option.bind_eq_some_iff] at h
  obtain ⟨r₁, hrun, hstep⟩ := h
  exact ⟨r₁, hrun, by rwa [run_singleton] at hstep⟩

/-- The registry maps a key to what the last operation on it says. -/
theorem live_of_run (h : run N ops empty = some r) : r.live = current ops := by
  induction ops using List.reverseRecOn generalizing r with
  | nil =>
    obtain rfl := Option.some.inj h
    rfl
  | append_singleton ops op ih =>
    obtain ⟨r₁, hrun, hstep⟩ := run_concat h
    rw [(live_of_step hstep).1, ih hrun, current_append_singleton]

/-- A key is entered and leaves by turns. -/
theorem isChain_of_run (h : run N ops empty = some r) (k : κ) :
    (opsOn k ops).IsChain fun op op' ↦ op.value.isSome ≠ op'.value.isSome := by
  induction ops using List.reverseRecOn generalizing r with
  | nil => exact .nil
  | append_singleton ops op ih =>
    obtain ⟨r₁, hrun, hstep⟩ := run_concat h
    have hchain := ih hrun
    rw [opsOn_append_singleton]
    split_ifs with hk
    · refine List.isChain_append.2 ⟨hchain, .singleton _, fun op₁ hlast op₂ hop₂ ↦ ?_⟩
      obtain rfl := Option.some.inj hop₂
      have hne := (live_of_step hstep).2
      rwa [live_of_run hrun, hk, current, Option.mem_def.1 hlast, Option.bind_some] at hne
    · exact hchain

end Registry
