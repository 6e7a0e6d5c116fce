import Memchk.WatchedCalls

/-!
# Damage does not get lost, and nobody is blamed for nothing

As long as metadata is there, every step that is not a store of the program is tended to
(`State.Settled.tends`), whether it is a call, a full check, a command or a change of the mode. Over
runs with stores, damage is reported before the buffer is given back and by the next full check at
the latest (`damage_reported`), and a pointer is not reported on unless the program wrote where it
must not at a block with this pointer (`reports_deserved`), so that a program that keeps to its
payloads is left in peace (`no_reports`).

## Runs

`Monitored P s es t` is a run from `s` to `t` that adds `es` to the trace and all of whose steps
satisfy `P`, a condition on the state before the step. The two theorems take different conditions:
for `damage_reported` the stores must not write the damaged byte again, as the program could restore
the pattern by chance; for `reports_deserved` they must not write a guard byte of the pointer.

## Main results

`damage_reported` has two parts. Either a report on the block stands in the trace of the run, before
its buffer was given back; or the damage is still there at the end, and then a full check returns
and reports it, provided that the blocks are small enough to be checked whole. The second part uses
that the check meets no null callstack, which holds as long as no metadata pool was out of memory.

`reports_deserved` is the converse: whatever else the program does, with other blocks and without
regard to the rules, no report on the pointer is logged as long as its own guards are respected. The
stores may go anywhere else.
-/

namespace Memchk

/-! ### Steps -/

namespace State

variable {s t : State} {g : Contents} {w : Watch} {es : List Event} {y ptr : ℕ}

/-- A command that leaves the live blocks alone leaves the guards alone. -/
theorem Confined.tends {ids : List TableId} {L' : TableId → List ℕ}
    (hc : Confined ids s g.nodes es t L') (h : s.Inv g) (hlive : .live ∉ ids) : s.Tends t := by
  have hquarantine : t.quarantine = s.quarantine := by rw [hc.rest]
  have hheap : t.heap = s.heap := by rw [hc.rest]
  have ht := h.confined hc hlive
  have hwatch : ∀ n ∈ g.nodes .live, t.liveWatch n = s.liveWatch n := fun n hn ↦ by
    rw [liveWatch, liveWatch, (hc.sameAt h.blocks hlive hn).record_eq]
  have hwatches : ∀ w, t.Watches w ↔ s.Watches w := by
    intro w
    rw [ht.watches_iff, h.watches_iff]
    refine or_congr (exists_congr fun n ↦ ?_) ?_
    · simp only [hc.lists _ hlive]
      exact and_congr_right fun hn ↦ by rw [hwatch n hn]
    · simp only [freedWatch, hquarantine]
  have hidle : ∀ e ∈ es, e.isIdle := fun e he ↦ isIdle_of_isOfCommand (hc.entries e he)
  refine ⟨es, hc.trace_eq, tended_of_idle hwatches (fun _ _ _ _ ↦ by rw [hheap])
    (fun e he ↦ (hidle e he).2) fun w _ e he ↦ ?_⟩
  rw [(hidle e he).1]
  exact List.not_mem_nil

/-- A store that leaves the damage. -/
theorem alert_store {addr : ℕ} {byte : UInt8} (hleaves : addr = y → byte ≠ w.pattern) :
    monitor.Alert w y s [] { s with heap := s.heap.store addr byte } := by
  intro hw hbroken
  refine .inr ⟨(watches_congr rfl rfl w).2 hw, ⟨hbroken.1, ?_⟩, by simp⟩
  show Function.update s.heap.mem addr byte y ≠ w.pattern
  by_cases heq : addr = y
  · rw [heq, Function.update_self]
    exact hleaves heq
  · rw [Function.update_of_ne fun h ↦ heq h.symm]
    exact hbroken.2

/-- A store that writes no guard of the blocks with the pointer. -/
theorem honest_store {addr : ℕ} {byte : UInt8}
    (hrespects : ∀ w, s.Watches w → w.usrptr = ptr → ¬w.Guards addr) :
    monitor.Honest ptr s [] { s with heap := s.heap.store addr byte } := by
  refine fun hwhole ↦ ⟨fun w hw hkey z hbroken ↦ ?_, by simp⟩
  replace hw := (watches_congr rfl rfl w).1 hw
  have hne : z ≠ addr := by
    rintro rfl
    exact hrespects w hw hkey hbroken.1
  refine hwhole w hw hkey z ⟨hbroken.1, fun heq ↦ hbroken.2 ?_⟩
  show Function.update s.heap.mem addr byte z = w.pattern
  rw [Function.update_of_ne hne]
  exact heq

/-- Every step but a store of the program is tended to. -/
theorem Settled.tends (h : s.Settled g) (hsmall : s.SmallBufs) {a : Step}
    (hstore : ∀ addr byte, a ≠ .action (.store addr byte)) (hok : a.Ok s)
    (hexec : a.exec s = some t) (hmapped : .mmapFailed ∉ t.trace) : s.Tends t := by
  cases a with
  | action a =>
    rw [Step.exec] at hexec
    cases a with
    | call env c =>
      rw [Action.exec, Option.map_eq_some_iff] at hexec
      obtain ⟨⟨p, u⟩, hcall, rfl⟩ := hexec
      have henv := hok.2
      split_ifs at henv with hmode
      · have hsized := Call.sized_of_mapped h.inv hmode hok.1 henv.answer hcall hmapped
        exact Call.tends h.inv hsmall hmode hok.1 henv.answer henv.harmless hsized hcall
      · rw [not_or, Bool.not_eq_true] at hmode
        exact Call.tends_of_disabled h.inv hmode.2 hmode.1 henv hcall
    | disableHook =>
      obtain ⟨z, -, heq⟩ := Option.bind_eq_some_iff.1 hexec
      obtain rfl := Option.some.inj heq
      exact ⟨[], (List.append_nil _).symm, tended_of_same rfl rfl rfl (by simp)⟩
    | enableHook =>
      obtain rfl := Option.some.inj hexec
      exact ⟨[], (List.append_nil _).symm, tended_of_same rfl rfl rfl (by simp)⟩
    | checkAll =>
      rw [Action.exec, Option.map_eq_some_iff] at hexec
      obtain ⟨⟨ret, u⟩, hrun, rfl⟩ := hexec
      exact h.inv.tends_checkAll hsmall hrun
    | store addr byte => exact absurd rfl (hstore addr byte)
  | command cenv c =>
    obtain ⟨x, hrun, rfl⟩ := Option.map_eq_some_iff.1 hexec
    obtain ⟨ids, es, L', hlive, hconfined⟩ :=
      h.inv.confined_command h.tidy hrun (h.inv.spared h.tidy hrun hmapped)
    exact hconfined.tends h.inv hlive

end State

/-- The program does not write what the byte should hold, where that is not for it to write. -/
def Step.LeavesDamage (w : Watch) (y : ℕ) : Step → Prop
  | .action (.store addr byte) => addr = y → byte ≠ w.pattern
  | _ => True

/-- The program does not write where it must not, at blocks with this pointer. -/
def Step.Respects (ptr : ℕ) (s : State) : Step → Prop
  | .action (.store addr _) => ∀ w, s.Watches w → w.usrptr = ptr → ¬w.Guards addr
  | _ => True

/-- A step with metadata there, among blocks small enough for the checks, and what it logs. -/
def Monitored (P : State → Step → Prop) (s : State) (es : List Event) (t : State) : Prop :=
  s.SmallBufs ∧ ∃ a : Step, P s a ∧ a.Ok s ∧ a.exec s = some t ∧ t.trace = s.trace ++ es ∧
    .mmapFailed ∉ t.trace

section Steps

variable {P : State → Step → Prop} {s t : State} {es : List Event} {w : Watch} {y ptr : ℕ}

/-- A monitored run leads from a reachable state to a reachable one. -/
theorem Monitored.mapped (h : Monitored P s es t) (hs : MappedReachable s) : MappedReachable t := by
  obtain ⟨-, a, -, hok, hexec, -, hmapped⟩ := h
  obtain ⟨k, mem, hk, hrun⟩ := hs
  exact ⟨k, mem, hk, hrun.tail ⟨a, hok, hexec, hmapped⟩⟩

/-- A step is a store, or tended to. -/
theorem Monitored.cases (h : Monitored P s es t) (hs : MappedReachable s) :
    (∃ addr byte, P s (.action (.store addr byte)) ∧ es = [] ∧
      t = { s with heap := s.heap.store addr byte }) ∨ monitor.Tended s es t := by
  obtain ⟨hsmall, a, hP, hok, hexec, htrace, hmapped⟩ := h
  obtain ⟨g, hg⟩ := hs.settled
  by_cases hstore : ∃ addr byte, a = .action (.store addr byte)
  · obtain ⟨addr, byte, rfl⟩ := hstore
    obtain rfl := Option.some.inj hexec
    exact .inl ⟨addr, byte, hP, List.append_right_eq_self.1 htrace.symm, rfl⟩
  · push Not at hstore
    obtain ⟨es', htrace', htended⟩ := hg.tends hsmall hstore hok hexec hmapped
    rw [List.append_cancel_left (htrace'.symm.trans htrace)] at htended
    exact .inr htended

/-- Over a run whose stores leave the damage, the monitor is alert. -/
theorem Monitored.alert (h : Monitored (fun _ a ↦ a.LeavesDamage w y) s es t)
    (hs : MappedReachable s) : monitor.Alert w y s es t := by
  rcases h.cases hs with ⟨addr, byte, hleaves, rfl, rfl⟩ | htended
  · exact State.alert_store hleaves
  · exact htended.alert w y

/-- Over a run whose stores respect a pointer, the monitor is honest about it. -/
theorem Monitored.honest (h : Monitored (fun s a ↦ a.Respects ptr s) s es t)
    (hs : MappedReachable s) : monitor.Honest ptr s es t := by
  rcases h.cases hs with ⟨addr, byte, hrespects, rfl, rfl⟩ | htended
  · exact State.honest_store hrespects
  · exact htended.honest ptr

end Steps

/-! ### Runs -/

/-- As long as metadata is there, a full check finds the callstacks that it prints, and returns. -/
theorem State.Settled.exists_checkAll {s : State} {g : Contents} (h : s.Settled g)
    (hsmall : s.SmallBufs) : ∃ ret t, mcCheckAllMemblk s = some (ret, t) := by
  have hnone : ¬s.NullReport := by
    rw [nullReport_iff, not_exists]
    exact h.inv.not_mute h.attributed
  obtain ⟨⟨ret, t⟩, hrun, -⟩ := (h.inv.mcCheckAllMemblk hsmall).exists_of_not hnone
  exact ⟨ret, t, hrun⟩

/-- Over a run in which the program does not undo it, damage to a block is reported before the
buffer of the block is given back, or the block is still there, and a full check made now returns
and has reported it. -/
theorem damage_reported {s t : State} (hs : MappedReachable s) {w : Watch} {y : ℕ}
    (hw : s.Watches w) (hy : w.Guards y) (hbroken : s.heap.mem y ≠ w.pattern) {es : List Event}
    (hrun : LoggedRun (Monitored fun _ a ↦ a.LeavesDamage w y) s es t) :
    monitor.Announced w es ∨ monitor.Pending w y es t ∧
      (t.SmallBufs → ∃ ret u es', mcCheckAllMemblk t = some (ret, u) ∧ u.trace = t.trace ++ es' ∧
        monitor.Announced w (es ++ es')) := by
  obtain ⟨halert, ht⟩ := hrun.induction hs Monitor.Alert.refl Monitor.Alert.trans
    fun hs hstep ↦ ⟨hstep.alert hs, hstep.mapped hs⟩
  refine (halert hw ⟨hy, hbroken⟩).imp_right fun hpending ↦ ⟨hpending, fun hsmall ↦ ?_⟩
  obtain ⟨g, hg⟩ := ht.settled
  obtain ⟨ret, u, hcheck⟩ := hg.exists_checkAll hsmall
  obtain ⟨hw', hbroken', hkept⟩ := hpending
  obtain ⟨es', htrace, hannounced⟩ := hg.inv.announces_checkAll hsmall hcheck hw' hbroken'
  exact ⟨ret, u, es', hcheck, htrace, hannounced.after hkept⟩

/-- Over a run in which the program does not write where it must not at blocks with the pointer,
there is no report on the pointer, and their guards stay intact. -/
theorem reports_deserved {s t : State} (hs : MappedReachable s) {ptr : ℕ}
    (hwhole : monitor.Whole ptr s) {es : List Event}
    (hrun : LoggedRun (Monitored fun s a ↦ a.Respects ptr s) s es t) :
    monitor.Whole ptr t ∧ ∀ e ∈ es, ¬e.isReportOn ptr :=
  (hrun.induction hs Monitor.Honest.refl Monitor.Honest.trans
    fun hs hstep ↦ ⟨hstep.honest hs, hstep.mapped hs⟩).1 hwhole

/-! ### Stores into payloads -/

/-- The program writes payloads of live blocks only. -/
def Step.WritesPayload (s : State) : Step → Prop
  | .action (.store addr _) => ∃ n, s.IsLive n ∧ (s.blocks.record n).usrptr ≤ addr ∧
      addr < (s.blocks.record n).usrptr + (s.blocks.record n).memblk.usrsize
  | _ => True

/-- A store into a payload respects every pointer. -/
theorem Step.WritesPayload.respects {s : State} (hs : MappedReachable s) {a : Step}
    (ha : a.WritesPayload s) (ptr : ℕ) : a.Respects ptr s := by
  obtain ⟨g, hg⟩ := hs.settled
  cases a with
  | action a =>
    cases a with
    | store addr byte =>
      obtain ⟨n, hn, hin⟩ := ha
      exact fun w hw _ hy ↦ hg.inv.not_payload_of_guards hw hy (hg.inv.isLive_iff.1 hn) hin
    | call _ _ | disableHook | enableHook | checkAll => trivial
  | command _ _ => trivial

/-- A program that writes payloads of live blocks only is never reported on. -/
theorem no_reports {k : Kernel} {mem : ℕ → UInt8} (hk : k.Ok) {t : State} {es : List Event}
    (hrun : LoggedRun (Monitored fun s a ↦ a.WritesPayload s) (State.init k mem) es t) (ptr : ℕ) :
    monitor.Whole ptr t ∧ ∀ e ∈ es, ¬e.isReportOn ptr := by
  have hwhole : monitor.Whole ptr (State.init k mem) := by
    intro w hw
    rcases (State.inv_init hk mem).watches_iff.1 hw with ⟨n, hn, -⟩ | ⟨n, hn, -⟩ <;>
      exact absurd hn List.not_mem_nil
  have hs : MappedReachable (State.init k mem) := ⟨k, mem, hk, .refl⟩
  refine (hrun.induction hs Monitor.Honest.refl Monitor.Honest.trans fun hs hstep ↦ ?_).1 hwhole
  obtain ⟨hsmall, a, ha, hrest⟩ := hstep
  have hstep' : Monitored (fun s a ↦ a.Respects ptr s) _ _ _ :=
    ⟨hsmall, a, ha.respects hs ptr, hrest⟩
  exact ⟨hstep'.honest hs, hstep'.mapped hs⟩

/-! ### One live block -/

theorem Heap.mem_store (h : Heap) (addr : ℕ) (byte : UInt8) : (h.store addr byte).mem
    addr = byte := by
  show Function.update h.mem addr byte addr = byte
  exact Function.update_self ..

/-- A store is a run of one step. -/
theorem monitored_store {P : State → Step → Prop} {s : State} {addr : ℕ} {byte : UInt8}
    (hs : MappedReachable s) (hsmall : s.SmallBufs) (hP : P s (.action (.store addr byte)))
    (hcovered : s.heap.Covered addr) :
    Monitored P s [] { s with heap := s.heap.store addr byte } :=
  ⟨hsmall, _, hP, hcovered, rfl, (List.append_nil _).symm, hs.mapped⟩

/-- A run with one allocation of 16 bytes. -/
theorem watched_oneBlock : ∃ s : State, MappedReachable s ∧ s.SmallBufs ∧
    s.Watches (.live ⟨1048576, 48, 16⟩ 1048592) ∧ monitor.Whole 1048592 s ∧
      ∀ y, 1048576 ≤ y → y < 1048576 + 48 → s.heap.Covered y := by
  obtain ⟨s, g, n, c, hs, -, -, -, hrec⟩ := hookedReachable_oneBlock
  have hnode : ∀ k ∈ g.nodes .live, k = n := by
    rw [hrec.nodes, Function.update_self]
    exact fun k hk ↦ List.mem_singleton.1 hk
  have hn : n ∈ g.nodes .live := by
    rw [hrec.nodes, Function.update_self]
    exact List.mem_cons_self
  have hnone : ∀ k, k ∉ g.freed := by
    rw [hrec.freed]
    exact fun _ ↦ List.not_mem_nil
  have hwatch : s.liveWatch n = .live ⟨1048576, 48, 16⟩ 1048592 := by
    rw [State.liveWatch, hrec.record]
  have hmem : (1048576, 48) ∈ s.heap.outstanding := by
    have := (hrec.inv.guarded n hn).mem
    rwa [hrec.record] at this
  refine ⟨s, hs.mapped, ⟨fun k hk ↦ ?_, fun k hk ↦ ?_⟩,
    hwatch ▸ hrec.inv.watches_iff.2 (.inl ⟨n, hn, rfl⟩), fun w hw _ y hbroken ↦ ?_,
    fun y hy hy' ↦ ⟨_, hmem, hy, hy'⟩⟩
  · rw [hnode k (hrec.inv.isLive_iff.1 hk), hrec.record]
    show 48 < 2147483648
    decide
  · exact absurd (hrec.inv.isFreed_iff.1 hk) (hnone k)
  · rcases hrec.inv.watches_iff.1 hw with ⟨k, hk, rfl⟩ | ⟨k, hk, -⟩
    · obtain rfl := hnode k hk
      refine absurd ?_ ((hrec.inv.exists_broken_live_iff hn).1 ⟨y, hbroken⟩)
      rw [hrec.record, hrec.heap]
      exact intact_armed hrec.shape _
    · exact absurd hk (hnone k)

/-- The red zone in front is written, and then the payload. -/
theorem damage_reported_oneBlock : ∃ (s t : State) (es : List Event) (w : Watch),
    s.heap.mem 1048576 ≠ w.pattern ∧ t.heap.mem 1048592 = 1 ∧
      (monitor.Announced w es ∨ monitor.Pending w 1048576 es t ∧
        (t.SmallBufs → ∃ ret u es', mcCheckAllMemblk t = some (ret, u) ∧
          u.trace = t.trace ++ es' ∧ monitor.Announced w (es ++ es'))) := by
  obtain ⟨s, hs, hsmall, hw, -, hcovered⟩ := watched_oneBlock
  obtain ⟨s₁, hs₁⟩ : ∃ s₁, s₁ = { s with heap := s.heap.store 1048576 0 } := ⟨_, rfl⟩
  obtain ⟨s₂, hs₂⟩ : ∃ s₂, s₂ = { s₁ with heap := s₁.heap.store 1048592 1 } := ⟨_, rfl⟩
  have hfirst : Monitored (fun _ _ ↦ True) s [] s₁ :=
    hs₁ ▸ monitored_store hs hsmall trivial (hcovered _ (by decide) (by decide))
  have hsmall₁ : s₁.SmallBufs := by
    subst hs₁
    exact ⟨hsmall.live, hsmall.freed⟩
  have hw₁ : s₁.Watches (.live ⟨1048576, 48, 16⟩ 1048592) := by
    subst hs₁
    exact (State.watches_congr rfl rfl _).2 hw
  have hin : s₁.heap.Covered 1048592 := by
    subst hs₁
    exact hcovered _ (by decide) (by decide)
  have hbroken : s₁.heap.mem 1048576 ≠ redzonePattern := by
    rw [hs₁, Heap.mem_store]
    decide
  have hsecond : Monitored (fun _ a ↦ a.LeavesDamage (.live ⟨1048576, 48, 16⟩ 1048592) 1048576)
      s₁ [] s₂ :=
    hs₂ ▸ monitored_store (hfirst.mapped hs) hsmall₁ (fun heq ↦ absurd heq (by decide)) hin
  refine ⟨s₁, s₂, _, .live ⟨1048576, 48, 16⟩ 1048592, hbroken, ?_,
    damage_reported (hfirst.mapped hs) hw₁ (by decide) hbroken (.tail (.refl _) hsecond)⟩
  rw [hs₂, Heap.mem_store]

/-- The payload is written. -/
theorem reports_deserved_oneBlock : ∃ (s t : State) (es : List Event),
    t.heap.mem 1048592 = 1 ∧ s.SmallBufs ∧ monitor.Whole 1048592 t ∧
      ∀ e ∈ es, ¬e.isReportOn 1048592 := by
  obtain ⟨s, hs, hsmall, hw, hwhole, hcovered⟩ := watched_oneBlock
  obtain ⟨n, hn, heq⟩ | ⟨n, -, heq⟩ := hw
  · rw [State.liveWatch, Watch.live.injEq] at heq
    have hpayload : Step.WritesPayload s (.action (.store 1048592 1)) :=
      ⟨n, hn, by rw [← heq.2], by rw [← heq.1, ← heq.2]; decide⟩
    have hstep : Monitored (fun s a ↦ a.Respects 1048592 s) s [] _ :=
      monitored_store hs hsmall (hpayload.respects hs _) (hcovered _ (by decide) (by decide))
    exact ⟨s, _, _, Heap.mem_store .., hsmall,
      reports_deserved hs hwhole (.tail (.refl _) hstep)⟩
  · cases heq

end Memchk
