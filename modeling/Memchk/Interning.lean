import Memchk.Groups
import Memchk.Run

/-!
# Interning is canonical

Any number of calls of `mc_get_callstack`, one after the other. Two calls get the same node exactly
if they found the same backtrace, and the table holds one node for each backtrace found
(`InternedAll`). A node counts the calls that got it in an `int`, so that its `usage` is their
number as long as that stays below `2 ^ 31`.

## The hash

The hash is the sum of the return addresses in a `size_t`, one after the other. It does not depend
on where the sum wraps, and equal traces have equal hashes, which is all that the table needs;
traces with the same sum share a chain and are told apart there.

## The calls

`InternedAll traces results cs ns` is what holds after calls that found `traces` and returned
`results`: a call returned a node of `ns` with its trace, or null if the pool had no memory, and the
nodes are those of the traces found. The step lemma is about one more call at the end.

## Counting

Modulo `2 ^ 32` the usage of a node is the number of calls that returned it. The name of the field
promises equality, and `getCallstacks_canonical_iff` says exactly for which calls it holds.
-/

namespace Memchk

/-- The nodes that calls of `mc_get_callstack` return, one after the other. -/
def getCallstacks : List (List ℕ) → Callstacks → Option (List ℕ × Callstacks)
  | [], cs => some ([], cs)
  | frames :: rest, cs => do
    let (c, cs) ← mcGetCallstack frames cs
    let (results, cs) ← getCallstacks rest cs
    return (c :: results, cs)

/-- The backtraces that the calls capture. -/
def captured (calls : List (List ℕ)) : List (List ℕ) :=
  calls.map (List.take maxCallstackDepth)

/-- What is true of the results of the calls and of the table after them, if interning is
canonical. -/
structure Callstacks.Canonical (calls : List (List ℕ)) (results : List ℕ) (cs : Callstacks) :
    Prop where
  length : results.length = calls.length
  eq_iff : ∀ x ∈ (captured calls).zip results, ∀ y ∈ (captured calls).zip results,
    x.2 = y.2 ↔ x.1.length = y.1.length ∧ x.1 = y.1
  mem_iff : ∀ n, n ∈ results ↔ n ∈ cs.tableNodes
  bucket : ∃ K, cs.tableNodes = (tableIndices callstackHashtableSize).flatMap K ∧
    ∀ i ∈ tableIndices callstackHashtableSize,
      visit cs.next 0 cs.rounds (cs.table i) = some (K i) ∧ ∀ n ∈ K i,
        i = ((cs.node n).trace.sum % 18446744073709551616 % callstackHashtableSize : ℕ)
  no_match : ∀ m ∈ cs.tableNodes, ∀ n ∈ cs.tableNodes, m ≠ n →
    mcMatchCallstack (cs.node m).trace (cs.node n).trace = false
  usage : ∀ n ∈ cs.tableNodes, (cs.node n).usage = results.count n

/-! ### The hash -/

/-- A sum that wraps at every step has wrapped once. -/
theorem foldl_wrapSize (l : List ℕ) (a : ℕ) :
    l.foldl (fun val x ↦ wrapSize (val + x)) (wrapSize a) = wrapSize (a + l.sum) := by
  induction l generalizing a with
  | nil => rfl
  | cons x l ih =>
    have hstep : wrapSize (wrapSize a + x) = wrapSize (a + x) := Nat.mod_add_mod _ _ _
    rw [List.foldl_cons, hstep, ih, List.sum_cons, Nat.add_assoc]

/-- The hash is the sum of the return addresses. -/
theorem calcCallstackHash_eq (trace : List ℕ) :
    calcCallstackHash trace callstackHashtableSize =
      (trace.sum % 18446744073709551616 % callstackHashtableSize : ℕ) := by
  have hfold := foldl_wrapSize trace 0
  rw [Nat.zero_add] at hfold
  have hlt : trace.sum % 18446744073709551616 % callstackHashtableSize < callstackHashtableSize :=
    Nat.mod_lt _ (by decide)
  rw [calcCallstackHash]
  rw [show (0 : ℕ) = wrapSize 0 from rfl, hfold]
  exact toInt32_of_mem (by omega) (by simp only [callstackHashtableSize] at hlt ⊢; omega)

/-! ### Counting the calls -/

section Usage

variable {cs cs' : Callstacks} {ns : List ℕ} {frames : List ℕ} {c : ℕ}

/-- The node that is returned counts one more call; a new node counts its first. -/
theorem Callstacks.Holds.usage (h : cs.Holds ns)
    (hget : mcGetCallstack frames cs = some (c, cs')) (hc : c ≠ 0) :
    (cs'.node c).usage = (if c ∈ ns then toInt32 ((cs.node c).usage + 1) else 1) ∧
      ∀ n, n ≠ c → (cs'.node n).usage = (cs.node n).usage := by
  rcases h.get_cases frames with ⟨n, hn, -, hget'⟩ |
    ⟨-, ⟨pool, -, -, hget'⟩ | ⟨new, pool, -, -, -, hnew, hget'⟩⟩
  · obtain ⟨rfl, rfl⟩ := Prod.mk.inj (Option.some.inj (hget'.symm.trans hget))
    rw [if_pos hn]
    refine ⟨?_, fun m hm ↦ ?_⟩
    · simp [Callstacks.use, Callstacks.modify]
    · simp [Callstacks.use, Callstacks.modify, hm]
  · obtain ⟨rfl, -⟩ := Prod.mk.inj (Option.some.inj (hget'.symm.trans hget))
    exact absurd rfl hc
  · obtain ⟨rfl, rfl⟩ := Prod.mk.inj (Option.some.inj (hget'.symm.trans hget))
    rw [if_neg hnew]
    refine ⟨?_, fun m hm ↦ ?_⟩
    · rw [Callstacks.node_enter_self]
    · rw [Callstacks.node_enter_of_ne hm]

theorem toInt32_succ (z : ℤ) : toInt32 (toInt32 z + 1) = toInt32 (z + 1) := by
  unfold toInt32
  omega

theorem toInt32_natCast_iff (n : ℕ) : toInt32 n = n ↔ n < 2147483648 := by
  unfold toInt32
  omega

end Usage

/-! ### All calls -/

/-- After calls that captured `traces` and got `results`: the nodes of the table are `ns`, each
result is the node of its backtrace, and each node has counted its calls. -/
structure InternedAll (traces : List (List ℕ)) (results : List ℕ) (cs : Callstacks) (ns : List ℕ) :
    Prop where
  holds : cs.Holds ns
  length : results.length = traces.length
  mem_iff : ∀ n, n ∈ results ↔ n ∈ ns
  trace : ∀ x ∈ traces.zip results, (cs.node x.2).trace = x.1
  usage : ∀ n ∈ ns, (cs.node n).usage = toInt32 (results.count n)

namespace InternedAll

variable {traces : List (List ℕ)} {results results' ns ns' : List ℕ} {cs cs' : Callstacks}
  {calls : List (List ℕ)} {frames trace : List ℕ} {c : ℕ}

theorem nil (h : cs.Holds []) : InternedAll [] [] cs [] :=
  ⟨h, rfl, fun _ ↦ Iff.rfl, by simp, by simp⟩

/-- One more call. -/
theorem get (h : InternedAll traces results cs ns)
    (hget : mcGetCallstack frames cs = some (c, cs')) (hc : c ≠ 0) :
    ∃ ns', InternedAll (traces ++ [frames.take maxCallstackDepth]) (results ++ [c]) cs' ns' := by
  obtain ⟨hself, hother⟩ := h.holds.usage hget hc
  have hzip : (traces ++ [frames.take maxCallstackDepth]).zip (results ++ [c]) =
      traces.zip results ++ [(frames.take maxCallstackDepth, c)] :=
    List.zip_append h.length.symm
  have hlength : (results ++ [c]).length =
      (traces ++ [frames.take maxCallstackDepth]).length := by
    rw [List.length_append, List.length_append, h.length]
    rfl
  have hcount : ∀ n, n = c ∨ n ∈ ns →
      (cs'.node n).usage = toInt32 ((results ++ [c]).count n) := by
    intro n hn
    rw [List.count_append]
    rcases eq_or_ne n c with rfl | hne
    · rw [hself, List.count_singleton_self]
      split_ifs with hmem
      · rw [h.usage n hmem, toInt32_succ]
        rfl
      · rw [List.count_eq_zero.2 fun hres ↦ hmem ((h.mem_iff n).1 hres)]
        rfl
    · rw [hother n hne, List.count_singleton, if_neg (by simpa using hne.symm), Nat.add_zero,
        h.usage n (hn.resolve_left hne)]
  have hmem : ∀ n, n ∈ results ++ [c] ↔ n = c ∨ n ∈ ns := by
    intro n
    rw [List.mem_append, List.mem_singleton, h.mem_iff, or_comm]
  obtain ⟨d, cs'', hget', hext, hcases⟩ := h.holds.get frames
  rw [hget, Option.some_inj, Prod.mk.injEq] at hget'
  obtain ⟨rfl, rfl⟩ := hget'
  have htraces : (cs'.node c).trace = frames.take maxCallstackDepth →
      ∀ x ∈ (traces ++ [frames.take maxCallstackDepth]).zip (results ++ [c]),
        (cs'.node x.2).trace = x.1 := by
    intro htrace x hx
    rw [hzip, List.mem_append, List.mem_singleton] at hx
    rcases hx with hx | rfl
    · have hold : x.2 ∈ ns := (h.mem_iff x.2).1 (List.of_mem_zip hx).2
      exact (hext.trace _ hold).trans (h.trace x hx)
    · exact htrace
  rcases hcases with ⟨hnull, -⟩ | ⟨htrace, ⟨hold, hholds⟩ | ⟨-, hholds, -⟩⟩
  · exact absurd hnull hc
  · refine ⟨ns, hholds, hlength, fun n ↦ ?_, htraces htrace, fun n hn ↦ hcount n (.inr hn)⟩
    rw [hmem]
    exact ⟨fun hn ↦ hn.elim (fun heq ↦ heq ▸ hold) id, .inr⟩
  · refine ⟨c :: ns, hholds, hlength, fun n ↦ ?_, htraces htrace,
      fun n hn ↦ hcount n (List.mem_cons.1 hn)⟩
    rw [hmem, List.mem_cons]

/-- All calls, if none of them lacks metadata. -/
theorem run (h : InternedAll traces results cs ns)
    (hrun : getCallstacks calls cs = some (results', cs')) (h0 : 0 ∉ results') :
    ∃ ns', InternedAll (traces ++ captured calls) (results ++ results') cs' ns' := by
  induction calls generalizing traces results results' cs ns with
  | nil =>
    obtain ⟨rfl, rfl⟩ := Prod.mk.inj (Option.some.inj hrun)
    refine ⟨ns, ?_⟩
    rw [captured, List.map_nil, List.append_nil, List.append_nil]
    exact h
  | cons frames calls ih =>
    rw [getCallstacks] at hrun
    obtain ⟨⟨c, cs₁⟩, hget, hrest⟩ := Option.bind_eq_some_iff.1 hrun
    obtain ⟨⟨results₁, cs₂⟩, hrest', heq⟩ := Option.bind_eq_some_iff.1 hrest
    obtain ⟨rfl, rfl⟩ := Prod.mk.inj (Option.some.inj heq)
    rw [List.mem_cons, not_or] at h0
    obtain ⟨ns₁, h₁⟩ := h.get hget (Ne.symm h0.1)
    obtain ⟨ns₂, h₂⟩ := ih h₁ hrest' h0.2
    rw [List.append_assoc, List.append_assoc] at h₂
    exact ⟨ns₂, h₂⟩

/-- The nodes stand for the backtraces. -/
theorem eq_iff (h : InternedAll traces results cs ns) {x y : List ℕ × ℕ}
    (hx : x ∈ traces.zip results) (hy : y ∈ traces.zip results) : x.2 = y.2 ↔ x.1 = y.1 := by
  have hmem : ∀ z ∈ traces.zip results, z.2 ∈ ns :=
    fun z hz ↦ (h.mem_iff z.2).1 (List.of_mem_zip hz).2
  refine ⟨fun heq ↦ ?_, fun heq ↦ ?_⟩
  · rw [← h.trace x hx, ← h.trace y hy, heq]
  · refine h.holds.inj _ (hmem x hx) _ (hmem y hy) ?_
    rw [h.trace x hx, h.trace y hy, heq]

/-- A node is returned as often as its backtrace is captured. -/
theorem count_eq (h : InternedAll traces results cs ns) {x : List ℕ × ℕ}
    (hx : x ∈ traces.zip results) : results.count x.2 = traces.count x.1 := by
  have hfst : (traces.zip results).map Prod.fst = traces :=
    List.map_fst_zip (by rw [h.length])
  have hsnd : (traces.zip results).map Prod.snd = results :=
    List.map_snd_zip (by rw [h.length])
  calc
    results.count x.2 = ((traces.zip results).map Prod.snd).count x.2 := by rw [hsnd]
    _ = (traces.zip results).countP (fun y ↦ y.2 == x.2) := by
      rw [List.count, List.countP_map]
      rfl
    _ = (traces.zip results).countP (fun y ↦ y.1 == x.1) := by
      refine List.countP_congr fun y hy ↦ ?_
      rw [beq_iff_eq, beq_iff_eq]
      exact h.eq_iff hy hx
    _ = ((traces.zip results).map Prod.fst).count x.1 := by
      rw [List.count, List.countP_map]
      rfl
    _ = traces.count x.1 := by rw [hfst]

/-- Some call got every node, and some node was got for every backtrace. -/
theorem exists_of_mem_results (h : InternedAll traces results cs ns) {n : ℕ} (hn : n ∈ results) :
    ∃ x ∈ traces.zip results, x.2 = n := by
  have hsnd : (traces.zip results).map Prod.snd = results :=
    List.map_snd_zip (by rw [h.length])
  rw [← hsnd] at hn
  obtain ⟨x, hx, heq⟩ := List.mem_map.1 hn
  exact ⟨x, hx, heq⟩

/-- Every trace found is that of a call. -/
theorem exists_of_mem_traces (h : InternedAll traces results cs ns) (ht : trace ∈ traces) :
    ∃ x ∈ traces.zip results, x.1 = trace := by
  have hfst : (traces.zip results).map Prod.fst = traces :=
    List.map_fst_zip (by rw [h.length])
  rw [← hfst] at ht
  obtain ⟨x, hx, heq⟩ := List.mem_map.1 ht
  exact ⟨x, hx, heq⟩

/-- Interning is canonical up to the range of the counters. -/
theorem canonical_iff (h : InternedAll (captured calls) results cs ns) :
    Callstacks.Canonical calls results cs ↔
      ∀ trace, (captured calls).count trace < 2147483648 := by
  have hperm := h.holds.tableNodes_perm
  refine ⟨fun hcanon trace ↦ ?_, fun hcount ↦ ?_⟩
  · by_cases htrace : trace ∈ captured calls
    · obtain ⟨x, hx, rfl⟩ := h.exists_of_mem_traces htrace
      have hn : x.2 ∈ results := (List.of_mem_zip hx).2
      have husage := hcanon.usage x.2 ((hcanon.mem_iff x.2).1 hn)
      rw [h.usage x.2 ((h.mem_iff x.2).1 hn), h.count_eq hx] at husage
      exact (toInt32_natCast_iff _).1 husage
    · rw [List.count_eq_zero.2 htrace]
      decide
  · have hlength := h.length
    rw [captured, List.length_map] at hlength
    refine ⟨hlength, fun x hx y hy ↦ ?_, fun n ↦ ?_, ?_, fun m hm n hn hne ↦ ?_, fun n hn ↦ ?_⟩
    · rw [h.eq_iff hx hy]
      exact ⟨fun heq ↦ ⟨congrArg List.length heq, heq⟩, And.right⟩
    · rw [h.mem_iff, hperm.mem_iff]
    · obtain ⟨K, hK, hrounds, heq, -⟩ := h.holds.buckets
      refine ⟨K, heq, fun i hi ↦ ⟨visit_eq (hK.linked i hi) (hrounds i hi), fun n hn ↦ ?_⟩⟩
      rw [← hK.hash_eq i hi n hn, calcCallstackHash_eq]
    · rw [Bool.eq_false_iff, ne_eq, mcMatchCallstack_iff]
      exact fun heq ↦ hne (h.holds.inj m (hperm.mem_iff.1 hm) n (hperm.mem_iff.1 hn) heq)
    · have hmem : n ∈ ns := hperm.mem_iff.1 hn
      obtain ⟨x, hx, rfl⟩ := h.exists_of_mem_results ((h.mem_iff n).2 hmem)
      rw [h.usage x.2 hmem, toInt32_natCast_iff, h.count_eq hx]
      exact hcount x.1

end InternedAll

/-! ### From the empty table -/

/-- Calls of `mc_get_callstack` return, whatever the pool does. -/
theorem Callstacks.Holds.returns {cs : Callstacks} {ns : List ℕ} (h : cs.Holds ns)
    (calls : List (List ℕ)) :
    ∃ results cs', getCallstacks calls cs = some (results, cs') := by
  induction calls generalizing cs ns with
  | nil => exact ⟨[], cs, rfl⟩
  | cons frames calls ih =>
    obtain ⟨c, cs₁, hget, -, hcases⟩ := h.get frames
    obtain ⟨ns₁, h₁⟩ : ∃ ns₁, cs₁.Holds ns₁ := by
      rcases hcases with ⟨-, h₁⟩ | ⟨-, ⟨-, h₁⟩ | ⟨-, h₁, -⟩⟩
      exacts [⟨_, h₁⟩, ⟨_, h₁⟩, ⟨_, h₁⟩]
    obtain ⟨results, cs₂, hrest⟩ := ih h₁
    refine ⟨c :: results, cs₂, ?_⟩
    simp [getCallstacks, hget, hrest]

variable {k : Kernel}

theorem holds_init (hk : k.Ok) (mem : ℕ → UInt8) : (State.init k mem).callstacks.Holds [] :=
  (State.inv_init hk mem).callstacks

/-- All calls return; and if none of them lacks metadata, interning is canonical, the counts
included, exactly if no backtrace is captured `2 ^ 31` times. -/
theorem getCallstacks_canonical_iff (hk : k.Ok) (mem : ℕ → UInt8) (calls : List (List ℕ)) :
    ∃ results cs, getCallstacks calls (State.init k mem).callstacks = some (results, cs) ∧
      (0 ∉ results → (cs.Canonical calls results ↔
        ∀ trace, (captured calls).count trace < 2147483648)) := by
  obtain ⟨results, cs, hrun⟩ := (holds_init hk mem).returns calls
  refine ⟨results, cs, hrun, fun h0 ↦ ?_⟩
  obtain ⟨ns, h⟩ := (InternedAll.nil (holds_init hk mem)).run hrun h0
  rw [List.nil_append, List.nil_append] at h
  exact h.canonical_iff

/-- Three calls; the backtraces of the first two collide. -/
theorem getCallstacks_canonical_iff_collision : ∃ results cs,
    getCallstacks [[1, 2], [2, 1], [1, 2]] State.start.callstacks = some (results, cs) ∧
      0 ∉ results ∧ cs.Canonical [[1, 2], [2, 1], [1, 2]] results := by
  obtain ⟨results, cs, hrun, hiff⟩ :=
    getCallstacks_canonical_iff kernel_ok_nil (fun _ ↦ 0) [[1, 2], [2, 1], [1, 2]]
  have h0 : 0 ∉ results := by
    have hresults : (getCallstacks [[1, 2], [2, 1], [1, 2]] State.start.callstacks).map
        (fun x ↦ decide (0 ∈ x.1)) = some false := by decide +kernel
    rw [show getCallstacks _ State.start.callstacks = some (results, cs) from hrun] at hresults
    simpa using hresults
  refine ⟨results, cs, hrun, h0, (hiff h0).2 fun trace ↦ ?_⟩
  exact lt_of_le_of_lt List.count_le_length (by decide)

/-- Calls with the backtrace of a node of the table get a node. -/
theorem Callstacks.Holds.zero_notMem {cs cs' : Callstacks} {ns results : List ℕ} {n : ℕ}
    {frames : List ℕ} (h : cs.Holds ns) (hn : n ∈ ns)
    (htrace : (cs.node n).trace = frames.take maxCallstackDepth) (times : ℕ)
    (hrun : getCallstacks (List.replicate times frames) cs = some (results, cs')) :
    0 ∉ results := by
  induction times generalizing cs ns results with
  | zero =>
    obtain ⟨rfl, -⟩ := Prod.mk.inj (Option.some.inj hrun)
    exact List.not_mem_nil
  | succ times ih =>
    rw [List.replicate_succ, getCallstacks] at hrun
    obtain ⟨⟨c, cs₁⟩, hget, hrest⟩ := Option.bind_eq_some_iff.1 hrun
    obtain ⟨⟨results₁, cs₂⟩, hrest', heq⟩ := Option.bind_eq_some_iff.1 hrest
    obtain ⟨rfl, rfl⟩ := Prod.mk.inj (Option.some.inj heq)
    have hc : c ≠ 0 := h.get_ne_zero hn htrace hget
    have hrest0 : 0 ∉ results₁ := by
      obtain ⟨d, cs₃, hget', hext, hcases⟩ := h.get frames
      rw [hget, Option.some_inj, Prod.mk.injEq] at hget'
      obtain ⟨rfl, rfl⟩ := hget'
      rcases hcases with ⟨hnull, -⟩ | ⟨-, ⟨-, h₁⟩ | ⟨-, h₁, -⟩⟩
      · exact absurd hnull hc
      · exact ih h₁ hn ((hext.trace n hn).trans htrace) hrest'
      · exact ih h₁ (List.mem_cons_of_mem _ hn) ((hext.trace n hn).trans htrace) hrest'
    rw [List.mem_cons, not_or]
    exact ⟨Ne.symm hc, hrest0⟩

/-- The counter of a node overflows. -/
theorem not_getCallstacks_canonical : ∃ results cs,
    getCallstacks (List.replicate 2147483648 []) State.start.callstacks = some (results, cs) ∧
      0 ∉ results ∧ ¬cs.Canonical (List.replicate 2147483648 []) results := by
  have hholds : State.start.callstacks.Holds [] := holds_init kernel_ok_nil fun _ ↦ 0
  obtain ⟨results, cs, hrun⟩ := hholds.returns (List.replicate 2147483648 [])
  have h0 : 0 ∉ results := by
    have hrun' := hrun
    rw [show 2147483648 = 2147483647 + 1 from rfl, List.replicate_succ, getCallstacks] at hrun'
    obtain ⟨⟨c, cs₁⟩, hget, hrest⟩ := Option.bind_eq_some_iff.1 hrun'
    obtain ⟨⟨results₁, cs₂⟩, hrest', heq⟩ := Option.bind_eq_some_iff.1 hrest
    obtain ⟨rfl, rfl⟩ := Prod.mk.inj (Option.some.inj heq)
    have hc : c ≠ 0 := by
      have hfirst : (mcGetCallstack [] State.start.callstacks).map (fun x ↦ decide (x.1 = 0)) =
          some false := by decide +kernel
      rw [hget] at hfirst
      simpa using hfirst
    obtain ⟨d, cs₃, hget', -, hcases⟩ := hholds.get []
    rw [hget, Option.some_inj, Prod.mk.injEq] at hget'
    obtain ⟨rfl, rfl⟩ := hget'
    rw [List.mem_cons, not_or]
    rcases hcases with ⟨hnull, -⟩ | ⟨htrace, ⟨hmem, -⟩ | ⟨-, h₁, -⟩⟩
    · exact absurd hnull hc
    · exact absurd hmem List.not_mem_nil
    · exact ⟨Ne.symm hc, h₁.zero_notMem List.mem_cons_self htrace _ hrest'⟩
  refine ⟨results, cs, hrun, h0, fun hcanon ↦ ?_⟩
  obtain ⟨ns, h⟩ := (InternedAll.nil hholds).run hrun h0
  rw [List.nil_append, List.nil_append] at h
  have hlt := h.canonical_iff.1 hcanon []
  rw [captured, List.map_replicate] at hlt
  have hempty : List.take maxCallstackDepth ([] : List ℕ) = [] := rfl
  rw [hempty, List.count_replicate_self] at hlt
  exact absurd hlt (by decide)

end Memchk
