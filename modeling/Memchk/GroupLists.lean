import Memchk.Allocator.Safety
import Memchk.Groups
import Memchk.Run

/-!
# The lists of the callstacks

Any sequence of `mc_link_memblk_to_callstack` and `mc_unlink_memblk_from_callstack`, over all
callstacks and both link indexes. A block has one pair of links for all of these lists, so that the
lists stay apart only because a block is in one of them at most; they are then the lists of the
blocks that were linked and not unlinked since (`GroupOp.linkedTo`).

## The operations

`GroupOp.Allowed` is what the callers keep to: a block is linked only while it is in no list, and
unlinked only from the list it is in. The abstract operations are consing to a list and erasing from
it, with one list for each callstack and link index (`GroupOp.apply`).

## The invariant

`State.WellFormedLists` says that each list of the state is doubly linked, from its head in the node
of the callstack to null, with the blocks of the abstract list in its order. As all lists share the
links of the blocks, one operation must be shown to leave the other lists alone; that is where the
lists having no block in common is used.

## Main result

`groupLists_wellFormed`: after every allowed sequence the lists are well formed, and each is what
was linked to it and not unlinked since, the last one first.
-/

namespace Memchk

/-- A list: a callstack and a link index. -/
abbrev ListId : Type :=
  ℕ × LinkIndex

/-- A call of one of the two functions. -/
inductive GroupOp
  | link (n c : ℕ) (index : LinkIndex)
  | unlink (n c : ℕ) (index : LinkIndex)
deriving DecidableEq

namespace GroupOp

/-- The call. -/
def exec : GroupOp → State → Option State
  | link n c index, s => s.mcLinkMemblkToCallstack n c index
  | unlink n c index, s => s.mcUnlinkMemblkFromCallstack n c index

/-- A sequence of calls. -/
def run (ops : List GroupOp) (s : State) : Option State :=
  ops.foldlM (fun s op ↦ op.exec s) s

/-- What a call does to the lists. -/
def apply : GroupOp → (ListId → List ℕ) → ListId → List ℕ
  | link n c index, L => Function.update L (c, index) (n :: L (c, index))
  | unlink n c index, L => Function.update L (c, index) ((L (c, index)).erase n)

/-- A block that is taken from the pool is linked only when it is in no list, and unlinked only from
the list it is in. -/
def Allowed (live : Finset ℕ) : GroupOp → (ListId → List ℕ) → Prop
  | link n c _, L => c ≠ 0 ∧ n ≠ 0 ∧ n ∈ live ∧ ∀ k, n ∉ L k
  | unlink n c index, L => n ∈ L (c, index)

/-- Every call of the sequence is allowed when it is made. -/
def Legal (live : Finset ℕ) : List GroupOp → (ListId → List ℕ) → Prop
  | [], _ => True
  | op :: ops, L => op.Allowed live L ∧ Legal live ops (op.apply L)

/-- The lists after a sequence of calls. -/
def lists : List GroupOp → (ListId → List ℕ) → ListId → List ℕ
  | [], L => L
  | op :: ops, L => lists ops (op.apply L)

/-- The blocks that a sequence of calls links to the list `k` and does not unlink later, the last
one first. -/
def linkedTo (k : ListId) : List GroupOp → List ℕ
  | [] => []
  | link n c index :: ops =>
    linkedTo k ops ++ if (c, index) = k ∧ unlink n c index ∉ ops then [n] else []
  | unlink _ _ _ :: ops => linkedTo k ops

end GroupOp

/-- The lists of a state are `L`: linked in both directions and without an end in common. -/
structure State.WellFormedLists (L : ListId → List ℕ) (s : State) : Prop where
  linked : ∀ c link, c ≠ 0 → DoublyLinked s.blocks.sameCallstackGroupNext
    s.blocks.sameCallstackGroupPrev 0 0 (s.head link c) (L (c, link))
  nodup : ∀ k, (L k).Nodup
  disjoint : ∀ k k', k ≠ k' → (L k).Disjoint (L k')

/-! ### The lists by what was linked -/

namespace GroupOp

variable {live : Finset ℕ} {ops : List GroupOp} {L : ListId → List ℕ}

/-- No list comes to hold a block twice. -/
theorem Allowed.nodup {op : GroupOp} (hop : op.Allowed live L) (hL : ∀ k, (L k).Nodup)
    (k : ListId) : (op.apply L k).Nodup := by
  cases op with
  | link n c index =>
    obtain ⟨-, -, -, hnot⟩ := hop
    rw [apply, Function.update_apply]
    split_ifs
    · exact List.nodup_cons.2 ⟨hnot _, hL _⟩
    · exact hL k
  | unlink n c index =>
    rw [apply, Function.update_apply]
    split_ifs
    · exact (hL _).erase _
    · exact hL k

/-- The lists are those of the blocks linked and not unlinked since, in front of what is left of the
lists at the start. -/
theorem Legal.lists_eq (hlegal : Legal live ops L) (hL : ∀ k, (L k).Nodup) (k : ListId) :
    lists ops L k = linkedTo k ops ++ (L k).filter fun n ↦ unlink n k.1 k.2 ∉ ops := by
  induction ops generalizing L with
  | nil => simp [lists, linkedTo]
  | cons op ops ih =>
    rw [lists, ih hlegal.2 (hlegal.1.nodup hL)]
    cases op with
    | link n c index =>
      rw [linkedTo, apply, Function.update_apply, List.append_assoc]
      by_cases hk : k = (c, index)
      · subst hk
        rw [if_pos rfl, List.filter_cons]
        by_cases hn : unlink n c index ∈ ops <;> simp [hn]
      · rw [if_neg hk, if_neg fun h ↦ hk h.1.symm, List.nil_append]
        simp
    | unlink n c index =>
      rw [linkedTo, apply, Function.update_apply]
      by_cases hk : k = (c, index)
      · subst hk
        rw [if_pos rfl, (hL _).erase_eq_filter, List.filter_filter]
        congr 2
        funext m
        by_cases hm : m = n <;> simp [hm]
      · rw [if_neg hk]
        congr 2
        funext m
        have hne : (m, k) ≠ (n, (c, index)) := fun h ↦ hk (Prod.mk.inj h).2
        have hop : unlink m k.1 k.2 ≠ unlink n c index := by
          intro h
          obtain ⟨rfl, rfl, rfl⟩ := GroupOp.unlink.inj h
          exact hk rfl
        simp [hop]

end GroupOp

/-! ### The lists of the state -/

/-- The lists of a state are `L`, and their blocks are taken from the pool. -/
structure State.Listed (L : ListId → List ℕ) (s : State) : Prop where
  wellFormed : s.WellFormedLists L
  live : ∀ k, ∀ n ∈ L k, n ∈ s.blocks.pool.live allocMemblkSize
  null : ∀ link, L (0, link) = []

namespace State

variable {s t : State} {L : ListId → List ℕ} {n c : ℕ} {index : LinkIndex}

namespace Listed

/-- The head of a list is null or a node of the list. -/
theorem head_cases (h : s.Listed L) (hc : c ≠ 0) :
    s.head index c = 0 ∨ s.head index c ∈ L (c, index) := by
  have hlinked := h.wellFormed.linked c index hc
  cases hL : L (c, index) with
  | nil =>
    rw [hL] at hlinked
    exact .inl hlinked
  | cons n l =>
    rw [hL] at hlinked
    exact .inr (hlinked.1 ▸ List.mem_cons_self)

/-- What changes one list only. -/
theorem regrouped {next prev : ℕ → ℕ} {first : ℕ} {l : List ℕ} (h : s.Listed L) (hc : c ≠ 0)
    (ht : Regrouped c index next prev first s t) (hlinked : DoublyLinked next prev 0 0 first l)
    (hlive : ∀ m ∈ l, m ∈ s.blocks.pool.live allocMemblkSize)
    (hdisjoint : ∀ k, k ≠ (c, index) → l.Disjoint (L k))
    (hkeep : ∀ k, k ≠ (c, index) → ∀ m ∈ L k, next m = s.blocks.sameCallstackGroupNext m ∧
      prev m = s.blocks.sameCallstackGroupPrev m) :
    t.Listed (Function.update L (c, index) l) := by
  have hpool : t.blocks.pool = s.blocks.pool := by rw [ht.blocks]
  refine ⟨⟨fun d i hd ↦ ?_, fun k ↦ ?_, fun k k' hne ↦ ?_⟩, fun k m hm ↦ ?_, fun i ↦ ?_⟩
  · rw [ht.blocks]
    by_cases hk : (d, i) = (c, index)
    · obtain ⟨rfl, rfl⟩ := Prod.mk.inj hk
      rw [Function.update_self, ht.head_self]
      exact hlinked
    · have hhead : t.head i d = s.head i d := by
        by_cases hi : i = index
        · subst hi
          exact ht.head_other d fun hdc ↦ hk (hdc ▸ rfl)
        · exact ht.links i d hi
      rw [Function.update_of_ne hk, hhead]
      exact (h.wellFormed.linked d i hd).congr (fun m hm ↦ (hkeep _ hk m hm).1)
        fun m hm ↦ (hkeep _ hk m hm).2
  · rw [Function.update_apply]
    split_ifs
    · exact hlinked.linked.nodup
    · exact h.wellFormed.nodup k
  · rw [Function.update_apply, Function.update_apply]
    split_ifs with hk hk' hk'
    · exact absurd (hk.trans hk'.symm) hne
    · exact hdisjoint k' hk'
    · exact (hdisjoint k hk).symm
    · exact h.wellFormed.disjoint k k' hne
  · rw [hpool]
    rw [Function.update_apply] at hm
    split_ifs at hm
    · exact hlive m hm
    · exact h.live k m hm
  · have hne : (0, i) ≠ (c, index) := fun heq ↦ hc (Prod.mk.inj heq).1.symm
    rw [Function.update_of_ne hne]
    exact h.null i

/-- Linking a block that is in no list. -/
theorem link (h : s.Listed L) (hc : c ≠ 0) (hnull : n ≠ 0)
    (hn : n ∈ s.blocks.pool.live allocMemblkSize) (hnot : ∀ k, n ∉ L k) :
    ∃ t, s.mcLinkMemblkToCallstack n c index = some t ∧
      t.Listed (Function.update L (c, index) (n :: L (c, index))) ∧
      t.blocks.pool = s.blocks.pool := by
  have hhead : s.head index c = 0 ∨ s.head index c ∈ L (c, index) := h.head_cases hc
  obtain ⟨t, hrun, ht⟩ := link_regrouped index hc hn (hhead.imp_right (h.live _ _))
  have hpush := (h.wellFormed.linked c index hc).push hnull (hnot _)
  refine ⟨t, hrun, h.regrouped hc ht hpush ?_ ?_ ?_, by rw [ht.blocks]⟩
  · intro m hm
    rcases List.mem_cons.1 hm with rfl | hm
    · exact hn
    · exact h.live _ m hm
  · intro k hk
    exact List.disjoint_cons_left.2 ⟨hnot k, h.wellFormed.disjoint _ _ hk.symm⟩
  · -- a block of another list is neither the new block nor the one that was in front
    intro k hk m hm
    have hmn : m ≠ n := fun heq ↦ hnot k (heq ▸ hm)
    refine ⟨Function.update_of_ne hmn _ _, ?_⟩
    split_ifs with hzero
    · exact Function.update_of_ne hmn _ _
    · have hmh : m ≠ s.head index c := fun heq ↦
        h.wellFormed.disjoint _ _ hk hm (heq ▸ hhead.resolve_left hzero)
      exact (Function.update_of_ne hmh _ _).trans (Function.update_of_ne hmn _ _)

/-- Unlinking a block from the list that it is in. -/
theorem unlink (h : s.Listed L) (hn : n ∈ L (c, index)) :
    ∃ t, s.mcUnlinkMemblkFromCallstack n c index = some t ∧
      t.Listed (Function.update L (c, index) ((L (c, index)).erase n)) ∧
      t.blocks.pool = s.blocks.pool := by
  have hc : c ≠ 0 := by
    rintro rfl
    rw [h.null] at hn
    exact absurd hn List.not_mem_nil
  obtain ⟨l₁, l₂, hL⟩ := List.append_of_mem hn
  have hlinked := h.wellFormed.linked c index hc
  have hnodup := h.wellFormed.nodup (c, index)
  have hlive := h.live (c, index)
  have hdisjoint := fun k hk ↦ h.wellFormed.disjoint (c, index) k (Ne.symm hk)
  rw [hL] at hlinked hnodup hlive hdisjoint ⊢
  have herase : (l₁ ++ n :: l₂).erase n = l₁ ++ l₂ := by
    have hnot : n ∉ l₁ := fun hmem ↦
      (List.nodup_append.1 hnodup).2.2 n hmem n List.mem_cons_self rfl
    rw [List.erase_append_right _ hnot, List.erase_cons_head]
  have hsub : l₁ ++ l₂ ⊆ l₁ ++ n :: l₂ := herase ▸ List.erase_subset
  obtain ⟨t, hrun, ht⟩ := unlink_regrouped index hc (hlive n (by simp))
    (hlinked.next_mem_or.imp_right fun hmem ↦ hlive _ (by simp [hmem]))
    (hlinked.prev_mem_or.imp_right fun hmem ↦ hlive _ (by simp [hmem]))
  rw [herase]
  refine ⟨t, hrun, h.regrouped hc ht hlinked.unlink (fun m hm ↦ hlive m (hsub hm)) ?_ ?_,
    by rw [ht.blocks]⟩
  · exact fun k hk ↦ List.disjoint_of_subset_left hsub (hdisjoint k hk)
  · intro k hk m hm
    have hout : m ∉ l₁ ++ n :: l₂ := fun hmem ↦ hdisjoint k hk hmem hm
    exact ⟨hlinked.unlinkForward_of_notMem hout, hlinked.unlinkBackward_of_notMem hout⟩

/-- One call. -/
theorem exec (h : s.Listed L) {op : GroupOp}
    (hop : op.Allowed (s.blocks.pool.live allocMemblkSize) L) :
    ∃ t, op.exec s = some t ∧ t.Listed (op.apply L) ∧ t.blocks.pool = s.blocks.pool := by
  cases op with
  | link n c index =>
    obtain ⟨hc, hnull, hn, hnot⟩ := hop
    exact h.link hc hnull hn hnot
  | unlink n c index =>
    exact h.unlink hop

/-- A sequence of calls. -/
theorem run (h : s.Listed L) {ops : List GroupOp}
    (hlegal : GroupOp.Legal (s.blocks.pool.live allocMemblkSize) ops L) :
    ∃ t, GroupOp.run ops s = some t ∧ t.Listed (GroupOp.lists ops L) := by
  induction ops generalizing s L with
  | nil => exact ⟨s, rfl, h⟩
  | cons op ops ih =>
    obtain ⟨t, hexec, ht, hpool⟩ := h.exec hlegal.1
    have hrest := hlegal.2
    rw [← hpool] at hrest
    obtain ⟨u, hrun, hu⟩ := ih ht hrest
    refine ⟨u, ?_, hu⟩
    rw [GroupOp.run, List.foldlM_cons, hexec]
    exact hrun

end Listed

/-- From empty lists, all calls return, and each list holds the blocks that were linked to it and
not unlinked since, the last one first. -/
theorem groupLists_wellFormed {ops : List GroupOp} (hempty : ∀ c index, s.head index c = 0)
    (hlegal : GroupOp.Legal (s.blocks.pool.live allocMemblkSize) ops fun _ ↦ []) :
    ∃ t, GroupOp.run ops s = some t ∧ t.WellFormedLists fun k ↦ GroupOp.linkedTo k ops := by
  have hstart : s.Listed fun _ ↦ [] :=
    ⟨⟨fun c index _ ↦ hempty c index, fun _ ↦ List.nodup_nil, fun _ _ _ ↦ List.disjoint_nil_left _⟩,
      fun _ _ hm ↦ absurd hm List.not_mem_nil, fun _ ↦ rfl⟩
  obtain ⟨t, hrun, ht⟩ := hstart.run hlegal
  refine ⟨t, hrun, ?_⟩
  have hlists : GroupOp.lists ops (fun _ ↦ []) = fun k ↦ GroupOp.linkedTo k ops := by
    funext k
    rw [hlegal.lists_eq fun _ ↦ List.nodup_nil, List.filter_nil, List.append_nil]
  exact hlists ▸ ht.wellFormed

/-- A state in which three blocks are taken from the pool. -/
def threeTaken : State :=
  { State.start with blocks := { State.start.blocks with
      pool := (takeNodes mcAllocateAllocMemblk 3 State.start.blocks.pool).2 } }

/-- Three blocks in one list. The one in the middle is unlinked, and linked to another list. -/
def moveMiddle : List GroupOp :=
  [.link 4176 8 .current, .link 4240 8 .current, .link 4304 8 .current, .unlink 4240 8 .current,
    .link 4240 8 .snapshot]

/-- A run that unlinks a block from the middle of a list and links it elsewhere. -/
theorem groupLists_wellFormed_relinked : GroupOp.linkedTo (8, .current) moveMiddle = [4304, 4176] ∧
    GroupOp.linkedTo (8, .snapshot) moveMiddle = [4240] ∧ ∃ t, GroupOp.run moveMiddle threeTaken =
      some t ∧ t.WellFormedLists fun k ↦ GroupOp.linkedTo k moveMiddle := by
  have hlive : ∀ n ∈ [4176, 4240, 4304], n ∈ threeTaken.blocks.pool.live allocMemblkSize := by
    decide +kernel
  refine ⟨by decide, by decide, groupLists_wellFormed (fun _ _ ↦ rfl)
    ⟨⟨by decide, by decide, hlive _ (by decide), fun k ↦ List.not_mem_nil⟩,
      ⟨by decide, by decide, hlive _ (by decide), fun k ↦ ?_⟩,
      ⟨by decide, by decide, hlive _ (by decide), fun k ↦ ?_⟩, ?_,
      ⟨by decide, by decide, hlive _ (by decide), fun k ↦ ?_⟩, trivial⟩⟩
  · simp only [GroupOp.apply, Function.update_apply]
    split_ifs <;> simp
  · simp only [GroupOp.apply, Function.update_apply]
    split_ifs <;> simp
  · show 4240 ∈ [4304, 4240, 4176]
    decide
  · -- unlinked again, the block is in no list
    simp only [GroupOp.apply, Function.update_apply]
    split_ifs <;> simp

end State

end Memchk
