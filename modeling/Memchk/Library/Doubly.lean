import Memchk.Library.Linked

/-!
# Doubly linked lists

A list of nodes in a store, with links in both directions: `DoublyLinked next prev null back p l`
says that the nodes from `p` on are `l`, and that the one before `p` is `back`. A node can be added
in front and, wherever it is, taken out again without a search.

## Taking a node out

Code that takes a node out looks at its two neighbours: the one in front gets the link of the node,
or the head of the list does where there is none, and the one behind gets the link back.
`unlinkStart`, `unlinkForward` and `unlinkBackward` are the head and the links after this, and
`DoublyLinked.unlink` says that the rest is a list again. The links of nodes outside the list stay
as they were, which is what makes several lists in one store possible: the lists of other heads are
`DoublyLinked.congr`.
-/

variable {α : Type*} {next next' prev prev' : α → α} {null back p n : α} {l l₁ l₂ : List α}

/-- The nodes from `p` on are `l`, linked forwards by `next` and backwards by `prev`. -/
def DoublyLinked (next prev : α → α) (null : α) : α → α → List α → Prop
  | _, p, [] => p = null
  | back, p, x :: l => p = x ∧ x ≠ null ∧ prev x = back ∧ DoublyLinked next prev null x (next x) l

namespace DoublyLinked

/-- The links forward alone are those of a singly linked list. -/
theorem linked (h : DoublyLinked next prev null back p l) : Linked next null p l := by
  induction l generalizing back p with
  | nil => exact h
  | cons x l ih =>
    obtain ⟨rfl, hne, -, hrest⟩ := h
    exact ⟨rfl, hne, ih hrest⟩

/-- The list looks at the links of its own nodes only. -/
theorem congr (h : DoublyLinked next prev null back p l) (hnext : ∀ x ∈ l, next' x = next x)
    (hprev : ∀ x ∈ l, prev' x = prev x) : DoublyLinked next' prev' null back p l := by
  induction l generalizing back p with
  | nil => exact h
  | cons x l ih =>
    obtain ⟨rfl, hne, hback, hrest⟩ := h
    refine ⟨rfl, hne, (hprev p List.mem_cons_self).trans hback, ?_⟩
    rw [hnext p List.mem_cons_self]
    exact ih hrest (fun y hy ↦ hnext y (List.mem_cons_of_mem _ hy))
      fun y hy ↦ hprev y (List.mem_cons_of_mem _ hy)

/-- The node in the middle of a list. -/
theorem middle (h : DoublyLinked next prev null back p (l₁ ++ n :: l₂)) :
    n ≠ null ∧ prev n = l₁.getLastD back ∧ DoublyLinked next prev null n (next n) l₂ := by
  induction l₁ generalizing back p with
  | nil => exact h.2
  | cons x l₁ ih =>
    obtain ⟨rfl, -, -, hrest⟩ := h
    rw [List.getLastD_cons]
    exact ih hrest

/-- Where a list goes on behind the node in its middle. -/
theorem next_mem_or {a : α} (h : DoublyLinked next prev null back p (l₁ ++ a :: l₂)) :
    next a = null ∨ next a ∈ l₂ := by
  have hrest := h.middle.2.2
  cases l₂ with
  | nil => exact .inl hrest
  | cons y l₂ => exact .inr (hrest.1 ▸ List.mem_cons_self)

/-- What stands in front of the node in the middle of a list. -/
theorem prev_mem_or (h : DoublyLinked next prev null null p (l₁ ++ n :: l₂)) :
    prev n = null ∨ prev n ∈ l₁ := by
  rw [h.middle.2.1]
  rcases List.eq_nil_or_concat l₁ with rfl | ⟨k, a, rfl⟩
  · exact .inl rfl
  · exact .inr (by simp)

variable [DecidableEq α]

/-- Adding a node in front: its links, and the backward link of the node that was in front. -/
theorem push (h : DoublyLinked next prev null null p l) (hne : n ≠ null) (hn : n ∉ l) :
    DoublyLinked (Function.update next n p)
      (if p = null then Function.update prev n null
        else Function.update (Function.update prev n null) p n) null null n (n :: l) := by
  cases l with
  | nil =>
    obtain rfl : p = null := h
    rw [if_pos rfl]
    exact ⟨rfl, hne, Function.update_self _ _ _, Function.update_self _ _ _⟩
  | cons x l =>
    have hnodup := h.linked.nodup
    obtain ⟨rfl, hp, -, hrest⟩ := h
    have hnp : n ≠ p := fun heq ↦ hn (heq ▸ List.mem_cons_self)
    rw [if_neg hp]
    refine ⟨rfl, hne, ?_, ?_⟩
    · rw [Function.update_of_ne hnp, Function.update_self]
    · rw [Function.update_self]
      refine ⟨rfl, hp, Function.update_self _ _ _, ?_⟩
      rw [Function.update_of_ne hnp.symm]
      have hother : ∀ y ∈ l, y ≠ n ∧ y ≠ p := fun y hy ↦
        ⟨fun heq ↦ hn (heq ▸ List.mem_cons_of_mem _ hy),
          ne_of_mem_of_not_mem hy (List.nodup_cons.1 hnodup).1⟩
      refine hrest.congr (fun y hy ↦ Function.update_of_ne (hother y hy).1 _ _) fun y hy ↦ ?_
      rw [Function.update_of_ne (hother y hy).2, Function.update_of_ne (hother y hy).1]

/-- The head of the list after the node `n` has been taken out. -/
def unlinkStart (next prev : α → α) (null p n : α) : α :=
  if prev n = null then next n else p

/-- The forward links after the node `n` has been taken out. -/
def unlinkForward (next prev : α → α) (null n : α) : α → α :=
  if prev n = null then next else Function.update next (prev n) (next n)

/-- The backward links after the node `n` has been taken out. -/
def unlinkBackward (next prev : α → α) (null n : α) : α → α :=
  if next n = null then prev else Function.update prev (next n) (prev n)

/-- Taking a node out of a list leaves the links of nodes outside the list alone. -/
theorem unlinkForward_of_notMem {m : α} (h : DoublyLinked next prev null null p (l₁ ++ n :: l₂))
    (hm : m ∉ l₁ ++ n :: l₂) : unlinkForward next prev null n m = next m := by
  rw [unlinkForward]
  split_ifs with hnull
  · rfl
  · refine Function.update_of_ne ?_ _ _
    rintro rfl
    exact hm (List.mem_append_left _ (h.prev_mem_or.resolve_left hnull))

/-- The links back of nodes outside the list stay as they are too. -/
theorem unlinkBackward_of_notMem {m : α} (h : DoublyLinked next prev null null p (l₁ ++ n :: l₂))
    (hm : m ∉ l₁ ++ n :: l₂) : unlinkBackward next prev null n m = prev m := by
  rw [unlinkBackward]
  split_ifs with hnull
  · rfl
  · refine Function.update_of_ne ?_ _ _
    rintro rfl
    exact hm (List.mem_append_right _ (List.mem_cons_of_mem _ (h.next_mem_or.resolve_left hnull)))

/-- The list behind a node, once its first backward link has been set. -/
theorem rebase {q : α} (h : DoublyLinked next prev null back p l) :
    DoublyLinked next (if p = null then prev else Function.update prev p q) null q p l := by
  cases l with
  | nil => exact h
  | cons x l =>
    have hnodup := h.linked.nodup
    obtain ⟨rfl, hp, -, hrest⟩ := h
    rw [if_neg hp]
    refine ⟨rfl, hp, Function.update_self _ _ _, hrest.congr (fun _ _ ↦ rfl) fun y hy ↦ ?_⟩
    exact Function.update_of_ne (ne_of_mem_of_not_mem hy (List.nodup_cons.1 hnodup).1) _ _

/-- Taking out the node `n` behind the node `a`. -/
theorem unlinkAfter {a : α} (h : DoublyLinked next prev null back p (l₁ ++ a :: n :: l₂)) :
    DoublyLinked (Function.update next a (next n)) (unlinkBackward next prev null n) null back p
      (l₁ ++ a :: l₂) := by
  have hnodup := h.linked.nodup
  -- the backward links in front of `n` stay
  have hkeep : ∀ y, y ≠ null → y ∉ l₂ → unlinkBackward next prev null n y = prev y := by
    intro y hy hmem
    have hnext := @next_mem_or _ _ _ _ _ _ (l₁ ++ [a]) l₂ n (by simpa using h)
    rw [unlinkBackward]
    split_ifs with hnull
    · rfl
    · refine Function.update_of_ne ?_ _ _
      rintro rfl
      exact hmem (hnext.resolve_left hnull)
  induction l₁ generalizing back p with
  | nil =>
    obtain ⟨rfl, hp, hback, hn, hne, hprev, hrest⟩ := h
    obtain ⟨hpn, hn₂⟩ := List.nodup_cons.1 hnodup
    have hp₂ : p ∉ l₂ := fun hmem ↦ hpn (List.mem_cons_of_mem _ hmem)
    refine ⟨rfl, hp, (hkeep p hp hp₂).trans hback, ?_⟩
    rw [Function.update_self]
    have hrebase := hrest.rebase (q := p)
    rw [unlinkBackward, hprev]
    exact hrebase.congr (fun y hy ↦ Function.update_of_ne (ne_of_mem_of_not_mem hy hp₂) _ _)
      fun _ _ ↦ rfl
  | cons x l₁ ih =>
    obtain ⟨rfl, hp, hback, hrest⟩ := h
    obtain ⟨hx, hnodup'⟩ := List.nodup_cons.1 hnodup
    have hx₂ : p ∉ l₂ := fun hmem ↦ hx (by simp [hmem])
    have hxa : p ≠ a := fun heq ↦ hx (by simp [heq])
    refine ⟨rfl, hp, (hkeep p hp hx₂).trans hback, ?_⟩
    rw [Function.update_of_ne hxa]
    exact ih hrest hnodup'

/-- Taking out the node `n`. -/
theorem unlink (h : DoublyLinked next prev null null p (l₁ ++ n :: l₂)) :
    DoublyLinked (unlinkForward next prev null n) (unlinkBackward next prev null n) null null
      (unlinkStart next prev null p n) (l₁ ++ l₂) := by
  obtain ⟨hne, hprev, hrest⟩ := h.middle
  rcases List.eq_nil_or_concat l₁ with rfl | ⟨k, a, rfl⟩
  · rw [List.getLastD_nil] at hprev
    rw [unlinkForward, unlinkStart, if_pos hprev, if_pos hprev, unlinkBackward, hprev]
    exact hrest.rebase
  · rw [List.concat_eq_append] at h hprev ⊢
    rw [List.append_assoc, List.singleton_append] at h
    obtain rfl : prev n = a := by simpa using hprev
    have ha : prev n ≠ null := h.middle.1
    rw [unlinkForward, unlinkStart, if_neg ha, if_neg ha, List.append_assoc, List.singleton_append]
    exact h.unlinkAfter

end DoublyLinked
