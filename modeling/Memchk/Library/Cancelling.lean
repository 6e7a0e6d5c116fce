import Mathlib.Algebra.BigOperators.Group.List.Basic
import Mathlib.Data.List.Count
import Mathlib.Data.List.Nodup
import Mathlib.Data.List.Perm.Basic
import Mathlib.Tactic

/-!
# Cancelling two lists against each other

The elements of a list `A` are gone through one after the other. One that has a partner with the
same `key` among what is left of a list `B` is cancelled against such a partner, and one without is
kept. Whatever the order of the elements and the choice of the partners, what is kept of the two
lists in the end is their difference as multisets of keys: of a key with multiplicity `m` in `A` and
`n` in `B`, `m - n` elements are kept of `A` and `n - m` of `B` (`Cancelling.count_left` and
`Cancelling.count_right`, with subtraction in the natural numbers).

## The state of the loop

`Cancelling key A B M kept rest S` says where such a loop stands: the pairs `M` are cancelled, the
elements `kept` of `A` are kept, `rest` is still to come, and `S` is left of `B`. `Cancelling.init`,
`Cancelling.keep` and `Cancelling.cancel` are the start and the two steps; at the end `rest` is
empty, and all that is said about the outcome follows from that.

## Which elements are kept

This does depend on the choice. If the partner with the same `tag` has precedence (`Preferring`),
then nothing that is kept of `B` has a partner with its tag in `A`. Of `A` an element may be kept
though it has such a partner, as an earlier one may have taken it, but then some element with the
same key has none (`Cancelling.exists_unpaired`). For a key with no such element, exactly those of
`B` are kept that have no partner with their tag (`Cancelling.mem_of_unpaired`).

If every element takes a partner as long as there is one, then of each key the first elements of `A`
are cancelled, as many as `B` has, and the later ones are kept (`FirstCome`). So whether a given
element is kept can be told from the order (`FirstCome.mem_kept_iff`).

## The difference of two lists

`Excess` is what comes out for the lists of keys, or for parts of them: a common part and two rests
that share nothing. The rests are then the two differences as multisets.
-/

variable {α κ τ : Type*}

/-- Of `A`, the elements `kept` were kept and `rest` is still to come; of `B`, the elements `S` are
left; and the pairs `M` were cancelled. -/
structure Cancelling (key : α → κ) (A B : List α) (M : List (α × α)) (kept rest S : List α) :
    Prop where
  left : A.Perm (M.map Prod.fst ++ (kept ++ rest))
  right : B.Perm (M.map Prod.snd ++ S)
  matched : ∀ p ∈ M, key p.1 = key p.2
  apart : ∀ a ∈ kept, ∀ b ∈ S, key a ≠ key b

/-- No element that has been gone through has the key and the tag of one that is left of `B`. -/
def Preferring (key : α → κ) (tag : α → τ) (A rest S : List α) : Prop :=
  ∀ a ∈ A, a ∉ rest → ∀ b ∈ S, key a = key b → tag a ≠ tag b

namespace Preferring

variable {key : α → κ} {tag : α → τ} {A rest S S' : List α} {a : α}

theorem init (hA : A ⊆ rest) : Preferring key tag A rest S :=
  fun _ ha hnot ↦ absurd (hA ha) hnot

/-- The next element has been gone through. -/
theorem step (h : Preferring key tag A (a :: rest) S) (hsub : S' ⊆ S)
    (hnone : ∀ b ∈ S', key a = key b → tag a ≠ tag b) : Preferring key tag A rest S' := by
  intro c hc hnot b hb hkey
  rcases eq_or_ne c a with rfl | hne
  · exact hnone b hb hkey
  · exact h c hc (fun hmem ↦ hnot ((List.mem_cons.1 hmem).resolve_left hne)) b (hsub hb) hkey

/-- The keys may be replaced by others that tell the same elements apart. -/
theorem congr_key {κ' : Type*} {key' : α → κ'} (h : Preferring key tag A rest S)
    (hiff : ∀ a ∈ A, ∀ b ∈ S, key a = key b ↔ key' a = key' b) : Preferring key' tag A rest S :=
  fun a ha hnot b hb heq ↦ h a ha hnot b hb ((hiff a ha b hb).2 heq)

/-- In the end, nothing that is left has the key and the tag of an element of `A`. -/
theorem map {β : Type*} {f : β → α} {A S : List β} {A' S' : List α}
    (h : Preferring (key ∘ f) (tag ∘ f) A [] S) (hA : A' ⊆ A.map f) (hS : S' ⊆ S.map f) :
    Preferring key tag A' [] S' := by
  intro a ha _ b hb
  obtain ⟨c, hc, rfl⟩ := List.mem_map.1 (hA ha)
  obtain ⟨d, hd, rfl⟩ := List.mem_map.1 (hS hb)
  exact h c hc List.not_mem_nil d hd

end Preferring

namespace Cancelling

variable {key : α → κ} {A B : List α} {M : List (α × α)} {kept rest S : List α} {a b : α}

theorem init (hA : A.Perm rest) : Cancelling key A B [] [] rest B :=
  ⟨hA, List.Perm.refl _, by simp, by simp⟩

/-- An element without a partner is kept. -/
theorem keep (h : Cancelling key A B M kept (a :: rest) S) (hnone : ∀ b ∈ S, key a ≠ key b) :
    Cancelling key A B M (kept ++ [a]) rest S where
  left := by
    rw [List.append_assoc, List.singleton_append]
    exact h.left
  right := h.right
  matched := h.matched
  apart c hc b hb := by
    rcases List.mem_append.1 hc with hc | hc
    · exact h.apart c hc b hb
    · exact List.mem_singleton.1 hc ▸ hnone b hb

/-- An element is cancelled against a partner. -/
theorem cancel [DecidableEq α] (h : Cancelling key A B M kept (a :: rest) S) (hb : b ∈ S)
    (hkey : key a = key b) :
    Cancelling key A B (M ++ [(a, b)]) kept rest (S.erase b) where
  left := by
    refine h.left.trans ?_
    rw [List.map_append, List.append_assoc]
    exact List.Perm.append_left _ List.perm_middle
  right := by
    refine h.right.trans ?_
    rw [List.map_append, List.append_assoc]
    exact List.Perm.append_left _ (List.perm_cons_erase hb)
  matched p hp := by
    rcases List.mem_append.1 hp with hp | hp
    · exact h.matched p hp
    · exact List.mem_singleton.1 hp ▸ hkey
  apart c hc d hd := h.apart c hc d (List.mem_of_mem_erase hd)

/-- The elements of both lists, those that were cancelled first. -/
theorem perm_append (h : Cancelling key A B M kept rest S) :
    (A ++ B).Perm ((M.flatMap fun p ↦ [p.2, p.1]) ++ (kept ++ rest ++ S)) := by
  have hM : ∀ M : List (α × α),
      (M.map Prod.fst ++ M.map Prod.snd).Perm (M.flatMap fun p ↦ [p.2, p.1]) := by
    intro M
    induction M with
    | nil => exact List.Perm.refl _
    | cons p M ih =>
      rw [List.map_cons, List.map_cons, List.flatMap_cons]
      calc p.1 :: M.map Prod.fst ++ p.2 :: M.map Prod.snd
          |>.Perm (p.2 :: (p.1 :: M.map Prod.fst ++ M.map Prod.snd)) := List.perm_middle
        _ |>.Perm (p.2 :: p.1 :: M.flatMap fun p ↦ [p.2, p.1]) := (ih.cons _).cons _
  calc A ++ B
      |>.Perm (M.map Prod.fst ++ (kept ++ rest) ++ (M.map Prod.snd ++ S)) := h.left.append h.right
    _ |>.Perm (M.map Prod.fst ++ M.map Prod.snd ++ (kept ++ rest ++ S)) := by
        rw [List.append_assoc, List.append_assoc (M.map Prod.fst)]
        exact List.Perm.append_left _ (List.perm_append_comm_assoc _ _ _)
    _ |>.Perm ((M.flatMap fun p ↦ [p.2, p.1]) ++ (kept ++ rest ++ S)) := (hM M).append_right _

/-- The keys may be replaced by others that tell the same elements apart. -/
theorem congr_key {κ' : Type*} {key' : α → κ'} (h : Cancelling key A B M kept rest S)
    (hiff : ∀ a ∈ A, ∀ b ∈ B, key a = key b ↔ key' a = key' b) :
    Cancelling key' A B M kept rest S where
  left := h.left
  right := h.right
  matched p hp := by
    refine (hiff p.1 (h.left.symm.subset ?_) p.2 (h.right.symm.subset ?_)).1 (h.matched p hp)
    · exact List.mem_append_left _ (List.mem_map_of_mem hp)
    · exact List.mem_append_left _ (List.mem_map_of_mem hp)
  apart a ha b hb heq := by
    refine h.apart a ha b hb ((hiff a (h.left.symm.subset ?_) b (h.right.symm.subset ?_)).2 heq)
    · exact List.mem_append_right _ (List.mem_append_left _ ha)
    · exact List.mem_append_right _ hb

/-- The elements may be replaced by what the keys depend on, and the lists by others with the same
elements. -/
theorem map {β : Type*} {f : β → α} {A B kept S : List β} {M : List (β × β)}
    {A' B' kept' S' : List α} (h : Cancelling (key ∘ f) A B M kept [] S)
    (hA : A'.Perm (A.map f)) (hB : B'.Perm (B.map f)) (hkept : kept'.Perm (kept.map f))
    (hS : S'.Perm (S.map f)) : Cancelling key A' B' (M.map (Prod.map f f)) kept' [] S' where
  left := by
    have hleft := h.left.map f
    rw [List.append_nil, List.map_append, List.map_map] at hleft
    rw [List.append_nil, List.map_map]
    exact hA.trans (hleft.trans (List.Perm.append_left _ hkept.symm))
  right := by
    have hright := h.right.map f
    rw [List.map_append, List.map_map] at hright
    rw [List.map_map]
    exact hB.trans (hright.trans (List.Perm.append_left _ hS.symm))
  matched p hp := by
    obtain ⟨q, hq, rfl⟩ := List.mem_map.1 hp
    exact h.matched q hq
  apart a ha b hb := by
    obtain ⟨c, hc, rfl⟩ := List.mem_map.1 (hkept.subset ha)
    obtain ⟨d, hd, rfl⟩ := List.mem_map.1 (hS.subset hb)
    exact h.apart c hc d hd

/-- The keys that were cancelled, and what is kept besides. -/
theorem exists_common (h : Cancelling key A B M kept [] S) :
    ∃ l, (A.map key).Perm (l ++ kept.map key) ∧ (B.map key).Perm (l ++ S.map key) := by
  have hmap : (M.map Prod.fst).map key = (M.map Prod.snd).map key := by
    rw [List.map_map, List.map_map]
    exact List.map_congr_left h.matched
  refine ⟨(M.map Prod.fst).map key, ?_, ?_⟩
  · have hleft := h.left.map key
    rwa [List.map_append, List.append_nil] at hleft
  · have hright := h.right.map key
    rwa [List.map_append, ← hmap] at hright

section Count

variable [BEq κ]

/-- The pairs account for the same number of elements of a key on both sides. -/
theorem count_add (h : Cancelling key A B M kept [] S) (k : κ) :
    ∃ m, (A.map key).count k = m + (kept.map key).count k ∧
      (B.map key).count k = m + (S.map key).count k := by
  obtain ⟨l, hA, hB⟩ := h.exists_common
  exact ⟨l.count k, by rw [hA.count_eq, List.count_append], by rw [hB.count_eq, List.count_append]⟩

variable [LawfulBEq κ]

/-- Of no key are elements kept on both sides. -/
theorem count_eq_zero (h : Cancelling key A B M kept [] S) (k : κ) :
    (kept.map key).count k = 0 ∨ (S.map key).count k = 0 := by
  by_contra hboth
  rw [not_or, List.count_eq_zero, List.count_eq_zero, not_not, not_not] at hboth
  obtain ⟨a, ha, hak⟩ := List.mem_map.1 hboth.1
  obtain ⟨b, hb, hbk⟩ := List.mem_map.1 hboth.2
  exact h.apart a ha b hb (hak.trans hbk.symm)

/-- What is kept of `A`. -/
theorem count_left (h : Cancelling key A B M kept [] S) (k : κ) :
    (kept.map key).count k = (A.map key).count k - (B.map key).count k := by
  obtain ⟨m, hA, hB⟩ := h.count_add k
  have := h.count_eq_zero k
  omega

/-- What is kept of `B`. -/
theorem count_right (h : Cancelling key A B M kept [] S) (k : κ) :
    (S.map key).count k = (B.map key).count k - (A.map key).count k := by
  obtain ⟨m, hA, hB⟩ := h.count_add k
  have := h.count_eq_zero k
  omega

/-- Nothing is kept exactly if both lists have the same keys. -/
theorem nil_iff (h : Cancelling key A B M kept [] S) :
    kept = [] ∧ S = [] ↔ (A.map key).Perm (B.map key) := by
  rw [List.perm_iff_count]
  constructor
  · rintro ⟨rfl, rfl⟩ k
    obtain ⟨m, hA, hB⟩ := h.count_add k
    rw [hA, hB]
  · intro heq
    have hnil : ∀ l : List α, (∀ k, (l.map key).count k = 0) → l = [] := by
      intro l hl
      cases l with
      | nil => rfl
      | cons a l => exact absurd (hl (key a)) (by simp)
    exact ⟨hnil kept fun k ↦ by rw [h.count_left, heq k, Nat.sub_self],
      hnil S fun k ↦ by rw [h.count_right, heq k, Nat.sub_self]⟩

end Count

section Tags

variable [DecidableEq κ] {tag : α → τ}

theorem count_map_eq [BEq κ] [LawfulBEq κ] (key : α → κ) (tag : α → τ) (l : List α) (k : κ) :
    (l.map key).count k = ((l.filter fun c ↦ key c = k).map tag).length := by
  rw [List.length_map, List.count_eq_countP, List.countP_map, List.countP_eq_length_filter]
  exact congrArg _ (List.filter_congr fun c _ ↦ beq_eq_decide _ _)

/-- Where tags are unique, those of the elements of a key are different. -/
theorem nodup_tags {l : List α} (hl : l.Nodup) (htag : ∀ a ∈ l, ∀ b ∈ l, tag a = tag b → a = b)
    (k : κ) : ((l.filter fun c ↦ key c = k).map tag).Nodup :=
  (hl.filter _).map_on fun c hc d hd heq ↦
    htag c (List.mem_of_mem_filter hc) d (List.mem_of_mem_filter hd) heq

/-- The tags of the elements of a key that all have a partner. -/
theorem tags_subset {l l' : List α} {k : κ}
    (hall : ∀ c ∈ l, key c = k → ∃ b ∈ l', key b = k ∧ tag c = tag b) :
    ((l.filter fun c ↦ key c = k).map tag) ⊆ ((l'.filter fun c ↦ key c = k).map tag) := by
  intro t ht
  obtain ⟨c, hc, rfl⟩ := List.mem_map.1 ht
  obtain ⟨hmem, hkey⟩ := List.mem_filter.1 hc
  obtain ⟨b, hb, hkey', heq⟩ := hall c hmem (of_decide_eq_true hkey)
  exact List.mem_map.2 ⟨b, List.mem_filter.2 ⟨hb, decide_eq_true hkey'⟩, heq.symm⟩

/-- If an element of `A` is kept, then one with the same key has no partner with its tag. -/
theorem exists_unpaired (h : Cancelling key A B M kept [] S) (hA : A.Nodup)
    (htag : ∀ a ∈ A, ∀ b ∈ A, tag a = tag b → a = b) (ha : a ∈ kept) :
    ∃ c ∈ A, key c = key a ∧ ∀ b ∈ B, key b = key a → tag c ≠ tag b := by
  by_contra hall
  push Not at hall
  have hle := (nodup_tags hA htag (key a)).length_le_of_subset (tags_subset hall)
  have hpos : 0 < (kept.map key).count (key a) := List.count_pos_iff.2 (List.mem_map_of_mem ha)
  have hleft := h.count_left (key a)
  rw [← count_map_eq, ← count_map_eq] at hle
  omega

/-- Where all elements of `A` with a key have partners with their tags, the elements of `B` with
this key that have none are left. -/
theorem mem_of_unpaired (h : Cancelling key A B M kept [] S) (hpref : Preferring key tag A [] S)
    (hA : A.Nodup) (htag : ∀ a ∈ A, ∀ b ∈ A, tag a = tag b → a = b)
    (hB : B.Nodup) (htag' : ∀ a ∈ B, ∀ b ∈ B, tag a = tag b → a = b)
    (hall : ∀ a ∈ A, key a = key b → ∃ c ∈ B, key c = key b ∧ tag a = tag c) (hb : b ∈ B)
    (hnone : ∀ a ∈ A, key a = key b → tag a ≠ tag b) : b ∈ S := by
  have hsub : S ⊆ B := fun c hc ↦ h.right.symm.subset (List.mem_append_right _ hc)
  have hS : S.Nodup := (List.nodup_append.1 (h.right.nodup_iff.1 hB)).2.1
  have htagS : ∀ c ∈ S, ∀ d ∈ S, tag c = tag d → c = d := fun c hc d hd ↦
    htag' c (hsub hc) d (hsub hd)
  by_contra hnot
  -- the tags of `b`, of what is left, and of the elements of `A` are different, and all are in `B`
  let tags (l : List α) : List τ := (l.filter fun c ↦ key c = key b).map tag
  have hmem : ∀ {l : List α} {t : τ}, t ∈ tags l ↔ ∃ c ∈ l, key c = key b ∧ tag c = t := by
    intro l t
    simp only [tags, List.mem_map, List.mem_filter, decide_eq_true_eq, and_assoc]
  have hnodup : (tag b :: (tags S ++ tags A)).Nodup := by
    rw [List.nodup_cons, List.nodup_append, List.mem_append, not_or, hmem, hmem]
    refine ⟨⟨?_, ?_⟩, nodup_tags hS htagS _, nodup_tags hA htag _, ?_⟩
    · rintro ⟨c, hc, -, heq⟩
      exact hnot (htag' c (hsub hc) b hb heq ▸ hc)
    · rintro ⟨a, ha, hkey, heq⟩
      exact hnone a ha hkey heq
    · rintro t ht u hu rfl
      obtain ⟨c, hc, hkey, rfl⟩ := hmem.1 ht
      obtain ⟨a, ha, hkey', heq⟩ := hmem.1 hu
      exact hpref a ha List.not_mem_nil c hc (hkey'.trans hkey.symm) heq
  have htags : tag b :: (tags S ++ tags A) ⊆ tags B := by
    rw [List.cons_subset, List.append_subset]
    exact ⟨hmem.2 ⟨b, hb, rfl, rfl⟩, tags_subset fun c hc hkey ↦ ⟨c, hsub hc, hkey, rfl⟩,
      tags_subset hall⟩
  have hle := hnodup.length_le_of_subset htags
  have hright := h.count_right (key b)
  rw [List.length_cons, List.length_append, ← count_map_eq, ← count_map_eq, ← count_map_eq] at hle
  omega

end Tags

end Cancelling

section Order

variable [DecidableEq κ] {key : α → κ} {A B : List α} {M : List (α × α)}
  {kept done rest S : List α} {a b x : α}

/-- Of every key, those elements of `done` were kept that came when as many others had been gone
through as `B` has. -/
def FirstCome (key : α → κ) (A B kept done : List α) : Prop :=
  ∀ c ∈ A, kept.filter (fun a ↦ key a = key c) =
    (done.filter fun a ↦ key a = key c).drop (B.filter fun a ↦ key a = key c).length

/-- How many elements of a key have been gone through, and how many of `B` are left. -/
theorem Cancelling.length_filter (h : Cancelling key A B M kept rest S)
    (hdone : A.Perm (done ++ rest)) (k : κ) :
    ∃ m, (done.filter fun a ↦ key a = k).length = m + (kept.filter fun a ↦ key a = k).length ∧
      (B.filter fun a ↦ key a = k).length = m + (S.filter fun a ↦ key a = k).length := by
  have hleft : done.Perm (M.map Prod.fst ++ kept) := by
    have hperm := hdone.symm.trans h.left
    rw [← List.append_assoc] at hperm
    exact (List.perm_append_right_iff rest).1 hperm
  have hmatched : ((M.map Prod.fst).filter fun a ↦ key a = k).length =
      ((M.map Prod.snd).filter fun a ↦ key a = k).length := by
    rw [List.filter_map, List.filter_map, List.length_map, List.length_map]
    refine congrArg List.length (List.filter_congr fun p hp ↦ ?_)
    simp only [Function.comp_apply, h.matched p hp]
  refine ⟨((M.map Prod.snd).filter fun a ↦ key a = k).length, ?_, ?_⟩
  · rw [(hleft.filter _).length_eq, List.filter_append, List.length_append, hmatched]
  · rw [(h.right.filter _).length_eq, List.filter_append, List.length_append]

/-- An element that occurs once is met among the last ones exactly if enough come before it. -/
theorem mem_drop_iff_of_nodup {l₁ l₂ : List α} (hnodup : (l₁ ++ x :: l₂).Nodup) (m : ℕ) :
    x ∈ (l₁ ++ x :: l₂).drop m ↔ m ≤ l₁.length := by
  constructor
  · intro hmem
    by_contra hlt
    rw [List.drop_append, List.drop_eq_nil_of_le (by omega), List.nil_append,
      ← Nat.succ_pred_eq_of_pos (by omega : 0 < m - l₁.length), List.drop_succ_cons] at hmem
    exact (List.nodup_cons.1 (List.nodup_append.1 hnodup).2.1).1 (List.mem_of_mem_drop hmem)
  · intro hle
    rw [List.drop_append_of_le_length hle]
    exact List.mem_append_right _ List.mem_cons_self

namespace FirstCome

theorem init : FirstCome key A B [] [] :=
  fun _ _ ↦ by simp

/-- The next element has no partner. -/
theorem keep (h : FirstCome key A B kept done) (hc : Cancelling key A B M kept (a :: rest) S)
    (hdone : A.Perm (done ++ a :: rest)) (hnone : ∀ b ∈ S, key a ≠ key b) :
    FirstCome key A B (kept ++ [a]) (done ++ [a]) := by
  intro c hcA
  rw [List.filter_append, List.filter_append, h c hcA]
  by_cases hkey : key a = key c
  · obtain ⟨m, hlen, hlen'⟩ := hc.length_filter hdone (key c)
    have hS : (S.filter fun a ↦ key a = key c) = [] :=
      List.filter_eq_nil_iff.2 fun b hb heq ↦ hnone b hb (hkey.trans (of_decide_eq_true heq).symm)
    rw [hS, List.length_nil] at hlen'
    rw [List.drop_append_of_le_length (by omega)]
  · have hnil : ([a].filter fun a ↦ key a = key c) = [] := by simp [hkey]
    rw [hnil, List.append_nil, List.append_nil]

/-- The next element has a partner. -/
theorem cancel (h : FirstCome key A B kept done) (hc : Cancelling key A B M kept (a :: rest) S)
    (hdone : A.Perm (done ++ a :: rest)) (hb : b ∈ S) (hkey : key a = key b) :
    FirstCome key A B kept (done ++ [a]) := by
  intro c hcA
  rw [List.filter_append]
  by_cases hkey' : key a = key c
  · obtain ⟨m, hlen, hlen'⟩ := hc.length_filter hdone (key c)
    have hkept : (kept.filter fun a ↦ key a = key c) = [] := List.filter_eq_nil_iff.2
      fun d hd heq ↦ hc.apart d hd b hb ((of_decide_eq_true heq).trans (hkey'.symm.trans hkey))
    have hpos : 0 < (S.filter fun a ↦ key a = key c).length :=
      List.length_pos_of_mem (List.mem_filter.2 ⟨hb, decide_eq_true (hkey.symm.trans hkey')⟩)
    have hone : ([a].filter fun a ↦ key a = key c).length = 1 := by simp [hkey']
    rw [hkept, List.length_nil] at hlen
    rw [hkept, List.drop_eq_nil_of_le]
    rw [List.length_append]
    omega
  · have hnil : ([a].filter fun a ↦ key a = key c) = [] := by simp [hkey']
    rw [hnil, List.append_nil, h c hcA]

/-- The keys may be replaced by others that tell the same elements apart. -/
theorem congr_key {κ' : Type*} [DecidableEq κ'] {key' : α → κ'} (h : FirstCome key A B kept done)
    (hiff : ∀ a, a ∈ A ∨ a ∈ B → ∀ c ∈ A, key a = key c ↔ key' a = key' c) (hkept : kept ⊆ A)
    (hdone : done ⊆ A) : FirstCome key' A B kept done := by
  intro c hc
  have hfilter : ∀ l : List α, (∀ a ∈ l, a ∈ A ∨ a ∈ B) →
      (l.filter fun a ↦ key' a = key' c) = l.filter fun a ↦ key a = key c := fun l hl ↦
    List.filter_congr fun a ha ↦ decide_eq_decide.2 (hiff a (hl a ha) c hc).symm
  rw [hfilter kept fun a ha ↦ .inl (hkept ha), hfilter done fun a ha ↦ .inl (hdone ha),
    hfilter B fun a ha ↦ .inr ha]
  exact h c hc

/-- The elements may be replaced by what the keys depend on. -/
theorem map {β : Type*} {f : β → α} {A B kept done : List β} {A' B' : List α}
    (h : FirstCome (key ∘ f) A B kept done) (hA : A' ⊆ A.map f) (hB : B'.Perm (B.map f)) :
    FirstCome key A' B' (kept.map f) (done.map f) := by
  intro c hc
  obtain ⟨d, hd, rfl⟩ := List.mem_map.1 (hA hc)
  have hlen : (B'.filter fun a ↦ key a = key (f d)).length =
      (B.filter fun a ↦ (key ∘ f) a = (key ∘ f) d).length := by
    rw [(hB.filter _).length_eq, List.filter_map, List.length_map]
    rfl
  rw [List.filter_map, List.filter_map, hlen, ← List.map_drop]
  exact congrArg (List.map f) (h d hd)

/-- An element is kept exactly if as many with its key come before it as `B` has. -/
theorem mem_kept_iff [BEq κ] [LawfulBEq κ] {pre post : List α}
    (h : FirstCome key A B kept (pre ++ x :: post)) (hx : x ∈ A)
    (hnodup : (pre ++ x :: post).Nodup) :
    x ∈ kept ↔ (B.map key).count (key x) ≤ (pre.map key).count (key x) := by
  rw [Cancelling.count_map_eq key id, Cancelling.count_map_eq key id, List.map_id, List.map_id]
  have hsplit : (pre ++ x :: post).filter (fun a ↦ key a = key x) =
      (pre.filter fun a ↦ key a = key x) ++ x :: post.filter fun a ↦ key a = key x := by
    rw [List.filter_append]
    exact congrArg _ (List.filter_cons_of_pos (by simp))
  have hmem : x ∈ kept ↔ x ∈ kept.filter fun a ↦ key a = key x := by simp
  have hfilter := hnodup.filter fun a ↦ decide (key a = key x)
  rw [hsplit] at hfilter
  rw [hmem, h x hx, hsplit, mem_drop_iff_of_nodup hfilter]

end FirstCome

end Order

/-- Up to a common part, one list is `left` and the other is `right`, which share nothing. -/
structure Excess (A B common left right : List κ) : Prop where
  perm_left : A.Perm (common ++ left)
  perm_right : B.Perm (common ++ right)
  apart : ∀ a ∈ left, a ∉ right

namespace Excess

variable {A B common left right : List κ}

/-- The lists are the same exactly if neither has more than the common part. -/
theorem perm_iff (h : Excess A B common left right) : A.Perm B ↔ left = [] ∧ right = [] := by
  constructor
  · intro hperm
    have hrest := (List.perm_append_left_iff common).1
      (h.perm_left.symm.trans (hperm.trans h.perm_right))
    have hnil : left = [] := List.eq_nil_iff_forall_not_mem.2 fun a ha ↦
      h.apart a ha (hrest.subset ha)
    rw [hnil] at hrest
    exact ⟨hnil, hrest.symm.eq_nil⟩
  · rintro ⟨rfl, rfl⟩
    exact h.perm_left.trans h.perm_right.symm

/-- What one list has more of an element than the other. -/
theorem count_eq [BEq κ] [LawfulBEq κ] (h : Excess A B common left right) (a : κ) :
    left.count a = A.count a - B.count a ∧ right.count a = B.count a - A.count a := by
  have hzero : left.count a = 0 ∨ right.count a = 0 := by
    by_cases hmem : a ∈ left
    · exact .inr (List.count_eq_zero.2 (h.apart a hmem))
    · exact .inl (List.count_eq_zero.2 hmem)
  rw [h.perm_left.count_eq, h.perm_right.count_eq, List.count_append, List.count_append]
  omega

/-- The sums of the lists differ by what is not common. -/
theorem sum_sub_sum {A B common left right : List ℕ} (h : Excess A B common left right) :
    (A.sum : ℤ) - B.sum = left.sum - right.sum := by
  rw [h.perm_left.sum_eq, h.perm_right.sum_eq, List.sum_append, List.sum_append]
  push_cast
  omega

end Excess
