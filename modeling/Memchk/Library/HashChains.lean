import Memchk.Library.Linked
import Memchk.Library.Outcome
import Mathlib.Data.List.Perm.Basic
import Mathlib.Order.Basic

/-!
# Tables of chains

A hash table with separate chaining: an array of chain heads, indexed by `ι`, over nodes of type `α`
linked by `next`. `Buckets next null hash head is L` says that for every index `i` of the table
(`is` lists them in the order a traversal takes) the chain at `head i` is `L i` and holds only nodes
whose hash is `i`. `HashChains … ns` forgets the buckets: the table's nodes are `ns`, up to order.

## Operations

The three operations of such a table are `Buckets.push`, `Buckets.erase` and the search in one
bucket; each says what happens to the nodes as a whole. Links are updated in the store of all nodes,
so that what is in no chain of the table is of no concern (`Buckets.congr`): a node may belong to
another table over the same store.

## Traversal

The traversal is two loops, over the indices and along each chain, with a bound on the rounds of the
inner one: a chain that does not end is no value. `forEachM_outcome` is the rule of the nested loop
whose body may itself change the table, as long as it unlinks nothing but the node it is called on.
Its invariant is about the nodes that are still to come, and `Ahead` is what the body must leave
alone: the rest of the chain behind the node, and the heads of the other chains.
`forEachM_invariant` is the weaker rule for what holds whatever the links are, and `forEachNode_eq`
the list of the nodes in the order of the loops.

The order depends on how the table came about. If nodes were only ever added (`StackedChains`), the
traversal comes to the buckets in the order of their indices, and in a bucket to the node first that
was added last (`stackedOrder`).
-/

variable {ι α : Type*}

/-- Every bucket of the table is a chain, and a node lies in the bucket its hash names. -/
structure Buckets (next : α → α) (null : α) (hash : α → ι) (head : ι → α) (is : List ι)
    (L : ι → List α) : Prop where
  /-- The bucket at `i` is the chain `L i`. -/
  linked : ∀ i ∈ is, Linked next null (head i) (L i)
  /-- The nodes of the bucket at `i` have hash `i`. -/
  hash_eq : ∀ i ∈ is, ∀ x ∈ L i, hash x = i

/-- The nodes of the table are `ns`, in some order. -/
def HashChains (next : α → α) (null : α) (hash : α → ι) (head : ι → α) (is : List ι)
    (ns : List α) : Prop :=
  ∃ L, Buckets next null hash head is L ∧ ns.Perm (is.flatMap L)

/-- The links after `x` was unlinked from behind `prev`, or from the front if `prev` is null. -/
def unlinkNext [DecidableEq α] (next : α → α) (null prev x : α) : α → α :=
  if prev = null then next else Function.update next prev (next x)

/-- The heads after `x` was unlinked in the bucket `i`. -/
def unlinkHead [DecidableEq α] [DecidableEq ι] (next : α → α) (null : α) (head : ι → α) (i : ι)
    (prev x : α) : ι → α :=
  if prev = null then Function.update head i (next x) else head

namespace Buckets

variable {next next' : α → α} {null : α} {hash hash' : α → ι} {head head' : ι → α}
  {is : List ι} {L : ι → List α}

/-- A node of the table is in the bucket of its hash. -/
theorem mem_bucket_of_mem (h : Buckets next null hash head is L) {x : α}
    (hx : x ∈ is.flatMap L) : hash x ∈ is ∧ x ∈ L (hash x) := by
  obtain ⟨i, hi, hxi⟩ := List.mem_flatMap.1 hx
  rw [h.hash_eq i hi x hxi]
  exact ⟨hi, hxi⟩

/-- No node occurs twice, in one chain or in two. -/
theorem nodup (h : Buckets next null hash head is L) (his : is.Nodup) :
    (is.flatMap L).Nodup := by
  refine List.nodup_flatMap.2 ⟨fun i hi ↦ (h.linked i hi).nodup, ?_⟩
  refine List.Pairwise.imp_of_mem (fun {i j} hi hj hne ↦ ?_) his
  intro x hxi hxj
  exact hne ((h.hash_eq i hi x hxi).symm.trans (h.hash_eq j hj x hxj))

theorem ne_null_of_mem (h : Buckets next null hash head is L) {x : α}
    (hx : x ∈ is.flatMap L) : x ≠ null := by
  obtain ⟨i, hi, hxi⟩ := List.mem_flatMap.1 hx
  exact (h.linked i hi).ne_null_of_mem hxi

/-- Only the links and hashes of the table's own nodes matter. -/
theorem congr (h : Buckets next null hash head is L)
    (hnext : ∀ x ∈ is.flatMap L, next' x = next x)
    (hhash : ∀ x ∈ is.flatMap L, hash' x = hash x) (hhead : ∀ i ∈ is, head' i = head i) :
    Buckets next' null hash' head' is L where
  linked i hi := by
    rw [hhead i hi]
    exact (h.linked i hi).congr fun x hx ↦ hnext x (List.mem_flatMap.2 ⟨i, hi, hx⟩)
  hash_eq i hi x hx := by
    rw [hhash x (List.mem_flatMap.2 ⟨i, hi, hx⟩)]
    exact h.hash_eq i hi x hx

variable [DecidableEq ι]

/-- Putting one more node in front of a bucket adds exactly that node. -/
theorem perm_flatMap_push (his : is.Nodup) {i : ι} (hi : i ∈ is) (x : α) :
    (is.flatMap (Function.update L i (x :: L i))).Perm (x :: is.flatMap L) := by
  obtain ⟨l₁, l₂, rfl⟩ := List.append_of_mem hi
  have hnot : ∀ j ∈ l₁ ++ l₂, j ≠ i := by
    intro j hj heq
    exact (List.nodup_middle.1 his).notMem (heq ▸ hj)
  have hagree : ∀ l : List ι, (∀ j ∈ l, j ≠ i) →
      l.flatMap (Function.update L i (x :: L i)) = l.flatMap L := fun l hl ↦
    List.flatMap_congr fun j hj ↦ Function.update_of_ne (hl j hj) _ _
  rw [List.flatMap_append, List.flatMap_cons, List.flatMap_append, List.flatMap_cons,
    hagree l₁ fun j hj ↦ hnot j (List.mem_append_left _ hj),
    hagree l₂ fun j hj ↦ hnot j (List.mem_append_right _ hj), Function.update_self]
  exact List.perm_middle

/-- The nodes of the table when one has left its bucket. -/
theorem perm_flatMap_erase {x : α} (his : is.Nodup) {i : ι} (hi : i ∈ is) {l₁ l₂ : List α}
    (hL : L i = l₁ ++ x :: l₂) :
    (is.flatMap L).Perm (x :: is.flatMap (Function.update L i (l₁ ++ l₂))) := by
  obtain ⟨k₁, k₂, rfl⟩ := List.append_of_mem hi
  have hnot : ∀ j ∈ k₁ ++ k₂, j ≠ i := by
    intro j hj heq
    exact (List.nodup_middle.1 his).notMem (heq ▸ hj)
  have hagree : ∀ l : List ι, (∀ j ∈ l, j ≠ i) →
      l.flatMap (Function.update L i (l₁ ++ l₂)) = l.flatMap L := fun l hl ↦
    List.flatMap_congr fun j hj ↦ Function.update_of_ne (hl j hj) _ _
  rw [List.flatMap_append, List.flatMap_cons, List.flatMap_append, List.flatMap_cons,
    hagree k₁ fun j hj ↦ hnot j (List.mem_append_left _ hj),
    hagree k₂ fun j hj ↦ hnot j (List.mem_append_right _ hj), Function.update_self, hL]
  have hmid : (l₁ ++ x :: l₂).Perm (x :: (l₁ ++ l₂)) := List.perm_middle
  calc (k₁.flatMap L ++ (l₁ ++ x :: l₂ ++ k₂.flatMap L))
      |>.Perm (k₁.flatMap L ++ (x :: (l₁ ++ l₂) ++ k₂.flatMap L)) :=
        List.Perm.append_left _ (hmid.append_right _)
    _ |>.Perm (x :: (k₁.flatMap L ++ (l₁ ++ l₂ ++ k₂.flatMap L))) := List.perm_middle

variable [DecidableEq α]

/-- Adding a fresh node in front of the bucket of its hash. -/
theorem push (h : Buckets next null hash head is L) {x : α} (hnull : x ≠ null)
    (hx : x ∉ is.flatMap L) :
    Buckets (Function.update next x (head (hash x))) null hash
      (Function.update head (hash x) x) is
      (Function.update L (hash x) (x :: L (hash x))) where
  linked i hi := by
    have hxi : x ∉ L i := fun hmem ↦ hx (List.mem_flatMap.2 ⟨i, hi, hmem⟩)
    by_cases heq : i = hash x
    · subst heq
      rw [Function.update_self, Function.update_self]
      exact (h.linked _ hi).push hnull hxi
    · rw [Function.update_of_ne heq, Function.update_of_ne heq]
      exact (h.linked i hi).update_of_notMem hxi
  hash_eq i hi y hy := by
    by_cases heq : i = hash x
    · subst heq
      rw [Function.update_self] at hy
      rcases List.mem_cons.1 hy with rfl | hy
      · rfl
      · exact h.hash_eq _ hi y hy
    · rw [Function.update_of_ne heq] at hy
      exact h.hash_eq i hi y hy

/-- Unlinking a node of a bucket, given the node before it. -/
theorem erase (h : Buckets next null hash head is L) {x prev : α} {l₁ l₂ : List α}
    (hi : hash x ∈ is) (hL : L (hash x) = l₁ ++ x :: l₂) (hprev : prev = l₁.getLastD null) :
    Buckets (unlinkNext next null prev x) null hash (unlinkHead next null head (hash x) prev x) is
      (Function.update L (hash x) (l₁ ++ l₂)) := by
  have hchain := h.linked _ hi
  rw [hL] at hchain
  have hhash : ∀ j ∈ is, ∀ y ∈ Function.update L (hash x) (l₁ ++ l₂) j, hash y = j := by
    intro j hj y hy
    by_cases heq : j = hash x
    · subst heq
      rw [Function.update_self] at hy
      refine h.hash_eq _ hj y ?_
      rw [hL]
      simp only [List.mem_append, List.mem_cons] at hy ⊢
      tauto
    · rw [Function.update_of_ne heq] at hy
      exact h.hash_eq j hj y hy
  refine ⟨fun j hj ↦ ?_, hhash⟩
  rcases List.eq_nil_or_concat l₁ with rfl | ⟨k, a, rfl⟩
  · -- the first node of its bucket
    rw [List.getLastD_nil] at hprev
    rw [unlinkNext, unlinkHead, if_pos hprev, if_pos hprev]
    by_cases heq : j = hash x
    · subst heq
      rw [Function.update_self, Function.update_self]
      exact hchain.2.2
    · rw [Function.update_of_ne heq, Function.update_of_ne heq]
      exact h.linked j hj
  · rw [List.concat_eq_append] at hprev hchain hL ⊢
    obtain rfl : prev = a := by simpa using hprev
    have hne : prev ≠ null := hchain.ne_null_of_mem (by simp)
    have hmem : prev ∈ L (hash x) := by simp [hL]
    rw [unlinkNext, unlinkHead, if_neg hne, if_neg hne]
    by_cases heq : j = hash x
    · subst heq
      rw [Function.update_self]
      have hchain' : Linked next null (head (hash x)) (k ++ prev :: x :: l₂) := by
        simpa using hchain
      simpa using hchain'.unlink
    · rw [Function.update_of_ne heq]
      refine (h.linked j hj).update_of_notMem fun hmem' ↦ heq ?_
      exact (h.hash_eq j hj prev hmem').symm.trans (h.hash_eq _ hi prev hmem)

end Buckets

/-! ### Nodes added one after the other -/

section Stacked

variable [DecidableEq ι] {next next' : α → α} {null : α} {hash hash' : α → ι} {head head' : ι → α}
  {is : List ι} {L : ι → List α} {ns : List α}

/-- The table was built by adding the nodes `ns` in this order, each in front of its bucket. -/
def StackedChains (next : α → α) (null : α) (hash : α → ι) (head : ι → α) (is : List ι)
    (ns : List α) : Prop :=
  Buckets next null hash head is fun i ↦ ns.reverse.filter (hash · = i)

/-- The order in which a traversal of such a table comes to the nodes. -/
def stackedOrder (hash : α → ι) (is : List ι) (ns : List α) : List α :=
  is.flatMap fun i ↦ ns.reverse.filter (hash · = i)

/-- What the keys depend on has the same order. -/
theorem map_stackedOrder {β : Type*} {hash : β → ι} {f : α → β} :
    (stackedOrder (hash ∘ f) is ns).map f = stackedOrder hash is (ns.map f) := by
  rw [stackedOrder, stackedOrder, List.map_flatMap]
  refine List.flatMap_congr fun i _ ↦ ?_
  rw [← List.map_reverse, List.filter_map]
  rfl

/-- The traversal comes to all nodes whose hash is an index of the table. -/
theorem mem_stackedOrder {x : α} : x ∈ stackedOrder hash is ns ↔ x ∈ ns ∧ hash x ∈ is := by
  simp [stackedOrder, and_comm]

/-- The traversal comes to no node twice. -/
theorem nodup_stackedOrder (his : is.Nodup) (hns : ns.Nodup) : (stackedOrder hash is ns).Nodup := by
  refine List.nodup_flatMap.2 ⟨fun i _ ↦ (List.nodup_reverse.2 hns).filter _, ?_⟩
  refine his.imp fun hne x hx hy ↦ hne ?_
  exact (of_decide_eq_true (List.mem_filter.1 hx).2).symm.trans
    (of_decide_eq_true (List.mem_filter.1 hy).2)

/-- What comes later in the order is in a later bucket, or in the same. -/
theorem pairwise_stackedOrder [Preorder ι] (his : is.Pairwise (· < ·)) :
    (stackedOrder hash is ns).Pairwise fun x y ↦ hash x ≤ hash y := by
  have hhash : ∀ {i x}, (x ∈ ns.reverse.filter (hash · = i)) → hash x = i := fun hx ↦
    of_decide_eq_true (List.mem_filter.1 hx).2
  refine List.pairwise_flatMap.2 ⟨fun i _ ↦ ?_, his.imp fun hlt x hx y hy ↦ ?_⟩
  · exact List.pairwise_of_forall_mem_list fun x hx y hy ↦ ((hhash hx).trans (hhash hy).symm).le
  · rw [hhash hx, hhash hy]
    exact hlt.le

namespace StackedChains

/-- A table whose heads are all `null`. -/
theorem nil (hhead : ∀ i ∈ is, head i = null) : StackedChains next null hash head is [] :=
  ⟨fun i hi ↦ Linked.nil_iff.2 (hhead i hi), fun _ _ _ hx ↦ absurd hx List.not_mem_nil⟩

/-- Only the links, hashes and heads of the table matter. -/
theorem congr (h : StackedChains next null hash head is ns) (hnext : ∀ x ∈ ns, next' x = next x)
    (hhash : ∀ x ∈ ns, hash' x = hash x) (hhead : ∀ i ∈ is, head' i = head i) :
    StackedChains next' null hash' head' is ns := by
  have hfilter : ∀ i, (ns.reverse.filter fun x ↦ hash' x = i) =
      ns.reverse.filter fun x ↦ hash x = i := fun i ↦
    List.filter_congr fun x hx ↦ by rw [hhash x (List.mem_reverse.1 hx)]
  rw [StackedChains]
  simp only [hfilter]
  exact Buckets.congr h (fun x hx ↦ hnext x (mem_stackedOrder.1 hx).1)
    (fun x hx ↦ hhash x (mem_stackedOrder.1 hx).1) hhead

/-- One more node is added. -/
theorem push [DecidableEq α] (h : StackedChains next null hash head is ns) {x : α}
    (hnull : x ≠ null) (hx : x ∉ ns) :
    StackedChains (Function.update next x (head (hash x))) null hash
      (Function.update head (hash x) x) is (ns ++ [x]) := by
  -- its bucket begins with the node, and the other buckets are as they were
  have hbuckets : (fun i ↦ (ns ++ [x]).reverse.filter (hash · = i)) =
      Function.update (fun i ↦ ns.reverse.filter (hash · = i)) (hash x)
        (x :: ns.reverse.filter (hash · = hash x)) := by
    funext i
    rw [List.reverse_append, List.reverse_singleton, List.singleton_append, List.filter_cons]
    by_cases hi : hash x = i
    · simp [← hi]
    · simp [hi, Function.update_of_ne (Ne.symm hi)]
  rw [StackedChains, hbuckets]
  exact Buckets.push h hnull fun hmem ↦ hx ((mem_stackedOrder.1 hmem).1)

/-- The chains of the table are those that the order of the additions determines. -/
theorem order_eq (h : StackedChains next null hash head is ns)
    (hb : Buckets next null hash head is L) : is.flatMap L = stackedOrder hash is ns :=
  List.flatMap_congr fun i hi ↦ (hb.linked i hi).unique (h.linked i hi)

end StackedChains

end Stacked

/-! ### Traversal -/

section Traversal

variable {σ : Type*} [DecidableEq α] (next : σ → α → α) (null : α) (head : σ → ι → α)
  (body : α → σ → Option σ)

/-- `for (n = start; n; n = next n) body n`, within `rounds` tests of the loop condition. The
successor is read after the body has run, from the state the body left. -/
def walkM : ℕ → α → σ → Option σ
  | 0, _, _ => none
  | rounds + 1, n, s =>
    if n = null then some s
    else (body n s).bind fun s' ↦ walkM rounds (next s' n) s'

/-- The walk along every bucket, in the order of `is`. -/
def forEachM (rounds : ℕ) (is : List ι) (s : σ) : Option σ :=
  is.foldlM (fun s i ↦ walkM next null body rounds (head s i) s) s

/-- The nodes a traversal without side effects visits, in order. -/
def forEachNode (next : α → α) (head : ι → α) (rounds : ℕ) (is : List ι) : Option (List α) :=
  (is.mapM fun i ↦ visit next null rounds (head i)).map List.flatten

variable {next null head body}

/-- The walk over a chain whose body may unlink the node it is called on: `I rest s` is the
invariant with `rest` still to be visited. -/
theorem walkM_outcome {fault : Prop} (I : List α → σ → Prop)
    (hstep : ∀ n rest s, I (n :: rest) s → Linked (next s) null n (n :: rest) →
      Outcome fault (body n s) fun s' ↦ I rest s' ∧ ∀ k ∈ n :: rest, next s' k = next s k)
    {rounds : ℕ} {l : List α} {p : α} {s : σ} (hl : Linked (next s) null p l)
    (hlen : l.length < rounds) (h : I l s) :
    Outcome fault (walkM next null body rounds p s) (I []) := by
  induction l generalizing p s rounds with
  | nil =>
    obtain ⟨k, rfl⟩ := Nat.exists_eq_succ_of_ne_zero (by omega : rounds ≠ 0)
    rw [Linked.nil_iff] at hl
    rw [walkM, if_pos hl]
    exact .some h
  | cons n l ih =>
    obtain ⟨k, rfl⟩ := Nat.exists_eq_succ_of_ne_zero (by omega : rounds ≠ 0)
    have hp : Linked (next s) null p (p :: l) := hl.1 ▸ hl
    obtain ⟨rfl, hnull, hrest⟩ := hl
    rw [List.length_cons] at hlen
    rw [walkM, if_neg hnull]
    refine (hstep p l s h hp).bind fun s₁ h₁ ↦ ih ?_ (by omega) h₁.1
    rw [h₁.2 p List.mem_cons_self]
    exact hrest.congr fun y hy ↦ h₁.2 y (List.mem_cons_of_mem _ hy)

/-- What a traversal at the node `n` has still to visit: the rest of the chain, and nodes of other
buckets. -/
def Ahead (next : α → α) (null : α) (hash : α → ι) (n : α) (rest : List α) : Prop :=
  ∃ l l', rest = l ++ l' ∧ Linked next null n (n :: l) ∧ ∀ k ∈ l', hash k ≠ hash n

omit [DecidableEq α] in
/-- What is ahead depends on the links of the nodes ahead only. -/
theorem Ahead.congr {next next' : α → α} {hash : α → ι} {n : α} {rest : List α}
    (h : Ahead next null hash n rest) (heq : ∀ k ∈ n :: rest, next' k = next k) :
    Ahead next' null hash n rest := by
  obtain ⟨l, l', rfl, hl, hhash⟩ := h
  refine ⟨l, l', rfl, hl.congr fun k hk ↦ heq k ?_, hhash⟩
  rcases List.mem_cons.1 hk with rfl | hk
  · exact List.mem_cons_self
  · exact List.mem_cons_of_mem _ (List.mem_append_left _ hk)

/-- The traversal rule. The body may change the links of nodes already visited, and the head of
the bucket it works in, and nothing else that the traversal still has to read. -/
theorem forEachM_outcome {fault : Prop} {hash : α → ι} (I : List α → σ → Prop)
    (hstep : ∀ n rest s, I (n :: rest) s → Ahead (next s) null hash n rest →
      Outcome fault (body n s) fun s' ↦ I rest s' ∧ (∀ k ∈ n :: rest, next s' k = next s k) ∧
        ∀ i, i ≠ hash n → head s' i = head s i)
    {rounds : ℕ} {is : List ι} {L : ι → List α} {s : σ} (his : is.Nodup)
    (hb : Buckets (next s) null hash (head s) is L) (hlen : ∀ i ∈ is, (L i).length < rounds)
    (h : I (is.flatMap L) s) :
    Outcome fault (forEachM next null head body rounds is s) (I []) := by
  induction is generalizing s with
  | nil => exact .some h
  | cons i is ih =>
    obtain ⟨hi, his⟩ := List.nodup_cons.1 his
    -- what is still to be visited: the rest of this bucket, and the later buckets as they were
    let J : List α → σ → Prop := fun rest s ↦
      I (rest ++ is.flatMap L) s ∧ (∀ n ∈ rest, hash n = i) ∧
        Buckets (next s) null hash (head s) is L
    have hJ : ∀ n rest s, J (n :: rest) s → Linked (next s) null n (n :: rest) →
        Outcome fault (body n s) fun s' ↦ J rest s' ∧ ∀ k ∈ n :: rest, next s' k = next s k := by
      rintro n rest s ⟨hI, hhash, hbs⟩ hlinked
      have hn : hash n = i := hhash n List.mem_cons_self
      have hahead : Ahead (next s) null hash n (rest ++ is.flatMap L) := by
        refine ⟨rest, is.flatMap L, rfl, hlinked, fun k hk heq ↦ hi ?_⟩
        rw [← hn, ← heq]
        exact (hbs.mem_bucket_of_mem hk).1
      refine (hstep n (rest ++ is.flatMap L) s hI hahead).mono fun s' h' ↦ ?_
      obtain ⟨hI', hnext, hhead⟩ := h'
      refine ⟨⟨hI', fun k hk ↦ hhash k (List.mem_cons_of_mem _ hk), ?_⟩, fun k hk ↦ hnext k ?_⟩
      · refine hbs.congr (fun x hx ↦ hnext x (by simp [hx])) (fun _ _ ↦ rfl) fun j hj ↦ hhead j ?_
        rw [hn]
        rintro rfl
        exact hi hj
      · rcases List.mem_cons.1 hk with rfl | hk
        · exact List.mem_cons_self
        · exact List.mem_cons_of_mem _ (List.mem_append_left _ hk)
    have hb' : Buckets (next s) null hash (head s) is L :=
      ⟨fun j hj ↦ hb.linked j (List.mem_cons_of_mem _ hj),
        fun j hj ↦ hb.hash_eq j (List.mem_cons_of_mem _ hj)⟩
    have hwalk := walkM_outcome J hJ (hb.linked i List.mem_cons_self) (hlen i List.mem_cons_self)
      ⟨by simpa using h, hb.hash_eq i List.mem_cons_self, hb'⟩
    rw [forEachM, List.foldlM_cons]
    refine hwalk.bind fun s₁ h₁ ↦ ih his h₁.2.2 (fun j hj ↦ hlen j (List.mem_cons_of_mem _ hj)) ?_
    simpa using h₁.1

/-- What every call of the body keeps, the traversal keeps. -/
theorem forEachM_invariant (I : σ → Prop) (hstep : ∀ n s s', I s → body n s = some s' → I s')
    {rounds : ℕ} {is : List ι} {s s' : σ} (h : I s)
    (hrun : forEachM next null head body rounds is s = some s') : I s' := by
  have hwalk : ∀ (rounds : ℕ) (p : α) (s s' : σ), I s →
      walkM next null body rounds p s = some s' → I s' := by
    intro rounds
    induction rounds with
    | zero => exact fun p s s' _ hrun ↦ absurd hrun (by simp [walkM])
    | succ k ih =>
      intro p s s' h hrun
      rw [walkM] at hrun
      split_ifs at hrun with hnull
      · exact Option.some.inj hrun ▸ h
      · obtain ⟨s₁, hbody, hrest⟩ := Option.bind_eq_some_iff.1 hrun
        exact ih _ _ _ (hstep p s s₁ h hbody) hrest
  induction is generalizing s with
  | nil => exact Option.some.inj hrun ▸ h
  | cons i is ih =>
    rw [forEachM, List.foldlM_cons] at hrun
    obtain ⟨s₁, hfirst, hrest⟩ := Option.bind_eq_some_iff.1 hrun
    exact ih (hwalk _ _ _ _ h hfirst) hrest

/-- With enough rounds the traversal comes to all buckets, one after the other. -/
theorem forEachNode_eq {next : α → α} {hash : α → ι} {head : ι → α} {rounds : ℕ}
    {is : List ι} {L : ι → List α} (hb : Buckets next null hash head is L)
    (hlen : ∀ i ∈ is, (L i).length < rounds) :
    forEachNode null next head rounds is = some (is.flatMap L) := by
  have hmap : is.mapM (fun i ↦ visit next null rounds (head i)) = some (is.map L) := by
    induction is with
    | nil => rfl
    | cons i is ih =>
      have hb' : Buckets next null hash head is L :=
        ⟨fun j hj ↦ hb.linked j (List.mem_cons_of_mem _ hj),
          fun j hj ↦ hb.hash_eq j (List.mem_cons_of_mem _ hj)⟩
      rw [List.mapM_cons, visit_eq (hb.linked i List.mem_cons_self) (hlen i List.mem_cons_self),
        ih hb' fun j hj ↦ hlen j (List.mem_cons_of_mem _ hj)]
      rfl
  rw [forEachNode, hmap, Option.map_some, List.flatMap_def]

end Traversal

/-! ### The table as a collection of nodes -/

namespace HashChains

variable {next next' : α → α} {null : α} {hash hash' : α → ι} {head head' : ι → α}
  {is : List ι} {ns ms : List α}

theorem perm (h : HashChains next null hash head is ns) (hp : ns.Perm ms) :
    HashChains next null hash head is ms := by
  obtain ⟨L, hb, hL⟩ := h
  exact ⟨L, hb, hp.symm.trans hL⟩

theorem nodup (h : HashChains next null hash head is ns) (his : is.Nodup) : ns.Nodup := by
  obtain ⟨L, hb, hL⟩ := h
  exact hL.nodup_iff.2 (hb.nodup his)

theorem ne_null_of_mem (h : HashChains next null hash head is ns) {x : α} (hx : x ∈ ns) :
    x ≠ null := by
  obtain ⟨L, hb, hL⟩ := h
  exact hb.ne_null_of_mem (hL.subset hx)

/-- Only the links, hashes and heads of the table matter. -/
theorem congr (h : HashChains next null hash head is ns) (hnext : ∀ x ∈ ns, next' x = next x)
    (hhash : ∀ x ∈ ns, hash' x = hash x) (hhead : ∀ i ∈ is, head' i = head i) :
    HashChains next' null hash' head' is ns := by
  obtain ⟨L, hb, hL⟩ := h
  exact ⟨L, hb.congr (fun x hx ↦ hnext x (hL.symm.subset hx))
    (fun x hx ↦ hhash x (hL.symm.subset hx)) hhead, hL⟩

/-- The table whose heads are all `null` is empty. -/
theorem of_head_null (hhead : ∀ i ∈ is, head i = null) :
    HashChains next null hash head is [] :=
  ⟨fun _ ↦ [], ⟨hhead, fun _ _ x hx ↦ absurd hx List.not_mem_nil⟩, by simp⟩

/-- A table is empty exactly if all heads are `null`. -/
theorem eq_nil_iff (h : HashChains next null hash head is ns) :
    ns = [] ↔ ∀ i ∈ is, head i = null := by
  obtain ⟨L, hb, hL⟩ := h
  constructor
  · rintro rfl i hi
    have hnil : L i = [] := List.flatMap_eq_nil_iff.1 hL.symm.eq_nil i hi
    simpa [hnil] using hb.linked i hi
  · intro hhead
    have hnil : is.flatMap L = [] := List.flatMap_eq_nil_iff.2 fun i hi ↦
      Linked.eq_nil_of_null (hhead i hi ▸ hb.linked i hi)
    exact (hnil ▸ hL).eq_nil

/-- A bucket's chain is no longer than the table is large. -/
theorem exists_buckets (h : HashChains next null hash head is ns) :
    ∃ L, Buckets next null hash head is L ∧ ns.Perm (is.flatMap L) ∧
      ∀ i ∈ is, (L i).length ≤ ns.length := by
  obtain ⟨L, hb, hL⟩ := h
  refine ⟨L, hb, hL, fun i hi ↦ ?_⟩
  obtain ⟨k₁, k₂, rfl⟩ := List.append_of_mem hi
  rw [hL.length_eq, List.flatMap_append, List.flatMap_cons, List.length_append,
    List.length_append]
  omega

variable [DecidableEq ι] [DecidableEq α]

/-- The search in the bucket `i`: no node of the bucket stops it, or it stops at a node of the
bucket, and unlinking that node takes it out of the table. The links of nodes outside the table and
of those ahead of a traversal at that node stay. -/
theorem search (h : HashChains next null hash head is ns) (his : is.Nodup) {i : ι} (hi : i ∈ is)
    {rounds : ℕ} (hlen : ns.length < rounds) (stop : α → Bool) :
    (∀ x ∈ ns, hash x = i → stop x = false) ∧
        (∃ prev, seek next null stop rounds null (head i) = some (prev, null)) ∨
      ∃ prev, ∃ x ∈ ns, hash x = i ∧ stop x = true ∧
        seek next null stop rounds null (head i) = some (prev, x) ∧
        HashChains (unlinkNext next null prev x) null hash (unlinkHead next null head i prev x)
          is (ns.erase x) ∧
        (∀ y ∉ ns, unlinkNext next null prev x y = next y) ∧
        ∀ rest, Ahead next null hash x rest →
          ∀ y ∈ x :: rest, unlinkNext next null prev x y = next y := by
  obtain ⟨L, hb, hL, hle⟩ := h.exists_buckets
  rcases @seek_cases _ _ _ _ stop _ null _ _ (hb.linked i hi) (lt_of_le_of_lt (hle i hi) hlen) with
    ⟨hall, hseek⟩ | ⟨l₁, x, l₂, hLi, -, hx, hseek⟩
  · refine .inl ⟨fun x hx hhash ↦ hall x ?_, _, hseek⟩
    have := (hb.mem_bucket_of_mem (hL.subset hx)).2
    rwa [hhash] at this
  · have hsub : ∀ y ∈ L i, y ∈ ns := fun y hy ↦ hL.symm.subset (List.mem_flatMap.2 ⟨i, hi, hy⟩)
    have hxi : x ∈ L i := by simp [hLi]
    obtain rfl : hash x = i := hb.hash_eq i hi x hxi
    -- only the node before `x` gets another link
    have hkeep : ∀ y, (∀ k a, l₁ = k ++ [a] → y ≠ a) →
        unlinkNext next null (l₁.getLastD null) x y = next y := by
      intro y hy
      rw [unlinkNext]
      split_ifs with hnull
      · rfl
      · rcases List.eq_nil_or_concat l₁ with rfl | ⟨k, a, rfl⟩
        · exact absurd rfl hnull
        · refine Function.update_of_ne ?_ _ _
          simpa using hy k a (List.concat_eq_append ..)
    have hchain := hb.linked _ hi
    rw [hLi] at hchain
    refine .inr ⟨_, x, hsub x hxi, rfl, hx, hseek, ⟨_, hb.erase hi hLi rfl, ?_⟩, fun y hy ↦
      hkeep y ?_, ?_⟩
    · have hperm := (hL.trans (Buckets.perm_flatMap_erase his hi hLi)).erase x
      rwa [List.erase_cons_head] at hperm
    · rintro k a rfl rfl
      exact hy (hsub y (by simp [hLi]))
    · rintro rest ⟨l, l', rfl, hlinked, hother⟩ y hy
      refine hkeep y ?_
      rintro k a rfl rfl
      have hya : y ∈ L (hash x) := by simp [hLi]
      have hsuffix : x :: l₂ = x :: l := hchain.suffix.unique hlinked
      rw [← List.cons_append, List.mem_append] at hy
      rcases hy with hy | hy
      · rw [← hsuffix] at hy
        exact (List.nodup_append.1 hchain.nodup).2.2 y (by simp) y hy rfl
      · exact hother y hy (hb.hash_eq _ hi y hya)

/-- A fresh node added in front of the bucket of its hash. -/
theorem push (h : HashChains next null hash head is ns) (his : is.Nodup) {x : α}
    (hnull : x ≠ null) (hx : x ∉ ns) (hi : hash x ∈ is) :
    HashChains (Function.update next x (head (hash x))) null hash
      (Function.update head (hash x) x) is (x :: ns) := by
  obtain ⟨L, hb, hL⟩ := h
  refine ⟨_, hb.push hnull fun hmem ↦ hx (hL.symm.subset hmem), ?_⟩
  exact (hL.cons x).trans (Buckets.perm_flatMap_push his hi x).symm

end HashChains
