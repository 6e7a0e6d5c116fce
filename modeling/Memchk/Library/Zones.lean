import Mathlib.Data.Set.Function
import Mathlib.Tactic
import Mathlib.Order.CompletePartialOrder

/-!
# Checking and repairing regions of memory

A `Zone` is a region of a memory `α → β` that is checked and repaired as a whole, with a log of what
was found. It is `Lawful` if checking, logging and repairing look at the region only, and a repair
writes nothing else, leaves what is not damaged alone and leaves no damage.

Zones that do not meet can be checked and repaired one after the other: what is found in each is
what was there before the first (`Zone.Apart.repaired_eqOn`), and in the end none is damaged
(`Zone.Apart.not_damaged_repaired`).

## One zone among many

`Zone.Apart` asks of a list of zones that they are lawful and that their regions are disjoint in
pairs. When the loop comes to a zone, the repairs in front of it have not touched its region
(`Zone.Apart.eqOn_front`), so its check and its log are those of the memory at the start. A set that
no region meets is left alone by all of them (`Zone.repaired_eqOn_of_disjoint`).
-/

/-- A region with its check, its log and its repair. -/
structure Zone (α β ε : Type*) where
  region : Set α
  Damaged : (α → β) → Prop
  log : (α → β) → List ε
  repair : (α → β) → α → β

namespace Zone

variable {α β ε : Type*}

/-- Nothing outside the region matters or is written. -/
structure Lawful (z : Zone α β ε) : Prop where
  damaged_congr : ∀ {m m' : α → β}, Set.EqOn m m' z.region → (z.Damaged m ↔ z.Damaged m')
  log_congr : ∀ {m m' : α → β}, Set.EqOn m m' z.region → z.log m = z.log m'
  repair_congr : ∀ {m m' : α → β}, Set.EqOn m m' z.region →
    Set.EqOn (z.repair m) (z.repair m') z.region
  repair_of_notMem : ∀ m, ∀ y ∉ z.region, z.repair m y = m y
  repair_of_not_damaged : ∀ m, ¬z.Damaged m → z.repair m = m
  not_damaged_repair : ∀ m, ¬z.Damaged (z.repair m)

/-- The memory after the zones have been repaired one after the other. -/
def repaired (zs : List (Zone α β ε)) (m : α → β) : α → β :=
  zs.foldl (fun m z ↦ z.repair m) m

/-- Lawful zones that do not meet. -/
structure Apart (zs : List (Zone α β ε)) : Prop where
  lawful : ∀ z ∈ zs, z.Lawful
  disjoint : zs.Pairwise fun z w ↦ Disjoint z.region w.region

variable {z w : Zone α β ε} {zs ws : List (Zone α β ε)} {m m' : α → β}

/-- The last zone is repaired in the memory that the others have left. -/
theorem repaired_append_singleton : repaired (zs ++ [z]) m = z.repair (repaired zs m) := by
  rw [repaired, List.foldl_append]
  rfl

theorem repaired_append : repaired (zs ++ ws) m = repaired ws (repaired zs m) := by
  rw [repaired, List.foldl_append]
  rfl

/-- Points in none of the regions are not written. -/
theorem repaired_eqOn_of_disjoint {s : Set α} (hlawful : ∀ z ∈ zs, z.Lawful)
    (hs : ∀ z ∈ zs, Disjoint z.region s) : Set.EqOn (repaired zs m) m s := by
  induction zs using List.reverseRecOn with
  | nil => exact fun _ _ ↦ rfl
  | append_singleton zs z ih =>
    intro y hy
    have hz : z ∈ zs ++ [z] := by simp
    rw [repaired_append_singleton, (hlawful z hz).repair_of_notMem _ _ fun hmem ↦
      Set.disjoint_left.1 (hs z hz) hmem hy]
    exact ih (fun w hw ↦ hlawful w (by simp [hw])) (fun w hw ↦ hs w (by simp [hw])) hy

namespace Apart

theorem left (h : Apart (zs ++ ws)) : Apart zs :=
  ⟨fun z hz ↦ h.lawful z (List.mem_append_left _ hz), (List.pairwise_append.1 h.disjoint).1⟩

/-- A zone is as it was before the zones in front of it were repaired. -/
theorem eqOn_front (h : Apart (zs ++ z :: ws)) : Set.EqOn (repaired zs m) m z.region :=
  repaired_eqOn_of_disjoint h.left.lawful fun w hw ↦
    (List.pairwise_append.1 h.disjoint).2.2 w hw z List.mem_cons_self

/-- A zone is repaired as if it were the only one. -/
theorem repaired_eqOn (h : Apart zs) (hz : z ∈ zs) :
    Set.EqOn (repaired zs m) (z.repair m) z.region := by
  obtain ⟨front, back, rfl⟩ := List.append_of_mem hz
  have hfront := h.eqOn_front (m := m)
  have hz' := h.lawful z hz
  have hsplit : repaired (front ++ z :: back) m = repaired back (z.repair (repaired front m)) := by
    rw [repaired_append]
    rfl
  have hback : Set.EqOn (repaired back (z.repair (repaired front m))) (z.repair (repaired front m))
      z.region := by
    refine repaired_eqOn_of_disjoint
      (fun w hw ↦ h.lawful w (List.mem_append_right _ (List.mem_cons_of_mem _ hw))) fun w hw ↦ ?_
    have hcons := (List.pairwise_append.1 h.disjoint).2.1
    exact ((List.pairwise_cons.1 hcons).1 w hw).symm
  rw [hsplit]
  exact hback.trans (hz'.repair_congr hfront)

/-- No damage is left. -/
theorem not_damaged_repaired (h : Apart zs) (hz : z ∈ zs) : ¬z.Damaged (repaired zs m) := by
  rw [(h.lawful z hz).damaged_congr (h.repaired_eqOn hz)]
  exact (h.lawful z hz).not_damaged_repair m

end Apart

end Zone
