import Memchk.Virtmem.Regions

/-!
# Usage of the mappings

`__register_pageregion` walks the areas once. `start` is the part of the region that the areas
passed have taken: an area that meets the region takes what it has in common with the rest of it.
Where the areas are in order and cover the region, every area gets its `overlap` with the region
(`registerAreas_eq`), so after all regions it has the points of all of them that lie in it, and the
usages add up to the total (`countVirtualMemorySize_usage`).

## Areas and regions

Both are lists of intervals in order, and nothing else is assumed of them but that every region is
covered by areas: the kernel shows a mapping for every page that a block can lie on. A region may
spread over several areas that adjoin, and an area may have part in many regions.

## One region

`Vmarea.charge` is what should happen to an area: its usage grows by the lengths of its
intersections with the regions. The induction over the areas carries the part of the region that is
left, and says that what the areas passed have taken is what lies below it.

## All regions

Charging the regions one after the other is charging them together (`Vmarea.charge_cons`). As the
regions do not meet, what an area is charged is the number of points it has in common with their
union, which is at most its length; and as the areas do not meet and cover, the sum over the areas
is the sum of the lengths of the regions.
-/

namespace Memchk

/-- The addresses of an area. -/
def Vmarea.interval (v : Vmarea) : ℕ × ℕ :=
  (v.start, v.end_)

/-- The area after the regions have been attributed to it. -/
def Vmarea.charge (regions : List (ℕ × ℕ)) (v : Vmarea) : Vmarea :=
  { v with usage := v.usage + (regions.map (overlap v.interval)).sum }

section Areas

variable {s : RegionState} {areas : List Vmarea} {regions : List (ℕ × ℕ)} {v : Vmarea} {i : ℕ × ℕ}

theorem Vmarea.charge_nil : v.charge [] = v :=
  rfl

theorem Vmarea.charge_cons : v.charge (i :: regions) = (v.charge [i]).charge regions := by
  simp only [charge, interval, List.map_cons, List.map_nil, List.sum_cons, List.sum_nil,
    Nat.add_zero, Nat.add_assoc]

/-- An area that does not meet the interval is not changed. -/
theorem Vmarea.charge_of_overlap_eq_zero (h : overlap v.interval i = 0) : v.charge [i] = v := by
  simp only [charge, List.map_cons, List.map_nil, List.sum_cons, List.sum_nil, Nat.add_zero, h]

theorem map_interval_charge :
    (areas.map (Vmarea.charge regions)).map Vmarea.interval = areas.map Vmarea.interval := by
  rw [List.map_map]
  rfl

/-! ### One region -/

/-- The walk over the areas from where the part of the region in front of `start` has been taken. -/
theorem registerAreas_eq {start end_ : ℕ} (found : Bool) (hlt : start < end_)
    (hpos : ∀ v ∈ areas, v.start < v.end_)
    (hsorted : (areas.map Vmarea.interval).Pairwise fun i j ↦ i.2 ≤ j.1)
    (hcover : Set.Ico start end_ ⊆ cover (areas.map Vmarea.interval))
    (hroom : ∀ v ∈ areas, v.usage + overlap v.interval (start, end_) < 18446744073709551616) :
    registerAreas end_ areas start found = (areas.map (Vmarea.charge [(start, end_)]), true) := by
  induction areas generalizing start found with
  | nil => exact absurd (hcover ⟨le_rfl, hlt⟩) (by simp)
  | cons v vs ih =>
    rw [List.map_cons, List.pairwise_cons] at hsorted
    obtain ⟨hfirst, hsorted⟩ := hsorted
    have hv := hpos v List.mem_cons_self
    have hpos' : ∀ w ∈ vs, w.start < w.end_ := fun w hw ↦ hpos w (List.mem_cons_of_mem _ hw)
    have hafter : ∀ w ∈ vs, v.end_ ≤ w.start := fun w hw ↦
      hfirst w.interval (List.mem_map_of_mem hw)
    -- what is not in the first area is in one of the others
    have hrest : Set.Ico (max start v.end_) end_ ⊆ cover (vs.map Vmarea.interval) := by
      intro y hy
      rw [Set.mem_Ico, max_le_iff] at hy
      have hy' := hcover ⟨hy.1.1, hy.2⟩
      rw [List.map_cons, cover_cons] at hy'
      exact hy'.resolve_left fun hin ↦ absurd hin.2 (not_lt.2 hy.1.2)
    have hroom' := hroom v List.mem_cons_self
    rw [registerAreas, List.map_cons]
    split_ifs with hfull hpart
    · -- the rest of the region lies in this area
      have hover : overlap v.interval (start, end_) = end_ - start := by
        simp only [overlap, Vmarea.interval]
        omega
      have hnone : vs.map (Vmarea.charge [(start, end_)]) = vs := by
        refine (List.map_congr_left fun w hw ↦ Vmarea.charge_of_overlap_eq_zero ?_).trans
          (List.map_id' vs)
        have := hafter w hw
        simp only [overlap, Vmarea.interval]
        omega
      rw [hover] at hroom'
      rw [hnone, subSize_of_le hlt.le (by omega), wrapSize_of_lt hroom', Vmarea.charge]
      simp only [List.map_cons, List.map_nil, List.sum_cons, List.sum_nil, Nat.add_zero, hover]
    · -- the region goes on behind this area
      have hend : v.end_ < end_ := by omega
      have hover : overlap v.interval (start, end_) = v.end_ - start := by
        simp only [overlap, Vmarea.interval]
        omega
      have hsame : ∀ w ∈ vs, overlap w.interval (v.end_, end_) =
          overlap w.interval (start, end_) := by
        intro w hw
        have := hafter w hw
        simp only [overlap, Vmarea.interval]
        omega
      rw [max_eq_right hpart.2.le] at hrest
      have hmap : vs.map (Vmarea.charge [(v.end_, end_)]) =
          vs.map (Vmarea.charge [(start, end_)]) := by
        refine List.map_congr_left fun w hw ↦ ?_
        simp only [Vmarea.charge, List.map_cons, List.map_nil, hsame w hw]
      rw [ih true hend hpos' hsorted hrest fun w hw ↦ by
        rw [hsame w hw]
        exact hroom w (List.mem_cons_of_mem _ hw)]
      rw [hover] at hroom'
      rw [hmap, subSize_of_le hpart.2.le (by omega), wrapSize_of_lt hroom', Vmarea.charge]
      simp only [List.map_cons, List.map_nil, List.sum_cons, List.sum_nil, Nat.add_zero, hover]
    · -- this area lies in front of the rest of the region
      have hbefore : v.end_ ≤ start := by
        by_contra hbehind
        have hstart := hcover ⟨le_rfl, hlt⟩
        rw [List.map_cons, cover_cons] at hstart
        rcases hstart with hin | ⟨j, hj, hle, -⟩
        · exact hpart ⟨hin.1, hin.2⟩
        · have := hfirst j hj
          simp only [Vmarea.interval] at this
          omega
      rw [max_eq_left hbefore] at hrest
      rw [ih found hlt hpos' hsorted hrest fun w hw ↦ hroom w (List.mem_cons_of_mem _ hw),
        Vmarea.charge_of_overlap_eq_zero]
      simp only [overlap, Vmarea.interval]
      omega

/-- A region that the areas cover is attributed to them, and not logged. -/
theorem registerPageregion_eq {x : Pageregion} (log : List (ℕ × ℕ)) (hlt : x.start < x.end_)
    (hpos : ∀ v ∈ areas, v.start < v.end_)
    (hsorted : (areas.map Vmarea.interval).Pairwise fun i j ↦ i.2 ≤ j.1)
    (hcover : Set.Ico x.start x.end_ ⊆ cover (areas.map Vmarea.interval))
    (hroom : ∀ v ∈ areas, v.usage + overlap v.interval (x.start, x.end_) < 18446744073709551616) :
    registerPageregion x (areas, log) =
      (areas.map (Vmarea.charge [(x.start, x.end_)]), log) := by
  rw [registerPageregion, registerAreas_eq false hlt hpos hsorted hcover hroom]
  rfl

/-! ### All regions -/

/-- The loop attributes every region. -/
theorem countLoop_areas {l : List ℕ} {rounds p ret : ℕ} {log : List (ℕ × ℕ)}
    (hl : Linked s.next 0 p l) (hlen : l.length < rounds)
    (hlt : ∀ a ∈ l, (s.interval a).1 < (s.interval a).2)
    (hpos : ∀ v ∈ areas, v.start < v.end_)
    (hsorted : (areas.map Vmarea.interval).Pairwise fun i j ↦ i.2 ≤ j.1)
    (hcover : ∀ a ∈ l, Set.Ico (s.interval a).1 (s.interval a).2 ⊆ cover
    (areas.map Vmarea.interval))
    (hroom : ∀ v ∈ areas, v.usage + ((l.map s.interval).map (overlap v.interval)).sum <
      18446744073709551616) :
    ∃ total, countLoop s.node rounds p ret (areas, log) =
      some (total, areas.map (Vmarea.charge (l.map s.interval)), log) := by
  induction l generalizing p ret rounds areas with
  | nil =>
    obtain ⟨k, rfl⟩ := Nat.exists_eq_succ_of_ne_zero (by omega : rounds ≠ 0)
    rw [Linked.nil_iff] at hl
    refine ⟨ret, ?_⟩
    rw [countLoop, if_pos hl, List.map_nil, List.map_congr_left fun v _ ↦ Vmarea.charge_nil,
      List.map_id']
  | cons x l ih =>
    obtain ⟨k, rfl⟩ := Nat.exists_eq_succ_of_ne_zero (by omega : rounds ≠ 0)
    obtain ⟨rfl, hnull, hrest⟩ := hl
    rw [List.length_cons] at hlen
    rw [List.forall_mem_cons] at hlt hcover
    simp only [List.map_cons, List.sum_cons] at hroom
    -- the region in front is charged to all areas, and the rest to the areas charged
    have hone : registerPageregion (s.node p) (areas, log) =
        (areas.map (Vmarea.charge [s.interval p]), log) :=
      registerPageregion_eq log hlt.1 hpos hsorted hcover.1 fun v hv ↦ by
        have := hroom v hv
        simp only [RegionState.interval] at this
        omega
    obtain ⟨total, htotal⟩ := @ih (areas.map (Vmarea.charge [s.interval p])) k _
      (wrapSize (ret + subSize (s.node p).end_ (s.node p).start)) hrest (by omega) hlt.2
      (List.forall_mem_map.2 fun v hv ↦ hpos v hv)
      (by rw [map_interval_charge]; exact hsorted)
      (by rw [map_interval_charge]; exact hcover.2)
      (List.forall_mem_map.2 fun v hv ↦ by
        have := hroom v hv
        show v.usage + (overlap v.interval (s.interval p) + 0) +
          ((l.map s.interval).map (overlap v.interval)).sum < _
        omega)
    refine ⟨total, ?_⟩
    rw [countLoop, if_neg hnull, hone]
    refine htotal.trans ?_
    rw [List.map_map, List.map_cons]
    exact congrArg (fun areas ↦ some (total, areas, log))
      (List.map_congr_left fun v _ ↦ Vmarea.charge_cons.symm)

/-- For areas in order that do not meet and have not been used, and regions in order that do not
meet and are covered by the areas, `__count_virtual_memory_size` gives every area the number of
bytes it has in common with the regions. These are no more than the area has, and add up to the
total. -/
theorem countVirtualMemorySize_usage {l : List ℕ} (h : RegionChain s l)
    (hlt : ∀ a ∈ l, (s.interval a).1 < (s.interval a).2)
    (hregions : (l.map s.interval).Pairwise fun i j ↦ i.2 ≤ j.1)
    (hareas : ∀ v ∈ areas, v.start < v.end_ ∧ v.end_ < 18446744073709551616 ∧ v.usage = 0)
    (hsorted : (areas.map Vmarea.interval).Pairwise fun i j ↦ i.2 ≤ j.1)
    (hcover : ∀ a ∈ l, Set.Ico (s.interval a).1 (s.interval a).2 ⊆
      cover (areas.map Vmarea.interval)) :
    ∃ total areas', countVirtualMemorySize areas s = some (total, areas', []) ∧
      areas' = areas.map (fun v ↦ { v with usage :=
        (Set.Ico v.start v.end_ ∩ cover (l.map s.interval)).ncard }) ∧
      (∀ v ∈ areas', v.usage ≤ v.end_ - v.start) ∧ (areas'.map Vmarea.usage).sum = total := by
  have hcharge : ∀ v ∈ areas, v.charge (l.map s.interval) = { v with usage :=
      (Set.Ico v.start v.end_ ∩ cover (l.map s.interval)).ncard } := by
    intro v hv
    rw [Vmarea.charge, sum_overlap hregions, (hareas v hv).2.2, Nat.zero_add]
    rfl
  have hle : ∀ v ∈ areas, ((l.map s.interval).map (overlap v.interval)).sum ≤ v.end_ - v.start :=
    fun v _ ↦ sum_overlap_le hregions v.interval
  obtain ⟨total, htotal⟩ := @countLoop_areas s areas l (s.pool.rounds pageregionSize) _ 0 []
    h.linked.2.2 (length_lt_rounds h.linked.2.2 h.live) hlt (fun v hv ↦ (hareas v hv).1) hsorted
    hcover fun v hv ↦ by
      have := hle v hv
      have := hareas v hv
      omega
  -- the usages add up to the lengths of the regions
  have husage : ((areas.map (Vmarea.charge (l.map s.interval))).map Vmarea.usage).sum =
      ((l.map s.interval).map fun i ↦ i.2 - i.1).sum := by
    have hlength : ∀ i ∈ l.map s.interval,
        ((areas.map Vmarea.interval).map (overlap i)).sum = i.2 - i.1 :=
      List.forall_mem_map.2 fun a ha ↦ sum_overlap_of_subset hsorted (hcover a ha)
    rw [← List.map_congr_left hlength, ← sum_sum_overlap, List.map_map, List.map_map]
    refine congrArg List.sum (List.map_congr_left fun v hv ↦ ?_)
    simp only [Function.comp_apply, Vmarea.charge, (hareas v hv).2.2, Nat.zero_add]
  -- the regions lie below the end of the address space
  have hlen : ((l.map s.interval).map fun i ↦ i.2 - i.1).sum < 18446744073709551616 := by
    have hle := sum_overlap_le hregions (0, 18446744073709551615)
    have hlength : ∀ i ∈ l.map s.interval, overlap (0, 18446744073709551615) i = i.2 - i.1 := by
      refine List.forall_mem_map.2 fun a ha ↦ ?_
      have hpos := hlt a ha
      obtain ⟨j, hj, -, hend⟩ := hcover a ha ⟨Nat.le_sub_one_of_lt hpos, Nat.sub_one_lt_of_lt hpos⟩
      obtain ⟨v, hv, rfl⟩ := List.mem_map.1 hj
      have := (hareas v hv).2.1
      simp only [Vmarea.interval] at hend
      simp only [overlap]
      omega
    rw [List.map_congr_left hlength] at hle
    omega
  obtain ⟨v, hcount⟩ := @countLoop_eq s l (s.pool.rounds pageregionSize) _ 0 (areas, [])
    h.linked.2.2 (length_lt_rounds h.linked.2.2 h.live) (List.forall_mem_map.2 hlt)
    (by rw [Nat.zero_add]; exact hlen)
  rw [htotal, Nat.zero_add, Option.some_inj, Prod.mk.injEq] at hcount
  refine ⟨total, _, htotal, List.map_congr_left hcharge, List.forall_mem_map.2 fun v hv ↦ ?_,
    husage.trans hcount.1.symm⟩
  have := hle v hv
  simp only [Vmarea.charge, (hareas v hv).2.2, Nat.zero_add]
  exact this

/-- A page region that starts in one area and ends in the next. -/
theorem countVirtualMemorySize_usage_two :
    ∃ t total areas', registerBlock 8192 100 (.init []) = some (0, t) ∧
      countVirtualMemorySize [⟨4096, 10240, 0⟩, ⟨10240, 20480, 0⟩] t = some (total, areas', []) ∧
      (∀ v ∈ areas', v.usage ≤ v.end_ - v.start) ∧ (areas'.map Vmarea.usage).sum = total := by
  have h : RegionInv (.init []) [] := ⟨RegionState.inv_init, ⟨rfl, by decide, rfl⟩, by simp, .nil⟩
  obtain ⟨r, t, l, hreg, hinv, hcases⟩ := @registerBlock_spec _ 8192 100 _ h
    (by decide) fun hne ↦ absurd rfl hne
  have hzero : (registerBlock 8192 100 (.init [])).map Prod.fst = some 0 := by decide +kernel
  rw [hreg, Option.map_some, Option.some_inj] at hzero
  obtain rfl : r = 0 := hzero
  have hl : l.map t.interval = [(8192, 12288)] := (hcases.resolve_right fun hr ↦ by
    have := hr.1
    omega).2
  have hmem : ∀ a ∈ l, t.interval a = (8192, 12288) := fun a ha ↦ by
    have := List.mem_map_of_mem (f := t.interval) ha
    rwa [hl, List.mem_singleton] at this
  obtain ⟨total, areas', hcount, -, hle, hsum⟩ := @countVirtualMemorySize_usage t
    [⟨4096, 10240, 0⟩, ⟨10240, 20480, 0⟩] l hinv.chain (fun a ha ↦ by
      rw [hmem a ha]
      decide) (by rw [hl]; exact List.pairwise_singleton _ _) (by decide)
      (by decide) fun a ha y hy ↦ by
      rw [hmem a ha, Set.mem_Ico] at hy
      simp only [List.map_cons, List.map_nil, cover_cons, cover_nil, Vmarea.interval, Set.mem_union,
        Set.mem_Ico, Set.mem_empty_iff_false, or_false]
      omega
  exact ⟨t, total, areas', hreg, hcount, hle, hsum⟩

end Areas

end Memchk
