import Memchk.Allocator.AllocBlk

/-!
# Virtual memory usage

The page regions of `memchk_virtmem.c`: a list of nodes behind the static node `pageregion_head`,
sorted by address, to which `__register_block` adds the pages of one block at a time, and the
mappings of the process among which `__count_virtual_memory_size` spreads the regions.

## The state

The nodes come from the pool of page regions. Their fields stay in `node` when a node goes back to
the pool, as the bytes of a free slot do, so a read through a stale `pageregion_cand` gives what was
left there. The loops count rounds against the slots of the pool and give `none` when they do not
end.

## The registration

`registerBlock` computes the pages of a block and scans the list from `pageregion_cand` on, if the
block begins behind that node, and from the head otherwise. The scan stops at the first region that
the new one meets or precedes; it merges with all regions that it meets, giving their nodes back, or
links a new node in. `pageregion_cand` is set by the first registration, and where a node is linked
in front of another.

## The counting

`countVirtualMemorySize` adds up the regions and charges each of them to the areas that it meets.
The areas are an array, filled from the file of mappings by a first reading that counts and a second
one that stores; the functions for both readings are here, and share the scanner of the other reader
of that file.
-/

namespace Memchk

/-- `struct pageregion`. -/
structure Pageregion where
  start : ℕ
  end_ : ℕ
  next : ℕ
deriving Inhabited

/-- `struct vmarea`, without the links that nothing follows. -/
structure Vmarea where
  start : ℕ
  end_ : ℕ
  usage : ℕ
deriving DecidableEq

/-- Where `pageregion_head` lies: away from all pool pages. -/
abbrev pageregionHead : ℕ := 8

/-- The page regions and the cached start of the search. -/
structure RegionState where
  node : ℕ → Pageregion
  cand : ℕ
  prevCand : ℕ
  pool : Pool

namespace RegionState

/-- A store into the node at `a`. -/
def modify (a : ℕ) (f : Pageregion → Pageregion) (s : RegionState) : RegionState :=
  { s with node := Function.update s.node a (f (s.node a)) }

/-- A store into the `next` field of the node at `a`. -/
def setNext (a next : ℕ) (s : RegionState) : RegionState :=
  s.modify a fun x ↦ { x with next := next }

end RegionState

/-- `__allocate_pageregion`. -/
def allocatePageregion (start end_ : ℕ) (s : RegionState) : Option (ℕ × RegionState) := do
  let (new, pool) ← mcAllocatePageregion s.pool
  if new = 0 then
    return (0, { s with pool := pool })
  else
    return (new, { s with pool := pool }.modify new fun _ ↦ ⟨start, end_, 0⟩)

/-- The inner loop of `__register_block`: the regions from `next` on that start at `end_` or before
are freed. The result is the end of the last one and the region behind it. -/
def mergeLoop (end_ : ℕ) : ℕ → ℕ → ℕ → RegionState → Option (ℕ × ℕ × RegionState)
  | 0, _, _, _ => none
  | rounds + 1, next, newEnd, s =>
    if next = 0 then some (newEnd, next, s)
    else if (s.node next).start > end_ then some (newEnd, next, s)
    else
      mergeLoop end_ rounds (s.node next).next (s.node next).end_
        { s with pool := mcFreePageregion next s.pool }

/-- The scan of `__register_block` from `pageregion` on, whose predecessor is `prev`. -/
def scanLoop (start end_ : ℕ) : ℕ → ℕ → ℕ → RegionState → Option (ℤ × RegionState)
  | 0, _, _, _ => none
  | rounds + 1, pageregion, prev, s =>
    if pageregion = 0 then do
      let (new, s) ← allocatePageregion start end_ s
      if new = 0 then return (-1, s)
      return (0, s.setNext prev new)
    else if end_ < (s.node pageregion).start then do
      let (new, s) ← allocatePageregion start end_ s
      if new = 0 then return (-1, s)
      let s := (s.setNext new pageregion).setNext prev new
      return (0, { s with cand := new, prevCand := prev })
    else if start ≤ (s.node pageregion).end_ then do
      let newStart :=
        if start < (s.node pageregion).start then start else (s.node pageregion).start
      let (newEnd, next, s) ← mergeLoop end_ (s.pool.rounds pageregionSize)
        (s.node pageregion).next (s.node pageregion).end_ s
      return (0, s.modify pageregion fun _ ↦
        ⟨newStart, if newEnd > end_ then newEnd else end_, next⟩)
    else scanLoop start end_ rounds (s.node pageregion).next pageregion s

/-- `__register_block`. -/
def registerBlock (addr size : ℕ) (s : RegionState) : Option (ℤ × RegionState) :=
  let start := pageMask addr
  let end_ := pageMask (wrapSize (addr + size + pageSize - 1))
  if (s.node pageregionHead).next = 0 then do
    let (new, s) ← allocatePageregion start end_ s
    if new = 0 then return (-1, s)
    let s := s.setNext pageregionHead new
    return (0, { s with cand := new, prevCand := pageregionHead })
  else if (s.node s.cand).end_ < start then
    scanLoop start end_ (s.pool.rounds pageregionSize) s.cand s.prevCand s
  else
    scanLoop start end_ (s.pool.rounds pageregionSize) (s.node pageregionHead).next
      pageregionHead s

/-- The loop of `__register_pageregion` over `vmarea_array`, from where `start` has got to: the
areas with their usage, and whether one was found. -/
def registerAreas (end_ : ℕ) : List Vmarea → ℕ → Bool → List Vmarea × Bool
  | [], _, found => ([], found)
  | v :: vs, start, found =>
    if v.start ≤ start ∧ end_ ≤ v.end_ then
      ({ v with usage := wrapSize (v.usage + subSize end_ start) } :: vs, true)
    else if v.start ≤ start ∧ start < v.end_ then
      let (vs, found) := registerAreas end_ vs v.end_ true
      ({ v with usage := wrapSize (v.usage + subSize v.end_ start) } :: vs, found)
    else
      let (vs, found) := registerAreas end_ vs start found
      (v :: vs, found)

/-- `__register_pageregion`. The regions that no area meets are logged. -/
def registerPageregion (x : Pageregion) (vmareas : List Vmarea × List (ℕ × ℕ)) :
    List Vmarea × List (ℕ × ℕ) :=
  let (areas, found) := registerAreas x.end_ vmareas.1 x.start false
  (areas, if found then vmareas.2 else vmareas.2 ++ [(x.start, x.end_)])

/-- The loop of `__count_virtual_memory_size`. -/
def countLoop (node : ℕ → Pageregion) :
    ℕ → ℕ → ℕ → List Vmarea × List (ℕ × ℕ) → Option (ℕ × List Vmarea × List (ℕ × ℕ))
  | 0, _, _, _ => none
  | rounds + 1, pageregion, ret, vmareas =>
    if pageregion = 0 then some (ret, vmareas)
    else
      countLoop node rounds (node pageregion).next
        (wrapSize (ret + subSize (node pageregion).end_ (node pageregion).start))
        (registerPageregion (node pageregion) vmareas)

/-- `__count_virtual_memory_size`: the total, the areas with their usage and the regions logged. -/
def countVirtualMemorySize (vmareas : List Vmarea) (s : RegionState) :
    Option (ℕ × List Vmarea × List (ℕ × ℕ)) :=
  countLoop s.node (s.pool.rounds pageregionSize) (s.node pageregionHead).next 0 (vmareas, [])

end Memchk
