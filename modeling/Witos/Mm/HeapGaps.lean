import Witos.Mm.HeapRun

/-!
# Free regions as gaps

What is free in a heap depends only on what is owned: the free regions that a
walk over the headers meets are the gaps between the owned regions.
-/

namespace Witos.Mm

open Library

/-- A walk over the headers meets a region of `size` bytes at `address`, free
or not. -/
def RegionAt (mem : Mem) (first tail : Nat) (vacancy : Bool)
    (address size : Nat) : Prop :=
  ∃ regions, Tiles mem first regions tail ∧ address ∈ regions ∧
    isFree (mem (currSize address)) = vacancy ∧ getSize mem address = size

def FreeRegion (mem : Mem) (first tail address size : Nat) : Prop :=
  RegionAt mem first tail true address size

def AllocatedRegion (mem : Mem) (first tail address size : Nat) : Prop :=
  RegionAt mem first tail false address size

theorem Tiles.le {mem : Mem} {start tail : Nat} {regions : List Nat}
    (tiles : Tiles mem start regions tail) : start ≤ tail := by
  induction regions generalizing start with
  | nil => exact Nat.le_of_eq tiles
  | cons region regions induction =>
      have := induction tiles.2
      omega

theorem Tiles.unique {mem : Mem} {start tail : Nat}
    {regions regions' : List Nat} (tiles : Tiles mem start regions tail)
    (tiles' : Tiles mem start regions' tail) : regions = regions' := by
  induction regions generalizing start regions' with
  | nil =>
      cases regions' with
      | nil => rfl
      | cons region' regions' =>
          have atEnd : start = tail := tiles
          have := tiles'.2.le
          omega
  | cons region regions induction =>
      cases regions' with
      | nil =>
          have atEnd : start = tail := tiles'
          have := tiles.2.le
          omega
      | cons region' regions' =>
          obtain ⟨rfl, rest⟩ := tiles
          obtain ⟨rfl, rest'⟩ := tiles'
          rw [induction rest rest']

theorem Tiles.of_tags {mem : Mem} {pre region tail : Nat}
    {blocks : List Block} {regions : List Nat}
    (tiles : Tiles mem region regions tail)
    (tags : Tags mem pre region blocks)
    (before : region + span blocks ≤ tail) (inside : tail + 8 ≤ 2 ^ 32) :
    ∃ rest, regions = regionsOf region blocks ++ rest ∧
      Tiles mem (region + span blocks) rest tail := by
  induction blocks generalizing pre region regions with
  | nil => exact ⟨regions, rfl, tiles⟩
  | cons block blocks induction =>
      simp only [span] at before
      cases regions with
      | nil =>
          have atEnd : region = tail := tiles
          omega
      | cons start regions =>
          obtain ⟨rfl, more⟩ := tiles
          obtain ⟨-, word, restTags⟩ := tags
          rw [getSize_eq (by omega) word] at more
          obtain ⟨rest, shape, remaining⟩ :=
            induction more restTags (by omega)
          refine ⟨rest, by rw [shape]; rfl, ?_⟩
          have shifted : start + span (block :: blocks) =
              start + 8 + block.size + span blocks := by
            simp only [span]
            omega
          rw [shifted]
          exact remaining

theorem mem_ownedRegions {region pointer size request : Nat}
    {blocks : List Block} :
    (pointer, size, request) ∈ ownedRegions region blocks ↔
      ∃ left block right, blocks = left ++ block :: right ∧
        block.owner = some request ∧ block.size = size ∧
        pointer = region + span left + 8 := by
  refine ⟨exists_of_mem_ownedRegions, ?_⟩
  rintro ⟨left, block, right, rfl, owner, rfl, rfl⟩
  rw [ownedRegions_append, ownedRegions_cons_owned owner]
  simp

theorem ownedRegions_bounds {region : Nat} {blocks : List Block}
    {entry : Nat × Nat × Nat} (member : entry ∈ ownedRegions region blocks) :
    region + 8 ≤ entry.1 ∧ entry.1 + entry.2.1 ≤ region + span blocks := by
  obtain ⟨pointer, size, request⟩ := entry
  obtain ⟨left, block, right, rfl, -, rfl, rfl⟩ :=
    exists_of_mem_ownedRegions member
  simp only [span_append, span]
  omega

/-- Owned regions are in address order, with a header between any two. -/
theorem ownedRegions_pairwise (region : Nat) (blocks : List Block) :
    (ownedRegions region blocks).Pairwise
      (fun left right => left.1 + left.2.1 + 8 ≤ right.1) := by
  induction blocks generalizing region with
  | nil => simp [ownedRegions]
  | cons block blocks induction =>
      have later := induction (region + 8 + block.size)
      cases owner : block.owner with
      | none =>
          rw [ownedRegions_cons_vacant owner]
          exact later
      | some request =>
          rw [ownedRegions_cons_owned owner, List.pairwise_cons]
          refine ⟨?_, later⟩
          intro entry member
          exact (ownedRegions_bounds member).1

theorem ownedPointers_nodup (region : Nat) (blocks : List Block) :
    ((ownedRegions region blocks).map Prod.fst).Nodup := by
  unfold List.Nodup
  rw [List.pairwise_map]
  apply (ownedRegions_pairwise region blocks).imp
  intro left right apart
  omega

theorem empty_or_large {region pointer size request : Nat}
    {blocks : List Block}
    (member : (pointer, size, request) ∈ ownedRegions region blocks) :
    size = 0 ∨ 8 ≤ size := by
  obtain ⟨left, block, right, -, -, rfl, -⟩ :=
    exists_of_mem_ownedRegions member
  exact block.large.imp_left And.right

/-- A header at `address` and `size` bytes behind it that fill the room
between two owned regions or the ends of the heap. -/
structure Gap (first tail : Nat) (owned : List (Nat × Nat × Nat))
    (address size : Nat) : Prop where
  starts : address = first ∨
    ∃ entry ∈ owned, entry.1 + entry.2.1 = address
  ends : address + 8 + size = tail ∨
    ∃ entry ∈ owned, entry.1 = address + 8 + size + 8
  apart : ∀ entry ∈ owned, entry.1 + entry.2.1 ≤ address ∨
    address + 8 + size + 8 ≤ entry.1

theorem Gap.congr {first tail address size : Nat}
    {owned owned' : List (Nat × Nat × Nat)}
    (gap : Gap first tail owned address size)
    (same : ∀ entry, entry ∈ owned ↔ entry ∈ owned') :
    Gap first tail owned' address size := by
  obtain ⟨starts, ends, apart⟩ := gap
  simp only [same] at starts ends apart
  exact ⟨starts, ends, apart⟩

theorem Gap.within {first tail address size : Nat}
    {owned : List (Nat × Nat × Nat)}
    (gap : Gap first tail owned address size)
    (bounds : ∀ entry ∈ owned, first + 8 ≤ entry.1 ∧
      entry.1 + entry.2.1 ≤ tail) :
    first ≤ address ∧ address < tail := by
  constructor
  · rcases gap.starts with rfl | ⟨entry, member, rfl⟩
    · exact Nat.le_refl _
    · have := bounds entry member
      omega
  · rcases gap.ends with atTail | ⟨entry, member, place⟩
    · omega
    · have := bounds entry member
      omega

theorem Gap.unique {first tail address size address' size' : Nat}
    {owned : List (Nat × Nat × Nat)}
    (gap : Gap first tail owned address size)
    (gap' : Gap first tail owned address' size')
    (bounds : ∀ entry ∈ owned, first + 8 ≤ entry.1 ∧
      entry.1 + entry.2.1 ≤ tail)
    (low : address' ≤ address) (high : address < address' + 8 + size') :
    address = address' ∧ size = size' := by
  have same : address = address' := by
    rcases gap.starts with rfl | ⟨entry, member, rfl⟩
    · rcases gap'.starts with rfl | ⟨entry, member, rfl⟩
      · rfl
      · have := bounds entry member
        omega
    · have := gap'.apart entry member
      omega
  subst same
  refine ⟨rfl, ?_⟩
  rcases gap.ends with atTail | ⟨entry, member, place⟩ <;>
    rcases gap'.ends with atTail' | ⟨entry', member', place'⟩
  · omega
  · have := gap.apart entry' member'
    have := bounds entry' member'
    omega
  · have := gap'.apart entry member
    have := bounds entry member
    omega
  · have := gap.apart entry' member'
    have := gap'.apart entry member
    omega

theorem gap_nil_iff {first tail address size : Nat}
    (room : first + 8 ≤ tail) :
    Gap first tail [] address size ↔
      address = first ∧ size = tail - first - 8 := by
  constructor
  · rintro ⟨starts, ends, -⟩
    simp only [List.not_mem_nil, false_and, exists_false,
      or_false] at starts ends
    omega
  · rintro ⟨rfl, rfl⟩
    exact ⟨.inl rfl, .inl (by omega), by simp⟩

theorem owned_of_occupied {region : Nat} {left right : List Block}
    {block : Block} (occupied : block.vacant = false) :
    ∃ request, (region + span left + 8, block.size, request) ∈
      ownedRegions region (left ++ block :: right) := by
  have hasOwner : block.owner.isSome = true := by
    simpa [Block.vacant] using occupied
  obtain ⟨request, owner⟩ := Option.isSome_iff_exists.mp hasOwner
  exact ⟨request, mem_ownedRegions.mpr
    ⟨left, block, right, rfl, owner, rfl, rfl⟩⟩

theorem exists_block_at {region address : Nat} {blocks : List Block}
    (low : region ≤ address) (high : address < region + span blocks) :
    ∃ left block right, blocks = left ++ block :: right ∧
      region + span left ≤ address ∧
      address < region + span left + 8 + block.size := by
  induction blocks generalizing region with
  | nil =>
      simp only [span] at high
      omega
  | cons block blocks induction =>
      simp only [span] at high
      by_cases here : address < region + 8 + block.size
      · exact ⟨[], block, blocks, rfl, by simpa [span] using low,
          by simpa [span] using here⟩
      · obtain ⟨left, found, right, rfl, lower, upper⟩ :=
          induction (Nat.le_of_not_lt here) (by omega)
        refine ⟨block :: left, found, right, rfl, ?_, ?_⟩ <;>
          simp only [span] <;> omega

section Represents

variable {freeList first tail : Nat} {mem : Mem} {blocks : List Block}
  {nodes : List Nat}

theorem Represents.regionAt_iff
    (heap : Represents freeList first tail mem blocks nodes)
    {vacancy : Bool} {address size : Nat} :
    RegionAt mem first tail vacancy address size ↔
      ∃ left block right, blocks = left ++ block :: right ∧
        block.vacant = vacancy ∧ block.size = size ∧
        address = first + span left := by
  have inside := heap.inside_span
  have tiles := heap.headers.tiles inside
  rw [heap.reach] at tiles
  constructor
  · rintro ⟨regions, walk, member, free, rfl⟩
    rw [walk.unique tiles] at member
    obtain ⟨left, block, right, rfl, rfl⟩ := mem_regionsOf.mp member
    obtain ⟨tag, size⟩ := heap.headers.words inside
    rw [tag, Block.isFree_tag] at free
    exact ⟨left, block, right, rfl, free, size.symm, rfl⟩
  · rintro ⟨left, block, right, rfl, free, rfl, rfl⟩
    obtain ⟨tag, size⟩ := heap.headers.words inside
    refine ⟨_, tiles, mem_regionsOf.mpr ⟨left, block, right, rfl, rfl⟩, ?_,
      size⟩
    rw [tag, Block.isFree_tag, free]

theorem Represents.allocatedRegion_iff
    (heap : Represents freeList first tail mem blocks nodes)
    {address size : Nat} :
    AllocatedRegion mem first tail address size ↔
      ∃ request, (address + 8, size, request) ∈ ownedRegions first blocks := by
  unfold AllocatedRegion
  rw [heap.regionAt_iff]
  constructor
  · rintro ⟨left, block, right, rfl, occupied, rfl, rfl⟩
    exact owned_of_occupied occupied
  · rintro ⟨request, member⟩
    obtain ⟨left, block, right, shape, owner, sizes, place⟩ :=
      mem_ownedRegions.mp member
    refine ⟨left, block, right, shape, ?_, sizes, by omega⟩
    simp [Block.vacant, owner]

theorem Represents.payloadSize_owned
    (heap : Represents freeList first tail mem blocks nodes)
    {pointer size request : Nat}
    (member : (pointer, size, request) ∈ ownedRegions first blocks) :
    payloadSize mem pointer = size := by
  obtain ⟨left, block, right, rfl, -, rfl, rfl⟩ :=
    exists_of_mem_ownedRegions member
  have inside := heap.inside_span
  obtain ⟨-, size⟩ := heap.headers.words inside
  simp only [span_append, span] at inside
  rw [payloadSize, containerOf_eq (by omega), size]

/-- A vacant block fills a gap, since its neighbours are owned. -/
theorem Represents.gap_of_vacant {left right : List Block} {block : Block}
    (heap : Represents freeList first tail mem (left ++ block :: right)
      nodes) (vacant : block.vacant = true) :
    Gap first tail (ownedRegions first (left ++ block :: right))
      (first + span left) block.size := by
  obtain ⟨reach, -⟩ := heap.place
  obtain ⟨-, -, neighbours⟩ := separated_middle.mp heap.separated
  obtain ⟨lastOwned, nextOwned⟩ := neighbours vacant
  refine ⟨?_, ?_, ?_⟩
  · rcases List.eq_nil_or_concat left with rfl | ⟨front, last, rfl⟩
    · exact .inl rfl
    · have occupied := lastOwned last (by simp)
      obtain ⟨request, member⟩ :=
        @owned_of_occupied first front (block :: right) last occupied
      refine .inr ⟨_, by simpa using member, ?_⟩
      simp only [List.concat_eq_append, span_append, span]
      omega
  · cases right with
    | nil =>
        simp only [span] at reach
        exact .inl (by omega)
    | cons next rest =>
        have occupied := nextOwned next (by simp)
        obtain ⟨request, member⟩ :=
          @owned_of_occupied first (left ++ [block]) rest next occupied
        refine .inr ⟨_, by simpa using member, ?_⟩
        simp only [span]
        omega
  · intro entry member
    rw [ownedRegions_append, ownedRegions_cons_vacant
      ((Block.vacant_iff block).mp vacant), List.mem_append] at member
    rcases member with inLeft | inRight
    · exact .inl (ownedRegions_bounds inLeft).2
    · exact .inr (ownedRegions_bounds inRight).1

theorem Represents.freeRegion_iff
    (heap : Represents freeList first tail mem blocks nodes)
    {address size : Nat} :
    FreeRegion mem first tail address size ↔
      Gap first tail (ownedRegions first blocks) address size := by
  have reach := heap.reach
  unfold FreeRegion
  rw [heap.regionAt_iff]
  constructor
  · rintro ⟨left, block, right, rfl, vacant, rfl, rfl⟩
    exact heap.gap_of_vacant vacant
  · intro gap
    have bounds : ∀ entry ∈ ownedRegions first blocks,
        first + 8 ≤ entry.1 ∧ entry.1 + entry.2.1 ≤ tail := by
      intro entry member
      rw [← reach]
      exact ownedRegions_bounds member
    have within := gap.within bounds
    obtain ⟨left, block, right, rfl, low, high⟩ :=
      exists_block_at within.1 (show address < first + span blocks by omega)
    -- The block that holds the address is not owned.
    have vacant : block.vacant = true := by
      by_contra occupied
      obtain ⟨request, member⟩ := @owned_of_occupied first left right block
        (by simpa using occupied)
      have apart := gap.apart _ member
      simp only at apart
      omega
    obtain ⟨rfl, rfl⟩ := gap.unique (heap.gap_of_vacant vacant) bounds low
      high
    exact ⟨left, block, right, rfl, vacant, rfl, rfl⟩

end Represents

end Witos.Mm
