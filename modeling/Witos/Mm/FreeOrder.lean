import Witos.Mm.HeapGaps

/-!
# The order of releases

A release takes one owned region away, so the regions after several releases
do not depend on their order, as long as every release keeps the heap well
formed.  It does unless it writes the links of the free list into an empty
payload.
-/

namespace Witos.Mm

open Library

section Represents

variable {freeList first tail : Nat} {mem : Mem} {blocks : List Block}
  {nodes : List Nat}

/-- On one side an owned region touches neither the end of the heap nor
another owned region. -/
def Loose (first tail : Nat) (owned : List (Nat × Nat × Nat))
    (pointer size : Nat) : Prop :=
  (pointer ≠ first + 8 ∧
    ∀ entry ∈ owned, entry.1 + entry.2.1 + 8 ≠ pointer) ∨
  (pointer + size ≠ tail ∧ ∀ entry ∈ owned, entry.1 ≠ pointer + size + 8)

theorem Loose.mono {owned owned' : List (Nat × Nat × Nat)}
    {pointer size : Nat} (loose : Loose first tail owned pointer size)
    (subset : ∀ entry ∈ owned', entry ∈ owned) :
    Loose first tail owned' pointer size := by
  rcases loose with ⟨inner, free⟩ | ⟨inner, free⟩
  · exact .inl ⟨inner, fun entry member => free entry (subset entry member)⟩
  · exact .inr ⟨inner, fun entry member => free entry (subset entry member)⟩

theorem Represents.vacantBefore_iff {left right : List Block}
    {block : Block}
    (heap : Represents freeList first tail mem (left ++ block :: right)
      nodes) :
    (∃ front last, left = front ++ [last] ∧ last.vacant = true) ↔
      first + span left + 8 ≠ first + 8 ∧
        ∀ entry ∈ ownedRegions first (left ++ block :: right),
          entry.1 + entry.2.1 + 8 ≠ first + span left + 8 := by
  rcases List.eq_nil_or_concat left with rfl | ⟨front, last, rfl⟩
  · simp [span]
  rw [List.concat_eq_append] at heap ⊢
  rw [List.append_assoc, List.singleton_append] at heap ⊢
  simp only [span_append, span]
  constructor
  · rintro ⟨front', last', shape, vacant⟩
    obtain ⟨rfl, same⟩ := List.append_inj' shape rfl
    obtain ⟨rfl, -⟩ := List.cons.inj same
    refine ⟨by omega, ?_⟩
    intro entry isOwned
    have := (heap.gap_of_vacant vacant).apart entry isOwned
    omega
  · rintro ⟨-, untouched⟩
    refine ⟨front, last, rfl, ?_⟩
    by_contra occupied
    obtain ⟨request, touching⟩ :=
      @owned_of_occupied first front (block :: right) last
        (by simpa using occupied)
    have := untouched _ touching
    simp only at this
    omega

theorem Represents.vacantAfter_iff {left right : List Block} {block : Block}
    (heap : Represents freeList first tail mem (left ++ block :: right)
      nodes) :
    (∃ next rest, right = next :: rest ∧ next.vacant = true) ↔
      first + span left + 8 + block.size ≠ tail ∧
        ∀ entry ∈ ownedRegions first (left ++ block :: right),
          entry.1 ≠ first + span left + 8 + block.size + 8 := by
  obtain ⟨reach, -⟩ := heap.place
  cases right with
  | nil =>
      simp only [span] at reach
      simp only [reduceCtorEq, false_and, exists_false, ne_eq, false_iff,
        not_and]
      intro inner
      omega
  | cons next rest =>
      have shape : left ++ block :: next :: rest =
          (left ++ [block]) ++ next :: rest := by simp
      simp only [span] at reach
      rw [shape] at heap ⊢
      constructor
      · rintro ⟨next', rest', same, vacant⟩
        obtain ⟨rfl, rfl⟩ := List.cons.inj same
        refine ⟨by omega, ?_⟩
        intro entry isOwned
        have := (heap.gap_of_vacant vacant).apart entry isOwned
        simp only [span_append, span] at this
        omega
      · rintro ⟨-, untouched⟩
        refine ⟨next, rest, rfl, ?_⟩
        by_contra occupied
        obtain ⟨request, touching⟩ :=
          @owned_of_occupied first (left ++ [block]) rest next
            (by simpa using occupied)
        have := untouched _ touching
        simp only [span_append, span] at this
        omega

/-- The tests of `free` see a gap beside the region. -/
theorem Represents.cushioned_iff_loose
    (heap : Represents freeList first tail mem blocks nodes)
    {pointer size request : Nat}
    (member : (pointer, size, request) ∈ ownedRegions first blocks) :
    Cushioned mem pointer ↔
      Loose first tail (ownedRegions first blocks) pointer size := by
  obtain ⟨left, block, right, rfl, -, rfl, rfl⟩ :=
    exists_of_mem_ownedRegions member
  rw [heap.cushioned_iff]
  exact or_congr heap.vacantBefore_iff heap.vacantAfter_iff

/-- One release takes exactly the region of its pointer away. -/
theorem Represents.free_owned
    (heap : Represents freeList first tail mem blocks nodes)
    {pointer size request : Nat}
    (live : (pointer, size, request) ∈ ownedRegions first blocks)
    (room : 8 ≤ size ∨
      Loose first tail (ownedRegions first blocks) pointer size) :
    ∃ blocks' nodes',
      Represents freeList first tail (Mm.free freeList mem pointer)
        blocks' nodes' ∧
      ∀ entry, entry ∈ ownedRegions first blocks' ↔
        entry ∈ ownedRegions first blocks ∧ entry.1 ≠ pointer := by
  obtain ⟨blocks', nodes', heap', owned⟩ := heap.free live
    (room.imp_right (heap.cushioned_iff_loose live).mpr)
  refine ⟨blocks', nodes', heap', ?_⟩
  have once := ((owned.map Prod.fst).nodup_iff).mp
    (ownedPointers_nodup first blocks)
  rw [List.map_cons, List.nodup_cons] at once
  intro entry
  rw [owned.mem_iff, List.mem_cons]
  constructor
  · intro member
    refine ⟨.inr member, ?_⟩
    rintro rfl
    exact once.1 (List.mem_map.mpr ⟨entry, member, rfl⟩)
  · rintro ⟨rfl | member, different⟩
    · exact absurd rfl different
    · exact member

/-- Several releases in any order take exactly their regions away. -/
theorem Represents.freeAll {pointers : List Nat}
    (heap : Represents freeList first tail mem blocks nodes)
    (room : ∀ entry ∈ ownedRegions first blocks, 8 ≤ entry.2.1 ∨
      Loose first tail (ownedRegions first blocks) entry.1 entry.2.1)
    (once : pointers.Nodup)
    (known : ∀ pointer ∈ pointers,
      pointer ∈ (ownedRegions first blocks).map Prod.fst) :
    ∃ blocks' nodes',
      Represents freeList first tail
        (pointers.foldl (Mm.free freeList) mem) blocks' nodes' ∧
      ∀ entry, entry ∈ ownedRegions first blocks' ↔
        entry ∈ ownedRegions first blocks ∧ entry.1 ∉ pointers := by
  induction pointers generalizing mem blocks nodes with
  | nil => exact ⟨blocks, nodes, heap, by simp⟩
  | cons pointer pointers induction =>
      obtain ⟨notLater, onceLater⟩ := List.nodup_cons.mp once
      obtain ⟨⟨_, size, request⟩, live, rfl⟩ :=
        List.mem_map.mp (known pointer List.mem_cons_self)
      obtain ⟨blocks', nodes', heap', owned⟩ :=
        heap.free_owned live (room _ live)
      have roomLater : ∀ entry ∈ ownedRegions first blocks',
          8 ≤ entry.2.1 ∨ Loose first tail (ownedRegions first blocks')
            entry.1 entry.2.1 := by
        intro entry member
        apply (room entry ((owned entry).mp member).1).imp_right
        intro loose
        exact loose.mono fun other isOwned => ((owned other).mp isOwned).1
      have knownLater : ∀ later ∈ pointers,
          later ∈ (ownedRegions first blocks').map Prod.fst := by
        intro later member
        obtain ⟨entry, isOwned, rfl⟩ :=
          List.mem_map.mp (known later (List.mem_cons_of_mem _ member))
        refine List.mem_map_of_mem ((owned entry).mpr ⟨isOwned, ?_⟩)
        intro same
        rw [same] at member
        exact notLater member
      obtain ⟨blocks'', nodes'', heap'', owned'⟩ :=
        induction heap' roomLater onceLater knownLater
      refine ⟨blocks'', nodes'', heap'', ?_⟩
      intro entry
      rw [owned', owned, and_assoc, List.mem_cons, not_or]

/-- An empty block without a vacant neighbour goes to the end of the list. -/
theorem Represents.free_empty_eq {left right : List Block} {block : Block}
    (heap : Represents freeList first tail mem (left ++ block :: right)
      nodes) (empty : block.size = 0)
    (squeezed : ¬ Cushioned mem (first + span left + 8)) :
    Mm.free freeList mem (first + span left + 8) =
      Mm.listAddTail ((mem.store (first + span left + 4) 0).store
        (first + span left + 8) 0) (first + span left + 8) freeList := by
  obtain ⟨reach, inside⟩ := heap.place
  rw [heap.cushioned_iff, not_or] at squeezed
  obtain ⟨-, suffix⟩ := headers_append.mp heap.headers
  have preTag := (headers_cons.mp suffix).1
  have cleared := heap.mergeSuccessor_eq_keep squeezed.2
  rw [empty, regionSetSize_word mem (show clearLow 4 0 = 0 from rfl)
    (by omega)] at cleared
  simp only [Nat.add_zero] at cleared
  have region : sub32 (first + span left + 8) dwordSize =
      first + span left := containerOf_eq (by omega)
  unfold Mm.free
  simp only [region, cleared]
  generalize changed : (mem.store (first + span left + 4) 0).store
    (first + span left + 8) 0 = mem'
  have decision : isFree (mem' (preSize (first + span left))) = false := by
    rw [← changed, ← Bool.not_eq_true]
    simp (disch := omega) only [preSize, Mem.store_of_ne]
    rw [preTag, isFree_lastTag]
    exact squeezed.1
  unfold Mm.mergePredecessor
  rw [decision, lnMemRegion_eq (by omega)]
  rfl

/-- The links of the free list go where the header behind an empty block
is. -/
theorem Represents.free_empty_words {left right : List Block} {block : Block}
    (heap : Represents freeList first tail mem (left ++ block :: right)
      nodes) (owned : block.vacant = false) (empty : block.size = 0)
    (squeezed : ¬ Cushioned mem (first + span left + 8)) :
    Tags (Mm.free freeList mem (first + span left + 8)) 1 first left ∧
      Mm.free freeList mem (first + span left + 8) (first + span left + 4) =
        0 ∧
      Mm.free freeList mem (first + span left + 8) (first + span left + 8) =
        freeList := by
  obtain ⟨reach, inside⟩ := heap.place
  have tags := (headers_append.mp heap.headers).1
  have listed := heap.listed
  rw [vacantNodes_append, vacantNodes_cons_owned owned] at listed
  have around := beside block heap.reach heap.outside listed
  simp only [empty, Nat.add_zero] at around
  rw [heap.free_empty_eq empty squeezed]
  generalize cleared : (mem.store (first + span left + 4) 0).store
    (first + span left + 8) 0 = mem'
  have ring : FreeRing mem' freeList nodes := by
    apply heap.links.of_area around
    intro word apart
    rw [← cleared]
    simp (disch := omega) only [Mem.store_of_ne]
  obtain ⟨newRing, frame⟩ := ring.listAddTail (first + span left + 8)
    (by
      intro other member
      have := around other member
      unfold Apart
      omega)
    (by omega)
  refine ⟨?_, ?_, ?_⟩
  · apply tags.congr
    intro word isHeader below
    rw [frame, ← cleared]
    · simp (disch := omega) only [Mem.store_of_ne]
    · intro other member
      rw [← List.cons_append, List.mem_append, List.mem_singleton,
        List.mem_cons] at member
      rcases member with (rfl | inNodes) | rfl
      · have := around _ List.mem_cons_self
        have := headerWords_ge isHeader
        have outside := heap.outside
        unfold Outside at outside
        omega
      · rcases List.mem_append.mp (listed.subset inNodes) with
          inLeft | inRight
        · exact vacantNodes_not_header inLeft isHeader
        · have := vacantNodes_bounds inRight
          omega
      · omega
  · rw [frame, ← cleared]
    · simp (disch := omega) only [Mem.store_of_ne, Mem.store_same]
    · intro other member
      rw [← List.cons_append, List.mem_append, List.mem_singleton] at member
      rcases member with old | rfl
      · have := around other old
        omega
      · omega
  · exact newRing.ring.next_last

/-- Releasing an empty block between two owned ones breaks the boundary
tags. -/
theorem Represents.free_empty {pointer request : Nat}
    (heap : Represents freeList first tail mem blocks nodes)
    (live : (pointer, 0, request) ∈ ownedRegions first blocks)
    (squeezed : ¬ Cushioned mem pointer) (static : freeList ≠ 0)
    (owners : List (Nat × Nat)) :
    ¬ WellFormed freeList first tail
      ⟨Mm.free freeList mem pointer, owners⟩ := by
  obtain ⟨left, block, right, rfl, owner, empty, rfl⟩ :=
    exists_of_mem_ownedRegions live
  have owned : block.vacant = false := by simp [Block.vacant, owner]
  obtain ⟨reach, inside⟩ := heap.place
  obtain ⟨tags, size, link⟩ := heap.free_empty_words owned empty squeezed
  rintro ⟨regions, nodes', tiles, tagged, -⟩
  generalize Mm.free freeList mem (first + span left + 8) = mem' at *
  obtain ⟨rest, rfl, behind⟩ := tiles.of_tags tags (by omega) inside
  have sizeWord : mem' (currSize (first + span left)) = 0 := by
    rw [currSize_eq (by omega), size]
  cases rest with
  | nil =>
      have atEnd : first + span left = tail := behind
      omega
  | cons region rest =>
      obtain ⟨rfl, behind⟩ := behind
      have noBytes : getSize mem' (first + span left) = 0 := by
        unfold getSize
        rw [sizeWord]
        rfl
      rw [noBytes] at behind
      -- The next header begins with a link instead of the size word.
      have next : ∃ more, rest ++ [tail] =
          (first + span left + 8) :: more := by
        cases rest with
        | nil =>
            have atEnd : first + span left + 8 + 0 = tail := behind
            exact ⟨[], by simp [← atEnd]⟩
        | cons second rest => exact ⟨rest ++ [tail], by rw [behind.1]; rfl⟩
      obtain ⟨more, shape⟩ := next
      unfold Tagged at tagged
      rw [List.append_assoc, List.cons_append, shape,
        List.isChain_append] at tagged
      have mismatch := (List.isChain_cons_cons.mp tagged.2.1).1
      simp only [preSize, sizeWord, link] at mismatch
      exact static mismatch

end Represents

/-- The heap after its user has released `pointers` one after another. -/
def Heap.freeAll (freeList : Nat) (heap : Heap) (pointers : List Nat) :
    Heap where
  mem := pointers.foldl (free freeList) heap.mem
  live := heap.live.filter (fun block => block.1 ∉ pointers)

/-- Two orders of the same releases keep the heap well formed, so that its
regions can be read, and leave the same regions. -/
structure SameRegions (freeList first tail : Nat) (heap : Heap)
    (pointers others : List Nat) : Prop where
  wellFormed : WellFormed freeList first tail
    (heap.freeAll freeList pointers)
  wellFormedOther : WellFormed freeList first tail
    (heap.freeAll freeList others)
  sameFree : ∀ address size,
    FreeRegion (heap.freeAll freeList pointers).mem first tail address size ↔
      FreeRegion (heap.freeAll freeList others).mem first tail address size
  sameAllocated : ∀ address size,
    AllocatedRegion (heap.freeAll freeList pointers).mem first tail address
        size ↔
      AllocatedRegion (heap.freeAll freeList others).mem first tail address
        size

/-- One free region has all the bytes that `__heap_init` gave to its first
region, and nothing is allocated. -/
structure OneFreeRegion (mem : Mem) (first tail : Nat) : Prop where
  free : ∀ address size, FreeRegion mem first tail address size ↔
    address = first ∧ size = tail - first - 8
  allocated : ∀ address size, ¬ AllocatedRegion mem first tail address size

/-- The order in which live blocks are released does not matter. -/
def FreesCommute (freeList first tail : Nat) (heap : Heap) : Prop :=
  ∀ pointers others : List Nat,
    pointers.Subperm (heap.live.map Prod.fst) → pointers.Perm others →
    SameRegions freeList first tail heap pointers others ∧
      (pointers.Perm (heap.live.map Prod.fst) →
        OneFreeRegion (heap.freeAll freeList pointers).mem first tail)

section FreeAll

variable {freeList first tail : Nat} {heap : Heap} {blocks : List Block}
  {nodes pointers : List Nat}

theorem livePointers_eq (region : Nat) (blocks : List Block) :
    (liveBlocks region blocks).map Prod.fst =
      (ownedRegions region blocks).map Prod.fst := by
  rw [liveBlocks_eq, List.map_map]
  rfl

theorem liveBlocks_nodup (region : Nat) (blocks : List Block) :
    (liveBlocks region blocks).Nodup := by
  apply List.Nodup.of_map Prod.fst
  rw [livePointers_eq]
  exact ownedPointers_nodup region blocks

theorem mem_liveBlocks {region : Nat} {blocks : List Block}
    {block : Nat × Nat} :
    block ∈ liveBlocks region blocks ↔
      ∃ size, (block.1, size, block.2) ∈ ownedRegions region blocks := by
  constructor
  · exact exists_owned_of_live
  · rintro ⟨size, owned⟩
    rw [liveBlocks_eq]
    exact List.mem_map.mpr ⟨_, owned, rfl⟩

theorem live_filter_perm {blocks' : List Block}
    (owners : heap.live.Perm (liveBlocks first blocks))
    (owned : ∀ entry, entry ∈ ownedRegions first blocks' ↔
      entry ∈ ownedRegions first blocks ∧ entry.1 ∉ pointers) :
    (heap.live.filter (fun block => block.1 ∉ pointers)).Perm
      (liveBlocks first blocks') := by
  have once := owners.nodup_iff.mpr (liveBlocks_nodup first blocks)
  refine (List.perm_ext_iff_of_nodup (once.filter _)
    (liveBlocks_nodup first blocks')).mpr ?_
  intro block
  rw [List.mem_filter, owners.mem_iff, mem_liveBlocks, mem_liveBlocks]
  simp [owned]

/-- Releasing live blocks of which every empty one has a free neighbour. -/
theorem Represents.freeAll_live
    (heap' : Represents freeList first tail heap.mem blocks nodes)
    (owners : heap.live.Perm (liveBlocks first blocks))
    (cushioned : ∀ block ∈ heap.live, payloadSize heap.mem block.1 = 0 →
      Cushioned heap.mem block.1)
    (chosen : pointers.Subperm (heap.live.map Prod.fst)) :
    ∃ blocks' nodes',
      Represents freeList first tail
        (heap.freeAll freeList pointers).mem blocks' nodes' ∧
      ∀ entry, entry ∈ ownedRegions first blocks' ↔
        entry ∈ ownedRegions first blocks ∧ entry.1 ∉ pointers := by
  have places : (heap.live.map Prod.fst).Perm
      ((ownedRegions first blocks).map Prod.fst) := by
    rw [← livePointers_eq]
    exact owners.map Prod.fst
  apply heap'.freeAll
  · rintro ⟨pointer, size, request⟩ owned
    rcases empty_or_large owned with rfl | large
    · right
      rw [← heap'.cushioned_iff_loose owned]
      have isLive : (pointer, request) ∈ liveBlocks first blocks :=
        mem_liveBlocks.mpr ⟨0, owned⟩
      exact cushioned (pointer, request) (owners.symm.subset isLive)
        (heap'.payloadSize_owned owned)
    · exact .inl large
  · have once := places.nodup_iff.mpr (ownedPointers_nodup first blocks)
    obtain ⟨others, same, sublist⟩ := chosen
    exact same.nodup_iff.mp (once.sublist sublist)
  · intro pointer member
    exact places.subset (chosen.subset member)

end FreeAll

/-- In a heap with the boundary-tag invariant the order of releases does not
matter exactly when no empty live block lies between two allocated ones. -/
theorem freesCommute_iff {freeList first tail : Nat} {heap : Heap}
    (tracked : Tracked freeList first tail heap) (room : first < tail)
    (static : freeList ≠ 0) :
    FreesCommute freeList first tail heap ↔
      ∀ block ∈ heap.live, payloadSize heap.mem block.1 = 0 →
        Cushioned heap.mem block.1 := by
  obtain ⟨blocks, nodes, represented, owners⟩ := tracked
  constructor
  · rintro commute ⟨pointer, request⟩ isLive empty
    by_contra squeezed
    obtain ⟨size, owned⟩ := exists_owned_of_live (owners.subset isLive)
    rw [represented.payloadSize_owned owned] at empty
    subst empty
    have chosen : [pointer].Subperm (heap.live.map Prod.fst) :=
      List.singleton_subperm_iff.mpr (List.mem_map.mpr ⟨_, isLive, rfl⟩)
    have after := (commute [pointer] [pointer] chosen (.refl _)).1.wellFormed
    exact represented.free_empty owned squeezed static _ after
  · intro cushioned pointers others chosen same
    have chosenOther := same.symm.subperm.trans chosen
    obtain ⟨blocks', nodes', after, owned⟩ :=
      represented.freeAll_live owners cushioned chosen
    obtain ⟨blocks'', nodes'', afterOther, ownedOther⟩ :=
      represented.freeAll_live owners cushioned chosenOther
    have agree : ∀ entry, entry ∈ ownedRegions first blocks' ↔
        entry ∈ ownedRegions first blocks'' := by
      intro entry
      rw [owned, ownedOther, same.mem_iff]
    refine ⟨⟨after.wellFormed (live_filter_perm owners owned),
      afterOther.wellFormed (live_filter_perm owners ownedOther),
      ?_, ?_⟩, ?_⟩
    · intro address size
      rw [after.freeRegion_iff, afterOther.freeRegion_iff]
      exact ⟨fun gap => gap.congr agree,
        fun gap => gap.congr fun entry => (agree entry).symm⟩
    · intro address size
      rw [after.allocatedRegion_iff, afterOther.allocatedRegion_iff]
      simp only [agree]
    · intro whole
      have nothing : ownedRegions first blocks' = [] := by
        rw [List.eq_nil_iff_forall_not_mem]
        intro entry member
        obtain ⟨old, kept⟩ := (owned entry).mp member
        apply kept
        rw [whole.mem_iff, (owners.map Prod.fst).mem_iff, livePointers_eq]
        exact List.mem_map_of_mem old
      have reach := represented.reach
      have long : first + 8 ≤ tail := by
        cases blocks with
        | nil =>
            simp only [span] at reach
            omega
        | cons block blocks =>
            simp only [span] at reach
            omega
      constructor
      · intro address size
        rw [after.freeRegion_iff, nothing, gap_nil_iff long]
      · intro address size
        rw [after.allocatedRegion_iff, nothing]
        simp

/-- The heap after allocations of these sizes. -/
def Heap.mallocAll (freeList : Nat) (heap : Heap) : List Nat → Option Heap
  | [] => some heap
  | size :: sizes =>
      (malloc freeList heap.mem size).bind fun result =>
        Heap.mallocAll freeList ⟨result.1, if result.2 = 0 then heap.live
          else (result.2, size) :: heap.live⟩ sizes

theorem Tracked.mallocAll {freeList first tail : Nat} {heap heap' : Heap}
    {sizes : List Nat} (tracked : Tracked freeList first tail heap)
    (bounded : ∀ size ∈ sizes, size ≤ 2 ^ 32 - 8)
    (calls : heap.mallocAll freeList sizes = some heap') :
    Tracked freeList first tail heap' := by
  induction sizes generalizing heap with
  | nil =>
      obtain rfl := Option.some.inj calls
      exact tracked
  | cons size sizes induction =>
      obtain ⟨⟨mem', pointer⟩, call, later⟩ :=
        Option.bind_eq_some_iff.mp calls
      exact induction (tracked.malloc (bounded size List.mem_cons_self) call)
        (fun other member => bounded other (List.mem_cons_of_mem _ member))
        later

/-- A page that `__heap_init` has just made the heap. -/
def page : Heap :=
  ⟨(heapInit 256 (fun _ => 256) 4096 8192).getD (fun _ => 0), []⟩

theorem page_tracked : Tracked 256 4096 8184 page := by
  have initialised : Initialised 256 4096 8192 (fun _ => 256) page.mem :=
    { startWord := by decide
      stopWord := by decide
      headWord := by decide
      emptyNext := rfl
      emptyPrev := rfl
      outside := Or.inl (by decide)
      success := rfl }
  exact initialised.tracked (by decide)

/-- After `malloc(100)` and `malloc(0)` the empty block lies before the free
rest of the page. -/
theorem freesCommute_iff_page :
    ∃ heap, page.mallocAll 256 [100, 0] = some heap ∧
      heap.live = [(4216, 0), (4104, 100)] ∧
      FreesCommute 256 4096 8184 heap := by
  have made : (page.mallocAll 256 [100, 0]).isSome = true := by decide
  obtain ⟨heap, calls⟩ := Option.isSome_iff_exists.mp made
  have pointers : (page.mallocAll 256 [100, 0]).map Heap.live =
      some [(4216, 0), (4104, 100)] := by decide
  have words : (page.mallocAll 256 [100, 0]).map (fun heap =>
      (payloadSize heap.mem 4104, decide (Cushioned heap.mem 4216))) =
      some (104, true) := by decide
  rw [calls, Option.map_some, Option.some.injEq] at pointers words
  obtain ⟨long, cushioned⟩ := Prod.mk.inj words
  refine ⟨heap, calls, pointers,
    (freesCommute_iff (page_tracked.mallocAll (by decide) calls) (by decide)
      (by decide)).mpr ?_⟩
  intro block member empty
  rw [pointers] at member
  simp only [List.mem_cons, List.not_mem_nil, or_false] at member
  rcases member with rfl | rfl
  · exact of_decide_eq_true cushioned
  · exact absurd (long.symm.trans empty) (by decide)

/-- After `malloc(8)`, `malloc(0)` and `malloc(8)` the empty block lies
between two others.  Releasing it before the first block puts a link where
the size of the third block is, and the walk over the headers leaves the
heap. -/
theorem freesCommute_not_squeezed :
    ¬ ∀ (freeList first tail : Nat) (heap : Heap)
        (pointers others : List Nat),
      Tracked freeList first tail heap → freeList ≠ 0 →
      pointers.Subperm (heap.live.map Prod.fst) → pointers.Perm others →
      ∀ address size,
        FreeRegion (heap.freeAll freeList pointers).mem first tail address
            size ↔
          FreeRegion (heap.freeAll freeList others).mem first tail address
            size := by
  intro always
  have made : (page.mallocAll 256 [8, 0, 8]).isSome = true := by decide
  obtain ⟨heap, calls⟩ := Option.isSome_iff_exists.mp made
  have pointers : (page.mallocAll 256 [8, 0, 8]).map Heap.live =
      some [(4128, 8), (4120, 0), (4104, 8)] := by decide
  have words : (page.mallocAll 256 [8, 0, 8]).map (fun heap =>
      let mem := (heap.freeAll 256 [4104, 4120]).mem
      let mem' := (heap.freeAll 256 [4120, 4104]).mem
      (getSize mem 4096, getSize mem 4120, getSize mem 4136,
        isFree (mem (currSize 4096)), getSize mem' 4096,
        getSize mem' 4120)) =
      some (16, 8, 4040, true, 16, 4144) := by decide
  rw [calls, Option.map_some, Option.some.injEq] at pointers words
  simp only [Prod.mk.injEq] at words
  obtain ⟨size, size', size'', free, wrong, wrong'⟩ := words
  have chosen : [4104, 4120].Subperm (heap.live.map Prod.fst) := by
    rw [pointers]
    decide
  have agree := always 256 4096 8184 heap [4104, 4120] [4120, 4104]
    (page_tracked.mallocAll (by decide) calls) (by decide) chosen
    (.swap _ _ _) 4096 16
  have tiles : Tiles (heap.freeAll 256 [4104, 4120]).mem 4096
      [4096, 4120, 4136] 8184 := by
    simp [Tiles, size, size', size'']
  obtain ⟨regions, walk, -⟩ :=
    agree.mp ⟨_, tiles, List.mem_cons_self, free, size⟩
  cases regions with
  | nil =>
      have atEnd : 4096 = 8184 := walk
      omega
  | cons region regions =>
      have second := walk.2
      rw [wrong] at second
      cases regions with
      | nil =>
          have atEnd : 4096 + 8 + 16 = 8184 := second
          omega
      | cons region' regions =>
          have third := second.2
          rw [wrong'] at third
          exact absurd third.le (by decide)

end Witos.Mm
