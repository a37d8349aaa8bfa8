import Witos.Mm.FreeOrder

/-!
# Allocations of extreme sizes

`LIST_NODE_ALIGN` leaves 0 as it is and wraps to 0 above `2 ^ 32 - 8`.  Such
a call takes the first free region, whatever it is, and hands out no byte of
it when the rest can be a region of its own.  The empty block that is left is
harmless while a neighbour is free.  The file follows it through later calls
until the last free region is gone.
-/

namespace Witos.Mm

open Library

/-- Requests that no region can serve: nothing at all, or more than
`LIST_NODE_ALIGN` can round up. -/
def Extreme (size : Nat) : Prop :=
  size = 0 ∨ 2 ^ 32 - 8 < size ∧ size < 2 ^ 32

theorem Extreme.listNodeAlign {size : Nat} (extreme : Extreme size) :
    listNodeAlign size = 0 := by
  unfold Mm.listNodeAlign
  rcases extreme with rfl | ⟨above, below⟩
  · rfl
  · have wrapped : add32 size (listNodeSize - 1) =
        size + 7 - 2 ^ 32 := by
      unfold add32 listNodeSize
      omega
    rw [wrapped]
    simp only [listNodeSize, clearLow]
    omega

namespace Represents

variable {freeList first tail : Nat} {mem : Mem} {blocks : List Block}
  {node size : Nat} {after : List Nat}

theorem malloc_empty (heap : Represents freeList first tail mem blocks [])
    (size : Nat) : Mm.malloc freeList mem size = some (mem, 0) := by
  have scan := heap.scan (Mm.listNodeAlign size)
  simp only [List.find?_nil] at scan
  simp only [Mm.malloc, scan]

theorem first_node
    (heap : Represents freeList first tail mem blocks (node :: after)) :
    ∃ left block right, blocks = left ++ block :: right ∧
      block.vacant = true ∧ node = first + span left + 8 ∧
      mem (nextField freeList) = node ∧
      mem (currSize (containerOf node)) = block.size := by
  have inVacant : node ∈ vacantNodes first blocks :=
    heap.listed.subset List.mem_cons_self
  obtain ⟨left, block, right, rfl, vacant, rfl⟩ :=
    exists_of_mem_vacantNodes inVacant
  have inside := heap.inside_span
  obtain ⟨tag, -⟩ := heap.headers.words inside
  simp only [span_append, span] at inside
  refine ⟨left, block, right, rfl, vacant, rfl, heap.links.ring.1, ?_⟩
  rw [containerOf_eq (by omega), tag, Block.tag_of_vacant vacant]

/-- Every free region holds the smallest allocation, so the first one is
taken. -/
theorem malloc_first
    (heap : Represents freeList first tail mem blocks (node :: after))
    (small : Mm.listNodeAlign size ≤ 8) :
    Mm.malloc freeList mem size =
      some (doAlloc freeList mem (Mm.listNodeAlign size) node) := by
  obtain ⟨-, block, -, -, vacant, -, -, word⟩ := heap.first_node
  have large := Block.large_of_vacant vacant
  have scan := heap.scan (Mm.listNodeAlign size)
  have fits : Mm.listNodeAlign size ≤ mem (currSize (containerOf node)) := by
    rw [word]
    omega
  simp only [List.find?_cons, fits, decide_true] at scan
  simp only [Mm.malloc, scan]

theorem malloc_served
    (heap : Represents freeList first tail mem blocks (node :: after))
    (small : Mm.listNodeAlign size ≤ 8) :
    Mm.malloc freeList mem size ≠ some (mem, 0) := by
  rw [heap.malloc_first small]
  intro same
  obtain ⟨left, block, right, rfl, -, rfl, -, -⟩ := heap.first_node
  have inside := heap.inside_span
  simp only [span_append, span] at inside
  have pointer := (Prod.mk.inj (Option.some.inj same)).2
  rw [containerOf_eq (by omega), lnMemRegion_eq (by omega)] at pointer
  omega

theorem malloc_whole
    (heap : Represents freeList first tail mem blocks (node :: after))
    (extreme : Extreme size)
    (short : mem (currSize (containerOf node)) < 16) :
    ∃ mem' blocks' nodes' given, node ≠ 0 ∧ 8 ≤ given ∧ given < 16 ∧
      Mm.malloc freeList mem size = some (mem', node) ∧
      Represents freeList first tail mem' blocks' nodes' ∧
      (ownedRegions first blocks').Perm
        ((node, given, 0) :: ownedRegions first blocks) := by
  have zero := extreme.listNodeAlign
  have call := heap.malloc_first (by omega : Mm.listNodeAlign size ≤ 8)
  obtain ⟨left, block, right, rfl, vacant, rfl, -, word⟩ := heap.first_node
  rw [word] at short
  have listed : Represents freeList first tail mem (left ++ block :: right)
      ([] ++ (first + span left + 8) :: after) := heap
  obtain ⟨mem', taken, owner, sameSize, result, heap'⟩ :=
    listed.doAlloc_whole vacant (Nat.zero_le block.size) (Nat.le_refl 0)
      (by omega)
  rw [zero, result] at call
  refine ⟨mem', _, _, block.size, by omega, Block.large_of_vacant vacant,
    short, call, heap', ?_⟩
  rw [ownedRegions_append, ownedRegions_append,
    ownedRegions_cons_owned owner,
    ownedRegions_cons_vacant ((Block.vacant_iff block).mp vacant), sameSize]
  exact List.perm_middle

/-- A request of nothing cuts an empty block off the front of a long region;
what lies before it is owned. -/
theorem malloc_carved
    (heap : Represents freeList first tail mem blocks (node :: after))
    (extreme : Extreme size)
    (long : 16 ≤ mem (currSize (containerOf node))) :
    ∃ mem' blocks' nodes', node ≠ 0 ∧
      Mm.malloc freeList mem size = some (mem', node) ∧
      Represents freeList first tail mem' blocks' nodes' ∧
      (ownedRegions first blocks').Perm
        ((node, 0, 0) :: ownedRegions first blocks) ∧
      (node = first + 8 ∨ ∃ entry ∈ ownedRegions first blocks,
        entry.1 + entry.2.1 + 8 = node) := by
  have zero := extreme.listNodeAlign
  have call := heap.malloc_first (by omega : Mm.listNodeAlign size ≤ 8)
  obtain ⟨left, block, right, rfl, vacant, rfl, -, word⟩ := heap.first_node
  rw [word] at long
  have listed : Represents freeList first tail mem (left ++ block :: right)
      ([] ++ (first + span left + 8) :: after) := heap
  obtain ⟨mem', front, back, owner, frontSize, backOwner, sizes, result,
      heap'⟩ :=
    listed.doAlloc_split vacant (Nat.zero_le block.size) (Nat.le_refl 0)
      (Nat.zero_mod 8) (.inl ⟨rfl, rfl⟩) (by omega)
  rw [zero, result] at call
  refine ⟨mem', _, _, by omega, call, heap', ?_, ?_⟩
  · have address : first + span left + 8 + front.size + 8 + back.size =
        first + span left + 8 + block.size := by omega
    rw [ownedRegions_append, ownedRegions_append,
      ownedRegions_cons_owned owner, ownedRegions_cons_vacant backOwner,
      ownedRegions_cons_vacant ((Block.vacant_iff block).mp vacant),
      address, frontSize]
    exact List.perm_middle
  · rcases (heap.gap_of_vacant vacant).starts with atFirst |
      ⟨entry, member, touching⟩
    · exact .inl (by omega)
    · exact .inr ⟨entry, member, by omega⟩

/-- A request of nothing takes a few bytes of the first region, or none. -/
theorem malloc_extreme
    (heap : Represents freeList first tail mem blocks (node :: after))
    (extreme : Extreme size) :
    ∃ mem' blocks' nodes' given, node ≠ 0 ∧ given < 16 ∧
      Mm.malloc freeList mem size = some (mem', node) ∧
      Represents freeList first tail mem' blocks' nodes' ∧
      (ownedRegions first blocks').Perm
        ((node, given, 0) :: ownedRegions first blocks) := by
  by_cases short : mem (currSize (containerOf node)) < 16
  · obtain ⟨mem', blocks', nodes', given, notNull, -, few, call, heap',
      owned⟩ := heap.malloc_whole extreme short
    exact ⟨mem', blocks', nodes', given, notNull, few, call, heap', owned⟩
  · obtain ⟨mem', blocks', nodes', notNull, call, heap', owned, -⟩ :=
      heap.malloc_carved extreme (Nat.le_of_not_lt short)
    exact ⟨mem', blocks', nodes', 0, notNull, by omega, call, heap', owned⟩

end Represents

/-- A call of the allocator with any 32-bit size, or the release of a pointer
that is live. -/
inductive Call (freeList : Nat) : Heap → Heap → Prop where
  | malloc {heap : Heap} {size pointer : Nat} {mem' : Mem} :
      size < 2 ^ 32 →
      malloc freeList heap.mem size = some (mem', pointer) →
      Call freeList heap
        ⟨mem', if pointer = 0 then heap.live
          else (pointer, size) :: heap.live⟩
  | free {heap : Heap} {pointer request : Nat} :
      (pointer, request) ∈ heap.live →
      Call freeList heap
        ⟨free freeList heap.mem pointer,
          heap.live.erase (pointer, request)⟩

/-- A call after which the heap is well formed and `block` is live. -/
def KeepingCall (freeList first tail : Nat) (block : Nat × Nat)
    (heap heap' : Heap) : Prop :=
  Call freeList heap heap' ∧ WellFormed freeList first tail heap' ∧
    block ∈ heap'.live

/-- A run that keeps the heap well formed and does not release `block`. -/
def Lasting (freeList first tail : Nat) (block : Nat × Nat) :
    Heap → Heap → Prop :=
  Relation.ReflTransGen (KeepingCall freeList first tail block)

/-- The invariant of such runs: the region of the block stays as it is. -/
def Holds (freeList first tail : Nat) (heap : Heap)
    (entry : Nat × Nat × Nat) : Prop :=
  ∃ blocks nodes, Represents freeList first tail heap.mem blocks nodes ∧
    heap.live.Perm (liveBlocks first blocks) ∧
    entry ∈ ownedRegions first blocks

section Holds

variable {freeList first tail : Nat} {heap heap' : Heap}
  {entry : Nat × Nat × Nat}

theorem Holds.malloc {size pointer : Nat} {mem' : Mem}
    (holds : Holds freeList first tail heap entry) (word : size < 2 ^ 32)
    (call : malloc freeList heap.mem size = some (mem', pointer))
    (wellFormed : WellFormed freeList first tail
      ⟨mem', if pointer = 0 then heap.live
        else (pointer, size) :: heap.live⟩) :
    Holds freeList first tail
      ⟨mem', if pointer = 0 then heap.live
        else (pointer, size) :: heap.live⟩ entry := by
  obtain ⟨blocks, nodes, represented, owners, owned⟩ := holds
  have unchanged : Mm.malloc freeList heap.mem size = some (heap.mem, 0) →
      Holds freeList first tail ⟨mem', if pointer = 0 then heap.live
        else (pointer, size) :: heap.live⟩ entry := by
    intro full
    rw [full] at call
    obtain ⟨rfl, rfl⟩ := Prod.mk.inj (Option.some.inj call)
    exact ⟨blocks, nodes, represented, by simpa using owners, owned⟩
  by_cases bounded : size ≤ 2 ^ 32 - 8
  · rcases represented.malloc bounded with full | served
    · exact unchanged full
    · obtain ⟨newMem, newPointer, given, blocks', nodes', notNull, result,
        represented', live⟩ := served
      rw [result] at call
      obtain ⟨rfl, rfl⟩ := Prod.mk.inj (Option.some.inj call)
      refine ⟨blocks', nodes', represented', ?_,
        live.symm.subset (List.mem_cons_of_mem _ owned)⟩
      simp only [notNull, if_false]
      exact (owners.cons _).trans (liveBlocks_perm live).symm
  · cases nodes with
    | nil => exact unchanged (represented.malloc_empty size)
    | cons node after =>
        -- The region is far shorter than the request.
        obtain ⟨newMem, blocks', nodes', given, notNull, few, result,
          represented', live⟩ :=
          represented.malloc_extreme (.inr ⟨by omega, word⟩)
        rw [result] at call
        obtain ⟨rfl, rfl⟩ := Prod.mk.inj (Option.some.inj call)
        simp only [notNull, if_false] at wellFormed
        obtain ⟨regions, -, -, -, -, -, disjoint⟩ := wellFormed
        have enough := disjoint.longEnough (node, size) List.mem_cons_self
        have payload := represented'.payloadSize_owned
          (live.symm.subset List.mem_cons_self)
        simp only [payload] at enough
        omega

theorem Holds.free {pointer request : Nat}
    (holds : Holds freeList first tail heap entry) (static : freeList ≠ 0)
    (isLive : (pointer, request) ∈ heap.live)
    (wellFormed : WellFormed freeList first tail
      ⟨free freeList heap.mem pointer,
        heap.live.erase (pointer, request)⟩)
    (kept : (entry.1, entry.2.2) ∈ heap.live.erase (pointer, request)) :
    Holds freeList first tail ⟨Mm.free freeList heap.mem pointer,
      heap.live.erase (pointer, request)⟩ entry := by
  obtain ⟨blocks, nodes, represented, owners, owned⟩ := holds
  obtain ⟨size, released⟩ := exists_owned_of_live (owners.subset isLive)
  have room : 8 ≤ size ∨ Cushioned heap.mem pointer := by
    rcases empty_or_large released with rfl | large
    · right
      by_contra squeezed
      exact represented.free_empty released squeezed static _ wellFormed
    · exact .inl large
  obtain ⟨blocks', nodes', represented', live⟩ :=
    represented.free released room
  refine ⟨blocks', nodes', represented', ?_, ?_⟩
  · exact ((List.perm_cons_erase isLive).symm.trans
      (owners.trans (liveBlocks_perm live))).cons_inv
  · rcases List.mem_cons.mp (live.subset owned) with rfl | other
    · have once := owners.nodup_iff.mpr (liveBlocks_nodup first blocks)
      exact absurd kept once.not_mem_erase
    · exact other

theorem Holds.run (holds : Holds freeList first tail heap entry)
    (static : freeList ≠ 0)
    (run : Lasting freeList first tail (entry.1, entry.2.2) heap heap') :
    Holds freeList first tail heap' entry := by
  induction run with
  | refl => exact holds
  | tail _ step induction =>
      obtain ⟨call, wellFormed, kept⟩ := step
      cases call with
      | malloc word result => exact induction.malloc word result wellFormed
      | free isLive => exact induction.free static isLive wellFormed kept

/-- A block that can hold the links is released without harm. -/
theorem Holds.release {pointer size request : Nat}
    (holds : Holds freeList first tail heap (pointer, size, request))
    (large : 8 ≤ size) :
    WellFormed freeList first tail ⟨Mm.free freeList heap.mem pointer,
      heap.live.erase (pointer, request)⟩ := by
  obtain ⟨blocks, nodes, represented, owners, owned⟩ := holds
  obtain ⟨blocks', nodes', represented', live⟩ :=
    represented.free owned (.inl large)
  have isLive : (pointer, request) ∈ heap.live :=
    owners.symm.subset (mem_liveBlocks.mpr ⟨size, owned⟩)
  exact represented'.wellFormed ((List.perm_cons_erase isLive).symm.trans
    (owners.trans (liveBlocks_perm live))).cons_inv

end Holds

theorem ownedRegions_length_le (region : Nat) (blocks : List Block) :
    8 * (ownedRegions region blocks).length ≤ span blocks := by
  induction blocks generalizing region with
  | nil => simp [ownedRegions]
  | cons block blocks induction =>
      have := induction (region + 8 + block.size)
      cases owner : block.owner with
      | none =>
          rw [ownedRegions_cons_vacant owner]
          simp only [span]
          omega
      | some request =>
          rw [ownedRegions_cons_owned owner]
          simp only [List.length_cons, span]
          omega

/-- Allocations of one byte use all free regions up while a block stays
live.  The induction is on the number of regions that may still be made. -/
theorem exists_exhausted {freeList first tail : Nat} {heap : Heap}
    {blocks : List Block} {nodes : List Nat} {block : Nat × Nat}
    (represented : Represents freeList first tail heap.mem blocks nodes)
    (owners : heap.live.Perm (liveBlocks first blocks))
    (isLive : block ∈ heap.live) (more : Nat)
    (room : tail - first < 8 * ((ownedRegions first blocks).length + more)) :
    ∃ later blocks', Lasting freeList first tail block heap later ∧
      Represents freeList first tail later.mem blocks' [] ∧
      ∀ entry ∈ ownedRegions first blocks,
        entry ∈ ownedRegions first blocks' := by
  induction more generalizing heap blocks nodes with
  | zero =>
      have long := ownedRegions_length_le first blocks
      have reach := represented.reach
      omega
  | succ more induction =>
      cases nodes with
      | nil => exact ⟨heap, blocks, .refl, represented, fun _ owned => owned⟩
      | cons node after =>
          rcases represented.malloc (by decide : 1 ≤ 2 ^ 32 - 8) with
            full | served
          · exact absurd full (represented.malloc_served (by decide))
          obtain ⟨mem', pointer, given, blocks', nodes', notNull, call,
            represented', live⟩ := served
          have owners' : ((pointer, 1) :: heap.live).Perm
              (liveBlocks first blocks') :=
            (owners.cons _).trans (liveBlocks_perm live).symm
          have kept := List.mem_cons_of_mem (pointer, 1) isLive
          have step : KeepingCall freeList first tail block heap
              ⟨mem', (pointer, 1) :: heap.live⟩ := by
            refine ⟨?_, represented'.wellFormed owners', kept⟩
            have made := Call.malloc (by decide) call
            simpa only [notNull, if_false] using made
          have longer := live.length_eq
          rw [List.length_cons] at longer
          have less : tail - first <
              8 * ((ownedRegions first blocks').length + more) := by
            omega
          obtain ⟨later, blocks'', run, final, owned⟩ :=
            @induction ⟨mem', (pointer, 1) :: heap.live⟩ blocks' nodes'
              represented' owners' kept less
          refine ⟨later, blocks'', .head step run, final, ?_⟩
          intro entry member
          exact owned entry (live.symm.subset (List.mem_cons_of_mem _ member))

/-- `malloc(size)` refuses and changes nothing, or hands out `size` bytes
whose release keeps the heap well formed at any later time. -/
def Safe (freeList first tail : Nat) (heap : Heap) (size : Nat) : Prop :=
  malloc freeList heap.mem size = some (heap.mem, 0) ∨
  ∃ mem' pointer, pointer ≠ 0 ∧
    malloc freeList heap.mem size = some (mem', pointer) ∧
    size ≤ payloadSize mem' pointer ∧
    ∀ later, Lasting freeList first tail (pointer, size)
        ⟨mem', (pointer, size) :: heap.live⟩ later →
      WellFormed freeList first tail
        ⟨free freeList later.mem pointer,
          later.live.erase (pointer, size)⟩

section Safe

variable {freeList first tail node size : Nat} {heap : Heap}
  {blocks : List Block} {after : List Nat}

/-- A call that returns `pointer` can only be safe in one way. -/
theorem Safe.of_call {mem' : Mem} {pointer : Nat}
    (safe : Safe freeList first tail heap size) (notNull : pointer ≠ 0)
    (call : malloc freeList heap.mem size = some (mem', pointer)) :
    size ≤ payloadSize mem' pointer ∧
      ∀ later, Lasting freeList first tail (pointer, size)
          ⟨mem', (pointer, size) :: heap.live⟩ later →
        WellFormed freeList first tail
          ⟨free freeList later.mem pointer,
            later.live.erase (pointer, size)⟩ := by
  rcases safe with full | ⟨newMem, newPointer, -, result, enough, later⟩
  · rw [full] at call
    exact absurd (Prod.mk.inj (Option.some.inj call)).2.symm notNull
  · rw [result] at call
    obtain ⟨rfl, rfl⟩ := Prod.mk.inj (Option.some.inj call)
    exact ⟨enough, later⟩

/-- A short first region is handed out as it is and can hold the links. -/
theorem safe_of_short
    (represented : Represents freeList first tail heap.mem blocks
      (node :: after))
    (owners : heap.live.Perm (liveBlocks first blocks))
    (static : freeList ≠ 0)
    (short : heap.mem (currSize (containerOf node)) < 16) :
    Safe freeList first tail heap 0 := by
  obtain ⟨mem', blocks', nodes', given, notNull, large, -, call,
    represented', live⟩ := represented.malloc_whole (.inl rfl) short
  refine .inr ⟨mem', node, notNull, call, Nat.zero_le _, ?_⟩
  intro later run
  have start : Holds freeList first tail ⟨mem', (node, 0) :: heap.live⟩
      (node, given, 0) :=
    ⟨blocks', nodes', represented',
      (owners.cons _).trans (liveBlocks_perm live).symm,
      live.symm.subset List.mem_cons_self⟩
  exact (start.run static run).release large

/-- An empty block that was carved off a region is squeezed between two owned
blocks when nothing is free any more. -/
theorem not_safe_of_long
    (represented : Represents freeList first tail heap.mem blocks
      (node :: after))
    (owners : heap.live.Perm (liveBlocks first blocks))
    (static : freeList ≠ 0)
    (long : 16 ≤ heap.mem (currSize (containerOf node))) :
    ¬ Safe freeList first tail heap 0 := by
  intro safe
  obtain ⟨mem', blocks', nodes', notNull, call, represented', live,
    before⟩ := represented.malloc_carved (.inl rfl) long
  obtain ⟨-, always⟩ := safe.of_call notNull call
  have owners' : ((node, 0) :: heap.live).Perm (liveBlocks first blocks') :=
    (owners.cons _).trans (liveBlocks_perm live).symm
  obtain ⟨later, blocks'', run, final, kept⟩ :=
    @exists_exhausted freeList first tail ⟨mem', (node, 0) :: heap.live⟩
      blocks' nodes' (node, 0) represented' owners' List.mem_cons_self
      (tail - first + 1) (by omega)
  have owned : (node, 0, 0) ∈ ownedRegions first blocks'' :=
    kept _ (live.symm.subset List.mem_cons_self)
  refine final.free_empty owned ?_ static _ (always later run)
  intro cushioned
  obtain ⟨left, block, right, rfl, owner, empty, rfl⟩ :=
    exists_of_mem_ownedRegions owned
  rcases final.cushioned_iff.mp cushioned with behind | ahead
  · -- What touched the region in front is still owned.
    obtain ⟨notFirst, untouched⟩ := final.vacantBefore_iff.mp behind
    rcases before with atFirst | ⟨entry, member, touching⟩
    · exact notFirst atFirst
    · exact untouched entry
        (kept _ (live.symm.subset (List.mem_cons_of_mem _ member))) touching
  · obtain ⟨next, rest, rfl, vacant⟩ := ahead
    have listed := final.listed
    have shape : left ++ block :: next :: rest =
        (left ++ [block]) ++ next :: rest := by simp
    rw [shape, vacantNodes_append, vacantNodes_cons_vacant vacant] at listed
    simpa using listed.length_eq

end Safe

/-- A call with an extreme size is safe exactly when nothing is free, or
nothing is asked for and the first free region is too short to be cut. -/
theorem safe_iff {freeList first tail : Nat} {heap : Heap} {size : Nat}
    (tracked : Tracked freeList first tail heap) (static : freeList ≠ 0)
    (extreme : Extreme size) :
    Safe freeList first tail heap size ↔
      heap.mem (nextField freeList) = freeList ∨
        (size = 0 ∧ heap.mem (currSize (containerOf
          (heap.mem (nextField freeList)))) < memRegionSize) := by
  obtain ⟨blocks, nodes, represented, owners⟩ := tracked
  cases nodes with
  | nil =>
      have none : heap.mem (nextField freeList) = freeList :=
        represented.links.ring.1
      simp only [none, true_or, iff_true]
      exact .inl (represented.malloc_empty size)
  | cons node after =>
      obtain ⟨-, -, -, -, -, -, head, -⟩ := represented.first_node
      have some : node ≠ freeList := by
        rintro rfl
        exact (List.nodup_cons.mp represented.links.nodup).1
          List.mem_cons_self
      rw [head]
      simp only [some, false_or]
      constructor
      · intro safe
        obtain ⟨mem', blocks', nodes', given, notNull, few, call,
          represented', live⟩ := represented.malloc_extreme extreme
        have enough := (safe.of_call notNull call).1
        rw [represented'.payloadSize_owned
          (live.symm.subset List.mem_cons_self)] at enough
        have nothing : size = 0 := by
          rcases extreme with zero | ⟨above, -⟩
          · exact zero
          · omega
        subst nothing
        refine ⟨rfl, ?_⟩
        by_contra long
        exact not_safe_of_long represented owners static
          (Nat.le_of_not_lt long) safe
      · rintro ⟨rfl, short⟩
        exact safe_of_short represented owners static short

/-- After `malloc(4064)` the first free region of the page has 8 bytes. -/
theorem safe_iff_page :
    ∃ heap, page.mallocAll 256 [4064] = some heap ∧
      Safe 256 4096 8184 heap 0 := by
  have made : (page.mallocAll 256 [4064]).isSome = true := by decide
  obtain ⟨heap, calls⟩ := Option.isSome_iff_exists.mp made
  have words : (page.mallocAll 256 [4064]).map (fun heap =>
      heap.mem (currSize (containerOf (heap.mem (nextField 256))))) =
      some 8 := by decide
  rw [calls, Option.map_some, Option.some.injEq] at words
  refine ⟨heap, calls, (safe_iff (page_tracked.mallocAll (by decide) calls)
    (by decide) (.inl rfl)).mpr (.inr ⟨rfl, ?_⟩)⟩
  rw [words]
  decide

/-- On a fresh page `malloc(0)` returns a block that a later release turns
into a broken header, and `malloc(0xFFFFFFFF)` returns an empty block. -/
theorem not_safe_page :
    (¬ ∀ (freeList first tail : Nat) (heap : Heap),
      Tracked freeList first tail heap → freeList ≠ 0 →
        Safe freeList first tail heap 0) ∧
    ¬ ∀ (freeList first tail : Nat) (heap : Heap) (size : Nat),
      Tracked freeList first tail heap → freeList ≠ 0 →
        2 ^ 32 - 8 < size → size < 2 ^ 32 →
          Safe freeList first tail heap size := by
  constructor
  · intro always
    obtain ⟨blocks, nodes, represented, owners⟩ := page_tracked
    have first : page.mem (nextField 256) = 4104 := by decide
    cases nodes with
    | nil =>
        have empty : page.mem (nextField 256) = 256 :=
          represented.links.ring.1
        rw [first] at empty
        omega
    | cons node after =>
        obtain ⟨-, -, -, -, -, -, head, -⟩ := represented.first_node
        obtain rfl := first.symm.trans head
        exact not_safe_of_long represented owners (by decide) (by decide)
          (always _ _ _ _ ⟨blocks, _, represented, owners⟩ (by decide))
  · intro always
    have safe := always 256 4096 8184 page 0xFFFFFFFF page_tracked (by decide)
      (by decide) (by decide)
    have result : (malloc 256 page.mem 0xFFFFFFFF).map (fun result =>
        (result.2, payloadSize result.1 result.2)) = some (4104, 0) := by
      decide
    obtain ⟨⟨mem', pointer⟩, call, same⟩ := Option.map_eq_some_iff.mp result
    obtain ⟨rfl, empty⟩ := Prod.mk.inj same
    have enough := (safe.of_call (by decide) call).1
    simp only at empty
    omega

end Witos.Mm
