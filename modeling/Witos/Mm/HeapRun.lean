import Mathlib.Logic.Relation
import Witos.Mm.HeapRelease

/-!
# Runs of the heap allocator

`WellFormed` states the boundary-tag invariant on the words of the memory,
without the list of blocks that the proofs use.  A run starts with an empty
free list and a successful `__heap_init` and goes on with allocations of one
to `2 ^ 32 - 8` bytes and releases of live pointers, in any order.
-/

namespace Witos.Mm

open Library

/-- A heap in a run: its memory and, for every pointer handed out and not
released yet, the size that was asked for. -/
structure Heap where
  mem : Mem
  live : List (Nat × Nat)

/-- From `start`, header by header, the regions end exactly at `tail`. -/
def Tiles (mem : Mem) : Nat → List Nat → Nat → Prop
  | start, [], tail => start = tail
  | start, region :: regions, tail =>
      region = start ∧ Tiles mem (start + 8 + getSize mem start) regions tail

/-- Every header repeats the size word of the region in front of it. -/
def Tagged (mem : Mem) (headers : List Nat) : Prop :=
  headers.IsChain
    (fun region next => mem (preSize next) = mem (currSize region))

/-- No two adjacent regions are both free. -/
def Coalesced (mem : Mem) (regions : List Nat) : Prop :=
  regions.IsChain (fun region next =>
    ¬(isFree (mem (currSize region)) = true ∧
      isFree (mem (currSize next)) = true))

/-- The free list is a well linked ring without repetitions over exactly the
regions whose size word has its low bits clear. -/
structure Listed (freeList : Nat) (mem : Mem) (regions nodes : List Nat) :
    Prop where
  ring : LinkedRing (fun node => mem (nextField node))
    (fun node => mem (prevField node)) freeList nodes
  once : (freeList :: nodes).Nodup
  exactly : ∀ node, node ∈ nodes ↔
    ∃ region ∈ regions, node = lnMemRegion region ∧
      isFree (mem (currSize region)) = true

/-- The bytes that a live pointer may use. -/
def payloadSize (mem : Mem) (pointer : Nat) : Nat :=
  getSize mem (containerOf pointer)

/-- Live payloads belong to allocated regions, are long enough, and overlap
neither each other nor any header. -/
structure Disjoint (mem : Mem) (regions : List Nat) (tail : Nat)
    (live : List (Nat × Nat)) : Prop where
  allocated : ∀ block ∈ live,
    containerOf block.1 ∈ regions ∧
      isFree (mem (currSize (containerOf block.1))) = false
  longEnough : ∀ block ∈ live, block.2 ≤ payloadSize mem block.1
  payloads : live.Pairwise (fun left right =>
    left.1 + payloadSize mem left.1 ≤ right.1 ∨
      right.1 + payloadSize mem right.1 ≤ left.1)
  headers : ∀ block ∈ live, ∀ header ∈ regions ++ [tail],
    block.1 + payloadSize mem block.1 ≤ header ∨ header + 8 ≤ block.1

/-- The heap invariant between the first region and the tail sentinel. -/
def WellFormed (freeList first tail : Nat) (heap : Heap) : Prop :=
  ∃ regions nodes,
    Tiles heap.mem first regions tail ∧
    Tagged heap.mem (regions ++ [tail]) ∧
    Listed freeList heap.mem regions nodes ∧
    Coalesced heap.mem regions ∧
    Disjoint heap.mem regions tail heap.live

/-- Header addresses of a list of blocks. -/
def regionsOf : Nat → List Block → List Nat
  | _, [] => []
  | region, block :: blocks =>
      region :: regionsOf (region + 8 + block.size) blocks

theorem regionsOf_append (region : Nat) (left right : List Block) :
    regionsOf region (left ++ right) =
      regionsOf region left ++ regionsOf (region + span left) right := by
  induction left generalizing region with
  | nil => simp [regionsOf, span]
  | cons block left induction =>
      have shifted : region + span (block :: left) =
          region + 8 + block.size + span left := by
        simp only [span]
        omega
      simp only [List.cons_append, regionsOf, induction, shifted]

theorem mem_regionsOf {region address : Nat} {blocks : List Block} :
    address ∈ regionsOf region blocks ↔
      ∃ left block right, blocks = left ++ block :: right ∧
        address = region + span left := by
  constructor
  · intro member
    induction blocks generalizing region with
    | nil => simp [regionsOf] at member
    | cons block blocks induction =>
        rcases List.mem_cons.mp member with rfl | later
        · exact ⟨[], block, blocks, rfl, rfl⟩
        · obtain ⟨left, found, right, shape, place⟩ := induction later
          refine ⟨block :: left, found, right, by simp [shape], ?_⟩
          simp only [span]
          omega
  · rintro ⟨left, block, right, rfl, rfl⟩
    rw [regionsOf_append]
    simp [regionsOf]

section Words

variable {mem : Mem} {pre region : Nat} {blocks : List Block}

theorem Headers.words {left right : List Block} {block : Block}
    (headers : Headers mem pre region (left ++ block :: right))
    (inside : region + span (left ++ block :: right) + 8 ≤ 2 ^ 32) :
    mem (currSize (region + span left)) = block.tag ∧
      getSize mem (region + span left) = block.size := by
  simp only [span_append, span] at inside
  obtain ⟨-, suffix⟩ := headers_append.mp headers
  obtain ⟨-, word, -⟩ := headers_cons.mp suffix
  refine ⟨?_, getSize_eq (by omega) word⟩
  rw [currSize_eq (by omega), word]

theorem Headers.tiles (headers : Headers mem pre region blocks)
    (inside : region + span blocks + 8 ≤ 2 ^ 32) :
    Tiles mem region (regionsOf region blocks) (region + span blocks) := by
  induction blocks generalizing pre region with
  | nil => simp [Tiles, regionsOf, span]
  | cons block blocks induction =>
      obtain ⟨-, word, rest⟩ := headers_cons.mp headers
      simp only [span] at inside
      refine ⟨rfl, ?_⟩
      rw [getSize_eq (by omega) word]
      have shifted : region + span (block :: blocks) =
          region + 8 + block.size + span blocks := by
        simp only [span]
        omega
      rw [shifted]
      exact induction rest (by omega)

theorem Headers.tagged (headers : Headers mem pre region blocks)
    (inside : region + span blocks + 8 ≤ 2 ^ 32) :
    Tagged mem (regionsOf region blocks ++ [region + span blocks]) := by
  induction blocks generalizing pre region with
  | nil => simp [Tagged, regionsOf]
  | cons block blocks induction =>
      obtain ⟨-, word, rest⟩ := headers_cons.mp headers
      have shifted : region + span (block :: blocks) =
          region + 8 + block.size + span blocks := by
        simp only [span]
        omega
      rw [shifted] at inside ⊢
      have later := induction rest inside
      unfold Tagged at later ⊢
      rw [regionsOf, List.cons_append, List.isChain_cons]
      refine ⟨?_, later⟩
      intro next isNext
      have isSuccessor : next = region + 8 + block.size := by
        cases blocks with
        | nil => simpa [regionsOf, span, eq_comm] using isNext
        | cons second blocks => simpa [regionsOf, eq_comm] using isNext
      rw [isSuccessor, currSize_eq (by omega), word]
      simp only [preSize]
      cases blocks with
      | nil =>
          have before := rest.2.1
          simpa [span, lastTag] using before
      | cons second blocks => exact (headers_cons.mp rest).1

theorem Headers.coalesced (headers : Headers mem pre region blocks)
    (inside : region + span blocks + 8 ≤ 2 ^ 32)
    (separated : Separated blocks) :
    Coalesced mem (regionsOf region blocks) := by
  induction blocks generalizing pre region with
  | nil => simp [Coalesced, regionsOf]
  | cons block blocks induction =>
      obtain ⟨-, word, rest⟩ := headers_cons.mp headers
      simp only [span] at inside
      unfold Separated at separated
      rw [List.isChain_cons] at separated
      unfold Coalesced at induction ⊢
      rw [regionsOf, List.isChain_cons]
      refine ⟨?_, induction rest (by omega) separated.2⟩
      intro next isNext
      cases blocks with
      | nil => simp [regionsOf] at isNext
      | cons second blocks =>
          have isSuccessor : next = region + 8 + block.size := by
            simpa [regionsOf, eq_comm] using isNext
          have secondWord := (headers_cons.mp rest).2.1
          simp only [span] at inside
          rw [isSuccessor, currSize_eq (by omega), currSize_eq (by omega),
            word, secondWord, Block.isFree_tag, Block.isFree_tag]
          exact separated.1 second (by simp)

theorem liveBlocks_ge {pointer request : Nat}
    (member : (pointer, request) ∈ liveBlocks region blocks) :
    region + 8 ≤ pointer := by
  obtain ⟨size, owned⟩ := exists_owned_of_live member
  obtain ⟨left, block, right, -, -, -, rfl⟩ :=
    exists_of_mem_ownedRegions owned
  omega

theorem Headers.payloads (headers : Headers mem pre region blocks)
    (inside : region + span blocks + 8 ≤ 2 ^ 32) :
    (liveBlocks region blocks).Pairwise (fun left right =>
      left.1 + payloadSize mem left.1 ≤ right.1 ∨
        right.1 + payloadSize mem right.1 ≤ left.1) := by
  induction blocks generalizing pre region with
  | nil => simp [liveBlocks]
  | cons block blocks induction =>
      obtain ⟨-, word, rest⟩ := headers_cons.mp headers
      simp only [span] at inside
      have later := induction rest (by omega)
      cases owner : block.owner with
      | none =>
          simp only [liveBlocks, owner]
          exact later
      | some request =>
          simp only [liveBlocks, owner, List.pairwise_cons]
          refine ⟨?_, later⟩
          rintro ⟨pointer, asked⟩ member
          have behind := liveBlocks_ge member
          left
          simp only [payloadSize]
          rw [containerOf_eq (by omega), getSize_eq (by omega) word]
          omega

end Words

section WordsOfBlocks

variable {freeList first tail : Nat} {mem : Mem} {blocks : List Block}
  {nodes : List Nat} {live : List (Nat × Nat)}

theorem Represents.inside_span
    (heap : Represents freeList first tail mem blocks nodes) :
    first + span blocks + 8 ≤ 2 ^ 32 := by
  rw [heap.reach]
  exact heap.inside

theorem Represents.liveBlock
    (heap : Represents freeList first tail mem blocks nodes)
    {pointer request : Nat}
    (member : (pointer, request) ∈ liveBlocks first blocks) :
    ∃ left block right, blocks = left ++ block :: right ∧
      block.owner = some request ∧ pointer = first + span left + 8 ∧
      containerOf pointer = first + span left ∧
      mem (currSize (first + span left)) = block.tag ∧
      payloadSize mem pointer = block.size := by
  obtain ⟨_, isOwned⟩ := exists_owned_of_live member
  obtain ⟨left, block, right, rfl, owner, -, rfl⟩ :=
    exists_of_mem_ownedRegions isOwned
  have inside := heap.inside_span
  obtain ⟨tag, size⟩ := heap.headers.words inside
  simp only [span_append, span] at inside
  have container : containerOf (first + span left + 8) =
      first + span left := containerOf_eq (by omega)
  refine ⟨left, block, right, rfl, owner, rfl, container, tag, ?_⟩
  rw [payloadSize, container, size]

theorem Represents.listsFree
    (heap : Represents freeList first tail mem blocks nodes) :
    Listed freeList mem (regionsOf first blocks) nodes := by
  have inside := heap.inside_span
  refine ⟨?_, heap.links.nodup, ?_⟩
  · apply heap.links.ring.congr (fun _ _ => rfl)
    intro node member
    simp only [heap.links.prevField_eq member]
  · intro node
    rw [heap.listed.mem_iff]
    constructor
    · intro member
      obtain ⟨left, block, right, rfl, vacant, rfl⟩ :=
        exists_of_mem_vacantNodes member
      obtain ⟨tag, -⟩ := heap.headers.words inside
      simp only [span_append, span] at inside
      refine ⟨first + span left,
        mem_regionsOf.mpr ⟨left, block, right, rfl, rfl⟩, ?_, ?_⟩
      · exact (lnMemRegion_eq (by omega)).symm
      · rw [tag, Block.isFree_tag, vacant]
    · rintro ⟨region, isRegion, rfl, free⟩
      obtain ⟨left, block, right, rfl, rfl⟩ := mem_regionsOf.mp isRegion
      obtain ⟨tag, -⟩ := heap.headers.words inside
      rw [tag, Block.isFree_tag] at free
      simp only [span_append, span] at inside
      rw [lnMemRegion_eq (by omega), vacantNodes_append,
        vacantNodes_cons_vacant free]
      simp

theorem Represents.payload_header {left right : List Block} {block : Block}
    (heap : Represents freeList first tail mem (left ++ block :: right)
      nodes) {header : Nat}
    (isHeader : header ∈ regionsOf first (left ++ block :: right) ++ [tail]) :
    first + span left + 8 + block.size ≤ header ∨
      header + 8 ≤ first + span left + 8 := by
  obtain ⟨reach, -⟩ := heap.place
  rw [regionsOf_append, regionsOf, List.append_assoc, List.cons_append,
    List.mem_append, List.mem_cons, List.mem_append,
    List.mem_singleton] at isHeader
  rcases isHeader with inLeft | isSame | inRight | isTail
  · obtain ⟨front, other, back, rfl, rfl⟩ := mem_regionsOf.mp inLeft
    simp only [span_append, span]
    omega
  · omega
  · obtain ⟨front, other, back, rfl, rfl⟩ := mem_regionsOf.mp inRight
    omega
  · omega

theorem Represents.disjoint
    (heap : Represents freeList first tail mem blocks nodes)
    (owners : live.Perm (liveBlocks first blocks)) :
    Disjoint mem (regionsOf first blocks) tail live := by
  constructor
  · intro block member
    obtain ⟨left, found, right, shape, owner, -, container, tag, -⟩ :=
      heap.liveBlock (owners.subset member)
    rw [container, tag, Block.isFree_tag]
    refine ⟨mem_regionsOf.mpr ⟨left, found, right, shape, rfl⟩, ?_⟩
    simp [Block.vacant, owner]
  · intro block member
    obtain ⟨left, found, right, -, owner, -, -, -, size⟩ :=
      heap.liveBlock (owners.subset member)
    rw [size]
    exact found.serves block.2 owner
  · exact owners.symm.pairwise (heap.headers.payloads heap.inside_span)
      Or.symm
  · intro block member header isHeader
    obtain ⟨left, found, right, rfl, owner, pointer, -, -, size⟩ :=
      heap.liveBlock (owners.subset member)
    rw [size, pointer]
    exact heap.payload_header isHeader

/-- A represented heap satisfies the invariant on words. -/
theorem Represents.wellFormed
    (heap : Represents freeList first tail mem blocks nodes)
    (owners : live.Perm (liveBlocks first blocks)) :
    WellFormed freeList first tail ⟨mem, live⟩ := by
  have inside := heap.inside_span
  have tiles := heap.headers.tiles inside
  have tagged := heap.headers.tagged inside
  rw [heap.reach] at tiles tagged
  exact ⟨regionsOf first blocks, nodes, tiles, tagged, heap.listsFree,
    heap.headers.coalesced inside heap.separated, heap.disjoint owners⟩

end WordsOfBlocks

/-- A successful `__heap_init` on an empty list: the arguments are 32-bit
words, the list head is a static variable outside the heap, and `LIST_HEAD`
has made it point at itself. -/
structure Initialised (freeList start stop : Nat) (mem mem' : Mem) :
    Prop where
  startWord : start < 2 ^ 32
  stopWord : stop < 2 ^ 32
  headWord : freeList + 8 ≤ 2 ^ 32
  emptyNext : mem (nextField freeList) = freeList
  emptyPrev : mem (prevField freeList) = freeList
  outside : Outside freeList (wordAlignUp start)
    (sub32 (wordAlignDown stop) dwordSize)
  success : heapInit freeList mem start stop = some mem'

/-- The tags of one block between the words at both ends of the heap. -/
def oneBlock (mem : Mem) (first tail tag : Nat) : Mem :=
  (((mem.store first 1).store (first + 4) tag).store tail tag).store
    (tail + 4) 1

theorem headers_oneBlock (mem : Mem) {first tail : Nat} {block : Block}
    (behind : first + 8 + block.size = tail) :
    Headers (oneBlock mem first tail block.tag) 1 first [block] := by
  refine headers_cons.mpr ⟨?_, ?_, ?_⟩
  · simp (disch := omega) only [oneBlock, Mem.store_of_ne, Mem.store_same]
  · simp (disch := omega) only [oneBlock, Mem.store_of_ne, Mem.store_same]
  · rw [behind]
    refine ⟨trivial, ?_, ?_⟩
    · simp (disch := omega) only [oneBlock, span, lastTag, Nat.add_zero,
        Mem.store_of_ne, Mem.store_same]
    · simp only [oneBlock, span, Nat.add_zero, Mem.store_same]

theorem freeRing_oneBlock {mem : Mem} {freeList first tail : Nat}
    (tag : Nat) (headWord : freeList + 8 ≤ 2 ^ 32)
    (emptyNext : mem freeList = freeList)
    (emptyPrev : mem (freeList + 4) = freeList) (before : first ≤ tail)
    (outside : Outside freeList first tail) :
    FreeRing (oneBlock mem first tail tag) freeList [] := by
  unfold Outside at outside
  refine ⟨LinkedRing.empty_iff.mpr ⟨?_, ?_⟩, by simp, by simpa using headWord⟩
  · simp (disch := omega) only [oneBlock, Mem.store_of_ne]
    exact emptyNext
  · simp (disch := omega) only [oneBlock, Mem.store_of_ne]
    exact emptyPrev

/-- What `__heap_init` stores when the test of the minimal length does not
wrap. -/
theorem heapInit_eq {freeList start stop : Nat} {mem mem' : Mem}
    (stopWord : stop < 2 ^ 32)
    (noWrap : wordAlignUp start + minHeapLen < 2 ^ 32)
    (success : heapInit freeList mem start stop = some mem') :
    wordAlignUp start + minHeapLen < wordAlignDown stop ∧
      mem' = listAddTail
        (oneBlock mem (wordAlignUp start) (wordAlignDown stop - 8)
          (wordAlignDown stop - 8 - wordAlignUp start - 8))
        (wordAlignUp start + 8) freeList := by
  have stopBound : wordAlignDown stop ≤ stop := clearLow_le _ _
  unfold heapInit at success
  generalize wordAlignUp start = first at *
  generalize wordAlignDown stop = finish at *
  have unwrapped : add32 first minHeapLen = first + minHeapLen :=
    add32_of_lt noWrap
  simp only [unwrapped] at success
  split at success
  · cases success
  rename_i longEnough
  refine ⟨Nat.lt_of_not_le longEnough, ?_⟩
  simp only [minHeapLen] at longEnough noWrap
  have tailEq : sub32 finish dwordSize = finish - 8 :=
    sub32_of_le (by omega) (by simp only [dwordSize, wordSize]; omega)
  have inner : sub32 (finish - 8) first = finish - 8 - first :=
    sub32_of_le (by omega) (by omega)
  have sizeEq : sub32 (finish - 8 - first) dwordSize =
      finish - 8 - first - 8 :=
    sub32_of_le (by omega) (by simp only [dwordSize, wordSize]; omega)
  rw [tailEq, inner, sizeEq, currSize_eq (by omega), currSize_eq (by omega),
    lnMemRegion_eq (by omega)] at success
  simp only [preSize, Mem.store_same] at success
  exact (Option.some.inj success).symm

/-- When the test of the minimal length does not wrap, `__heap_init` makes
one vacant block of the whole heap. -/
theorem Initialised.represents {freeList start stop : Nat} {mem mem' : Mem}
    (initialised : Initialised freeList start stop mem mem')
    (noWrap : wordAlignUp start + minHeapLen < 2 ^ 32) :
    ∃ block, block.owner = none ∧
      Represents freeList (wordAlignUp start)
        (sub32 (wordAlignDown stop) dwordSize) mem' [block]
        [wordAlignUp start + 8] := by
  obtain ⟨-, stopWord, headWord, emptyNext, emptyPrev, outside, success⟩ :=
    initialised
  obtain ⟨longEnough, result⟩ := heapInit_eq stopWord noWrap success
  have firstAligned : wordAlignUp start % 4 = 0 := clearLow_mod _ _
  have stopAligned : wordAlignDown stop % 4 = 0 := clearLow_mod _ _
  have stopBound : wordAlignDown stop ≤ stop := clearLow_le _ _
  generalize wordAlignUp start = first at *
  generalize wordAlignDown stop = finish at *
  simp only [minHeapLen] at longEnough noWrap
  have tailEq : sub32 finish dwordSize = finish - 8 :=
    sub32_of_le (by omega) (by simp only [dwordSize, wordSize]; omega)
  rw [tailEq] at outside ⊢
  let block := Block.unowned (finish - 8 - first - 8) (by omega) (by omega)
  have blockSize : block.size = finish - 8 - first - 8 := rfl
  have tag : block.tag = block.size := Block.tag_of_vacant rfl
  have behind : first + 8 + block.size = finish - 8 := by omega
  rw [← blockSize, ← tag] at result
  have headField : prevField freeList = freeList + 4 :=
    add32_of_lt (by omega)
  rw [headField] at emptyPrev
  have headers := headers_oneBlock mem behind
  have ring := freeRing_oneBlock block.tag headWord emptyNext emptyPrev
    (by omega) outside
  unfold Outside at outside
  obtain ⟨newRing, changed⟩ := ring.listAddTail (first + 8)
    (by
      intro other member
      have isHead : other = freeList := by simpa using member
      unfold Apart
      omega)
    (by omega)
  have reach : first + span [block] = finish - 8 := by
    simp only [span]
    omega
  have nodes : vacantNodes first [block] = [first + 8] := rfl
  refine ⟨block, rfl, reach, by omega, outside, ?_, ?_, ?_, ?_⟩
  · rw [result]
    apply headers.of_links reach outside ?_ changed
    intro node member
    rw [nodes]
    exact member
  · rw [result]
    exact newRing
  · rw [nodes]
  · simp [Separated]

/-- One call of the allocator: an allocation, or the release of a pointer
that is live. -/
inductive HeapStep (freeList : Nat) : Heap → Heap → Prop where
  | malloc {heap : Heap} {size pointer : Nat} {mem' : Mem} :
      1 ≤ size → size ≤ 2 ^ 32 - 8 →
      malloc freeList heap.mem size = some (mem', pointer) →
      HeapStep freeList heap
        ⟨mem', if pointer = 0 then heap.live
          else (pointer, size) :: heap.live⟩
  | free {heap : Heap} {pointer request : Nat} :
      (pointer, request) ∈ heap.live →
      HeapStep freeList heap
        ⟨free freeList heap.mem pointer,
          heap.live.erase (pointer, request)⟩

/-- The invariant of runs: some list of blocks is represented and its owners
are the live blocks. -/
def Tracked (freeList first tail : Nat) (heap : Heap) : Prop :=
  ∃ blocks nodes, Represents freeList first tail heap.mem blocks nodes ∧
    heap.live.Perm (liveBlocks first blocks)

section Tracked

variable {freeList first tail : Nat} {heap heap' : Heap}

/-- Perm of the owned regions without their sizes. -/
theorem liveBlocks_perm {blocks blocks' : List Block}
    {pointer size request : Nat}
    (owned : (ownedRegions first blocks').Perm
      ((pointer, size, request) :: ownedRegions first blocks)) :
    (liveBlocks first blocks').Perm
      ((pointer, request) :: liveBlocks first blocks) := by
  rw [liveBlocks_eq, liveBlocks_eq]
  exact owned.map _

theorem Tracked.malloc {size pointer : Nat} {mem' : Mem}
    (tracked : Tracked freeList first tail heap) (bounded : size ≤ 2 ^ 32 - 8)
    (result : malloc freeList heap.mem size = some (mem', pointer)) :
    Tracked freeList first tail ⟨mem', if pointer = 0 then heap.live
      else (pointer, size) :: heap.live⟩ := by
  obtain ⟨blocks, nodes, represented, owners⟩ := tracked
  rcases represented.malloc bounded with full | served
  · rw [full] at result
    obtain ⟨rfl, rfl⟩ := Prod.mk.inj (Option.some.inj result)
    exact ⟨blocks, nodes, represented, by simpa using owners⟩
  · obtain ⟨newMem, newPointer, given, blocks', nodes', notNull, call,
      represented', live⟩ := served
    rw [call] at result
    obtain ⟨rfl, rfl⟩ := Prod.mk.inj (Option.some.inj result)
    refine ⟨blocks', nodes', represented', ?_⟩
    simp only [notNull, if_false]
    exact (owners.cons _).trans (liveBlocks_perm live).symm

theorem Tracked.free {pointer request : Nat}
    (tracked : Tracked freeList first tail heap) (positive : 1 ≤ request)
    (isLive : (pointer, request) ∈ heap.live) :
    Tracked freeList first tail ⟨free freeList heap.mem pointer,
      heap.live.erase (pointer, request)⟩ := by
  obtain ⟨blocks, nodes, represented, owners⟩ := tracked
  obtain ⟨size, owned⟩ := exists_owned_of_live (owners.subset isLive)
  obtain ⟨blocks', nodes', represented', live⟩ :=
    represented.free owned (.inl (large_of_owned owned positive))
  refine ⟨blocks', nodes', represented', ?_⟩
  have removed := (List.perm_cons_erase isLive).symm.trans
    (owners.trans (liveBlocks_perm live))
  exact removed.cons_inv

/-- No live block was asked for with size 0. -/
def Positive (heap : Heap) : Prop :=
  ∀ block ∈ heap.live, 1 ≤ block.2

theorem Tracked.step (tracked : Tracked freeList first tail heap)
    (positive : Positive heap) (step : HeapStep freeList heap heap') :
    Tracked freeList first tail heap' ∧ Positive heap' := by
  cases step with
  | @malloc size pointer mem' atLeast bounded result =>
      refine ⟨tracked.malloc bounded result, ?_⟩
      intro block member
      by_cases null : pointer = 0
      · simp only [null, if_true] at member
        exact positive block member
      · simp only [null, if_false] at member
        rcases List.mem_cons.mp member with rfl | old
        · exact atLeast
        · exact positive block old
  | @free pointer request isLive =>
      refine ⟨tracked.free (positive _ isLive) isLive, ?_⟩
      intro block member
      exact positive block (List.mem_of_mem_erase member)

theorem Tracked.run (tracked : Tracked freeList first tail heap)
    (positive : Positive heap)
    (run : Relation.ReflTransGen (HeapStep freeList) heap heap') :
    Tracked freeList first tail heap' ∧ Positive heap' := by
  induction run with
  | refl => exact ⟨tracked, positive⟩
  | tail _ step induction => exact induction.1.step induction.2 step

end Tracked

theorem Initialised.tracked {freeList start stop : Nat} {mem mem' : Mem}
    (initialised : Initialised freeList start stop mem mem')
    (noWrap : wordAlignUp start + minHeapLen < 2 ^ 32) :
    Tracked freeList (wordAlignUp start)
      (sub32 (wordAlignDown stop) dwordSize) ⟨mem', []⟩ := by
  obtain ⟨block, noOwner, represented⟩ := initialised.represents noWrap
  refine ⟨[block], _, represented, ?_⟩
  simp [liveBlocks, noOwner]

/-- In every run from a heap whose minimal length was tested without
wrapping, the heap stays well formed and `malloc` always returns. -/
theorem heapRun_wellFormed {freeList start stop : Nat} {mem mem' : Mem}
    {heap : Heap}
    (initialised : Initialised freeList start stop mem mem')
    (noWrap : wordAlignUp start + minHeapLen < 2 ^ 32)
    (run : Relation.ReflTransGen (HeapStep freeList) ⟨mem', []⟩ heap) :
    WellFormed freeList (wordAlignUp start)
        (sub32 (wordAlignDown stop) dwordSize) heap ∧
      ∀ size, 1 ≤ size → size ≤ 2 ^ 32 - 8 →
        ∃ result, malloc freeList heap.mem size = some result := by
  obtain ⟨⟨blocks, nodes, final, owners⟩, -⟩ :=
    (initialised.tracked noWrap).run nofun run
  refine ⟨final.wellFormed owners, ?_⟩
  intro size _ bounded
  rcases final.malloc bounded with full | served
  · exact ⟨_, full⟩
  · obtain ⟨newMem, pointer, -, -, -, -, call, -⟩ := served
    exact ⟨_, call⟩

/-- A heap of one page after one allocation of 100 bytes. -/
theorem heapRun_wellFormed_page :
    ∃ mem' heap, Initialised 256 4096 8192 (fun _ => 256) mem' ∧
      heap.live = [(4104, 100)] ∧ WellFormed 256 4096 8184 heap := by
  have made : (heapInit 256 (fun _ => 256) 4096 8192).isSome = true := by
    decide
  obtain ⟨mem', success⟩ := Option.isSome_iff_exists.mp made
  have initialised : Initialised 256 4096 8192 (fun _ => 256) mem' :=
    { startWord := by decide
      stopWord := by decide
      headWord := by decide
      emptyNext := rfl
      emptyPrev := rfl
      outside := Or.inl (by decide)
      success := success }
  have pointer : (heapInit 256 (fun _ => 256) 4096 8192).bind
      (fun mem => (malloc 256 mem 100).map Prod.snd) = some 4104 := by
    decide
  rw [success, Option.bind_some] at pointer
  obtain ⟨⟨mem'', pointer'⟩, call, same⟩ := Option.map_eq_some_iff.mp pointer
  have isPointer : pointer' = 4104 := same
  subst isPointer
  refine ⟨mem', _, initialised, rfl,
    (heapRun_wellFormed initialised (by decide)
      (.single (.malloc (by decide) (by decide) call))).1⟩

/-- At the top of the address space the test of the minimal length wraps.
`__heap_init` then accepts eight bytes, in which the sentinel overwrites the
size of the first region although that region is on the free list. -/
theorem heapRun_not_wellFormed_wrapped :
    ¬ ∀ (freeList start stop : Nat) (mem mem' : Mem) (heap : Heap),
      Initialised freeList start stop mem mem' →
      Relation.ReflTransGen (HeapStep freeList) ⟨mem', []⟩ heap →
      WellFormed freeList (wordAlignUp start)
        (sub32 (wordAlignDown stop) dwordSize) heap := by
  intro always
  let mem := (heapInit 4096 (fun _ => 4096)
    0xFFFFFFF0 0xFFFFFFF8).getD (fun _ => 0)
  have initialised : Initialised 4096 0xFFFFFFF0 0xFFFFFFF8
      (fun _ => 4096) mem :=
    { startWord := by decide
      stopWord := by decide
      headWord := by decide
      emptyNext := rfl
      emptyPrev := rfl
      outside := Or.inl (by decide)
      success := rfl }
  obtain ⟨regions, nodes, tiles, tagged, listed, -, -⟩ :=
    always _ _ _ _ _ _ initialised .refl
  have firstWord : mem (nextField 4096) = 0xFFFFFFF8 := by decide
  have sizeWord : getSize mem 0xFFFFFFF0 = 0 := by decide
  have mismatch : mem (preSize 0xFFFFFFF8) ≠
      mem (currSize 0xFFFFFFF0) := by decide
  have start : wordAlignUp 0xFFFFFFF0 = 0xFFFFFFF0 := by decide
  have finish : sub32 (wordAlignDown 0xFFFFFFF8) dwordSize = 0xFFFFFFF0 := by
    decide
  rw [start, finish] at tiles
  cases regions with
  | nil =>
      -- Without regions the list would be empty, but its head is not.
      have empty : nodes = [] := by
        rw [List.eq_nil_iff_forall_not_mem]
        intro node member
        obtain ⟨region, isRegion, -⟩ := (listed.exactly node).mp member
        simp at isRegion
      have ring := listed.ring
      rw [empty, LinkedRing.empty_iff] at ring
      simp only [firstWord] at ring
      exact absurd ring.1 (by decide)
  | cons region rest =>
      obtain ⟨rfl, more⟩ := tiles
      simp only [sizeWord] at more
      cases rest with
      | nil => simp [Tiles] at more
      | cons second rest =>
          obtain ⟨rfl, -⟩ := more
          unfold Tagged at tagged
          simp only [List.cons_append, List.isChain_cons_cons] at tagged
          exact mismatch tagged.1

end Witos.Mm
