import Witos.Mm.HeapOperations

/-!
# The effect of `free`

On a represented heap `free` joins a block with its vacant neighbours.  It
leaves a represented heap behind, without the block among the owned ones.
-/

namespace Witos.Mm

open Library

namespace Represents

variable {freeList first tail : Nat} {mem : Mem} {left right : List Block}
  {block : Block}

theorem span_join (left right : List Block) (last block : Block) :
    span (left ++ last.join block :: right) =
      span (left ++ last :: block :: right) := by
  simp only [span_append, span, Block.join_size]
  omega

theorem ownedRegions_join (region : Nat) (left right : List Block)
    (last block : Block) :
    ownedRegions region (left ++ last.join block :: right) =
      ownedRegions region left ++
        ownedRegions (region + span left + 8 + last.size + 8 + block.size)
          right := by
  have address : region + span left + 8 + (last.join block).size =
      region + span left + 8 + last.size + 8 + block.size := by
    simp only [Block.join_size]
    omega
  rw [ownedRegions_append, @ownedRegions_cons_vacant _ (last.join block) _ rfl,
    address]

theorem vacantNodes_join (region : Nat) (left right : List Block)
    (last block : Block) :
    vacantNodes region (left ++ last.join block :: right) =
      vacantNodes region left ++ (region + span left + 8) ::
        vacantNodes (region + span left + 8 + last.size + 8 + block.size)
          right := by
  have address : region + span left + 8 + (last.join block).size =
      region + span left + 8 + last.size + 8 + block.size := by
    simp only [Block.join_size]
    omega
  rw [vacantNodes_append,
    vacantNodes_cons_vacant (Block.join_vacant last block), address]

theorem head_owned (notFree : ¬ ∃ next rest, right = next :: rest ∧
      next.vacant = true) :
    ∀ next ∈ right.head?, next.vacant = false := by
  intro next isNext
  by_contra occupied
  obtain ⟨rest, shape⟩ := List.head?_eq_some_iff.mp isNext
  exact notFree ⟨next, rest, shape, by simpa using occupied⟩

theorem last_owned (notFree : ¬ ∃ front last, left = front ++ [last] ∧
      last.vacant = true) :
    ∀ last ∈ left.getLast?, last.vacant = false := by
  intro last isLast
  by_contra occupied
  obtain ⟨front, shape⟩ := List.getLast?_eq_some_iff.mp isLast
  exact notFree ⟨front, last, shape, by simpa using occupied⟩

/-- The tag in the header behind a run of blocks decides whether it is
vacant. -/
theorem isFree_next {pre region : Nat} {blocks : List Block}
    (headers : Headers mem pre region blocks) :
    isFree (mem (region + 4)) = true ↔
      ∃ next rest, blocks = next :: rest ∧ next.vacant = true := by
  cases blocks with
  | nil =>
      have sentinel := headers.2.2
      simp only [span] at sentinel
      have odd : isFree (mem (region + 4)) = false := by
        rw [show region + 4 = region + 0 + 4 from rfl, sentinel]
        rfl
      simp [odd]
  | cons next rest =>
      rw [(headers_cons.mp headers).2.1, Block.isFree_tag]
      simp

/-- The tag in front of a block decides whether its predecessor is vacant. -/
theorem isFree_lastTag (left : List Block) :
    isFree (lastTag 1 left) = true ↔
      ∃ front last, left = front ++ [last] ∧ last.vacant = true := by
  rcases List.eq_nil_or_concat left with rfl | ⟨front, last, rfl⟩
  · simp [lastTag, isFree, wordSize]
  · rw [List.concat_eq_append, lastTag_append]
    simp only [lastTag, Block.isFree_tag]
    constructor
    · intro vacant
      exact ⟨front, last, rfl, vacant⟩
    · rintro ⟨front', last', shape, vacant⟩
      have := (List.append_inj' shape rfl).2
      simp only [List.cons.injEq, and_true] at this
      rw [this]
      exact vacant

theorem mergeSuccessor_eq_keep {nodes : List Nat}
    (heap : Represents freeList first tail mem (left ++ block :: right) nodes)
    (notFree : ¬ ∃ next rest, right = next :: rest ∧ next.vacant = true) :
    mergeSuccessor mem (first + span left) =
      regionSetSize mem (first + span left) block.size := by
  obtain ⟨reach, inside⟩ := heap.place
  obtain ⟨-, suffix⟩ := headers_append.mp heap.headers
  obtain ⟨-, currTag, behind⟩ := headers_cons.mp suffix
  have sizeHere := @getSize_eq mem _ block (by omega) currTag
  have successor := @getSuccessor_eq mem _ block (by omega) currTag
  have decision : isFree (mem (currSize
      (getSuccessor mem (first + span left)))) = false := by
    rw [successor, currSize_eq (by omega), ← Bool.not_eq_true,
      isFree_next behind]
    exact notFree
  simp [mergeSuccessor, decision, sizeHere]

/-- Clearing the tag of an owned block whose successor is not vacant. -/
theorem mergeSuccessor_keep {nodes : List Nat}
    (heap : Represents freeList first tail mem (left ++ block :: right) nodes)
    (owned : block.vacant = false) (large : 8 ≤ block.size)
    (notFree : ¬ ∃ next rest, right = next :: rest ∧ next.vacant = true) :
    ∃ merged, merged.size = block.size ∧
      Pending freeList first tail (mergeSuccessor mem (first + span left))
        left merged right nodes := by
  let merged := Block.unowned block.size block.aligned large
  have vacant : merged.vacant = true := rfl
  have mergedSize : merged.size = block.size := rfl
  obtain ⟨reach, inside⟩ := heap.place
  have shape : mergeSuccessor mem (first + span left) =
      regionSetSize mem (first + span left) merged.tag :=
    heap.mergeSuccessor_eq_keep notFree
  have listed := heap.listed
  rw [vacantNodes_append, vacantNodes_cons_owned owned] at listed
  obtain ⟨leftSeparated, rightSeparated, -⟩ :=
    separated_middle.mp heap.separated
  refine ⟨merged, rfl, rfl, ?_, ?_, ?_, listed, leftSeparated,
    rightSeparated, head_owned notFree⟩
  · simp only [span_append, span, mergedSize]
    omega
  · rw [shape]
    exact heap.headers.regionSetSize [block] merged (by simp)
      (by simp [span, mergedSize])
      (by simp only [List.singleton_append, span_append, span]; omega)
  · rw [shape]
    apply heap.links.of_area
      (beside block heap.reach heap.outside listed)
    intro word apart
    exact regionSetSize_area _ merged (by omega) apart

/-- What `merge_successor` does to memory before a vacant block. -/
theorem mergeSuccessor_eq_join {next : Block} {nodes : List Nat}
    (heap : Represents freeList first tail mem
      (left ++ block :: next :: right) nodes)
    (nextVacant : next.vacant = true) :
    mergeSuccessor mem (first + span left) =
      Mm.listDel (regionSetSize mem (first + span left)
        (block.join next).tag) (first + span left + 8 + block.size + 8) := by
  have reach := heap.reach
  have inside := heap.inside
  simp only [span_append, span] at reach
  obtain ⟨-, suffix⟩ := headers_append.mp heap.headers
  obtain ⟨-, currTag, behind⟩ := headers_cons.mp suffix
  obtain ⟨-, nextTag, -⟩ := headers_cons.mp behind
  have sizeHere := @getSize_eq mem _ block (by omega) currTag
  have successor := @getSuccessor_eq mem _ block (by omega) currTag
  have tag : add32 (add32 block.size next.size) dwordSize =
      (block.join next).tag := Block.add32_join (by omega)
  have nextWord : mem (currSize (getSuccessor mem (first + span left))) =
      next.size := by
    rw [successor, currSize_eq (by omega), nextTag,
      Block.tag_of_vacant nextVacant]
  have decision : isFree next.size = true := by
    have := next.aligned
    simp [isFree, wordSize, this]
  simp only [mergeSuccessor, nextWord, decision, if_true, sizeHere, tag]
  rw [successor, lnMemRegion_eq (by omega)]

/-- Without the vacant successor of an owned block, the nodes are those beside
the two. -/
theorem perm_beside_join {next : Block} {before after : List Nat}
    (owned : block.vacant = false) (nextVacant : next.vacant = true)
    (listed : (before ++ (first + span left + 8 + block.size + 8) ::
      after).Perm (vacantNodes first (left ++ block :: next :: right))) :
    (before ++ after).Perm (vacantNodes first left ++
      vacantNodes (first + span left + 8 + (block.join next).size) right) := by
  have address : first + span left + 8 + (block.join next).size =
      first + span left + 8 + block.size + 8 + next.size := by
    have size : (block.join next).size = block.size + 8 + next.size := rfl
    rw [size]
    omega
  rw [vacantNodes_append, vacantNodes_cons_owned owned,
    vacantNodes_cons_vacant nextVacant] at listed
  rw [address]
  exact ((List.perm_middle.symm.trans listed).trans
    List.perm_middle).cons_inv

theorem links_regionSetSize_join {next : Block} {before after : List Nat}
    (heap : Represents freeList first tail mem
      (left ++ block :: next :: right)
      (before ++ (first + span left + 8 + block.size + 8) :: after))
    (owned : block.vacant = false) (nextVacant : next.vacant = true) :
    FreeRing
      (regionSetSize mem (first + span left) (block.join next).tag) freeList
      (before ++ (first + span left + 8 + block.size + 8) :: after) := by
  let merged := block.join next
  have mergedSize : merged.size = block.size + 8 + next.size := rfl
  have reach := heap.reach
  have inside := heap.inside
  simp only [span_append, span] at reach
  have newReach : first + span (left ++ merged :: right) = tail := by
    simp only [span_append, span]
    omega
  have besideMerged := beside merged newReach heap.outside
    (perm_beside_join owned nextVacant heap.listed)
  have large := Block.large_of_vacant nextVacant
  apply heap.links.congr
  intro node member
  apply regionSetSize_node mem merged (by omega)
  have cases : node = first + span left + 8 + block.size + 8 ∨
      node ∈ freeList :: (before ++ after) := by
    simp only [List.mem_cons, List.mem_append] at member ⊢
    tauto
  rcases cases with rfl | other
  · omega
  · have apart := besideMerged node other
    omega

theorem mergeSuccessor_join {next : Block} {nodes : List Nat}
    (heap : Represents freeList first tail mem
      (left ++ block :: next :: right) nodes)
    (owned : block.vacant = false) (nextVacant : next.vacant = true) :
    ∃ merged nodes', merged.size = block.size + 8 + next.size ∧
      Pending freeList first tail (mergeSuccessor mem (first + span left))
        left merged right nodes' := by
  let merged := block.join next
  have vacant : merged.vacant = true := rfl
  have mergedSize : merged.size = block.size + 8 + next.size := rfl
  have reach := heap.reach
  have inside := heap.inside
  simp only [span_append, span] at reach
  have shape : mergeSuccessor mem (first + span left) =
      Mm.listDel (regionSetSize mem (first + span left) merged.tag)
        (first + span left + 8 + block.size + 8) :=
    mergeSuccessor_eq_join heap nextVacant
  have listed := heap.listed
  rw [vacantNodes_append, vacantNodes_cons_owned owned,
    vacantNodes_cons_vacant nextVacant] at listed
  obtain ⟨before, after, rfl⟩ := List.append_of_mem
    (listed.symm.subset (List.mem_append_right _ List.mem_cons_self))
  have others := perm_beside_join owned nextVacant heap.listed
  have newReach : first + span (left ++ merged :: right) = tail := by
    simp only [span_append, span]
    omega
  have retagged := links_regionSetSize_join heap owned nextVacant
  obtain ⟨ring, changed⟩ := retagged.listDel
  have newHeaders : Headers
      (regionSetSize mem (first + span left) merged.tag) 1 first
      (left ++ merged :: right) :=
    heap.headers.regionSetSize [block, next] merged (by simp)
      (by simp only [span]; omega)
      (by simp only [List.cons_append, List.nil_append, span_append, span]
          omega)
  obtain ⟨leftSeparated, rightChain, -⟩ :=
    separated_middle.mp heap.separated
  obtain ⟨-, rightSeparated, neighbours⟩ :=
    (@separated_middle [] right next).mp
      rightChain
  refine ⟨merged, before ++ after, rfl, rfl, newReach, ?_, ?_, others,
    leftSeparated, rightSeparated, (neighbours nextVacant).2⟩
  · rw [shape]
    apply newHeaders.of_links newReach heap.outside ?_ changed
    intro node member
    rw [vacantNodes_append, vacantNodes_cons_vacant vacant]
    rcases List.mem_append.mp (others.subset member) with inLeft | inRight
    · exact List.mem_append_left _ inLeft
    · exact List.mem_append_right _ (List.mem_cons_of_mem _ inRight)
  · rw [shape]
    exact ring

/-- A node belongs to the vacant block in the middle, or lies beside it. -/
theorem node_place {nodes : List Nat} {node : Nat}
    (reach : first + span (left ++ block :: right) = tail)
    (outside : Outside freeList first tail) (vacant : block.vacant = true)
    (listed : nodes.Perm (vacantNodes first (left ++ block :: right)))
    (member : node ∈ freeList :: nodes) :
    node = first + span left + 8 ∨ node + 8 ≤ first + span left ∨
      first + span left + 8 + block.size + 8 ≤ node := by
  simp only [span_append, span] at reach
  rcases List.mem_cons.mp member with rfl | inNodes
  · unfold Outside at outside
    omega
  · have isVacant := listed.subset inNodes
    rw [vacantNodes_append, vacantNodes_cons_vacant vacant, List.mem_append,
      List.mem_cons] at isVacant
    rcases isVacant with inLeft | isMiddle | inRight
    · have := vacantNodes_bounds inLeft
      omega
    · exact Or.inl isMiddle
    · have := vacantNodes_bounds inRight
      omega

section Predecessor

variable {front : List Block} {last : Block} {nodes : List Nat}

/-- A vacant predecessor gets the tags of both blocks. -/
theorem mergePredecessor_eq_join
    (pending : Pending freeList first tail mem (front ++ [last]) block right
      nodes)
    (lastVacant : last.vacant = true) (inside : tail + 8 ≤ 2 ^ 32) :
    Mm.mergePredecessor freeList mem (first + span (front ++ [last])) =
      regionSetSize mem (first + span front) (last.join block).tag := by
  have vacant := (Block.vacant_iff block).mpr pending.vacant
  have reach := pending.reach
  obtain ⟨leftTags, suffix⟩ := headers_append.mp pending.headers
  obtain ⟨preTag, currTag, -⟩ := headers_cons.mp suffix
  simp only [span_append, span, Nat.add_zero] at reach preTag currTag ⊢
  have lastTagWord : mem (first + span front + 4) = last.tag := by
    obtain ⟨-, lastTags⟩ := tags_append.mp leftTags
    exact lastTags.2.1
  have preWord : mem (first + (span front + (8 + last.size))) =
      last.tag := by
    rw [preTag, lastTag_append]
    rfl
  have decision : isFree last.tag = true := by
    rw [Block.isFree_tag, lastVacant]
  have place : first + (span front + (8 + last.size)) =
      first + span front + 8 + last.size := by omega
  rw [place] at preWord currTag ⊢
  have predecessor : getPredecessor mem (first + span front + 8 + last.size) =
      first + span front := getPredecessor_eq (by omega) preWord
  have tag : add32 (add32 last.tag block.tag) dwordSize =
      (last.join block).tag := by
    rw [Block.tag_of_vacant lastVacant, Block.tag_of_vacant vacant]
    exact Block.add32_join (by omega)
  unfold Mm.mergePredecessor
  simp only [preSize, preWord, decision, if_true, predecessor,
    currSize_eq (show first + span front + 4 < 2 ^ 32 by omega),
    currSize_eq (show first + span front + 8 + last.size + 4 < 2 ^ 32
      by omega), lastTagWord, currTag, tag]

/-- The block is joined to a vacant predecessor, which is on the list
already. -/
theorem mergePredecessor_join
    (pending : Pending freeList first tail mem (front ++ [last]) block right
      nodes)
    (lastVacant : last.vacant = true) (inside : tail + 8 ≤ 2 ^ 32)
    (outside : Outside freeList first tail) :
    Represents freeList first tail
      (Mm.mergePredecessor freeList mem (first + span (front ++ [last])))
      (front ++ last.join block :: right) nodes := by
  have mergedVacant := Block.join_vacant last block
  have reach := pending.reach
  rw [List.append_assoc, List.singleton_append] at reach
  have newReach : first + span (front ++ last.join block :: right) =
      tail := by
    rw [span_join, reach]
  simp only [span_append, span] at reach
  rw [mergePredecessor_eq_join pending lastVacant inside]
  have place : first + span (front ++ [last]) =
      first + span front + 8 + last.size := by
    simp only [span_append, span]
    omega
  have listed := pending.listed
  rw [vacantNodes_append, vacantNodes_cons_vacant lastVacant, place] at listed
  have newListed : nodes.Perm
      (vacantNodes first (front ++ last.join block :: right)) := by
    rw [vacantNodes_join]
    simpa [vacantNodes] using listed
  refine ⟨newReach, inside, outside, ?_, ?_, newListed, ?_⟩
  · have headers := pending.headers
    rw [List.append_assoc] at headers
    exact headers.regionSetSize [last, block] (last.join block) (by simp)
      (by simp only [span, Block.join_size]; omega)
      (by simp only [List.cons_append, List.nil_append, span_append, span]
          omega)
  · apply pending.links.congr
    intro node member
    have place := node_place newReach outside mergedVacant newListed member
    have large := Block.large_of_vacant lastVacant
    have joinSize := Block.join_size last block
    exact regionSetSize_node mem (last.join block) (by omega) (by omega)
  · obtain ⟨frontSeparated, -, neighbours⟩ :=
      separated_middle.mp pending.leftSeparated
    exact separated_middle.mpr ⟨frontSeparated, pending.rightSeparated,
      fun _ => ⟨(neighbours lastVacant).1, pending.rightOwned⟩⟩

/-- Without a vacant predecessor the block goes to the end of the list. -/
theorem mergePredecessor_keep
    (pending : Pending freeList first tail mem left block right nodes)
    (notFree : ¬ ∃ front last, left = front ++ [last] ∧ last.vacant = true)
    (inside : tail + 8 ≤ 2 ^ 32) (outside : Outside freeList first tail) :
    Represents freeList first tail
      (Mm.mergePredecessor freeList mem (first + span left))
      (left ++ block :: right) (nodes ++ [first + span left + 8]) := by
  have reach := pending.reach
  simp only [span_append, span] at reach
  have decision : isFree (mem (preSize (first + span left))) = false := by
    obtain ⟨-, suffix⟩ := headers_append.mp pending.headers
    simp only [preSize]
    rw [(headers_cons.mp suffix).1, ← Bool.not_eq_true, isFree_lastTag]
    exact notFree
  have shape : Mm.mergePredecessor freeList mem (first + span left) =
      Mm.listAddTail mem (first + span left + 8) freeList := by
    unfold Mm.mergePredecessor
    rw [decision, lnMemRegion_eq (by omega)]
    rfl
  rw [shape]
  exact pending.listAddTail inside outside (last_owned notFree)

/-- The second half of `free` restores the invariant: the block is joined to
a vacant predecessor or put on the list. -/
theorem mergePredecessor
    (pending : Pending freeList first tail mem left block right nodes)
    (inside : tail + 8 ≤ 2 ^ 32) (outside : Outside freeList first tail) :
    ∃ blocks' nodes',
      Represents freeList first tail
        (Mm.mergePredecessor freeList mem (first + span left)) blocks' nodes' ∧
      ownedRegions first blocks' = ownedRegions first left ++
        ownedRegions (first + span left + 8 + block.size) right := by
  by_cases joins : ∃ front last, left = front ++ [last] ∧ last.vacant = true
  · obtain ⟨front, last, rfl, lastVacant⟩ := joins
    refine ⟨_, _, mergePredecessor_join pending lastVacant inside outside, ?_⟩
    have place : first + span (front ++ [last]) =
        first + span front + 8 + last.size := by
      simp only [span_append, span]
      omega
    have noOwner := (Block.vacant_iff last).mp lastVacant
    rw [ownedRegions_join, place, ownedRegions_append,
      ownedRegions_cons_vacant noOwner, ownedRegions, List.append_nil]
  · refine ⟨_, _, mergePredecessor_keep pending joins inside outside, ?_⟩
    rw [ownedRegions_append, ownedRegions_cons_vacant pending.vacant]

/-- What `free` does to memory between a vacant and an owned block. -/
theorem free_eq_absorbed
    (heap : Represents freeList first tail mem
      (front ++ last :: block :: right) nodes)
    (lastVacant : last.vacant = true)
    (notFree : ¬ ∃ next rest, right = next :: rest ∧ next.vacant = true) :
    Mm.mergePredecessor freeList
        (mergeSuccessor mem (first + span front + 8 + last.size))
        (first + span front + 8 + last.size) =
      regionSetSize (regionSetSize mem (first + span front + 8 + last.size)
        block.size) (first + span front) (last.join block).tag := by
  have reach := heap.reach
  have inside := heap.inside
  simp only [span_append, span] at reach
  obtain ⟨-, suffix⟩ := headers_append.mp heap.headers
  obtain ⟨-, lastWord, middle⟩ := headers_cons.mp suffix
  obtain ⟨preTag, currTag, behind⟩ := headers_cons.mp middle
  have kept : mergeSuccessor mem (first + span front + 8 + last.size) =
      regionSetSize mem (first + span front + 8 + last.size) block.size := by
    have place : first + span front + 8 + last.size =
        first + span (front ++ [last]) := by
      simp only [span_append, span]
      omega
    rw [← List.singleton_append, ← List.append_assoc] at heap
    rw [place]
    exact heap.mergeSuccessor_eq_keep notFree
  rw [kept, regionSetSize_word mem block.clearLow_size (by omega)]
  generalize changed : (mem.store (first + span front + 8 + last.size + 4)
    block.size).store (first + span front + 8 + last.size + 8 + block.size)
    block.size = mem'
  have preWord : mem' (first + span front + 8 + last.size) = last.tag := by
    rw [← changed]
    simp (disch := omega) only [Mem.store_of_ne]
    exact preTag
  have lastTagWord : mem' (first + span front + 4) = last.size := by
    rw [← changed]
    simp (disch := omega) only [Mem.store_of_ne]
    rw [lastWord, Block.tag_of_vacant lastVacant]
  have currWord : mem' (first + span front + 8 + last.size + 4) =
      block.size := by
    rw [← changed]
    simp (disch := omega) only [Mem.store_of_ne, Mem.store_same]
  have decision : isFree last.tag = true := by
    rw [Block.isFree_tag, lastVacant]
  have predecessor : getPredecessor mem'
      (first + span front + 8 + last.size) = first + span front :=
    getPredecessor_eq (by omega) preWord
  unfold Mm.mergePredecessor
  simp only [preSize, preWord, decision, if_true, predecessor,
    currSize_eq (show first + span front + 4 < 2 ^ 32 by omega),
    currSize_eq (show first + span front + 8 + last.size + 4 < 2 ^ 32
      by omega), lastTagWord, currWord]
  rw [Block.add32_join (by omega)]

/-- Setting the size of a joined block overwrites what was set for its second
part, all but one word. -/
theorem regionSetSize_absorbed {region word : Nat} {last block : Block}
    (inside : region + 8 + (last.join block).size < 2 ^ 32)
    (elsewhere : word ≠ region + 8 + last.size + 4) :
    regionSetSize
        (regionSetSize mem (region + 8 + last.size) block.size)
        region (last.join block).tag word =
      regionSetSize mem region (last.join block).tag word := by
  have joinSize := Block.join_size last block
  have address : region + 8 + last.size + 8 + block.size =
      region + 8 + (last.join block).size := by omega
  rw [regionSetSize_eq _ (last.join block) inside,
    regionSetSize_eq _ (last.join block) inside,
    regionSetSize_word mem block.clearLow_size (by omega), address]
  simp only [Mem.store, elsewhere, if_false]
  split
  · rfl
  · split <;> rfl

/-- A block of any size between a vacant and an owned one becomes a part of
the vacant one; no link is written into it. -/
theorem free_absorbed
    (heap : Represents freeList first tail mem
      (front ++ last :: block :: right) nodes)
    (lastVacant : last.vacant = true) (owned : block.vacant = false)
    (notFree : ¬ ∃ next rest, right = next :: rest ∧ next.vacant = true) :
    Represents freeList first tail
      (Mm.mergePredecessor freeList
        (mergeSuccessor mem (first + span front + 8 + last.size))
        (first + span front + 8 + last.size))
      (front ++ last.join block :: right) nodes := by
  rw [free_eq_absorbed heap lastVacant notFree]
  have mergedVacant := Block.join_vacant last block
  have joinSize := Block.join_size last block
  have large := Block.large_of_vacant lastVacant
  have reach := heap.reach
  have inside := heap.inside
  have newReach : first + span (front ++ last.join block :: right) =
      tail := by
    rw [span_join, reach]
  simp only [span_append, span] at reach
  have newListed : nodes.Perm
      (vacantNodes first (front ++ last.join block :: right)) := by
    have listed := heap.listed
    rw [vacantNodes_append, vacantNodes_cons_vacant lastVacant,
      vacantNodes_cons_owned owned] at listed
    rw [vacantNodes_join]
    exact listed
  -- The header of the block itself lies in the new payload.
  have same := fun word => @regionSetSize_absorbed mem
    (first + span front) word last block (by omega)
  have newHeaders : Headers
      (regionSetSize mem (first + span front) (last.join block).tag) 1 first
      (front ++ last.join block :: right) :=
    heap.headers.regionSetSize [last, block] (last.join block) (by simp)
      (by simp only [span]; omega)
      (by simp only [List.cons_append, List.nil_append, span_append, span]
          omega)
  refine ⟨newReach, inside, heap.outside, ?_, ?_, newListed, ?_⟩
  · apply newHeaders.congr
    intro word member
    have := headerWords_append_cons first front (last.join block) right
      member
    exact same word (by omega)
  · apply heap.links.congr
    intro node member
    have place := node_place newReach heap.outside mergedVacant newListed
      member
    rw [same node (by omega), same (node + 4) (by omega)]
    exact regionSetSize_node mem (last.join block) (by omega) (by omega)
  · obtain ⟨frontSeparated, behindSeparated, neighbours⟩ :=
      separated_middle.mp heap.separated
    obtain ⟨-, rightSeparated, -⟩ :=
      (@separated_middle [] right block).mp behindSeparated
    exact separated_middle.mpr ⟨frontSeparated, rightSeparated,
      fun _ => ⟨(neighbours lastVacant).1, head_owned notFree⟩⟩

end Predecessor

/-- Which neighbours of a block the two tests of `free` see. -/
theorem cushioned_iff {nodes : List Nat}
    (heap : Represents freeList first tail mem (left ++ block :: right)
      nodes) :
    Cushioned mem (first + span left + 8) ↔
      (∃ front last, left = front ++ [last] ∧ last.vacant = true) ∨
        ∃ next rest, right = next :: rest ∧ next.vacant = true := by
  obtain ⟨reach, inside⟩ := heap.place
  obtain ⟨-, suffix⟩ := headers_append.mp heap.headers
  obtain ⟨preTag, currTag, behind⟩ := headers_cons.mp suffix
  unfold Cushioned
  rw [containerOf_eq (by omega), getSuccessor_eq (by omega) currTag,
    currSize_eq (by omega)]
  simp only [preSize]
  rw [preTag, isFree_lastTag, isFree_next behind]

/-- `free` of a live pointer of a represented heap.  A block that is too short
for the links of the free list needs a vacant neighbour. -/
theorem free {blocks : List Block} {nodes : List Nat}
    (heap : Represents freeList first tail mem blocks nodes)
    {pointer size request : Nat}
    (live : (pointer, size, request) ∈ ownedRegions first blocks)
    (room : 8 ≤ size ∨ Cushioned mem pointer) :
    ∃ blocks' nodes',
      Represents freeList first tail (Mm.free freeList mem pointer)
        blocks' nodes' ∧
      (ownedRegions first blocks).Perm
        ((pointer, size, request) :: ownedRegions first blocks') := by
  obtain ⟨left, block, right, rfl, owner, rfl, rfl⟩ :=
    exists_of_mem_ownedRegions live
  obtain ⟨reach, inside⟩ := heap.place
  have owned : block.vacant = false := by simp [Block.vacant, owner]
  have region : sub32 (first + span left + 8) dwordSize =
      first + span left := by
    rw [sub32_of_le (by omega) (by simp only [dwordSize, wordSize]; omega)]
    simp only [dwordSize, wordSize]
    omega
  unfold Mm.free
  simp only [region]
  rw [ownedRegions_append, ownedRegions_cons_owned owner]
  by_cases joins : ∃ next rest, right = next :: rest ∧ next.vacant = true
  · obtain ⟨next, rest, rfl, nextVacant⟩ := joins
    obtain ⟨merged, nodes', size, pending⟩ :=
      heap.mergeSuccessor_join owned nextVacant
    obtain ⟨blocks', nodes'', heap', same⟩ :=
      mergePredecessor pending inside heap.outside
    refine ⟨blocks', nodes'', heap', ?_⟩
    have address : first + span left + 8 + block.size + 8 + next.size =
        first + span left + 8 + merged.size := by omega
    rw [ownedRegions_cons_vacant ((Block.vacant_iff next).mp nextVacant),
      address, same]
    exact List.perm_middle
  by_cases large : 8 ≤ block.size
  · obtain ⟨merged, size, pending⟩ :=
      heap.mergeSuccessor_keep owned large joins
    obtain ⟨blocks', nodes', heap', same⟩ :=
      mergePredecessor pending inside heap.outside
    refine ⟨blocks', nodes', heap', ?_⟩
    rw [same, size]
    exact List.perm_middle
  · -- The block is too short, so its predecessor is the vacant one.
    have cushioned := heap.cushioned_iff.mp (room.resolve_left large)
    obtain ⟨front, last, rfl, lastVacant⟩ := cushioned.resolve_right joins
    have noOwner := (Block.vacant_iff last).mp lastVacant
    have place : first + span (front ++ [last]) =
        first + span front + 8 + last.size := by
      simp only [span_append, span]
      omega
    rw [List.append_assoc, List.singleton_append] at heap
    rw [place]
    refine ⟨_, nodes, heap.free_absorbed lastVacant owned joins, ?_⟩
    rw [ownedRegions_join, ownedRegions_append,
      ownedRegions_cons_vacant noOwner, ownedRegions, List.append_nil]
    exact List.perm_middle

end Represents

end Witos.Mm
