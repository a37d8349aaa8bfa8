import Witos.Mm.HeapInvariant

/-!
# The effect of `malloc`

On a represented heap `malloc` takes the first vacant block on the list that
is large enough and cuts it when a region fits behind the request.  It leaves
a represented heap behind, with the returned block among the owned ones.
-/

namespace Witos.Mm

open Library

/-- `list_for_each` visits the nodes of the ring in order. -/
theorem firstFit_eq {mem : Mem} {freeList : Nat} (allocSize : Nat)
    {nodes : List Nat} {fuel : Nat}
    (links : Linked (fun node => mem node) (fun node => mem (node + 4))
      (nodes ++ [freeList]))
    (headOff : freeList ∉ nodes) (enough : nodes.length < fuel) :
    firstFit freeList mem allocSize fuel
        ((nodes ++ [freeList]).headD freeList) =
      match nodes.find?
          (fun node => allocSize ≤ mem (currSize (containerOf node))) with
      | some node => .fit node
      | none => .exhausted := by
  induction nodes generalizing fuel with
  | nil =>
      cases fuel with
      | zero => simp at enough
      | succ fuel => simp [firstFit]
  | cons node nodes induction =>
      cases fuel with
      | zero => simp at enough
      | succ fuel =>
          have notHead : node ≠ freeList := by
            rintro rfl
            simp at headOff
          have tailLinks : Linked (fun node => mem node)
              (fun node => mem (node + 4)) (nodes ++ [freeList]) ∧
              mem node = (nodes ++ [freeList]).headD freeList := by
            cases nodes with
            | nil => exact ⟨trivial, links.1⟩
            | cons second nodes => exact ⟨links.2.2, links.1⟩
          by_cases fits : allocSize ≤ mem (currSize (containerOf node))
          · simp [firstFit, notHead, fits]
          · have rest := induction tailLinks.1
              (fun member => headOff (List.mem_cons_of_mem _ member))
              (by simpa using enough)
            simp only [List.cons_append, List.headD_cons, firstFit, notHead,
              if_false, fits, nextField, List.find?_cons, decide_false]
            rw [tailLinks.2, rest]

/-- Vacant blocks take at least sixteen bytes, so there are few of them. -/
theorem vacantNodes_length_le (region : Nat) (blocks : List Block) :
    16 * (vacantNodes region blocks).length ≤ span blocks := by
  induction blocks generalizing region with
  | nil => simp [vacantNodes]
  | cons block blocks induction =>
      have := induction (region + 8 + block.size)
      cases vacancy : block.vacant with
      | true =>
          have := Block.large_of_vacant vacancy
          rw [vacantNodes_cons_vacant vacancy]
          simp only [List.length_cons, span]
          omega
      | false =>
          rw [vacantNodes_cons_owned vacancy]
          simp only [span]
          omega

namespace Represents

variable {freeList first tail : Nat} {mem : Mem} {blocks : List Block}
  {nodes : List Nat}

/-- The scan of `malloc` ends: it finds a node of the list or meets the
head again. -/
theorem scan (heap : Represents freeList first tail mem blocks nodes)
    (allocSize : Nat) :
    firstFit freeList mem allocSize listFuel (mem (nextField freeList)) =
      match nodes.find?
          (fun node => allocSize ≤ mem (currSize (containerOf node))) with
      | some node => .fit node
      | none => .exhausted := by
  have start : mem (nextField freeList) =
      (nodes ++ [freeList]).headD freeList := by
    have ring := heap.links.ring
    cases nodes with
    | nil => exact ring.1
    | cons node nodes => exact ring.1
  have links : Linked (fun node => mem node) (fun node => mem (node + 4))
      (nodes ++ [freeList]) := by
    have ring := heap.links.ring
    cases nodes with
    | nil => trivial
    | cons node nodes => exact ring.2.2
  have short : nodes.length < listFuel := by
    have perm := heap.listed.length_eq
    have vacant := vacantNodes_length_le first blocks
    have reach := heap.reach
    have inside := heap.inside
    unfold listFuel
    omega
  rw [start]
  exact firstFit_eq allocSize links (List.nodup_cons.mp heap.links.nodup).1
    short

/-- Taking one vacant block off the list leaves the nodes of the others. -/
theorem unlisted {left right : List Block} {block : Block}
    {before after : List Nat}
    (heap : Represents freeList first tail mem (left ++ block :: right)
      (before ++ (first + span left + 8) :: after))
    (vacant : block.vacant = true) :
    (before ++ after).Perm (vacantNodes first left ++
      vacantNodes (first + span left + 8 + block.size) right) := by
  have listed := heap.listed
  rw [vacantNodes_append, vacantNodes_cons_vacant vacant] at listed
  have moved := (List.perm_middle.symm.trans listed).trans List.perm_middle
  exact moved.cons_inv

/-- Nodes of other blocks lie outside the area of a block with its header and
the header behind it. -/
theorem beside {left right : List Block} (block : Block)
    {others : List Nat}
    (reach : first + span (left ++ block :: right) = tail)
    (outside : Outside freeList first tail)
    (listed : others.Perm (vacantNodes first left ++
      vacantNodes (first + span left + 8 + block.size) right)) :
    ∀ node ∈ freeList :: others,
      node + 8 ≤ first + span left ∨
        first + span left + 8 + block.size + 8 ≤ node := by
  intro node member
  simp only [span_append, span] at reach
  rcases List.mem_cons.mp member with rfl | inOthers
  · unfold Outside at outside
    omega
  · rcases List.mem_append.mp (listed.subset inOthers) with inLeft | inRight
    · have := vacantNodes_bounds inLeft
      omega
    · have := vacantNodes_bounds inRight
      omega

/-- A heap but for one block, which is tagged as vacant behind `left` and not
on the list yet. -/
structure Pending (freeList first tail : Nat) (mem : Mem)
    (left : List Block) (block : Block) (right : List Block)
    (nodes : List Nat) : Prop where
  vacant : block.owner = none
  reach : first + span (left ++ block :: right) = tail
  headers : Headers mem 1 first (left ++ block :: right)
  links : FreeRing mem freeList nodes
  listed : nodes.Perm (vacantNodes first left ++
    vacantNodes (first + span left + 8 + block.size) right)
  leftSeparated : Separated left
  rightSeparated : Separated right
  rightOwned : ∀ next ∈ right.head?, next.vacant = false

theorem Pending.listAddTail {left right : List Block} {block : Block}
    (pending : Pending freeList first tail mem left block right nodes)
    (inside : tail + 8 ≤ 2 ^ 32) (outside : Outside freeList first tail)
    (leftOwned : ∀ last ∈ left.getLast?, last.vacant = false) :
    Represents freeList first tail
      (Mm.listAddTail mem (first + span left + 8) freeList)
      (left ++ block :: right) (nodes ++ [first + span left + 8]) := by
  have vacant := (Block.vacant_iff block).mpr pending.vacant
  have large := Block.large_of_vacant vacant
  have reach := pending.reach
  simp only [span_append, span] at reach
  obtain ⟨ring, changed⟩ := pending.links.listAddTail
    (first + span left + 8)
    (by
      intro other member
      have := beside block pending.reach outside pending.listed other member
      unfold Apart
      omega)
    (by omega)
  have newListed : (nodes ++ [first + span left + 8]).Perm
      (vacantNodes first (left ++ block :: right)) := by
    rw [vacantNodes_append, vacantNodes_cons_vacant vacant]
    exact (List.perm_append_singleton _ _).trans
      ((pending.listed.cons _).trans List.perm_middle.symm)
  refine ⟨pending.reach, inside, outside, ?_, ring, newListed, ?_⟩
  · apply pending.headers.of_links pending.reach outside ?_ changed
    intro node member
    exact newListed.subset member
  · exact separated_middle.mpr ⟨pending.leftSeparated,
      pending.rightSeparated, fun _ => ⟨leftOwned, pending.rightOwned⟩⟩

end Represents

/-- `region_set_size` stores inside the area it describes. -/
theorem regionSetSize_area (mem : Mem) {region : Nat} (block : Block)
    (inside : region + 8 + block.size < 2 ^ 32) {word : Nat}
    (apart : word < region ∨ region + 8 + block.size + 8 ≤ word) :
    regionSetSize mem region block.tag word = mem word := by
  rw [regionSetSize_eq mem block inside, Mem.store_of_ne _ _ (by omega),
    Mem.store_of_ne _ _ (by omega)]

/-- `region_set_size` leaves a node inside the payload or beside the area
alone. -/
theorem regionSetSize_node (mem : Mem) {region node : Nat} (block : Block)
    (inside : region + 8 + block.size < 2 ^ 32)
    (place : node + 8 ≤ region ∨
      (region + 8 ≤ node ∧ node + 8 ≤ region + 8 + block.size) ∨
      region + 8 + block.size + 8 ≤ node) :
    regionSetSize mem region block.tag node = mem node ∧
      regionSetSize mem region block.tag (node + 4) = mem (node + 4) := by
  rw [regionSetSize_eq mem block inside]
  simp (disch := omega) only [Mem.store_of_ne, and_self]

/-- A request together with what `LIST_NODE_ALIGN` makes of it. -/
theorem listNodeAlign_spec {size : Nat} (bounded : size ≤ 2 ^ 32 - 8) :
    size ≤ listNodeAlign size ∧ listNodeAlign size % 8 = 0 ∧
      ((size = 0 ∧ listNodeAlign size = 0) ∨ 8 ≤ listNodeAlign size) := by
  have sum : add32 size (listNodeSize - 1) = size + 7 :=
    add32_of_lt (by simp only [listNodeSize]; omega)
  unfold listNodeAlign
  rw [sum]
  simp only [listNodeSize, clearLow]
  omega

namespace Represents

variable {freeList first tail : Nat} {mem : Mem} {left right : List Block}
  {block : Block} {before after : List Nat}

theorem listDel
    (heap : Represents freeList first tail mem (left ++ block :: right)
      (before ++ (first + span left + 8) :: after))
    (vacant : block.vacant = true) :
    Headers (Mm.listDel mem (first + span left + 8)) 1 first
        (left ++ block :: right) ∧
      FreeRing (Mm.listDel mem (first + span left + 8)) freeList
        (before ++ after) := by
  obtain ⟨ring, changed⟩ := heap.links.listDel
  refine ⟨?_, ring⟩
  apply heap.headers.of_links heap.reach heap.outside ?_ changed
  intro node member
  have := (heap.unlisted vacant).subset member
  rw [vacantNodes_append, vacantNodes_cons_vacant vacant]
  rcases List.mem_append.mp this with inLeft | inRight
  · exact List.mem_append_left _ inLeft
  · exact List.mem_append_right _ (List.mem_cons_of_mem _ inRight)

theorem listDel_size
    (heap : Represents freeList first tail mem (left ++ block :: right)
      (before ++ (first + span left + 8) :: after))
    (vacant : block.vacant = true) :
    Mm.listDel mem (first + span left + 8) (first + span left + 4) =
      block.size := by
  obtain ⟨-, suffix⟩ := headers_append.mp (heap.listDel vacant).1
  rw [(headers_cons.mp suffix).2.1, Block.tag_of_vacant vacant]

theorem doAlloc_whole
    (heap : Represents freeList first tail mem (left ++ block :: right)
      (before ++ (first + span left + 8) :: after))
    (vacant : block.vacant = true) {allocSize request : Nat}
    (fits : allocSize ≤ block.size) (serves : request ≤ allocSize)
    (rest : block.size - allocSize < 16) :
    ∃ mem' taken, taken.owner = some request ∧ taken.size = block.size ∧
      doAlloc freeList mem allocSize (first + span left + 8) =
        (mem', first + span left + 8) ∧
      Represents freeList first tail mem' (left ++ taken :: right)
        (before ++ after) := by
  let taken := Block.owned block.size request block.aligned
    (.inr (Block.large_of_vacant vacant)) (serves.trans fits)
  have owned : taken.vacant = false := rfl
  have takenSize : taken.size = block.size := rfl
  obtain ⟨reach, inside⟩ := heap.place
  obtain ⟨headers, ring⟩ := heap.listDel vacant
  have sizeWord := heap.listDel_size vacant
  have small : block.size < 2 ^ 32 := by omega
  refine ⟨regionSetSize (Mm.listDel mem (first + span left + 8))
    (first + span left) taken.tag, taken, rfl, rfl, ?_, ?_⟩
  · have short : block.size - allocSize < memRegionSize := rest
    unfold doAlloc
    simp only [containerOf_eq (show first + span left + 8 < 2 ^ 32 by omega),
      currSize_eq (show first + span left + 4 < 2 ^ 32 by omega),
      lnMemRegion_eq (show first + span left + 8 < 2 ^ 32 by omega),
      sizeWord, sub32_of_le small fits, if_pos short]
    rfl
  · have newHeaders := headers.regionSetSize [block] taken
      (by simp) (by simp [span, takenSize])
      (by simp only [List.singleton_append, span_append, span]; omega)
    have listed := heap.unlisted vacant
    refine ⟨?_, inside, heap.outside, newHeaders, ?_, ?_, ?_⟩
    · simp only [span_append, span, takenSize]
      omega
    · apply ring.of_area
        (beside block heap.reach heap.outside listed)
      intro word apart
      exact regionSetSize_area _ taken (by omega) apart
    · rw [vacantNodes_append, vacantNodes_cons_owned owned]
      exact listed
    · obtain ⟨leftPart, rightPart, -⟩ := separated_middle.mp heap.separated
      exact separated_middle.mpr ⟨leftPart, rightPart, by simp [owned]⟩

/-- What `malloc` writes when it cuts a block. -/
theorem doAlloc_eq_split
    (heap : Represents freeList first tail mem (left ++ block :: right)
      (before ++ (first + span left + 8) :: after))
    (vacant : block.vacant = true) {front back : Block}
    (frontOwned : front.vacant = false) (backVacant : back.vacant = true)
    (sizes : block.size = front.size + (8 + back.size)) :
    doAlloc freeList mem front.size (first + span left + 8) =
      (listAddTail
        (regionSetSize
          (regionSetSize (Mm.listDel mem (first + span left + 8))
            (first + span left) front.tag)
          (first + span left + 8 + front.size) back.tag)
        (first + span left + 8 + front.size + 8) freeList,
        first + span left + 8) := by
  obtain ⟨reach, inside⟩ := heap.place
  have large := Block.large_of_vacant backVacant
  have small : block.size < 2 ^ 32 := by omega
  have fits : front.size ≤ block.size := by omega
  have long : ¬ block.size - front.size < memRegionSize := by
    simp only [memRegionSize]
    omega
  let cut := regionSetSize (Mm.listDel mem (first + span left + 8))
    (first + span left) front.tag
  have cutWord : cut (first + span left + 4) = front.tag := by
    simp only [cut]
    rw [regionSetSize_eq _ front (by omega),
      Mem.store_of_ne _ _ (by omega), Mem.store_same]
  have successor : getSuccessor cut (first + span left) =
      first + span left + 8 + front.size :=
    getSuccessor_eq (by omega) cutWord
  have restSize : sub32 (block.size - front.size) dwordSize = back.tag := by
    rw [Block.tag_of_vacant backVacant,
      sub32_of_le (by omega) (by simp only [dwordSize, wordSize]; omega)]
    simp only [dwordSize, wordSize]
    omega
  have frontTag : front.size ||| 1 = front.tag := by
    simp [Block.tag, frontOwned]
  unfold doAlloc
  simp only [containerOf_eq (show first + span left + 8 < 2 ^ 32 by omega),
    currSize_eq (show first + span left + 4 < 2 ^ 32 by omega),
    lnMemRegion_eq (show first + span left + 8 < 2 ^ 32 by omega),
    heap.listDel_size vacant, sub32_of_le small fits, if_neg long, restSize,
    frontTag]
  change (listAddTail
    (regionSetSize cut (getSuccessor cut (first + span left)) back.tag)
    (lnMemRegion (getSuccessor cut (first + span left))) freeList,
    first + span left + 8) = _
  rw [successor, lnMemRegion_eq (by omega)]

theorem pending_split
    (heap : Represents freeList first tail mem (left ++ block :: right)
      (before ++ (first + span left + 8) :: after))
    (vacant : block.vacant = true) {front back : Block}
    (frontOwned : front.vacant = false)
    (unowned : back.owner = none)
    (sizes : block.size = front.size + (8 + back.size)) :
    Pending freeList first tail
      (regionSetSize
        (regionSetSize (Mm.listDel mem (first + span left + 8))
          (first + span left) front.tag)
        (first + span left + 8 + front.size) back.tag)
      (left ++ [front]) back right (before ++ after) := by
  obtain ⟨reach, inside⟩ := heap.place
  obtain ⟨headers, ring⟩ := heap.listDel vacant
  have listed := heap.unlisted vacant
  have headers' := headers.split front back sizes
    (by simp only [span_append, span]; omega)
  have first32 : first + span left + 8 + front.size < 2 ^ 32 := by omega
  have second32 :
      first + span left + 8 + front.size + 8 + back.size < 2 ^ 32 := by
    omega
  have place : first + span (left ++ [front]) =
      first + span left + 8 + front.size := by
    simp only [span_append, span]
    omega
  have address : first + span left + 8 + front.size + 8 + back.size =
      first + span left + 8 + block.size := by omega
  have shape : left ++ front :: back :: right =
      (left ++ [front]) ++ back :: right := by simp
  obtain ⟨leftPart, rightPart, neighbours⟩ :=
    separated_middle.mp heap.separated
  refine ⟨unowned, ?_, shape ▸ headers', ?_, ?_, ?_, rightPart,
    (neighbours vacant).2⟩
  · simp only [span_append, span]
    omega
  · apply ring.of_area (beside block heap.reach heap.outside listed)
    intro word apart
    rw [regionSetSize_area _ back second32 (by omega),
      regionSetSize_area _ front first32 (by omega)]
  · rw [place, address, vacantNodes_append,
      vacantNodes_cons_owned frontOwned]
    simpa [vacantNodes] using listed
  · exact separated_middle.mpr ⟨leftPart, by simp [Separated],
      by simp [frontOwned]⟩

/-- The front of the block goes to the new owner and the rest, with a header
of its own, goes to the end of the free list. -/
theorem doAlloc_split
    (heap : Represents freeList first tail mem (left ++ block :: right)
      (before ++ (first + span left + 8) :: after))
    (vacant : block.vacant = true) {allocSize request : Nat}
    (fits : allocSize ≤ block.size) (serves : request ≤ allocSize)
    (aligned : allocSize % 8 = 0)
    (large : (request = 0 ∧ allocSize = 0) ∨ 8 ≤ allocSize)
    (rest : 16 ≤ block.size - allocSize) :
    ∃ mem' front back, front.owner = some request ∧
      front.size = allocSize ∧ back.owner = none ∧
      block.size = front.size + (8 + back.size) ∧
      doAlloc freeList mem allocSize (first + span left + 8) =
        (mem', first + span left + 8) ∧
      Represents freeList first tail mem' (left ++ front :: back :: right)
        ((before ++ after) ++ [first + span left + 8 + allocSize + 8]) := by
  have blockAligned := block.aligned
  let front := Block.owned allocSize request (by omega) large serves
  let back := Block.unowned (block.size - allocSize - 8) (by omega)
    (by omega)
  have frontOwned : front.vacant = false := rfl
  have backVacant : back.vacant = true := rfl
  have backSize : back.size = block.size - allocSize - 8 := rfl
  have frontSize : front.size = allocSize := rfl
  have sizes : block.size = front.size + (8 + back.size) := by omega
  obtain ⟨reach, inside⟩ := heap.place
  have shape : left ++ front :: back :: right =
      (left ++ [front]) ++ back :: right := by simp
  have place : first + span (left ++ [front]) =
      first + span left + 8 + allocSize := by
    simp only [span_append, span]
    omega
  have pending := heap.pending_split vacant frontOwned rfl sizes
  refine ⟨_, front, back, rfl, rfl, rfl, sizes,
    heap.doAlloc_eq_split vacant frontOwned backVacant sizes, ?_⟩
  have linked := pending.listAddTail inside heap.outside
    (by simp [frontOwned])
  rw [place] at linked
  rw [shape]
  exact linked

/-- `malloc` on a represented heap.  It either finds no region and changes
nothing, or returns the payload of a block that now belongs to the caller. -/
theorem malloc {blocks : List Block} {nodes : List Nat}
    (heap : Represents freeList first tail mem blocks nodes) {size : Nat}
    (bounded : size ≤ 2 ^ 32 - 8) :
    Mm.malloc freeList mem size = some (mem, 0) ∨
      ∃ mem' pointer given blocks' nodes', pointer ≠ 0 ∧
        Mm.malloc freeList mem size = some (mem', pointer) ∧
        Represents freeList first tail mem' blocks' nodes' ∧
        (ownedRegions first blocks').Perm
          ((pointer, given, size) :: ownedRegions first blocks) := by
  obtain ⟨serves, aligned, large⟩ := listNodeAlign_spec bounded
  have scan := heap.scan (listNodeAlign size)
  cases found : nodes.find? (fun node =>
      listNodeAlign size ≤ mem (currSize (containerOf node))) with
  | none =>
      left
      rw [found] at scan
      simp [Mm.malloc, scan]
  | some node =>
      right
      rw [found] at scan
      have unfolded : Mm.malloc freeList mem size =
          some (doAlloc freeList mem (listNodeAlign size) node) := by
        simp [Mm.malloc, scan]
      have enough := List.find?_some found
      obtain ⟨before, after, rfl⟩ :=
        List.append_of_mem (List.mem_of_find?_eq_some found)
      have inVacant : node ∈ vacantNodes first blocks :=
        heap.listed.subset (by simp)
      obtain ⟨left, block, right, rfl, vacant, rfl⟩ :=
        exists_of_mem_vacantNodes inVacant
      obtain ⟨reach, inside⟩ := heap.place
      have fits : listNodeAlign size ≤ block.size := by
        obtain ⟨-, suffix⟩ := headers_append.mp heap.headers
        have word := (headers_cons.mp suffix).2.1
        rw [containerOf_eq (by omega), currSize_eq (by omega), word,
          Block.tag_of_vacant vacant] at enough
        simpa using enough
      have noOwner := (Block.vacant_iff block).mp vacant
      by_cases rest : block.size - listNodeAlign size < 16
      · obtain ⟨mem', taken, owner, sameSize, result, heap'⟩ :=
          heap.doAlloc_whole vacant fits serves rest
        refine ⟨mem', first + span left + 8, block.size, _, _, by omega,
          unfolded.trans (by rw [result]), heap', ?_⟩
        rw [ownedRegions_append, ownedRegions_append,
          ownedRegions_cons_owned owner, ownedRegions_cons_vacant noOwner,
          sameSize]
        exact List.perm_middle
      · obtain ⟨mem', front, back, owner, frontSize, backOwner, sizes,
            result, heap'⟩ :=
          heap.doAlloc_split vacant fits serves aligned large (by omega)
        refine ⟨mem', first + span left + 8, front.size, _, _, by omega,
          unfolded.trans (by rw [result]), heap', ?_⟩
        have address : first + span left + 8 + front.size + 8 + back.size =
            first + span left + 8 + block.size := by omega
        rw [ownedRegions_append, ownedRegions_append,
          ownedRegions_cons_owned owner, ownedRegions_cons_vacant backOwner,
          ownedRegions_cons_vacant noOwner, address]
        exact List.perm_middle

end Represents

end Witos.Mm
