import Mathlib.Data.List.Chain
import Mathlib.Data.List.Perm.Subperm
import Witos.Mm.HeapFreeList

/-!
# Memories that represent a heap

`Represents` ties a memory to the list of its blocks and to the order of its
free list.  The file says where the nodes and the live pointers of a list of
blocks are, and that link words and header words do not meet.
-/

namespace Witos.Mm

open Library

/-- Payload addresses of the vacant blocks. -/
def vacantNodes : Nat → List Block → List Nat
  | _, [] => []
  | region, block :: blocks =>
      let rest := vacantNodes (region + 8 + block.size) blocks
      if block.vacant then (region + 8) :: rest else rest

/-- Payload address and requested size of the blocks with an owner. -/
def liveBlocks : Nat → List Block → List (Nat × Nat)
  | _, [] => []
  | region, block :: blocks =>
      let rest := liveBlocks (region + 8 + block.size) blocks
      match block.owner with
      | some request => (region + 8, request) :: rest
      | none => rest

/-- Payload address, size and requested size of the blocks with an owner. -/
def ownedRegions : Nat → List Block → List (Nat × Nat × Nat)
  | _, [] => []
  | region, block :: blocks =>
      let rest := ownedRegions (region + 8 + block.size) blocks
      match block.owner with
      | some request => (region + 8, block.size, request) :: rest
      | none => rest

theorem vacantNodes_append (region : Nat) (left right : List Block) :
    vacantNodes region (left ++ right) =
      vacantNodes region left ++ vacantNodes (region + span left) right := by
  induction left generalizing region with
  | nil => simp [vacantNodes, span]
  | cons block left induction =>
      have shifted : region + span (block :: left) =
          region + 8 + block.size + span left := by
        simp only [span]
        omega
      simp only [List.cons_append, vacantNodes, induction, shifted]
      split <;> simp

theorem ownedRegions_append (region : Nat) (left right : List Block) :
    ownedRegions region (left ++ right) =
      ownedRegions region left ++
        ownedRegions (region + span left) right := by
  induction left generalizing region with
  | nil => simp [ownedRegions, span]
  | cons block left induction =>
      have shifted : region + span (block :: left) =
          region + 8 + block.size + span left := by
        simp only [span]
        omega
      simp only [List.cons_append, ownedRegions, induction, shifted]
      split <;> simp

theorem vacantNodes_cons_vacant {region : Nat} {block : Block}
    {blocks : List Block} (vacant : block.vacant = true) :
    vacantNodes region (block :: blocks) =
      (region + 8) :: vacantNodes (region + 8 + block.size) blocks := by
  simp [vacantNodes, vacant]

theorem vacantNodes_cons_owned {region : Nat} {block : Block}
    {blocks : List Block} (owned : block.vacant = false) :
    vacantNodes region (block :: blocks) =
      vacantNodes (region + 8 + block.size) blocks := by
  simp [vacantNodes, owned]

theorem ownedRegions_cons_vacant {region : Nat} {block : Block}
    {blocks : List Block} (vacant : block.owner = none) :
    ownedRegions region (block :: blocks) =
      ownedRegions (region + 8 + block.size) blocks := by
  simp [ownedRegions, vacant]

theorem ownedRegions_cons_owned {region request : Nat} {block : Block}
    {blocks : List Block} (owner : block.owner = some request) :
    ownedRegions region (block :: blocks) =
      (region + 8, block.size, request) ::
        ownedRegions (region + 8 + block.size) blocks := by
  simp [ownedRegions, owner]

/-- The live blocks are the owned regions without their sizes. -/
theorem liveBlocks_eq (region : Nat) (blocks : List Block) :
    liveBlocks region blocks =
      (ownedRegions region blocks).map fun owned => (owned.1, owned.2.2) := by
  induction blocks generalizing region with
  | nil => rfl
  | cons block blocks induction =>
      simp only [liveBlocks, ownedRegions, induction]
      split <;> rfl

theorem Block.vacant_iff (block : Block) :
    block.vacant = true ↔ block.owner = none := by
  simp [Block.vacant]

theorem exists_of_mem_vacantNodes {region node : Nat} {blocks : List Block}
    (member : node ∈ vacantNodes region blocks) :
    ∃ left block right, blocks = left ++ block :: right ∧
      block.vacant = true ∧ node = region + span left + 8 := by
  induction blocks generalizing region with
  | nil => simp [vacantNodes] at member
  | cons block blocks induction =>
      have later : node ∈ vacantNodes (region + 8 + block.size) blocks →
          ∃ left found right, block :: blocks = left ++ found :: right ∧
            found.vacant = true ∧ node = region + span left + 8 := by
        intro inRest
        obtain ⟨left, found, right, shape, vacant, address⟩ :=
          induction inRest
        refine ⟨block :: left, found, right, by simp [shape], vacant, ?_⟩
        simp only [span]
        omega
      cases vacancy : block.vacant with
      | true =>
          rw [vacantNodes_cons_vacant vacancy] at member
          rcases List.mem_cons.mp member with isFirst | inRest
          · exact ⟨[], block, blocks, rfl, vacancy, by simp [span, isFirst]⟩
          · exact later inRest
      | false =>
          rw [vacantNodes_cons_owned vacancy] at member
          exact later member

theorem exists_of_mem_ownedRegions {region pointer size request : Nat}
    {blocks : List Block}
    (member : (pointer, size, request) ∈ ownedRegions region blocks) :
    ∃ left block right, blocks = left ++ block :: right ∧
      block.owner = some request ∧ block.size = size ∧
      pointer = region + span left + 8 := by
  induction blocks generalizing region with
  | nil => simp [ownedRegions] at member
  | cons block blocks induction =>
      have later : (pointer, size, request) ∈
          ownedRegions (region + 8 + block.size) blocks →
          ∃ left found right, block :: blocks = left ++ found :: right ∧
            found.owner = some request ∧ found.size = size ∧
            pointer = region + span left + 8 := by
        intro inRest
        obtain ⟨left, found, right, shape, owner, sizes, address⟩ :=
          induction inRest
        refine ⟨block :: left, found, right, by simp [shape], owner, sizes,
          ?_⟩
        simp only [span]
        omega
      cases owner : block.owner with
      | none =>
          rw [ownedRegions_cons_vacant owner] at member
          exact later member
      | some asked =>
          rw [ownedRegions_cons_owned owner] at member
          rcases List.mem_cons.mp member with isFirst | inRest
          · simp only [Prod.mk.injEq] at isFirst
            obtain ⟨rfl, rfl, rfl⟩ := isFirst
            exact ⟨[], block, blocks, rfl, owner, rfl, by simp [span]⟩
          · exact later inRest

theorem exists_owned_of_live {region pointer request : Nat}
    {blocks : List Block}
    (member : (pointer, request) ∈ liveBlocks region blocks) :
    ∃ size, (pointer, size, request) ∈ ownedRegions region blocks := by
  rw [liveBlocks_eq] at member
  obtain ⟨⟨place, size, asked⟩, inside, same⟩ := List.mem_map.mp member
  obtain ⟨rfl, rfl⟩ := Prod.mk.inj same
  exact ⟨size, inside⟩

/-- A block that was asked for with a positive size can hold the links. -/
theorem large_of_owned {region pointer size request : Nat}
    {blocks : List Block}
    (member : (pointer, size, request) ∈ ownedRegions region blocks)
    (positive : 1 ≤ request) : 8 ≤ size := by
  obtain ⟨left, block, right, -, owner, rfl, -⟩ :=
    exists_of_mem_ownedRegions member
  rcases block.large with ⟨zero, -⟩ | long
  · have same := Option.some.inj (owner.symm.trans zero)
    omega
  · exact long

theorem vacantNodes_bounds {region node : Nat} {blocks : List Block}
    (member : node ∈ vacantNodes region blocks) :
    region + 8 ≤ node ∧ node + 8 ≤ region + span blocks := by
  obtain ⟨left, block, right, rfl, vacant, rfl⟩ :=
    exists_of_mem_vacantNodes member
  have := Block.large_of_vacant vacant
  simp only [span_append, span]
  omega

theorem headerWords_append_cons (region : Nat) (left : List Block)
    (block : Block) (right : List Block) {word : Nat}
    (member : word ∈ headerWords region (left ++ block :: right)) :
    word ≤ region + span left + 4 ∨
      region + span left + 8 + block.size ≤ word := by
  induction left generalizing region with
  | nil =>
      simp only [List.nil_append, headerWords, List.mem_cons] at member
      simp only [span]
      rcases member with rfl | rfl | later
      · omega
      · omega
      · have := headerWords_ge later
        omega
  | cons first left induction =>
      simp only [List.cons_append, headerWords, List.mem_cons] at member
      simp only [span]
      rcases member with rfl | rfl | later
      · omega
      · omega
      · have := induction (region + 8 + first.size) later
        omega

theorem vacantNodes_not_header {region node word : Nat} {blocks : List Block}
    (member : node ∈ vacantNodes region blocks)
    (isHeader : word ∈ headerWords region blocks) :
    word ≠ node ∧ word ≠ node + 4 := by
  obtain ⟨left, block, right, rfl, vacant, rfl⟩ :=
    exists_of_mem_vacantNodes member
  have := Block.large_of_vacant vacant
  have := headerWords_append_cons region left block right isHeader
  omega

theorem headerWords_le {region word : Nat} {blocks : List Block}
    (member : word ∈ headerWords region blocks) :
    word ≤ region + span blocks + 4 := by
  induction blocks generalizing region with
  | nil =>
      simp only [headerWords, List.mem_cons, List.not_mem_nil,
        or_false] at member
      simp only [span]
      omega
  | cons block blocks induction =>
      simp only [headerWords, List.mem_cons] at member
      simp only [span]
      rcases member with rfl | rfl | later
      · omega
      · omega
      · have := induction later
        omega

/-- No two adjacent blocks are both vacant. -/
def Separated (blocks : List Block) : Prop :=
  blocks.IsChain
    (fun left right => ¬(left.vacant = true ∧ right.vacant = true))

/-- What a block in the middle adds: its neighbours are owned when it is
vacant. -/
theorem separated_middle {left right : List Block} {block : Block} :
    Separated (left ++ block :: right) ↔
      Separated left ∧ Separated right ∧
        (block.vacant = true →
          (∀ last ∈ left.getLast?, last.vacant = false) ∧
            ∀ next ∈ right.head?, next.vacant = false) := by
  unfold Separated
  rw [List.isChain_append, List.isChain_cons]
  constructor
  · rintro ⟨leftChain, ⟨toRight, rightChain⟩, fromLeft⟩
    refine ⟨leftChain, rightChain, ?_⟩
    intro vacant
    constructor
    · intro last isLast
      have := fromLeft last isLast block (by simp)
      simpa [vacant] using this
    · intro next isNext
      have := toRight next isNext
      simpa [vacant] using this
  · rintro ⟨leftChain, rightChain, neighbours⟩
    refine ⟨leftChain, ⟨?_, rightChain⟩, ?_⟩
    · rintro next isNext ⟨vacant, nextVacant⟩
      have := (neighbours vacant).2 next isNext
      simp [this] at nextVacant
    · intro last isLast other isBlock both
      have same : block = other := by simpa using isBlock
      subst same
      have := (neighbours both.2).1 last isLast
      simp [this] at both

/-- `free` finds a free region on one side of the one it releases. -/
def Cushioned (mem : Mem) (pointer : Nat) : Prop :=
  isFree (mem (preSize (containerOf pointer))) = true ∨
    isFree (mem (currSize (getSuccessor mem (containerOf pointer)))) = true

instance (mem : Mem) (pointer : Nat) : Decidable (Cushioned mem pointer) :=
  inferInstanceAs (Decidable (_ ∨ _))

/-- The list head, a static variable, lies outside the heap. -/
def Outside (freeList first tail : Nat) : Prop :=
  freeList + 8 ≤ first ∨ tail + 8 ≤ freeList

/-- The memory holds these blocks from `first` to the sentinel `tail`, and
the free list visits the vacant ones in the order of `nodes`. -/
structure Represents (freeList first tail : Nat) (mem : Mem)
    (blocks : List Block) (nodes : List Nat) : Prop where
  reach : first + span blocks = tail
  inside : tail + 8 ≤ 2 ^ 32
  outside : Outside freeList first tail
  headers : Headers mem 1 first blocks
  links : FreeRing mem freeList nodes
  listed : nodes.Perm (vacantNodes first blocks)
  separated : Separated blocks

theorem Represents.place {freeList first tail : Nat} {mem : Mem}
    {left right : List Block} {block : Block} {nodes : List Nat}
    (heap : Represents freeList first tail mem (left ++ block :: right)
      nodes) :
    first + span left + 8 + block.size + span right = tail ∧
      tail + 8 ≤ 2 ^ 32 := by
  have reach := heap.reach
  simp only [span_append, span] at reach
  exact ⟨by omega, heap.inside⟩

theorem Headers.of_links {mem mem' : Mem} {freeList first tail : Nat}
    {blocks : List Block} {nodes : List Nat}
    (headers : Headers mem 1 first blocks)
    (reach : first + span blocks = tail)
    (outside : Outside freeList first tail)
    (vacant : ∀ node ∈ nodes, node ∈ vacantNodes first blocks)
    (changed : ∀ word, (∀ other ∈ freeList :: nodes,
      word ≠ other ∧ word ≠ other + 4) → mem' word = mem word) :
    Headers mem' 1 first blocks := by
  apply headers.congr
  intro word isHeader
  apply changed
  intro other member
  rcases List.mem_cons.mp member with rfl | inNodes
  · have lower := headerWords_ge isHeader
    have upper := headerWords_le isHeader
    unfold Outside at outside
    omega
  · exact vacantNodes_not_header (vacant other inNodes) isHeader

/-- Links survive stores into the area from `low` to `high` when every node
lies on one side of it. -/
theorem FreeRing.of_area {mem mem' : Mem} {freeList low high : Nat}
    {nodes : List Nat} (free : FreeRing mem freeList nodes)
    (beside : ∀ node ∈ freeList :: nodes, node + 8 ≤ low ∨ high ≤ node)
    (changed : ∀ word, word < low ∨ high ≤ word → mem' word = mem word) :
    FreeRing mem' freeList nodes := by
  apply free.congr
  intro node member
  have := beside node member
  exact ⟨changed node (by omega), changed (node + 4) (by omega)⟩

end Witos.Mm
