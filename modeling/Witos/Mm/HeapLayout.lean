import Mathlib.Data.List.Perm.Basic
import Witos.Library.LinkedRing
import Witos.Mm.Heap

/-!
# The layout of the heap

A heap is seen as the list of its blocks in address order.  `Headers` says
that the boundary tags in memory are those of such a list, and `FreeRing`
that the link words form the circular free list.  The two predicates read
disjoint words: tags live in headers and links in the payloads of free
blocks.  Each primitive of the allocator therefore has one lemma about the
predicate it changes and leaves the other one alone.
-/

namespace Witos.Mm

open Library

/-- A region together with what its owner asked for.  A block without owner
is free; only a block asked for with size 0 may be empty, and thus too short
for the links of the free list. -/
structure Block where
  size : Nat
  owner : Option Nat
  aligned : size % 4 = 0
  large : (owner = some 0 ∧ size = 0) ∨ 8 ≤ size
  serves : ∀ request ∈ owner, request ≤ size

namespace Block

def vacant (block : Block) : Bool :=
  block.owner.isNone

/-- The word stored in `curr_size`. -/
def tag (block : Block) : Nat :=
  if block.vacant then block.size else block.size ||| 1

theorem large_of_vacant {block : Block} (vacant : block.vacant = true) :
    8 ≤ block.size := by
  rcases block.large with ⟨owned, -⟩ | long
  · simp [Block.vacant, owned] at vacant
  · exact long

theorem tag_of_vacant {block : Block} (vacant : block.vacant = true) :
    block.tag = block.size := by
  simp [tag, vacant]

theorem tag_of_owned {block : Block} (owned : block.vacant = false) :
    block.tag = block.size + 1 := by
  have even : block.size % 2 = 0 := by
    have := block.aligned
    omega
  simp [tag, owned, or_one_of_even even]

theorem tag_cases (block : Block) :
    block.vacant = true ∧ block.tag = block.size ∨
      block.vacant = false ∧ block.tag = block.size + 1 := by
  cases vacancy : block.vacant with
  | true => exact Or.inl ⟨rfl, tag_of_vacant vacancy⟩
  | false => exact Or.inr ⟨rfl, tag_of_owned vacancy⟩

@[simp] theorem clearLow_tag (block : Block) :
    clearLow 4 block.tag = block.size := by
  have aligned := block.aligned
  unfold clearLow
  rcases block.tag_cases with ⟨-, tag⟩ | ⟨-, tag⟩ <;> omega

theorem clearLow_size (block : Block) :
    clearLow 4 block.size = block.size := by
  have aligned := block.aligned
  unfold clearLow
  omega

@[simp] theorem isFree_tag (block : Block) :
    isFree block.tag = block.vacant := by
  have aligned := block.aligned
  rcases block.tag_cases with ⟨vacant, tag⟩ | ⟨owned, tag⟩
  · rw [vacant, tag]
    simp [isFree, wordSize, aligned]
  · rw [owned, tag]
    have odd : (block.size + 1) % 4 = 1 := by omega
    simp [isFree, wordSize, odd]

def owned (size request : Nat) (aligned : size % 4 = 0)
    (large : (request = 0 ∧ size = 0) ∨ 8 ≤ size) (serves : request ≤ size) :
    Block where
  size := size
  owner := some request
  aligned := aligned
  large := large.imp_left (And.imp_left (congrArg some))
  serves := by
    rintro asked ⟨⟩
    exact serves

def unowned (size : Nat) (aligned : size % 4 = 0) (large : 8 ≤ size) :
    Block where
  size := size
  owner := none
  aligned := aligned
  large := .inr large
  serves := by simp

/-- Two neighbours as one block, with the header between them. -/
def join (block next : Block) : Block :=
  unowned (block.size + 8 + next.size)
    (by have := block.aligned; have := next.aligned; omega)
    (by omega)

@[simp] theorem join_size (block next : Block) :
    (block.join next).size = block.size + 8 + next.size := rfl

@[simp] theorem join_vacant (block next : Block) :
    (block.join next).vacant = true := rfl

/-- How both halves of `free` compute the tag of a joined block. -/
theorem add32_join {block next : Block}
    (bounded : block.size + 8 + next.size < 2 ^ 32) :
    add32 (add32 block.size next.size) dwordSize =
      (block.join next).tag := by
  rw [tag_of_vacant (join_vacant block next), join_size,
    add32_of_lt (show block.size + next.size < 2 ^ 32 by omega),
    add32_of_lt (by simp only [dwordSize, wordSize]; omega)]
  simp only [dwordSize, wordSize]
  omega

end Block

/-- Bytes taken by a list of blocks with their headers. -/
def span : List Block → Nat
  | [] => 0
  | block :: blocks => 8 + block.size + span blocks

@[simp] theorem span_append (left right : List Block) :
    span (left ++ right) = span left + span right := by
  induction left with
  | nil => simp [span]
  | cons block left induction =>
      simp only [List.cons_append, span, induction]
      omega

/-- The tag found in front of the block that follows `blocks`. -/
def lastTag : Nat → List Block → Nat
  | pre, [] => pre
  | _, block :: blocks => lastTag block.tag blocks

theorem lastTag_append (pre : Nat) (left right : List Block) :
    lastTag pre (left ++ right) = lastTag (lastTag pre left) right := by
  induction left generalizing pre with
  | nil => rfl
  | cons block left induction => simpa [lastTag] using induction block.tag

/-- Boundary tags of the blocks that start at `region`, without what comes
after them. -/
def Tags (mem : Mem) : Nat → Nat → List Block → Prop
  | _, _, [] => True
  | pre, region, block :: blocks =>
      mem region = pre ∧ mem (region + 4) = block.tag ∧
        Tags mem block.tag (region + 8 + block.size) blocks

/-- Boundary tags of the blocks that start at `region` and of the sentinel
behind them. -/
def Headers (mem : Mem) (pre region : Nat) (blocks : List Block) : Prop :=
  Tags mem pre region blocks ∧
    mem (region + span blocks) = lastTag pre blocks ∧
    mem (region + span blocks + 4) = 1

/-- The header words of the blocks that start at `region`. -/
def headerWords : Nat → List Block → List Nat
  | region, [] => [region, region + 4]
  | region, block :: blocks =>
      region :: (region + 4) :: headerWords (region + 8 + block.size) blocks

theorem Tags.congr {mem mem' : Mem} {pre region : Nat} {blocks : List Block}
    (tags : Tags mem pre region blocks)
    (same : ∀ word ∈ headerWords region blocks,
      word < region + span blocks → mem' word = mem word) :
    Tags mem' pre region blocks := by
  induction blocks generalizing pre region with
  | nil => trivial
  | cons block blocks induction =>
      obtain ⟨preTag, currTag, rest⟩ := tags
      simp only [span] at same
      refine ⟨?_, ?_, induction rest ?_⟩
      · rw [same _ (by simp [headerWords]) (by omega), preTag]
      · rw [same _ (by simp [headerWords]) (by omega), currTag]
      · intro word member below
        exact same word (by simp [headerWords, member]) (by omega)

theorem sentinelWords_mem (region : Nat) (blocks : List Block) :
    region + span blocks ∈ headerWords region blocks ∧
      region + span blocks + 4 ∈ headerWords region blocks := by
  induction blocks generalizing region with
  | nil => simp [headerWords, span]
  | cons block blocks induction =>
      have shifted : region + span (block :: blocks) =
          region + 8 + block.size + span blocks := by
        simp only [span]
        omega
      obtain ⟨first, second⟩ := induction (region + 8 + block.size)
      rw [shifted]
      simp [headerWords, first, second]

theorem Headers.congr {mem mem' : Mem} {pre region : Nat}
    {blocks : List Block} (headers : Headers mem pre region blocks)
    (same : ∀ word ∈ headerWords region blocks, mem' word = mem word) :
    Headers mem' pre region blocks := by
  obtain ⟨tags, before, sentinel⟩ := headers
  obtain ⟨firstMember, secondMember⟩ := sentinelWords_mem region blocks
  exact ⟨tags.congr (fun word member _ => same word member),
    (same _ firstMember).trans before,
    (same _ secondMember).trans sentinel⟩

theorem tags_append {mem : Mem} {pre region : Nat} {left right : List Block} :
    Tags mem pre region (left ++ right) ↔
      Tags mem pre region left ∧
        Tags mem (lastTag pre left) (region + span left) right := by
  induction left generalizing pre region with
  | nil => simp [Tags, lastTag, span]
  | cons block left induction =>
      have shifted : region + span (block :: left) =
          region + 8 + block.size + span left := by
        simp only [span]
        omega
      simp only [List.cons_append, Tags, lastTag, induction, shifted]
      constructor
      · rintro ⟨preTag, currTag, leftTags, rightTags⟩
        exact ⟨⟨preTag, currTag, leftTags⟩, rightTags⟩
      · rintro ⟨⟨preTag, currTag, leftTags⟩, rightTags⟩
        exact ⟨preTag, currTag, leftTags, rightTags⟩

theorem headers_append {mem : Mem} {pre region : Nat}
    {left right : List Block} :
    Headers mem pre region (left ++ right) ↔
      Tags mem pre region left ∧
        Headers mem (lastTag pre left) (region + span left) right := by
  unfold Headers
  rw [tags_append, span_append, lastTag_append, ← Nat.add_assoc]
  exact and_assoc

theorem headers_cons {mem : Mem} {pre region : Nat} {block : Block}
    {blocks : List Block} :
    Headers mem pre region (block :: blocks) ↔
      mem region = pre ∧ mem (region + 4) = block.tag ∧
        Headers mem block.tag (region + 8 + block.size) blocks := by
  have split := @headers_append mem pre region [block] blocks
  simp only [List.singleton_append, Tags, lastTag, span, and_true] at split
  rw [split]
  have shifted : region + (8 + block.size + 0) = region + 8 + block.size := by
    omega
  rw [shifted]
  exact and_assoc

theorem headerWords_ge {region word : Nat} {blocks : List Block}
    (member : word ∈ headerWords region blocks) : region ≤ word := by
  induction blocks generalizing region with
  | nil =>
      simp only [headerWords, List.mem_cons, List.not_mem_nil,
        or_false] at member
      omega
  | cons block blocks induction =>
      simp only [headerWords, List.mem_cons] at member
      rcases member with rfl | rfl | later
      · exact Nat.le_refl _
      · omega
      · have := induction later
        omega

/-- The first header word of a run of blocks only repeats the tag before. -/
theorem Headers.retag {mem mem' : Mem} {pre pre' region : Nat}
    {blocks : List Block} (headers : Headers mem pre region blocks)
    (first : mem' region = pre')
    (same : ∀ word, region < word → mem' word = mem word) :
    Headers mem' pre' region blocks := by
  cases blocks with
  | nil =>
      obtain ⟨-, -, sentinel⟩ := headers
      refine ⟨trivial, ?_, ?_⟩
      · simpa [span, lastTag] using first
      · rw [← sentinel]
        exact same _ (by omega)
  | cons block blocks =>
      obtain ⟨-, currTag, rest⟩ := headers_cons.mp headers
      refine headers_cons.mpr ⟨first, ?_, ?_⟩
      · rw [same _ (by omega), currTag]
      · apply rest.congr
        intro word member
        have := headerWords_ge member
        exact same word (by omega)

theorem currSize_eq {region : Nat} (inside : region + 4 < 2 ^ 32) :
    currSize region = region + 4 :=
  add32_of_lt inside

theorem lnMemRegion_eq {region : Nat} (inside : region + 8 < 2 ^ 32) :
    lnMemRegion region = region + 8 :=
  add32_of_lt inside

theorem containerOf_eq {region : Nat} (inside : region + 8 < 2 ^ 32) :
    containerOf (region + 8) = region := by
  unfold containerOf
  rw [sub32_of_le inside (by omega)]
  omega

theorem getSize_eq {mem : Mem} {region : Nat} {block : Block}
    (inside : region + 4 < 2 ^ 32) (tag : mem (region + 4) = block.tag) :
    getSize mem region = block.size := by
  unfold getSize
  rw [currSize_eq inside, tag]
  exact block.clearLow_tag

theorem getSuccessor_eq {mem : Mem} {region : Nat} {block : Block}
    (inside : region + 8 + block.size < 2 ^ 32)
    (tag : mem (region + 4) = block.tag) :
    getSuccessor mem region = region + 8 + block.size := by
  have payload : add32 region dwordSize = region + 8 :=
    add32_of_lt (by simp only [dwordSize, wordSize]; omega)
  unfold getSuccessor
  rw [getSize_eq (by omega) tag, payload, add32_of_lt inside]

theorem getPredecessor_eq {mem : Mem} {region : Nat} {block : Block}
    (inside : region + 8 + block.size < 2 ^ 32)
    (tag : mem (region + 8 + block.size) = block.tag) :
    getPredecessor mem (region + 8 + block.size) = region := by
  have payload : sub32 (region + 8 + block.size) block.size = region + 8 := by
    rw [sub32_of_le inside (by omega)]
    omega
  unfold getPredecessor
  simp only [preSize, tag, wordSize, Block.clearLow_tag, payload, dwordSize]
  rw [sub32_of_le (by omega) (by omega)]
  omega

/-- `region_set_size` writes the two copies of one boundary tag. -/
theorem regionSetSize_word (mem : Mem) {region word size : Nat}
    (clears : clearLow 4 word = size)
    (inside : region + 8 + size < 2 ^ 32) :
    regionSetSize mem region word =
      (mem.store (region + 4) word).store (region + 8 + size) word := by
  have payload : add32 region dwordSize = region + 8 :=
    add32_of_lt (by simp only [dwordSize, wordSize]; omega)
  have successor : getSuccessor (mem.store (region + 4) word) region =
      region + 8 + size := by
    unfold getSuccessor getSize
    rw [currSize_eq (by omega), Mem.store_same, payload]
    simp only [wordSize, clears]
    exact add32_of_lt inside
  unfold regionSetSize
  rw [currSize_eq (by omega)]
  simp only [preSize, successor]

theorem regionSetSize_eq (mem : Mem) {region : Nat} (block : Block)
    (inside : region + 8 + block.size < 2 ^ 32) :
    regionSetSize mem region block.tag =
      (mem.store (region + 4) block.tag).store
        (region + 8 + block.size) block.tag :=
  regionSetSize_word mem block.clearLow_tag inside

/-- `region_set_size` turns the blocks that a region reaches over into one
block. -/
theorem Headers.regionSetSize {mem : Mem} {pre region : Nat}
    {left right : List Block} (group : List Block) (block : Block)
    (headers : Headers mem pre region (left ++ (group ++ right)))
    (start : group ≠ []) (reach : span group = 8 + block.size)
    (inside : region + span (left ++ (group ++ right)) + 8 ≤ 2 ^ 32) :
    Headers (Mm.regionSetSize mem (region + span left) block.tag) pre region
      (left ++ block :: right) := by
  simp only [span_append] at inside
  rw [regionSetSize_eq mem block (by omega)]
  obtain ⟨leftTags, rest⟩ := headers_append.mp headers
  obtain ⟨groupTags, rightHeaders⟩ := headers_append.mp rest
  refine headers_append.mpr ⟨?_, headers_cons.mpr ⟨?_, ?_, ?_⟩⟩
  · apply leftTags.congr
    intro word _ below
    rw [Mem.store_of_ne _ _ (by omega), Mem.store_of_ne _ _ (by omega)]
  · rw [Mem.store_of_ne _ _ (by omega), Mem.store_of_ne _ _ (by omega)]
    cases group with
    | nil => exact absurd rfl start
    | cons first group => exact groupTags.1
  · rw [Mem.store_of_ne _ _ (by omega), Mem.store_same]
  · have address : region + span left + span group =
        region + span left + 8 + block.size := by omega
    rw [address] at rightHeaders
    apply rightHeaders.retag (Mem.store_same _ _ _)
    intro word above
    rw [Mem.store_of_ne _ _ (by omega), Mem.store_of_ne _ _ (by omega)]

/-- Cutting a block in two, as `malloc` does: the header of the second part
is new. -/
theorem Headers.split {mem : Mem} {pre region : Nat}
    {left right : List Block} {block : Block} (front back : Block)
    (headers : Headers mem pre region (left ++ block :: right))
    (sizes : block.size = front.size + (8 + back.size))
    (inside : region + span (left ++ block :: right) + 8 ≤ 2 ^ 32) :
    Headers
      (Mm.regionSetSize
        (Mm.regionSetSize mem (region + span left) front.tag)
        (region + span left + 8 + front.size) back.tag)
      pre region (left ++ front :: back :: right) := by
  simp only [span_append, span] at inside
  rw [regionSetSize_eq mem front (by omega),
    regionSetSize_eq _ back (by omega)]
  obtain ⟨leftTags, rest⟩ := headers_append.mp headers
  obtain ⟨preTag, -, rightHeaders⟩ := headers_cons.mp rest
  refine headers_append.mpr ⟨?_, headers_cons.mpr ⟨?_, ?_,
    headers_cons.mpr ⟨?_, ?_, ?_⟩⟩⟩
  · apply leftTags.congr
    intro word _ below
    simp (disch := omega) only [Mem.store_of_ne]
  · simp (disch := omega) only [Mem.store_of_ne]
    exact preTag
  · simp (disch := omega) only [Mem.store_of_ne, Mem.store_same]
  · simp (disch := omega) only [Mem.store_of_ne, Mem.store_same]
  · simp (disch := omega) only [Mem.store_of_ne, Mem.store_same]
  · have address : region + span left + 8 + block.size =
        region + span left + 8 + front.size + 8 + back.size := by omega
    rw [address] at rightHeaders
    apply rightHeaders.retag (Mem.store_same _ _ _)
    intro word above
    simp (disch := omega) only [Mem.store_of_ne]

end Witos.Mm
