import Witos.Fs.Ext4Map

/-!
# The extents in an inode

`ext4_get_extent_blkbums` goes from one extent to the next by
`extent += sizeof(*extent)`, which is twelve extents further and behind the
inode's `i_block`.  Only the first extent is used as it should be.
-/

namespace Witos.Fs

open Library

/-- The place of an extent behind the header. -/
def extentPlace (index : Nat) : Nat :=
  extentSize + extentSize * index

def eeStart (node : Nat → UInt8) (place : Nat) : Nat :=
  eeStartHi node place * 2 ^ 32 + eeStartLo node place

/-- The extent at a place covers a logical block. -/
def CoveredAt (node : Nat → UInt8) (place block : Nat) : Prop :=
  eeBlock node place ≤ block ∧ block < eeBlock node place + eeLen node place

/-- A node without levels below it, with at most the four extents that there is
room for in an inode, in order and without overlap. -/
structure Leaf (node : Nat → UInt8) : Prop where
  magic : ehMagic node = ext4ExtMagic
  depth : ehDepth node = 0
  entries : ehEntries node ≤ 4
  sorted : ∀ first second, first < second → second < ehEntries node →
    eeBlock node (extentPlace first) + eeLen node (extentPlace first) ≤
      eeBlock node (extentPlace second)

/-- The size of `i_block`. -/
def iBlockSize : Nat := 60

/-- Whatever surrounds the node and whatever the array holds before, the call
returns 0 only with the blocks that the extents say, and reports a block that
none of them covers. -/
def MapsExtents (node : Nat → UInt8) (skip nums : Nat) : Prop :=
  ∀ (e4In : Nat → UInt8) (stack : Nat → Nat),
    (∀ offset < iBlockSize, iBlockNode e4In offset = node offset) →
    (∀ i, stack i < 2 ^ 32) →
    let result := ext4GetExtentBlkbums e4In stack skip nums
    (result.1 = 0 → ∀ i < nums, ∃ index < ehEntries node,
      CoveredAt node (extentPlace index) (skip + i) ∧
        result.2 i = eeStart node (extentPlace index) +
          (skip + i - eeBlock node (extentPlace index))) ∧
    ((∃ i < nums, ∀ index < ehEntries node,
      ¬CoveredAt node (extentPlace index) (skip + i)) → result.1 < 0)

theorem Leaf.covered_unique {node : Nat → UInt8} (leaf : Leaf node)
    {first second block : Nat} (firstIn : first < ehEntries node)
    (secondIn : second < ehEntries node)
    (coversFirst : CoveredAt node (extentPlace first) block)
    (coversSecond : CoveredAt node (extentPlace second) block) :
    first = second := by
  rcases Nat.lt_trichotomy first second with before | same | after
  · have apart := leaf.sorted first second before secondIn
    exact absurd coversSecond.1
      (Nat.not_le_of_lt (Nat.lt_of_lt_of_le coversFirst.2 apart))
  · exact same
  · have apart := leaf.sorted second first after firstIn
    exact absurd coversFirst.1
      (Nat.not_le_of_lt (Nat.lt_of_lt_of_le coversSecond.2 apart))

/-- The part of the range that one extent fills in. -/
structure FillsUpTo (skip start len iter : Nat) (block : Nat → Nat)
    (filled : Nat × (Nat → Nat)) : Prop where
  forward : iter ≤ filled.1
  kept : ∀ i, filled.1 ≤ i → filled.2 i = block i
  inside : ∀ i, iter ≤ i → i < filled.1 →
    start ≤ add32 i skip ∧ add32 i skip < add32 start len

theorem extentFill_spec (skip start len addr left iter : Nat)
    (block : Nat → Nat) :
    FillsUpTo skip start len iter block
      (extentFill skip start len addr left iter block) ∧
    (extentFill skip start len addr left iter block).1 ≤ iter + left := by
  have stopped : FillsUpTo skip start len iter block (iter, block) :=
    ⟨Nat.le_refl _, fun _ _ => rfl, fun i low high => by omega⟩
  induction left generalizing iter block with
  | zero => exact ⟨stopped, Nat.le_refl _⟩
  | succ left induction =>
      rw [extentFill]
      split
      · next here =>
          obtain ⟨later, high⟩ := induction (iter + 1)
            (Function.update block iter
              (add32 addr (sub32 (add32 iter skip) start)))
            ⟨Nat.le_refl _, fun _ _ => rfl, fun i low high => by omega⟩
          have forward := later.forward
          refine ⟨⟨by omega, ?_, ?_⟩, by omega⟩
          · intro i behind
            rw [later.kept i behind, Function.update_of_ne (by omega)]
          · intro i low below
            by_cases isFirst : i = iter
            · rw [isFirst]
              exact here
            · exact later.inside i (by omega) below
      · exact ⟨stopped, by omega⟩

theorem extentFill_fst (skip start len addr left iter : Nat)
    (block other : Nat → Nat) :
    (extentFill skip start len addr left iter block).1 =
      (extentFill skip start len addr left iter other).1 := by
  induction left generalizing iter block other with
  | zero => rfl
  | succ left induction =>
      rw [extentFill, extentFill]
      split
      · exact induction _ _ _
      · rfl

theorem leValue_blank {memory : Nat → UInt8} {offset : Nat} (count : Nat)
    (blank : ∀ index, offset ≤ index → memory index = 0) :
    leValue (slice memory offset count) = 0 := by
  induction count generalizing offset with
  | zero => rw [slice_zero, leValue]
  | succ count induction =>
      rw [slice_succ, leValue, blank offset (Nat.le_refl _),
        induction fun index behind => blank index (by omega)]
      rfl

theorem extentFill_empty (skip addr left iter : Nat) (block : Nat → Nat) :
    extentFill skip 0 0 addr left iter block = (iter, block) := by
  cases left with
  | zero => rfl
  | succ left =>
      rw [extentFill]
      exact if_neg fun inside => Nat.not_lt_zero _ inside.2

theorem extentLoop_blank {node : Nat → UInt8} {skip nums left place iter : Nat}
    (blank : ∀ offset, place ≤ offset → node offset = 0)
    (block : Nat → Nat) :
    extentLoop node skip nums left place iter block = block := by
  induction left generalizing place with
  | zero => rfl
  | succ left induction =>
      have start : eeBlock node place = 0 := leValue_blank 4 blank
      have len : eeLen node place = 0 :=
        leValue_blank 2 fun offset behind => blank offset (by omega)
      rw [extentLoop, start, len, extentFill_empty]
      simp only
      split
      · rfl
      · exact induction fun offset behind => blank offset (by omega)

/-- The inode in memory with zeros around its `i_block`. -/
def bareInode (node : Nat → UInt8) : Nat → UInt8 :=
  fun offset =>
    if 40 ≤ offset ∧ offset < 40 + iBlockSize then node (offset - 40) else 0

theorem iBlockNode_bareInode (node : Nat → UInt8) (offset : Nat) :
    iBlockNode (bareInode node) offset =
      if offset < iBlockSize then node offset else 0 := by
  unfold iBlockNode bareInode
  by_cases inside : offset < iBlockSize
  · rw [if_pos ⟨by omega, by omega⟩, if_pos inside, Nat.add_sub_cancel_left]
  · rw [if_neg (by omega), if_neg inside]

section Agree

variable {node memory : Nat → UInt8}
  (agree : ∀ offset < iBlockSize, memory offset = node offset)

include agree

theorem slice_agree {offset count : Nat}
    (inside : offset + count ≤ iBlockSize) :
    slice memory offset count = slice node offset count := by
  apply slice_congr
  intro index small
  exact agree _ (by omega)

theorem ehMagic_agree : ehMagic memory = ehMagic node :=
  congrArg leValue (slice_agree agree (by decide))

theorem ehEntries_agree : ehEntries memory = ehEntries node :=
  congrArg leValue (slice_agree agree (by decide))

theorem ehDepth_agree : ehDepth memory = ehDepth node :=
  congrArg leValue (slice_agree agree (by decide))

variable {place : Nat} (inside : place + extentSize ≤ iBlockSize)

include inside

theorem eeBlock_agree : eeBlock memory place = eeBlock node place :=
  congrArg leValue (slice_agree agree (by unfold extentSize at inside; omega))

theorem eeLen_agree : eeLen memory place = eeLen node place :=
  congrArg leValue (slice_agree agree (by unfold extentSize at inside; omega))

theorem eeStartLo_agree : eeStartLo memory place = eeStartLo node place :=
  congrArg leValue (slice_agree agree (by unfold extentSize at inside; omega))

end Agree

/-- The first extent holds the range, and its blocks have numbers of 32
bits. -/
structure FirstHolds (node : Nat → UInt8) (skip nums : Nat) : Prop where
  entries : 0 < ehEntries node
  begins : eeBlock node extentSize ≤ skip
  enough : skip + nums ≤ eeBlock node extentSize + eeLen node extentSize
  small : eeBlock node extentSize + eeLen node extentSize < 2 ^ 32
  addressed : eeStart node extentSize +
    (skip + nums - 1 - eeBlock node extentSize) < 2 ^ 32

section Call

variable {node : Nat → UInt8} (leaf : Leaf node) {skip nums : Nat}

include leaf

/-- The value returned is 0 whatever the extents are. -/
theorem ext4GetExtentBlkbums_leaf {e4In : Nat → UInt8}
    (agree : ∀ offset < iBlockSize, iBlockNode e4In offset = node offset)
    (stack : Nat → Nat) :
    ext4GetExtentBlkbums e4In stack skip nums =
      (0, extentLoop (iBlockNode e4In) skip nums (ehEntries (iBlockNode e4In))
        extentSize 0 stack) := by
  have magic : ehMagic (iBlockNode e4In) = ext4ExtMagic :=
    (ehMagic_agree agree).trans leaf.magic
  have depth : ¬0 < ehDepth (iBlockNode e4In) := by
    rw [ehDepth_agree agree, leaf.depth]
    exact Nat.lt_irrefl 0
  exact (if_neg (not_not.mpr magic)).trans (if_neg depth)

theorem mapsExtents_of_first (holds : FirstHolds node skip nums) :
    MapsExtents node skip nums := by
  obtain ⟨entries, begins, enough, small, addressed⟩ := holds
  have covers (i : Nat) (inside : i < nums) :
      CoveredAt node (extentPlace 0) (skip + i) :=
    ⟨Nat.le_trans begins (Nat.le_add_right _ _),
      Nat.lt_of_lt_of_le (Nat.add_lt_add_left inside _) enough⟩
  intro e4In stack agree _
  have block : eeBlock (iBlockNode e4In) extentSize =
      eeBlock node extentSize := eeBlock_agree agree (by decide)
  have len : eeLen (iBlockNode e4In) extentSize = eeLen node extentSize :=
    eeLen_agree agree (by decide)
  have lo : eeStartLo (iBlockNode e4In) extentSize =
      eeStartLo node extentSize := eeStartLo_agree agree (by decide)
  rw [ext4GetExtentBlkbums_leaf leaf agree]
  constructor
  · intro _ i inside
    refine ⟨0, entries, covers i inside, ?_⟩
    simp only
    rw [extentLoop_within (by rwa [ehEntries_agree agree]) (by rwa [block])
      (by rwa [block, len]) (by rwa [block, len]) stack inside, block, lo]
    unfold eeStart at addressed ⊢
    rw [add32_of_lt (by omega)]
    have high : eeStartHi node extentSize = 0 := by omega
    have place : extentPlace 0 = extentSize := rfl
    rw [place, high, Nat.zero_mul, Nat.zero_add]
  · rintro ⟨i, inside, uncovered⟩
    exact absurd (covers i inside) (uncovered 0 entries)

omit leaf in
theorem extentLoop_bare (entries : 0 < ehEntries node) (stack : Nat → Nat) :
    extentLoop (iBlockNode (bareInode node)) skip nums (ehEntries node)
        extentSize 0 stack =
      (extentFill skip (eeBlock node extentSize) (eeLen node extentSize)
        (eeStartLo node extentSize) nums 0 stack).2 := by
  have agree : ∀ offset < iBlockSize,
      iBlockNode (bareInode node) offset = node offset := by
    intro offset inside
    rw [iBlockNode_bareInode, if_pos inside]
  have blank : ∀ offset, extentSize + extentSize * extentSize ≤ offset →
      iBlockNode (bareInode node) offset = 0 := by
    intro offset behind
    rw [iBlockNode_bareInode, if_neg]
    unfold iBlockSize
    unfold extentSize at behind
    omega
  obtain ⟨left, more⟩ := Nat.exists_eq_succ_of_ne_zero (Nat.ne_of_gt entries)
  rw [more, extentLoop, eeBlock_agree agree (by decide),
    eeLen_agree agree (by decide), eeStartLo_agree agree (by decide),
    Nat.sub_zero]
  split
  · rfl
  · exact extentLoop_blank blank _

end Call

theorem range_of_inside {skip start len nums : Nat} (skipSmall : skip < 2 ^ 32)
    (lenSmall : len < 2 ^ 32) (positive : 0 < nums)
    (inside : ∀ i < nums,
      start ≤ add32 i skip ∧ add32 i skip < add32 start len) :
    start ≤ skip ∧ skip + nums ≤ start + len ∧ start + len < 2 ^ 32 := by
  have first := inside 0 positive
  have small : start + len < 2 ^ 32 := by
    unfold add32 at first
    omega
  rw [add32_of_lt small, add32_of_lt (by omega), Nat.zero_add] at first
  have each (i : Nat) (within : i < nums) : skip + i < start + len := by
    induction i with
    | zero => exact first.2
    | succ i induction =>
        have next := (inside (i + 1) within).2
        have previous := induction (by omega)
        rw [add32_of_lt small, add32_of_lt (by omega)] at next
        omega
  have last := each (nums - 1) (by omega)
  exact ⟨first.1, by omega, small⟩

section Necessary

variable {node : Nat → UInt8} (leaf : Leaf node) {skip nums : Nat}
  (maps : MapsExtents node skip nums)

/-- What the first extent puts into the array. -/
def firstFill (node : Nat → UInt8) (skip nums : Nat) (stack : Nat → Nat) :
    Nat × (Nat → Nat) :=
  extentFill skip (eeBlock node extentSize) (eeLen node extentSize)
    (eeStartLo node extentSize) nums 0 stack

theorem bareInode_agrees (node : Nat → UInt8) :
    ∀ offset < iBlockSize,
      iBlockNode (bareInode node) offset = node offset := by
  intro offset inside
  rw [iBlockNode_bareInode, if_pos inside]

include leaf maps

theorem entries_pos_of_maps (positive : 0 < nums) : 0 < ehEntries node := by
  have found := (maps (bareInode node) (fun _ => 0) (bareInode_agrees node)
    (by simp)).1
  rw [ext4GetExtentBlkbums_leaf leaf (bareInode_agrees node)] at found
  obtain ⟨index, inside, _⟩ := found rfl 0 positive
  exact Nat.zero_lt_of_lt inside

theorem firstFill_found (stack : Nat → Nat) (small : ∀ i, stack i < 2 ^ 32)
    {i : Nat} (inside : i < nums) :
    ∃ index < ehEntries node,
      CoveredAt node (extentPlace index) (skip + i) ∧
        (firstFill node skip nums stack).2 i =
          eeStart node (extentPlace index) +
            (skip + i - eeBlock node (extentPlace index)) := by
  have agree := bareInode_agrees node
  have entries := entries_pos_of_maps leaf maps (Nat.zero_lt_of_lt inside)
  have found := (maps (bareInode node) stack agree small).1
  rw [ext4GetExtentBlkbums_leaf leaf agree, ehEntries_agree agree,
    extentLoop_bare entries] at found
  exact found rfl i inside

/-- The array is filled to its end, since what it held before may be
anything. -/
theorem firstFill_all : (firstFill node skip nums (fun _ => 0)).1 = nums := by
  obtain ⟨zeros, high⟩ := extentFill_spec skip (eeBlock node extentSize)
    (eeLen node extentSize) (eeStartLo node extentSize) nums 0 (fun _ => 0)
  obtain ⟨ones, _⟩ := extentFill_spec skip (eeBlock node extentSize)
    (eeLen node extentSize) (eeStartLo node extentSize) nums 0 (fun _ => 1)
  have same := extentFill_fst skip (eeBlock node extentSize)
    (eeLen node extentSize) (eeStartLo node extentSize) nums 0 (fun _ => 1)
    (fun _ => 0)
  by_contra less
  have below : (firstFill node skip nums (fun _ => 0)).1 < nums := by
    unfold firstFill at less ⊢
    omega
  obtain ⟨first, firstIn, firstCovers, zero⟩ :=
    firstFill_found leaf maps (fun _ => 0) (by simp) below
  obtain ⟨second, secondIn, secondCovers, one⟩ :=
    firstFill_found leaf maps (fun _ => 1) (by simp) below
  obtain rfl := leaf.covered_unique firstIn secondIn firstCovers secondCovers
  unfold firstFill at zero one
  rw [zeros.kept _ (Nat.le_refl _)] at zero
  rw [ones.kept _ (Nat.le_of_eq same)] at one
  omega

theorem firstHolds_of_maps (skipSmall : skip < 2 ^ 32) (positive : 0 < nums) :
    FirstHolds node skip nums := by
  have entries := entries_pos_of_maps leaf maps positive
  have all := firstFill_all leaf maps
  obtain ⟨zeros, _⟩ := extentFill_spec skip (eeBlock node extentSize)
    (eeLen node extentSize) (eeStartLo node extentSize) nums 0 (fun _ => 0)
  have lenSmall : eeLen node extentSize < 2 ^ 32 :=
    Nat.lt_trans (leValue_lt _) (by rw [length_slice]; decide)
  obtain ⟨begins, enough, small⟩ := range_of_inside skipSmall lenSmall positive
    (fun i within => zeros.inside i (Nat.zero_le i)
      (by unfold firstFill at all; omega))
  refine ⟨entries, begins, enough, small, ?_⟩
  obtain ⟨index, indexIn, covers, value⟩ :=
    firstFill_found leaf maps (fun _ => 0) (by simp)
      (Nat.sub_lt positive Nat.one_pos)
  have last : skip + (nums - 1) = skip + nums - 1 := by omega
  have isFirst : CoveredAt node (extentPlace 0) (skip + (nums - 1)) :=
    ⟨Nat.le_trans begins (Nat.le_add_right _ _),
      Nat.lt_of_lt_of_le (by omega) enough⟩
  obtain rfl := leaf.covered_unique indexIn entries covers isFirst
  unfold firstFill at value
  rw [extentFill_within begins enough small (Nat.zero_add _)] at value
  simp only at value
  rw [if_pos ⟨Nat.zero_le _, by omega⟩, last] at value
  have place : extentPlace 0 = extentSize := rfl
  rw [← place, ← value]
  exact Nat.mod_lt _ (by decide)

end Necessary

/-- The ranges that are found in every inode with the extents of the node. -/
theorem mapsExtents_iff {node : Nat → UInt8} (leaf : Leaf node)
    {skip nums : Nat} (skipSmall : skip < 2 ^ 32) :
    MapsExtents node skip nums ↔ nums = 0 ∨ FirstHolds node skip nums := by
  constructor
  · intro maps
    by_cases empty : nums = 0
    · exact .inl empty
    · exact .inr (firstHolds_of_maps leaf maps skipSmall
        (Nat.pos_of_ne_zero empty))
  · rintro (rfl | holds)
    · intro _ _ _ _
      exact ⟨fun _ i inside => absurd inside (Nat.not_lt_zero i),
        fun ⟨i, inside, _⟩ => absurd inside (Nat.not_lt_zero i)⟩
    · exact mapsExtents_of_first leaf holds

/-- The blocks 5 to 7 lie at the block 100, and the blocks 8 and 9 at 200. -/
def twoExtents : Nat → UInt8 :=
  overlay ([0x0a, 0xf3, 2, 0, 4, 0, 0, 0, 0, 0, 0, 0,
    5, 0, 0, 0, 3, 0, 0, 0, 100, 0, 0, 0,
    8, 0, 0, 0, 2, 0, 0, 0, 200, 0, 0, 0]) (fun _ => 0)

theorem leaf_twoExtents : Leaf twoExtents := by
  refine ⟨by decide, by decide, by decide, ?_⟩
  intro first second before inside
  have count : ehEntries twoExtents = 2 := by decide
  obtain ⟨rfl, rfl⟩ : first = 0 ∧ second = 1 := by omega
  decide

/-- The blocks of the first extent. -/
theorem mapsExtents_iff_first : MapsExtents twoExtents 5 3 :=
  (mapsExtents_iff leaf_twoExtents (by decide)).mpr
    (.inr ⟨by decide, by decide, by decide, by decide, by decide⟩)

/-- The second of two extents is not found. -/
theorem not_mapsExtents_second :
    ¬∀ (node : Nat → UInt8) (skip nums : Nat), Leaf node → skip < 2 ^ 32 →
      MapsExtents node skip nums := by
  intro always
  have holds := firstHolds_of_maps leaf_twoExtents
    (always twoExtents 7 2 leaf_twoExtents (by decide)) (by decide) (by decide)
  exact absurd holds.enough (by decide)

end Witos.Fs
