import Witos.Fs.Ext2Range
import Witos.Fs.Ext4Map

/-!
# Ranges behind the triple indirect block

`get_tind_block` starts every block of double indirect pointers at the entry
where the first one starts, so that a range is found if it begins in the first
block of pointers or ends within the first block of double indirect pointers.
-/

namespace Witos.Fs

open Library

def ext4TindBlock : Nat := 14

def ext4ReadIndexs (sb : SuperBlock) (blkNo : Nat) : List Nat :=
  slice (entry (ext4ReadBlock sb.drive sb.blockSize blkNo)) 0
    sb.indexPerBlock

def ext4TindInner (sb : SuperBlock) (dbuff : List Nat) (len : Nat) :
    Nat → Nat → Nat → List Nat → List Nat × Nat
  | 0, _, h, indexs => (indexs, h)
  | left + 1, k, h, indexs =>
      let tbuff := ext4ReadIndexs sb (dbuff.getD k 0)
      let indexs := indexs ++ (tbuff.drop h).take (len - indexs.length)
      if len ≤ indexs.length then (indexs, h)
      else ext4TindInner sb dbuff len left (k + 1) 0 indexs

def ext4TindOuter (sb : SuperBlock) (buff : List Nat) (len kStart : Nat) :
    Nat → Nat → Nat → List Nat → List Nat
  | 0, _, _, indexs => indexs
  | left + 1, j, h, indexs =>
      let dbuff := ext4ReadIndexs sb (buff.getD j 0)
      let inner :=
        ext4TindInner sb dbuff len (sb.indexPerBlock - kStart) kStart h indexs
      if len ≤ inner.1.length then inner.1
      else ext4TindOuter sb buff len kStart left (j + 1) inner.2 inner.1

def ext4GetTindBlock (sb : SuperBlock) (inode : Inode) (startBlock : Int)
    (len : Nat) : List Nat :=
  if len = 0 then []
  else
    let buff := ext4ReadIndexs sb (inode.iBlock ext4TindBlock)
    let start := startBlock.toNat
    let j := start / (sb.indexPerBlock * sb.indexPerBlock % 2 ^ 32)
    ext4TindOuter sb buff len (start / sb.indexPerBlock) (sb.indexPerBlock - j)
      j (start % sb.indexPerBlock) []

theorem ext4ReadIndexs_eq (sb : SuperBlock) (blkNo : Nat) :
    ext4ReadIndexs sb blkNo = readIndexs sb blkNo := by
  rw [ext4ReadIndexs, ext4ReadBlock_eq, readIndexs]

theorem ext4TindInner_eq (sb : SuperBlock) (dbuff : List Nat)
    (len left k h : Nat) (indexs : List Nat) :
    ext4TindInner sb dbuff len left k h indexs =
      tindInner sb dbuff len left k h indexs := by
  induction left generalizing k h indexs with
  | zero => rfl
  | succ left induction =>
      rw [ext4TindInner, tindInner]
      simp only [ext4ReadIndexs_eq, induction]

theorem ext4TindOuter_eq (sb : SuperBlock) (buff : List Nat)
    (len kStart left j h : Nat) (indexs : List Nat) :
    ext4TindOuter sb buff len kStart left j h indexs =
      tindOuter sb buff len kStart left j h indexs := by
  induction left generalizing j h indexs with
  | zero => rfl
  | succ left induction =>
      rw [ext4TindOuter, tindOuter]
      simp only [ext4ReadIndexs_eq, ext4TindInner_eq, induction]

theorem ext4GetTindBlock_eq : ext4GetTindBlock = getTindBlock := by
  funext sb inode startBlock len
  unfold ext4GetTindBlock getTindBlock
  simp only [ext4ReadIndexs_eq, ext4TindOuter_eq]
  rfl

/-- Whatever the inode and the disk, the function returns `len` and fills in
the pointers behind the triple indirect block from `start` on. -/
def MapsTind (get : SuperBlock → Inode → Int → Nat → List Nat)
    (logBlockSize start len : Nat) : Prop :=
  ∀ (sb : SuperBlock) (disk : Nat → UInt8) (inode : Inode),
    sb.sLogBlockSize = logBlockSize → Serves sb.drive disk →
    (get sb inode start len).length = len ∧
      ∀ index < len, (get sb inode start len).getD index 0 =
        tindPointer sb disk inode (start + index)

section Range

variable {sb : SuperBlock} {start len : Nat}

theorem tindRow_zero
    (before : start < sb.indexPerBlock * sb.indexPerBlock) :
    start / (sb.indexPerBlock * sb.indexPerBlock % 2 ^ 32) = 0 := by
  by_cases small :
      sb.indexPerBlock * sb.indexPerBlock < 2 ^ 32
  · rw [Nat.mod_eq_of_lt small]
    exact Nat.div_eq_of_lt before
  · have wraps : sb.indexPerBlock * sb.indexPerBlock % 2 ^ 32 = 0 := by
      rw [indexPerBlock_eq, ← pow_add] at small ⊢
      apply Nat.mod_eq_zero_of_dvd
      apply pow_dvd_pow
      exact (Nat.pow_le_pow_iff_right (by decide)).mp (Nat.le_of_not_lt small)
    rw [wraps, Nat.div_zero]

theorem tindOuter_round (buff : List Nat) (kStart j h : Nat) {left : Nat}
    (more : 0 < left) (indexs : List Nat) :
    tindOuter sb buff len kStart left j h indexs =
      let inner := tindInner sb (readIndexs sb (buff.getD j 0)) len
        (sb.indexPerBlock - kStart) kStart h indexs
      if len ≤ inner.1.length then inner.1
      else tindOuter sb buff len kStart (left - 1) (j + 1) inner.2
        inner.1 := by
  cases left with
  | zero => omega
  | succ left => rfl

theorem getTindBlock_row
    (before : start < sb.indexPerBlock * sb.indexPerBlock)
    (nonempty : len ≠ 0) (inode : Inode) :
    getTindBlock sb inode start len =
      tindOuter sb (readIndexs sb (inode.iBlock ext2TindBlock)) len
        (start / sb.indexPerBlock) sb.indexPerBlock 0
        (start % sb.indexPerBlock) [] := by
  unfold getTindBlock
  rw [if_neg nonempty]
  simp only [Int.toNat_natCast, tindRow_zero before, Nat.sub_zero]

variable {disk : Nat → UInt8} (shifts : sb.sLogBlockSize ≤ 21)
  (serves : Serves sb.drive disk)

include shifts serves

theorem getTindBlock_early (early : start < sb.indexPerBlock)
    (fits : start + len ≤
      sb.indexPerBlock * (sb.indexPerBlock * sb.indexPerBlock))
    (nonempty : len ≠ 0) (inode : Inode) :
    getTindBlock sb inode start len =
      slice (tindPointer sb disk inode) start len := by
  have row : sb.indexPerBlock ≤ sb.indexPerBlock * sb.indexPerBlock :=
    Nat.le_mul_of_pos_left _ (indexPerBlock_pos sb)
  have position : start + 0 =
      0 * (sb.indexPerBlock * sb.indexPerBlock) + start := by
    rw [Nat.zero_mul, Nat.zero_add, Nat.add_zero]
  have outer := tindOuter_range shifts serves
    (fun index => Eq.refl (tindPointer sb disk inode index)) position early
    (Nat.pos_of_ne_zero nonempty) (Nat.zero_add _)
    (fun none => absurd none (Nat.ne_of_gt (indexPerBlock_pos sb)))
  rw [slice_zero, Nat.min_eq_left (by omega)] at outer
  rw [getTindBlock_row (by omega) nonempty, Nat.div_eq_of_lt early,
    Nat.mod_eq_of_lt early]
  exact outer

theorem tindInner_firstRow
    (before : start < sb.indexPerBlock * sb.indexPerBlock)
    (nonempty : len ≠ 0) (inode : Inode) :
    (tindInner sb (readIndexs sb ((readIndexs sb
        (inode.iBlock ext2TindBlock)).getD 0 0)) len
        (sb.indexPerBlock - start / sb.indexPerBlock)
        (start / sb.indexPerBlock) (start % sb.indexPerBlock) []).1 =
      slice (tindPointer sb disk inode) start
        (min len (sb.indexPerBlock * sb.indexPerBlock - start)) ∧
    (sb.indexPerBlock * sb.indexPerBlock - start < len →
      (tindInner sb (readIndexs sb ((readIndexs sb
        (inode.iBlock ext2TindBlock)).getD 0 0)) len
        (sb.indexPerBlock - start / sb.indexPerBlock)
        (start / sb.indexPerBlock) (start % sb.indexPerBlock) []).2 = 0) := by
  have positive := indexPerBlock_pos sb
  have column : start / sb.indexPerBlock < sb.indexPerBlock :=
    Nat.div_lt_of_lt_mul before
  have behind (index : Nat)
      (within : index < sb.indexPerBlock * sb.indexPerBlock) :
      tindPointer sb disk inode (0 + index) =
        twoLevels sb disk (entryAt sb disk (inode.iBlock ext2TindBlock) 0)
          index := by
    rw [Nat.zero_add, tindPointer, Nat.div_eq_of_lt within,
      Nat.mod_eq_of_lt within]
  have position : start + 0 =
      0 + start / sb.indexPerBlock * sb.indexPerBlock +
        start % sb.indexPerBlock := by
    rw [Nat.add_zero, Nat.zero_add, Nat.div_add_mod']
  have inner := tindInner_range shifts serves behind position
    (Nat.mod_lt _ positive) (Nat.pos_of_ne_zero nonempty)
    (Nat.add_sub_cancel' (Nat.le_of_lt column)) (by omega)
  rw [slice_zero, Nat.zero_add] at inner
  rw [getD_readIndexs shifts serves _ positive]
  exact inner

/-- The range ends within the first block of double indirect pointers. -/
theorem getTindBlock_within
    (within : start + len ≤ sb.indexPerBlock * sb.indexPerBlock)
    (nonempty : len ≠ 0) (inode : Inode) :
    getTindBlock sb inode start len =
      slice (tindPointer sb disk inode) start len := by
  have before : start < sb.indexPerBlock * sb.indexPerBlock := by omega
  have inner := (tindInner_firstRow shifts serves before nonempty inode).1
  rw [Nat.min_eq_left (by omega)] at inner
  rw [getTindBlock_row before nonempty,
    tindOuter_round _ _ _ _ (indexPerBlock_pos sb)]
  simp only [inner, length_slice, Nat.le_refl, if_true]

end Range

section Rounds

variable {sb : SuperBlock} {len : Nat}

theorem tindInner_extends (dbuff : List Nat) (left k h : Nat)
    (indexs : List Nat) :
    indexs <+: (tindInner sb dbuff len left k h indexs).1 := by
  induction left generalizing k h indexs with
  | zero => exact List.prefix_refl indexs
  | succ left induction =>
      rw [tindInner]
      split
      · exact List.prefix_append indexs _
      · exact (List.prefix_append indexs _).trans (induction _ _ _)

theorem tindOuter_extends (buff : List Nat) (kStart left j h : Nat)
    (indexs : List Nat) :
    indexs <+: tindOuter sb buff len kStart left j h indexs := by
  induction left generalizing j h indexs with
  | zero => exact List.prefix_refl indexs
  | succ left induction =>
      rw [tindOuter]
      split
      · exact tindInner_extends _ _ _ _ _
      · exact (tindInner_extends _ _ _ _ _).trans (induction _ _ _)

theorem tindOuter_beyond (nonempty : len ≠ 0) (buff : List Nat) {kStart : Nat}
    (beyond : sb.indexPerBlock ≤ kStart) (left j h : Nat) :
    tindOuter sb buff len kStart left j h [] = [] := by
  induction left generalizing j with
  | zero => rfl
  | succ left induction =>
      rw [tindOuter, Nat.sub_eq_zero_of_le beyond]
      simp only [tindInner, List.length_nil, Nat.le_zero, nonempty, if_false]
      exact induction _

theorem tindInner_next {dbuff indexs : List Nat} {left k : Nat}
    (more : 0 < left) (missing : indexs.length < len)
    (filled : 0 < (readIndexs sb (dbuff.getD k 0)).length) :
    indexs ++ [(readIndexs sb (dbuff.getD k 0)).getD 0 0] <+:
      (tindInner sb dbuff len left k 0 indexs).1 := by
  obtain ⟨left, rfl⟩ := Nat.exists_eq_succ_of_ne_zero (Nat.ne_of_gt more)
  have room : len - indexs.length = len - indexs.length - 1 + 1 := by omega
  rw [tindInner]
  cases entries : readIndexs sb (dbuff.getD k 0) with
  | nil =>
      rw [entries] at filled
      exact absurd filled (Nat.lt_irrefl 0)
  | cons first rest =>
      have begins : indexs ++ [first] <+: indexs ++
          ((first :: rest).drop 0).take (len - indexs.length) := by
        rw [List.drop_zero, room, List.take_succ_cons]
        exact ⟨rest.take (len - indexs.length - 1),
          List.append_assoc indexs [first] _⟩
      split
      · exact begins
      · exact begins.trans (tindInner_extends _ _ _ _ _)

theorem tindOuter_next {buff indexs : List Nat} {kStart left j : Nat}
    (more : 0 < left) (within : kStart < sb.indexPerBlock)
    (missing : indexs.length < len)
    (filled : 0 < (readIndexs sb ((readIndexs sb (buff.getD j 0)).getD
      kStart 0)).length) :
    indexs ++ [(readIndexs sb ((readIndexs sb (buff.getD j 0)).getD
        kStart 0)).getD 0 0] <+:
      tindOuter sb buff len kStart left j 0 indexs := by
  have next := tindInner_next (Nat.sub_pos_of_lt within) missing filled
  rw [tindOuter_round _ _ _ _ more]
  simp only
  split
  · exact next
  · exact next.trans (tindOuter_extends _ _ _ _ _ _)

theorem one_lt_indexPerBlock (sb : SuperBlock) : 1 < sb.indexPerBlock := by
  rw [indexPerBlock_eq]
  exact Nat.one_lt_two_pow (by omega)

/-- What is found behind the first block of double indirect pointers: in the
second one the loop begins at the entry of the start. -/
theorem getTindBlock_second {disk : Nat → UInt8} {start : Nat}
    (shifts : sb.sLogBlockSize ≤ 21) (serves : Serves sb.drive disk)
    (before : start < sb.indexPerBlock * sb.indexPerBlock)
    (crosses : sb.indexPerBlock * sb.indexPerBlock - start < len)
    (inode : Inode) :
    slice (tindPointer sb disk inode) start
        (sb.indexPerBlock * sb.indexPerBlock - start) ++
        [entryAt sb disk (entryAt sb disk
          (entryAt sb disk (inode.iBlock ext2TindBlock) 1)
          (start / sb.indexPerBlock)) 0] <+:
      getTindBlock sb inode start len := by
  have positive := indexPerBlock_pos sb
  have large := one_lt_indexPerBlock sb
  have nonempty : len ≠ 0 := Nat.ne_of_gt (Nat.zero_lt_of_lt crosses)
  have column : start / sb.indexPerBlock < sb.indexPerBlock :=
    Nat.div_lt_of_lt_mul before
  obtain ⟨inner, reset⟩ :=
    tindInner_firstRow shifts serves before nonempty inode
  rw [Nat.min_eq_right (Nat.le_of_lt crosses)] at inner
  have missing : (slice (tindPointer sb disk inode) start
      (sb.indexPerBlock * sb.indexPerBlock - start)).length < len := by
    rw [length_slice]
    exact crosses
  have filled : 0 < (readIndexs sb ((readIndexs sb ((readIndexs sb
      (inode.iBlock ext2TindBlock)).getD 1 0)).getD
        (start / sb.indexPerBlock) 0)).length := by
    rw [readIndexs, length_slice]
    exact positive
  have next := tindOuter_next (Nat.sub_pos_of_lt large) column missing filled
  rw [getD_readIndexs shifts serves _ large,
    getD_readIndexs shifts serves _ column,
    getD_readIndexs shifts serves _ positive] at next
  rw [getTindBlock_row before nonempty, tindOuter_round _ _ _ _ positive]
  simp only [inner, reset crosses, if_neg (Nat.not_le_of_lt missing)]
  exact next

theorem getD_of_extends {before found : List Nat} {value : Nat}
    (starts : before ++ [value] <+: found) :
    found.getD before.length 0 = value := by
  obtain ⟨rest, rfl⟩ := starts
  simp

end Rounds

/-- The first entry of block 0 is 1 and the others are 0; the first entry of
block 1 is 0 and the others are 1. -/
def crossedDisk (blockSize : Nat) : Nat → UInt8 :=
  fun position =>
    if position % 4 = 0 ∧ (position = 0 ∨ blockSize < position) then 1 else 0

def crossedVolume (logBlockSize : Nat) : SuperBlock :=
  { twoBlocksVolume logBlockSize with
    drive :=
      { getBlock := fun position =>
          some (slice (crossedDisk (2 ^ (logBlockSize + 10))) position
            sectSize)
        junk := fun _ => 0 } }

theorem crossedVolume_serves (logBlockSize : Nat) :
    Serves (crossedVolume logBlockSize).drive
      (crossedDisk (2 ^ (logBlockSize + 10))) :=
  fun _ => rfl

section Crossed

variable {logBlockSize : Nat} (shifts : logBlockSize ≤ 21)

include shifts

theorem entryAt_crossed {blkNo index : Nat} (known : blkNo ≤ 1)
    (inside : index < (crossedVolume logBlockSize).indexPerBlock) :
    entryAt (crossedVolume logBlockSize)
      (crossedDisk (2 ^ (logBlockSize + 10))) blkNo index =
        if index = 0 then 1 - blkNo else blkNo := by
  have size := blockSize_eq (crossedVolume logBlockSize)
  have bound : (crossedVolume logBlockSize).indexPerBlock ≤ 2 ^ 29 :=
    indexPerBlock_le shifts
  have same : (crossedVolume logBlockSize).blockSize =
      2 ^ (logBlockSize + 10) := rfl
  rw [entryAt, ← same, size]
  generalize (crossedVolume logBlockSize).indexPerBlock = count at *
  have bytes : slice (wrapped (crossedDisk (4 * count)))
      (blkNo * (4 * count) + 4 * index) 4 =
      [UInt8.ofNat (if index = 0 then 1 - blkNo else blkNo), 0, 0, 0] := by
    rcases Nat.le_one_iff_eq_zero_or_eq_one.mp known with rfl | rfl
    · by_cases first : index = 0
      · simp (disch := omega) [slice, wrapped, crossedDisk, List.range_succ,
          Nat.mod_eq_of_lt, first]
      · simp (disch := omega) [slice, wrapped, crossedDisk, List.range_succ,
          Nat.mod_eq_of_lt, first]
        omega
    · by_cases first : index = 0
      · simp (disch := omega) [slice, wrapped, crossedDisk, List.range_succ,
          Nat.mod_eq_of_lt, first]
        omega
      · simp (disch := omega) [slice, wrapped, crossedDisk, List.range_succ,
          Nat.mod_eq_of_lt, first]
        omega
  rw [bytes]
  rcases Nat.le_one_iff_eq_zero_or_eq_one.mp known with rfl | rfl
  · by_cases first : index = 0
    · rw [if_pos first]
      rfl
    · rw [if_neg first]
      rfl
  · by_cases first : index = 0
    · rw [if_pos first]
      rfl
    · rw [if_neg first]
      rfl

/-- The pointer of the first block behind the first block of double indirect
pointers. -/
theorem tindPointer_crossed :
    tindPointer (crossedVolume logBlockSize)
      (crossedDisk (2 ^ (logBlockSize + 10))) tripleInode
      ((crossedVolume logBlockSize).indexPerBlock *
        (crossedVolume logBlockSize).indexPerBlock) = 1 := by
  have positive := indexPerBlock_pos (crossedVolume logBlockSize)
  have large := one_lt_indexPerBlock (crossedVolume logBlockSize)
  have triple : tripleInode.iBlock ext2TindBlock = 1 := rfl
  rw [tindPointer, triple, Nat.div_self (Nat.mul_pos positive positive),
    Nat.mod_self, twoLevels, Nat.zero_div, Nat.zero_mod,
    entryAt_crossed shifts (Nat.le_refl 1) large, if_neg Nat.one_ne_zero,
    entryAt_crossed shifts (Nat.le_refl 1) positive, if_pos rfl,
    entryAt_crossed shifts (Nat.zero_le 1) positive, if_pos rfl]

theorem getTindBlock_crossed {start len : Nat}
    (late : (crossedVolume logBlockSize).indexPerBlock ≤ start)
    (before : start < (crossedVolume logBlockSize).indexPerBlock *
      (crossedVolume logBlockSize).indexPerBlock)
    (crosses : (crossedVolume logBlockSize).indexPerBlock *
      (crossedVolume logBlockSize).indexPerBlock - start < len) :
    (getTindBlock (crossedVolume logBlockSize) tripleInode start len).getD
      ((crossedVolume logBlockSize).indexPerBlock *
        (crossedVolume logBlockSize).indexPerBlock - start) 0 = 0 := by
  have positive := indexPerBlock_pos (crossedVolume logBlockSize)
  have large := one_lt_indexPerBlock (crossedVolume logBlockSize)
  have triple : tripleInode.iBlock ext2TindBlock = 1 := rfl
  have later : start / (crossedVolume logBlockSize).indexPerBlock ≠ 0 :=
    Nat.ne_of_gt (Nat.div_pos late positive)
  have second := getTindBlock_second shifts
    (crossedVolume_serves logBlockSize) before crosses tripleInode
  rw [triple, entryAt_crossed shifts (Nat.le_refl 1) large,
    if_neg Nat.one_ne_zero,
    entryAt_crossed shifts (Nat.le_refl 1) (Nat.div_lt_of_lt_mul before),
    if_neg later, entryAt_crossed shifts (Nat.le_refl 1) positive,
    if_pos rfl] at second
  have found := getD_of_extends second
  rwa [length_slice] at found

end Crossed

variable {logBlockSize start len : Nat}

theorem mapsTind_of_slice
    (found : ∀ (sb : SuperBlock) (disk : Nat → UInt8) (inode : Inode),
      sb.sLogBlockSize = logBlockSize → Serves sb.drive disk →
      getTindBlock sb inode start len =
        slice (tindPointer sb disk inode) start len) :
    MapsTind getTindBlock logBlockSize start len := by
  intro sb disk inode size serves
  rw [found sb disk inode size serves]
  refine ⟨length_slice _ _ _, ?_⟩
  intro index inside
  simp [slice, inside]

theorem not_mapsTind (shifts : logBlockSize ≤ 21)
    (late : entriesOf logBlockSize ≤ start)
    (crosses : entriesOf logBlockSize * entriesOf logBlockSize < start + len)
    (nonempty : len ≠ 0) :
    ¬MapsTind getTindBlock logBlockSize start len := by
  intro maps
  have count : (crossedVolume logBlockSize).indexPerBlock =
      entriesOf logBlockSize := indexPerBlock_eq _
  rw [← count] at late crosses
  obtain ⟨length, pointers⟩ := maps (crossedVolume logBlockSize) _ tripleInode
    rfl (crossedVolume_serves logBlockSize)
  by_cases before : start < (crossedVolume logBlockSize).indexPerBlock *
      (crossedVolume logBlockSize).indexPerBlock
  · have pointer := pointers
      ((crossedVolume logBlockSize).indexPerBlock *
        (crossedVolume logBlockSize).indexPerBlock - start) (by omega)
    rw [getTindBlock_crossed shifts late before (by omega),
      Nat.add_sub_cancel' (Nat.le_of_lt before),
      tindPointer_crossed shifts] at pointer
    cases pointer
  · -- The column of the start is behind the last one.
    have beyond : (crossedVolume logBlockSize).indexPerBlock ≤
        start / (crossedVolume logBlockSize).indexPerBlock := by
      rw [Nat.le_div_iff_mul_le (indexPerBlock_pos _)]
      omega
    have nothing : getTindBlock (crossedVolume logBlockSize) tripleInode start
        len = [] := by
      unfold getTindBlock
      rw [if_neg nonempty]
      exact tindOuter_beyond nonempty _ beyond _ _ _
    rw [nothing] at length
    exact nonempty length.symm

theorem getTindBlock_mapsTind (shifts : logBlockSize ≤ 21)
    (fits : start + len ≤ entriesOf logBlockSize *
      (entriesOf logBlockSize * entriesOf logBlockSize)) :
    MapsTind getTindBlock logBlockSize start len ↔
      start + len ≤ entriesOf logBlockSize * entriesOf logBlockSize ∨
        start < entriesOf logBlockSize ∨ len = 0 := by
  constructor
  · intro maps
    by_contra fails
    obtain ⟨crosses, late, nonempty⟩ :
        ¬start + len ≤ entriesOf logBlockSize * entriesOf logBlockSize ∧
          ¬start < entriesOf logBlockSize ∧ ¬len = 0 := by
      simpa only [not_or] using fails
    exact not_mapsTind shifts (by omega) (by omega) nonempty maps
  · intro range
    by_cases empty : len = 0
    · subst empty
      intro sb disk inode _ _
      exact ⟨rfl, by simp⟩
    · apply mapsTind_of_slice
      intro sb disk inode size serves
      subst size
      have count : sb.indexPerBlock = entriesOf sb.sLogBlockSize :=
        indexPerBlock_eq sb
      rw [← count] at range fits
      rcases range with within | early | none
      · exact getTindBlock_within shifts serves within empty inode
      · exact getTindBlock_early shifts serves early fits empty inode
      · exact absurd none empty

/-- The ranges that `get_tind_block` finds behind the triple indirect block, in
both copies. -/
theorem getTindBlock_mapsTind_iff (shifts : logBlockSize ≤ 21)
    (fits : start + len ≤ entriesOf logBlockSize *
      (entriesOf logBlockSize * entriesOf logBlockSize)) :
    ∀ get ∈ [getTindBlock, ext4GetTindBlock],
      MapsTind get logBlockSize start len ↔
        start + len ≤ entriesOf logBlockSize * entriesOf logBlockSize ∨
          start < entriesOf logBlockSize ∨ len = 0 := by
  intro get member
  have same : get = getTindBlock := by
    rw [ext4GetTindBlock_eq] at member
    simpa using member
  rw [same]
  exact getTindBlock_mapsTind shifts fits

/-- From the last block of the first row of pointers on. -/
theorem getTindBlock_mapsTind_iff_row :
    MapsTind ext4GetTindBlock 0 255 100000 :=
  (getTindBlock_mapsTind_iff (by decide) (by decide) _ (by simp)).mpr
    (.inr (.inl (by decide)))

/-- Two blocks of 1 KiB, the last one behind the first block of double indirect
pointers and the first one behind the second. -/
theorem getTindBlock_not_mapsTind :
    ¬∀ logBlockSize start len : Nat, logBlockSize ≤ 21 →
      start + len ≤ entriesOf logBlockSize *
        (entriesOf logBlockSize * entriesOf logBlockSize) →
      MapsTind getTindBlock logBlockSize start len := by
  intro always
  exact not_mapsTind (by decide) (by decide) (by decide) (by decide)
    (always 0 65535 2 (by decide) (by decide))

end Witos.Fs
