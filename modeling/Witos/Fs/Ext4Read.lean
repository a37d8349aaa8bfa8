import Witos.Fs.Ext4

/-!
# Ranges that `ext4_read` reads

The pieces `ext4_read` copies tile the range when it starts at a block.  When
it does not, the first byte of the buffer is never the one asked for.
-/

namespace Witos.Fs

open Library

/-- Blocks of 1024 bytes up to 64 kilobytes. -/
def IsBlockSize (blkSize : Nat) : Prop :=
  ∃ log ≤ 6, blkSize = 2 ^ (log + 10)

theorem IsBlockSize.bounds {blkSize : Nat} (isSize : IsBlockSize blkSize) :
    1024 ≤ blkSize ∧ blkSize ≤ 2 ^ 16 := by
  obtain ⟨log, small, rfl⟩ := isSize
  constructor
  · calc 1024 = 2 ^ 10 := rfl
      _ ≤ 2 ^ (log + 10) := Nat.pow_le_pow_right (by decide) (by omega)
  · exact Nat.pow_le_pow_right (by decide) (by omega)

theorem IsBlockSize.dvd {blkSize : Nat} (isSize : IsBlockSize blkSize) :
    blkSize ∣ 2 ^ 32 := by
  obtain ⟨log, small, rfl⟩ := isSize
  exact Nat.pow_dvd_pow 2 (by omega)

theorem ext4ReadBuff_eq {drive : Drive} {disk : Nat → UInt8}
    (serves : Serves drive disk) (offset : Nat) {size : Nat}
    (small : size < 2 ^ 31) :
    ext4ReadBuff drive offset size = slice (wrapped disk) offset size := by
  have whole : (offset % sectSize + size + sectSize - 1) % 2 ^ 32 =
      offset % sectSize + size + sectSize - 1 := by
    apply Nat.mod_eq_of_lt
    unfold sectSize
    omega
  have enough : min size
      (clearLow sectSize (offset % sectSize + size + sectSize - 1) /
        sectSize * sectSize - offset % sectSize) = size := by
    unfold clearLow sectSize
    omega
  unfold ext4ReadBuff
  simp only
  rw [whole, submitBio_eq serves, take_drop_slice, enough,
    Nat.div_add_mod']

theorem ext4ReadBuff_block {drive : Drive} {disk : Nat → UInt8}
    (serves : Serves drive disk) (position : Nat) {size : Nat}
    (small : size < 2 ^ 31) :
    ext4ReadBuff drive (position % 2 ^ 32) size =
      slice (wrapped disk) position size := by
  rw [ext4ReadBuff_eq serves _ small]
  apply slice_congr
  intro index _
  apply wrapped_mod
  omega

/-- The map is right for blocks of the file. -/
def MapsBlocks (blkSize iSize : Nat)
    (getBlknums : Nat → Nat → Int × (Nat → Nat)) (pointer : Nat → Nat) :
    Prop :=
  ∀ skip nums, (∀ i < nums, (skip + i) * blkSize < iSize) →
    0 ≤ (getBlknums skip nums).1 ∧
      ∀ i < nums, (getBlknums skip nums).2 i = pointer (skip + i)

/-- The bytes of a file from a position on. -/
def fileFrom (disk : Nat → UInt8) (blkSize : Nat) (pointer : Nat → Nat)
    (fPos : Nat) : Nat → UInt8 :=
  fun index => contentByte disk blkSize pointer (fPos + index)

section Aligned

variable {drive : Drive} {disk : Nat → UInt8} {blkSize : Nat}
  {blkNum pointer : Nat → Nat} {room first : Nat}
  (serves : Serves drive disk) (isSize : IsBlockSize blkSize)

include serves isSize

theorem ext4ReadBuff_fileFrom {i len : Nat}
    (found : blkNum i = pointer (first + i)) (within : len ≤ blkSize) :
    ext4ReadBuff drive (blkNum i * blkSize % 2 ^ 32) len =
      slice (fileFrom disk blkSize pointer (first * blkSize)) (i * blkSize)
        len := by
  obtain ⟨-, sizeBound⟩ := isSize.bounds
  have block := @slice_contentByte disk blkSize pointer (first + i) 0 len
    (by omega)
  rw [ext4ReadBuff_block serves _ (by omega), found]
  rw [Nat.add_zero, Nat.add_zero] at block
  rw [block]
  apply slice_congr
  intro index _
  rw [fileFrom, Nat.add_mul, Nat.add_assoc]

theorem ext4ReadLoop_eq {blocks : Nat}
    (pointers : ∀ i < blocks, blkNum i = pointer (first + i))
    (enough : blocks ≤ room) (small : blocks * blkSize < 2 ^ 31)
    (buff : Nat → UInt8) {left i : Nat} (position : i + left = blocks) :
    ext4ReadLoop drive blkSize blkNum room left i
        (patch (i * blkSize)
          (fileFrom disk blkSize pointer (first * blkSize)) buff,
          i * blkSize) =
      some (patch (blocks * blkSize)
        (fileFrom disk blkSize pointer (first * blkSize)) buff,
        blocks * blkSize) := by
  induction left generalizing i with
  | zero =>
      rw [ext4ReadLoop, show i = blocks by omega]
  | succ left induction =>
      have below : (i + 1) * blkSize ≤ blocks * blkSize :=
        Nat.mul_le_mul_right _ (by omega)
      rw [Nat.succ_mul] at below
      rw [ext4ReadLoop, if_neg (by omega), ext4ReadBlock,
        ext4ReadBuff_fileFrom serves isSize (pointers i (by omega))
          (Nat.le_refl _), overlayAt_patch, add32_of_lt (by omega),
        ← Nat.succ_mul]
      exact induction (by omega)

theorem ext4Copy_eq {size : Nat}
    (pointers : ∀ i < (size - 1) / blkSize + 1,
      blkNum i = pointer (first + i))
    (some : 0 < size) (small : size < 2 ^ 31) (buff : Nat → UInt8) :
    ext4Copy drive blkSize blkNum ((size - 1) / blkSize + 2)
        ((size - 1) / blkSize + 1) 0 size buff =
      .some (patch size
        (fileFrom disk blkSize pointer (first * blkSize)) buff) := by
  obtain ⟨positive, -⟩ := isSize.bounds
  have whole := Nat.div_mul_le_self (size - 1) blkSize
  have rest : size - (size - 1) / blkSize * blkSize ≤ blkSize := by
    have split := Nat.div_add_mod' (size - 1) blkSize
    have last := Nat.mod_lt (size - 1) (show 0 < blkSize by omega)
    omega
  have loop := @ext4ReadLoop_eq _ _ _ _ pointer
    ((size - 1) / blkSize + 2) first serves isSize ((size - 1) / blkSize)
    (fun i inside => pointers i (by omega)) (by omega) (by omega) buff
    ((size - 1) / blkSize) 0 (by omega)
  have start : patch (0 * blkSize)
      (fileFrom disk blkSize pointer (first * blkSize)) buff = buff := by
    funext index
    simp [patch]
  rw [start, Nat.zero_mul] at loop
  unfold ext4Copy ext4Head
  simp only [ne_eq, not_true, if_false, Nat.add_sub_cancel, Nat.sub_zero]
  rw [loop]
  simp only
  rw [if_neg (by omega), sub32_of_le (by omega) (by omega),
    ext4ReadBuff_fileFrom serves isSize (pointers _ (by omega)) rest,
    overlayAt_patch, Nat.add_sub_cancel' (by omega)]

end Aligned

section Unaligned

variable {drive : Drive} {blkSize : Nat} {blkNum : Nat → Nat}

/-- A disk on which the bytes at one offset of the blocks are marked. -/
def markedDisk (blkSize offset : Nat) (position : Nat) : UInt8 :=
  if position % blkSize = offset then 1 else 0

theorem ext4ReadLoop_first {room left i : Nat}
    {before after : (Nat → UInt8) × Nat} (positive : 0 < blkSize)
    (behind : 1 ≤ i)
    (run : ext4ReadLoop drive blkSize blkNum room left i before =
      some after) : after.1 0 = before.1 0 := by
  induction left generalizing i before with
  | zero =>
      rw [ext4ReadLoop, Option.some_inj] at run
      rw [run]
  | succ left induction =>
      obtain ⟨buff, count⟩ := before
      rw [ext4ReadLoop] at run
      split at run
      case isTrue => cases run
      case isFalse =>
        have apart : 0 < i * blkSize := Nat.mul_pos behind positive
        rw [induction (by omega) run]
        simp only [overlayAt]
        rw [if_pos apart]

theorem ext4ReadBuff_unmarked {offset : Nat} (isSize : IsBlockSize blkSize)
    (unaligned : offset ≠ 0) (serves : Serves drive (markedDisk blkSize offset))
    (blkNo : Nat) {len : Nat} (small : len < 2 ^ 31) :
    (ext4ReadBuff drive (blkNo * blkSize % 2 ^ 32) len).getD 0 0 = 0 := by
  rw [ext4ReadBuff_block serves _ small]
  cases len with
  | zero => rfl
  | succ len =>
      have unmarked : wrapped (markedDisk blkSize offset)
          (blkNo * blkSize) = 0 := by
        rw [wrapped, markedDisk, Nat.mod_mod_of_dvd _ isSize.dvd,
          Nat.mul_mod_left]
        exact if_neg fun same => unaligned same.symm
      simp [slice, List.range_succ_eq_map, unmarked]

theorem ext4Copy_first {room blks offset size : Nat}
    (isSize : IsBlockSize blkSize) (unaligned : offset ≠ 0)
    (serves : Serves drive (markedDisk blkSize offset))
    (small : size < 2 ^ 31) {after : Nat → UInt8}
    (run : ext4Copy drive blkSize blkNum room blks offset size
      (fun _ => 0) = some after) : after 0 = 0 := by
  obtain ⟨positive, sizeBound⟩ := isSize.bounds
  unfold ext4Copy ext4Head at run
  simp only [if_pos unaligned] at run
  split at run
  case h_1 => cases run
  case h_2 buff count loop =>
    split at run
    case isTrue => cases run
    case isFalse =>
      rw [Option.some_inj] at run
      have kept : buff 0 = 0 := by
        have first := ext4ReadLoop_first (by omega) (Nat.le_refl 1) loop
        apply first.trans
        exact ext4ReadBuff_unmarked isSize unaligned serves _ (by omega)
      rw [← run, overlayAt]
      split
      · exact kept
      · have atStart : count = 0 := by omega
        have length : sub32 size 0 = size := by
          unfold sub32
          omega
        rw [atStart, length, Nat.sub_zero, kept]
        exact ext4ReadBuff_unmarked isSize unaligned serves _ small

end Unaligned

/-- The range is copied and nothing else, counted and skipped. -/
def Ext4ReadsRange (disk : Nat → UInt8) (blkSize : Nat)
    (pointer : Nat → Nat) (iSize fPos size : Nat) (buff : Nat → UInt8)
    (result : Option Ext4Result) : Prop :=
  ∃ after, result = some after ∧
    after.buff = patch (min size (iSize - fPos))
      (fileFrom disk blkSize pointer fPos) buff ∧
    after.ret = (min size (iSize - fPos) : Nat) ∧
    after.fPos = fPos + min size (iSize - fPos)

section Read

variable {blkSize iSize fPos size : Nat}
  {getBlknums : Nat → Nat → Int × (Nat → Nat)} {pointer : Nat → Nat}

/-- A read before the end of the file fails in the map and copies nothing, or
ends with the copies. -/
theorem ext4Read_cases {drive : Drive} {buff : Nat → UInt8}
    {after : Ext4Result} (inside : fPos < iSize)
    (run : ext4Read drive blkSize getBlknums iSize fPos size buff =
      some after) :
    after.ret < 0 ∧ after.buff = buff ∨
      after.ret = signed32 size ∧ ∃ blkNum room blks,
        ext4Copy drive blkSize blkNum room blks (fPos % blkSize) size buff =
          some after.buff := by
  unfold ext4Read at run
  simp only [if_neg (Nat.not_le.mpr inside)] at run
  split at run
  case isTrue failed =>
    rw [Option.some_inj] at run
    rw [← run]
    exact Or.inl ⟨failed, rfl⟩
  case isFalse =>
    split at run
    · cases run
    case h_2 copy =>
      rw [Option.some_inj] at run
      rw [← run]
      exact Or.inr ⟨rfl, _, _, _, copy⟩

/-- A read before the end that returns the number of bytes it should was asked
for no more than there are. -/
theorem Ext4ReadsRange.size_le {drive : Drive} {disk : Nat → UInt8}
    {buff : Nat → UInt8} (inside : fPos < iSize) (some : 1 ≤ size)
    (word : size < 2 ^ 32)
    (reads : Ext4ReadsRange disk blkSize pointer iSize fPos size buff
      (ext4Read drive blkSize getBlknums iSize fPos size buff)) :
    size ≤ iSize - fPos ∧ size < 2 ^ 31 := by
  obtain ⟨after, run, -, counted, -⟩ := reads
  obtain ⟨failed, -⟩ | ⟨returned, -⟩ := ext4Read_cases inside run
  · omega
  · rw [counted] at returned
    unfold signed32 at returned
    split at returned <;> omega

/-- From the middle of a block, the first byte of the file is marked on the
marked disk and the first byte of the buffer is not. -/
theorem Ext4ReadsRange.aligned {drive : Drive} (isSize : IsBlockSize blkSize)
    (inside : fPos < iSize) (some : 1 ≤ size) (word : size < 2 ^ 32)
    (serves : Serves drive (markedDisk blkSize (fPos % blkSize)))
    (reads : Ext4ReadsRange (markedDisk blkSize (fPos % blkSize)) blkSize
      pointer iSize fPos size (fun _ => 0)
      (ext4Read drive blkSize getBlknums iSize fPos size (fun _ => 0))) :
    fPos % blkSize = 0 := by
  obtain ⟨limit, small⟩ := reads.size_le inside some word
  obtain ⟨after, run, copied, counted, -⟩ := reads
  by_contra unaligned
  have marked : after.buff 0 = 1 := by
    rw [copied, patch, if_pos (by omega), fileFrom, contentByte, wrapped,
      markedDisk, Nat.mod_mod_of_dvd _ isSize.dvd, Nat.mul_add_mod',
      Nat.add_zero, Nat.mod_mod, if_pos rfl]
  have unmarked : after.buff 0 = 0 := by
    obtain ⟨-, unchanged⟩ | ⟨-, blkNum, room, blks, copy⟩ :=
      ext4Read_cases inside run
    · rw [unchanged]
    · exact ext4Copy_first isSize unaligned serves small copy
  rw [marked] at unmarked
  exact absurd unmarked (by decide)

/-- A range that starts at a block and ends within the file is read. -/
theorem ext4Read_reads {drive : Drive} {disk : Nat → UInt8}
    (isSize : IsBlockSize blkSize) (serves : Serves drive disk)
    (maps : MapsBlocks blkSize iSize getBlknums pointer)
    (bounded : iSize < 2 ^ 32) (some : 1 ≤ size)
    (inside : fPos < iSize) (aligned : fPos % blkSize = 0)
    (limit : size ≤ iSize - fPos) (small : size < 2 ^ 31)
    (buff : Nat → UInt8) :
    Ext4ReadsRange disk blkSize pointer iSize fPos size buff
      (ext4Read drive blkSize getBlknums iSize fPos size buff) := by
  have count : min size (iSize - fPos) = size := Nat.min_eq_left limit
  have start : fPos / blkSize * blkSize = fPos := by
    have split := Nat.div_add_mod' fPos blkSize
    omega
  have blocks : sub32 size 1 = size - 1 := sub32_of_le (by omega) some
  have whole := Nat.div_mul_le_self (size - 1) blkSize
  obtain ⟨found, pointers⟩ := maps (fPos / blkSize)
    ((size - 1) / blkSize + 1) (by
      intro i below
      have bound : i * blkSize ≤ (size - 1) / blkSize * blkSize :=
        Nat.mul_le_mul_right _ (by omega)
      rw [Nat.add_mul, start]
      omega)
  have copy := ext4Copy_eq serves isSize pointers some small buff
  unfold ext4Read ext4Blks
  simp only [if_neg (Nat.not_le.mpr inside), aligned, ne_eq, not_true,
    if_false, blocks, Int.not_lt.mpr found]
  rw [copy]
  refine ⟨_, rfl, ?_, ?_, ?_⟩
  · rw [count, start]
  · rw [count]
    exact signed32_of_lt small
  · rw [count]
    exact add32_of_lt (by omega)

end Read

/-- `ext4_read` copies, counts and skips exactly its range, whatever is on the
disk, if and only if it is at the end of the file, or the range starts at a
block, ends within the file and has a length that is not taken for an error. -/
theorem ext4Read_reads_iff (blkSize : Nat) (isSize : IsBlockSize blkSize)
    (getBlknums : Nat → Nat → Int × (Nat → Nat)) (pointer : Nat → Nat)
    (iSize : Nat) (bounded : iSize < 2 ^ 32)
    (maps : MapsBlocks blkSize iSize getBlknums pointer)
    (fPos : Nat) (before : fPos ≤ iSize) (size : Nat) (some : 1 ≤ size)
    (word : size < 2 ^ 32) :
    (∀ (drive : Drive) (disk : Nat → UInt8) (buff : Nat → UInt8),
      Serves drive disk →
      Ext4ReadsRange disk blkSize pointer iSize fPos size buff
        (ext4Read drive blkSize getBlknums iSize fPos size buff)) ↔
    fPos = iSize ∨
      fPos % blkSize = 0 ∧ size ≤ iSize - fPos ∧ size < 2 ^ 31 := by
  constructor
  · intro reads
    by_cases atEnd : fPos = iSize
    · exact Or.inl atEnd
    · have inside : fPos < iSize := by omega
      have marked := reads
        ⟨fun position => .some (slice
          (markedDisk blkSize (fPos % blkSize)) position sectSize),
          fun _ => 0⟩
        (markedDisk blkSize (fPos % blkSize)) (fun _ => 0) (fun _ => rfl)
      exact Or.inr ⟨marked.aligned isSize inside some word (fun _ => rfl),
        marked.size_le inside some word⟩
  · rintro (atEnd | ⟨aligned, limit, small⟩) drive disk buff serves
    · have none : min size (iSize - fPos) = 0 := by omega
      refine ⟨⟨buff, fPos, 0⟩, ?_, ?_, ?_, ?_⟩
      · unfold ext4Read
        simp only
        rw [if_pos (Nat.le_of_eq atEnd.symm)]
      · rw [none]
        funext index
        simp [patch]
      · rw [none]
        rfl
      · rw [none]
        rfl
    · exact ext4Read_reads isSize serves maps bounded some (by omega) aligned
        limit small buff

/-- The map of a file in consecutive blocks. -/
def consecutiveBlknums (start skip _nums : Nat) : Int × (Nat → Nat) :=
  (0, fun i => start + (skip + i))

/-- A drive on which each byte is its position. -/
def countingDrive : Drive where
  getBlock := fun position => some (slice UInt8.ofNat position sectSize)
  junk := fun _ => 0

theorem ext4Read_reads_iff_aligned :
    Ext4ReadsRange UInt8.ofNat 1024 (fun block => 10 + block) 2000 1024 976
      (fun _ => 1)
      (ext4Read countingDrive 1024 (consecutiveBlknums 10) 2000 1024 976
        (fun _ => 1)) := by
  have isSize : IsBlockSize 1024 := ⟨0, by decide, by decide⟩
  have maps : MapsBlocks 1024 2000 (consecutiveBlknums 10)
      (fun block => 10 + block) :=
    fun _ _ _ => ⟨Int.le_refl 0, fun _ _ => rfl⟩
  exact (ext4Read_reads_iff 1024 isSize (consecutiveBlknums 10)
    (fun block => 10 + block) 2000 (by decide) maps 1024 (by decide) 976
    (by decide) (by decide)).mpr (Or.inr (by decide)) countingDrive
    UInt8.ofNat (fun _ => 1) (fun _ => rfl)

/-- The first 4096 bytes of a file of 2000 bytes are all counted. -/
theorem ext4Read_not_reads :
    ¬ Ext4ReadsRange UInt8.ofNat 1024 (fun block => 10 + block) 2000 0 4096
      (fun _ => 1)
      (ext4Read countingDrive 1024 (consecutiveBlknums 10) 2000 0 4096
        (fun _ => 1)) := by
  intro reads
  have limit := reads.size_le (by decide) (by decide) (by decide)
  exact absurd limit.1 (by decide)

end Witos.Fs
