import Witos.Flash.NandCommand
import Witos.Library.BitFields

/-!
# The table of bad blocks

`nand->bbt` has two bits for each block.  On the chip `write_bbt` of
`driver/flash/nand/nand_bbt.c` stores it with one, two, four or eight bits for
a block, the bits of a good block all set, and `read_bbt` reads it back.
-/

namespace Witos.Flash

open Library Library.BitFields

/-- What `write_bbt` sets up for a number of bits. -/
structure BbtWidth where
  sft : Nat
  sftmsk : Nat
  msk1 : Nat
  msk3 : Nat

/-- The `switch` of `write_bbt`. -/
def bbtWidth : Nat → Option BbtWidth
  | 1 => some ⟨3, 0x07, 0x01, 0x01⟩
  | 2 => some ⟨2, 0x06, 0x01, 0x03⟩
  | 4 => some ⟨1, 0x04, 0x0c, 0x0f⟩
  | 8 => some ⟨0, 0x00, 0x0f, 0xff⟩
  | _ => none

/-- `rcode`. -/
def rcodeOf (reservedBlockCode : UInt8) : UInt8 :=
  if reservedBlockCode = 0 then 0xff else reservedBlockCode

/-- `msk[dat & 0x03]`. -/
def BbtWidth.msk (width : BbtWidth) (rcode : UInt8) : Nat → Nat
  | 1 => width.msk1
  | 2 => (~~~rcode).toNat
  | 3 => width.msk3
  | _ => 0

/-- The loop of `write_bbt` that fills the buffer.  Each byte of the table has
the entries of four blocks. -/
def writeBbtBits (width : BbtWidth) (rcode : UInt8) (bbt : Nat → UInt8)
    (bbtoffs offs numblocks : Nat) (buf : Nat → UInt8) : Nat → UInt8 :=
  (List.range ((numblocks + 3) / 4)).foldl (fun buf group =>
    let dat := (bbt (bbtoffs + group)).toNat
    (List.range 4).foldl (fun buf j =>
      let i := 4 * group + j
      let sftcnt := i <<< (3 - width.sft) &&& width.sftmsk
      clearByte buf (offs + i >>> width.sft) sftcnt
        (width.msk rcode (dat >>> (2 * j) % 4))) buf) buf

/-- What `read_bbt` does with the bits of a block. -/
def readBbtEntry (bits offs reservedBlockCode tmp act : Nat)
    (bbt : Nat → UInt8) : Nat → UInt8 :=
  if tmp = 2 ^ bits - 1 then bbt
  else if reservedBlockCode ≠ 0 ∧ tmp = reservedBlockCode then
    orByte bbt (offs + act >>> 3) (act &&& 0x06) 0x2
  else if tmp = 0 then orByte bbt (offs + act >>> 3) (act &&& 0x06) 0x3
  else orByte bbt (offs + act >>> 3) (act &&& 0x06) 0x1

/-- What the loop of `read_bbt` changes. -/
structure BbtReading where
  bbt : Nat → UInt8
  act : Nat
  totlen : Nat
  start : Nat
  failed : Option NandReturn

section Read

-- `mtd->read` with an error for a part that is not delivered; behind an ECC
-- error `read_bbt` goes on
variable (read : Nat → Nat → Except NandReturn (Nat → UInt8))
  (bits offs reservedBlockCode : Nat)

/-- The bytes that are read at once. -/
def readBbtBytes (buf : Nat → UInt8) (len act : Nat) (bbt : Nat → UInt8) :
    Nat → UInt8 :=
  (List.range len).foldl (fun bbt i =>
    (List.range (8 / bits)).foldl (fun bbt k =>
      let tmp := (buf i).toNat >>> (bits * k) % 2 ^ bits
      readBbtEntry bits offs reservedBlockCode tmp
        (act + 2 * (8 / bits * i + k)) bbt) bbt) bbt

/-- One round of the loop. -/
def readBbtStep (eraseShift : Nat) (state : BbtReading) : BbtReading :=
  let len := min state.totlen (2 ^ eraseShift)
  match read state.start len with
  | .error ret => { state with failed := some ret }
  | .ok buf =>
      { state with
        bbt := readBbtBytes bits offs reservedBlockCode buf len state.act
          state.bbt
        act := state.act + 2 * (8 / bits * len)
        totlen := state.totlen - len
        start := state.start + len }

/-- `read_bbt`: what it returns and the table.  Each round takes at least one
byte. -/
def readBbt (eraseShift start num : Nat) (bbt : Nat → UInt8) :
    NandReturn × (Nat → UInt8) :=
  let totlen := num * bits / 8
  let final := Loop.rounds
    (fun state => decide (state.totlen ≠ 0) && state.failed.isNone)
    (readBbtStep read bits offs reservedBlockCode eraseShift) totlen
    ⟨bbt, 0, totlen, start, none⟩
  (final.failed.getD .zero, final.bbt)

end Read

/-- The two bits of a block. -/
def bbtEntry (bbt : Nat → UInt8) (block : Nat) : Nat :=
  numberAt (byteRow bbt) (2 * block) 2

/-- The entries of a block that is worn out or bad from the factory. -/
def IsBadEntry (entry : Nat) : Prop :=
  entry = 1 ∨ entry = 3

instance (entry : Nat) : Decidable (IsBadEntry entry) :=
  inferInstanceAs (Decidable (entry = 1 ∨ entry = 3))

theorem bbtEntry_lt (bbt : Nat → UInt8) (block : Nat) :
    bbtEntry bbt block < 4 :=
  numberAt_lt (byteRow bbt) (2 * block) 2

/-- `(bbt[block >> 2] >> (2 * (block & 3))) & 3`. -/
theorem bbtEntry_eq (bbt : Nat → UInt8) (block : Nat) :
    bbtEntry bbt block =
      (bbt (block / 4)).toNat >>> (2 * (block % 4)) % 4 := by
  have begin : 2 * block = 8 * (block / 4) + 2 * (block % 4) := by omega
  exact numberAt_byteRow bbt begin (by omega) (by omega)

/-- `& 0x06` is twice the place of a block in its byte. -/
theorem and_six (act : Nat) : act &&& 0x06 = 2 * (act / 2 % 4) := by
  have low : act % 8 = act &&& 7 := (Nat.and_two_pow_sub_one_eq_mod act 3).symm
  have masked : (act % 8) &&& 0x06 = act &&& 0x06 := by
    rw [low, Nat.and_assoc]
    rfl
  have half : act / 2 % 4 = act % 8 / 2 := by omega
  have each : ∀ rest < 8, rest &&& 0x06 = 2 * (rest / 2) := by decide
  rw [← masked, half]
  exact each _ (Nat.mod_lt act (by decide))

/-- `bbt[offs + (act >> 3)] |= value << (act & 6)` adds the bits to one entry
and to no other. -/
theorem bbtEntry_orByte (bbt : Nat → UInt8) {offs act value block : Nat}
    (even : act % 2 = 0) (small : value < 4) :
    bbtEntry (orByte bbt (offs + act >>> 3) (act &&& 0x06) value) block =
      if block = 4 * offs + act / 2 then bbtEntry bbt block ||| value
      else bbtEntry bbt block := by
  have eighth : act >>> 3 = act / 8 := Nat.shiftRight_eq_div_pow act 3
  have begin : 2 * (4 * offs + act / 2) =
      8 * (offs + act >>> 3) + (act &&& 0x06) := by
    rw [and_six, eighth]
    omega
  have inside : (act &&& 0x06) + 2 ≤ 8 := by
    rw [and_six]
    omega
  have changes := changes_orByte bbt begin inside (by omega) small
  by_cases same : block = 4 * offs + act / 2
  · rw [if_pos same, same]
    exact changes.numberAt_or small
  · rw [if_neg same]
    apply changes.numberAt_outside
    omega

/-- `nand_is_bad_bbt` is about the entry of the block. -/
theorem nandIsBadBbt_iff (device : NandDevice) (bbt : Nat → UInt8)
    (offs : Nat) :
    nandIsBadBbt device bbt offs = true ↔
      IsBadEntry (bbtEntry bbt (offs / device.eraseSize)) := by
  have pages := device.eightPages
  have shift : device.eraseShift = device.eraseShift - 1 + 1 := by omega
  unfold nandIsBadBbt
  have half : offs / device.eraseSize =
      offs >>> (device.eraseShift - 1) / 2 := by
    rw [NandDevice.eraseSize, Nat.shiftRight_eq_div_pow, Nat.div_div_eq_div_mul,
      ← Nat.pow_succ, Nat.succ_eq_add_one, ← shift]
  generalize offs >>> (device.eraseShift - 1) = doubled at half
  have index : doubled >>> 3 = doubled / 2 / 4 := by
    rw [Nat.shiftRight_eq_div_pow]
    omega
  have entry : ((bbt (doubled >>> 3) >>>
        UInt8.ofNat (doubled &&& 0x06)) &&& 0x03).toNat =
      bbtEntry bbt (offs / device.eraseSize) := by
    have small : 2 * (doubled / 2 % 4) % 2 ^ 8 % 8 = 2 * (doubled / 2 % 4) := by
      omega
    have mask : (0x03 : UInt8).toNat = 2 ^ 2 - 1 := rfl
    rw [bbtEntry_eq, half, UInt8.toNat_and, UInt8.toNat_shiftRight, and_six,
      index, UInt8.toNat_ofNat', small, mask, Nat.and_two_pow_sub_one_eq_mod]
  unfold IsBadEntry
  dsimp only
  rw [← entry, decide_eq_true_iff, ← UInt8.toNat_inj, ← UInt8.toNat_inj]
  rfl

theorem bbtWidth_place {bits : Nat} {width : BbtWidth}
    (found : bbtWidth bits = some width) (i : Nat) :
    bits * i = 8 * (i >>> width.sft) +
        (i <<< (3 - width.sft) &&& width.sftmsk) ∧
      (i <<< (3 - width.sft) &&& width.sftmsk) + bits ≤ 8 := by
  have eighth : i >>> 3 = i / 8 := Nat.shiftRight_eq_div_pow i 3
  have quarter : i >>> 2 = i / 4 := Nat.shiftRight_eq_div_pow i 2
  have half : i >>> 1 = i / 2 := Nat.shiftRight_eq_div_pow i 1
  unfold bbtWidth at found
  split at found <;> cases found <;>
    dsimp only [Nat.reduceSub, Nat.sub_zero]
  · have low : i &&& 7 = i % 8 := Nat.and_two_pow_sub_one_eq_mod i 3
    rw [Nat.shiftLeft_zero, low]
    omega
  · rw [and_six, Nat.shiftLeft_eq]
    omega
  · have bit : i &&& 1 = i % 2 := Nat.and_two_pow_sub_one_eq_mod i 1
    have low : i <<< 2 &&& 1 <<< 2 = 4 * (i % 2) := by
      rw [← Nat.shiftLeft_and_distrib, bit, Nat.shiftLeft_eq, Nat.mul_comm]
    change _ = 8 * _ + (i <<< 2 &&& 1 <<< 2) ∧
      (i <<< 2 &&& 1 <<< 2) + 4 ≤ 8
    rw [low]
    omega
  · rw [Nat.shiftRight_zero, Nat.and_zero]
    omega

/-- The masks fit in the bits of a block.  That of a reserved block only does
where there is no code for one, or with eight bits. -/
theorem msk_lt {bits : Nat} {width : BbtWidth}
    (found : bbtWidth bits = some width) {code : UInt8}
    (fits : code = 0 ∨ bits = 8) (entry : Nat) :
    width.msk (rcodeOf code) entry < 2 ^ bits := by
  have reserved : (~~~rcodeOf code).toNat < 2 ^ bits := by
    rcases fits with none_ | eight
    · subst none_
      exact Nat.two_pow_pos bits
    · subst eight
      exact UInt8.toNat_lt _
  unfold bbtWidth at found
  unfold BbtWidth.msk
  split at found <;> cases found <;> split <;>
    first | exact reserved | decide

/-- The bits that a table leaves for a block. -/
def bbtCode (bits : Nat) (width : BbtWidth) (rcode : UInt8) (entry : Nat) :
    Nat :=
  2 ^ bits - 1 - width.msk rcode entry

section Write

variable {bits : Nat} {width : BbtWidth} {rcode : UInt8} {offs : Nat}

theorem numberAt_clearByte (found : bbtWidth bits = some width)
    (buf : Nat → UInt8) {i mask : Nat} (small : mask < 2 ^ bits)
    (full : numberAt (byteRow buf) (8 * offs + bits * i) bits = 2 ^ bits - 1)
    (block : Nat) :
    numberAt (byteRow (clearByte buf (offs + i >>> width.sft)
        (i <<< (3 - width.sft) &&& width.sftmsk) mask))
      (8 * offs + bits * block) bits =
    if block = i then 2 ^ bits - 1 - mask
    else numberAt (byteRow buf) (8 * offs + bits * block) bits := by
  obtain ⟨place, inside⟩ := bbtWidth_place found i
  have begin : 8 * offs + bits * i = 8 * (offs + i >>> width.sft) +
      (i <<< (3 - width.sft) &&& width.sftmsk) := by omega
  have some_ : 0 < bits := by
    unfold bbtWidth at found
    split at found <;> cases found <;> decide
  have changes := changes_clearByte buf begin inside (by omega) small
  by_cases same : block = i
  · rw [if_pos same, same]
    exact changes.numberAt_clear full small
  · rw [if_neg same]
    apply changes.numberAt_outside
    rcases Nat.lt_or_gt_of_ne same with before | behind
    · have next : bits * (block + 1) ≤ bits * i :=
        Nat.mul_le_mul_left bits before
      rw [Nat.mul_succ] at next
      omega
    · have next : bits * (i + 1) ≤ bits * block :=
        Nat.mul_le_mul_left bits behind
      rw [Nat.mul_succ] at next
      omega

/-- A buffer with the bits of so many blocks; those of the others are all
set. -/
structure WrittenBlocks (bits : Nat) (width : BbtWidth) (rcode : UInt8)
    (bbt : Nat → UInt8) (bbtoffs offs total count : Nat)
    (buf : Nat → UInt8) : Prop where
  done : ∀ block < count,
    numberAt (byteRow buf) (8 * offs + bits * block) bits =
      bbtCode bits width rcode (bbtEntry bbt (4 * bbtoffs + block))
  left : ∀ block < total, count ≤ block →
    numberAt (byteRow buf) (8 * offs + bits * block) bits = 2 ^ bits - 1

theorem WrittenBlocks.next (found : bbtWidth bits = some width)
    (small : ∀ entry, width.msk rcode entry < 2 ^ bits)
    {bbt buf : Nat → UInt8} {bbtoffs total count entry : Nat}
    (written : WrittenBlocks bits width rcode bbt bbtoffs offs total count buf)
    (inside : count < total)
    (isEntry : entry = bbtEntry bbt (4 * bbtoffs + count)) :
    WrittenBlocks bits width rcode bbt bbtoffs offs total (count + 1)
      (clearByte buf (offs + count >>> width.sft)
        (count <<< (3 - width.sft) &&& width.sftmsk)
        (width.msk rcode entry)) := by
  have full := written.left count inside (Nat.le_refl count)
  constructor
  · intro block before
    rw [numberAt_clearByte found buf (small entry) full]
    by_cases same : block = count
    · rw [if_pos same, same, isEntry]
      rfl
    · rw [if_neg same]
      exact written.done block (by omega)
  · intro block within behind
    rw [numberAt_clearByte found buf (small entry) full, if_neg (by omega)]
    exact written.left block within (by omega)

theorem bbtEntry_group (bbt : Nat → UInt8) (bbtoffs group : Nat) {j : Nat}
    (inside : j < 4) :
    (bbt (bbtoffs + group)).toNat >>> (2 * j) % 4 =
      bbtEntry bbt (4 * bbtoffs + (4 * group + j)) := by
  have byte : (4 * bbtoffs + (4 * group + j)) / 4 = bbtoffs + group := by omega
  have place : (4 * bbtoffs + (4 * group + j)) % 4 = j := by omega
  rw [bbtEntry_eq, byte, place]

theorem writeBbtBits_written (found : bbtWidth bits = some width)
    (small : ∀ entry, width.msk rcode entry < 2 ^ bits)
    (bbt : Nat → UInt8) (bbtoffs numblocks : Nat) {buf : Nat → UInt8}
    (full : ∀ block < 4 * ((numblocks + 3) / 4),
      numberAt (byteRow buf) (8 * offs + bits * block) bits = 2 ^ bits - 1) :
    WrittenBlocks bits width rcode bbt bbtoffs offs
      (4 * ((numblocks + 3) / 4)) (4 * ((numblocks + 3) / 4))
      (writeBbtBits width rcode bbt bbtoffs offs numblocks buf) := by
  unfold writeBbtBits
  generalize (numblocks + 3) / 4 = groups at full ⊢
  apply Loop.invariant_of_foldl
    (motive := fun group buf => WrittenBlocks bits width rcode bbt bbtoffs offs
      (4 * groups) (4 * group) buf)
  · intro group inside buf written
    have whole : 4 * (group + 1) = 4 * group + 4 := by omega
    rw [whole]
    apply Loop.invariant_of_foldl
      (motive := fun j buf => WrittenBlocks bits width rcode bbt bbtoffs offs
        (4 * groups) (4 * group + j) buf)
    · intro j fewer buf written
      apply written.next found small (by omega)
      exact bbtEntry_group bbt bbtoffs group fewer
    · exact written
  · constructor
    · intro block before
      exact absurd before (Nat.not_lt_zero block)
    · intro block within _
      exact full block within

end Write

/-- What `read_bbt` adds to an entry. -/
def bbtRead (bits reservedBlockCode tmp : Nat) : Nat :=
  if tmp = 2 ^ bits - 1 then 0
  else if reservedBlockCode ≠ 0 ∧ tmp = reservedBlockCode then 2
  else if tmp = 0 then 3
  else 1

section Read

variable {bits offs reservedBlockCode : Nat}

theorem bbtEntry_readBbtEntry (tmp : Nat) {act : Nat} (even : act % 2 = 0)
    (bbt : Nat → UInt8) (block : Nat) :
    bbtEntry (readBbtEntry bits offs reservedBlockCode tmp act bbt) block =
      if block = 4 * offs + act / 2 then
        bbtEntry bbt block ||| bbtRead bits reservedBlockCode tmp
      else bbtEntry bbt block := by
  unfold readBbtEntry bbtRead
  split
  · rw [Nat.or_zero, ite_self]
  · split
    · exact bbtEntry_orByte bbt even (by decide)
    · split
      · exact bbtEntry_orByte bbt even (by decide)
      · exact bbtEntry_orByte bbt even (by decide)

/-- The entries of so many blocks are read into a table. -/
structure ReadBlocks (bits offs reservedBlockCode : Nat)
    (image before : Nat → UInt8) (count : Nat) (bbt : Nat → UInt8) :
    Prop where
  done : ∀ block < count, bbtEntry bbt (4 * offs + block) =
    bbtEntry before (4 * offs + block) |||
      bbtRead bits reservedBlockCode
        (numberAt (byteRow image) (bits * block) bits)
  others : ∀ block, block < 4 * offs ∨ 4 * offs + count ≤ block →
    bbtEntry bbt block = bbtEntry before block

theorem ReadBlocks.next {image before bbt : Nat → UInt8} {count tmp act : Nat}
    (reading : ReadBlocks bits offs reservedBlockCode image before count bbt)
    (isAct : act = 2 * count)
    (isTmp : tmp = numberAt (byteRow image) (bits * count) bits) :
    ReadBlocks bits offs reservedBlockCode image before (count + 1)
      (readBbtEntry bits offs reservedBlockCode tmp act bbt) := by
  have even : act % 2 = 0 := by omega
  have place : act / 2 = count := by omega
  constructor
  · intro block within
    rw [bbtEntry_readBbtEntry tmp even, place]
    by_cases same : block = count
    · have untouched := reading.others (4 * offs + count) (Or.inr (by omega))
      rw [if_pos (by rw [same]), same, untouched, isTmp]
    · rw [if_neg (by omega)]
      exact reading.done block (by omega)
  · intro block outside
    rw [bbtEntry_readBbtEntry tmp even, place, if_neg (by omega)]
    exact reading.others block (by omega)

theorem ReadBlocks.bytes {image before bbt buf : Nat → UInt8}
    {first len act : Nat} (whole : bits * (8 / bits) = 8)
    (reading : ReadBlocks bits offs reservedBlockCode image before
      (8 / bits * first) bbt)
    (isAct : act = 2 * (8 / bits * first))
    (delivered : ∀ i < len, buf i = image (first + i)) :
    ReadBlocks bits offs reservedBlockCode image before
      (8 / bits * (first + len))
      (readBbtBytes bits offs reservedBlockCode buf len act bbt) := by
  have some_ : 0 < bits := Nat.pos_of_ne_zero fun none_ => by
    rw [none_, Nat.zero_mul] at whole
    cases whole
  unfold readBbtBytes
  generalize perByte : 8 / bits = number at *
  apply Loop.invariant_of_foldl
    (motive := fun i bbt => ReadBlocks bits offs reservedBlockCode image before
      (number * (first + i)) bbt)
  · intro i inside bbt reading
    have more : number * (first + (i + 1)) = number * (first + i) + number := by
      rw [← Nat.add_assoc, Nat.mul_succ]
    rw [more]
    apply Loop.invariant_of_foldl
      (motive := fun k bbt => ReadBlocks bits offs reservedBlockCode image
        before (number * (first + i) + k) bbt)
    · intro k fewer bbt reading
      have start : bits * (number * (first + i) + k) =
          8 * (first + i) + bits * k := by
        rw [Nat.mul_add, ← Nat.mul_assoc, whole]
      have last : bits * (k + 1) ≤ bits * number :=
        Nat.mul_le_mul_left bits fewer
      rw [Nat.mul_succ, whole] at last
      apply reading.next
      · rw [isAct, Nat.mul_add number]
        omega
      · rw [numberAt_byteRow image start last (by omega), delivered i inside]
    · exact reading
  · exact reading

/-- The table that is being read, with the bytes that are done. -/
structure ReadingBbt (bits offs reservedBlockCode start total : Nat)
    (image before : Nat → UInt8) (state : BbtReading) : Prop where
  failed : state.failed = none
  inside : state.totlen ≤ total
  place : state.start = start + (total - state.totlen)
  act : state.act = 2 * (8 / bits * (total - state.totlen))
  blocks : ReadBlocks bits offs reservedBlockCode image before
    (8 / bits * (total - state.totlen)) state.bbt

/-- What `read_bbt` reads where the chip delivers an image of a table. -/
theorem readBbt_reads {read : Nat → Nat → Except NandReturn (Nat → UInt8)}
    (eraseShift : Nat) {start num : Nat} (image before : Nat → UInt8)
    (whole : bits * (8 / bits) = 8)
    (delivers : ∀ place len, place + len ≤ num * bits / 8 →
      ∃ buf, read (start + place) len = .ok buf ∧
        ∀ i < len, buf i = image (place + i)) :
    ∃ bbt, readBbt read bits offs reservedBlockCode eraseShift start num
        before = (.zero, bbt) ∧
      ReadBlocks bits offs reservedBlockCode image before
        (8 / bits * (num * bits / 8)) bbt := by
  unfold readBbt
  generalize num * bits / 8 = total at *
  have step : ∀ state,
      ReadingBbt bits offs reservedBlockCode start total image before state →
      (decide (state.totlen ≠ 0) && state.failed.isNone) = true →
      ReadingBbt bits offs reservedBlockCode start total image before
          (readBbtStep read bits offs reservedBlockCode eraseShift state) ∧
        (readBbtStep read bits offs reservedBlockCode eraseShift
          state).totlen < state.totlen := by
    intro state reading goesOn
    rw [Bool.and_eq_true, decide_eq_true_iff] at goesOn
    have least := Nat.two_pow_pos eraseShift
    have inside := reading.inside
    obtain ⟨buf, isOk, delivered⟩ :=
      delivers (total - state.totlen) (min state.totlen (2 ^ eraseShift))
        (by omega)
    have rest : total - (state.totlen - min state.totlen (2 ^ eraseShift)) =
        total - state.totlen + min state.totlen (2 ^ eraseShift) := by omega
    have unfolded : readBbtStep read bits offs reservedBlockCode eraseShift
        state = { state with
          bbt := readBbtBytes bits offs reservedBlockCode buf
            (min state.totlen (2 ^ eraseShift)) state.act state.bbt
          act := state.act +
            2 * (8 / bits * min state.totlen (2 ^ eraseShift))
          totlen := state.totlen - min state.totlen (2 ^ eraseShift)
          start := state.start + min state.totlen (2 ^ eraseShift) } := by
      unfold readBbtStep
      dsimp only
      rw [reading.place, isOk]
    rw [unfolded]
    refine ⟨⟨reading.failed, ?_, ?_, ?_, ?_⟩, ?_⟩ <;> dsimp only
    · omega
    · rw [reading.place, rest, Nat.add_assoc]
    · rw [reading.act, rest, Nat.mul_add (8 / bits)]
      omega
    · rw [rest]
      exact reading.blocks.bytes whole reading.act delivered
    · omega
  have begins : ReadingBbt bits offs reservedBlockCode start total image before
      ⟨before, 0, total, start, none⟩ := by
    have none_ : total - total = 0 := Nat.sub_self total
    refine ⟨rfl, Nat.le_refl total, ?_, ?_, ?_⟩ <;> dsimp only <;>
      rw [none_]
    · rfl
    · rw [Nat.mul_zero, Nat.mul_zero]
    · constructor
      · intro block within
        exact absurd within (Nat.not_lt_zero block)
      · intro block _
        rfl
  obtain ⟨reading, ends⟩ := Loop.ended_of_rounds
    (ReadingBbt bits offs reservedBlockCode start total image before)
    BbtReading.totlen step begins (Nat.le_refl total)
  dsimp only
  generalize Loop.rounds _ _ total _ = final at reading ends ⊢
  rw [reading.failed, Option.isNone_none, Bool.and_true,
    decide_eq_false_iff_not, not_not] at ends
  have blocks := reading.blocks
  rw [ends, Nat.sub_zero] at blocks
  rw [reading.failed]
  exact ⟨final.bbt, rfl, blocks⟩

end Read

/-- The entry that is left of one: with one bit for a block a worn out block is
bad from the factory, and without a code a reserved block is a good one. -/
def storedEntry (bits : Nat) (reservedBlockCode : UInt8) (entry : Nat) : Nat :=
  if entry = 1 ∧ bits = 1 then 3
  else if entry = 2 ∧ (reservedBlockCode = 0 ∨ reservedBlockCode = 0xff) then 0
  else entry

theorem isBadEntry_storedEntry (bits : Nat) (reservedBlockCode : UInt8)
    (entry : Nat) :
    IsBadEntry (storedEntry bits reservedBlockCode entry) ↔
      IsBadEntry entry := by
  unfold storedEntry IsBadEntry
  split
  · omega
  · split <;> omega

theorem bbtRead_bbtCode {bits : Nat} {width : BbtWidth}
    (found : bbtWidth bits = some width) {code : UInt8}
    (fits : code = 0 ∨ bits = 8 ∧ code ≠ 0xf0) {entry : Nat}
    (small : entry < 4) :
    bbtRead bits code.toNat (bbtCode bits width (rcodeOf code) entry) =
      storedEntry bits code entry := by
  rcases fits with none_ | ⟨eight, other⟩
  · subst none_
    unfold bbtWidth at found
    have each : entry = 0 ∨ entry = 1 ∨ entry = 2 ∨ entry = 3 := by omega
    split at found <;> cases found <;>
      rcases each with rfl | rfl | rfl | rfl <;> decide
  · subst eight
    cases found
    have every : ∀ code : UInt8, code ≠ 0xf0 → ∀ entry < 4,
        bbtRead 8 code.toNat (bbtCode 8 ⟨0, 0x00, 0x0f, 0xff⟩ (rcodeOf code)
          entry) = storedEntry 8 code entry :=
      forall_byte (by decide +kernel)
    exact every code other entry small

/-- The bits of a block in bytes that `memset` filled. -/
theorem numberAt_full {buf : Nat → UInt8} {offs bits block total : Nat}
    (full : ∀ i < total, buf (offs + i) = 0xff)
    (inside : bits * (block + 1) ≤ 8 * total) :
    numberAt (byteRow buf) (8 * offs + bits * block) bits = 2 ^ bits - 1 := by
  apply Nat.eq_of_testBit_eq
  intro i
  rw [testBit_numberAt, Nat.testBit_two_pow_sub_one]
  by_cases within : i < bits
  · rw [Nat.mul_succ] at inside
    have rest : (8 * offs + bits * block + i) % 8 < 8 :=
      Nat.mod_lt _ (by decide)
    have index : (8 * offs + bits * block + i) / 8 =
        offs + (bits * block + i) / 8 := by omega
    have allSet : (0xff : UInt8).toBitVec = BitVec.allOnes 8 := rfl
    rw [bitAt, byteRow, index, full _ (by omega), allSet,
      BitVec.getLsbD_allOnes,
      decide_eq_true rest, Bool.and_true]
  · rw [decide_eq_false within, Bool.false_and]

theorem numberAt_offset (buf : Nat → UInt8) (offs start width : Nat) :
    numberAt (byteRow fun i => buf (offs + i)) start width =
      numberAt (byteRow buf) (8 * offs + start) width := by
  apply Nat.eq_of_testBit_eq
  intro i
  have index : (8 * offs + start + i) / 8 = offs + (start + i) / 8 := by omega
  have place : (8 * offs + start + i) % 8 = (start + i) % 8 := by omega
  rw [testBit_numberAt, testBit_numberAt, bitAt, bitAt, index, place]
  rfl

/-- `read_bbt` restores the entries from the bytes that `write_bbt` left, for
each number of bits.  The bad blocks are those of before.  A reserved block
needs a code and eight bits; the code `0xf0` would be that of a worn out
block. -/
theorem readBbt_writeBbtBits {bits : Nat} {width : BbtWidth}
    (found : bbtWidth bits = some width) {code : UInt8}
    (fits : code = 0 ∨ bits = 8 ∧ code ≠ 0xf0) {num : Nat}
    (wholeBytes : num % 8 = 0) (bbt : Nat → UInt8) (bbtoffs offs : Nat)
    {buf : Nat → UInt8}
    (memset : ∀ i < num * bits / 8, buf (offs + i) = 0xff)
    {read : Nat → Nat → Except NandReturn (Nat → UInt8)} {start : Nat}
    (delivers : ∀ place len, place + len ≤ num * bits / 8 →
      ∃ data, read (start + place) len = .ok data ∧ ∀ i < len,
        data i = writeBbtBits width (rcodeOf code) bbt bbtoffs offs num buf
          (offs + (place + i)))
    (eraseShift target : Nat) {before : Nat → UInt8}
    (empty : ∀ block < num, bbtEntry before (4 * target + block) = 0) :
    ∃ after, readBbt read bits target code.toNat eraseShift start num before =
        (.zero, after) ∧
      (∀ block < num, bbtEntry after (4 * target + block) =
        storedEntry bits code (bbtEntry bbt (4 * bbtoffs + block))) ∧
      (∀ block < num, IsBadEntry (bbtEntry after (4 * target + block)) ↔
        IsBadEntry (bbtEntry bbt (4 * bbtoffs + block))) ∧
      ∀ block, block < 4 * target ∨ 4 * target + num ≤ block →
        bbtEntry after block = bbtEntry before block := by
  have groups : 4 * ((num + 3) / 4) = num := by omega
  have divides : bits * (8 / bits) = 8 := by
    unfold bbtWidth at found
    split at found <;> cases found <;> rfl
  have bytes : num * bits / 8 * 8 = num * bits := by
    apply Nat.div_mul_cancel
    exact (Nat.dvd_of_mod_eq_zero wholeBytes).mul_right bits
  have count : 8 / bits * (num * bits / 8) = num := by
    apply Nat.eq_of_mul_eq_mul_left (n := bits * 8)
    · unfold bbtWidth at found
      split at found <;> cases found <;> decide
    · calc bits * 8 * (8 / bits * (num * bits / 8)) =
            bits * (8 / bits) * (num * bits / 8 * 8) := by ring
        _ = bits * 8 * num := by rw [divides, bytes]; ring
  have fitting : code = 0 ∨ bits = 8 := fits.imp_right And.left
  have full : ∀ block < 4 * ((num + 3) / 4),
      numberAt (byteRow buf) (8 * offs + bits * block) bits =
        2 ^ bits - 1 := by
    intro block within
    rw [groups] at within
    have most : bits * (block + 1) ≤ bits * num :=
      Nat.mul_le_mul_left bits within
    apply numberAt_full memset
    rw [Nat.mul_comm 8, bytes, Nat.mul_comm num]
    exact most
  have written := writeBbtBits_written found (msk_lt found fitting) bbt bbtoffs
    num full
  obtain ⟨after, isAfter, reading⟩ := readBbt_reads eraseShift
    (fun i => writeBbtBits width (rcodeOf code) bbt bbtoffs offs num buf
      (offs + i)) before divides delivers
  rw [count] at reading
  have entries : ∀ block < num, bbtEntry after (4 * target + block) =
      storedEntry bits code (bbtEntry bbt (4 * bbtoffs + block)) := by
    intro block within
    rw [reading.done block within, empty block within, Nat.zero_or,
      numberAt_offset, written.done block (by rw [groups]; exact within)]
    exact bbtRead_bbtCode found fits (bbtEntry_lt bbt _)
  refine ⟨after, isAfter, entries, ?_, reading.others⟩
  intro block within
  rw [entries block within]
  exact isBadEntry_storedEntry bits code _

/-- The image of a table of eight blocks where every second one is worn out,
with two bits for a block as in the descriptors of the driver. -/
def twoBitImage : Nat → UInt8 :=
  writeBbtBits ⟨2, 0x06, 0x01, 0x03⟩ 0xff (fun _ => 0x11) 0 0 8 fun _ => 0xff

def readTwoBits (start _len : Nat) : Except NandReturn (Nat → UInt8) :=
  .ok fun i => twoBitImage (start + i)

theorem readBbt_twoBitImage :
    ∃ after, readBbt readTwoBits 2 0 0 14 0 8 (fun _ => 0) = (.zero, after) ∧
      ∀ block < 8, IsBadEntry (bbtEntry after block) ↔
        IsBadEntry (bbtEntry (fun _ => 0x11) block) := by
  have found : bbtWidth 2 = some ⟨2, 0x06, 0x01, 0x03⟩ := rfl
  have wholeBytes : 8 % 8 = 0 := rfl
  have delivers : ∀ place len, place + len ≤ 8 * 2 / 8 →
      ∃ data, readTwoBits (0 + place) len = .ok data ∧ ∀ i < len,
        data i = twoBitImage (0 + (place + i)) := by
    intro place len _
    refine ⟨_, rfl, ?_⟩
    intro i _
    rw [Nat.zero_add, Nat.zero_add]
  have empty : ∀ block < 8, bbtEntry (fun _ => 0) (4 * 0 + block) = 0 := by
    intro block _
    rw [bbtEntry_eq, UInt8.toNat_zero, Nat.zero_shiftRight]
  obtain ⟨after, isAfter, -, sameBad, -⟩ :=
    readBbt_writeBbtBits found (Or.inl rfl) wholeBytes (fun _ => 0x11) 0 0
      (fun _ _ => rfl) delivers 14 0 empty
  refine ⟨after, isAfter, ?_⟩
  intro block within
  have same := sameBad block within
  rw [Nat.mul_zero, Nat.zero_add] at same
  exact same

end Witos.Flash
