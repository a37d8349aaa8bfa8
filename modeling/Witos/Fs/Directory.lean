import Mathlib.Logic.Function.Basic
import Witos.Library.Bytes
import Witos.Library.Word

/-!
# Searching a directory

The loops of `ext2_inode_by_name` and `ext4_inode_by_name`, which differ only
in how they read a block.  A block is read over the start of a buffer on the
stack.  The loop over its records counts in `len` the length of the record it
goes to, not of the one it has looked at, so it may go on in what is left on
the stack behind the block.
-/

namespace Witos.Fs

open Library

section Record

variable (memory : Nat → UInt8) (place : Nat)

/-- The fields of the record at a place of a buffer. -/
def deInode : Nat :=
  leValue (slice memory place 4)

def deRecLen : Nat :=
  leValue (slice memory (place + 4) 2)

def deNameLen : Nat :=
  (memory (place + 6)).toNat

def deName : List UInt8 :=
  slice memory (place + 8) (deNameLen memory place)

end Record

/-- Where the loop over records stands. -/
structure Cursor where
  buff : Nat → UInt8
  place : Nat
  len : Nat

namespace Cursor

/-- The test of the loop, on `i_size` and the end of the block. -/
def goesOn (cursor : Cursor) (size bound : Nat) : Bool :=
  0 < deRecLen cursor.buff cursor.place ∧ cursor.len < size ∧
    cursor.len < bound

/-- The buffer with a zero written behind the name. -/
def terminated (cursor : Cursor) : Nat → UInt8 :=
  Function.update cursor.buff
    (cursor.place + 8 + deNameLen cursor.buff cursor.place) 0

def next (cursor : Cursor) : Cursor :=
  let place := cursor.place + deRecLen cursor.terminated cursor.place
  ⟨cursor.terminated, place,
    add32 cursor.len (deRecLen cursor.terminated place)⟩

end Cursor

/-- The loop has returned the number of an inode, or come to its end. -/
inductive Scan
  | found (ino : Nat)
  | left (cursor : Cursor)

/-- The loop over records, of at most `fuel` iterations.  The names compared
have no zero in them, so `strncmp` compares all of their bytes. -/
def scanRecords (size bound : Nat) (unit : List UInt8) :
    Nat → Cursor → Option Scan
  | 0, _ => none
  | fuel + 1, cursor =>
      if cursor.goesOn size bound then
        if deName cursor.terminated cursor.place = unit then
          some (.found (deInode cursor.terminated cursor.place))
        else scanRecords size bound unit fuel cursor.next
      else some (.left cursor)

/-- The loop over `left` more blocks.  There is no memory for more iterations
of the inner loop than there are addresses. -/
def scanBlocks (size blockSize : Nat) (readBlock : Nat → List UInt8)
    (unit : List UInt8) : Nat → Nat → (Nat → UInt8) → Nat → Option Nat
  | 0, _, _, _ => some 0
  | left + 1, i, buff, len =>
      match scanRecords size ((i + 1) * blockSize % 2 ^ 32) unit (2 ^ 32)
          ⟨overlay (readBlock i) buff, 0, len⟩ with
      | none => none
      | some (.found ino) => some ino
      | some (.left cursor) =>
          scanBlocks size blockSize readBlock unit left (i + 1) cursor.buff
            cursor.len

def blocksOf (size blockSize : Nat) : Nat :=
  add32 size (blockSize - 1) / blockSize

/-- The number of the inode, or 0.  `stack` is what the buffer holds before
it is filled. -/
def inodeByName (size blockSize : Nat) (readBlock : Nat → List UInt8)
    (stack : Nat → UInt8) (unit : List UInt8) : Option Nat :=
  scanBlocks size blockSize readBlock unit (blocksOf size blockSize) 0 stack 0

/-- The places of the records of a block. -/
inductive RecordAt (block : Nat → UInt8) (blockSize : Nat) : Nat → Prop
  | first : RecordAt block blockSize 0
  | next {place : Nat} : RecordAt block blockSize place →
      place + deRecLen block place < blockSize →
      RecordAt block blockSize (place + deRecLen block place)

/-- The block has a record of the name that is in use. -/
def HasName (block : Nat → UInt8) (blockSize : Nat) (name : List UInt8) :
    Prop :=
  ∃ place, RecordAt block blockSize place ∧ deName block place = name ∧
    deInode block place ≠ 0

/-- Every record has room for its name and ends in the block. -/
def Tiled (block : Nat → UInt8) (blockSize : Nat) : Prop :=
  ∀ place, RecordAt block blockSize place →
    8 + deNameLen block place ≤ deRecLen block place ∧
      place + deRecLen block place ≤ blockSize

/-- The loop over records looks at none behind the block. -/
def recordsInside (size bound blockSize : Nat) (unit : List UInt8) :
    Nat → Cursor → Prop
  | 0, _ => True
  | fuel + 1, cursor =>
      cursor.goesOn size bound = true →
        cursor.place < blockSize ∧
          (deName cursor.terminated cursor.place ≠ unit →
            recordsInside size bound blockSize unit fuel cursor.next)

/-- The search looks at no record behind a block. -/
def blocksInside (size blockSize : Nat) (readBlock : Nat → List UInt8)
    (unit : List UInt8) : Nat → Nat → (Nat → UInt8) → Nat → Prop
  | 0, _, _, _ => True
  | left + 1, i, buff, len =>
      recordsInside size ((i + 1) * blockSize % 2 ^ 32) blockSize unit
          (2 ^ 32) ⟨overlay (readBlock i) buff, 0, len⟩ ∧
        ∀ cursor, scanRecords size ((i + 1) * blockSize % 2 ^ 32) unit
            (2 ^ 32) ⟨overlay (readBlock i) buff, 0, len⟩ =
              some (.left cursor) →
          blocksInside size blockSize readBlock unit left (i + 1) cursor.buff
            cursor.len

def StaysInside (size blockSize : Nat) (readBlock : Nat → List UInt8)
    (stack : Nat → UInt8) (unit : List UInt8) : Prop :=
  blocksInside size blockSize readBlock unit (blocksOf size blockSize) 0
    stack 0

section Found

variable {block : Nat → UInt8} {blockSize : Nat}

/-- From the record on, the buffer has the bytes of the block, but the first
of them may have been overwritten by the zero behind the name before it. -/
structure Agrees (block : Nat → UInt8) (blockSize : Nat) (cursor : Cursor) :
    Prop where
  record : cursor.place < blockSize →
    RecordAt block blockSize cursor.place
  first : cursor.place < blockSize →
    cursor.buff cursor.place = block cursor.place ∨
      cursor.buff cursor.place = 0
  rest : ∀ index, cursor.place < index → index < blockSize →
    cursor.buff index = block index

namespace Agrees

variable {cursor : Cursor} (tiled : Tiled block blockSize)
  (agrees : Agrees block blockSize cursor)
  (inside : cursor.place < blockSize)

include tiled agrees inside

theorem bounds : 8 + deNameLen block cursor.place ≤
      deRecLen block cursor.place ∧
    cursor.place + deRecLen block cursor.place ≤ blockSize :=
  tiled _ (agrees.record inside)

/-- The zero goes at most into the first byte of the next record. -/
theorem terminated_eq (index : Nat) (above : cursor.place < index)
    (before : index < cursor.place + deRecLen block cursor.place)
    (notEnd : index ≠ cursor.place + 8 + deNameLen block cursor.place) :
    cursor.terminated index = block index := by
  have bounds := agrees.bounds tiled inside
  have nameLen : deNameLen cursor.buff cursor.place =
      deNameLen block cursor.place := by
    unfold deNameLen
    rw [agrees.rest _ (by omega) (by omega)]
  unfold Cursor.terminated
  rw [nameLen, Function.update_of_ne notEnd]
  exact agrees.rest _ above (by omega)

theorem recLen_eq : deRecLen cursor.terminated cursor.place =
    deRecLen block cursor.place := by
  have bounds := agrees.bounds tiled inside
  unfold deRecLen
  congr 1
  apply slice_congr
  intro index below
  apply agrees.terminated_eq tiled inside
  all_goals omega

theorem name_eq : deName cursor.terminated cursor.place =
    deName block cursor.place := by
  have bounds := agrees.bounds tiled inside
  have nameLen : deNameLen cursor.terminated cursor.place =
      deNameLen block cursor.place := by
    unfold deNameLen
    rw [agrees.terminated_eq tiled inside _ (by omega) (by omega) (by omega)]
  unfold deName
  rw [nameLen]
  apply slice_congr
  intro index below
  apply agrees.terminated_eq tiled inside
  all_goals omega

/-- A number that is not zero in the buffer is not zero in the block. -/
theorem inode_ne_zero
    (inUse : deInode cursor.terminated cursor.place ≠ 0) :
    deInode block cursor.place ≠ 0 := by
  have bounds := agrees.bounds tiled inside
  have first : cursor.terminated cursor.place =
      cursor.buff cursor.place := by
    apply Function.update_of_ne
    omega
  have second := agrees.terminated_eq tiled inside (cursor.place + 1)
    (by omega) (by omega) (by omega)
  have third := agrees.terminated_eq tiled inside (cursor.place + 2)
    (by omega) (by omega) (by omega)
  have fourth := agrees.terminated_eq tiled inside (cursor.place + 3)
    (by omega) (by omega) (by omega)
  intro free
  apply inUse
  simp only [deInode, slice_succ, slice_zero, leValue, Nat.add_assoc,
    Nat.reduceAdd] at free ⊢
  rw [first, second, third, fourth]
  rcases agrees.first inside with same | zero
  · rw [same]
    exact free
  · rw [zero]
    simp only [UInt8.toNat_zero]
    omega

theorem next : Agrees block blockSize cursor.next := by
  have bounds := agrees.bounds tiled inside
  have place : cursor.next.place =
      cursor.place + deRecLen block cursor.place := by
    change cursor.place + deRecLen cursor.terminated cursor.place = _
    rw [agrees.recLen_eq tiled inside]
  have nameLen : deNameLen cursor.buff cursor.place =
      deNameLen block cursor.place := by
    unfold deNameLen
    rw [agrees.rest _ (by omega) (by omega)]
  constructor
  · rw [place]
    exact (agrees.record inside).next
  · rw [place]
    intro below
    change cursor.terminated _ = _ ∨ cursor.terminated _ = 0
    unfold Cursor.terminated
    rw [Function.update_apply, nameLen]
    split
    · exact .inr rfl
    · exact .inl (agrees.rest _ (by omega) below)
  · rw [place]
    intro index above below
    change cursor.terminated _ = _
    unfold Cursor.terminated
    rw [nameLen, Function.update_of_ne (by omega)]
    exact agrees.rest _ (by omega) below

end Agrees

theorem scanRecords_found (tiled : Tiled block blockSize)
    {size bound : Nat} {unit : List UInt8} {fuel : Nat} {cursor : Cursor}
    (agrees : Agrees block blockSize cursor)
    (stays : recordsInside size bound blockSize unit fuel cursor) {ino : Nat}
    (found : scanRecords size bound unit fuel cursor = some (.found ino))
    (inUse : ino ≠ 0) : HasName block blockSize unit := by
  induction fuel generalizing cursor with
  | zero => cases found
  | succ fuel induction =>
      rw [scanRecords] at found
      split at found
      · rename_i goesOn
        obtain ⟨inside, rest⟩ := stays goesOn
        split at found
        · rename_i isName
          cases found
          rw [agrees.name_eq tiled inside] at isName
          exact ⟨cursor.place, agrees.record inside, isName,
            agrees.inode_ne_zero tiled inside inUse⟩
        · rename_i isOther
          exact induction (agrees.next tiled inside) (rest isOther) found
      · cases found

theorem agrees_start (block buff : Nat → UInt8) (blockSize len : Nat) :
    Agrees block blockSize
      ⟨overlay (slice block 0 blockSize) buff, 0, len⟩ := by
  have read (index : Nat) (below : index < blockSize) :
      overlay (slice block 0 blockSize) buff index = block index := by
    simp [overlay, slice, below]
  constructor
  · intro _
    exact .first
  · intro below
    exact .inl (read 0 below)
  · intro index _ below
    exact read index below

variable {blocks : Nat → Nat → UInt8} {readBlock : Nat → List UInt8}
  {size : Nat} {unit : List UInt8}

theorem scanBlocks_found {total : Nat}
    (tiled : ∀ i < total, Tiled (blocks i) blockSize)
    {left i : Nat} (position : i + left = total) {buff : Nat → UInt8}
    {len : Nat}
    (stays : blocksInside size blockSize
      (fun i => slice (blocks i) 0 blockSize) unit left i buff len)
    {ino : Nat}
    (found : scanBlocks size blockSize
      (fun i => slice (blocks i) 0 blockSize) unit left i buff len =
        some ino) (inUse : ino ≠ 0) :
    ∃ i < total, HasName (blocks i) blockSize unit := by
  induction left generalizing i buff len with
  | zero =>
      cases found
      exact absurd rfl inUse
  | succ left induction =>
      have before : i < total := by omega
      obtain ⟨inside, rest⟩ := stays
      rw [scanBlocks] at found
      split at found
      · cases found
      · rename_i returned isFound
        cases found
        exact ⟨i, before, scanRecords_found (tiled i before)
          (agrees_start _ _ _ _) inside isFound inUse⟩
      · rename_i cursor isLeft
        exact induction (by omega) (rest cursor isLeft) found

theorem scanBlocks_congr {other : Nat → List UInt8} {left i total : Nat}
    (position : i + left = total)
    (same : ∀ i < total, readBlock i = other i) (buff : Nat → UInt8)
    (len : Nat) :
    scanBlocks size blockSize readBlock unit left i buff len =
      scanBlocks size blockSize other unit left i buff len := by
  induction left generalizing i buff len with
  | zero => rfl
  | succ left induction =>
      rw [scanBlocks, scanBlocks, same i (by omega)]
      split
      · rfl
      · rfl
      · exact induction (by omega) _ _

theorem blocksOf_bound {i : Nat} (below : i < blocksOf size blockSize) :
    i * blockSize < size := by
  unfold blocksOf at below
  have positive : 0 < blockSize := by
    rcases Nat.eq_zero_or_pos blockSize with zero | positive
    · rw [zero, Nat.div_zero] at below
      cases below
    · exact positive
  have bound := (Nat.le_div_iff_mul_le positive).mp below
  have wrap : add32 size (blockSize - 1) ≤ size + (blockSize - 1) :=
    Nat.mod_le _ _
  rw [Nat.succ_mul] at bound
  omega

theorem inodeByName_congr {other : Nat → List UInt8}
    (same : ∀ i < blocksOf size blockSize, readBlock i = other i)
    (stack : Nat → UInt8) :
    inodeByName size blockSize readBlock stack unit =
      inodeByName size blockSize other stack unit :=
  scanBlocks_congr (Nat.zero_add _) same stack 0

/-- A search that stays in blocks of whole records returns an inode only for a
name that one of the blocks of the directory has. -/
theorem inodeByName_found
    (tiled : ∀ i, i * blockSize < size → Tiled (blocks i) blockSize)
    {stack : Nat → UInt8}
    (stays : StaysInside size blockSize
      (fun i => slice (blocks i) 0 blockSize) stack unit) {ino : Nat}
    (found : inodeByName size blockSize
      (fun i => slice (blocks i) 0 blockSize) stack unit = some ino)
    (inUse : ino ≠ 0) :
    ∃ i, i * blockSize < size ∧ HasName (blocks i) blockSize unit := by
  obtain ⟨i, below, hasName⟩ := scanBlocks_found
    (fun i below => tiled i (blocksOf_bound below)) (Nat.zero_add _) stays
    found inUse
  exact ⟨i, blocksOf_bound below, hasName⟩

end Found

end Witos.Fs
