import Witos.Fs.Readdir

/-!
# The entry that a search finds

The loops of `ext2_inode_by_name` and `ext4_inode_by_name` on blocks of whole
records.  A search that passes the end of the first block goes on in what is
left on the stack there, so that only the first block is searched.
-/

namespace Witos.Fs

open Library

/-- The number of the entry in use with the name, and 0 if there is none. -/
def FindsEntry (records : List DirRecord) (name : List UInt8)
    (result : Option Nat) : Prop :=
  ∃ ino, result = some ino ∧
    (ino = 0 ↔ ∀ record ∈ records, record.name = name → record.ino = 0) ∧
    (ino ≠ 0 → ∃ record ∈ records, record.name = name ∧ record.ino = ino)

/-- No two entries in use have one name. -/
def UniqueNames (records : List DirRecord) : Prop :=
  ∀ first ∈ records, ∀ second ∈ records, first.ino ≠ 0 → second.ino ≠ 0 →
    first.name = second.name → first = second

/-- The zero behind the name of the record before is written into the number
of this one. -/
def Spoiled (previous : Option DirRecord) (offset : Nat) : Bool :=
  previous.any fun record => record.offset + 8 + record.name.length = offset

/-- The first record of the name is in the first block, and it is the entry in
use with a number that a zero in its lowest byte leaves alone, or that is not
preceded by a full record; or there is no entry in use. -/
def FirstBlockHas (records first : List DirRecord) (name : List UInt8) :
    Prop :=
  ∃ before record after, first = before ++ record :: after ∧
    (∀ other ∈ before, other.name ≠ name) ∧ record.name = name ∧
    (record.ino = 0 →
      ∀ other ∈ records, other.name = name → other.ino = 0) ∧
    (record.ino ≠ 0 →
      record.ino % 256 = 0 ∨ Spoiled before.getLast? record.offset = false)

/-- The number of a record as it is read behind another one. -/
def inoBehind (previous : Option DirRecord) (record : DirRecord) : Nat :=
  if Spoiled previous record.offset then record.ino / 256 * 256
  else record.ino

/-- What the loop over the records of a block returns, if it does. -/
def searchRecords (name : List UInt8) :
    Option DirRecord → List DirRecord → Option Nat
  | _, [] => none
  | previous, record :: rest =>
      if record.name = name then some (inoBehind previous record)
      else searchRecords name (some record) rest

theorem searchRecords_none_iff (name : List UInt8)
    (previous : Option DirRecord) (records : List DirRecord) :
    searchRecords name previous records = none ↔
      ∀ record ∈ records, record.name ≠ name := by
  induction records generalizing previous with
  | nil => simp [searchRecords]
  | cons record rest induction =>
      by_cases same : record.name = name
      · simp [searchRecords, same]
      · simp [searchRecords, same, induction]

theorem searchRecords_first {name : List UInt8} {before : List DirRecord}
    (others : ∀ other ∈ before, other.name ≠ name) {record : DirRecord}
    (same : record.name = name) (previous : Option DirRecord)
    (after : List DirRecord) :
    searchRecords name previous (before ++ record :: after) =
      some (inoBehind (before.getLast?.or previous) record) := by
  induction before generalizing previous with
  | nil =>
      rw [List.nil_append, searchRecords, if_pos same]
      rfl
  | cons other before induction =>
      have rest := induction
        (fun later member => others later (List.mem_cons_of_mem _ member))
        (some other)
      have last : (other :: before).getLast?.or previous =
          before.getLast?.or (some other) := by
        rw [List.getLast?_cons]
        cases before.getLast? with
        | none => rfl
        | some _ => rfl
      rw [List.cons_append, searchRecords,
        if_neg (others other List.mem_cons_self), rest, last]

theorem exists_first_of_found {name : List UInt8} {records : List DirRecord}
    (named : ¬∀ record ∈ records, record.name ≠ name) :
    ∃ before record after, records = before ++ record :: after ∧
      (∀ other ∈ before, other.name ≠ name) ∧ record.name = name := by
  induction records with
  | nil => simp at named
  | cons record rest induction =>
      by_cases same : record.name = name
      · exact ⟨[], record, rest, rfl, by simp, same⟩
      · have later : ¬∀ other ∈ rest, other.name ≠ name := by
          intro none
          apply named
          intro other member
          rcases List.mem_cons.mp member with rfl | inRest
          · exact same
          · exact none other inRest
        obtain ⟨before, found, after, split, others, isName⟩ :=
          induction later
        refine ⟨record :: before, found, after, ?_, ?_, isName⟩
        · rw [split, List.cons_append]
        · intro other member
          rcases List.mem_cons.mp member with rfl | inBefore
          · exact same
          · exact others other inBefore

/-- A number that a zero in its lowest byte leaves alone, or that is not
preceded by a full record, is read as it is. -/
theorem inoBehind_of_kept {previous : Option DirRecord} {record : DirRecord}
    (kept : record.ino ≠ 0 →
      record.ino % 256 = 0 ∨ Spoiled previous record.offset = false) :
    inoBehind previous record = record.ino := by
  rw [inoBehind]
  by_cases free : record.ino = 0
  · rw [free, ite_self]
  · rcases kept free with whole | unspoiled
    · split
      · exact Nat.div_mul_cancel (Nat.dvd_of_mod_eq_zero whole)
      · rfl
    · rw [unspoiled, if_neg Bool.false_ne_true]

theorem findsEntry_iff {records first : List DirRecord} {name : List UInt8}
    (unique : UniqueNames records) (subset : first ⊆ records) {ino : Nat}
    (found : searchRecords name none first = some ino) :
    FindsEntry records name (some ino) ↔ FirstBlockHas records first name := by
  have inRecords {before after : List DirRecord} {record : DirRecord}
      (split : first = before ++ record :: after) : record ∈ records := by
    apply subset
    rw [split]
    exact List.mem_append_right _ List.mem_cons_self
  constructor
  · rintro ⟨same, returned, zero, entry⟩
    obtain rfl := Option.some.inj returned
    have named : ¬∀ record ∈ first, record.name ≠ name := by
      rw [← searchRecords_none_iff name none, found]
      exact Option.some_ne_none _
    obtain ⟨before, record, after, split, others, isName⟩ :=
      exists_first_of_found named
    have member := inRecords split
    rw [split, searchRecords_first others isName, Option.or_none] at found
    have value := (Option.some.inj found).symm
    refine ⟨before, record, after, split, others, isName, ?_, ?_⟩
    · intro deleted
      apply zero.mp
      rw [value, inoBehind_of_kept fun inUse => absurd deleted inUse, deleted]
    · intro inUse
      cases spoiled : Spoiled before.getLast? record.offset with
      | false => exact .inr rfl
      | true =>
          left
          rw [inoBehind, if_pos spoiled] at value
          by_cases none : ino = 0
          · exact absurd (zero.mp none record member isName) inUse
          · obtain ⟨other, otherIn, otherName, number⟩ := entry none
            have sameRecord := unique other otherIn record member
              (by rwa [number]) inUse (otherName.trans isName.symm)
            rw [sameRecord] at number
            omega
  · rintro ⟨before, record, after, split, others, isName, deleted, inUse⟩
    have member := inRecords split
    rw [split, searchRecords_first others isName, Option.or_none] at found
    have value : ino = record.ino :=
      (Option.some.inj found).symm.trans (inoBehind_of_kept inUse)
    refine ⟨ino, rfl, ⟨?_, ?_⟩, ?_⟩
    · intro none
      exact deleted (value ▸ none)
    · intro none
      rw [value]
      exact none record member isName
    · intro _
      exact ⟨record, member, isName, value.symm⟩

/-- The loop stands at a record of the block, behind `previous`, or at the end
of the block; behind it the buffer holds the stack. -/
structure Walks (block stack : Nat → UInt8) (blockSize : Nat)
    (previous : Option DirRecord) (cursor : Cursor) : Prop where
  agrees : Agrees block blockSize cursor
  bounded : cursor.place ≤ blockSize
  first : cursor.place < blockSize → cursor.buff cursor.place =
    if Spoiled previous cursor.place then 0 else block cursor.place
  edge : cursor.place = blockSize →
    cursor.buff blockSize = stack blockSize ∨ cursor.buff blockSize = 0
  behind : ∀ index, cursor.place < index → blockSize ≤ index →
    cursor.buff index = stack index
  len : cursor.len + deRecLen block 0 =
    cursor.place + deRecLen cursor.buff cursor.place

theorem deRecLen_lt (memory : Nat → UInt8) (place : Nat) :
    deRecLen memory place < 2 ^ 16 := by
  have bound := leValue_lt (slice memory (place + 4) 2)
  rw [length_slice] at bound
  exact bound

section Walk

variable {block stack : Nat → UInt8} {blockSize : Nat}
  (tiled : Tiled block blockSize) (short : blockSize ≤ 2 ^ 16)

theorem walks_start (positive : 0 < blockSize) (tiled : Tiled block blockSize) :
    Walks block stack blockSize none
      ⟨overlay (slice block 0 blockSize) stack, 0, 0⟩ := by
  obtain ⟨room, ends⟩ := tiled 0 .first
  have inside (index : Nat) (below : index < blockSize) :
      overlay (slice block 0 blockSize) stack index = block index := by
    simp [overlay, slice, below]
  constructor
  · exact agrees_start block stack blockSize 0
  · exact Nat.zero_le _
  · intro below
    exact inside 0 below
  · intro ended
    exact absurd ended (Nat.ne_of_lt positive)
  · intro index _ beyond
    simp [overlay, slice, Nat.not_lt.mpr beyond]
  · have same : deRecLen (overlay (slice block 0 blockSize) stack) 0 =
        deRecLen block 0 :=
      congrArg leValue (slice_overlay_block _ _ (by omega))
    rw [same]

variable {previous : Option DirRecord} {cursor : Cursor}
  (walks : Walks block stack blockSize previous cursor)
  (inside : cursor.place < blockSize)

include tiled walks inside

theorem Walks.recLen : deRecLen cursor.buff cursor.place =
    deRecLen block cursor.place := by
  obtain ⟨room, ends⟩ := tiled _ (walks.agrees.record inside)
  unfold deRecLen at *
  congr 1
  apply slice_congr
  intro index below
  exact walks.agrees.rest _ (by omega) (by omega)

theorem Walks.goesOn {size : Nat} (whole : blockSize ≤ size) :
    cursor.goesOn size blockSize = true := by
  obtain ⟨room, ends⟩ := tiled _ (walks.agrees.record inside)
  obtain ⟨firstRoom, _⟩ := tiled 0 .first
  have len := walks.len
  rw [walks.recLen tiled inside] at len
  simp only [Cursor.goesOn, walks.recLen tiled inside, decide_eq_true_eq]
  exact ⟨by omega, by omega, by omega⟩

/-- The number that is read is the one in the block but for its lowest byte,
where the zero behind the record before may be. -/
theorem Walks.inode : deInode cursor.terminated cursor.place =
    inoBehind previous (.ofPlace block 0 cursor.place) := by
  obtain ⟨room, ends⟩ := tiled _ (walks.agrees.record inside)
  have first : cursor.terminated cursor.place = cursor.buff cursor.place := by
    apply Function.update_of_ne
    omega
  have kept (index : Nat) (low : cursor.place < index)
      (high : index < cursor.place + 4) :
      cursor.terminated index = block index :=
    walks.agrees.terminated_eq tiled inside index low (by omega) (by omega)
  have offset : (DirRecord.ofPlace block 0 cursor.place).offset =
      cursor.place := Nat.zero_add _
  have number : (DirRecord.ofPlace block 0 cursor.place).ino =
      deInode block cursor.place := rfl
  rw [inoBehind, offset, number]
  simp only [deInode, slice_succ, slice_zero, leValue, Nat.add_assoc,
    Nat.reduceAdd]
  rw [first, walks.first inside, kept _ (by omega) (by omega),
    kept _ (by omega) (by omega), kept _ (by omega) (by omega)]
  cases Spoiled previous cursor.place with
  | false => simp
  | true =>
      have low := (block cursor.place).toNat_lt
      simp only [if_true, UInt8.toNat_zero]
      omega

include short in
theorem Walks.next : Walks block stack blockSize
    (some (.ofPlace block 0 cursor.place)) cursor.next := by
  obtain ⟨room, ends⟩ := tiled _ (walks.agrees.record inside)
  obtain ⟨firstRoom, _⟩ := tiled 0 .first
  have place : cursor.next.place =
      cursor.place + deRecLen block cursor.place := by
    change cursor.place + deRecLen cursor.terminated cursor.place = _
    rw [walks.agrees.recLen_eq tiled inside]
  have nameLen : deNameLen cursor.buff cursor.place =
      deNameLen block cursor.place := by
    unfold deNameLen
    rw [walks.agrees.rest _ (by omega) (by omega)]
  have written (index : Nat) : cursor.next.buff index =
      if index = cursor.place + 8 + deNameLen block cursor.place then 0
      else cursor.buff index := by
    change cursor.terminated index = _
    unfold Cursor.terminated
    rw [Function.update_apply, nameLen]
  have length : (DirRecord.ofPlace block 0 cursor.place).name.length =
      deNameLen block cursor.place := length_slice _ _ _
  have offset : (DirRecord.ofPlace block 0 cursor.place).offset =
      cursor.place := Nat.zero_add _
  constructor
  · exact walks.agrees.next tiled inside
  · omega
  · intro below
    rw [written, place, Spoiled, Option.any_some, length, offset]
    by_cases full : cursor.place + 8 + deNameLen block cursor.place =
        cursor.place + deRecLen block cursor.place
    · simp [full]
    · rw [if_neg (Ne.symm full), walks.agrees.rest _ (by omega) (by omega)]
      simp [full]
  · intro ended
    rw [written, walks.behind blockSize inside (Nat.le_refl _)]
    split
    · exact .inr rfl
    · exact .inl rfl
  · intro index above beyond
    rw [place] at above
    rw [written, if_neg (by omega)]
    exact walks.behind index (by omega) beyond
  · have len := walks.len
    have sum : cursor.next.len = cursor.len +
        deRecLen cursor.next.buff cursor.next.place := by
      apply add32_of_lt
      have recLen := deRecLen_lt cursor.next.buff cursor.next.place
      rw [walks.recLen tiled inside] at len
      change cursor.len + deRecLen cursor.next.buff cursor.next.place < _
      omega
    rw [walks.recLen tiled inside] at len
    omega

omit inside in
include short in
/-- The loop returns what is found among the records, or comes to the end of
the block. -/
theorem Walks.scan {size : Nat} (whole : blockSize ≤ size)
    (unit : List UInt8) {fuel : Nat}
    (enough : blockSize - cursor.place ≤ fuel) :
    match searchRecords unit previous
        ((placesFrom block blockSize fuel cursor.place).map
          (.ofPlace block 0)) with
    | some ino => ∀ left, scanRecords size blockSize unit
        ((placesFrom block blockSize fuel cursor.place).length + left)
          cursor = some (.found ino)
    | none => ∃ last final, Walks block stack blockSize last final ∧
        final.place = blockSize ∧ ∀ left, scanRecords size blockSize unit
          ((placesFrom block blockSize fuel cursor.place).length + left)
            cursor = scanRecords size blockSize unit left final := by
  induction fuel generalizing previous cursor with
  | zero =>
      have bounded := walks.bounded
      refine ⟨previous, cursor, walks, by omega, ?_⟩
      intro left
      rw [placesFrom, List.length_nil, Nat.zero_add]
  | succ fuel induction =>
      rw [placesFrom]
      by_cases inside : cursor.place < blockSize
      · have name := walks.agrees.name_eq tiled inside
        have goesOn := walks.goesOn tiled inside whole
        rw [if_pos inside, List.map_cons, searchRecords, List.length_cons]
        by_cases same : deName block cursor.place = unit
        · have found : (DirRecord.ofPlace block 0 cursor.place).name = unit :=
            same
          rw [if_pos found]
          intro left
          rw [Nat.add_right_comm, scanRecords, if_pos goesOn, name,
            if_pos same, walks.inode tiled inside]
        · have other :
              (DirRecord.ofPlace block 0 cursor.place).name ≠ unit := same
          obtain ⟨room, ends⟩ := tiled _ (walks.agrees.record inside)
          have place : cursor.next.place =
              cursor.place + deRecLen block cursor.place := by
            change cursor.place + deRecLen cursor.terminated _ = _
            rw [walks.agrees.recLen_eq tiled inside]
          have rest := induction (walks.next tiled short inside)
            (by rw [place]; omega)
          have step (left : Nat) : scanRecords size blockSize unit
              (left + 1) cursor =
                scanRecords size blockSize unit left cursor.next := by
            rw [scanRecords, if_pos goesOn, name, if_neg same]
          rw [if_neg other]
          simp only [Nat.add_right_comm _ 1, step, ← place]
          exact rest
      · have bounded := walks.bounded
        rw [if_neg inside]
        refine ⟨previous, cursor, walks, by omega, ?_⟩
        intro left
        rw [List.length_nil, Nat.zero_add]

end Walk

/-- A record of one byte with the name, right behind the block on the stack. -/
def leftRecord (number : UInt8) (name : List UInt8) : List UInt8 :=
  [0, number, 0, 0, 1, 0, UInt8.ofNat name.length, 0] ++ name

def leftStack (blockSize : Nat) (number : UInt8) (name : List UInt8) :
    Nat → UInt8 :=
  overlayAt blockSize (leftRecord number name) (fun _ => 0)

theorem leftStack_at (blockSize : Nat) (number : UInt8) (name : List UInt8)
    (index : Nat) : leftStack blockSize number name (blockSize + index) =
      (leftRecord number name).getD index 0 := by
  rw [leftStack, overlayAt, if_neg (by omega), Nat.add_sub_cancel_left]

section LeftStack

variable {block : Nat → UInt8} {blockSize : Nat} {number : UInt8}
  {name : List UInt8} {last : Option DirRecord} {cursor : Cursor}
  (walks : Walks block (leftStack blockSize number name) blockSize last cursor)
  (ended : cursor.place = blockSize) (few : name.length ≤ 255)

include walks ended

theorem leftStack_kept {index : Nat} (positive : 0 < index) :
    cursor.buff (blockSize + index) =
      (leftRecord number name).getD index 0 := by
  rw [walks.behind _ (by omega) (by omega), leftStack_at]

theorem leftStack_edge : cursor.buff blockSize = 0 := by
  rcases walks.edge ended with same | zero
  · have first := leftStack_at blockSize number name 0
    rw [Nat.add_zero] at first
    rw [same, first]
    rfl
  · exact zero

theorem leftStack_recLen : deRecLen cursor.buff blockSize = 1 := by
  have kept := @leftStack_kept _ _ _ _ _ _ walks ended
  simp only [deRecLen, slice_succ, slice_zero, leValue, Nat.add_assoc]
  rw [kept (by decide), kept (by decide)]
  rfl

include few

theorem leftStack_nameLen : deNameLen cursor.buff blockSize = name.length := by
  rw [deNameLen, leftStack_kept walks ended (by decide)]
  change (UInt8.ofNat name.length).toNat = _
  rw [UInt8.toNat_ofNat', Nat.mod_eq_of_lt (by omega)]

theorem leftStack_unwritten {index : Nat} (below : index < 8 + name.length) :
    cursor.terminated (blockSize + index) =
      cursor.buff (blockSize + index) := by
  unfold Cursor.terminated
  rw [ended, leftStack_nameLen walks ended few,
    Function.update_of_ne (by omega)]

theorem leftStack_name : deName cursor.terminated blockSize = name := by
  have same : deNameLen cursor.terminated blockSize = name.length := by
    rw [deNameLen, leftStack_unwritten walks ended few (by omega),
      ← deNameLen, leftStack_nameLen walks ended few]
  unfold deName
  rw [same]
  apply List.ext_getElem
  · exact length_slice _ _ _
  · intro index inside _
    rw [length_slice] at inside
    have read : cursor.terminated (blockSize + (8 + index)) =
        name[index] := by
      rw [leftStack_unwritten walks ended few (by omega),
        leftStack_kept walks ended (by omega)]
      simp [leftRecord, Nat.add_comm 8, inside]
    simp [slice, Nat.add_assoc, read]

theorem leftStack_inode :
    deInode cursor.terminated blockSize = 256 * number.toNat := by
  have unwritten := @leftStack_unwritten _ _ _ _ _ _ walks ended few
  have kept := @leftStack_kept _ _ _ _ _ _ walks ended
  have first := unwritten (show 0 < 8 + name.length by omega)
  rw [Nat.add_zero, leftStack_edge walks ended] at first
  simp only [deInode, slice_succ, slice_zero, leValue, Nat.add_assoc,
    Nat.reduceAdd]
  rw [first, unwritten (by omega), unwritten (by omega),
    unwritten (by omega), kept (by decide), kept (by decide),
    kept (by decide)]
  change 0 + 256 * (number.toNat + 256 * (0 + 256 * (0 + 256 * 0))) = _
  omega

theorem scan_leftStack {size : Nat} (tiled : Tiled block blockSize)
    (whole : blockSize ≤ size) (left : Nat) :
    scanRecords size blockSize name (left + 1) cursor =
      some (.found (256 * number.toNat)) := by
  have recLen := leftStack_recLen walks ended
  have goesOn : cursor.goesOn size blockSize = true := by
    obtain ⟨room, _⟩ := tiled 0 .first
    have len := walks.len
    rw [ended, recLen] at len
    simp only [Cursor.goesOn, ended, recLen, decide_eq_true_eq]
    exact ⟨by omega, by omega, by omega⟩
  have isName : deName cursor.terminated cursor.place = name := by
    rw [ended]
    exact leftStack_name walks ended few
  rw [scanRecords, if_pos goesOn, if_pos isName, ended,
    leftStack_inode walks ended few]

end LeftStack

theorem scanRecords_long (size : Nat) {bound : Nat}
    (small : bound + 2 ^ 16 ≤ 2 ^ 32) {unit : List UInt8}
    (long : 255 < unit.length) {fuel : Nat} (cursor : Cursor)
    (enough : bound - cursor.len < fuel) :
    ∃ final, scanRecords size bound unit fuel cursor = some (.left final) := by
  induction fuel generalizing cursor with
  | zero => exact absurd enough (Nat.not_lt_zero _)
  | succ fuel induction =>
      have other : deName cursor.terminated cursor.place ≠ unit := by
        intro same
        have length := congrArg List.length same
        have few := (cursor.terminated (cursor.place + 6)).toNat_lt
        rw [deName, length_slice, deNameLen] at length
        omega
      rw [scanRecords, if_neg other]
      by_cases goesOn : cursor.goesOn size bound = true
      · rw [if_pos goesOn]
        simp only [Cursor.goesOn, decide_eq_true_eq] at goesOn
        have recLen := deRecLen_lt cursor.next.buff cursor.next.place
        have sum : cursor.next.len = cursor.len +
            deRecLen cursor.next.buff cursor.next.place := by
          apply add32_of_lt
          change cursor.len + deRecLen cursor.next.buff cursor.next.place < _
          omega
        by_cases stops : deRecLen cursor.next.buff cursor.next.place = 0
        · have halted : cursor.next.goesOn size bound = false := by
            simp [Cursor.goesOn, stops]
          cases fuel with
          | zero => omega
          | succ fuel =>
              exact ⟨cursor.next, by rw [scanRecords, halted]; rfl⟩
        · exact induction _ (by omega)
      · rw [if_neg goesOn]
        exact ⟨cursor, rfl⟩

theorem scanBlocks_long {size blockSize count : Nat}
    {readBlock : Nat → List UInt8} {unit : List UInt8}
    (whole : count * blockSize + 2 ^ 16 ≤ 2 ^ 32)
    (long : 255 < unit.length) {left i : Nat} (position : i + left = count)
    (buff : Nat → UInt8) (len : Nat) :
    scanBlocks size blockSize readBlock unit left i buff len = some 0 := by
  induction left generalizing i buff len with
  | zero => rfl
  | succ left induction =>
      have below : (i + 1) * blockSize ≤ count * blockSize :=
        Nat.mul_le_mul_right _ (by omega)
      have bound : (i + 1) * blockSize % 2 ^ 32 = (i + 1) * blockSize :=
        Nat.mod_eq_of_lt (by omega)
      have enough : (i + 1) * blockSize - len < 2 ^ 32 := by omega
      obtain ⟨final, scanned⟩ := scanRecords_long size (by omega) long
        ⟨overlay (readBlock i) buff, 0, len⟩ enough
      rw [scanBlocks, bound, scanned]
      exact induction (by omega) _ _

/-- A search for a name that is longer than any in a record goes to the end of
the directory, and `len` counts that far. -/
def CountsTo (size : Nat) (name : List UInt8) : Prop :=
  255 < name.length → size + 2 ^ 16 ≤ 2 ^ 32

/-- Blocks of whole records in a file of their size, and a name for which the
search comes to an end. -/
structure Searchable (blocks : Nat → Nat → UInt8) (blockSize size count : Nat)
    (name : List UInt8) : Prop where
  positive : 0 < blockSize
  short : blockSize ≤ 2 ^ 16
  total : blocksOf size blockSize = count
  whole : size = count * blockSize
  tiled : ∀ i < count, Tiled (blocks i) blockSize
  unique : UniqueNames (dirRecords blocks blockSize count)
  counts : CountsTo size name

/-- There is nothing to find, or the first block has it. -/
def FoundFirst (blocks : Nat → Nat → UInt8) (blockSize count : Nat)
    (name : List UInt8) : Prop :=
  count = 0 ∨ 255 < name.length ∨
    FirstBlockHas (dirRecords blocks blockSize count)
      (blockRecords (blocks 0) blockSize 0) name

theorem blockRecords_subset (blocks : Nat → Nat → UInt8) (blockSize : Nat)
    {count : Nat} (positive : 0 < count) :
    blockRecords (blocks 0) blockSize 0 ⊆
      dirRecords blocks blockSize count := by
  obtain ⟨left, rfl⟩ := Nat.exists_eq_succ_of_ne_zero (Nat.ne_of_gt positive)
  rw [dirRecords, recordsFrom_succ, Nat.zero_mul]
  exact List.subset_append_left _ _

theorem length_dirRecord_name {blocks : Nat → Nat → UInt8}
    {blockSize count : Nat} {record : DirRecord}
    (member : record ∈ dirRecords blocks blockSize count) :
    record.name.length ≤ 255 := by
  obtain ⟨i, _, inBlock⟩ := List.mem_flatMap.mp member
  obtain ⟨place, _, rfl⟩ := List.mem_map.mp inBlock
  have few := (blocks i (place + 6)).toNat_lt
  change (slice _ _ (deNameLen _ _)).length ≤ 255
  rw [length_slice, deNameLen]
  omega

section Search

variable {blocks : Nat → Nat → UInt8} {blockSize size count : Nat}
  {name : List UInt8} (search : Searchable blocks blockSize size count name)
  {readBlock : Nat → List UInt8}

include search

theorem Searchable.long (long : 255 < name.length) (stack : Nat → UInt8) :
    inodeByName size blockSize readBlock stack name = some 0 := by
  have counts := search.counts long
  rw [search.whole] at counts
  rw [inodeByName, search.total]
  exact scanBlocks_long counts long (Nat.zero_add _) stack 0

theorem Searchable.findsEntry_long (long : 255 < name.length)
    (stack : Nat → UInt8) :
    FindsEntry (dirRecords blocks blockSize count) name
      (inodeByName size blockSize readBlock stack name) := by
  refine ⟨0, search.long long _, ⟨fun _ record member same => ?_,
    fun _ => rfl⟩, fun inUse => absurd rfl inUse⟩
  have few := length_dirRecord_name member
  rw [same] at few
  exact absurd few (Nat.not_le_of_lt long)

theorem Searchable.findsEntry_empty (empty : count = 0)
    (stack : Nat → UInt8) :
    FindsEntry (dirRecords blocks blockSize count) name
      (inodeByName size blockSize readBlock stack name) := by
  have none : dirRecords blocks blockSize count = [] := by
    rw [empty]
    rfl
  have returned : inodeByName size blockSize readBlock stack name =
      some 0 := by
    rw [inodeByName, search.total, empty]
    rfl
  rw [none]
  exact ⟨0, returned, by simp, by simp⟩

variable (positive : 0 < count)
  (reads : readBlock 0 = slice (blocks 0) 0 blockSize)

include positive reads

theorem Searchable.inodeByName_first (stack : Nat → UInt8) {ino : Nat}
    (scanned : scanRecords size blockSize name (2 ^ 32)
      ⟨overlay (slice (blocks 0) 0 blockSize) stack, 0, 0⟩ =
        some (.found ino)) :
    inodeByName size blockSize readBlock stack name = some ino := by
  obtain ⟨left, rfl⟩ := Nat.exists_eq_succ_of_ne_zero (Nat.ne_of_gt positive)
  have short := search.short
  have bound : (0 + 1) * blockSize % 2 ^ 32 = blockSize := by omega
  rw [inodeByName, search.total, scanBlocks, bound, reads, scanned]

omit reads in
theorem Searchable.block_le : blockSize ≤ size := by
  rw [search.whole]
  exact Nat.le_mul_of_pos_left _ positive

theorem Searchable.found {ino : Nat}
    (found : searchRecords name none
      (blockRecords (blocks 0) blockSize 0) = some ino)
    (stack : Nat → UInt8) :
    inodeByName size blockSize readBlock stack name = some ino := by
  have few := length_placesFrom (blocks 0) blockSize blockSize 0
  have short := search.short
  have tiled := search.tiled 0 positive
  have whole := search.block_le positive
  have start : Walks (blocks 0) stack blockSize none _ :=
    walks_start search.positive tiled
  have scan := start.scan tiled short whole name
    (Nat.le_of_eq (Nat.sub_zero blockSize))
  rw [blockRecords] at found
  rw [found] at scan
  obtain ⟨left, enough⟩ := Nat.exists_eq_add_of_le
    (Nat.le_trans few (Nat.le_trans short (by decide : 2 ^ 16 ≤ 2 ^ 32)))
  apply search.inodeByName_first positive reads
  rw [enough]
  exact scan left

/-- What is returned is on the stack if no record of the first block has the
name. -/
theorem Searchable.leftOver (few : name.length ≤ 255)
    (missing : searchRecords name none
      (blockRecords (blocks 0) blockSize 0) = none) (number : UInt8) :
    inodeByName size blockSize readBlock (leftStack blockSize number name)
      name = some (256 * number.toNat) := by
  have places := length_placesFrom (blocks 0) blockSize blockSize 0
  have short := search.short
  have tiled := search.tiled 0 positive
  have whole := search.block_le positive
  have start : Walks (blocks 0) (leftStack blockSize number name) blockSize
      none _ := walks_start search.positive tiled
  have scan := start.scan tiled short whole name
    (Nat.le_of_eq (Nat.sub_zero blockSize))
  rw [blockRecords] at missing
  rw [missing] at scan
  obtain ⟨last, final, walks, ended, goesOn⟩ := scan
  obtain ⟨left, enough⟩ := Nat.exists_eq_add_of_lt
    (Nat.lt_of_le_of_lt (Nat.le_trans places short)
      (by decide : 2 ^ 16 < 2 ^ 32))
  apply search.inodeByName_first positive reads
  rw [enough, Nat.add_assoc, goesOn]
  exact scan_leftStack walks ended few tiled whole left

end Search

section Decide

variable {blocks : Nat → Nat → UInt8} {blockSize size count : Nat}
  {name : List UInt8} (search : Searchable blocks blockSize size count name)
  {readBlock : Vfs.Scratch → Nat → List UInt8}
  (reads : 0 < count → ∀ scratch,
    readBlock scratch 0 = slice (blocks 0) 0 blockSize)

include search reads

/-- A name that is not in the first block is found on the stack, with any
number. -/
theorem Searchable.named (positive : 0 < count) (few : name.length ≤ 255)
    (finds : ∀ scratch : Vfs.Scratch,
      FindsEntry (dirRecords blocks blockSize count) name
        (inodeByName size blockSize (readBlock scratch) scratch.stack name)) :
    searchRecords name none (blockRecords (blocks 0) blockSize 0) ≠ none := by
  intro missing
  have entry (number : UInt8) (inUse : 256 * number.toNat ≠ 0) :
      ∃ record ∈ dirRecords blocks blockSize count, record.name = name ∧
        record.ino = 256 * number.toNat := by
    let scratch : Vfs.Scratch :=
      ⟨leftStack blockSize number name, fun _ => 0, fun _ => 0, true⟩
    have returned := search.leftOver positive (reads positive scratch) few
      missing number
    obtain ⟨ino, found, _, exists'⟩ := finds scratch
    rw [returned] at found
    obtain rfl := Option.some.inj found
    exact exists' inUse
  obtain ⟨first, firstIn, firstName, one⟩ := entry 1 (by decide)
  obtain ⟨second, secondIn, secondName, two⟩ := entry 2 (by decide)
  have same := search.unique first firstIn second secondIn
    (by rw [one]; decide) (by rw [two]; decide)
    (firstName.trans secondName.symm)
  rw [same, two] at one
  exact absurd one (by decide)

/-- The names that are found in a directory, whatever the stack holds. -/
theorem Searchable.findsEntry_iff :
    (∀ scratch : Vfs.Scratch,
      FindsEntry (dirRecords blocks blockSize count) name
        (inodeByName size blockSize (readBlock scratch) scratch.stack
          name)) ↔
      FoundFirst blocks blockSize count name := by
  constructor
  · intro finds
    by_cases empty : count = 0
    · exact .inl empty
    have positive := Nat.pos_of_ne_zero empty
    by_cases long : 255 < name.length
    · exact .inr (.inl long)
    have named := search.named reads positive (Nat.le_of_not_lt long) finds
    obtain ⟨ino, found⟩ := Option.ne_none_iff_exists'.mp named
    let scratch : Vfs.Scratch :=
      ⟨fun _ => 0, fun _ => 0, fun _ => 0, true⟩
    have right := finds scratch
    rw [search.found positive (reads positive scratch) found] at right
    exact .inr (.inr ((Fs.findsEntry_iff search.unique
      (blockRecords_subset blocks blockSize positive) found).mp right))
  · intro first scratch
    by_cases empty : count = 0
    · exact search.findsEntry_empty empty scratch.stack
    by_cases long : 255 < name.length
    · exact search.findsEntry_long long scratch.stack
    have positive := Nat.pos_of_ne_zero empty
    have has := (first.resolve_left empty).resolve_left long
    obtain ⟨before, record, after, split, others, isName, -⟩ := id has
    have found := searchRecords_first others isName none after
    rw [← split] at found
    rw [search.found positive (reads positive scratch) found]
    exact (Fs.findsEntry_iff search.unique
      (blockRecords_subset blocks blockSize positive) found).mpr has

end Decide

end Witos.Fs
