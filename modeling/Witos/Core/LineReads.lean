import Witos.Core.SysconfLookup
import Witos.Stdio.FormatText

/-!
# Scanning the configuration

`_syscfg_read_line` of `core/sysconf.c`, called until there are no more data,
on a memory in which the text is from `data` on.  An `int` has 32 bits, as a
`size_t`.
-/

namespace Witos.Core

open Stdio (toInt32 toInt32_of_range)

/-- So many bytes from a place on. -/
def bytesAt (mem : Int → UInt8) (place : Int) (count : Nat) : List UInt8 :=
  (List.range count).map fun index : Nat => mem (place + index)

theorem bytesAt_succ (mem : Int → UInt8) (place : Int) (count : Nat) :
    bytesAt mem place (count + 1) =
      mem place :: bytesAt mem (place + 1) count := by
  rw [bytesAt, List.range_succ_eq_map, List.map_cons, List.map_map, bytesAt]
  congr 1
  · rw [Int.natCast_zero, Int.add_zero]
  · apply List.map_congr_left
    intro index _
    rw [Function.comp_apply, Int.natCast_succ]
    congr 1
    omega

theorem bytesAt_add (mem : Int → UInt8) (place : Int) (count more : Nat) :
    bytesAt mem place (count + more) =
      bytesAt mem place count ++ bytesAt mem (place + count) more := by
  induction count generalizing place with
  | zero =>
      rw [Nat.zero_add, Int.natCast_zero, Int.add_zero]
      rfl
  | succ count induction =>
      have place' : place + 1 + count = place + (count + 1 : Nat) := by omega
      rw [Nat.succ_add, bytesAt_succ, bytesAt_succ, induction, place',
        List.cons_append]

/-- The loop: the bytes from a place on, up to a newline. -/
def lineFrom (mem : Int → UInt8) (place : Int) : Nat → List UInt8
  | 0 => []
  | room + 1 =>
      if mem place = newline then []
      else mem place :: lineFrom mem (place + 1) room

/-- A line, whether it ended at a newline, and `cfg->offset` before and behind
it. -/
structure LineRead where
  line : List UInt8
  ended : Bool
  start : Int
  offset : Int

/-- `_syscfg_read_line`; `none` is `-ENODATA`. -/
def readLineAt (mem : Int → UInt8) (size lineLen : Nat) (offset : Int) :
    Option LineRead :=
  let rest := (size - offset) % 2 ^ 32
  if rest = 0 then none
  else
    let line := lineFrom mem offset (min rest.toNat (lineLen - 1))
    let ended : Bool := mem (offset + line.length) = newline
    some ⟨line, ended, offset,
      toInt32 (offset + (line.length + if ended then 1 else 0))⟩

/-- The places that were read, counted from `data`: those of the line, and the
one behind it. -/
def LineRead.places (read : LineRead) : List Int :=
  (List.range (read.line.length + 1)).map
    fun index : Nat => read.start + index

/-- What was read of the text. -/
def LineRead.text (read : LineRead) : List UInt8 :=
  read.line ++ if read.ended then [newline] else []

/-- Calls that return lines, from an offset to another. -/
inductive Scan (mem : Int → UInt8) (size lineLen : Nat) :
    Int → List LineRead → Int → Prop
  | nil (offset : Int) : Scan mem size lineLen offset [] offset
  | call {offset last : Int} {read : LineRead} {later : List LineRead}
      (returns : readLineAt mem size lineLen offset = some read)
      (scan : Scan mem size lineLen read.offset later last) :
      Scan mem size lineLen offset (read :: later) last

/-- Every scan stays inside of the text, and one of them reads all of it, after
which there are no more data. -/
structure ScansInside (mem : Int → UInt8) (size lineLen : Nat) : Prop where
  offsets : ∀ {reads last}, Scan mem size lineLen 0 reads last →
    0 ≤ last ∧ last ≤ size
  places : ∀ {reads last}, Scan mem size lineLen 0 reads last →
    ∀ read ∈ reads, ∀ place ∈ read.places, 0 ≤ place ∧ place < size
  ends : ∃ reads last, Scan mem size lineLen 0 reads last ∧
    readLineAt mem size lineLen last = none ∧
      reads.flatMap LineRead.text = bytesAt mem 0 size

/-- The text is empty, or its last byte is a newline and its size is an
`int`. -/
def FinalNewline (mem : Int → UInt8) (size : Nat) : Prop :=
  size = 0 ∨ mem ((size - 1 : Nat) : Int) = newline ∧ size < 2 ^ 31

section Calls

variable {mem : Int → UInt8} {size lineLen : Nat}

theorem lineFrom_length_le (place : Int) (room : Nat) :
    (lineFrom mem place room).length ≤ room := by
  induction room generalizing place with
  | zero => exact Nat.le_refl 0
  | succ room induction =>
      rw [lineFrom]
      split
      · exact Nat.zero_le _
      · exact Nat.succ_le_succ (induction _)

theorem lineFrom_eq (place : Int) (room : Nat) :
    lineFrom mem place room =
      bytesAt mem place (lineFrom mem place room).length := by
  induction room generalizing place with
  | zero => rfl
  | succ room induction =>
      rw [lineFrom]
      split
      · rfl
      · rw [List.length_cons, bytesAt_succ, ← induction]

theorem lineFrom_stops (place : Int) (room : Nat) :
    (lineFrom mem place room).length = room ∨
      mem (place + (lineFrom mem place room).length) = newline := by
  induction room generalizing place with
  | zero => exact Or.inl rfl
  | succ room induction =>
      rw [lineFrom]
      split
      · rename_i ends
        exact Or.inr (by simpa using ends)
      · rw [List.length_cons]
        rcases induction (place + 1) with full | ends
        · exact Or.inl (congrArg Nat.succ full)
        · refine Or.inr ?_
          rw [Int.natCast_succ, ← ends]
          congr 1
          omega

theorem lineFrom_ne_newline (place : Int) (room : Nat) {char : UInt8}
    (member : char ∈ lineFrom mem place room) : char ≠ newline := by
  induction room generalizing place with
  | zero => cases member
  | succ room induction =>
      rw [lineFrom] at member
      split at member
      · cases member
      · rename_i other
        rcases List.mem_cons.mp member with rfl | later
        · exact other
        · exact induction _ later

theorem readLineAt_end (offset : Int) :
    readLineAt mem size lineLen offset = none ↔
      (size - offset) % 2 ^ 32 = 0 := by
  unfold readLineAt
  dsimp only
  constructor
  · intro none
    by_contra more
    rw [if_neg more] at none
    cases none
  · intro done
    rw [if_pos done]

/-- What a call does inside of a text that ends with a newline. -/
structure Advances (mem : Int → UInt8) (size start : Nat) (read : LineRead)
    (count : Nat) : Prop where
  positive : 0 < count
  fits : start + count ≤ size
  offset : read.offset = (start + count : Nat)
  text : read.text = bytesAt mem start count
  starts : read.start = start
  inside : start + read.line.length < size

theorem readLineAt_advances (long : 2 ≤ lineLen) (small : size < 2 ^ 31)
    (ends : mem ((size - 1 : Nat) : Int) = newline) {start : Nat}
    (within : start < size) :
    ∃ read, readLineAt mem size lineLen start = some read ∧
      ∃ count, Advances mem size start read count := by
  have rest : ((size : Int) - start) % 2 ^ 32 = (size - start : Nat) := by
    omega
  have more : ((size - start : Nat) : Int) ≠ 0 := by omega
  have room : 1 ≤ min (size - start) (lineLen - 1) := by omega
  unfold readLineAt
  dsimp only
  rw [rest, if_neg more, Int.toNat_natCast]
  refine ⟨_, rfl, ?_⟩
  have bounded := @lineFrom_length_le mem start
    (min (size - start) (lineLen - 1))
  have stored := @lineFrom_eq mem start
    (min (size - start) (lineLen - 1))
  have stops := @lineFrom_stops mem start
    (min (size - start) (lineLen - 1))
  have other := @lineFrom_ne_newline mem start
    (min (size - start) (lineLen - 1))
  generalize lineFrom mem start (min (size - start) (lineLen - 1)) = line at *
  have inside : start + line.length < size := by
    by_contra outside
    have last : mem ((size - 1 : Nat) : Int) ∈ line := by
      rw [stored]
      refine List.mem_map.mpr ⟨size - 1 - start, ?_, ?_⟩
      · exact List.mem_range.mpr (by omega)
      · congr 1
        omega
    exact other last ends
  by_cases ended : mem (start + line.length) = newline
  · refine ⟨line.length + 1, by omega, by omega, ?_, ?_, rfl, inside⟩
    · simp only [ended, decide_true, if_true]
      rw [toInt32_of_range (by omega) (by omega)]
      omega
    · rw [LineRead.text]
      simp only [ended, decide_true, if_true]
      rw [bytesAt_add, ← stored, bytesAt_succ, ended]
      rfl
  · have full := stops.resolve_right ended
    refine ⟨line.length, by omega, by omega, ?_, ?_, rfl, inside⟩
    · simp only [ended, decide_false, Bool.false_eq_true, if_false]
      rw [toInt32_of_range (by omega) (by omega)]
      omega
    · rw [LineRead.text]
      simp only [ended, decide_false, Bool.false_eq_true, if_false]
      rw [List.append_nil]
      exact stored

/-- From a place inside of the text the calls read what is left of it. -/
theorem exists_scan (long : 2 ≤ lineLen) (small : size < 2 ^ 31)
    (ends : mem ((size - 1 : Nat) : Int) = newline) (left start : Nat)
    (isLeft : start + left = size) :
    ∃ reads, Scan mem size lineLen start reads size ∧
      reads.flatMap LineRead.text = bytesAt mem start left := by
  induction left using Nat.strong_induction_on generalizing start with
  | _ left induction =>
      rcases Nat.eq_zero_or_pos left with rfl | positive
      · rw [Nat.add_zero] at isLeft
        rw [isLeft]
        exact ⟨[], .nil _, rfl⟩
      · have within : start < size := by omega
        obtain ⟨read, returns, count, advances⟩ :=
          readLineAt_advances long small ends within
        have fits := advances.fits
        have nonempty := advances.positive
        obtain ⟨reads, scan, text⟩ := induction (left - count) (by omega)
          (start + count) (by omega)
        rw [← advances.offset] at scan
        refine ⟨read :: reads, .call returns scan, ?_⟩
        have parts : left = count + (left - count) := by omega
        rw [List.flatMap_cons, advances.text, text]
        conv_rhs => rw [parts, bytesAt_add]
        rw [Int.natCast_add]

theorem scan_inside (long : 2 ≤ lineLen) (small : size < 2 ^ 31)
    (ends : mem ((size - 1 : Nat) : Int) = newline) {offset last : Int}
    {reads : List LineRead} (scan : Scan mem size lineLen offset reads last)
    {start : Nat} (isStart : offset = start) (within : start ≤ size) :
    (0 ≤ last ∧ last ≤ size) ∧
      ∀ read ∈ reads, ∀ place ∈ read.places, 0 ≤ place ∧ place < size := by
  induction scan generalizing start with
  | nil offset =>
      exact ⟨by omega, fun read member => absurd member List.not_mem_nil⟩
  | @call offset last read later returns scan induction =>
      have more : start < size := by
        by_contra atEnd
        have none : readLineAt mem size lineLen offset = none := by
          rw [readLineAt_end]
          omega
        rw [none] at returns
        cases returns
      obtain ⟨again, same, count, advances⟩ :=
        readLineAt_advances long small ends more
      rw [← isStart, returns] at same
      obtain rfl := Option.some.inj same
      obtain ⟨bounds, others⟩ := induction advances.offset advances.fits
      refine ⟨bounds, List.forall_mem_cons.mpr ⟨?_, others⟩⟩
      intro place member
      obtain ⟨index, isIndex, rfl⟩ := List.mem_map.mp member
      have below := List.mem_range.mp isIndex
      have inside := advances.inside
      rw [advances.starts]
      omega

theorem readLineAt_some {offset : Int} {read : LineRead}
    (returns : readLineAt mem size lineLen offset = some read) :
    read.start = offset ∧
      read.offset = toInt32 (offset + (read.line.length +
        if read.ended then 1 else 0)) ∧
      (read.ended = true ↔
        mem (offset + read.line.length) = newline) := by
  unfold readLineAt at returns
  dsimp only at returns
  split at returns
  · cases returns
  · obtain rfl := Option.some.inj returns
    refine ⟨rfl, ?_, by simp⟩
    dsimp only

theorem scan_int {offset last : Int} {reads : List LineRead}
    (scan : Scan mem size lineLen offset reads last)
    (int : offset < 2 ^ 31) : last < 2 ^ 31 := by
  induction scan with
  | nil offset => exact int
  | call returns _ induction =>
      apply induction
      rw [(readLineAt_some returns).2.1]
      rw [toInt32, Int.bmod_def]
      omega

/-- The last byte of a text that was read without leaving it. -/
theorem newline_of_scan {offset last : Int} {reads : List LineRead}
    (scan : Scan mem size lineLen offset reads last)
    (inside : ∀ read ∈ reads, ∀ place ∈ read.places, 0 ≤ place ∧ place < size)
    (small : size < 2 ^ 31) (atEnd : last = size) (before : offset < size) :
    mem ((size - 1 : Nat) : Int) = newline := by
  induction scan with
  | nil offset => omega
  | @call offset last read later returns scan induction =>
      obtain ⟨starts, next, ended⟩ := readLineAt_some returns
      obtain ⟨first, others⟩ := List.forall_mem_cons.mp inside
      have isPlace (index : Nat) (below : index ≤ read.line.length) :
          0 ≤ offset + index ∧ offset + index < size := by
        rw [← starts]
        exact first _ (List.mem_map.mpr
          ⟨index, List.mem_range.mpr (by omega), rfl⟩)
      have low := isPlace 0 (Nat.zero_le _)
      have high := isPlace read.line.length (Nat.le_refl _)
      cases isEnded : read.ended with
      | false =>
          rw [isEnded, if_neg (by decide),
            toInt32_of_range (by omega) (by omega)] at next
          exact induction others atEnd (by omega)
      | true =>
          rw [isEnded, if_pos rfl,
            toInt32_of_range (by omega) (by omega)] at next
          by_cases more : read.offset < size
          · exact induction others atEnd more
          · have isNewline := ended.mp isEnded
            have place : ((size - 1 : Nat) : Int) =
                offset + read.line.length := by omega
            rw [place]
            exact isNewline

theorem scan_empty {last : Int} {reads : List LineRead}
    (scan : Scan mem 0 lineLen 0 reads last) : reads = [] ∧ last = 0 := by
  cases scan with
  | nil => exact ⟨rfl, rfl⟩
  | call returns _ =>
      have none : readLineAt mem 0 lineLen 0 = none := by
        rw [readLineAt_end]
        rfl
      rw [none] at returns
      cases returns

end Calls

/-- A configuration is scanned inside of its text exactly if it is empty, or
its last byte is a newline and its size is an `int`. -/
theorem scansInside_iff {mem : Int → UInt8} {size : Nat} (word : size < 2 ^ 32)
    {lineLen : Nat} (long : 2 ≤ lineLen) :
    ScansInside mem size lineLen ↔ FinalNewline mem size := by
  constructor
  · intro inside
    obtain ⟨reads, last, scan, none, text⟩ := inside.ends
    obtain ⟨low, high⟩ := inside.offsets scan
    have int := scan_int scan (by decide)
    rw [readLineAt_end] at none
    have atEnd : last = size := by omega
    rcases Nat.eq_zero_or_pos size with empty | positive
    · exact Or.inl empty
    · refine Or.inr ⟨?_, by omega⟩
      exact newline_of_scan scan (inside.places scan) (by omega) atEnd
        (by omega)
  · rintro (rfl | ⟨ends, small⟩)
    · refine ⟨?_, ?_, [], 0, .nil 0, ?_, rfl⟩
      · intro reads last scan
        obtain ⟨-, rfl⟩ := scan_empty scan
        exact ⟨Int.le_refl 0, Int.le_refl 0⟩
      · intro reads last scan
        obtain ⟨rfl, -⟩ := scan_empty scan
        exact fun read member => absurd member List.not_mem_nil
      · rw [readLineAt_end]
        rfl
    · obtain ⟨reads, scan, text⟩ :=
        exists_scan long small ends size 0 (Nat.zero_add size)
      refine ⟨?_, ?_, reads, size, scan, ?_, text⟩
      · intro reads last scan
        exact (scan_inside long small ends scan rfl (Nat.zero_le size)).1
      · intro reads last scan
        exact (scan_inside long small ends scan rfl (Nat.zero_le size)).2
      · rw [readLineAt_end, Int.sub_self]
        rfl

/-- The lines `a=bc` and `d=e`. -/
def twoLines (place : Int) : UInt8 :=
  [0x61, 0x3d, 0x62, 0x63, newline, 0x64, 0x3d, 0x65, newline].getD
    place.toNat 0

/-- The first line is longer than the buffer. -/
theorem scansInside_twoLines : ScansInside twoLines 9 4 :=
  (scansInside_iff (by decide) (by decide)).mpr (.inr ⟨rfl, by decide⟩)

/-- A single character. -/
theorem not_scansInside :
    ¬∀ (mem : Int → UInt8) (size lineLen : Nat), size < 2 ^ 32 →
      2 ≤ lineLen → ScansInside mem size lineLen := by
  intro always
  have inside := always (fun _ => 0x61) 1 2 (by decide) (by decide)
  have returns : readLineAt (fun _ => 0x61) 1 2 0 =
      some ⟨[0x61], false, 0, 1⟩ := by
    rfl
  have place := (inside.places (.call returns (.nil 1)) _ List.mem_cons_self 1
    (by decide)).2
  exact absurd place (by decide)

/-- The reading of `Sysconfig` is the same where a text is an `int` long. -/
theorem lineFrom_eq_readChars (mem : Int → UInt8) (place : Int)
    (count room : Nat) :
    lineFrom mem place (min count room) =
      readChars room (bytesAt mem place count) := by
  induction count generalizing place room with
  | zero => cases room <;> simp [lineFrom, readChars, bytesAt]
  | succ count induction =>
      cases room with
      | zero => simp [lineFrom, readChars]
      | succ room =>
          rw [Nat.succ_min_succ, lineFrom, bytesAt_succ, readChars, induction]

theorem bytesAt_length (mem : Int → UInt8) (place : Int) (count : Nat) :
    (bytesAt mem place count).length = count := by
  rw [bytesAt, List.length_map, List.length_range]

theorem bytesAt_getD (mem : Int → UInt8) (place : Int) {count index : Nat}
    (within : index ≤ count) :
    (bytesAt mem place count).getD index (mem (place + count)) =
      mem (place + index) := by
  rw [List.getD_eq_getElem?_getD]
  rcases Nat.lt_or_eq_of_le within with inside | rfl
  · simp [bytesAt, inside]
  · rw [List.getElem?_eq_none (by rw [bytesAt_length])]
    rfl

theorem readLineAt_refines {mem : Int → UInt8} {cfg : Sysconfig} {start : Nat}
    (text : cfg.text = bytesAt mem 0 cfg.text.length)
    (behind : cfg.behind = mem cfg.text.length)
    (small : cfg.text.length + 1 < 2 ^ 31) (within : start < cfg.text.length)
    (room : Nat) :
    ∃ read, readLineAt mem cfg.text.length room start = some read ∧
      syscfgReadLine (cfg.seek start) room =
        .value (read.line, cfg.seek read.offset) := by
  have parts : bytesAt mem 0 cfg.text.length = bytesAt mem 0 start ++
      bytesAt mem start (cfg.text.length - start) := by
    have sum : cfg.text.length = start + (cfg.text.length - start) := by
      omega
    conv_lhs => rw [sum, bytesAt_add, Int.zero_add]
  have dropped : cfg.text.drop start =
      bytesAt mem start (cfg.text.length - start) := by
    calc cfg.text.drop start
        = (bytesAt mem 0 cfg.text.length).drop start :=
          congrArg (List.drop start) text
      _ = bytesAt mem start (cfg.text.length - start) := by
          rw [parts, List.drop_left' (bytesAt_length mem 0 start)]
  have rest : ((cfg.text.length : Int) - start) % 2 ^ 32 =
      (cfg.text.length - start : Nat) := by
    omega
  have more : ((cfg.text.length - start : Nat) : Int) ≠ 0 := by omega
  have last : cfg.behind =
      mem (start + (cfg.text.length - start : Nat)) := by
    rw [behind]
    congr 1
    omega
  have bounded := @lineFrom_length_le mem start
    (min (cfg.text.length - start) (room - 1))
  rw [readLine_at within]
  unfold readLineAt
  dsimp only
  rw [rest, if_neg more, Int.toNat_natCast, dropped, last,
    ← lineFrom_eq_readChars]
  refine ⟨_, rfl, ?_⟩
  rw [bytesAt_getD mem start (by omega)]
  generalize lineFrom mem start (min (cfg.text.length - start) (room - 1)) =
    line at bounded ⊢
  by_cases ended : mem (start + line.length) = newline
  · simp only [ended, decide_true, if_true]
    rw [toInt32_of_range (by omega) (by omega), Int.add_assoc]
  · simp only [ended, decide_false, Bool.false_eq_true, if_false]
    rw [toInt32_of_range (by omega) (by omega), Int.add_assoc]

end Witos.Core
