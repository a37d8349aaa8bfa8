import Mathlib.Data.List.Nodup
import Witos.Library.Word
import Witos.Strings.IsoStrings

/-!
# Names and values

The attributes of a file are records in a buffer behind its header: the size of
the record, the name with its terminator and the value.  The records begin at
the start of the buffer, and a size that is not positive ends them.
-/

namespace Witos.Fs

open Witos.Library Witos.Strings

/-- `memcpy(&size, xb + pos, sizeof(int));` -/
def nvalSizeAt (xb : Nat → UInt8) (pos : Nat) : Int :=
  signed32 (leValue (slice xb pos 4))

/-- The size that a loop goes on with; `n` is the size of the buffer. -/
def nvalNextSize (xb : Nat → UInt8) (n pos : Nat) : Int :=
  if pos < sub32 n 4 then nvalSizeAt xb pos else 0

/-- The string at a place, of which a number of characters is read. -/
def textAt (xb : Nat → UInt8) (pos count : Nat) : List UInt8 :=
  (slice xb pos count).takeWhile (· != 0)

/-- The loop of `nval_find`: the place of the record and its size. -/
def nvalFindLoop (xb : Nat → UInt8) (n : Nat) (name : List UInt8) (pos : Nat)
    (size : Int) : Option (Nat × Nat) :=
  if 0 < size ∧ size < n ∧ pos + size < n then
    if strncmp (textAt xb (pos + 4) size.toNat) name size.toNat = 0 then
      some (pos, size.toNat)
    else
      nvalFindLoop xb n name (pos + size.toNat)
        (nvalNextSize xb n (pos + size.toNat))
  else none
termination_by n - pos

def nvalFind (xb : Nat → UInt8) (n : Nat) (name : List UInt8) :
    Option (Nat × Nat) :=
  nvalFindLoop xb n name 0 (nvalSizeAt xb 0)

/-- The loop of `nval_used`. -/
def nvalUsedLoop (xb : Nat → UInt8) (n pos : Nat) (size : Int) : Nat :=
  if 0 < size ∧ size < n ∧ pos + size < n then
    nvalUsedLoop xb n (pos + size.toNat)
      (nvalNextSize xb n (pos + size.toNat))
  else pos
termination_by n - pos

def nvalUsed (xb : Nat → UInt8) (n : Nat) : Nat :=
  nvalUsedLoop xb n 0 (nvalSizeAt xb 0)

def nvalHasvalues (xb : Nat → UInt8) (n : Nat) : Bool :=
  0 < nvalUsed xb n

/-- `while (xb[pos] && size > 0 && pos < xb_size)` -/
def nvalSkipName (xb : Nat → UInt8) (n pos : Nat) (size : Int) : Nat × Int :=
  if xb pos ≠ 0 ∧ 0 < size ∧ pos < n then
    nvalSkipName xb n (pos + 1) (size - 1)
  else (pos, size)
termination_by n - pos

/-- What is returned, and the bytes that are copied. -/
def nvalGet (xb : Nat → UInt8) (n : Nat) (name : List UInt8) (bsize : Nat) :
    Int × List UInt8 :=
  match nvalFind xb n name with
  | none => (-61, [])
  | some (pos, _) =>
      let (pos, size) := nvalSkipName xb n (pos + 4) (nvalSizeAt xb pos - 4)
      let pos := pos + 1
      let size := size - 1
      if bsize = 0 then (size, [])
      else if size ≤ bsize then (size, slice xb pos size.toNat)
      else (-34, [])

/-- The loop of `nval_list`: the names that are copied, each with its
terminator.  `sizeof(int)` has no sign, so a negative size goes on as well. -/
def nvalListLoop (xb : Nat → UInt8) (n bsize pos : Nat) (size : Int)
    (copied : List UInt8) : List UInt8 :=
  if 4 < size % 2 ^ 32 ∧ size ≤ n ∧ pos + size < n then
    let name := textAt xb (pos + 4) ((size - 4) % 2 ^ 32).toNat
    if copied.length + name.length + 1 < bsize then
      nvalListLoop xb n bsize (pos + size).toNat
        (if pos + size < 0 then 0 else nvalNextSize xb n (pos + size).toNat)
        (copied ++ (name ++ [0]))
    else copied
  else copied
termination_by bsize - copied.length
decreasing_by simp; omega

def nvalList (xb : Nat → UInt8) (n bsize : Nat) : Int × List UInt8 :=
  let copied := nvalListLoop xb n bsize 0 (nvalSizeAt xb 0) []
  (copied.length, copied)

/-- What is returned, and the memory. -/
def nvalDel (xb : Nat → UInt8) (n : Nat) (name : List UInt8) :
    Int × (Nat → UInt8) :=
  match nvalFind xb n name with
  | none => (-61, xb)
  | some (pos, _) =>
      let size := (nvalSizeAt xb pos).toNat
      -- the rest is shifted over the record
      let xb := overlayAt pos (slice xb (pos + size) (n - (pos + size))) xb
      (0, overlayAt (n - size) (List.replicate size 0) xb)

def nvalSet (xb : Nat → UInt8) (n : Nat) (name buf : List UInt8)
    (flags : Nat) : Int × (Nat → UInt8) :=
  let namelen := strnlen name n
  let found := nvalFind xb n name
  let sizeExist := (found.map Prod.snd).getD 0
  if flags &&& 1 ≠ 0 ∧ found.isSome then (-17, xb)
  else if flags &&& 2 ≠ 0 ∧ found.isNone then (-61, xb)
  else
    let space : Int := n - nvalUsed xb n + sizeExist
    let reclen := (4 + namelen + 1 + buf.length) % 2 ^ 32
    if space < signed32 reclen then (-28, xb)
    else
      let xb := if found.isSome then (nvalDel xb n name).2 else xb
      let start := nvalUsed xb n
      let xb := overlayAt start (leBytes 4 reclen) xb
      -- the count of `strncpy` is the size of the whole record
      let xb := (strncpy (start + 4) name reclen xb).2
      (0, overlayAt (start + 4 + (namelen + 1)) buf xb)

structure NameValue where
  name : CStr
  value : List UInt8

def NameValue.size (entry : NameValue) : Nat :=
  4 + entry.name.chars.length + 1 + entry.value.length

def NameValue.bytes (entry : NameValue) : List UInt8 :=
  leBytes 4 entry.size ++ (entry.name.chars ++ (0 :: entry.value))

def totalSize (entries : List NameValue) : Nat :=
  (entries.map NameValue.size).sum

/-- The names of the records, each with its terminator, as far as there is
room for more than they take. -/
def listNames : Nat → List NameValue → List UInt8
  | _, [] => []
  | room, entry :: entries =>
      if entry.name.chars.length + 1 < room then
        entry.name.chars ++ [0] ++
          listNames (room - (entry.name.chars.length + 1)) entries
      else []

/-- The bytes of the size at a place are clear, as far as the buffer goes. -/
def Cleared (xb : Nat → UInt8) (n pos : Nat) : Prop :=
  ∀ index, pos ≤ index → index < pos + 4 → index < n → xb index = 0

/-- The buffer holds records from its start on.  One that no record was ever
written to may begin with a negative size. -/
structure Records (xb : Nat → UInt8) (n : Nat) (entries : List NameValue)
    (fresh : Bool) : Prop where
  lies : Lies xb 0 (entries.flatMap NameValue.bytes)
  inside : totalSize entries < n
  ended : Cleared xb n (totalSize entries) ∨
    fresh = true ∧ entries = [] ∧ nvalSizeAt xb 0 ≤ 0

theorem length_bytes (entry : NameValue) : entry.bytes.length = entry.size := by
  unfold NameValue.bytes NameValue.size
  rw [List.length_append, List.length_append, List.length_cons, length_leBytes]
  omega

theorem five_le_size (entry : NameValue) : 5 ≤ entry.size := by
  unfold NameValue.size
  omega

theorem totalSize_cons (entry : NameValue) (entries : List NameValue) :
    totalSize (entry :: entries) = entry.size + totalSize entries := by
  unfold totalSize
  rw [List.map_cons, List.sum_cons]

theorem totalSize_append (first second : List NameValue) :
    totalSize (first ++ second) = totalSize first + totalSize second := by
  unfold totalSize
  rw [List.map_append, List.sum_append]

theorem length_flatMap_bytes (entries : List NameValue) :
    (entries.flatMap NameValue.bytes).length = totalSize entries := by
  induction entries with
  | nil => rfl
  | cons entry entries induction =>
      rw [List.flatMap_cons, List.length_append, induction, length_bytes,
        totalSize_cons]

section Loops

variable {xb : Nat → UInt8} {n : Nat}

theorem sizeAt_of_lies {entry : NameValue} {pos : Nat}
    (lies : Lies xb pos entry.bytes) (small : entry.size < 2 ^ 31) :
    nvalSizeAt xb pos = entry.size := by
  have first := (lies_append.mp lies).1
  unfold Lies at first
  rw [length_leBytes] at first
  unfold nvalSizeAt
  rw [first, leValue_leBytes, Nat.mod_eq_of_lt (by omega),
    signed32_of_lt small]

theorem sizeAt_of_clear {pos : Nat}
    (clear : ∀ index, pos ≤ index → index < pos + 4 → xb index = 0) :
    nvalSizeAt xb pos = 0 := by
  have bytes : slice xb pos 4 = slice (fun _ => 0) pos 4 :=
    slice_congr fun index inside =>
      clear (pos + index) (Nat.le_add_right ..) (by omega)
  unfold nvalSizeAt
  rw [bytes]
  rfl

theorem nextSize_eq (large : 4 < n) (small : n < 2 ^ 31) (pos : Nat) :
    nvalNextSize xb n pos = if pos < n - 4 then nvalSizeAt xb pos else 0 := by
  unfold nvalNextSize
  rw [sub32_of_le (by omega) (by omega)]

theorem nextSize_of_cleared {pos : Nat} (large : 4 < n) (small : n < 2 ^ 31)
    (clear : Cleared xb n pos) : nvalNextSize xb n pos = 0 := by
  rw [nextSize_eq large small]
  split
  · apply sizeAt_of_clear
    intro index behind before
    exact clear index behind before (by omega)
  · rfl

theorem textAt_of_lies {text : CStr} {pos count : Nat}
    (lies : Lies xb pos (text.chars ++ [0]))
    (room : text.chars.length < count) :
    textAt xb pos count = text.chars := by
  obtain ⟨rest, rfl⟩ : ∃ rest, count = (text.chars ++ [0]).length + rest :=
    ⟨count - (text.chars.length + 1), by simp; omega⟩
  have noNul : ∀ char ∈ text.chars, (char != 0) = true := by
    intro char member
    rw [bne_iff_ne]
    rintro rfl
    exact text.noNul member
  unfold textAt
  rw [← slice_append]
  unfold Lies at lies
  rw [lies, List.append_assoc, List.takeWhile_append_of_pos noNul,
    List.singleton_append, List.takeWhile_cons_of_neg (by simp),
    List.append_nil]

theorem NameValue.lies_name {entry : NameValue} {pos : Nat}
    (lies : Lies xb pos entry.bytes) :
    Lies xb (pos + 4) (entry.name.chars ++ [0]) ∧
      Lies xb (pos + 4 + (entry.name.chars.length + 1)) entry.value := by
  have behind := (lies_append.mp lies).2
  rw [length_leBytes, List.append_cons] at behind
  have parts := lies_append.mp behind
  rw [List.length_append, List.length_singleton] at parts
  exact parts

omit xb n in
theorem strncmpFrom_eq_zero_iff {count : Nat} {left right : List UInt8}
    (leftNoNul : 0 ∉ left) (rightNoNul : 0 ∉ right) {place : Nat}
    (room : place + left.length ≤ count) :
    strncmpFrom count place left right = 0 ↔ left = right := by
  induction left generalizing right place with
  | nil =>
      cases right with
      | nil => simp [strncmpFrom]
      | cons other right =>
          have notNul : other ≠ 0 := fun isNul =>
            rightNoNul (isNul ▸ List.mem_cons_self)
          have positive := toNat_pos notNul
          rw [strncmpFrom, List.headD_cons, if_neg notNul]
          simp only [reduceCtorEq, iff_false]
          omega
  | cons char left induction =>
      have notNul : char ≠ 0 := fun isNul =>
        leftNoNul (isNul ▸ List.mem_cons_self)
      have positive := toNat_pos notNul
      rw [List.length_cons] at room
      rw [strncmpFrom]
      cases right with
      | nil =>
          rw [List.headD_nil, if_neg notNul]
          simp only [reduceCtorEq, iff_false, UInt8.toNat_zero]
          omega
      | cons other right =>
          have further : ¬(char = 0 ∨ place = count) := by
            rintro (isNul | last)
            · exact notNul isNul
            · omega
          simp only [List.headD_cons, List.tail_cons, if_neg further,
            List.cons.injEq]
          split
          · rename_i same
            rw [induction
              (fun member => leftNoNul (List.mem_cons_of_mem _ member))
              (fun member => rightNoNul (List.mem_cons_of_mem _ member))
              (by omega)]
            simp [same]
          · rename_i differs
            have numbers : char.toNat ≠ other.toNat := fun equal =>
              differs (UInt8.toNat_inj.mp equal)
            simp only [differs, false_and, iff_false]
            omega

theorem strncmp_textAt_iff {entry : NameValue} {pos : Nat}
    (lies : Lies xb pos entry.bytes) (name : CStr) :
    strncmp (textAt xb (pos + 4) entry.size) name.chars entry.size = 0 ↔
      entry.name = name := by
  have room : entry.name.chars.length < entry.size := by
    unfold NameValue.size
    omega
  rw [textAt_of_lies (NameValue.lies_name lies).1 room, strncmp,
    strncmpFrom_eq_zero_iff entry.name.noNul name.noNul (by omega)]
  constructor
  · intro same
    cases entry with
    | mk stored value =>
        cases stored
        cases name
        simp only at same
        subst same
        rfl
  · rintro rfl
    rfl

theorem skipName_of_lies {text : List UInt8} (noNul : 0 ∉ text) {pos : Nat}
    (lies : Lies xb pos (text ++ [0])) {size : Int}
    (room : text.length < size) (inside : pos + text.length < n) :
    nvalSkipName xb n pos size =
      (pos + text.length, size - text.length) := by
  induction text generalizing pos size with
  | nil =>
      rw [List.nil_append, lies_cons] at lies
      rw [nvalSkipName, if_neg fun goesOn => goesOn.1 lies.1]
      simp
  | cons char text induction =>
      rw [List.cons_append, lies_cons] at lies
      rw [List.length_cons] at room inside ⊢
      have notNul : xb pos ≠ 0 := fun isNul =>
        noNul (lies.1 ▸ isNul ▸ List.mem_cons_self)
      rw [nvalSkipName, if_pos ⟨notNul, by omega, by omega⟩,
        induction (fun member => noNul (List.mem_cons_of_mem _ member))
          lies.2 (by omega) (by omega)]
      congr 1
      · omega
      · omega

theorem nextSize_of_lies {pos : Nat} {entry : NameValue}
    (lies : Lies xb pos entry.bytes) (inside : pos + entry.size < n)
    (small : n < 2 ^ 31) : nvalNextSize xb n pos = entry.size := by
  have header := five_le_size entry
  rw [nextSize_eq (by omega) small, if_pos (by omega),
    sizeAt_of_lies lies (by omega)]

theorem usedLoop_skip {pos : Nat} {entries : List NameValue}
    (lies : Lies xb pos (entries.flatMap NameValue.bytes))
    (inside : pos + totalSize entries < n) (small : n < 2 ^ 31) :
    nvalUsedLoop xb n pos (nvalNextSize xb n pos) =
      nvalUsedLoop xb n (pos + totalSize entries)
        (nvalNextSize xb n (pos + totalSize entries)) := by
  induction entries generalizing pos with
  | nil => rfl
  | cons entry entries induction =>
      rw [List.flatMap_cons, lies_append, length_bytes] at lies
      rw [totalSize_cons, ← Nat.add_assoc] at inside ⊢
      have within : pos + entry.size < n := by omega
      have header := five_le_size entry
      rw [← induction lies.2 inside]
      rw [nvalUsedLoop, nextSize_of_lies lies.1 within small,
        if_pos (by omega), Int.toNat_natCast]

theorem findLoop_step {pos : Nat} {entry : NameValue}
    (lies : Lies xb pos entry.bytes) (inside : pos + entry.size < n)
    (small : n < 2 ^ 31) (name : CStr) :
    nvalFindLoop xb n name.chars pos (nvalNextSize xb n pos) =
      if entry.name = name then some (pos, entry.size)
      else
        nvalFindLoop xb n name.chars (pos + entry.size)
          (nvalNextSize xb n (pos + entry.size)) := by
  have header := five_le_size entry
  rw [nvalFindLoop, nextSize_of_lies lies inside small, if_pos (by omega),
    Int.toNat_natCast]
  exact if_congr (strncmp_textAt_iff lies name) rfl rfl

theorem findLoop_skip {pos : Nat} {entries : List NameValue}
    (lies : Lies xb pos (entries.flatMap NameValue.bytes))
    (inside : pos + totalSize entries < n) (small : n < 2 ^ 31) {name : CStr}
    (absent : ∀ entry ∈ entries, entry.name ≠ name) :
    nvalFindLoop xb n name.chars pos (nvalNextSize xb n pos) =
      nvalFindLoop xb n name.chars (pos + totalSize entries)
        (nvalNextSize xb n (pos + totalSize entries)) := by
  induction entries generalizing pos with
  | nil => rfl
  | cons entry entries induction =>
      rw [List.flatMap_cons, lies_append, length_bytes] at lies
      rw [totalSize_cons, ← Nat.add_assoc] at inside ⊢
      rw [findLoop_step lies.1 (by omega) small,
        if_neg (absent entry List.mem_cons_self),
        induction lies.2 inside fun other member =>
          absent other (List.mem_cons_of_mem _ member)]

theorem nextSize_zero (large : 4 < n) (small : n < 2 ^ 31) :
    nvalNextSize xb n 0 = nvalSizeAt xb 0 := by
  rw [nextSize_eq large small, if_pos (by omega)]

end Loops

section Records

variable {xb : Nat → UInt8} {n : Nat} (large : 4 < n) (small : n < 2 ^ 31)

include large small

theorem Records.nextSize_end {entries : List NameValue} {fresh : Bool}
    (records : Records xb n entries fresh) :
    nvalNextSize xb n (totalSize entries) ≤ 0 := by
  rcases records.ended with clear | ⟨-, rfl, notPositive⟩
  · exact Int.le_of_eq (nextSize_of_cleared large small clear)
  · change nvalNextSize xb n 0 ≤ 0
    rw [nextSize_zero large small]
    exact notPositive

theorem nvalUsed_eq {entries : List NameValue} {fresh : Bool}
    (records : Records xb n entries fresh) :
    nvalUsed xb n = totalSize entries := by
  have last := records.nextSize_end large small
  unfold nvalUsed
  rw [← nextSize_zero large small, usedLoop_skip records.lies
    (by rw [Nat.zero_add]; exact records.inside) small, Nat.zero_add,
    nvalUsedLoop, if_neg (by omega)]

/-- A name without a record. -/
theorem nvalFind_none {entries : List NameValue} {fresh : Bool}
    (records : Records xb n entries fresh) {name : CStr}
    (absent : ∀ entry ∈ entries, entry.name ≠ name) :
    nvalFind xb n name.chars = none := by
  have last := records.nextSize_end large small
  unfold nvalFind
  rw [← nextSize_zero large small, findLoop_skip records.lies
    (by rw [Nat.zero_add]; exact records.inside) small absent, Nat.zero_add,
    nvalFindLoop, if_neg (by omega)]

theorem nvalFind_some {before after : List NameValue} {entry : NameValue}
    (lies : Lies xb 0 ((before ++ entry :: after).flatMap NameValue.bytes))
    (inside : totalSize before + entry.size < n)
    (first : ∀ other ∈ before, other.name ≠ entry.name) :
    nvalFind xb n entry.name.chars = some (totalSize before, entry.size) := by
  rw [List.flatMap_append, List.flatMap_cons, lies_append, lies_append,
    length_flatMap_bytes, Nat.zero_add] at lies
  unfold nvalFind
  rw [← nextSize_zero large small, findLoop_skip lies.1
    (by rw [Nat.zero_add]; omega) small first, Nat.zero_add,
    findLoop_step lies.2.1 inside small, if_pos rfl]

theorem nvalGet_some {before after : List NameValue} {entry : NameValue}
    (lies : Lies xb 0 ((before ++ entry :: after).flatMap NameValue.bytes))
    (inside : totalSize before + entry.size < n)
    (first : ∀ other ∈ before, other.name ≠ entry.name) (bsize : Nat) :
    nvalGet xb n entry.name.chars bsize =
      if bsize = 0 then ((entry.value.length : Int), [])
      else if entry.value.length ≤ bsize then
        ((entry.value.length : Int), entry.value)
      else (-34, []) := by
  have found := nvalFind_some large small lies inside first
  rw [List.flatMap_append, List.flatMap_cons, lies_append, lies_append,
    length_flatMap_bytes, Nat.zero_add] at lies
  obtain ⟨-, here, -⟩ := lies
  obtain ⟨name, value⟩ := NameValue.lies_name here
  have size := sizeAt_of_lies here (by omega)
  have length : (entry.size : Int) - 4 - entry.name.chars.length - 1 =
      entry.value.length := by
    unfold NameValue.size
    omega
  have skipped : nvalSkipName xb n (totalSize before + 4)
      ((entry.size : Int) - 4) = _ :=
    skipName_of_lies entry.name.noNul name (by unfold NameValue.size; omega)
      (by unfold NameValue.size at inside; omega)
  unfold nvalGet
  rw [found]
  simp only
  rw [size, skipped]
  simp only
  rw [length]
  split
  · rfl
  · split
    · rename_i room
      rw [if_pos (Int.ofNat_le.mp room), Int.toNat_natCast]
      unfold Lies at value
      rw [Nat.add_assoc _ entry.name.chars.length, value]
    · rename_i noRoom
      rw [if_neg fun room => noRoom (Int.ofNat_le.mpr room)]

end Records

end Witos.Fs
