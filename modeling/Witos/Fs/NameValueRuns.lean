import Mathlib.Algebra.Order.BigOperators.Group.List
import Witos.Fs.NameValues
import Witos.Library.Trace

/-!
# Attributes over runs

The buffer is a store of values under names.  A value that is set is written
behind the others, and that of the name before is taken out.  A record that
ends where the buffer ends is not found again, and the name that is written
with it is padded past that end.
-/

namespace Witos.Fs

open Witos.Library Witos.Strings

section Changes

variable {xb : Nat → UInt8} {n : Nat}

theorem replicate_eq_slice (count : Nat) :
    List.replicate count (0 : UInt8) = slice (fun _ => 0) 0 count := by
  unfold slice
  rw [List.map_const', List.length_range]

theorem nvalDel_apply {name : List UInt8} {pos size : Nat}
    (found : nvalFind xb n name = some (pos, size))
    (sizeAt : nvalSizeAt xb pos = size) (inside : pos + size ≤ n)
    (index : Nat) :
    (nvalDel xb n name).2 index =
      if index < pos then xb index
      else if index < n - size then xb (index + size)
      else if index < n then 0
      else xb index := by
  unfold nvalDel
  rw [found]
  simp only
  rw [sizeAt, Int.toNat_natCast, replicate_eq_slice, overlayAt_slice_apply,
    overlayAt_slice_apply]
  by_cases before : index < pos
  · rw [if_neg (by omega), if_neg (by omega), if_pos before]
  · by_cases moved : index < n - size
    · rw [if_neg (by omega), if_pos (by omega), if_neg before, if_pos moved]
      congr 1
      omega
    · by_cases within : index < n
      · rw [if_pos (by omega), if_neg before, if_neg moved, if_pos within]
      · rw [if_neg (by omega), if_neg (by omega), if_neg before,
          if_neg moved, if_neg within]

/-- The three copies of `nval_set` write the record and clear the bytes of the
size behind it. -/
theorem write_record (entry : NameValue) (start : Nat)
    (xb : Nat → UInt8) :
    overlayAt (start + 4 + (entry.name.chars.length + 1)) entry.value
        (strncpy (start + 4) entry.name.chars entry.size
          (overlayAt start (leBytes 4 entry.size) xb)).2 =
      overlayAt start (entry.bytes ++ List.replicate 4 0) xb := by
  have whole : entry.name.chars.take entry.size = entry.name.chars :=
    List.take_of_length_le (by unfold NameValue.size; omega)
  have padding :
      List.replicate (entry.size - entry.name.chars.length) (0 : UInt8) =
        [0] ++
          (List.replicate entry.value.length 0 ++ List.replicate 4 0) := by
    rw [← List.replicate_one, ← List.replicate_add, ← List.replicate_add]
    congr 1
    unfold NameValue.size
    omega
  have bytes : entry.bytes =
      leBytes 4 entry.size ++ entry.name.chars ++ [0] ++ entry.value := by
    simp [NameValue.bytes]
  have behind : start + 4 + (entry.name.chars.length + 1) =
      start + (leBytes 4 entry.size ++ entry.name.chars ++ [0]).length := by
    simp only [List.length_append, length_leBytes, List.length_singleton]
    omega
  calc
    _ = overlayAt (start + 4 + (entry.name.chars.length + 1)) entry.value
          (overlayAt start (leBytes 4 entry.size ++ entry.name.chars ++ [0] ++
            (List.replicate entry.value.length 0 ++ List.replicate 4 0))
              xb) := by
      rw [strncpy_agrees, isoStrncpy, whole, padding]
      have next := overlayAt_append start (leBytes 4 entry.size)
        (entry.name.chars ++ ([0] ++
          (List.replicate entry.value.length 0 ++ List.replicate 4 0))) xb
      rw [length_leBytes] at next
      simp only
      rw [next]
      simp only [List.append_assoc]
    _ = _ := by
      rw [← overlayAt_append, behind, overlayAt_front _
        (by rw [List.length_replicate]), overlayAt_append, bytes,
        List.append_assoc _ entry.value]

/-- The store without a record. -/
theorem records_del (large : 4 < n) (small : n < 2 ^ 31)
    {before after : List NameValue} {entry : NameValue} {fresh : Bool}
    (records : Records xb n (before ++ entry :: after) fresh)
    (first : ∀ other ∈ before, other.name ≠ entry.name) :
    (nvalDel xb n entry.name.chars).1 = 0 ∧
      Records (nvalDel xb n entry.name.chars).2 n (before ++ after) fresh ∧
      ∀ index, n ≤ index →
        (nvalDel xb n entry.name.chars).2 index = xb index := by
  have whole := records.inside
  rw [totalSize_append, totalSize_cons] at whole
  have header := five_le_size entry
  have found := nvalFind_some large small records.lies (by omega) first
  have lies := records.lies
  rw [List.flatMap_append, List.flatMap_cons, lies_append, lies_append,
    length_flatMap_bytes, length_bytes, Nat.zero_add] at lies
  obtain ⟨liesBefore, liesEntry, liesAfter⟩ := lies
  have sizeAt := sizeAt_of_lies liesEntry (by omega)
  have cell := nvalDel_apply found sizeAt (by omega)
  refine ⟨?_, ⟨?_, ?_, Or.inl ?_⟩, ?_⟩
  · unfold nvalDel
    rw [found]
  · rw [List.flatMap_append, lies_append, length_flatMap_bytes, Nat.zero_add]
    constructor
    · refine Eq.trans (slice_congr fun index inside => ?_) liesBefore
      rw [length_flatMap_bytes] at inside
      rw [cell, if_pos (by omega)]
    · refine Eq.trans (slice_congr fun index inside => ?_) liesAfter
      rw [length_flatMap_bytes] at inside
      rw [cell, if_neg (by omega), if_pos (by omega)]
      congr 1
      omega
  · rw [totalSize_append]
    omega
  · intro index behind within inside
    rw [totalSize_append] at behind within
    rw [cell, if_neg (by omega)]
    split
    · rcases records.ended with clear | ⟨-, none_, -⟩
      · apply clear
        · rw [totalSize_append, totalSize_cons]
          omega
        · rw [totalSize_append, totalSize_cons]
          omega
        · omega
      · simp at none_
    · rfl
  · intro index behind
    rw [cell, if_neg (by omega), if_neg (by omega), if_neg (by omega)]

theorem totalSize_snoc (entries : List NameValue) (entry : NameValue) :
    totalSize (entries ++ [entry]) = totalSize entries + entry.size := by
  rw [totalSize_append, totalSize_cons]
  rfl

theorem lies_write {entries : List NameValue}
    (lies : Lies xb 0 (entries.flatMap NameValue.bytes)) (entry : NameValue)
    (rest : List UInt8) :
    Lies (overlayAt (totalSize entries) (entry.bytes ++ rest) xb) 0
      ((entries ++ [entry]).flatMap NameValue.bytes) := by
  have written := lies_overlayAt (totalSize entries) (entry.bytes ++ rest) xb
  rw [List.flatMap_append, List.flatMap_singleton, lies_append,
    length_flatMap_bytes, Nat.zero_add]
  refine ⟨?_, (lies_append.mp written).1⟩
  refine Eq.trans (slice_congr fun index before => ?_) lies
  rw [length_flatMap_bytes] at before
  exact overlayAt_of_lt _ _ (by omega)

/-- A record that is written behind the others, with bytes of the buffer
left. -/
theorem records_write {entries : List NameValue} {fresh : Bool}
    (records : Records xb n entries fresh) (entry : NameValue)
    (inside : totalSize entries + entry.size < n) :
    Records (overlayAt (totalSize entries)
      (entry.bytes ++ List.replicate 4 0) xb) n (entries ++ [entry]) false := by
  have written := lies_overlayAt (totalSize entries)
    (entry.bytes ++ List.replicate 4 0) xb
  rw [lies_append, length_bytes] at written
  refine ⟨lies_write records.lies entry _, ?_, Or.inl ?_⟩
  · rw [totalSize_snoc]
    exact inside
  · intro index behind within _
    rw [totalSize_snoc] at behind within
    have clear := (lies_zeros_iff _ _ _).mp written.2
      (index - (totalSize entries + entry.size)) (by omega)
    rw [Nat.add_sub_cancel' behind] at clear
    exact clear

end Changes

/-- Values under names; a fresh store had no value yet. -/
structure AttrStore where
  entries : List NameValue
  fresh : Bool

namespace AttrStore

def find (store : AttrStore) (name : CStr) : Option NameValue :=
  store.entries.find? (·.name = name)

def without (store : AttrStore) (name : CStr) : List NameValue :=
  store.entries.filter (·.name ≠ name)

/-- The code of a set: the name exists, it does not, or there is no room. -/
def setCode (n : Nat) (store : AttrStore) (name : CStr) (value : List UInt8)
    (flags : Nat) : Int :=
  if flags &&& 1 ≠ 0 ∧ (store.find name).isSome then -17
  else if flags &&& 2 ≠ 0 ∧ (store.find name).isNone then -61
  else if n < totalSize (store.without name) + (NameValue.mk name value).size
    then -28
  else 0

def set (n : Nat) (store : AttrStore) (name : CStr) (value : List UInt8)
    (flags : Nat) : AttrStore :=
  if store.setCode n name value flags = 0 then
    { entries := store.without name ++ [.mk name value], fresh := false }
  else store

def get (store : AttrStore) (name : CStr) (bsize : Nat) : Int × List UInt8 :=
  match store.find name with
  | none => (-61, [])
  | some entry =>
      if bsize = 0 then (entry.value.length, [])
      else if entry.value.length ≤ bsize then
        (entry.value.length, entry.value)
      else (-34, [])

end AttrStore

theorem split_name {entries : List NameValue}
    (distinct : (entries.map NameValue.name).Nodup) (name : CStr) :
    (∀ entry ∈ entries, entry.name ≠ name) ∨
      ∃ before entry after, entries = before ++ entry :: after ∧
        entry.name = name ∧ (∀ other ∈ before, other.name ≠ name) ∧
        ∀ other ∈ after, other.name ≠ name := by
  by_cases present : ∃ entry ∈ entries, entry.name = name
  · right
    obtain ⟨entry, member, rfl⟩ := present
    obtain ⟨before, after, rfl⟩ := List.append_of_mem member
    rw [List.map_append, List.map_cons, List.nodup_append,
      List.nodup_cons] at distinct
    obtain ⟨-, ⟨notAfter, -⟩, apart⟩ := distinct
    refine ⟨before, entry, after, rfl, rfl, ?_, ?_⟩
    · intro other otherMember same
      exact apart other.name (List.mem_map_of_mem otherMember) entry.name
        List.mem_cons_self same
    · intro other otherMember same
      exact notAfter (same ▸ List.mem_map_of_mem otherMember)
  · left
    intro entry member same
    exact present ⟨entry, member, same⟩

section Store

variable {store : AttrStore} {name : CStr}

theorem find_absent (absent : ∀ entry ∈ store.entries, entry.name ≠ name) :
    store.find name = none ∧ store.without name = store.entries := by
  constructor
  · apply List.find?_eq_none.mpr
    intro entry member
    simpa using absent entry member
  · apply List.filter_eq_self.mpr
    intro entry member
    simpa using absent entry member

theorem find_present {before after : List NameValue} {entry : NameValue}
    (parts : store.entries = before ++ entry :: after)
    (first : ∀ other ∈ before, other.name ≠ entry.name)
    (last : ∀ other ∈ after, other.name ≠ entry.name) :
    store.find entry.name = some entry ∧
      store.without entry.name = before ++ after := by
  have keepsBefore : before.filter (·.name ≠ entry.name) = before := by
    apply List.filter_eq_self.mpr
    intro other member
    simpa using first other member
  have keepsAfter : after.filter (·.name ≠ entry.name) = after := by
    apply List.filter_eq_self.mpr
    intro other member
    simpa using last other member
  constructor
  · unfold AttrStore.find
    rw [parts, List.find?_append, List.find?_eq_none.mpr, Option.none_or,
      List.find?_cons_of_pos (by simp)]
    intro other member
    simpa using first other member
  · unfold AttrStore.without
    rw [parts, List.filter_append, keepsBefore,
      List.filter_cons_of_neg (by simp), keepsAfter]

theorem room_of_accepted {n : Nat} {value : List UInt8} {flags : Nat}
    (accepted : store.setCode n name value flags = 0) :
    totalSize (store.without name) + (NameValue.mk name value).size ≤ n := by
  unfold AttrStore.setCode at accepted
  by_contra noRoom
  rw [if_pos (Nat.lt_of_not_le noRoom)] at accepted
  split at accepted
  · omega
  · split at accepted
    · omega
    · omega

theorem totalSize_without_le (store : AttrStore) (name : CStr) :
    totalSize (store.without name) ≤ totalSize store.entries :=
  (List.filter_sublist.map _).sum_le_sum fun _ _ => Nat.zero_le _

theorem distinct_without (distinct : (store.entries.map NameValue.name).Nodup)
    (name : CStr) (value : List UInt8) :
    ((store.without name ++ [NameValue.mk name value]).map
      NameValue.name).Nodup := by
  rw [List.map_append, List.nodup_append]
  refine ⟨distinct.sublist (List.filter_sublist.map _),
    List.nodup_singleton _, ?_⟩
  intro other member same last
  obtain ⟨entry, kept, rfl⟩ := List.mem_map.mp member
  have differs := (List.mem_filter.mp kept).2
  rw [List.map_singleton, List.mem_singleton] at last
  rw [last]
  exact of_decide_eq_true differs

end Store

/-- A state of the buffer that is one of the store. -/
structure Stores (n : Nat) (xb : Nat → UInt8) (store : AttrStore) :
    Prop where
  records : Records xb n store.entries store.fresh
  distinct : (store.entries.map NameValue.name).Nodup

section Steps

variable {n : Nat} (large : 4 < n) (small : n < 2 ^ 31) {xb : Nat → UInt8}
  {store : AttrStore}

include large small

theorem nvalFind_spec (stores : Stores n xb store) (name : CStr) :
    ((nvalFind xb n name.chars).isSome = (store.find name).isSome) ∧
      totalSize (store.without name) +
          ((nvalFind xb n name.chars).map Prod.snd).getD 0 =
        totalSize store.entries := by
  rcases split_name stores.distinct name with
    absent | ⟨before, entry, after, parts, rfl, first, last⟩
  · obtain ⟨none_, all⟩ := find_absent absent
    rw [nvalFind_none large small stores.records absent, none_, all]
    exact ⟨rfl, rfl⟩
  · obtain ⟨some_, others⟩ := find_present parts first last
    have records := stores.records
    rw [parts] at records
    have inside := records.inside
    rw [totalSize_append, totalSize_cons] at inside
    rw [nvalFind_some large small records.lies (by omega) first, some_,
      others, parts, totalSize_append, totalSize_append, totalSize_cons]
    refine ⟨rfl, ?_⟩
    simp only [Option.map_some, Option.getD_some]
    omega

theorem records_without (stores : Stores n xb store) (name : CStr) :
    ∃ cleared, Records cleared n (store.without name) store.fresh ∧
      (∀ index, n ≤ index → cleared index = xb index) ∧
      cleared = (if (nvalFind xb n name.chars).isSome then
        (nvalDel xb n name.chars).2 else xb) ∧
      (nvalDel xb n name.chars) =
        ((if (store.find name).isSome then 0 else -61), cleared) := by
  rcases split_name stores.distinct name with
    absent | ⟨before, entry, after, parts, rfl, first, last⟩
  · obtain ⟨none_, all⟩ := find_absent absent
    have found := nvalFind_none large small stores.records absent
    refine ⟨xb, all ▸ stores.records, fun _ _ => rfl, ?_, ?_⟩
    · rw [found]
      rfl
    · rw [nvalDel, found, none_]
      rfl
  · obtain ⟨some_, others⟩ := find_present parts first last
    have records := stores.records
    rw [parts] at records
    obtain ⟨code, kept, outside⟩ := records_del large small records first
    have found := (nvalFind_spec large small stores entry.name).1
    rw [some_] at found
    refine ⟨_, others ▸ kept, outside, (if_pos found).symm, ?_⟩
    rw [some_]
    exact Prod.ext code rfl

/-- A set writes the record behind those of the other names, or nothing. -/
theorem nvalSet_spec (stores : Stores n xb store) (name : CStr)
    {value : List UInt8} (short : n + 5 + value.length < 2 ^ 31)
    (flags : Nat) :
    ∃ cleared, Records cleared n (store.without name) store.fresh ∧
      (∀ index, n ≤ index → cleared index = xb index) ∧
      nvalSet xb n name.chars value flags =
        (store.setCode n name value flags,
          if store.setCode n name value flags = 0 then
            overlayAt (totalSize (store.without name))
              ((NameValue.mk name value).bytes ++ List.replicate 4 0) cleared
          else xb) := by
  obtain ⟨found, sizes⟩ := nvalFind_spec large small stores name
  obtain ⟨cleared, kept, outside, same, -⟩ :=
    records_without large small stores name
  have inside := stores.records.inside
  refine ⟨cleared, kept, outside, ?_⟩
  have length : 4 + min name.chars.length n + 1 + value.length < 2 ^ 31 := by
    omega
  have noRoom : ((n : Int) - totalSize store.entries +
        (((nvalFind xb n name.chars).map Prod.snd).getD 0 : Nat) <
          (4 + min name.chars.length n + 1 + value.length : Nat)) ↔
      n < totalSize (store.without name) +
        (NameValue.mk name value).size := by
    unfold NameValue.size
    simp only
    omega
  have absent : (nvalFind xb n name.chars).isNone =
      (store.find name).isNone := by
    rw [← Option.not_isSome, ← Option.not_isSome, found]
  have used := nvalUsed_eq large small stores.records
  unfold nvalSet AttrStore.setCode
  simp only [strnlen_eq_min, Nat.mod_eq_of_lt (Nat.lt_trans length
    (by decide : 2 ^ 31 < 2 ^ 32)), signed32_of_lt length, used, found, absent]
  by_cases exists_ : flags &&& 1 ≠ 0 ∧ (store.find name).isSome = true
  · simp only [if_pos exists_]
    rfl
  · simp only [if_neg exists_]
    by_cases missing : flags &&& 2 ≠ 0 ∧ (store.find name).isNone = true
    · simp only [if_pos missing]
      rfl
    · simp only [if_neg missing]
      by_cases full : n < totalSize (store.without name) +
          (NameValue.mk name value).size
      · rw [if_pos (noRoom.mpr full), if_pos full]
        rfl
      · rw [if_neg fun less => full (noRoom.mp less), if_neg full, if_pos rfl]
        have nameLength : min name.chars.length n = name.chars.length := by
          unfold NameValue.size at full
          simp only at full
          omega
        have size : 4 + name.chars.length + 1 + value.length =
          (NameValue.mk name value).size := rfl
        rw [found] at same
        rw [← same, nvalUsed_eq large small kept, nameLength, size,
          write_record (.mk name value)]

theorem set_spec (stores : Stores n xb store) (name : CStr)
    {value : List UInt8} (short : n + 5 + value.length < 2 ^ 31)
    {flags : Nat}
    (notFull : totalSize (store.set n name value flags).entries ≠ n) :
    (nvalSet xb n name.chars value flags).1 =
        store.setCode n name value flags ∧
      Stores n (nvalSet xb n name.chars value flags).2
        (store.set n name value flags) := by
  obtain ⟨cleared, kept, -, result⟩ :=
    nvalSet_spec large small stores name short flags
  rw [result]
  refine ⟨rfl, ?_⟩
  unfold AttrStore.set at notFull ⊢
  simp only
  split
  · rename_i accepted
    rw [if_pos accepted] at notFull
    have room := room_of_accepted accepted
    simp only [totalSize_snoc] at notFull
    exact ⟨records_write kept _ (by omega),
      distinct_without stores.distinct name value⟩
  · exact stores

theorem get_spec (stores : Stores n xb store) (name : CStr) (bsize : Nat) :
    nvalGet xb n name.chars bsize = store.get name bsize := by
  rcases split_name stores.distinct name with
    absent | ⟨before, entry, after, parts, rfl, first, last⟩
  · rw [nvalGet, nvalFind_none large small stores.records absent,
      AttrStore.get, (find_absent absent).1]
  · have records := stores.records
    rw [parts] at records
    have inside := records.inside
    rw [totalSize_append, totalSize_cons] at inside
    rw [nvalGet_some large small records.lies (by omega) first,
      AttrStore.get, (find_present parts first last).1]

theorem find_full {entries : List NameValue} {entry : NameValue}
    (lies : Lies xb 0 ((entries ++ [entry]).flatMap NameValue.bytes))
    (full : totalSize entries + entry.size = n)
    (absent : ∀ other ∈ entries, other.name ≠ entry.name) :
    nvalFind xb n entry.name.chars = none := by
  have header := five_le_size entry
  rw [List.flatMap_append, List.flatMap_singleton, lies_append,
    length_flatMap_bytes, Nat.zero_add] at lies
  have last : nvalNextSize xb n (totalSize entries) = entry.size := by
    rw [nextSize_eq large small, if_pos (by omega),
      sizeAt_of_lies lies.2 (by omega)]
  unfold nvalFind
  rw [← nextSize_zero large small, findLoop_skip lies.1
    (by rw [Nat.zero_add]; omega) small absent, Nat.zero_add, nvalFindLoop,
    last, if_neg (by omega)]

end Steps

inductive AttrOp where
  | set (name : CStr) (value : List UInt8) (flags : Nat)
  | del (name : CStr)
  | get (name : CStr) (bsize : Nat)
  | list (bsize : Nat)
  | hasvalues

/-- What is returned, the bytes that are copied out and the memory. -/
def nvalStep (n : Nat) (op : AttrOp) (xb : Nat → UInt8) :
    (Int × List UInt8) × (Nat → UInt8) :=
  match op with
  | .set name value flags =>
      let (code, xb) := nvalSet xb n name.chars value flags
      ((code, []), xb)
  | .del name =>
      let (code, xb) := nvalDel xb n name.chars
      ((code, []), xb)
  | .get name bsize => (nvalGet xb n name.chars bsize, xb)
  | .list bsize => (nvalList xb n bsize, xb)
  | .hasvalues => ((if nvalHasvalues xb n then 1 else 0, []), xb)

def AttrStore.step (n : Nat) (op : AttrOp) (store : AttrStore) :
    (Int × List UInt8) × AttrStore :=
  match op with
  | .set name value flags =>
      ((store.setCode n name value flags, []), store.set n name value flags)
  | .del name =>
      ((if (store.find name).isSome then 0 else -61, []),
        { store with entries := store.without name })
  | .get name bsize => (store.get name bsize, store)
  | .list bsize =>
      let names := listNames bsize store.entries
      ((names.length, names), store)
  | .hasvalues => ((if store.entries.isEmpty then 0 else 1, []), store)

def AttrStore.empty : AttrStore where
  entries := []
  fresh := true

/-- The size of a record is an `int`, for any name that is not longer than the
buffer. -/
def AttrOp.Short (n : Nat) : AttrOp → Prop
  | .set _ value _ => n + 5 + value.length < 2 ^ 31
  | _ => True

instance (n : Nat) : (op : AttrOp) → Decidable (op.Short n)
  | .set _ value _ =>
      inferInstanceAs (Decidable (n + 5 + value.length < 2 ^ 31))
  | .del _ | .get _ _ | .list _ | .hasvalues => isTrue trivial

abbrev ShortOp (n : Nat) :=
  { op : AttrOp // op.Short n }

/-- The records do not end where the buffer ends. -/
def AttrOp.NotFull (n : Nat) (op : AttrOp) (store : AttrStore) : Prop :=
  totalSize (store.step n op).2.entries ≠ n

instance (n : Nat) (op : AttrOp) (store : AttrStore) :
    Decidable (op.NotFull n store) :=
  inferInstanceAs (Decidable (_ ≠ _))

/-- The names are listed after a value was set only. -/
def AttrOp.Listed (op : AttrOp) (store : AttrStore) : Prop :=
  match op with
  | .list _ => store.fresh = false
  | _ => True

instance (store : AttrStore) : (op : AttrOp) → Decidable (op.Listed store)
  | .list _ => inferInstanceAs (Decidable (store.fresh = false))
  | .set _ _ _ | .del _ | .get _ _ | .hasvalues => isTrue trivial

section Runs

variable {n : Nat} (large : 4 < n) (small : n < 2 ^ 31) {xb : Nat → UInt8}
  {store : AttrStore}

include large small

theorem stores_step (stores : Stores n xb store) {op : AttrOp}
    (short : op.Short n) (notFull : op.NotFull n store) :
    Stores n (nvalStep n op xb).2 (store.step n op).2 := by
  cases op with
  | set name value flags =>
      exact (set_spec large small stores name short notFull).2
  | del name =>
      obtain ⟨cleared, kept, -, -, result⟩ :=
        records_without large small stores name
      change Stores n (nvalDel xb n name.chars).2 _
      rw [result]
      exact ⟨kept, stores.distinct.sublist (List.filter_sublist.map _)⟩
  | get name bsize => exact stores
  | list bsize => exact stores
  | hasvalues => exact stores

omit small in
theorem stores_empty (start : nvalSizeAt xb 0 ≤ 0) :
    Stores n xb .empty :=
  ⟨⟨rfl, Nat.lt_of_le_of_lt (Nat.zero_le 4) large,
    Or.inr ⟨rfl, rfl, start⟩⟩, List.nodup_nil⟩

end Runs

def nameA : CStr where
  chars := [97]
  noNul := by decide

theorem sizeAt_fresh : nvalSizeAt (fun _ => 255) 0 ≤ 0 := by decide

/-- The buffer and the store in one step. -/
def attrStep (n : Nat) (op : ShortOp n) (state : (Nat → UInt8) × AttrStore) :
    (Nat → UInt8) × AttrStore :=
  ((nvalStep n op.1 state.1).2, (state.2.step n op.1).2)

/-- Every value is read from the buffer as the store has it. -/
def Agree (n : Nat) (state : (Nat → UInt8) × AttrStore) : Prop :=
  ∀ name bsize, nvalGet state.1 n name.chars bsize = state.2.get name bsize

section Exactly

variable {n : Nat} (large : 4 < n) (small : n < 2 ^ 31) {xb : Nat → UInt8}
  {store : AttrStore}

theorem get_of_accepted {name : CStr} {value : List UInt8} {flags : Nat}
    (accepted : store.setCode n name value flags = 0) :
    (store.set n name value flags).get name (value.length + 1) =
      ((value.length : Int), value) := by
  have absent : ∀ entry ∈ store.without name, entry.name ≠ name := by
    intro entry member
    exact of_decide_eq_true (List.mem_filter.mp member).2
  have parts : (AttrStore.mk (store.without name ++ [.mk name value])
      false).entries = store.without name ++ .mk name value :: [] := rfl
  have present := (find_present parts absent fun _ none_ => by cases none_).1
  unfold AttrStore.set
  rw [if_pos accepted, AttrStore.get, present]
  simp

include large small

theorem notFull_of_agree (stores : Stores n xb store) {op : AttrOp}
    (short : op.Short n)
    (agree : Agree n ((nvalStep n op xb).2, (store.step n op).2)) :
    op.NotFull n store := by
  have inside := stores.records.inside
  intro full
  cases op with
  | set name value flags =>
      change totalSize (store.set n name value flags).entries = n at full
      by_cases accepted : store.setCode n name value flags = 0
      · obtain ⟨cleared, kept, -, result⟩ :=
          nvalSet_spec large small stores name short flags
        have expected := agree name (value.length + 1)
        change nvalGet (nvalSet xb n name.chars value flags).2 n name.chars _ =
          (store.set n name value flags).get name _ at expected
        rw [result, get_of_accepted accepted, if_pos accepted] at expected
        unfold AttrStore.set at full
        rw [if_pos accepted, totalSize_snoc] at full
        have hidden := find_full large small
          (lies_write kept.lies (.mk name value) (List.replicate 4 0)) full
          fun other member => of_decide_eq_true (List.mem_filter.mp member).2
        unfold nvalGet at expected
        rw [hidden] at expected
        simp at expected
      · unfold AttrStore.set at full
        rw [if_neg accepted] at full
        omega
  | del name =>
      have less := totalSize_without_le store name
      change totalSize (store.without name) = n at full
      omega
  | get name bsize => exact Nat.ne_of_lt inside full
  | list bsize => exact Nat.ne_of_lt inside full
  | hasvalues => exact Nat.ne_of_lt inside full

/-- Over any run, every value is read as it was set, in every state that is
reached, exactly if no value that is set ends where the buffer ends. -/
theorem attributes_agree_iff (start : nvalSizeAt xb 0 ≤ 0)
    (ops : List (ShortOp n)) :
    Trace.Throughout (attrStep n) (Agree n) ops (xb, .empty) ↔
      Trace.Allowed (attrStep n) (fun op state => op.1.NotFull n state.2) ops
        (xb, .empty) := by
  have keeps : ∀ (op : ShortOp n) state, Stores n state.1 state.2 →
      op.1.NotFull n state.2 →
        Stores n (attrStep n op state).1 (attrStep n op state).2 :=
    fun op _ stores notFull => stores_step large small stores op.2 notFull
  have gives : ∀ state, Stores n state.1 state.2 → Agree n state :=
    fun _ stores name bsize => get_spec large small stores name bsize
  have needs : ∀ (op : ShortOp n) state, Stores n state.1 state.2 →
      Agree n (attrStep n op state) → op.1.NotFull n state.2 :=
    fun op _ stores agree => notFull_of_agree large small stores op.2 agree
  exact Trace.throughout_iff_allowed keeps gives needs
    (stores_empty large start)

omit large small in
theorem attributes_agree_full :
    ¬Trace.Throughout (attrStep 16) (Agree 16)
      [⟨.set nameA (List.replicate 10 1) 0, by decide⟩]
      (fun _ => 255, .empty) := by
  rw [attributes_agree_iff (by decide) (by decide) sizeAt_fresh,
    Trace.allowed_cons]
  rintro ⟨notFull, -⟩
  exact notFull (by decide)

end Exactly

end Witos.Fs
