import Witos.Flash.PartItems

/-!
# Valid partition tables

`flash_parse_part` rejects a definition only for a number, a flag or an item
behind the end of the chip.  It does not see that a part is empty or too large,
that a label is longer than its array, or that there are too many parts.
-/

namespace Witos.Flash

open Library Extra

/-- What a part of the table has to be. -/
structure PartAttr.Valid (geometry : Geometry) (part : PartAttr) : Prop where
  base : part.base % geometry.eraseSize = 0
  size : part.size % geometry.eraseSize = 0
  size_pos : 0 < part.size
  inChip : part.base + part.size ≤ geometry.chipSize
  label : part.label.length < labelNameSize

/-- A result that is not negative counts the parts of a valid table.  Outside of
its arrays a call has no result to rely on. -/
def Outcome.Valid (geometry : Geometry) : Outcome → Prop
  | .outside => False
  | .returned ret table => 0 ≤ ret →
      ret ≤ maxFlashParts ∧ ret.toNat ≤ table.length ∧
        ∀ part ∈ table.take ret.toNat, part.Valid geometry

section Layout

variable (geometry : Geometry)

/-- An item is rejected.  Positions are those of the code. -/
def Rejected : List Item → Nat → Prop
  | [], _ => False
  | item :: items, base =>
      geometry.chipSize ≤ base ∨ item.Refused ∨
        item.Passes ∧ Rejected items
          ((item.start geometry base + item.extent geometry base) % 2 ^ 32)

/-- An item lies in the chip.  What is left of the chip has to be a number of
blocks. -/
structure Item.Fits (base : Nat) (item : Item) : Prop where
  whole : item.size = none → geometry.chipSize % geometry.eraseSize = 0
  aligned : item.start geometry base % geometry.eraseSize = 0
  extent_pos : 0 < item.extent geometry base
  inChip : item.start geometry base + item.extent geometry base ≤
    geometry.chipSize
  label : (item.label.getD []).length < labelNameSize

/-- The items lie in the chip, each behind the one before or at its offset. -/
def Placed : List Item → Nat → Prop
  | [], _ => True
  | item :: items, base =>
      item.Passes ∧ item.Fits geometry base ∧
        Placed items (item.start geometry base + item.extent geometry base)

/-- The definition has no colon, or its items are rejected, or they are not too
many and lie in the chip. -/
def Harmless (partDef : List UInt8) : Prop :=
  match partDef.dropWhile (· != colon) with
  | [] => True
  | _ :: text =>
      let items := readItems (text.length + 1) text
      Rejected geometry items 0 ∨
        items.length ≤ maxFlashParts ∧ Placed geometry items 0

end Layout

section Parts

variable {geometry : Geometry} {item : Item} {items : List Item} {base : Nat}

theorem Item.extent_mod (aligned : base % geometry.eraseSize = 0)
    (whole : item.size = none →
      geometry.chipSize % geometry.eraseSize = 0) :
    item.extent geometry base % geometry.eraseSize = 0 := by
  unfold Item.extent
  cases found : item.size with
  | none =>
      exact Nat.mod_eq_zero_of_dvd (Nat.dvd_sub
        (Nat.dvd_of_mod_eq_zero (whole found))
        (Nat.dvd_of_mod_eq_zero aligned))
  | some text => exact roundUp_mod _ _

theorem Item.extent_lt (below : base ≤ geometry.chipSize)
    (size_pos : 0 < item.extent geometry base % 2 ^ 32)
    (aligned : item.extent geometry base % 2 ^ 32 %
      geometry.eraseSize = 0) :
    item.extent geometry base < 2 ^ 32 := by
  have small := geometry.chipSize_lt
  unfold Item.extent at size_pos aligned ⊢
  cases found : item.size with
  | none =>
      dsimp only
      omega
  | some text =>
      simp only [found, blocks] at size_pos aligned ⊢
      by_contra wraps
      have value : (hrStrToVal text).getD 0 < 2 ^ 32 := by
        cases result : hrStrToVal text with
        | none => decide
        | some value => exact hrStrToVal_lt result
      have bound := roundUp_lt geometry.eraseSize_pos
        ((hrStrToVal text).getD 0)
      have less := geometry.eraseSize_lt
      have block : roundUp geometry.eraseSize
          ((hrStrToVal text).getD 0) % 2 ^ 32 < geometry.eraseSize := by
        omega
      rw [Nat.mod_eq_of_lt block] at aligned
      omega

theorem Item.entry_valid_iff (aligned : base % geometry.eraseSize = 0)
    (below : base ≤ geometry.chipSize) :
    (item.entry geometry base).Valid geometry ↔ item.Fits geometry base := by
  have small := geometry.chipSize_lt
  constructor
  · intro valid
    have word := Item.extent_lt below valid.size_pos valid.size
    have size : (item.entry geometry base).size =
        item.extent geometry base := Nat.mod_eq_of_lt word
    refine ⟨?_, valid.base, ?_, ?_, valid.label⟩
    · intro none
      have rest := valid.size
      rw [size, Item.extent, none] at rest
      have parts : geometry.chipSize =
          geometry.chipSize - base + base := by omega
      rw [parts]
      exact Nat.mod_eq_zero_of_dvd (Nat.dvd_add
        (Nat.dvd_of_mod_eq_zero rest) (Nat.dvd_of_mod_eq_zero aligned))
    · rw [← size]
      exact valid.size_pos
    · rw [← size]
      exact valid.inChip
  · intro fits
    have inChip := fits.inChip
    have size : (item.entry geometry base).size =
        item.extent geometry base := Nat.mod_eq_of_lt (by omega)
    refine ⟨fits.aligned, ?_, ?_, ?_, fits.label⟩
    · rw [size]
      exact Item.extent_mod aligned fits.whole
    · rw [size]
      exact fits.extent_pos
    · rw [size]
      exact inChip

/-- The parts of the items from a base on. -/
def entries (geometry : Geometry) : List Item → Nat → List PartAttr
  | [], _ => []
  | item :: items, base =>
      item.entry geometry base :: entries geometry items
        ((item.start geometry base + item.extent geometry base) % 2 ^ 32)

theorem length_entries (items : List Item) (base : Nat) :
    (entries geometry items base).length = items.length := by
  induction items generalizing base with
  | nil => rfl
  | cons item items induction =>
      rw [entries, List.length_cons, induction, List.length_cons]

/-- Items that are not rejected give valid parts just where they are placed. -/
theorem entries_valid_iff (aligned : base % geometry.eraseSize = 0)
    (accepted : ¬ Rejected geometry items base) :
    ((∀ item ∈ items, item.Passes) ∧
        ∀ part ∈ entries geometry items base, part.Valid geometry) ↔
      Placed geometry items base := by
  induction items generalizing base with
  | nil => simp [entries, Placed]
  | cons item items induction =>
      have below : base ≤ geometry.chipSize := by
        by_contra behind
        exact accepted (.inl (by omega))
      have fits : (item.entry geometry base).Valid geometry ↔
          item.Fits geometry base := Item.entry_valid_iff aligned below
      have later : item.Passes → item.Fits geometry base →
          (((∀ item ∈ items, item.Passes) ∧
            ∀ part ∈ entries geometry items
              ((item.start geometry base + item.extent geometry base) %
                2 ^ 32), part.Valid geometry) ↔
          Placed geometry items
            (item.start geometry base + item.extent geometry base)) := by
        intro passes fits
        have inChip := fits.inChip
        have small := geometry.chipSize_lt
        have word : (item.start geometry base +
            item.extent geometry base) % 2 ^ 32 =
            item.start geometry base + item.extent geometry base :=
          Nat.mod_eq_of_lt (by omega)
        rw [word]
        refine induction ?_ fun rejected => accepted ?_
        · exact Nat.mod_eq_zero_of_dvd (Nat.dvd_add
            (Nat.dvd_of_mod_eq_zero fits.aligned)
            (Nat.dvd_of_mod_eq_zero
              (Item.extent_mod aligned fits.whole)))
        · refine .inr (.inr ⟨passes, ?_⟩)
          rw [word]
          exact rejected
      simp only [entries, List.forall_mem_cons, Placed]
      constructor
      · rintro ⟨⟨passes, rest⟩, valid, others⟩
        have placed := fits.mp valid
        exact ⟨passes, placed, (later passes placed).mp ⟨rest, others⟩⟩
      · rintro ⟨passes, placed, rest⟩
        obtain ⟨pass, valid⟩ := (later passes placed).mpr rest
        exact ⟨⟨passes, pass⟩, fits.mpr placed, valid⟩

theorem Outcome.valid_of_nonpositive {ret : Int} {table : List PartAttr}
    (nonpositive : ret ≤ 0) : (Outcome.returned ret table).Valid geometry := by
  intro accepted
  have zero : ret = 0 := by omega
  subst zero
  exact ⟨by decide, Nat.zero_le _, by simp⟩

theorem Outcome.valid_length_iff (table : List PartAttr) :
    (Outcome.returned table.length table).Valid geometry ↔
      table.length ≤ maxFlashParts ∧
        ∀ part ∈ table, part.Valid geometry := by
  simp only [Outcome.Valid, Int.natCast_nonneg, true_implies,
    Int.toNat_natCast, Nat.le_refl, true_and, List.take_length,
    Int.ofNat_le]

/-- The parts of the items come behind the table, unless one is rejected. -/
theorem evaluate_valid_iff {ret : Int} {table : List PartAttr}
    (nonpositive : ret ≤ 0) :
    (evaluate geometry items base ret table).Valid geometry ↔
      Rejected geometry items base ∨
        (∀ item ∈ items, item.Passes) ∧
          (table ++ entries geometry items base).length ≤ maxFlashParts ∧
          ∀ part ∈ table ++ entries geometry items base,
            part.Valid geometry := by
  induction items generalizing base ret table with
  | nil =>
      rw [evaluate, Outcome.valid_length_iff]
      simp [Rejected, entries]
  | cons item items induction =>
      rw [evaluate]
      by_cases full : geometry.chipSize ≤ base
      · rw [if_pos full]
        exact iff_of_true (Outcome.valid_of_nonpositive nonpositive)
          (.inl (.inl full))
      · rw [if_neg full]
        by_cases refused : item.Refused
        · rw [Item.evaluate_of_refused geometry nonpositive refused]
          exact iff_of_true (Outcome.valid_of_nonpositive (by decide))
            (.inl (.inr (.inl refused)))
        · by_cases passes : item.Passes
          · obtain ⟨next, nonpositive, result⟩ := Item.evaluate_of_passes
              geometry nonpositive (Nat.not_le.mp full) passes
            have place : add32 (item.entry geometry base).base
                (item.entry geometry base).size =
                (item.start geometry base + item.extent geometry base) %
                  2 ^ 32 := Nat.add_mod_mod _ _ _
            rw [result]
            dsimp only
            rw [induction nonpositive, place]
            simp only [Rejected, full, refused, passes, entries,
              List.append_assoc, List.singleton_append, false_or, true_and,
              List.forall_mem_cons]
          · rw [Item.evaluate_of_neither geometry nonpositive refused
              passes]
            refine iff_of_false id ?_
            rintro ((behind | bad | ⟨passed, -⟩) | ⟨all, -⟩)
            · exact full behind
            · exact refused bad
            · exact passes passed
            · exact passes (all item List.mem_cons_self)

end Parts

/-- The table is valid just for the definitions that are rejected, and for those
whose items are not too many and lie in the chip. -/
theorem flashParsePart_valid_iff (geometry : Geometry)
    (partDef : List UInt8) :
    (flashParsePart geometry partDef).Valid geometry ↔
      Harmless geometry partDef := by
  unfold flashParsePart Harmless
  cases partDef.dropWhile (· != colon) with
  | nil =>
      exact iff_of_true (Outcome.valid_of_nonpositive (by decide)) trivial
  | cons first text =>
      dsimp only
      rw [parseLoop_eq geometry (Nat.lt_succ_self _),
        evaluate_valid_iff (by decide)]
      by_cases rejected :
          Rejected geometry (readItems (text.length + 1) text) 0
      · exact iff_of_true (.inl rejected) (.inl rejected)
      · simp only [rejected, false_or, List.nil_append, length_entries]
        rw [← entries_valid_iff (Nat.zero_mod _) rejected]
        constructor
        · rintro ⟨passes, few, valid⟩
          exact ⟨few, passes, valid⟩
        · rintro ⟨few, passes, valid⟩
          exact ⟨passes, few, valid⟩

/-- A NOR flash of 2 MiB in blocks of 64 KiB. -/
def norChip : Geometry where
  eraseSize := 0x10000
  chipSize := 0x200000
  eraseSize_pos := by decide
  eraseSize_lt := by decide
  chipSize_lt := by decide

/-- `n:3M` -/
def threeMegabytes : List UInt8 := [0x6e, 0x3a, 0x33, 0x4d]

/-- A part of 3 MiB is accepted on the chip of 2 MiB. -/
theorem flashParsePart_not_valid_large :
    ¬ (flashParsePart norChip threeMegabytes).Valid norChip := by
  have parsed : flashParsePart norChip threeMegabytes =
      .returned 1 [⟨0, 0x300000, [], false⟩] := by decide +kernel
  rw [parsed]
  intro valid
  have part := (valid (by decide)).2.2 ⟨0, 0x300000, [], false⟩ (by decide)
  exact absurd part.inChip (by decide)

end Witos.Flash
