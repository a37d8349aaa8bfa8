import Mathlib.Data.List.Perm.Subperm
import Witos.Flash.NandCommand
import Witos.Library.Copies

/-!
# The free bytes of the spare area

`nand_copy_oob` and `nand_fill_oob` of `driver/flash/nand/nand_core.c` for
`MTD_OPS_AUTO_OOB`.  Both go through the free regions of the layout up to one
that has no length.
-/

namespace Witos.Flash

open Library Library.Copies

/-- What a round passes to `memcpy`. -/
structure OobPiece where
  boffs : Nat
  bytes : Nat

/-- The loop of both functions: the pieces that are copied.  Where a region is
skipped, `len` is reduced by the `bytes` of the round before. -/
def oobPieces : List OobFreeRegion → Nat → Nat → Nat → List OobPiece
  | [], _, _, _ => []
  | free :: regions, len, offs, bytes =>
      if free.nOfLen = 0 ∨ len = 0 then []
      else if offs ≠ 0 ∧ free.nOfLen ≤ offs then
        oobPieces regions (sub32 len bytes) (offs - free.nOfLen) bytes
      else
        let bytes := min len (free.nOfLen - offs)
        ⟨add32 free.nOfOffset offs, bytes⟩ ::
          oobPieces regions (sub32 len bytes) 0 bytes

/-- `memcpy(oob_buf, nand->oob_buf + boffs, bytes)` for each piece: the memory,
and `oob_buf` in the end. -/
def copyPieces (nandOob : Nat → UInt8) :
    List OobPiece → Nat → (Nat → UInt8) → (Nat → UInt8) × Nat
  | [], oobBuf, memory => (memory, oobBuf)
  | piece :: pieces, oobBuf, memory =>
      copyPieces nandOob pieces (oobBuf + piece.bytes)
        (overlayAt oobBuf (slice nandOob piece.boffs piece.bytes) memory)

/-- `memcpy(nand->oob_buf + boffs, oob_buf, bytes)` for each piece:
`nand->oob_buf`, and `oob_buf` in the end. -/
def fillPieces (memory : Nat → UInt8) :
    List OobPiece → Nat → (Nat → UInt8) → (Nat → UInt8) × Nat
  | [], oobBuf, nandOob => (nandOob, oobBuf)
  | piece :: pieces, oobBuf, nandOob =>
      fillPieces memory pieces (oobBuf + piece.bytes)
        (overlayAt piece.boffs (slice memory oobBuf piece.bytes) nandOob)

/-- `nand_copy_oob` for `MTD_OPS_AUTO_OOB`. -/
def nandCopyOobAuto (freeRegion : List OobFreeRegion) (ooboffs len : Nat)
    (nandOob : Nat → UInt8) (oobBuf : Nat) (memory : Nat → UInt8) :
    (Nat → UInt8) × Nat :=
  copyPieces nandOob (oobPieces freeRegion len ooboffs 0) oobBuf memory

/-- `nand_fill_oob` for `MTD_OPS_AUTO_OOB`. -/
def nandFillOobAuto (freeRegion : List OobFreeRegion) (ooboffs ooblen : Nat)
    (memory : Nat → UInt8) (oobBuf : Nat) (nandOob : Nat → UInt8) :
    (Nat → UInt8) × Nat :=
  fillPieces memory (oobPieces freeRegion ooblen ooboffs 0) oobBuf nandOob

/-- The regions up to one that has no length. -/
def usedRegions (freeRegion : List OobFreeRegion) : List OobFreeRegion :=
  freeRegion.takeWhile (·.nOfLen != 0)

/-- A layout whose free regions are disjoint and inside the spare area, with a
region without length at their end. -/
structure OobLayout where
  oobSize : Nat
  freeRegion : List OobFreeRegion
  word : oobSize < 2 ^ 32
  ended : ∃ free ∈ freeRegion, free.nOfLen = 0
  inside : ∀ free ∈ usedRegions freeRegion,
    free.nOfOffset + free.nOfLen ≤ oobSize
  disjoint : (usedRegions freeRegion).Pairwise fun first second =>
    first.nOfOffset + first.nOfLen ≤ second.nOfOffset ∨
      second.nOfOffset + second.nOfLen ≤ first.nOfOffset

/-- The places of a region. -/
def OobFreeRegion.places (free : OobFreeRegion) : List Nat :=
  List.range' free.nOfOffset free.nOfLen

/-- The places of a piece. -/
def OobPiece.places (piece : OobPiece) : List Nat :=
  List.range' piece.boffs piece.bytes

/-- The sum of the lengths of the regions, as `free_oob_sum`. -/
def OobLayout.freeOobSum (layout : OobLayout) : Nat :=
  ((usedRegions layout.freeRegion).map OobFreeRegion.nOfLen).sum

/-- The part of the free bytes that an offset and a length select, in the order
of the regions. -/
def selectedPlaces (freeRegion : List OobFreeRegion) (ooboffs len : Nat) :
    List Nat :=
  (((usedRegions freeRegion).flatMap OobFreeRegion.places).drop ooboffs).take
    len

theorem usedRegions_cons {free : OobFreeRegion} (hasLen : free.nOfLen ≠ 0)
    (regions : List OobFreeRegion) :
    usedRegions (free :: regions) = free :: usedRegions regions := by
  simp [usedRegions, hasLen]

theorem selectedPlaces_skip {free : OobFreeRegion} (hasLen : free.nOfLen ≠ 0)
    (regions : List OobFreeRegion) {offs : Nat}
    (skipped : free.nOfLen ≤ offs) (len : Nat) :
    selectedPlaces (free :: regions) offs len =
      selectedPlaces regions (offs - free.nOfLen) len := by
  have length : free.places.length = free.nOfLen := List.length_range'
  unfold selectedPlaces
  rw [usedRegions_cons hasLen, List.flatMap_cons, List.drop_append, length,
    List.drop_of_length_le (length.trans_le skipped), List.nil_append]

theorem selectedPlaces_first {free : OobFreeRegion} (hasLen : free.nOfLen ≠ 0)
    (regions : List OobFreeRegion) {offs : Nat}
    (inFirst : offs ≤ free.nOfLen) (len : Nat) :
    selectedPlaces (free :: regions) offs len =
      List.range' (free.nOfOffset + offs) (min len (free.nOfLen - offs)) ++
        selectedPlaces regions 0 (len - (free.nOfLen - offs)) := by
  have length : free.places.length = free.nOfLen := List.length_range'
  have front : free.places.drop offs =
      List.range' (free.nOfOffset + offs) (free.nOfLen - offs) := by
    rw [OobFreeRegion.places, List.drop_range', Nat.mul_one]
  have taken : (free.places.drop offs).take len =
      List.range' (free.nOfOffset + offs) (min len (free.nOfLen - offs)) := by
    rw [front]
    rcases Nat.le_total (free.nOfLen - offs) len with whole | part
    · rw [List.take_range'_of_length_le whole, Nat.min_eq_right whole]
    · rw [List.take_range'_of_length_ge part, Nat.min_eq_left part]
  unfold selectedPlaces
  rw [usedRegions_cons hasLen, List.flatMap_cons, List.drop_append, length,
    List.take_append, taken, front, List.length_range',
    Nat.sub_eq_zero_of_le inFirst]

/-- A round as it is without wrapping around.  Before the first piece `bytes`
is 0, and from it on `offs` is. -/
theorem oobPieces_cons {free : OobFreeRegion} (hasLen : free.nOfLen ≠ 0)
    (inside : free.nOfOffset + free.nOfLen < 2 ^ 32)
    (regions : List OobFreeRegion) {len offs bytes : Nat}
    (word : len < 2 ^ 32) (noneBefore : offs ≠ 0 → bytes = 0) :
    oobPieces (free :: regions) len offs bytes =
      if len = 0 then []
      else if offs ≠ 0 ∧ free.nOfLen ≤ offs then
        oobPieces regions len (offs - free.nOfLen) 0
      else
        ⟨free.nOfOffset + offs, min len (free.nOfLen - offs)⟩ ::
          oobPieces regions (len - min len (free.nOfLen - offs)) 0
            (min len (free.nOfLen - offs)) := by
  rw [oobPieces]
  simp only [hasLen, false_or]
  by_cases isDone : len = 0
  · rw [if_pos isDone, if_pos isDone]
  rw [if_neg isDone, if_neg isDone]
  by_cases skipped : offs ≠ 0 ∧ free.nOfLen ≤ offs
  · have isZero := noneBefore skipped.1
    rw [if_pos skipped, if_pos skipped, isZero,
      sub32_of_le word (Nat.zero_le len), Nat.sub_zero]
  · have start : add32 free.nOfOffset offs = free.nOfOffset + offs :=
      add32_of_lt (by omega)
    have left := sub32_of_le word (Nat.min_le_left len (free.nOfLen - offs))
    rw [if_neg skipped, if_neg skipped, start, left]

theorem places_oobPieces {freeRegion : List OobFreeRegion}
    (inside : ∀ free ∈ usedRegions freeRegion,
      free.nOfOffset + free.nOfLen < 2 ^ 32)
    {len offs bytes : Nat} (word : len < 2 ^ 32)
    (noneBefore : offs ≠ 0 → bytes = 0) :
    (oobPieces freeRegion len offs bytes).flatMap OobPiece.places =
      selectedPlaces freeRegion offs len := by
  induction freeRegion generalizing len offs bytes with
  | nil => simp [oobPieces, selectedPlaces, usedRegions]
  | cons free regions induction =>
      by_cases isEnd : free.nOfLen = 0
      · simp [oobPieces, selectedPlaces, usedRegions, isEnd]
      rw [usedRegions_cons isEnd, List.forall_mem_cons] at inside
      rw [oobPieces_cons isEnd inside.1 regions word noneBefore]
      by_cases isDone : len = 0
      · simp [selectedPlaces, isDone]
      rw [if_neg isDone]
      by_cases skipped : offs ≠ 0 ∧ free.nOfLen ≤ offs
      · rw [if_pos skipped, selectedPlaces_skip isEnd _ skipped.2]
        exact induction inside.2 word fun _ => rfl
      · have left : len - min len (free.nOfLen - offs) =
            len - (free.nOfLen - offs) := by omega
        rw [if_neg skipped, selectedPlaces_first isEnd _ (by omega),
          List.flatMap_cons, left, induction inside.2 (by omega) (absurd rfl)]
        rfl

theorem copyPieces_eq (nandOob : Nat → UInt8) (pieces : List OobPiece)
    (oobBuf : Nat) (memory : Nat → UInt8) :
    copyPieces nandOob pieces oobBuf memory =
      (overlayAt oobBuf ((pieces.flatMap OobPiece.places).map nandOob) memory,
        oobBuf + (pieces.flatMap OobPiece.places).length) := by
  induction pieces generalizing oobBuf memory with
  | nil => simp [copyPieces, overlayAt_nil]
  | cons piece pieces induction =>
      have length : oobBuf + piece.bytes =
          oobBuf + (piece.places.map nandOob).length := by
        rw [List.length_map, OobPiece.places, List.length_range']
      rw [copyPieces, induction, slice_eq_map, length,
        ← OobPiece.places, overlayAt_append]
      simp [Nat.add_assoc]

theorem fillPieces_eq (memory : Nat → UInt8) (pieces : List OobPiece)
    (oobBuf : Nat) (nandOob : Nat → UInt8) :
    let places := pieces.flatMap OobPiece.places
    fillPieces memory pieces oobBuf nandOob =
      (scatter places (slice memory oobBuf places.length) nandOob,
        oobBuf + places.length) := by
  induction pieces generalizing oobBuf nandOob with
  | nil => rfl
  | cons piece pieces induction =>
      have length : piece.places.length = piece.bytes := List.length_range'
      have stored := overlayAt_eq_scatter piece.boffs
        (slice memory oobBuf piece.bytes) nandOob
      rw [length_slice] at stored
      rw [fillPieces, induction, stored]
      simp only [List.flatMap_cons, List.length_append, length]
      rw [← slice_append, scatter_append, Nat.add_assoc]
      · rfl
      · rw [length, length_slice]

/-- The loop as it is without `bytes`, over the regions that have a length. -/
theorem fillRegions_eq_fillPieces (memory : Nat → UInt8)
    {freeRegion : List OobFreeRegion}
    (inside : ∀ free ∈ usedRegions freeRegion,
      free.nOfOffset + free.nOfLen < 2 ^ 32)
    {len offs bytes : Nat} (word : len < 2 ^ 32)
    (noneBefore : offs ≠ 0 → bytes = 0) (oobBuf : Nat)
    (nandOob : Nat → UInt8) :
    fillRegions memory (usedRegions freeRegion) len offs oobBuf nandOob =
      fillPieces memory (oobPieces freeRegion len offs bytes) oobBuf
        nandOob := by
  induction freeRegion generalizing len offs bytes oobBuf nandOob with
  | nil => rfl
  | cons free regions induction =>
      by_cases isEnd : free.nOfLen = 0
      · simp [oobPieces, usedRegions, isEnd, fillRegions, fillPieces]
      rw [usedRegions_cons isEnd, List.forall_mem_cons] at inside
      rw [usedRegions_cons isEnd, fillRegions,
        oobPieces_cons isEnd inside.1 regions word noneBefore]
      by_cases isDone : len = 0
      · rw [if_pos isDone, if_pos isDone, fillPieces]
      rw [if_neg isDone, if_neg isDone]
      by_cases skipped : offs ≠ 0 ∧ free.nOfLen ≤ offs
      · rw [if_pos skipped, if_pos skipped]
        exact induction inside.2 word (fun _ => rfl) _ _
      · rw [if_neg skipped, if_neg skipped]
        exact induction inside.2 (by omega) (absurd rfl) _ _

namespace OobLayout

variable (layout : OobLayout)

theorem insideWord :
    ∀ free ∈ usedRegions layout.freeRegion,
      free.nOfOffset + free.nOfLen < 2 ^ 32 :=
  fun free member => Nat.lt_of_le_of_lt (layout.inside free member) layout.word

/-- All free places of the layout. -/
def places : List Nat :=
  (usedRegions layout.freeRegion).flatMap OobFreeRegion.places

theorem nodup_places : layout.places.Nodup := by
  unfold places
  rw [List.nodup_flatMap]
  constructor
  · intro free _
    exact List.nodup_range'
  · apply layout.disjoint.imp
    intro first second apart place inFirst inSecond
    unfold OobFreeRegion.places at inFirst inSecond
    rw [List.mem_range'_1] at inFirst inSecond
    omega

theorem length_places : layout.places.length = layout.freeOobSum := by
  unfold places freeOobSum
  rw [List.length_flatMap]
  congr 1
  apply List.map_congr_left
  intro free _
  exact List.length_range'

theorem freeOobSum_le : layout.freeOobSum ≤ layout.oobSize := by
  have subset : layout.places ⊆ List.range layout.oobSize := by
    intro place member
    obtain ⟨free, used, inFree⟩ := List.mem_flatMap.mp member
    have bound := layout.inside free used
    unfold OobFreeRegion.places at inFree
    rw [List.mem_range'_1] at inFree
    rw [List.mem_range]
    omega
  have fewer := (List.subperm_of_subset layout.nodup_places subset).length_le
  rw [layout.length_places, List.length_range] at fewer
  exact fewer

variable {layout} {ooboffs len : Nat}
  (fits : ooboffs + len ≤ layout.freeOobSum)

include fits

theorem length_selectedPlaces :
    (selectedPlaces layout.freeRegion ooboffs len).length = len := by
  have total := layout.length_places
  unfold places at total
  unfold selectedPlaces
  rw [List.length_take, List.length_drop, total]
  omega

theorem places_pieces :
    (oobPieces layout.freeRegion len ooboffs 0).flatMap OobPiece.places =
      selectedPlaces layout.freeRegion ooboffs len := by
  have bound := layout.freeOobSum_le
  have word := layout.word
  exact places_oobPieces layout.insideWord (by omega) fun _ => rfl

/-- `nand_fill_oob` stores the bytes at the selected places. -/
theorem nandFillOobAuto_eq (memory : Nat → UInt8) (oobBuf : Nat)
    (nandOob : Nat → UInt8) :
    nandFillOobAuto layout.freeRegion ooboffs len memory oobBuf nandOob =
      (scatter (selectedPlaces layout.freeRegion ooboffs len)
        (slice memory oobBuf len) nandOob, oobBuf + len) := by
  have filled := fillPieces_eq memory
    (oobPieces layout.freeRegion len ooboffs 0) oobBuf nandOob
  dsimp only at filled
  rw [places_pieces fits, length_selectedPlaces fits] at filled
  exact filled

/-- `nand_copy_oob` collects them. -/
theorem nandCopyOobAuto_eq (nandOob : Nat → UInt8) (oobBuf : Nat)
    (memory : Nat → UInt8) :
    nandCopyOobAuto layout.freeRegion ooboffs len nandOob oobBuf memory =
      (overlayAt oobBuf
        ((selectedPlaces layout.freeRegion ooboffs len).map nandOob) memory,
        oobBuf + len) := by
  have copied := copyPieces_eq nandOob
    (oobPieces layout.freeRegion len ooboffs 0) oobBuf memory
  rw [places_pieces fits, length_selectedPlaces fits] at copied
  exact copied

/-- `nand_fill_oob` as it is in a write. -/
theorem nandFillOob_auto {opt : MtdOobWrite} (isAuto : opt.mode = .auto)
    (isOffs : opt.ooboffs = ooboffs) (isLen : opt.ooblen = len)
    (memory nandOob : Nat → UInt8) :
    nandFillOob (usedRegions layout.freeRegion) opt memory nandOob =
      nandFillOobAuto layout.freeRegion ooboffs len memory 0 nandOob := by
  have bound := layout.freeOobSum_le
  have word := layout.word
  rw [nandFillOob, isAuto, isOffs, isLen]
  exact fillRegions_eq_fillPieces memory layout.insideWord (by omega)
    (fun _ => rfl) 0 nandOob

end OobLayout

/-- What `nand_fill_oob` stores in a part of the free bytes is what
`nand_copy_oob` reads from it, and all other bytes are as before. -/
theorem copy_fill (layout : OobLayout) (ooboffs len : Nat)
    (fits : ooboffs + len ≤ layout.freeOobSum)
    (memory nandOob buffer : Nat → UInt8) (source target : Nat) :
    let filled :=
      (nandFillOobAuto layout.freeRegion ooboffs len memory source nandOob).1
    slice
        (nandCopyOobAuto layout.freeRegion ooboffs len filled target buffer).1
        target len =
      slice memory source len ∧
    ∀ place ∉ selectedPlaces layout.freeRegion ooboffs len,
      filled place = nandOob place := by
  have lengths : (selectedPlaces layout.freeRegion ooboffs len).length =
      (slice memory source len).length := by
    rw [OobLayout.length_selectedPlaces fits, length_slice]
  have distinct : (selectedPlaces layout.freeRegion ooboffs len).Nodup :=
    (layout.nodup_places.sublist (List.drop_sublist ooboffs _)).sublist
      (List.take_sublist len _)
  intro filled
  have isFilled : filled =
      scatter (selectedPlaces layout.freeRegion ooboffs len)
        (slice memory source len) nandOob :=
    congrArg Prod.fst (OobLayout.nandFillOobAuto_eq fits memory source nandOob)
  have collected := map_scatter distinct lengths nandOob
  constructor
  · have read := slice_overlayAt target (slice memory source len) buffer
    rw [length_slice] at read
    rw [OobLayout.nandCopyOobAuto_eq fits, isFilled, collected]
    exact read
  · intro place outside
    rw [isFilled]
    exact scatter_of_notMem _ nandOob outside

/-- Regions of 4 bytes at 0 and of 2 at 6. -/
def sampleRegions : List OobFreeRegion :=
  [⟨0, 4⟩, ⟨6, 2⟩, ⟨0, 0⟩]

theorem sixteen_lt_word : 16 < 2 ^ 32 := by
  decide

theorem sampleRegions_ended : ∃ free ∈ sampleRegions, free.nOfLen = 0 := by
  decide

theorem sampleRegions_inside : ∀ free ∈ usedRegions sampleRegions,
    free.nOfOffset + free.nOfLen ≤ 16 := by
  decide

theorem sampleRegions_disjoint :
    (usedRegions sampleRegions).Pairwise fun first second =>
      first.nOfOffset + first.nOfLen ≤ second.nOfOffset ∨
        second.nOfOffset + second.nOfLen ≤ first.nOfOffset := by
  decide

def sampleOobLayout : OobLayout where
  oobSize := 16
  freeRegion := sampleRegions
  word := sixteen_lt_word
  ended := sampleRegions_ended
  inside := sampleRegions_inside
  disjoint := sampleRegions_disjoint

/-- A byte on each side of the gap. -/
theorem copy_fill_gap :
    let filled :=
      (nandFillOobAuto sampleOobLayout.freeRegion 3 2
        (overlay [7, 9] fun _ => 1) 0 fun _ => 0).1
    slice
        (nandCopyOobAuto sampleOobLayout.freeRegion 3 2 filled 0
          fun _ => 0).1 0 2 = [7, 9] ∧
    ∀ place ∉ selectedPlaces sampleOobLayout.freeRegion 3 2,
      filled place = 0 :=
  copy_fill sampleOobLayout 3 2 (by decide) (overlay [7, 9] fun _ => 1)
    (fun _ => 0) (fun _ => 0) 0 0

end Witos.Flash
