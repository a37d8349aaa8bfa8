import Witos.Flash.HammingCode

/-!
# What the software ECC repairs

A page is written, bits of it flip on flash, and the page is read.  As
`nand_correct_data` returns before it corrects anything, the page is delivered
as it is on flash.  The rest of the two functions is right: with
`__nand_correct_data` in its place every flipped bit is repaired as long as no
step has two of them.
-/

namespace Witos.Flash

open Library

/-- The bytes of a step at `p` are as before, or one of them has one other
bit. -/
def AtMostOneFlip (page changed : Nat → UInt8) (p : Nat) : Prop :=
  (∀ j < softEccDataLen, changed (p + j) = page (p + j)) ∨
  ∃ byte < softEccDataLen, ∃ bit < 8, ∀ j < softEccDataLen,
    changed (p + j) =
      if j = byte then page (p + j) ^^^ (1 <<< UInt8.ofNat bit)
      else page (p + j)

/-- Every step of a page has at most one flipped bit. -/
def SingleFlips (writeSize : Nat) (page changed : Nat → UInt8) : Prop :=
  ∀ step < eccSteps writeSize,
    AtMostOneFlip page changed (softEccDataLen * step)

/-- Number of steps in which two pages differ. -/
def changedSteps (writeSize : Nat) (page changed : Nat → UInt8) : Nat :=
  (List.range (eccSteps writeSize)).countP fun step =>
    slice changed (softEccDataLen * step) softEccDataLen ≠
      slice page (softEccDataLen * step) softEccDataLen

/-- The chip after a page was written and its data on flash have become
`changed`. -/
def storedPage (calculate : Calculate) (layout : PageLayout)
    (chip : NandChip) (page changed : Nat → UInt8) : NandChip :=
  { nandWritePageSwecc calculate layout chip page with data := changed }

/-- A read after the change delivers the page that was written and counts the
steps it had to correct. -/
structure Repairs
    (read : PageLayout → NandChip → (Nat → UInt8) →
      NandChip × (Nat → UInt8))
    (calculate : Calculate) (layout : PageLayout) (chip : NandChip)
    (page changed buff : Nat → UInt8) : Prop where
  delivered : ∀ i < layout.writeSize,
    (read layout (storedPage calculate layout chip page changed) buff).2 i =
      page i
  counted :
    (read layout (storedPage calculate layout chip page changed)
        buff).1.eccCorrectCount =
      chip.eccCorrectCount +
        UInt32.ofNat (changedSteps layout.writeSize page changed)

theorem PageLayout.step_inside (layout : PageLayout) {step j : Nat}
    (inPage : step < eccSteps layout.writeSize) (inStep : j < softEccDataLen) :
    softEccDataLen * step + j < layout.writeSize := by
  have whole := layout.whole
  unfold eccSteps at inPage
  unfold softEccDataLen at *
  omega

/-- Corrections that do nothing leave the chip and the buffer alone. -/
theorem correctSteps_nandCorrectData (steps i p : Nat)
    (state : NandChip × (Nat → UInt8)) :
    correctSteps nandCorrectData steps i p state = state := by
  induction steps generalizing i p state with
  | zero => rfl
  | succ steps induction =>
      obtain ⟨chip, buff⟩ := state
      have unchanged : ({ chip with
          eccCorrectCount :=
            chip.eccCorrectCount + UInt32.ofNat (0 : Int).toNat } :
          NandChip) = chip := by simp
      simp only [correctSteps, nandCorrectData, lt_self_iff_false, if_false,
        unchanged]
      exact induction _ _ _

theorem nandReadPageSwecc_result (calculate : Calculate)
    (layout : PageLayout) (chip : NandChip) (buff : Nat → UInt8) :
    (nandReadPageSwecc calculate layout chip buff).2 =
        patch layout.writeSize chip.data buff ∧
      (nandReadPageSwecc calculate layout chip buff).1.eccCorrectCount =
        chip.eccCorrectCount := by
  unfold nandReadPageSwecc readPageWith
  simp only [nandReadPageRaw, correctSteps_nandCorrectData, and_self]

/-- Pages without a flipped bit have no changed steps. -/
theorem changedSteps_eq_zero (layout : PageLayout)
    {page changed : Nat → UInt8}
    (same : ∀ i < layout.writeSize, changed i = page i) :
    changedSteps layout.writeSize page changed = 0 := by
  unfold changedSteps
  rw [List.countP_eq_zero]
  intro step member
  have equal : slice changed (softEccDataLen * step) softEccDataLen =
      slice page (softEccDataLen * step) softEccDataLen := by
    apply slice_congr
    intro j inStep
    exact same _ (layout.step_inside (List.mem_range.mp member) inStep)
  simp [equal]

/-- Whatever the layout, the code and the change: `nand_read_page_swecc`
delivers the page and counts right exactly when no bit of it was flipped. -/
theorem nandReadPageSwecc_repairs_iff (calculate : Calculate)
    (layout : PageLayout) (chip : NandChip)
    (page changed buff : Nat → UInt8) :
    Repairs (nandReadPageSwecc calculate) calculate layout chip page changed
        buff ↔
      ∀ i < layout.writeSize, changed i = page i := by
  obtain ⟨content, count⟩ := nandReadPageSwecc_result calculate layout
    (storedPage calculate layout chip page changed) buff
  have data : ∀ i < layout.writeSize,
      patch layout.writeSize
        (storedPage calculate layout chip page changed).data buff i =
      changed i := by
    intro i inPage
    exact if_pos inPage
  constructor
  · intro repairs i inPage
    have delivered := repairs.delivered i inPage
    rw [content, data i inPage] at delivered
    exact delivered
  · intro same
    constructor
    · intro i inPage
      rw [content, data i inPage]
      exact same i inPage
    · rw [count, changedSteps_eq_zero layout same]
      simp [storedPage, nandWritePageSwecc, nandWritePageRaw]

/-- One bit of an empty page flips. -/
theorem nandReadPageSwecc_not_repairs :
    ¬ ∀ (layout : PageLayout) (chip : NandChip)
        (page changed buff : Nat → UInt8),
      SingleFlips layout.writeSize page changed →
      Repairs (nandReadPageSwecc hammingCode) hammingCode layout chip page
        changed buff := by
  intro always
  let layout : PageLayout :=
    { writeSize := 256
      oobSize := 8
      eccPos := id
      whole := rfl
      inside := by decide
      once := fun _ _ _ _ same => same }
  let chip : NandChip := ⟨fun _ => 0xff, fun _ => 0xff, fun _ => 0xff,
    fun _ => 0, fun _ => 0, 0, 0⟩
  let changed : Nat → UInt8 := fun i => if i = 0 then 1 else 0
  have flips : SingleFlips layout.writeSize (fun _ => 0) changed := by
    intro step inPage
    have first : step = 0 := by
      change step < eccSteps 256 at inPage
      have steps : eccSteps 256 = 1 := by decide
      omega
    subst first
    refine .inr ⟨0, by decide, 0, by decide, ?_⟩
    intro j _
    simp only [Nat.mul_zero, Nat.zero_add, changed]
    split <;> rfl
  have repairs := always layout chip (fun _ => 0) changed (fun _ => 0) flips
  have content := (nandReadPageSwecc_result hammingCode layout
    (storedPage hammingCode layout chip (fun _ => 0) changed)
      (fun _ => 0)).1
  have delivered := repairs.delivered 0 (by decide)
  rw [content] at delivered
  exact absurd delivered (by decide)

theorem testBit_flip (byte : UInt8) (place : Nat) {bit : Nat}
    (inByte : bit < 8) :
    (byte ^^^ (1 <<< UInt8.ofNat bit)).toNat.testBit place =
      (byte.toNat.testBit place ^^ decide (place = bit)) := by
  have power : ((1 : UInt8) <<< UInt8.ofNat bit).toNat = 2 ^ bit := by
    revert bit
    decide
  rw [UInt8.toNat_xor, Nat.testBit_xor, power, Nat.testBit_two_pow]
  congr 1
  exact decide_eq_decide.mpr eq_comm

theorem bitOf_slice (memory : Nat → UInt8) (p : Nat) {place : Nat × Nat}
    (member : place ∈ stepBits) :
    bitOf (slice memory p softEccDataLen) place =
      (memory (p + place.1)).toNat.testBit place.2 := by
  have inStep := (mem_stepBits.mp member).1
  have cell : (slice memory p softEccDataLen).getD place.1 0 =
      memory (p + place.1) := by
    simp [slice, inStep]
  rw [bitOf, cell]

/-- One step of the correcting loop restores the bytes of the step, touches no
others, and tells whether it had to correct. -/
theorem nandCorrectStep_restores {page changed buff : Nat → UInt8} {p : Nat}
    (flips : AtMostOneFlip page changed p)
    (current : ∀ j < softEccDataLen, buff (p + j) = changed (p + j)) :
    ∃ stat buff', nandCorrectStep softEccDataLen buff p
        (hammingCode (slice page p softEccDataLen))
        (hammingCode (slice changed p softEccDataLen)) = (stat, buff') ∧
      ¬stat < 0 ∧
      stat.toNat = (if slice changed p softEccDataLen ≠
        slice page p softEccDataLen then 1 else 0) ∧
      (∀ j < softEccDataLen, buff' (p + j) = page (p + j)) ∧
      ∀ i, i < p ∨ p + softEccDataLen ≤ i → buff' i = buff i := by
  rcases flips with same | ⟨byte, inStep, bit, inByte, flipped⟩
  · have equal : slice changed p softEccDataLen =
        slice page p softEccDataLen := slice_congr same
    refine ⟨0, buff, ?_, by decide, by simp [equal], ?_, fun _ _ => rfl⟩
    · rw [equal, nandCorrectStep_same]
    · intro j inWindow
      rw [current j inWindow, same j inWindow]
  · have member : (byte, bit) ∈ stepBits :=
      mem_stepBits.mpr ⟨inStep, inByte⟩
    have flip : FlippedAt (byte, bit) (slice page p softEccDataLen)
        (slice changed p softEccDataLen) := by
      intro place inPlaces
      rw [bitOf_slice _ _ inPlaces, bitOf_slice _ _ inPlaces,
        flipped place.1 (mem_stepBits.mp inPlaces).1]
      by_cases here : place.1 = byte
      · rw [if_pos here, testBit_flip _ _ inByte]
        simp [Prod.ext_iff, here]
      · rw [if_neg here]
        simp [Prod.ext_iff, here]
    have different : slice changed p softEccDataLen ≠
        slice page p softEccDataLen := by
      intro equal
      have toggled := flip (byte, bit) member
      rw [equal] at toggled
      simp at toggled
    refine ⟨1, Function.update buff (p + byte)
      (buff (p + byte) ^^^ (1 <<< UInt8.ofNat bit)),
      nandCorrectStep_flipped member flip buff p, by decide,
      by simp [different], ?_, ?_⟩
    · intro j inWindow
      by_cases here : j = byte
      · subst here
        rw [Function.update_self, current j inWindow, flipped j inWindow,
          if_pos rfl, UInt8.xor_assoc, UInt8.xor_self, UInt8.xor_zero]
      · rw [Function.update_of_ne (by omega), current j inWindow,
          flipped j inWindow, if_neg here]
    · intro i outside
      exact Function.update_of_ne (by omega) _ _

/-- Steps with at most one flip each, the codes of the page as written, and
those of the page as it is now. -/
structure CodedSteps (page changed : Nat → UInt8) (chip : NandChip)
    (first steps : Nat) : Prop where
  flips : ∀ step, first ≤ step → step < first + steps →
    AtMostOneFlip page changed (softEccDataLen * step)
  saved : ∀ step, first ≤ step → step < first + steps →
    eccCodeAt chip.eccCode (softEccCodeNum * step) =
      hammingCode (slice page (softEccDataLen * step) softEccDataLen)
  calculated : ∀ step, first ≤ step → step < first + steps →
    eccCodeAt chip.eccCalc (softEccCodeNum * step) =
      hammingCode (slice changed (softEccDataLen * step) softEccDataLen)

theorem CodedSteps.next {page changed : Nat → UInt8} {chip : NandChip}
    {first steps : Nat}
    (coded : CodedSteps page changed chip first (steps + 1))
    (count : UInt32) :
    CodedSteps page changed { chip with eccCorrectCount := count } (first + 1)
      steps where
  flips step low high := coded.flips step (by omega) (by omega)
  saved step low high := coded.saved step (by omega) (by omega)
  calculated step low high := coded.calculated step (by omega) (by omega)

/-- The number of corrections that a step needs. -/
def corrections (page changed : Nat → UInt8) (step : Nat) : Nat :=
  if slice changed (softEccDataLen * step) softEccDataLen ≠
    slice page (softEccDataLen * step) softEccDataLen then 1 else 0

/-- A round restores its step, touches no other byte, and counts the step if
it was changed. -/
theorem correctSteps_round {page changed : Nat → UInt8} {steps first : Nat}
    {chip : NandChip} {buff : Nat → UInt8}
    (coded : CodedSteps page changed chip first (steps + 1))
    (current : ∀ i, softEccDataLen * first ≤ i →
      i < softEccDataLen * (first + 1) → buff i = changed i) :
    ∃ buff',
      correctSteps (nandCorrectStep softEccDataLen) (steps + 1)
          (softEccCodeNum * first) (softEccDataLen * first) (chip, buff) =
        correctSteps (nandCorrectStep softEccDataLen) steps
          (softEccCodeNum * (first + 1)) (softEccDataLen * (first + 1))
          ({ chip with
              eccCorrectCount := chip.eccCorrectCount +
                UInt32.ofNat (corrections page changed first) },
            buff') ∧
      (∀ i, softEccDataLen * first ≤ i →
        i < softEccDataLen * (first + 1) → buff' i = page i) ∧
      ∀ i, i < softEccDataLen * first ∨ softEccDataLen * (first + 1) ≤ i →
        buff' i = buff i := by
  have nextCode : softEccCodeNum * first + softEccCodeNum =
      softEccCodeNum * (first + 1) := rfl
  have nextData : softEccDataLen * first + softEccDataLen =
      softEccDataLen * (first + 1) := rfl
  obtain ⟨stat, buff', corrected, fine, counted, restored, others⟩ :=
    nandCorrectStep_restores (coded.flips first (by omega) (by omega))
      fun j inStep => current (softEccDataLen * first + j) (by omega)
        (by omega)
  refine ⟨buff', ?_, ?_, others⟩
  · rw [corrections, ← counted]
    simp only [correctSteps, coded.saved first (by omega) (by omega),
      coded.calculated first (by omega) (by omega), corrected, fine,
      if_false, nextCode, nextData]
  · intro i low high
    have place : softEccDataLen * first + (i - softEccDataLen * first) = i :=
      Nat.add_sub_cancel' low
    rw [← place]
    exact restored _ (by omega)

/-- The loop restores one step after the other and counts the changed ones. -/
theorem correctSteps_restores {page changed : Nat → UInt8}
    (steps first : Nat) {chip : NandChip} {buff : Nat → UInt8}
    (coded : CodedSteps page changed chip first steps)
    (current : ∀ i, softEccDataLen * first ≤ i →
      i < softEccDataLen * (first + steps) → buff i = changed i) :
    let result := correctSteps (nandCorrectStep softEccDataLen) steps
      (softEccCodeNum * first) (softEccDataLen * first) (chip, buff)
    (∀ i, softEccDataLen * first ≤ i →
      i < softEccDataLen * (first + steps) → result.2 i = page i) ∧
    (∀ i < softEccDataLen * first, result.2 i = buff i) ∧
    result.1.eccCorrectCount = chip.eccCorrectCount +
      UInt32.ofNat ((List.range' first steps).countP fun step =>
        slice changed (softEccDataLen * step) softEccDataLen ≠
          slice page (softEccDataLen * step) softEccDataLen) := by
  induction steps generalizing first chip buff with
  | zero =>
      refine ⟨?_, fun _ _ => rfl, by simp [correctSteps]⟩
      intro i low high
      rw [Nat.add_zero] at high
      omega
  | succ steps induction =>
      have inRange : softEccDataLen * (first + 1) ≤
          softEccDataLen * (first + (steps + 1)) :=
        Nat.mul_le_mul_left _ (by omega)
      have nextData : softEccDataLen * first + softEccDataLen =
          softEccDataLen * (first + 1) := rfl
      have same : first + 1 + steps = first + (steps + 1) := by omega
      obtain ⟨buff', round, restored, others⟩ := correctSteps_round coded
        fun i low high => current i low (by omega)
      have untouched : ∀ i, softEccDataLen * (first + 1) ≤ i →
          i < softEccDataLen * (first + 1 + steps) → buff' i = changed i := by
        intro i low high
        rw [others i (.inr low)]
        exact current i (by omega) (same ▸ high)
      obtain ⟨later, before, count⟩ := induction (first + 1)
        (coded.next (chip.eccCorrectCount +
          UInt32.ofNat (corrections page changed first)))
        untouched
      rw [round]
      refine ⟨?_, ?_, ?_⟩
      · intro i low high
        by_cases here : i < softEccDataLen * (first + 1)
        · rw [before i here, restored i low here]
        · exact later i (Nat.le_of_not_lt here) (same ▸ high)
      · intro i below
        rw [before i (by omega), others i (.inl below)]
      · rw [count, List.range'_succ, List.countP_cons, UInt32.ofNat_add,
          UInt32.add_comm (UInt32.ofNat (List.countP _ _)),
          UInt32.add_assoc, corrections]
        simp only [decide_eq_true_eq]

theorem eccCodeAt_congr {left right : Nat → UInt8} {i : Nat}
    (same : ∀ j < softEccCodeNum, left (i + j) = right (i + j)) :
    eccCodeAt left i = eccCodeAt right i := by
  have first := same 0 (by decide)
  have second := same 1 (by decide)
  have third := same 2 (by decide)
  rw [Nat.add_zero] at first
  simp only [eccCodeAt, first, second, third]

theorem eccCodeAt_overlayAt (i : Nat) (code : EccCode)
    (codes : Nat → UInt8) :
    eccCodeAt (overlayAt i code.bytes codes) i = code := by
  simp [eccCodeAt, overlayAt, EccCode.bytes]

theorem calculateSteps_before (calculate : Calculate) (buff : Nat → UInt8)
    (steps i p : Nat) (codes : Nat → UInt8) {index : Nat}
    (before : index < i) :
    calculateSteps calculate buff steps i p codes index = codes index := by
  induction steps generalizing i p codes with
  | zero => rfl
  | succ steps induction =>
      rw [calculateSteps, induction _ _ _ (by omega),
        overlayAt_of_lt _ _ before]

theorem calculateSteps_at (calculate : Calculate) (buff : Nat → UInt8)
    {steps step : Nat} (inPage : step < steps) (i p : Nat)
    (codes : Nat → UInt8) :
    eccCodeAt (calculateSteps calculate buff steps i p codes)
        (i + softEccCodeNum * step) =
      calculate (slice buff (p + softEccDataLen * step) softEccDataLen) := by
  induction steps generalizing step i p codes with
  | zero => omega
  | succ steps induction =>
      rw [calculateSteps]
      cases step with
      | zero =>
          have kept : eccCodeAt (calculateSteps calculate buff steps
              (i + softEccCodeNum) (p + softEccDataLen)
              (overlayAt i
                (calculate (slice buff p softEccDataLen)).bytes codes)) i =
            eccCodeAt (overlayAt i
              (calculate (slice buff p softEccDataLen)).bytes codes) i := by
            apply eccCodeAt_congr
            intro j inCode
            exact calculateSteps_before _ _ _ _ _ _ (by omega)
          rw [Nat.mul_zero, Nat.mul_zero, Nat.add_zero, Nat.add_zero, kept,
            eccCodeAt_overlayAt]
      | succ step =>
          have place : i + softEccCodeNum * (step + 1) =
              i + softEccCodeNum + softEccCodeNum * step := by
            rw [Nat.mul_succ]
            omega
          have window : p + softEccDataLen * (step + 1) =
              p + softEccDataLen + softEccDataLen * step := by
            rw [Nat.mul_succ]
            omega
          rw [place, window, induction (by omega)]

theorem scatterCodes_of_ne (eccPos : Nat → Nat) (codes : Nat → UInt8)
    (count : Nat) (oobBuf : Nat → UInt8) {place : Nat}
    (other : ∀ i < count, eccPos i ≠ place) :
    scatterCodes eccPos codes count oobBuf place = oobBuf place := by
  induction count generalizing oobBuf with
  | zero => rfl
  | succ count induction =>
      rw [scatterCodes, induction _ fun i below => other i (by omega),
        Function.update_of_ne (other count (by omega)).symm]

theorem scatterCodes_at {eccPos : Nat → Nat} {count : Nat}
    (once : ∀ i < count, ∀ j < count, eccPos i = eccPos j → i = j)
    (codes oobBuf : Nat → UInt8) {i : Nat} (inside : i < count) :
    scatterCodes eccPos codes count oobBuf (eccPos i) = codes i := by
  induction count generalizing oobBuf with
  | zero => omega
  | succ count induction =>
      rw [scatterCodes]
      by_cases last : i = count
      · subst last
        rw [scatterCodes_of_ne, Function.update_self]
        intro j below same
        have := once j (by omega) i (by omega) same
        omega
      · exact induction
          (fun j below k below' => once j (by omega) k (by omega)) _
          (by omega)

theorem gatherCodes_at (eccPos : Nat → Nat) (oobBuf : Nat → UInt8)
    {count i : Nat} (inside : i < count) (codes : Nat → UInt8) :
    gatherCodes eccPos oobBuf count codes i = oobBuf (eccPos i) := by
  have beyond : ∀ (count : Nat) (codes : Nat → UInt8), count ≤ i →
      gatherCodes eccPos oobBuf count codes i = codes i := by
    intro count
    induction count with
    | zero => exact fun _ _ => rfl
    | succ count induction =>
        intro codes above
        rw [gatherCodes, induction _ (by omega),
          Function.update_of_ne (by omega)]
  induction count generalizing codes with
  | zero => omega
  | succ count induction =>
      rw [gatherCodes]
      by_cases last : i = count
      · subst last
        rw [beyond i _ (Nat.le_refl i), Function.update_self]
      · exact induction (by omega) _

theorem gathered_codes (calculate : Calculate) (layout : PageLayout)
    (chip : NandChip) (page changed codes oobBuf : Nat → UInt8) {step : Nat}
    (inPage : step < eccSteps layout.writeSize) :
    eccCodeAt (gatherCodes layout.eccPos
        (patch layout.oobSize
          (storedPage calculate layout chip page changed).oob oobBuf)
        (softEccCodeNum * eccSteps layout.writeSize) codes)
        (softEccCodeNum * step) =
      calculate (slice page (softEccDataLen * step) softEccDataLen) := by
  have travelled : ∀ j < softEccCodeNum,
      gatherCodes layout.eccPos
        (patch layout.oobSize
          (storedPage calculate layout chip page changed).oob oobBuf)
        (softEccCodeNum * eccSteps layout.writeSize) codes
        (softEccCodeNum * step + j) =
      calculateSteps calculate page (eccSteps layout.writeSize) 0 0
        chip.eccCalc (softEccCodeNum * step + j) := by
    intro j inCode
    have below : softEccCodeNum * step + j <
        softEccCodeNum * eccSteps layout.writeSize := by
      unfold softEccCodeNum at *
      omega
    have spare := layout.inside _ below
    rw [gatherCodes_at _ _ below]
    simp only [storedPage, nandWritePageSwecc, nandWritePageRaw, patch,
      spare, if_true]
    exact scatterCodes_at layout.once _ _ below
  rw [eccCodeAt_congr travelled]
  have calculated := calculateSteps_at calculate page inPage 0 0 chip.eccCalc
  simpa only [Nat.zero_add] using calculated

/-- With `__nand_correct_data` behind `nand_correct_data` and the standard
code, every page with at most one flipped bit in each step is repaired and the
steps are counted right. -/
theorem readPageWith_repairs (layout : PageLayout) (chip : NandChip)
    {page changed : Nat → UInt8} (buff : Nat → UInt8)
    (flips : SingleFlips layout.writeSize page changed) :
    Repairs
      (readPageWith (nandCorrectStep softEccDataLen) hammingCode)
      hammingCode layout chip page changed buff := by
  have inPage : ∀ i < softEccDataLen * eccSteps layout.writeSize,
      i < layout.writeSize := by
    intro i below
    have whole := layout.whole
    unfold eccSteps at below
    unfold softEccDataLen at *
    omega
  have content : ∀ i < layout.writeSize,
      patch layout.writeSize changed buff i = changed i :=
    fun i inside => if_pos inside
  have coded : CodedSteps page changed
      { storedPage hammingCode layout chip page changed with
        oobBuf := patch layout.oobSize
          (storedPage hammingCode layout chip page changed).oob
          (storedPage hammingCode layout chip page changed).oobBuf
        eccCalc := calculateSteps hammingCode
          (patch layout.writeSize changed buff) (eccSteps layout.writeSize) 0 0
          (storedPage hammingCode layout chip page changed).eccCalc
        eccCode := gatherCodes layout.eccPos
          (patch layout.oobSize
            (storedPage hammingCode layout chip page changed).oob
            (storedPage hammingCode layout chip page changed).oobBuf)
          (softEccCodeNum * eccSteps layout.writeSize)
          (storedPage hammingCode layout chip page changed).eccCode }
      0 (eccSteps layout.writeSize) := by
    constructor
    · exact fun step _ below => flips step (by omega)
    · exact fun step _ below => gathered_codes _ _ _ _ _ _ _ (by omega)
    · intro step _ below
      have calculated := calculateSteps_at hammingCode
        (patch layout.writeSize changed buff)
        (show step < eccSteps layout.writeSize by omega) 0 0
        (storedPage hammingCode layout chip page changed).eccCalc
      rw [Nat.zero_add, Nat.zero_add] at calculated
      rw [calculated]
      congr 1
      apply slice_congr
      intro j inStep
      exact content _ (layout.step_inside (by omega) inStep)
  obtain ⟨restored, -, count⟩ := correctSteps_restores
    (eccSteps layout.writeSize) 0 coded
    (fun i _ below => content i (inPage i (by simpa using below)))
  constructor
  · intro i inside
    refine restored i (by omega) ?_
    have whole := layout.whole
    unfold eccSteps softEccDataLen at *
    omega
  · refine count.trans ?_
    unfold changedSteps
    rw [List.range_eq_range']
    simp [storedPage, nandWritePageSwecc, nandWritePageRaw]

end Witos.Flash
