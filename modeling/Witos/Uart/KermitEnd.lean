import Witos.Uart.Kermit

/-!
# When the Kermit loop ends

The condition of the loop looks at the type of the last packet that had the
expected number, whether it was accepted or not, and at the initial value of
`type` before there was one.
-/

namespace Witos.Uart

open Library

theorem loopTest_of_break {load : Load} (isBreak : load.type = kermTypeBreak) :
    loopTest load = (some .normal, load) :=
  if_pos isBreak

theorem loopTest_of_ne {load : Load} (goesOn : load.type ≠ kermTypeBreak) :
    loopTest load = (none, load) :=
  if_neg goesOn

theorem loopTest_normal {load final : Load}
    (ends : loopTest load = (some .normal, final)) :
    load.type = kermTypeBreak := by
  by_contra goesOn
  rw [loopTest_of_ne goesOn] at ends
  cases ends

/-- A packet that is accepted and ends the transfer. -/
structure AcceptsBreak (delivery : Delivery) (load : Load) : Prop where
  fits : delivery.frame.length ≤ kermBufLen
  seq : packetSeq (load.receive delivery.frame).buff = load.realSeq
  type : packetType (load.receive delivery.frame).buff = kermTypeBreak
  checks : ChecksOut (load.receive delivery.frame).buff
  terminated : IsTerminated (load.receive delivery.frame).buff

/-- A packet that is not accepted and ends the loop all the same: it is out of
sequence and the last type seen is a break, or it is a break with the expected
number that fails the checksum. -/
def EndsEarly (delivery : Delivery) (load : Load) : Prop :=
  delivery.frame.length ≤ kermBufLen ∧
    (packetSeq (load.receive delivery.frame).buff ≠ load.realSeq ∧
        load.type = kermTypeBreak ∨
      packetSeq (load.receive delivery.frame).buff = load.realSeq ∧
        packetType (load.receive delivery.frame).buff = kermTypeBreak ∧
        ¬ ChecksOut (load.receive delivery.frame).buff)

theorem kermitStep_unexpected (opt : LoaderOpt) {delivery : Delivery}
    {load : Load} (fits : delivery.frame.length ≤ kermBufLen)
    (unexpected : packetSeq (load.receive delivery.frame).buff ≠
      load.realSeq) :
    kermitStep opt delivery load =
      loopTest ((load.receive delivery.frame).sendAck load.realSeq
        kermTypeNack) := by
  unfold kermitStep
  rw [if_neg (Nat.not_lt.mpr fits)]
  exact if_pos unexpected

theorem kermitStep_expected (opt : LoaderOpt) {delivery : Delivery}
    {load : Load} (fits : delivery.frame.length ≤ kermBufLen)
    (expected : packetSeq (load.receive delivery.frame).buff =
      load.realSeq) :
    kermitStep opt delivery load =
      handlePacket opt delivery load.realSeq
        (load.receive delivery.frame).advance := by
  unfold kermitStep
  rw [if_neg (Nat.not_lt.mpr fits)]
  exact if_neg (not_not_intro expected)

theorem data_of_break {load : Load} (isBreak : load.type = kermTypeBreak) :
    load.data = [] := by
  unfold Load.data
  rw [isBreak]
  rfl

theorem handlePacket_damaged (opt : LoaderOpt) (delivery : Delivery)
    (seq : Nat) {load : Load}
    (room : ¬ (opt.loadAddr = false ∧ kermBufLen < load.data.length))
    (damaged : ¬ ChecksOut load.buff) :
    handlePacket opt delivery seq load =
      loopTest (load.store.sendAck load.realSeq kermTypeNack) := by
  unfold handlePacket
  dsimp only
  rw [if_neg room]
  exact if_pos damaged

theorem not_full_of_break (opt : LoaderOpt) {load : Load}
    (isBreak : load.type = kermTypeBreak) :
    ¬ (opt.loadAddr = false ∧ kermBufLen < load.data.length) := by
  rw [data_of_break isBreak]
  rintro ⟨-, long⟩
  exact absurd long (Nat.not_lt_zero _)

theorem handlePacket_normal {opt : LoaderOpt} {delivery : Delivery}
    {seq : Nat} {load final : Load}
    (ends : handlePacket opt delivery seq load = (some .normal, final)) :
    load.type = kermTypeBreak ∧
      (ChecksOut load.buff → IsTerminated load.buff) := by
  unfold handlePacket at ends
  dsimp only at ends
  split at ends
  · cases ends
  · split at ends
    case isTrue damaged =>
      have isBreak := loopTest_normal ends
      exact ⟨isBreak, fun intact => absurd intact damaged⟩
    case isFalse =>
      split at ends
      case isTrue => cases ends
      case isFalse terminated =>
        split at ends
        case h_1 => cases ends
        case h_2 =>
          have isBreak := loopTest_normal ends
          exact ⟨isBreak, fun _ => not_not.mp terminated⟩

theorem handlePacket_break (opt : LoaderOpt) (delivery : Delivery)
    (seq : Nat) {load : Load} (isBreak : load.type = kermTypeBreak)
    (checks : ChecksOut load.buff) (terminated : IsTerminated load.buff) :
    (handlePacket opt delivery seq load).1 ≠ none := by
  unfold handlePacket
  dsimp only
  rw [if_neg (not_full_of_break opt isBreak),
    if_neg (not_not_intro checks), if_neg (not_not_intro terminated)]
  split
  case h_1 => simp
  case h_2 written _ =>
    have ends : (load.store.accept opt seq written).type = kermTypeBreak :=
      isBreak
    rw [loopTest_of_break ends]
    simp

theorem kermitStep_endsEarly (opt : LoaderOpt) {delivery : Delivery}
    {load : Load} (early : EndsEarly delivery load) :
    ∃ final, kermitStep opt delivery load = (some .normal, final) ∧
      final.sink.loadSize = load.sink.loadSize := by
  obtain ⟨fits, ⟨unexpected, isBreak⟩ | ⟨expected, isBreak, damaged⟩⟩ := early
  · rw [kermitStep_unexpected opt fits unexpected]
    exact ⟨_, loopTest_of_break isBreak, rfl⟩
  · have advanced : (load.receive delivery.frame).advance.type =
        kermTypeBreak := isBreak
    rw [kermitStep_expected opt fits expected,
      handlePacket_damaged opt delivery _ (not_full_of_break opt advanced)
        damaged]
    exact ⟨_, loopTest_of_break advanced, rfl⟩

theorem kermitStep_normal {opt : LoaderOpt} {delivery : Delivery}
    {load final : Load}
    (ends : kermitStep opt delivery load = (some .normal, final)) :
    EndsEarly delivery load ∨ AcceptsBreak delivery load := by
  by_cases fits : delivery.frame.length ≤ kermBufLen
  · by_cases expected :
        packetSeq (load.receive delivery.frame).buff = load.realSeq
    · rw [kermitStep_expected opt fits expected] at ends
      obtain ⟨isBreak, terminated⟩ := handlePacket_normal ends
      by_cases checks : ChecksOut (load.receive delivery.frame).buff
      · exact Or.inr ⟨fits, expected, isBreak, checks, terminated checks⟩
      · exact Or.inl ⟨fits, Or.inr ⟨expected, isBreak, checks⟩⟩
    · rw [kermitStep_unexpected opt fits expected] at ends
      have isBreak := loopTest_normal ends
      exact Or.inl ⟨fits, Or.inl ⟨expected, isBreak⟩⟩
  · unfold kermitStep at ends
    rw [if_pos (Nat.not_le.mp fits)] at ends
    cases ends

theorem kermitStep_acceptsBreak (opt : LoaderOpt) {delivery : Delivery}
    {load : Load} (accepts : AcceptsBreak delivery load) :
    (kermitStep opt delivery load).1 ≠ none := by
  rw [kermitStep_expected opt accepts.fits accepts.seq]
  exact handlePacket_break opt delivery _ accepts.type accepts.checks
    accepts.terminated

theorem EndsEarly.not_acceptsBreak {delivery : Delivery} {load : Load}
    (early : EndsEarly delivery load) : ¬ AcceptsBreak delivery load := by
  intro accepts
  obtain ⟨-, ⟨unexpected, -⟩ | ⟨-, -, damaged⟩⟩ := early
  · exact unexpected accepts.seq
  · exact damaged accepts.checks

/-- The iterations of `kermit_load` on a byte stream. -/
def kermitIterations (opt : LoaderOpt) (io : Nat → Io)
    (stream : List UInt8) (load : Load) : List (Load × Delivery) :=
  Loop.iterations (kermitStep opt) (deliveries io stream) load

/-- A loop that ends with a size that is not negative has accepted a break, if
no iteration ends it early with such a size. -/
theorem acceptsBreak_of_run {opt : LoaderOpt} {inputs : List Delivery}
    {start final : Load}
    (left : Loop.run (kermitStep opt) inputs start = (some .normal, final))
    (fine : ∀ iteration ∈ Loop.iterations (kermitStep opt) inputs start,
      EndsEarly iteration.2 iteration.1 →
        signed32 iteration.1.sink.loadSize < 0)
    (positive : 0 ≤ signed32 final.sink.loadSize) :
    ∃ iteration ∈ Loop.iterations (kermitStep opt) inputs start,
      AcceptsBreak iteration.2 iteration.1 := by
  obtain ⟨iteration, member, ends⟩ := Loop.exists_of_run left
  refine ⟨iteration, member, ?_⟩
  rcases kermitStep_normal ends with early | accepts
  · have negative := fine iteration member early
    obtain ⟨last, ends', size⟩ := kermitStep_endsEarly opt early
    rw [ends'] at ends
    cases ends
    rw [← size] at negative
    exact absurd positive (Int.not_le.mpr negative)
  · exact accepts

/-- An iteration that ends the loop early accepts no break, nor does another. -/
theorem not_acceptsBreak_of_early {opt : LoaderOpt}
    {inputs : List Delivery} {start : Load} {iteration other : Load × Delivery}
    (member : iteration ∈ Loop.iterations (kermitStep opt) inputs start)
    (early : EndsEarly iteration.2 iteration.1)
    (otherMember : other ∈ Loop.iterations (kermitStep opt) inputs start) :
    ¬ AcceptsBreak other.2 other.1 := by
  intro breaks
  obtain ⟨final, ends, -⟩ := kermitStep_endsEarly opt early
  have same := Loop.eq_of_exits member otherMember
    (by rw [ends]; simp) (kermitStep_acceptsBreak opt breaks)
  rw [← same] at breaks
  exact early.not_acceptsBreak breaks

/-- A load that reports a size has accepted a break, exactly if no iteration
ends the loop without one while the size is not negative. -/
theorem kermitLoad_accepts_iff (opt : LoaderOpt) (openRet : Int)
    (io : Nat → Io) (stream : List UInt8) (buff memory : Nat → UInt8)
    (fileName : List UInt8) :
    (∀ size ≥ 0,
      kermitLoad opt openRet (deliveries io stream)
          (startLoad buff memory fileName) = some size →
        ∃ iteration ∈ kermitIterations opt io stream
            (startLoad buff memory fileName),
          AcceptsBreak iteration.2 iteration.1) ↔
      (opt.dst = true ∧ openRet < 0) ∨
        ∀ iteration ∈ kermitIterations opt io stream
            (startLoad buff memory fileName),
          EndsEarly iteration.2 iteration.1 →
            signed32 iteration.1.sink.loadSize < 0 := by
  generalize startLoad buff memory fileName = start
  unfold kermitIterations kermitLoad kermitLoop
  generalize deliveries io stream = inputs
  by_cases closed : opt.dst = true ∧ openRet < 0
  · constructor
    · intro _
      exact Or.inl closed
    · intro _ size positive returned
      rw [if_pos closed, Option.some_inj] at returned
      have negative := closed.2
      omega
  · rw [if_neg closed]
    constructor
    · intro accepts
      right
      intro iteration member early
      by_contra nonneg
      obtain ⟨final, ends, size⟩ := kermitStep_endsEarly opt early
      have left := Loop.run_of_mem member ends
      rw [← size] at nonneg
      obtain ⟨other, otherMember, breaks⟩ :=
        accepts (signed32 final.sink.loadSize) (Int.not_lt.mp nonneg)
          (by rw [left])
      exact not_acceptsBreak_of_early member early otherMember breaks
    · intro fine size positive returned
      rcases fine with open' | fine
      · exact absurd open' closed
      · rcases left : Loop.run (kermitStep opt) inputs start with
          ⟨exit, final⟩
        rw [left] at returned
        cases exit with
        | none => cases returned
        | some exit =>
            cases exit with
            | normal =>
                apply acceptsBreak_of_run left fine
                rw [Option.some_inj.mp returned]
                exact positive
            | error =>
                rw [Option.some_inj] at returned
                rw [← returned] at positive
                exact absurd positive (by decide)
            | fault => cases returned

/-- The first packet of the stream has number 1. -/
theorem kermitLoad_not_accepts_outOfSequence :
    ¬ ∀ opt openRet io stream buff memory fileName, ∀ size ≥ 0,
      kermitLoad opt openRet (deliveries io stream)
          (startLoad buff memory fileName) = some size →
        ∃ iteration ∈ kermitIterations opt io stream
            (startLoad buff memory fileName),
          AcceptsBreak iteration.2 iteration.1 := by
  intro always
  obtain ⟨iteration, member, accepts⟩ := always ⟨true, false⟩ 0
    (fun _ => ⟨0, 0⟩) [0x01, 0x23, 0x21, 0x44, 0x2a, 0x0d] (fun _ => 0)
    (fun _ => 0) [] 0 (Int.le_refl 0) (by decide)
  have single : kermitIterations ⟨true, false⟩ (fun _ => ⟨0, 0⟩)
      [0x01, 0x23, 0x21, 0x44, 0x2a, 0x0d]
      (startLoad (fun _ => 0) (fun _ => 0) []) =
      [(startLoad (fun _ => 0) (fun _ => 0) [],
        ⟨[0x23, 0x21, 0x44, 0x2a, 0x0d], ⟨0, 0⟩⟩)] := rfl
  rw [single, List.mem_singleton] at member
  rw [member] at accepts
  exact absurd accepts.seq (by decide)

end Witos.Uart
