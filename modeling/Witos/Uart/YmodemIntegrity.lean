import Witos.Uart.Ymodem

/-!
# Which blocks a Ymodem load keeps

`ymodem_load` checks the number of a block and nothing else: a block that was
cut off by a wait that ran out, or whose CRC does not match, is acknowledged
and counted like any other.
-/

namespace Witos.Uart

open Library

def crcBit (crc : BitVec 16) : BitVec 16 :=
  if crc.msb then (crc <<< 1) ^^^ 0x1021#16 else crc <<< 1

def crcByte (crc : BitVec 16) (byte : UInt8) : BitVec 16 :=
  Nat.repeat crcBit 8 (crc ^^^ (byte.toBitVec.setWidth 16 <<< 8))

/-- The CRC of a Ymodem block. -/
def crc16 (data : List UInt8) : BitVec 16 :=
  data.foldl crcByte 0

/-- The block arrived as a whole, and its CRC matches. -/
structure Block.Intact (block : Block) : Prop where
  complete : block.data.length = block.size
  matching : ∃ first second, block.crc = (some first, some second) ∧
    (crc16 block.data).toNat = first.toNat * 256 + second.toNat

/-- An intact block of one of the two sizes, with the number `blk` and its
complement. -/
structure Block.Sound (block : Block) (blk : UInt8) : Prop where
  number : block.number = blk
  complement : block.number ^^^ block.complement = 0xff
  size : block.size = 128 ∨ block.size = 1024
  intact : block.Intact

/-- What arrives in an iteration. -/
def Receiver.arrival (receiver : Receiver) : Option Arrival :=
  (receive receiver.blk receiver.events).map Prod.fst

/-- The bytes an iteration keeps. -/
def counted (opt : LoaderOpt) (iteration : Receiver × Io) : List UInt8 :=
  match iteration.1.arrival, (ymodemStep opt iteration.2 iteration.1).1 with
  | some (.block block), none => block.data
  | _, _ => []

/-- The block is asked for again: nothing is counted, and the same number is
expected. -/
structure Retried (before : Receiver) (result : Option YmodemExit × Receiver) :
    Prop where
  goesOn : result.1 = none
  answer : result.2.sent = before.sent ++ [nak]
  blk : result.2.blk = before.blk
  loadSize : result.2.sink.loadSize = before.sink.loadSize

/-- What is loaded are the bytes of sound blocks, and any other block is asked
for again. -/
structure Integrity (opt : LoaderOpt) (iterations : List (Receiver × Io))
    (final : Receiver) : Prop where
  holds : final.sink.Holds opt (iterations.flatMap (counted opt))
  sound : ∀ iteration ∈ iterations, ∀ byte ∈ counted opt iteration,
    ∃ block, iteration.1.arrival = some (.block block) ∧
      block.Sound iteration.1.blk ∧ byte ∈ block.data
  retried : ∀ iteration ∈ iterations,
    (iteration.1.arrival = some .misnumbered ∨
      ∃ block, iteration.1.arrival = some (.block block) ∧
        ¬ block.Sound iteration.1.blk) →
    Retried iteration.1 (ymodemStep opt iteration.2 iteration.1)

theorem blockSize_cases {first : UInt8} {size : Nat}
    (sized : blockSize first = some size) : size = 128 ∨ size = 1024 := by
  unfold blockSize at sized
  split at sized
  · exact Or.inl (Option.some.inj sized).symm
  · split at sized
    · exact Or.inr (Option.some.inj sized).symm
    · cases sized

theorem recvHeader_size {events rest : Events} {size : Nat}
    (received : recvHeader events = some (some size, rest)) :
    size = 128 ∨ size = 1024 := by
  induction events with
  | nil => cases received
  | cons event events induction =>
      cases event with
      | none => exact induction received
      | some byte =>
          rw [recvHeader] at received
          split at received
          case h_1 sized =>
            cases received
            exact blockSize_cases sized
          case h_2 =>
            split at received
            · cases received
            · exact induction received

theorem receive_block {blk : UInt8} {events rest : Events} {block : Block}
    (received : receive blk events = some (.block block, rest)) :
    block.number = blk ∧ block.number ^^^ block.complement = 0xff ∧
      (block.size = 128 ∨ block.size = 1024) := by
  unfold receive at received
  simp only [Option.bind_eq_bind, Option.bind_eq_some_iff, Prod.exists,
    Option.pure_def] at received
  obtain ⟨header, afterHeader, gotHeader, received⟩ := received
  cases header with
  | none => cases received
  | some size =>
      simp only [Option.bind_eq_some_iff, Prod.exists] at received
      obtain ⟨number, _, -, complement, _, -, received⟩ := received
      split at received
      · simp only [Option.bind_eq_some_iff] at received
        obtain ⟨_, -, received⟩ := received
        cases received
      · rename_i accepted
        simp only [Option.bind_eq_some_iff, Prod.exists] at received
        obtain ⟨data, _, -, first, _, -, second, _, -, received⟩ := received
        cases received
        rw [not_or, not_not, not_not] at accepted
        exact ⟨accepted.2, accepted.1, recvHeader_size gotHeader⟩

theorem Block.sound_iff {receiver : Receiver} {block : Block}
    (arrives : receiver.arrival = some (.block block)) :
    block.Sound receiver.blk ↔ block.Intact := by
  obtain ⟨⟨arrival, rest⟩, received, isBlock⟩ :=
    Option.map_eq_some_iff.mp arrives
  cases isBlock
  obtain ⟨number, complement, size⟩ := receive_block received
  constructor
  · exact Block.Sound.intact
  · exact fun intact => ⟨number, complement, size, intact⟩

theorem ymodemStep_cases (opt : LoaderOpt) (io : Io) (receiver : Receiver) :
    ((receiver.arrival = none ∨ receiver.arrival = some .finished) ∧
      (ymodemStep opt io receiver).1 ≠ none ∧
      (ymodemStep opt io receiver).2.sink = receiver.sink) ∨
    (receiver.arrival = some .misnumbered ∧
      Retried receiver (ymodemStep opt io receiver) ∧
      (ymodemStep opt io receiver).2.sink = receiver.sink) ∨
    ∃ block, receiver.arrival = some (.block block) ∧
      match (receiver.sink.store block.data).write opt io
          block.data.length with
      | .error ret =>
          (ymodemStep opt io receiver).1 = some (.error ret) ∧
            (ymodemStep opt io receiver).2.sink =
              receiver.sink.store block.data
      | .ok written =>
          (ymodemStep opt io receiver).1 = none ∧
            (ymodemStep opt io receiver).2.sink =
              written.advance opt block.data.length ∧
            (ymodemStep opt io receiver).2.sent =
              receiver.sent ++ [ack] := by
  unfold Receiver.arrival ymodemStep
  cases receive receiver.blk receiver.events with
  | none => exact Or.inl ⟨Or.inl rfl, by simp, rfl⟩
  | some received =>
      obtain ⟨arrival, events⟩ := received
      cases arrival with
      | finished => exact Or.inl ⟨Or.inr rfl, by simp, rfl⟩
      | misnumbered =>
          exact Or.inr (Or.inl ⟨rfl, ⟨rfl, rfl, rfl, rfl⟩, rfl⟩)
      | block block =>
          refine Or.inr (Or.inr ⟨block, rfl, ?_⟩)
          dsimp only
          cases (receiver.sink.store block.data).write opt io
              block.data.length with
          | error ret => exact ⟨rfl, rfl⟩
          | ok written => exact ⟨rfl, rfl, rfl⟩

theorem ymodemStep_holds {opt : LoaderOpt} {receiver : Receiver}
    {bytes : List UInt8} (io : Io)
    (holds : receiver.sink.Holds opt bytes) :
    (ymodemStep opt io receiver).2.sink.Holds opt
      (bytes ++ counted opt (receiver, io)) := by
  unfold counted
  dsimp only
  obtain ⟨nothing | finished, -, kept⟩ | ⟨misnumbered, -, kept⟩ |
      ⟨block, arrives, result⟩ := ymodemStep_cases opt io receiver
  · rw [nothing, kept, List.append_nil]
    exact holds
  · rw [finished, kept, List.append_nil]
    exact holds
  · rw [misnumbered, kept, List.append_nil]
    exact holds
  · rw [arrives]
    split at result
    case h_1 ret failed =>
      rw [result.1, result.2, List.append_nil]
      exact holds.store block.data
    case h_2 written wrote =>
      rw [result.1, result.2.1]
      exact holds.append wrote

theorem run_holds {opt : LoaderOpt} (ios : List Io) {receiver : Receiver}
    {bytes : List UInt8} (holds : receiver.sink.Holds opt bytes) :
    (Loop.run (ymodemStep opt) ios receiver).2.sink.Holds opt
      (bytes ++ (Loop.iterations (ymodemStep opt) ios receiver).flatMap
        (counted opt)) := by
  induction ios generalizing receiver bytes with
  | nil =>
      rw [Loop.iterations, List.flatMap_nil, List.append_nil]
      exact holds
  | cons io ios induction =>
      have step := ymodemStep_holds io holds
      rcases result : ymodemStep opt io receiver with ⟨exit, next⟩
      rw [result] at step
      cases exit with
      | none =>
          rw [Loop.run_of_again ios result,
            Loop.iterations_of_again ios result, List.flatMap_cons,
            ← List.append_assoc]
          exact induction step
      | some exit =>
          rw [Loop.run_of_exit ios result,
            Loop.iterations_of_exit ios result, List.flatMap_singleton]
          exact step

/-- A block with the expected number is never asked for again. -/
theorem not_retried_of_block {opt : LoaderOpt} {io : Io}
    {receiver : Receiver} {block : Block}
    (arrives : receiver.arrival = some (.block block)) :
    ¬ Retried receiver (ymodemStep opt io receiver) := by
  intro retried
  obtain ⟨nothing | finished, -, -⟩ | ⟨misnumbered, -, -⟩ |
      ⟨block', -, result⟩ := ymodemStep_cases opt io receiver
  · rw [arrives] at nothing
    cases nothing
  · rw [arrives] at finished
    cases finished
  · rw [arrives] at misnumbered
    cases misnumbered
  · split at result
    · rw [retried.goesOn] at result
      cases result.1
    · have answers := retried.answer.symm.trans result.2.2
      exact absurd (List.append_cancel_left answers) (by decide)

/-- A load keeps sound blocks only, and asks for all others again, exactly if
every block that arrives with the expected number is intact. -/
theorem ymodemLoad_integrity_iff (opt : LoaderOpt) (ios : List Io)
    (events : Events) (sent : List UInt8) (memory : Nat → UInt8) :
    Integrity opt
        (Loop.iterations (ymodemStep opt) ios
          (startReceiver events sent memory))
        (Loop.run (ymodemStep opt) ios (startReceiver events sent memory)).2 ↔
      ∀ iteration ∈ Loop.iterations (ymodemStep opt) ios
          (startReceiver events sent memory),
        ∀ block, iteration.1.arrival = some (.block block) →
          block.Intact := by
  constructor
  · intro integrity iteration member block arrives
    by_contra damaged
    have unsound : ¬ block.Sound iteration.1.blk := by
      rw [Block.sound_iff arrives]
      exact damaged
    apply not_retried_of_block arrives
    exact integrity.retried iteration member
      (Or.inr ⟨block, arrives, unsound⟩)
  · intro intact
    constructor
    · have start : (startReceiver events sent memory).sink.Holds opt [] :=
        startSink_holds opt memory
      exact run_holds ios start
    · intro iteration member byte isCounted
      unfold counted at isCounted
      split at isCounted
      case h_1 block arrives _ =>
        refine ⟨block, arrives, ?_, isCounted⟩
        rw [Block.sound_iff arrives]
        exact intact iteration member block arrives
      case h_2 => cases isCounted
    · rintro iteration member (misnumbered | ⟨block, arrives, unsound⟩)
      · obtain ⟨nothing | finished, -, -⟩ | ⟨-, retried, -⟩ |
            ⟨block, arrives, -⟩ :=
          ymodemStep_cases opt iteration.2 iteration.1
        · rw [misnumbered] at nothing
          cases nothing
        · rw [misnumbered] at finished
          cases finished
        · exact retried
        · rw [misnumbered] at arrives
          cases arrives
      · rw [Block.sound_iff arrives] at unsound
        exact absurd (intact iteration member block arrives) unsound

/-- A name block, one byte of a data block, and then nothing. -/
def cutBlock : Events :=
  [some soh, some 0, some 0xff, some 0x61, some 0, none,
    some soh, some 1, some 0xfe, some 7, none, none, none]

theorem ymodemLoad_not_integrity_cut :
    ¬ ∀ (opt : LoaderOpt) (ios : List Io) (line events : Events)
      (sent : List UInt8) (memory : Nat → UInt8),
      recvFirstBlock line = some (events, sent) →
        Integrity opt
          (Loop.iterations (ymodemStep opt) ios
            (startReceiver events sent memory))
          (Loop.run (ymodemStep opt) ios
            (startReceiver events sent memory)).2 := by
  intro always
  have integrity := always ⟨true, false⟩ [⟨0, 0⟩] cutBlock
    [some soh, some 1, some 0xfe, some 7, none, none, none]
    [start, ack, start] (fun _ => 0) rfl
  have arrives : (startReceiver
      [some soh, some 1, some 0xfe, some 7, none, none, none]
      [start, ack, start] (fun _ => 0)).arrival =
        some (.block ⟨1, 0xfe, 128, [7], (none, none)⟩) := by
    rfl
  have retried := integrity.retried (_, ⟨0, 0⟩) List.mem_cons_self
    (Or.inr ⟨_, arrives, fun sound => by
      have complete := sound.intact.complete
      cases complete⟩)
  exact not_retried_of_block arrives retried

end Witos.Uart
