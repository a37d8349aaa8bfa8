import Witos.Uart.KermitData

/-!
# Where the Kermit loader reads and stores

A frame ends with the terminator, its text where the length character and the
quotes say.  The buffer has `KERM_BUF_LEN` bytes; neither the number of bytes
stored nor the end of the text is compared with anything.
-/

namespace Witos.Uart

open Library

/-- The bytes that the loop of `decodeText` reads. -/
def textReads (buff : Nat → UInt8) : Nat → Nat → List Nat
  | len + 2, index =>
      if buff index = kermKeySharp then
        index :: (index + 1) :: textReads buff len (index + 2)
      else index :: textReads buff (len + 1) (index + 1)
  | _, _ => []

/-- The bytes that the loop of `skipText` reads. -/
def skipReads : Nat → Nat → List Nat
  | len + 2, index => index :: skipReads (len + 1) (index + 1)
  | _, _ => []

/-- The bytes of the buffer that are read while the number `realSeq` is
expected: length and number, and of an expected packet the type, the text, the
check character and, if that is right, the terminator. -/
def frameReads (buff : Nat → UInt8) (realSeq : Nat) : List Nat :=
  [0, 1] ++
    if packetSeq buff ≠ realSeq then []
    else
      2 :: (if packetType buff = kermTypeHead ∨
          packetType buff = kermTypeData then
          textReads buff (textLen buff).toNat 3
        else skipReads (textLen buff).toNat 3) ++
      (parsePacket buff).index ::
        if ChecksOut buff then [(parsePacket buff).index + 1] else []

/-- The bytes of `opt->file_name` that are stored, with the terminator. -/
def fileNameStores (buff : Nat → UInt8) (realSeq : Nat) : List Nat :=
  if packetSeq buff = realSeq ∧ packetType buff = kermTypeHead then
    List.range ((parsePacket buff).chars.length + 1)
  else []

/-- The accesses of one iteration stay in the arrays, and in the frame. -/
structure Confined (load : Load) (delivery : Delivery) : Prop where
  stores : ∀ index ∈ List.range delivery.frame.length, index < kermBufLen
  reads : ∀ index ∈ frameReads (load.receive delivery.frame).buff load.realSeq,
    index < delivery.frame.length
  fileName : ∀ index ∈ fileNameStores (load.receive delivery.frame).buff
    load.realSeq, index < fileNameSize

/-- The bytes of a frame that has begun and not ended. -/
def pendingFrame : Option (List UInt8) → List UInt8 → List UInt8
  | frame, [] => frame.getD []
  | none, byte :: rest =>
      if byte = markStart then pendingFrame (some []) rest
      else pendingFrame none rest
  | some frame, byte :: rest =>
      if byte = kermKeyTerm then pendingFrame none rest
      else pendingFrame (some (frame ++ [byte])) rest

/-- The number of characters that the length of a frame gives to its text. -/
def textSize (frame : List UInt8) : Nat := (frame.getD 0 0).toNat - 35

/-- The last character is a `#` that quotes none of the others. -/
def endsInQuote : List UInt8 → Bool
  | [] => false
  | [char] => char = kermKeySharp
  | char :: next :: chars =>
      if char = kermKeySharp then endsInQuote chars
      else endsInQuote (next :: chars)

/-- A text in which the last `#` quotes the character behind the text. -/
def Overhangs (frame : List UInt8) : Prop :=
  (frame.getD 2 0 = kermTypeHead ∨ frame.getD 2 0 = kermTypeData) ∧
    endsInQuote ((frame.drop 3).take (textSize frame)) = true

instance (frame : List UInt8) : Decidable (Overhangs frame) := by
  unfold Overhangs
  infer_instance

/-- The frame has length and number and fits into the buffer; with the number
that is expected it goes on behind its text. -/
structure FrameHolds (realSeq : Nat) (frame : List UInt8) : Prop where
  header : 2 ≤ frame.length
  short : frame.length ≤ kermBufLen
  text : (frame.getD 1 0).toNat = realSeq + kermKeySpace →
    3 + textSize frame + (if Overhangs frame then 1 else 0) < frame.length

theorem decodeText_index (buff : Nat → UInt8) (len : Nat) (parsed : Parsed) :
    (decodeText buff len parsed).index = parsed.index + (len - 1) +
      if endsInQuote (slice buff parsed.index (len - 1)) then 1 else 0 := by
  fun_induction decodeText buff len parsed with
  | case1 len parsed char sharp quoted induction =>
      rw [induction]
      cases len with
      | zero =>
          have single : endsInQuote (slice buff parsed.index 1) = true := by
            rw [slice_succ, slice_zero]
            exact decide_eq_true sharp
          simp [single, endsInQuote]
      | succ len =>
          have pair : endsInQuote (slice buff parsed.index (len + 1 + 1)) =
              endsInQuote (slice buff (parsed.index + 2) len) := by
            rw [slice_succ, slice_succ, endsInQuote, if_pos sharp]
          have size : len + 1 + 2 - 1 = len + 1 + 1 := rfl
          simp only [size, pair, Nat.add_sub_cancel]
          omega
  | case2 len parsed char plain induction =>
      rw [induction]
      have size : len + 2 - 1 = len + 1 := rfl
      have step : endsInQuote (slice buff parsed.index (len + 1)) =
          endsInQuote (slice buff (parsed.index + 1) len) := by
        cases len with
        | zero =>
            rw [slice_succ, slice_zero]
            exact decide_eq_false plain
        | succ len =>
            rw [slice_succ, slice_succ, endsInQuote, if_neg plain]
      simp only [size, step, Nat.add_sub_cancel]
      omega
  | case3 len parsed other =>
      have short : len - 1 = 0 := by
        cases len with
        | zero => rfl
        | succ len =>
            cases len with
            | zero => rfl
            | succ len => exact absurd rfl (other len)
      simp [short, endsInQuote]

theorem skipText_index (buff : Nat → UInt8) (len : Nat) (parsed : Parsed) :
    (skipText buff len parsed).index = parsed.index + (len - 1) := by
  fun_induction skipText buff len parsed with
  | case1 len parsed induction =>
      rw [induction]
      show parsed.index + 1 + len = parsed.index + (len + 1)
      omega
  | case2 len parsed other =>
      cases len with
      | zero => rfl
      | succ len =>
          cases len with
          | zero => rfl
          | succ len => exact absurd rfl (other len)

theorem decodeText_chars (buff : Nat → UInt8) (len : Nat) (parsed : Parsed) :
    (decodeText buff len parsed).chars.length + parsed.index ≤
      (decodeText buff len parsed).index + parsed.chars.length := by
  fun_induction decodeText buff len parsed with
  | case1 len parsed char sharp quoted induction =>
      simp only [List.length_append, List.length_singleton] at induction
      omega
  | case2 len parsed char plain induction =>
      simp only [List.length_append, List.length_singleton] at induction
      omega
  | case3 len parsed other => exact Nat.le_of_eq (Nat.add_comm _ _)

theorem skipText_chars (buff : Nat → UInt8) (len : Nat) (parsed : Parsed) :
    (skipText buff len parsed).chars = parsed.chars := by
  fun_induction skipText buff len parsed with
  | case1 len parsed induction => exact induction
  | case2 => rfl

theorem textReads_lt (buff : Nat → UInt8) (len : Nat) (parsed : Parsed) :
    ∀ index ∈ textReads buff len parsed.index,
      index < (decodeText buff len parsed).index := by
  have forward : ∀ len parsed,
      parsed.index ≤ (decodeText buff len parsed).index := by
    intro len parsed
    rw [decodeText_index]
    omega
  fun_induction decodeText buff len parsed with
  | case1 len parsed char sharp quoted induction =>
      have behind : parsed.index + 2 ≤ _ := forward len ⟨parsed.index + 2,
        parsed.checksum + char.toNat + quoted.toNat,
        parsed.chars ++ [unquote quoted]⟩
      rw [textReads, if_pos sharp]
      intro index member
      rcases List.mem_cons.mp member with rfl | member
      · exact Nat.lt_of_lt_of_le (by omega) behind
      · rcases List.mem_cons.mp member with rfl | later
        · exact Nat.lt_of_lt_of_le (by omega) behind
        · exact induction index later
  | case2 len parsed char plain induction =>
      have behind : parsed.index + 1 ≤ _ := forward (len + 1)
        ⟨parsed.index + 1, parsed.checksum + char.toNat,
          parsed.chars ++ [char]⟩
      rw [textReads, if_neg plain]
      intro index member
      rcases List.mem_cons.mp member with rfl | later
      · exact Nat.lt_of_lt_of_le (by omega) behind
      · exact induction index later
  | case3 len parsed other =>
      intro index member
      rw [textReads.eq_2 buff len parsed.index other] at member
      cases member

theorem skipReads_lt (buff : Nat → UInt8) (len : Nat) (parsed : Parsed) :
    ∀ index ∈ skipReads len parsed.index,
      index < (skipText buff len parsed).index := by
  fun_induction skipText buff len parsed with
  | case1 len parsed induction =>
      have behind := skipText_index buff (len + 1)
        { parsed with
          index := parsed.index + 1
          checksum := parsed.checksum + (buff parsed.index).toNat }
      simp only at behind
      intro index member
      rcases List.mem_cons.mp member with rfl | later
      · omega
      · exact induction index later
  | case2 len parsed other =>
      intro index member
      rw [skipReads.eq_2 len parsed.index other] at member
      cases member

section Buffer

variable {frame : List UInt8} {old : Nat → UInt8}

theorem overlay_getD {index : Nat} (inside : index < frame.length) :
    overlay frame old index = frame.getD index 0 := by
  simp [overlay, inside]

theorem textLen_overlay (header : 2 ≤ frame.length) :
    (textLen (overlay frame old)).toNat - 1 = textSize frame := by
  simp only [textLen, overlay_getD (show 0 < frame.length by omega), textSize,
    kermKeySpace]
  split
  · omega
  · omega

theorem packetSeq_overlay (header : 2 ≤ frame.length) (realSeq : Nat) :
    packetSeq (overlay frame old) = realSeq ↔
      (frame.getD 1 0).toNat = realSeq + kermKeySpace := by
  rw [packetSeq, overlay_getD (by omega)]
  omega

theorem parsePacket_index (header : 2 ≤ frame.length) :
    3 + textSize frame ≤ (parsePacket (overlay frame old)).index ∧
      (3 + textSize frame < frame.length →
        (parsePacket (overlay frame old)).index =
          3 + textSize frame + if Overhangs frame then 1 else 0) := by
  have len : (textLen (overlay frame old)).toNat - 1 = textSize frame :=
    textLen_overlay header
  unfold parsePacket
  dsimp only
  by_cases quoted : packetType (overlay frame old) = kermTypeHead ∨
      packetType (overlay frame old) = kermTypeData
  · rw [if_pos quoted, decodeText_index, len]
    refine ⟨Nat.le_add_right _ _, fun inside => ?_⟩
    have type : packetType (overlay frame old) = frame.getD 2 0 :=
      overlay_getD (by omega)
    have text : slice (overlay frame old) 3 (textSize frame) =
        (frame.drop 3).take (textSize frame) :=
      slice_overlay old (by omega)
    rw [type] at quoted
    simp only [text, Overhangs, quoted, true_and]
  · rw [if_neg quoted, skipText_index, len]
    refine ⟨Nat.le_refl _, fun inside => ?_⟩
    have type : packetType (overlay frame old) = frame.getD 2 0 :=
      overlay_getD (by omega)
    rw [type] at quoted
    rw [if_neg fun overhangs => quoted overhangs.1]
    rfl

theorem parsePacket_inside_iff (header : 2 ≤ frame.length) :
    (parsePacket (overlay frame old)).index < frame.length ↔
      3 + textSize frame + (if Overhangs frame then 1 else 0) <
        frame.length := by
  have bounds : 3 + textSize frame ≤
      (parsePacket (overlay frame old)).index ∧ _ := parsePacket_index header
  obtain ⟨behind, inside⟩ := bounds
  by_cases short : 3 + textSize frame < frame.length
  · rw [inside short]
  · constructor
    · intro within
      exact absurd (Nat.lt_of_le_of_lt behind within) short
    · intro within
      exact absurd (Nat.lt_of_le_of_lt (Nat.le_add_right _ _) within) short

/-- The characters of a file name fit if the text lies in the buffer. -/
theorem parsePacket_chars (buff : Nat → UInt8) :
    (parsePacket buff).chars.length + 3 ≤ (parsePacket buff).index := by
  unfold parsePacket
  dsimp only
  split
  · exact decodeText_chars buff _ ⟨3, _, []⟩
  · rw [skipText_chars, skipText_index]
    exact Nat.le_add_right 3 _

theorem frameReads_text (buff : Nat → UInt8) :
    ∀ index ∈ (if packetType buff = kermTypeHead ∨
        packetType buff = kermTypeData then
        textReads buff (textLen buff).toNat 3
      else skipReads (textLen buff).toNat 3),
      index < (parsePacket buff).index := by
  unfold parsePacket
  dsimp only
  split
  · exact textReads_lt buff _ ⟨3, _, []⟩
  · exact skipReads_lt buff _ ⟨3, _, []⟩

end Buffer

theorem frames_end {pending : Option (List UInt8)} {stream frame : List UInt8}
    (member : frame ∈ frames pending stream) :
    ∃ body, frame = body ++ [kermKeyTerm] := by
  fun_induction frames pending stream with
  | case1 => cases member
  | case2 rest induction => exact induction member
  | case3 byte rest other induction => exact induction member
  | case4 body rest induction =>
      rcases List.mem_cons.mp member with first | later
      · exact ⟨body, first⟩
      · exact induction later
  | case5 body byte rest other induction => exact induction member

theorem not_checksOut_of_term {buff : Nat → UInt8}
    (term : buff (parsePacket buff).index = kermKeyTerm) :
    ¬ChecksOut buff := by
  intro checks
  rw [ChecksOut, term, checkChar, kermKeySpace] at checks
  have value : kermKeyTerm.toNat = 13 := rfl
  omega

section Accesses

variable {buff : Nat → UInt8} {realSeq length : Nat}

theorem parsePacket_index_mem (expected : packetSeq buff = realSeq) :
    (parsePacket buff).index ∈ frameReads buff realSeq := by
  rw [frameReads, if_neg (not_not_intro expected)]
  apply List.mem_append_right
  apply List.mem_append_right
  exact List.mem_cons_self

/-- Where the check character lies in the frame, nothing is read behind the
frame: its last byte is the terminator, which no check character equals. -/
theorem frameReads_inside (header : 2 ≤ length)
    (last : buff (length - 1) = kermKeyTerm)
    (inside : packetSeq buff = realSeq → (parsePacket buff).index < length) :
    ∀ index ∈ frameReads buff realSeq, index < length := by
  have behind := parsePacket_chars buff
  intro index member
  rw [frameReads] at member
  rcases List.mem_append.mp member with first | later
  · simp only [List.mem_cons, List.not_mem_nil, or_false] at first
    omega
  · by_cases expected : packetSeq buff = realSeq
    · have within := inside expected
      rw [if_neg (not_not_intro expected)] at later
      rcases List.mem_append.mp later with before | check
      · rcases List.mem_cons.mp before with type | among
        · omega
        · exact Nat.lt_trans (frameReads_text buff index among) within
      · rcases List.mem_cons.mp check with here | terminator
        · rw [here]
          exact within
        · by_cases checks : ChecksOut buff
          · rw [if_pos checks, List.mem_singleton] at terminator
            by_contra outside
            have place : (parsePacket buff).index = length - 1 := by omega
            exact not_checksOut_of_term (place ▸ last) checks
          · rw [if_neg checks] at terminator
            cases terminator
    · rw [if_pos expected] at later
      cases later

theorem fileNameStores_inside (short : length ≤ kermBufLen)
    (inside : packetSeq buff = realSeq → (parsePacket buff).index < length) :
    ∀ index ∈ fileNameStores buff realSeq, index < fileNameSize := by
  intro index member
  rw [fileNameStores] at member
  split at member
  · rename_i named
    have within := inside named.1
    have stored := List.mem_range.mp member
    have behind := parsePacket_chars buff
    unfold kermBufLen at short
    unfold fileNameSize
    omega
  · cases member

end Accesses

theorem confined_iff (load : Load) {delivery : Delivery}
    (ends : ∃ body, delivery.frame = body ++ [kermKeyTerm]) :
    Confined load delivery ↔ FrameHolds load.realSeq delivery.frame := by
  let buff := (load.receive delivery.frame).buff
  have received : buff = overlay delivery.frame load.buff := rfl
  obtain ⟨body, frame⟩ := ends
  have length : delivery.frame.length = body.length + 1 := by
    rw [frame, List.length_append, List.length_singleton]
  constructor
  · rintro ⟨stores, reads, -⟩
    have header : 2 ≤ delivery.frame.length :=
      reads 1 (List.mem_append_left _ (by decide))
    refine ⟨header, ?_, ?_⟩
    · have final := stores body.length
        (List.mem_range.mpr (by omega))
      omega
    · intro expected
      apply (parsePacket_inside_iff header).mp
      apply reads
      apply parsePacket_index_mem
      exact (packetSeq_overlay header load.realSeq).mpr expected
  · rintro ⟨header, short, text⟩
    have inside : packetSeq buff = load.realSeq →
        (parsePacket buff).index < delivery.frame.length := by
      intro expected
      exact (parsePacket_inside_iff header).mpr
        (text ((packetSeq_overlay header load.realSeq).mp expected))
    refine ⟨?_, ?_, ?_⟩
    · intro index member
      exact Nat.lt_of_lt_of_le (List.mem_range.mp member) short
    · apply frameReads_inside header _ inside
      rw [length, Nat.add_sub_cancel]
      show buff body.length = kermKeyTerm
      rw [received, overlay_getD (by omega), frame]
      simp
    · exact fileNameStores_inside short inside

/-- The iterations of a load on a stream, and the frame that has begun when the
stream ends. -/
def StreamConfined (opt : LoaderOpt) (io : Nat → Io) (stream : List UInt8)
    (load : Load) : Prop :=
  (∀ iteration ∈ kermitIterations opt io stream load,
      Confined iteration.1 iteration.2) ∧
    ((kermitLoop opt (deliveries io stream) load).1 = none →
      ∀ index ∈ List.range (pendingFrame none stream).length,
        index < kermBufLen)

/-- Every frame of the stream that the load looks at is well formed. -/
def StreamHolds (opt : LoaderOpt) (io : Nat → Io) (stream : List UInt8)
    (load : Load) : Prop :=
  (∀ iteration ∈ kermitIterations opt io stream load,
      FrameHolds iteration.1.realSeq iteration.2.frame) ∧
    ((kermitLoop opt (deliveries io stream) load).1 = none →
      (pendingFrame none stream).length ≤ kermBufLen)

/-- All accesses of a load stay in the arrays and in the frame, exactly if every
frame that it looks at is well formed. -/
theorem kermit_confined_iff (opt : LoaderOpt) (io : Nat → Io)
    (stream : List UInt8) (buff memory : Nat → UInt8)
    (fileName : List UInt8) :
    StreamConfined opt io stream (startLoad buff memory fileName) ↔
      StreamHolds opt io stream (startLoad buff memory fileName) := by
  have each : ∀ iteration ∈ kermitIterations opt io stream
      (startLoad buff memory fileName),
      (Confined iteration.1 iteration.2 ↔
        FrameHolds iteration.1.realSeq iteration.2.frame) := by
    intro iteration member
    apply confined_iff
    obtain ⟨index, inside, delivered⟩ :=
      List.mem_mapIdx.mp (Loop.input_mem member)
    rw [← delivered]
    exact frames_end (List.getElem_mem inside)
  have pending : (∀ index ∈ List.range (pendingFrame none stream).length,
      index < kermBufLen) ↔
        (pendingFrame none stream).length ≤ kermBufLen := by
    constructor
    · intro stores
      by_contra long
      have past := stores kermBufLen (List.mem_range.mpr (by omega))
      exact Nat.lt_irrefl _ past
    · intro short index member
      exact Nat.lt_of_lt_of_le (List.mem_range.mp member) short
  unfold StreamConfined StreamHolds
  rw [pending]
  constructor
  · rintro ⟨confined, rest⟩
    exact ⟨fun iteration member =>
      (each iteration member).mp (confined iteration member), rest⟩
  · rintro ⟨holds, rest⟩
    exact ⟨fun iteration member =>
      (each iteration member).mpr (holds iteration member), rest⟩

/-- The length gives three characters to the text, and the terminator comes
behind the first. -/
theorem not_kermit_confined :
    ¬∀ opt io stream buff memory fileName,
      StreamConfined opt io stream (startLoad buff memory fileName) := by
  intro always
  have confined := (always ⟨true, false⟩ (fun _ => ⟨0, 0⟩)
    [0x01, 0x26, 0x20, 0x44, 0x41, 0x0d] (fun _ => 0) (fun _ => 0) []).1
  have single : kermitIterations ⟨true, false⟩ (fun _ => ⟨0, 0⟩)
      [0x01, 0x26, 0x20, 0x44, 0x41, 0x0d]
      (startLoad (fun _ => 0) (fun _ => 0) []) =
      [(startLoad (fun _ => 0) (fun _ => 0) [],
        ⟨[0x26, 0x20, 0x44, 0x41, 0x0d], ⟨0, 0⟩⟩)] := rfl
  have first := confined _ (single ▸ List.mem_cons_self)
  exact absurd (first.reads 5 (by decide)) (by decide)

end Witos.Uart
