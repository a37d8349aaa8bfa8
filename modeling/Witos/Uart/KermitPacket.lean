import Witos.Uart.KermitEnd

/-!
# Kermit packets as a sender builds them

Control characters and `#` are quoted in the text of a packet, and the
receiver takes the text back apart.
-/

namespace Witos.Uart

open Library

/-- A character as it stands in the text of a packet. -/
def quoteChar (char : UInt8) : List UInt8 :=
  if char &&& 0x7f < 0x20 ∨ char &&& 0x7f = 0x7f then
    [kermKeySharp, char ^^^ 0x40]
  else if char &&& 0x7f = kermKeySharp then [kermKeySharp, char]
  else [char]

def quote (chars : List UInt8) : List UInt8 :=
  chars.flatMap quoteChar

theorem unquote_control : ∀ char : UInt8,
    (char &&& 0x7f < 0x20 ∨ char &&& 0x7f = 0x7f) →
      unquote (char ^^^ 0x40) = char :=
  forall_byte (by decide +kernel)

theorem unquote_sharp : ∀ char : UInt8, char &&& 0x7f = kermKeySharp →
    unquote char = char :=
  forall_byte (by decide +kernel)

/-- A character stands for itself or behind a `#`. -/
theorem quoteChar_cases (char : UInt8) :
    (∃ quoted, quoteChar char = [kermKeySharp, quoted] ∧
        unquote quoted = char) ∨
      (char ≠ kermKeySharp ∧ quoteChar char = [char]) := by
  unfold quoteChar
  split
  case isTrue control => exact Or.inl ⟨_, rfl, unquote_control char control⟩
  case isFalse =>
    split
    case isTrue sharp => exact Or.inl ⟨_, rfl, unquote_sharp char sharp⟩
    case isFalse plain =>
      refine Or.inr ⟨?_, rfl⟩
      intro sharp
      rw [sharp] at plain
      exact plain (by decide)

theorem length_le_quote (chars : List UInt8) :
    chars.length ≤ (quote chars).length := by
  induction chars with
  | nil => exact Nat.le_refl _
  | cons char chars induction =>
      have split : quote (char :: chars) = quoteChar char ++ quote chars :=
        List.flatMap_cons
      rw [split, List.length_append, List.length_cons]
      obtain ⟨quoted, pair, -⟩ | ⟨-, single⟩ := quoteChar_cases char
      · rw [pair, List.length_cons, List.length_singleton]
        omega
      · rw [single, List.length_singleton]
        omega

theorem decodeText_quote (buff : Nat → UInt8) (chars : List UInt8)
    (parsed : Parsed)
    (text : slice buff parsed.index (quote chars).length = quote chars) :
    decodeText buff ((quote chars).length + 1) parsed =
      { index := parsed.index + (quote chars).length
        checksum := parsed.checksum + ((quote chars).map UInt8.toNat).sum
        chars := parsed.chars ++ chars } := by
  induction chars generalizing parsed with
  | nil => simp [quote, decodeText]
  | cons char chars induction =>
      have split : quote (char :: chars) = quoteChar char ++ quote chars :=
        List.flatMap_cons
      rw [split] at text ⊢
      obtain ⟨quoted, pair, back⟩ | ⟨plain, single⟩ := quoteChar_cases char
      · rw [pair] at text ⊢
        simp only [List.cons_append, List.nil_append, List.length_cons,
          slice_succ, List.cons.injEq] at text
        obtain ⟨sharp, second, rest⟩ := text
        simp only [List.cons_append, List.nil_append, List.length_cons]
        rw [decodeText]
        simp only [sharp, if_pos, second]
        rw [induction _ rest, back]
        simp only [Parsed.mk.injEq, List.append_assoc, List.cons_append,
          List.nil_append, List.map_cons, List.sum_cons]
        refine ⟨by omega, by omega, trivial⟩
      · rw [single] at text ⊢
        simp only [List.cons_append, List.nil_append, List.length_cons,
          slice_succ, List.cons.injEq] at text
        obtain ⟨here, rest⟩ := text
        simp only [List.cons_append, List.nil_append, List.length_cons]
        rw [decodeText]
        simp only [here, if_neg plain]
        rw [induction _ rest]
        simp only [Parsed.mk.injEq, List.append_assoc, List.cons_append,
          List.nil_append, List.map_cons, List.sum_cons]
        refine ⟨by omega, by omega, trivial⟩

theorem skipText_eq (buff : Nat → UInt8) (text : List UInt8)
    (parsed : Parsed) (stands : slice buff parsed.index text.length = text) :
    skipText buff (text.length + 1) parsed =
      { parsed with
        index := parsed.index + text.length
        checksum := parsed.checksum + (text.map UInt8.toNat).sum } := by
  induction text generalizing parsed with
  | nil => simp [skipText]
  | cons char text induction =>
      simp only [List.length_cons, slice_succ, List.cons.injEq] at stands
      obtain ⟨here, rest⟩ := stands
      rw [List.length_cons, skipText, induction _ rest]
      simp only [here, Parsed.mk.injEq, List.map_cons, List.sum_cons]
      refine ⟨by omega, by omega, trivial⟩

/-- A packet; the data of headers and data packets is quoted in its text. -/
structure Packet where
  type : UInt8
  data : List UInt8

def Packet.IsQuoted (packet : Packet) : Prop :=
  packet.type = kermTypeHead ∨ packet.type = kermTypeData

instance (packet : Packet) : Decidable packet.IsQuoted := by
  unfold Packet.IsQuoted
  infer_instance

def Packet.text (packet : Packet) : List UInt8 :=
  if packet.IsQuoted then quote packet.data else packet.data

/-- The characters of a packet that its check character covers. -/
def Packet.body (packet : Packet) (seq : Nat) : List UInt8 :=
  UInt8.ofNat (packet.text.length + 3 + kermKeySpace) ::
    UInt8.ofNat (seq + kermKeySpace) :: packet.type :: packet.text

/-- A packet behind its start mark. -/
def Packet.frame (packet : Packet) (seq : Nat) : List UInt8 :=
  packet.body seq ++
    [UInt8.ofNat (checkChar ((packet.body seq).map UInt8.toNat).sum),
      kermKeyTerm]

/-- A packet whose length one character can give, and in which nothing looks
like its end. -/
structure Packet.Valid (packet : Packet) : Prop where
  short : packet.text.length ≤ 91
  type : packet.type ≠ kermKeyTerm
  text : kermKeyTerm ∉ packet.text

/-- What the load is to store of a packet. -/
def Packet.payload (packet : Packet) : List UInt8 :=
  if packet.type = kermTypeData then packet.data else []

theorem Packet.Valid.length_payload {packet : Packet}
    (valid : packet.Valid) : packet.payload.length ≤ 91 := by
  unfold Packet.payload
  split
  case isTrue isData =>
    have text : packet.text = quote packet.data := if_pos (Or.inr isData)
    apply Nat.le_trans (length_le_quote packet.data)
    rw [← text]
    exact valid.short
  case isFalse => exact Nat.zero_le _

theorem Packet.length_frame (packet : Packet) (seq : Nat) :
    (packet.frame seq).length = packet.text.length + 5 := by
  simp [Packet.frame, Packet.body]

section Received

variable {packet : Packet} {seq : Nat}

/-- The frame buffer after the packet was received. -/
def Packet.received (packet : Packet) (seq : Nat) (old : Nat → UInt8) :
    Nat → UInt8 :=
  overlay (packet.frame seq) old

theorem received_len (valid : packet.Valid) (old : Nat → UInt8) :
    (packet.received seq old 0).toNat =
      packet.text.length + 3 + kermKeySpace := by
  have short := valid.short
  have first : packet.received seq old 0 =
      UInt8.ofNat (packet.text.length + 3 + kermKeySpace) := rfl
  rw [first, UInt8.toNat_ofNat']
  apply Nat.mod_eq_of_lt
  unfold kermKeySpace
  omega

theorem received_seq (small : seq < 64) (old : Nat → UInt8) :
    (packet.received seq old 1).toNat = seq + kermKeySpace := by
  have second : packet.received seq old 1 =
      UInt8.ofNat (seq + kermKeySpace) := rfl
  rw [second, UInt8.toNat_ofNat']
  apply Nat.mod_eq_of_lt
  unfold kermKeySpace
  omega

theorem slice_received (packet : Packet) (seq : Nat) (old : Nat → UInt8) :
    slice (packet.received seq old) 3 packet.text.length = packet.text := by
  have inside : 3 + packet.text.length ≤ (packet.frame seq).length := by
    rw [Packet.length_frame]
    omega
  have split : (packet.frame seq).drop 3 = packet.text ++
      [UInt8.ofNat (checkChar ((packet.body seq).map UInt8.toNat).sum),
        kermKeyTerm] := rfl
  rw [Packet.received, slice_overlay old inside, split, List.take_left]

theorem received_check (old : Nat → UInt8) :
    packet.received seq old (3 + packet.text.length) =
      UInt8.ofNat (checkChar ((packet.body seq).map UInt8.toNat).sum) := by
  have place : 3 + packet.text.length = (packet.body seq).length := by
    simp [Packet.body]
    omega
  simp [Packet.received, overlay, Packet.frame, place]

theorem received_term (old : Nat → UInt8) :
    packet.received seq old (3 + packet.text.length + 1) = kermKeyTerm := by
  have place : 3 + packet.text.length = (packet.body seq).length := by
    simp [Packet.body]
    omega
  simp [Packet.received, overlay, Packet.frame, place]

theorem parsePacket_received (valid : packet.Valid) (old : Nat → UInt8) :
    parsePacket (packet.received seq old) =
      { index := 3 + packet.text.length
        checksum := ((packet.body seq).map UInt8.toNat).sum
        chars := if packet.IsQuoted then packet.data else [] } := by
  have len : (textLen (packet.received seq old)).toNat =
      packet.text.length + 1 := by
    unfold textLen
    rw [received_len valid]
    unfold kermKeySpace
    dsimp only
    split <;> omega
  have type : packetType (packet.received seq old) = packet.type := rfl
  have sum : ((packet.body seq).map UInt8.toNat).sum =
      (packet.received seq old 0).toNat + (packet.received seq old 1).toNat +
        (packet.received seq old 2).toNat +
        (packet.text.map UInt8.toNat).sum := by
    have sum : ((packet.body seq).map UInt8.toNat).sum =
        (packet.received seq old 0).toNat +
          ((packet.received seq old 1).toNat +
            ((packet.received seq old 2).toNat +
              (packet.text.map UInt8.toNat).sum)) := rfl
    rw [sum]
    omega
  have stands := slice_received packet seq old
  unfold parsePacket
  simp only [len, type]
  rw [sum]
  by_cases quoted : packet.IsQuoted
  · have text : packet.text = quote packet.data := if_pos quoted
    rw [text] at stands ⊢
    rw [if_pos quoted, if_pos (show packet.type = kermTypeHead ∨
      packet.type = kermTypeData from quoted)]
    exact decodeText_quote _ packet.data _ stands
  · have text : packet.text = packet.data := if_neg quoted
    rw [text] at stands ⊢
    rw [if_neg quoted, if_neg (show ¬ (packet.type = kermTypeHead ∨
      packet.type = kermTypeData) from quoted)]
    exact skipText_eq _ packet.data _ stands

theorem checkChar_lt (checksum : Nat) : checkChar checksum < 256 := by
  unfold checkChar kermKeySpace
  omega

theorem checksOut_received (valid : packet.Valid) (old : Nat → UInt8) :
    ChecksOut (packet.received seq old) := by
  unfold ChecksOut
  rw [parsePacket_received valid, received_check, UInt8.toNat_ofNat']
  exact Nat.mod_eq_of_lt (checkChar_lt _)

theorem isTerminated_received (valid : packet.Valid) (old : Nat → UInt8) :
    IsTerminated (packet.received seq old) := by
  unfold IsTerminated
  rw [parsePacket_received valid]
  exact received_term old

theorem packetSeq_received (packet : Packet) (small : seq < 64)
    (old : Nat → UInt8) :
    packetSeq (packet.received seq old) = seq := by
  unfold packetSeq
  rw [received_seq small]
  omega

end Received

theorem frames_text {text : List UInt8} (inside : kermKeyTerm ∉ text)
    (frame rest : List UInt8) :
    frames (some frame) (text ++ kermKeyTerm :: rest) =
      (frame ++ text ++ [kermKeyTerm]) :: frames none rest := by
  induction text generalizing frame with
  | nil => simp [frames]
  | cons byte text induction =>
      have different : byte ≠ kermKeyTerm := by
        intro same
        apply inside
        rw [same]
        exact List.mem_cons_self
      rw [List.cons_append, frames, if_neg different,
        induction (fun member => inside (List.mem_cons_of_mem _ member))]
      simp

theorem ofNat_ne_term {value : Nat} (printable : kermKeySpace ≤ value)
    (small : value < 256) : UInt8.ofNat value ≠ kermKeyTerm := by
  intro same
  have number := congrArg UInt8.toNat same
  rw [UInt8.toNat_ofNat', Nat.mod_eq_of_lt small] at number
  have term : kermKeyTerm.toNat = 13 := rfl
  unfold kermKeySpace at printable
  omega

theorem frames_packet {packet : Packet} (valid : packet.Valid) {seq : Nat}
    (small : seq < 64) :
    frames none (markStart :: packet.frame seq) = [packet.frame seq] := by
  have short := valid.short
  have inside : kermKeyTerm ∉ packet.body seq ++
      [UInt8.ofNat (checkChar ((packet.body seq).map UInt8.toNat).sum)] := by
    rw [List.mem_append, List.mem_singleton]
    unfold Packet.body
    simp only [List.mem_cons]
    rintro ((length | number | type | text) | check)
    · exact ofNat_ne_term (by omega) (by unfold kermKeySpace; omega)
        length.symm
    · exact ofNat_ne_term (by omega) (by unfold kermKeySpace; omega)
        number.symm
    · exact valid.type type.symm
    · exact valid.text text
    · exact ofNat_ne_term (Nat.le_add_right _ _) (checkChar_lt _) check.symm
  have split : packet.frame seq = packet.body seq ++
      [UInt8.ofNat (checkChar ((packet.body seq).map UInt8.toNat).sum)] ++
        kermKeyTerm :: [] := by
    simp [Packet.frame]
  rw [split, frames, if_pos rfl, frames_text inside]
  rfl

end Witos.Uart
