import Witos.Jpeg.Huffman
import Witos.Library.Bytes

/-!
# The bits of the scan data

A reader stands in front of bits: those that are left of the current byte, and
those of the bytes that follow, in which a byte of zeros is stuffed behind each
`0xff`.  Each function that reads takes what it returns off these bits.
-/

namespace Witos.Jpeg

open Library

def byteBits (byte : UInt8) : List Bool := toBits 8 byte.toNat

/-- The bytes as the stream carries them. -/
def stuffed (bytes : List UInt8) : List UInt8 :=
  bytes.flatMap fun byte => if byte = 0xff then [0xff, 0] else [byte]

/-- The bytes behind the current one, up to an address. -/
structure Supplies (memory : Nat → UInt8) (limit : Nat) (reader : BitReader)
    (bytes : List UInt8) : Prop where
  lies : Lies memory reader.lp (stuffed bytes)
  ends : reader.lp + (stuffed bytes).length = limit
  bitPos : reader.bitPos ≤ 8
  curByte : reader.curByte < 2 ^ reader.bitPos

def upcoming (reader : BitReader) (bytes : List UInt8) : List Bool :=
  toBits reader.bitPos reader.curByte ++ bytes.flatMap byteBits

/-- The bits in front of the reader, up to an address. -/
def Reading (memory : Nat → UInt8) (limit : Nat) (reader : BitReader)
    (bits : List Bool) : Prop :=
  ∃ bytes, Supplies memory limit reader bytes ∧ upcoming reader bytes = bits

variable {memory : Nat → UInt8} {limit : Nat} {reader : BitReader}
  {bytes : List UInt8}

namespace Supplies

variable (supplies : Supplies memory limit reader bytes)

include supplies

theorem drop (count : Nat) :
    Supplies memory limit (reader.drop count) bytes where
  lies := supplies.lies
  ends := supplies.ends
  bitPos := Nat.le_trans (Nat.sub_le _ _) supplies.bitPos
  curByte := Nat.mod_lt _ (Nat.two_pow_pos _)

theorem curByte_lt : reader.curByte < 256 :=
  Nat.lt_of_lt_of_le supplies.curByte
    (Nat.pow_le_pow_right (by decide) supplies.bitPos)

theorem taken_lt {count : Nat} (inside : count ≤ reader.bitPos) :
    reader.curByte / 2 ^ (reader.bitPos - count) < 2 ^ count := by
  apply Nat.div_lt_of_lt_mul
  rw [← Nat.pow_add, Nat.sub_add_cancel inside]
  exact supplies.curByte

omit supplies in
theorem upcoming_drop {count : Nat} (inside : count ≤ reader.bitPos) :
    upcoming reader bytes =
      toBits count (reader.curByte / 2 ^ (reader.bitPos - count)) ++
        upcoming (reader.drop count) bytes := by
  have split := toBits_append count (reader.bitPos - count) reader.curByte
  rw [Nat.add_sub_cancel' inside] at split
  rw [upcoming, upcoming, split, List.append_assoc, BitReader.drop,
    toBits_mod (Nat.le_refl _)]

theorem taken {bits rest : List Bool} (inside : bits.length ≤ reader.bitPos)
    (same : upcoming reader bytes = bits ++ rest) :
    reader.curByte / 2 ^ (reader.bitPos - bits.length) = ofBits bits ∧
      Reading memory limit (reader.drop bits.length) rest := by
  rw [upcoming_drop inside] at same
  obtain ⟨head, tail⟩ := List.append_inj same (length_toBits _ _)
  have value := ofBits_toBits_of_lt (supplies.taken_lt inside)
  rw [head] at value
  exact ⟨value.symm, bytes, supplies.drop bits.length, tail⟩

end Supplies

theorem stuffed_cons (byte : UInt8) (bytes : List UInt8) :
    stuffed (byte :: bytes) = stuffed [byte] ++ stuffed bytes := by
  simp [stuffed]

/-- The reader behind a byte of the stream. -/
def BitReader.behind (reader : BitReader) (byte : UInt8) : BitReader :=
  ⟨reader.lp + (stuffed [byte]).length, 8, byte.toNat⟩

theorem readU8_eq {byte : UInt8}
    (supplies : Supplies memory limit reader (byte :: bytes)) :
    readU8 memory reader = (byte.toNat, reader.behind byte) := by
  have lies := supplies.lies
  rw [stuffed_cons] at lies
  have first := (lies_append.mp lies).1
  by_cases marker : byte = 0xff
  · have read : memory reader.lp = 0xff := by
      rw [marker] at first
      exact (lies_cons.mp first).1
    rw [readU8, read, marker]
    rfl
  · have single : stuffed [byte] = [byte] := by
      simp [stuffed, marker]
    rw [single] at first
    have read : memory reader.lp = byte := (lies_cons.mp first).1
    simp only [readU8, read, BitReader.behind, single, if_neg marker]
    rfl

theorem Supplies.behind {byte : UInt8}
    (supplies : Supplies memory limit reader (byte :: bytes)) :
    Supplies memory limit (reader.behind byte) bytes where
  lies := by
    have lies := supplies.lies
    rw [stuffed_cons] at lies
    exact (lies_append.mp lies).2
  ends := by
    have ends := supplies.ends
    rw [stuffed_cons, List.length_append] at ends
    rw [BitReader.behind, ← ends, Nat.add_assoc]
  bitPos := Nat.le_refl 8
  curByte := byte.toNat_lt

theorem takeBit_reading {bit : Bool} {bits : List Bool}
    (reading : Reading memory limit reader (bit :: bits)) :
    ∃ next, takeBit memory reader = (bit.toNat, next) ∧
      Reading memory limit next bits := by
  obtain ⟨bytes, supplies, same⟩ := reading
  have number : ofBits [bit] = bit.toNat := by
    rw [ofBits_cons, ofBits_nil, Nat.add_zero]
    exact Nat.mul_one _
  rw [takeBit]
  by_cases left : 1 ≤ reader.bitPos
  · obtain ⟨value, rest⟩ := supplies.taken
      (show [bit].length ≤ reader.bitPos from left) same
    rw [number] at value
    rw [if_pos left, Nat.mod_eq_of_lt supplies.curByte_lt, ← value]
    exact ⟨_, rfl, rest⟩
  · have none : reader.bitPos = 0 := by omega
    rw [upcoming, none, toBits_zero, List.nil_append] at same
    cases bytes with
    | nil => cases same
    | cons byte bytes =>
        have room : [bit].length ≤ (reader.behind byte).bitPos :=
          show 1 ≤ 8 by decide
        obtain ⟨value, rest⟩ := supplies.behind.taken room same
        rw [if_neg left, readU8_eq supplies]
        refine ⟨_, ?_, rest⟩
        rw [← number, ← value]
        rfl

/-- The loop reads whole bytes until at most eight bits are left. -/
theorem readWhole_reading {fuel tempsize : Nat} (enough : tempsize ≤ fuel)
    (more : 0 < tempsize) {before extra rest : List Bool}
    (supplies : Supplies memory limit reader bytes)
    (same : bytes.flatMap byteBits = extra ++ rest)
    (size : extra.length = tempsize) (small : before.length + tempsize ≤ 16) :
    ∃ middle last next bytes',
      readWhole memory fuel tempsize (ofBits before) reader =
        (last.length, ofBits (before ++ middle), next) ∧
      extra = middle ++ last ∧ 0 < last.length ∧ last.length ≤ 8 ∧
      Supplies memory limit next bytes' ∧
      bytes'.flatMap byteBits = last ++ rest := by
  induction fuel generalizing tempsize reader before extra bytes with
  | zero => omega
  | succ fuel induction =>
      by_cases whole : 8 < tempsize
      · cases bytes with
        | nil =>
            have lengths := congrArg List.length same
            simp at lengths
            omega
        | cons byte bytes =>
            have eight : (byteBits byte).length = 8 := length_toBits _ _
            rw [List.flatMap_cons] at same
            obtain ⟨tail, split⟩ := List.prefix_of_prefix_length_le
              ⟨_, same⟩ (List.prefix_append extra rest) (by omega)
            rw [← split, List.append_assoc] at same
            have tails := List.append_cancel_left same
            rw [← split, List.length_append, eight] at size
            have longer : (before ++ byteBits byte).length =
                before.length + 8 := by
              rw [List.length_append, eight]
            obtain ⟨middle, last, next, bytes', read, parts, found⟩ :=
              induction (show tempsize - 8 ≤ fuel by omega) (by omega)
                supplies.behind tails (by omega)
                (show (before ++ byteBits byte).length + (tempsize - 8) ≤ 16
                  by omega)
            have value : (ofBits before * 2 ^ 8 + byte.toNat) % 2 ^ 16 =
                ofBits (before ++ byteBits byte) := by
              have bound := ofBits_lt (before ++ byteBits byte)
              have fits : 2 ^ (before ++ byteBits byte).length ≤ 2 ^ 16 :=
                Nat.pow_le_pow_right (by decide) (by omega)
              have byteValue : ofBits (byteBits byte) = byte.toNat :=
                ofBits_toBits_of_lt byte.toNat_lt
              rw [ofBits_append, eight, byteValue] at bound ⊢
              exact Nat.mod_eq_of_lt (Nat.lt_of_lt_of_le bound fits)
            refine ⟨byteBits byte ++ middle, last, next, bytes', ?_, ?_,
              found⟩
            · rw [readWhole, if_pos whole, readU8_eq supplies]
              simp only [value, read, List.append_assoc]
            · rw [← split, parts, List.append_assoc]
      · refine ⟨[], extra, reader, bytes, ?_, rfl, by omega, by omega,
          supplies, same⟩
        rw [readWhole, if_neg whole, size, List.append_nil]

theorem readExtra_reading {extra rest : List Bool}
    (more : 0 < extra.length) (small : extra.length ≤ 16)
    (reading : Reading memory limit reader (extra ++ rest)) :
    ∃ next, readExtra memory extra.length reader = (ofBits extra, next) ∧
      Reading memory limit next rest := by
  obtain ⟨bytes, supplies, same⟩ := reading
  rw [readExtra]
  by_cases inside : extra.length ≤ reader.bitPos
  · obtain ⟨value, rest⟩ := supplies.taken inside same
    rw [if_pos inside, Nat.mod_eq_of_lt supplies.curByte_lt, value]
    exact ⟨_, rfl, rest⟩
  · -- the rest of the current byte, whole bytes, and the first bits of one
    let current := toBits reader.bitPos reader.curByte
    have size : current.length = reader.bitPos := length_toBits _ _
    obtain ⟨others, split⟩ := List.prefix_of_prefix_length_le
      ⟨_, same⟩ (List.prefix_append extra rest)
      (show current.length ≤ extra.length by omega)
    rw [← split, upcoming, List.append_assoc] at same
    have left : others.length = extra.length - reader.bitPos := by
      rw [← split, List.length_append, size]
      omega
    obtain ⟨middle, last, next, bytes', read, parts, positive, few, supplied,
        tails⟩ := readWhole_reading (Nat.le_refl _) (by omega) supplies
      (List.append_cancel_left same) left
      (show current.length + (extra.length - reader.bitPos) ≤ 16 by omega)
    have value : ofBits current = reader.curByte :=
      ofBits_toBits_of_lt supplies.curByte
    rw [value] at read
    cases bytes' with
    | nil =>
        have lengths := congrArg List.length tails
        simp at lengths
        omega
    | cons byte bytes' =>
        obtain ⟨taken, rest⟩ := supplied.behind.taken
          (show last.length ≤ 8 from few) tails
        have bound := ofBits_lt extra
        have fits : 2 ^ extra.length ≤ 2 ^ 16 :=
          Nat.pow_le_pow_right (by decide) small
        have number : ofBits extra =
            ofBits (current ++ middle) * 2 ^ last.length + ofBits last := by
          rw [← split, parts, ← List.append_assoc, ofBits_append]
        refine ⟨_, ?_, rest⟩
        rw [if_neg inside]
        simp only [read, readU8_eq supplied]
        rw [number, ← taken] at bound
        rw [number, ← taken]
        congr 1
        exact Nat.mod_eq_of_lt (Nat.lt_of_lt_of_le bound fits)

end Witos.Jpeg
