import Witos.Net.Tftp

/-!
# An upload to a lock-step receiver

Nothing is lost and every datagram is answered at once, so that the loop of
`tftp_upload` and the receiver take turns.
-/

namespace Witos.Tftp

open Library

/-- A receiver counts blocks in 16 bits and considers the transfer complete at
the first block that is not full. -/
structure Receiver where
  expected : Nat
  bytes : List UInt8
  complete : Bool

def startReceiver : Receiver where
  expected := 1
  bytes := []
  complete := false

/-- The expected block is stored and acknowledged; no answer is the empty
datagram. -/
def Receiver.receive (receiver : Receiver) (packet : List UInt8) :
    Receiver × List UInt8 :=
  if receiver.complete = false ∧ fieldAt packet 0 2 = tftpDat ∧
      fieldAt packet 2 2 = receiver.expected then
    let payload := packet.drop tftpHdrLen
    ({ expected := add16 receiver.expected 1
       bytes := receiver.bytes ++ payload
       complete := decide (payload.length < tftpPktLen) },
      ackPacket receiver.expected)
  else (receiver, [])

/-- The loop and the receiver in turns, from an answer of the receiver on. -/
def converse : Nat → Upload → Receiver → List UInt8 → Exit × Upload × Receiver
  | 0, upload, receiver, _ => (.again, upload, receiver)
  | fuel + 1, upload, receiver, answer =>
      match uploadStep answer upload with
      | (.again, next, some packet) =>
          converse fuel next (receiver.receive packet).1
            (receiver.receive packet).2
      | (.again, next, none) => converse fuel next receiver []
      | (exit, next, _) => (exit, next, receiver)

theorem uploadStep_ack {upload : Upload} (small : upload.blkNum < 2 ^ 16) :
    uploadStep (ackPacket upload.blkNum) upload =
      uploadBlock { upload with
        buf := overlay (ackPacket upload.blkNum) upload.buf
        ret := tftpHdrLen } := by
  have length : (ackPacket upload.blkNum).length = tftpHdrLen := by
    simp [ackPacket, tftpHdrLen]
  have bytes : (ackPacket upload.blkNum).take tftpBufLen =
      ackPacket upload.blkNum :=
    List.take_of_length_le (by rw [length]; decide)
  have nonempty : ackPacket upload.blkNum ≠ [] := by
    rw [← List.length_pos_iff, length]
    decide
  unfold uploadStep
  simp only [bytes, nonempty, if_false, length]
  rw [if_pos, if_pos]
  · rw [field_overlay _ (by rw [length]; decide), fieldAt_ackPacket small]
  · rw [field_overlay _ (by rw [length]; decide), fieldAt_ackPacket_opcode]

theorem uploadBlock_end {upload : Upload} (read : upload.rest = []) :
    ∃ next, uploadBlock upload = (.stop, next, none) := by
  refine ⟨{ upload with ret := 0, rest := [] }, ?_⟩
  simp [uploadBlock, read]

theorem uploadBlock_data {upload : Upload} (unread : upload.rest ≠ []) :
    ∃ next, uploadBlock upload = (.again, next,
        some (dataPacket (add16 upload.blkNum 1)
          (upload.rest.take tftpPktLen))) ∧
      next.blkNum = add16 upload.blkNum 1 ∧
      next.rest = upload.rest.drop tftpPktLen := by
  have nonempty : upload.rest.take tftpPktLen ≠ [] := by
    rw [ne_eq, List.take_eq_nil_iff, not_or]
    exact ⟨by decide, unread⟩
  have sent : slice
      (overlay (dataPacket (add16 upload.blkNum 1)
        (upload.rest.take tftpPktLen)) upload.buf)
      0 ((upload.rest.take tftpPktLen).length + tftpHdrLen) =
      dataPacket (add16 upload.blkNum 1)
        (upload.rest.take tftpPktLen) := by
    rw [slice_overlay _ (by simp; omega), List.drop_zero,
      List.take_of_length_le (by simp; omega)]
  refine ⟨{ upload with
    rest := upload.rest.drop tftpPktLen
    buf := overlay (dataPacket (add16 upload.blkNum 1)
      (upload.rest.take tftpPktLen)) upload.buf
    blkNum := add16 upload.blkNum 1
    sendLen := add32 upload.sendLen (upload.rest.take tftpPktLen).length
    ret := (upload.rest.take tftpPktLen).length + tftpHdrLen }, ?_, rfl, rfl⟩
  simp only [uploadBlock, nonempty, if_false, sent]

theorem receive_dataPacket {receiver : Receiver}
    (incomplete : receiver.complete = false)
    (small : receiver.expected < 2 ^ 16) (payload : List UInt8) :
    receiver.receive (dataPacket receiver.expected payload) =
      ({ expected := add16 receiver.expected 1
         bytes := receiver.bytes ++ payload
         complete := decide (payload.length < tftpPktLen) },
        ackPacket receiver.expected) := by
  unfold Receiver.receive
  rw [if_pos ⟨incomplete, fieldAt_dataPacket_opcode _ _,
    fieldAt_dataPacket_number small _⟩]
  simp

/-- Whether the last block is short does not change when a block is taken off
the front, and a last block is short if it is not full. -/
theorem complete_of_drop {rest : List UInt8} (unread : rest ≠ []) :
    (if rest.drop tftpPktLen = [] then
      decide ((rest.take tftpPktLen).length < tftpPktLen)
    else decide ((rest.drop tftpPktLen).length % tftpPktLen ≠ 0)) =
      decide (rest.length % tftpPktLen ≠ 0) := by
  have positive := List.length_pos_iff.mpr unread
  simp only [List.length_take, List.length_drop, List.drop_eq_nil_iff]
  unfold tftpPktLen
  split
  · rw [decide_eq_decide]
    omega
  · rw [decide_eq_decide]
    omega

/-- From an acknowledgement on, the receiver gets the rest of the file, and
its last block is short unless it is full or there is none. -/
theorem converse_delivers {fuel : Nat} {upload : Upload} {receiver : Receiver}
    (enough : (upload.rest.length + 511) / tftpPktLen < fuel)
    (small : upload.blkNum < 2 ^ 16)
    (expected : receiver.expected = add16 upload.blkNum 1)
    (incomplete : upload.rest ≠ [] → receiver.complete = false) :
    ∃ next ended,
      converse fuel upload receiver (ackPacket upload.blkNum) =
        (.stop, next, ended) ∧
      ended.bytes = receiver.bytes ++ upload.rest ∧
      ended.complete =
        if upload.rest = [] then receiver.complete
        else decide (upload.rest.length % tftpPktLen ≠ 0) := by
  induction fuel generalizing upload receiver with
  | zero => exact absurd enough (Nat.not_lt_zero _)
  | succ fuel induction =>
      unfold converse
      rw [uploadStep_ack small]
      by_cases read : upload.rest = []
      · obtain ⟨next, stopped⟩ := @uploadBlock_end
          { upload with
            buf := overlay (ackPacket upload.blkNum) upload.buf
            ret := tftpHdrLen } read
        rw [stopped]
        exact ⟨next, receiver, rfl, by simp [read], by simp [read]⟩
      · obtain ⟨next, sent, blkNum, rest⟩ := @uploadBlock_data
          { upload with
            buf := overlay (ackPacket upload.blkNum) upload.buf
            ret := tftpHdrLen } read
        simp only at sent blkNum rest
        have positive : 0 < upload.rest.length :=
          List.length_pos_iff.mpr read
        have bound : add16 upload.blkNum 1 < 2 ^ 16 :=
          Nat.mod_lt _ (by decide)
        rw [sent, ← expected]
        simp only
        rw [receive_dataPacket (incomplete read)
          (by rw [expected]; exact bound)]
        rw [expected, ← blkNum]
        obtain ⟨final, ended, run, bytes, complete⟩ := @induction next
          { expected := add16 next.blkNum 1
            bytes := receiver.bytes ++ upload.rest.take tftpPktLen
            complete :=
              decide ((upload.rest.take tftpPktLen).length < tftpPktLen) }
          (by
            rw [rest, List.length_drop]
            unfold tftpPktLen at *
            omega)
          (by rw [blkNum]; exact bound) rfl
          (by
            intro unread
            rw [rest, ← List.length_pos_iff, List.length_drop] at unread
            simp
            omega)
        refine ⟨final, ended, run, ?_, ?_⟩
        · rw [bytes, rest, List.append_assoc, List.take_append_drop]
        · rw [complete, rest, if_neg read]
          exact complete_of_drop read

/-- The receiver always gets the bytes of the file, but its transfer is only
complete if the last block is not full, and the size is never reported: the
loop has no exit to the assignment behind it. -/
theorem tftpUpload_delivers_iff (opt : Opt) (file : List UInt8)
    (buf : Nat → UInt8) (ret : Int) (more : Nat) :
    let result := converse (file.length / tftpPktLen + 2 + more)
      (startUpload buf file ret) startReceiver (ackPacket 0)
    result.1 = .stop ∧
    ((result.2.2.complete = true ∧ result.2.2.bytes = file ∧
        (setXmitSize result.1 result.2.1.sendLen opt).xmitSize =
          file.length) ↔
      file.length % tftpPktLen ≠ 0 ∧ opt.xmitSize = file.length) := by
  intro result
  obtain ⟨next, ended, run, bytes, complete⟩ := @converse_delivers
    (file.length / tftpPktLen + 2 + more) (startUpload buf file ret)
    startReceiver
    (by
      unfold startUpload tftpPktLen
      simp only
      omega)
    (by simp [startUpload]) rfl (fun _ => rfl)
  have unread : (startUpload buf file ret).rest = file := rfl
  rw [unread] at bytes complete
  have ends : result = (.stop, next, ended) := run
  rw [ends]
  refine ⟨rfl, ?_⟩
  have received : ended.bytes = file := by
    simpa [startReceiver] using bytes
  have reported : (setXmitSize .stop next.sendLen opt).xmitSize =
      opt.xmitSize := rfl
  have isComplete : ended.complete = true ↔
      file.length % tftpPktLen ≠ 0 := by
    rw [complete]
    by_cases empty : file = []
    · simp [startReceiver, empty]
    · rw [if_neg empty, decide_eq_true_iff]
  simp only [received, reported, isComplete, true_and]

/-- A file of one full block is never complete, and the size of a file of one
byte is not reported. -/
theorem tftpUpload_not_delivers :
    let opt : Opt := ⟨true, false, none, 0⟩
    let full := converse 3
      (startUpload (fun _ => 0) (List.replicate 512 7) 0) startReceiver
      (ackPacket 0)
    let short := converse 2 (startUpload (fun _ => 0) [7] 0) startReceiver
      (ackPacket 0)
    full.1 = .stop ∧ full.2.2.complete = false ∧
    short.1 = .stop ∧ short.2.2.complete = true ∧
    (setXmitSize short.1 short.2.1.sendLen opt).xmitSize = 0 := by
  decide +kernel

end Witos.Tftp
