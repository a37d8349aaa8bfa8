import Mathlib.Logic.Relation
import Witos.Net.TftpDownload

/-!
# A download from a lock-step sender

The sender transmits one block at a time, any number of times, and turns to the
next one when the acknowledgement of its block arrives.  Packets of both sides
stay in the network for good: to lose one is never to deliver it, and a packet
may be delivered late and more than once.
-/

namespace Witos.Tftp

open Library

/-- The payload of a data packet; blocks are numbered from 1. -/
def blockOf (file : List UInt8) (number : Nat) : List UInt8 :=
  (file.drop (tftpPktLen * (number - 1))).take tftpPktLen

/-- The last block is shorter than the others, and possibly empty. -/
def blockCount (file : List UInt8) : Nat :=
  file.length / tftpPktLen + 1

theorem length_blockOf (file : List UInt8) (number : Nat) :
    (blockOf file number).length =
      min tftpPktLen (file.length - tftpPktLen * (number - 1)) := by
  simp [blockOf]

theorem length_blockOf_le (file : List UInt8) (number : Nat) :
    (blockOf file number).length ≤ tftpPktLen := by
  rw [length_blockOf]
  exact Nat.min_le_left _ _

theorem length_blockOf_eq_iff {file : List UInt8} {number : Nat}
    (first : 1 ≤ number) (within : number ≤ blockCount file) :
    (blockOf file number).length = tftpPktLen ↔
      number < blockCount file := by
  rw [length_blockOf]
  unfold blockCount tftpPktLen at *
  omega

theorem take_append_blockOf (file : List UInt8) (count : Nat) :
    file.take (tftpPktLen * count) ++ blockOf file (count + 1) =
      file.take (tftpPktLen * (count + 1)) := by
  rw [Nat.mul_succ, List.take_add, blockOf, Nat.add_sub_cancel]

theorem take_blockCount (file : List UInt8) :
    file.take (tftpPktLen * blockCount file) = file := by
  apply List.take_of_length_le
  unfold blockCount tftpPktLen
  omega

section Packet

variable {number : Nat} {payload : List UInt8} {reception : Reception}
  (packet : reception.datagram = dataPacket number payload)
  (fits : payload.length ≤ tftpPktLen)

include packet fits

theorem bytes_of_dataPacket :
    reception.bytes = dataPacket number payload := by
  rw [Reception.bytes, packet]
  apply List.take_of_length_le
  rw [length_dataPacket]
  unfold tftpBufLen
  omega

theorem pktLen_of_dataPacket :
    sub32 reception.bytes.length tftpHdrLen = payload.length := by
  rw [bytes_of_dataPacket packet fits, length_dataPacket,
    sub32_of_le _ (by omega)]
  · omega
  · unfold tftpPktLen at fits
    unfold tftpHdrLen
    omega

theorem isData_of_dataPacket (transfer : Transfer) :
    IsData transfer reception := by
  have bytes := bytes_of_dataPacket packet fits
  have length := length_dataPacket number payload
  constructor
  · rw [bytes, ← List.length_pos_iff, length]
    unfold tftpHdrLen
    omega
  · rw [Transfer.recvfrom, field_overlay, bytes, fieldAt_dataPacket_opcode]
    rw [bytes, length]
    unfold tftpHdrLen
    omega

theorem isExpected_of_dataPacket (small : number < 2 ^ 16)
    (transfer : Transfer) :
    IsExpected transfer reception ↔ number = transfer.blkNum := by
  have bytes := bytes_of_dataPacket packet fits
  have length := length_dataPacket number payload
  rw [IsExpected, Transfer.recvfrom, field_overlay, bytes,
    fieldAt_dataPacket_number small]
  rw [bytes, length]
  unfold tftpHdrLen
  omega

theorem payload_of_dataPacket (transfer : Transfer) :
    slice (transfer.recvfrom reception).buf tftpHdrLen payload.length =
      payload := by
  have bytes := bytes_of_dataPacket packet fits
  have length := length_dataPacket number payload
  rw [Transfer.recvfrom, slice_overlay, bytes, drop_dataPacket,
    List.take_length]
  rw [bytes, length]

end Packet

/-- The bytes of the first blocks, if there is a place to store them. -/
def stored (active : Bool) (file : List UInt8) (count : Nat) : List UInt8 :=
  if active then file.take (tftpPktLen * count) else []

/-- The receiver has accepted `count` blocks. -/
structure Progress (opt : Opt) (file : List UInt8) (count : Nat)
    (transfer : Transfer) : Prop where
  blkNum : transfer.blkNum = count + 1
  loadLen : transfer.loadLen = (file.take (tftpPktLen * count)).length
  loaded : transfer.loaded = stored opt.loadAddr file count
  written : transfer.written = stored opt.dst file count
  sent : ∀ packet ∈ transfer.sent, ∃ number ≤ count, packet = ackPacket number

/-- What is true of a download after any number of iterations.  While it runs,
the sender is at most one block ahead. -/
inductive Download (opt : Opt) (file : List UInt8) (block : Nat) :
    Exit × Transfer → Prop
  | again {count : Nat} {transfer : Transfer} :
      count < blockCount file → block ≤ count + 1 →
      Progress opt file count transfer →
      Download opt file block (.again, transfer)
  | normal {transfer : Transfer} :
      Progress opt file (blockCount file) transfer →
      Download opt file block (.normal, transfer)
  | stop {countLoaded countWritten : Nat} {transfer : Transfer} :
      transfer.loaded = stored opt.loadAddr file countLoaded →
      transfer.written = stored opt.dst file countWritten →
      Download opt file block (.stop, transfer)

theorem stored_append (active : Bool) (file : List UInt8) (count : Nat) :
    (stored active file count ++
      if active then blockOf file (count + 1) else []) =
      stored active file (count + 1) := by
  cases active with
  | false => rfl
  | true => exact take_append_blockOf file count

section Delivery

variable {opt : Opt} {file : List UInt8} {count : Nat} {transfer : Transfer}
  {reception : Reception} {block : Nat}

theorem Progress.recvfrom (progress : Progress opt file count transfer) :
    Progress opt file count (transfer.recvfrom reception) :=
  ⟨progress.blkNum, progress.loadLen, progress.loaded, progress.written,
    progress.sent⟩

theorem Progress.tftpSendAck (progress : Progress opt file count transfer)
    {number : Nat} (earlier : number ≤ count) :
    Progress opt file count (transfer.tftpSendAck number) := by
  refine ⟨progress.blkNum, progress.loadLen, progress.loaded,
    progress.written, ?_⟩
  intro packet member
  rw [Transfer.tftpSendAck, List.mem_append, List.mem_singleton] at member
  obtain before | rfl := member
  · exact progress.sent packet before
  · exact ⟨number, earlier, rfl⟩

/-- The expected block brings the receiver one block further, unless storing
it fails. -/
theorem Accepts.progress {result : Exit × Transfer}
    (accepts :
      Accepts opt (blockOf file (count + 1)).length transfer result)
    (progress : Progress opt file count transfer)
    (payload :
      slice transfer.buf tftpHdrLen (blockOf file (count + 1)).length =
        blockOf file (count + 1))
    (few : count + 2 < 2 ^ 16) :
    (∃ after, result = (.again, after) ∧
        Progress opt file (count + 1) after) ∨
      ∃ after, result = (.stop, after) ∧
        after.loaded = stored opt.loadAddr file (count + 1) ∧
        after.written = stored opt.dst file count := by
  have short := length_blockOf_le file (count + 1)
  have loaded : result.1 ≠ .fault →
      result.2.loaded = stored opt.loadAddr file (count + 1) := by
    intro noFault
    rw [accepts.loaded noFault, payload, progress.loaded, stored_append]
  obtain again | stopped | ⟨-, long⟩ := accepts.goesOn
  · refine Or.inl ⟨result.2, Prod.ext again rfl, ?_, ?_,
      loaded (by simp [again]), ?_, ?_⟩
    · rw [accepts.blkNum, progress.blkNum]
      exact add16_of_lt few
    · rw [accepts.loadLen, progress.loadLen, ← take_append_blockOf,
        List.length_append]
      apply add32_of_lt
      rw [List.length_take]
      unfold tftpPktLen at *
      omega
    · rw [accepts.written again, payload, progress.written, stored_append]
    · intro packet member
      rw [accepts.sent, List.mem_append, List.mem_singleton] at member
      obtain before | rfl := member
      · obtain ⟨number, earlier, rfl⟩ := progress.sent packet before
        exact ⟨number, by omega, rfl⟩
      · exact ⟨transfer.blkNum, by rw [progress.blkNum], rfl⟩
  · refine Or.inr ⟨result.2, Prod.ext stopped rfl,
      loaded (by simp [stopped]), ?_⟩
    rw [accepts.unwritten (by simp [stopped]), progress.written]
  · omega

theorem Progress.deliver (progress : Progress opt file count transfer)
    (few : blockCount file < 65535) (unfinished : count < blockCount file)
    {number : Nat} (first : 1 ≤ number) (reached : number ≤ block)
    (ahead : block ≤ count + 1)
    (packet : reception.datagram = dataPacket number (blockOf file number)) :
    Download opt file block (downloadStep opt reception transfer) := by
  have fits := length_blockOf_le file number
  have isData := isData_of_dataPacket packet fits transfer
  have expectedIff := isExpected_of_dataPacket packet fits
    (by omega) transfer
  have full := length_blockOf_eq_iff first
    (show number ≤ blockCount file by omega)
  rw [progress.blkNum] at expectedIff
  unfold downloadStep
  simp only [isData.1, if_false, pktLen_of_dataPacket packet fits]
  obtain ⟨-, expected, accepts⟩ | ⟨-, unexpected, again⟩ | ⟨noData, -⟩ :=
    downloadSwitch_cases opt (blockOf file number).length transfer isData.1
  · have next := expectedIff.mp expected
    subst next
    obtain ⟨after, again, further⟩ | ⟨after, stopped, loaded, written⟩ :=
      accepts.progress progress.recvfrom
        (payload_of_dataPacket packet fits transfer) (by omega)
    · by_cases last : count + 1 < blockCount file
      · have continues := full.mpr last
        rw [loopTest_full continues, again]
        exact .again last (by omega) further
      · have ends : (blockOf file (count + 1)).length ≠ tftpPktLen :=
          fun equal => last (full.mp equal)
        have complete : count + 1 = blockCount file := by omega
        rw [again, loopTest_short ends rfl]
        apply Download.normal
        rw [← complete]
        exact further
    · rw [stopped, loopTest_ended _ (by simp)]
      exact .stop loaded written
  · have earlier : number ≤ count := by
      have other : number ≠ count + 1 := fun same =>
        unexpected (expectedIff.mpr same)
      omega
    have continues := full.mpr (by omega)
    rw [loopTest_full continues, again]
    apply Download.again unfinished ahead
    apply progress.recvfrom.tftpSendAck
    rw [progress.blkNum, sub16_of_le (by omega) (by omega)]
    omega
  · exact absurd isData noData

theorem Progress.interrupt (progress : Progress opt file count transfer)
    (noData : ¬ IsData transfer reception) :
    Download opt file block (downloadStep opt reception transfer) := by
  unfold downloadStep
  split
  · exact .stop progress.loaded progress.written
  case isFalse nonempty =>
    obtain ⟨isData, -⟩ | ⟨isData, -⟩ | ⟨-, stopped⟩ :=
      downloadSwitch_cases opt (sub32 reception.bytes.length tftpHdrLen)
        transfer nonempty
    · exact absurd isData noData
    · exact absurd isData noData
    · dsimp only
      rw [stopped, loopTest_ended _ (by simp)]
      exact .stop progress.loaded progress.written

end Delivery

/-- The block the sender transmits, the data packets in the network, and the
results of `recvfrom` so far. -/
structure Session where
  block : Nat
  data : List Nat
  received : List Reception

/-- The receiver of a session is the loop on what it has received. -/
def Session.receiver (session : Session) (opt : Opt) (start : Transfer) :
    Exit × Transfer :=
  downloadLoop opt session.received start

def startSession : Session where
  block := 1
  data := []
  received := []

def Session.receive (session : Session) (reception : Reception) : Session :=
  { session with received := session.received ++ [reception] }

/-- A step of the sender, of the network or of the receiver.  Nothing promises
that `ioctl` and `write` succeed or that a packet ever arrives, and the loop
may be interrupted or sent an error. -/
inductive Step (opt : Opt) (file : List UInt8) (start : Transfer) :
    Session → Session → Prop
  | transmit {session : Session} :
      session.block ≤ blockCount file →
      Step opt file start session
        { session with data := session.block :: session.data }
  | acknowledge {session : Session} {packet : List UInt8} :
      packet ∈ (session.receiver opt start).2.sent →
      fieldAt packet 0 2 = tftpAck →
      fieldAt packet 2 2 = session.block →
      Step opt file start session { session with block := session.block + 1 }
  | deliver {session : Session} {number : Nat} (ioctlRet writeRet : Int) :
      number ∈ session.data →
      Step opt file start session (session.receive
        ⟨dataPacket number (blockOf file number), ioctlRet, writeRet⟩)
  | silence {session : Session} (ioctlRet writeRet : Int) :
      Step opt file start session (session.receive ⟨[], ioctlRet, writeRet⟩)
  | error {session : Session} (message : List UInt8)
      (ioctlRet writeRet : Int) :
      Step opt file start session (session.receive
        ⟨beBytes 2 tftpErr ++ message, ioctlRet, writeRet⟩)

structure InStep (opt : Opt) (file : List UInt8) (start : Transfer)
    (session : Session) : Prop where
  first : 1 ≤ session.block
  data : ∀ number ∈ session.data, 1 ≤ number ∧ number ≤ session.block
  download : Download opt file session.block (session.receiver opt start)

theorem downloadLoop_cons (opt : Opt) (reception : Reception)
    (receptions : List Reception) (transfer : Transfer) :
    downloadLoop opt (reception :: receptions) transfer =
      if (downloadStep opt reception transfer).1 = .again then
        downloadLoop opt receptions (downloadStep opt reception transfer).2
      else downloadStep opt reception transfer := by
  rw [downloadLoop]
  rcases downloadStep opt reception transfer with ⟨exit, next⟩
  cases exit <;> rfl

theorem downloadLoop_concat (opt : Opt) (receptions : List Reception)
    (reception : Reception) (transfer : Transfer) :
    downloadLoop opt (receptions ++ [reception]) transfer =
      if (downloadLoop opt receptions transfer).1 = .again then
        downloadStep opt reception (downloadLoop opt receptions transfer).2
      else downloadLoop opt receptions transfer := by
  induction receptions generalizing transfer with
  | nil =>
      simp only [List.nil_append, downloadLoop_cons, downloadLoop, if_true]
      split
      case isTrue again => rw [← again]
      case isFalse => rfl
  | cons head tail induction =>
      rw [List.cons_append, downloadLoop_cons, downloadLoop_cons]
      by_cases again : (downloadStep opt head transfer).1 = .again
      · rw [if_pos again, if_pos again, induction]
      · rw [if_neg again, if_neg again, if_neg again]

section Run

variable {opt : Opt} {file : List UInt8} {start : Transfer}
  {session next : Session}

/-- A reception is an iteration while the loop runs, and nothing after it. -/
theorem receiver_receive (session : Session) (reception : Reception) :
    (session.receive reception).receiver opt start =
      if (session.receiver opt start).1 = .again then
        downloadStep opt reception (session.receiver opt start).2
      else session.receiver opt start :=
  downloadLoop_concat opt session.received reception start

theorem InStep.receive (inStep : InStep opt file start session)
    {reception : Reception}
    (iteration : ∀ {count : Nat} {transfer : Transfer},
      count < blockCount file → session.block ≤ count + 1 →
      Progress opt file count transfer →
      Download opt file session.block
        (downloadStep opt reception transfer)) :
    InStep opt file start (session.receive reception) := by
  refine ⟨inStep.first, inStep.data, ?_⟩
  have download := inStep.download
  rw [receiver_receive]
  change Download opt file session.block _
  generalize session.receiver opt start = result at download
  cases download with
  | again unfinished ahead progress =>
      exact iteration unfinished ahead progress
  | normal complete => exact .normal complete
  | stop loaded written => exact .stop loaded written

/-- The sender only turns to the next block when the receiver has accepted the
one before it. -/
theorem InStep.acknowledge (inStep : InStep opt file start session)
    (few : blockCount file < 65535) {packet : List UInt8}
    (member : packet ∈ (session.receiver opt start).2.sent)
    (number : fieldAt packet 2 2 = session.block) :
    InStep opt file start { session with block := session.block + 1 } := by
  refine ⟨by simp, ?_, ?_⟩
  · intro number member
    have bounds := inStep.data number member
    exact ⟨bounds.1, by simp only; omega⟩
  · have download := inStep.download
    change Download opt file (session.block + 1) (session.receiver opt start)
    generalize session.receiver opt start = result at download member
    cases download with
    | again unfinished ahead progress =>
        obtain ⟨acked, earlier, rfl⟩ := progress.sent packet member
        rw [fieldAt_ackPacket (by omega)] at number
        exact .again unfinished (by omega) progress
    | normal complete => exact .normal complete
    | stop loaded written => exact .stop loaded written

theorem not_isData_of_error {transfer : Transfer} {reception : Reception}
    {message : List UInt8}
    (packet : reception.datagram = beBytes 2 tftpErr ++ message) :
    ¬ IsData transfer reception := by
  intro isData
  have length : (beBytes 2 tftpErr).length = 2 := length_beBytes 2 tftpErr
  have opcode := isData.2
  have bytes : reception.bytes =
      beBytes 2 tftpErr ++ message.take (tftpBufLen - 2) := by
    rw [Reception.bytes, packet, List.take_append, length,
      List.take_of_length_le (by rw [length]; decide)]
  rw [Transfer.recvfrom, field_overlay, bytes, fieldAt, List.drop_zero,
    List.take_left' length, beValue_beBytes] at opcode
  · exact absurd opcode (by decide)
  · rw [bytes, List.length_append, length]
    omega

theorem InStep.step (inStep : InStep opt file start session)
    (few : blockCount file < 65535)
    (step : Step opt file start session next) :
    InStep opt file start next := by
  cases step with
  | transmit unfinished =>
      refine ⟨inStep.first, ?_, inStep.download⟩
      intro number member
      obtain rfl | before := List.mem_cons.mp member
      · exact ⟨inStep.first, Nat.le_refl _⟩
      · exact inStep.data number before
  | acknowledge member opcode number =>
      exact inStep.acknowledge few member number
  | deliver ioctlRet writeRet member =>
      obtain ⟨first, reached⟩ := inStep.data _ member
      apply inStep.receive
      intro count transfer unfinished ahead progress
      apply progress.deliver few unfinished first reached ahead
      rfl
  | silence ioctlRet writeRet =>
      apply inStep.receive
      intro count transfer unfinished ahead progress
      exact progress.interrupt (fun isData => isData.1 rfl)
  | error message ioctlRet writeRet =>
      apply inStep.receive
      intro count transfer unfinished ahead progress
      exact progress.interrupt (not_isData_of_error rfl)

end Run

theorem inStep_startSession (opt : Opt) (file : List UInt8)
    (buf : Nat → UInt8) (ret : Int) :
    InStep opt file (startTransfer opt buf ret) startSession := by
  refine ⟨Nat.le_refl 1, by simp [startSession], ?_⟩
  apply Download.again (Nat.succ_pos _) (Nat.le_refl 1)
  constructor <;> simp [startTransfer, stored]

theorem inStep_of_reachable {opt : Opt} {file : List UInt8}
    {buf : Nat → UInt8} {ret : Int} (few : blockCount file < 65535)
    {session : Session}
    (reachable : Relation.ReflTransGen
      (Step opt file (startTransfer opt buf ret)) startSession session) :
    InStep opt file (startTransfer opt buf ret) session := by
  induction reachable with
  | refl => exact inStep_startSession opt file buf ret
  | tail _ step inStep => exact inStep.step few step

theorem stored_blockCount {active : Bool} (isActive : active = true)
    (file : List UInt8) : stored active file (blockCount file) = file := by
  rw [stored, if_pos isActive, take_blockCount]

/-- At every moment what is stored is a prefix of the file that ends between
two blocks, and after a normal end it is the file. -/
theorem session_stores_file (opt : Opt) (file : List UInt8)
    (buf : Nat → UInt8) (ret : Int) (few : blockCount file < 65535)
    (session : Session)
    (reachable : Relation.ReflTransGen
      (Step opt file (startTransfer opt buf ret)) startSession session) :
    let start := startTransfer opt buf ret
    let result := downloadLoop opt session.received start
    (∃ count, result.2.loaded = stored opt.loadAddr file count) ∧
    (∃ count, result.2.written = stored opt.dst file count) ∧
    result.1 ≠ .fault ∧
    (result.1 = .normal →
      (opt.loadAddr = true → result.2.loaded = file) ∧
      (opt.dst = true → result.2.written = file) ∧
      (tftpDownload opt session.received start).xmitSize = file.length) := by
  intro start result
  have download := (inStep_of_reachable few reachable).download
  change Download opt file session.block result at download
  have size : (tftpDownload opt session.received start) =
      setXmitSize result.1 result.2.loadLen opt := rfl
  rw [size]
  generalize result = ended at download
  cases download with
  | again unfinished ahead progress =>
      exact ⟨⟨_, progress.loaded⟩, ⟨_, progress.written⟩, nofun, nofun⟩
  | normal complete =>
      refine ⟨⟨_, complete.loaded⟩, ⟨_, complete.written⟩, nofun, ?_⟩
      intro _
      refine ⟨fun active => ?_, fun active => ?_, ?_⟩
      · rw [complete.loaded, stored_blockCount active]
      · rw [complete.written, stored_blockCount active]
      · simp only [setXmitSize, if_true]
        rw [complete.loadLen, take_blockCount]
  | stop loaded written =>
      exact ⟨⟨_, loaded⟩, ⟨_, written⟩, nofun, nofun⟩

/-- The file is loaded and written. -/
def toBoth : Opt := ⟨true, true, none, 0⟩

/-- A file of two blocks, the last one of a single byte. -/
def twoBlocks : List UInt8 := List.replicate tftpPktLen 1 ++ [7]

theorem blockCount_twoBlocks : blockCount twoBlocks = 2 := by
  rw [blockCount, twoBlocks, List.length_append, List.length_replicate]
  rfl

/-- A copy of the first packet is delivered again, after the sender has turned
to the second block. -/
def lateDuplicate : Session where
  block := 2
  data := [2, 1, 1]
  received := [⟨dataPacket 1 (blockOf twoBlocks 1), 0, 0⟩,
    ⟨dataPacket 1 (blockOf twoBlocks 1), 0, 0⟩,
    ⟨dataPacket 2 (blockOf twoBlocks 2), 0, 0⟩]

theorem lateDuplicate_reachable :
    Relation.ReflTransGen
      (Step toBoth twoBlocks (startTransfer toBoth (fun _ => 0) 0))
      startSession lateDuplicate := by
  let start := startTransfer toBoth (fun _ => 0) 0
  let first : Reception := ⟨dataPacket 1 (blockOf twoBlocks 1), 0, 0⟩
  let second : Reception := ⟨dataPacket 2 (blockOf twoBlocks 2), 0, 0⟩
  have both : 1 ≤ blockCount twoBlocks ∧ 2 ≤ blockCount twoBlocks := by
    rw [blockCount_twoBlocks]
    decide
  have sent : Step toBoth twoBlocks start startSession ⟨1, [1], []⟩ :=
    .transmit both.1
  have sentAgain : Step toBoth twoBlocks start ⟨1, [1], []⟩ ⟨1, [1, 1], []⟩ :=
    .transmit both.1
  have arrives : Step toBoth twoBlocks start ⟨1, [1, 1], []⟩
      ⟨1, [1, 1], [first]⟩ := .deliver 0 0 (by simp)
  have acked : ackPacket 1 ∈
      (Session.receiver ⟨1, [1, 1], [first]⟩ toBoth start).2.sent := by
    decide +kernel
  have turns : Step toBoth twoBlocks start ⟨1, [1, 1], [first]⟩
      ⟨2, [1, 1], [first]⟩ := .acknowledge acked (by decide) (by decide)
  have sendsNext : Step toBoth twoBlocks start ⟨2, [1, 1], [first]⟩
      ⟨2, [2, 1, 1], [first]⟩ := .transmit both.2
  have late : Step toBoth twoBlocks start ⟨2, [2, 1, 1], [first]⟩
      ⟨2, [2, 1, 1], [first, first]⟩ := .deliver 0 0 (by simp)
  have arrivesNext : Step toBoth twoBlocks start ⟨2, [2, 1, 1], [first, first]⟩
      ⟨2, [2, 1, 1], [first, first, second]⟩ := .deliver 0 0 (by simp)
  exact ((((((Relation.ReflTransGen.single sent).tail sentAgain).tail
    arrives).tail turns).tail sendsNext).tail late).tail arrivesNext

/-- The download of the session. -/
def duplicateDownload : Exit × Transfer :=
  downloadLoop toBoth lateDuplicate.received
    (startTransfer toBoth (fun _ => 0) 0)

theorem session_stores_file_duplicate :
    duplicateDownload.1 = .normal ∧ duplicateDownload.2.loaded = twoBlocks ∧
      duplicateDownload.2.written = twoBlocks := by
  have few : blockCount twoBlocks < 65535 := by
    rw [blockCount_twoBlocks]
    decide
  have normal : duplicateDownload.1 = .normal := by decide +kernel
  unfold duplicateDownload at normal ⊢
  obtain ⟨-, -, -, complete⟩ := session_stores_file toBoth twoBlocks
    (fun _ => 0) 0 few lateDuplicate lateDuplicate_reachable
  obtain ⟨loaded, written, -⟩ := complete normal
  exact ⟨normal, loaded rfl, written rfl⟩

end Witos.Tftp
