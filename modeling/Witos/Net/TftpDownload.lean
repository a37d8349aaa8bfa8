import Witos.Net.Socket
import Witos.Net.Tftp

/-!
# The download loop on arbitrary datagrams

Whatever the datagrams are, an iteration does one of a few things, and the
length it counts is the length of the payload it accepts.
-/

namespace Witos.Tftp

open Library

/-- On an open socket `recvfrom` returns the length of what it copies, which
is what some reception copies. -/
theorem recvfrom_reception (poll : Net.NetM Unit) (fuel fd : Nat)
    {net : Net.Stack} {sock : Net.Socket}
    (opened : Net.getSock net fd = some sock) :
    Effect.wp (Net.recvfrom poll fuel fd tftpBufLen) net
      (fun result _ => ∃ reception : Reception,
        result.2.1 = reception.bytes ∧
          result.1 = reception.bytes.length)
      (fun _ => True) := by
  unfold Net.recvfrom
  rw [Effect.wp_bind, Effect.wp_get]
  simp only [opened, Effect.wp_bind]
  apply Effect.wp_of_forall
  intro received final
  cases received with
  | none => exact ⟨⟨[], 0, 0⟩, rfl, rfl⟩
  | some skb =>
      rw [Effect.wp_bind]
      apply Effect.wp_of_forall
      intro sock final
      refine ⟨⟨skb.payload, 0, 0⟩, rfl, ?_⟩
      have length : skb.payload.length = skb.size := by
        simp [Net.SockBuff.payload]
      simp only [Reception.bytes, List.length_take, length]
      omega

/-- What handing the data to `write` does: unless a call fails, the data is
added to what was written. -/
structure Stores (pktLen : Nat) (before : Transfer)
    (result : Exit × Transfer) : Prop where
  blkNum : result.2.blkNum = before.blkNum
  loadLen : result.2.loadLen = before.loadLen
  sent : result.2.sent = before.sent
  loaded : result.2.loaded = before.loaded
  written :
    result.1 = .again ∧ result.2.written =
        before.written ++ slice before.buf tftpHdrLen pktLen ∨
      result.1 = .stop ∧ result.2.written = before.written

theorem writeData_stores (reception : Reception) (pktLen : Nat)
    (transfer : Transfer) :
    Stores pktLen transfer (writeData reception pktLen transfer) := by
  unfold writeData
  split
  · exact ⟨rfl, rfl, rfl, rfl, Or.inr ⟨rfl, rfl⟩⟩
  · exact ⟨rfl, rfl, rfl, rfl, Or.inl ⟨rfl, rfl⟩⟩

theorem storeData_stores (reception : Reception) (pktLen : Nat)
    (transfer : Transfer) :
    Stores pktLen transfer (storeData reception pktLen transfer) := by
  unfold storeData
  split
  · dsimp only
    split
    · exact ⟨rfl, rfl, rfl, rfl, Or.inr ⟨rfl, rfl⟩⟩
    · have stores := writeData_stores reception pktLen
        { transfer with
          imgType := imageTypeDetect fun index =>
            transfer.buf (tftpHdrLen + index)
          ret := reception.ioctlRet
          oobModes := transfer.oobModes ++
            [oobMode (imageTypeDetect fun index =>
              transfer.buf (tftpHdrLen + index))] }
      exact ⟨stores.blkNum, stores.loadLen, stores.sent, stores.loaded,
        stores.written⟩
  · exact writeData_stores reception pktLen transfer

@[simp] theorem copy_blkNum (transfer : Transfer) (opt : Opt) (pktLen : Nat) :
    (transfer.copy opt pktLen).blkNum = transfer.blkNum := by
  unfold Transfer.copy
  split <;> rfl

@[simp] theorem copy_loadLen (transfer : Transfer) (opt : Opt)
    (pktLen : Nat) :
    (transfer.copy opt pktLen).loadLen = transfer.loadLen := by
  unfold Transfer.copy
  split <;> rfl

@[simp] theorem copy_sent (transfer : Transfer) (opt : Opt) (pktLen : Nat) :
    (transfer.copy opt pktLen).sent = transfer.sent := by
  unfold Transfer.copy
  split <;> rfl

@[simp] theorem copy_written (transfer : Transfer) (opt : Opt)
    (pktLen : Nat) :
    (transfer.copy opt pktLen).written = transfer.written := by
  unfold Transfer.copy
  split <;> rfl

@[simp] theorem copy_buf (transfer : Transfer) (opt : Opt) (pktLen : Nat) :
    (transfer.copy opt pktLen).buf = transfer.buf := by
  unfold Transfer.copy
  split <;> rfl

theorem copy_loaded (transfer : Transfer) (opt : Opt) (pktLen : Nat) :
    (transfer.copy opt pktLen).loaded = transfer.loaded ++
      if opt.loadAddr then slice transfer.buf tftpHdrLen pktLen else [] := by
  unfold Transfer.copy
  split <;> simp

/-- What accepting a block does. -/
structure Accepts (opt : Opt) (pktLen : Nat) (before : Transfer)
    (result : Exit × Transfer) : Prop where
  blkNum : result.2.blkNum = add16 before.blkNum 1
  loadLen : result.2.loadLen = add32 before.loadLen pktLen
  sent : result.2.sent = before.sent ++ [ackPacket before.blkNum]
  goesOn : result.1 = .again ∨ result.1 = .stop ∨
    result.1 = .fault ∧ tftpPktLen < pktLen
  loaded : result.1 ≠ .fault → result.2.loaded =
    before.loaded ++
      if opt.loadAddr then slice before.buf tftpHdrLen pktLen else []
  written : result.1 = .again → result.2.written =
    before.written ++
      if opt.dst then slice before.buf tftpHdrLen pktLen else []
  unwritten : result.1 ≠ .again → result.2.written = before.written

theorem acceptData_accepts (opt : Opt) (reception : Reception) (pktLen : Nat)
    (transfer : Transfer) :
    Accepts opt pktLen transfer
      (acceptData opt reception pktLen transfer) := by
  unfold acceptData
  by_cases outside : opt.loadAddr ∧ tftpPktLen < pktLen
  · rw [if_pos outside]
    exact ⟨rfl, rfl, rfl, Or.inr (Or.inr ⟨rfl, outside.2⟩),
      fun noFault => absurd rfl noFault, nofun, fun _ => rfl⟩
  · rw [if_neg outside]
    by_cases toFile : opt.dst = true
    · rw [if_pos toFile]
      have stores := storeData_stores reception pktLen
        ((transfer.acknowledge pktLen).copy opt pktLen)
      have loaded := stores.loaded.trans
        (copy_loaded (transfer.acknowledge pktLen) opt pktLen)
      obtain ⟨again, written⟩ | ⟨stopped, unwritten⟩ := stores.written
      · refine ⟨stores.blkNum.trans (copy_blkNum _ _ _),
          stores.loadLen.trans (copy_loadLen _ _ _),
          stores.sent.trans (copy_sent _ _ _), Or.inl again,
          fun _ => loaded, fun _ => ?_, fun ended => absurd again ended⟩
        rw [written, if_pos toFile, copy_written, copy_buf]
        rfl
      · refine ⟨stores.blkNum.trans (copy_blkNum _ _ _),
          stores.loadLen.trans (copy_loadLen _ _ _),
          stores.sent.trans (copy_sent _ _ _), Or.inr (Or.inl stopped),
          fun _ => loaded, fun again => ?_,
          fun _ => unwritten.trans (copy_written _ _ _)⟩
        rw [stopped] at again
        exact absurd again (by decide)
    · rw [if_neg toFile]
      refine ⟨copy_blkNum _ _ _, copy_loadLen _ _ _, copy_sent _ _ _,
        Or.inl rfl, fun _ => copy_loaded _ _ _, fun _ => ?_,
        fun ended => absurd rfl ended⟩
      rw [if_neg toFile, List.append_nil]
      exact copy_written _ _ _

/-- The datagram reads as a data packet. -/
def IsData (transfer : Transfer) (reception : Reception) : Prop :=
  reception.bytes ≠ [] ∧
    field (transfer.recvfrom reception).buf 0 2 = tftpDat

/-- Its block number is the expected one. -/
def IsExpected (transfer : Transfer) (reception : Reception) : Prop :=
  field (transfer.recvfrom reception).buf 2 2 = transfer.blkNum

instance (transfer : Transfer) (reception : Reception) :
    Decidable (IsData transfer reception) := by
  unfold IsData
  infer_instance

instance (transfer : Transfer) (reception : Reception) :
    Decidable (IsExpected transfer reception) := by
  unfold IsExpected
  infer_instance

/-- The length of the payload an iteration accepts. -/
def accepted (transfer : Transfer) (reception : Reception) : Nat :=
  if IsData transfer reception ∧ IsExpected transfer reception then
    reception.bytes.length - tftpHdrLen
  else 0

/-- A data packet that does not fill the buffer has a header and is the
expected block, and the length of an expected block can be counted. -/
def Orderly (transfer : Transfer) (reception : Reception) : Prop :=
  IsData transfer reception →
    (reception.bytes.length ≠ tftpBufLen →
      tftpHdrLen ≤ reception.bytes.length ∧ IsExpected transfer reception) ∧
    (IsExpected transfer reception →
      transfer.loadLen + (reception.bytes.length - tftpHdrLen) < 2 ^ 32)

instance (transfer : Transfer) (reception : Reception) :
    Decidable (Orderly transfer reception) := by
  unfold Orderly
  infer_instance

theorem length_bytes_le (reception : Reception) :
    reception.bytes.length ≤ tftpBufLen :=
  List.length_take_le _ _

theorem downloadSwitch_cases (opt : Opt) {reception : Reception}
    (pktLen : Nat) (transfer : Transfer) (nonempty : reception.bytes ≠ []) :
    let result :=
      downloadSwitch opt reception pktLen (transfer.recvfrom reception)
    IsData transfer reception ∧ IsExpected transfer reception ∧
        Accepts opt pktLen (transfer.recvfrom reception) result ∨
      IsData transfer reception ∧ ¬ IsExpected transfer reception ∧
        result = (.again, (transfer.recvfrom reception).tftpSendAck
          (sub16 transfer.blkNum 1)) ∨
      ¬ IsData transfer reception ∧
        result = (.stop, { transfer.recvfrom reception with ret := eIo }) := by
  intro result
  unfold result downloadSwitch
  by_cases isData : field (transfer.recvfrom reception).buf 0 2 = tftpDat
  · rw [if_pos isData]
    by_cases expected : field (transfer.recvfrom reception).buf 2 2 =
        (transfer.recvfrom reception).blkNum
    · rw [if_pos expected]
      exact Or.inl ⟨⟨nonempty, isData⟩, expected,
        acceptData_accepts opt reception pktLen _⟩
    · rw [if_neg expected]
      exact Or.inr (Or.inl ⟨⟨nonempty, isData⟩, expected, rfl⟩)
  · rw [if_neg isData]
    exact Or.inr (Or.inr ⟨fun data => isData data.2, rfl⟩)

theorem loopTest_snd (pktLen : Nat) (result : Exit × Transfer) :
    (loopTest pktLen result).2 = result.2 := by
  unfold loopTest
  split <;> rfl

theorem loopTest_full {pktLen : Nat} (full : pktLen = tftpPktLen)
    (result : Exit × Transfer) : loopTest pktLen result = result :=
  if_neg fun ends => ends.2 full

theorem loopTest_ended (pktLen : Nat) {result : Exit × Transfer}
    (ended : result.1 ≠ .again) : loopTest pktLen result = result :=
  if_neg fun ends => ended ends.1

theorem loopTest_short {pktLen : Nat} (short : pktLen ≠ tftpPktLen)
    {result : Exit × Transfer} (again : result.1 = .again) :
    loopTest pktLen result = (.normal, result.2) :=
  if_pos ⟨again, short⟩

theorem loopTest_normal {pktLen : Nat} {result : Exit × Transfer}
    (notNormal : result.1 ≠ .normal)
    (normal : (loopTest pktLen result).1 = .normal) :
    result.1 = .again ∧ pktLen ≠ tftpPktLen := by
  unfold loopTest at normal
  split at normal
  case isTrue ends => exact ends
  case isFalse => exact absurd normal notNormal

theorem downloadSwitch_not_normal (opt : Opt) {reception : Reception}
    (pktLen : Nat) (transfer : Transfer) (nonempty : reception.bytes ≠ []) :
    (downloadSwitch opt reception pktLen (transfer.recvfrom reception)).1 ≠
      .normal := by
  obtain ⟨-, -, accepts⟩ | ⟨-, -, again⟩ | ⟨-, stopped⟩ :=
    downloadSwitch_cases opt pktLen transfer nonempty
  · obtain again | stopped | ⟨fault, -⟩ := accepts.goesOn
    · simp [again]
    · simp [stopped]
    · simp [fault]
  · simp [again]
  · simp [stopped]

/-- The only normal exit is a data packet that does not fill the buffer. -/
theorem downloadStep_normal {opt : Opt} {reception : Reception}
    {transfer : Transfer}
    (normal : (downloadStep opt reception transfer).1 = .normal) :
    IsData transfer reception ∧
      sub32 reception.bytes.length tftpHdrLen ≠ tftpPktLen := by
  unfold downloadStep at normal
  split at normal
  case isTrue => simp at normal
  case isFalse nonempty =>
    obtain ⟨again, short⟩ := loopTest_normal
      (downloadSwitch_not_normal opt _ transfer nonempty) normal
    obtain ⟨isData, -⟩ | ⟨isData, -⟩ | ⟨-, stopped⟩ :=
      downloadSwitch_cases opt (sub32 reception.bytes.length tftpHdrLen)
        transfer nonempty
    · exact ⟨isData, short⟩
    · exact ⟨isData, short⟩
    · rw [stopped] at again
      cases again

/-- In an orderly iteration the length that is counted is the length of the
payload. -/
theorem downloadStep_loadLen (opt : Opt) {reception : Reception}
    {transfer : Transfer} (orderly : Orderly transfer reception) :
    (downloadStep opt reception transfer).2.loadLen =
      transfer.loadLen + accepted transfer reception := by
  unfold downloadStep accepted
  split
  case isTrue empty =>
    rw [if_neg (fun both => both.1.1 empty), Nat.add_zero]
  case isFalse nonempty =>
    simp only [loopTest_snd]
    obtain ⟨isData, expected, accepts⟩ | ⟨-, unexpected, again⟩ |
        ⟨noData, stopped⟩ :=
      downloadSwitch_cases opt (sub32 reception.bytes.length tftpHdrLen)
        transfer nonempty
    · obtain ⟨headed, countable⟩ := orderly isData
      have bound := length_bytes_le reception
      have header : tftpHdrLen ≤ reception.bytes.length := by
        by_cases full : reception.bytes.length = tftpBufLen
        · rw [full]
          decide
        · exact (headed full).1
      have payload : sub32 reception.bytes.length tftpHdrLen =
          reception.bytes.length - tftpHdrLen := by
        apply sub32_of_le _ header
        unfold tftpBufLen tftpPktLen tftpHdrLen at bound
        omega
      rw [accepts.loadLen, if_pos ⟨isData, expected⟩, payload]
      exact add32_of_lt (countable expected)
    · rw [again, if_neg (fun both => unexpected both.2), Nat.add_zero]
      rfl
    · rw [stopped, if_neg (fun both => noData both.1), Nat.add_zero]
      rfl

/-- The iterations the loop goes through, each with the state before it. -/
def iterations (opt : Opt) :
    List Reception → Transfer → List (Transfer × Reception)
  | [], _ => []
  | reception :: receptions, transfer =>
      (transfer, reception) ::
        match downloadStep opt reception transfer with
        | (.again, next) => iterations opt receptions next
        | _ => []

theorem iterations_singleton (opt : Opt) (reception : Reception)
    (transfer : Transfer) :
    iterations opt [reception] transfer = [(transfer, reception)] := by
  unfold iterations
  split <;> rfl

/-- An iteration that ends the transfer: a data packet with a header, the
expected block number and a payload that is not full. -/
def IsFinal (transfer : Transfer) (reception : Reception) : Prop :=
  IsData transfer reception ∧ tftpHdrLen ≤ reception.bytes.length ∧
    IsExpected transfer reception ∧
    reception.bytes.length - tftpHdrLen < tftpPktLen

theorem downloadStep_final {opt : Opt} {reception : Reception}
    {transfer : Transfer} (orderly : Orderly transfer reception)
    (normal : (downloadStep opt reception transfer).1 = .normal) :
    IsFinal transfer reception := by
  obtain ⟨isData, short⟩ := downloadStep_normal normal
  have bound := length_bytes_le reception
  have unfilled : reception.bytes.length ≠ tftpBufLen := by
    intro full
    rw [full] at short
    exact short (by decide)
  obtain ⟨header, expected⟩ := (orderly isData).1 unfilled
  refine ⟨isData, header, expected, ?_⟩
  unfold tftpBufLen at bound unfilled
  omega

theorem downloadLoop_normal {opt : Opt} {receptions : List Reception}
    {transfer : Transfer}
    (orderly : ∀ iteration ∈ iterations opt receptions transfer,
      Orderly iteration.1 iteration.2)
    (normal : (downloadLoop opt receptions transfer).1 = .normal) :
    (∃ last, (iterations opt receptions transfer).getLast? = some last ∧
      IsFinal last.1 last.2) ∧
    (downloadLoop opt receptions transfer).2.loadLen =
      transfer.loadLen +
        ((iterations opt receptions transfer).map
          fun iteration => accepted iteration.1 iteration.2).sum := by
  induction receptions generalizing transfer with
  | nil => simp [downloadLoop] at normal
  | cons reception receptions induction =>
      have first : Orderly transfer reception :=
        orderly (transfer, reception) (by simp [iterations])
      have counted := downloadStep_loadLen opt first
      unfold downloadLoop at normal ⊢
      unfold iterations at orderly ⊢
      rcases step : downloadStep opt reception transfer with ⟨exit, next⟩
      rw [step] at counted normal orderly
      cases exit with
      | again =>
          obtain ⟨⟨last, isLast, final⟩, total⟩ := induction
            (fun iteration member =>
              orderly iteration (List.mem_cons_of_mem _ member)) normal
          refine ⟨⟨last, ?_, final⟩, ?_⟩
          · simp only [List.getLast?_cons, isLast, Option.getD_some]
          · simp only [List.map_cons, List.sum_cons]
            simp only at counted
            rw [total, counted, Nat.add_assoc]
      | normal =>
          refine ⟨⟨(transfer, reception), rfl, ?_⟩, by simpa using counted⟩
          apply downloadStep_final first
          rw [step]
      | stop => cases normal
      | fault => cases normal

/-- A transfer that is reported as complete ends with an expected block that
is not full, and the size reported is the number of bytes accepted. -/
theorem tftpDownload_complete (opt : Opt) (receptions : List Reception)
    (buf : Nat → UInt8) (ret : Int)
    (orderly :
      ∀ iteration ∈ iterations opt receptions (startTransfer opt buf ret),
        Orderly iteration.1 iteration.2)
    (normal :
      (downloadLoop opt receptions (startTransfer opt buf ret)).1 = .normal) :
    (∃ last,
      (iterations opt receptions (startTransfer opt buf ret)).getLast? =
        some last ∧ IsFinal last.1 last.2) ∧
    (tftpDownload opt receptions (startTransfer opt buf ret)).xmitSize =
      ((iterations opt receptions (startTransfer opt buf ret)).map
        fun iteration => accepted iteration.1 iteration.2).sum := by
  obtain ⟨ending, total⟩ := downloadLoop_normal orderly normal
  refine ⟨ending, ?_⟩
  unfold tftpDownload setXmitSize
  dsimp only
  rw [if_pos normal, total]
  simp [startTransfer]

theorem tftpDownload_complete_one :
    let opt : Opt := ⟨false, true, none, 0⟩
    let receptions : List Reception := [⟨dataPacket 1 [7], 0, 0⟩]
    let start := startTransfer opt (fun _ => 0) 0
    (∀ iteration ∈ iterations opt receptions start,
      Orderly iteration.1 iteration.2) ∧
    (downloadLoop opt receptions start).1 = .normal ∧
    (tftpDownload opt receptions start).xmitSize = 1 := by
  intro opt receptions start
  have orderly : ∀ iteration ∈ iterations opt receptions start,
      Orderly iteration.1 iteration.2 := by
    decide +kernel
  have normal : (downloadLoop opt receptions start).1 = .normal := by
    decide +kernel
  refine ⟨orderly, normal, ?_⟩
  rw [(tftpDownload_complete opt receptions _ _ orderly normal).2]
  decide +kernel

/-- A short data packet that is not the expected block ends the loop like the
last block of the file. -/
theorem tftpDownload_complete_unexpected :
    let opt : Opt := ⟨false, true, none, 0⟩
    let reception : Reception := ⟨dataPacket 2 [7], 0, 0⟩
    let start := startTransfer opt (fun _ => 0) 0
    (downloadLoop opt [reception] start).1 = .normal ∧
    ¬ ∃ last, (iterations opt [reception] start).getLast? = some last ∧
      IsFinal last.1 last.2 := by
  intro opt reception start
  refine ⟨by decide +kernel, ?_⟩
  rintro ⟨last, isLast, final⟩
  rw [iterations_singleton, List.getLast?_singleton,
    Option.some_inj] at isLast
  rw [← isLast] at final
  exact absurd final.2.2.1 (by decide +kernel)

end Witos.Tftp
