import Witos.Library.Bytes
import Witos.Library.Word

/-!
# The TFTP client

The transfer loops of `tftp_download` and `tftp_upload` in `lib/net/tftp.c`,
one iteration at a time.  A datagram is what `recvfrom` took from the socket,
and the empty datagram stands for its result 0.  The memory from `buf` on is a
function, so that a short datagram leaves the bytes of the one before it.
-/

namespace Witos.Tftp

open Library

def tftpDat : Nat := 3
def tftpAck : Nat := 4
def tftpErr : Nat := 5

def tftpHdrLen : Nat := 4
def tftpPktLen : Nat := 512
def tftpBufLen : Nat := tftpPktLen + tftpHdrLen

def eIo : Int := -5

def dataPacket (number : Nat) (payload : List UInt8) : List UInt8 :=
  beBytes 2 tftpDat ++ beBytes 2 number ++ payload

def ackPacket (number : Nat) : List UInt8 :=
  beBytes 2 tftpAck ++ beBytes 2 number

@[simp] theorem length_dataPacket (number : Nat) (payload : List UInt8) :
    (dataPacket number payload).length = tftpHdrLen + payload.length := by
  simp [dataPacket, tftpHdrLen]
  omega

theorem fieldAt_dataPacket_opcode (number : Nat) (payload : List UInt8) :
    fieldAt (dataPacket number payload) 0 2 = tftpDat := by
  simp [fieldAt, dataPacket, beValue_beBytes, tftpDat]

theorem fieldAt_dataPacket_number {number : Nat} (small : number < 2 ^ 16)
    (payload : List UInt8) :
    fieldAt (dataPacket number payload) 2 2 = number := by
  have header : (beBytes 2 tftpDat).length = 2 := length_beBytes 2 tftpDat
  rw [fieldAt, dataPacket, List.append_assoc, List.drop_left' header,
    List.take_left' (length_beBytes 2 number), beValue_beBytes]
  exact Nat.mod_eq_of_lt small

@[simp] theorem drop_dataPacket (number : Nat) (payload : List UInt8) :
    (dataPacket number payload).drop tftpHdrLen = payload := by
  apply List.drop_left'
  simp [tftpHdrLen]

theorem fieldAt_ackPacket_opcode (number : Nat) :
    fieldAt (ackPacket number) 0 2 = tftpAck := by
  simp [fieldAt, ackPacket, beValue_beBytes, tftpAck]

theorem fieldAt_ackPacket {number : Nat} (small : number < 2 ^ 16) :
    fieldAt (ackPacket number) 2 2 = number := by
  rw [fieldAt, ackPacket, List.drop_left' (length_beBytes 2 tftpAck),
    List.take_of_length_le (by simp), beValue_beBytes]
  exact Nat.mod_eq_of_lt small

inductive ImageType
  | unknown | gth | gbh | uefi | uboot | linux | witos | mswin | android
  | initrd | jffs2 | yaffs1 | yaffs2 | cramfs | ubifs | ntfs | fat | max
  deriving DecidableEq, Repr

inductive OobMode
  | flashOobPlace | mtdOpsAutoOob | flashOobRaw
  deriving DecidableEq, Repr

/-- The exclusive or of the positions of the bits that are set in the eight
bytes of the tags. -/
def yaffsCalcTagsEcc (tags : Nat) : Nat :=
  (List.range 64).foldl
    (fun ecc bit => if tags.testBit bit then ecc ^^^ (bit + 1) else ecc) 0

/-- `yaffs_check_ecc_ontags` is not negative.  The code is the twelve bits of
the tags from bit 50 on. -/
def yaffsCheckEccOntags (tags : Nat) : Bool :=
  let ecc := tags / 2 ^ 50 % 2 ^ 12
  (ecc ^^^ yaffsCalcTagsEcc (tags - ecc * 2 ^ 50)) ≤ 64

/-- The free regions of the spare bytes, as offset and length. -/
def yaffsFreeRegion : List (Nat × Nat) := [(0, 4), (6, 2), (11, 2)]

def checkYaffs1Image (image : Nat → UInt8) : Bool :=
  yaffsCheckEccOntags (leValue
    (yaffsFreeRegion.flatMap fun region => slice image region.1 region.2))

def imageTypeDetect (data : Nat → UInt8) : ImageType :=
  if leValue (slice data 32 4) = 0x47421368 then .gth
  else if leValue (slice data 32 4) = 0x47420168 then .gbh
  else if leValue (slice data 0x24 4) = 0x016f2818 then .linux
  else if leValue (slice data 0 2) = 0x1985 then .jffs2
  else if leValue (slice data 0 4) = 0x06101831 then .ubifs
  else if checkYaffs1Image (fun index => data (16 + index)) then .yaffs1
  else .unknown

def oobMode : ImageType → OobMode
  | .yaffs1 => .flashOobRaw
  | .yaffs2 => .mtdOpsAutoOob
  | _ => .flashOobPlace

/-- The fields of `struct tftp_opt` that the loops use; `dst` and `loadAddr`
say whether the pointers are set. -/
structure Opt where
  dst : Bool
  loadAddr : Bool
  type : Option String
  xmitSize : Nat

/-- The image type before the loop, from `opt->type`. -/
def Opt.imgType (opt : Opt) : ImageType :=
  match opt.type with
  | none => .max
  | some "jffs2" => .jffs2
  | some "yffs2" => .yaffs2
  | some "yffs1" => .yaffs1
  | some _ => .unknown

/-- The variables of the loop, and what it has done so far: the bytes copied
through `buff_ptr`, those handed to `write` unless it failed, the modes set by
`ioctl`, and the datagrams sent. -/
structure Transfer where
  buf : Nat → UInt8
  blkNum : Nat
  loadLen : Nat
  imgType : ImageType
  ret : Int
  loaded : List UInt8
  written : List UInt8
  oobModes : List OobMode
  sent : List (List UInt8)

/-- What an iteration gets from outside: the datagram, and the results of
`ioctl` and `write` should it call them. -/
structure Reception where
  datagram : List UInt8
  ioctlRet : Int
  writeRet : Int

/-- What `recvfrom` copies to the buffer. -/
def Reception.bytes (reception : Reception) : List UInt8 :=
  reception.datagram.take tftpBufLen

/-- Where control is after an iteration: back at its start, behind the loop,
at the label `L2`, or nowhere, after a `memcpy` past the end of `buf`. -/
inductive Exit
  | again | normal | stop | fault
  deriving DecidableEq, Repr

def startTransfer (opt : Opt) (buf : Nat → UInt8) (ret : Int) : Transfer where
  buf := buf
  blkNum := 1
  loadLen := 0
  imgType := if opt.dst then opt.imgType else .max
  ret := ret
  loaded := []
  written := []
  oobModes := []
  sent := []

/-- The buffer after `recvfrom`. -/
def Transfer.recvfrom (transfer : Transfer) (reception : Reception) :
    Transfer :=
  { transfer with buf := overlay reception.bytes transfer.buf }

/-- The call of `write`. -/
def writeData (reception : Reception) (pktLen : Nat) (transfer : Transfer) :
    Exit × Transfer :=
  if reception.writeRet < 0 then
    (.stop, { transfer with ret := reception.writeRet })
  else
    (.again, { transfer with
      ret := reception.writeRet
      written := transfer.written ++ slice transfer.buf tftpHdrLen pktLen })

/-- The branch on `opt->dst`: the mode is set once, before the first write. -/
def storeData (reception : Reception) (pktLen : Nat) (transfer : Transfer) :
    Exit × Transfer :=
  if transfer.imgType = .max then
    let imgType :=
      imageTypeDetect (fun index => transfer.buf (tftpHdrLen + index))
    let detected := { transfer with
      imgType := imgType
      ret := reception.ioctlRet
      oobModes := transfer.oobModes ++ [oobMode imgType] }
    if reception.ioctlRet < 0 then (.stop, detected)
    else writeData reception pktLen detected
  else writeData reception pktLen transfer

def Transfer.tftpSendAck (transfer : Transfer) (blk : Nat) : Transfer :=
  { transfer with sent := transfer.sent ++ [ackPacket blk] }

/-- The acknowledgement of a block and the counters. -/
def Transfer.acknowledge (transfer : Transfer) (pktLen : Nat) : Transfer :=
  { transfer.tftpSendAck transfer.blkNum with
    blkNum := add16 transfer.blkNum 1
    loadLen := add32 transfer.loadLen pktLen }

/-- The copy to `buff_ptr`, unless it is NULL. -/
def Transfer.copy (transfer : Transfer) (opt : Opt) (pktLen : Nat) :
    Transfer :=
  if opt.loadAddr then
    { transfer with
      loaded := transfer.loaded ++ slice transfer.buf tftpHdrLen pktLen }
  else transfer

/-- The block that was expected. -/
def acceptData (opt : Opt) (reception : Reception) (pktLen : Nat)
    (transfer : Transfer) : Exit × Transfer :=
  let acknowledged := transfer.acknowledge pktLen
  if opt.loadAddr ∧ tftpPktLen < pktLen then (.fault, acknowledged)
  else if opt.dst then
    storeData reception pktLen (acknowledged.copy opt pktLen)
  else (.again, acknowledged.copy opt pktLen)

/-- The `switch` of the loop; `TFTP_ERR` and the unsupported operations differ
only in what they print. -/
def downloadSwitch (opt : Opt) (reception : Reception) (pktLen : Nat)
    (transfer : Transfer) : Exit × Transfer :=
  if field transfer.buf 0 2 = tftpDat then
    if field transfer.buf 2 2 = transfer.blkNum then
      acceptData opt reception pktLen transfer
    else
      (.again, transfer.tftpSendAck (sub16 transfer.blkNum 1))
  else (.stop, { transfer with ret := eIo })

/-- The condition at the end of the loop. -/
def loopTest (pktLen : Nat) (result : Exit × Transfer) : Exit × Transfer :=
  if result.1 = .again ∧ pktLen ≠ tftpPktLen then (.normal, result.2)
  else result

/-- One iteration of the loop of `tftp_download`. -/
def downloadStep (opt : Opt) (reception : Reception) (transfer : Transfer) :
    Exit × Transfer :=
  if reception.bytes = [] then (.stop, transfer)
  else
    let pktLen := sub32 reception.bytes.length tftpHdrLen
    loopTest pktLen
      (downloadSwitch opt reception pktLen (transfer.recvfrom reception))

def downloadLoop (opt : Opt) : List Reception → Transfer → Exit × Transfer
  | [], transfer => (.again, transfer)
  | reception :: receptions, transfer =>
      match downloadStep opt reception transfer with
      | (.again, next) => downloadLoop opt receptions next
      | result => result

/-- `opt->xmit_size` is only set behind the loop. -/
def setXmitSize (exit : Exit) (length : Nat) (opt : Opt) : Opt :=
  if exit = .normal then { opt with xmitSize := length } else opt

/-- `tftp_download` from its loop on: the options it leaves. -/
def tftpDownload (opt : Opt) (receptions : List Reception)
    (transfer : Transfer) : Opt :=
  let result := downloadLoop opt receptions transfer
  setXmitSize result.1 result.2.loadLen opt

/-- The variables of the upload loop; `rest` is the part of the source file
that has not been read. -/
structure Upload where
  buf : Nat → UInt8
  blkNum : Nat
  sendLen : Nat
  rest : List UInt8
  ret : Int

def startUpload (buf : Nat → UInt8) (file : List UInt8) (ret : Int) :
    Upload where
  buf := buf
  blkNum := 0
  sendLen := 0
  rest := file
  ret := ret

/-- The branch for the acknowledgement that was expected, with the datagram
it sends. -/
def uploadBlock (upload : Upload) : Exit × Upload × Option (List UInt8) :=
  let data := upload.rest.take tftpPktLen
  let read := { upload with
    ret := data.length
    rest := upload.rest.drop tftpPktLen }
  if data = [] then (.stop, read, none)
  else
    let blkNum := add16 upload.blkNum 1
    let buf := overlay (dataPacket blkNum data) upload.buf
    (.again,
      { read with
        buf := buf
        blkNum := blkNum
        sendLen := add32 upload.sendLen data.length
        ret := data.length + tftpHdrLen },
      some (slice buf 0 (data.length + tftpHdrLen)))

/-- One iteration of the loop of `tftp_upload`. -/
def uploadStep (datagram : List UInt8) (upload : Upload) :
    Exit × Upload × Option (List UInt8) :=
  let bytes := datagram.take tftpBufLen
  if bytes = [] then (.stop, { upload with ret := 0 }, none)
  else
    let received := { upload with
      buf := overlay bytes upload.buf
      ret := bytes.length }
    if field received.buf 0 2 = tftpAck then
      if field received.buf 2 2 = received.blkNum then uploadBlock received
      else (.again, received, none)
    else (.stop, { received with ret := eIo }, none)

end Witos.Tftp
