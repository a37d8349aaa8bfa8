import Witos.Library.Loop
import Witos.Uart.Loader

/-!
# Loading a file over Kermit

`kermit_load` of `lib/uart/kermit.c`.  A frame is what arrives behind a start
mark up to the terminator.
-/

namespace Witos.Uart

open Library

def markStart : UInt8 := 0x01

def kermTypeData : UInt8 := 0x44
def kermTypeAck : UInt8 := 0x59
def kermTypeNack : UInt8 := 0x4e
def kermTypeHead : UInt8 := 0x46
def kermTypeBreak : UInt8 := 0x42

def kermKeySpace : Nat := 0x20
def kermKeySharp : UInt8 := 0x23
def kermKeyTerm : UInt8 := 0x0d

def kermBufLen : Nat := 128

def eFault : Int := 14

/-- The character that checks a sum. -/
def checkChar (checksum : Nat) : Nat :=
  kermKeySpace + (checksum + checksum / 64 % 4) % 64

/-- The bytes `send_ack_packet` sends. -/
def sendAckPacket (seq : Nat) (type : UInt8) : List UInt8 :=
  let body := [UInt8.ofNat (3 + kermKeySpace), UInt8.ofNat (seq + kermKeySpace),
    type]
  markStart :: body ++
    [UInt8.ofNat (checkChar (body.map UInt8.toNat).sum), kermKeyTerm]

/-- The character behind a `#`. -/
def unquote (char : UInt8) : UInt8 :=
  if char &&& 0x60 = 0x40 then char &&& ~~~0x40
  else if char &&& 0x7f = 0x3f then char ||| 0x40
  else char

/-- `index` and `checksum` behind the text of a packet, and the characters it
stands for. -/
structure Parsed where
  index : Nat
  checksum : Nat
  chars : List UInt8

/-- The loop of the packets whose text is stored, with `len` as in the
source. -/
def decodeText (buff : Nat → UInt8) : Nat → Parsed → Parsed
  | len + 2, parsed =>
      let char := buff parsed.index
      if char = kermKeySharp then
        let quoted := buff (parsed.index + 1)
        decodeText buff len
          { index := parsed.index + 2
            checksum := parsed.checksum + char.toNat + quoted.toNat
            chars := parsed.chars ++ [unquote quoted] }
      else
        decodeText buff (len + 1)
          { index := parsed.index + 1
            checksum := parsed.checksum + char.toNat
            chars := parsed.chars ++ [char] }
  | _, parsed => parsed

/-- The loop of the other packets. -/
def skipText (buff : Nat → UInt8) : Nat → Parsed → Parsed
  | len + 2, parsed =>
      skipText buff (len + 1)
        { parsed with
          index := parsed.index + 1
          checksum := parsed.checksum + (buff parsed.index).toNat }
  | _, parsed => parsed

/-- `len` before the text; there is no extended length. -/
def textLen (buff : Nat → UInt8) : Int :=
  let len : Int := (buff 0).toNat - kermKeySpace
  if len ≠ 0 then len - 2 else len

def packetSeq (buff : Nat → UInt8) : Int :=
  (buff 1).toNat - kermKeySpace

def packetType (buff : Nat → UInt8) : UInt8 :=
  buff 2

def parsePacket (buff : Nat → UInt8) : Parsed :=
  let start : Parsed :=
    { index := 3
      checksum := (buff 0).toNat + (buff 1).toNat + (buff 2).toNat
      chars := [] }
  if packetType buff = kermTypeHead ∨ packetType buff = kermTypeData then
    decodeText buff (textLen buff).toNat start
  else skipText buff (textLen buff).toNat start

/-- The test of the checksum. -/
def ChecksOut (buff : Nat → UInt8) : Prop :=
  (buff (parsePacket buff).index).toNat = checkChar (parsePacket buff).checksum

instance (buff : Nat → UInt8) : Decidable (ChecksOut buff) := by
  unfold ChecksOut
  infer_instance

/-- The test of the terminator. -/
def IsTerminated (buff : Nat → UInt8) : Prop :=
  buff ((parsePacket buff).index + 1) = kermKeyTerm

instance (buff : Nat → UInt8) : Decidable (IsTerminated buff) := by
  unfold IsTerminated
  infer_instance

/-- The variables of the loop, and what it has done so far: `buff` is the
frame buffer and what is behind it on the stack, and `sent` are the packets
sent. -/
structure Load where
  buff : Nat → UInt8
  realSeq : Nat
  type : UInt8
  fileName : List UInt8
  sink : Sink
  sent : List (List UInt8)

def startLoad (buff memory : Nat → UInt8) (fileName : List UInt8) :
    Load where
  buff := buff
  realSeq := 0
  type := kermTypeBreak
  fileName := fileName
  sink := startSink memory
  sent := []

/-- A frame, and the results of the calls that write its data. -/
structure Delivery where
  frame : List UInt8
  io : Io

/-- Where control is when it leaves the loop: behind it, at the label `error`,
or nowhere, after a store past the end of an array. -/
inductive Exit
  | normal | error | fault
  deriving DecidableEq, Repr

/-- The condition of the loop, which `continue` evaluates too. -/
def loopTest (load : Load) : Option Exit × Load :=
  if load.type = kermTypeBreak then (some .normal, load) else (none, load)

def Load.sendAck (load : Load) (seq : Nat) (type : UInt8) : Load :=
  { load with sent := load.sent ++ [sendAckPacket seq type] }

/-- The frame buffer is filled. -/
def Load.receive (load : Load) (frame : List UInt8) : Load :=
  { load with buff := overlay frame load.buff }

/-- The packet has the expected number: the next one is expected from here
on. -/
def Load.advance (load : Load) : Load :=
  { load with
    realSeq := (load.realSeq + 1) % 64
    type := packetType load.buff }

/-- The data of a packet. -/
def Load.data (load : Load) : List UInt8 :=
  if load.type = kermTypeData then (parsePacket load.buff).chars else []

/-- What the `switch` stores. -/
def Load.store (load : Load) : Load :=
  { load with
    fileName :=
      if load.type = kermTypeHead then (parsePacket load.buff).chars
      else load.fileName
    sink := load.sink.store load.data }

/-- The end of an iteration that accepts its packet. -/
def Load.accept (load : Load) (opt : LoaderOpt) (seq : Nat)
    (written : Sink) : Load :=
  Load.sendAck { load with sink := written.advance opt load.data.length } seq
    kermTypeAck

/-- The rest of an iteration once the packet `seq` is known to be the expected
one. -/
def handlePacket (opt : LoaderOpt) (delivery : Delivery) (seq : Nat)
    (load : Load) : Option Exit × Load :=
  let count := load.data.length
  if opt.loadAddr = false ∧ kermBufLen < count then (some .fault, load)
  else
    let stored := load.store
    if ¬ ChecksOut load.buff then
      loopTest (stored.sendAck load.realSeq kermTypeNack)
    else if ¬ IsTerminated load.buff then (some .error, stored)
    else
      match stored.sink.write opt delivery.io count with
      | .error _ => (some .error, stored)
      | .ok written => loopTest (stored.accept opt seq written)

/-- One iteration of the loop of `kermit_load`. -/
def kermitStep (opt : LoaderOpt) (delivery : Delivery) (load : Load) :
    Option Exit × Load :=
  if kermBufLen < delivery.frame.length then (some .fault, load)
  else
    let received := load.receive delivery.frame
    if packetSeq received.buff ≠ load.realSeq then
      loopTest (received.sendAck load.realSeq kermTypeNack)
    else handlePacket opt delivery load.realSeq received.advance

def kermitLoop (opt : LoaderOpt) (deliveries : List Delivery) (load : Load) :
    Option Exit × Load :=
  Loop.run (kermitStep opt) deliveries load

/-- `kermit_load`, if it returns; `openRet` is what `open` returns. -/
def kermitLoad (opt : LoaderOpt) (openRet : Int) (deliveries : List Delivery)
    (load : Load) : Option Int :=
  if opt.dst = true ∧ openRet < 0 then some openRet
  else
    match kermitLoop opt deliveries load with
    | (some .normal, final) => some (signed32 final.sink.loadSize)
    | (some .error, _) => some (-eFault)
    | _ => none

/-- The frames of a stream, behind the bytes of one that has begun. -/
def frames : Option (List UInt8) → List UInt8 → List (List UInt8)
  | _, [] => []
  | none, byte :: rest =>
      if byte = markStart then frames (some []) rest else frames none rest
  | some frame, byte :: rest =>
      if byte = kermKeyTerm then (frame ++ [byte]) :: frames none rest
      else frames (some (frame ++ [byte])) rest

/-- The deliveries of a stream; `io` gives the results of `ioctl` and `write`
in each iteration. -/
def deliveries (io : Nat → Io) (stream : List UInt8) : List Delivery :=
  (frames none stream).mapIdx fun index frame =>
    { frame := frame
      io := io index }

end Witos.Uart
