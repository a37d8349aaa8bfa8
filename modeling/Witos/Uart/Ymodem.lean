import Witos.Library.Loop
import Witos.Uart.Loader

/-!
# Loading a file over Ymodem

`ymodem_load` of `lib/uart/ymodem.c`.
-/

namespace Witos.Uart

open Library

def soh : UInt8 := 0x01
def stx : UInt8 := 0x02
def eot : UInt8 := 0x04
def ack : UInt8 := 0x06
def nak : UInt8 := 0x15
def can : UInt8 := 0x18

/-- The request to send, `'C'`. -/
def start : UInt8 := 0x43

/-- What the line brings: bytes, and waits that run out. -/
abbrev Events := List (Option UInt8)

/-- `uart_recv_byte` waits for a byte as long as it takes. -/
def uartRecvByte : Events → Option (UInt8 × Events)
  | [] => none
  | none :: events => uartRecvByte events
  | some byte :: events => some (byte, events)

/-- `uart_recv_byte_timeout` takes a byte or runs out of time. -/
def uartRecvByteTimeout : Events → Option (Option UInt8 × Events)
  | [] => none
  | event :: events => some (event, events)

def uartClearBuff : Events → Option Events
  | [] => none
  | none :: events => some events
  | some _ :: events => uartClearBuff events

/-- The size of a block by its first byte. -/
def blockSize (first : UInt8) : Option Nat :=
  if first = soh then some 128
  else if first = stx then some 1024
  else none

/-- The loop before a data block: the size of the block, or nothing at the
end of the transfer. -/
def recvHeader : Events → Option (Option Nat × Events)
  | [] => none
  | none :: events => recvHeader events
  | some byte :: events =>
      match blockSize byte with
      | some size => some (some size, events)
      | none =>
          if byte = eot then some (none, events) else recvHeader events

/-- The bytes of a block, up to a wait that runs out. -/
def recvData : Nat → Events → Option (List UInt8 × Events)
  | 0, events => some ([], events)
  | _ + 1, [] => none
  | _ + 1, none :: events => some ([], events)
  | left + 1, some byte :: events =>
      (recvData left events).map fun data => (byte :: data.1, data.2)

/-- A block whose number was accepted, as it was received. -/
structure Block where
  number : UInt8
  complement : UInt8
  size : Nat
  data : List UInt8
  crc : Option UInt8 × Option UInt8

/-- What an iteration gets: the end of the transfer, a block with the wrong
number, or a block. -/
inductive Arrival
  | finished
  | misnumbered
  | block (block : Block)

/-- The receiving part of an iteration that expects block `blk`. -/
def receive (blk : UInt8) (events : Events) : Option (Arrival × Events) := do
  let (header, events) ← recvHeader events
  match header with
  | none => return (.finished, events)
  | some size =>
      let (number, events) ← uartRecvByte events
      let (complement, events) ← uartRecvByte events
      if number ^^^ complement ≠ 0xff ∨ number ≠ blk then
        let events ← uartClearBuff events
        return (.misnumbered, events)
      else
        let (data, events) ← recvData size events
        let (first, events) ← uartRecvByteTimeout events
        let (second, events) ← uartRecvByteTimeout events
        return (.block ⟨number, complement, size, data, (first, second)⟩,
          events)

/-- The variables of the loop, and what it has done so far. -/
structure Receiver where
  events : Events
  blk : UInt8
  sink : Sink
  sent : List UInt8

/-- Why the loop ends: the transfer is finished, the data cannot be written,
or nothing more has arrived. -/
inductive YmodemExit
  | finished | error (ret : Int) | waiting
  deriving DecidableEq, Repr

def Receiver.send (receiver : Receiver) (byte : UInt8) : Receiver :=
  { receiver with sent := receiver.sent ++ [byte] }

/-- One iteration of the loop of `ymodem_load`. -/
def ymodemStep (opt : LoaderOpt) (io : Io) (receiver : Receiver) :
    Option YmodemExit × Receiver :=
  match receive receiver.blk receiver.events with
  | none => (some .waiting, receiver)
  | some (arrival, events) =>
      let received := { receiver with events := events }
      match arrival with
      | .finished => (some .finished, received)
      | .misnumbered => (none, received.send nak)
      | .block block =>
          -- whatever was received of the block
          let count := block.data.length
          let stored := received.sink.store block.data
          match stored.write opt io count with
          | .error ret =>
              (some (.error ret), { received with sink := stored })
          | .ok written =>
              (none, Receiver.send
                { received with
                  sink := written.advance opt count
                  blk := received.blk + 1 }
                ack)

/-- The loop before the first block, with the requests it sends. -/
def recvFirstHeader (sent : List UInt8) :
    Events → Option (Nat × Events × List UInt8)
  | [] => none
  | none :: events => recvFirstHeader (sent ++ [start]) events
  | some byte :: events =>
      match blockSize byte with
      | some size => some (size, events, sent ++ [start])
      | none => recvFirstHeader (sent ++ [start]) events

/-- The loop over the file name: a wait that runs out leaves a byte as it was,
and there is no room behind `file_name`. -/
def recvName : Nat → Nat → Events → Option Events
  | 0, _, events => some events
  | _ + 1, _, [] => none
  | left + 1, count, none :: events => recvName left (count + 1) events
  | left + 1, count, some byte :: events =>
      if fileNameSize ≤ count then none
      else if byte = 0 then some events
      else recvName left (count + 1) events

/-- `ymodem_load` up to its loop. -/
def recvFirstBlock (events : Events) : Option (Events × List UInt8) := do
  let (size, events, sent) ← recvFirstHeader [] events
  let (_, events) ← uartRecvByte events
  let (_, events) ← uartRecvByte events
  let events ← recvName size 0 events
  let events ← uartClearBuff events
  return (events, sent ++ [ack, start])

def startReceiver (events : Events) (sent : List UInt8)
    (memory : Nat → UInt8) : Receiver where
  events := events
  blk := 1
  sink := startSink memory
  sent := sent

def modemEndRx : List UInt8 := [ack, can, can, can, can, can, can]

/-- `ymodem_load`, if it returns: the value returned and the bytes sent; `ios`
are the results of the calls in each iteration. -/
def ymodemLoad (opt : LoaderOpt) (openRet : Int) (events : Events)
    (memory : Nat → UInt8) (ios : List Io) : Option (Int × List UInt8) :=
  if opt.dst = true ∧ openRet < 0 then some (openRet, [])
  else
    match recvFirstBlock events with
    | none => none
    | some (events, sent) =>
        match Loop.run (ymodemStep opt) ios
            (startReceiver events sent memory) with
        | (some .finished, final) =>
            some (signed32 final.sink.loadSize, final.sent ++ modemEndRx)
        | (some (.error ret), final) => some (ret, final.sent)
        | _ => none

end Witos.Uart
