import Witos.Net.State

/-!
# Sending

The sending half of `driver/net/core/net.c`, with `gethostaddr` of
`lib/net/socket.c`.  Resolving an address polls the device, and a poll delivers
frames, whose delivery may send again; the functions here take that poll as a
parameter.

The checksums are stored as the little-endian machine computes them.
-/

namespace Witos.Net

open Library

/-- The loop of `net_calc_checksum` with its 32-bit accumulator. -/
def checksumLoop : Nat → List UInt8 → Nat
  | sum, low :: high :: rest =>
      checksumLoop (add32 sum (low.toNat + 256 * high.toNat)) rest
  | sum, [last] => add32 sum last.toNat
  | sum, [] => sum

def foldChecksum (sum : Nat) : Nat :=
  add32 (sum % 2 ^ 16) (sum / 2 ^ 16)

def netCalcChecksum (bytes : List UInt8) : Nat :=
  foldChecksum (foldChecksum (checksumLoop 0 bytes)) % 2 ^ 16

/-- `~net_calc_checksum(...)` stored in a 16-bit field. -/
def checksumField (bytes : List UInt8) : List UInt8 :=
  leBytes 2 (2 ^ 16 - 1 - netCalcChecksum bytes)

def ethHdrLen : Nat := 14
def ipHdrLen : Nat := 20
def udpHdrLen : Nat := 8
def tcpHdrLen : Nat := 20

def ethTypeIp : Nat := 0x0800
def ethTypeArp : Nat := 0x0806
def ethTypeRarp : Nat := 0x0835

def macBcast : Nat := 2 ^ 48 - 1

def etherHeader (device : Device) (mac type : Nat) : List UInt8 :=
  beBytes 6 mac ++ beBytes 6 device.mac ++ beBytes 2 type

/-- `ndev->send_packet` hands the buffer to the device. -/
def sendPacket (skb : TxBuff) : NetM Int := do
  let net ← get
  set { net with
    sent := net.sent ++ [skb.contents]
    results := net.results.tail }
  pure (net.results.head?.getD 0)

def etherSendPacket (skb : TxBuff) (mac type : Nat) : NetM Int := do
  let net ← get
  let framed := skb.push (etherHeader net.device mac type)
  if framed.room ≠ 0 then
    pure eInval
  else
    let ret ← sendPacket framed
    skbFree framed.id
    pure ret

def arpOpReq : Nat := 1
def arpOpRep : Nat := 2

def arpPacket (device : Device) (ip mac op : Nat) : List UInt8 :=
  beBytes 2 1 ++ beBytes 2 ethTypeIp ++ [6, 4] ++ beBytes 2 op ++
    beBytes 6 device.mac ++ beBytes 4 device.ip ++ beBytes 6 mac ++
    beBytes 4 ip

/-- `arp_send_packet`; without a MAC address the packet is a broadcast. -/
def arpSendPacket (ip : Nat) (mac : Option Nat) (op : Nat) : NetM Unit := do
  let net ← get
  let target := mac.getD macBcast
  match ← skbAlloc ethHdrLen (arpPacket net.device ip target op) with
  | none => pure ()
  | some skb =>
      let _ ← etherSendPacket skb target ethTypeArp
      pure ()

/-- The loop of `gethostaddr`, with the number of rounds left. -/
def awaitHost (poll : NetM Unit) (ip : Nat) : Nat → NetM (Option Nat)
  | 0 => pure none
  | count + 1 => do
      if (← uartRead) = some ctrlC then
        pure none
      else
        poll
        match getaddr (← get) ip with
        | some mac => pure (some mac)
        | none => awaitHost poll ip count

def gethostaddr (poll : NetM Unit) (ip : Nat) : NetM (Option Nat) := do
  arpSendPacket ip none arpOpReq
  awaitHost poll ip 100000

def macFillFromArp (poll : NetM Unit) (ip : Nat) : NetM (Option Nat) := do
  match getaddr (← get) ip with
  | some mac => pure (some mac)
  | none => gethostaddr poll ip

def protIcmp : Nat := 1
def protIgmp : Nat := 2
def protTcp : Nat := 6
def protUdp : Nat := 17
def protOspf : Nat := 89

/-- `ip_is_bcast` of an address in host byte order. -/
def ipIsBcast (device : Device) (ip : Nat) : Bool :=
  device.mask ||| ip = 2 ^ 32 - 1

/-- The header that `ip_send_packet` fills in, with its checksum field. -/
def ipHeaderWith (checksum : List UInt8) (size id prot : Nat)
    (source destination : SockAddr) : List UInt8 :=
  [0x45, 0] ++ beBytes 2 size ++ beBytes 2 id ++ beBytes 2 0x4000 ++
    [64, UInt8.ofNat prot] ++ checksum ++ beBytes 4 source.addr ++
    beBytes 4 destination.addr

def ipHeader (size id prot : Nat) (source destination : SockAddr) :
    List UInt8 :=
  ipHeaderWith
    (checksumField (ipHeaderWith [0, 0] size id prot source destination))
    size id prot source destination

/-- `ip_send_packet` for a buffer whose socket has the addresses `source` and
`destination`.  A buffer whose receiver cannot be resolved stays allocated. -/
def ipSendPacket (poll : NetM Unit) (skb : TxBuff)
    (source destination : SockAddr) (prot : Nat) : NetM Int := do
  let net ← get
  let packet := skb.push
    (ipHeader (add16 skb.size ipHdrLen) net.ipId prot source destination)
  set { net with ipId := add16 net.ipId 1 }
  if ipIsBcast net.device destination.addr then
    etherSendPacket packet macBcast ethTypeIp
  else
    match ← macFillFromArp poll destination.addr with
    | none => pure eIo
    | some mac => etherSendPacket packet mac ethTypeIp

def udpSendPacket (poll : NetM Unit) (skb : TxBuff)
    (source destination : SockAddr) : NetM Unit := do
  let packet := skb.push
    (beBytes 2 source.port ++ beBytes 2 destination.port ++
      beBytes 2 (add16 skb.size udpHdrLen) ++ [0, 0])
  let _ ← ipSendPacket poll packet source destination protUdp
  pure ()

def flgFin : Nat := 1
def flgSyn : Nat := 2
def flgPsh : Nat := 8
def flgAck : Nat := 16

/-- `sock->type` as a protocol number; other types have no checksum. -/
def pseudoProtocol : SockType → Option Nat
  | .stream => some protTcp
  | .dgram => some protUdp
  | .raw => none
  | .other _ => none

/-- The checksum over the pseudo header and the packet. -/
def pseudoCalculateChecksum (sock : Socket) (packet : List UInt8) :
    List UInt8 :=
  match pseudoProtocol sock.type with
  | none => [0, 0]
  | some prot =>
      checksumField
        (beBytes 4 sock.source.addr ++ beBytes 4 sock.destination.addr ++
          [0, UInt8.ofNat prot] ++ beBytes 2 packet.length ++ packet)

def tcpHeaderWith (checksum : List UInt8) (sock : Socket) (flags : Nat)
    (options : List UInt8) : List UInt8 :=
  beBytes 2 sock.source.port ++ beBytes 2 sock.destination.port ++
    beBytes 4 sock.seqNum ++ beBytes 4 sock.ackNum ++
    [UInt8.ofNat ((tcpHdrLen + options.length) / 4 % 16 * 16),
      UInt8.ofNat flags] ++
    beBytes 2 (if flags.testBit 4 then 457 else 14600) ++ checksum ++
    [0, 0] ++ options

/-- `skb` with the TCP header of the socket in front. -/
def tcpSegment (skb : TxBuff) (sock : Socket) (flags : Nat)
    (options : List UInt8) : TxBuff :=
  let unsummed := skb.push (tcpHeaderWith [0, 0] sock flags options)
  skb.push (tcpHeaderWith (pseudoCalculateChecksum sock unsummed.contents)
    sock flags options)

/-- `tcp_send_packet`; no options stand for the null pointer. -/
def tcpSendPacket (poll : NetM Unit) (skb : TxBuff) (fd flags : Nat)
    (options : List UInt8) : NetM Unit := do
  let sock ← sockAt fd
  let _ ← ipSendPacket poll (tcpSegment skb sock flags options) sock.source
    sock.destination protTcp
  if flags.testBit 1 || flags.testBit 0 then
    modifySock fd (fun sock => { sock with seqNum := add32 sock.seqNum 1 })
  if flags.testBit 3 then
    modifySock fd (fun sock =>
      { sock with seqNum := add32 sock.seqNum skb.size })

def tcpSendAck (poll : NetM Unit) (fd : Nat) : NetM Int := do
  match ← skbAlloc (ethHdrLen + ipHdrLen + tcpHdrLen) [] with
  | none => pure eNoMem
  | some skb =>
      tcpSendPacket poll skb fd flgAck []
      pure 0

end Witos.Net
