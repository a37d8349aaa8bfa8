import Witos.Net.Send

/-!
# Receiving

The receiving half of `driver/net/core/net.c` and `ndev_poll`.  The layers move
`data` and `size` of the received buffer; a header is an offset in its memory.

What no function of the source reads back is left out: the messages printed on
the console and the statistics of the device.
-/

namespace Witos.Net

open Library

/-- `(ver_len & 0xf) << 2` of the IP header at an offset. -/
def ipHeaderLen (memory : Nat → UInt8) (ip : Nat) : Nat :=
  (memory ip).toNat % 16 * 4

def ipTotalLen (memory : Nat → UInt8) (ip : Nat) : Nat :=
  field memory (ip + 2) 2

def ipUpProt (memory : Nat → UInt8) (ip : Nat) : Nat :=
  (memory (ip + 9)).toNat

def ipSource (memory : Nat → UInt8) (ip : Nat) : Nat :=
  field memory (ip + 12) 4

def ipDestination (memory : Nat → UInt8) (ip : Nat) : Nat :=
  field memory (ip + 16) 4

/-- `hdr_len << 2` of the TCP header at an offset; `hdr_len` is the high half
of its byte on the little-endian machine. -/
def tcpHeaderLen (memory : Nat → UInt8) (tcp : Nat) : Nat :=
  (memory (tcp + 12)).toNat / 16 * 4

def tcpSeqNum (memory : Nat → UInt8) (tcp : Nat) : Nat :=
  field memory (tcp + 4) 4

def tcpFlags (memory : Nat → UInt8) (tcp : Nat) : Nat :=
  (memory (tcp + 13)).toNat

/-- `dst_port`, at the same place in the UDP and the TCP header. -/
def dstPort (memory : Nat → UInt8) (header : Nat) : Nat :=
  field memory (header + 2) 2

def SockBuff.pull (skb : SockBuff) (length : Nat) : SockBuff :=
  { skb with data := skb.data + length, size := sub16 skb.size length }

def udpLayerDeliver (skb : SockBuff) (ip : Nat) : NetM Int := do
  let udp := skb.data
  let skb := skb.pull udpHdrLen
  match udpSearchSocket (← get) (dstPort skb.memory udp) with
  | none =>
      skbFree skb.id
      pure eNoEnt
  | some fd =>
      modifySock fd (fun sock =>
        { sock with
          destination := { sock.destination with
            addr := ipSource skb.memory ip
            port := field skb.memory udp 2 } })
      listAddTail skb fd
      pure 0

def setAckNum (fd ackNum : Nat) : NetM Unit :=
  modifySock fd (fun sock => { sock with ackNum := ackNum })

def setState (fd : Nat) (state : TcpState) : NetM Unit :=
  modifySock fd (fun sock => { sock with state := state })

/-- The cases `FLG_SYN` and `FLG_SYN | FLG_ACK`. -/
def tcpDeliverSyn (poll : NetM Unit) (skb : SockBuff) (tcp fd : Nat) :
    NetM Unit := do
  setAckNum fd (add32 (tcpSeqNum skb.memory tcp) 1)
  skbFree skb.id
  let _ ← tcpSendAck poll fd
  let sock ← sockAt fd
  if sock.state = .synSent then
    setState fd .established
  else
    throw Halt.bug

/-- The state after a `FIN` without data, if the source expects one. -/
def stateAfterFin (flags : Nat) : TcpState → Option TcpState
  | .finWait1 => some (if flags.testBit 4 then .timeWait else .closing)
  | .finWait2 => some .timeWait
  | .established => some .closeWait
  | _ => none

/-- The cases `FLG_FIN`, `FLG_FIN | FLG_ACK` and
`FLG_FIN | FLG_ACK | FLG_PSH`. -/
def tcpDeliverFin (poll : NetM Unit) (skb : SockBuff) (tcp fd : Nat) :
    NetM Unit := do
  if 0 < skb.size then
    setAckNum fd (add32 (tcpSeqNum skb.memory tcp) skb.size)
    listAddTail skb fd
  else
    setAckNum fd (add32 (tcpSeqNum skb.memory tcp) 1)
    let sock ← sockAt fd
    match stateAfterFin (tcpFlags skb.memory tcp) sock.state with
    | some state => setState fd state
    | none => throw Halt.bug
    skbFree skb.id
  let _ ← tcpSendAck poll fd
  pure ()

/-- The state after an `ACK` without data. -/
def stateAfterAck : TcpState → TcpState
  | .finWait1 => .finWait2
  | .closing => .timeWait
  | .lastAck => .closed
  | state => state

/-- The case `FLG_ACK` without data. -/
def tcpDeliverAck (skb : SockBuff) (fd : Nat) : NetM Unit := do
  skbFree skb.id
  modifySock fd (fun sock => { sock with state := stateAfterAck sock.state })

/-- The case `FLG_ACK | FLG_PSH`, and `FLG_ACK` with data. -/
def tcpDeliverData (poll : NetM Unit) (skb : SockBuff) (tcp fd : Nat) :
    NetM Unit := do
  setAckNum fd (add32 (tcpSeqNum skb.memory tcp) skb.size)
  listAddTail skb fd
  let _ ← tcpSendAck poll fd
  pure ()

/-- The cases of the `switch` over the flags. -/
inductive FlagCase where
  | syn
  | fin
  | ack
  | data
  | unlisted
  deriving DecidableEq

def flagCase (flags : Nat) : FlagCase :=
  if flags = flgSyn ∨ flags = flgSyn + flgAck then .syn
  else if flags = flgFin ∨ flags = flgFin + flgAck ∨
      flags = flgFin + flgAck + flgPsh then .fin
  else if flags = flgAck then .ack
  else if flags = flgAck + flgPsh then .data
  else .unlisted

def tcpLayerDeliver (poll : NetM Unit) (skb : SockBuff) : NetM Int := do
  let tcp := skb.data
  let skb := skb.pull (tcpHeaderLen skb.memory tcp)
  match tcpSearchSocket (← get) (dstPort skb.memory tcp) with
  | none =>
      skbFree skb.id
      pure eNoEnt
  | some fd =>
      match flagCase (tcpFlags skb.memory tcp) with
      | .syn => tcpDeliverSyn poll skb tcp fd
      | .fin => tcpDeliverFin poll skb tcp fd
      | .ack =>
          if skb.size = 0 then tcpDeliverAck skb fd
          else tcpDeliverData poll skb tcp fd
      | .data => tcpDeliverData poll skb tcp fd
      | .unlisted => pure ()
      pure 0

def icmpTypeEchoReply : Nat := 0
def icmpTypeEchoRequest : Nat := 8

def pingPacketLength : Nat := 64

/-- The packet of `init_ping_packet`, with its checksum field. -/
def pingPacketWith (checksum : List UInt8) (type : Nat) (id seqno : List UInt8)
    (data : List UInt8) : List UInt8 :=
  [UInt8.ofNat type, 0] ++ checksum ++ id ++ seqno ++ data

def initPingPacket (type : Nat) (id seqno data : List UInt8) : List UInt8 :=
  pingPacketWith (checksumField (pingPacketWith [0, 0] type id seqno data))
    type id seqno data

/-- `ping_send` answers with `PING_PACKET_LENGTH` bytes whatever the length of
the request. -/
def pingSend (poll : NetM Unit) (skb : SockBuff) (ip type : Nat) :
    NetM Int := do
  let packet := initPingPacket type (slice skb.memory (skb.data + 4) 2)
    (slice skb.memory (skb.data + 6) 2)
    (slice skb.memory (skb.data + 8) (pingPacketLength - 8))
  match ← skbAlloc (ethHdrLen + ipHdrLen) packet with
  | none => pure eBusy
  | some tx =>
      let _ ← ipSendPacket poll tx ⟨0, 0, ipDestination skb.memory ip⟩
        ⟨0, 0, ipSource skb.memory ip⟩ protIcmp
      pure 0

def icmpDeliver (poll : NetM Unit) (skb : SockBuff) (ip : Nat) :
    NetM Int := do
  let ping := skb.data + ipHeaderLen skb.memory ip
  let type := (skb.memory ping).toNat
  if type = icmpTypeEchoRequest then
    let _ ← pingSend poll (skb.pull (ipHeaderLen skb.memory ip)) ip
      icmpTypeEchoReply
    pure 0
  else if type = icmpTypeEchoReply then
    match icmpSearchSocket (← get) (ipSource skb.memory ip) with
    | none =>
        skbFree skb.id
        pure eNoEnt
    | some fd =>
        listAddTail skb fd
        pure 0
  else pure 0

/-- The buffer as `ip_layer_deliver` passes it to UDP and TCP. -/
def SockBuff.pullIp (skb : SockBuff) : SockBuff :=
  { skb with
    data := skb.data + ipHeaderLen skb.memory skb.data
    size := sub16 (ipTotalLen skb.memory skb.data)
      (ipHeaderLen skb.memory skb.data) }

/-- The buffer as `ip_layer_deliver` passes it to ICMP, with `data` back at the
IP header. -/
def SockBuff.pullIcmp (skb : SockBuff) : SockBuff :=
  { skb with
    size := add16 skb.pullIp.size (ipHeaderLen skb.memory skb.data) }

def ipLayerDeliver (poll : NetM Unit) (skb : SockBuff) : NetM Int := do
  let ip := skb.data
  let prot := ipUpProt skb.memory ip
  if ipHeaderLen skb.memory ip < ipHdrLen then
    pure eInval
  else if prot = protUdp then
    let _ ← udpLayerDeliver skb.pullIp ip
    pure prot
  else if prot = protTcp then
    let _ ← tcpLayerDeliver poll skb.pullIp
    pure prot
  else if prot = protIcmp then
    let _ ← icmpDeliver poll skb.pullIcmp ip
    pure prot
  else if prot = protIgmp ∨ prot = protOspf then
    skbFree skb.id
    pure prot
  else
    skbFree skb.id
    pure 0

def arpRecvPacket (skb : SockBuff) : NetM Int := do
  let arp := skb.data
  let op := field skb.memory (arp + 6) 2
  let ip := field skb.memory (arp + 14) 4
  let mac := field skb.memory (arp + 8) 6
  if field skb.memory (arp + 2) 2 ≠ ethTypeIp then
    pure eNotSupp
  else if op = arpOpRep then
    match getaddr (← get) ip with
    | some _ => pure 0
    | none =>
        if ← malloc then
          modify (fun net => { net with hosts := net.hosts ++ [(ip, mac)] })
          match arpSearchSocket (← get) ip with
          | none =>
              skbFree skb.id
              pure 0
          | some fd =>
              listAddTail skb fd
              pure 0
        else pure eNoMem
  else if op = arpOpReq then
    if field skb.memory (arp + 24) 4 = (← get).device.ip then
      arpSendPacket ip (some mac) arpOpRep
    skbFree skb.id
    pure 0
  else
    skbFree skb.id
    pure 0

def netifRx (poll : NetM Unit) (skb : SockBuff) : NetM Unit := do
  let type := field skb.memory (skb.data + 12) 2
  let skb := skb.pull ethHdrLen
  if type = ethTypeArp then
    let _ ← arpRecvPacket skb
    pure ()
  else if type = ethTypeRarp then
    skbFree skb.id
  else if type = ethTypeIp then
    let _ ← ipLayerDeliver poll skb
    pure ()
  else
    skbFree skb.id

/-- The next frame of the device in a new buffer, if there is one. -/
def receiveFrame : NetM (Option SockBuff) := do
  let net ← get
  match net.wire with
  | [] => pure none
  | none :: rest =>
      set { net with wire := rest }
      pure none
  | some frame :: rest =>
      set { net with wire := rest, nextId := net.nextId + 1 }
      pure (some (frame.buffer net.nextId))

/-- `ndev_poll`: the driver delivers frames until the device has none.  A poll
within a delivery takes the frames that follow.  Every round takes one entry of
`wire`, so that a fuel of its length is never used up. -/
def pollDevice : Nat → NetM Unit
  | 0 => pure ()
  | fuel + 1 => do
      match ← receiveFrame with
      | none => pure ()
      | some skb =>
          netifRx (pollDevice fuel) skb
          pollDevice fuel

def ndevPoll : NetM Unit := do
  pollDevice (← get).wire.length

def localDevice : Device :=
  ⟨0xc0a80001, 0x00ffffff, 0x020000000001⟩

/-- An ARP reply of the host at 192.168.0.2. -/
def arpReply : Frame :=
  .ofBytes ([2, 0, 0, 0, 0, 1, 2, 0, 0, 0, 0, 2, 8, 6] ++
    [0, 1, 8, 0, 6, 4, 0, 2, 2, 0, 0, 0, 0, 2, 192, 168, 0, 2] ++
    [2, 0, 0, 0, 0, 1, 192, 168, 0, 1])

/-- A TCP segment of that host, from port 80 to port 1000. -/
def segmentFrame (flags seqNum : UInt8) (data : List UInt8) : Frame :=
  .ofBytes ([2, 0, 0, 0, 0, 1, 2, 0, 0, 0, 0, 2, 8, 0] ++
    [0x45, 0, 0, 40 + UInt8.ofNat data.length, 0, 0, 0, 0, 64, 6, 0, 0] ++
    [192, 168, 0, 2, 192, 168, 0, 1, 0, 80, 3, 232, 0, 0, 0, seqNum] ++
    [0, 0, 0, 2, 0x50, flags, 1, 0, 0, 0, 0, 0] ++ data)

end Witos.Net
