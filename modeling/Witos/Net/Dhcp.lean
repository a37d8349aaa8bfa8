import Witos.Library.Bytes

/-!
# The DHCP client

`command/dhclient.c`.  One packet buffer serves for what is sent and for all
that is received; `recvfrom` overwrites as many bytes of it as the datagram
has.  The main loop is given one iteration at a time.
-/

namespace Witos.Dhcp

open Library

/-- `sizeof(struct dhcp_packet)`. -/
def packetSize : Nat := 300

def clientRequest : UInt8 := 1
def etherType : UInt8 := 1
def macAdrLen : UInt8 := 6

def dhcpMessage : UInt8 := 53
def dhcpMessageLen : UInt8 := 1
def dhcpRequestIp : UInt8 := 50
def dhcpRequestIpLen : UInt8 := 4

def dhcpDiscover : UInt8 := 1
def dhcpOffer : UInt8 := 2
def dhcpRequest : UInt8 := 3
def dhcpDecline : UInt8 := 4
def dhcpAck : UInt8 := 5

/-- The bytes of a `struct dhcp_packet`. -/
abbrev Packet := Nat → UInt8

/-- `packet.xid`, a raw `__u32` of a little endian machine. -/
def Packet.xid (packet : Packet) : Nat :=
  leValue (slice packet 4 4)

def Packet.yiaddr (packet : Packet) : Nat :=
  leValue (slice packet 16 4)

def Packet.siaddr (packet : Packet) : Nat :=
  leValue (slice packet 20 4)

/-- `packet.option[index]`. -/
def Packet.option (packet : Packet) (index : Nat) : UInt8 :=
  packet (240 + index)

def Packet.bytes (packet : Packet) : List UInt8 :=
  slice packet 0 packetSize

/-- `init_dhcp_packet`: the fields that are not zero are `op`, `htype`, `hlen`,
`xid`, `chaddr` and `magic_cookie`. -/
def initDhcpPacket (xid : Nat) (macAddr : List UInt8) (packet : Packet) :
    Packet :=
  let packet := overlay (List.replicate packetSize 0) packet
  let packet := overlayAt 0 [clientRequest, etherType, macAdrLen, 0] packet
  let packet := overlayAt 4 (leBytes 4 xid) packet
  let packet := overlayAt 28 macAddr packet
  overlayAt 236 [0x63, 0x82, 0x53, 0x63] packet

/-- The options of `send_dhcp_discover`. -/
def discoverOptions (packet : Packet) : Packet :=
  overlayAt 240 [dhcpMessage, dhcpMessageLen, dhcpDiscover, 0xff] packet

/-- The options of `send_dhcp_request` and `send_dhcp_declient`, which ask for
or refuse `packet->yiaddr`. -/
def addressOptions (message : UInt8) (packet : Packet) : Packet :=
  overlayAt 240 ([dhcpMessage, dhcpMessageLen, message, dhcpRequestIp,
    dhcpRequestIpLen] ++ slice packet 16 4 ++ [0xff]) packet

/-- What an iteration gets from outside: the datagram, empty when `recvfrom`
fails, and the result of `send_dhcp_request` should it call it. -/
structure Reception where
  datagram : List UInt8
  sendRet : Int

/-- What `recvfrom` copies to the packet. -/
def Reception.bytes (reception : Reception) : List UInt8 :=
  reception.datagram.take packetSize

/-- The variables of the loop, and the datagrams sent so far. -/
structure Client where
  i : Int
  j : Nat
  packet : Packet
  sent : List (List UInt8)

/-- Where control is after an iteration: back at its start, behind the loop
after a `break` or with the retries used up, or at the label `error`. -/
inductive Exit
  | again | accepted | timeOut | error
  deriving DecidableEq, Repr

/-- `i++` and the test of the loop. -/
def Client.nextRound (client : Client) : Exit × Client :=
  let client := { client with i := client.i + 1 }
  if client.i < 3 then (.again, client) else (.timeOut, client)

/-- A message of another type than the one waited for. -/
def Client.skip (client : Client) : Exit × Client :=
  if client.i < 3 then client.nextRound else (.error, client)

/-- What follows an offer. -/
def Client.sendRequest (client : Client) (sendRet : Int) : Exit × Client :=
  let packet := addressOptions dhcpRequest client.packet
  let client := { client with
    i := -1
    j := client.j + 1
    packet := packet
    sent := client.sent ++ [packet.bytes] }
  if sendRet < 0 then (.error, client) else client.nextRound

/-- The packet after `recvfrom`. -/
def Client.recvfrom (client : Client) (reception : Reception) : Client :=
  { client with packet := overlay reception.bytes client.packet }

/-- The body of the loop. -/
def iteration (xid : Nat) (reception : Reception) (client : Client) :
    Exit × Client :=
  let client := client.recvfrom reception
  if reception.bytes = [] then (.error, client)
  else if client.packet.xid = xid then
    if client.j = 0 then
      if client.packet.option 2 ≠ dhcpOffer then client.skip
      else client.sendRequest reception.sendRet
    else
      if client.packet.option 2 ≠ dhcpAck then client.skip
      else (.accepted, client)
  else client.nextRound

/-- The loop on the datagrams that arrive. -/
def loop (xid : Nat) : List Reception → Client → Exit × Client
  | [], client => (.again, client)
  | reception :: receptions, client =>
      match iteration xid reception client with
      | (.again, client) => loop xid receptions client
      | result => result

/-- What the command has done: the calls of `NIOC_SET_IP` and
`net_set_server_ip`, and the datagrams it has sent. -/
structure Outcome where
  setIp : Option Nat
  serverIp : Option Nat
  sent : List (List UInt8)

/-- The client in front of the loop. -/
def startClient (xid : Nat) (macAddr : List UInt8) (packet : Packet) :
    Client :=
  let packet := discoverOptions (initDhcpPacket xid macAddr packet)
  { i := 0, j := 0, packet := packet, sent := [packet.bytes] }

/-- `main` from the first datagram on.  `discoverRet` is the result of
`send_dhcp_discover` and `checkRet` that of `check_ip_is_user`. -/
def dhclient (xid : Nat) (macAddr : List UInt8) (packet : Packet)
    (discoverRet checkRet : Int) (syncSvr : Bool)
    (receptions : List Reception) : Outcome :=
  let client := startClient xid macAddr packet
  if discoverRet < 0 then ⟨none, none, client.sent⟩
  else
    match loop xid receptions client with
    | (.accepted, client) =>
        if checkRet ≠ 0 then
          ⟨none, none, client.sent ++
            [(addressOptions dhcpDecline client.packet).bytes]⟩
        else
          ⟨some client.packet.yiaddr,
            if syncSvr then some client.packet.siaddr else none, client.sent⟩
    | (_, client) => ⟨none, none, client.sent⟩

end Witos.Dhcp
