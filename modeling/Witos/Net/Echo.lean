import Witos.Net.Checksum
import Witos.Net.Ownership
import Witos.Net.UdpRoundTrip

/-!
# Echo replies

`ping_send` answers an echo request with 64 bytes, whatever the length of the
request: behind a shorter request it reads on in the buffer, and of a longer
one the rest is lost.
-/

namespace Witos.Net

open Library Effect

/-- The ICMP message of a received packet whose IP header is at `ip`. -/
def icmpMessage (skb : SockBuff) (ip : Nat) : List UInt8 :=
  slice skb.memory (skb.data + ipHeaderLen skb.memory ip)
    (skb.size - ipHeaderLen skb.memory ip)

def icmpId (message : List UInt8) : List UInt8 :=
  (message.drop 4).take 2

def icmpSeqno (message : List UInt8) : List UInt8 :=
  (message.drop 6).take 2

def icmpPayload (message : List UInt8) : List UInt8 :=
  message.drop 8

/-- A packet with a complete ICMP header of the type echo request. -/
structure EchoRequest (skb : SockBuff) (ip : Nat) : Prop where
  type : (skb.memory (skb.data + ipHeaderLen skb.memory ip)).toNat =
    icmpTypeEchoRequest
  complete : ipHeaderLen skb.memory ip + 8 ≤ skb.size

/-- What a reply has to be.  Its payload is that of the request, so that it has
no other byte and none is lost. -/
structure EchoReplyTo (request reply : List UInt8) : Prop where
  type : reply.head? = some (UInt8.ofNat icmpTypeEchoReply)
  id : icmpId reply = icmpId request
  seqno : icmpSeqno reply = icmpSeqno request
  payload : icmpPayload reply = icmpPayload request
  length : reply.length = request.length
  checksum : netCalcChecksum reply = 0xffff

/-- The packet that `ping_send` builds for a buffer whose `data` is at the
message. -/
def pingReply (skb : SockBuff) : List UInt8 :=
  initPingPacket icmpTypeEchoReply (slice skb.memory (skb.data + 4) 2)
    (slice skb.memory (skb.data + 6) 2)
    (slice skb.memory (skb.data + 8) (pingPacketLength - 8))

theorem initPingPacket_eq (type : Nat) (id seqno data : List UInt8) :
    ∃ low high, initPingPacket type id seqno data =
      [UInt8.ofNat type, 0, low, high] ++ (id ++ (seqno ++ data)) := by
  obtain ⟨low, high, stored⟩ := List.length_eq_two.mp
    (length_checksumField (pingPacketWith [0, 0] type id seqno data))
  refine ⟨low, high, ?_⟩
  rw [initPingPacket, stored]
  simp [pingPacketWith]

theorem length_pingReply (skb : SockBuff) : (pingReply skb).length = 64 := by
  simp [pingReply, initPingPacket, pingPacketWith, length_checksumField,
    pingPacketLength]

theorem netCalcChecksum_initPingPacket (type : Nat)
    (id seqno data : List UInt8)
    (short : id.length + seqno.length + data.length ≤ 131068) :
    netCalcChecksum (initPingPacket type id seqno data) = 0xffff := by
  have regroup : ∀ checksum, pingPacketWith checksum type id seqno data =
      [UInt8.ofNat type, 0] ++ checksum ++ (id ++ seqno ++ data) := by
    intro checksum
    simp [pingPacketWith]
  have even : [UInt8.ofNat type, 0].length % 2 = 0 := by
    simp
  rw [initPingPacket, regroup, regroup]
  apply netCalcChecksum_stored even
  simp only [List.length_append, List.length_cons, List.length_nil]
  omega

theorem netCalcChecksum_pingReply (skb : SockBuff) :
    netCalcChecksum (pingReply skb) = 0xffff := by
  apply netCalcChecksum_initPingPacket
  simp [pingPacketLength]

/-- The buffer as `icmp_deliver` passes it to `ping_send`. -/
def pingBuffer (skb : SockBuff) (ip : Nat) : SockBuff :=
  skb.pull (ipHeaderLen skb.memory ip)

theorem take_drop_icmpMessage {skb : SockBuff} {ip start count : Nat}
    (inside : start + count ≤ skb.size - ipHeaderLen skb.memory ip) :
    ((icmpMessage skb ip).drop start).take count =
      slice skb.memory ((pingBuffer skb ip).data + start) count := by
  have read := take_drop_slice skb.memory
    (skb.data + ipHeaderLen skb.memory ip)
    (skb.size - ipHeaderLen skb.memory ip) start count
  rwa [Nat.min_eq_left (by omega)] at read

theorem icmpPayload_message (skb : SockBuff) (ip : Nat) :
    icmpPayload (icmpMessage skb ip) =
      slice skb.memory ((pingBuffer skb ip).data + 8)
        ((icmpMessage skb ip).length - 8) := by
  have length : (icmpMessage skb ip).length =
      skb.size - ipHeaderLen skb.memory ip := length_slice _ _ _
  have all := take_drop_slice skb.memory
    (skb.data + ipHeaderLen skb.memory ip)
    (skb.size - ipHeaderLen skb.memory ip) 8
    ((icmpMessage skb ip).length - 8)
  rw [length, Nat.min_self] at all
  rw [length]
  apply Eq.trans _ all
  apply Eq.symm
  apply List.take_of_length_le
  simp

theorem echoReplyTo_iff {skb : SockBuff} {ip : Nat}
    (request : EchoRequest skb ip) :
    EchoReplyTo (icmpMessage skb ip) (pingReply (pingBuffer skb ip)) ↔
      (icmpMessage skb ip).length = 64 := by
  have complete := request.complete
  obtain ⟨low, high, packet⟩ := initPingPacket_eq icmpTypeEchoReply
    (slice skb.memory ((pingBuffer skb ip).data + 4) 2)
    (slice skb.memory ((pingBuffer skb ip).data + 6) 2)
    (slice skb.memory ((pingBuffer skb ip).data + 8) (pingPacketLength - 8))
  have reply : pingReply (pingBuffer skb ip) = _ := packet
  constructor
  · intro replies
    rw [← replies.length]
    exact length_pingReply _
  · intro whole
    refine ⟨?_, ?_, ?_, ?_, ?_, netCalcChecksum_pingReply _⟩
    · rw [reply]
      rfl
    · rw [reply]
      apply Eq.trans _ (take_drop_icmpMessage (by omega)).symm
      simp [icmpId]
    · rw [reply]
      apply Eq.trans _ (take_drop_icmpMessage (by omega)).symm
      simp [icmpSeqno]
    · rw [reply, icmpPayload_message, whole]
      simp [icmpPayload, pingPacketLength, List.drop_append]
    · rw [length_pingReply, whole]

/-- The frame of a reply: the headers that `ip_send_packet` and
`ether_send_packet` put in front. -/
def echoFrame (device : Device) (mac ipId : Nat) (skb : SockBuff) (ip : Nat) :
    List UInt8 :=
  etherHeader device mac ethTypeIp ++
    (ipHeader 84 ipId protIcmp ⟨0, 0, ipDestination skb.memory ip⟩
      ⟨0, 0, ipSource skb.memory ip⟩ ++ pingReply (pingBuffer skb ip))

/-- The only frame that `icmp_deliver` sends, once the address of the host that
asks is resolved. -/
theorem icmpDeliver_echo {poll : NetM Unit} {net resolved : Stack}
    {skb : SockBuff} {ip mac : Nat} (request : EchoRequest skb ip)
    (allocates : net.allocates = true)
    (resolves : Resolves poll (ipSource skb.memory ip)
      net.allocated.numbered mac resolved) :
    ∃ final, icmpDeliver poll skb ip net = .ok (0, final) ∧
      final.sent = resolved.sent ++
        [echoFrame resolved.device mac net.ipId skb ip] := by
  let source : SockAddr := ⟨0, 0, ipDestination skb.memory ip⟩
  let destination : SockAddr := ⟨0, 0, ipSource skb.memory ip⟩
  let reply := pingReply (pingBuffer skb ip)
  let tx : TxBuff :=
    ⟨net.nextId, ethHdrLen + ipHdrLen, reply, reply.length % 2 ^ 16⟩
  have size : tx.size = 64 := by
    simp only [tx, reply, length_pingReply]
    rfl
  have contents : ((tx.push (ipHeader (add16 tx.size ipHdrLen) net.ipId
      protIcmp source destination)).push
      (etherHeader resolved.device mac ethTypeIp)).contents =
        echoFrame resolved.device mac net.ipId skb ip := by
    simp only [TxBuff.push, TxBuff.contents, size, length_ipHeader,
      length_etherHeader]
    apply List.take_of_length_le
    simp [tx, reply, length_pingReply, add16]
  have sent : ipSendPacket poll tx source destination protIcmp
      net.allocated = etherSendPacket (tx.push (ipHeader
        (add16 tx.size ipHdrLen) net.ipId protIcmp source destination)) mac
        ethTypeIp resolved :=
    ipSendPacket_eq resolves tx source protIcmp
  rw [etherSendPacket_eq (by simp [tx, TxBuff.push, ethHdrLen, ipHdrLen])]
    at sent
  obtain ⟨final, handed, added⟩ : ∃ final,
      ipSendPacket poll tx source destination protIcmp net.allocated =
        .ok (resolved.results.head?.getD 0, final) ∧
      final.sent = resolved.sent ++
        [echoFrame resolved.device mac net.ipId skb ip] :=
    ⟨_, sent, congrArg (fun frame => resolved.sent ++ [frame]) contents⟩
  have answered : pingSend poll (pingBuffer skb ip) ip icmpTypeEchoReply net =
      .ok (0, final) := by
    rw [pingSend, run_bind (skbAlloc_some allocates _ _)]
    exact run_bind handed
  refine ⟨final, ?_, added⟩
  rw [icmpDeliver]
  simp only [request.type]
  rw [if_pos trivial]
  exact run_bind answered

/-- The reply to an echo request is faithful exactly for a request of 64
bytes. -/
theorem icmpDeliver_echoReplyTo_iff (poll : NetM Unit) (net resolved : Stack)
    (skb : SockBuff) (ip mac : Nat) (request : EchoRequest skb ip)
    (allocates : net.allocates = true)
    (resolves : Resolves poll (ipSource skb.memory ip)
      net.allocated.numbered mac resolved) :
    ∃ header reply final, icmpDeliver poll skb ip net = .ok (0, final) ∧
      final.sent = resolved.sent ++ [header ++ reply] ∧
      header.length = ethHdrLen + ipHdrLen ∧
      (EchoReplyTo (icmpMessage skb ip) reply ↔
        (icmpMessage skb ip).length = 64) := by
  obtain ⟨final, delivered, sent⟩ :=
    icmpDeliver_echo request allocates resolves
  rw [echoFrame, ← List.append_assoc] at sent
  refine ⟨_, _, final, delivered, sent, ?_, echoReplyTo_iff request⟩
  simp [ethHdrLen, ipHdrLen]

/-- An echo request of the host at 192.168.0.2. -/
def echoPacket (data : List UInt8) : SockBuff :=
  ⟨0, (Frame.ofBytes ([0x45, 0, 0, 28 + UInt8.ofNat data.length] ++
    [0, 0, 0, 0, 64, 1, 0, 0, 192, 168, 0, 2, 192, 168, 0, 1] ++
    [8, 0, 0, 0, 0, 7, 0, 1] ++ data)).memory, 0, 28 + data.length⟩

theorem ipHeaderLen_echoPacket (data : List UInt8) :
    ipHeaderLen (echoPacket data).memory 0 = 20 := by
  simp [ipHeaderLen, echoPacket, Frame.ofBytes]

theorem ipSource_echoPacket (data : List UInt8) :
    ipSource (echoPacket data).memory 0 = 0xc0a80002 := by
  simp [ipSource, field, slice, List.range_succ, echoPacket, Frame.ofBytes,
    beValue]

theorem echoRequest_echoPacket (data : List UInt8) :
    EchoRequest (echoPacket data) 0 where
  type := by
    rw [ipHeaderLen_echoPacket]
    simp [echoPacket, Frame.ofBytes, icmpTypeEchoRequest]
  complete := by
    rw [ipHeaderLen_echoPacket]
    exact Nat.le_add_right 28 data.length

theorem length_icmpMessage_echoPacket (data : List UInt8) :
    (icmpMessage (echoPacket data) 0).length = 8 + data.length := by
  have size : (echoPacket data).size = 28 + data.length := rfl
  rw [icmpMessage, length_slice, ipHeaderLen_echoPacket, size]
  omega

theorem resolves_echoPacket (data : List UInt8) :
    Resolves ndevPoll (ipSource (echoPacket data).memory 0)
      knownHost.allocated.numbered 0x020000000002
      knownHost.allocated.numbered := by
  rw [ipSource_echoPacket]
  exact (if_neg (by decide)).mpr rfl

theorem icmpDeliver_echoReplyTo_iff_whole :
    ∃ header reply final, icmpDeliver ndevPoll
        (echoPacket (List.replicate 56 1)) 0 knownHost = .ok (0, final) ∧
      final.sent = [header ++ reply] ∧
      EchoReplyTo (icmpMessage (echoPacket (List.replicate 56 1)) 0)
        reply := by
  obtain ⟨header, reply, final, delivered, sent, -, faithful⟩ :=
    icmpDeliver_echoReplyTo_iff ndevPoll knownHost _ _ 0 _
      (echoRequest_echoPacket (List.replicate 56 1)) rfl
      (resolves_echoPacket _)
  refine ⟨header, reply, final, delivered, sent, faithful.mpr ?_⟩
  rw [length_icmpMessage_echoPacket]
  rfl

/-- The reply to a request of four bytes has 52 bytes from behind the
request. -/
theorem not_icmpDeliver_echoReplyTo :
    ¬∀ (poll : NetM Unit) (net resolved : Stack) (skb : SockBuff)
        (ip mac : Nat), EchoRequest skb ip → net.allocates = true →
      Resolves poll (ipSource skb.memory ip) net.allocated.numbered mac
        resolved →
      ∃ header reply final, icmpDeliver poll skb ip net = .ok (0, final) ∧
        final.sent = resolved.sent ++ [header ++ reply] ∧
        header.length = ethHdrLen + ipHdrLen ∧
        EchoReplyTo (icmpMessage skb ip) reply := by
  intro always
  let skb := echoPacket [1, 2, 3, 4]
  have request := echoRequest_echoPacket [1, 2, 3, 4]
  have resolves := resolves_echoPacket [1, 2, 3, 4]
  obtain ⟨header, reply, final, delivered, sent, headers, faithful⟩ :=
    always ndevPoll knownHost _ skb 0 _ request rfl resolves
  have allocates : knownHost.allocates = true := rfl
  obtain ⟨other, delivered', sent'⟩ :=
    icmpDeliver_echo request allocates resolves
  have same : final = other := by
    have outcomes := delivered.symm.trans delivered'
    injection outcomes with pairs
    injection pairs
  rw [same, sent'] at sent
  have frames := List.append_inj_right sent rfl
  have lengths := congrArg (fun frames => frames.map List.length) frames
  have whole := faithful.length
  rw [length_icmpMessage_echoPacket] at whole
  simp [echoFrame, length_pingReply, headers, ethHdrLen, ipHdrLen, whole]
    at lengths

end Witos.Net
