import Witos.Net.Ownership
import Witos.Net.RecvStream

/-!
# A datagram from one socket to another

`udp_send_packet`, `ip_send_packet` and `ether_send_packet` push their headers
into the room that `sendto` has reserved; `netif_rx` and the layers above it
strip them with the lengths that they find in the packet.
-/

namespace Witos.Net

open Library Effect

/-- Ports of 16 and addresses of 32 bits. -/
structure SockAddr.InRange (address : SockAddr) : Prop where
  port : address.port < 2 ^ 16
  addr : address.addr < 2 ^ 32

/-- The header that `udp_send_packet` fills in. -/
def udpHeader (size : Nat) (source destination : SockAddr) : List UInt8 :=
  beBytes 2 source.port ++ beBytes 2 destination.port ++
    beBytes 2 (add16 size udpHdrLen) ++ [0, 0]

/-- The buffer that reaches the device for a datagram. -/
def udpFrame (device : Device) (mac id ipId : Nat)
    (source destination : SockAddr) (data : List UInt8) : TxBuff :=
  let skb : TxBuff :=
    ⟨id, (ethHdrLen + ipHdrLen + udpHdrLen : Nat), data, data.length % 2 ^ 16⟩
  let datagram := skb.push (udpHeader skb.size source destination)
  let packet := datagram.push
    (ipHeader (add16 datagram.size ipHdrLen) ipId protUdp source destination)
  packet.push (etherHeader device mac ethTypeIp)

theorem length_udpHeader (size : Nat) (source destination : SockAddr) :
    (udpHeader size source destination).length = 8 := by
  simp [udpHeader]

theorem udpFrame_room (device : Device) (mac id ipId : Nat)
    (source destination : SockAddr) (data : List UInt8) :
    (udpFrame device mac id ipId source destination data).room = 0 := by
  simp [udpFrame, TxBuff.push, length_udpHeader, ethHdrLen, ipHdrLen,
    udpHdrLen]

theorem udpFrame_contents (device : Device) (mac id ipId : Nat)
    (source destination : SockAddr) {data : List UInt8}
    (small : data.length + 42 ≤ 65535) :
    (udpFrame device mac id ipId source destination data).contents =
      etherHeader device mac ethTypeIp ++
        (ipHeader (data.length + 28) ipId protUdp source destination ++
          (udpHeader data.length source destination ++ data)) := by
  have size : data.length % 2 ^ 16 = data.length :=
    Nat.mod_eq_of_lt (by omega)
  simp only [udpFrame, TxBuff.push, TxBuff.contents, size, length_udpHeader,
    length_ipHeader, length_etherHeader, add16, ipHdrLen]
  have first : (data.length + 8) % 2 ^ 16 = data.length + 8 :=
    Nat.mod_eq_of_lt (by omega)
  have second : (data.length + 8 + 20) % 2 ^ 16 = data.length + 28 :=
    Nat.mod_eq_of_lt (by omega)
  have third : (data.length + 28 + 14) % 2 ^ 16 = data.length + 42 :=
    Nat.mod_eq_of_lt (by omega)
  rw [first, second, third]
  apply List.take_of_length_le
  simp [length_udpHeader]
  omega

/-- The stack after `sendto` has stored the address. -/
def Stack.aimed (net : Stack) (fd : Nat) (destination : SockAddr) : Stack :=
  net.updateSock fd (fun sock => { sock with destination := destination })

/-- The stack after a number was taken for a packet. -/
def Stack.numbered (net : Stack) : Stack :=
  { net with ipId := add16 net.ipId 1 }

/-- The receiver is found: the address is a broadcast, or its MAC address is
known or resolved. -/
def Resolves (poll : NetM Unit) (ip : Nat) (net : Stack) (mac : Nat)
    (resolved : Stack) : Prop :=
  if ipIsBcast net.device ip then mac = macBcast ∧ resolved = net
  else macFillFromArp poll ip net = .ok (some mac, resolved)

theorem skbAlloc_eq {net : Stack} (allocates : ∀ ok ∈ net.mallocs, ok = true)
    (protLen : Nat) (data : List UInt8) :
    skbAlloc protLen data net =
      .ok (some ⟨net.nextId, protLen, data, data.length % 2 ^ 16⟩,
        net.allocated) := by
  have succeeds : ∀ mallocs : List Bool, (∀ ok ∈ mallocs, ok = true) →
      mallocs.head?.getD true = true := by
    intro mallocs all
    cases mallocs with
    | nil => rfl
    | cons ok rest => exact all ok List.mem_cons_self
  apply skbAlloc_some
  rw [Stack.allocates, succeeds _ allocates, succeeds _ fun ok member =>
    allocates ok (List.mem_of_mem_tail member)]
  rfl

theorem etherSendPacket_eq {skb : TxBuff} {mac type : Nat} {net : Stack}
    (room : (skb.push (etherHeader net.device mac type)).room = 0) :
    etherSendPacket skb mac type net =
      .ok (net.results.head?.getD 0,
        { net with
          sent := net.sent ++
            [(skb.push (etherHeader net.device mac type)).contents]
          results := net.results.tail
          freed := net.freed ++ [skb.id] }) := by
  rw [etherSendPacket, run_bind run_get, if_neg (not_not.mpr room)]
  rfl

theorem ipSendPacket_eq {poll : NetM Unit} {net resolved : Stack} {mac : Nat}
    {destination : SockAddr}
    (resolves : Resolves poll destination.addr net.numbered mac resolved)
    (skb : TxBuff) (source : SockAddr) (prot : Nat) :
    ipSendPacket poll skb source destination prot net =
      etherSendPacket (skb.push (ipHeader (add16 skb.size ipHdrLen) net.ipId
        prot source destination)) mac ethTypeIp resolved := by
  rw [ipSendPacket, run_bind run_get, run_bind (run_set _)]
  unfold Resolves at resolves
  by_cases broadcast : ipIsBcast net.device destination.addr = true
  · obtain ⟨rfl, rfl⟩ := (if_pos broadcast).mp resolves
    rw [if_pos broadcast]
    rfl
  · have filled := (if_neg broadcast).mp resolves
    rw [if_neg broadcast]
    exact run_bind filled

theorem ipSendPacket_unresolved {poll : NetM Unit} {net after : Stack}
    {skb : TxBuff} {source destination : SockAddr} {prot : Nat}
    (bcast : ¬ipIsBcast net.device destination.addr = true)
    (missing : macFillFromArp poll destination.addr net.numbered =
      .ok (none, after)) :
    ipSendPacket poll skb source destination prot net = .ok (eIo, after) := by
  rw [ipSendPacket, run_bind run_get, run_bind (run_set _), if_neg bcast]
  exact run_bind missing

theorem sendto_eq {net resolved : Stack} {fd mac : Nat} {sock : Socket}
    {destination : SockAddr} (data : List UInt8)
    (opened : getSock net fd = some sock) (dgram : sock.type = .dgram)
    (allocates : ∀ ok ∈ net.mallocs, ok = true)
    (resolves : Resolves ndevPoll destination.addr
      (net.aimed fd destination).allocated.numbered mac resolved) :
    ∃ final, sendto ndevPoll fd data destination net =
        .ok (data.length, final) ∧
      final.sent = resolved.sent ++
        [(udpFrame resolved.device mac net.nextId net.ipId sock.source
          destination data).contents] := by
  have aiming : modifySock fd (fun sock =>
      { sock with destination := destination }) net =
        .ok ((), net.aimed fd destination) := rfl
  have still : ∀ ok ∈ (net.aimed fd destination).mallocs, ok = true :=
    allocates
  have sending := etherSendPacket_eq
    (udpFrame_room resolved.device mac net.nextId net.ipId sock.source
      destination data)
  rw [sendto, run_bind run_get]
  simp only [opened]
  rw [run_bind aiming, if_neg (by simp [dgram]), if_neg (by simp [dgram]),
    if_pos (.inr dgram), run_bind (skbAlloc_eq still _ data)]
  simp only [udpSendPacket, bind_assoc]
  exact ⟨_, run_bind ((ipSendPacket_eq resolves _ _ _).trans sending), rfl⟩

/-- The fields of a frame that holds a datagram. -/
structure Carries (memory : Nat → UInt8) (source destination : SockAddr)
    (data : List UInt8) : Prop where
  type : field memory 12 2 = ethTypeIp
  headerLen : ipHeaderLen memory 14 = 20
  totalLen : ipTotalLen memory 14 = data.length + 28
  prot : ipUpProt memory 14 = protUdp
  sourceAddr : ipSource memory 14 = source.addr
  sourcePort : field memory 34 2 = source.port
  destinationPort : dstPort memory 34 = destination.port
  payload : slice memory 42 data.length = data

theorem carries_of_slice {memory : Nat → UInt8} {device : Device}
    {mac ipId total : Nat} {source destination : SockAddr}
    {data padding : List UInt8} (sourceRange : source.InRange)
    (destinationRange : destination.InRange)
    (small : data.length + 42 ≤ 65535)
    (whole : slice memory 0 total =
      etherHeader device mac ethTypeIp ++
        (ipHeader (data.length + 28) ipId protUdp source destination ++
          (udpHeader data.length source destination ++ data)) ++ padding) :
    Carries memory source destination data := by
  -- a field is what stands between the bytes before and after it
  constructor
  · have read := field_of_parts (beBytes 6 mac ++ beBytes 6 device.mac) _
      (by decide : ethTypeIp < 256 ^ 2)
      (whole.trans (by simp [etherHeader]; rfl))
    simpa using read
  · have read := byte_of_parts (etherHeader device mac ethTypeIp) 0x45 _
      (whole.trans (by simp [ipHeader, ipHeaderWith]; rfl))
    rw [length_etherHeader] at read
    rw [ipHeaderLen, read]
    rfl
  · have read := field_of_parts (etherHeader device mac ethTypeIp ++ [0x45, 0])
      _ (by omega : data.length + 28 < 256 ^ 2)
      (whole.trans (by simp [ipHeader, ipHeaderWith]; rfl))
    simpa [ipTotalLen] using read
  · have read := byte_of_parts (etherHeader device mac ethTypeIp ++ [0x45, 0] ++
      beBytes 2 (data.length + 28) ++ beBytes 2 ipId ++ beBytes 2 0x4000 ++
      [64]) (UInt8.ofNat protUdp) _
      (whole.trans (by simp [ipHeader, ipHeaderWith]; rfl))
    simp only [List.length_append, length_etherHeader, length_beBytes,
      List.length_cons, List.length_nil] at read
    rw [ipUpProt, read]
    rfl
  · have read := field_of_parts (etherHeader device mac ethTypeIp ++
      [0x45, 0] ++ beBytes 2 (data.length + 28) ++ beBytes 2 ipId ++
      beBytes 2 0x4000 ++ [64, UInt8.ofNat protUdp] ++ checksumField
        (ipHeaderWith [0, 0] (data.length + 28) ipId protUdp source
          destination)) _ sourceRange.addr
      (whole.trans (by simp [ipHeader, ipHeaderWith]; rfl))
    simpa [ipSource] using read
  · have read := field_of_parts (etherHeader device mac ethTypeIp ++
      ipHeader (data.length + 28) ipId protUdp source destination) _
      sourceRange.port (whole.trans (by simp [udpHeader]; rfl))
    simpa using read
  · have read := field_of_parts (etherHeader device mac ethTypeIp ++
      ipHeader (data.length + 28) ipId protUdp source destination ++
      beBytes 2 source.port) _ destinationRange.port
      (whole.trans (by simp [udpHeader]; rfl))
    simpa [dstPort] using read
  · have read := slice_of_parts (etherHeader device mac ethTypeIp ++
      ipHeader (data.length + 28) ipId protUdp source destination ++
      udpHeader data.length source destination) data padding
      (whole.trans (by simp))
    simpa [length_udpHeader] using read

/-- The socket after a datagram was queued. -/
def Socket.receives (sock : Socket) (source : SockAddr) (skb : SockBuff) :
    Socket :=
  { sock with
    destination := { sock.destination with
      addr := source.addr
      port := source.port }
    rxQu := sock.rxQu ++ [skb] }

/-- The stack after a datagram was queued. -/
def Stack.receives (net : Stack) (fd : Nat) (source : SockAddr)
    (skb : SockBuff) : Stack :=
  (net.updateSock fd fun sock =>
    { sock with
      destination := { sock.destination with
        addr := source.addr
        port := source.port } }).updateSock fd fun sock =>
    { sock with rxQu := sock.rxQu ++ [skb] }

theorem receives_socks {net : Stack} {fd : Nat} {sock : Socket}
    (found : net.socks fd = some sock) (source : SockAddr) (skb : SockBuff) :
    (net.receives fd source skb).socks fd = some (sock.receives source skb) :=
  Stack.updateSock_self (Stack.updateSock_self found _) _

theorem udpLayerDeliver_eq {net : Stack} {memory : Nat → UInt8}
    {source destination : SockAddr} {data : List UInt8} {fd : Nat}
    (small : data.length + 42 ≤ 65535)
    (carries : Carries memory source destination data)
    (search : udpSearchSocket net destination.port = some fd) (id : Nat) :
    udpLayerDeliver ⟨id, memory, 34, data.length + 8⟩ 14 net =
      .ok (0, net.receives fd source ⟨id, memory, 42, data.length⟩) := by
  have payload : (⟨id, memory, 34, data.length + 8⟩ : SockBuff).pull
      udpHdrLen = ⟨id, memory, 42, data.length⟩ := by
    have size : sub16 (data.length + 8) 8 = data.length := by
      rw [sub16]
      omega
    simp only [SockBuff.pull, udpHdrLen, size]
  rw [udpLayerDeliver, run_bind run_get]
  simp only [payload, carries.destinationPort, search, carries.sourceAddr,
    carries.sourcePort]
  rfl

/-- A frame that holds a datagram is queued on the first socket of its port. -/
theorem netifRx_datagram {net : Stack} {received : Frame}
    {source destination : SockAddr} {data : List UInt8} {fd : Nat}
    (small : data.length + 42 ≤ 65535)
    (carries : Carries received.memory source destination data)
    (search : udpSearchSocket net destination.port = some fd)
    (poll : NetM Unit) (id : Nat) :
    netifRx poll (received.buffer id) net =
      .ok ((), net.receives fd source
        ⟨id, received.memory, 42, data.length⟩) := by
  have stripped : ((received.buffer id).pull ethHdrLen).pullIp =
      ⟨id, received.memory, 34, data.length + 8⟩ := by
    have size : sub16 (data.length + 28) 20 = data.length + 8 := by
      rw [sub16]
      omega
    simp only [SockBuff.pullIp, SockBuff.pull, Frame.buffer, ethHdrLen,
      Nat.zero_add, carries.headerLen, carries.totalLen, size]
  have delivered : ipLayerDeliver poll ((received.buffer id).pull ethHdrLen)
      net = .ok (protUdp, net.receives fd source
        ⟨id, received.memory, 42, data.length⟩) := by
    have place : ((received.buffer id).pull ethHdrLen).data = 14 := rfl
    have memory : ((received.buffer id).pull ethHdrLen).memory =
        received.memory := rfl
    rw [ipLayerDeliver]
    simp only [place, memory, carries.headerLen, carries.prot, stripped]
    rw [if_neg (by decide), if_pos trivial,
      run_bind (udpLayerDeliver_eq small carries search id)]
    rfl
  have type : field (received.buffer id).memory
      ((received.buffer id).data + 12) 2 = ethTypeIp := carries.type
  rw [netifRx]
  simp only [type]
  rw [if_neg (by decide), if_neg (by decide), if_pos trivial,
    run_bind delivered]
  rfl

/-- The next `recvfrom` takes the datagram, if nothing else is delivered to the
socket meanwhile. -/
theorem recvfrom_eq {poll : NetM Unit} {net polled : Stack} {fd : Nat}
    {sock : Socket} (opened : getSock net fd = some sock)
    (going : net.keys.head? ≠ some (some ctrlC))
    (polls : poll net.nextKey = .ok ((), polled))
    (found : polled.socks fd = some sock) {skb : SockBuff}
    {rest : List SockBuff} (first : sock.rxQu = skb :: rest)
    (fuel count : Nat) :
    recvfrom poll (fuel + 1) fd count net =
      .ok ((min skb.size count, skb.payload.take count, sock.destination),
        { polled.takeFirst fd rest with
          freed := polled.freed ++ [skb.id] }) := by
  have taken := sockRecvPacket_segment going polls found first fuel
  have still : sockAt fd (polled.takeFirst fd rest) =
      .ok ({ sock with rxQu := rest }, polled.takeFirst fd rest) :=
    sockAt_eq (Stack.updateSock_self found _)
  rw [recvfrom, run_bind run_get]
  simp only [opened]
  rw [run_bind taken]
  simp only
  rw [run_bind still]
  rfl

theorem getSock_of_search {net : Stack} {matching : Socket → Bool} {fd : Nat}
    (search : searchSocket net matching = some fd) (other : Stack) :
    getSock other fd = other.socks fd := by
  have range := List.mem_range'_1.mp (List.mem_of_find?_eq_some search)
  have valid : ¬(fd = 0 ∨ maxSockNum ≤ fd) := by
    simp only [maxSockNum] at range ⊢
    omega
  rw [getSock, if_neg valid]

/-- On every host whose first socket of the port has an empty queue, the frame
makes the next `recvfrom` return the data and the address of the sender; during
that call nothing else is delivered to the socket and `CTRL+C` is not typed. -/
def DeliversDatagram (received : Frame) (port : Nat) (data : List UInt8)
    (source : SockAddr) : Prop :=
  ∀ (receiver : Stack) (id target : Nat) (bound : Socket),
    udpSearchSocket receiver port = some target →
    receiver.socks target = some bound → bound.rxQu = [] →
    ∃ after, netifRx ndevPoll (received.buffer id) receiver =
        .ok ((), after) ∧
      after.keys = receiver.keys ∧ after.wire = receiver.wire ∧
      ∀ (polled : Stack) (fuel count : Nat), data.length ≤ count →
        after.keys.head? ≠ some (some ctrlC) →
        ndevPoll after.nextKey = .ok ((), polled) →
        polled.socks target = after.socks target →
        ∃ address final, recvfrom ndevPoll (fuel + 1) target count after =
            .ok ((data.length, data, address), final) ∧
          address.addr = source.addr ∧ address.port = source.port

theorem Carries.delivers {received : Frame} {source destination : SockAddr}
    {data : List UInt8} (small : data.length + 42 ≤ 65535)
    (carries : Carries received.memory source destination data) :
    DeliversDatagram received destination.port data source := by
  intro receiver id target bound search found empty
  refine ⟨_, netifRx_datagram small carries search ndevPoll id, rfl, rfl, ?_⟩
  intro polled fuel count enough going polls same
  have queued := receives_socks found source
    ⟨id, received.memory, 42, data.length⟩
  have opened := (getSock_of_search search _).trans queued
  have first : (bound.receives source
      ⟨id, received.memory, 42, data.length⟩).rxQu =
      [⟨id, received.memory, 42, data.length⟩] := by
    rw [Socket.receives, empty]
    rfl
  have outcome := recvfrom_eq opened going polls (same.trans queued) first
    fuel count
  have all : data.take count = data := List.take_of_length_le enough
  simp only [SockBuff.payload, carries.payload, all] at outcome
  have size : (min data.length count : Int) = data.length := by omega
  rw [size] at outcome
  exact ⟨_, _, outcome, rfl, rfl⟩

/-- What `sendto` hands to the device is received by the first socket of the
port, whatever is appended to it. -/
theorem recvfrom_sendto (sender resolved : Stack) (fd mac : Nat)
    (sock : Socket) (data : List UInt8) (destination : SockAddr)
    (opened : getSock sender fd = some sock) (dgram : sock.type = .dgram)
    (sourceRange : sock.source.InRange)
    (destinationRange : destination.InRange)
    (small : data.length + 42 ≤ 65535)
    (allocates : ∀ ok ∈ sender.mallocs, ok = true)
    (resolves : Resolves ndevPoll destination.addr
      (sender.aimed fd destination).allocated.numbered mac resolved) :
    ∃ (frame : TxBuff) (final : Stack),
      sendto ndevPoll fd data destination sender = .ok (data.length, final) ∧
      final.sent = resolved.sent ++ [frame.contents] ∧ frame.room = 0 ∧
      ∀ (received : Frame) (padding : List UInt8),
        slice received.memory 0 received.length = frame.contents ++ padding →
        DeliversDatagram received destination.port data sock.source := by
  obtain ⟨final, outcome, handed⟩ :=
    sendto_eq data opened dgram allocates resolves
  refine ⟨_, final, outcome, handed, udpFrame_room _ _ _ _ _ _ _, ?_⟩
  intro received padding whole
  rw [udpFrame_contents _ _ _ _ _ _ small] at whole
  exact (carries_of_slice sourceRange destinationRange small whole).delivers
    small

/-- A host with a datagram socket of port 1024. -/
def talker : Stack :=
  { knownHost with
    socks := fun fd => if fd = 1 then
        some { boundSocket with source := ⟨2, 1024, 0xc0a80001⟩ }
      else none }

theorem slice_ofBytes (bytes : List UInt8) :
    slice (Frame.ofBytes bytes).memory 0 (Frame.ofBytes bytes).length =
      bytes := by
  apply List.ext_getElem
  · simp [Frame.ofBytes]
  · intro index left right
    simp [slice, Frame.ofBytes, right]

/-- Two bytes to the port of a host, in a frame with two bytes of padding. -/
theorem recvfrom_sendto_pair :
    ∃ (frame : TxBuff) (sent after final : Stack) (address : SockAddr),
      sendto ndevPoll 1 [104, 105] ⟨2, 69, 0xc0a80002⟩ talker =
        .ok (2, sent) ∧ frame.room = 0 ∧
      netifRx ndevPoll ((Frame.ofBytes (frame.contents ++ [0, 0])).buffer 0)
        oneSocket = .ok ((), after) ∧
      recvfrom ndevPoll 1 1 100 after =
        .ok ((2, [104, 105], address), final) ∧
      address.addr = 0xc0a80001 ∧ address.port = 1024 := by
  obtain ⟨frame, sent, outcome, -, room, delivers⟩ := recvfrom_sendto talker _
    1 0x020000000002 _ [104, 105] ⟨2, 69, 0xc0a80002⟩ rfl rfl
    ⟨by decide, by decide⟩ ⟨by decide, by decide⟩ (by decide) nofun rfl
  obtain ⟨after, received, keys, wire, next⟩ :=
    delivers _ [0, 0] (slice_ofBytes (frame.contents ++ [0, 0]))
      oneSocket 0 1 boundSocket (by decide) rfl rfl
  obtain ⟨address, final, returned, addr, port⟩ := next after.nextKey 0 100
    (by decide) (by rw [keys]; decide) (ndevPoll_idle wire) rfl
  exact ⟨frame, sent, after, final, address, outcome, room, received, returned,
    addr, port⟩

end Witos.Net
