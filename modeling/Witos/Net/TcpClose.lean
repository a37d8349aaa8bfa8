import Witos.Net.UdpRoundTrip

/-!
# Closing by the peer

What `tcp_layer_deliver` does with a `FIN` for an established socket.
-/

namespace Witos.Net

open Library Library.Effect

/-- The data of a segment, behind its TCP header. -/
def SockBuff.segmentData (skb : SockBuff) : List UInt8 :=
  (skb.pull (tcpHeaderLen skb.memory skb.data)).payload

/-- The sequence number behind the data of a `FIN` and the `FIN` itself. -/
def SockBuff.endOfFin (skb : SockBuff) : Nat :=
  add32 (tcpSeqNum skb.memory skb.data) (skb.segmentData.length + 1)

/-- What the segment of `tcp_send_ack` acknowledges. -/
def acknowledged (sock : Socket) (id : Nat) : Nat :=
  fieldAt (tcpSegment ⟨id, ethHdrLen + ipHdrLen + tcpHdrLen, [], 0⟩ sock
    flgAck []).contents 8 4

/-- The data is queued, the socket is in `TCPS_CLOSE_WAIT`, and what it
acknowledges from now on includes the data and the `FIN`.  Nothing else has
changed but that the buffer may be freed. -/
structure ClosedByPeer (skb : SockBuff) (fd : Nat) (net closed : Stack) :
    Prop where
  queued : closed.queued fd = net.queued fd ++ skb.segmentData
  socket : ∃ sock, closed.socks fd = some sock ∧ sock.state = .closeWait ∧
    ∀ id, acknowledged sock id = skb.endOfFin
  only : ∃ sock freed, closed =
    { net.updateSock fd (fun _ => sock) with freed := freed }

/-- A frame for the peer of a socket whose segment acknowledges a number. -/
structure Acknowledges (sock : Socket) (number : Nat) (frame : List UInt8) :
    Prop where
  type : fieldAt frame 12 2 = ethTypeIp
  prot : fieldAt frame 23 1 = protTcp
  receiver : fieldAt frame 30 4 = sock.destination.addr % 2 ^ 32
  sourcePort : fieldAt frame 34 2 = sock.source.port % 2 ^ 16
  destinationPort : fieldAt frame 36 2 = sock.destination.port % 2 ^ 16
  number : fieldAt frame 42 4 = number
  flags : fieldAt frame 47 1 = flgAck

/-- The delivery returns, and the last frame that it hands to the device is the
acknowledgement: where its buffer is allocated and the peer is found. -/
def SendsAck (poll : NetM Unit) (skb : SockBuff) (fd : Nat)
    (net closed : Stack) : Prop :=
  ∀ sock mac resolved, closed.socks fd = some sock →
    closed.allocates = true →
    Resolves poll sock.destination.addr closed.allocated.numbered mac
      resolved →
    ∃ final frame, tcpLayerDeliver poll skb net = .ok (0, final) ∧
      final.sent = resolved.sent ++ [frame] ∧ final.socks = resolved.socks ∧
      Acknowledges sock skb.endOfFin frame

/-- The delivery of the segment is the close by the peer, followed by the
acknowledgement that is sent. -/
def ClosesByPeer (skb : SockBuff) (fd : Nat) (net : Stack) : Prop :=
  ∀ poll, ∃ closed, ClosedByPeer skb fd net closed ∧
    tcpLayerDeliver poll skb net =
      (tcpSendAck poll fd >>= fun _ => pure 0 : NetM Int) closed ∧
    SendsAck poll skb fd net closed

theorem acknowledged_eq (sock : Socket) (id : Nat) :
    acknowledged sock id = sock.ackNum % 2 ^ 32 := by
  let before := beBytes 2 sock.source.port ++
    beBytes 2 sock.destination.port ++ beBytes 4 sock.seqNum
  have parts (checksum : List UInt8) :
      tcpHeaderWith checksum sock flgAck [] ++ [] =
        before ++ (beBytes 4 sock.ackNum ++ ([0x50, 16] ++
          (beBytes 2 457 ++ (checksum ++ [0, 0])))) := by
    simp only [tcpHeaderWith, before, List.append_assoc, List.append_nil]
    rfl
  have inside : before.length + (beBytes 4 sock.ackNum).length ≤ 20 := by
    simp [before]
  have size (checksum : List UInt8) (two : checksum.length = 2) :
      add16 0 (tcpHeaderWith checksum sock flgAck []).length = 20 := by
    simp [tcpHeaderWith, two, add16]
  simp only [acknowledged, TxBuff.contents, tcpSegment, TxBuff.push, parts]
  rw [size (pseudoCalculateChecksum sock _)
    (length_pseudoCalculateChecksum sock _)]
  exact (fieldAt_take before _ _ inside).trans (beValue_beBytes 4 _)

/-- The frame of an acknowledgement. -/
def ackFrame (device : Device) (mac id ipId : Nat) (sock : Socket) :
    List UInt8 :=
  etherFrame device mac ethTypeIp
    ((tcpSegment ⟨id, (ethHdrLen + ipHdrLen + tcpHdrLen : Nat), [], 0⟩ sock
      flgAck []).push (ipHeader 40 ipId protTcp sock.source sock.destination))

theorem length_ackFrame (device : Device) (mac id ipId : Nat)
    (sock : Socket) : (ackFrame device mac id ipId sock).length = 54 := by
  simp [ackFrame, etherFrame, TxBuff.contents, TxBuff.push, tcpSegment,
    tcpHeaderWith, add16]

theorem acknowledges_ackFrame (device : Device) (mac id ipId : Nat)
    (sock : Socket) :
    Acknowledges sock (sock.ackNum % 2 ^ 32)
      (ackFrame device mac id ipId sock) := by
  have long := Nat.le_of_eq (length_ackFrame device mac id ipId sock).symm
  let ether := etherHeader device mac ethTypeIp
  let ports := ether ++
    ipHeader 40 ipId protTcp sock.source sock.destination
  let numbers := ports ++ beBytes 2 sock.source.port ++
    beBytes 2 sock.destination.port ++ beBytes 4 sock.seqNum
  constructor
  · exact etherFrame_type long
  · exact etherFrame_prot long
  · have read := fieldAt_etherFrame
      (ether ++ [0x45, 0] ++ beBytes 2 40 ++ beBytes 2 ipId ++
        beBytes 2 0x4000 ++ [64, UInt8.ofNat protTcp] ++
        checksumField (ipHeaderWith [0, 0] 40 ipId protTcp sock.source
          sock.destination) ++ beBytes 4 sock.source.addr)
      (beBytes 4 sock.destination.addr) _ long (by simp [ether])
      (by simp [ether, TxBuff.push, ipHeader, ipHeaderWith]; rfl)
    simpa [ackFrame, ether, beValue_beBytes] using read
  · have read := fieldAt_etherFrame ports (beBytes 2 sock.source.port) _ long
      (by simp [ports, ether])
      (by simp [ports, ether, TxBuff.push, tcpSegment, tcpHeaderWith]; rfl)
    simpa [ackFrame, ports, ether, beValue_beBytes] using read
  · have read := fieldAt_etherFrame (ports ++ beBytes 2 sock.source.port)
      (beBytes 2 sock.destination.port) _ long (by simp [ports, ether])
      (by simp [ports, ether, TxBuff.push, tcpSegment, tcpHeaderWith]; rfl)
    simpa [ackFrame, ports, ether, beValue_beBytes] using read
  · have read := fieldAt_etherFrame numbers (beBytes 4 sock.ackNum) _ long
      (by simp [numbers, ports, ether])
      (by
        simp [numbers, ports, ether, TxBuff.push, tcpSegment, tcpHeaderWith]
        rfl)
    simpa [ackFrame, numbers, ports, ether, beValue_beBytes] using read
  · have read := fieldAt_etherFrame
      (numbers ++ beBytes 4 sock.ackNum ++
        [UInt8.ofNat ((tcpHdrLen + 0) / 4 % 16 * 16)])
      [UInt8.ofNat flgAck] _ long (by simp [numbers, ports, ether])
      (by
        simp [numbers, ports, ether, TxBuff.push, tcpSegment, tcpHeaderWith]
        rfl)
    simpa [ackFrame, numbers, ports, ether, beValue, flgAck] using read

theorem tcpSendAck_eq {poll : NetM Unit} {net resolved : Stack} {fd mac : Nat}
    {sock : Socket} (entry : net.socks fd = some sock)
    (allocates : net.allocates = true)
    (resolves : Resolves poll sock.destination.addr net.allocated.numbered mac
      resolved) :
    ∃ final, tcpSendAck poll fd net = .ok (0, final) ∧
      final.sent = resolved.sent ++
        [ackFrame resolved.device mac net.nextId net.ipId sock] ∧
      final.socks = resolved.socks := by
  have entry : net.allocated.socks fd = some sock := entry
  have buffer : skbAlloc (ethHdrLen + ipHdrLen + tcpHdrLen) [] net =
      .ok (some ⟨net.nextId, (ethHdrLen + ipHdrLen + tcpHdrLen : Nat), [], 0⟩,
        net.allocated) := skbAlloc_some allocates _ []
  obtain ⟨segment, isSegment⟩ : ∃ segment, segment = tcpSegment
    ⟨net.nextId, (ethHdrLen + ipHdrLen + tcpHdrLen : Nat), [], 0⟩ sock flgAck
      [] := ⟨_, rfl⟩
  have size : add16 segment.size ipHdrLen = 40 := by
    simp [isSegment, tcpSegment, TxBuff.push, tcpHeaderWith, add16, ipHdrLen]
  have room : ((segment.push (ipHeader 40 net.ipId protTcp sock.source
      sock.destination)).push
        (etherHeader resolved.device mac ethTypeIp)).room = 0 := by
    simp [isSegment, tcpSegment, TxBuff.push, tcpHeaderWith, ethHdrLen,
      ipHdrLen, tcpHdrLen]
  have handed := ipSendPacket_eq resolves segment sock.source protTcp
  rw [size, show net.allocated.ipId = net.ipId from rfl,
    etherSendPacket_eq room] at handed
  have data : (flgAck.testBit 1 || flgAck.testBit 0) = false := by decide
  have push : flgAck.testBit 3 = false := by decide
  unfold tcpSendAck tcpSendPacket
  rw [run_bind buffer]
  simp only [bind_assoc, data, push]
  rw [run_bind (sockAt_eq entry), ← isSegment, run_bind handed, isSegment]
  exact ⟨_, rfl, rfl, rfl⟩

section Delivery

variable {skb : SockBuff} {fd : Nat} {net : Stack} {sock : Socket}

/-- The segment without its header. -/
def SockBuff.pullTcp (skb : SockBuff) : SockBuff :=
  skb.pull (tcpHeaderLen skb.memory skb.data)

theorem tcpLayerDeliver_fin
    (found : tcpSearchSocket net (dstPort skb.memory skb.data) = some fd)
    (fin : flagCase (tcpFlags skb.memory skb.data) = .fin)
    (poll : NetM Unit) :
    tcpLayerDeliver poll skb net =
      (tcpDeliverFin poll skb.pullTcp skb.data fd >>=
        fun _ => pure 0 : NetM Int) net := by
  have same : dstPort (skb.pull (tcpHeaderLen skb.memory skb.data)).memory
      skb.data = dstPort skb.memory skb.data := rfl
  have flags : flagCase (tcpFlags
      (skb.pull (tcpHeaderLen skb.memory skb.data)).memory skb.data) = .fin :=
    fin
  unfold tcpLayerDeliver
  rw [run_bind run_get, same, found, flags]
  rfl

/-- The state when a `FIN` without data is acknowledged. -/
def bareFin (skb : SockBuff) (fd : Nat) (net : Stack) : Stack :=
  let acked := net.updateSock fd (fun sock =>
    { sock with ackNum := add32 (tcpSeqNum skb.memory skb.data) 1 })
  let closed := acked.updateSock fd (fun sock =>
    { sock with state := .closeWait })
  { closed with freed := closed.freed ++ [skb.id] }

/-- The state when the data of a `FIN` is acknowledged. -/
def dataFin (skb : SockBuff) (fd : Nat) (net : Stack) : Stack :=
  let acked := net.updateSock fd (fun sock =>
    { sock with
      ackNum := add32 (tcpSeqNum skb.memory skb.data) skb.pullTcp.size })
  acked.updateSock fd (fun sock =>
    { sock with rxQu := sock.rxQu ++ [skb.pullTcp] })

theorem tcpDeliverFin_bare (entry : net.socks fd = some sock)
    (established : sock.state = .established)
    (bare : skb.pullTcp.size = 0) (poll : NetM Unit) :
    tcpDeliverFin poll skb.pullTcp skb.data fd net =
      (tcpSendAck poll fd >>= fun _ => pure () : NetM Unit)
        (bareFin skb fd net) := by
  let acked := net.updateSock fd (fun sock =>
    { sock with ackNum := add32 (tcpSeqNum skb.memory skb.data) 1 })
  have first : setAckNum fd
      (add32 (tcpSeqNum skb.pullTcp.memory skb.data) 1) net =
        .ok ((), acked) := rfl
  have second : sockAt fd acked = .ok (_, acked) :=
    sockAt_eq (Stack.updateSock_self entry _)
  unfold tcpDeliverFin
  rw [if_neg (by omega), run_bind first, run_bind second]
  simp only [established]
  rfl

theorem tcpDeliverFin_data (data : 0 < skb.pullTcp.size)
    (poll : NetM Unit) :
    tcpDeliverFin poll skb.pullTcp skb.data fd net =
      (tcpSendAck poll fd >>= fun _ => pure () : NetM Unit)
        (dataFin skb fd net) := by
  unfold tcpDeliverFin
  rw [if_pos data]
  rfl

theorem closedByPeer_bareFin (entry : net.socks fd = some sock)
    (bare : skb.pullTcp.size = 0) :
    ClosedByPeer skb fd net (bareFin skb fd net) where
  queued := by
    have empty : skb.segmentData = [] := by
      rw [SockBuff.segmentData, SockBuff.payload]
      exact congrArg (slice _ _) bare
    have kept : (bareFin skb fd net).queued fd = net.queued fd := by
      simp [Stack.queued, bareFin, Stack.updateSock, entry]
    rw [empty, List.append_nil, kept]
  socket := by
    have empty : skb.segmentData.length = 0 := by
      rw [SockBuff.segmentData, SockBuff.payload, length_slice]
      exact bare
    refine ⟨_, Stack.updateSock_self (Stack.updateSock_self entry _) _, rfl,
      ?_⟩
    intro id
    rw [acknowledged_eq, SockBuff.endOfFin, empty]
    exact Nat.mod_mod _ _
  only := by
    refine ⟨{ sock with
      ackNum := add32 (tcpSeqNum skb.memory skb.data) 1
      state := .closeWait }, net.freed ++ [skb.id], ?_⟩
    have socks : (bareFin skb fd net).socks = fun other =>
        if other = fd then (net.socks fd).map (fun _ =>
          { sock with
            ackNum := add32 (tcpSeqNum skb.memory skb.data) 1
            state := .closeWait })
        else net.socks other := by
      funext other
      by_cases same : other = fd
      · simp [bareFin, Stack.updateSock, same, entry]
      · simp [bareFin, Stack.updateSock, same]
    simp only [Stack.updateSock]
    rw [← socks]
    rfl

/-- The number behind a `FIN` without data is acknowledged. -/
theorem sendsAck_bareFin {poll : NetM Unit}
    (entry : net.socks fd = some sock) (bare : skb.pullTcp.size = 0)
    (outcome : tcpLayerDeliver poll skb net =
      (tcpSendAck poll fd >>= fun _ => pure 0 : NetM Int)
        (bareFin skb fd net)) :
    SendsAck poll skb fd net (bareFin skb fd net) := by
  intro closing mac resolved closed allocates resolves
  obtain ⟨final, acked, sent, socks⟩ :=
    tcpSendAck_eq closed allocates resolves
  obtain ⟨after, socket, -, number⟩ := (closedByPeer_bareFin entry bare).socket
  have same : after = closing := Option.some.inj (socket.symm.trans closed)
  rw [same] at number
  have number : closing.ackNum % 2 ^ 32 = skb.endOfFin := by
    rw [← acknowledged_eq closing 0]
    exact number 0
  refine ⟨final, _, ?_, sent, socks, number ▸ acknowledges_ackFrame _ _ _ _ _⟩
  rw [outcome, run_bind acked]
  rfl

/-- Sending an acknowledgement leaves the states of the sockets alone when no
frame arrives in between. -/
def SameStates (net final : Stack) : Prop :=
  ∀ fd, (final.socks fd).map Socket.state = (net.socks fd).map Socket.state

theorem sameStates_rules :
    SendRules (fun _ => True) SameStates (fun _ => True) (fun _ => True) where
  chained := {
    refl := fun _ _ => rfl
    trans := fun before after fd => (after fd).trans (before fd)
    inv := fun _ _ => trivial }
  count _ _ _ _ _ := rfl
  allocate _ _ := rfl
  fresh _ _ := trivial
  transmit _ _ _ _ _ := rfl
  free _ _ _ _ := rfl
  advance net fd seqNum other := by
    by_cases same : other = fd
    · subst same
      cases found : net.socks other with
      | none => simp [Stack.updateSock, found]
      | some sock => simp [Stack.updateSock, found]
    · rw [Stack.updateSock_of_ne net same]
  arp _ _ _ := trivial

theorem tcpSendAck_state (entry : net.socks fd = some sock) :
    ∃ result final, tcpSendAck (pure ()) fd net = .ok (result, final) ∧
      (final.socks fd).map Socket.state = some sock.state := by
  have polls : Keeps (fun _ => True) SameStates (fun _ => False)
      (pure () : NetM Unit) := Keeps.pure sameStates_rules.chained ()
  have missing : net.socks fd = none → False := by
    rw [entry]
    exact Option.some_ne_none sock
  have keeps := sameStates_rules.tcpSendAck_wp polls fd missing trivial
    (fun _ _ _ _ _ _ _ _ => trivial)
  unfold wp at keeps
  cases outcome : tcpSendAck (pure ()) fd net with
  | error reason => simp [outcome] at keeps
  | ok pair =>
      rw [outcome] at keeps
      exact ⟨pair.1, pair.2, rfl, by rw [keeps fd, entry]; rfl⟩

section Arrival

variable
  (found : tcpSearchSocket net (dstPort skb.memory skb.data) = some fd)
  (entry : net.socks fd = some sock) (established : sock.state = .established)
  (fin : flagCase (tcpFlags skb.memory skb.data) = .fin)

include found fin in
/-- What a `FIN` does before it is acknowledged. -/
theorem tcpLayerDeliver_eq {poll : NetM Unit} {before : Stack}
    (delivers : tcpDeliverFin poll skb.pullTcp skb.data fd net =
      (tcpSendAck poll fd >>= fun _ => pure () : NetM Unit) before) :
    tcpLayerDeliver poll skb net =
      (tcpSendAck poll fd >>= fun _ => pure 0 : NetM Int) before := by
  rw [tcpLayerDeliver_fin found fin, run_bind_congr delivers, bind_assoc]
  rfl

include found entry established fin

theorem closesByPeer_of_bare (bare : skb.pullTcp.size = 0) :
    ClosesByPeer skb fd net := fun poll =>
  have outcome := tcpLayerDeliver_eq found fin
    (tcpDeliverFin_bare entry established bare poll)
  ⟨bareFin skb fd net, closedByPeer_bareFin entry bare, outcome,
    sendsAck_bareFin entry bare outcome⟩

/-- The data of a `FIN` is acknowledged without the `FIN`, and the socket stays
established. -/
theorem not_closesByPeer_of_data (data : 0 < skb.pullTcp.size) :
    ¬ClosesByPeer skb fd net := by
  intro closes
  obtain ⟨closed, ⟨_, ⟨after, socket, closeWait, _⟩, _⟩, outcome, _⟩ :=
    closes (pure ())
  have kept : (dataFin skb fd net).socks fd = some _ :=
    Stack.updateSock_self (Stack.updateSock_self entry _) _
  obtain ⟨_, final, acked, state⟩ := tcpSendAck_state kept
  obtain ⟨_, final', acked', state'⟩ := tcpSendAck_state socket
  rw [tcpLayerDeliver_eq found fin (tcpDeliverFin_data data (pure ())),
    run_bind acked, run_bind acked'] at outcome
  have same : final = final' := congrArg Prod.snd (Except.ok.inj outcome)
  rw [same, state', closeWait] at state
  rw [established] at state
  cases state

end Arrival

end Delivery

/-- A segment of the peer with a `FIN` is delivered to an established socket as
the close of the connection exactly when it carries no data. -/
theorem closesByPeer_iff {skb : SockBuff} {fd : Nat} {net : Stack}
    {sock : Socket}
    (found : tcpSearchSocket net (dstPort skb.memory skb.data) = some fd)
    (entry : net.socks fd = some sock)
    (established : sock.state = .established)
    (flags : tcpFlags skb.memory skb.data = flgFin ∨
      tcpFlags skb.memory skb.data = flgFin + flgAck ∨
      tcpFlags skb.memory skb.data = flgFin + flgAck + flgPsh) :
    ClosesByPeer skb fd net ↔ skb.segmentData = [] := by
  have fin : flagCase (tcpFlags skb.memory skb.data) = .fin := by
    rcases flags with only | acks | pushes
    · rw [only]
      rfl
    · rw [acks]
      rfl
    · rw [pushes]
      rfl
  have length : skb.segmentData.length = skb.pullTcp.size :=
    length_slice _ _ _
  rw [← List.length_eq_zero_iff, length]
  constructor
  · intro closes
    by_contra data
    exact not_closesByPeer_of_data found entry established fin
      (Nat.pos_of_ne_zero data) closes
  · exact closesByPeer_of_bare found entry established fin

/-- A segment from port 80 to port 1000, as TCP receives it. -/
def peerSegment (flags : UInt8) (data : List UInt8) : SockBuff :=
  (((segmentFrame flags 10 data).buffer 0).pull ethHdrLen).pullIp

theorem closesByPeer_iff_fin :
    ClosesByPeer (peerSegment 0x11 []) 1 (connected []) :=
  (closesByPeer_iff rfl rfl rfl (.inr (.inl (by decide)))).mpr
    (by decide)

/-- The last data of the peer comes with its `FIN`. -/
theorem not_closesByPeer_push :
    ¬∀ skb fd net sock,
      tcpSearchSocket net (dstPort skb.memory skb.data) = some fd →
      net.socks fd = some sock → sock.state = .established →
      tcpSeqNum skb.memory skb.data = sock.ackNum →
      (tcpFlags skb.memory skb.data = flgFin ∨
        tcpFlags skb.memory skb.data = flgFin + flgAck ∨
        tcpFlags skb.memory skb.data = flgFin + flgAck + flgPsh) →
      ClosesByPeer skb fd net := by
  intro always
  refine not_closesByPeer_of_data rfl rfl rfl (by decide) (by decide)
    (always (peerSegment 0x19 [7]) 1 (connected []) _ rfl rfl rfl
      (by decide) (.inr (.inr (by decide))))

end Witos.Net
