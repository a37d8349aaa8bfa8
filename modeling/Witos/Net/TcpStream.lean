import Witos.Net.ReceiveRules

/-!
# The byte stream of a TCP socket

What a stream socket queues and acknowledges while its peer sends data.  The
receiving side of the source keeps no record of the sequence number it expects:
every data segment is queued when it arrives and acknowledged with its own
sequence number and length.  The events of a socket, segments that were queued
and acknowledgements that were sent, are read off the frames that the device
receives and sends, also while an address is being resolved.
-/

namespace Witos.Net

open Library Library.Effect

/-- A data segment: its sequence number and its data. -/
structure Arrival where
  seqNum : Nat
  data : List UInt8
  deriving DecidableEq

def Arrival.ackNum (arrival : Arrival) : Nat :=
  add32 arrival.seqNum arrival.data.length

/-- What the segment leaves on the queue of its socket, if it is data. -/
def SockBuff.arrival (segment : SockBuff) : Option Arrival :=
  let pulled := segment.pull (tcpHeaderLen segment.memory segment.data)
  if flagCase (tcpFlags segment.memory segment.data) = .ack ∧
      pulled.size = 0 then none
  else some ⟨tcpSeqNum segment.memory segment.data, pulled.payload⟩

/-- The segment for a port in a frame. -/
def Frame.segmentFor (frame : Frame) (port : Nat) : Option SockBuff :=
  (segmentOf (frame.buffer 0)).filter (fun segment =>
    dstPort segment.memory segment.data = port)

/-- The data for a port in an entry of the wire. -/
def arrivalFor (port : Nat) (entry : Option Frame) : Option Arrival :=
  (entry.bind (fun frame => frame.segmentFor port)).bind SockBuff.arrival

/-- The peer sends nothing but segments with the flags `ACK` and `ACK | PSH` to
the port. -/
def SendsData (port : Nat) (frame : Frame) : Prop :=
  ∀ segment, frame.segmentFor port = some segment →
    flagCase (tcpFlags segment.memory segment.data) = .ack ∨
      flagCase (tcpFlags segment.memory segment.data) = .data

/-- The acknowledgement number of a frame that was sent from a port. -/
def ackFrom (port : Nat) (frame : List UInt8) : Option Nat :=
  if 54 ≤ frame.length ∧ fieldAt frame 12 2 = ethTypeIp ∧
      fieldAt frame 23 1 = protTcp ∧ fieldAt frame 34 2 = port then
    some (fieldAt frame 42 4)
  else none

inductive Event where
  | queued (arrival : Arrival)
  | acked (ackNum : Nat)

def Event.arrival : Event → Option Arrival
  | .queued arrival => some arrival
  | .acked _ => none

def Event.ack : Event → Option Nat
  | .queued _ => none
  | .acked ackNum => some ackNum

/-- Every acknowledgement is that of a segment queued before it, or in
`known`. -/
def Justified : List Nat → List Event → Prop
  | _, [] => True
  | known, .queued arrival :: events =>
      Justified (arrival.ackNum :: known) events
  | known, .acked ackNum :: events =>
      ackNum ∈ known ∧ Justified known events

theorem Justified.mono {known larger : List Nat} {events : List Event}
    (justified : Justified known events) (subset : known ⊆ larger) :
    Justified larger events := by
  induction events generalizing known larger with
  | nil => trivial
  | cons event events induction =>
      cases event with
      | queued arrival =>
          exact induction justified (List.cons_subset_cons _ subset)
      | acked ackNum =>
          exact ⟨subset justified.1, induction justified.2 subset⟩

theorem Justified.append {known : List Nat} {first second : List Event}
    (before : Justified known first) (after : Justified known second) :
    Justified known (first ++ second) := by
  induction first generalizing known with
  | nil => exact after
  | cons event first induction =>
      cases event with
      | queued arrival =>
          exact induction before
            (after.mono (List.subset_cons_self _ known))
      | acked ackNum => exact ⟨before.1, induction before.2 after⟩

/-- The bytes on the receive queue of a socket. -/
def Stack.queued (net : Stack) (fd : Nat) : List UInt8 :=
  (net.socks fd).elim [] (fun sock => sock.rxQu.flatMap SockBuff.payload)

/-- The events of a socket between two states. -/
structure Happened (port fd : Nat) (events : List Event) (net final : Stack) :
    Prop where
  received : ∃ entries, net.wire = entries ++ final.wire ∧
    events.filterMap Event.arrival = entries.filterMap (arrivalFor port)
  queued : final.queued fd = net.queued fd ++
    (events.filterMap Event.arrival).flatMap Arrival.data
  sent : ∃ frames, final.sent = net.sent ++ frames ∧
    events.filterMap Event.ack = frames.filterMap (ackFrom port)

/-- Sockets are still found under the same ports, and what happened to the
socket is justified. -/
structure Streams (port fd : Nat) (known : List Nat) (net final : Stack) :
    Prop where
  search : ∀ other, tcpSearchSocket final other = tcpSearchSocket net other
  events : ∃ events, Justified known events ∧
    Happened port fd events net final

/-- The socket is found under its port and its peer sends data. -/
structure Listening (port fd : Nat) (net : Stack) : Prop where
  found : tcpSearchSocket net port = some fd
  wire : ∀ frame, some frame ∈ net.wire → SendsData port frame

theorem Happened.trans {port fd : Nat} {first second : List Event}
    {net middle final : Stack} (before : Happened port fd first net middle)
    (after : Happened port fd second middle final) :
    Happened port fd (first ++ second) net final where
  received := by
    obtain ⟨entries, wire, arrivals⟩ := before.received
    obtain ⟨more, wire', arrivals'⟩ := after.received
    refine ⟨entries ++ more, ?_, ?_⟩
    · rw [wire, wire', List.append_assoc]
    · simp only [List.filterMap_append, arrivals, arrivals']
  queued := by
    rw [after.queued, before.queued, List.filterMap_append,
      List.flatMap_append, List.append_assoc]
  sent := by
    obtain ⟨frames, sent, acks⟩ := before.sent
    obtain ⟨more, sent', acks'⟩ := after.sent
    refine ⟨frames ++ more, ?_, ?_⟩
    · rw [sent', sent, List.append_assoc]
    · simp only [List.filterMap_append, acks, acks']

theorem happened_nil {port fd : Nat} {net final : Stack}
    (wire : final.wire = net.wire)
    (queued : final.queued fd = net.queued fd)
    (sent : final.sent = net.sent) : Happened port fd [] net final where
  received := ⟨[], by simp [wire], rfl⟩
  queued := by simp [queued]
  sent := ⟨[], by simp [sent], rfl⟩

theorem streams_quiet {port fd : Nat} {known : List Nat} {net final : Stack}
    (search : ∀ other, tcpSearchSocket final other =
      tcpSearchSocket net other)
    (wire : final.wire = net.wire)
    (queued : final.queued fd = net.queued fd)
    (sent : final.sent = net.sent) : Streams port fd known net final :=
  ⟨search, [], trivial, happened_nil wire queued sent⟩

theorem streams_chained (port fd : Nat) (known : List Nat) :
    Chained (Listening port fd) (Streams port fd known) where
  refl _ := streams_quiet (fun _ => rfl) rfl rfl rfl
  trans := by
    intro first second third before after
    obtain ⟨events, justified, happened⟩ := before.events
    obtain ⟨more, justified', happened'⟩ := after.events
    exact ⟨fun other => (after.search other).trans (before.search other),
      events ++ more, justified.append justified', happened.trans happened'⟩
  inv := by
    intro net final related listening
    obtain ⟨_, _, happened⟩ := related.events
    obtain ⟨entries, wire, _⟩ := happened.received
    refine ⟨(related.search port).trans listening.found, ?_⟩
    intro frame member
    refine listening.wire frame ?_
    rw [wire]
    exact List.mem_append_right _ member

theorem Streams.mono {port fd : Nat} {known larger : List Nat}
    {net final : Stack} (streams : Streams port fd known net final)
    (subset : known ⊆ larger) : Streams port fd larger net final := by
  obtain ⟨events, justified, happened⟩ := streams.events
  exact ⟨streams.search, events, justified.mono subset, happened⟩

theorem tcpSearchSocket_updateSock (net : Stack) (fd port : Nat)
    {change : Socket → Socket}
    (type : ∀ sock, (change sock).type = sock.type)
    (source : ∀ sock, (change sock).source = sock.source) :
    tcpSearchSocket (net.updateSock fd change) port =
      tcpSearchSocket net port := by
  have same : ∀ other, ((net.updateSock fd change).socks other).any
      (fun sock => sock.type = .stream && sock.source.port = port) =
      (net.socks other).any
        (fun sock => sock.type = .stream && sock.source.port = port) := by
    intro other
    by_cases equal : other = fd
    · subst equal
      cases found : net.socks other with
      | none => simp [Stack.updateSock, found]
      | some sock => simp [Stack.updateSock, found, type, source]
    · rw [Stack.updateSock_of_ne net equal]
  simp only [tcpSearchSocket, searchSocket, same]

theorem queued_updateSock (net : Stack) (fd other : Nat)
    {change : Socket → Socket}
    (keeps : other = fd → ∀ sock, (change sock).rxQu = sock.rxQu) :
    (net.updateSock other change).queued fd = net.queued fd := by
  by_cases same : other = fd
  · subst same
    cases found : net.socks other with
    | none => simp [Stack.queued, Stack.updateSock, found]
    | some sock => simp [Stack.queued, Stack.updateSock, found, keeps]
  · rw [Stack.queued, Stack.updateSock_of_ne net (Ne.symm same)]
    rfl

theorem streams_updateSock {port fd : Nat} {known : List Nat} (net : Stack)
    (other : Nat) {change : Socket → Socket}
    (type : ∀ sock, (change sock).type = sock.type)
    (source : ∀ sock, (change sock).source = sock.source)
    (keeps : other = fd → ∀ sock, (change sock).rxQu = sock.rxQu) :
    Streams port fd known net (net.updateSock other change) :=
  streams_quiet (fun _ => tcpSearchSocket_updateSock net other _ type source)
    rfl (queued_updateSock net fd other keeps) rfl

theorem noStream_ne {port fd other : Nat} {net : Stack}
    (found : tcpSearchSocket net port = some fd)
    (noStream : NoStream net other) : other ≠ fd := by
  rintro rfl
  obtain ⟨sock, entry, other⟩ := noStream
  obtain ⟨stream, same, type⟩ := tcpSearchSocket_stream found
  rw [entry] at same
  cases same
  exact other type

@[simp] theorem length_checksumField (bytes : List UInt8) :
    (checksumField bytes).length = 2 := by
  simp [checksumField]

@[simp] theorem length_pseudoCalculateChecksum (sock : Socket)
    (packet : List UInt8) :
    (pseudoCalculateChecksum sock packet).length = 2 := by
  unfold pseudoCalculateChecksum
  split
  · rfl
  · exact length_checksumField _

@[simp] theorem length_etherHeader (device : Device) (mac type : Nat) :
    (etherHeader device mac type).length = 14 := by
  simp [etherHeader]

@[simp] theorem length_ipHeader (size id prot : Nat)
    (source destination : SockAddr) :
    (ipHeader size id prot source destination).length = 20 := by
  simp [ipHeader, ipHeaderWith]

theorem fieldAt_etherFrame {device : Device} {mac type : Nat} {skb : TxBuff}
    (before middle after : List UInt8)
    (long : 54 ≤ (etherFrame device mac type skb).length)
    (early : before.length + middle.length ≤ 54)
    (parts : etherHeader device mac type ++ skb.bytes =
      before ++ (middle ++ after)) :
    fieldAt (etherFrame device mac type skb) before.length middle.length =
      beValue middle := by
  have bound : 54 ≤ add16 skb.size
      (etherHeader device mac type).length := by
    simp only [etherFrame, TxBuff.contents, TxBuff.push, List.length_take]
      at long
    omega
  simp only [etherFrame, TxBuff.contents, TxBuff.push, parts]
  exact fieldAt_take before middle after (by omega)

theorem etherFrame_type {device : Device} {mac type : Nat} {skb : TxBuff}
    (long : 54 ≤ (etherFrame device mac type skb).length) :
    fieldAt (etherFrame device mac type skb) 12 2 = type % 2 ^ 16 := by
  have read := fieldAt_etherFrame (beBytes 6 mac ++ beBytes 6 device.mac)
    (beBytes 2 type) skb.bytes long (by simp) (by simp [etherHeader])
  simpa [beValue_beBytes] using read

theorem ackFrom_arp (port : Nat) (device : Device) (mac : Nat)
    (skb : TxBuff) :
    ackFrom port (etherFrame device mac ethTypeArp skb) = none := by
  rw [ackFrom, if_neg]
  intro conditions
  have type := etherFrame_type conditions.1
  rw [conditions.2.1] at type
  exact absurd type (by decide)

theorem etherFrame_prot {device : Device} {mac type size id prot : Nat}
    {source destination : SockAddr} {skb : TxBuff}
    (long : 54 ≤ (etherFrame device mac type
      (skb.push (ipHeader size id prot source destination))).length) :
    fieldAt (etherFrame device mac type
      (skb.push (ipHeader size id prot source destination))) 23 1 =
      prot % 256 := by
  have read := fieldAt_etherFrame
    (etherHeader device mac type ++ [0x45, 0] ++ beBytes 2 size ++
      beBytes 2 id ++ beBytes 2 0x4000 ++ [64])
    [UInt8.ofNat prot] _ long (by simp)
    (by simp [TxBuff.push, ipHeader, ipHeaderWith]; rfl)
  simpa [beValue] using read

theorem ackFrom_icmp (port : Nat) (device : Device)
    (mac size id : Nat) (source destination : SockAddr) (skb : TxBuff) :
    ackFrom port (etherFrame device mac ethTypeIp
      (skb.push (ipHeader size id protIcmp source destination))) = none := by
  rw [ackFrom, if_neg]
  intro conditions
  have prot := etherFrame_prot conditions.1
  rw [conditions.2.2.1] at prot
  exact absurd prot (by decide)

/-- What is read back from an acknowledgement is the port and the
acknowledgement number of its socket. -/
theorem ackFrom_segment {port : Nat} {device : Device}
    {mac size id flags ackNum : Nat} {sock : Socket} {skb : TxBuff}
    (read : ackFrom port (etherFrame device mac ethTypeIp
      ((tcpSegment skb sock flags []).push (ipHeader size id protTcp
        sock.source sock.destination))) = some ackNum) :
    port = sock.source.port % 2 ^ 16 ∧ ackNum = sock.ackNum % 2 ^ 32 := by
  rw [ackFrom] at read
  split at read
  · next conditions =>
      obtain ⟨long, _, _, ports⟩ := conditions
      have port := fieldAt_etherFrame
        (etherHeader device mac ethTypeIp ++
          ipHeader size id protTcp sock.source sock.destination)
        (beBytes 2 sock.source.port) _ long (by simp)
        (by simp [TxBuff.push, tcpSegment, tcpHeaderWith]; rfl)
      have ack := fieldAt_etherFrame
        (etherHeader device mac ethTypeIp ++
          ipHeader size id protTcp sock.source sock.destination ++
          beBytes 2 sock.source.port ++ beBytes 2 sock.destination.port ++
          beBytes 4 sock.seqNum)
        (beBytes 4 sock.ackNum) _ long (by simp)
        (by simp [TxBuff.push, tcpSegment, tcpHeaderWith]; rfl)
      simp only [List.length_append, length_etherHeader, length_ipHeader,
        length_beBytes, beValue_beBytes] at port ack
      exact ⟨ports.symm.trans port, (Option.some.inj read).symm.trans ack⟩
  · cases read

theorem streams_sent {port fd : Nat} {known : List Nat} (net : Stack)
    (frame : List UInt8) (results : List Int)
    (sendable : ∀ ackNum, ackFrom port frame = some ackNum →
      ackNum ∈ known) :
    Streams port fd known net { net with
      sent := net.sent ++ [frame], results := results } := by
  cases ack : ackFrom port frame with
  | none =>
      refine ⟨fun _ => rfl, [], trivial, ⟨[], rfl, rfl⟩, ?_, [frame], rfl, ?_⟩
      · simp [Stack.queued]
      · simp [ack]
  | some ackNum =>
      refine ⟨fun _ => rfl, [.acked ackNum], ⟨sendable ackNum ack, trivial⟩,
        ⟨[], rfl, rfl⟩, ?_, [frame], rfl, ?_⟩
      · simp [Stack.queued, Event.arrival]
      · simp [ack, Event.ack]

theorem streams_rules (port fd : Nat) (known : List Nat) :
    ReceiveRules (Listening port fd) (Streams port fd known) (fun _ => True)
      (fun frame => ∀ ackNum, ackFrom port frame = some ackNum →
        ackNum ∈ known) where
  chained := streams_chained port fd known
  count _ _ _ _ := streams_quiet (fun _ => rfl) rfl rfl rfl
  allocate _ := streams_quiet (fun _ => rfl) rfl rfl rfl
  fresh _ _ := trivial
  transmit net frame results sendable :=
    streams_sent net frame results sendable
  free _ _ _ := streams_quiet (fun _ => rfl) rfl rfl rfl
  advance net other _ := streams_updateSock net other (fun _ => rfl)
    (fun _ => rfl) (fun _ _ => rfl)
  arp device mac skb ackNum read := by
    rw [ackFrom_arp] at read
    cases read
  learn _ _ := streams_quiet (fun _ => rfl) rfl rfl rfl
  address net other _ _ := streams_updateSock net other (fun _ => rfl)
    (fun _ => rfl) (fun _ _ => rfl)
  enqueue net other skb listening noStream :=
    streams_updateSock net other (fun _ => rfl) (fun _ => rfl)
      (fun same => absurd same (noStream_ne listening.found noStream))
  icmp device mac size id source destination skb ackNum read := by
    rw [ackFrom_icmp] at read
    cases read

section Layers

variable {port fd : Nat} {poll : NetM Unit}
  (polls : Keeps (Listening port fd) (Streams port fd []) (fun _ => True)
    poll)

include polls in
theorem tcpSendAck_streams (known : List Nat) (other : Nat) {net : Stack}
    (listening : Listening port fd net)
    (allowed : ∀ sock, net.socks other = some sock →
      sock.source.port % 2 ^ 16 = port → sock.ackNum % 2 ^ 32 ∈ known) :
    wp (tcpSendAck poll other) net
      (fun _ final => Streams port fd known net final) (fun _ => True) := by
  have wider : Keeps (Listening port fd) (Streams port fd known)
      (fun _ => True) poll := by
    intro state holds
    exact (polls state holds).mono
      (fun _ _ streams => streams.mono (List.nil_subset known))
      (fun _ stopped => stopped)
  refine (streams_rules port fd known).tcpSendAck_wp wider other
    (fun _ => trivial) listening ?_
  intro sock skb found _ _ device mac id ackNum read
  obtain ⟨same, value⟩ := ackFrom_segment read
  rw [value]
  exact allowed sock found same.symm

theorem other_socket {net : Stack} {other otherPort : Nat}
    (listening : Listening port fd net)
    (found : tcpSearchSocket net otherPort = some other)
    (different : otherPort ≠ port) : other ≠ fd := by
  intro same
  subst same
  obtain ⟨sock, entry, _, source⟩ := tcpSearchSocket_port found
  obtain ⟨sock', entry', _, source'⟩ := tcpSearchSocket_port listening.found
  rw [entry] at entry'
  cases entry'
  exact different (source.symm.trans source')

include polls in
theorem tcpSendAck_other {start net : Stack} {other otherPort : Nat}
    (listening : Listening port fd start)
    (before : Streams port fd [] start net)
    (found : tcpSearchSocket start otherPort = some other)
    (different : otherPort ≠ port) (small : otherPort < 2 ^ 16) :
    wp (tcpSendAck poll other) net
      (fun _ final => Streams port fd [] start final) (fun _ => True) := by
  have chained := streams_chained port fd []
  refine (tcpSendAck_streams polls [] other (chained.inv before listening)
    ?_).mono (fun _ _ after => chained.trans before after)
    (fun _ stopped => stopped)
  intro sock entry same
  obtain ⟨sock', entry', _, source⟩ :=
    tcpSearchSocket_port ((before.search otherPort).trans found)
  rw [entry] at entry'
  cases entry'
  rw [source, Nat.mod_eq_of_lt small] at same
  exact absurd same different

section OtherSocket

variable {net middle : Stack} {other otherPort : Nat}

theorem streams_change_other (notThis : other ≠ fd)
    {change : Socket → Socket}
    (type : ∀ sock, (change sock).type = sock.type)
    (source : ∀ sock, (change sock).source = sock.source)
    (before : Streams port fd [] net middle) :
    Streams port fd [] net (middle.updateSock other change) :=
  (streams_chained port fd []).trans before
    (streams_updateSock middle other type source
      (fun same => absurd same notThis))

theorem streams_free (id : Nat) (before : Streams port fd [] net middle) :
    Streams port fd [] net
      { middle with freed := middle.freed ++ [id] } :=
  (streams_chained port fd []).trans before
    (streams_quiet (fun _ => rfl) rfl rfl rfl)

variable (listening : Listening port fd net)
  (found : tcpSearchSocket net otherPort = some other)
  (different : otherPort ≠ port) (small : otherPort < 2 ^ 16)

include polls listening found different small in
theorem tcpDeliverData_other (skb : SockBuff) (tcp : Nat) :
    wp (tcpDeliverData poll skb tcp other) net
      (fun _ final => Streams port fd [] net final) (fun _ => True) := by
  have notThis := other_socket listening found different
  simp only [tcpDeliverData, setAckNum, modifySock, listAddTail,
    wp_bind, wp_modify, wp_pure]
  refine tcpSendAck_other polls listening (streams_change_other notThis ?_ ?_
    (streams_change_other notThis ?_ ?_
      ((streams_chained port fd []).refl net))) found different small <;>
    exact fun _ => rfl

include polls listening found different small in
theorem tcpDeliverSyn_other (skb : SockBuff) (tcp : Nat) :
    wp (tcpDeliverSyn poll skb tcp other) net
      (fun _ final => Streams port fd [] net final) (fun _ => True) := by
  have notThis := other_socket listening found different
  simp only [tcpDeliverSyn, setAckNum, modifySock, skbFree, setState,
    wp_bind, wp_modify]
  refine (tcpSendAck_other polls listening (streams_free _
    (streams_change_other notThis ?_ ?_
      ((streams_chained port fd []).refl net))) found different small).mono
    ?_ (fun _ stopped => stopped)
  · exact fun _ => rfl
  · exact fun _ => rfl
  intro _ middle before
  simp only [sockAt, wp_bind, wp_get]
  split
  · trivial
  · simp only [wp_pure]
    split
    · exact streams_change_other notThis (fun _ => rfl) (fun _ => rfl) before
    · trivial

include polls listening found different small in
theorem tcpDeliverFin_other (skb : SockBuff) (tcp : Nat) :
    wp (tcpDeliverFin poll skb tcp other) net
      (fun _ final => Streams port fd [] net final) (fun _ => True) := by
  have notThis := other_socket listening found different
  have start := (streams_chained port fd []).refl net
  simp only [tcpDeliverFin, setAckNum, modifySock, skbFree, setState,
    listAddTail]
  split
  · simp only [wp_bind, wp_modify]
    refine tcpSendAck_other polls listening (streams_change_other notThis
      ?_ ?_ (streams_change_other notThis ?_ ?_ start)) found different
      small <;> exact fun _ => rfl
  · simp only [sockAt, wp_bind, wp_modify, wp_get]
    split
    · trivial
    · simp only [wp_pure]
      split
      · simp only [wp_bind, wp_modify, wp_pure]
        refine tcpSendAck_other polls listening (streams_free _
          (streams_change_other notThis ?_ ?_
            (streams_change_other notThis ?_ ?_ start))) found different
          small <;> exact fun _ => rfl
      · trivial

include listening found different in
theorem tcpDeliverAck_other (skb : SockBuff) :
    wp (tcpDeliverAck skb other) net
      (fun _ final => Streams port fd [] net final) (fun _ => True) := by
  have notThis := other_socket listening found different
  simp only [tcpDeliverAck, skbFree, modifySock, wp_bind, wp_modify]
  exact streams_change_other notThis (fun _ => rfl) (fun _ => rfl)
    (streams_free _ ((streams_chained port fd []).refl net))

end OtherSocket

include polls in
theorem tcpLayerDeliver_other (segment : SockBuff)
    (different : dstPort segment.memory segment.data ≠ port) :
    Keeps (Listening port fd) (Streams port fd []) (fun _ => True)
      (tcpLayerDeliver poll segment) := by
  have small : dstPort segment.memory segment.data < 2 ^ 16 := by
    have bound := beValue_slice_lt segment.memory (segment.data + 2) 2
    simpa [dstPort, field] using bound
  intro net listening
  have memory : (segment.pull (tcpHeaderLen segment.memory
    segment.data)).memory = segment.memory := rfl
  simp only [tcpLayerDeliver, wp_bind, wp_get, memory]
  split
  · exact streams_quiet (fun _ => rfl) rfl rfl rfl
  · next other found =>
      cases flagCase (tcpFlags segment.memory segment.data) with
      | syn =>
          simp only [wp_bind, wp_pure]
          exact tcpDeliverSyn_other polls listening found different small _ _
      | fin =>
          simp only [wp_bind, wp_pure]
          exact tcpDeliverFin_other polls listening found different small _ _
      | ack =>
          simp only
          split
          · simp only [wp_bind, wp_pure]
            exact tcpDeliverAck_other listening found different _
          · simp only [wp_bind, wp_pure]
            exact tcpDeliverData_other polls listening found different
              small _ _
      | data =>
          simp only [wp_bind, wp_pure]
          exact tcpDeliverData_other polls listening found different
            small _ _
      | unlisted => exact (streams_chained port fd []).refl net

/-- The data was queued, and then what happened is justified with it. -/
def Arrived (port fd : Nat) (arrival : Arrival) (net final : Stack) : Prop :=
  ∃ middle : Stack,
    (∀ other, tcpSearchSocket middle other = tcpSearchSocket net other) ∧
    middle.wire = net.wire ∧ middle.sent = net.sent ∧
    middle.queued fd = net.queued fd ++ arrival.data ∧
    Streams port fd [arrival.ackNum] middle final

include polls in
theorem tcpDeliverData_arrived (skb : SockBuff) (tcp : Nat) {net : Stack}
    (listening : Listening port fd net) :
    wp (tcpDeliverData poll skb tcp fd) net
      (fun _ final => Arrived port fd
        ⟨tcpSeqNum skb.memory tcp, skb.payload⟩ net final)
      (fun _ => True) := by
  obtain ⟨sock, entry, _, source⟩ := tcpSearchSocket_port listening.found
  simp only [tcpDeliverData, setAckNum, modifySock, listAddTail, wp_bind,
    wp_modify, wp_pure]
  generalize acked : net.updateSock fd (fun sock => { sock with
    ackNum := add32 (tcpSeqNum skb.memory tcp) skb.size }) = first
  have entry' : first.socks fd = some { sock with
      ackNum := add32 (tcpSeqNum skb.memory tcp) skb.size } := by
    rw [← acked]
    exact Stack.updateSock_self entry _
  have search : ∀ other, tcpSearchSocket (first.updateSock fd (fun sock =>
      { sock with rxQu := sock.rxQu ++ [skb] })) other =
        tcpSearchSocket net other := by
    intro other
    refine (tcpSearchSocket_updateSock first fd other ?_ ?_).trans ?_
    · exact fun _ => rfl
    · exact fun _ => rfl
    · rw [← acked]
      exact tcpSearchSocket_updateSock net fd other (fun _ => rfl)
        (fun _ => rfl)
  have listening' : Listening port fd (first.updateSock fd (fun sock =>
      { sock with rxQu := sock.rxQu ++ [skb] })) := by
    refine ⟨(search port).trans listening.found, ?_⟩
    rw [← acked]
    exact listening.wire
  refine (tcpSendAck_streams polls [Arrival.ackNum
    ⟨tcpSeqNum skb.memory tcp, skb.payload⟩] fd listening' ?_).mono ?_
    (fun _ stopped => stopped)
  · intro later found _
    rw [Stack.updateSock_self entry' _] at found
    cases found
    simp [Arrival.ackNum, SockBuff.payload, add32]
  · intro _ final streams
    refine ⟨_, search, ?_, ?_, ?_, streams⟩
    · rw [← acked]
      rfl
    · rw [← acked]
      rfl
    · simp [Stack.queued, Stack.updateSock_self entry', entry]

include polls in
theorem tcpLayerDeliver_this (segment : SockBuff) {net : Stack}
    (listening : Listening port fd net)
    (same : dstPort segment.memory segment.data = port)
    (flags : flagCase (tcpFlags segment.memory segment.data) = .ack ∨
      flagCase (tcpFlags segment.memory segment.data) = .data) :
    wp (tcpLayerDeliver poll segment) net
      (fun _ final => segment.arrival.elim (Streams port fd [] net final)
        (fun arrival => Arrived port fd arrival net final))
      (fun _ => True) := by
  have memory : (segment.pull (tcpHeaderLen segment.memory
    segment.data)).memory = segment.memory := rfl
  simp only [tcpLayerDeliver, wp_bind, wp_get, memory, same, listening.found]
  cases flags with
  | inl ack =>
      by_cases empty : (segment.pull (tcpHeaderLen segment.memory
          segment.data)).size = 0
      · simp only [ack, SockBuff.arrival, empty, and_self, if_true, wp_bind,
          wp_pure, Option.elim_none, tcpDeliverAck, skbFree, modifySock,
          wp_modify]
        have freed : Streams port fd [] net { net with
            freed := net.freed ++ [segment.id] } :=
          streams_quiet (fun _ => rfl) rfl rfl rfl
        refine (streams_chained port fd []).trans freed ?_
        refine streams_updateSock _ fd ?_ ?_ ?_
        · exact fun _ => rfl
        · exact fun _ => rfl
        · exact fun _ _ => rfl
      · simp only [ack, SockBuff.arrival, empty, and_false, if_false, wp_bind,
          wp_pure, Option.elim_some]
        exact tcpDeliverData_arrived polls _ _ listening
  | inr data =>
      simp only [data, SockBuff.arrival, reduceCtorEq, false_and, if_false,
        wp_bind, wp_pure, Option.elim_some]
      exact tcpDeliverData_arrived polls _ _ listening

end Layers

theorem streams_skip {port fd : Nat} {net final : Stack}
    {entry : Option Frame} {rest : List (Option Frame)} {nextId : Nat}
    (wire : net.wire = entry :: rest) (nothing : arrivalFor port entry = none)
    (streams : Streams port fd [] { net with
      wire := rest, nextId := nextId } final) :
    Streams port fd [] net final := by
  obtain ⟨events, justified, happened⟩ := streams.events
  obtain ⟨entries, received, arrivals⟩ := happened.received
  refine ⟨streams.search, events, justified, ⟨entry :: entries, ?_, ?_⟩,
    happened.queued, happened.sent⟩
  · rw [wire]
    exact congrArg _ received
  · rw [List.filterMap_cons_none nothing, arrivals]

theorem streams_arrived {port fd : Nat} {net final : Stack}
    {entry : Option Frame} {rest : List (Option Frame)} {nextId : Nat}
    {arrival : Arrival} (wire : net.wire = entry :: rest)
    (data : arrivalFor port entry = some arrival)
    (arrived : Arrived port fd arrival { net with
      wire := rest, nextId := nextId } final) :
    Streams port fd [] net final := by
  obtain ⟨middle, search, wire', sent, queued, streams⟩ := arrived
  obtain ⟨events, justified, happened⟩ := streams.events
  obtain ⟨entries, received, arrivals⟩ := happened.received
  refine ⟨fun other => (streams.search other).trans (search other),
    .queued arrival :: events, justified, ⟨entry :: entries, ?_, ?_⟩, ?_, ?_⟩
  · rw [wire, List.cons_append, ← received, wire']
  · simp [Event.arrival, data, arrivals]
  · rw [happened.queued, queued]
    simp [Event.arrival, Stack.queued]
  · obtain ⟨frames, sent', acks⟩ := happened.sent
    refine ⟨frames, ?_, ?_⟩
    · rw [sent', sent]
    · rw [List.filterMap_cons_none rfl, acks]

theorem netifRx_streams {port fd : Nat} {poll : NetM Unit}
    (polls : Keeps (Listening port fd) (Streams port fd []) (fun _ => True)
      poll) {net : Stack} {frame : Frame} {rest : List (Option Frame)}
    {nextId : Nat} (wire : net.wire = some frame :: rest)
    (listening : Listening port fd { net with
      wire := rest, nextId := nextId + 1 })
    (sends : SendsData port frame) :
    wp (netifRx poll (frame.buffer nextId))
      { net with wire := rest, nextId := nextId + 1 }
      (fun _ final => Streams port fd [] net final) (fun _ => True) := by
  cases found : segmentOf (frame.buffer 0) with
  | none =>
      have noSegment : segmentOf (frame.buffer nextId) = none := by
        rw [segmentOf_buffer, found]
        rfl
      have nothing : arrivalFor port (some frame) = none := by
        simp [arrivalFor, Frame.segmentFor, found]
      exact ((streams_rules port fd []).netifRx_keeps polls _ trivial
        noSegment _ listening).mono
        (fun _ _ streams => streams_skip wire nothing streams)
        (fun _ stopped => stopped)
  | some segment =>
      have found' : segmentOf (frame.buffer nextId) =
          some { segment with id := nextId } := by
        rw [segmentOf_buffer, found]
        rfl
      rw [netifRx_segment_wp found']
      by_cases same : dstPort segment.memory segment.data = port
      · have this : frame.segmentFor port = some segment := by
          simp [Frame.segmentFor, found, same]
        have arrives : arrivalFor port (some frame) = segment.arrival := by
          simp [arrivalFor, this]
        refine (tcpLayerDeliver_this polls { segment with id := nextId }
          listening same (sends segment this)).mono ?_
          (fun _ stopped => stopped)
        intro _ final outcome
        change segment.arrival.elim _ _ at outcome
        cases arrival : segment.arrival with
        | none =>
            rw [arrival] at outcome arrives
            exact streams_skip wire arrives outcome
        | some data =>
            rw [arrival] at outcome arrives
            exact streams_arrived wire arrives outcome
      · have nothing : arrivalFor port (some frame) = none := by
          simp [arrivalFor, Frame.segmentFor, found, same]
        exact (tcpLayerDeliver_other polls { segment with id := nextId } same
          _ listening).mono
          (fun _ _ streams => streams_skip wire nothing streams)
          (fun _ stopped => stopped)

theorem pollDevice_streams (port fd fuel : Nat) :
    Keeps (Listening port fd) (Streams port fd []) (fun _ => True)
      (pollDevice fuel) := by
  have chained := streams_chained port fd []
  induction fuel with
  | zero => exact Keeps.pure chained ()
  | succ fuel induction =>
      intro net listening
      simp only [pollDevice, receiveFrame, wp_bind, wp_get]
      cases wire : net.wire with
      | nil => exact chained.refl net
      | cons entry rest =>
          cases entry with
          | none =>
              exact streams_skip wire rfl (chained.refl _)
          | some frame =>
              simp only [wp_bind, wp_set, wp_pure]
              have listening' : Listening port fd { net with
                  wire := rest, nextId := net.nextId + 1 } :=
                ⟨listening.found, fun frame member => listening.wire frame
                  (by rw [wire]; exact List.mem_cons_of_mem _ member)⟩
              have delivered : wp (netifRx (pollDevice fuel)
                  (frame.buffer net.nextId))
                  { net with wire := rest, nextId := net.nextId + 1 }
                  (fun _ final => Streams port fd [] net final)
                  (fun _ => True) :=
                netifRx_streams induction wire listening'
                  (listening.wire frame (by rw [wire]; exact .head _))
              refine delivered.mono ?_ (fun _ stopped => stopped)
              intro _ middle before
              exact induction.after chained listening before

/-- The device is polled again and again. -/
def pollTimes (fuel : Nat) : Nat → NetM Unit
  | 0 => pure ()
  | count + 1 => do
      pollDevice fuel
      pollTimes fuel count

theorem pollTimes_streams (port fd fuel count : Nat) :
    Keeps (Listening port fd) (Streams port fd []) (fun _ => True)
      (pollTimes fuel count) := by
  induction count with
  | zero => exact Keeps.pure (streams_chained port fd []) ()
  | succ count induction =>
      exact Keeps.bind (streams_chained port fd [])
        (pollDevice_streams port fd fuel) fun _ => induction

/-- The segments cut the stream from an offset on, and each starts where the
one before it ended. -/
def Consecutive (stream : List UInt8) (isn : Nat) :
    Nat → List Arrival → Prop
  | _, [] => True
  | offset, arrival :: arrivals =>
      arrival.seqNum = (isn + offset) % 2 ^ 32 ∧
        arrival.data <+: stream.drop offset ∧
        Consecutive stream isn (offset + arrival.data.length) arrivals

/-- No acknowledgement covers a byte that has not been queued before; `count`
bytes are queued at the start. -/
def AcksQueued (isn : Nat) : Nat → List Event → Prop
  | _, [] => True
  | count, .queued arrival :: events =>
      AcksQueued isn (count + arrival.data.length) events
  | count, .acked ackNum :: events =>
      (∃ bytes ≤ count, ackNum = (isn + bytes) % 2 ^ 32) ∧
        AcksQueued isn count events

theorem consecutive_prefix {stream : List UInt8} {isn offset : Nat}
    {arrivals : List Arrival}
    (consecutive : Consecutive stream isn offset arrivals) :
    arrivals.flatMap Arrival.data <+: stream.drop offset := by
  induction arrivals generalizing offset with
  | nil => exact List.nil_prefix
  | cons arrival arrivals induction =>
      obtain ⟨_, start, rest⟩ := consecutive
      obtain ⟨tail, split⟩ := start
      have next : stream.drop (offset + arrival.data.length) = tail := by
        rw [← List.drop_drop, ← split, List.drop_left]
      have following := induction rest
      rw [next] at following
      rw [List.flatMap_cons, ← split]
      exact (List.prefix_append_right_inj _).mpr following

theorem justified_acksQueued {stream : List UInt8} {isn count : Nat}
    {known : List Nat} {events : List Event}
    (consecutive : Consecutive stream isn count
      (events.filterMap Event.arrival))
    (justified : Justified known events)
    (covered : ∀ ackNum ∈ known, ∃ bytes ≤ count,
      ackNum = (isn + bytes) % 2 ^ 32) :
    AcksQueued isn count events := by
  induction events generalizing known count with
  | nil => trivial
  | cons event events induction =>
      cases event with
      | acked ackNum =>
          exact ⟨covered ackNum justified.1,
            induction consecutive justified.2 covered⟩
      | queued arrival =>
          obtain ⟨seqNum, _, rest⟩ := consecutive
          refine induction rest justified ?_
          intro ackNum member
          cases member with
          | head =>
              refine ⟨count + arrival.data.length, Nat.le_refl _, ?_⟩
              simp only [Arrival.ackNum, add32, seqNum]
              omega
          | tail _ member =>
              obtain ⟨bytes, bound, value⟩ := covered ackNum member
              exact ⟨bytes, by omega, value⟩

/-- Data is queued in the order of its arrival, and every acknowledgement is
that of a segment queued before it.  If the segments arrive in order, the queue
is a piece of the stream of the peer and no acknowledgement covers a byte that
has not been queued. -/
theorem pollTimes_inOrder (port fd fuel count : Nat) (net final : Stack)
    (listening : Listening port fd net)
    (returns : pollTimes fuel count net = .ok ((), final)) :
    ∃ events, Happened port fd events net final ∧ Justified [] events ∧
      ∀ stream isn start, Consecutive stream isn start
          (events.filterMap Event.arrival) →
        (∃ added, final.queued fd = net.queued fd ++ added ∧
          added <+: stream.drop start) ∧ AcksQueued isn start events := by
  have streams := wp_of_ok (pollTimes_streams port fd fuel count net
    listening) returns
  obtain ⟨events, justified, happened⟩ := streams.events
  refine ⟨events, happened, justified, ?_⟩
  intro stream isn start consecutive
  refine ⟨⟨_, happened.queued, consecutive_prefix consecutive⟩, ?_⟩
  exact justified_acksQueued consecutive justified
    (fun _ member => by cases member)

/-- A connected socket of port 1000 whose peer is known, and the frames that
the peer sends. -/
def connected (frames : List Frame) : Stack :=
  { Stack.initial localDevice with
    socks := fun fd => if fd = 1 then
        some ⟨.stream, 0, 0, [], [], ⟨2, 1000, 0xc0a80001⟩,
          ⟨2, 80, 0xc0a80002⟩, .established, 2, 10⟩
      else none
    hosts := [(0xc0a80002, 0x020000000002)]
    wire := frames.map some }

/-- The bytes that a run leaves on the queue of the socket and the number of
frames it leaves on the wire, if it returns. -/
def leaves (result : Except Halt (Unit × Stack)) :
    Option (List UInt8 × Nat) :=
  match result with
  | .ok (_, final) => some (final.queued 1, final.wire.length)
  | .error _ => none

theorem leaves_some {result : Except Halt (Unit × Stack)}
    {bytes : List UInt8} {frames : Nat}
    (left : leaves result = some (bytes, frames)) :
    ∃ final, result = .ok ((), final) ∧ final.queued 1 = bytes ∧
      final.wire.length = frames := by
  cases result with
  | error halt => cases left
  | ok pair =>
      cases left
      exact ⟨pair.2, rfl, rfl, rfl⟩

/-- Segments of one byte. -/
def oneByte (seqNum byte : UInt8) : Frame :=
  segmentFrame 0x18 seqNum [byte]

theorem connected_listening {frames : List Frame}
    (data : frames.all (fun frame => (frame.segmentFor 1000).all
      (fun segment => flagCase (tcpFlags segment.memory segment.data) =
        .data)) = true) : Listening 1000 1 (connected frames) where
  found := rfl
  wire frame member := by
    obtain ⟨sent, member, same⟩ := List.mem_map.mp member
    cases same
    intro segment found
    have flags := List.all_eq_true.mp data frame member
    rw [found] at flags
    exact .inr (of_decide_eq_true flags)

theorem pollTimes_inOrder_two :
    ∃ final events, pollTimes 2 1 (connected [oneByte 10 1, oneByte 11 2]) =
        .ok ((), final) ∧ final.queued 1 = [1, 2] ∧
      Happened 1000 1 events (connected [oneByte 10 1, oneByte 11 2]) final ∧
      AcksQueued 10 0 events := by
  have left : leaves (pollTimes 2 1 (connected [oneByte 10 1,
      oneByte 11 2])) = some ([1, 2], 0) := by decide +kernel
  obtain ⟨final, returns, queued, wire⟩ := leaves_some left
  obtain ⟨events, happened, _, inOrder⟩ := pollTimes_inOrder 1000 1 2 1 _ final
    (connected_listening (by decide +kernel)) returns
  obtain ⟨entries, received, arrivals⟩ := happened.received
  rw [List.length_eq_zero_iff.mp wire, List.append_nil] at received
  have cut : [some (oneByte 10 1), some (oneByte 11 2)].filterMap
      (arrivalFor 1000) = [⟨10, [1]⟩, ⟨11, [2]⟩] := by decide +kernel
  have all : events.filterMap Event.arrival = [⟨10, [1]⟩, ⟨11, [2]⟩] := by
    rw [arrivals, ← received]
    exact cut
  refine ⟨final, events, returns, queued, happened,
    (inOrder [1, 2] 10 0 ?_).2⟩
  rw [all]
  simp [Consecutive]

/-- A piece of the stream of the peer. -/
def CutFrom (stream : List UInt8) (isn : Nat) (arrival : Arrival) : Prop :=
  ∃ offset ≤ stream.length, arrival.seqNum = (isn + offset) % 2 ^ 32 ∧
    arrival.data <+: stream.drop offset

/-- A segment that arrives twice is queued twice. -/
theorem pollTimes_not_prefix_duplicate :
    ¬∀ port fd fuel count net final stream isn, Listening port fd net →
      (∃ sock, net.socks fd = some sock ∧ sock.state = .established) →
      net.queued fd = [] →
      (∀ entry ∈ net.wire, ∀ arrival, arrivalFor port entry = some arrival →
        CutFrom stream isn arrival) →
      pollTimes fuel count net = .ok ((), final) →
      final.queued fd <+: stream ∧ ∀ events,
        Happened port fd events net final → AcksQueued isn 0 events := by
  intro always
  have left : leaves (pollTimes 2 1 (connected [oneByte 10 1,
      oneByte 10 1])) = some ([1, 1], 0) := by decide +kernel
  obtain ⟨final, returns, queued, _⟩ := leaves_some left
  have cut : arrivalFor 1000 (some (oneByte 10 1)) = some ⟨10, [1]⟩ := by
    decide +kernel
  have holds := always 1000 1 2 1 _ final [1, 2] 10
    (connected_listening (by decide +kernel)) ⟨_, rfl, rfl⟩ rfl ?_ returns
  · rw [queued] at holds
    exact absurd holds.1 (by decide)
  · intro entry member arrival arrives
    have same : entry = some (oneByte 10 1) := by
      simpa [connected] using member
    rw [same, cut] at arrives
    cases arrives
    exact ⟨0, by decide, by decide, by decide⟩

end Witos.Net
