import Witos.Net.Descriptors
import Witos.Net.UdpRoundTrip

/-!
# The sender of a datagram

A socket has one address for its peer.  Every datagram that arrives and every
`sendto` stores one there, and `recvfrom` reports what it finds there for the
first datagram of the queue.  Datagrams arrive in the polls of all calls, in
those of `recvfrom` and `sendto` too.
-/

namespace Witos.Net

open Library Effect

/-- What identifies a sender. -/
def SockAddr.peer (address : SockAddr) : Nat × Nat :=
  (address.addr, address.port)

/-- The sender of a queued datagram, in the headers before its data; the frame
begins at `head`. -/
def SockBuff.sender (skb : SockBuff) : Nat × Nat :=
  (ipSource skb.memory ethHdrLen, field skb.memory (skb.data - udpHdrLen) 2)

def Stack.queue (net : Stack) (fd : Nat) : List SockBuff :=
  ((net.socks fd).map Socket.rxQu).getD []

/-- The sender of the last of the datagrams that arrived. -/
def lastSender (before : Nat × Nat) (arrived : List SockBuff) : Nat × Nat :=
  (arrived.getLast?.map SockBuff.sender).getD before

/-- A poll by any other call, or a call on the socket: `recvfrom` with the size
of its buffer, or `sendto`. -/
inductive MailCall where
  | poll
  | recvfrom (count : Nat)
  | sendto (data : List UInt8) (address : SockAddr)

/-- The stack, which is `none` when a call does not return; the peer that was
received from or sent to last; and whether every datagram was returned with its
own sender. -/
structure Mail where
  net : Option Stack
  last : Nat × Nat
  attributed : Bool

/-- The queue when `sock_recv_packet` takes its first datagram. -/
def takenFrom (fuel fd : Nat) (net : Stack) : Option (List SockBuff) :=
  match sockRecvPacket ndevPoll fuel fd net with
  | .ok (some skb, final) => some (skb :: final.queue fd)
  | _ => none

/-- The datagrams behind the queue of `net` arrived after it. -/
def Mail.arrive (mail : Mail) (fd : Nat) (net final : Stack)
    (queue : List SockBuff) : Mail :=
  { mail with
    net := some final
    last := lastSender mail.last (queue.drop (net.queue fd).length) }

def mailStep (fuel fd : Nat) (call : MailCall) (mail : Mail) : Mail :=
  match mail.net, call with
  | none, _ => mail
  | some net, .poll =>
      match ndevPoll net with
      | .error _ => { mail with net := none }
      | .ok (_, final) => mail.arrive fd net final (final.queue fd)
  | some net, .recvfrom count =>
      match recvfrom ndevPoll fuel fd count net with
      | .error _ => { mail with net := none }
      | .ok ((_, _, address), final) =>
          match takenFrom fuel fd net with
          | none => mail.arrive fd net final (final.queue fd)
          | some queue =>
              { mail.arrive fd net final queue with
                attributed := mail.attributed &&
                  queue.head?.map SockBuff.sender = some address.peer }
  | some net, .sendto data address =>
      match sendto ndevPoll fd data address net with
      | .error _ => { mail with net := none }
      | .ok (_, final) =>
          Mail.arrive { mail with last := address.peer } fd net final
            (final.queue fd)

/-- The condition on a call of `recvfrom`: the first datagram on the queue when
one is taken is from the peer that was received from or sent to last, in the
polls of the call or before it. -/
def FromLast (fuel fd : Nat) (call : MailCall) (mail : Mail) : Prop :=
  ∀ net ∈ mail.net, ∀ count, call = .recvfrom count →
    ∀ queue ∈ takenFrom fuel fd net, ∀ skb ∈ queue.head?,
      skb.sender = lastSender mail.last (queue.drop (net.queue fd).length)

theorem fromLast_recvfrom {fuel fd count : Nat} {mail : Mail} :
    FromLast fuel fd (.recvfrom count) mail ↔
      ∀ net ∈ mail.net, ∀ queue ∈ takenFrom fuel fd net,
        ∀ skb ∈ queue.head?, skb.sender =
          lastSender mail.last (queue.drop (net.queue fd).length) := by
  constructor
  · intro fromLast net isNet
    exact fromLast net isNet count rfl
  · intro same net isNet _ _
    exact same net isNet

theorem lastSender_append (before : Nat × Nat)
    (first second : List SockBuff) :
    lastSender before (first ++ second) =
      lastSender (lastSender before first) second := by
  unfold lastSender
  rw [List.getLast?_append]
  cases second.getLast? with
  | none => rfl
  | some skb => rfl

/-- The socket after datagrams arrived. -/
structure Gains (sock : Socket) (arrived : List SockBuff) (later : Socket) :
    Prop where
  type : later.type = sock.type
  queue : later.rxQu = sock.rxQu ++ arrived
  peer : later.destination.peer = lastSender sock.destination.peer arrived

theorem Gains.refl (sock : Socket) : Gains sock [] sock :=
  ⟨rfl, (List.append_nil _).symm, rfl⟩

theorem Gains.trans {sock middle later : Socket}
    {first second : List SockBuff} (before : Gains sock first middle)
    (after : Gains middle second later) :
    Gains sock (first ++ second) later where
  type := after.type.trans before.type
  queue := by rw [after.queue, before.queue, List.append_assoc]
  peer := by rw [after.peer, before.peer, lastSender_append]

/-- There is a datagram socket. -/
def DatagramAt (fd : Nat) (net : Stack) : Prop :=
  ∃ sock, net.socks fd = some sock ∧ sock.type = .dgram

/-- Nothing but arrivals changes the queue and the peer of the socket. -/
def Arrives (fd : Nat) (net final : Stack) : Prop :=
  ∀ sock, net.socks fd = some sock →
    ∃ arrived later, final.socks fd = some later ∧ Gains sock arrived later

theorem arrives_chained (fd : Nat) :
    Chained (DatagramAt fd) (Arrives fd) where
  refl _ sock found := ⟨[], sock, found, .refl sock⟩
  trans before after sock found := by
    obtain ⟨first, middle, foundMiddle, gained⟩ := before sock found
    obtain ⟨second, later, foundLater, more⟩ := after middle foundMiddle
    exact ⟨first ++ second, later, foundLater, gained.trans more⟩
  inv arrives datagram := by
    obtain ⟨sock, found, type⟩ := datagram
    obtain ⟨arrived, later, foundLater, gained⟩ := arrives sock found
    exact ⟨later, foundLater, gained.type.trans type⟩

theorem arrives_of_eq {fd : Nat} {net final : Stack}
    (same : final.socks fd = net.socks fd) : Arrives fd net final :=
  fun sock found => ⟨[], sock, same.trans found, .refl sock⟩

theorem arrives_updateSock {fd : Nat} {net : Stack} (target : Nat)
    {change : Socket → Socket} (gains : ∀ sock, Gains sock [] (change sock)) :
    Arrives fd net (net.updateSock target change) := by
  by_cases same : fd = target
  · subst same
    intro sock found
    exact ⟨[], change sock, Stack.updateSock_self found _, gains sock⟩
  · exact arrives_of_eq (Stack.updateSock_of_ne net same change)

theorem ne_of_type {net : Stack} {fd target : Nat} {type : SockType}
    (datagram : DatagramAt fd net)
    (typed : ∃ sock, net.socks target = some sock ∧ sock.type = type)
    (other : type ≠ .dgram) : fd ≠ target := by
  rintro rfl
  obtain ⟨sock, present, isDgram⟩ := datagram
  obtain ⟨found, same, isType⟩ := typed
  rw [present] at same
  cases same
  exact other (isType.symm.trans isDgram)

theorem arrives_receives {fd target : Nat} {net : Stack} {skb : SockBuff}
    {source : SockAddr} (sent : source.peer = skb.sender) :
    Arrives fd net (net.receives target source skb) := by
  by_cases same : fd = target
  · subst same
    intro sock found
    exact ⟨[skb], _, receives_socks found source skb, rfl, rfl, sent⟩
  · refine arrives_of_eq ?_
    rw [Stack.receives, Stack.updateSock_of_ne _ same,
      Stack.updateSock_of_ne _ same]

/-- Only arrivals change the queue and the peer, if the computation returns. -/
abbrev KeepsMail (fd : Nat) {α : Type} (run : NetM α) : Prop :=
  Keeps (DatagramAt fd) (Arrives fd) anyHalt run

theorem arrives_sendRules (fd : Nat) :
    SendRules (DatagramAt fd) (Arrives fd) (fun _ => True)
      (fun _ => True) where
  chained := arrives_chained fd
  count _ _ _ _ := arrives_of_eq rfl
  allocate _ := arrives_of_eq rfl
  fresh _ _ := trivial
  transmit _ _ _ _ := arrives_of_eq rfl
  free _ _ _ := arrives_of_eq rfl
  advance _ target _ := arrives_updateSock target fun _ =>
    ⟨rfl, (List.append_nil _).symm, rfl⟩
  arp _ _ _ := trivial

theorem skbFree_mail (fd id : Nat) : KeepsMail fd (skbFree id) :=
  fun _ _ => arrives_of_eq rfl

theorem modifySock_mail {fd target : Nat} (different : fd ≠ target)
    (change : Socket → Socket) : KeepsMail fd (modifySock target change) :=
  fun net _ => arrives_of_eq (Stack.updateSock_of_ne net different change)

section Layers

variable {fd target : Nat} {poll : NetM Unit} (polls : KeepsMail fd poll)
  (different : fd ≠ target)

include polls

theorem ipSendPacket_mail (skb : TxBuff) (source destination : SockAddr)
    (prot : Nat) :
    KeepsMail fd (ipSendPacket poll skb source destination prot) :=
  (arrives_sendRules fd).ipSendPacket_keeps polls skb source destination prot
    trivial (fun _ _ _ => trivial)

theorem tcpSendAck_mail : KeepsMail fd (tcpSendAck poll target) :=
  fun _ datagram => (arrives_sendRules fd).tcpSendAck_wp polls target
    (fun _ => trivial) datagram (fun _ _ _ _ _ _ _ _ => trivial)

include different

theorem tcpDeliverSyn_mail (skb : SockBuff) (tcp : Nat) :
    KeepsMail fd (tcpDeliverSyn poll skb tcp target) := by
  have chained := arrives_chained fd
  refine Keeps.bind chained (modifySock_mail different _) fun _ => ?_
  refine Keeps.bind chained (skbFree_mail fd _) fun _ => ?_
  refine Keeps.bind chained (tcpSendAck_mail polls) fun _ => ?_
  refine Keeps.bind chained (sockAt_keeps chained target) fun sock => ?_
  exact Keeps.ite (modifySock_mail different _) fun _ _ => trivial

theorem tcpDeliverFin_mail (skb : SockBuff) (tcp : Nat) :
    KeepsMail fd (tcpDeliverFin poll skb tcp target) := by
  have chained := arrives_chained fd
  have acks : KeepsMail fd (do let _ ← tcpSendAck poll target) :=
    Keeps.bind chained (tcpSendAck_mail polls) fun _ => Keeps.pure chained _
  unfold tcpDeliverFin
  apply Keeps.ite
  · refine Keeps.bind chained (modifySock_mail different _) fun _ => ?_
    exact Keeps.bind chained (modifySock_mail different _) fun _ => acks
  · refine Keeps.bind chained (modifySock_mail different _) fun _ => ?_
    refine Keeps.bind chained (sockAt_keeps chained target) fun sock => ?_
    cases stateAfterFin (tcpFlags skb.memory tcp) sock.state with
    | none => exact fun _ _ => trivial
    | some state =>
        refine Keeps.bind chained (modifySock_mail different _) fun _ => ?_
        exact Keeps.bind chained (skbFree_mail fd _) fun _ => acks

theorem tcpDeliverData_mail (skb : SockBuff) (tcp : Nat) :
    KeepsMail fd (tcpDeliverData poll skb tcp target) := by
  have chained := arrives_chained fd
  refine Keeps.bind chained (modifySock_mail different _) fun _ => ?_
  refine Keeps.bind chained (modifySock_mail different _) fun _ => ?_
  exact Keeps.bind chained (tcpSendAck_mail polls) fun _ =>
    Keeps.pure chained _

omit polls in
theorem tcpDeliverAck_mail (skb : SockBuff) :
    KeepsMail fd (tcpDeliverAck skb target) :=
  Keeps.bind (arrives_chained fd) (skbFree_mail fd _) fun _ =>
    modifySock_mail different _

omit different

theorem tcpLayerDeliver_mail (skb : SockBuff) :
    KeepsMail fd (tcpLayerDeliver poll skb) := by
  have chained := arrives_chained fd
  refine Keeps.get_bind fun net datagram => ?_
  cases found : tcpSearchSocket net (dstPort
      (skb.pull (tcpHeaderLen skb.memory skb.data)).memory skb.data) with
  | none => exact arrives_of_eq rfl
  | some target =>
      have different :=
        ne_of_type datagram (tcpSearchSocket_stream found) (by decide)
      have returns : ∀ {run : NetM Unit}, KeepsMail fd run →
          KeepsMail fd (do run; pure (0 : Int)) :=
        fun keeps => Keeps.bind chained keeps fun _ => Keeps.pure chained 0
      cases flagCase (tcpFlags
          (skb.pull (tcpHeaderLen skb.memory skb.data)).memory skb.data) with
      | syn =>
          exact returns (tcpDeliverSyn_mail polls different _ _) net datagram
      | fin =>
          exact returns (tcpDeliverFin_mail polls different _ _) net datagram
      | ack =>
          exact Keeps.ite (returns (tcpDeliverAck_mail different _))
            (returns (tcpDeliverData_mail polls different _ _)) net datagram
      | data =>
          exact returns (tcpDeliverData_mail polls different _ _) net datagram
      | unlisted => exact chained.refl net

omit polls

/-- A datagram, in a buffer whose UDP header is at `data`. -/
theorem udpLayerDeliver_mail (skb : SockBuff) :
    KeepsMail fd (udpLayerDeliver skb ethHdrLen) := by
  refine Keeps.get_bind fun net _ => ?_
  cases udpSearchSocket net
      (dstPort (skb.pull udpHdrLen).memory skb.data) with
  | none => exact arrives_of_eq rfl
  | some target =>
      have place : (skb.pull udpHdrLen).data - udpHdrLen = skb.data :=
        Nat.add_sub_cancel _ _
      have sent : (⟨0, field skb.memory skb.data 2,
          ipSource skb.memory ethHdrLen⟩ : SockAddr).peer =
          (skb.pull udpHdrLen).sender := by
        rw [SockBuff.sender, place]
        rfl
      exact arrives_receives sent

theorem arpRecvPacket_mail (skb : SockBuff) :
    KeepsMail fd (arpRecvPacket skb) := by
  have chained := arrives_chained fd
  have rules := arrives_sendRules fd
  have frees : KeepsMail fd (do skbFree skb.id; pure (0 : Int)) :=
    Keeps.bind chained (skbFree_mail fd _) fun _ => Keeps.pure chained 0
  unfold arpRecvPacket
  refine Keeps.ite (Keeps.pure chained _) (Keeps.ite ?_ (Keeps.ite ?_ frees))
  · refine Keeps.get_bind fun net datagram => ?_
    cases getaddr net (field skb.memory (skb.data + 14) 4) with
    | some mac => exact chained.refl net
    | none =>
        refine Keeps.bind chained rules.malloc_keeps (fun ok => ?_) net
          datagram
        refine Keeps.ite ?_ (Keeps.pure chained _)
        refine Keeps.bind chained (fun _ _ => arrives_of_eq rfl) fun _ => ?_
        refine Keeps.get_bind fun learned datagram => ?_
        cases found : arpSearchSocket learned
            (field skb.memory (skb.data + 14) 4) with
        | none => exact frees learned datagram
        | some target =>
            have different :=
              ne_of_type datagram (arpSearchSocket_raw found) (by decide)
            exact Keeps.bind chained (modifySock_mail different _)
              (fun _ => Keeps.pure chained (0 : Int)) learned datagram
  · refine Keeps.get_bind fun net datagram => ?_
    exact Keeps.ite (Keeps.bind chained (rules.arpSendPacket_keeps _ _ _)
      fun _ => frees) frees net datagram

include polls

theorem icmpDeliver_mail (skb : SockBuff) (ip : Nat) :
    KeepsMail fd (icmpDeliver poll skb ip) := by
  have chained := arrives_chained fd
  unfold icmpDeliver
  refine Keeps.ite ?_ (Keeps.ite ?_ (Keeps.pure chained _))
  · refine Keeps.bind chained ?_ fun _ => Keeps.pure chained _
    refine Keeps.bind chained ((arrives_sendRules fd).skbAlloc_keeps _ _)
      fun result => ?_
    cases result with
    | none => exact Keeps.pure chained _
    | some tx =>
        exact Keeps.bind chained (ipSendPacket_mail polls tx _ _ _)
          fun _ => Keeps.pure chained _
  · refine Keeps.get_bind fun net datagram => ?_
    cases found : icmpSearchSocket net (ipSource skb.memory ip) with
    | none => exact arrives_of_eq rfl
    | some target =>
        have different :=
          ne_of_type datagram (icmpSearchSocket_raw found) (by decide)
        exact Keeps.bind chained (modifySock_mail different _)
          (fun _ => Keeps.pure chained (0 : Int)) net datagram

theorem ipLayerDeliver_mail {skb : SockBuff} (place : skb.data = ethHdrLen) :
    KeepsMail fd (ipLayerDeliver poll skb) := by
  have chained := arrives_chained fd
  unfold ipLayerDeliver
  rw [place]
  refine Keeps.ite (Keeps.pure chained _) (Keeps.ite ?_ (Keeps.ite ?_
    (Keeps.ite ?_ (Keeps.ite ?_ ?_))))
  · exact Keeps.bind chained (udpLayerDeliver_mail _) fun _ =>
      Keeps.pure chained _
  · exact Keeps.bind chained (tcpLayerDeliver_mail polls _) fun _ =>
      Keeps.pure chained _
  · exact Keeps.bind chained (icmpDeliver_mail polls _ _) fun _ =>
      Keeps.pure chained _
  · exact Keeps.bind chained (skbFree_mail fd _) fun _ =>
      Keeps.pure chained _
  · exact Keeps.bind chained (skbFree_mail fd _) fun _ =>
      Keeps.pure chained _

theorem netifRx_mail (frame : Frame) (id : Nat) :
    KeepsMail fd (netifRx poll (frame.buffer id)) := by
  have chained := arrives_chained fd
  have place : ((frame.buffer id).pull ethHdrLen).data = ethHdrLen :=
    Nat.zero_add _
  unfold netifRx
  refine Keeps.ite ?_ (Keeps.ite (skbFree_mail fd _) (Keeps.ite ?_
    (skbFree_mail fd _)))
  · exact Keeps.bind chained (arpRecvPacket_mail _) fun _ =>
      Keeps.pure chained _
  · exact Keeps.bind chained (ipLayerDeliver_mail polls place) fun _ =>
      Keeps.pure chained _

end Layers

theorem pollDevice_mail (fd fuel : Nat) : KeepsMail fd (pollDevice fuel) := by
  have chained := arrives_chained fd
  induction fuel with
  | zero => exact Keeps.pure chained ()
  | succ fuel induction =>
      intro net datagram
      simp only [pollDevice, receiveFrame, wp_bind, wp_get]
      cases net.wire with
      | nil => exact chained.refl net
      | cons entry rest =>
          cases entry with
          | none => exact arrives_of_eq rfl
          | some frame =>
              simp only [wp_bind, wp_set, wp_pure]
              have received : Arrives fd net { net with
                  wire := rest, nextId := net.nextId + 1 } :=
                arrives_of_eq rfl
              have delivers := Keeps.bind chained
                (netifRx_mail induction frame net.nextId) fun _ => induction
              exact (wp_bind _ _).mp
                (delivers.after chained datagram received)

theorem ndevPoll_mail (fd : Nat) : KeepsMail fd ndevPoll :=
  Keeps.get_bind fun net datagram => pollDevice_mail fd _ net datagram

section Calls

variable {fd : Nat} {net : Stack} {sock : Socket}
  (opened : getSock net fd = some sock) (dgram : sock.type = .dgram)

include opened in
theorem getSock_of_opened (other : Stack) :
    getSock other fd = other.socks fd := by
  unfold getSock at opened ⊢
  by_cases invalid : fd = 0 ∨ maxSockNum ≤ fd
  · rw [if_pos invalid] at opened
    cases opened
  · rw [if_neg invalid]

include opened dgram

/-- `sendto` stores the address before anything arrives. -/
theorem sendto_mail (data : List UInt8) (address : SockAddr) :
    wp (sendto ndevPoll fd data address) net
      (fun _ final => ∃ arrived later, final.socks fd = some later ∧
        Gains { sock with destination := address } arrived later) anyHalt := by
  have aimed : (net.aimed fd address).socks fd =
      some { sock with destination := address } :=
    Stack.updateSock_self (socks_of_getSock opened) _
  exact ((arrives_sendRules fd).sendto_wp (ndevPoll_mail fd) opened data
    address ⟨_, aimed, dgram⟩).mono (fun _ _ arrives => arrives _ aimed)
    (fun _ stopped => stopped)

end Calls

/-- The outcome of `sock_recv_packet`: nothing is taken, or the first datagram
of what was queued before and what has arrived in the polls. -/
def TakesFirst (fd : Nat) (sock : Socket) (packet : Option SockBuff)
    (final : Stack) : Prop :=
  ∃ arrived later, Gains sock arrived later ∧
    (packet = none ∧ final.socks fd = some later ∨
      ∃ skb rest, packet = some skb ∧ later.rxQu = skb :: rest ∧
        final.socks fd = some { later with rxQu := rest })

theorem Gains.takesFirst {fd : Nat} {sock middle : Socket}
    {arrived : List SockBuff} {packet : Option SockBuff} {final : Stack}
    (gained : Gains sock arrived middle)
    (takes : TakesFirst fd middle packet final) :
    TakesFirst fd sock packet final := by
  obtain ⟨more, later, gainedMore, ends⟩ := takes
  exact ⟨arrived ++ more, later, gained.trans gainedMore, ends⟩

theorem sockRecvLoop_mail {fd fuel : Nat} {timeout : Int} {net : Stack}
    {sock : Socket} (found : net.socks fd = some sock)
    (dgram : sock.type = .dgram) :
    wp (sockRecvLoop ndevPoll fd fuel timeout) net (TakesFirst fd sock)
      anyHalt := by
  induction fuel generalizing net sock timeout with
  | zero => trivial
  | succ fuel induction =>
      simp only [sockRecvLoop, uartRead, wp_bind, wp_get, wp_set, wp_pure,
        wp_ite]
      constructor
      · intro _
        exact ⟨[], sock, .refl sock, .inl ⟨rfl, found⟩⟩
      · intro _
        apply (ndevPoll_mail fd net.nextKey ⟨sock, found, dgram⟩).mono _
          (fun _ stopped => stopped)
        intro _ polled arrives
        obtain ⟨arrived, later, foundLater, gained⟩ := arrives sock found
        have waits : ∀ timeout, wp (sockRecvLoop ndevPoll fd fuel timeout)
            polled (TakesFirst fd sock) anyHalt := fun timeout =>
          (induction foundLater (gained.type.trans dgram)).mono
            (fun _ _ takes => gained.takesFirst takes)
            (fun _ stopped => stopped)
        simp only [sockAt, wp_bind, wp_get, foundLater, wp_pure]
        cases queue : later.rxQu with
        | nil =>
            simp only [wp_ite, wp_pure]
            refine ⟨fun _ => ⟨fun _ => ?_, fun _ => waits _⟩,
              fun _ => waits _⟩
            exact ⟨arrived, later, gained, .inl ⟨rfl, foundLater⟩⟩
        | cons skb rest =>
            simp only [modifySock, wp_bind, wp_modify, wp_pure]
            exact ⟨arrived, later, gained, .inr ⟨skb, rest, rfl, queue,
              Stack.updateSock_self foundLater _⟩⟩

section Calls

variable {fd fuel : Nat} {net : Stack} {sock : Socket}
  (opened : getSock net fd = some sock) (dgram : sock.type = .dgram)

include opened dgram

/-- What is reported is the peer of the socket when the datagram is taken. -/
theorem recvfrom_taken (count : Nat) {queue : List SockBuff}
    (taken : takenFrom fuel fd net = some queue) :
    ∃ skb rest arrived later final, queue = skb :: rest ∧
      Gains sock arrived later ∧ later.rxQu = skb :: rest ∧
      final.socks fd = some { later with rxQu := rest } ∧
      recvfrom ndevPoll fuel fd count net =
        .ok ((min skb.size count, skb.payload.take count, later.destination),
          final) := by
  unfold takenFrom at taken
  cases outcome : sockRecvPacket ndevPoll fuel fd net with
  | error reason => simp [outcome] at taken
  | ok pair =>
      obtain ⟨packet, final⟩ := pair
      obtain ⟨arrived, later, gained, ends⟩ := wp_of_ok
        (sockRecvLoop_mail (socks_of_getSock opened) dgram) outcome
      rcases ends with ⟨rfl, -⟩ | ⟨skb, rest, rfl, queued, found⟩
      · simp [outcome] at taken
      · simp only [outcome, Option.some.injEq] at taken
        refine ⟨skb, rest, arrived, later, { final with
          freed := final.freed ++ [skb.id] }, ?_, gained, queued, found, ?_⟩
        · rw [← taken, Stack.queue, found]
          rfl
        · rw [recvfrom, run_bind run_get]
          simp only [opened]
          rw [run_bind outcome]
          simp only
          rw [run_bind (sockAt_eq found)]
          rfl

theorem recvfrom_quiet (count : Nat) (quiet : takenFrom fuel fd net = none) :
    wp (recvfrom ndevPoll fuel fd count) net
      (fun _ final => ∃ arrived later, final.socks fd = some later ∧
        Gains sock arrived later) anyHalt := by
  unfold takenFrom at quiet
  rw [recvfrom, wp_bind, wp_get]
  simp only [opened]
  rw [wp_bind]
  unfold wp
  cases outcome : sockRecvPacket ndevPoll fuel fd net with
  | error reason => trivial
  | ok pair =>
      obtain ⟨packet, final⟩ := pair
      obtain ⟨arrived, later, gained, ends⟩ := wp_of_ok
        (sockRecvLoop_mail (socks_of_getSock opened) dgram) outcome
      rcases ends with ⟨rfl, found⟩ | ⟨skb, rest, rfl, -, -⟩
      · exact ⟨arrived, later, found, gained⟩
      · simp [outcome] at quiet

end Calls

/-- The invariant. -/
structure Addressed (fd : Nat) (mail : Mail) : Prop where
  attributed : mail.attributed = true
  peer : ∀ net ∈ mail.net, ∃ sock, getSock net fd = some sock ∧
    sock.type = .dgram ∧ sock.destination.peer = mail.last

theorem queue_of_socks {net : Stack} {fd : Nat} {sock : Socket}
    (found : net.socks fd = some sock) : net.queue fd = sock.rxQu := by
  rw [Stack.queue, found]
  rfl

theorem Gains.drop {net : Stack} {fd : Nat} {sock later : Socket}
    {arrived : List SockBuff} (gained : Gains sock arrived later)
    (queued : net.queue fd = sock.rxQu) :
    later.rxQu.drop (net.queue fd).length = arrived := by
  rw [gained.queue, queued, List.drop_left]

theorem addressed_arrive {fd : Nat} {mail : Mail} {net final : Stack}
    {sock later settled : Socket} {arrived : List SockBuff}
    (attributed : mail.attributed = true)
    (opened : getSock net fd = some sock) (dgram : later.type = .dgram)
    (peer : later.destination.peer = lastSender mail.last arrived)
    (queued : later.rxQu.drop (net.queue fd).length = arrived)
    (found : final.socks fd = some settled)
    (type : settled.type = later.type)
    (destination : settled.destination = later.destination) :
    Addressed fd (mail.arrive fd net final later.rxQu) := by
  refine ⟨attributed, ?_⟩
  rintro _ ⟨⟩
  refine ⟨settled, (getSock_of_opened opened final).trans found,
    type.trans dgram, ?_⟩
  rw [destination, peer, Mail.arrive, queued]

section Step

variable {fuel fd : Nat} {mail : Mail} (addressed : Addressed fd mail)
  {net : Stack} (running : mail.net = some net)

include addressed running

theorem Addressed.polled : Addressed fd (mailStep fuel fd .poll mail) := by
  obtain ⟨sock, opened, dgram, peer⟩ := addressed.peer net running
  have present := socks_of_getSock opened
  simp only [mailStep, running]
  cases outcome : ndevPoll net with
  | error reason => exact ⟨addressed.attributed, nofun⟩
  | ok pair =>
      obtain ⟨_, final⟩ := pair
      obtain ⟨arrived, later, found, gained⟩ := wp_of_ok
        (ndevPoll_mail fd net ⟨sock, present, dgram⟩) outcome sock present
      simp only [queue_of_socks found]
      exact addressed_arrive addressed.attributed opened
        (gained.type.trans dgram) (by rw [gained.peer, peer])
        (gained.drop (queue_of_socks present)) found rfl rfl

theorem Addressed.sent (data : List UInt8) (address : SockAddr) :
    Addressed fd (mailStep fuel fd (.sendto data address) mail) := by
  obtain ⟨sock, opened, dgram, -⟩ := addressed.peer net running
  have queued := queue_of_socks (socks_of_getSock opened)
  simp only [mailStep, running]
  cases outcome : sendto ndevPoll fd data address net with
  | error reason => exact ⟨addressed.attributed, nofun⟩
  | ok pair =>
      obtain ⟨_, final⟩ := pair
      obtain ⟨arrived, later, found, gained⟩ := wp_of_ok
        (sendto_mail opened dgram data address) outcome
      simp only [queue_of_socks found]
      exact addressed_arrive addressed.attributed opened
        (gained.type.trans dgram) gained.peer (gained.drop queued) found rfl
        rfl

/-- A datagram is returned with its sender exactly under the condition. -/
theorem Addressed.received (count : Nat) :
    (FromLast fuel fd (.recvfrom count) mail →
      Addressed fd (mailStep fuel fd (.recvfrom count) mail)) ∧
    ((mailStep fuel fd (.recvfrom count) mail).attributed = true →
      FromLast fuel fd (.recvfrom count) mail) := by
  obtain ⟨sock, opened, dgram, peer⟩ := addressed.peer net running
  have queued := queue_of_socks (socks_of_getSock opened)
  simp only [mailStep, running]
  cases taken : takenFrom fuel fd net with
  | none =>
      have quiet : FromLast fuel fd (.recvfrom count) mail := by
        intro stack isRunning _ _ queue member
        rw [running] at isRunning
        cases isRunning
        rw [taken] at member
        cases member
      refine ⟨fun _ => ?_, fun _ => quiet⟩
      cases outcome : recvfrom ndevPoll fuel fd count net with
      | error reason => exact ⟨addressed.attributed, nofun⟩
      | ok pair =>
          obtain ⟨result, final⟩ := pair
          obtain ⟨arrived, later, found, gained⟩ := wp_of_ok
            (recvfrom_quiet opened dgram count taken) outcome
          simp only [queue_of_socks found]
          exact addressed_arrive addressed.attributed opened
            (gained.type.trans dgram) (by rw [gained.peer, peer])
            (gained.drop queued) found rfl rfl
  | some queue =>
      obtain ⟨skb, rest, arrived, later, final, rfl, gained, first, found,
        outcome⟩ := recvfrom_taken opened dgram count taken
      have reported : later.destination.peer =
          lastSender mail.last arrived := by
        rw [gained.peer, peer]
      have behind : (skb :: rest).drop (net.queue fd).length = arrived := by
        rw [← first]
        exact gained.drop queued
      simp only [outcome]
      constructor
      · intro fromLast
        have sender : skb.sender = later.destination.peer := by
          have holds := fromLast net running count rfl (skb :: rest) taken skb
            rfl
          rw [holds, behind, reported]
        have settled := addressed_arrive addressed.attributed opened
          (gained.type.trans dgram) reported (gained.drop queued) found rfl rfl
        rw [first] at settled
        refine ⟨?_, settled.peer⟩
        simp [addressed.attributed, sender]
      · intro attributed stack isRunning _ _ queue member other firstOther
        rw [running] at isRunning
        cases isRunning
        rw [taken] at member
        cases member
        cases firstOther
        rw [behind, ← reported]
        simpa using (Bool.and_eq_true_iff.mp attributed).2

end Step

/-- In a run of calls on a datagram socket every datagram is returned with its
own sender, exactly if each is from the peer that was received from or sent to
last when it is taken. -/
theorem mailStep_attributed_iff (fuel fd : Nat) (net : Stack) (sock : Socket)
    (opened : getSock net fd = some sock) (dgram : sock.type = .dgram)
    (calls : List MailCall) :
    Trace.Throughout (mailStep fuel fd) (fun mail => mail.attributed = true)
        calls ⟨some net, sock.destination.peer, true⟩ ↔
      Trace.Allowed (mailStep fuel fd) (FromLast fuel fd) calls
        ⟨some net, sock.destination.peer, true⟩ := by
  have stopped : ∀ call mail, mail.net = none →
      mailStep fuel fd call mail = mail := by
    intro call mail ended
    simp [mailStep, ended]
  have keeps : ∀ call mail, Addressed fd mail → FromLast fuel fd call mail →
      Addressed fd (mailStep fuel fd call mail) := by
    intro call mail addressed fromLast
    cases running : mail.net with
    | none =>
        rw [stopped call mail running]
        exact addressed
    | some net =>
        cases call with
        | poll => exact addressed.polled running
        | recvfrom count => exact (addressed.received running count).1 fromLast
        | sendto data address => exact addressed.sent running data address
  apply Trace.throughout_iff_allowed keeps
  · exact fun _ addressed => addressed.attributed
  · intro call mail addressed attributed net running count isRecvfrom
    subst isRecvfrom
    exact (addressed.received running count).2 attributed net running count rfl
  · refine ⟨rfl, ?_⟩
    rintro _ ⟨⟩
    exact ⟨sock, opened, dgram, rfl⟩

/-- A datagram of a host at 192.168.0.`host` for port 69. -/
def datagramFrom (host : UInt8) : Frame :=
  .ofBytes ([2, 0, 0, 0, 0, 1, 2, 0, 0, 0, 0, host, 8, 0] ++
    [0x45, 0, 0, 32, 0, 0, 0, 0, 64, 17, 0, 0, 192, 168, 0, host] ++
    [192, 168, 0, 1, 4, 0, 0, 69, 0, 12, 0, 0, 1, 2, 3, 4])

/-- Two datagrams in two polls. -/
theorem mailStep_attributed_iff_apart :
    Trace.Throughout (mailStep 1 1) (fun mail => mail.attributed = true)
      [.recvfrom 16, .recvfrom 16]
      ⟨some { oneSocket with
        wire := [some (datagramFrom 2), none, some (datagramFrom 3)] },
        (0, 0), true⟩ := by
  apply (mailStep_attributed_iff 1 1 { oneSocket with
    wire := [some (datagramFrom 2), none, some (datagramFrom 3)] } boundSocket
    rfl rfl _).mpr
  refine Trace.allowed_cons.mpr ⟨?_, Trace.allowed_cons.mpr ⟨?_,
    Trace.allowed_nil⟩⟩
  · apply fromLast_recvfrom.mpr
    decide +kernel
  · apply fromLast_recvfrom.mpr
    decide +kernel

/-- Two datagrams in one poll: the first is returned with the sender of the
second. -/
theorem not_mailStep_attributed :
    ¬ Trace.Throughout (mailStep 1 1) (fun mail => mail.attributed = true)
      [.recvfrom 16]
      ⟨some { oneSocket with
        wire := [some (datagramFrom 2), some (datagramFrom 3)] },
        (0, 0), true⟩ := by
  intro throughout
  have attributed := throughout [.recvfrom 16] [] rfl
  exact absurd attributed (by decide)

end Witos.Net
