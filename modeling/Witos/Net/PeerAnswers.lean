import Witos.Net.Delivery
import Witos.Net.TcpSafety

/-!
# What the segments of the peer do to a socket

The state of a socket that is not in `TCPS_SYN_SENT` follows the segments for
it, in the order in which they arrive, whatever else arrives between them and
wherever the delivery of a frame polls for others.
-/

namespace Witos.Net

open Library Library.Effect

/-- The state behind a segment for the socket.  Where the source has a `BUG()`
it does not matter. -/
def stateBehind (segment : SockBuff) (state : TcpState) : TcpState :=
  if segment.dataSize ≠ 0 then state
  else
    match flagCase (tcpFlags segment.memory segment.data) with
    | .fin =>
        (stateAfterFin (tcpFlags segment.memory segment.data) state).getD state
    | .ack => stateAfterAck state
    | .syn => state
    | .data => state
    | .unlisted => state

/-- The state of a socket behind a frame. -/
def stateBehindFrame (net : Stack) (fd : Nat) (state : TcpState)
    (skb : SockBuff) : TcpState :=
  match segmentOf skb with
  | none => state
  | some segment =>
      if segment.target net = some fd then stateBehind segment state
      else state

/-- The state of a socket behind the frames that a device hands over; the
number of a buffer does not matter. -/
def answered (net : Stack) (fd : Nat) (state : TcpState)
    (frames : List (Option Frame)) : TcpState :=
  frames.foldl (fun state entry =>
    match entry with
    | none => state
    | some frame => stateBehindFrame net fd state (frame.buffer 0)) state

/-- The socket is in the state. -/
def Stack.InState (net : Stack) (fd : Nat) (state : TcpState) : Prop :=
  ∃ sock, net.socks fd = some sock ∧ sock.state = state

theorem Stack.InState.isSome {net : Stack} {fd : Nat} {state : TcpState}
    (inState : net.InState fd state) : (net.socks fd).isSome := by
  obtain ⟨sock, found, -⟩ := inState
  rw [found]
  rfl

theorem Stack.InState.unique {net : Stack} {fd : Nat} {state other : TcpState}
    (inState : net.InState fd state) (inOther : net.InState fd other) :
    state = other := by
  obtain ⟨sock, found, rfl⟩ := inState
  obtain ⟨sock', found', rfl⟩ := inOther
  rw [found] at found'
  cases found'
  rfl

/-- The sockets have the ports that they had. -/
def SamePorts (net final : Stack) : Prop :=
  ∀ port, tcpSearchSocket final port = tcpSearchSocket net port

/-- The frames that were taken from the wire led the socket from the state
`start` to its state. -/
structure Follows (fd : Nat) (start : TcpState) (net final : Stack) :
    Prop where
  ports : SamePorts net final
  frames : ∃ taken, net.wire = taken ++ final.wire ∧
    final.InState fd (answered net fd start taken)

/-- A socket that is not waiting for the answer to its `SYN`. -/
def FollowsFrames (fd : Nat) (net final : Stack) : Prop :=
  ∀ start ≠ .synSent, net.InState fd start → Follows fd start net final

theorem stateBehind_ne_synSent (segment : SockBuff) {state : TcpState}
    (other : state ≠ .synSent) : stateBehind segment state ≠ .synSent := by
  unfold stateBehind
  split
  · exact other
  · split
    · unfold stateAfterFin
      split
      · split
        · exact TcpState.noConfusion
        · exact TcpState.noConfusion
      · exact TcpState.noConfusion
      · exact TcpState.noConfusion
      · exact other
    · unfold stateAfterAck
      split
      · exact TcpState.noConfusion
      · exact TcpState.noConfusion
      · exact TcpState.noConfusion
      · exact other
    · exact other
    · exact other
    · exact other

theorem stateBehindFrame_ne_synSent (net : Stack) (fd : Nat) (skb : SockBuff)
    {state : TcpState} (other : state ≠ .synSent) :
    stateBehindFrame net fd state skb ≠ .synSent := by
  unfold stateBehindFrame
  split
  · exact other
  · split
    · exact stateBehind_ne_synSent _ other
    · exact other

theorem stateBehindFrame_buffer (net : Stack) (fd : Nat) (state : TcpState)
    (frame : Frame) (id : Nat) :
    stateBehindFrame net fd state (frame.buffer id) =
      stateBehindFrame net fd state (frame.buffer 0) := by
  rw [stateBehindFrame, segmentOf_buffer, stateBehindFrame]
  cases segmentOf (frame.buffer 0) with
  | none => rfl
  | some segment => rfl

theorem stateBehindFrame_congr {net final : Stack} (same : SamePorts net final)
    (fd : Nat) (state : TcpState) (skb : SockBuff) :
    stateBehindFrame final fd state skb =
      stateBehindFrame net fd state skb := by
  unfold stateBehindFrame SockBuff.target
  simp only [same _]

theorem answered_congr {net final : Stack} (same : SamePorts net final)
    (fd : Nat) (state : TcpState) (frames : List (Option Frame)) :
    answered final fd state frames = answered net fd state frames := by
  unfold answered
  simp only [stateBehindFrame_congr same]

theorem answered_append (net : Stack) (fd : Nat) (state : TcpState)
    (first second : List (Option Frame)) :
    answered net fd state (first ++ second) =
      answered net fd (answered net fd state first) second :=
  List.foldl_append

theorem answered_some (net : Stack) (fd id : Nat) (state : TcpState)
    (frame : Frame) (frames : List (Option Frame)) :
    answered net fd state (some frame :: frames) =
      answered net fd (stateBehindFrame net fd state (frame.buffer id))
        frames := by
  rw [stateBehindFrame_buffer]
  rfl

theorem answered_keeps {kept : TcpState → Prop}
    (each : ∀ segment state, kept state → kept (stateBehind segment state))
    (net : Stack) (fd : Nat) (frames : List (Option Frame)) {state : TcpState}
    (start : kept state) : kept (answered net fd state frames) := by
  induction frames generalizing state with
  | nil => exact start
  | cons entry frames induction =>
      cases entry with
      | none => exact induction start
      | some frame =>
          apply induction
          dsimp only [stateBehindFrame]
          split
          · exact start
          · split
            · exact each _ _ start
            · exact start

theorem answered_ne_synSent (net : Stack) (fd : Nat)
    (frames : List (Option Frame)) {state : TcpState}
    (other : state ≠ .synSent) : answered net fd state frames ≠ .synSent := by
  have each : ∀ (segment : SockBuff) (state : TcpState), state ≠ .synSent →
      stateBehind segment state ≠ .synSent :=
    fun segment _ => stateBehind_ne_synSent segment
  exact answered_keeps each net fd frames other

theorem answered_ended (net : Stack) (fd : Nat) (frames : List (Option Frame))
    {state : TcpState} (ended : state = .closed ∨ state = .timeWait) :
    answered net fd state frames = state := by
  have each : ∀ (segment : SockBuff) (other : TcpState), other = state →
      stateBehind segment other = state := by
    rintro segment _ rfl
    unfold stateBehind
    split
    · rfl
    · rcases ended with rfl | rfl
      · split <;> rfl
      · split <;> rfl
  exact answered_keeps each net fd frames rfl

section Relation

variable {fd : Nat} {net middle final : Stack} {start : TcpState}

theorem Follows.trans (before : Follows fd start net middle)
    (other : start ≠ .synSent) (after : FollowsFrames fd middle final) :
    Follows fd start net final := by
  obtain ⟨taken, wire, state⟩ := before.frames
  have still := answered_ne_synSent net fd taken other
  have later := after _ still state
  obtain ⟨more, rest, last⟩ := later.frames
  refine ⟨fun port => (later.ports port).trans (before.ports port),
    taken ++ more, ?_, ?_⟩
  · rw [wire, rest, List.append_assoc]
  · rw [answered_append]
    rw [answered_congr before.ports] at last
    exact last

theorem Follows.of_state (wire : final.wire = net.wire)
    (ports : SamePorts net final) (state : final.InState fd start) :
    Follows fd start net final :=
  ⟨ports, [], wire.symm, state⟩

theorem samePorts_updateSock (net : Stack) (other : Nat)
    {change : Socket → Socket}
    (type : ∀ sock, (change sock).type = sock.type)
    (source : ∀ sock, (change sock).source = sock.source) :
    SamePorts net (net.updateSock other change) := by
  intro port
  unfold tcpSearchSocket searchSocket
  congr 1
  funext place
  by_cases same : place = other
  · rw [same]
    cases found : net.socks other with
    | none => simp only [Stack.updateSock, if_pos, found, Option.map_none]
    | some sock =>
        rw [Stack.updateSock_self found]
        simp only [Option.any_some, type, source]
  · rw [net.updateSock_of_ne same]

theorem inState_updateSock {other : Nat} {change : Socket → Socket}
    (here : net.InState fd start)
    (keeps : other = fd → ∀ sock, sock.state = start →
      (change sock).state = start) :
    (net.updateSock other change).InState fd start := by
  obtain ⟨sock, found, state⟩ := here
  by_cases same : fd = other
  · subst same
    exact ⟨change sock, Stack.updateSock_self found change,
      keeps rfl sock state⟩
  · exact ⟨sock, (net.updateSock_of_ne same change).trans found, state⟩

theorem followsFrames_updateSock (net : Stack) (other : Nat)
    {change : Socket → Socket}
    (type : ∀ sock, (change sock).type = sock.type)
    (source : ∀ sock, (change sock).source = sock.source)
    (state : ∀ sock, (change sock).state = sock.state) :
    FollowsFrames fd net (net.updateSock other change) := by
  intro start _ here
  refine Follows.of_state rfl
    (samePorts_updateSock net other type source) ?_
  apply inState_updateSock here
  intro _ sock same
  rw [state, same]

theorem followsFrames_of_eq (socks : final.socks = net.socks)
    (wire : final.wire = net.wire) : FollowsFrames fd net final := by
  intro start _ here
  apply Follows.of_state wire
  · intro port
    unfold tcpSearchSocket searchSocket
    rw [socks]
  · obtain ⟨sock, found, state⟩ := here
    exact ⟨sock, (congrFun socks fd).trans found, state⟩

theorem followsFrames_chained (fd : Nat) :
    Chained (fun _ => True) (FollowsFrames fd) where
  refl _ := followsFrames_of_eq rfl rfl
  trans before after start other here :=
    (before start other here).trans other after
  inv _ _ := trivial

theorem followsFrames_rules (fd : Nat) :
    ReceiveRules (fun _ => True) (FollowsFrames fd) (fun _ => True)
      (fun _ => True) where
  chained := followsFrames_chained fd
  count _ _ _ _ := followsFrames_of_eq rfl rfl
  allocate _ := followsFrames_of_eq rfl rfl
  fresh _ _ := trivial
  transmit _ _ _ _ := followsFrames_of_eq rfl rfl
  free _ _ _ := followsFrames_of_eq rfl rfl
  advance net other _ := followsFrames_updateSock net other (fun _ => rfl)
    (fun _ => rfl) (fun _ => rfl)
  arp _ _ _ := trivial
  learn _ _ := followsFrames_of_eq rfl rfl
  address net other _ _ := followsFrames_updateSock net other (fun _ => rfl)
    (fun _ => rfl) (fun _ => rfl)
  enqueue net other _ _ _ := followsFrames_updateSock net other
    (fun _ => rfl) (fun _ => rfl) (fun _ => rfl)
  icmp _ _ _ _ _ _ _ := trivial

end Relation

section Deliver

variable {fd : Nat} {poll : NetM Unit}
  (polls : Keeps (fun _ => True) (FollowsFrames fd) anyHalt poll)
  {net middle : Stack} {start : TcpState} (other : start ≠ .synSent)

include polls other

theorem tcpSendAck_follows (before : Follows fd start net middle)
    (place : Nat) :
    wp (tcpSendAck poll place) middle
      (fun _ final => Follows fd start net final) anyHalt := by
  refine ((followsFrames_rules fd).toSendRules.tcpSendAck_wp polls place
    (fun _ => trivial) trivial (fun _ _ _ _ _ _ _ _ => trivial)).mono ?_
    (fun _ stopped => stopped)
  intro _ final after
  exact before.trans other after

/-- A `SYN` for the socket itself ends in a `BUG()`. -/
theorem tcpDeliverSyn_follows (here : net.InState fd start) (skb : SockBuff)
    (tcp place : Nat) :
    wp (tcpDeliverSyn poll skb tcp place) net
      (fun _ final => Follows fd start net final) anyHalt := by
  simp only [tcpDeliverSyn, setAckNum, modifySock, skbFree, sockAt, setState,
    wp_bind, wp_modify]
  have acked : Follows fd start net { net.updateSock place (fun sock =>
      { sock with ackNum := add32 (tcpSeqNum skb.memory tcp) 1 }) with
        freed := net.freed ++ [skb.id] } := by
    refine Follows.of_state rfl ?_ ?_
    · exact samePorts_updateSock net place (fun _ => rfl) (fun _ => rfl)
    · exact inState_updateSock here (fun _ _ state => state)
  refine (tcpSendAck_follows polls other acked place).mono ?_
    (fun _ stopped => stopped)
  intro _ final follows
  obtain ⟨taken, wire, inState⟩ := follows.frames
  rw [wp_get]
  cases found : final.socks place with
  | none => trivial
  | some sock =>
      simp only [wp_pure, wp_ite, wp_modify, wp_throw]
      refine ⟨fun synSent => ?_, fun _ => trivial⟩
      refine ⟨?_, taken, wire, ?_⟩
      · intro port
        have changed : SamePorts final (final.updateSock place fun sock =>
            { sock with state := .established }) := by
          apply samePorts_updateSock
          · exact fun _ => rfl
          · exact fun _ => rfl
        exact (changed port).trans (follows.ports port)
      · apply inState_updateSock inState
        rintro rfl _ _
        obtain ⟨sock', found', state⟩ := inState
        rw [found] at found'
        cases found'
        have never := answered_ne_synSent net place taken other
        exact absurd (state.symm.trans synSent) never

theorem tcpDeliverData_follows (here : net.InState fd start) (skb : SockBuff)
    (tcp place : Nat) :
    wp (tcpDeliverData poll skb tcp place) net
      (fun _ final => Follows fd start net final) anyHalt := by
  simp only [tcpDeliverData, setAckNum, modifySock, listAddTail, wp_bind,
    wp_modify, wp_pure]
  apply tcpSendAck_follows polls other
  have acked : FollowsFrames fd net (net.updateSock place fun sock =>
      { sock with ackNum := add32 (tcpSeqNum skb.memory tcp) skb.size }) := by
    apply followsFrames_updateSock
    · exact fun _ => rfl
    · exact fun _ => rfl
    · exact fun _ => rfl
  exact (acked start other here).trans other
    (followsFrames_updateSock _ place (fun _ => rfl) (fun _ => rfl)
      (fun _ => rfl))

omit polls other in
/-- A `FIN` without data: the state of the socket that it is for is the new
one before the acknowledgement is sent. -/
theorem follows_bareFin (here : net.InState fd start) (segment : SockBuff)
    {place : Nat} {sock : Socket} {state : TcpState}
    (found : net.socks place = some sock)
    (fin : flagCase (tcpFlags segment.memory segment.data) = .fin)
    (bare : segment.dataSize = 0)
    (after : stateAfterFin (tcpFlags segment.memory segment.data) sock.state =
      some state) (ackNum : Nat) :
    Follows fd (if place = fd then stateBehind segment start else start) net
      ((net.updateSock place fun sock =>
        { sock with ackNum := ackNum }).updateSock place fun sock =>
          { sock with state := state }) := by
  have changed : stateBehind segment start =
      (stateAfterFin (tcpFlags segment.memory segment.data) start).getD
        start := by
    rw [stateBehind, if_neg (not_not_intro bare), fin]
  refine Follows.of_state rfl ?_ ?_
  · have numbered : SamePorts net (net.updateSock place fun sock =>
        { sock with ackNum := ackNum }) := by
      apply samePorts_updateSock
      · exact fun _ => rfl
      · exact fun _ => rfl
    have stated (middle : Stack) : SamePorts middle
        (middle.updateSock place fun sock => { sock with state := state }) := by
      apply samePorts_updateSock
      · exact fun _ => rfl
      · exact fun _ => rfl
    intro port
    exact (stated _ port).trans (numbered port)
  · by_cases same : place = fd
    · subst same
      obtain ⟨sock', found', isStart⟩ := here
      rw [found] at found'
      cases found'
      rw [if_pos rfl, changed, ← isStart, after]
      exact ⟨_, Stack.updateSock_self (Stack.updateSock_self found _) _, rfl⟩
    · rw [if_neg same]
      apply inState_updateSock
      · exact inState_updateSock here (fun _ _ state => state)
      · intro mine
        exact absurd mine same

/-- The state that `tcp_layer_deliver` leaves behind: the new one if the
segment is for the socket. -/
theorem tcpDeliverFin_follows (here : net.InState fd start)
    (segment : SockBuff) (place : Nat)
    (fin : flagCase (tcpFlags segment.memory segment.data) = .fin) :
    wp (tcpDeliverFin poll
        (segment.pull (tcpHeaderLen segment.memory segment.data)) segment.data
        place) net
      (fun _ final => Follows fd
        (if place = fd then stateBehind segment start else start) net final)
      anyHalt := by
  simp only [tcpDeliverFin, setAckNum, modifySock, skbFree, sockAt, setState,
    listAddTail]
  obtain ⟨pulled, isPulled⟩ : ∃ pulled, pulled =
      segment.pull (tcpHeaderLen segment.memory segment.data) := ⟨_, rfl⟩
  have memory : pulled.memory = segment.memory := by
    rw [isPulled]
    rfl
  have size : segment.dataSize = pulled.size := by
    rw [isPulled]
    rfl
  rw [← isPulled, memory]
  have acked (ackNum : Nat) : FollowsFrames fd net (net.updateSock place
      fun sock => { sock with ackNum := ackNum }) := by
    apply followsFrames_updateSock
    · exact fun _ => rfl
    · exact fun _ => rfl
    · exact fun _ => rfl
  by_cases data : 0 < pulled.size
  · have unchanged : stateBehind segment start = start := by
      apply if_pos
      rw [size]
      exact Nat.ne_of_gt data
    simp only [data, if_true, wp_bind, wp_modify, wp_pure, unchanged, ite_self]
    apply tcpSendAck_follows polls other
    exact (acked _ start other here).trans other
      (followsFrames_updateSock _ place (fun _ => rfl) (fun _ => rfl)
        (fun _ => rfl))
  · simp only [data, if_false, wp_bind, wp_modify, wp_get]
    cases found : net.socks place with
    | none => simp [Stack.updateSock, found, anyHalt]
    | some sock =>
        simp only [Stack.updateSock_self found, wp_pure]
        cases after :
            stateAfterFin (tcpFlags segment.memory segment.data) sock.state with
        | none => trivial
        | some state =>
            simp only [wp_bind, wp_modify, wp_pure]
            have bare : segment.dataSize = 0 := by omega
            have still : (if place = fd then stateBehind segment start
                else start) ≠ .synSent := by
              split
              · exact stateBehind_ne_synSent segment other
              · exact other
            apply tcpSendAck_follows polls still
            have follows := follows_bareFin here segment found fin bare after
              (add32 (tcpSeqNum segment.memory segment.data) 1)
            exact follows.trans still (followsFrames_of_eq rfl rfl)

omit polls other in
theorem tcpDeliverAck_follows (here : net.InState fd start) (skb : SockBuff)
    (place : Nat) :
    wp (tcpDeliverAck skb place) net
      (fun _ final => Follows fd
        (if place = fd then stateAfterAck start else start) net final)
      anyHalt := by
  simp only [tcpDeliverAck, skbFree, modifySock, wp_bind, wp_modify]
  refine Follows.of_state rfl ?_ ?_
  · exact samePorts_updateSock _ place (fun _ => rfl) (fun _ => rfl)
  · by_cases same : place = fd
    · subst same
      obtain ⟨sock, found, rfl⟩ := here
      have still : Stack.socks { net with freed := net.freed ++ [skb.id] }
          place = some sock := found
      rw [if_pos rfl]
      exact ⟨_, Stack.updateSock_self still _, rfl⟩
    · rw [if_neg same]
      apply inState_updateSock
      · exact here
      · intro mine
        exact absurd mine same

theorem tcpLayerDeliver_follows (here : net.InState fd start)
    (segment : SockBuff) :
    wp (tcpLayerDeliver poll segment) net
      (fun _ final => Follows fd
        (if segment.target net = some fd then stateBehind segment start
          else start) net final) anyHalt := by
  simp only [tcpLayerDeliver, wp_bind, wp_get]
  cases target : segment.target net with
  | none =>
      rw [show tcpSearchSocket net (dstPort (segment.pull (tcpHeaderLen
        segment.memory segment.data)).memory segment.data) = none from target]
      have freed : FollowsFrames fd net { net with
          freed := net.freed ++ [segment.id] } := followsFrames_of_eq rfl rfl
      have notMine : none ≠ some fd := (Option.some_ne_none fd).symm
      rw [if_neg notMine]
      exact freed start other here
  | some place =>
      rw [show tcpSearchSocket net (dstPort (segment.pull (tcpHeaderLen
        segment.memory segment.data)).memory segment.data) = some place
        from target]
      have memory : (segment.pull (tcpHeaderLen segment.memory
        segment.data)).memory = segment.memory := rfl
      simp only [memory, Option.some.injEq]
      cases flags : flagCase (tcpFlags segment.memory segment.data) with
      | syn =>
          have unchanged : stateBehind segment start = start := by
            simp [stateBehind, flags]
          simp only [wp_bind, wp_pure, unchanged, ite_self]
          exact tcpDeliverSyn_follows polls other here _ _ place
      | fin =>
          simp only [wp_bind, wp_pure]
          exact tcpDeliverFin_follows polls other here segment place flags
      | ack =>
          by_cases empty : segment.dataSize = 0
          · have acked : stateBehind segment start = stateAfterAck start := by
              rw [stateBehind, if_neg (not_not_intro empty), flags]
            have empty : (segment.pull (tcpHeaderLen segment.memory
              segment.data)).size = 0 := empty
            simp only [empty, if_true, wp_bind, wp_pure, acked]
            exact tcpDeliverAck_follows here _ place
          · have unchanged : stateBehind segment start = start :=
              if_pos empty
            have data : ¬(segment.pull (tcpHeaderLen segment.memory
              segment.data)).size = 0 := empty
            simp only [data, if_false, wp_bind, wp_pure, unchanged, ite_self]
            exact tcpDeliverData_follows polls other here _ _ place
      | data =>
          have unchanged : stateBehind segment start = start := by
            simp [stateBehind, flags]
          simp only [wp_bind, wp_pure, unchanged, ite_self]
          exact tcpDeliverData_follows polls other here _ _ place
      | unlisted =>
          have unchanged : stateBehind segment start = start := by
            simp [stateBehind, flags]
          simp only [wp_pure, unchanged, ite_self]
          exact followsFrames_of_eq rfl rfl start other here

theorem netifRx_follows (here : net.InState fd start) (skb : SockBuff) :
    wp (netifRx poll skb) net
      (fun _ final => Follows fd (stateBehindFrame net fd start skb) net
        final) anyHalt := by
  cases segment : segmentOf skb with
  | none =>
      have unchanged : stateBehindFrame net fd start skb = start := by
        rw [stateBehindFrame, segment]
      rw [unchanged]
      refine ((followsFrames_rules fd).netifRx_keeps polls skb trivial segment
        net trivial).mono ?_ (fun _ stopped => stopped)
      intro _ final follows
      exact follows start other here
  | some found =>
      have changed : stateBehindFrame net fd start skb =
          if found.target net = some fd then stateBehind found start
          else start := by
        rw [stateBehindFrame, segment]
      rw [netifRx_segment_wp segment, changed]
      exact tcpLayerDeliver_follows polls other here found

end Deliver

/-- The frames that a poll takes, and those that are taken while an address is
resolved within it, are followed in order. -/
theorem pollDevice_follows (fd fuel : Nat) :
    Keeps (fun _ => True) (FollowsFrames fd) anyHalt (pollDevice fuel) := by
  have chained := followsFrames_chained fd
  induction fuel with
  | zero => exact Keeps.pure chained ()
  | succ fuel induction =>
      intro net _
      unfold FollowsFrames
      refine wp_forall (fun _ => trivial) fun start => ?_
      refine wp_forall (fun _ => trivial) fun other => ?_
      refine wp_forall (fun _ => trivial) fun here => ?_
      simp only [pollDevice, receiveFrame, wp_bind, wp_get]
      cases wire : net.wire with
      | nil => exact chained.refl net start other here
      | cons entry rest =>
          cases entry with
          | none => exact ⟨fun _ => rfl, [none], wire, here⟩
          | some frame =>
              simp only [wp_bind, wp_set, wp_pure]
              have received : Stack.InState { net with
                  wire := rest, nextId := net.nextId + 1 } fd start := here
              have still := stateBehindFrame_ne_synSent { net with
                wire := rest, nextId := net.nextId + 1 } fd
                (frame.buffer net.nextId) other
              refine (netifRx_follows induction other received
                (frame.buffer net.nextId)).mono ?_ (fun _ stopped => stopped)
              intro _ middle delivered
              refine (induction middle trivial).mono ?_
                (fun _ stopped => stopped)
              intro _ final after
              obtain ⟨ports, taken, shorter, inState⟩ :=
                delivered.trans still after
              refine ⟨ports, some frame :: taken, ?_, ?_⟩
              · rw [wire, List.cons_append]
                exact congrArg _ shorter
              · rw [answered_some net fd net.nextId]
                exact inState

theorem ndevPoll_follows (fd : Nat) :
    Keeps (fun _ => True) (FollowsFrames fd) anyHalt ndevPoll :=
  Keeps.get_bind fun net _ => pollDevice_follows fd net.wire.length net trivial

end Witos.Net
