import Witos.Library.Trace
import Witos.Net.PeerAnswers

/-!
# The life of a descriptor

Only `socket` and `sk_close` change which slots of `g_sock_fds` are in use.
`sk_close` decides by the field `state`, which `socket` sets for stream sockets
only, and it returns without freeing anything when the answer to its `FIN` does
not come in time.
-/

namespace Witos.Net

open Library Library.Effect

section Calls

variable {inv : Stack → Prop} {related : Stack → Stack → Prop}

theorem tcpWaitForState_keeps (chained : Chained inv related)
    (polls : Keeps inv related anyHalt ndevPoll) (fd : Nat) (state : TcpState)
    (rounds : Nat) :
    Keeps inv related anyHalt (tcpWaitForState ndevPoll fd state rounds) := by
  induction rounds with
  | zero => exact Keeps.pure chained _
  | succ rounds induction =>
      refine Keeps.bind chained polls fun _ => ?_
      refine Keeps.bind chained (sockAt_keeps chained fd) fun sock => ?_
      exact Keeps.ite (Keeps.pure chained _) induction

/-- What `sendto` does behind the store of the address. -/
theorem SendRules.sendto_wp
    (rules : SendRules inv related (fun _ => True) (fun _ => True))
    (polls : Keeps inv related anyHalt ndevPoll) {net : Stack} {fd : Nat}
    {sock : Socket} (opened : getSock net fd = some sock)
    (data : List UInt8) (addr : SockAddr)
    (holds : inv (net.updateSock fd fun sock =>
      { sock with destination := addr })) :
    wp (sendto ndevPoll fd data addr) net
      (fun _ final => related (net.updateSock fd fun sock =>
        { sock with destination := addr }) final) anyHalt := by
  have chained := rules.chained
  have passes : ∀ skb prot, Keeps inv related anyHalt
      (ipSendPacket ndevPoll skb sock.source addr prot) := fun skb prot =>
    rules.ipSendPacket_keeps polls skb _ _ prot trivial fun _ _ _ => trivial
  rw [sendto, wp_bind, wp_get]
  simp only [opened]
  rw [wp_bind, modifySock, wp_modify]
  refine Keeps.ite ?_ (Keeps.ite ?_ (Keeps.ite ?_ (Keeps.pure chained _))) _
    holds
  · refine Keeps.bind chained (rules.skbAlloc_keeps _ _) fun result => ?_
    cases result with
    | none => exact fun _ _ => trivial
    | some skb =>
        exact Keeps.bind chained (passes skb _) fun _ => Keeps.pure chained _
  · exact Keeps.bind chained (rules.arpSendPacket_keeps _ none arpOpReq)
      fun _ => Keeps.pure chained _
  · refine Keeps.bind chained (rules.skbAlloc_keeps _ _) fun result => ?_
    cases result with
    | none => exact fun _ _ => trivial
    | some skb =>
        refine Keeps.bind chained ?_ fun _ => Keeps.pure chained _
        exact Keeps.bind chained (passes _ _) fun _ => Keeps.pure chained _

end Calls

/-- The same slots are in use. -/
def SameSlots (net final : Stack) : Prop :=
  ∀ fd, (final.socks fd).isSome = (net.socks fd).isSome

def anyStack (_ : Stack) : Prop := True

theorem sameSlots_chained : Chained anyStack SameSlots where
  refl _ _ := rfl
  trans before after fd := (after fd).trans (before fd)
  inv _ _ := trivial

/-- The slots stay in use, if the computation returns. -/
abbrev KeepsSlots {α : Type} (run : NetM α) : Prop :=
  Keeps anyStack SameSlots anyHalt run

theorem sameSlots_updateSock (net : Stack) (fd : Nat)
    (change : Socket → Socket) : SameSlots net (net.updateSock fd change) :=
  fun other => isSome_updateSock net fd other change

theorem sameSlots_sendRules :
    SendRules anyStack SameSlots (fun _ => True) (fun _ => True) where
  chained := sameSlots_chained
  count _ _ _ _ _ := rfl
  allocate _ _ := rfl
  fresh _ _ := trivial
  transmit _ _ _ _ _ := rfl
  free _ _ _ _ := rfl
  advance net fd _ := sameSlots_updateSock net fd _
  arp _ _ _ := trivial

theorem ndevPoll_slots : KeepsSlots ndevPoll :=
  fun net _ => (ndevPoll_untouched 0 net (Nat.zero_le _)).mono
    (fun _ _ untouched => untouched.socks) (fun _ stopped => stopped)

theorem modifySock_slots (fd : Nat) (change : Socket → Socket) :
    KeepsSlots (modifySock fd change) :=
  fun net _ => sameSlots_updateSock net fd change

theorem tcpSendPacket_slots (skb : TxBuff) (fd flags : Nat)
    (options : List UInt8) :
    KeepsSlots (tcpSendPacket ndevPoll skb fd flags options) :=
  fun _ holds => sameSlots_sendRules.tcpSendPacket_wp ndevPoll_slots skb fd
    flags options trivial (fun _ => trivial) holds (fun _ _ _ _ _ => trivial)

theorem tcpWaitForState_slots (fd : Nat) (state : TcpState) (rounds : Nat) :
    KeepsSlots (tcpWaitForState ndevPoll fd state rounds) :=
  tcpWaitForState_keeps sameSlots_chained ndevPoll_slots fd state rounds

theorem sockRecvLoop_slots (fd fuel : Nat) (timeout : Int) :
    KeepsSlots (sockRecvLoop ndevPoll fd fuel timeout) := by
  have chained := sameSlots_chained
  induction fuel generalizing timeout with
  | zero => exact fun _ _ => trivial
  | succ fuel induction =>
      refine Keeps.bind chained sameSlots_sendRules.uartRead_keeps
        fun key => ?_
      refine Keeps.ite (Keeps.pure chained _) ?_
      refine Keeps.bind chained ndevPoll_slots fun _ => ?_
      refine Keeps.bind chained (sockAt_keeps chained fd) fun sock => ?_
      cases sock.rxQu with
      | nil =>
          exact Keeps.ite (Keeps.ite (Keeps.pure chained _) (induction _))
            (induction _)
      | cons skb rest =>
          exact Keeps.bind chained (modifySock_slots fd _)
            fun _ => Keeps.pure chained _

inductive Exchange where
  | poll
  | bind (fd : Nat) (addr : SockAddr)
  | connect (fd : Nat) (addr : SockAddr)
  | sendto (fd : Nat) (data : List UInt8) (addr : SockAddr)
  | recvfrom (fuel fd count : Nat)
  | send (fd : Nat) (data : List UInt8)
  | recv (fuel fd count : Nat)

def exchange : Exchange → NetM Unit
  | .poll => ndevPoll
  | .bind fd addr => do let _ ← bind fd addr
  | .connect fd addr => do let _ ← connect ndevPoll fd addr
  | .sendto fd data addr => do let _ ← sendto ndevPoll fd data addr
  | .recvfrom fuel fd count => do let _ ← recvfrom ndevPoll fuel fd count
  | .send fd data => do let _ ← send ndevPoll fd data
  | .recv fuel fd count => do let _ ← recv ndevPoll fuel fd count

theorem bind_slots (fd : Nat) (addr : SockAddr) :
    KeepsSlots (bind fd addr) := by
  have chained := sameSlots_chained
  refine Keeps.get_bind fun net holds => ?_
  cases getSock net fd with
  | none => exact chained.refl net
  | some sock =>
      have allocating : KeepsSlots portAlloc := fun net _ => chained.refl net
      refine Keeps.bind chained (modifySock_slots fd _) (fun _ => ?_) net holds
      refine Keeps.ite ?_ (Keeps.pure chained _)
      refine Keeps.ite (Keeps.bind chained allocating fun port => ?_)
        (Keeps.bind chained (Keeps.pure chained _) fun port => ?_)
      all_goals
        refine Keeps.get_bind fun net holds => ?_
        exact Keeps.bind chained (modifySock_slots fd _)
          (fun _ => Keeps.pure chained _) net holds

theorem connect_slots (fd : Nat) (addr : SockAddr) :
    KeepsSlots (connect ndevPoll fd addr) := by
  have chained := sameSlots_chained
  refine Keeps.get_bind fun net holds => ?_
  cases getSock net fd with
  | none => exact chained.refl net
  | some sock =>
      refine Keeps.bind chained (modifySock_slots fd _) (fun _ => ?_) net holds
      refine Keeps.bind chained (sameSlots_sendRules.skbAlloc_keeps _ _)
        fun result => ?_
      cases result with
      | none => exact fun _ _ => trivial
      | some skb =>
          refine Keeps.bind chained (tcpSendPacket_slots skb fd flgSyn [])
            fun _ => ?_
          refine Keeps.bind chained (modifySock_slots fd _) fun _ => ?_
          refine Keeps.bind chained (tcpWaitForState_slots fd _ _)
            fun ret => ?_
          exact Keeps.ite (Keeps.bind chained (modifySock_slots fd _)
            fun _ => Keeps.pure chained _) (Keeps.pure chained _)

theorem sendto_slots (fd : Nat) (data : List UInt8) (addr : SockAddr) :
    KeepsSlots (sendto ndevPoll fd data addr) := by
  intro net holds
  cases opened : getSock net fd with
  | none =>
      rw [sendto, wp_bind, wp_get]
      simp only [opened]
      exact sameSlots_chained.refl net
  | some sock =>
      exact (sameSlots_sendRules.sendto_wp ndevPoll_slots opened data addr
        trivial).mono
        (fun _ _ same => sameSlots_chained.trans
          (sameSlots_updateSock net fd _) same)
        (fun _ stopped => stopped)

theorem send_slots (fd : Nat) (data : List UInt8) :
    KeepsSlots (send ndevPoll fd data) := by
  have chained := sameSlots_chained
  refine Keeps.get_bind fun net holds => ?_
  cases getSock net fd with
  | none => exact chained.refl net
  | some sock =>
      refine Keeps.ite (Keeps.pure chained _) ?_ net holds
      refine Keeps.bind chained (sameSlots_sendRules.skbAlloc_keeps _ _)
        fun result => ?_
      cases result with
      | none => exact fun _ _ => trivial
      | some skb =>
          exact Keeps.bind chained (tcpSendPacket_slots skb fd _ [])
            fun _ => Keeps.pure chained _

theorem recv_slots (fuel fd count : Nat) :
    KeepsSlots (recv ndevPoll fuel fd count) := by
  have chained := sameSlots_chained
  refine Keeps.get_bind fun net holds => ?_
  cases getSock net fd with
  | none => exact chained.refl net
  | some sock =>
      refine Keeps.ite (Keeps.pure chained _) ?_ net holds
      refine Keeps.bind chained (sockRecvLoop_slots fd fuel _) fun result => ?_
      cases result with
      | none => exact Keeps.pure chained _
      | some skb => exact fun net _ => chained.refl net

theorem recvfrom_slots (fuel fd count : Nat) :
    KeepsSlots (recvfrom ndevPoll fuel fd count) := by
  have chained := sameSlots_chained
  refine Keeps.get_bind fun net holds => ?_
  cases getSock net fd with
  | none => exact chained.refl net
  | some sock =>
      refine Keeps.bind chained (sockRecvLoop_slots fd fuel _)
        (fun result => ?_) net holds
      cases result with
      | none => exact Keeps.pure chained _
      | some skb =>
          exact Keeps.bind chained (sockAt_keeps chained fd)
            fun sock net _ => chained.refl net

theorem exchange_slots (call : Exchange) : KeepsSlots (exchange call) := by
  have chained := sameSlots_chained
  have done : ∀ {α : Type} {run : NetM α}, KeepsSlots run →
      KeepsSlots (do let _ ← run) :=
    fun keeps => Keeps.bind chained keeps fun _ => Keeps.pure chained _
  cases call with
  | poll => exact ndevPoll_slots
  | bind fd addr => exact done (bind_slots fd addr)
  | connect fd addr => exact done (connect_slots fd addr)
  | sendto fd data addr => exact done (sendto_slots fd data addr)
  | recvfrom fuel fd count => exact done (recvfrom_slots fuel fd count)
  | send fd data => exact done (send_slots fd data)
  | recv fuel fd count => exact done (recv_slots fuel fd count)

/-- So many polls of the device return, one after the other. -/
def Polls : Nat → Stack → Stack → Prop
  | 0, net, last => last = net
  | count + 1, net, last =>
      ∃ next, ndevPoll net = .ok ((), next) ∧ Polls count next last

/-- The states in which `sk_close` sends a `FIN`. -/
def sendsFin (state : TcpState) : Prop :=
  state = .established ∨ state = .synRcvd ∨ state = .closeWait

/-- The state behind the `FIN` that is sent. -/
def closingState (state : TcpState) : TcpState :=
  if state = .closeWait then .lastAck else .finWait1

/-- The state that the answer of the peer has to lead to. -/
def closedState (state : TcpState) : TcpState :=
  if state = .closeWait then .closed else .timeWait

def Stack.closing (net : Stack) (fd : Nat) : Stack :=
  net.updateSock fd fun sock => { sock with state := closingState sock.state }

/-- The buffer for the `FIN` is allocated, and sending it returns. -/
structure HandsFin (fd : Nat) (net sent : Stack) : Prop where
  allocates : net.allocates = true
  returns : tcpSendPacket ndevPoll ⟨net.nextId, (tcpRoom : Nat), [], 0⟩ fd
    (flgFin + flgAck) [] net.allocated = .ok ((), sent)

/-- The answer of the peer comes within 100 polls.  The frames `early` arrive
while the address of the peer is resolved, the frames `answer` behind the `FIN`.
The segments for the socket among them close the connection, and the polls
return, also those of the wait in `TCPS_TIME_WAIT`. -/
structure Answered (fd : Nat) (net : Stack) (state : TcpState)
    (sent next : Stack) (early answer : List (Option Frame)) : Prop where
  handed : HandsFin fd net sent
  arrived : net.wire = early ++ sent.wire
  polls : ∃ count ≤ 100, Polls count (sent.closing fd) next
  answers : sent.wire = answer ++ next.wire
  closes : answered net fd (closingState (answered net fd state early))
    answer = closedState (answered net fd state early)
  waits : closedState (answered net fd state early) = .timeWait →
    ∃ last, Polls 100 next last

/-- The condition on `sk_close`: the socket is closed, or it waits for its end
and 100 polls return, or the peer answers the `FIN` in time. -/
def Closable (fd : Nat) (net : Stack) (sock : Socket) : Prop :=
  sock.state = .closed ∨
    (sock.state = .timeWait ∧ ∃ last, Polls 100 net last) ∨
    (sendsFin sock.state ∧ ∃ sent next early answer,
      Answered fd net sock.state sent next early answer)

theorem sameSlots_of_ok {α : Type} {run : NetM α} {net final : Stack}
    {value : α} (keeps : KeepsSlots run)
    (returned : run net = .ok (value, final)) : SameSlots net final := by
  have kept : wp run net (fun _ final => SameSlots net final) anyHalt :=
    keeps net trivial
  have same := wp_of_ok kept returned
  exact same

section Polling

variable {fd : Nat} {net next last : Stack} {state : TcpState}

theorem polls_add {first second : Nat} (before : Polls first net next)
    (after : Polls second next last) : Polls (first + second) net last := by
  induction first generalizing net with
  | zero =>
      obtain rfl : next = net := before
      rw [Nat.zero_add]
      exact after
  | succ first induction =>
      obtain ⟨middle, poll, rest⟩ := before
      rw [Nat.succ_add]
      exact ⟨middle, poll, induction rest⟩

theorem polls_front {first second : Nat}
    (polls : Polls (first + second) net last) :
    ∃ middle, Polls first net middle := by
  induction first generalizing net with
  | zero => exact ⟨net, rfl⟩
  | succ first induction =>
      rw [Nat.succ_add] at polls
      obtain ⟨middle, poll, rest⟩ := polls
      obtain ⟨final, front⟩ := induction rest
      exact ⟨final, middle, poll, front⟩

/-- As many polls return from an earlier state too. -/
theorem polls_later {first count : Nat} {middle : Stack}
    (before : Polls first net middle) (polls : Polls count middle last) :
    ∃ final, Polls count net final := by
  have all := polls_add before polls
  rw [Nat.add_comm] at all
  exact polls_front all

theorem polls_follows {count : Nat} (polls : Polls count net last) :
    FollowsFrames fd net last := by
  have chained := followsFrames_chained fd
  induction count generalizing net with
  | zero =>
      obtain rfl : last = net := polls
      exact chained.refl last
  | succ count induction =>
      obtain ⟨middle, poll, rest⟩ := polls
      have first := wp_of_ok (ndevPoll_follows fd net trivial) poll
      exact chained.trans first (induction rest)

theorem sockAt_of_isSome (slot : (net.socks fd).isSome) :
    ∃ sock, net.socks fd = some sock ∧ sockAt fd net = .ok (sock, net) := by
  obtain ⟨sock, found⟩ := Option.isSome_iff_exists.mp slot
  exact ⟨sock, found, sockAt_eq found⟩

theorem tcpWaitForState_succ {sock : Socket} (rounds : Nat)
    (poll : ndevPoll net = .ok ((), next))
    (found : next.socks fd = some sock) :
    tcpWaitForState ndevPoll fd state (rounds + 1) net =
      if sock.state = state then .ok (0, next)
      else tcpWaitForState ndevPoll fd state rounds next := by
  rw [tcpWaitForState, run_bind poll, run_bind (sockAt_eq found)]
  split
  · rfl
  · rfl

theorem tcpWaitForState_reaches {count rounds : Nat} (few : count ≤ rounds)
    (polls : Polls count net last) (slot : (net.socks fd).isSome)
    (notYet : ¬net.InState fd state) (reached : last.InState fd state) :
    ∃ rest middle,
      tcpWaitForState ndevPoll fd state rounds net = .ok (0, middle) ∧
        Polls rest middle last ∧ middle.InState fd state := by
  induction count generalizing net rounds with
  | zero =>
      obtain rfl : last = net := polls
      exact absurd reached notYet
  | succ count induction =>
      obtain ⟨rounds, rfl⟩ := Nat.exists_eq_add_of_le' few
      obtain ⟨next, poll, later⟩ := polls
      have same := sameSlots_of_ok ndevPoll_slots poll
      have still : (next.socks fd).isSome := (same fd).trans slot
      obtain ⟨sock, found, -⟩ := sockAt_of_isSome still
      rw [← Nat.add_assoc, tcpWaitForState_succ _ poll found]
      by_cases inState : sock.state = state
      · rw [if_pos inState]
        exact ⟨count, next, rfl, later, sock, found, inState⟩
      · rw [if_neg inState]
        apply induction (Nat.le_add_left _ _) later still
        rintro ⟨other, found', inState'⟩
        rw [found] at found'
        cases found'
        exact inState inState'

theorem tcpWaitForState_returns {rounds : Nat} (polls : Polls rounds net last)
    (slot : (net.socks fd).isSome) :
    ∃ ret final,
      tcpWaitForState ndevPoll fd state rounds net = .ok (ret, final) := by
  induction rounds generalizing net with
  | zero => exact ⟨eTimedOut, net, rfl⟩
  | succ rounds induction =>
      obtain ⟨next, poll, later⟩ := polls
      have same := sameSlots_of_ok ndevPoll_slots poll
      have still : (next.socks fd).isSome := (same fd).trans slot
      obtain ⟨sock, found, -⟩ := sockAt_of_isSome still
      rw [tcpWaitForState_succ _ poll found]
      by_cases inState : sock.state = state
      · rw [if_pos inState]
        exact ⟨0, next, rfl⟩
      · rw [if_neg inState]
        exact induction later still

theorem tcpWaitForState_outcome {rounds : Nat} {ret : Int} {final : Stack}
    (slot : (net.socks fd).isSome)
    (returned :
      tcpWaitForState ndevPoll fd state rounds net = .ok (ret, final)) :
    (ret = 0 ∧ (∃ count ≤ rounds, Polls count net final) ∧
        final.InState fd state) ∨
      (ret = eTimedOut ∧ Polls rounds net final) := by
  induction rounds generalizing net with
  | zero =>
      cases returned
      exact .inr ⟨rfl, rfl⟩
  | succ rounds induction =>
      cases poll : ndevPoll net with
      | error reason =>
          rw [tcpWaitForState, run_bind_error poll] at returned
          cases returned
      | ok pair =>
          obtain ⟨⟨⟩, next⟩ := pair
          have same := sameSlots_of_ok ndevPoll_slots poll
          have still : (next.socks fd).isSome := (same fd).trans slot
          obtain ⟨sock, found, -⟩ := sockAt_of_isSome still
          rw [tcpWaitForState_succ _ poll found] at returned
          by_cases inState : sock.state = state
          · rw [if_pos inState] at returned
            cases returned
            refine .inl ⟨rfl, ⟨1, Nat.le_add_left 1 rounds, ?_⟩, sock, found,
              inState⟩
            exact ⟨final, poll, rfl⟩
          · rw [if_neg inState] at returned
            rcases induction still returned with
              ⟨zero, ⟨count, few, polls⟩, reached⟩ | ⟨late, polls⟩
            · refine .inl ⟨zero, ⟨count + 1, ?_, next, poll, polls⟩, reached⟩
              exact Nat.succ_le_succ few
            · exact .inr ⟨late, next, poll, polls⟩

end Polling

/-- What a call frees. -/
structure Freed (fd : Nat) (net final : Stack) : Prop where
  slot : final.socks fd = none
  others : ∀ other ≠ fd,
    (final.socks other).isSome = (net.socks other).isSome

theorem Freed.after {fd : Nat} {net middle final : Stack}
    (same : SameSlots net middle) (freed : Freed fd middle final) :
    Freed fd net final where
  slot := freed.slot
  others other different := (freed.others other different).trans (same other)

section Closing

variable {fd : Nat} {net final : Stack} {sock : Socket}

theorem releaseSocket_closed (closed : net.InState fd .closed) :
    ∃ final, releaseSocket fd net = .ok (0, final) ∧ Freed fd net final := by
  obtain ⟨sock, found, state⟩ := closed
  rw [releaseSocket, run_bind (sockAt_eq found), if_pos state]
  refine ⟨_, rfl, ?_, ?_⟩
  · exact if_pos rfl
  · intro other different
    exact congrArg Option.isSome (if_neg different)

theorem releaseSocket_other (found : net.socks fd = some sock)
    (other : sock.state ≠ .closed) :
    releaseSocket fd net = .ok (eInval, net) := by
  rw [releaseSocket, run_bind (sockAt_eq found), if_neg other]
  rfl

/-- Behind the wait in `TCPS_TIME_WAIT` the socket is freed in any case. -/
theorem finishClose_timeWait (waiting : net.InState fd .timeWait)
    {last : Stack} (polls : Polls 100 net last) :
    ∃ final, finishClose ndevPoll fd net = .ok (0, final) ∧
      Freed fd net final := by
  have slot := waiting.isSome
  obtain ⟨sock, found, state⟩ := waiting
  obtain ⟨ret, middle, waited⟩ : ∃ ret middle,
      tcpWaitForState ndevPoll fd .closed 100 net = .ok (ret, middle) :=
    tcpWaitForState_returns polls slot
  have same := sameSlots_of_ok (tcpWaitForState_slots fd .closed 100) waited
  rw [finishClose, run_bind (sockAt_eq found), if_pos state, run_bind waited]
  rcases tcpWaitForState_outcome slot waited with
    ⟨rfl, -, closed⟩ | ⟨rfl, -⟩
  · obtain ⟨final, released, freed⟩ := releaseSocket_closed closed
    exact ⟨final, released, freed.after same⟩
  · have still : (middle.socks fd).isSome := (same fd).trans slot
    obtain ⟨left, found', -⟩ := sockAt_of_isSome still
    have closed : (middle.updateSock fd fun sock =>
        { sock with state := .closed }).InState fd .closed :=
      ⟨_, Stack.updateSock_self found' _, rfl⟩
    obtain ⟨final, released, freed⟩ := releaseSocket_closed closed
    refine ⟨final, released, freed.after ?_⟩
    exact sameSlots_chained.trans same (sameSlots_updateSock middle fd _)

theorem finishClose_closed (closed : net.InState fd .closed) :
    ∃ final, finishClose ndevPoll fd net = .ok (0, final) ∧
      Freed fd net final := by
  obtain ⟨sock, found, state⟩ := closed
  have running : ¬ sock.state = .timeWait := by
    rw [state]
    decide
  rw [finishClose, run_bind (sockAt_eq found), if_neg running]
  exact releaseSocket_closed ⟨sock, found, state⟩

theorem finishClose_reached {state : TcpState}
    (ended : net.InState fd (closedState state))
    (waits : closedState state = .timeWait → ∃ last, Polls 100 net last) :
    ∃ final, finishClose ndevPoll fd net = .ok (0, final) ∧
      Freed fd net final := by
  by_cases closeWait : state = .closeWait
  · rw [closedState, if_pos closeWait] at ended
    exact finishClose_closed ended
  · rw [closedState, if_neg closeWait] at ended waits
    obtain ⟨last, polls⟩ := waits rfl
    exact finishClose_timeWait ended polls

theorem ended_of_finishClose (found : net.socks fd = some sock)
    (returned : finishClose ndevPoll fd net = .ok (0, final)) :
    sock.state = .closed ∨
      (sock.state = .timeWait ∧ ∃ last, Polls 100 net last) := by
  have slot : (net.socks fd).isSome := by
    rw [found]
    rfl
  rw [finishClose, run_bind (sockAt_eq found)] at returned
  by_cases waiting : sock.state = .timeWait
  · rw [if_pos waiting] at returned
    refine .inr ⟨waiting, ?_⟩
    cases waited : tcpWaitForState ndevPoll fd .closed 100 net with
    | error reason =>
        rw [run_bind_error waited] at returned
        cases returned
    | ok pair =>
        obtain ⟨ret, middle⟩ := pair
        rcases tcpWaitForState_outcome slot waited with
          ⟨-, ⟨count, -, polls⟩, closed, found', isClosed⟩ | ⟨-, polls⟩
        · -- No frame leads from `TCPS_TIME_WAIT` to `TCPS_CLOSED`.
          have following : FollowsFrames fd net middle := polls_follows polls
          have follows := following .timeWait (by decide)
            ⟨sock, found, waiting⟩
          obtain ⟨taken, -, last, found'', state⟩ := follows.frames
          rw [found'] at found''
          cases found''
          rw [answered_ended net fd taken (.inr rfl), isClosed] at state
          cases state
        · exact ⟨middle, polls⟩
  · rw [if_neg waiting] at returned
    by_cases closed : sock.state = .closed
    · exact .inl closed
    · rw [releaseSocket_other found closed] at returned
      cases returned

theorem tcpSendPacket_follows {sent : Stack} (handed : HandsFin fd net sent) :
    FollowsFrames fd net sent ∧ SameSlots net sent := by
  have allocated : FollowsFrames fd net net.allocated :=
    followsFrames_of_eq rfl rfl
  have sending : wp (tcpSendPacket ndevPoll
      ⟨net.nextId, (tcpRoom : Nat), [], 0⟩ fd (flgFin + flgAck) [])
      net.allocated (fun _ final => FollowsFrames fd net.allocated final)
      anyHalt :=
    (followsFrames_rules fd).toSendRules.tcpSendPacket_wp
      (ndevPoll_follows fd) _ fd _ [] trivial (fun _ => trivial) trivial
      (fun _ _ _ _ _ => trivial)
  constructor
  · have follows := wp_of_ok sending handed.returns
    exact (followsFrames_chained fd).trans allocated follows
  · have slots : SameSlots net.allocated sent :=
      sameSlots_of_ok (tcpSendPacket_slots _ fd _ []) handed.returns
    exact slots

/-- `sk_close` behind the `FIN`. -/
theorem closeConnection_sent {sent : Stack} {left : Socket}
    (handed : HandsFin fd net sent) (found : sent.socks fd = some left) :
    closeConnection ndevPoll fd net =
      tcpWaitForState ndevPoll fd (closedState left.state) 100
        (sent.closing fd) := by
  have same : sent.closing fd = sent.updateSock fd (fun sock =>
      { sock with state := closingState left.state }) := by
    unfold Stack.closing Stack.updateSock
    rw [found]
    rfl
  rw [closeConnection, run_bind (skbAlloc_some handed.allocates tcpRoom [])]
  have returns := handed.returns
  simp only [List.length_nil, Nat.zero_mod]
  rw [run_bind returns, run_bind (sockAt_eq found), same]
  by_cases closeWait : left.state = .closeWait
  · simp only [closeWait, if_true, closingState, closedState]
    rfl
  · simp only [closeWait, if_false, closingState, closedState]
    rfl

theorem handsFin_of_closeConnection {ret : Int}
    (returned : closeConnection ndevPoll fd net = .ok (ret, final)) :
    ∃ sent, HandsFin fd net sent := by
  cases allocates : net.allocates with
  | false =>
      obtain ⟨middle, none⟩ := skbAlloc_none allocates tcpRoom []
      rw [closeConnection, run_bind none] at returned
      cases returned
  | true =>
      rw [closeConnection,
        run_bind (skbAlloc_some allocates tcpRoom [])] at returned
      simp only [List.length_nil, Nat.zero_mod] at returned
      cases sends : tcpSendPacket ndevPoll
          ⟨net.nextId, (tcpRoom : Nat), [], 0⟩ fd (flgFin + flgAck) []
          net.allocated with
      | error reason =>
          rw [run_bind_error sends] at returned
          cases returned
      | ok pair => exact ⟨pair.2, allocates, sends⟩

/-- The state behind the `FIN`, by the frames that came before it. -/
theorem HandsFin.state {sent : Stack} (handed : HandsFin fd net sent)
    (found : net.socks fd = some sock) (sends : sendsFin sock.state) :
    ∃ early, net.wire = early ++ sent.wire ∧
      sent.InState fd (answered net fd sock.state early) ∧
      SamePorts net (sent.closing fd) := by
  have other : sock.state ≠ .synSent := by
    rcases sends with state | state | state
    all_goals
      rw [state]
      decide
  have follows := (tcpSendPacket_follows handed).1 sock.state other
    ⟨sock, found, rfl⟩
  obtain ⟨early, wire, inState⟩ := follows.frames
  refine ⟨early, wire, inState, ?_⟩
  have closing : SamePorts sent (sent.closing fd) := by
    apply samePorts_updateSock
    · exact fun _ => rfl
    · exact fun _ => rfl
  exact fun port => (closing port).trans (follows.ports port)

theorem Stack.closing_inState {sent : Stack} {left : Socket}
    (found : sent.socks fd = some left) :
    (sent.closing fd).InState fd (closingState left.state) :=
  ⟨_, Stack.updateSock_self found _, rfl⟩

theorem closingState_ne (state : TcpState) :
    closingState state ≠ .synSent ∧ closingState state ≠ closedState state := by
  unfold closingState closedState
  split
  · decide
  · decide

theorem skClose_sends (opened : getSock net fd = some sock)
    (sends : sendsFin sock.state) :
    skClose ndevPoll fd net = (do
      let ret ← closeConnection ndevPoll fd
      if ret < 0 then pure ret else finishClose ndevPoll fd : NetM Int)
        net := by
  rw [skClose, run_bind run_get]
  simp only [opened]
  exact congrFun (if_pos sends) net

theorem skClose_quiet (opened : getSock net fd = some sock)
    (quiet : ¬ sendsFin sock.state) :
    skClose ndevPoll fd net = finishClose ndevPoll fd net := by
  rw [skClose, run_bind run_get]
  simp only [opened]
  exact congrFun (if_neg quiet) net

theorem Closable.releases (opened : getSock net fd = some sock)
    (closable : Closable fd net sock) :
    ∃ final, skClose ndevPoll fd net = .ok (0, final) ∧
      Freed fd net final := by
  have found := socks_of_getSock opened
  rcases closable with closed | ⟨waiting, last, polls⟩ |
    ⟨sends, sent, next, early, answer, inTime⟩
  · have quiet : ¬ sendsFin sock.state := by
      rw [closed]
      simp [sendsFin]
    rw [skClose_quiet opened quiet]
    exact finishClose_closed ⟨sock, found, closed⟩
  · have quiet : ¬ sendsFin sock.state := by
      rw [waiting]
      simp [sendsFin]
    rw [skClose_quiet opened quiet]
    exact finishClose_timeWait ⟨sock, found, waiting⟩ polls
  · obtain ⟨early', wire, ⟨left, found', state⟩, ports⟩ :=
      inTime.handed.state found sends
    have slots := (tcpSendPacket_follows inTime.handed).2
    obtain rfl : early' = early :=
      List.append_cancel_right (wire.symm.trans inTime.arrived)
    obtain ⟨count, few, polls⟩ := inTime.polls
    have closes := inTime.closes
    have waits := inTime.waits
    rw [← state] at closes waits
    have closing := Stack.closing_inState found'
    have following : FollowsFrames fd (sent.closing fd) next :=
      polls_follows polls
    have follows := following _ (closingState_ne left.state).1 closing
    obtain ⟨answer', rest, reached⟩ := follows.frames
    obtain rfl : answer' = answer :=
      List.append_cancel_right (rest.symm.trans inTime.answers)
    rw [answered_congr ports, closes] at reached
    have notYet :
        ¬(sent.closing fd).InState fd (closedState left.state) :=
      fun already => (closingState_ne left.state).2 (closing.unique already)
    obtain ⟨more, middle, waited, later, ended⟩ :=
      tcpWaitForState_reaches few polls closing.isSome notYet reached
    have same : SameSlots net middle := by
      have waiting :=
        sameSlots_of_ok (tcpWaitForState_slots fd _ 100) waited
      have closing := sameSlots_updateSock sent fd
        (fun sock => { sock with state := closingState sock.state })
      exact sameSlots_chained.trans slots
        (sameSlots_chained.trans closing waiting)
    have finished := finishClose_reached ended fun timeWait => by
      obtain ⟨last, polls⟩ := waits timeWait
      exact polls_later later polls
    obtain ⟨final, returned, freed⟩ := finished
    refine ⟨final, ?_, freed.after same⟩
    rw [skClose_sends opened sends, run_bind
      ((closeConnection_sent inTime.handed found').trans waited)]
    exact returned

theorem closable_of_releases (opened : getSock net fd = some sock)
    (releases : skClose ndevPoll fd net = .ok (0, final)) :
    Closable fd net sock := by
  have found := socks_of_getSock opened
  by_cases sends : sendsFin sock.state
  · refine .inr (.inr ⟨sends, ?_⟩)
    rw [skClose_sends opened sends] at releases
    cases closes : closeConnection ndevPoll fd net with
    | error reason =>
        rw [run_bind_error closes] at releases
        cases releases
    | ok pair =>
        obtain ⟨ret, middle⟩ := pair
        rw [run_bind closes] at releases
        obtain ⟨sent, handed⟩ := handsFin_of_closeConnection closes
        obtain ⟨early, arrived, ⟨left, found', state⟩, ports⟩ :=
          handed.state found sends
        rw [closeConnection_sent handed found'] at closes
        have closing := Stack.closing_inState found'
        rcases tcpWaitForState_outcome closing.isSome closes with
          ⟨rfl, ⟨count, few, polls⟩, reached⟩ | ⟨rfl, -⟩
        · have following : FollowsFrames fd (sent.closing fd) middle :=
            polls_follows polls
          have follows := following _ (closingState_ne left.state).1 closing
          obtain ⟨answer, rest, ended⟩ := follows.frames
          rw [answered_congr ports] at ended
          have isClosed := ended.unique reached
          obtain ⟨last, found'', isLast⟩ := ended
          refine ⟨sent, middle, early, answer, handed, arrived,
            ⟨count, few, polls⟩, rest, ?_, ?_⟩
          · rw [← state, isClosed]
          · rw [← state]
            intro waits
            rcases ended_of_finishClose found'' releases with
              closed | ⟨-, later⟩
            · rw [isLast, isClosed, waits] at closed
              cases closed
            · exact later
        · cases releases
  · rw [skClose_quiet opened sends] at releases
    rcases ended_of_finishClose found releases with closed | waiting
    · exact .inl closed
    · exact .inr (.inl waiting)

end Closing

inductive SockCall where
  | socket (junk : Socket) (type : SockType) (protocol : Int)
  | close (fd : Nat)
  | exchange (call : Exchange)

/-- The stack, which is `none` when a call does not return; the descriptors
that were opened and on which `sk_close` was not called since; whether every
`sk_close` on an open descriptor has returned, with 0, and freed its slot; and
whether `socket` found a slot whenever less than 31 descriptors were open. -/
structure Session where
  net : Option Stack
  opened : List Nat
  released : Bool
  granted : Bool

/-- The session goes on with what a call returns, or stops. -/
def Session.after {α : Type} (session : Session)
    (outcome : Except Halt (α × Stack)) (next : α → Stack → Session) :
    Session :=
  match outcome with
  | .error _ => { session with net := none }
  | .ok (value, final) => next value final

def Session.afterSocket (session : Session) (result : Int) (final : Stack) :
    Session :=
  { session with
    net := some final
    opened := if 0 < result then result.toNat :: session.opened
      else session.opened
    granted := session.granted &&
      (result ≠ eNoDev || session.opened.length = maxSockNum - 1) }

def Session.afterClose (session : Session) (fd : Nat) (result : Int)
    (final : Stack) : Session :=
  { session with
    net := some final
    opened := session.opened.erase fd
    released := session.released &&
      (result = 0 && (final.socks fd).isNone) }

def sessionStep (call : SockCall) (session : Session) : Session :=
  match session.net, call with
  | none, _ => session
  | some net, .socket junk type protocol =>
      session.after (socket junk type protocol net) session.afterSocket
  | some net, .close fd =>
      match skClose ndevPoll fd net with
      | .error _ =>
          { session with
            net := none
            released := session.released && (getSock net fd).isNone }
      | .ok (result, final) =>
          if (getSock net fd).isSome then session.afterClose fd result final
          else { session with net := some final }
  | some net, .exchange call =>
      session.after (exchange call net) fun _ final =>
        { session with net := some final }

/-- Calls of `sk_close` return and free their slots, the slots in use are those
of the open descriptors, and no descriptor is refused before all of them are
open. -/
structure Balanced (session : Session) : Prop where
  released : session.released = true
  granted : session.granted = true
  slots : ∀ net ∈ session.net, ∀ fd,
    (net.socks fd).isSome ↔ fd ∈ session.opened

/-- The condition on the calls of a run. -/
def Finished (call : SockCall) (session : Session) : Prop :=
  ∀ net ∈ session.net, ∀ fd, call = .close fd →
    ∀ sock, getSock net fd = some sock → Closable fd net sock

/-- The invariant. -/
structure Accounted (session : Session) : Prop where
  balanced : Balanced session
  distinct : session.opened.Nodup
  valid : ∀ fd ∈ session.opened, fd ∈ List.range' 1 (maxSockNum - 1)

theorem Accounted.after {session : Session} (accounted : Accounted session)
    {α : Type} {outcome : Except Halt (α × Stack)}
    {next : α → Stack → Session}
    (returns : ∀ value final, outcome = .ok (value, final) →
      Accounted (next value final)) :
    Accounted (session.after outcome next) := by
  cases outcome with
  | error reason =>
      exact ⟨⟨accounted.balanced.released, accounted.balanced.granted, nofun⟩,
        accounted.distinct, accounted.valid⟩
  | ok pair => exact returns pair.1 pair.2 rfl

theorem Accounted.move {session : Session} (accounted : Accounted session)
    {net final : Stack} (running : session.net = some net)
    (same : SameSlots net final) :
    Accounted { session with net := some final } := by
  refine ⟨⟨accounted.balanced.released, accounted.balanced.granted, ?_⟩,
    accounted.distinct, accounted.valid⟩
  rintro _ ⟨⟩ fd
  rw [same fd]
  exact accounted.balanced.slots net running fd

theorem Accounted.exchange {session : Session} (accounted : Accounted session)
    {net : Stack} (running : session.net = some net) (call : Exchange) :
    Accounted (sessionStep (.exchange call) session) := by
  simp only [sessionStep, running]
  apply accounted.after
  intro value final outcome
  have same := wp_of_ok (exchange_slots call net trivial) outcome
  exact accounted.move running same

/-- The outcomes of `socket`: no slot, no memory, or a socket in the first free
slot. -/
theorem socket_wp (junk : Socket) (type : SockType) (protocol : Int)
    (net : Stack) :
    wp (socket junk type protocol) net
      (fun result final =>
        (result = eNoDev ∧ SameSlots net final ∧
          ∀ fd ∈ List.range' 1 (maxSockNum - 1), (net.socks fd).isSome) ∨
        (result = eNoMem ∧ SameSlots net final) ∨
        ∃ fd ∈ List.range' 1 (maxSockNum - 1), result = fd ∧
          net.socks fd = none ∧ ∀ other, (final.socks other).isSome ↔
            other = fd ∨ (net.socks other).isSome) anyHalt := by
  simp only [socket, wp_bind, wp_get]
  cases search : (List.range' 1 (maxSockNum - 1)).find?
      (fun fd => (net.socks fd).isNone) with
  | none =>
      refine .inl ⟨rfl, fun _ => rfl, ?_⟩
      intro fd member
      have taken := List.find?_eq_none.mp search fd member
      simpa [Option.isSome_iff_ne_none] using taken
  | some fd =>
      have free : net.socks fd = none := by
        simpa using List.find?_some search
      simp only [malloc, wp_bind, wp_get, wp_set, wp_pure, wp_ite, wp_modify]
      constructor
      · intro _
        refine .inr (.inr ⟨fd, List.mem_of_find?_eq_some search, rfl, free,
          ?_⟩)
        intro other
        by_cases same : other = fd
        · simp [same]
        · simp [same]
      · intro _
        exact .inr (.inl ⟨trivial, fun _ => rfl⟩)

theorem Accounted.full {session : Session} (accounted : Accounted session)
    {net : Stack} (running : session.net = some net)
    (taken : ∀ fd ∈ List.range' 1 (maxSockNum - 1), (net.socks fd).isSome) :
    session.opened.length = maxSockNum - 1 := by
  have same : session.opened.Perm (List.range' 1 (maxSockNum - 1)) := by
    apply (List.perm_ext_iff_of_nodup accounted.distinct
      List.nodup_range').mpr
    intro fd
    constructor
    · exact accounted.valid fd
    · intro member
      exact (accounted.balanced.slots net running fd).mp (taken fd member)
  rw [same.length_eq, List.length_range']

theorem Accounted.socket {session : Session} (accounted : Accounted session)
    {net : Stack} (running : session.net = some net) (junk : Socket)
    (type : SockType) (protocol : Int) :
    Accounted (sessionStep (.socket junk type protocol) session) := by
  simp only [sessionStep, running]
  apply accounted.after
  intro result final outcome
  have granted := accounted.balanced.granted
  have slotsBefore := accounted.balanced.slots net running
  rcases wp_of_ok (socket_wp junk type protocol net) outcome with
    ⟨rfl, same, taken⟩ | ⟨rfl, same⟩ | ⟨fd, member, rfl, free, slots⟩
  · have all := accounted.full running taken
    have moved := accounted.move running same
    simpa [Session.afterSocket, granted, all, eNoDev] using moved
  · have moved := accounted.move running same
    simpa [Session.afterSocket, granted, eNoMem, eNoDev] using moved
  · have positive : 0 < fd := by
      have bounds := List.mem_range'_1.mp member
      omega
    have new : fd ∉ session.opened := by
      rw [← slotsBefore fd, free]
      nofun
    have step : session.afterSocket fd final =
        ⟨some final, fd :: session.opened, session.released, true⟩ := by
      have other : (fd : Int) ≠ eNoDev := by
        rw [eNoDev]
        omega
      simp [Session.afterSocket, positive, granted, other]
    rw [step]
    refine ⟨⟨accounted.balanced.released, rfl, ?_⟩, ?_, ?_⟩
    · rintro _ ⟨⟩ other
      rw [slots other, slotsBefore other, List.mem_cons]
    · exact List.nodup_cons.mpr ⟨new, accounted.distinct⟩
    · intro other inside
      rcases List.mem_cons.mp inside with rfl | old
      · exact member
      · exact accounted.valid other old

theorem skClose_unopened {net : Stack} {fd : Nat}
    (unopened : getSock net fd = none) :
    skClose ndevPoll fd net = .ok (eInval, net) := by
  rw [skClose, run_bind run_get]
  simp only [unopened]
  rfl

theorem Accounted.close {session : Session} (accounted : Accounted session)
    {net : Stack} (running : session.net = some net) {fd : Nat}
    (finished : Finished (.close fd) session) :
    Accounted (sessionStep (.close fd) session) := by
  simp only [sessionStep, running]
  cases opened : getSock net fd with
  | none =>
      simp only [skClose_unopened opened]
      simpa using accounted.move running (fun _ => rfl)
  | some sock =>
      have closable := finished net running fd rfl sock opened
      obtain ⟨final, returned, freed⟩ := closable.releases opened
      have slotsBefore := accounted.balanced.slots net running
      have step : session.afterClose fd 0 final =
          ⟨some final, session.opened.erase fd, true, session.granted⟩ := by
        simp [Session.afterClose, accounted.balanced.released, freed.slot]
      simp only [returned, Option.isSome_some, if_true, step]
      refine ⟨⟨rfl, accounted.balanced.granted, ?_⟩,
        accounted.distinct.erase fd, ?_⟩
      · rintro _ ⟨⟩ other
        rw [accounted.distinct.mem_erase_iff, ← slotsBefore other]
        by_cases same : other = fd
        · simp [same, freed.slot]
        · simp [same, freed.others other same]
      · intro other member
        exact accounted.valid other (List.mem_of_mem_erase member)

theorem Balanced.finished {session : Session} {call : SockCall}
    (balanced : Balanced (sessionStep call session)) :
    Finished call session := by
  rintro net running fd rfl sock opened
  have isRunning : session.net = some net := running
  have released := balanced.released
  simp only [sessionStep, isRunning, opened, Option.isSome_some,
    Option.isNone_some, if_true, Bool.and_false] at released
  cases outcome : skClose ndevPoll fd net with
  | error reason =>
      rw [outcome] at released
      cases released
  | ok pair =>
      obtain ⟨result, final⟩ := pair
      simp only [outcome, Session.afterClose, Bool.and_eq_true,
        decide_eq_true_eq] at released
      obtain ⟨-, rfl, -⟩ := released
      exact closable_of_releases opened outcome

/-- Before the first call no slot is in use. -/
def Session.start (net : Stack) : Session := ⟨some net, [], true, true⟩

/-- In a run from a stack without sockets all calls of `sk_close` return and
free their slots and `socket` finds a slot unless all descriptors are open,
exactly if every call of `sk_close` meets its condition. -/
theorem sessionStep_balanced_iff (net : Stack)
    (unused : ∀ fd, net.socks fd = none) (calls : List SockCall) :
    Trace.Throughout sessionStep Balanced calls (.start net) ↔
      Trace.Allowed sessionStep Finished calls (.start net) := by
  have keeps : ∀ call session, Accounted session → Finished call session →
      Accounted (sessionStep call session) := by
    intro call session accounted finished
    cases running : session.net with
    | none => simpa [sessionStep, running] using accounted
    | some net =>
        cases call with
        | socket junk type protocol =>
            exact accounted.socket running junk type protocol
        | close fd => exact accounted.close running finished
        | exchange call => exact accounted.exchange running call
  apply Trace.throughout_iff_allowed keeps
  · exact fun session accounted => accounted.balanced
  · exact fun call session _ balanced => balanced.finished
  · refine ⟨⟨rfl, rfl, ?_⟩, List.nodup_nil, nofun⟩
    rintro stack ⟨⟩ fd
    simp [unused fd, Session.start]

/-- A block of the heap whose word at the place of `state` is given. -/
def heapJunk (state : TcpState) : Socket :=
  ⟨.raw, 0, 0, [], [], .zero, .zero, state, 0, 0⟩

/-- A stream socket, and then a datagram socket in memory that happens to hold
`TCPS_CLOSED`. -/
theorem sessionStep_balanced_iff_lucky :
    Trace.Throughout sessionStep Balanced
      [.socket (heapJunk (.other 7)) .stream 0, .exchange (.bind 1 ⟨2, 80, 0⟩),
        .close 1, .socket (heapJunk .closed) .dgram 0, .close 1]
      (.start (.initial localDevice)) := by
  apply (sessionStep_balanced_iff _ (fun _ => rfl) _).mpr
  refine Trace.allowed_cons.mpr ⟨nofun, Trace.allowed_cons.mpr ⟨nofun,
    Trace.allowed_cons.mpr ⟨?_, Trace.allowed_cons.mpr ⟨nofun,
      Trace.allowed_cons.mpr ⟨?_, Trace.allowed_nil⟩⟩⟩⟩⟩
  · rintro net ⟨⟩ fd ⟨⟩ sock ⟨⟩
    exact .inl rfl
  · rintro net ⟨⟩ fd ⟨⟩ sock ⟨⟩
    exact .inl rfl

/-- A datagram socket in memory that holds something else stays open. -/
theorem sessionStep_not_balanced :
    ¬ Trace.Throughout sessionStep Balanced
      [.socket (heapJunk (.other 7)) .dgram 0, .close 1]
      (.start (.initial localDevice)) := by
  intro throughout
  have balanced := throughout
    [.socket (heapJunk (.other 7)) .dgram 0, .close 1] [] rfl
  have released := balanced.released
  exact absurd released (by decide)

end Witos.Net
