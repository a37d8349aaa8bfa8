import Witos.Net.ReceiveRules
import Witos.Net.Socket

/-!
# Runs that reach no `BUG()`

`tcp_layer_deliver` stops the loader on a `SYN` that does not find its socket
in `TCPS_SYN_SENT` and on a `FIN` without data that does not find it in
`TCPS_ESTABLISHED`, `TCPS_FIN_WAIT1` or `TCPS_FIN_WAIT2`.  A watched poll does
what `ndev_poll` does as long as the frames are expected in this sense; a run
in which every frame is expected never reaches a `BUG()`.
-/

namespace Witos.Net

open Library Library.Effect

/-- The size of the data of a segment. -/
def SockBuff.dataSize (segment : SockBuff) : Nat :=
  (segment.pull (tcpHeaderLen segment.memory segment.data)).size

/-- The socket that a segment is for. -/
def SockBuff.target (segment : SockBuff) (net : Stack) : Option Nat :=
  tcpSearchSocket net (dstPort segment.memory segment.data)

/-- A segment that a socket in a state has reason to expect; `acking` are the
sockets whose `SYN` is still being acknowledged. -/
def expectedIn (acking : List Nat) (fd : Nat) (state : TcpState)
    (segment : SockBuff) : Bool :=
  match flagCase (tcpFlags segment.memory segment.data) with
  | .syn => state = .synSent && !acking.contains fd
  | .fin =>
      0 < segment.dataSize || state = .established || state = .finWait1 ||
        state = .finWait2
  | .ack => true
  | .data => true
  | .unlisted => true

def expected (acking : List Nat) (net : Stack) (skb : SockBuff) : Bool :=
  (segmentOf skb).all (fun segment =>
    (segment.target net).all (fun fd =>
      (net.socks fd).all (fun sock =>
        expectedIn acking fd sock.state segment)))

/-- The socket whose `SYN` a frame is. -/
def synTarget (net : Stack) (skb : SockBuff) : Option Nat :=
  (segmentOf skb).bind (fun segment =>
    if flagCase (tcpFlags segment.memory segment.data) = .syn then
      segment.target net
    else none)

/-- `ndev_poll` as long as the frames are expected. -/
def watchedPoll (acking : List Nat) : Nat → NetM Unit
  | 0 => pure ()
  | fuel + 1 => do
      match ← receiveFrame with
      | none => pure ()
      | some skb =>
          let net ← get
          if expected acking net skb then
            netifRx (watchedPoll ((synTarget net skb).toList ++ acking) fuel)
              skb
            watchedPoll acking fuel
          else throw Halt.excluded

section Tracks

variable {watched plain : NetM Unit}
  (polls : Tracks Halt.excluded watched plain)

include polls

theorem awaitHost_tracks (ip count : Nat) :
    Tracks Halt.excluded (awaitHost watched ip count)
      (awaitHost plain ip count) := by
  induction count with
  | zero => exact Tracks.refl _
  | succ count induction =>
      refine Tracks.bind_left ?_
      intro key
      refine Tracks.ite (Tracks.refl _) ?_
      refine Tracks.bind polls ?_
      intro _
      refine Tracks.bind_left ?_
      intro net
      cases getaddr net ip with
      | none => exact induction
      | some mac => exact Tracks.refl _

theorem ipSendPacket_tracks (skb : TxBuff) (source destination : SockAddr)
    (prot : Nat) :
    Tracks Halt.excluded (ipSendPacket watched skb source destination prot)
      (ipSendPacket plain skb source destination prot) := by
  have resolving : Tracks Halt.excluded
      (macFillFromArp watched destination.addr)
      (macFillFromArp plain destination.addr) := by
    refine Tracks.bind_left ?_
    intro net
    cases getaddr net destination.addr with
    | some mac => exact Tracks.refl _
    | none => exact Tracks.bind_left (fun _ => awaitHost_tracks polls _ _)
  refine Tracks.bind_left ?_
  intro net
  refine Tracks.bind_left ?_
  intro _
  exact Tracks.ite (Tracks.refl _) (Tracks.bind_right resolving _)

theorem tcpSendPacket_tracks (skb : TxBuff) (fd flags : Nat)
    (options : List UInt8) :
    Tracks Halt.excluded (tcpSendPacket watched skb fd flags options)
      (tcpSendPacket plain skb fd flags options) := by
  refine Tracks.bind_left ?_
  intro sock
  exact Tracks.bind_right (ipSendPacket_tracks polls _ _ _ _) _

theorem tcpSendAck_tracks (fd : Nat) :
    Tracks Halt.excluded (tcpSendAck watched fd) (tcpSendAck plain fd) := by
  refine Tracks.bind_left ?_
  intro result
  cases result with
  | none => exact Tracks.refl _
  | some skb => exact Tracks.bind_right (tcpSendPacket_tracks polls _ _ _ _) _

theorem tcpLayerDeliver_tracks (skb : SockBuff) :
    Tracks Halt.excluded (tcpLayerDeliver watched skb)
      (tcpLayerDeliver plain skb) := by
  have acking := tcpSendAck_tracks polls
  have data : ∀ skb tcp fd, Tracks Halt.excluded
      (tcpDeliverData watched skb tcp fd) (tcpDeliverData plain skb tcp fd) :=
    fun skb tcp fd => Tracks.bind_left fun _ => Tracks.bind_left fun _ =>
      Tracks.bind_right (acking fd) _
  refine Tracks.bind_left ?_
  intro net
  split
  · exact Tracks.refl _
  · split
    · refine Tracks.bind_right ?_ _
      exact Tracks.bind_left fun _ => Tracks.bind_left fun _ =>
        Tracks.bind_right (acking _) _
    · refine Tracks.bind_right ?_ _
      refine Tracks.ite (Tracks.bind_left fun _ => Tracks.bind_left fun _ =>
        Tracks.bind_right (acking _) _) ?_
      refine Tracks.bind_left fun _ => Tracks.bind_left fun sock => ?_
      dsimp only
      split
      · exact Tracks.bind_left fun _ => Tracks.bind_left fun _ =>
          Tracks.bind_right (acking _) _
      · exact Tracks.bind_left fun _ => Tracks.bind_left fun _ =>
          Tracks.bind_right (acking _) _
    · dsimp only
      exact Tracks.ite (Tracks.refl _) (Tracks.bind_right (data _ _ _) _)
    · exact Tracks.bind_right (data _ _ _) _
    · exact Tracks.refl _

theorem netifRx_tracks (skb : SockBuff) :
    Tracks Halt.excluded (netifRx watched skb) (netifRx plain skb) := by
  refine Tracks.ite (Tracks.refl _) ?_
  refine Tracks.ite (Tracks.refl _) ?_
  refine Tracks.ite (Tracks.bind_right ?_ _) (Tracks.refl _)
  refine Tracks.ite (Tracks.refl _) ?_
  refine Tracks.ite (Tracks.refl _) ?_
  refine Tracks.ite (Tracks.bind_right (tcpLayerDeliver_tracks polls _) _) ?_
  refine Tracks.ite (Tracks.bind_right ?_ _) (Tracks.refl _)
  refine Tracks.ite (Tracks.bind_right ?_ _) (Tracks.refl _)
  refine Tracks.bind_left ?_
  intro result
  cases result with
  | none => exact Tracks.refl _
  | some tx => exact Tracks.bind_right (ipSendPacket_tracks polls _ _ _ _) _

theorem tcpWaitForState_tracks (fd : Nat) (state : TcpState) (rounds : Nat) :
    Tracks Halt.excluded (tcpWaitForState watched fd state rounds)
      (tcpWaitForState plain fd state rounds) := by
  induction rounds with
  | zero => exact Tracks.refl _
  | succ rounds induction =>
      refine Tracks.bind polls fun _ => Tracks.bind_left fun sock => ?_
      exact Tracks.ite (Tracks.refl _) induction

theorem sockRecvLoop_tracks (fd fuel : Nat) (timeout : Int) :
    Tracks Halt.excluded (sockRecvLoop watched fd fuel timeout)
      (sockRecvLoop plain fd fuel timeout) := by
  induction fuel generalizing timeout with
  | zero => exact Tracks.refl _
  | succ fuel induction =>
      refine Tracks.bind_left fun key => Tracks.ite (Tracks.refl _) ?_
      refine Tracks.bind polls fun _ => Tracks.bind_left fun sock => ?_
      split
      · exact Tracks.refl _
      · exact Tracks.ite (Tracks.ite (Tracks.refl _) (induction _))
          (induction _)

theorem connect_tracks (fd : Nat) (addr : SockAddr) :
    Tracks Halt.excluded (connect watched fd addr) (connect plain fd addr) := by
  refine Tracks.bind_left fun net => ?_
  split
  · exact Tracks.refl _
  · refine Tracks.bind_left fun _ => Tracks.bind_left fun result => ?_
    split
    · exact Tracks.refl _
    · refine Tracks.bind (tcpSendPacket_tracks polls _ _ _ _) fun _ => ?_
      refine Tracks.bind_left fun _ => ?_
      exact Tracks.bind_right (tcpWaitForState_tracks polls _ _ _) _

theorem send_tracks (fd : Nat) (data : List UInt8) :
    Tracks Halt.excluded (send watched fd data) (send plain fd data) := by
  refine Tracks.bind_left fun net => ?_
  split
  · exact Tracks.refl _
  · refine Tracks.ite (Tracks.refl _) (Tracks.bind_left fun result => ?_)
    split
    · exact Tracks.refl _
    · exact Tracks.bind_right (tcpSendPacket_tracks polls _ _ _ _) _

theorem recv_tracks (fuel fd count : Nat) :
    Tracks Halt.excluded (recv watched fuel fd count)
      (recv plain fuel fd count) := by
  refine Tracks.bind_left fun net => ?_
  split
  · exact Tracks.refl _
  · exact Tracks.ite (Tracks.refl _)
      (Tracks.bind_right (sockRecvLoop_tracks polls _ _ _) _)

theorem closeConnection_tracks (fd : Nat) :
    Tracks Halt.excluded (closeConnection watched fd)
      (closeConnection plain fd) := by
  refine Tracks.bind_left fun result => ?_
  split
  · exact Tracks.refl _
  · refine Tracks.bind (tcpSendPacket_tracks polls _ _ _ _) fun _ => ?_
    refine Tracks.bind_left fun sock => Tracks.ite ?_ ?_
    · exact Tracks.bind_left fun _ => tcpWaitForState_tracks polls _ _ _
    · exact Tracks.bind_left fun _ => tcpWaitForState_tracks polls _ _ _

theorem finishClose_tracks (fd : Nat) :
    Tracks Halt.excluded (finishClose watched fd) (finishClose plain fd) := by
  refine Tracks.bind_left fun sock => Tracks.ite ?_ (Tracks.refl _)
  exact Tracks.bind_right (tcpWaitForState_tracks polls _ _ _) _

theorem skClose_tracks (fd : Nat) :
    Tracks Halt.excluded (skClose watched fd) (skClose plain fd) := by
  refine Tracks.bind_left fun net => ?_
  split
  · exact Tracks.refl _
  · refine Tracks.ite ?_ (finishClose_tracks polls fd)
    refine Tracks.bind (closeConnection_tracks polls fd) fun ret => ?_
    exact Tracks.ite (Tracks.refl _) (finishClose_tracks polls fd)

end Tracks

theorem watchedPoll_tracks (acking : List Nat) (fuel : Nat) :
    Tracks Halt.excluded (watchedPoll acking fuel) (pollDevice fuel) := by
  induction fuel generalizing acking with
  | zero => exact Tracks.refl _
  | succ fuel induction =>
      refine Tracks.bind_left fun result => ?_
      cases result with
      | none => exact Tracks.refl _
      | some skb =>
          exact Tracks.guard fun net _ =>
            Tracks.bind (netifRx_tracks (induction _) skb)
              fun _ => induction acking

def noBug (halt : Halt) : Prop := halt ≠ .bug

/-- The sockets whose `SYN` is being acknowledged are still in
`TCPS_SYN_SENT`. -/
def Waiting (acking : List Nat) (net : Stack) : Prop :=
  ∀ fd ∈ acking, ∃ sock, net.socks fd = some sock ∧ sock.state = .synSent

/-- They still are afterwards. -/
def StillWaiting (acking : List Nat) (net final : Stack) : Prop :=
  Waiting acking net → Waiting acking final

theorem stillWaiting_chained (acking : List Nat) :
    Chained (Waiting acking) (StillWaiting acking) where
  refl _ waiting := waiting
  trans before after waiting := after (before waiting)
  inv related waiting := related waiting

theorem waiting_updateSock {acking : List Nat} {net : Stack} {fd : Nat}
    {change : Socket → Socket} (waiting : Waiting acking net)
    (keeps : fd ∈ acking → ∀ sock, sock.state = .synSent →
      (change sock).state = .synSent) :
    Waiting acking (net.updateSock fd change) := by
  intro other member
  obtain ⟨sock, found, state⟩ := waiting other member
  by_cases same : other = fd
  · subst same
    exact ⟨change sock, Stack.updateSock_self found change,
      keeps member sock state⟩
  · exact ⟨sock, (net.updateSock_of_ne same change).trans found, state⟩

theorem stillWaiting_rules (acking : List Nat) :
    ReceiveRules (Waiting acking) (StillWaiting acking) (fun _ => True)
      (fun _ => True) where
  chained := stillWaiting_chained acking
  count _ _ _ _ waiting := waiting
  allocate _ waiting := waiting
  fresh _ _ := trivial
  transmit _ _ _ _ waiting := waiting
  free _ _ _ waiting := waiting
  advance _ _ _ waiting :=
    waiting_updateSock waiting (fun _ _ state => state)
  arp _ _ _ := trivial
  learn _ _ waiting := waiting
  address _ _ _ _ waiting :=
    waiting_updateSock waiting (fun _ _ state => state)
  enqueue _ _ _ _ _ waiting :=
    waiting_updateSock waiting (fun _ _ state => state)
  icmp _ _ _ _ _ _ _ := trivial

theorem tcpSendAck_safe {acking : List Nat} {poll : NetM Unit}
    (polls : Keeps (Waiting acking) (StillWaiting acking) noBug poll)
    {net : Stack} (waiting : Waiting acking net) (fd : Nat) :
    wp (tcpSendAck poll fd) net (fun _ final => Waiting acking final)
      noBug := by
  refine ((stillWaiting_rules acking).tcpSendAck_wp polls fd
    (fun _ => Halt.noConfusion) waiting
    (fun _ _ _ _ _ _ _ _ => trivial)).mono ?_
    (fun _ stopped => stopped)
  intro _ final still
  exact still waiting

/-- While its acknowledgement is sent the socket stays in `TCPS_SYN_SENT`. -/
theorem tcpDeliverSyn_safe {acking : List Nat} {poll : NetM Unit} {fd : Nat}
    (polls : Keeps (Waiting (fd :: acking)) (StillWaiting (fd :: acking))
      noBug poll) {net : Stack} (waiting : Waiting (fd :: acking) net)
    (idle : fd ∉ acking) (skb : SockBuff) (tcp : Nat) :
    wp (tcpDeliverSyn poll skb tcp fd) net
      (fun _ final => Waiting acking final) noBug := by
  simp only [tcpDeliverSyn, setAckNum, modifySock, skbFree, sockAt, setState,
    wp_bind, wp_modify]
  have acked : Waiting (fd :: acking) (net.updateSock fd (fun sock =>
      { sock with ackNum := add32 (tcpSeqNum skb.memory tcp) 1 })) :=
    waiting_updateSock waiting (fun _ _ state => state)
  refine (tcpSendAck_safe polls ?_ fd).mono ?_ (fun _ stopped => stopped)
  · exact acked
  intro _ final still
  obtain ⟨sock, found, state⟩ := still fd (List.mem_cons_self ..)
  simp only [wp_get, found, wp_pure, state, if_true, wp_modify]
  refine waiting_updateSock ?_ (fun member => absurd member idle)
  exact fun other member => still other (List.mem_cons_of_mem _ member)

section Cases

variable {acking : List Nat} {poll : NetM Unit}
  (polls : Keeps (Waiting acking) (StillWaiting acking) noBug poll)
  {net : Stack} (waiting : Waiting acking net)

include polls waiting

theorem tcpDeliverData_safe (skb : SockBuff) (tcp fd : Nat) :
    wp (tcpDeliverData poll skb tcp fd) net
      (fun _ final => Waiting acking final) noBug := by
  simp only [tcpDeliverData, setAckNum, modifySock, listAddTail, wp_bind,
    wp_modify, wp_pure]
  refine tcpSendAck_safe polls ?_ fd
  exact waiting_updateSock (waiting_updateSock waiting
    (fun _ _ state => state)) (fun _ _ state => state)

theorem tcpDeliverFin_safe {skb : SockBuff} {tcp fd : Nat} {sock : Socket}
    (found : net.socks fd = some sock)
    (expects : 0 < skb.size ∨ sock.state = .established ∨
      sock.state = .finWait1 ∨ sock.state = .finWait2) :
    wp (tcpDeliverFin poll skb tcp fd) net
      (fun _ final => Waiting acking final) noBug := by
  simp only [tcpDeliverFin, setAckNum, modifySock, skbFree, sockAt, setState,
    listAddTail]
  by_cases data : 0 < skb.size
  · simp only [data, if_true, wp_bind, wp_modify, wp_pure]
    refine tcpSendAck_safe polls ?_ fd
    exact waiting_updateSock (waiting_updateSock waiting
      (fun _ _ state => state)) (fun _ _ state => state)
  · have connected : sock.state = .established ∨ sock.state = .finWait1 ∨
        sock.state = .finWait2 := by
      cases expects with
      | inl size => exact absurd size data
      | inr states => exact states
    have idle : fd ∉ acking := by
      intro member
      obtain ⟨other, found', state⟩ := waiting fd member
      rw [found] at found'
      cases found'
      simp [state] at connected
    obtain ⟨state, after⟩ : ∃ state,
        stateAfterFin (tcpFlags skb.memory tcp) sock.state = some state := by
      rcases connected with state | state | state <;>
        simp [state, stateAfterFin]
    simp only [data, if_false, wp_bind, wp_modify, wp_get,
      Stack.updateSock_self found, wp_pure, after]
    refine tcpSendAck_safe polls ?_ fd
    exact waiting_updateSock (waiting_updateSock waiting
      (fun _ _ state => state)) (fun member => absurd member idle)

omit polls in
theorem tcpDeliverAck_safe (skb : SockBuff) (fd : Nat) :
    wp (tcpDeliverAck skb fd) net (fun _ final => Waiting acking final)
      noBug := by
  simp only [tcpDeliverAck, skbFree, modifySock, wp_bind, wp_modify]
  refine waiting_updateSock ?_ ?_
  · exact waiting
  · intro _ sock state
    simp [state, stateAfterAck]

end Cases

/-- An expected segment reaches no `BUG()`; if it is a `SYN`, its socket is
among those that the polls within keep waiting. -/
theorem tcpLayerDeliver_safe {acking : List Nat} {poll : NetM Unit}
    {net : Stack} {segment : SockBuff} (waiting : Waiting acking net)
    (expects : (segment.target net).all (fun fd =>
      (net.socks fd).all (fun sock =>
        expectedIn acking fd sock.state segment)) = true)
    (polls : ∀ more, more = (if flagCase (tcpFlags segment.memory
        segment.data) = .syn then segment.target net else none).toList →
      Keeps (Waiting (more ++ acking)) (StillWaiting (more ++ acking)) noBug
        poll) :
    wp (tcpLayerDeliver poll segment) net
      (fun _ final => Waiting acking final) noBug := by
  simp only [tcpLayerDeliver, wp_bind, wp_get]
  cases target : segment.target net with
  | none =>
      rw [show tcpSearchSocket net (dstPort (segment.pull (tcpHeaderLen
        segment.memory segment.data)).memory segment.data) = none from target]
      exact waiting
  | some fd =>
      rw [show tcpSearchSocket net (dstPort (segment.pull (tcpHeaderLen
        segment.memory segment.data)).memory segment.data) = some fd
        from target]
      obtain ⟨sock, found⟩ := Option.isSome_iff_exists.mp
        (searchSocket_isSome target)
      simp only [target, Option.all_some, found] at expects
      simp only [expectedIn] at expects
      have memory : (segment.pull (tcpHeaderLen segment.memory
        segment.data)).memory = segment.memory := rfl
      simp only [memory]
      cases flags : flagCase (tcpFlags segment.memory segment.data) with
      | syn =>
          simp only [flags, Bool.and_eq_true, decide_eq_true_eq,
            Bool.not_eq_true', List.contains_eq_mem, decide_eq_false_iff_not]
            at expects
          simp only [wp_bind, wp_pure]
          have nested := polls [fd] (by simp [flags, target])
          refine tcpDeliverSyn_safe nested ?_ expects.2 _ _
          intro other member
          cases member with
          | head => exact ⟨sock, found, expects.1⟩
          | tail _ member => exact waiting other member
      | fin =>
          simp only [wp_bind, wp_pure]
          have nested := polls [] (by simp [flags])
          refine tcpDeliverFin_safe nested waiting found ?_
          simp only [flags, Bool.or_eq_true, decide_eq_true_eq, or_assoc]
            at expects
          exact expects
      | ack =>
          have nested := polls [] (by simp [flags])
          by_cases empty : (segment.pull (tcpHeaderLen segment.memory
              segment.data)).size = 0
          · simp only [empty, if_true, wp_bind, wp_pure]
            exact tcpDeliverAck_safe waiting _ fd
          · simp only [empty, if_false, wp_bind, wp_pure]
            exact tcpDeliverData_safe nested waiting _ _ fd
      | data =>
          simp only [wp_bind, wp_pure]
          have nested := polls [] (by simp [flags])
          exact tcpDeliverData_safe nested waiting _ _ fd
      | unlisted => exact waiting

theorem netifRx_safe {acking : List Nat} {poll : NetM Unit} {net : Stack}
    {skb : SockBuff} (waiting : Waiting acking net)
    (expects : expected acking net skb = true)
    (polls : Keeps (Waiting ((synTarget net skb).toList ++ acking))
      (StillWaiting ((synTarget net skb).toList ++ acking)) noBug poll) :
    wp (netifRx poll skb) net (fun _ final => Waiting acking final) noBug := by
  cases segment : segmentOf skb with
  | none =>
      simp only [synTarget, segment, Option.bind_none, Option.toList_none,
        List.nil_append] at polls
      refine ((stillWaiting_rules acking).netifRx_keeps polls skb trivial
        segment net waiting).mono ?_ (fun _ stopped => stopped)
      intro _ final still
      exact still waiting
  | some found =>
      rw [netifRx_segment_wp segment]
      simp only [expected, segment, Option.all_some] at expects
      refine tcpLayerDeliver_safe waiting expects ?_
      intro more same
      rw [same]
      simpa only [synTarget, segment, Option.bind_some] using polls

/-- Along expected frames the waiting sockets keep waiting, and no `BUG()` is
reached. -/
theorem watchedPoll_safe (acking : List Nat) (fuel : Nat) :
    Keeps (Waiting acking) (StillWaiting acking) noBug
      (watchedPoll acking fuel) := by
  induction fuel generalizing acking with
  | zero => exact Keeps.pure (stillWaiting_chained acking) ()
  | succ fuel induction =>
      intro net waiting
      simp only [watchedPoll, receiveFrame, wp_bind, wp_get]
      cases net.wire with
      | nil => exact fun waiting => waiting
      | cons entry rest =>
          cases entry with
          | none => exact fun waiting => waiting
          | some frame =>
              simp only [wp_bind, wp_set, wp_pure, wp_get, wp_ite, wp_throw]
              constructor
              · intro expects
                have waiting : Waiting acking { net with
                  wire := rest, nextId := net.nextId + 1 } := waiting
                refine (netifRx_safe waiting expects (induction _)).mono ?_
                  (fun _ stopped => stopped)
                intro _ middle still
                refine (induction acking middle still).mono ?_
                  (fun _ stopped => stopped)
                exact fun _ _ after _ => after still
              · exact fun _ => Halt.noConfusion

inductive Call where
  | poll
  | socket (junk : Socket) (type : SockType) (protocol : Int)
  | bind (fd : Nat) (addr : SockAddr)
  | connect (fd : Nat) (addr : SockAddr)
  | send (fd : Nat) (data : List UInt8)
  | recv (fuel fd count : Nat)
  | close (fd : Nat)

def discard {α : Type} (run : NetM α) : NetM Unit := do
  let _ ← run
  pure ()

def runCall (poll : NetM Unit) : Call → NetM Unit
  | .poll => poll
  | .socket junk type protocol => discard (socket junk type protocol)
  | .bind fd addr => discard (bind fd addr)
  | .connect fd addr => discard (connect poll fd addr)
  | .send fd data => discard (send poll fd data)
  | .recv fuel fd count => discard (recv poll fuel fd count)
  | .close fd => discard (skClose poll fd)

def runCalls (poll : NetM Unit) : List Call → NetM Unit
  | [] => pure ()
  | call :: calls => do
      runCall poll call
      runCalls poll calls

theorem runCalls_tracks {watched plain : NetM Unit}
    (polls : Tracks Halt.excluded watched plain) (calls : List Call) :
    Tracks Halt.excluded (runCalls watched calls) (runCalls plain calls) := by
  induction calls with
  | nil => exact Tracks.refl _
  | cons call calls induction =>
      refine Tracks.bind ?_ (fun _ => induction)
      cases call with
      | poll => exact polls
      | socket junk type protocol => exact Tracks.refl _
      | bind fd addr => exact Tracks.refl _
      | connect fd addr => exact Tracks.bind_right (connect_tracks polls _ _) _
      | send fd data => exact Tracks.bind_right (send_tracks polls _ _) _
      | recv fuel fd count =>
          exact Tracks.bind_right (recv_tracks polls _ _ _) _
      | close fd => exact Tracks.bind_right (skClose_tracks polls _) _

/-- The computation stops for no `BUG()`, wherever it starts. -/
def Safe {α : Type} (run : NetM α) : Prop :=
  ∀ net, wp run net (fun _ _ => True) noBug

theorem Safe.pure {α : Type} (value : α) : Safe (pure value) :=
  fun _ => trivial

theorem Safe.bind {α β : Type} {run : NetM α} {next : α → NetM β}
    (first : Safe run) (second : ∀ value, Safe (next value)) :
    Safe (run >>= next) := by
  intro net
  rw [wp_bind]
  exact (first net).mono (fun value final _ => second value final)
    (fun _ stopped => stopped)

theorem Safe.ite {α : Type} {condition : Prop} [Decidable condition]
    {yes no : NetM α} (first : Safe yes) (second : Safe no) :
    Safe (if condition then yes else no) := by
  split
  · exact first
  · exact second

theorem Safe.get_bind {α : Type} {next : Stack → NetM α}
    (second : ∀ net, Safe (next net)) : Safe (get >>= next) :=
  fun net => second net net

theorem Safe.modify (change : Stack → Stack) :
    Safe (modify change : NetM Unit) :=
  fun _ => trivial

theorem Safe.of_keeps {α : Type} {run : NetM α}
    (keeps : Keeps (Waiting []) (StillWaiting []) noBug run) : Safe run :=
  fun net => (keeps net (fun _ member => by cases member)).mono
    (fun _ _ _ => trivial) (fun _ stopped => stopped)

theorem sockAt_safe (fd : Nat) : Safe (sockAt fd) := by
  refine Safe.get_bind fun net => ?_
  split
  · exact fun _ => Halt.noConfusion
  · exact Safe.pure _

theorem malloc_safe : Safe malloc :=
  Safe.of_keeps (stillWaiting_rules []).malloc_keeps

theorem skbAlloc_safe (protLen : Nat) (data : List UInt8) :
    Safe (skbAlloc protLen data) := by
  refine Safe.bind malloc_safe fun first => Safe.ite ?_ (Safe.pure _)
  refine Safe.bind malloc_safe fun second => Safe.ite ?_ (Safe.pure _)
  exact fun _ => trivial

section Calls

variable {poll : NetM Unit}
  (polls : Keeps (Waiting []) (StillWaiting []) noBug poll)

include polls

theorem tcpSendPacket_safe (skb : TxBuff) (fd flags : Nat) :
    Safe (tcpSendPacket poll skb fd flags []) := by
  refine Safe.of_keeps fun net waiting => ?_
  exact (stillWaiting_rules []).tcpSendPacket_wp polls skb fd flags []
    trivial (fun _ => Halt.noConfusion) waiting (fun _ _ _ _ _ => trivial)

theorem tcpWaitForState_safe (fd : Nat) (state : TcpState) (rounds : Nat) :
    Safe (tcpWaitForState poll fd state rounds) := by
  induction rounds with
  | zero => exact Safe.pure _
  | succ rounds induction =>
      refine Safe.bind (Safe.of_keeps polls) fun _ => ?_
      refine Safe.bind (sockAt_safe fd) fun sock => ?_
      exact Safe.ite (Safe.pure _) induction

theorem sockRecvLoop_safe (fd fuel : Nat) (timeout : Int) :
    Safe (sockRecvLoop poll fd fuel timeout) := by
  induction fuel generalizing timeout with
  | zero => exact fun _ => Halt.noConfusion
  | succ fuel induction =>
      have reading : Safe uartRead :=
        Safe.of_keeps (stillWaiting_rules []).uartRead_keeps
      refine Safe.bind reading fun key => Safe.ite (Safe.pure _) ?_
      refine Safe.bind (Safe.of_keeps polls) fun _ => ?_
      refine Safe.bind (sockAt_safe fd) fun sock => ?_
      split
      · exact Safe.bind (Safe.modify _) fun _ => Safe.pure _
      · exact Safe.ite (Safe.ite (Safe.pure _) (induction _)) (induction _)

theorem connect_safe (fd : Nat) (addr : SockAddr) :
    Safe (connect poll fd addr) := by
  refine Safe.get_bind fun net => ?_
  split
  · exact Safe.pure _
  · refine Safe.bind (Safe.modify _) fun _ => ?_
    refine Safe.bind (skbAlloc_safe _ _) fun result => ?_
    split
    · exact fun _ => Halt.noConfusion
    · refine Safe.bind (tcpSendPacket_safe polls _ _ _) fun _ => ?_
      refine Safe.bind (Safe.modify _) fun _ => ?_
      refine Safe.bind (tcpWaitForState_safe polls _ _ _) fun ret => ?_
      exact Safe.ite (Safe.bind (Safe.modify _) fun _ => Safe.pure _)
        (Safe.pure _)

theorem send_safe (fd : Nat) (data : List UInt8) :
    Safe (send poll fd data) := by
  refine Safe.get_bind fun net => ?_
  split
  · exact Safe.pure _
  · refine Safe.ite (Safe.pure _) ?_
    refine Safe.bind (skbAlloc_safe _ _) fun result => ?_
    split
    · exact fun _ => Halt.noConfusion
    · exact Safe.bind (tcpSendPacket_safe polls _ _ _) fun _ => Safe.pure _

theorem recv_safe (fuel fd count : Nat) : Safe (recv poll fuel fd count) := by
  refine Safe.get_bind fun net => ?_
  split
  · exact Safe.pure _
  · refine Safe.ite (Safe.pure _) ?_
    refine Safe.bind (sockRecvLoop_safe polls _ _ _) fun result => ?_
    split
    · exact Safe.pure _
    · exact Safe.bind (Safe.modify _) fun _ => Safe.pure _

theorem closeConnection_safe (fd : Nat) : Safe (closeConnection poll fd) := by
  refine Safe.bind (skbAlloc_safe _ _) fun result => ?_
  split
  · exact fun _ => Halt.noConfusion
  · refine Safe.bind (tcpSendPacket_safe polls _ _ _) fun _ => ?_
    refine Safe.bind (sockAt_safe fd) fun sock => Safe.ite ?_ ?_
    · exact Safe.bind (Safe.modify _) fun _ => tcpWaitForState_safe polls _ _ _
    · exact Safe.bind (Safe.modify _) fun _ => tcpWaitForState_safe polls _ _ _

theorem finishClose_safe (fd : Nat) : Safe (finishClose poll fd) := by
  have releasing : Safe (releaseSocket fd) := by
    refine Safe.bind (sockAt_safe fd) fun sock => Safe.ite ?_ (Safe.pure _)
    exact Safe.bind (Safe.modify _) fun _ => Safe.pure _
  refine Safe.bind (sockAt_safe fd) fun sock => Safe.ite ?_ releasing
  refine Safe.bind (tcpWaitForState_safe polls _ _ _) fun ret => ?_
  exact Safe.ite (Safe.bind (Safe.modify _) fun _ => releasing) releasing

theorem skClose_safe (fd : Nat) : Safe (skClose poll fd) := by
  refine Safe.get_bind fun net => ?_
  split
  · exact Safe.pure _
  · refine Safe.ite ?_ (finishClose_safe polls fd)
    refine Safe.bind (closeConnection_safe polls fd) fun ret => ?_
    exact Safe.ite (Safe.pure _) (finishClose_safe polls fd)

theorem runCall_safe (call : Call) : Safe (runCall poll call) := by
  cases call with
  | poll => exact Safe.of_keeps polls
  | socket junk type protocol =>
      refine Safe.bind (Safe.get_bind fun net => ?_) fun _ => Safe.pure _
      split
      · exact Safe.pure _
      · refine Safe.bind malloc_safe fun succeeds => ?_
        exact Safe.ite (Safe.bind (Safe.modify _) fun _ => Safe.pure _)
          (Safe.pure _)
  | bind fd addr =>
      refine Safe.bind (Safe.get_bind fun net => ?_) fun _ => Safe.pure _
      split
      · exact Safe.pure _
      · refine Safe.bind (Safe.modify _) fun _ => Safe.ite ?_ (Safe.pure _)
        exact Safe.ite (fun _ => trivial) (fun _ => trivial)
  | connect fd addr =>
      exact Safe.bind (connect_safe polls fd addr) fun _ => Safe.pure _
  | send fd data =>
      exact Safe.bind (send_safe polls fd data) fun _ => Safe.pure _
  | recv fuel fd count =>
      exact Safe.bind (recv_safe polls fuel fd count) fun _ => Safe.pure _
  | close fd => exact Safe.bind (skClose_safe polls fd) fun _ => Safe.pure _

theorem runCalls_safe (calls : List Call) : Safe (runCalls poll calls) := by
  induction calls with
  | nil => exact Safe.pure ()
  | cons call calls induction =>
      exact Safe.bind (runCall_safe polls call) fun _ => induction

end Calls

/-- A run of local calls in which every frame is expected when it arrives
reaches no `BUG()` of `tcp_layer_deliver`. -/
theorem runCalls_noBug (fuel : Nat) (calls : List Call) (net : Stack)
    (assumed : runCalls (watchedPoll [] fuel) calls net ≠ .error .excluded) :
    runCalls (pollDevice fuel) calls net ≠ .error .bug := by
  intro bug
  cases runCalls_tracks (watchedPoll_tracks [] fuel) calls net with
  | inl excluded => exact assumed excluded
  | inr same =>
      have noBug := runCalls_safe (watchedPoll_safe [] fuel) calls net
      exact wp_of_error noBug (same.trans bug) rfl

/-- Why a run ends early, if it does. -/
def halted {α : Type} : Except Halt (α × Stack) → Option Halt
  | .ok _ => none
  | .error halt => some halt

theorem halted_error {α : Type} (halt : Halt) :
    halted (.error halt : Except Halt (α × Stack)) = some halt :=
  rfl

/-- A connection to port 80 of 192.168.0.2, and what arrives afterwards. -/
def connection (last : Frame) : Stack :=
  { Stack.initial localDevice with
    wire := [some arpReply, none, some (segmentFrame 0x12 9 []), none,
      some last] }

/-- The junk of a new socket in the sample runs. -/
def blankSocket : Socket :=
  ⟨.stream, 0, 0, [], [], .zero, .zero, .closed, 0, 0⟩

def session : List Call :=
  [.socket blankSocket .stream 0, .bind 1 ⟨2, 1000, 0⟩,
    .connect 1 ⟨2, 80, 0xc0a80002⟩, .poll]

theorem runCalls_noBug_fin :
    runCalls (pollDevice 5) session (connection (segmentFrame 0x11 10 [])) ≠
      .error .bug := by
  refine runCalls_noBug 5 session _ ?_
  intro excluded
  have outcome : halted (runCalls (watchedPoll [] 5) session
      (connection (segmentFrame 0x11 10 []))) = none := by decide +kernel
  rw [excluded] at outcome
  cases outcome

/-- The peer repeats its `SYN | ACK` after the connection is established. -/
theorem runCalls_bug_synAck :
    ¬∀ fuel calls net,
      runCalls (pollDevice fuel) calls net ≠ .error .bug := by
  intro never
  have outcome : halted (runCalls (pollDevice 5) session
      (connection (segmentFrame 0x12 9 []))) = some .bug := by decide +kernel
  have noBug := never 5 session (connection (segmentFrame 0x12 9 []))
  cases result : runCalls (pollDevice 5) session
      (connection (segmentFrame 0x12 9 [])) with
  | ok pair =>
      rw [result] at outcome
      cases outcome
  | error halt =>
      rw [result, halted_error] at outcome
      cases outcome
      exact noBug result

end Witos.Net
