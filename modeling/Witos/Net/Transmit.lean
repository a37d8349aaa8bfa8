import Witos.Net.Descriptors
import Witos.Net.UdpRoundTrip

/-!
# What becomes of a transmitted buffer

A sending call allocates a buffer and passes it to `ip_send_packet` or, for an
ARP request, to `ether_send_packet`.  The buffer is freed behind `send_packet`
of the device, which is not reached when the receiver cannot be resolved.  The
callers do not look at the result.
-/

namespace Witos.Net

open Library Effect

inductive Sending where
  | sendto (fd : Nat) (data : List UInt8) (addr : SockAddr)
  | send (fd : Nat) (data : List UInt8)
  | connect (fd : Nat) (addr : SockAddr)
  | tcpSendAck (fd : Nat)
  | pingSend (skb : SockBuff) (ip type : Nat)

def transmit : Sending → NetM Int
  | .sendto fd data addr => sendto ndevPoll fd data addr
  | .send fd data => send ndevPoll fd data
  | .connect fd addr => connect ndevPoll fd addr
  | .tcpSendAck fd => tcpSendAck ndevPoll fd
  | .pingSend skb ip type => pingSend ndevPoll skb ip type

/-- The calls with a result that says whether the packet was sent. -/
def Sending.reports : Sending → Bool
  | .sendto _ _ _ | .send _ _ => true
  | _ => false

/-- What is done with the buffer of a call: nothing, or it is passed to
`ip_send_packet` for a receiver or to `ether_send_packet`, in the stack where
this happens. -/
inductive Passed where
  | nothing
  | ip (before : Stack) (addr : Nat)
  | ether (before : Stack)

def sendtoPassed (net : Stack) (fd : Nat) (addr : SockAddr)
    (sock : Socket) : Passed :=
  if sock.type = .raw ∧ sock.protocol = protEth then
    .ether (net.aimed fd addr).allocated
  else if sock.type = .raw ∨ sock.type = .dgram then
    .ip (net.aimed fd addr).allocated addr.addr
  else .nothing

def Sending.passedFrom (net : Stack) : Sending → Passed
  | .sendto fd _ addr =>
      ((getSock net fd).map (sendtoPassed net fd addr)).getD .nothing
  | .send fd _ =>
      ((getSock net fd).map fun sock =>
        if sock.state = .established then
          .ip net.allocated sock.destination.addr
        else .nothing).getD .nothing
  | .connect fd addr =>
      ((getSock net fd).map fun _ =>
        .ip (net.aimed fd addr).allocated addr.addr).getD .nothing
  | .tcpSendAck fd =>
      ((net.socks fd).map fun sock =>
        .ip net.allocated sock.destination.addr).getD .nothing
  | .pingSend skb ip _ => .ip net.allocated (ipSource skb.memory ip)

/-- Nothing is passed on when there is no memory for the buffer. -/
def Sending.passed (call : Sending) (net : Stack) : Passed :=
  if net.allocates then call.passedFrom net else .nothing

/-- A buffer is needed for an ARP request. -/
def Stack.asks (net : Stack) (addr : Nat) : Bool :=
  !ipIsBcast net.device addr && (getaddr net addr).isNone && net.allocates

/-- The buffers that are passed on: the first that the call allocates, and that
of the ARP request. -/
def Passed.buffers (first : Nat) : Passed → List Nat
  | .nothing => []
  | .ip before addr => if before.asks addr then [first, first + 1] else [first]
  | .ether _ => [first]

/-- The receiver is a broadcast address, or its MAC address is known or
resolved. -/
def Stack.Finds (net : Stack) (addr : Nat) : Prop :=
  ∃ mac after, Resolves ndevPoll addr net.numbered mac after

/-- The receiver is found. -/
def Passed.Resolved : Passed → Prop
  | .nothing => True
  | .ip before addr => before.Finds addr
  | .ether _ => True

/-- The receiver is found and the device accepts the frame. -/
def Passed.Accepted : Passed → Prop
  | .nothing => True
  | .ip before addr =>
      ∃ mac after, Resolves ndevPoll addr before.numbered mac after ∧
        0 ≤ after.results.head?.getD 0
  | .ether before => 0 ≤ before.results.head?.getD 0

/-- The buffers are freed once each, and a packet that is not sent is
reported. -/
structure Handled (call : Sending) (net : Stack) (ret : Int) (final : Stack) :
    Prop where
  freedOnce : ∀ id ∈ (call.passed net).buffers net.nextId,
    final.freed.count id = net.freed.count id + 1
  reported : call.reports = true → ¬(call.passed net).Accepted → ret < 0

/-- The stack after `send_packet` of the device and `skb_free`. -/
def Stack.handed (net : Stack) (frame : List UInt8) (id : Nat) : Stack :=
  { net with
    sent := net.sent ++ [frame]
    results := net.results.tail
    freed := net.freed ++ [id] }

theorem untouched_handed {bound id : Nat} (net : Stack)
    (frame : List UInt8) (above : bound ≤ id) :
    Untouched bound net (net.handed frame id) := by
  have sent : Untouched bound net { net with
      sent := net.sent ++ [frame]
      results := net.results.tail } :=
    untouched_of_eq (Nat.le_refl _) rfl rfl
  exact (untouched_chained bound).trans sent (untouched_free _ above)

theorem count_handed (net : Stack) (frame : List UInt8) (id : Nat) :
    (net.handed frame id).freed.count id = net.freed.count id + 1 := by
  simp [Stack.handed]

theorem count_handed_of_ne (net : Stack) (frame : List UInt8) {id other : Nat}
    (different : id ≠ other) :
    (net.handed frame id).freed.count other = net.freed.count other := by
  simp [Stack.handed, different]

/-- The buffer of a request is freed behind `send_packet`. -/
theorem arpSendPacket_some {net : Stack} (allocates : net.allocates = true)
    (ip op : Nat) (mac : Option Nat) :
    ∃ frame, arpSendPacket ip mac op net =
      .ok ((), net.allocated.handed frame net.nextId) := by
  have room : ∀ packet, ((⟨net.nextId, ethHdrLen, packet,
      packet.length % 2 ^ 16⟩ : TxBuff).push (etherHeader net.allocated.device
        (mac.getD macBcast) ethTypeArp)).room = 0 := by
    intro packet
    simp [TxBuff.push, ethHdrLen, length_etherHeader]
  rw [arpSendPacket, run_bind run_get,
    run_bind (skbAlloc_some allocates _ _)]
  simp only
  rw [run_bind (etherSendPacket_eq (room _))]
  exact ⟨_, rfl⟩

theorem arpSendPacket_none {net : Stack} (fails : net.allocates = false)
    (ip op : Nat) (mac : Option Nat) :
    ∃ final, arpSendPacket ip mac op net = .ok ((), final) ∧
      Untouched net.nextId net final := by
  obtain ⟨mallocs, failed⟩ := skbAlloc_none fails ethHdrLen
    (arpPacket net.device ip (mac.getD macBcast) op)
  rw [arpSendPacket, run_bind run_get, run_bind failed]
  exact ⟨_, rfl, untouched_of_eq (Nat.le_refl _) rfl rfl⟩

/-- What resolving an address does to the buffers. -/
structure Asked (net : Stack) (addr : Nat) (after : Stack) : Prop where
  untouched : Untouched net.nextId net after
  request : getaddr net addr = none → net.allocates = true →
    net.nextId < after.nextId ∧
      after.freed.count net.nextId = net.freed.count net.nextId + 1

theorem macFillFromArp_asked (net : Stack) (addr : Nat) :
    wp (macFillFromArp ndevPoll addr) net
      (fun _ after => Asked net addr after) anyHalt := by
  have chained := untouched_chained net.nextId
  have waits : ∀ bound, Keeps (Bounded bound) (Untouched bound) anyHalt
      (awaitHost ndevPoll addr 100000) := fun bound =>
    (untouched_sendRules bound).awaitHost_keeps (ndevPoll_untouched bound)
      addr _
  rw [macFillFromArp, wp_bind, wp_get]
  cases known : getaddr net addr with
  | some mac =>
      refine ⟨chained.refl net, fun unknown => ?_⟩
      rw [known] at unknown
      cases unknown
  | none =>
      simp only [gethostaddr, wp_bind]
      cases allocates : net.allocates with
      | false =>
          obtain ⟨middle, failed, untouched⟩ :=
            arpSendPacket_none allocates addr arpOpReq none
          rw [wp_iff_of_ok failed]
          apply ((waits net.nextId).after chained (Nat.le_refl _)
            untouched).mono _ (fun _ stopped => stopped)
          intro _ after kept
          refine ⟨kept, fun _ succeeds => ?_⟩
          rw [allocates] at succeeds
          cases succeeds
      | true =>
          obtain ⟨frame, asked⟩ :=
            arpSendPacket_some allocates addr arpOpReq none
          rw [wp_iff_of_ok asked]
          have allocated : Untouched net.nextId net net.allocated :=
            untouched_of_eq (Nat.le_succ _) rfl rfl
          have older := chained.trans allocated
            (untouched_handed net.allocated frame (Nat.le_refl net.nextId))
          -- the buffer of the request is older than what the polls free
          apply (((waits net.nextId).after chained (Nat.le_refl _) older).and
            (waits (net.nextId + 1) _ (Nat.le_refl _))).mono _
            (fun _ stopped => stopped)
          rintro _ after ⟨untouched, kept⟩
          refine ⟨untouched, fun _ _ => ⟨kept.nextId, ?_⟩⟩
          rw [kept.freed net.nextId (Nat.lt_succ_self _)]
          exact count_handed net.allocated frame net.nextId

/-- What `ip_send_packet` does to a buffer. -/
structure Sends (net : Stack) (id addr : Nat) (final : Stack) : Prop where
  nextId : net.nextId ≤ final.nextId
  freed : net.Finds addr → final.freed.count id = net.freed.count id + 1
  kept : ¬net.Finds addr → final.freed.count id = net.freed.count id
  request : net.asks addr = true → net.nextId < final.nextId ∧
    final.freed.count net.nextId = net.freed.count net.nextId + 1

theorem asks_iff (net : Stack) (addr : Nat) :
    net.asks addr = true ↔ ipIsBcast net.device addr = false ∧
      getaddr net.numbered addr = none ∧ net.numbered.allocates = true := by
  simp [Stack.asks, getaddr, Stack.numbered, Stack.allocates, and_assoc]

theorem Asked.requested {net after : Stack} {addr : Nat}
    (asked : Asked net.numbered addr after) (asking : net.asks addr = true) :
    net.nextId < after.nextId ∧
      after.freed.count net.nextId = net.freed.count net.nextId + 1 := by
  obtain ⟨-, unknown, allocates⟩ := (asks_iff net addr).mp asking
  exact asked.request unknown allocates

section Send

variable {net after : Stack} {skb : TxBuff} (older : skb.id < net.nextId)
  (room : skb.room = ethHdrLen + ipHdrLen) (source destination : SockAddr)
  (prot : Nat)

include room in
/-- When the receiver is found the buffer is freed behind `send_packet`. -/
theorem ipSendPacket_handed {mac : Nat}
    (resolves : Resolves ndevPoll destination.addr net.numbered mac after) :
    ∃ ret frame, ipSendPacket ndevPoll skb source destination prot net =
      .ok (ret, after.handed frame skb.id) := by
  have framed : ((skb.push (ipHeader (add16 skb.size ipHdrLen) net.ipId prot
      source destination)).push
      (etherHeader after.device mac ethTypeIp)).room = 0 := by
    simp [TxBuff.push, room, ethHdrLen, ipHdrLen]
  rw [ipSendPacket_eq resolves, etherSendPacket_eq framed]
  exact ⟨_, _, rfl⟩

include older in
theorem sends_handed {mac addr : Nat}
    (resolves : Resolves ndevPoll addr net.numbered mac after)
    (asked : Asked net.numbered addr after) (frame : List UInt8) :
    Sends net skb.id addr (after.handed frame skb.id) where
  nextId := asked.untouched.nextId
  freed _ := by
    rw [count_handed, asked.untouched.freed skb.id older]
    rfl
  kept missing := absurd ⟨mac, after, resolves⟩ missing
  request asking := by
    obtain ⟨more, once⟩ := asked.requested asking
    rw [count_handed_of_ne after frame (Nat.ne_of_lt older)]
    exact ⟨more, once⟩

include older room in
theorem ipSendPacket_sends :
    wp (ipSendPacket ndevPoll skb source destination prot) net
      (fun _ final => Sends net skb.id destination.addr final) anyHalt := by
  cases bcast : ipIsBcast net.device destination.addr with
  | true =>
      have resolves : Resolves ndevPoll destination.addr net.numbered macBcast
          net.numbered := (if_pos bcast).mpr ⟨rfl, rfl⟩
      obtain ⟨ret, frame, sent⟩ :=
        ipSendPacket_handed room source destination prot resolves
      rw [wp_iff_of_ok sent]
      refine ⟨Nat.le_refl _, fun _ => count_handed _ _ _,
        fun missing => absurd ⟨_, _, resolves⟩ missing, fun asking => ?_⟩
      have single := ((asks_iff net _).mp asking).1
      rw [bcast] at single
      cases single
  | false =>
      have single : ¬ipIsBcast net.device destination.addr = true := by
        rw [bcast]
        decide
      have resolves_iff : ∀ mac after,
          Resolves ndevPoll destination.addr net.numbered mac after ↔
            macFillFromArp ndevPoll destination.addr net.numbered =
              .ok (some mac, after) :=
        fun mac after => iff_of_eq (if_neg single)
      have filled := macFillFromArp_asked net.numbered destination.addr
      cases outcome : macFillFromArp ndevPoll destination.addr
          net.numbered with
      | error reason =>
          have stopped : ipSendPacket ndevPoll skb source destination prot
              net = .error reason := by
            rw [ipSendPacket, run_bind run_get, run_bind (run_set _),
              if_neg single]
            exact run_bind_error outcome
          unfold wp
          rw [stopped]
          trivial
      | ok pair =>
          obtain ⟨found, after⟩ := pair
          have asked := wp_of_ok filled outcome
          cases found with
          | none =>
              rw [wp_iff_of_ok (ipSendPacket_unresolved single outcome)]
              refine ⟨asked.untouched.nextId, ?_,
                fun _ => asked.untouched.freed skb.id older, asked.requested⟩
              rintro ⟨mac, other, resolves⟩
              rw [resolves_iff, outcome] at resolves
              cases resolves
          | some mac =>
              have resolves := (resolves_iff mac after).mpr outcome
              obtain ⟨ret, frame, sent⟩ :=
                ipSendPacket_handed room source destination prot resolves
              rw [wp_iff_of_ok sent]
              exact sends_handed older resolves asked frame

end Send

theorem Sends.later {net middle final : Stack} {id addr : Nat}
    (older : id < net.nextId) (sends : Sends net id addr middle)
    (untouched : Untouched middle.nextId middle final) :
    Sends net id addr final where
  nextId := Nat.le_trans sends.nextId untouched.nextId
  freed found := by
    rw [untouched.freed id (Nat.lt_of_lt_of_le older sends.nextId)]
    exact sends.freed found
  kept missing := by
    rw [untouched.freed id (Nat.lt_of_lt_of_le older sends.nextId)]
    exact sends.kept missing
  request asking := by
    obtain ⟨more, once⟩ := sends.request asking
    rw [untouched.freed net.nextId more]
    exact ⟨Nat.lt_of_lt_of_le more untouched.nextId, once⟩

theorem tcpSendPacket_sends {net : Stack} {skb : TxBuff} {fd : Nat}
    {sock : Socket} (found : net.socks fd = some sock)
    (older : skb.id < net.nextId) (room : skb.room = tcpRoom) (flags : Nat) :
    wp (tcpSendPacket ndevPoll skb fd flags []) net
      (fun _ final => Sends net skb.id sock.destination.addr final)
      anyHalt := by
  have segment : (tcpSegment skb sock flags []).room =
      ethHdrLen + ipHdrLen := by
    simp [tcpSegment, TxBuff.push, tcpHeaderWith, room, tcpRoom, ethHdrLen,
      ipHdrLen, tcpHdrLen]
  have own : (tcpSegment skb sock flags []).id < net.nextId := older
  have advances : ∀ (middle : Stack) (seqNum : Socket → Nat),
      Sends net skb.id sock.destination.addr middle →
      Sends net skb.id sock.destination.addr (middle.updateSock fd
        fun sock => { sock with seqNum := seqNum sock }) :=
    fun middle _ sends => sends.later older
      (untouched_updateSock _ middle fd _ (fun _ => rfl))
  simp only [tcpSendPacket, sockAt, wp_bind, wp_get, found, wp_pure]
  apply (ipSendPacket_sends own segment sock.source sock.destination
    protTcp).mono _ (fun _ stopped => stopped)
  intro _ middle sends
  simp only [modifySock]
  split
  · split
    · exact advances _ _ (advances _ _ sends)
    · exact advances _ _ sends
  · split
    · exact advances _ _ sends
    · exact sends

/-- The buffers are freed exactly if the receiver is found. -/
structure Settled (passed : Passed) (net final : Stack) : Prop where
  freed : passed.Resolved → ∀ id ∈ passed.buffers net.nextId,
    final.freed.count id = net.freed.count id + 1
  lost : ¬passed.Resolved → ∃ id ∈ passed.buffers net.nextId,
    final.freed.count id = net.freed.count id

theorem settled_nothing (net final : Stack) :
    Settled .nothing net final :=
  ⟨fun _ _ member => absurd member (List.not_mem_nil),
    fun lost => absurd trivial lost⟩

/-- `ip_send_packet` is called behind the allocation. -/
theorem Sends.settled {net before final : Stack} {addr : Nat}
    (nextId : before.nextId = net.nextId + 1)
    (freed : before.freed = net.freed)
    (sends : Sends before net.nextId addr final) :
    Settled (.ip before addr) net final where
  freed found := by
    have first := sends.freed found
    rw [freed] at first
    intro id member
    simp only [Passed.buffers] at member
    split at member
    · next asking =>
        rcases List.mem_cons.mp member with rfl | last
        · exact first
        · have second := (sends.request asking).2
          rw [freed, nextId] at second
          rw [List.mem_singleton.mp last]
          exact second
    · rw [List.mem_singleton.mp member]
      exact first
  lost missing := by
    refine ⟨net.nextId, ?_, ?_⟩
    · simp only [Passed.buffers]
      split
      · exact List.mem_cons_self
      · exact List.mem_singleton.mpr rfl
    · rw [sends.kept missing, freed]

/-- What a call returns when it reports on a packet. -/
def Outcome (call : Sending) (net : Stack) (ret : Int) (final : Stack) :
    Prop :=
  Settled (call.passed net) net final ∧
    (call.reports = true → call.passed net = .nothing ∨ 0 ≤ ret)

theorem passed_some {call : Sending} {net : Stack}
    (allocates : net.allocates = true) :
    call.passed net = call.passedFrom net := by
  rw [Sending.passed, if_pos allocates]

theorem passed_none {call : Sending} {net : Stack}
    (fails : net.allocates = false) : call.passed net = .nothing := by
  rw [Sending.passed, fails]
  rfl

theorem outcome_nothing {call : Sending} {net : Stack}
    (passed : call.passed net = .nothing) (ret : Int) (final : Stack) :
    Outcome call net ret final := by
  refine ⟨?_, fun _ => .inl passed⟩
  rw [passed]
  exact settled_nothing net final

theorem wp_outcome_nothing {call : Sending} {net start : Stack}
    (passed : call.passedFrom net = .nothing) (run : NetM Int) :
    wp run start (Outcome call net) anyHalt := by
  apply wp_of_forall
  apply outcome_nothing
  unfold Sending.passed
  split
  · exact passed
  · rfl

/-- A call that allocates a buffer in `start` and passes it to
`ip_send_packet`. -/
theorem skbAlloc_outcome {call : Sending} {net start : Stack} {addr : Nat}
    (passes : call.passedFrom net = .ip start.allocated addr)
    (nextId : start.nextId = net.nextId) (freed : start.freed = net.freed)
    (mallocs : start.mallocs = net.mallocs) (protLen : Nat)
    (data : List UInt8) {next : Option TxBuff → NetM Int}
    (fails : ∀ final, call.passed net = .nothing →
      wp (next none) final (Outcome call net) anyHalt)
    (sends : ∀ skb : TxBuff, skb.id < start.allocated.nextId →
      skb.room = protLen → wp (next (some skb)) start.allocated
        (fun ret final => Sends start.allocated skb.id addr final ∧
          (call.reports = true → 0 ≤ ret)) anyHalt) :
    wp (skbAlloc protLen data >>= next) start (Outcome call net) anyHalt := by
  have same : start.allocates = net.allocates := by
    rw [Stack.allocates, mallocs, Stack.allocates]
  rw [wp_bind]
  cases allocates : net.allocates with
  | false =>
      obtain ⟨mallocs, failed⟩ := skbAlloc_none (same.trans allocates)
        protLen data
      rw [wp_iff_of_ok failed]
      exact fails _ (passed_none allocates)
  | true =>
      rw [wp_iff_of_ok (skbAlloc_some (same.trans allocates) _ _)]
      apply (sends _ (Nat.lt_succ_self _) rfl).mono _
        (fun _ stopped => stopped)
      rintro ret final ⟨sent, returned⟩
      refine ⟨?_, fun reports => .inr (returned reports)⟩
      rw [passed_some allocates, passes]
      rw [nextId] at sent
      exact sent.settled (congrArg Nat.succ nextId) freed

theorem pingSend_outcome (skb : SockBuff) (ip type : Nat) (net : Stack) :
    wp (pingSend ndevPoll skb ip type) net
      (Outcome (.pingSend skb ip type) net) anyHalt := by
  refine skbAlloc_outcome rfl rfl rfl rfl _ _ ?_ ?_
  · exact fun final passed => outcome_nothing passed _ final
  · intro tx older room
    rw [wp_bind]
    apply (ipSendPacket_sends older room _ _ protIcmp).mono _
      (fun _ stopped => stopped)
    exact fun _ final sends => ⟨sends, nofun⟩

theorem tcpSendAck_outcome (fd : Nat) (net : Stack) :
    wp (tcpSendAck ndevPoll fd) net (Outcome (.tcpSendAck fd) net)
      anyHalt := by
  cases found : net.socks fd with
  | none =>
      apply wp_outcome_nothing
      rw [Sending.passedFrom, found]
      rfl
  | some sock =>
      have passes : Sending.passedFrom net (.tcpSendAck fd) =
          .ip net.allocated sock.destination.addr := by
        rw [Sending.passedFrom, found]
        rfl
      have found : net.allocated.socks fd = some sock := found
      refine skbAlloc_outcome passes rfl rfl rfl _ _ ?_ ?_
      · exact fun final passed => outcome_nothing passed _ final
      · intro skb older room
        simp only
        rw [wp_bind]
        apply (tcpSendPacket_sends found older room flgAck).mono _
          (fun _ stopped => stopped)
        exact fun _ final sends => ⟨sends, nofun⟩

theorem send_outcome (fd : Nat) (data : List UInt8) (net : Stack) :
    wp (send ndevPoll fd data) net (Outcome (.send fd data) net)
      anyHalt := by
  rw [send, wp_bind, wp_get]
  cases opened : getSock net fd with
  | none =>
      apply wp_outcome_nothing
      rw [Sending.passedFrom, opened]
      rfl
  | some sock =>
      simp only [wp_ite]
      constructor
      · intro other
        apply wp_outcome_nothing
        simp [Sending.passedFrom, opened, other]
      · intro established
        have found : net.allocated.socks fd = some sock :=
          socks_of_getSock opened
        have passes : Sending.passedFrom net (.send fd data) =
            .ip net.allocated sock.destination.addr := by
          simp [Sending.passedFrom, opened, not_not.mp established]
        refine skbAlloc_outcome passes rfl rfl rfl _ _ ?_ ?_
        · exact fun _ _ => trivial
        · intro skb older room
          simp only
          rw [wp_bind]
          apply (tcpSendPacket_sends found older room (flgPsh + flgAck)).mono
            _ (fun _ stopped => stopped)
          exact fun _ final sends => ⟨sends, fun _ => Int.natCast_nonneg _⟩

theorem aim_run (net : Stack) (fd : Nat) (addr : SockAddr) :
    modifySock fd (fun sock => { sock with destination := addr }) net =
      .ok ((), net.aimed fd addr) :=
  rfl

theorem setState_untouched (bound fd : Nat) (state : TcpState) :
    Keeps (Bounded bound) (Untouched bound) anyHalt (setState fd state) :=
  fun net _ => untouched_updateSock bound net fd _ (fun _ => rfl)

theorem connectWait_untouched (bound fd : Nat) :
    Keeps (Bounded bound) (Untouched bound) anyHalt (do
      setState fd .synSent
      let ret ← tcpWaitForState ndevPoll fd .established 100
      if ret < 0 then
        setState fd .closed
      pure ret) := by
  have chained := untouched_chained bound
  refine Keeps.bind chained (setState_untouched bound fd _) fun _ => ?_
  refine Keeps.bind chained (tcpWaitForState_keeps chained
    (ndevPoll_untouched bound) fd _ _) fun ret => ?_
  exact Keeps.ite (Keeps.bind chained (setState_untouched bound fd _)
    fun _ => Keeps.pure chained ret) (Keeps.pure chained ret)

theorem connect_outcome (fd : Nat) (addr : SockAddr) (net : Stack) :
    wp (connect ndevPoll fd addr) net (Outcome (.connect fd addr) net)
      anyHalt := by
  rw [connect, wp_bind, wp_get]
  cases opened : getSock net fd with
  | none =>
      apply wp_outcome_nothing
      rw [Sending.passedFrom, opened]
      rfl
  | some sock =>
      simp only
      rw [wp_bind, wp_iff_of_ok (aim_run net fd addr)]
      have aimed : (net.aimed fd addr).allocated.socks fd =
          some { sock with destination := addr } :=
        Stack.updateSock_self (socks_of_getSock opened) _
      have passes : Sending.passedFrom net (.connect fd addr) =
          .ip (net.aimed fd addr).allocated addr.addr := by
        rw [Sending.passedFrom, opened]
        rfl
      refine skbAlloc_outcome passes rfl rfl rfl _ _ ?_ ?_
      · exact fun _ _ => trivial
      · intro skb older room
        simp only
        rw [wp_bind]
        apply (tcpSendPacket_sends aimed older room flgSyn).mono _
          (fun _ stopped => stopped)
        intro _ middle sends
        apply (connectWait_untouched middle.nextId fd middle
          (Nat.le_refl _)).mono _ (fun _ stopped => stopped)
        exact fun _ final untouched => ⟨sends.later older untouched, nofun⟩

theorem arpSendPacket_outcome {call : Sending} {net start : Stack}
    (passes : call.passedFrom net = .ether start.allocated)
    (nextId : start.nextId = net.nextId) (freed : start.freed = net.freed)
    (mallocs : start.mallocs = net.mallocs) (addr : Nat) {ret : Int}
    (returns : 0 ≤ ret) :
    wp (do arpSendPacket addr none arpOpReq; pure ret) start
      (Outcome call net) anyHalt := by
  have same : start.allocates = net.allocates := by
    rw [Stack.allocates, mallocs, Stack.allocates]
  rw [wp_bind]
  cases allocates : net.allocates with
  | false =>
      obtain ⟨final, failed, -⟩ :=
        arpSendPacket_none (same.trans allocates) addr arpOpReq none
      rw [wp_iff_of_ok failed]
      exact outcome_nothing (passed_none allocates) _ _
  | true =>
      obtain ⟨frame, asked⟩ :=
        arpSendPacket_some (same.trans allocates) addr arpOpReq none
      rw [wp_iff_of_ok asked]
      refine ⟨?_, fun _ => .inr returns⟩
      rw [passed_some allocates, passes]
      refine ⟨fun _ id member => ?_, fun lost => absurd trivial lost⟩
      rw [List.mem_singleton.mp member, nextId, count_handed, ← freed]
      rfl

theorem sendto_outcome (fd : Nat) (data : List UInt8) (addr : SockAddr)
    (net : Stack) :
    wp (sendto ndevPoll fd data addr) net (Outcome (.sendto fd data addr) net)
      anyHalt := by
  rw [sendto, wp_bind, wp_get]
  cases opened : getSock net fd with
  | none =>
      apply wp_outcome_nothing
      rw [Sending.passedFrom, opened]
      rfl
  | some sock =>
      have passed : Sending.passedFrom net (.sendto fd data addr) =
          sendtoPassed net fd addr sock := by
        rw [Sending.passedFrom, opened]
        rfl
      simp only
      rw [wp_bind, wp_iff_of_ok (aim_run net fd addr)]
      simp only [wp_ite]
      refine ⟨?_, fun notIcmp => ⟨?_, fun notEth => ⟨?_, ?_⟩⟩⟩
      · rintro ⟨raw, icmp⟩
        have passes : Sending.passedFrom net (.sendto fd data addr) =
            .ip (net.aimed fd addr).allocated addr.addr := by
          rw [passed]
          simp [sendtoPassed, raw, icmp, protIcmp, protEth]
        refine skbAlloc_outcome passes rfl rfl rfl _ _ ?_ ?_
        · exact fun _ _ => trivial
        · intro skb older room
          simp only
          rw [wp_bind]
          apply (ipSendPacket_sends older room _ _ protIcmp).mono _
            (fun _ stopped => stopped)
          exact fun _ final sends => ⟨sends, fun _ => Int.natCast_nonneg _⟩
      · intro eth
        rw [sendtoPassed, if_pos eth] at passed
        exact arpSendPacket_outcome passed rfl rfl rfl addr.addr
          (Int.natCast_nonneg data.length)
      · intro datagram
        have passes : Sending.passedFrom net (.sendto fd data addr) =
            .ip (net.aimed fd addr).allocated addr.addr := by
          rw [passed, sendtoPassed, if_neg notEth, if_pos datagram]
        refine skbAlloc_outcome passes rfl rfl rfl _ _ ?_ ?_
        · exact fun _ _ => trivial
        · intro skb older room
          have own : (skb.push (udpHeader skb.size sock.source addr)).id <
              (net.aimed fd addr).allocated.nextId := older
          have left : (skb.push (udpHeader skb.size sock.source addr)).room =
              ethHdrLen + ipHdrLen := by
            simp [TxBuff.push, room, length_udpHeader, udpHdrLen]
          simp only [udpSendPacket, bind_assoc]
          rw [wp_bind]
          apply (ipSendPacket_sends own left _ _ protUdp).mono _
            (fun _ stopped => stopped)
          exact fun _ final sends => ⟨sends, fun _ => Int.natCast_nonneg _⟩
      · intro other
        apply wp_outcome_nothing
        rw [passed, sendtoPassed, if_neg notEth, if_neg other]

theorem transmit_outcome (call : Sending) (net : Stack) :
    wp (transmit call) net (Outcome call net) anyHalt := by
  cases call with
  | sendto fd data addr => exact sendto_outcome fd data addr net
  | send fd data => exact send_outcome fd data net
  | connect fd addr => exact connect_outcome fd addr net
  | tcpSendAck fd => exact tcpSendAck_outcome fd net
  | pingSend skb ip type => exact pingSend_outcome skb ip type net

theorem resolved_of_accepted {passed : Passed} (accepted : passed.Accepted) :
    passed.Resolved := by
  cases passed with
  | nothing => trivial
  | ip before addr =>
      obtain ⟨mac, after, resolves, -⟩ := accepted
      exact ⟨mac, after, resolves⟩
  | ether before => trivial

/-- A sending call that returns has freed the buffers that it passed on and
reported what was not sent, exactly if the receiver was found and, where the
call reports, the device accepted the frame. -/
theorem transmit_handled_iff (call : Sending) (net : Stack) (ret : Int)
    (final : Stack) (returns : transmit call net = .ok (ret, final)) :
    Handled call net ret final ↔
      if call.reports then (call.passed net).Accepted
      else (call.passed net).Resolved := by
  obtain ⟨settled, returned⟩ := wp_of_ok (transmit_outcome call net) returns
  have lost : Handled call net ret final → (call.passed net).Resolved := by
    intro handled
    by_contra missing
    obtain ⟨id, member, kept⟩ := settled.lost missing
    have freed := handled.freedOnce id member
    omega
  cases reports : call.reports with
  | false =>
      simp only [Bool.false_eq_true, if_false]
      refine ⟨lost, fun found => ⟨settled.freed found, fun reported => ?_⟩⟩
      rw [reports] at reported
      cases reported
  | true =>
      simp only [if_true]
      constructor
      · intro handled
        by_contra rejected
        have error := handled.reported reports rejected
        rcases returned reports with nothing | success
        · rw [nothing] at rejected
          exact rejected trivial
        · omega
      · intro accepted
        exact ⟨settled.freed (resolved_of_accepted accepted),
          fun _ rejected => absurd accepted rejected⟩

/-- A datagram for a host whose MAC address is known. -/
def knownDatagram : Sending :=
  .sendto 1 [1, 2, 3, 4] ⟨2, 69, 0xc0a80002⟩

theorem transmit_handled_iff_known :
    ∃ final, transmit knownDatagram talker = .ok (4, final) ∧
      Handled knownDatagram talker 4 final :=
  ⟨_, rfl, (transmit_handled_iff knownDatagram talker 4 _ rfl).mpr
    ⟨_, _, (if_neg (by decide)).mpr rfl, by decide⟩⟩

/-- `CTRL+C` ends the wait for the answer. -/
theorem macFillFromArp_interrupted (net : Stack) (addr : Nat)
    (unknown : getaddr net addr = none) (allocates : net.allocates = true)
    (interrupted : net.keys.head? = some (some ctrlC)) (poll : NetM Unit) :
    ∃ after, macFillFromArp poll addr net = .ok (none, after) := by
  obtain ⟨frame, asked⟩ := arpSendPacket_some allocates addr arpOpReq none
  have key : uartRead (net.allocated.handed frame net.nextId) =
      .ok (some ctrlC, (net.allocated.handed frame net.nextId).nextKey) := by
    have first : (net.allocated.handed frame net.nextId).keys.head? =
        some (some ctrlC) := interrupted
    rw [uartRead_eq, first]
    rfl
  rw [macFillFromArp, run_bind run_get, unknown]
  simp only
  rw [gethostaddr, run_bind asked, awaitHost, run_bind key, if_pos rfl]
  exact ⟨_, rfl⟩

/-- `sendto` does not look at the result of `ip_send_packet`. -/
theorem sendto_unresolved {after : Stack} {sock : Socket} (net : Stack)
    (fd : Nat) (data : List UInt8) (addr : SockAddr)
    (opened : getSock net fd = some sock) (dgram : sock.type = .dgram)
    (allocates : net.allocates = true)
    (single : ¬ipIsBcast net.device addr.addr = true)
    (missing : macFillFromArp ndevPoll addr.addr
      (net.aimed fd addr).allocated.numbered = .ok (none, after)) :
    sendto ndevPoll fd data addr net = .ok (data.length, after) := by
  have succeeds : (net.aimed fd addr).allocates = true := allocates
  rw [sendto, run_bind run_get]
  simp only [opened]
  rw [run_bind (aim_run net fd addr), if_neg (by simp [dgram]),
    if_neg (by simp [dgram]), if_pos (.inr dgram),
    run_bind (skbAlloc_some succeeds _ data)]
  simp only [udpSendPacket, bind_assoc]
  exact run_bind (ipSendPacket_unresolved single missing)

/-- The host is not known, and `CTRL+C` ends the wait for its answer: the
buffer stays allocated, and `sendto` returns the size of the data. -/
theorem not_transmit_handled :
    ¬∀ call net ret final, transmit call net = .ok (ret, final) →
      Handled call net ret final := by
  intro always
  let net : Stack := { talker with hosts := [], keys := [some ctrlC] }
  let addr : SockAddr := ⟨2, 69, 0xc0a80002⟩
  obtain ⟨after, missing⟩ := macFillFromArp_interrupted
    (net.aimed 1 addr).allocated.numbered addr.addr rfl rfl rfl ndevPoll
  have returned := sendto_unresolved net 1 [1, 2, 3, 4] addr rfl rfl rfl
    (by decide) missing
  have handled := always knownDatagram net _ after returned
  have error := handled.reported rfl (by
    rintro ⟨mac, other, resolves, -⟩
    have filled := (if_neg (by decide)).mp resolves
    rw [missing] at filled
    cases filled)
  exact absurd error (by decide)

end Witos.Net
