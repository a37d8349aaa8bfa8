import Witos.Library.Trace
import Witos.Net.Socket
import Witos.Net.TcpStream

/-!
# Reading a stream

`recv` takes one segment from the queue, copies what fits into the buffer of
its caller and frees the segment, and it does not look at the queue once the
peer has closed its side.  A run is a list of arrivals and calls on one socket;
what arrives during a poll has arrived before the call.
-/

namespace Witos.Net

open Library Effect

/-- A segment with its data on the queue, a `FIN` without data, or a call of
`recv` with the size of its buffer. -/
inductive StreamEvent where
  | segment (skb : SockBuff)
  | fin
  | recv (count : Nat)

/-- The stack, which is `none` when a call does not return, all bytes that were
put on the queue, all bytes that were copied to the buffers, and whether every
call made while bytes were queued returned, with a positive count. -/
structure Stream where
  net : Option Stack
  queued : List UInt8
  returned : List UInt8
  answered : Bool

/-- The queue grows. -/
def Stack.arrive (net : Stack) (fd : Nat) (skb : SockBuff) : Stack :=
  net.updateSock fd fun sock => { sock with rxQu := sock.rxQu ++ [skb] }

/-- The state of the socket after a `FIN`. -/
def Stack.peerCloses (net : Stack) (fd : Nat) : Stack :=
  net.updateSock fd fun sock =>
    { sock with
      state := (stateAfterFin (flgFin + flgAck) sock.state).getD sock.state }

def streamStep (fuel fd : Nat) (event : StreamEvent) (stream : Stream) :
    Stream :=
  match stream.net, event with
  | none, _ => stream
  | some net, .segment skb =>
      { stream with
        net := some (net.arrive fd skb)
        queued := stream.queued ++ skb.payload }
  | some net, .fin => { stream with net := some (net.peerCloses fd) }
  | some net, .recv count =>
      match recv ndevPoll fuel fd count net with
      | .error _ =>
          { stream with
            net := none
            answered := stream.answered && net.queued fd = [] }
      | .ok ((result, bytes), final) =>
          { stream with
            net := some final
            returned := stream.returned ++ bytes
            answered := stream.answered &&
              (net.queued fd = [] || 0 < result) }

/-- Calls were answered, what was returned is a prefix of what was queued, and
the rest of it is still on the queue. -/
structure Delivers (fd : Nat) (stream : Stream) : Prop where
  answered : stream.answered = true
  inOrder : stream.returned <+: stream.queued
  kept : ∀ net ∈ stream.net,
    stream.returned ++ net.queued fd = stream.queued
  complete : ∀ net ∈ stream.net, net.queued fd = [] →
    stream.returned = stream.queued

/-- The condition on a call: while bytes are queued the socket is established,
`CTRL+C` is not the next key, and the first segment is neither empty nor longer
than the buffer. -/
def Readable (fd : Nat) (event : StreamEvent) (stream : Stream) : Prop :=
  ∀ net ∈ stream.net, ∀ count, event = .recv count → net.queued fd ≠ [] →
    ∃ sock skb rest, net.socks fd = some sock ∧ sock.rxQu = skb :: rest ∧
      sock.state = .established ∧ net.keys.head? ≠ some (some ctrlC) ∧
      0 < skb.size ∧ skb.size ≤ count

/-- A stack with an open descriptor and nothing to receive. -/
structure Idle (fd : Nat) (net : Stack) : Prop where
  wire : net.wire = []
  opened : ∃ sock, getSock net fd = some sock

theorem ndevPoll_idle {net : Stack} (wire : net.wire = []) :
    ndevPoll net = .ok ((), net) := by
  change pollDevice net.wire.length net = _
  rw [wire]
  rfl

/-- The stack after a look at the console. -/
def Stack.nextKey (net : Stack) : Stack :=
  { net with keys := net.keys.tail }

theorem uartRead_eq (net : Stack) :
    uartRead net = .ok (net.keys.head?.getD none, net.nextKey) :=
  rfl

theorem recv_closed {net : Stack} {fd : Nat} {sock : Socket}
    (opened : getSock net fd = some sock) (closed : sock.state ≠ .established)
    (poll : NetM Unit) (fuel count : Nat) :
    recv poll fuel fd count net = .ok ((eIo, []), net) := by
  rw [recv, run_bind run_get]
  simp only [opened]
  rw [if_pos closed]
  rfl

theorem recv_interrupted {net : Stack} {fd : Nat} {sock : Socket}
    (opened : getSock net fd = some sock)
    (established : sock.state = .established)
    (interrupted : net.keys.head? = some (some ctrlC)) (poll : NetM Unit)
    (fuel count : Nat) :
    recv poll (fuel + 1) fd count net =
      .ok ((eIo, []), net.nextKey) := by
  have none : sockRecvPacket poll (fuel + 1) fd net =
      .ok (none, net.nextKey) := by
    rw [sockRecvPacket, sockRecvLoop, run_bind (uartRead_eq net), interrupted]
    rfl
  rw [recv, run_bind run_get]
  simp only [opened]
  rw [if_neg (not_not.mpr established), run_bind none]
  rfl

/-- The stack after the first segment was taken. -/
def Stack.takeFirst (net : Stack) (fd : Nat) (rest : List SockBuff) : Stack :=
  net.updateSock fd (fun sock => { sock with rxQu := rest })

theorem sockRecvPacket_segment {poll : NetM Unit} {net polled : Stack}
    {fd : Nat} {sock : Socket} (going : net.keys.head? ≠ some (some ctrlC))
    (polls : poll net.nextKey = .ok ((), polled))
    (found : polled.socks fd = some sock) {skb : SockBuff}
    {rest : List SockBuff} (first : sock.rxQu = skb :: rest) (fuel : Nat) :
    sockRecvPacket poll (fuel + 1) fd net =
      .ok (some skb, polled.takeFirst fd rest) := by
  have key : net.keys.head?.getD none ≠ some ctrlC := by
    intro same
    cases head : net.keys.head? with
    | none => simp [head] at same
    | some key => exact going (by rw [head]; simpa [head] using same)
  rw [sockRecvPacket, sockRecvLoop, run_bind (uartRead_eq net), if_neg key,
    run_bind polls, run_bind (sockAt_eq found)]
  simp only [first]
  rfl

theorem recv_segment {net : Stack} {fd : Nat} {sock : Socket}
    (wire : net.wire = []) (opened : getSock net fd = some sock)
    (established : sock.state = .established)
    (going : net.keys.head? ≠ some (some ctrlC)) {skb : SockBuff}
    {rest : List SockBuff} (first : sock.rxQu = skb :: rest)
    (fuel count : Nat) :
    recv ndevPoll (fuel + 1) fd count net =
      .ok ((min skb.size count, skb.payload.take count),
        { net.nextKey.takeFirst fd rest with
          freed := net.freed ++ [skb.id] }) := by
  have polls : ndevPoll net.nextKey = .ok ((), net.nextKey) :=
    ndevPoll_idle wire
  have some := sockRecvPacket_segment going polls (socks_of_getSock opened)
    first fuel
  rw [recv, run_bind run_get]
  simp only [opened]
  rw [if_neg (not_not.mpr established), run_bind some]
  rfl

/-- A wait that finds the queue empty changes nothing, if it returns. -/
theorem sockRecvLoop_empty {fd : Nat} {sock : Socket}
    (empty : sock.rxQu = []) (fuel : Nat) (timeout : Int) {net : Stack}
    (wire : net.wire = []) (found : net.socks fd = some sock) :
    wp (sockRecvLoop ndevPoll fd fuel timeout) net
      (fun result final => result = none ∧ final.wire = [] ∧
        final.socks = net.socks)
      (fun _ => True) := by
  induction fuel generalizing net timeout with
  | zero => trivial
  | succ fuel induction =>
      have poll : ndevPoll net.nextKey = .ok ((), net.nextKey) :=
        ndevPoll_idle wire
      have sockets : sockAt fd net.nextKey = .ok (sock, net.nextKey) :=
        sockAt_eq found
      have later : ∀ timeout, wp (sockRecvLoop ndevPoll fd fuel timeout)
          net.nextKey (fun result final => result = none ∧
            final.wire = [] ∧ final.socks = net.socks) (fun _ => True) :=
        fun timeout => induction timeout wire found
      rw [sockRecvLoop, wp, run_bind (uartRead_eq net)]
      by_cases interrupted : net.keys.head?.getD none = some ctrlC
      · rw [if_pos interrupted]
        exact ⟨rfl, wire, rfl⟩
      · rw [if_neg interrupted, run_bind poll, run_bind sockets]
        simp only [empty]
        split_ifs
        · exact ⟨rfl, wire, rfl⟩
        · exact later (timeout - 1)
        · exact later timeout

theorem recv_empty {net : Stack} {fd : Nat} {sock : Socket}
    (wire : net.wire = []) (opened : getSock net fd = some sock)
    (empty : sock.rxQu = []) (fuel count : Nat) :
    wp (recv ndevPoll fuel fd count) net
      (fun result final => result.2 = [] ∧ final.wire = [] ∧
        final.socks = net.socks)
      (fun _ => True) := by
  have waits := sockRecvLoop_empty empty fuel 10000 wire
    (socks_of_getSock opened)
  rw [recv, wp_bind, wp_get]
  simp only [opened]
  split_ifs with closed
  · exact ⟨rfl, wire, rfl⟩
  · rw [wp_bind]
    apply waits.mono _ (fun _ stopped => stopped)
    rintro result final ⟨rfl, finalWire, socks⟩
    exact ⟨rfl, finalWire, socks⟩

/-- A stack that still runs is idle, and the property holds. -/
structure Reading (fd : Nat) (stream : Stream) : Prop where
  idle : ∀ net ∈ stream.net, Idle fd net
  delivers : Delivers fd stream

theorem reading_running_iff {fd : Nat} {net : Stack}
    {queued returned : List UInt8} {answered : Bool} :
    Reading fd ⟨some net, queued, returned, answered⟩ ↔
      Idle fd net ∧ answered = true ∧
        returned ++ net.queued fd = queued := by
  constructor
  · intro reading
    exact ⟨reading.idle net rfl, reading.delivers.answered,
      reading.delivers.kept net rfl⟩
  · rintro ⟨idle, isTrue, kept⟩
    refine ⟨?_, isTrue, ⟨net.queued fd, kept⟩, ?_, ?_⟩
    · rintro final ⟨⟩
      exact idle
    · rintro final ⟨⟩
      exact kept
    · rintro final ⟨⟩ nothing
      rwa [nothing, List.append_nil] at kept

theorem queued_arrive {net : Stack} {fd : Nat} {sock : Socket}
    (found : net.socks fd = some sock) (skb : SockBuff) :
    (net.arrive fd skb).queued fd = net.queued fd ++ skb.payload := by
  simp [Stack.queued, Stack.arrive, Stack.updateSock, found]

theorem Idle.updateSock {net : Stack} {fd : Nat} (idle : Idle fd net)
    (change : Socket → Socket) : Idle fd (net.updateSock fd change) := by
  obtain ⟨sock, opened⟩ := idle.opened
  refine ⟨idle.wire, change sock, ?_⟩
  have found := socks_of_getSock opened
  unfold getSock at opened ⊢
  split at opened
  · cases opened
  · rename_i valid
    rw [if_neg valid]
    exact Stack.updateSock_self found change

theorem Reading.segment {fd fuel : Nat} {stream : Stream}
    (reading : Reading fd stream) (skb : SockBuff) :
    Reading fd (streamStep fuel fd (.segment skb) stream) := by
  rcases stream with ⟨_ | net, queued, returned, answered⟩
  · exact reading
  · obtain ⟨idle, isTrue, kept⟩ := reading_running_iff.mp reading
    obtain ⟨sock, opened⟩ := idle.opened
    apply reading_running_iff.mpr
    refine ⟨idle.updateSock _, isTrue, ?_⟩
    rw [queued_arrive (socks_of_getSock opened), ← List.append_assoc, kept]

theorem Reading.fin {fd fuel : Nat} {stream : Stream}
    (reading : Reading fd stream) :
    Reading fd (streamStep fuel fd .fin stream) := by
  rcases stream with ⟨_ | net, queued, returned, answered⟩
  · exact reading
  · obtain ⟨idle, isTrue, kept⟩ := reading_running_iff.mp reading
    have same : (net.peerCloses fd).queued fd = net.queued fd :=
      queued_updateSock net fd fd fun _ _ => rfl
    apply reading_running_iff.mpr
    exact ⟨idle.updateSock _, isTrue, same.symm ▸ kept⟩

theorem streamStep_recv {fuel fd count : Nat} {net final : Stack}
    {queued returned bytes : List UInt8} {answered : Bool} {result : Int}
    (outcome : recv ndevPoll fuel fd count net =
      .ok ((result, bytes), final)) :
    streamStep fuel fd (.recv count) ⟨some net, queued, returned, answered⟩ =
      ⟨some final, queued, returned ++ bytes,
        answered && (net.queued fd = [] || 0 < result)⟩ := by
  simp only [streamStep, outcome]

theorem Reading.recv_nothing {fd fuel count : Nat} {net : Stack}
    {queued returned : List UInt8} {answered : Bool} {sock : Socket}
    (reading : Reading fd ⟨some net, queued, returned, answered⟩)
    (opened : getSock net fd = some sock) (empty : sock.rxQu = []) :
    Reading fd (streamStep fuel fd (.recv count)
      ⟨some net, queued, returned, answered⟩) := by
  obtain ⟨idle, isTrue, kept⟩ := reading_running_iff.mp reading
  have nothing : net.queued fd = [] := by
    simp [Stack.queued, socks_of_getSock opened, empty]
  have outcome := recv_empty idle.wire opened empty fuel count
  cases result : recv ndevPoll fuel fd count net with
  | error reason =>
      simp only [streamStep, result]
      refine ⟨?_, ?_, ⟨net.queued fd, kept⟩, ?_, ?_⟩
      · rintro final ⟨⟩
      · simp [isTrue, nothing]
      · rintro final ⟨⟩
      · rintro final ⟨⟩
  | ok pair =>
      obtain ⟨⟨result, bytes⟩, final⟩ := pair
      obtain ⟨noBytes, wire, socks⟩ := wp_of_ok outcome result
      rw [streamStep_recv result]
      apply reading_running_iff.mpr
      refine ⟨⟨wire, sock, ?_⟩, ?_, ?_⟩
      · rw [← opened, getSock, getSock, socks]
      · simp [isTrue, nothing]
      · have same : final.queued fd = net.queued fd := by
          rw [Stack.queued, socks, Stack.queued]
        rw [same, show bytes = [] from noBytes, List.append_nil]
        exact kept

theorem queued_first {net : Stack} {fd : Nat} {sock : Socket}
    (found : net.socks fd = some sock) {skb : SockBuff}
    {rest : List SockBuff} (first : sock.rxQu = skb :: rest) :
    net.queued fd =
      skb.payload ++ (net.nextKey.takeFirst fd rest).queued fd := by
  have after : (net.nextKey.takeFirst fd rest).socks fd =
      some { sock with rxQu := rest } :=
    Stack.updateSock_self found _
  simp [Stack.queued, found, first, after]

section Segment

variable {fd fuel count : Nat} {net : Stack}
  {queued returned : List UInt8} {answered : Bool} {sock : Socket}
  (reading : Reading fd ⟨some net, queued, returned, answered⟩)
  (opened : getSock net fd = some sock)
  (established : sock.state = .established)
  (going : net.keys.head? ≠ some (some ctrlC)) {skb : SockBuff}
  {rest : List SockBuff} (first : sock.rxQu = skb :: rest)

include reading opened established going first

/-- A call that finds a segment of a fitting size keeps the property. -/
theorem Reading.recv_segment
    (fits : net.queued fd ≠ [] → 0 < skb.size ∧ skb.size ≤ count) :
    Reading fd (streamStep (fuel + 1) fd (.recv count)
      ⟨some net, queued, returned, answered⟩) := by
  obtain ⟨idle, isTrue, kept⟩ := reading_running_iff.mp reading
  have whole := queued_first (socks_of_getSock opened) first
  rw [streamStep_recv (Net.recv_segment idle.wire opened established going
    first fuel count)]
  have next : Idle fd net.nextKey := ⟨idle.wire, idle.opened⟩
  have idleAfter : Idle fd (net.nextKey.takeFirst fd rest) :=
    next.updateSock _
  apply reading_running_iff.mpr
  refine ⟨⟨idleAfter.wire, idleAfter.opened⟩, ?_, ?_⟩
  · by_cases nothing : net.queued fd = []
    · simp [isTrue, nothing]
    · have bounds := fits nothing
      have positive : 0 < count := by omega
      simp [isTrue, bounds.1, positive]
  · have all : skb.payload.take count = skb.payload := by
      apply List.take_of_length_le
      by_cases nothing : net.queued fd = []
      · rw [nothing] at whole
        simp [(List.nil_eq_append_iff.mp whole).1]
      · simpa [SockBuff.payload] using (fits nothing).2
    rw [all, List.append_assoc]
    exact whole ▸ kept

theorem Delivers.fits
    (bytes : net.queued fd ≠ [])
    (delivers : Delivers fd (streamStep (fuel + 1) fd (.recv count)
      ⟨some net, queued, returned, answered⟩)) :
    0 < skb.size ∧ skb.size ≤ count := by
  obtain ⟨idle, isTrue, kept⟩ := reading_running_iff.mp reading
  have whole := queued_first (socks_of_getSock opened) first
  rw [streamStep_recv (Net.recv_segment idle.wire opened established going
    first fuel count)] at delivers
  have positive : 0 < min skb.size count := by
    have answeredAfter := delivers.answered
    simpa [isTrue, bytes] using answeredAfter
  have keptAfter : returned ++ skb.payload.take count ++
      (net.nextKey.takeFirst fd rest).queued fd = queued := by
    have afterwards := delivers.kept _ rfl
    exact afterwards
  rw [← kept, whole, List.append_assoc, List.append_cancel_left_eq] at keptAfter
  have lengths := congrArg List.length keptAfter
  simp only [List.length_append, List.length_take, SockBuff.payload,
    length_slice] at lengths
  omega

end Segment

theorem Delivers.not_error {fd fuel count : Nat} {net final : Stack}
    {queued returned : List UInt8} {answered : Bool}
    (bytes : net.queued fd ≠ [])
    (outcome : recv ndevPoll fuel fd count net = .ok ((eIo, []), final)) :
    ¬ Delivers fd (streamStep fuel fd (.recv count)
      ⟨some net, queued, returned, answered⟩) := by
  intro delivers
  rw [streamStep_recv outcome] at delivers
  have positive := delivers.answered
  simp [bytes, eIo] at positive

theorem Reading.recv_error {fd fuel count : Nat} {net final : Stack}
    {queued returned : List UInt8} {answered : Bool}
    (reading : Reading fd ⟨some net, queued, returned, answered⟩)
    (nothing : net.queued fd = [])
    (outcome : recv ndevPoll fuel fd count net = .ok ((eIo, []), final))
    (wire : final.wire = net.wire) (socks : final.socks = net.socks) :
    Reading fd (streamStep fuel fd (.recv count)
      ⟨some net, queued, returned, answered⟩) := by
  obtain ⟨idle, isTrue, kept⟩ := reading_running_iff.mp reading
  have same : final.queued fd = net.queued fd := by
    rw [Stack.queued, socks, Stack.queued]
  rw [streamStep_recv outcome]
  apply reading_running_iff.mpr
  refine ⟨⟨wire.trans idle.wire, ?_⟩, ?_, ?_⟩
  · simpa [getSock, socks] using idle.opened
  · simp [isTrue, nothing]
  · rw [same, List.append_nil]
    exact kept

theorem Reading.step {fd fuel : Nat} {event : StreamEvent} {stream : Stream}
    (reading : Reading fd stream) (readable : Readable fd event stream) :
    Reading fd (streamStep (fuel + 1) fd event stream) := by
  cases event with
  | segment skb => exact reading.segment skb
  | fin => exact reading.fin
  | recv count =>
      rcases stream with ⟨_ | net, queued, returned, answered⟩
      · exact reading
      · obtain ⟨sock, opened⟩ := (reading.idle net rfl).opened
        have found := socks_of_getSock opened
        cases first : sock.rxQu with
        | nil => exact reading.recv_nothing opened first
        | cons skb rest =>
            by_cases nothing : net.queued fd = []
            · by_cases established : sock.state = .established
              · by_cases interrupted : net.keys.head? = some (some ctrlC)
                · exact reading.recv_error nothing (recv_interrupted opened
                    established interrupted ndevPoll fuel count) rfl rfl
                · exact reading.recv_segment opened established interrupted
                    first fun bytes => absurd nothing bytes
              · exact reading.recv_error nothing (recv_closed opened
                  established ndevPoll (fuel + 1) count) rfl rfl
            · obtain ⟨_, _, _, sameSock, sameFirst, established, going, fits⟩ :=
                readable net rfl count rfl nothing
              obtain rfl := Option.some.inj (found.symm.trans sameSock)
              obtain ⟨rfl, rfl⟩ := List.cons.inj (first.symm.trans sameFirst)
              exact reading.recv_segment opened established going first
                fun _ => fits

theorem Delivers.readable {fd fuel : Nat} {event : StreamEvent}
    {stream : Stream} (reading : Reading fd stream)
    (delivers : Delivers fd (streamStep (fuel + 1) fd event stream)) :
    Readable fd event stream := by
  rintro net running count rfl bytes
  rcases stream with ⟨_ | stack, queued, returned, answered⟩
  · cases running
  · obtain rfl : stack = net := Option.some.inj running
    obtain ⟨sock, opened⟩ := (reading.idle stack rfl).opened
    have found := socks_of_getSock opened
    cases first : sock.rxQu with
    | nil => simp [Stack.queued, found, first] at bytes
    | cons skb rest =>
        have established : sock.state = .established := by
          by_contra closed
          exact Delivers.not_error bytes
            (recv_closed opened closed ndevPoll (fuel + 1) count) delivers
        have going : stack.keys.head? ≠ some (some ctrlC) := by
          intro interrupted
          exact Delivers.not_error bytes (recv_interrupted opened established
            interrupted ndevPoll fuel count) delivers
        have bounds := delivers.fits reading opened established going first
          bytes
        exact ⟨sock, skb, rest, found, first, established, going, bounds⟩

/-- Before the first event of a run. -/
def Stream.start (net : Stack) (fd : Nat) : Stream :=
  ⟨some net, net.queued fd, [], true⟩

/-- A run of arrivals and calls delivers the stream exactly if every call is
readable where it is made. -/
theorem streamStep_delivers_iff (fuel fd : Nat) (net : Stack) (sock : Socket)
    (wire : net.wire = []) (opened : getSock net fd = some sock)
    (events : List StreamEvent) :
    Trace.Throughout (streamStep (fuel + 1) fd) (Delivers fd) events
        (Stream.start net fd) ↔
      Trace.Allowed (streamStep (fuel + 1) fd) (Readable fd) events
        (Stream.start net fd) := by
  apply Trace.throughout_iff_allowed
    fun event stream reading readable => Reading.step reading readable
  · exact fun stream reading => reading.delivers
  · exact fun event stream reading delivers => delivers.readable reading
  · apply reading_running_iff.mpr
    exact ⟨⟨wire, sock, opened⟩, rfl, rfl⟩

/-- A segment of two bytes. -/
def twoBytes : SockBuff := ⟨0, fun index => UInt8.ofNat (index + 1), 0, 2⟩

/-- A connection with a segment on its queue. -/
def pending : Stack := (connected []).arrive 1 twoBytes

theorem streamStep_delivers_iff_fitting :
    Trace.Throughout (streamStep 1 1) (Delivers 1)
      [.recv 2, .segment twoBytes, .recv 5, .fin] (Stream.start pending 1) := by
  apply (streamStep_delivers_iff 0 1 pending _ rfl rfl _).mpr
  refine Trace.allowed_cons.mpr ⟨?_, Trace.allowed_cons.mpr ⟨nofun,
    Trace.allowed_cons.mpr ⟨?_, Trace.allowed_cons.mpr ⟨nofun,
      Trace.allowed_nil⟩⟩⟩⟩
  · rintro net ⟨⟩ count ⟨⟩ -
    exact ⟨_, twoBytes, [], rfl, rfl, rfl, nofun, by decide, by decide⟩
  · rintro net ⟨⟩ count ⟨⟩ -
    exact ⟨_, twoBytes, [], rfl, rfl, rfl, nofun, by decide, by decide⟩

/-- A buffer that is too short loses a byte, and after a `FIN` nothing of the
queue is read. -/
theorem streamStep_not_delivers :
    ¬ Trace.Throughout (streamStep 1 1) (Delivers 1) [.recv 1]
        (Stream.start pending 1) ∧
      ¬ Trace.Throughout (streamStep 1 1) (Delivers 1) [.fin, .recv 5]
        (Stream.start pending 1) := by
  constructor
  · intro throughout
    have delivers := throughout [.recv 1] [] rfl
    have all := delivers.complete _ rfl (by decide)
    exact absurd all (by decide)
  · intro throughout
    have delivers := throughout [.fin, .recv 5] [] rfl
    have answered := delivers.answered
    exact absurd answered (by decide)

end Witos.Net
