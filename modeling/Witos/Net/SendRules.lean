import Witos.Net.Send

/-!
# What sending does to the stack

Besides polling the device, the sending functions read keys, allocate and free
buffers of their own, hand frames to the device and advance `ip_id` and
`seq_num`.  `SendRules` lists these changes; a relation between states that
each of them keeps, and that a poll keeps, is kept by every sending function.
-/

namespace Witos.Net

open Library Library.Effect

/-- The frame that `ether_send_packet` hands to the device. -/
def etherFrame (device : Device) (mac type : Nat) (skb : TxBuff) :
    List UInt8 :=
  (skb.push (etherHeader device mac type)).contents

/-- Relations kept by the changes that sending makes: `owned` are the buffers
that it may free and `sendable` the frames that it may send. -/
structure SendRules (inv : Stack → Prop) (related : Stack → Stack → Prop)
    (owned : Nat → Prop) (sendable : List UInt8 → Prop) : Prop where
  chained : Chained inv related
  count : ∀ net keys mallocs ipId,
    related net { net with keys := keys, mallocs := mallocs, ipId := ipId }
  allocate : ∀ net, related net { net with nextId := net.nextId + 1 }
  fresh : ∀ net, inv net → owned net.nextId
  transmit : ∀ net frame results, sendable frame →
    related net { net with sent := net.sent ++ [frame], results := results }
  free : ∀ net id, owned id →
    related net { net with freed := net.freed ++ [id] }
  advance : ∀ net fd (seqNum : Socket → Nat),
    related net (net.updateSock fd (fun sock =>
      { sock with seqNum := seqNum sock }))
  arp : ∀ device mac skb, sendable (etherFrame device mac ethTypeArp skb)

variable {inv : Stack → Prop} {related : Stack → Stack → Prop}
  {owned : Nat → Prop} {sendable : List UInt8 → Prop} {halt : Halt → Prop}

namespace SendRules

variable (rules : SendRules inv related owned sendable)

include rules

theorem uartRead_keeps : Keeps inv related halt uartRead := by
  intro net _
  simp only [uartRead, wp_bind, wp_get, wp_set, wp_pure]
  exact rules.count net _ net.mallocs net.ipId

theorem malloc_keeps : Keeps inv related halt malloc := by
  intro net _
  simp only [malloc, wp_bind, wp_get, wp_set, wp_pure]
  exact rules.count net net.keys _ net.ipId

/-- A new buffer is owned and holds the data; no socket has changed. -/
theorem skbAlloc_wp (protLen : Nat) (data : List UInt8) {net : Stack}
    (holds : inv net) :
    wp (skbAlloc protLen data) net
      (fun result final => related net final ∧ final.socks = net.socks ∧
        ∀ skb, result = some skb → owned skb.id ∧ skb.room = protLen ∧
          skb.bytes = data ∧ skb.size = data.length % 2 ^ 16) halt := by
  have counted : ∀ mallocs, related net { net with mallocs := mallocs } :=
    fun mallocs => rules.count net net.keys mallocs net.ipId
  simp only [skbAlloc, malloc, wp_bind, wp_get, wp_set, wp_pure, wp_ite]
  constructor
  · intro _
    constructor
    · intro _
      refine ⟨?_, trivial, ?_⟩
      · exact rules.chained.trans (counted net.mallocs.tail.tail)
          (rules.allocate { net with mallocs := net.mallocs.tail.tail })
      · intro skb equal
        cases equal
        exact ⟨rules.fresh net holds, rfl, rfl, rfl⟩
    · intro _
      exact ⟨counted _, trivial, by simp⟩
  · intro _
    exact ⟨counted _, trivial, by simp⟩

theorem skbAlloc_keeps (protLen : Nat) (data : List UInt8) :
    Keeps inv related halt (skbAlloc protLen data) := by
  intro net holds
  exact (rules.skbAlloc_wp protLen data holds).mono
    (fun _ _ allocated => allocated.1) (fun _ stopped => stopped)

theorem etherSendPacket_keeps (skb : TxBuff) (mac type : Nat)
    (owns : owned skb.id)
    (sends : ∀ device, sendable (etherFrame device mac type skb)) :
    Keeps inv related halt (etherSendPacket skb mac type) := by
  intro net _
  simp only [etherSendPacket, sendPacket, skbFree, wp_bind, wp_get, wp_ite,
    wp_set, wp_modify, wp_pure]
  constructor
  · intro _
    exact rules.chained.refl net
  · intro _
    exact rules.chained.trans
      (rules.transmit net _ net.results.tail (sends net.device))
      (rules.free _ _ owns)

theorem arpSendPacket_keeps (ip : Nat) (mac : Option Nat) (op : Nat) :
    Keeps inv related halt (arpSendPacket ip mac op) := by
  refine Keeps.get_bind ?_
  intro net holds
  simp only [wp_bind]
  refine (rules.skbAlloc_wp _ _ holds).mono ?_ (fun _ stopped => stopped)
  intro result middle allocated
  obtain ⟨before, _, owns⟩ := allocated
  cases result with
  | none => exact before
  | some skb =>
      simp only [wp_bind, wp_pure]
      have sending : Keeps inv related halt
          (etherSendPacket skb (mac.getD macBcast) ethTypeArp) :=
        rules.etherSendPacket_keeps skb _ ethTypeArp (owns skb rfl).1
          (fun device => rules.arp device _ skb)
      exact sending.after rules.chained holds before

section Poll

variable {poll : NetM Unit} (polls : Keeps inv related halt poll)

include polls

theorem awaitHost_keeps (ip count : Nat) :
    Keeps inv related halt (awaitHost poll ip count) := by
  induction count with
  | zero => exact Keeps.pure rules.chained none
  | succ count induction =>
      refine Keeps.bind rules.chained rules.uartRead_keeps ?_
      intro key
      refine Keeps.ite (Keeps.pure rules.chained none) ?_
      refine Keeps.bind rules.chained polls ?_
      intro _
      refine Keeps.get_bind ?_
      intro net holds
      cases getaddr net ip with
      | none => exact induction net holds
      | some mac => exact rules.chained.refl net

theorem macFillFromArp_keeps (ip : Nat) :
    Keeps inv related halt (macFillFromArp poll ip) := by
  refine Keeps.get_bind ?_
  intro net holds
  cases getaddr net ip with
  | some mac => exact rules.chained.refl net
  | none =>
      have resolving : Keeps inv related halt (gethostaddr poll ip) :=
        Keeps.bind rules.chained (rules.arpSendPacket_keeps ip none arpOpReq)
          (fun _ => rules.awaitHost_keeps polls ip 100000)
      exact resolving net holds

theorem ipSendPacket_keeps (skb : TxBuff) (source destination : SockAddr)
    (prot : Nat) (owns : owned skb.id)
    (sends : ∀ device mac id, sendable (etherFrame device mac ethTypeIp
      (skb.push (ipHeader (add16 skb.size ipHdrLen) id prot source
        destination)))) :
    Keeps inv related halt
      (ipSendPacket poll skb source destination prot) := by
  refine Keeps.get_bind ?_
  intro net holds
  simp only [wp_bind, wp_set]
  have counted := rules.count net net.keys net.mallocs (add16 net.ipId 1)
  have framing : ∀ mac, Keeps inv related halt (etherSendPacket
      (skb.push (ipHeader (add16 skb.size ipHdrLen) net.ipId prot source
        destination)) mac ethTypeIp) :=
    fun mac => rules.etherSendPacket_keeps _ mac ethTypeIp owns
      (fun device => sends device mac net.ipId)
  cases ipIsBcast net.device destination.addr with
  | true => exact (framing macBcast).after rules.chained holds counted
  | false =>
      simp only [Bool.false_eq_true, if_false, wp_bind]
      refine ((rules.macFillFromArp_keeps polls destination.addr).after
        rules.chained holds counted).mono ?_ (fun _ stopped => stopped)
      intro result middle before
      cases result with
      | none => exact before
      | some mac => exact (framing mac).after rules.chained holds before

/-- The segment that is sent carries the socket as it is at the call. -/
theorem tcpSendPacket_wp (skb : TxBuff) (fd flags : Nat)
    (options : List UInt8) (owns : owned skb.id) {net : Stack}
    (fault : net.socks fd = none → halt .fault) (holds : inv net)
    (sends : ∀ sock, net.socks fd = some sock → ∀ device mac id,
      sendable (etherFrame device mac ethTypeIp
        ((tcpSegment skb sock flags options).push
          (ipHeader (add16 (tcpSegment skb sock flags options).size ipHdrLen)
            id protTcp sock.source sock.destination)))) :
    wp (tcpSendPacket poll skb fd flags options) net
      (fun _ final => related net final) halt := by
  simp only [tcpSendPacket, sockAt, wp_bind, wp_get]
  cases found : net.socks fd with
  | none => exact fault found
  | some sock =>
      simp only [wp_pure]
      have sending := rules.ipSendPacket_keeps polls
        (tcpSegment skb sock flags options) sock.source sock.destination
        protTcp owns (sends sock found)
      refine (sending net holds).mono ?_ (fun _ stopped => stopped)
      intro _ middle before
      have advanced := fun later (seqNum : Socket → Nat)
          (earlier : related net later) =>
        rules.chained.trans earlier (rules.advance later fd seqNum)
      split
      · simp only [modifySock]
        split
        · exact advanced _ _ (advanced _ _ before)
        · exact advanced _ _ before
      · split
        · exact advanced _ _ before
        · exact before

theorem tcpSendAck_wp (fd : Nat) {net : Stack}
    (fault : net.socks fd = none → halt .fault) (holds : inv net)
    (sends : ∀ sock skb, net.socks fd = some sock → skb.bytes = [] →
      skb.size = 0 → ∀ device mac id, sendable (etherFrame device mac ethTypeIp
        ((tcpSegment skb sock flgAck []).push
          (ipHeader (add16 (tcpSegment skb sock flgAck []).size ipHdrLen)
            id protTcp sock.source sock.destination)))) :
    wp (tcpSendAck poll fd) net (fun _ final => related net final) halt := by
  unfold tcpSendAck
  rw [wp_bind]
  refine (rules.skbAlloc_wp _ _ holds).mono ?_ (fun _ stopped => stopped)
  intro result middle allocated
  obtain ⟨before, socks, owns⟩ := allocated
  cases result with
  | none => exact before
  | some skb =>
      simp only [wp_bind, wp_pure]
      obtain ⟨own, _, bytes, size⟩ := owns skb rfl
      refine (rules.tcpSendPacket_wp polls skb fd flgAck [] own
        (fun missing => fault (socks ▸ missing))
        (rules.chained.inv before holds) ?_).mono
        (fun _ _ after => rules.chained.trans before after)
        (fun _ stopped => stopped)
      intro sock found
      rw [socks] at found
      exact sends sock skb found bytes size

end Poll

end SendRules

end Witos.Net
