import Witos.Net.Receive
import Witos.Net.SendRules

/-!
# What receiving does to the stack, TCP apart

ARP, UDP and ICMP learn addresses of hosts, link buffers on sockets that are no
stream sockets, free the received buffer, and answer.  `ReceiveRules` adds these
changes to those of sending; a relation that all of them keep is kept by
`netif_rx` for every frame that is no TCP segment.
-/

namespace Witos.Net

open Library Library.Effect

/-- The TCP segment in a frame, as `ip_layer_deliver` passes it on. -/
def segmentOf (skb : SockBuff) : Option SockBuff :=
  if field skb.memory (skb.data + 12) 2 = ethTypeIp ∧
      ipHdrLen ≤ ipHeaderLen skb.memory (skb.data + 14) ∧
      ipUpProt skb.memory (skb.data + 14) = protTcp then
    some (skb.pull ethHdrLen).pullIp
  else none

theorem segmentOf_buffer (frame : Frame) (id : Nat) :
    segmentOf (frame.buffer id) =
      (segmentOf (frame.buffer 0)).map fun segment =>
        { segment with id := id } := by
  unfold segmentOf
  rw [apply_ite (Option.map _)]
  rfl

/-- The socket exists and is no stream socket. -/
def NoStream (net : Stack) (fd : Nat) : Prop :=
  ∃ sock, net.socks fd = some sock ∧ sock.type ≠ .stream

structure ReceiveRules (inv : Stack → Prop) (related : Stack → Stack → Prop)
    (owned : Nat → Prop) (sendable : List UInt8 → Prop) : Prop extends
    SendRules inv related owned sendable where
  learn : ∀ net hosts, related net { net with hosts := hosts }
  address : ∀ net fd (destination : Socket → SockAddr), NoStream net fd →
    related net (net.updateSock fd (fun sock =>
      { sock with destination := destination sock }))
  enqueue : ∀ net fd skb, inv net → NoStream net fd →
    related net (net.updateSock fd (fun sock =>
      { sock with rxQu := sock.rxQu ++ [skb] }))
  icmp : ∀ device mac size id source destination (skb : TxBuff),
    sendable (etherFrame device mac ethTypeIp
      (skb.push (ipHeader size id protIcmp source destination)))

theorem noStream_of_type {net : Stack} {fd : Nat} {type : SockType}
    (typed : ∃ sock, net.socks fd = some sock ∧ sock.type = type)
    (other : type ≠ .stream) : NoStream net fd := by
  obtain ⟨sock, present, isType⟩ := typed
  exact ⟨sock, present, isType ▸ other⟩

theorem noStream_updateSock {net : Stack} {fd other : Nat}
    {change : Socket → Socket} (noStream : NoStream net fd)
    (keeps : ∀ sock, (change sock).type = sock.type) :
    NoStream (net.updateSock other change) fd := by
  obtain ⟨sock, found, type⟩ := noStream
  by_cases same : fd = other
  · subst same
    exact ⟨change sock, by simp [Stack.updateSock, found],
      by simpa [keeps] using type⟩
  · exact ⟨sock, by simp [Stack.updateSock, same, found], type⟩

namespace ReceiveRules

variable {inv : Stack → Prop} {related : Stack → Stack → Prop}
  {owned : Nat → Prop} {sendable : List UInt8 → Prop} {halt : Halt → Prop}
  (rules : ReceiveRules inv related owned sendable)

include rules

theorem udpLayerDeliver_keeps (skb : SockBuff) (ip : Nat)
    (owns : owned skb.id) :
    Keeps inv related halt (udpLayerDeliver skb ip) := by
  intro net holds
  simp only [udpLayerDeliver, skbFree, modifySock, listAddTail, wp_bind,
    wp_get]
  split
  · exact rules.free net _ owns
  · next fd found =>
      have noStream : NoStream net fd :=
        noStream_of_type (udpSearchSocket_dgram found) (by decide)
      simp only [wp_bind, wp_modify, wp_pure]
      have addressed := rules.address net fd (fun sock =>
        { sock.destination with
          addr := ipSource skb.memory ip
          port := field skb.memory skb.data 2 }) noStream
      refine rules.chained.trans addressed ?_
      exact rules.enqueue _ fd _ (rules.chained.inv addressed holds)
        (noStream_updateSock noStream fun _ => rfl)

theorem arpRecvPacket_keeps (skb : SockBuff) (owns : owned skb.id) :
    Keeps inv related halt (arpRecvPacket skb) := by
  have chained := rules.chained
  intro net holds
  simp only [arpRecvPacket]
  split
  · exact chained.refl net
  · split
    · simp only [wp_bind, wp_get]
      split
      · exact chained.refl net
      · rw [wp_bind]
        refine (rules.malloc_keeps net holds).mono ?_
          (fun _ stopped => stopped)
        intro succeeds middle before
        cases succeeds with
        | false => exact before
        | true =>
            simp only [if_true, wp_bind, wp_modify, wp_get]
            have learned := chained.trans before
              (rules.learn middle (middle.hosts ++ [(
                field skb.memory (skb.data + 14) 4,
                field skb.memory (skb.data + 8) 6)]))
            split
            · exact chained.trans learned (rules.free _ _ owns)
            · next fd found =>
                have noStream :=
                  noStream_of_type (arpSearchSocket_raw found) (by decide)
                exact chained.trans learned (rules.enqueue _ fd skb
                  (chained.inv learned holds) noStream)
    · split
      · simp only [wp_bind, wp_get]
        split
        · simp only [wp_bind]
          refine (rules.arpSendPacket_keeps _ _ _ net holds).mono ?_
            (fun _ stopped => stopped)
          intro _ middle before
          exact chained.trans before (rules.free _ _ owns)
        · exact rules.free _ _ owns
      · exact rules.free _ _ owns

variable {poll : NetM Unit} (polls : Keeps inv related halt poll)

include polls

theorem icmpDeliver_keeps (skb : SockBuff) (ip : Nat) (owns : owned skb.id) :
    Keeps inv related halt (icmpDeliver poll skb ip) := by
  intro net holds
  simp only [icmpDeliver]
  split
  · simp only [pingSend, wp_bind]
    refine (rules.skbAlloc_wp _ _ holds).mono ?_ (fun _ stopped => stopped)
    intro result middle allocated
    cases result with
    | none => exact allocated.1
    | some tx =>
        simp only [wp_bind, wp_pure]
        exact (rules.ipSendPacket_keeps polls tx _ _ _
          (allocated.2.2 tx rfl).1 fun device mac id =>
            rules.icmp device mac _ id _ _ tx).after
          rules.chained holds allocated.1
  · split
    · simp only [wp_bind, wp_get]
      split
      · exact rules.free _ _ owns
      · next fd found =>
          have noStream :=
            noStream_of_type (icmpSearchSocket_raw found) (by decide)
          exact rules.enqueue _ fd skb holds noStream
    · exact rules.chained.refl net

theorem netifRx_keeps (skb : SockBuff) (owns : owned skb.id)
    (noSegment : segmentOf skb = none) :
    Keeps inv related halt (netifRx poll skb) := by
  intro net holds
  simp only [netifRx]
  split
  · simp only [wp_bind, wp_pure]
    exact rules.arpRecvPacket_keeps (skb.pull ethHdrLen) owns net holds
  · split
    · exact rules.free _ _ owns
    · split
      · next ip =>
          simp only [ipLayerDeliver, wp_bind]
          split
          · exact rules.chained.refl net
          · next long =>
              split
              · simp only [wp_bind, wp_pure]
                exact rules.udpLayerDeliver_keeps
                  (skb.pull ethHdrLen).pullIp _ owns net holds
              · split
                · next tcp =>
                    have long : ipHdrLen ≤
                        ipHeaderLen skb.memory (skb.data + 14) :=
                      Nat.le_of_not_lt long
                    have tcp : ipUpProt skb.memory (skb.data + 14) =
                      protTcp := tcp
                    simp [segmentOf, ip, long, tcp] at noSegment
                · split
                  · simp only [wp_bind, wp_pure]
                    exact rules.icmpDeliver_keeps polls
                      (skb.pull ethHdrLen).pullIcmp _ owns net holds
                  · split
                    · exact rules.free _ _ owns
                    · exact rules.free _ _ owns
      · exact rules.free _ _ owns

end ReceiveRules

/-- A TCP segment goes to `tcp_layer_deliver`. -/
theorem netifRx_segment_wp {poll : NetM Unit} {skb segment : SockBuff}
    (found : segmentOf skb = some segment) {net : Stack}
    {post : Stack → Prop} {halt : Halt → Prop} :
    wp (netifRx poll skb) net (fun _ final => post final) halt ↔
      wp (tcpLayerDeliver poll segment) net (fun _ final => post final)
        halt := by
  simp only [segmentOf] at found
  split at found
  · next conditions =>
      obtain ⟨ip, long, tcp⟩ := conditions
      cases found
      have notArp : ¬ethTypeIp = ethTypeArp := by decide
      have notRarp : ¬ethTypeIp = ethTypeRarp := by decide
      have notUdp : ¬protTcp = protUdp := by decide
      have notShort : ¬ipHeaderLen (skb.pull ethHdrLen).memory
        (skb.pull ethHdrLen).data < ipHdrLen := Nat.not_lt.mpr long
      have tcp : ipUpProt (skb.pull ethHdrLen).memory
        (skb.pull ethHdrLen).data = protTcp := tcp
      simp only [netifRx, ip, notArp, notRarp, if_false, if_true,
        ipLayerDeliver, tcp, notUdp, notShort, wp_bind, wp_pure]
  · cases found

end Witos.Net
