import Witos.Net.Delivery

/-!
# Ownership and extent of received buffers

When `netif_rx` returns, its buffer should have been freed once or be linked
on one socket, and the slice of a linked buffer should lie inside the frame.
Both hold for exactly the frames described here.
-/

namespace Witos.Net

open Library Library.Effect

/-- The driver has just allocated the buffer. -/
structure Fresh (net : Stack) (id : Nat) : Prop where
  allocated : id < net.nextId
  notFreed : id ∉ net.freed
  notLinked : ∀ fd, net.links fd id = []

/-- Freed exactly once, or linked on exactly one socket, and not both. -/
def OwnedOnce (net : Stack) (id : Nat) : Prop :=
  (net.freed.count id = 1 ∧ ∀ fd, net.links fd id = []) ∨
    (net.freed.count id = 0 ∧ ∃ fd, (net.links fd id).length = 1 ∧
      ∀ other, other ≠ fd → net.links other id = [])

/-- An ARP packet for another protocol than IP, or a reply from a host that is
known already or cannot be recorded. -/
def ForgetsArp (net : Stack) (memory : Nat → UInt8) (arp : Nat) : Prop :=
  field memory (arp + 2) 2 ≠ ethTypeIp ∨
    (field memory (arp + 6) 2 = arpOpRep ∧
      ((getaddr net (field memory (arp + 14) 4)).isSome ∨
        net.mallocs.head? = some false))

/-- An IP header that is too short, a TCP segment for a socket with flags that
the `switch` does not list, or an ICMP message that is no echo reply. -/
def ForgetsIp (net : Stack) (memory : Nat → UInt8) (ip : Nat) : Prop :=
  let payload := ip + ipHeaderLen memory ip
  ipHeaderLen memory ip < ipHdrLen ∨
    (ipUpProt memory ip = protTcp ∧
      (tcpSearchSocket net (dstPort memory payload)).isSome ∧
      flagCase (tcpFlags memory payload) = .unlisted) ∨
    (ipUpProt memory ip = protIcmp ∧
      (memory payload).toNat ≠ icmpTypeEchoReply)

def Forgets (net : Stack) (skb : SockBuff) : Prop :=
  let type := field skb.memory (skb.data + 12) 2
  (type = ethTypeArp ∧ ForgetsArp net skb.memory (skb.data + 14)) ∨
    (type = ethTypeIp ∧ ForgetsIp net skb.memory (skb.data + 14))

instance (net : Stack) (memory : Nat → UInt8) (arp : Nat) :
    Decidable (ForgetsArp net memory arp) :=
  inferInstanceAs (Decidable (_ ∨ _))

instance (net : Stack) (memory : Nat → UInt8) (ip : Nat) :
    Decidable (ForgetsIp net memory ip) :=
  inferInstanceAs (Decidable (_ ∨ _ ∨ _))

instance (net : Stack) (skb : SockBuff) : Decidable (Forgets net skb) :=
  inferInstanceAs (Decidable (_ ∨ _))

theorem arpDisposition_forgotten_iff (net : Stack) (skb : SockBuff) :
    arpDisposition net skb = .forgotten ↔
      ForgetsArp net skb.memory skb.data := by
  simp only [arpDisposition, ForgetsArp]
  split
  · next prot => simp [prot]
  · next prot =>
      split
      · next reply =>
          split
          · next known => simp [prot, reply, known]
          · next known =>
              simp only [prot, reply, known]
              split <;> simp
      · next reply => simp [prot, reply]

theorem tcpDisposition_forgotten_iff (net : Stack) (skb : SockBuff) :
    tcpDisposition net skb = .forgotten ↔
      (tcpSearchSocket net (dstPort skb.memory skb.data)).isSome ∧
        flagCase (tcpFlags skb.memory skb.data) = .unlisted := by
  simp only [tcpDisposition]
  split
  · next missing => simp [missing]
  · next fd found =>
      rw [found]
      cases flagCase (tcpFlags skb.memory skb.data) with
      | syn => simp
      | fin =>
          simp only
          split <;> simp
      | ack =>
          simp only
          split <;> simp
      | data => simp
      | unlisted => simp

theorem udpDisposition_ne_forgotten (net : Stack) (skb : SockBuff) :
    udpDisposition net skb ≠ .forgotten := by
  simp only [udpDisposition]
  split
  · simp
  · simp

theorem icmpDisposition_forgotten_iff (net : Stack) (skb : SockBuff)
    (ip : Nat) :
    icmpDisposition net skb ip = .forgotten ↔
      (skb.memory (skb.data + ipHeaderLen skb.memory ip)).toNat ≠
        icmpTypeEchoReply := by
  simp only [icmpDisposition]
  split
  · next reply =>
      simp only [reply, ne_eq, not_true_eq_false, iff_false]
      split <;> simp
  · next reply => simp [reply]

theorem ipDisposition_forgotten_iff (net : Stack) (skb : SockBuff) :
    ipDisposition net skb = .forgotten ↔
      ForgetsIp net skb.memory skb.data := by
  simp only [ipDisposition, ForgetsIp]
  by_cases short : ipHeaderLen skb.memory skb.data < ipHdrLen
  · simp [short]
  rw [if_neg short]
  simp only [short, false_or]
  by_cases udp : ipUpProt skb.memory skb.data = protUdp
  · have notTcp : ¬protUdp = protTcp := by decide
    have notIcmp : ¬protUdp = protIcmp := by decide
    simp [udp, notTcp, notIcmp, udpDisposition_ne_forgotten]
  rw [if_neg udp]
  by_cases tcp : ipUpProt skb.memory skb.data = protTcp
  · have notIcmp : ¬protTcp = protIcmp := by decide
    simp only [tcp, if_true, true_and, notIcmp, false_and, or_false]
    exact tcpDisposition_forgotten_iff net skb.pullIp
  rw [if_neg tcp]
  by_cases icmp : ipUpProt skb.memory skb.data = protIcmp
  · have notTcp : ¬protIcmp = protTcp := by decide
    simp only [icmp, if_true, true_and, notTcp, false_and, false_or]
    exact icmpDisposition_forgotten_iff net skb.pullIcmp skb.data
  · simp [tcp, icmp]

theorem netifDisposition_forgotten_iff (net : Stack) (skb : SockBuff) :
    netifDisposition net skb = .forgotten ↔ Forgets net skb := by
  simp only [netifDisposition, Forgets]
  by_cases arp : field skb.memory (skb.data + 12) 2 = ethTypeArp
  · have notIp : ¬ethTypeArp = ethTypeIp := by decide
    simp only [arp, if_true, true_and, notIp, false_and, or_false]
    exact arpDisposition_forgotten_iff net (skb.pull ethHdrLen)
  rw [if_neg arp]
  by_cases ip : field skb.memory (skb.data + 12) 2 = ethTypeIp
  · have notArp : ¬ethTypeIp = ethTypeArp := by decide
    simp only [ip, if_true, true_and, notArp, false_and, false_or]
    exact ipDisposition_forgotten_iff net (skb.pull ethHdrLen)
  · simp [arp, ip]

/-- A fresh buffer that was settled is owned once unless it was forgotten. -/
theorem ownedOnce_settle_iff {net : Stack} {skb : SockBuff}
    (fresh : Fresh net skb.id) :
    OwnedOnce ((netifDisposition net skb).settle skb.id net) skb.id ↔
      netifDisposition net skb ≠ .forgotten := by
  have unfreed : net.freed.count skb.id = 0 :=
    List.count_eq_zero.mpr fresh.notFreed
  cases chosen : netifDisposition net skb with
  | freed =>
      simp only [ne_eq, reduceCtorEq, not_false_eq_true, iff_true]
      refine .inl ⟨?_, fresh.notLinked⟩
      simp [Disposition.settle, unfreed]
  | forgotten =>
      simp only [ne_eq, not_true_eq_false, iff_false]
      intro owned
      cases owned with
      | inl freed =>
          have once : net.freed.count skb.id = 1 := freed.1
          omega
      | inr linked =>
          obtain ⟨_, fd, once, _⟩ := linked
          simp [Disposition.settle, fresh.notLinked fd] at once
  | linked fd buffer =>
      simp only [ne_eq, reduceCtorEq, not_false_eq_true, iff_true]
      obtain ⟨found, linkable⟩ := netifDisposition_linked chosen
      obtain ⟨sock, found⟩ := Option.isSome_iff_exists.mp found
      have none_ := fresh.notLinked fd
      simp only [Stack.links, found, Option.elim_some] at none_
      refine .inr ⟨unfreed, fd, ?_, ?_⟩
      · simp [Disposition.settle, links_updateSock, found, none_,
          linkable.id]
      · intro other different
        simp only [Disposition.settle, links_updateSock, different, if_false]
        exact fresh.notLinked other

theorem ownedOnce_of_untouched {bound id : Nat} {net final : Stack}
    (related : Untouched bound net final) (below : id < bound) :
    OwnedOnce final id ↔ OwnedOnce net id := by
  simp only [OwnedOnce, related.freed id below, related.links id below]

/-- When `netif_rx` returns, the buffer has exactly one owner if and only if
the frame takes none of the branches that forget it. -/
theorem netifRx_ownedOnce_iff (fuel : Nat) (net final : Stack)
    (skb : SockBuff) (fresh : Fresh net skb.id)
    (returns : netifRx (pollDevice fuel) skb net = .ok ((), final)) :
    OwnedOnce final skb.id ↔ ¬Forgets net skb := by
  have settled := wp_of_ok (netifRx_settles
    (pollDevice_untouched net.nextId fuel) (Nat.le_refl net.nextId) skb)
    returns
  rw [ownedOnce_of_untouched settled fresh.allocated,
    ownedOnce_settle_iff fresh, ne_eq, netifDisposition_forgotten_iff]

/-- One buffer is allocated and the host at 192.168.0.2 is known. -/
def knownHost : Stack :=
  { Stack.initial localDevice with
    hosts := [(0xc0a80002, 0x020000000002)]
    nextId := 1 }

set_option maxRecDepth 4000 in
theorem netifRx_ownedOnce_iff_unknownHost :
    ∃ final, netifRx (pollDevice 0) (arpReply.buffer 0)
        { knownHost with hosts := [] } = .ok ((), final) ∧
      OwnedOnce final 0 :=
  ⟨_, rfl, (netifRx_ownedOnce_iff 0 { knownHost with hosts := [] } _
    (arpReply.buffer 0) ⟨by decide, by decide, fun _ => rfl⟩ rfl).mpr
    (by decide)⟩

set_option maxRecDepth 4000 in
theorem netifRx_not_ownedOnce_knownHost :
    ¬∀ fuel net final skb, Fresh net skb.id →
      netifRx (pollDevice fuel) skb net = .ok ((), final) →
      OwnedOnce final skb.id := by
  intro always
  have owned := always 0 knownHost knownHost (arpReply.buffer 0)
    ⟨by decide, by decide, fun _ => rfl⟩ rfl
  cases owned with
  | inl freed => exact absurd freed.1 (by decide)
  | inr linked =>
      obtain ⟨_, fd, once, _⟩ := linked
      cases once

/-- The slice lies inside a frame of `length` bytes. -/
def Inside (length : Nat) (skb : SockBuff) : Prop :=
  skb.data + skb.size ≤ length

/-- What `ip_layer_deliver` and the layer above subtract, and from what. -/
def ipSubtractions (skb : SockBuff) : List (Nat × Nat) :=
  let prot := ipUpProt skb.memory skb.data
  let rest := skb.pullIp
  (ipTotalLen skb.memory skb.data, ipHeaderLen skb.memory skb.data) ::
    if prot = protUdp then [(rest.size, udpHdrLen)]
    else if prot = protTcp then
      [(rest.size, tcpHeaderLen rest.memory rest.data)]
    else []

/-- The subtractions that give `skb->size` in `netif_rx` and the layers above,
from the first one on. -/
def sizeSubtractions (skb : SockBuff) : List (Nat × Nat) :=
  (skb.size, ethHdrLen) ::
    if field skb.memory (skb.data + 12) 2 = ethTypeIp then
      ipSubtractions (skb.pull ethHdrLen)
    else []

/-- The slice lies inside the frame, and no size wrapped on the way to it. -/
structure StaysInside (frame : Frame) (id : Nat) (buffer : SockBuff) :
    Prop where
  inside : Inside frame.length buffer
  unwrapped : ∀ step ∈ sizeSubtractions (frame.buffer id), step.2 ≤ step.1

/-- The bytes that the IP header and, for UDP and TCP, the transport header
take. -/
def Frame.headers (frame : Frame) : Nat :=
  let length := ipHeaderLen frame.memory 14
  if ipUpProt frame.memory 14 = protUdp then length + udpHdrLen
  else if ipUpProt frame.memory 14 = protTcp then
    length + tcpHeaderLen frame.memory (14 + length)
  else length

/-- Where the packet in a frame ends according to its headers. -/
def Frame.packetEnd (frame : Frame) : Nat :=
  if field frame.memory 12 2 = ethTypeArp then frame.length
  else 14 + ipTotalLen frame.memory 14

/-- The Ethernet header fits into the frame, and for IP the headers fit into
`total_len` and `total_len` into the frame. -/
def Frame.Fits (frame : Frame) : Prop :=
  if field frame.memory 12 2 = ethTypeArp then ethHdrLen ≤ frame.length
  else frame.headers ≤ ipTotalLen frame.memory 14 ∧
    14 + ipTotalLen frame.memory 14 ≤ frame.length

instance (frame : Frame) : Decidable frame.Fits :=
  inferInstanceAs (Decidable (if field frame.memory 12 2 = ethTypeArp then
    ethHdrLen ≤ frame.length
  else frame.headers ≤ ipTotalLen frame.memory 14 ∧
    14 + ipTotalLen frame.memory 14 ≤ frame.length))

theorem staysInside_iff (frame : Frame) (id : Nat) (buffer : SockBuff) :
    StaysInside frame id buffer ↔
      Inside frame.length buffer ∧
        ∀ step ∈ sizeSubtractions (frame.buffer id), step.2 ≤ step.1 :=
  ⟨fun stays => ⟨stays.inside, stays.unwrapped⟩,
    fun ⟨inside, unwrapped⟩ => ⟨inside, unwrapped⟩⟩

theorem staysInside_iff_fits {frame : Frame} {id : Nat} {buffer : SockBuff}
    (short : frame.length < 2 ^ 16)
    (linkable : Linkable (frame.buffer id) buffer) :
    (StaysInside frame id buffer ↔ frame.Fits) ∧
      (frame.Fits → buffer.data + buffer.size = frame.packetEnd) := by
  rw [staysInside_iff]
  have total : ipTotalLen frame.memory 14 < 2 ^ 16 :=
    beValue_slice_lt frame.memory 16 2
  have ipBound : ipHeaderLen frame.memory 14 < 64 := by
    unfold ipHeaderLen
    omega
  have notArp : ¬ethTypeIp = ethTypeArp := by decide
  have arpNotIp : ¬ethTypeArp = ethTypeIp := by decide
  cases linkable with
  | arp type =>
      have type : field frame.memory 12 2 = ethTypeArp := type
      simp only [Inside, Frame.Fits, Frame.packetEnd, sizeSubtractions, type,
        arpNotIp, if_true, if_false, SockBuff.pull, Frame.buffer, sub16,
        ethHdrLen, Nat.zero_add, List.forall_mem_cons, List.not_mem_nil,
        false_imp_iff, implies_true, and_true]
      omega
  | udp type prot =>
      have type : field frame.memory 12 2 = ethTypeIp := type
      have prot : ipUpProt frame.memory 14 = protUdp := prot
      simp only [Inside, Frame.Fits, Frame.packetEnd, Frame.headers, type,
        prot, notArp, if_true, if_false, SockBuff.pull, SockBuff.pullIp,
        sizeSubtractions, ipSubtractions, Frame.buffer, sub16, ethHdrLen,
        udpHdrLen, Nat.zero_add, List.forall_mem_cons, List.not_mem_nil,
        false_imp_iff, implies_true, and_true]
      omega
  | tcp type prot =>
      have type : field frame.memory 12 2 = ethTypeIp := type
      have prot : ipUpProt frame.memory 14 = protTcp := prot
      have notUdp : ¬protTcp = protUdp := by decide
      have tcpBound : ∀ tcp, tcpHeaderLen frame.memory tcp < 64 := by
        intro tcp
        have byte : (frame.memory (tcp + 12)).toNat < 256 :=
          (frame.memory (tcp + 12)).toNat_lt
        unfold tcpHeaderLen
        omega
      have tcpBound := tcpBound (14 + ipHeaderLen frame.memory 14)
      simp only [Inside, Frame.Fits, Frame.packetEnd, Frame.headers, type,
        prot, notArp, notUdp, if_true, if_false, SockBuff.pull,
        SockBuff.pullIp, sizeSubtractions, ipSubtractions, Frame.buffer,
        sub16, ethHdrLen, Nat.zero_add, List.forall_mem_cons,
        List.not_mem_nil, false_imp_iff, implies_true, and_true]
      omega
  | icmp type prot =>
      have type : field frame.memory 12 2 = ethTypeIp := type
      have prot : ipUpProt frame.memory 14 = protIcmp := prot
      have notUdp : ¬protIcmp = protUdp := by decide
      have notTcp : ¬protIcmp = protTcp := by decide
      simp only [Inside, Frame.Fits, Frame.packetEnd, Frame.headers, type,
        prot, notArp, notUdp, notTcp, if_true, if_false, SockBuff.pull,
        SockBuff.pullIp, SockBuff.pullIcmp, sizeSubtractions, ipSubtractions,
        Frame.buffer, add16, sub16, ethHdrLen, Nat.zero_add,
        List.forall_mem_cons, List.not_mem_nil, false_imp_iff, implies_true,
        and_true]
      omega

/-- The buffer on a queue is the one that the disposition put there. -/
theorem linked_of_mem {net : Stack} {skb buffer : SockBuff} {fd : Nat}
    (fresh : Fresh net skb.id)
    (linked : buffer ∈
      ((netifDisposition net skb).settle skb.id net).links fd skb.id) :
    Linkable skb buffer := by
  have none_ := fresh.notLinked fd
  cases chosen : netifDisposition net skb with
  | freed =>
      rw [chosen, show (Disposition.freed.settle skb.id net).links fd skb.id =
        [] from none_] at linked
      cases linked
  | forgotten =>
      rw [chosen, show (Disposition.forgotten.settle skb.id net).links fd
        skb.id = [] from none_] at linked
      cases linked
  | linked target chosenBuffer =>
      obtain ⟨found, linkable⟩ := netifDisposition_linked chosen
      obtain ⟨sock, found⟩ := Option.isSome_iff_exists.mp found
      rw [chosen] at linked
      simp only [Disposition.settle, links_updateSock] at linked
      by_cases same : fd = target
      · subst same
        simp only [Stack.links, found, Option.elim_some] at none_
        simp only [if_true, found, Option.elim_some, List.filter_append,
          none_, List.nil_append, List.mem_filter, List.mem_singleton]
          at linked
        rw [linked.1]
        exact linkable
      · simp only [same, if_false, none_] at linked
        cases linked

/-- The slice of a linked buffer lies inside the received frame, without a size
that wrapped, if and only if the lengths in its headers fit; and then it ends
where the packet ends. -/
theorem netifRx_inside_iff (fuel : Nat) (net final : Stack) (frame : Frame)
    (id fd : Nat) (buffer : SockBuff) (short : frame.length < 2 ^ 16)
    (fresh : Fresh net id)
    (returns : netifRx (pollDevice fuel) (frame.buffer id) net =
      .ok ((), final))
    (linked : buffer ∈ final.links fd id) :
    (StaysInside frame id buffer ↔ frame.Fits) ∧
      (frame.Fits → buffer.data + buffer.size = frame.packetEnd) := by
  have settled := wp_of_ok (netifRx_settles
    (pollDevice_untouched net.nextId fuel) (Nat.le_refl net.nextId)
    (frame.buffer id)) returns
  rw [settled.links id fresh.allocated fd] at linked
  exact staysInside_iff_fits short (linked_of_mem fresh linked)

/-- A datagram for port 69 whose `total_len` counts `size` bytes. -/
def datagram (size : UInt8) : Frame :=
  .ofBytes ([2, 0, 0, 0, 0, 1, 2, 0, 0, 0, 0, 2, 8, 0] ++
    [0x45, 0, 0, size, 0, 0, 0, 0, 64, 17, 0, 0, 192, 168, 0, 2] ++
    [192, 168, 0, 1, 4, 0, 0, 69, 0, 12, 0, 0, 1, 2, 3, 4])

def boundSocket : Socket where
  type := .dgram
  protocol := 0
  obstructFlags := 0
  txQu := []
  rxQu := []
  source := ⟨2, 69, 0xc0a80001⟩
  destination := .zero
  state := .other 0
  seqNum := 0
  ackNum := 0

/-- One datagram socket, bound to port 69. -/
def oneSocket : Stack :=
  { knownHost with
    socks := fun fd => if fd = 1 then some boundSocket else none }

theorem oneSocket_fresh : Fresh oneSocket 0 := by
  refine ⟨by decide, by decide, ?_⟩
  intro fd
  by_cases first : fd = 1
  · subst first
    rfl
  · simp [Stack.links, oneSocket, first]

set_option maxRecDepth 4000 in
theorem netifRx_inside_iff_datagram :
    ∃ final buffer, netifRx (pollDevice 0) ((datagram 32).buffer 0) oneSocket =
        .ok ((), final) ∧ buffer ∈ final.links 1 0 ∧ buffer.size = 4 ∧
      StaysInside (datagram 32) 0 buffer :=
  ⟨_, _, rfl, List.mem_singleton.mpr rfl, by decide,
    (netifRx_inside_iff 0 oneSocket _ (datagram 32) 0 1 _ (by decide)
      oneSocket_fresh rfl (List.mem_singleton.mpr rfl)).1.mpr (by decide)⟩

set_option maxRecDepth 4000 in
/-- A `total_len` one byte short of the headers makes the size wrap. -/
theorem netifRx_not_inside_datagram :
    ¬∀ fuel net final (frame : Frame) id fd buffer, frame.length < 2 ^ 16 →
      Fresh net id →
      netifRx (pollDevice fuel) (frame.buffer id) net = .ok ((), final) →
      buffer ∈ final.links fd id → StaysInside frame id buffer := by
  intro always
  have stays := always 0 oneSocket _ (datagram 27) 0 1 _ (by decide)
    oneSocket_fresh rfl (List.mem_singleton.mpr rfl)
  exact absurd stays.inside (by unfold Inside; decide)

end Witos.Net
