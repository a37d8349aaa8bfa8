import Witos.Net.Descriptors
import Witos.Net.ReceiveRules
import Witos.Net.UdpRoundTrip

/-!
# Which calls send datagrams

The layers that receive answer with frames of ARP, ICMP and TCP, and `sk_close`
sends segments of TCP.  None of them sends a datagram of UDP, whatever the
device receives meanwhile.
-/

namespace Witos.Net

open Library Library.Effect

/-- What `netif_rx` and `ip_layer_deliver` take for a datagram of UDP. -/
def IsDatagram (frame : List UInt8) : Prop :=
  field (Frame.ofBytes frame).memory 12 2 = ethTypeIp ∧
    ipUpProt (Frame.ofBytes frame).memory ethHdrLen = protUdp

theorem Carries.isDatagram {frame data : List UInt8}
    {source destination : SockAddr}
    (carries : Carries (Frame.ofBytes frame).memory source destination data) :
    IsDatagram frame :=
  ⟨carries.type, carries.prot⟩

/-- A frame that is long enough for the test has all of the headers that the
test reads. -/
theorem isDatagram_etherFrame {device : Device} {mac type : Nat}
    {skb : TxBuff}
    (datagram : IsDatagram (etherFrame device mac type skb)) :
    beValue (beBytes 2 type) = ethTypeIp ∧ skb.bytes.getD 9 0 = 17 := by
  obtain ⟨isType, isProt⟩ := datagram
  let whole := etherHeader device mac type ++ skb.bytes
  let size := add16 skb.size (etherHeader device mac type).length
  have memory (index : Nat) :
      (Frame.ofBytes (etherFrame device mac type skb)).memory index =
        (whole.take size).getD index 0 := rfl
  have byte : (whole.take size).getD 23 0 = 17 := by
    rw [ipUpProt, memory] at isProt
    exact UInt8.toNat_inj.mp isProt
  have long : 23 < size := by
    by_contra short
    have none : (whole.take size).getD 23 0 = 0 := by
      rw [List.getD_eq_getElem?_getD, List.getElem?_take_eq_none (by omega)]
      rfl
    rw [none] at byte
    exact absurd byte (by decide)
  have kept (index : Nat) (inside : index ≤ 23) :
      (whole.take size).getD index 0 = whole.getD index 0 := by
    rw [List.getD_eq_getElem?_getD, List.getD_eq_getElem?_getD,
      List.getElem?_take_of_lt (by omega)]
  constructor
  · rw [field, slice_succ, slice_succ, slice_zero, memory, memory,
      kept 12 (by omega), kept (12 + 1) (by omega)] at isType
    exact isType
  · have place : whole.getD 23 0 = skb.bytes.getD 9 0 := by
      rw [List.getD_eq_getElem?_getD, List.getElem?_append_right
        (by rw [length_etherHeader]; omega), length_etherHeader,
        ← List.getD_eq_getElem?_getD]
    rw [← place, ← kept 23 (by omega)]
    exact byte

theorem not_isDatagram_arp (device : Device) (mac : Nat) (skb : TxBuff) :
    ¬IsDatagram (etherFrame device mac ethTypeArp skb) := by
  intro datagram
  exact absurd (isDatagram_etherFrame datagram).1 (by decide)

theorem not_isDatagram_ip {prot : Nat} (other : UInt8.ofNat prot ≠ 17)
    (device : Device) (mac size id : Nat) (source destination : SockAddr)
    (skb : TxBuff) :
    ¬IsDatagram (etherFrame device mac ethTypeIp
      (skb.push (ipHeader size id prot source destination))) := by
  intro datagram
  have byte : UInt8.ofNat prot = 17 := (isDatagram_etherFrame datagram).2
  exact other byte

/-- No datagram is sent. -/
def NoDatagrams (net final : Stack) : Prop :=
  ∃ frames, final.sent = net.sent ++ frames ∧
    ∀ frame ∈ frames, ¬IsDatagram frame

theorem noDatagrams_of_eq {net final : Stack}
    (same : final.sent = net.sent) : NoDatagrams net final :=
  ⟨[], same.trans (List.append_nil _).symm,
    fun _ member => absurd member List.not_mem_nil⟩

theorem noDatagrams_chained : Chained anyStack NoDatagrams where
  refl _ := noDatagrams_of_eq rfl
  trans := by
    rintro first second third ⟨before, isSecond, noneBefore⟩
      ⟨after, isThird, noneAfter⟩
    refine ⟨before ++ after, ?_, ?_⟩
    · rw [isThird, isSecond, List.append_assoc]
    · intro frame member
      rcases List.mem_append.mp member with early | late
      · exact noneBefore frame early
      · exact noneAfter frame late
  inv _ _ := trivial

theorem noDatagrams_rules :
    ReceiveRules anyStack NoDatagrams (fun _ => True)
      (fun frame => ¬IsDatagram frame) where
  chained := noDatagrams_chained
  count _ _ _ _ := noDatagrams_of_eq rfl
  allocate _ := noDatagrams_of_eq rfl
  fresh _ _ := trivial
  transmit _ frame _ other := ⟨[frame], rfl, fun _ member =>
    List.mem_singleton.mp member ▸ other⟩
  free _ _ _ := noDatagrams_of_eq rfl
  advance _ _ _ := noDatagrams_of_eq rfl
  arp := not_isDatagram_arp
  learn _ _ := noDatagrams_of_eq rfl
  address _ _ _ _ := noDatagrams_of_eq rfl
  enqueue _ _ _ _ _ := noDatagrams_of_eq rfl
  icmp device mac size id source destination skb :=
    not_isDatagram_ip (by decide) device mac size id source destination skb

/-- No datagram is sent, if the computation returns. -/
abbrev Silent {α : Type} (run : NetM α) : Prop :=
  Keeps anyStack NoDatagrams anyHalt run

theorem modifySock_silent (fd : Nat) (change : Socket → Socket) :
    Silent (modifySock fd change) :=
  fun _ _ => noDatagrams_of_eq rfl

theorem skbFree_silent (id : Nat) : Silent (skbFree id) :=
  fun _ _ => noDatagrams_of_eq rfl

theorem sockAt_silent (fd : Nat) : Silent (sockAt fd) :=
  sockAt_keeps noDatagrams_chained fd

theorem Silent.thenPure {α β : Type} {run : NetM α} (silent : Silent run)
    (value : β) : Silent (do let _ ← run; pure value) :=
  Keeps.bind noDatagrams_chained silent fun _ =>
    Keeps.pure noDatagrams_chained value

section Segments

variable {poll : NetM Unit} (polls : Silent poll)

include polls

theorem tcpSendPacket_silent (skb : TxBuff) (fd flags : Nat)
    (options : List UInt8) :
    Silent (tcpSendPacket poll skb fd flags options) :=
  fun _ holds => noDatagrams_rules.tcpSendPacket_wp polls skb fd flags options
    trivial (fun _ => trivial) holds (fun _ _ _ _ _ =>
      not_isDatagram_ip (by decide) _ _ _ _ _ _ _)

theorem tcpSendAck_silent (fd : Nat) : Silent (tcpSendAck poll fd) :=
  fun _ holds => noDatagrams_rules.tcpSendAck_wp polls fd
    (fun _ => trivial) holds (fun _ _ _ _ _ _ _ _ =>
      not_isDatagram_ip (by decide) _ _ _ _ _ _ _)

theorem tcpDeliverSyn_silent (skb : SockBuff) (tcp fd : Nat) :
    Silent (tcpDeliverSyn poll skb tcp fd) := by
  have chained := noDatagrams_chained
  refine Keeps.bind chained (modifySock_silent fd _) fun _ => ?_
  refine Keeps.bind chained (skbFree_silent _) fun _ => ?_
  refine Keeps.bind chained (tcpSendAck_silent polls fd) fun _ => ?_
  refine Keeps.bind chained (sockAt_silent fd) fun sock => ?_
  exact Keeps.ite (modifySock_silent fd _) fun _ _ => trivial

theorem tcpDeliverFin_silent (skb : SockBuff) (tcp fd : Nat) :
    Silent (tcpDeliverFin poll skb tcp fd) := by
  have chained := noDatagrams_chained
  have acks := (tcpSendAck_silent polls fd).thenPure ()
  unfold tcpDeliverFin
  apply Keeps.ite
  · refine Keeps.bind chained (modifySock_silent fd _) fun _ => ?_
    exact Keeps.bind chained (modifySock_silent fd _) fun _ => acks
  · refine Keeps.bind chained (modifySock_silent fd _) fun _ => ?_
    refine Keeps.bind chained (sockAt_silent fd) fun sock => ?_
    cases stateAfterFin (tcpFlags skb.memory tcp) sock.state with
    | none => exact fun _ _ => trivial
    | some state =>
        refine Keeps.bind chained (modifySock_silent fd _) fun _ => ?_
        exact Keeps.bind chained (skbFree_silent _) fun _ => acks

theorem tcpDeliverData_silent (skb : SockBuff) (tcp fd : Nat) :
    Silent (tcpDeliverData poll skb tcp fd) := by
  have chained := noDatagrams_chained
  refine Keeps.bind chained (modifySock_silent fd _) fun _ => ?_
  refine Keeps.bind chained (modifySock_silent fd _) fun _ => ?_
  exact (tcpSendAck_silent polls fd).thenPure ()

theorem tcpLayerDeliver_silent (skb : SockBuff) :
    Silent (tcpLayerDeliver poll skb) := by
  have chained := noDatagrams_chained
  refine Keeps.get_bind fun net holds => ?_
  cases tcpSearchSocket net (dstPort
      (skb.pull (tcpHeaderLen skb.memory skb.data)).memory skb.data) with
  | none => exact noDatagrams_of_eq rfl
  | some fd =>
      have acknowledges (skb : SockBuff) : Silent (tcpDeliverAck skb fd) :=
        Keeps.bind chained (skbFree_silent _) fun _ => modifySock_silent fd _
      cases flagCase (tcpFlags
          (skb.pull (tcpHeaderLen skb.memory skb.data)).memory skb.data) with
      | syn =>
          exact (tcpDeliverSyn_silent polls _ _ fd).thenPure (0 : Int) net
            holds
      | fin =>
          exact (tcpDeliverFin_silent polls _ _ fd).thenPure (0 : Int) net
            holds
      | ack =>
          exact Keeps.ite ((acknowledges _).thenPure (0 : Int))
            ((tcpDeliverData_silent polls _ _ fd).thenPure (0 : Int)) net
            holds
      | data =>
          exact (tcpDeliverData_silent polls _ _ fd).thenPure (0 : Int) net
            holds
      | unlisted => exact chained.refl net

theorem netifRx_silent (skb : SockBuff) : Silent (netifRx poll skb) := by
  cases found : segmentOf skb with
  | none => exact noDatagrams_rules.netifRx_keeps polls skb trivial found
  | some segment =>
      exact fun net holds => (netifRx_segment_wp found).mpr
        (tcpLayerDeliver_silent polls segment net holds)

end Segments

theorem pollDevice_silent (fuel : Nat) : Silent (pollDevice fuel) := by
  have chained := noDatagrams_chained
  induction fuel with
  | zero => exact Keeps.pure chained ()
  | succ fuel induction =>
      have receives : Silent receiveFrame := by
        intro net _
        simp only [receiveFrame, wp_bind, wp_get]
        cases net.wire with
        | nil => exact chained.refl net
        | cons entry rest =>
            cases entry with
            | none => exact noDatagrams_of_eq rfl
            | some frame => exact noDatagrams_of_eq rfl
      refine Keeps.bind chained receives fun received => ?_
      cases received with
      | none => exact Keeps.pure chained ()
      | some skb =>
          exact Keeps.bind chained (netifRx_silent induction skb)
            fun _ => induction

theorem ndevPoll_silent : Silent ndevPoll :=
  Keeps.get_bind fun net holds => pollDevice_silent _ net holds

theorem Resolves.noDatagrams {ip mac : Nat} {net resolved : Stack}
    (resolves : Resolves ndevPoll ip net mac resolved) :
    NoDatagrams net resolved := by
  unfold Resolves at resolves
  split at resolves
  · exact noDatagrams_of_eq (congrArg Stack.sent resolves.2)
  · have fills : Silent (macFillFromArp ndevPoll ip) :=
      noDatagrams_rules.macFillFromArp_keeps ndevPoll_silent ip
    have kept := wp_of_ok (fills net trivial) resolves
    exact kept

theorem tcpWaitForState_silent (fd : Nat) (state : TcpState) (rounds : Nat) :
    Silent (tcpWaitForState ndevPoll fd state rounds) :=
  tcpWaitForState_keeps noDatagrams_chained ndevPoll_silent fd state rounds

theorem closeConnection_silent (fd : Nat) :
    Silent (closeConnection ndevPoll fd) := by
  have chained := noDatagrams_chained
  refine Keeps.bind chained (noDatagrams_rules.skbAlloc_keeps _ _)
    fun result => ?_
  cases result with
  | none => exact fun _ _ => trivial
  | some skb =>
      refine Keeps.bind chained
        (tcpSendPacket_silent ndevPoll_silent skb fd _ []) fun _ => ?_
      refine Keeps.bind chained (sockAt_silent fd) fun sock => ?_
      apply Keeps.ite
      · exact Keeps.bind chained (modifySock_silent fd _)
          fun _ => tcpWaitForState_silent fd _ _
      · exact Keeps.bind chained (modifySock_silent fd _)
          fun _ => tcpWaitForState_silent fd _ _

theorem finishClose_silent (fd : Nat) : Silent (finishClose ndevPoll fd) := by
  have chained := noDatagrams_chained
  have releases : Silent (releaseSocket fd) := by
    refine Keeps.bind chained (sockAt_silent fd) fun sock => ?_
    exact Keeps.ite (fun _ _ => noDatagrams_of_eq rfl)
      (Keeps.pure chained _)
  refine Keeps.bind chained (sockAt_silent fd) fun sock => ?_
  refine Keeps.ite ?_ releases
  refine Keeps.bind chained (tcpWaitForState_silent fd _ _) fun ret => ?_
  exact Keeps.ite (Keeps.bind chained (modifySock_silent fd _)
    fun _ => releases) releases

theorem skClose_silent (fd : Nat) : Silent (skClose ndevPoll fd) := by
  have chained := noDatagrams_chained
  refine Keeps.get_bind fun net holds => ?_
  cases getSock net fd with
  | none => exact chained.refl net
  | some sock =>
      refine Keeps.ite ?_ (finishClose_silent fd) net holds
      refine Keeps.bind chained (closeConnection_silent fd) fun ret => ?_
      exact Keeps.ite (Keeps.pure chained _) (finishClose_silent fd)

theorem socket_silent (junk : Socket) (type : SockType) (protocol : Int) :
    Silent (socket junk type protocol) := by
  have chained := noDatagrams_chained
  refine Keeps.get_bind fun net holds => ?_
  cases (List.range' 1 (maxSockNum - 1)).find?
      (fun fd => (net.socks fd).isNone) with
  | none => exact chained.refl net
  | some fd =>
      refine Keeps.bind chained noDatagrams_rules.malloc_keeps (fun ok => ?_)
        net holds
      exact Keeps.ite (fun _ _ => noDatagrams_of_eq rfl)
        (Keeps.pure chained _)

end Witos.Net
