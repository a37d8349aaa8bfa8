import Witos.Net.Receive
import Witos.Net.SendRules

/-!
# What becomes of a received buffer

`netif_rx` gives a buffer back to the heap, links it on the receive queue of a
socket, or does neither.  `Disposition` says which, computed from the state in
which the frame arrives.  The buffers that exist when a poll starts are touched
by nothing that the poll does; therefore the frames that are delivered while an
address is resolved do not change what becomes of the buffer that waits.
-/

namespace Witos.Net

open Library Library.Effect

/-- The buffers with an identity that are linked on a socket. -/
def Stack.links (net : Stack) (fd id : Nat) : List SockBuff :=
  ((net.socks fd).elim [] Socket.rxQu).filter (fun skb => skb.id = id)

/-- No buffer below `bound` was freed, linked or unlinked in between. -/
structure Untouched (bound : Nat) (net final : Stack) : Prop where
  nextId : net.nextId ≤ final.nextId
  socks : ∀ fd, (final.socks fd).isSome = (net.socks fd).isSome
  freed : ∀ id < bound, final.freed.count id = net.freed.count id
  links : ∀ id < bound, ∀ fd, final.links fd id = net.links fd id

def Bounded (bound : Nat) (net : Stack) : Prop :=
  bound ≤ net.nextId

theorem untouched_chained (bound : Nat) :
    Chained (Bounded bound) (Untouched bound) where
  refl net := ⟨Nat.le_refl _, fun _ => rfl, fun _ _ => rfl, fun _ _ _ => rfl⟩
  trans := by
    intro first second third before after
    exact {
      nextId := Nat.le_trans before.nextId after.nextId
      socks := fun fd => (after.socks fd).trans (before.socks fd)
      freed := fun id below =>
        (after.freed id below).trans (before.freed id below)
      links := fun id below fd =>
        (after.links id below fd).trans (before.links id below fd) }
  inv := by
    intro first second related bounded
    exact Nat.le_trans bounded related.nextId

theorem links_updateSock (net : Stack) (fd other id : Nat)
    (change : Socket → Socket) :
    (net.updateSock fd change).links other id =
      if other = fd then
        ((net.socks fd).elim [] (fun sock => (change sock).rxQu)).filter
          (fun skb => skb.id = id)
      else net.links other id := by
  by_cases same : other = fd
  · subst same
    cases found : net.socks other with
    | none => simp [Stack.links, Stack.updateSock, found]
    | some sock => simp [Stack.links, Stack.updateSock, found]
  · simp [Stack.links, Stack.updateSock, same]

theorem isSome_updateSock (net : Stack) (fd other : Nat)
    (change : Socket → Socket) :
    ((net.updateSock fd change).socks other).isSome =
      (net.socks other).isSome := by
  by_cases same : other = fd
  · subst same
    simp [Stack.updateSock]
  · simp [Stack.updateSock, same]

theorem untouched_updateSock (bound : Nat) (net : Stack) (fd : Nat)
    (change : Socket → Socket)
    (keeps : ∀ sock, (change sock).rxQu = sock.rxQu) :
    Untouched bound net (net.updateSock fd change) where
  nextId := Nat.le_refl _
  socks other := isSome_updateSock net fd other change
  freed _ _ := rfl
  links id _ other := by
    rw [links_updateSock]
    by_cases same : other = fd
    · subst same
      simp [Stack.links, keeps]
    · simp [same]

theorem untouched_of_eq {bound : Nat} {net final : Stack}
    (nextId : net.nextId ≤ final.nextId) (socks : final.socks = net.socks)
    (freed : final.freed = net.freed) : Untouched bound net final where
  nextId := nextId
  socks fd := by rw [socks]
  freed id _ := by rw [freed]
  links id _ fd := by simp [Stack.links, socks]

theorem untouched_free {bound id : Nat} (net : Stack) (above : bound ≤ id) :
    Untouched bound net { net with freed := net.freed ++ [id] } where
  nextId := Nat.le_refl _
  socks _ := rfl
  freed other below := by
    have different : id ≠ other := by omega
    simp [different]
  links _ _ _ := rfl

theorem untouched_sendRules (bound : Nat) :
    SendRules (Bounded bound) (Untouched bound) (fun id => bound ≤ id)
      (fun _ => True) where
  chained := untouched_chained bound
  count _ _ _ _ := untouched_of_eq (Nat.le_refl _) rfl rfl
  allocate _ := untouched_of_eq (Nat.le_succ _) rfl rfl
  fresh _ bounded := bounded
  transmit _ _ _ _ := untouched_of_eq (Nat.le_refl _) rfl rfl
  free net _ above := untouched_free net above
  advance net fd _ := untouched_updateSock bound net fd _ (fun _ => rfl)
  arp _ _ _ := trivial

inductive Disposition where
  | freed
  | linked (fd : Nat) (skb : SockBuff)
  | forgotten

/-- The state in which the buffer has gone where the disposition says. -/
def Disposition.settle : Disposition → Nat → Stack → Stack
  | .freed, id, net => { net with freed := net.freed ++ [id] }
  | .linked fd skb, _, net =>
      net.updateSock fd (fun sock => { sock with rxQu := sock.rxQu ++ [skb] })
  | .forgotten, _, net => net

theorem bounded_settle {bound : Nat} {net : Stack}
    (bounded : Bounded bound net) (disposition : Disposition) (id : Nat) :
    Bounded bound (disposition.settle id net) := by
  cases disposition with
  | freed => exact bounded
  | linked fd skb => exact bounded
  | forgotten => exact bounded

/-- Buffers are left alone in the same way on both sides of a disposition. -/
theorem untouched_settle {bound : Nat} {net final : Stack}
    (related : Untouched bound net final) (disposition : Disposition)
    (id : Nat) :
    Untouched bound (disposition.settle id net)
      (disposition.settle id final) := by
  cases disposition with
  | forgotten => exact related
  | freed =>
      exact {
        nextId := related.nextId
        socks := related.socks
        freed := by
          intro other below
          simp [Disposition.settle, List.count_append,
            related.freed other below]
        links := related.links }
  | linked fd skb =>
      refine ⟨related.nextId, ?_, related.freed, ?_⟩
      · intro other
        simp only [Disposition.settle, isSome_updateSock]
        exact related.socks other
      · intro other below target
        simp only [Disposition.settle, links_updateSock]
        by_cases same : target = fd
        · subst same
          have isSome := related.socks target
          have links := related.links other below target
          cases before : net.socks target with
          | none =>
              cases after : final.socks target with
              | none => simp
              | some sock => simp [before, after] at isSome
          | some sock =>
              cases after : final.socks target with
              | none => simp [before, after] at isSome
              | some sock' =>
                  simp [Stack.links, before, after] at links
                  simp [List.filter_append, links]
        · simp [same, related.links other below target]

def udpDisposition (net : Stack) (skb : SockBuff) : Disposition :=
  match udpSearchSocket net (dstPort skb.memory skb.data) with
  | none => .freed
  | some fd => .linked fd (skb.pull udpHdrLen)

def tcpDisposition (net : Stack) (skb : SockBuff) : Disposition :=
  let pulled := skb.pull (tcpHeaderLen skb.memory skb.data)
  match tcpSearchSocket net (dstPort skb.memory skb.data) with
  | none => .freed
  | some fd =>
      match flagCase (tcpFlags skb.memory skb.data) with
      | .syn => .freed
      | .fin => if 0 < pulled.size then .linked fd pulled else .freed
      | .ack => if pulled.size = 0 then .freed else .linked fd pulled
      | .data => .linked fd pulled
      | .unlisted => .forgotten

def icmpDisposition (net : Stack) (skb : SockBuff) (ip : Nat) : Disposition :=
  let type := (skb.memory (skb.data + ipHeaderLen skb.memory ip)).toNat
  if type = icmpTypeEchoReply then
    match icmpSearchSocket net (ipSource skb.memory ip) with
    | none => .freed
    | some fd => .linked fd skb
  else .forgotten

def ipDisposition (net : Stack) (skb : SockBuff) : Disposition :=
  let prot := ipUpProt skb.memory skb.data
  if ipHeaderLen skb.memory skb.data < ipHdrLen then .forgotten
  else if prot = protUdp then udpDisposition net skb.pullIp
  else if prot = protTcp then tcpDisposition net skb.pullIp
  else if prot = protIcmp then icmpDisposition net skb.pullIcmp skb.data
  else .freed

def arpDisposition (net : Stack) (skb : SockBuff) : Disposition :=
  let ip := field skb.memory (skb.data + 14) 4
  if field skb.memory (skb.data + 2) 2 ≠ ethTypeIp then .forgotten
  else if field skb.memory (skb.data + 6) 2 = arpOpRep then
    if (getaddr net ip).isSome ∨ net.mallocs.head? = some false then
      .forgotten
    else
      match arpSearchSocket net ip with
      | none => .freed
      | some fd => .linked fd skb
  else .freed

def netifDisposition (net : Stack) (skb : SockBuff) : Disposition :=
  let type := field skb.memory (skb.data + 12) 2
  if type = ethTypeArp then arpDisposition net (skb.pull ethHdrLen)
  else if type = ethTypeIp then ipDisposition net (skb.pull ethHdrLen)
  else .freed

def anyHalt (_ : Halt) : Prop := True

theorem sockAt_keeps {inv : Stack → Prop} {related : Stack → Stack → Prop}
    (chained : Chained inv related) (fd : Nat) :
    Keeps inv related anyHalt (sockAt fd) := by
  refine Keeps.get_bind fun net _ => ?_
  cases net.socks fd with
  | none => trivial
  | some sock => exact chained.refl net

section Layers

variable {bound : Nat} {poll : NetM Unit}
  (polls : Keeps (Bounded bound) (Untouched bound) anyHalt poll)
  {net : Stack} (bounded : Bounded bound net)

theorem udpLayerDeliver_settles (skb : SockBuff) (ip : Nat) :
    wp (udpLayerDeliver skb ip) net
      (fun _ final => Untouched bound
        ((udpDisposition net skb).settle skb.id net) final) anyHalt := by
  simp only [udpLayerDeliver, udpDisposition, wp_bind, wp_get]
  have memory : (skb.pull udpHdrLen).memory = skb.memory := rfl
  rw [memory]
  cases udpSearchSocket net (dstPort skb.memory skb.data) with
  | none => exact (untouched_chained bound).refl _
  | some fd =>
      simp only [modifySock, listAddTail, wp_bind, wp_modify, wp_pure]
      exact untouched_settle
        (untouched_updateSock bound net fd _ (by intro sock; rfl))
        (.linked fd (skb.pull udpHdrLen)) skb.id

include polls in
theorem tcpSendAck_untouched (fd : Nat) :
    Keeps (Bounded bound) (Untouched bound) anyHalt (tcpSendAck poll fd) :=
  fun _ bounded => (untouched_sendRules bound).tcpSendAck_wp polls fd
    (fun _ => trivial) bounded (fun _ _ _ _ _ _ _ _ => trivial)

include polls bounded in
theorem tcpDeliverSyn_settles (skb : SockBuff) (tcp fd : Nat) :
    wp (tcpDeliverSyn poll skb tcp fd) net
      (fun _ final => Untouched bound
        (Disposition.freed.settle skb.id net) final) anyHalt := by
  simp only [tcpDeliverSyn, setAckNum, modifySock, skbFree, sockAt, setState,
    wp_bind, wp_modify]
  have freed := untouched_settle (untouched_updateSock bound net fd
    (fun sock => { sock with
      ackNum := add32 (tcpSeqNum skb.memory tcp) 1 }) (fun _ => rfl))
    Disposition.freed skb.id
  refine ((tcpSendAck_untouched polls fd).after (untouched_chained bound)
    (bounded_settle bounded .freed skb.id) freed).mono ?_
    (fun _ stopped => stopped)
  intro _ middle before
  rw [wp_get]
  cases middle.socks fd with
  | none => trivial
  | some sock =>
      simp only [wp_pure, wp_ite, wp_modify, wp_throw]
      constructor
      · intro _
        exact (untouched_chained bound).trans before
          (untouched_updateSock bound middle fd _ (fun _ => rfl))
      · intro _
        trivial

include polls bounded in
theorem tcpDeliverFin_settles (skb : SockBuff) (tcp fd : Nat) :
    wp (tcpDeliverFin poll skb tcp fd) net
      (fun _ final => Untouched bound
        ((if 0 < skb.size then Disposition.linked fd skb
          else Disposition.freed).settle skb.id net) final) anyHalt := by
  simp only [tcpDeliverFin, setAckNum, modifySock, skbFree, sockAt, setState,
    listAddTail]
  by_cases data : 0 < skb.size
  · simp only [data, if_true, wp_bind, wp_modify, wp_pure]
    exact (tcpSendAck_untouched polls fd).after (untouched_chained bound)
      (bounded_settle bounded (.linked fd skb) skb.id)
      (untouched_settle (untouched_updateSock bound net fd _
        (by intro sock; rfl)) (.linked fd skb) skb.id)
  · simp only [data, if_false, wp_bind, wp_modify, wp_get]
    have acked := untouched_updateSock bound net fd
      (fun sock => { sock with
        ackNum := add32 (tcpSeqNum skb.memory tcp) 1 }) (fun _ => rfl)
    cases (net.updateSock fd (fun sock => { sock with
        ackNum := add32 (tcpSeqNum skb.memory tcp) 1 })).socks fd with
    | none => trivial
    | some sock =>
        rw [wp_pure]
        cases stateAfterFin (tcpFlags skb.memory tcp) sock.state with
        | none => trivial
        | some state =>
            simp only [wp_bind, wp_modify, wp_pure]
            refine (tcpSendAck_untouched polls fd).after
              (untouched_chained bound)
              (bounded_settle bounded .freed skb.id) ?_
            exact untouched_settle ((untouched_chained bound).trans acked
              (untouched_updateSock bound _ fd _ (by intro sock; rfl)))
              .freed skb.id

include polls bounded in
theorem tcpDeliverData_settles (skb : SockBuff) (tcp fd : Nat) :
    wp (tcpDeliverData poll skb tcp fd) net
      (fun _ final => Untouched bound
        ((Disposition.linked fd skb).settle skb.id net) final) anyHalt := by
  simp only [tcpDeliverData, setAckNum, modifySock, listAddTail, wp_bind,
    wp_modify, wp_pure]
  exact (tcpSendAck_untouched polls fd).after (untouched_chained bound)
    (bounded_settle bounded (.linked fd skb) skb.id)
    (untouched_settle (untouched_updateSock bound net fd _
      (by intro sock; rfl)) (.linked fd skb) skb.id)

theorem tcpDeliverAck_settles (skb : SockBuff) (fd : Nat) :
    wp (tcpDeliverAck skb fd) net
      (fun _ final => Untouched bound
        (Disposition.freed.settle skb.id net) final) anyHalt := by
  simp only [tcpDeliverAck, skbFree, modifySock, wp_bind, wp_modify]
  exact untouched_updateSock bound _ fd _ (by intro sock; rfl)

include polls bounded in
theorem tcpLayerDeliver_settles (skb : SockBuff) :
    wp (tcpLayerDeliver poll skb) net
      (fun _ final => Untouched bound
        ((tcpDisposition net skb).settle skb.id net) final) anyHalt := by
  have memory : (skb.pull (tcpHeaderLen skb.memory skb.data)).memory =
    skb.memory := rfl
  have id : (skb.pull (tcpHeaderLen skb.memory skb.data)).id = skb.id := rfl
  simp only [tcpLayerDeliver, tcpDisposition, wp_bind, wp_get, memory]
  cases tcpSearchSocket net (dstPort skb.memory skb.data) with
  | none => exact (untouched_chained bound).refl _
  | some fd =>
      cases flagCase (tcpFlags skb.memory skb.data) with
      | syn =>
          simp only [wp_bind, wp_pure]
          exact tcpDeliverSyn_settles polls bounded _ _ fd
      | fin =>
          simp only [wp_bind, wp_pure]
          exact tcpDeliverFin_settles polls bounded _ _ fd
      | ack =>
          by_cases empty :
              (skb.pull (tcpHeaderLen skb.memory skb.data)).size = 0
          · simp only [empty, if_true, wp_bind, wp_pure]
            exact tcpDeliverAck_settles _ fd
          · simp only [empty, if_false, wp_bind, wp_pure]
            exact tcpDeliverData_settles polls bounded _ _ fd
      | data =>
          simp only [wp_bind, wp_pure]
          exact tcpDeliverData_settles polls bounded _ _ fd
      | unlisted => exact (untouched_chained bound).refl _

include polls bounded in
theorem icmpDeliver_settles (skb : SockBuff) (ip : Nat) :
    wp (icmpDeliver poll skb ip) net
      (fun _ final => Untouched bound
        ((icmpDisposition net skb ip).settle skb.id net) final) anyHalt := by
  simp only [icmpDeliver, icmpDisposition]
  generalize (skb.memory (skb.data + ipHeaderLen skb.memory ip)).toNat = type
  by_cases request : type = icmpTypeEchoRequest
  · have other : type ≠ icmpTypeEchoReply := by
      rw [request]
      decide
    simp only [request, if_true, wp_bind, wp_pure, pingSend]
    rw [if_neg (by decide)]
    refine ((untouched_sendRules bound).skbAlloc_wp _ _ bounded).mono ?_
      (fun _ stopped => stopped)
    intro result middle allocated
    cases result with
    | none => exact allocated.1
    | some tx =>
        simp only [wp_bind, wp_pure]
        exact ((untouched_sendRules bound).ipSendPacket_keeps polls tx _ _ _
          (allocated.2.2 tx rfl).1 (fun _ _ _ => trivial)).after
          (untouched_chained bound) bounded allocated.1
  · simp only [request, if_false]
    by_cases reply : type = icmpTypeEchoReply
    · simp only [reply, if_true, wp_bind, wp_get]
      cases icmpSearchSocket net (ipSource skb.memory ip) with
      | none => exact (untouched_chained bound).refl _
      | some fd => exact (untouched_chained bound).refl _
    · simp only [reply, if_false, wp_pure]
      exact (untouched_chained bound).refl _

include polls bounded in
theorem ipLayerDeliver_settles (skb : SockBuff) :
    wp (ipLayerDeliver poll skb) net
      (fun _ final => Untouched bound
        ((ipDisposition net skb).settle skb.id net) final) anyHalt := by
  simp only [ipLayerDeliver, ipDisposition]
  by_cases short : ipHeaderLen skb.memory skb.data < ipHdrLen
  · simp only [short, if_true]
    exact (untouched_chained bound).refl _
  · simp only [short, if_false]
    by_cases udp : ipUpProt skb.memory skb.data = protUdp
    · simp only [udp, if_true, wp_bind, wp_pure]
      exact udpLayerDeliver_settles skb.pullIp skb.data
    · simp only [udp, if_false]
      by_cases tcp : ipUpProt skb.memory skb.data = protTcp
      · simp only [tcp, if_true, wp_bind, wp_pure]
        exact tcpLayerDeliver_settles polls bounded skb.pullIp
      · simp only [tcp, if_false]
        by_cases icmp : ipUpProt skb.memory skb.data = protIcmp
        · simp only [icmp, if_true, wp_bind, wp_pure]
          exact icmpDeliver_settles polls bounded skb.pullIcmp skb.data
        · simp only [icmp, if_false]
          split
          · exact (untouched_chained bound).refl _
          · exact (untouched_chained bound).refl _

include bounded in
theorem arpRecvPacket_settles (skb : SockBuff) :
    wp (arpRecvPacket skb) net
      (fun _ final => Untouched bound
        ((arpDisposition net skb).settle skb.id net) final) anyHalt := by
  simp only [arpRecvPacket, arpDisposition]
  by_cases prot : field skb.memory (skb.data + 2) 2 = ethTypeIp
  swap
  · rw [if_pos prot, if_pos prot]
    exact (untouched_chained bound).refl _
  rw [if_neg (not_not_intro prot), if_neg (not_not_intro prot)]
  by_cases reply : field skb.memory (skb.data + 6) 2 = arpOpRep
  · simp only [reply, if_true, wp_bind, wp_get]
    cases getaddr net (field skb.memory (skb.data + 14) 4) with
    | some mac =>
        simp only [Option.isSome_some, true_or, if_true]
        exact (untouched_chained bound).refl _
    | none =>
        simp only [Option.isSome_none, Bool.false_eq_true, false_or, malloc,
          wp_bind, wp_get, wp_set, wp_pure]
        by_cases failed : net.mallocs.head? = some false
        · simp only [failed, Option.getD_some, Bool.false_eq_true, if_false,
            if_true]
          exact untouched_of_eq (Nat.le_refl _) rfl rfl
        · have succeeded : net.mallocs.head?.getD true = true := by
            cases outcome : net.mallocs.head? with
            | none => rfl
            | some succeeds => simpa [outcome] using failed
          simp only [failed, succeeded, if_false, if_true, wp_bind, wp_modify,
            wp_get]
          have learned : ∀ hosts, Untouched bound net
              { net with mallocs := net.mallocs.tail, hosts := hosts } :=
            fun _ => untouched_of_eq (Nat.le_refl _) rfl rfl
          cases found : arpSearchSocket net
              (field skb.memory (skb.data + 14) 4) with
          | none =>
              rw [show arpSearchSocket { net with
                  mallocs := net.mallocs.tail
                  hosts := net.hosts ++ [(_, _)] } _ = none from found]
              exact untouched_settle (learned _) .freed skb.id
          | some fd =>
              rw [show arpSearchSocket { net with
                  mallocs := net.mallocs.tail
                  hosts := net.hosts ++ [(_, _)] } _ = some fd from found]
              exact untouched_settle (learned _) (.linked fd skb) skb.id
  · simp only [reply, if_false]
    by_cases request : field skb.memory (skb.data + 6) 2 = arpOpReq
    · simp only [request, if_true, wp_bind, wp_get]
      by_cases asked : field skb.memory (skb.data + 24) 4 = net.device.ip
      · simp only [asked, if_true, wp_bind]
        refine ((untouched_sendRules bound).arpSendPacket_keeps _ _ _ net
          bounded).mono ?_ (fun _ stopped => stopped)
        intro _ middle before
        exact untouched_settle before .freed skb.id
      · simp only [asked, if_false]
        exact (untouched_chained bound).refl _
    · simp only [request, if_false]
      exact (untouched_chained bound).refl _

include polls bounded in
theorem netifRx_settles (skb : SockBuff) :
    wp (netifRx poll skb) net
      (fun _ final => Untouched bound
        ((netifDisposition net skb).settle skb.id net) final) anyHalt := by
  simp only [netifRx, netifDisposition]
  by_cases arp : field skb.memory (skb.data + 12) 2 = ethTypeArp
  · simp only [arp, if_true, wp_bind, wp_pure]
    exact arpRecvPacket_settles bounded (skb.pull ethHdrLen)
  · simp only [arp, if_false]
    by_cases rarp : field skb.memory (skb.data + 12) 2 = ethTypeRarp
    · simp only [rarp, if_true]
      rw [if_neg (by decide)]
      exact (untouched_chained bound).refl _
    · simp only [rarp, if_false]
      by_cases ip : field skb.memory (skb.data + 12) 2 = ethTypeIp
      · simp only [ip, if_true, wp_bind, wp_pure]
        exact ipLayerDeliver_settles polls bounded (skb.pull ethHdrLen)
      · simp only [ip, if_false]
        exact (untouched_chained bound).refl _

end Layers

theorem arpDisposition_linked {net : Stack} {skb buffer : SockBuff} {fd : Nat}
    (linked : arpDisposition net skb = .linked fd buffer) :
    (net.socks fd).isSome ∧ buffer = skb := by
  simp only [arpDisposition] at linked
  split at linked
  · cases linked
  · split at linked
    · split at linked
      · cases linked
      · split at linked
        · cases linked
        · next found =>
            cases linked
            exact ⟨searchSocket_isSome found, rfl⟩
    · cases linked

theorem udpDisposition_linked {net : Stack} {skb buffer : SockBuff} {fd : Nat}
    (linked : udpDisposition net skb = .linked fd buffer) :
    (net.socks fd).isSome ∧ buffer = skb.pull udpHdrLen := by
  simp only [udpDisposition] at linked
  split at linked
  · cases linked
  · next found =>
      cases linked
      exact ⟨searchSocket_isSome found, rfl⟩

theorem tcpDisposition_linked {net : Stack} {skb buffer : SockBuff} {fd : Nat}
    (linked : tcpDisposition net skb = .linked fd buffer) :
    tcpSearchSocket net (dstPort skb.memory skb.data) = some fd ∧
      buffer = skb.pull (tcpHeaderLen skb.memory skb.data) := by
  simp only [tcpDisposition] at linked
  split at linked
  · cases linked
  · next found =>
      rw [found]
      split at linked
      · cases linked
      · split at linked
        · cases linked
          exact ⟨rfl, rfl⟩
        · cases linked
      · split at linked
        · cases linked
        · cases linked
          exact ⟨rfl, rfl⟩
      · cases linked
        exact ⟨rfl, rfl⟩
      · cases linked

theorem icmpDisposition_linked {net : Stack} {skb buffer : SockBuff}
    {ip fd : Nat} (linked : icmpDisposition net skb ip = .linked fd buffer) :
    (net.socks fd).isSome ∧ buffer = skb := by
  simp only [icmpDisposition] at linked
  split at linked
  · split at linked
    · cases linked
    · next found =>
        cases linked
        exact ⟨searchSocket_isSome found, rfl⟩
  · cases linked

/-- The buffers that a frame may leave on a receive queue. -/
inductive Linkable (skb : SockBuff) : SockBuff → Prop where
  | arp (type : field skb.memory (skb.data + 12) 2 = ethTypeArp) :
      Linkable skb (skb.pull ethHdrLen)
  | udp (type : field skb.memory (skb.data + 12) 2 = ethTypeIp)
      (prot : ipUpProt skb.memory (skb.data + 14) = protUdp) :
      Linkable skb ((skb.pull ethHdrLen).pullIp.pull udpHdrLen)
  | tcp (type : field skb.memory (skb.data + 12) 2 = ethTypeIp)
      (prot : ipUpProt skb.memory (skb.data + 14) = protTcp) :
      Linkable skb ((skb.pull ethHdrLen).pullIp.pull
        (tcpHeaderLen skb.memory (skb.pull ethHdrLen).pullIp.data))
  | icmp (type : field skb.memory (skb.data + 12) 2 = ethTypeIp)
      (prot : ipUpProt skb.memory (skb.data + 14) = protIcmp) :
      Linkable skb (skb.pull ethHdrLen).pullIcmp

theorem netifDisposition_linked {net : Stack} {skb buffer : SockBuff}
    {fd : Nat} (linked : netifDisposition net skb = .linked fd buffer) :
    (net.socks fd).isSome ∧ Linkable skb buffer := by
  simp only [netifDisposition] at linked
  split at linked
  · next arp =>
      obtain ⟨found, rfl⟩ := arpDisposition_linked linked
      exact ⟨found, .arp arp⟩
  · split at linked
    · next ip =>
        simp only [ipDisposition] at linked
        split at linked
        · cases linked
        · split at linked
          · next udp =>
              obtain ⟨found, rfl⟩ := udpDisposition_linked linked
              exact ⟨found, .udp ip udp⟩
          · split at linked
            · next tcp =>
                obtain ⟨found, rfl⟩ := tcpDisposition_linked linked
                exact ⟨searchSocket_isSome found, .tcp ip tcp⟩
            · split at linked
              · next icmp =>
                  obtain ⟨found, rfl⟩ := icmpDisposition_linked linked
                  exact ⟨found, .icmp ip icmp⟩
              · cases linked
    · cases linked

theorem Linkable.id {skb buffer : SockBuff} (linkable : Linkable skb buffer) :
    buffer.id = skb.id := by
  cases linkable with
  | arp => rfl
  | udp => rfl
  | tcp => rfl
  | icmp => rfl

theorem untouched_settle_self {bound : Nat} {net : Stack} {skb : SockBuff}
    (above : bound ≤ skb.id) :
    Untouched bound net ((netifDisposition net skb).settle skb.id net) := by
  cases chosen : netifDisposition net skb with
  | freed => exact untouched_free net above
  | forgotten => exact (untouched_chained bound).refl net
  | linked fd buffer =>
      have id := (netifDisposition_linked chosen).2.id
      refine ⟨Nat.le_refl _, fun _ => isSome_updateSock _ _ _ _,
        fun _ _ => rfl, ?_⟩
      intro other below target
      have different : buffer.id ≠ other := by omega
      simp only [Disposition.settle, links_updateSock]
      by_cases same : target = fd
      · subst same
        cases found : net.socks target with
        | none => simp [Stack.links, found]
        | some sock => simp [Stack.links, found, different]
      · simp [same]

theorem pollDevice_untouched (bound fuel : Nat) :
    Keeps (Bounded bound) (Untouched bound) anyHalt (pollDevice fuel) := by
  have chained := untouched_chained bound
  induction fuel with
  | zero => exact Keeps.pure chained ()
  | succ fuel induction =>
      intro net bounded
      simp only [pollDevice, receiveFrame, wp_bind, wp_get]
      cases net.wire with
      | nil => exact chained.refl net
      | cons entry rest =>
          cases entry with
          | none => exact untouched_of_eq (Nat.le_refl _) rfl rfl
          | some frame =>
              simp only [wp_bind, wp_set, wp_pure]
              have received : Untouched bound net { net with
                  wire := rest, nextId := net.nextId + 1 } :=
                untouched_of_eq (Nat.le_succ _) rfl rfl
              have new : bound ≤ (frame.buffer net.nextId).id := bounded
              refine (netifRx_settles induction
                (chained.inv received bounded) _).mono ?_
                (fun _ stopped => stopped)
              intro _ middle settled
              refine induction.after chained bounded ?_
              exact chained.trans received
                (chained.trans (untouched_settle_self new) settled)

theorem ndevPoll_untouched (bound : Nat) :
    Keeps (Bounded bound) (Untouched bound) anyHalt ndevPoll :=
  Keeps.get_bind fun net bounded =>
    pollDevice_untouched bound net.wire.length net bounded

end Witos.Net
