import Witos.Net.Dhcp

/-!
# What the DHCP client accepts

A message has the type that a walk over its option list finds.  The client
looks at one fixed byte of its buffer instead, which is the type if the list
begins with option 53, and which a short datagram leaves as it was.  Runs in
which this byte is the wanted type exactly when the walk finds it are safe.
-/

namespace Witos.Dhcp

open Library

/-- The value of option 53 in an option list: code 0 is one byte of padding,
code 255 ends the list, every other code is followed by a length. -/
def walkOptions : Nat → List UInt8 → Option UInt8
  | fuel + 1, code :: rest =>
      if code = 0 then walkOptions fuel rest
      else if code = 255 then none
      else
        match rest with
        | [] => none
        | length :: rest =>
            if code = dhcpMessage then
              if length = 0 then none else rest.head?
            else walkOptions fuel (rest.drop length.toNat)
  | _, _ => none

/-- The message type of a datagram. -/
def messageType (datagram : List UInt8) : Option UInt8 :=
  walkOptions datagram.length (datagram.drop 240)

def carriesXid (xid : Nat) (datagram : List UInt8) : Prop :=
  8 ≤ datagram.length ∧ leValue ((datagram.drop 4).take 4) = xid

instance (xid : Nat) (datagram : List UInt8) :
    Decidable (carriesXid xid datagram) :=
  inferInstanceAs (Decidable (_ ∧ _))

/-- A reply with the own `xid` and this message type. -/
def IsReply (xid : Nat) (message : UInt8) (datagram : List UInt8) : Prop :=
  carriesXid xid datagram ∧ messageType datagram = some message

/-- The four bytes of `yiaddr`. -/
def offeredBytes (datagram : List UInt8) : List UInt8 :=
  (datagram.drop 16).take 4

def offered (datagram : List UInt8) : Nat :=
  leValue (offeredBytes datagram)

/-- The message type that the client waits for. -/
def Client.wanted (client : Client) : UInt8 :=
  if client.j = 0 then dhcpOffer else dhcpAck

/-- An acknowledgement of `address` arrived behind an offer. -/
def Justified (xid : Nat) (receptions : List Reception) (address : Nat) :
    Prop :=
  ∃ before acknowledgement after offer,
    receptions = before ++ acknowledgement :: after ∧
    offer ∈ before ∧
    IsReply xid dhcpOffer offer.datagram ∧
    IsReply xid dhcpAck acknowledgement.datagram ∧
    offered acknowledgement.datagram = address

/-- A datagram that asks for an address. -/
def Requests (address : List UInt8) (datagram : List UInt8) : Prop :=
  (datagram.drop 240).take 10 =
    [dhcpMessage, dhcpMessageLen, dhcpRequest, dhcpRequestIp,
      dhcpRequestIpLen] ++ address ++ [0xff]

/-- A server is understood: its offer is answered with a request of the
address, and its acknowledgement ends the loop with the address. -/
structure Understood (xid : Nat) (reception : Reception) (client : Client) :
    Prop where
  offer : client.j = 0 → IsReply xid dhcpOffer reception.datagram →
    (iteration xid reception client).2.j = 1 ∧
      ∃ request, (iteration xid reception client).2.sent =
          client.sent ++ [request] ∧
        Requests (offeredBytes reception.datagram) request
  acknowledgement : client.j ≠ 0 →
    IsReply xid dhcpAck reception.datagram →
    (iteration xid reception client).1 = .accepted ∧
      (iteration xid reception client).2.packet.yiaddr =
        offered reception.datagram

/-- A property of all iterations that a run gets to. -/
def Throughout (xid : Nat) (property : Reception → Client → Prop) :
    List Reception → Client → Prop
  | [], _ => True
  | reception :: receptions, client =>
      property reception client ∧
        ((iteration xid reception client).1 = .again →
          Throughout xid property receptions
            (iteration xid reception client).2)

instance Throughout.decidable {xid : Nat}
    {property : Reception → Client → Prop}
    [∀ reception client, Decidable (property reception client)] :
    ∀ receptions client,
      Decidable (Throughout xid property receptions client)
  | [], _ => .isTrue trivial
  | reception :: receptions, client =>
      have := @Throughout.decidable xid property _ receptions
        (iteration xid reception client).2
      inferInstanceAs (Decidable (_ ∧ (_ → _)))

/-- If the buffer shows the own `xid` after the datagram was copied, the byte
that the client looks at is the wanted type exactly when the option list of
the datagram says so. -/
def Readable (xid : Nat) (reception : Reception) (client : Client) : Prop :=
  (client.recvfrom reception).packet.xid = xid →
    ((client.recvfrom reception).packet.option 2 = client.wanted ↔
      messageType reception.datagram = some client.wanted)

instance (xid : Nat) (reception : Reception) (client : Client) :
    Decidable (Readable xid reception client) :=
  inferInstanceAs (Decidable (_ → _))

theorem length_of_walkOptions {fuel : Nat} {options : List UInt8}
    {message : UInt8} (found : walkOptions fuel options = some message) :
    3 ≤ options.length := by
  induction fuel generalizing options with
  | zero => simp [walkOptions] at found
  | succ fuel induction =>
      rcases options with _ | ⟨code, _ | ⟨length, rest⟩⟩
      · simp [walkOptions] at found
      · by_cases padding : code = 0
        · cases fuel <;> simp [walkOptions, padding] at found
        · simp [walkOptions, padding] at found
      · simp only [walkOptions] at found
        split at found
        · have := induction found
          simp only [List.length_cons] at this ⊢
          omega
        split at found
        · cases found
        split at found
        · split at found
          · cases found
          · cases rest with
            | nil => simp at found
            | cons value rest =>
                simp only [List.length_cons]
                omega
        · have := induction found
          simp only [List.length_drop, List.length_cons] at this ⊢
          omega

/-- Only a datagram that reaches into its options has a message type. -/
theorem length_of_messageType {datagram : List UInt8} {message : UInt8}
    (found : messageType datagram = some message) :
    243 ≤ datagram.length := by
  have long := length_of_walkOptions found
  rw [List.length_drop] at long
  omega

/-- The fixed fields of a datagram with a message type are in the buffer. -/
theorem recvfrom_field {reception : Reception} (client : Client)
    {message : UInt8}
    (found : messageType reception.datagram = some message)
    {offset count : Nat} (fixed : offset + count ≤ 240) :
    slice (client.recvfrom reception).packet offset count =
      (reception.datagram.drop offset).take count := by
  have long := length_of_messageType found
  have copied : 240 ≤ reception.bytes.length := by
    simp only [Reception.bytes, packetSize, List.length_take]
    omega
  unfold Client.recvfrom
  rw [slice_overlay _ (by omega), Reception.bytes, List.drop_take,
    List.take_take, Nat.min_eq_left (by unfold packetSize; omega)]

theorem recvfrom_xid_iff {xid : Nat} {reception : Reception}
    (client : Client) {message : UInt8}
    (found : messageType reception.datagram = some message) :
    (client.recvfrom reception).packet.xid = xid ↔
      carriesXid xid reception.datagram := by
  have long := length_of_messageType found
  rw [Packet.xid, recvfrom_field client found (by omega)]
  exact ⟨fun same => ⟨by omega, same⟩, And.right⟩

theorem recvfrom_yiaddr {reception : Reception} (client : Client)
    {message : UInt8}
    (found : messageType reception.datagram = some message) :
    (client.recvfrom reception).packet.yiaddr =
      offered reception.datagram := by
  rw [Packet.yiaddr, recvfrom_field client found (by omega)]
  rfl

section Iteration

variable {xid : Nat} {reception : Reception} {client : Client}

/-- A datagram whose option list begins with the message type is readable,
whatever the buffer held before. -/
theorem readable_of_messageFirst {message : UInt8} {rest : List UInt8}
    (options : reception.datagram.drop 240 =
      dhcpMessage :: dhcpMessageLen :: message :: rest) :
    Readable xid reception client := by
  have length := congrArg List.length options
  simp only [List.length_drop, List.length_cons] at length
  have found : messageType reception.datagram = some message := by
    obtain ⟨fuel, enough⟩ : ∃ fuel, reception.datagram.length = fuel + 1 :=
      ⟨reception.datagram.length - 1, by omega⟩
    rw [messageType, options, enough]
    rfl
  have byte : (client.recvfrom reception).packet.option 2 = message := by
    have third : reception.datagram[240 + 2]? = some message := by
      rw [← List.getElem?_drop, options]
      rfl
    change (reception.datagram.take packetSize).getD (240 + 2) _ = message
    rw [List.getD_eq_getElem?_getD, List.getElem?_take_of_lt (by decide),
      third]
    rfl
  intro _
  rw [byte, found, Option.some.injEq]

/-- Every way out of an iteration but the two that take a message leaves
`j` alone and does not accept. -/
theorem Client.nextRound_spec (client : Client) :
    client.nextRound.1 ≠ .accepted ∧ client.nextRound.2.j = client.j ∧
      client.nextRound.2.sent = client.sent := by
  by_cases more : client.i + 1 < 3 <;> simp [Client.nextRound, more]

theorem Client.skip_spec (client : Client) :
    client.skip.1 ≠ .accepted ∧ client.skip.2.j = client.j := by
  unfold Client.skip
  split
  · exact ⟨client.nextRound_spec.1, client.nextRound_spec.2.1⟩
  · exact ⟨by simp, rfl⟩

theorem Client.sendRequest_spec (client : Client) (sendRet : Int) :
    (client.sendRequest sendRet).1 ≠ .accepted ∧
      (client.sendRequest sendRet).2.j = client.j + 1 ∧
      (client.sendRequest sendRet).2.sent = client.sent ++
        [(addressOptions dhcpRequest client.packet).bytes] := by
  by_cases failed : sendRet < 0
  · simp [Client.sendRequest, failed]
  · simp only [Client.sendRequest, failed, if_false]
    exact Client.nextRound_spec _

/-- What an iteration takes for the message it waits for. -/
def Takes (xid : Nat) (reception : Reception) (client : Client) : Prop :=
  reception.bytes ≠ [] ∧ (client.recvfrom reception).packet.xid = xid ∧
    (client.recvfrom reception).packet.option 2 = client.wanted

theorem iteration_takes (takes : Takes xid reception client) :
    iteration xid reception client =
      if client.j = 0 then
        (client.recvfrom reception).sendRequest reception.sendRet
      else (.accepted, client.recvfrom reception) := by
  obtain ⟨some, shows, wanted⟩ := takes
  have kept : (client.recvfrom reception).j = client.j := rfl
  unfold iteration
  simp only [some, shows, if_true, if_false, kept]
  by_cases first : client.j = 0
  · rw [Client.wanted, if_pos first] at wanted
    simp [first, wanted]
  · rw [Client.wanted, if_neg first] at wanted
    simp [first, wanted]

theorem iteration_not_takes (other : ¬ Takes xid reception client) :
    (iteration xid reception client).1 ≠ .accepted ∧
      (iteration xid reception client).2.j = client.j := by
  have kept : (client.recvfrom reception).j = client.j := rfl
  unfold iteration
  simp only [kept]
  by_cases none : reception.bytes = []
  · simp only [none, if_true]
    exact ⟨by simp, rfl⟩
  simp only [none, if_false]
  by_cases shows : (client.recvfrom reception).packet.xid = xid
  · have unwanted : (client.recvfrom reception).packet.option 2 ≠
        client.wanted := fun wanted => other ⟨none, shows, wanted⟩
    by_cases first : client.j = 0
    · rw [Client.wanted, if_pos first] at unwanted
      simp only [shows, first, if_true, unwanted, ne_eq, not_false_eq_true]
      have spec := (client.recvfrom reception).skip_spec
      rw [kept, first] at spec
      exact spec
    · rw [Client.wanted, if_neg first] at unwanted
      simp only [shows, first, if_true, if_false, unwanted, ne_eq,
        not_false_eq_true]
      exact (client.recvfrom reception).skip_spec
  · simp only [shows, if_false]
    have spec := (client.recvfrom reception).nextRound_spec
    exact ⟨spec.1, spec.2.1⟩

/-- A datagram is readable exactly when the client decides right about it: it
takes the replies that it waits for and nothing else. -/
theorem readable_iff (some : reception.bytes ≠ []) :
    Readable xid reception client ↔
      (Takes xid reception client ↔
        IsReply xid client.wanted reception.datagram) := by
  constructor
  · intro readable
    constructor
    · rintro ⟨-, shows, wanted⟩
      have found := (readable shows).mp wanted
      exact ⟨(recvfrom_xid_iff client found).mp shows, found⟩
    · rintro ⟨carries, found⟩
      have shows := (recvfrom_xid_iff client found).mpr carries
      exact ⟨some, shows, (readable shows).mpr found⟩
  · intro right shows
    constructor
    · intro wanted
      exact (right.mp ⟨some, shows, wanted⟩).2
    · intro found
      exact (right.mpr ⟨(recvfrom_xid_iff client found).mp shows,
        found⟩).2.2

theorem requests_offered {message : UInt8}
    (found : messageType reception.datagram = some message) :
    Requests (offeredBytes reception.datagram)
      (addressOptions dhcpRequest
        (client.recvfrom reception).packet).bytes := by
  unfold Requests Packet.bytes
  rw [take_drop_slice]
  have ten : min 10 (packetSize - 240) = ([dhcpMessage, dhcpMessageLen,
      dhcpRequest, dhcpRequestIp, dhcpRequestIpLen] ++
      slice (client.recvfrom reception).packet 16 4 ++ [0xff]).length := by
    simp [slice, packetSize]
  rw [ten, addressOptions, Nat.zero_add, slice_overlayAt,
    recvfrom_field client found (by omega), offeredBytes]

theorem Readable.understood (readable : Readable xid reception client) :
    Understood xid reception client := by
  have taken : ∀ message, client.wanted = message →
      IsReply xid message reception.datagram →
      Takes xid reception client := by
    rintro message rfl reply
    have long := length_of_messageType reply.2
    refine ((readable_iff ?_).mp readable).mpr reply
    intro none
    have short := congrArg List.length none
    simp only [Reception.bytes, packetSize, List.length_take,
      List.length_nil] at short
    omega
  constructor
  · intro first reply
    have wanted : client.wanted = dhcpOffer := if_pos first
    rw [iteration_takes (taken _ wanted reply), if_pos first]
    obtain ⟨-, next, sent⟩ :=
      (client.recvfrom reception).sendRequest_spec reception.sendRet
    refine ⟨?_, _, sent, requests_offered reply.2⟩
    have kept : (client.recvfrom reception).j = client.j := rfl
    omega
  · intro second reply
    have wanted : client.wanted = dhcpAck := if_neg second
    rw [iteration_takes (taken _ wanted reply), if_neg second]
    exact ⟨rfl, recvfrom_yiaddr client reply.2⟩

theorem Readable.offer (readable : Readable xid reception client)
    (first : client.j = 0)
    (later : (iteration xid reception client).2.j ≠ 0) :
    IsReply xid dhcpOffer reception.datagram := by
  by_cases takes : Takes xid reception client
  · have reply := ((readable_iff takes.1).mp readable).mp takes
    rwa [Client.wanted, if_pos first] at reply
  · exact absurd ((iteration_not_takes takes).2.trans first) later

theorem Readable.acknowledgement (readable : Readable xid reception client)
    (accepted : (iteration xid reception client).1 = .accepted) :
    client.j ≠ 0 ∧ IsReply xid dhcpAck reception.datagram ∧
      (iteration xid reception client).2.packet.yiaddr =
        offered reception.datagram := by
  by_cases takes : Takes xid reception client
  · have reply := ((readable_iff takes.1).mp readable).mp takes
    rw [iteration_takes takes] at accepted ⊢
    by_cases first : client.j = 0
    · rw [if_pos first] at accepted
      exact absurd accepted (Client.sendRequest_spec _ _).1
    · rw [Client.wanted, if_neg first] at reply
      rw [if_neg first]
      exact ⟨first, reply, recvfrom_yiaddr client reply.2⟩
  · exact absurd accepted (iteration_not_takes takes).1

end Iteration

theorem Throughout.mono {xid : Nat} {property property' : Reception →
    Client → Prop} {receptions : List Reception} {client : Client}
    (holds : Throughout xid property receptions client)
    (implies : ∀ reception client, property reception client →
      property' reception client) :
    Throughout xid property' receptions client := by
  induction receptions generalizing client with
  | nil => trivial
  | cons reception receptions induction =>
      obtain ⟨here, later⟩ := holds
      exact ⟨implies reception client here,
        fun again => induction (later again)⟩

/-- What ends the loop is an acknowledgement behind an offer.  The invariant
is that the second phase begins with an offer. -/
theorem loop_justified {xid : Nat} {receptions before : List Reception}
    {client final : Client}
    (phase : client.j ≠ 0 →
      ∃ offer ∈ before, IsReply xid dhcpOffer offer.datagram)
    (readable : Throughout xid (Readable xid) receptions client)
    (accepted : loop xid receptions client = (.accepted, final)) :
    Justified xid (before ++ receptions) final.packet.yiaddr := by
  induction receptions generalizing before client with
  | nil => simp [loop] at accepted
  | cons reception receptions induction =>
      obtain ⟨here, later⟩ := readable
      generalize result : iteration xid reception client = next at later
      obtain ⟨exit, client'⟩ := next
      rw [loop, result] at accepted
      cases exit with
      | again =>
          rw [List.append_cons]
          refine induction ?_ (later rfl) accepted
          intro second
          by_cases first : client.j = 0
          · have offer := here.offer first (by rw [result]; exact second)
            exact ⟨reception, by simp, offer⟩
          · obtain ⟨offer, member, reply⟩ := phase first
            exact ⟨offer, List.mem_append_left _ member, reply⟩
      | accepted =>
          obtain rfl := (Prod.mk.inj accepted).2
          obtain ⟨second, reply, address⟩ :=
            here.acknowledgement (by rw [result])
          obtain ⟨offer, member, offerReply⟩ := phase second
          rw [result] at address
          exact ⟨before, reception, receptions, offer, rfl, member,
            offerReply, reply, address.symm⟩
      | timeOut => simp at accepted
      | error => simp at accepted

/-- An address is set only from the packet that the loop ended with. -/
theorem loop_of_setIp {xid : Nat} {macAddr : List UInt8} {packet : Packet}
    {discoverRet checkRet : Int} {syncSvr : Bool}
    {receptions : List Reception} {address : Nat}
    (isSet : (dhclient xid macAddr packet discoverRet checkRet syncSvr
      receptions).setIp = some address) :
    ∃ final, loop xid receptions (startClient xid macAddr packet) =
      (.accepted, final) ∧ final.packet.yiaddr = address := by
  generalize result : loop xid receptions (startClient xid macAddr packet) =
    final
  obtain ⟨exit, client⟩ := final
  by_cases failed : discoverRet < 0
  · simp [dhclient, failed] at isSet
  by_cases used : checkRet = 0
  · cases exit with
    | accepted =>
        simp only [dhclient, failed, if_false, result, used, ne_eq,
          not_true_eq_false, Option.some.injEq] at isSet
        exact ⟨client, rfl, isSet⟩
    | again | timeOut | error => simp [dhclient, failed, result] at isSet
  · cases exit <;> simp [dhclient, failed, result, used] at isSet

/-- In every run whose datagrams can be read at the fixed place, the address
is set only from an acknowledgement behind an offer, and every server is
understood wherever it puts option 53. -/
theorem dhclient_justified {xid : Nat} {macAddr : List UInt8}
    {packet : Packet} {discoverRet checkRet : Int} {syncSvr : Bool}
    {receptions : List Reception}
    (readable : Throughout xid (Readable xid) receptions
      (startClient xid macAddr packet)) :
    (∀ address, (dhclient xid macAddr packet discoverRet checkRet syncSvr
        receptions).setIp = some address →
      Justified xid receptions address) ∧
    Throughout xid (Understood xid) receptions
      (startClient xid macAddr packet) := by
  refine ⟨?_, readable.mono fun _ _ here => here.understood⟩
  intro address isSet
  obtain ⟨final, accepted, rfl⟩ := loop_of_setIp isSet
  exact @loop_justified xid receptions [] (startClient xid macAddr packet)
    final nofun readable accepted

/-- A message with the fields that the client looks at. -/
def sampleMessage (xid address : List UInt8) (options : List UInt8) :
    List UInt8 :=
  [2, 1, 6, 0] ++ xid ++ List.replicate 8 0 ++ address ++
    List.replicate 216 0 ++ [0x63, 0x82, 0x53, 0x63] ++ options

/-- An offer and an acknowledgement that begin with option 53. -/
theorem dhclient_justified_exchange :
    let receptions : List Reception :=
      [⟨sampleMessage [7, 0, 0, 0] [10, 0, 0, 9] [53, 1, 2, 0xff], 300⟩,
        ⟨sampleMessage [7, 0, 0, 0] [10, 0, 0, 9] [53, 1, 5, 0xff], 300⟩]
    (dhclient 7 [2, 0, 0, 0, 0, 1] (fun _ => 0) 300 0 false receptions).setIp =
        some 0x0900000a ∧
      Justified 7 receptions 0x0900000a := by
  intro receptions
  have isSet : (dhclient 7 [2, 0, 0, 0, 0, 1] (fun _ => 0) 300 0 false
      receptions).setIp = some 0x0900000a := by
    decide +kernel
  have readable : Throughout 7 (Readable 7) receptions
      (startClient 7 [2, 0, 0, 0, 0, 1] (fun _ => 0)) := by
    decide +kernel
  exact ⟨isSet, (dhclient_justified readable).1 _ isSet⟩

/-- Two messages that begin with a server identifier have no message type,
but the first bytes of the identifiers pass for one.  An offer that begins
with a server identifier is not understood. -/
theorem dhclient_not_justified :
    (¬ ∀ (xid : Nat) (macAddr : List UInt8) (packet : Packet)
        (discoverRet checkRet : Int) (syncSvr : Bool)
        (receptions : List Reception) (address : Nat),
      (dhclient xid macAddr packet discoverRet checkRet syncSvr
        receptions).setIp = some address →
      Justified xid receptions address) ∧
    ¬ ∀ (xid : Nat) (macAddr : List UInt8) (packet : Packet)
        (receptions : List Reception),
      Throughout xid (Understood xid) receptions
        (startClient xid macAddr packet) := by
  constructor
  · intro always
    let receptions : List Reception :=
      [⟨sampleMessage [7, 0, 0, 0] [10, 0, 0, 9] [54, 4, 2, 0, 0, 1, 0xff],
          300⟩,
        ⟨sampleMessage [7, 0, 0, 0] [10, 0, 0, 9] [54, 4, 5, 0, 0, 1, 0xff],
          300⟩]
    have isSet : (dhclient 7 [2, 0, 0, 0, 0, 1] (fun _ => 0) 300 0 false
        receptions).setIp = some 0x0900000a := by
      decide +kernel
    have untyped : ∀ reception ∈ receptions,
        messageType reception.datagram = none := by
      decide +kernel
    obtain ⟨before, acknowledgement, after, -, shape, -, -, reply, -⟩ :=
      always _ _ _ _ _ _ receptions _ isSet
    have none := untyped acknowledgement (by rw [shape]; simp)
    rw [reply.2] at none
    cases none
  · intro always
    let offer : Reception :=
      ⟨sampleMessage [7, 0, 0, 0] [10, 0, 0, 9]
        [54, 4, 10, 0, 0, 1, 53, 1, 2, 0xff], 300⟩
    have understood := (always 7 [2, 0, 0, 0, 0, 1] (fun _ => 0) [offer]).1
    have reply : IsReply 7 dhcpOffer offer.datagram := by
      unfold IsReply
      decide +kernel
    have ignored : (iteration 7 offer
        (startClient 7 [2, 0, 0, 0, 0, 1] (fun _ => 0))).2.j = 0 := by
      decide +kernel
    have next := (understood.offer rfl reply).1
    rw [ignored] at next
    cases next

end Witos.Dhcp
