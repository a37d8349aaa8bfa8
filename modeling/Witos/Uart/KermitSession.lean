import Mathlib.Logic.Relation
import Witos.Uart.KermitPacket

/-!
# A Kermit sender and the load

The sender sends its current packet again until an acknowledgement with the
number of that packet arrives.  Copies may be damaged on the way, which the
check character shows.
-/

namespace Witos.Uart

open Library

/-- How many packets the sender has seen acknowledged, and the load; `exit` is
set once it has left its loop.  `failed` tells whether an `ioctl` or a `write`
to `opt->dst` has failed. -/
structure Session where
  position : Nat
  load : Load
  exit : Option Exit
  failed : Bool

def Session.seq (session : Session) : Nat := session.position % 64

/-- The calls that write the data fail, if they are made. -/
def Delivery.fails (delivery : Delivery) (opt : LoaderOpt) : Bool :=
  opt.dst && (delivery.io.ioctlRet < 0 || delivery.io.writeRet < 0)

/-- A frame reaches the load.  The sender goes on to its next packet if the
load answers with the acknowledgement of the current one. -/
def Session.deliver (session : Session) (opt : LoaderOpt)
    (delivery : Delivery) : Session :=
  let result := kermitStep opt delivery session.load
  let replies := result.2.sent.drop session.load.sent.length
  { position :=
      if sendAckPacket session.seq kermTypeAck ∈ replies then
        session.position + 1
      else session.position
    load := result.2
    exit := result.1
    failed := session.failed || delivery.fails opt }

/-- The frame is the packet the sender is at, as it comes out of the byte
stream. -/
def Session.IsIntact (session : Session) (packets : List Packet)
    (delivery : Delivery) : Prop :=
  ∃ packet, packets[session.position]? = some packet ∧
    frames none (markStart :: packet.frame session.seq) = [delivery.frame]

/-- The frame comes out of the byte stream, and the check character shows that
it is damaged. -/
def Session.IsDamaged (session : Session) (delivery : Delivery) : Prop :=
  (∃ bytes, frames none bytes = [delivery.frame]) ∧
    ¬ ChecksOut (session.load.receive delivery.frame).buff

/-- Copies reach the load one after the other; `allowed` restricts the damaged
ones. -/
inductive Step (opt : LoaderOpt) (packets : List Packet)
    (allowed : Session → Delivery → Prop) : Session → Session → Prop where
  | intact {session : Session} (delivery : Delivery) :
      session.exit = none → session.IsIntact packets delivery →
      Step opt packets allowed session (session.deliver opt delivery)
  | damaged {session : Session} (delivery : Delivery) :
      session.exit = none → session.IsDamaged delivery →
      allowed session delivery →
      Step opt packets allowed session (session.deliver opt delivery)

def startSession (buff memory : Nat → UInt8) (fileName : List UInt8) :
    Session where
  position := 0
  load := startLoad buff memory fileName
  exit := none
  failed := false

/-- The data of the packets acknowledged so far. -/
def Session.stored (session : Session) (packets : List Packet) :
    List UInt8 :=
  (packets.take session.position).flatMap Packet.payload

def IsAck (bytes : List UInt8) : Bool :=
  bytes[3]? == some kermTypeAck

/-- The load has ended with the acknowledgement of a break packet, the last
one that a sender has. -/
def Session.Complete (session : Session) (packets : List Packet) : Prop :=
  session.exit = some .normal ∧ 0 < session.position ∧
    ∃ packet, packets[session.position - 1]? = some packet ∧
      packet.type = kermTypeBreak

/-- The loaded bytes are the data of the packets acknowledged so far, the load
goes on until it is complete or a write fails, and the next packet is accepted
if it arrives intact. -/
structure Faithful (opt : LoaderOpt) (packets : List Packet)
    (session : Session) : Prop where
  holds : session.load.sink.Holds opt (session.stored packets)
  acks : session.load.sent.filter IsAck = (List.range session.position).map
    fun index => sendAckPacket (index % 64) kermTypeAck
  goesOn : session.exit = none ∨ session.Complete packets ∨
    session.failed = true
  accepts : session.exit = none → ∀ delivery,
    session.IsIntact packets delivery → 0 ≤ delivery.io.ioctlRet →
      0 ≤ delivery.io.writeRet →
        (session.deliver opt delivery).position = session.position + 1

/-- A damaged copy that does no harm: the first packet is acknowledged, the
copy fits into the frame buffer, and its number is not the expected one. -/
def Harmless (session : Session) (delivery : Delivery) : Prop :=
  0 < session.position ∧ delivery.frame.length ≤ kermBufLen ∧
    packetSeq (session.load.receive delivery.frame).buff ≠
      session.load.realSeq

theorem Session.IsIntact.frame {session : Session} {packets : List Packet}
    {delivery : Delivery} (allValid : ∀ packet ∈ packets, packet.Valid)
    (intact : session.IsIntact packets delivery) :
    ∃ packet, packets[session.position]? = some packet ∧ packet.Valid ∧
      delivery.frame = packet.frame session.seq := by
  obtain ⟨packet, here, framed⟩ := intact
  have valid := allValid packet (List.mem_of_getElem? here)
  have small : session.seq < 64 := Nat.mod_lt _ (by decide)
  rw [frames_packet valid small] at framed
  exact ⟨packet, here, valid, (List.singleton_inj.mp framed).symm⟩

/-- An intact copy of the expected packet is accepted unless its data cannot
be written. -/
theorem kermitStep_intact (opt : LoaderOpt) {delivery : Delivery}
    {load : Load} {packet : Packet} (valid : packet.Valid)
    (small : load.realSeq < 64)
    (frame : delivery.frame = packet.frame load.realSeq) :
    let current := (load.receive delivery.frame).advance
    current.type = packet.type ∧ current.data = packet.payload ∧
      match current.store.sink.write opt delivery.io packet.payload.length with
      | .error _ =>
          kermitStep opt delivery load = (some .error, current.store)
      | .ok written =>
          kermitStep opt delivery load =
            loopTest (current.store.accept opt load.realSeq written) := by
  intro current
  have buffer : current.buff = packet.received load.realSeq load.buff := by
    show overlay delivery.frame load.buff = _
    rw [frame]
    rfl
  have short := valid.short
  have fits : delivery.frame.length ≤ kermBufLen := by
    rw [frame, Packet.length_frame]
    unfold kermBufLen
    omega
  have expected : packetSeq (load.receive delivery.frame).buff =
      load.realSeq := by
    have seq := packetSeq_received packet small load.buff
    rw [← buffer] at seq
    exact seq
  have type : current.type = packet.type := by
    show packetType current.buff = packet.type
    rw [buffer]
    rfl
  have data : current.data = packet.payload := by
    unfold Load.data Packet.payload
    rw [type, buffer, parsePacket_received valid]
    by_cases isData : packet.type = kermTypeData
    · rw [if_pos isData, if_pos isData]
      exact if_pos (Or.inr isData)
    · rw [if_neg isData, if_neg isData]
  refine ⟨type, data, ?_⟩
  have room : ¬ (opt.loadAddr = false ∧
      kermBufLen < packet.payload.length) := by
    rintro ⟨-, long⟩
    have bound := valid.length_payload
    unfold kermBufLen at long
    omega
  have checks : ChecksOut current.buff := by
    rw [buffer]
    exact checksOut_received valid load.buff
  have terminated : IsTerminated current.buff := by
    rw [buffer]
    exact isTerminated_received valid load.buff
  rw [kermitStep_expected opt fits expected]
  unfold handlePacket
  dsimp only
  rw [data, if_neg room, if_neg (not_not_intro checks),
    if_neg (not_not_intro terminated)]
  cases current.store.sink.write opt delivery.io packet.payload.length with
  | error ret => rfl
  | ok written => rfl

section Run

variable {opt : LoaderOpt} {packets : List Packet} {session : Session}

/-- What is true of a session whatever has happened so far; while the load
runs, it expects the packet the sender is at. -/
structure Invariant (opt : LoaderOpt) (packets : List Packet)
    (session : Session) : Prop where
  holds : session.load.sink.Holds opt (session.stored packets)
  acks : session.load.sent.filter IsAck = (List.range session.position).map
    fun index => sendAckPacket (index % 64) kermTypeAck
  goesOn : session.exit = none ∨ session.Complete packets ∨
    session.failed = true
  realSeq : session.exit = none → session.load.realSeq = session.seq
  type : session.exit = none → 0 < session.position →
    session.load.type ≠ kermTypeBreak

theorem invariant_start (opt : LoaderOpt) (packets : List Packet)
    (buff memory : Nat → UInt8) (fileName : List UInt8) :
    Invariant opt packets (startSession buff memory fileName) where
  holds := startSink_holds opt memory
  acks := rfl
  goesOn := Or.inl rfl
  realSeq := fun _ => rfl
  type := fun _ positive => absurd positive (Nat.lt_irrefl 0)

theorem stored_succ {packet : Packet}
    (here : packets[session.position]? = some packet) :
    (packets.take (session.position + 1)).flatMap Packet.payload =
      session.stored packets ++ packet.payload := by
  rw [List.take_add_one, here, Option.toList_some, List.flatMap_append,
    List.flatMap_singleton]
  rfl

theorem sendAckPacket_type (seq : Nat) (type : UInt8) :
    (sendAckPacket seq type)[3]? = some type := rfl

/-- The sender goes on if the one reply is the acknowledgement it waits
for. -/
theorem deliver_position {delivery : Delivery} {seq : Nat} {type : UInt8}
    (replied : (kermitStep opt delivery session.load).2.sent =
      session.load.sent ++ [sendAckPacket seq type]) :
    (session.deliver opt delivery).position =
      if sendAckPacket session.seq kermTypeAck = sendAckPacket seq type then
        session.position + 1
      else session.position := by
  unfold Session.deliver
  dsimp only
  rw [replied, List.drop_left]
  simp only [List.mem_singleton]

theorem fails_of_error {delivery : Delivery} {sink : Sink} {count : Nat}
    {ret : Int} (failed : sink.write opt delivery.io count = .error ret) :
    delivery.fails opt = true := by
  unfold Sink.write at failed
  split at failed
  case isTrue toFile =>
    dsimp only at failed
    unfold Delivery.fails
    rw [toFile, Bool.true_and, Bool.or_eq_true, decide_eq_true_iff,
      decide_eq_true_iff]
    split at failed
    case isTrue mode => exact Or.inl mode.2
    case isFalse =>
      split at failed
      case isTrue data => exact Or.inr data
      case isFalse => cases failed
  case isFalse => cases failed

theorem deliver_failed {delivery : Delivery}
    (invariant : Invariant opt packets session)
    (fails : delivery.fails opt = true)
    (failed : kermitStep opt delivery session.load =
      (some .error, (session.load.receive delivery.frame).advance.store)) :
    Invariant opt packets (session.deliver opt delivery) := by
  have position : (session.deliver opt delivery).position =
      session.position := by
    unfold Session.deliver
    dsimp only
    rw [failed]
    simp [Load.receive, Load.advance, Load.store]
  have load : (session.deliver opt delivery).load =
      (session.load.receive delivery.frame).advance.store :=
    congrArg Prod.snd failed
  have exits : (session.deliver opt delivery).exit = some .error :=
    congrArg Prod.fst failed
  constructor
  · rw [load, Session.stored, position]
    exact invariant.holds.store _
  · rw [position, load]
    exact invariant.acks
  · right
    right
    show (session.failed || delivery.fails opt) = true
    rw [fails, Bool.or_true]
  · intro running
    rw [exits] at running
    cases running
  · intro running
    rw [exits] at running
    cases running

theorem deliver_accepted {delivery : Delivery} {packet : Packet}
    {written : Sink} (invariant : Invariant opt packets session)
    (running : session.exit = none)
    (here : packets[session.position]? = some packet)
    (type : (session.load.receive delivery.frame).advance.type = packet.type)
    (data : (session.load.receive delivery.frame).advance.data =
      packet.payload)
    (wrote : (session.load.receive delivery.frame).advance.store.sink.write
      opt delivery.io packet.payload.length = .ok written)
    (step : kermitStep opt delivery session.load =
      loopTest ((session.load.receive delivery.frame).advance.store.accept
        opt session.load.realSeq written)) :
    Invariant opt packets (session.deliver opt delivery) ∧
      (session.deliver opt delivery).position = session.position + 1 := by
  have expected := invariant.realSeq running
  have load : (session.deliver opt delivery).load =
      (session.load.receive delivery.frame).advance.store.accept opt
        session.load.realSeq written := by
    show (kermitStep opt delivery session.load).2 = _
    rw [step]
    unfold loopTest
    split <;> rfl
  have position : (session.deliver opt delivery).position =
      session.position + 1 := by
    have replied : (kermitStep opt delivery session.load).2.sent =
        session.load.sent ++ [sendAckPacket session.seq kermTypeAck] := by
      show (session.deliver opt delivery).load.sent = _
      rw [load, ← expected]
      rfl
    rw [deliver_position replied, if_pos rfl]
  refine ⟨⟨?_, ?_, ?_, ?_, ?_⟩, position⟩
  · rw [load, Session.stored, position, stored_succ here]
    have length : (session.load.receive
        delivery.frame).advance.store.data.length =
          packet.payload.length := congrArg List.length data
    show (written.advance opt (session.load.receive
      delivery.frame).advance.store.data.length).Holds opt _
    rw [length]
    apply invariant.holds.append
    rw [← data]
    rw [← data] at wrote
    exact wrote
  · rw [position, load]
    show (session.load.sent ++ [_]).filter IsAck = _
    rw [List.filter_append, invariant.acks, List.range_succ,
      List.map_append, expected]
    rfl
  · by_cases isBreak : packet.type = kermTypeBreak
    · right
      left
      refine ⟨?_, ?_, packet, ?_, isBreak⟩
      · show (kermitStep opt delivery session.load).1 = _
        rw [step, loopTest_of_break]
        exact type.trans isBreak
      · rw [position]
        exact Nat.succ_pos _
      · rw [position]
        exact here
    · left
      show (kermitStep opt delivery session.load).1 = _
      rw [step, loopTest_of_ne]
      intro ends
      exact isBreak (type.symm.trans ends)
  · intro _
    rw [load]
    show (session.load.realSeq + 1) % 64 = _ % 64
    rw [expected, position, Session.seq, Nat.mod_add_mod]
  · intro stillRunning _
    rw [load]
    intro isBreak
    have exits : (session.deliver opt delivery).exit = some .normal := by
      show (kermitStep opt delivery session.load).1 = _
      rw [step, loopTest_of_break isBreak]
    rw [exits] at stillRunning
    cases stillRunning

theorem deliver_harmless {delivery : Delivery}
    (invariant : Invariant opt packets session)
    (running : session.exit = none) (harmless : Harmless session delivery) :
    Invariant opt packets (session.deliver opt delivery) := by
  obtain ⟨positive, fits, unexpected⟩ := harmless
  have goesOn := invariant.type running positive
  have step : kermitStep opt delivery session.load =
      (none, (session.load.receive delivery.frame).sendAck
        session.load.realSeq kermTypeNack) := by
    rw [kermitStep_unexpected opt fits unexpected]
    exact loopTest_of_ne goesOn
  have position : (session.deliver opt delivery).position =
      session.position := by
    have replied : (kermitStep opt delivery session.load).2.sent =
        session.load.sent ++
          [sendAckPacket session.load.realSeq kermTypeNack] := by
      rw [step]
      rfl
    rw [deliver_position replied, if_neg]
    intro same
    have types := congrArg (fun bytes => bytes[3]?) same
    simp only [sendAckPacket_type] at types
    exact absurd types (by decide)
  have load : (session.deliver opt delivery).load =
      (session.load.receive delivery.frame).sendAck session.load.realSeq
        kermTypeNack :=
    congrArg Prod.snd step
  constructor
  · rw [load, Session.stored, position]
    exact invariant.holds
  · rw [position, load]
    show (session.load.sent ++ [_]).filter IsAck = _
    rw [List.filter_append, invariant.acks]
    exact List.append_nil _
  · left
    exact congrArg Prod.fst step
  · intro _
    rw [load, Session.seq, position]
    exact invariant.realSeq running
  · intro _ _
    rw [load]
    exact goesOn

/-- An intact copy keeps the invariant, and is accepted unless its data cannot
be written. -/
theorem deliver_intact {delivery : Delivery}
    (allValid : ∀ packet ∈ packets, packet.Valid)
    (invariant : Invariant opt packets session)
    (running : session.exit = none)
    (intact : session.IsIntact packets delivery) :
    Invariant opt packets (session.deliver opt delivery) ∧
      (0 ≤ delivery.io.ioctlRet → 0 ≤ delivery.io.writeRet →
        (session.deliver opt delivery).position = session.position + 1) := by
  obtain ⟨packet, here, valid, frame⟩ := intact.frame allValid
  have expected := invariant.realSeq running
  rw [← expected] at frame
  have small : session.load.realSeq < 64 := by
    rw [expected]
    exact Nat.mod_lt _ (by decide)
  obtain ⟨type, data, step⟩ := kermitStep_intact opt valid small frame
  split at step
  case h_1 ret failed =>
    have fails := fails_of_error failed
    refine ⟨deliver_failed invariant fails step, ?_⟩
    intro ioctls writes
    obtain ⟨written, wrote⟩ := Sink.write_ok
      (session.load.receive delivery.frame).advance.store.sink opt
      packet.payload.length ioctls writes
    rw [failed] at wrote
    cases wrote
  case h_2 written wrote =>
    obtain ⟨kept, position⟩ :=
      deliver_accepted invariant running here type data wrote step
    exact ⟨kept, fun _ _ => position⟩

theorem step_invariant {next : Session}
    (allValid : ∀ packet ∈ packets, packet.Valid)
    (invariant : Invariant opt packets session)
    (step : Step opt packets Harmless session next) :
    Invariant opt packets next := by
  cases step with
  | intact delivery running intact =>
      exact (deliver_intact allValid invariant running intact).1
  | damaged delivery running _ harmless =>
      exact deliver_harmless invariant running harmless

/-- In every run in which all damaged copies are harmless, the loaded bytes
are the data of the packets acknowledged, the load goes on until a break packet
is acknowledged or a write fails, and the next packet is accepted. -/
theorem session_faithful (opt : LoaderOpt) (packets : List Packet)
    (allValid : ∀ packet ∈ packets, packet.Valid)
    (buff memory : Nat → UInt8) (fileName : List UInt8) (session : Session)
    (reachable : Relation.ReflTransGen (Step opt packets Harmless)
      (startSession buff memory fileName) session) :
    Faithful opt packets session := by
  have invariant : Invariant opt packets session := by
    induction reachable with
    | refl => exact invariant_start opt packets buff memory fileName
    | tail _ step induction => exact step_invariant allValid induction step
  constructor
  · exact invariant.holds
  · exact invariant.acks
  · exact invariant.goesOn
  · intro running delivery intact
    exact (deliver_intact allValid invariant running intact).2

end Run

def samplePackets : List Packet := [⟨kermTypeHead, [0x61]⟩, ⟨kermTypeData, [7]⟩]

theorem samplePackets_valid : ∀ packet ∈ samplePackets, packet.Valid := by
  intro packet member
  rcases List.mem_cons.mp member with rfl | member
  · exact ⟨by decide, by decide, by decide⟩
  · rw [List.mem_singleton.mp member]
    exact ⟨by decide, by decide, by decide⟩

def sampleStart : Session := startSession (fun _ => 0) (fun _ => 0) []

/-- The header, as it was sent. -/
def sampleHeader : Delivery := ⟨[0x24, 0x20, 0x46, 0x61, 0x4e, 0x0d], ⟨0, 0⟩⟩

/-- The header with another check character. -/
def damagedHeader : Delivery := ⟨[0x24, 0x20, 0x46, 0x61, 0x4f, 0x0d], ⟨0, 0⟩⟩

/-- The data packet, whose number has become 31. -/
def damagedData : Delivery :=
  ⟨[0x25, 0x3f, 0x44, 0x23, 0x47, 0x56, 0x0d], ⟨0, 0⟩⟩

theorem session_faithful_header :
    Faithful ⟨true, false⟩ samplePackets
      ((sampleStart.deliver ⟨true, false⟩ sampleHeader).deliver ⟨true, false⟩
        damagedData) := by
  apply session_faithful _ _ samplePackets_valid (fun _ => 0) (fun _ => 0) []
  apply Relation.ReflTransGen.tail
  · apply Relation.ReflTransGen.single
    exact .intact sampleHeader rfl ⟨_, rfl, by decide⟩
  · exact .damaged damagedData (by decide)
      ⟨⟨markStart :: damagedData.frame, by decide⟩, by decide⟩
      ⟨by decide, by decide, by decide⟩

/-- After one damaged copy the header is not accepted any more. -/
theorem session_not_faithful_damaged :
    ¬ ∀ opt packets buff memory fileName session,
      (∀ packet ∈ packets, Packet.Valid packet) →
      Relation.ReflTransGen (Step opt packets fun _ _ => True)
        (startSession buff memory fileName) session →
      Faithful opt packets session := by
  intro always
  have faithful := always ⟨true, false⟩ samplePackets (fun _ => 0)
    (fun _ => 0) [] (sampleStart.deliver ⟨true, false⟩ damagedHeader)
    samplePackets_valid (.single (.damaged damagedHeader rfl
      ⟨⟨markStart :: damagedHeader.frame, by decide⟩, by decide⟩ trivial))
  have accepted := faithful.accepts (by decide) sampleHeader
    ⟨_, rfl, by decide⟩ (by decide) (by decide)
  exact absurd accepted (by decide)

end Witos.Uart
