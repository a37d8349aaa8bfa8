import Witos.Net.Checksum
import Witos.Net.TcpStream

/-!
# The memory of a TCP segment

`tcp_send_packet` and `pseudo_calculate_checksum` of `driver/net/core/net.c` on
the memory that `skb_alloc` has allocated.  The pseudo header stands where the
IP header will be, and a segment of odd size is padded behind its end.
-/

namespace Witos.Net

open Library

/-- The memory, a buffer of `room` bytes at `head` with the fields `data` and
`size` of its `sock_buff`, and the places that have been stored to, each with
the number of its bytes. -/
structure HeapBuff where
  memory : Nat → UInt8
  head : Nat
  room : Nat
  data : Nat
  size : Nat
  stores : List (Nat × Nat)

namespace HeapBuff

def store (skb : HeapBuff) (place : Nat) (bytes : List UInt8) : HeapBuff :=
  { skb with
    memory := overlayAt place bytes skb.memory
    stores := skb.stores ++ [(place, bytes.length)] }

/-- The fields of a structure are stored one after the other. -/
def storeFields (skb : HeapBuff) : Nat → List (List UInt8) → HeapBuff
  | _, [] => skb
  | place, field :: fields =>
      (skb.store place field).storeFields (place + field.length) fields

/-- The bytes from `data` on. -/
def segment (skb : HeapBuff) : List UInt8 :=
  slice skb.memory skb.data skb.size

/-- The byte behind an odd size is 0. -/
def pad (skb : HeapBuff) : HeapBuff :=
  if skb.size % 2 = 1 then skb.store (skb.data + skb.size) [0] else skb

/-- All that was stored is in the buffer. -/
def StoresInside (skb : HeapBuff) : Prop :=
  ∀ store ∈ skb.stores,
    skb.head ≤ store.1 ∧ store.1 + store.2 ≤ skb.head + skb.room

end HeapBuff

/-- The second half of `skb_alloc`, where `malloc` has returned `head`. -/
def skbAllocAt (memory : Nat → UInt8) (head protLen dataLen : Nat) :
    HeapBuff where
  memory := memory
  head := head
  room := clearLow 2 (add32 (add32 protLen dataLen) 1)
  data := head + protLen
  size := dataLen % 2 ^ 16
  stores := []

def pseudoHdrLen : Nat := 12

/-- The stores of `pseudo_calculate_checksum` before it looks at the type of
the socket. -/
def pseudoAddresses (sock : Socket) (skb : HeapBuff) : HeapBuff :=
  skb.storeFields (skb.data - pseudoHdrLen)
    [beBytes 4 sock.source.addr, beBytes 4 sock.destination.addr, [0]]

/-- Its other stores before it calculates the checksum. -/
def pseudoProt (prot : Nat) (skb : HeapBuff) : HeapBuff :=
  (skb.storeFields (skb.data - pseudoHdrLen + 9)
    [[UInt8.ofNat prot], beBytes 2 skb.size]).pad

/-- `pseudo_calculate_checksum`, which stores the checksum at a place unless
the socket is of another type. -/
def pseudoChecksumAt (sock : Socket) (checksum : Nat) (skb : HeapBuff) :
    HeapBuff :=
  let skb := pseudoAddresses sock skb
  match pseudoProtocol sock.type with
  | none => skb
  | some prot =>
      let skb := pseudoProt prot skb
      skb.store checksum (checksumField (slice skb.memory
        (skb.data - pseudoHdrLen) (pseudoHdrLen + skb.size)))

/-- The fields of `struct tcp_header` in front of the checksum. -/
def tcpFields (sock : Socket) (flags : Nat) (options : List UInt8) :
    List (List UInt8) :=
  [beBytes 2 sock.source.port, beBytes 2 sock.destination.port,
    beBytes 4 sock.seqNum, beBytes 4 sock.ackNum,
    [UInt8.ofNat ((tcpHdrLen + options.length) / 4 % 16 * 16)],
    [UInt8.ofNat flags],
    beBytes 2 (if flags.testBit 4 then 457 else 14600)]

/-- `tcp_send_packet` up to the call of `ip_send_packet`. -/
def tcpSendPacketAt (sock : Socket) (flags : Nat) (options : List UInt8)
    (skb : HeapBuff) : HeapBuff :=
  let tcpHdr := skb.data - (tcpHdrLen + options.length)
  let skb := { skb with
    data := tcpHdr
    size := add16 skb.size (tcpHdrLen + options.length) }
  pseudoChecksumAt sock (tcpHdr + 16)
    (skb.storeFields tcpHdr
      (tcpFields sock flags options ++ [[0, 0], [0, 0], options]))

/-- The buffer as `send`, `connect`, `sk_close` and `tcp_send_ack` have it
filled: with headers in front of the data of `send`, and without data
elsewhere. -/
def tcpBuffer (memory : Nat → UInt8) (head : Nat) (sock : Socket)
    (flags : Nat) (data : List UInt8) : HeapBuff :=
  let protLen := ethHdrLen + ipHdrLen + tcpHdrLen
  tcpSendPacketAt sock flags []
    ((skbAllocAt memory head protLen data.length).store (head + protLen) data)

namespace HeapBuff

theorem storeFields_memory (skb : HeapBuff) (place : Nat)
    (fields : List (List UInt8)) :
    (skb.storeFields place fields).memory =
      overlayAt place fields.flatten skb.memory := by
  induction fields generalizing skb place with
  | nil => rw [storeFields, List.flatten_nil, overlayAt_nil]
  | cons field fields induction =>
      rw [storeFields, induction, List.flatten_cons]
      exact overlayAt_append place field fields.flatten skb.memory

/-- Storing leaves the buffer where it is. -/
structure SameBuffer (skb other : HeapBuff) : Prop where
  head : other.head = skb.head
  room : other.room = skb.room
  data : other.data = skb.data
  size : other.size = skb.size

theorem SameBuffer.trans {skb middle other : HeapBuff}
    (first : SameBuffer skb middle) (second : SameBuffer middle other) :
    SameBuffer skb other where
  head := second.head.trans first.head
  room := second.room.trans first.room
  data := second.data.trans first.data
  size := second.size.trans first.size

theorem storeFields_same (skb : HeapBuff) (place : Nat)
    (fields : List (List UInt8)) :
    SameBuffer skb (skb.storeFields place fields) := by
  induction fields generalizing skb place with
  | nil => exact ⟨rfl, rfl, rfl, rfl⟩
  | cons field fields induction =>
      obtain ⟨head, room, data, size⟩ :=
        induction (skb.store place field) (place + field.length)
      exact ⟨head, room, data, size⟩

theorem pad_same (skb : HeapBuff) : SameBuffer skb skb.pad := by
  unfold pad
  split
  · exact ⟨rfl, rfl, rfl, rfl⟩
  · exact ⟨rfl, rfl, rfl, rfl⟩

theorem slice_pad (skb : HeapBuff) {place count : Nat}
    (before : place + count ≤ skb.data + skb.size) :
    slice skb.pad.memory place count = slice skb.memory place count := by
  unfold pad
  split
  · exact slice_overlayAt_of_disjoint _ _ (.inl before)
  · rfl

theorem StoresInside.store {skb : HeapBuff} (inside : skb.StoresInside)
    {place : Nat} {bytes : List UInt8} (above : skb.head ≤ place)
    (below : place + bytes.length ≤ skb.head + skb.room) :
    (skb.store place bytes).StoresInside := by
  intro store member
  rcases List.mem_append.mp member with before | last
  · exact inside store before
  · rw [List.mem_singleton.mp last]
    exact ⟨above, below⟩

theorem StoresInside.storeFields {skb : HeapBuff} (inside : skb.StoresInside)
    {place : Nat} {fields : List (List UInt8)} (above : skb.head ≤ place)
    (below : place + fields.flatten.length ≤ skb.head + skb.room) :
    (skb.storeFields place fields).StoresInside := by
  induction fields generalizing skb place with
  | nil => exact inside
  | cons field fields induction =>
      rw [List.flatten_cons, List.length_append] at below
      apply induction
      · exact inside.store above (by omega)
      · exact Nat.le_trans above (Nat.le_add_right _ _)
      · change place + field.length + _ ≤ skb.head + skb.room
        omega

end HeapBuff

theorem slice_overlayAt_middle {memory : Nat → UInt8} {offset count : Nat}
    {before old new after : List UInt8}
    (whole : slice memory offset count = before ++ old ++ after)
    (length : new.length = old.length) :
    slice (overlayAt (offset + before.length) new memory) offset count =
      before ++ new ++ after := by
  have total : before.length + new.length + after.length = count := by
    have lengths := congrArg List.length whole
    simp only [length_slice, List.length_append] at lengths
    omega
  rw [← total, ← slice_append, ← slice_append] at whole ⊢
  obtain ⟨low, isAfter⟩ := List.append_inj' whole (by simp)
  obtain ⟨isBefore, -⟩ := List.append_inj low (by simp)
  rw [slice_overlayAt_of_disjoint _ _ (.inl (Nat.le_refl _)), isBefore,
    slice_overlayAt, slice_overlayAt_of_disjoint _ _ (.inr (by omega)),
    isAfter]

/-- The bytes of a pseudo header. -/
def pseudoHeader (prot size : Nat) (source destination : SockAddr) :
    List UInt8 :=
  beBytes 4 source.addr ++ beBytes 4 destination.addr ++
    [0, UInt8.ofNat prot] ++ beBytes 2 size

theorem length_pseudoHeader (prot size : Nat)
    (source destination : SockAddr) :
    (pseudoHeader prot size source destination).length = 12 := by
  simp [pseudoHeader]

section Checksum

variable (sock : Socket) (prot : Nat) (skb : HeapBuff)

theorem pseudoAddresses_same :
    HeapBuff.SameBuffer skb (pseudoAddresses sock skb) :=
  skb.storeFields_same _ _

theorem pseudoProt_same :
    HeapBuff.SameBuffer skb (pseudoProt prot skb) :=
  (skb.storeFields_same _ _).trans (HeapBuff.pad_same _)

variable {skb} (room : pseudoHdrLen ≤ skb.data)

include room

/-- The first stores into the pseudo header leave the segment alone. -/
theorem segment_pseudoAddresses :
    (pseudoAddresses sock skb).segment = skb.segment := by
  unfold pseudoHdrLen at room
  obtain ⟨-, -, data, size⟩ := pseudoAddresses_same sock skb
  rw [HeapBuff.segment, data, size, pseudoAddresses,
    HeapBuff.storeFields_memory, pseudoHdrLen]
  apply slice_overlayAt_of_disjoint
  right
  simp
  omega

omit room in
theorem pseudoFields_memory :
    ((pseudoAddresses sock skb).storeFields (skb.data - pseudoHdrLen + 9)
        [[UInt8.ofNat prot], beBytes 2 skb.size]).memory =
      overlayAt (skb.data - pseudoHdrLen)
        (pseudoHeader prot skb.size sock.source sock.destination)
        skb.memory := by
  have nine : skb.data - pseudoHdrLen + 9 = skb.data - pseudoHdrLen +
      [beBytes 4 sock.source.addr, beBytes 4 sock.destination.addr,
        [0]].flatten.length := by simp
  have fields : [beBytes 4 sock.source.addr, beBytes 4 sock.destination.addr,
      [0]].flatten ++ [[UInt8.ofNat prot], beBytes 2 skb.size].flatten =
        pseudoHeader prot skb.size sock.source sock.destination := by
    simp [pseudoHeader]
  rw [HeapBuff.storeFields_memory, pseudoAddresses,
    HeapBuff.storeFields_memory, nine, overlayAt_append, fields]

theorem slice_pseudoProt :
    slice (pseudoProt prot (pseudoAddresses sock skb)).memory
        (skb.data - pseudoHdrLen) (pseudoHdrLen + skb.size) =
      pseudoHeader prot skb.size sock.source sock.destination ++
        skb.segment := by
  obtain ⟨-, -, data, size⟩ := pseudoAddresses_same sock skb
  obtain ⟨-, -, fieldsData, fieldsSize⟩ :=
    (pseudoAddresses sock skb).storeFields_same
      (skb.data - pseudoHdrLen + 9) [[UInt8.ofNat prot], beBytes 2 skb.size]
  have length := length_pseudoHeader prot skb.size sock.source
    sock.destination
  have behind : skb.data - pseudoHdrLen + pseudoHdrLen = skb.data :=
    Nat.sub_add_cancel room
  rw [pseudoProt, data, size, HeapBuff.slice_pad, pseudoFields_memory,
    ← slice_append, behind]
  · congr 1
    · have header := slice_overlayAt (skb.data - pseudoHdrLen)
        (pseudoHeader prot skb.size sock.source sock.destination) skb.memory
      rwa [length] at header
    · apply slice_overlayAt_of_disjoint
      right
      rw [length]
      exact Nat.le_of_eq behind
  · rw [fieldsData, fieldsSize, data, size]
    omega

theorem slice_pseudoProt_data :
    slice (pseudoProt prot (pseudoAddresses sock skb)).memory skb.data
        skb.size = skb.segment := by
  have whole := slice_pseudoProt sock prot room
  have behind : skb.data - pseudoHdrLen + pseudoHdrLen = skb.data :=
    Nat.sub_add_cancel room
  rw [← slice_append, behind] at whole
  exact (List.append_inj' whole (by simp [HeapBuff.segment])).2

end Checksum

/-- The checksum stands where it should, and the other bytes are as before. -/
theorem pseudoChecksumAt_segment {skb : HeapBuff} (sock : Socket)
    {before after : List UInt8} (room : pseudoHdrLen ≤ skb.data)
    (segment : skb.segment = before ++ [0, 0] ++ after) :
    (pseudoChecksumAt sock (skb.data + before.length) skb).segment =
      before ++ pseudoCalculateChecksum sock skb.segment ++ after := by
  have length : skb.segment.length = skb.size := length_slice _ _ _
  unfold pseudoChecksumAt pseudoCalculateChecksum
  cases pseudoProtocol sock.type with
  | none =>
      simp only
      rw [segment_pseudoAddresses sock room, segment]
  | some prot =>
      simp only
      obtain ⟨-, -, data, size⟩ := (pseudoAddresses_same sock skb).trans
        (pseudoProt_same prot (pseudoAddresses sock skb))
      have unsummed := slice_pseudoProt_data sock prot room
      rw [segment] at unsummed
      have stored := slice_overlayAt_middle unsummed
        (length_checksumField (pseudoHeader prot skb.size sock.source
          sock.destination ++ skb.segment))
      rw [HeapBuff.segment]
      simp only [HeapBuff.store, data, size, slice_pseudoProt sock prot room]
      rw [stored, length]
      rfl

/-- There is room for the pseudo header before the segment and for the byte
behind it. -/
structure HeapBuff.Roomy (skb : HeapBuff) : Prop where
  low : skb.head + pseudoHdrLen ≤ skb.data
  high : skb.data + skb.size + skb.size % 2 ≤ skb.head + skb.room

theorem HeapBuff.SameBuffer.roomy {skb other : HeapBuff}
    (same : SameBuffer skb other) (roomy : skb.Roomy) : other.Roomy := by
  obtain ⟨head, room, data, size⟩ := same
  constructor
  · rw [head, data]
    exact roomy.low
  · rw [head, room, data, size]
    exact roomy.high

theorem HeapBuff.StoresInside.pad {skb : HeapBuff}
    (inside : skb.StoresInside) (roomy : skb.Roomy) :
    skb.pad.StoresInside := by
  obtain ⟨low, high⟩ := roomy
  unfold pseudoHdrLen at low
  unfold HeapBuff.pad
  split
  · next odd =>
      apply inside.store
      · omega
      · rw [List.length_singleton]
        omega
  · exact inside

theorem pseudoAddresses_inside (sock : Socket) {skb : HeapBuff}
    (inside : skb.StoresInside) (roomy : skb.Roomy) :
    (pseudoAddresses sock skb).StoresInside := by
  obtain ⟨low, high⟩ := roomy
  unfold pseudoHdrLen at low
  apply inside.storeFields
  · unfold pseudoHdrLen
    omega
  · simp [pseudoHdrLen]
    omega

theorem pseudoProt_inside (prot : Nat) {skb : HeapBuff}
    (inside : skb.StoresInside) (roomy : skb.Roomy) :
    (pseudoProt prot skb).StoresInside := by
  have same := skb.storeFields_same (skb.data - pseudoHdrLen + 9)
    [[UInt8.ofNat prot], beBytes 2 skb.size]
  apply HeapBuff.StoresInside.pad _ (same.roomy roomy)
  obtain ⟨low, high⟩ := roomy
  unfold pseudoHdrLen at low
  apply inside.storeFields
  · unfold pseudoHdrLen
    omega
  · simp [pseudoHdrLen]
    omega

theorem pseudoChecksumAt_inside {skb : HeapBuff} (sock : Socket)
    {checksum : Nat} (inside : skb.StoresInside) (roomy : skb.Roomy)
    (above : skb.head ≤ checksum)
    (below : checksum + 2 ≤ skb.head + skb.room) :
    (pseudoChecksumAt sock checksum skb).StoresInside := by
  have addresses := pseudoAddresses_inside sock inside roomy
  have same := pseudoAddresses_same sock skb
  unfold pseudoChecksumAt
  cases pseudoProtocol sock.type with
  | none => exact addresses
  | some prot =>
      obtain ⟨head, room, -, -⟩ := same.trans
        (pseudoProt_same prot (pseudoAddresses sock skb))
      apply (pseudoProt_inside prot addresses (same.roomy roomy)).store
      · rw [head]
        exact above
      · rw [head, room, length_checksumField]
        exact below

section Segment

variable (memory : Nat → UInt8) (head : Nat) (sock : Socket) (flags : Nat)
  (data : List UInt8)

/-- The fields of a TCP header in front of its checksum. -/
def tcpHeaderFront : List UInt8 :=
  (tcpFields sock flags []).flatten

theorem length_tcpHeaderFront : (tcpHeaderFront sock flags).length = 16 := by
  simp [tcpHeaderFront, tcpFields]

theorem tcpHeaderWith_front (checksum : List UInt8) :
    tcpHeaderWith checksum sock flags [] =
      tcpHeaderFront sock flags ++ checksum ++ [0, 0] := by
  simp [tcpHeaderFront, tcpFields, tcpHeaderWith]

/-- The buffer with room for the TCP header. -/
def tcpReserved : HeapBuff :=
  { (skbAllocAt memory head 54 data.length).store (head + 54) data with
    data := head + 34
    size := data.length + 20 }

/-- The buffer before the checksum is calculated. -/
def tcpUnsummed : HeapBuff :=
  (tcpReserved memory head data).storeFields (head + 34)
    (tcpFields sock flags [] ++ [[0, 0], [0, 0], []])

variable (small : data.length + 54 ≤ 65535)

include small

theorem tcpBuffer_eq : tcpBuffer memory head sock flags data =
    pseudoChecksumAt sock
      (head + 34 + (tcpHeaderFront sock flags).length)
      (tcpUnsummed memory head sock flags data) := by
  have size : add16 (data.length % 2 ^ 16) 20 = data.length + 20 := by
    unfold add16
    omega
  rw [length_tcpHeaderFront, tcpUnsummed, tcpReserved, ← size]
  rfl

omit small in
theorem tcpUnsummed_fields :
    (tcpUnsummed memory head sock flags data).head = head ∧
      (tcpUnsummed memory head sock flags data).room =
        clearLow 2 (add32 (add32 54 data.length) 1) ∧
      (tcpUnsummed memory head sock flags data).data = head + 34 ∧
      (tcpUnsummed memory head sock flags data).size = data.length + 20 := by
  obtain ⟨sameHead, sameRoom, sameData, sameSize⟩ :=
    (tcpReserved memory head data).storeFields_same (head + 34)
      (tcpFields sock flags [] ++ [[0, 0], [0, 0], []])
  exact ⟨sameHead, sameRoom, sameData, sameSize⟩

omit small in
theorem tcpUnsummed_segment :
    (tcpUnsummed memory head sock flags data).segment =
      tcpHeaderFront sock flags ++ [0, 0] ++ ([0, 0] ++ data) := by
  obtain ⟨-, -, sameData, sameSize⟩ :=
    tcpUnsummed_fields memory head sock flags data
  have header : (tcpFields sock flags [] ++ [[0, 0], [0, 0], []]).flatten =
      tcpHeaderFront sock flags ++ [0, 0] ++ [0, 0] := by
    simp [tcpHeaderFront]
  have length : (tcpHeaderFront sock flags ++ [0, 0] ++ [0, 0]).length =
      20 := by
    simp [length_tcpHeaderFront]
  have front := slice_overlayAt (head + 34)
    (tcpHeaderFront sock flags ++ [0, 0] ++ [0, 0])
    (overlayAt (head + 54) data memory)
  have back := slice_overlayAt_of_disjoint
    (tcpHeaderFront sock flags ++ [0, 0] ++ [0, 0])
    (overlayAt (head + 54) data memory)
    (.inr (Nat.le_of_eq (congrArg (head + 34 + ·) length)) :
      head + 54 + data.length ≤ head + 34 ∨ _ ≤ head + 54)
  rw [length] at front
  rw [slice_overlayAt] at back
  rw [HeapBuff.segment, sameData, sameSize, tcpUnsummed,
    HeapBuff.storeFields_memory, header, Nat.add_comm data.length,
    ← slice_append]
  change slice (overlayAt _ _ (overlayAt _ _ memory)) _ _ ++
    slice (overlayAt _ _ (overlayAt _ _ memory)) _ _ = _
  rw [front, back]
  simp

/-- The segment in memory is that of the buffers without memory. -/
theorem tcpBuffer_segment (id : Nat) :
    (tcpBuffer memory head sock flags data).segment =
      (tcpSegment ⟨id, (ethHdrLen + ipHdrLen + tcpHdrLen : Nat), data,
        data.length % 2 ^ 16⟩ sock flags []).contents := by
  obtain ⟨-, -, sameData, -⟩ := tcpUnsummed_fields memory head sock flags data
  have unsummed := tcpUnsummed_segment memory head sock flags data
  have size : add16 (data.length % 2 ^ 16) 20 = data.length + 20 := by
    unfold add16
    omega
  have taken (checksum : List UInt8) (two : checksum.length = 2) :
      (TxBuff.push ⟨id, (ethHdrLen + ipHdrLen + tcpHdrLen : Nat), data,
        data.length % 2 ^ 16⟩
          (tcpHeaderWith checksum sock flags [])).contents =
        tcpHeaderFront sock flags ++ checksum ++ ([0, 0] ++ data) := by
    have length : (tcpHeaderWith checksum sock flags []).length = 20 := by
      simp [tcpHeaderWith_front, length_tcpHeaderFront, two]
    rw [TxBuff.push, TxBuff.contents, length, size]
    simp only
    rw [List.take_of_length_le, tcpHeaderWith_front]
    · simp
    · rw [List.length_append, length, Nat.add_comm]
  have summed := pseudoChecksumAt_segment sock
    (by rw [sameData, pseudoHdrLen]; omega) unsummed
  rw [sameData] at summed
  rw [tcpBuffer_eq memory head sock flags data small, summed, unsummed,
    tcpSegment, taken [0, 0] rfl,
    taken _ (length_pseudoCalculateChecksum sock _)]

theorem tcpBuffer_inside :
    (tcpBuffer memory head sock flags data).StoresInside := by
  obtain ⟨sameHead, sameRoom, sameData, sameSize⟩ :=
    tcpUnsummed_fields memory head sock flags data
  have room : clearLow 2 (add32 (add32 54 data.length) 1) =
      data.length + 54 + data.length % 2 := by
    have total : add32 54 data.length = 54 + data.length :=
      add32_of_lt (by omega)
    rw [total, add32_of_lt (by omega), clearLow]
    omega
  have copied : ((skbAllocAt memory head 54 data.length).store (head + 54)
      data).StoresInside := by
    have empty : (skbAllocAt memory head 54 data.length).StoresInside :=
      fun store member => absurd member List.not_mem_nil
    apply empty.store
    · exact Nat.le_add_right head 54
    · change head + 54 + data.length ≤ head + clearLow 2 _
      rw [room]
      omega
  have unsummed : (tcpUnsummed memory head sock flags data).StoresInside := by
    have reserved : (tcpReserved memory head data).StoresInside := copied
    apply reserved.storeFields
    · exact Nat.le_add_right head 34
    · have length : (tcpFields sock flags [] ++
          [[0, 0], [0, 0], []]).flatten.length = 20 := by
        simp [tcpFields]
      change head + 34 + _ ≤ head + clearLow 2 _
      rw [length, room]
      omega
  rw [tcpBuffer_eq memory head sock flags data small]
  apply pseudoChecksumAt_inside sock unsummed
  · constructor
    · rw [sameHead, sameData, pseudoHdrLen]
      omega
    · rw [sameHead, sameRoom, sameData, sameSize, room]
      omega
  · rw [sameHead]
    omega
  · rw [sameHead, sameRoom, room, length_tcpHeaderFront]
    omega

end Segment

/-- A segment with the pseudo header of its addresses adds up to all ones. -/
def SegmentVerifies (source destination : SockAddr) (segment : List UInt8) :
    Prop :=
  onesSum (2 ^ 16) (leWords
    (pseudoHeader protTcp segment.length source destination ++ segment)) =
      0xffff

/-- The segment in the buffer has the data behind its header and verifies, and
all stores were inside of the buffer. -/
structure Emitted (skb : HeapBuff) (source destination : SockAddr)
    (data : List UInt8) : Prop where
  inside : skb.StoresInside
  payload : skb.segment.drop tcpHdrLen = data
  verifies : SegmentVerifies source destination skb.segment

section Verify

variable (source destination : SockAddr)

/-- A checksum over a pseudo header makes the sum over this header all ones. -/
theorem onesSum_stored {before after : List UInt8}
    (even : before.length % 2 = 0)
    (short : (before ++ [0, 0] ++ after).length ≤ 65535) (prot size : Nat) :
    onesSum (2 ^ 16) (leWords
      (pseudoHeader prot size source destination ++
        (before ++ checksumField (pseudoHeader prot size source destination ++
          (before ++ [0, 0] ++ after)) ++ after))) = 0xffff := by
  have length := length_pseudoHeader prot size source destination
  have evenFront : (pseudoHeader prot size source destination ++
      before).length % 2 = 0 := by
    rw [List.length_append, length]
    omega
  simp only [List.length_append] at short
  have fits : (pseudoHeader prot size source destination ++ before ++
      [0, 0] ++ after).length ≤ 131072 := by
    simp only [List.length_append, length]
    omega
  have stored := netCalcChecksum_stored evenFront fits
  rw [netCalcChecksum_eq (by simp [length] at short ⊢; omega)] at stored
  simp only [List.append_assoc] at stored ⊢
  exact stored

theorem sum_pseudoHeader {prot : Nat} (small : prot < 256) (size : Nat)
    (segment : List UInt8) :
    (leWords (pseudoHeader prot size source destination ++ segment)).sum =
      prot * 256 +
        (leWords (pseudoHeader 0 size source destination ++ segment)).sum := by
  have addresses : (beBytes 4 source.addr ++
      beBytes 4 destination.addr).length % 2 = 0 := by simp
  have split (prot : Nat) :
      pseudoHeader prot size source destination ++ segment =
        (beBytes 4 source.addr ++ beBytes 4 destination.addr) ++
          (0 :: UInt8.ofNat prot :: (beBytes 2 size ++ segment)) := by
    simp [pseudoHeader]
  have byte : (UInt8.ofNat prot).toNat = prot := by
    rw [UInt8.toNat_ofNat', Nat.mod_eq_of_lt small]
  rw [split prot, split 0, leWords_append addresses, leWords_append addresses,
    leWords, leWords]
  simp only [List.sum_append, List.sum_cons, byte]
  simp
  omega

/-- The sums over the pseudo headers of TCP and of UDP are not both all
ones. -/
theorem not_verifies_of_udp {segment : List UInt8}
    (udp : onesSum (2 ^ 16) (leWords (pseudoHeader protUdp segment.length
      source destination ++ segment)) = 0xffff) :
    ¬SegmentVerifies source destination segment := by
  intro tcp
  have forUdp := (onesSum_reduces (by decide) (leWords_lt (pseudoHeader protUdp
    segment.length source destination ++ segment))).congruent
  have forTcp := (onesSum_reduces (by decide) (leWords_lt (pseudoHeader protTcp
    segment.length source destination ++ segment))).congruent
  rw [udp, sum_pseudoHeader _ _ (by decide)] at forUdp
  rw [tcp, sum_pseudoHeader _ _ (by decide)] at forTcp
  unfold Nat.ModEq protUdp at forUdp
  unfold Nat.ModEq protTcp at forTcp
  omega

end Verify

/-- A socket whose type has no checksum sends one of zero. -/
def ZeroVerifies (sock : Socket) (flags : Nat) (data : List UInt8) : Prop :=
  SegmentVerifies sock.source sock.destination
    (tcpHeaderWith [0, 0] sock flags [] ++ data)

section Emit

variable (memory : Nat → UInt8) (head : Nat) (sock : Socket) (flags : Nat)
  {data : List UInt8} (small : data.length + 54 ≤ 65535)

include small

theorem tcpBuffer_parts :
    (tcpBuffer memory head sock flags data).segment =
      tcpHeaderFront sock flags ++
        pseudoCalculateChecksum sock
          (tcpHeaderFront sock flags ++ [0, 0] ++ ([0, 0] ++ data)) ++
        ([0, 0] ++ data) := by
  obtain ⟨-, -, sameData, -⟩ := tcpUnsummed_fields memory head sock flags data
  have unsummed := tcpUnsummed_segment memory head sock flags data
  have segment := pseudoChecksumAt_segment sock
    (by rw [sameData, pseudoHdrLen]; omega) unsummed
  rw [sameData, ← tcpBuffer_eq memory head sock flags data small,
    unsummed] at segment
  exact segment

theorem tcpBuffer_payload :
    (tcpBuffer memory head sock flags data).segment.drop tcpHdrLen = data := by
  have header : tcpHdrLen = (tcpHeaderFront sock flags ++
      pseudoCalculateChecksum sock (tcpHeaderFront sock flags ++ [0, 0] ++
        ([0, 0] ++ data)) ++ [0, 0]).length := by
    simp [length_tcpHeaderFront, tcpHdrLen]
  rw [tcpBuffer_parts memory head sock flags small, ← List.append_assoc,
    header, List.drop_left]

theorem emitted_iff_verifies :
    Emitted (tcpBuffer memory head sock flags data) sock.source
        sock.destination data ↔
      SegmentVerifies sock.source sock.destination
        (tcpBuffer memory head sock flags data).segment := by
  constructor
  · exact Emitted.verifies
  · intro verifies
    exact ⟨tcpBuffer_inside memory head sock flags data small,
      tcpBuffer_payload memory head sock flags small, verifies⟩

/-- The sum over the pseudo header of the socket's type is all ones. -/
theorem onesSum_tcpBuffer {prot : Nat}
    (isProt : pseudoProtocol sock.type = some prot) :
    onesSum (2 ^ 16) (leWords
      (pseudoHeader prot (tcpBuffer memory head sock flags data).segment.length
        sock.source sock.destination ++
          (tcpBuffer memory head sock flags data).segment)) = 0xffff := by
  have front := length_tcpHeaderFront sock flags
  have length : (tcpHeaderFront sock flags ++ [0, 0] ++
      ([0, 0] ++ data)).length = data.length + 20 := by
    simp [front]
    omega
  have stored := onesSum_stored sock.source sock.destination (by rw [front])
    (by rw [length]; omega : (tcpHeaderFront sock flags ++ [0, 0] ++
      ([0, 0] ++ data)).length ≤ 65535) prot (data.length + 20)
  have same : (tcpBuffer memory head sock flags data).segment.length =
      data.length + 20 := by
    rw [tcpBuffer_parts memory head sock flags small]
    simp [front]
    omega
  rw [same, tcpBuffer_parts memory head sock flags small,
    pseudoCalculateChecksum, isProt]
  simp only [length]
  exact stored

end Emit

/-- The sockets whose segments verify: those of streams, and others but those
of datagrams where a checksum of zero happens to be right. -/
theorem tcpBuffer_emitted_iff (memory : Nat → UInt8) (head : Nat)
    (sock : Socket) (flags : Nat) (data : List UInt8)
    (small : data.length + 54 ≤ 65535) :
    Emitted (tcpBuffer memory head sock flags data) sock.source
        sock.destination data ↔
      sock.type = .stream ∨
        sock.type ≠ .dgram ∧ ZeroVerifies sock flags data := by
  have parts := tcpBuffer_parts memory head sock flags small
  have summed {prot : Nat} (isProt : pseudoProtocol sock.type = some prot) :=
    onesSum_tcpBuffer memory head sock flags small isProt
  have zero (none : pseudoProtocol sock.type = none) :
      (tcpBuffer memory head sock flags data).segment =
        tcpHeaderWith [0, 0] sock flags [] ++ data := by
    rw [parts, pseudoCalculateChecksum, none, tcpHeaderWith_front]
    simp
  rw [emitted_iff_verifies memory head sock flags small]
  cases type : sock.type with
  | stream =>
      have isTcp : pseudoProtocol sock.type = some protTcp := by
        rw [type]
        rfl
      have verifies := summed isTcp
      simp only [true_or, iff_true]
      exact verifies
  | dgram =>
      have isUdp : pseudoProtocol sock.type = some protUdp := by
        rw [type]
        rfl
      have verifies := summed isUdp
      simp only [reduceCtorEq, ne_eq, not_true_eq_false, false_and, or_self,
        iff_false]
      exact not_verifies_of_udp _ _ verifies
  | raw =>
      rw [zero (by rw [type]; rfl)]
      simp [ZeroVerifies]
  | other _ =>
      rw [zero (by rw [type]; rfl)]
      simp [ZeroVerifies]

/-- A socket that is to be connected to port 80 of a host. -/
def connecting (type : SockType) : Socket where
  type := type
  protocol := 0
  obstructFlags := 0
  txQu := []
  rxQu := []
  source := ⟨2, 50000, 0xc0a80002⟩
  destination := ⟨2, 80, 0xc0a80001⟩
  state := .closed
  seqNum := 1
  ackNum := 0

theorem tcpBuffer_emitted_iff_odd :
    Emitted (tcpBuffer (fun _ => 0) 100 (connecting .stream)
        (flgPsh ||| flgAck) [65]) (connecting .stream).source
      (connecting .stream).destination [65] :=
  (tcpBuffer_emitted_iff _ 100 (connecting .stream) (flgPsh ||| flgAck) [65]
    (by decide)).mpr (.inl rfl)

/-- A datagram socket that is connected sends a SYN with the checksum of
UDP. -/
theorem not_emitted_dgram :
    ¬∀ (memory : Nat → UInt8) (head : Nat) (sock : Socket) (flags : Nat)
      (data : List UInt8), data.length + 54 ≤ 65535 →
      Emitted (tcpBuffer memory head sock flags data) sock.source
        sock.destination data := by
  intro always
  have small : ([] : List UInt8).length + 54 ≤ 65535 := by decide
  have emitted := always (fun _ => 0) 100 (connecting .dgram) flgSyn [] small
  have isUdp : pseudoProtocol (connecting .dgram).type = some protUdp := rfl
  have udp := onesSum_tcpBuffer (fun _ => 0) 100 (connecting .dgram) flgSyn
    small isUdp
  exact not_verifies_of_udp _ _ udp emitted.verifies

end Witos.Net
