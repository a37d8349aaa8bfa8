import Witos.Library.Bytes
import Witos.Library.Effect
import Witos.Library.Word

/-!
# State of the network stack

The static variables of `driver/net/core/net.c`, `lib/net/socket.c` and
`driver/net/core/skb.c`, and what the code finds outside of itself: the frames
that the device receives, the keys on the console and the outcomes of `malloc`.

Ports and IPv4 addresses are the numbers that their network byte order
denotes; the netmask of the device is the word the source compares with such a
number.  `sock_buff` structures have an identity, so that two of them with
equal contents are still two.
-/

namespace Witos.Net

open Library

/-- A received `sock_buff`: the memory from `head` on, the offset of `data`
in it, and the 16-bit `size`. -/
structure SockBuff where
  id : Nat
  memory : Nat → UInt8
  data : Nat
  size : Nat

/-- The bytes `[data, data + size)`. -/
def SockBuff.payload (skb : SockBuff) : List UInt8 :=
  slice skb.memory skb.data skb.size

/-- A `sock_buff` under construction: the distance from `head` to `data`, the
bytes from `data` on, and the 16-bit `size`. -/
structure TxBuff where
  id : Nat
  room : Int
  bytes : List UInt8
  size : Nat

/-- What `send_packet` of the device transmits. -/
def TxBuff.contents (skb : TxBuff) : List UInt8 :=
  skb.bytes.take skb.size

/-- `data -= length; size += length`, and the header is filled in. -/
def TxBuff.push (skb : TxBuff) (header : List UInt8) : TxBuff :=
  { skb with
    room := skb.room - header.length
    bytes := header ++ skb.bytes
    size := add16 skb.size header.length }

structure SockAddr where
  family : Nat
  port : Nat
  addr : Nat
  deriving DecidableEq

def SockAddr.zero : SockAddr := ⟨0, 0, 0⟩

inductive SockType where
  | stream
  | dgram
  | raw
  | other (type : Int)
  deriving DecidableEq

/-- `enum tcp_state`; `other` is what an uninitialised field may hold. -/
inductive TcpState where
  | closed
  | listen
  | synSent
  | synRcvd
  | established
  | closeWait
  | finWait1
  | closing
  | lastAck
  | finWait2
  | timeWait
  | other (word : Nat)
  deriving DecidableEq

structure Socket where
  type : SockType
  protocol : Int
  obstructFlags : Int
  txQu : List SockBuff
  rxQu : List SockBuff
  source : SockAddr
  destination : SockAddr
  state : TcpState
  seqNum : Nat
  ackNum : Nat

structure Device where
  ip : Nat
  mask : Nat
  mac : Nat

/-- A frame in the memory of a new `sock_buff`; what follows the `length`
received bytes is whatever the heap holds there. -/
structure Frame where
  memory : Nat → UInt8
  length : Nat

/-- The frame in a buffer of the driver, which allocates no room for headers. -/
def Frame.buffer (frame : Frame) (id : Nat) : SockBuff :=
  ⟨id, frame.memory, 0, frame.length % 2 ^ 16⟩

def Frame.ofBytes (bytes : List UInt8) : Frame :=
  ⟨fun index => bytes.getD index 0, bytes.length⟩

/-- The static variables `g_sock_fds`, `g_host_list` (addresses with their MAC),
`ip_id` and `port`; what the device receives, where `none` ends one poll of it;
what each `uart_read` finds; whether each `malloc` succeeds and what each
`send_packet` returns (success after the end of the lists); the buffers given
to `skb_free` and the frames given to `send_packet`. -/
structure Stack where
  socks : Nat → Option Socket
  hosts : List (Nat × Nat)
  device : Device
  ipId : Nat
  port : Nat
  wire : List (Option Frame)
  keys : List (Option UInt8)
  mallocs : List Bool
  results : List Int
  nextId : Nat
  freed : List Nat
  sent : List (List UInt8)

/-- The static variables before the first packet. -/
def Stack.initial (device : Device) : Stack where
  socks _ := none
  hosts := []
  device := device
  ipId := 1
  port := 50000
  wire := []
  keys := []
  mallocs := []
  results := []
  nextId := 0
  freed := []
  sent := []

/-- Why the loader does not go on: a `BUG()` of `tcp_layer_deliver`, a null or
dangling pointer, or a loop without a bound that still waits.  `excluded` is no
outcome of the code: it ends runs under an assumption that is not met. -/
inductive Halt where
  | bug
  | fault
  | waiting
  | excluded
  deriving DecidableEq

abbrev NetM := Effect Stack Halt

def ctrlC : UInt8 := 3

def eIo : Int := -5
def eNoMem : Int := -12
def eInval : Int := -22
def eNoDev : Int := -19
def eNoEnt : Int := -2
def eBusy : Int := -16
def eTimedOut : Int := -110
def eNotSupp : Int := -524

/-- `g_sock_fds[fd]` changed in place. -/
def Stack.updateSock (net : Stack) (fd : Nat) (change : Socket → Socket) :
    Stack :=
  { net with
    socks := fun other =>
      if other = fd then (net.socks fd).map change else net.socks other }

theorem Stack.updateSock_self {net : Stack} {fd : Nat} {sock : Socket}
    (found : net.socks fd = some sock) (change : Socket → Socket) :
    (net.updateSock fd change).socks fd = some (change sock) := by
  simp [Stack.updateSock, found]

theorem Stack.updateSock_of_ne (net : Stack) {fd other : Nat}
    (different : other ≠ fd) (change : Socket → Socket) :
    (net.updateSock fd change).socks other = net.socks other := by
  simp [Stack.updateSock, different]

def modifySock (fd : Nat) (change : Socket → Socket) : NetM Unit :=
  modify (fun net => net.updateSock fd change)

/-- A socket pointer followed. -/
def sockAt (fd : Nat) : NetM Socket := do
  match (← get).socks fd with
  | none => throw Halt.fault
  | some sock => pure sock

theorem sockAt_eq {net : Stack} {fd : Nat} {sock : Socket}
    (found : net.socks fd = some sock) :
    sockAt fd net = .ok (sock, net) := by
  rw [sockAt, Effect.run_bind Effect.run_get]
  simp only [found]
  rfl

def uartRead : NetM (Option UInt8) := do
  let net ← get
  set { net with keys := net.keys.tail }
  pure (net.keys.head?.getD none)

def malloc : NetM Bool := do
  let net ← get
  set { net with mallocs := net.mallocs.tail }
  pure (net.mallocs.head?.getD true)

/-- `skb_alloc` for a packet with `protLen` bytes of headers, with the data
that its caller copies to `data`.  When the second `malloc` fails the first
block is not given back. -/
def skbAlloc (protLen : Nat) (data : List UInt8) :
    NetM (Option TxBuff) := do
  if ← malloc then
    if ← malloc then
      let net ← get
      set { net with nextId := net.nextId + 1 }
      pure (some {
        id := net.nextId
        room := protLen
        bytes := data
        size := data.length % 2 ^ 16 })
    else pure none
  else pure none

/-- The stack after an allocation of a buffer. -/
def Stack.allocated (net : Stack) : Stack :=
  { net with
    mallocs := net.mallocs.tail.tail
    nextId := net.nextId + 1 }

/-- Both calls of `malloc` in `skb_alloc` succeed. -/
def Stack.allocates (net : Stack) : Bool :=
  net.mallocs.head?.getD true && net.mallocs.tail.head?.getD true

theorem malloc_run (net : Stack) :
    malloc net = .ok (net.mallocs.head?.getD true,
      { net with mallocs := net.mallocs.tail }) :=
  rfl

theorem skbAlloc_some {net : Stack} (allocates : net.allocates = true)
    (protLen : Nat) (data : List UInt8) :
    skbAlloc protLen data net =
      .ok (some ⟨net.nextId, protLen, data, data.length % 2 ^ 16⟩,
        net.allocated) := by
  obtain ⟨first, second⟩ := Bool.and_eq_true_iff.mp allocates
  rw [skbAlloc, Effect.run_bind (malloc_run net), if_pos first,
    Effect.run_bind (malloc_run _), if_pos second]
  rfl

theorem skbAlloc_none {net : Stack} (fails : net.allocates = false)
    (protLen : Nat) (data : List UInt8) :
    ∃ mallocs, skbAlloc protLen data net =
      .ok (none, { net with mallocs := mallocs }) := by
  rw [skbAlloc, Effect.run_bind (malloc_run net)]
  by_cases first : net.mallocs.head?.getD true = true
  · rw [if_pos first, Effect.run_bind (malloc_run _)]
    have second : ¬ net.mallocs.tail.head?.getD true = true := by
      intro second
      rw [Stack.allocates, first, second] at fails
      cases fails
    exact ⟨_, by rw [if_neg second]; rfl⟩
  · exact ⟨_, by rw [if_neg first]; rfl⟩

def skbFree (id : Nat) : NetM Unit :=
  modify (fun net => { net with freed := net.freed ++ [id] })

def listAddTail (skb : SockBuff) (fd : Nat) : NetM Unit :=
  modifySock fd (fun sock => { sock with rxQu := sock.rxQu ++ [skb] })

def maxSockNum : Nat := 32

def searchSocket (net : Stack) (matching : Socket → Bool) : Option Nat :=
  (List.range' 1 (maxSockNum - 1)).find? (fun fd =>
    (net.socks fd).any matching)

theorem searchSocket_matches {net : Stack} {matching : Socket → Bool}
    {fd : Nat} (found : searchSocket net matching = some fd) :
    ∃ sock, net.socks fd = some sock ∧ matching sock = true := by
  have holds := List.find?_some found
  cases sock : net.socks fd with
  | none => simp [sock] at holds
  | some entry =>
      rw [sock] at holds
      exact ⟨entry, rfl, holds⟩

theorem searchSocket_isSome {net : Stack} {matching : Socket → Bool}
    {fd : Nat} (found : searchSocket net matching = some fd) :
    (net.socks fd).isSome := by
  obtain ⟨sock, present, -⟩ := searchSocket_matches found
  rw [present]
  rfl

def tcpSearchSocket (net : Stack) (port : Nat) : Option Nat :=
  searchSocket net (fun sock => sock.type = .stream && sock.source.port = port)

def udpSearchSocket (net : Stack) (port : Nat) : Option Nat :=
  searchSocket net (fun sock => sock.type = .dgram && sock.source.port = port)

def icmpSearchSocket (net : Stack) (ip : Nat) : Option Nat :=
  searchSocket net (fun sock =>
    sock.type = .raw && sock.destination.addr = ip)

def protEth : Int := 10

def arpSearchSocket (net : Stack) (ip : Nat) : Option Nat :=
  searchSocket net (fun sock =>
    sock.type = .raw && sock.protocol = protEth && sock.destination.addr = ip)

section Found

variable {net : Stack} {port ip fd : Nat}

theorem tcpSearchSocket_port (found : tcpSearchSocket net port = some fd) :
    ∃ sock, net.socks fd = some sock ∧ sock.type = .stream ∧
      sock.source.port = port := by
  obtain ⟨sock, present, holds⟩ := searchSocket_matches found
  simp only [Bool.and_eq_true, decide_eq_true_eq] at holds
  exact ⟨sock, present, holds⟩

theorem tcpSearchSocket_stream (found : tcpSearchSocket net port = some fd) :
    ∃ sock, net.socks fd = some sock ∧ sock.type = .stream := by
  obtain ⟨sock, present, type, -⟩ := tcpSearchSocket_port found
  exact ⟨sock, present, type⟩

theorem udpSearchSocket_dgram (found : udpSearchSocket net port = some fd) :
    ∃ sock, net.socks fd = some sock ∧ sock.type = .dgram := by
  obtain ⟨sock, present, holds⟩ := searchSocket_matches found
  simp only [Bool.and_eq_true, decide_eq_true_eq] at holds
  exact ⟨sock, present, holds.1⟩

theorem icmpSearchSocket_raw (found : icmpSearchSocket net ip = some fd) :
    ∃ sock, net.socks fd = some sock ∧ sock.type = .raw := by
  obtain ⟨sock, present, holds⟩ := searchSocket_matches found
  simp only [Bool.and_eq_true, decide_eq_true_eq] at holds
  exact ⟨sock, present, holds.1⟩

theorem arpSearchSocket_raw (found : arpSearchSocket net ip = some fd) :
    ∃ sock, net.socks fd = some sock ∧ sock.type = .raw := by
  obtain ⟨sock, present, holds⟩ := searchSocket_matches found
  simp only [Bool.and_eq_true, decide_eq_true_eq] at holds
  exact ⟨sock, present, holds.1.1⟩

end Found

def getaddr (net : Stack) (ip : Nat) : Option Nat :=
  (net.hosts.find? (fun host => host.1 = ip)).map Prod.snd

end Witos.Net
