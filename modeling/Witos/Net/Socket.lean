import Witos.Net.Receive

/-!
# The socket calls

`lib/net/socket.c` over the stack.  Every call that waits polls the device,
which is a parameter here.  Where a call uses the result of `skb_alloc` without
a test, a failed allocation is a fault.

A descriptor that is not positive is 0, and `junk` is what the memory of a new
socket holds before its fields are set.
-/

namespace Witos.Net

open Library

def getSock (net : Stack) (fd : Nat) : Option Socket :=
  if fd = 0 ∨ maxSockNum ≤ fd then none else net.socks fd

theorem socks_of_getSock {net : Stack} {fd : Nat} {sock : Socket}
    (opened : getSock net fd = some sock) : net.socks fd = some sock := by
  unfold getSock at opened
  split at opened
  · cases opened
  · exact opened

def portMin : Nat := 50000

def portAlloc : NetM Nat := do
  let net ← get
  let next := add16 net.port 1
  let port := if next < portMin then portMin else next
  set { net with port := port }
  pure port

/-- `tcp_wait_for_state`, with the number of rounds left. -/
def tcpWaitForState (poll : NetM Unit) (fd : Nat) (state : TcpState) :
    Nat → NetM Int
  | 0 => pure eTimedOut
  | rounds + 1 => do
      poll
      let sock ← sockAt fd
      if sock.state = state then pure 0
      else tcpWaitForState poll fd state rounds

/-- The loop of `sock_recv_packet`, which ends on `CTRL+C`, on a packet, or
after `timeout` rounds if `obstruct_flags` is 1. -/
def sockRecvLoop (poll : NetM Unit) (fd : Nat) :
    Nat → Int → NetM (Option SockBuff)
  | 0, _ => throw Halt.waiting
  | fuel + 1, timeout => do
      if (← uartRead) = some ctrlC then
        pure none
      else
        poll
        let sock ← sockAt fd
        match sock.rxQu with
        | skb :: rest =>
            modifySock fd (fun sock => { sock with rxQu := rest })
            pure (some skb)
        | [] =>
            if sock.obstructFlags = 1 then
              if timeout - 1 = 0 then pure none
              else sockRecvLoop poll fd fuel (timeout - 1)
            else sockRecvLoop poll fd fuel timeout

def sockRecvPacket (poll : NetM Unit) (fuel fd : Nat) :
    NetM (Option SockBuff) :=
  sockRecvLoop poll fd fuel 10000

def socket (junk : Socket) (type : SockType) (protocol : Int) :
    NetM Int := do
  let net ← get
  match (List.range' 1 (maxSockNum - 1)).find?
      (fun fd => (net.socks fd).isNone) with
  | none => pure eNoDev
  | some fd =>
      if ← malloc then
        let initial :=
          if type = .stream then
            { junk with state := .closed, seqNum := 1, ackNum := 0 }
          else junk
        let sock := { initial with
          type := type
          source := .zero
          destination := .zero
          txQu := []
          rxQu := []
          protocol := protocol }
        modify (fun net => { net with
          socks := fun other =>
            if other = fd then some sock else net.socks other })
        pure fd
      else pure eNoMem

def afInet : Nat := 2

def bind (fd : Nat) (addr : SockAddr) : NetM Int := do
  match getSock (← get) fd with
  | none => pure eInval
  | some _ =>
      modifySock fd (fun sock =>
        { sock with source := { sock.source with family := addr.family } })
      if addr.family = afInet then
        let port ← if addr.port = 0 then portAlloc else pure addr.port
        let net ← get
        let ip := if addr.addr = 0 then net.device.ip else addr.addr
        modifySock fd (fun sock =>
          { sock with source := { sock.source with port := port, addr := ip } })
        pure 0
      else pure eNotSupp

/-- Room for the Ethernet, IP and TCP headers. -/
def tcpRoom : Nat := ethHdrLen + ipHdrLen + tcpHdrLen

def connect (poll : NetM Unit) (fd : Nat) (addr : SockAddr) : NetM Int := do
  match getSock (← get) fd with
  | none => pure eNoEnt
  | some _ =>
      modifySock fd (fun sock => { sock with destination := addr })
      match ← skbAlloc tcpRoom [] with
      | none => throw Halt.fault
      | some skb =>
          tcpSendPacket poll skb fd flgSyn []
          setState fd .synSent
          let ret ← tcpWaitForState poll fd .established 100
          if ret < 0 then
            setState fd .closed
          pure ret

def send (poll : NetM Unit) (fd : Nat) (data : List UInt8) : NetM Int := do
  match getSock (← get) fd with
  | none => pure eInval
  | some sock =>
      if sock.state ≠ .established then
        pure eIo
      else
        match ← skbAlloc tcpRoom data with
        | none => throw Halt.fault
        | some skb =>
            tcpSendPacket poll skb fd (flgPsh + flgAck) []
            pure data.length

/-- `recv`: the result and the bytes that are copied. -/
def recv (poll : NetM Unit) (fuel fd count : Nat) :
    NetM (Int × List UInt8) := do
  match getSock (← get) fd with
  | none => pure (eNoEnt, [])
  | some sock =>
      if sock.state ≠ .established then
        pure (eIo, [])
      else
        match ← sockRecvPacket poll fuel fd with
        | none => pure (eIo, [])
        | some skb =>
            skbFree skb.id
            pure (min skb.size count, skb.payload.take count)

/-- `recvfrom`: the result, the bytes that are copied and the address. -/
def recvfrom (poll : NetM Unit) (fuel fd count : Nat) :
    NetM (Int × List UInt8 × SockAddr) := do
  match getSock (← get) fd with
  | none => pure (eInval, [], .zero)
  | some _ =>
      match ← sockRecvPacket poll fuel fd with
      | none => pure (0, [], .zero)
      | some skb =>
          let sock ← sockAt fd
          skbFree skb.id
          pure (min skb.size count, skb.payload.take count, sock.destination)

def sendto (poll : NetM Unit) (fd : Nat) (data : List UInt8)
    (addr : SockAddr) : NetM Int := do
  match getSock (← get) fd with
  | none => pure eInval
  | some sock =>
      modifySock fd (fun sock => { sock with destination := addr })
      if sock.type = .raw ∧ sock.protocol = protIcmp then
        match ← skbAlloc (ethHdrLen + ipHdrLen) data with
        | none => throw Halt.fault
        | some skb =>
            let _ ← ipSendPacket poll skb sock.source addr protIcmp
            pure data.length
      else if sock.type = .raw ∧ sock.protocol = protEth then
        arpSendPacket addr.addr none arpOpReq
        pure data.length
      else if sock.type = .raw ∨ sock.type = .dgram then
        match ← skbAlloc (ethHdrLen + ipHdrLen + udpHdrLen) data with
        | none => throw Halt.fault
        | some skb =>
            udpSendPacket poll skb sock.source addr
            pure data.length
      else pure data.length

/-- The `FIN` of `sk_close` and the wait for its acknowledgement. -/
def closeConnection (poll : NetM Unit) (fd : Nat) : NetM Int := do
  match ← skbAlloc tcpRoom [] with
  | none => throw Halt.fault
  | some skb =>
      tcpSendPacket poll skb fd (flgFin + flgAck) []
      let sock ← sockAt fd
      if sock.state = .closeWait then
        setState fd .lastAck
        tcpWaitForState poll fd .closed 100
      else
        setState fd .finWait1
        tcpWaitForState poll fd .timeWait 100

def releaseSocket (fd : Nat) : NetM Int := do
  let sock ← sockAt fd
  if sock.state = .closed then
    modify (fun net => { net with
      freed := net.freed ++ (sock.rxQu ++ sock.txQu).map SockBuff.id
      socks := fun other => if other = fd then none else net.socks other })
    pure 0
  else pure eInval

/-- `sk_close` from the wait in `TCPS_TIME_WAIT` on. -/
def finishClose (poll : NetM Unit) (fd : Nat) : NetM Int := do
  let sock ← sockAt fd
  if sock.state = .timeWait then
    let ret ← tcpWaitForState poll fd .closed 100
    if ret < 0 then
      setState fd .closed
    releaseSocket fd
  else releaseSocket fd

def skClose (poll : NetM Unit) (fd : Nat) : NetM Int := do
  match getSock (← get) fd with
  | none => pure eInval
  | some sock =>
      if sock.state = .established ∨ sock.state = .synRcvd ∨
          sock.state = .closeWait then
        let ret ← closeConnection poll fd
        if ret < 0 then pure ret else finishClose poll fd
      else finishClose poll fd

end Witos.Net
