import Witos.Extra.Address
import Witos.Net.SentFrames
import Witos.Net.Tftp

/-!
# The request of the TFTP client

`tftp_download` and `tftp_upload` of `lib/net/tftp.c` up to their loops.  Both
pass an address to `bind` that is cleared but for `sin_addr`, so that its family
is 0, while `bind` knows no family besides `AF_INET`.
-/

namespace Witos.Tftp

open Library Library.Effect Net

def tftpRrq : Nat := 1
def tftpWrq : Nat := 2

/-- `octet`. -/
def tftpModeOctet : List UInt8 := [0x6f, 0x63, 0x74, 0x65, 0x74]

/-- `netacsii`, as the command spells it. -/
def tftpModeNetascii : List UInt8 :=
  [0x6e, 0x65, 0x74, 0x61, 0x63, 0x73, 0x69, 0x69]

def fileNameSize : Nat := 256
def maxModeLen : Nat := 12
def stdPortTftp : Nat := 69
def inaddrAny : Nat := 0

/-- The strings of `struct tftp_opt`; `server` is what `src` points to in a
download, and `dst` in an upload. -/
structure RequestOpt where
  fileName : List UInt8
  mode : List UInt8
  server : List UInt8

/-- `opt->mode[0] ? opt->mode : TFTP_MODE_OCTET`. -/
def RequestOpt.sentMode (opt : RequestOpt) : List UInt8 :=
  if opt.mode = [] then tftpModeOctet else opt.mode

/-- `tftp_make_req`: the buffer and the length. -/
def tftpMakeReq (buff : Nat → UInt8) (req : Nat)
    (fileName mode : List UInt8) : (Nat → UInt8) × Nat :=
  let buff := overlayAt 0 (beBytes 2 req) buff
  let len := 2
  let buff := overlayAt len (fileName ++ [0]) buff
  let len := len + fileName.length
  let buff := overlayAt len [0] buff
  let len := len + 1
  let buff := overlayAt len (mode ++ [0]) buff
  let len := len + mode.length
  let buff := overlayAt len [0] buff
  let len := len + 1
  (buff, len)

/-- The bytes that `str_to_ip` stores, also if it fails in the end. -/
def storedIp : List UInt8 → Nat → Nat → List UInt8
  | [], dot, num => if dot < 3 ∨ 255 < num then [] else [UInt8.ofNat num]
  | char :: str, dot, num =>
      if Extra.isDigit char then
        storedIp str dot ((10 * num + (char.toNat - 0x30)) % 2 ^ 32)
      else if char = Extra.fullStop ∧ num ≤ 255 ∧ dot < 3 then
        UInt8.ofNat num :: storedIp str (dot + 1) 0
      else []

/-- `remote_addr`. -/
def remoteAddr (server : List UInt8) : SockAddr where
  family := 0
  port := stdPortTftp
  addr := beValue (slice (overlay (storedIp server 0 0) fun _ => 0) 0 4)

/-- `local_addr`. -/
def localAddr : SockAddr := { SockAddr.zero with addr := inaddrAny }

/-- Where control is: behind the function, or at its loop. -/
inductive Requesting where
  | returned (ret : Int)
  | looping (sockfd : Nat) (ret : Int) (buf : Nat → UInt8)

/-- The label `L1`. -/
def leave (sockfd : Nat) (ret : Int) : NetM Requesting := do
  let _ ← skClose ndevPoll sockfd
  pure (.returned ret)

/-- From `tftp_make_req` on. -/
def emitRequest (sockfd req : Nat) (opt : RequestOpt) (buf : Nat → UInt8) :
    NetM Requesting := do
  let made := tftpMakeReq buf req opt.fileName opt.sentMode
  let ret ← sendto ndevPoll sockfd (slice made.1 0 made.2)
    (remoteAddr opt.server)
  if ret < 0 then leave sockfd ret
  else pure (.looping sockfd ret made.1)

/-- From `bind` on. -/
def bindRequest (sockfd req : Nat) (opt : RequestOpt) (buf : Nat → UInt8) :
    NetM Requesting := do
  let ret ← bind sockfd localAddr
  if ret < 0 then leave sockfd ret
  else emitRequest sockfd req opt buf

/-- `tftp_download` up to its loop. -/
def tftpDownloadRequest (junk : Socket) (opt : RequestOpt)
    (buf : Nat → UInt8) : NetM Requesting := do
  let sockfd ← socket junk .dgram 0
  if sockfd ≤ 0 then pure (.returned eIo)
  else bindRequest sockfd.toNat tftpRrq opt buf

/-- `tftp_upload` up to its loop.  `src` says whether `opt->src` is set, and
`fd` is what `open` returns for it. -/
def tftpUploadRequest (src : Bool) (fd : Int) (junk : Socket)
    (opt : RequestOpt) (buf : Nat → UInt8) : NetM Requesting := do
  if src then
    let sockfd ← socket junk .dgram 0
    if sockfd ≤ 0 then pure (.returned eIo)
    else if fd < 0 then leave sockfd.toNat fd
    else bindRequest sockfd.toNat tftpWrq opt buf
  else pure (.returned eInval)

inductive RequestCall where
  | download
  | upload (src : Bool) (fd : Int)

def RequestCall.req : RequestCall → Nat
  | .download => tftpRrq
  | .upload _ _ => tftpWrq

def RequestCall.run (junk : Socket) (opt : RequestOpt) (buf : Nat → UInt8) :
    RequestCall → NetM Requesting
  | .download => tftpDownloadRequest junk opt buf
  | .upload src fd => tftpUploadRequest src fd junk opt buf

/-- The opcode, the file name and the mode with their terminators. -/
def requestBytes (req : Nat) (opt : RequestOpt) : List UInt8 :=
  beBytes 2 req ++ (opt.fileName ++ [0]) ++ (opt.sentMode ++ [0])

/-- A frame with a datagram to the TFTP port of a host, and nothing behind
it. -/
structure ToTftpPort (ip : Nat) (data frame : List UInt8) : Prop where
  carries : ∃ source, Carries (Frame.ofBytes frame).memory source
    ⟨0, stdPortTftp, ip⟩ data
  host : ipDestination (Frame.ofBytes frame).memory ethHdrLen = ip
  length : frame.length = data.length + 42

/-- Of all frames that are sent one has a datagram.  It goes to the TFTP port of
the host, and its data fit in the buffer. -/
structure Requested (ip : Nat) (data : List UInt8) (net final : Stack) :
    Prop where
  sends : ∃ before frame after,
    final.sent = net.sent ++ (before ++ frame :: after) ∧
      ToTftpPort ip data frame ∧
        ∀ other ∈ before ++ after, ¬IsDatagram other
  fits : data.length ≤ tftpBufLen

/-- The call sends its request before it is at its loop. -/
def Requests (call : RequestCall) (junk : Socket) (opt : RequestOpt)
    (buf : Nat → UInt8) (ip : Nat) (net : Stack) : Prop :=
  ∃ result final, call.run junk opt buf net = .ok (result, final) ∧
    Requested ip (requestBytes call.req opt) net final

/-- The file that is uploaded can be opened. -/
def RequestCall.Opens : RequestCall → Prop
  | .download => True
  | .upload src fd => src = true ∧ 0 ≤ fd

/-- The options are accepted, a descriptor is free, and the calls to other parts
succeed. -/
structure Ready (call : RequestCall) (opt : RequestOpt) (ip : Nat)
    (net : Stack) : Prop where
  fileName : 0 ∉ opt.fileName ∧ opt.fileName.length < fileNameSize
  mode : opt.mode ∈ [[], tftpModeOctet, tftpModeNetascii]
  server : ∃ bytes, Extra.Dotted opt.server bytes ∧ ip = beValue bytes
  descriptor : ∃ fd, 0 < fd ∧ fd < maxSockNum ∧ net.socks fd = none
  allocates : ∀ ok ∈ net.mallocs, ok = true
  known : (getaddr net ip).isSome
  opens : call.Opens

theorem overlayAt_terminated (offset : Nat) (string : List UInt8)
    (memory : Nat → UInt8) :
    overlayAt (offset + string.length) [0]
        (overlayAt offset (string ++ [0]) memory) =
      overlayAt offset (string ++ [0]) memory := by
  rw [← overlayAt_append, overlayAt_overlayAt _ (Nat.le_refl _)]

/-- Nothing else is written to the buffer, whatever it holds. -/
theorem tftpMakeReq_eq (buff : Nat → UInt8) (req : Nat) (opt : RequestOpt) :
    tftpMakeReq buff req opt.fileName opt.sentMode =
      (overlayAt 0 (requestBytes req opt) buff,
        (requestBytes req opt).length) := by
  have first : overlayAt 2 (opt.fileName ++ [0])
      (overlayAt 0 (beBytes 2 req) buff) =
        overlayAt 0 (beBytes 2 req ++ (opt.fileName ++ [0])) buff := by
    have joined := overlayAt_append 0 (beBytes 2 req) (opt.fileName ++ [0])
      buff
    rw [length_beBytes, Nat.zero_add] at joined
    exact joined
  have place : 2 + opt.fileName.length + 1 =
      0 + (beBytes 2 req ++ (opt.fileName ++ [0])).length := by
    simp
    omega
  have length : 2 + opt.fileName.length + 1 + opt.sentMode.length + 1 =
      (requestBytes req opt).length := by
    simp [requestBytes]
    omega
  unfold tftpMakeReq
  dsimp only
  rw [overlayAt_terminated, overlayAt_terminated, first, length, place,
    overlayAt_append]
  rfl

theorem requestBytes_length_le {req : Nat} {opt : RequestOpt}
    (fileName : opt.fileName.length < fileNameSize)
    (mode : opt.mode.length < maxModeLen) :
    (requestBytes req opt).length ≤ tftpBufLen := by
  have sent : opt.sentMode.length < maxModeLen := by
    unfold RequestOpt.sentMode
    split
    · decide
    · exact mode
  simp only [requestBytes, List.length_append, length_beBytes,
    List.length_singleton]
  simp only [fileNameSize, maxModeLen] at fileName sent
  simp only [tftpBufLen, tftpPktLen, tftpHdrLen]
  omega

/-- What `str_to_ip` gives is what it has stored. -/
theorem storedIp_of_strToIpLoop {str ipVal bytes : List UInt8} {num : Nat}
    (read : Extra.strToIpLoop str ipVal num = some bytes) :
    bytes = ipVal ++ storedIp str ipVal.length num := by
  induction str generalizing ipVal num with
  | nil =>
      rw [Extra.strToIpLoop] at read
      rw [storedIp]
      split at read
      · cases read
      · rename_i inside
        rw [if_neg inside]
        exact (Option.some.inj read).symm
  | cons char str induction =>
      rw [Extra.strToIpLoop] at read
      rw [storedIp]
      split at read
      · rename_i digit
        rw [if_pos digit]
        exact induction read
      · rename_i other
        rw [if_neg other]
        split at read
        · rename_i dot
          have later := induction read
          rw [List.length_append, List.length_singleton] at later
          rw [if_pos dot, later, List.append_assoc]
          rfl
        · cases read

theorem remoteAddr_dotted {server bytes : List UInt8}
    (dotted : Extra.Dotted server bytes) :
    remoteAddr server = ⟨0, stdPortTftp, beValue bytes⟩ := by
  have stored : bytes = storedIp server 0 0 :=
    storedIp_of_strToIpLoop (Extra.strToIp_dotted dotted)
  have length := dotted.length
  rw [remoteAddr, ← stored, slice_overlay _ (by omega), List.drop_zero,
    ← length, List.take_length]

theorem toTftpPort_udpFrame {device : Device} {mac id ipId ip : Nat}
    {source : SockAddr} {data : List UInt8} (sourceRange : source.InRange)
    (range : ip < 2 ^ 32) (small : data.length + 42 ≤ 65535) :
    ToTftpPort ip data (udpFrame device mac id ipId source
      ⟨0, stdPortTftp, ip⟩ data).contents := by
  have contents := udpFrame_contents device mac id ipId source
    ⟨0, stdPortTftp, ip⟩ small
  have bytes := slice_ofBytes (udpFrame device mac id ipId source
    ⟨0, stdPortTftp, ip⟩ data).contents
  have whole := bytes.trans contents
  constructor
  · rw [← List.append_nil (etherHeader _ _ _ ++ _)] at whole
    have port : stdPortTftp < 2 ^ 16 := by decide
    exact ⟨source, carries_of_slice sourceRange ⟨port, range⟩ small whole⟩
  · have read := field_of_parts (etherHeader device mac ethTypeIp ++
      [0x45, 0] ++ beBytes 2 (data.length + 28) ++ beBytes 2 ipId ++
      beBytes 2 0x4000 ++ [64, UInt8.ofNat protUdp] ++ checksumField
        (ipHeaderWith [0, 0] (data.length + 28) ipId protUdp source
          ⟨0, stdPortTftp, ip⟩) ++ beBytes 4 source.addr) _ range
      (whole.trans (by simp [ipHeader, ipHeaderWith]; rfl))
    simpa [ipDestination, ethHdrLen] using read
  · rw [contents]
    simp [length_udpHeader]
    omega

/-- Behind a `bind` that succeeds the request would be sent. -/
theorem emitRequest_requested {net resolved : Stack} {sockfd mac req : Nat}
    {sock : Socket} {opt : RequestOpt} {bytes : List UInt8}
    (fileName : opt.fileName.length < fileNameSize)
    (mode : opt.mode.length < maxModeLen)
    (dotted : Extra.Dotted opt.server bytes)
    (opened : getSock net sockfd = some sock) (dgram : sock.type = .dgram)
    (sourceRange : sock.source.InRange)
    (allocates : ∀ ok ∈ net.mallocs, ok = true)
    (resolves : Resolves ndevPoll (beValue bytes)
      (net.aimed sockfd (remoteAddr opt.server)).allocated.numbered mac
        resolved) (buf : Nat → UInt8) :
    ∃ result final, emitRequest sockfd req opt buf net =
        .ok (result, final) ∧
      Requested (beValue bytes) (requestBytes req opt) net final := by
  have fits : (requestBytes req opt).length ≤ tftpBufLen :=
    requestBytes_length_le fileName mode
  have small : (requestBytes req opt).length + 42 ≤ 65535 := by
    simp only [tftpBufLen, tftpPktLen, tftpHdrLen] at fits
    omega
  have range : beValue bytes < 2 ^ 32 := by
    have below := beValue_lt bytes
    rw [dotted.length] at below
    exact below
  have aims := remoteAddr_dotted dotted
  have data : slice (tftpMakeReq buf req opt.fileName opt.sentMode).1 0
      (tftpMakeReq buf req opt.fileName opt.sentMode).2 =
        requestBytes req opt := by
    rw [tftpMakeReq_eq]
    exact slice_overlayAt 0 _ buf
  rw [aims] at resolves
  obtain ⟨final, sends, sent⟩ := sendto_eq (requestBytes req opt) opened dgram
    allocates resolves
  have resolving : NoDatagrams net resolved := resolves.noDatagrams
  obtain ⟨before, isResolved, none⟩ := resolving
  have emits : emitRequest sockfd req opt buf net = .ok (.looping sockfd
      (requestBytes req opt).length
      (tftpMakeReq buf req opt.fileName opt.sentMode).1, final) := by
    have positive : ¬((requestBytes req opt).length : Int) < 0 := by omega
    unfold emitRequest
    rw [data, aims, run_bind sends, if_neg positive]
    rfl
  rw [isResolved, List.append_assoc] at sent
  refine ⟨_, final, emits, ⟨⟨before, _, [], sent,
    toTftpPort_udpFrame sourceRange range small, ?_⟩, fits⟩⟩
  intro other member
  rw [List.append_nil] at member
  exact none other member

theorem bind_localAddr_wp (sockfd : Nat) (net : Stack) :
    wp (bind sockfd localAddr) net
      (fun ret final => NoDatagrams net final ∧ ret < 0) anyHalt := by
  have unknown : ¬localAddr.family = afInet := by decide
  unfold Net.bind
  rw [wp_bind, wp_get]
  cases getSock net sockfd with
  | none => exact ⟨noDatagrams_chained.refl net, by decide⟩
  | some sock =>
      dsimp only
      rw [wp_bind, modifySock, wp_modify, if_neg unknown]
      exact ⟨noDatagrams_of_eq rfl, by decide⟩

theorem leave_silent (sockfd : Nat) (ret : Int) : Silent (leave sockfd ret) :=
  (skClose_silent sockfd).thenPure _

/-- No request is made behind `bind`. -/
theorem bindRequest_silent (sockfd req : Nat) (opt : RequestOpt)
    (buf : Nat → UInt8) : Silent (bindRequest sockfd req opt buf) := by
  intro net holds
  rw [bindRequest, wp_bind]
  apply (bind_localAddr_wp sockfd net).mono
  · rintro ret middle ⟨before, fails⟩
    rw [if_pos fails]
    exact (leave_silent sockfd ret).after noDatagrams_chained holds before
  · exact fun _ stopped => stopped

theorem RequestCall.run_silent (call : RequestCall) (junk : Socket)
    (opt : RequestOpt) (buf : Nat → UInt8) :
    Silent (call.run junk opt buf) := by
  have chained := noDatagrams_chained
  have returns (ret : Int) : Silent (pure (Requesting.returned ret)) :=
    Keeps.pure chained _
  cases call with
  | download =>
      refine Keeps.bind chained (socket_silent junk .dgram 0) fun sockfd => ?_
      exact Keeps.ite (returns eIo) (bindRequest_silent _ _ opt buf)
  | upload src fd =>
      refine Keeps.ite ?_ (returns eInval)
      refine Keeps.bind chained (socket_silent junk .dgram 0) fun sockfd => ?_
      exact Keeps.ite (returns eIo) (Keeps.ite (leave_silent _ fd)
        (bindRequest_silent _ _ opt buf))

theorem not_requested {ip : Nat} {data : List UInt8} {net final : Stack}
    (silent : NoDatagrams net final) : ¬Requested ip data net final := by
  rintro ⟨⟨before, frame, after, sent, request, -⟩, -⟩
  obtain ⟨frames, sent', none⟩ := silent
  obtain ⟨source, carries⟩ := request.carries
  have same : frames = before ++ frame :: after :=
    List.append_cancel_left (sent'.symm.trans sent)
  have member : frame ∈ frames := by simp [same]
  exact none frame member carries.isDatagram

/-- The request is never sent. -/
theorem not_requests (call : RequestCall) (junk : Socket) (opt : RequestOpt)
    (buf : Nat → UInt8) (ip : Nat) (net : Stack) :
    ¬Requests call junk opt buf ip net := by
  rintro ⟨result, final, outcome, requested⟩
  have silent := wp_of_ok (call.run_silent junk opt buf net trivial) outcome
  exact not_requested silent requested

/-- A download of `a` from 192.168.0.2. -/
def sampleOpt : RequestOpt where
  fileName := [0x61]
  mode := []
  server := [0x31, 0x39, 0x32] ++ Extra.fullStop :: ([0x31, 0x36, 0x38] ++
    Extra.fullStop :: ([0x30] ++ Extra.fullStop :: [0x32]))

theorem sampleOpt_dotted :
    Extra.Dotted sampleOpt.server [0xc0, 0xa8, 0x00, 0x02] := by
  have decimal (digits : List UInt8) (byte : UInt8)
      (holds : digits ≠ [] ∧ digits.all Extra.isDigit = true ∧
        Extra.decimalFrom 0 digits = byte.toNat) :
      Extra.IsDecimal digits byte :=
    ⟨holds.1, List.all_eq_true.mp holds.2.1, holds.2.2⟩
  exact ⟨_, _, _, _, _, _, _, _, rfl, decimal _ _ (by decide),
    decimal _ _ (by decide), decimal _ _ (by decide),
    decimal _ _ (by decide), rfl⟩

theorem sampleOpt_ready :
    Ready .download sampleOpt 0xc0a80002 knownHost where
  fileName := ⟨by decide, by decide⟩
  mode := by decide
  server := ⟨_, sampleOpt_dotted, by decide⟩
  descriptor := ⟨1, by decide, by decide, rfl⟩
  allocates := nofun
  known := rfl
  opens := trivial

/-- `bind` refuses the address. -/
theorem not_requests_sample :
    ¬∀ (call : RequestCall) (junk : Socket) (opt : RequestOpt)
      (buf : Nat → UInt8) (ip : Nat) (net : Stack),
      Ready call opt ip net → Requests call junk opt buf ip net := by
  intro always
  let junk : Socket := { boundSocket with state := .closed }
  obtain ⟨result, final, outcome, requested⟩ := always .download junk
    sampleOpt (fun _ => 0) 0xc0a80002 knownHost sampleOpt_ready
  have refused : ∃ final, RequestCall.download.run junk sampleOpt (fun _ => 0)
      knownHost = .ok (.returned eNotSupp, final) ∧
        final.sent = knownHost.sent :=
    ⟨_, rfl, rfl⟩
  obtain ⟨other, isOther, same⟩ := refused
  have finals := (Prod.mk.inj (Except.ok.inj (isOther.symm.trans outcome))).2
  rw [finals] at same
  exact not_requested (noDatagrams_of_eq same) requested

end Witos.Tftp
