import Witos.Core.Sysconf
import Witos.Extra.Address
import Witos.Extra.Getopt
import Witos.Net.UdpRoundTrip

/-!
# Broadcast addresses

`ndev_config` of `driver/net/core/ndev.c` stores the address and the netmask as
`str_to_ip` has laid them out in memory.  `ip_is_bcast` compares the netmask
with an address in host byte order, so that its bytes stand the wrong way round.
-/

namespace Witos.Net

open Library Effect

/-- The fields of `struct net_device` that are configured; `ip` and `mask` are
the words that the machine stores. -/
structure NetDevice where
  ifxName : List UInt8
  ip : Nat
  mask : Nat
  macAddr : List UInt8
  deriving DecidableEq

/-- The device as the layers above it use it. -/
def NetDevice.device (ndev : NetDevice) : Device where
  ip := beValue (leBytes 4 ndev.ip)
  mask := ndev.mask
  mac := beValue ndev.macAddr

/-- `g_seed` of `lib/std/random.c` after a call of `random`. -/
def nextSeed (seed : Nat) : Nat :=
  (seed * 1103515245 + 12345) % 2 ^ 32

def random (seed : Nat) : Nat :=
  nextSeed seed / 2 ^ 16 % 2 ^ 15

def randomBytes : Nat → Nat → List UInt8
  | _, 0 => []
  | seed, count + 1 =>
      UInt8.ofNat (random seed) :: randomBytes (nextSeed seed) count

/-- `conf_get_attr`, unless it reads outside of the memory that is modelled. -/
def confGet (cfg : Core.Sysconfig) (attr : List UInt8) :
    Option (Option (List UInt8)) :=
  match Core.confGetAttr cfg attr with
  | .noData => some none
  | .value (_, val) => some (some val)
  | .outside => none

/-- The name of an attribute of a device. -/
def NetDevice.attr (ndev : NetDevice) (key : String) : List UInt8 :=
  Extra.bytesOf "net." ++ ndev.ifxName ++ Extra.bytesOf key

/-- `ndev_config`.  `behind` is the byte on the stack that `str_to_mac` looks
at. -/
def ndevConfig (cfg : Core.Sysconfig) (behind : UInt8) (ndevCount : Nat)
    (ndev : NetDevice) : Option NetDevice := do
  let address ← confGet cfg (ndev.attr ".address")
  let netmask ← confGet cfg (ndev.attr ".netmask")
  let mac ← confGet cfg (ndev.attr ".mac")
  some { ndev with
    ip := ((address.bind Extra.strToIp).map leValue).getD ndev.ip
    mask := ((netmask.bind Extra.strToIp).map leValue).getD ndev.mask
    macAddr := (mac.bind (Extra.strToMac behind)).getD
      ([0x20, 0x12] ++ randomBytes (ndevCount + 1) 4) }

/-- The configuration has dotted strings for the bytes of the address and of
the netmask. -/
structure Configures (cfg : Core.Sysconfig) (ndev : NetDevice)
    (address netmask : List UInt8) : Prop where
  address : ∃ str, confGet cfg (ndev.attr ".address") = some (some str) ∧
    Extra.Dotted str address
  netmask : ∃ str, confGet cfg (ndev.attr ".netmask") = some (some str) ∧
    Extra.Dotted str netmask

section Configured

variable {cfg : Core.Sysconfig} {behind : UInt8} {ndevCount : Nat}
  {ndev configured : NetDevice} {address netmask : List UInt8}
  (configures : Configures cfg ndev address netmask)
  (config : ndevConfig cfg behind ndevCount ndev = some configured)

include configures config

theorem ndevConfig_words : configured.ip = leValue address ∧
    configured.mask = leValue netmask := by
  obtain ⟨addrStr, addrFound, addrDotted⟩ := configures.address
  obtain ⟨maskStr, maskFound, maskDotted⟩ := configures.netmask
  rw [ndevConfig, addrFound, maskFound] at config
  simp only [Option.bind_eq_bind, Option.bind_some,
    Extra.strToIp_dotted addrDotted, Extra.strToIp_dotted maskDotted,
    Option.map_some, Option.getD_some] at config
  obtain ⟨mac, _, isConfigured⟩ := Option.bind_eq_some_iff.mp config
  obtain rfl := Option.some.inj isConfigured
  exact ⟨rfl, rfl⟩

theorem ndevConfig_ip : configured.device.ip = beValue address := by
  obtain ⟨str, _, dotted⟩ := configures.address
  have word := (ndevConfig_words configures config).1
  have length := dotted.length
  have bytes := leBytes_leValue address
  rw [length] at bytes
  rw [NetDevice.device, word, bytes]

end Configured

/-- What `ip_send_packet` hands to `ether_send_packet`. -/
def ipPacket (net : Stack) (skb : TxBuff) (source destination : SockAddr)
    (prot : Nat) : TxBuff :=
  skb.push
    (ipHeader (add16 skb.size ipHdrLen) net.ipId prot source destination)

section Send

variable {poll : NetM Unit} {net after : Stack} {skb : TxBuff}
  {source destination : SockAddr} {prot : Nat}

theorem ipSendPacket_bcast
    (bcast : ipIsBcast net.device destination.addr = true) :
    ipSendPacket poll skb source destination prot net =
      etherSendPacket (ipPacket net skb source destination prot) macBcast
        ethTypeIp net.numbered := by
  apply ipSendPacket_eq
  exact (if_pos bcast).mpr ⟨rfl, rfl⟩

theorem ipSendPacket_host
    (bcast : ¬ipIsBcast net.device destination.addr = true) {mac : Nat}
    (filled : macFillFromArp poll destination.addr net.numbered =
      .ok (some mac, after)) :
    ipSendPacket poll skb source destination prot net =
      etherSendPacket (ipPacket net skb source destination prot) mac
        ethTypeIp after := by
  apply ipSendPacket_eq
  exact (if_neg bcast).mpr filled

end Send

/-- Frames for an address go to everyone if it is a broadcast address, and else
to the MAC address that is found for it. -/
structure SendsTo (device : Device) (broadcast : Prop) (addr : Nat) :
    Prop where
  everyone : broadcast → ∀ (poll : NetM Unit) (skb : TxBuff)
    (source destination : SockAddr) (prot : Nat) (net : Stack),
    net.device = device → destination.addr = addr →
      ipSendPacket poll skb source destination prot net =
        etherSendPacket (ipPacket net skb source destination prot) macBcast
          ethTypeIp net.numbered
  host : ¬broadcast → ∀ (poll : NetM Unit) (skb : TxBuff)
    (source destination : SockAddr) (prot mac : Nat) (net after : Stack),
    net.device = device → destination.addr = addr →
      macFillFromArp poll addr net.numbered = .ok (some mac, after) →
      ipSendPacket poll skb source destination prot net =
        etherSendPacket (ipPacket net skb source destination prot) mac
          ethTypeIp after
  unresolved : ¬broadcast → ∀ (poll : NetM Unit) (skb : TxBuff)
    (source destination : SockAddr) (prot : Nat) (net after : Stack),
    net.device = device → destination.addr = addr →
      macFillFromArp poll addr net.numbered = .ok (none, after) →
      ipSendPacket poll skb source destination prot net = .ok (eIo, after)

/-- A stack that knows the MAC address 0 of an address, and a buffer with room
for both headers. -/
def zeroHost (device : Device) (addr : Nat) : Stack :=
  { Stack.initial device with hosts := [(addr, 0)] }

def emptyBuff : TxBuff := ⟨0, (ethHdrLen + ipHdrLen : Nat), [], 0⟩

theorem macFillFromArp_zero (poll : NetM Unit) (device : Device)
    (addr : Nat) :
    macFillFromArp poll addr (zeroHost device addr).numbered =
      .ok (some 0, (zeroHost device addr).numbered) := by
  have found : getaddr (zeroHost device addr).numbered addr = some 0 := by
    simp [getaddr, zeroHost, Stack.numbered]
  rw [macFillFromArp, run_bind run_get]
  simp only [found]
  rfl

theorem etherSendPacket_inj {net : Stack} {source destination : SockAddr}
    {prot type mac other : Nat}
    (same : etherSendPacket (ipPacket net emptyBuff source destination prot)
        mac type net.numbered =
      etherSendPacket (ipPacket net emptyBuff source destination prot)
        other type net.numbered) : beBytes 6 mac = beBytes 6 other := by
  have room (mac : Nat) :
      ((ipPacket net emptyBuff source destination prot).push
        (etherHeader net.numbered.device mac type)).room = 0 := by
    simp [ipPacket, emptyBuff, TxBuff.push, length_ipHeader,
      length_etherHeader, ethHdrLen, ipHdrLen]
  have contents (mac : Nat) :
      ((ipPacket net emptyBuff source destination prot).push
        (etherHeader net.numbered.device mac type)).contents.take 6 =
          beBytes 6 mac := by
    simp [ipPacket, emptyBuff, TxBuff.push, TxBuff.contents, length_ipHeader,
      add16, etherHeader, List.take_take]
  rw [etherSendPacket_eq (room mac), etherSendPacket_eq (room other)] at same
  have finals := (Prod.mk.inj (Except.ok.inj same)).2
  have last := List.singleton_inj.mp
    (List.append_cancel_left (congrArg Stack.sent finals))
  rw [← contents mac, last, contents other]

/-- The code does what it should for an address if its test says what is to be
tested. -/
theorem sendsTo_iff (device : Device) (broadcast : Prop) (addr : Nat) :
    SendsTo device broadcast addr ↔
      (ipIsBcast device addr = true ↔ broadcast) := by
  constructor
  · intro sends
    have differ : beBytes 6 0 ≠ beBytes 6 macBcast := by decide
    have known := macFillFromArp_zero (pure ()) device addr
    constructor
    · intro bcast
      by_contra single
      have toHost := sends.host single (pure ()) emptyBuff SockAddr.zero
        ⟨0, 0, addr⟩ 0 0 (zeroHost device addr) _ rfl rfl known
      rw [ipSendPacket_bcast bcast] at toHost
      exact differ (etherSendPacket_inj toHost.symm)
    · intro isBroadcast
      by_contra single
      have toAll := sends.everyone isBroadcast (pure ()) emptyBuff
        SockAddr.zero ⟨0, 0, addr⟩ 0 (zeroHost device addr) rfl rfl
      rw [ipSendPacket_host single known] at toAll
      exact differ (etherSendPacket_inj toAll)
  · intro same
    constructor
    · rintro isBroadcast poll skb source destination prot net rfl rfl
      exact ipSendPacket_bcast (same.mpr isBroadcast)
    · rintro single poll skb source destination prot mac net after rfl rfl
        filled
      exact ipSendPacket_host (fun bcast => single (same.mp bcast)) filled
    · rintro single poll skb source destination prot net after rfl rfl missing
      exact ipSendPacket_unresolved
        (fun bcast => single (same.mp bcast)) missing

/-- The address of the subnet with all bits of the host part set. -/
def directedBcast (address netmask : Nat) : Nat :=
  (address &&& netmask) ||| (2 ^ 32 - 1 - netmask)

/-- 255.255.255.255 or the directed broadcast address. -/
def IsBroadcast (address netmask addr : Nat) : Prop :=
  addr = 2 ^ 32 - 1 ∨ addr = directedBcast address netmask

theorem or_ones {word : Nat} (small : word < 2 ^ 32) :
    word ||| (2 ^ 32 - 1) = 2 ^ 32 - 1 := by
  apply Nat.eq_of_testBit_eq
  intro bit
  rw [Nat.testBit_or, Nat.testBit_two_pow_sub_one]
  by_cases low : bit < 32
  · simp [low]
  · have high : word < 2 ^ bit :=
      Nat.lt_of_lt_of_le small (Nat.pow_le_pow_right (by decide) (by omega))
    simp [low, Nat.testBit_lt_two_pow high]

/-- The destinations for which a frame is addressed right: 255.255.255.255, the
directed broadcast address if it has ones where the reversed netmask has
zeros, and the others if they do not. -/
theorem ndevConfig_sendsTo_iff {cfg : Core.Sysconfig} {behind : UInt8}
    {ndevCount : Nat} {ndev configured : NetDevice}
    {address netmask : List UInt8}
    (configures : Configures cfg ndev address netmask)
    (config : ndevConfig cfg behind ndevCount ndev = some configured)
    (addr : Nat) :
    SendsTo configured.device
        (IsBroadcast (beValue address) (beValue netmask) addr) addr ↔
      addr = 2 ^ 32 - 1 ∨
        (leValue netmask ||| addr = 2 ^ 32 - 1 ↔
          addr = directedBcast (beValue address) (beValue netmask)) := by
  have mask : configured.device.mask = leValue netmask :=
    (ndevConfig_words configures config).2
  have tests : ipIsBcast configured.device addr = true ↔
      leValue netmask ||| addr = 2 ^ 32 - 1 := by
    rw [ipIsBcast, mask, decide_eq_true_eq]
  have small : leValue netmask < 2 ^ 32 := by
    obtain ⟨str, _, dotted⟩ := configures.netmask
    have bound := leValue_lt netmask
    rw [dotted.length] at bound
    exact bound
  rw [sendsTo_iff, tests]
  unfold IsBroadcast
  by_cases ones : addr = 2 ^ 32 - 1
  · simp only [ones, true_or, iff_true]
    exact or_ones small
  · simp only [ones, false_or]

def lanConfig : Core.Sysconfig where
  text := Extra.bytesOf
    "net.e.address=192.168.0.2\nnet.e.netmask=255.255.255.0\n"
  before := 0
  behind := 0
  offset := 0

def lanDevice : NetDevice :=
  ⟨Extra.bytesOf "e", 0, 0, []⟩

/-- The device with a MAC address of its own. -/
def lanConfigured : NetDevice :=
  ⟨Extra.bytesOf "e", 0x0200a8c0, 0x00ffffff,
    [0x20, 0x12, 198, 126, 129, 107]⟩

theorem ndevConfig_lan : ndevConfig lanConfig 0 0 lanDevice =
    some lanConfigured := by decide +kernel

theorem isDecimal_zero : Extra.IsDecimal (Extra.bytesOf "0") 0 :=
  ⟨by decide +kernel, by decide +kernel, by decide +kernel⟩

theorem isDecimal_full : Extra.IsDecimal (Extra.bytesOf "255") 255 :=
  ⟨by decide +kernel, by decide +kernel, by decide +kernel⟩

theorem configures_lan :
    Configures lanConfig lanDevice [192, 168, 0, 2] [255, 255, 255, 0] := by
  have network : Extra.IsDecimal (Extra.bytesOf "192") 192 :=
    ⟨by decide +kernel, by decide +kernel, by decide +kernel⟩
  have subnet : Extra.IsDecimal (Extra.bytesOf "168") 168 :=
    ⟨by decide +kernel, by decide +kernel, by decide +kernel⟩
  have host : Extra.IsDecimal (Extra.bytesOf "2") 2 :=
    ⟨by decide +kernel, by decide +kernel, by decide +kernel⟩
  constructor
  · exact ⟨Extra.bytesOf "192.168.0.2", by decide +kernel, _, _, _, _, _, _, _,
      _, rfl, network, subnet, isDecimal_zero, host, rfl⟩
  · exact ⟨Extra.bytesOf "255.255.255.0", by decide +kernel, _, _, _, _, _, _,
      _, _, rfl, isDecimal_full, isDecimal_full, isDecimal_full,
      isDecimal_zero, rfl⟩

theorem ndevConfig_sendsTo_iff_host :
    SendsTo lanConfigured.device
      (IsBroadcast (beValue [192, 168, 0, 2]) (beValue [255, 255, 255, 0])
        0xc0a80001) 0xc0a80001 :=
  (ndevConfig_sendsTo_iff configures_lan ndevConfig_lan _).mpr
    (.inr (by decide))

/-- A frame for 192.168.0.255 is not sent to everyone. -/
theorem not_sendsTo_directed :
    ¬∀ (cfg : Core.Sysconfig) (behind : UInt8) (ndevCount : Nat)
      (ndev configured : NetDevice) (address netmask : List UInt8)
      (addr : Nat), Configures cfg ndev address netmask →
      ndevConfig cfg behind ndevCount ndev = some configured →
      addr < 2 ^ 32 →
      SendsTo configured.device
        (IsBroadcast (beValue address) (beValue netmask) addr) addr := by
  intro always
  have sends := always _ _ _ _ _ _ _ 0xc0a800ff configures_lan ndevConfig_lan
    (by decide)
  rw [sendsTo_iff] at sends
  exact absurd (sends.mpr (.inr (by decide))) (by decide)

end Witos.Net
