/-
`Parser` once more, with the loads of the source as they are: a pointer
and a size, and no check of their own.

`loadAt` fails on a read that leaves the frame, which is what the source
must never do; the guards are the source's comparisons and carry nothing.
`Vnic.Parser` is the same pass with each guard as the proof of the load
behind it.
-/
import Vnic.Parser

namespace Vnic

/-- `LoadUnaligned<T>(data.data() + off)` for a `T` of `n` bytes; `none`
is a read outside the frame. -/
def loadAt (n : Nat) (data : Frame) (off : Nat) : Option (Bytes n) :=
  if h : off + n ≤ data.length then some (loadUnaligned n data off h)
  else none

namespace RawParser

/-- The transport switch of `parseIpv4` and `parseIpv6`. -/
def parseL4 (icmpProto : UInt8) (data : Frame) (l4Offset : Nat)
    (protocol : UInt8) (p : Parser) : Option (Parser × Res) :=
  if protocol = 6 then
    if data.length < l4Offset + 20 then some (p, .error .parseTcpTooShort)
    else do
      let tcp ← loadAt 20 data l4Offset
      return ({ p with
          l3 := { p.l3 with protocol := .tcp, tcp := some ⟨tcp⟩ } }, .ok ())
  else if protocol = 17 then
    if data.length < l4Offset + 8 then some (p, .error .parseUdpTooShort)
    else do
      let udp ← loadAt 8 data l4Offset
      return ({ p with
          l3 := { p.l3 with protocol := .udp, udp := some ⟨udp⟩ } }, .ok ())
  else if protocol = icmpProto then
    if data.length < l4Offset + 8 then some (p, .error .parseIcmpTooShort)
    else do
      let icmp ← loadAt 8 data l4Offset
      return ({ p with
          l3 := { p.l3 with protocol := .icmp, icmp := some ⟨icmp⟩ } },
        .ok ())
  else some ({ p with l3 := { p.l3 with protocol := .unknown } }, .ok ())

/-- `parseIpv4(data, offset)`. -/
def parseIpv4 (data : Frame) (offset : Nat) (p : Parser) :
    Option (Parser × Res) :=
  if data.length < offset + 20 then some (p, .error .parseIpv4TooShort)
  else do
    let raw ← loadAt 20 data offset
    let ipHeader : IpHdr := ⟨raw⟩
    if ipHeader.version ≠ 4 then some (p, .error .parseInvalidIpv4Version)
    else
      let p := { p with
        l2 := { p.l2 with protocol := .ipv4, ip := some ipHeader } }
      if ipHeader.ihl * 4 < 20 then
        some (p, .error .parseInvalidIpv4HeaderLength)
      else
        parseL4 1 data (offset + ipHeader.ihl * 4) ipHeader.protocol p

/-- `parseIpv6(data, offset)`. -/
def parseIpv6 (data : Frame) (offset : Nat) (p : Parser) :
    Option (Parser × Res) :=
  if data.length < offset + 40 then some (p, .error .parseIpv6TooShort)
  else do
    let raw ← loadAt 40 data offset
    let ip6Header : Ipv6Hdr := ⟨raw⟩
    if ip6Header.version ≠ 6 then some (p, .error .parseInvalidIpv6Version)
    else
      let p := { p with
        l2 := { p.l2 with protocol := .ipv6, ip6 := some ip6Header } }
      parseL4 58 data (offset + 40) ip6Header.nexthdr p

/-- `parseArp(data, offset)`. -/
def parseArp (data : Frame) (offset : Nat) (p : Parser) :
    Option (Parser × Res) :=
  if data.length < offset + 8 then some (p, .error .parseArpTooShort)
  else do
    let raw ← loadAt 8 data offset
    let arp : ArpHdr := ⟨raw⟩
    if data.length < offset + (8 + 2 * (arp.arHln + arp.arPln)) then
      some (p, .error .parseInvalidArpHeaderLength)
    else
      let p := { p with
        l2 := { p.l2 with protocol := .arp, arp := some arp } }
      if arp.arHln = 6 ∧ arp.arPln = 4 then do
        let senderHw ← loadAt 6 data (offset + 8)
        let targetHw ← loadAt 6 data (offset + 8 + 10)
        let senderProto ← loadAt 4 data (offset + 8 + 6)
        let targetProto ← loadAt 4 data (offset + 8 + 16)
        return ({ p with
            arpSenderHw := senderHw
            arpTargetHw := targetHw
            arpSenderProto := senderProto
            arpTargetProto := targetProto
            hasArpAddresses := true }, .ok ())
      else some (p, .ok ())

/-- The L2 switch of `parse`. -/
def parseL2 (data : Frame) (etherType offset : Nat) (p : Parser) :
    Option (Parser × Res) :=
  let p := { p with l2Offset := offset }
  if etherType = 0x0800 then parseIpv4 data offset p
  else if etherType = 0x86DD then parseIpv6 data offset p
  else if etherType = 0x0806 then parseArp data offset p
  else
    some ({ p with l2 := { p.l2 with protocol := .unknown } },
      .error .parseUnsupportedEtherType)

/-- `parse(data)`. -/
def parse (data : Frame) (p : Parser) : Option (Parser × Res) :=
  let p := p.reset
  if data.length < 14 then some (p, .error .parseEthernetTooShort)
  else do
    let raw ← loadAt 14 data 0
    let eth : EthHdr := ⟨raw⟩
    let p := { p with l1 := { p.l1 with protocol := .eth, eth := some eth } }
    let etherType := ntohs eth.hProto
    if etherType = 0x8100 ∨ etherType = 0x88A8 then
      if data.length < 14 + 4 then some (p, .error .parseTruncated)
      else do
        let tci ← loadAt 2 data 14
        let p := { p with
          l1 := { p.l1 with
            protocol := .vlan
            vlanId := UInt16.ofNat (ntohs tci % 4096)
            vlanPcp := UInt8.ofNat (ntohs tci / 8192 % 8) } }
        let inner ← loadAt 2 data 16
        parseL2 data (ntohs inner) 18 p
    else parseL2 data etherType 14 p

end RawParser

end Vnic
