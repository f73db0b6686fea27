/-
`Parser`: one pass over an Ethernet frame, and the 5-tuple read off the
result.

# Headers

A header is the block of bytes the source copies out of the frame, with
the fields the source reads as accessors over it. The load carries its
bounds proof, so every guard of the source that precedes a load is needed
for the definition to be accepted.

# State

`parse` resets the parser and then fills it in as it goes; on failure the
parser keeps what was parsed up to there. Only a prior `reset` makes the
result independent of the frames seen before.

# Text

`MacToString` prints through `snprintf`. `formatHex` is one `%0<width>x` as
the C standard defines it: lower-case digits, no more than the value
needs, with zeros in front up to the width.
-/
import Vnic.Basic

namespace Vnic

-- ============================================================== headers

/-- `ethhdr`. -/
structure EthHdr where
  raw : Bytes 14
  deriving DecidableEq

/-- `iphdr`. -/
structure IpHdr where
  raw : Bytes 20
  deriving DecidableEq

/-- `ipv6hdr`. -/
structure Ipv6Hdr where
  raw : Bytes 40
  deriving DecidableEq

/-- `arphdr`. -/
structure ArpHdr where
  raw : Bytes 8
  deriving DecidableEq

/-- `icmphdr`. -/
structure IcmpHdr where
  raw : Bytes 8
  deriving DecidableEq

/-- `tcphdr`. -/
structure TcpHdr where
  raw : Bytes 20
  deriving DecidableEq

/-- `udphdr`. -/
structure UdpHdr where
  raw : Bytes 8
  deriving DecidableEq

/-- `h_dest`. -/
def EthHdr.hDest (h : EthHdr) : Bytes 6 := h.raw.slice 0 6 (by decide)

/-- `h_proto`. -/
def EthHdr.hProto (h : EthHdr) : Bytes 2 := h.raw.slice 12 2 (by decide)

/-- `version`: the high half of the first byte. -/
def IpHdr.version (h : IpHdr) : Nat := (h.raw.get 0).toNat / 16

/-- `ihl`: the low half of the first byte. -/
def IpHdr.ihl (h : IpHdr) : Nat := (h.raw.get 0).toNat % 16

/-- `tot_len`. -/
def IpHdr.totLen (h : IpHdr) : Bytes 2 := h.raw.slice 2 2 (by decide)

/-- `protocol`. -/
def IpHdr.protocol (h : IpHdr) : UInt8 := h.raw.get 9

/-- `saddr`. -/
def IpHdr.saddr (h : IpHdr) : Bytes 4 := h.raw.slice 12 4 (by decide)

/-- `daddr`. -/
def IpHdr.daddr (h : IpHdr) : Bytes 4 := h.raw.slice 16 4 (by decide)

/-- `version`. -/
def Ipv6Hdr.version (h : Ipv6Hdr) : Nat := (h.raw.get 0).toNat / 16

/-- `nexthdr`. -/
def Ipv6Hdr.nexthdr (h : Ipv6Hdr) : UInt8 := h.raw.get 6

/-- `saddr`. -/
def Ipv6Hdr.saddr (h : Ipv6Hdr) : Bytes 16 := h.raw.slice 8 16 (by decide)

/-- `daddr`. -/
def Ipv6Hdr.daddr (h : Ipv6Hdr) : Bytes 16 := h.raw.slice 24 16 (by decide)

/-- `ar_hln`. -/
def ArpHdr.arHln (h : ArpHdr) : Nat := (h.raw.get 4).toNat

/-- `ar_pln`. -/
def ArpHdr.arPln (h : ArpHdr) : Nat := (h.raw.get 5).toNat

/-- `source`. -/
def TcpHdr.source (h : TcpHdr) : Bytes 2 := h.raw.slice 0 2 (by decide)

/-- `dest`. -/
def TcpHdr.dest (h : TcpHdr) : Bytes 2 := h.raw.slice 2 2 (by decide)

/-- `source`. -/
def UdpHdr.source (h : UdpHdr) : Bytes 2 := h.raw.slice 0 2 (by decide)

/-- `dest`. -/
def UdpHdr.dest (h : UdpHdr) : Bytes 2 := h.raw.slice 2 2 (by decide)

-- ======================================================== parser state

/-- `Parser::L1Protocol`. -/
inductive L1Protocol
  | none
  | eth
  | vlan
  | unknown
  deriving DecidableEq, Repr

/-- `Parser::L2Protocol`. -/
inductive L2Protocol
  | none
  | ipv4
  | ipv6
  | arp
  | unknown
  deriving DecidableEq, Repr

/-- `Parser::L3Protocol`. -/
inductive L3Protocol
  | none
  | icmp
  | tcp
  | udp
  | unknown
  deriving DecidableEq, Repr

/-- `Parser::L1`. -/
structure L1 where
  protocol : L1Protocol := .none
  eth : Option EthHdr := .none
  vlanId : UInt16 := 0
  vlanPcp : UInt8 := 0
  deriving DecidableEq

/-- `Parser::L2`. -/
structure L2 where
  protocol : L2Protocol := .none
  ip : Option IpHdr := .none
  ip6 : Option Ipv6Hdr := .none
  arp : Option ArpHdr := .none
  deriving DecidableEq

/-- `Parser::L3`. -/
structure L3 where
  protocol : L3Protocol := .none
  icmp : Option IcmpHdr := .none
  tcp : Option TcpHdr := .none
  udp : Option UdpHdr := .none
  deriving DecidableEq

/-- A block of zero bytes. -/
def Bytes.zero (n : Nat) : Bytes n := List.Vector.replicate n 0

/-- `Parser`. -/
structure Parser where
  l1 : L1 := {}
  l2 : L2 := {}
  l3 : L3 := {}
  l2Offset : Nat := 0
  arpSenderHw : Bytes 6 := Bytes.zero 6
  arpTargetHw : Bytes 6 := Bytes.zero 6
  arpSenderProto : Bytes 4 := Bytes.zero 4
  arpTargetProto : Bytes 4 := Bytes.zero 4
  hasArpAddresses : Bool := false
  deriving DecidableEq

namespace Parser

/-- `reset()`. -/
def reset (_ : Parser) : Parser := {}

-- ============================================================== parsing

/-- The transport switch of `parseIpv4` and `parseIpv6`; they differ in
the ICMP protocol number. -/
def parseL4 (icmpProto : UInt8) (data : Frame) (l4Offset : Nat)
    (protocol : UInt8) (p : Parser) : Parser × Res :=
  if protocol = 6 then
    if h : data.length < l4Offset + 20 then (p, .error .parseTcpTooShort)
    else
      ({ p with
          l3 := { p.l3 with
            protocol := .tcp
            tcp := some ⟨loadUnaligned 20 data l4Offset (by omega)⟩ } },
        .ok ())
  else if protocol = 17 then
    if h : data.length < l4Offset + 8 then (p, .error .parseUdpTooShort)
    else
      ({ p with
          l3 := { p.l3 with
            protocol := .udp
            udp := some ⟨loadUnaligned 8 data l4Offset (by omega)⟩ } },
        .ok ())
  else if protocol = icmpProto then
    if h : data.length < l4Offset + 8 then (p, .error .parseIcmpTooShort)
    else
      ({ p with
          l3 := { p.l3 with
            protocol := .icmp
            icmp := some ⟨loadUnaligned 8 data l4Offset (by omega)⟩ } },
        .ok ())
  else ({ p with l3 := { p.l3 with protocol := .unknown } }, .ok ())

/-- `parseIpv4(data, offset)`. -/
def parseIpv4 (data : Frame) (offset : Nat) (p : Parser) : Parser × Res :=
  if h : data.length < offset + 20 then (p, .error .parseIpv4TooShort)
  else
    let ipHeader : IpHdr := ⟨loadUnaligned 20 data offset (by omega)⟩
    if ipHeader.version ≠ 4 then (p, .error .parseInvalidIpv4Version)
    else
      let p := { p with
        l2 := { p.l2 with protocol := .ipv4, ip := some ipHeader } }
      if ipHeader.ihl * 4 < 20 then
        (p, .error .parseInvalidIpv4HeaderLength)
      else
        parseL4 1 data (offset + ipHeader.ihl * 4) ipHeader.protocol p

/-- `parseIpv6(data, offset)`. -/
def parseIpv6 (data : Frame) (offset : Nat) (p : Parser) : Parser × Res :=
  if h : data.length < offset + 40 then (p, .error .parseIpv6TooShort)
  else
    let ip6Header : Ipv6Hdr := ⟨loadUnaligned 40 data offset (by omega)⟩
    if ip6Header.version ≠ 6 then (p, .error .parseInvalidIpv6Version)
    else
      let p := { p with
        l2 := { p.l2 with protocol := .ipv6, ip6 := some ip6Header } }
      parseL4 58 data (offset + 40) ip6Header.nexthdr p

/-- `parseArp(data, offset)`. -/
def parseArp (data : Frame) (offset : Nat) (p : Parser) : Parser × Res :=
  if h : data.length < offset + 8 then (p, .error .parseArpTooShort)
  else
    let arp : ArpHdr := ⟨loadUnaligned 8 data offset (by omega)⟩
    if h' : data.length < offset + (8 + 2 * (arp.arHln + arp.arPln)) then
      (p, .error .parseInvalidArpHeaderLength)
    else
      let p := { p with
        l2 := { p.l2 with protocol := .arp, arp := some arp } }
      if hlen : arp.arHln = 6 ∧ arp.arPln = 4 then
        have hroom : offset + 8 + 20 ≤ data.length := by
          rw [hlen.1, hlen.2] at h'
          omega
        ({ p with
            arpSenderHw := loadUnaligned 6 data (offset + 8) (by omega)
            arpTargetHw := loadUnaligned 6 data (offset + 8 + 10) (by omega)
            arpSenderProto := loadUnaligned 4 data (offset + 8 + 6) (by omega)
            arpTargetProto :=
              loadUnaligned 4 data (offset + 8 + 16) (by omega)
            hasArpAddresses := true }, .ok ())
      else (p, .ok ())

/-- The L2 switch of `parse`. -/
def parseL2 (data : Frame) (etherType offset : Nat) (p : Parser) :
    Parser × Res :=
  let p := { p with l2Offset := offset }
  if etherType = 0x0800 then parseIpv4 data offset p
  else if etherType = 0x86DD then parseIpv6 data offset p
  else if etherType = 0x0806 then parseArp data offset p
  else
    ({ p with l2 := { p.l2 with protocol := .unknown } },
      .error .parseUnsupportedEtherType)

/-- `parse(data)`. -/
def parse (data : Frame) (p : Parser) : Parser × Res :=
  let p := p.reset
  if h : data.length < 14 then (p, .error .parseEthernetTooShort)
  else
    let eth : EthHdr := ⟨loadUnaligned 14 data 0 (by omega)⟩
    let p := { p with l1 := { p.l1 with protocol := .eth, eth := some eth } }
    let etherType := ntohs eth.hProto
    if etherType = 0x8100 ∨ etherType = 0x88A8 then
      if h' : data.length < 14 + 4 then (p, .error .parseTruncated)
      else
        let tci := ntohs (loadUnaligned 2 data 14 (by omega))
        let p := { p with
          l1 := { p.l1 with
            protocol := .vlan
            vlanId := UInt16.ofNat (tci % 4096)
            vlanPcp := UInt8.ofNat (tci / 8192 % 8) } }
        let inner := ntohs (loadUnaligned 2 data 16 (by omega))
        parseL2 data inner 18 p
    else parseL2 data etherType 14 p

-- ============================================================ accessors

/-- `l1Protocol()`. -/
def l1Protocol (p : Parser) : L1Protocol := p.l1.protocol

/-- `eth()`. -/
def eth (p : Parser) : Option EthHdr :=
  if p.l1.protocol = .eth ∨ p.l1.protocol = .vlan then p.l1.eth else none

/-- `vlanId()`. -/
def vlanId (p : Parser) : UInt16 :=
  if p.l1.protocol = .vlan then p.l1.vlanId else 0

/-- `l2Protocol()`. -/
def l2Protocol (p : Parser) : L2Protocol := p.l2.protocol

/-- `ipv4()`. -/
def ipv4 (p : Parser) : Option IpHdr :=
  if p.l2.protocol = .ipv4 then p.l2.ip else none

/-- `ipv6()`. -/
def ipv6 (p : Parser) : Option Ipv6Hdr :=
  if p.l2.protocol = .ipv6 then p.l2.ip6 else none

/-- `arp()`. -/
def arp (p : Parser) : Option ArpHdr :=
  if p.l2.protocol = .arp then p.l2.arp else none

/-- `l3Protocol()`. -/
def l3Protocol (p : Parser) : L3Protocol := p.l3.protocol

/-- `icmp()`. -/
def icmp (p : Parser) : Option IcmpHdr :=
  if p.l3.protocol = .icmp then p.l3.icmp else none

/-- `tcp()`. -/
def tcp (p : Parser) : Option TcpHdr :=
  if p.l3.protocol = .tcp then p.l3.tcp else none

/-- `udp()`. -/
def udp (p : Parser) : Option UdpHdr :=
  if p.l3.protocol = .udp then p.l3.udp else none

end Parser

-- ============================================================== 5-tuple

/-- `FiveTuple`: addresses and ports in network order. -/
structure FiveTuple where
  version : UInt8 := 0
  saddr4 : Bytes 4 := Bytes.zero 4
  daddr4 : Bytes 4 := Bytes.zero 4
  saddr6 : Bytes 16 := Bytes.zero 16
  daddr6 : Bytes 16 := Bytes.zero 16
  sport : Bytes 2 := Bytes.zero 2
  dport : Bytes 2 := Bytes.zero 2
  iproto : UInt8 := 0
  deriving DecidableEq

/-- `FiveTuple::kIpv4`. -/
def FiveTuple.kIpv4 : UInt8 := 4

/-- `FiveTuple::kIpv6`. -/
def FiveTuple.kIpv6 : UInt8 := 6

/-- The port part of `Get5Tuple`. -/
def withPorts (parser : Parser) (tuple : FiveTuple) : FiveTuple :=
  match parser.l3Protocol with
  | .tcp =>
      match parser.tcp with
      | some tcp => { tuple with sport := tcp.source, dport := tcp.dest }
      | none => tuple
  | .udp =>
      match parser.udp with
      | some udp => { tuple with sport := udp.source, dport := udp.dest }
      | none => tuple
  | _ => tuple

/-- `Get5Tuple(parser)`. -/
def get5Tuple (parser : Parser) : FiveTuple :=
  match parser.ipv4 with
  | some ip =>
      withPorts parser
        { version := FiveTuple.kIpv4
          saddr4 := ip.saddr
          daddr4 := ip.daddr
          iproto := ip.protocol }
  | none =>
      match parser.ipv6 with
      | some ip6 =>
          withPorts parser
            { version := FiveTuple.kIpv6
              saddr6 := ip6.saddr
              daddr6 := ip6.daddr
              iproto := ip6.nexthdr }
      | none => {}

-- ================================================================ text

/-- `%0<width>x`. -/
def formatHex (width : Nat) (value : UInt32) : List UInt8 :=
  ((Nat.toDigits 16 value.toNat).map Char.toUInt8).leftpad width 48

/-- `snprintf(buf, size, ..)` of the formatted text: what does not fit is
cut off, and a NUL ends what is there. -/
def snprintf (size : Nat) (text : List UInt8) : List UInt8 :=
  text.take (size - 1) ++ [0]

/-- `MacToString(mac)`: the string made of `buf` ends before its NUL. -/
def macToString (mac : Bytes 6) : List UInt8 :=
  let buf := snprintf 18
    ([58].intercalate (mac.toList.map fun b => formatHex 2 b.toUInt32))
  buf.takeWhile (· != 0)

end Vnic
