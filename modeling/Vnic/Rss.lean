/-
`rss::soft`: the hash input, the three hash functions, and the
canonicalisation behind the symmetric mode.

The hash input is the list of the bytes `BuildHashInput` writes; the
source keeps them in a 36-byte array together with their number. Key
bytes are read by index: where the source indexes the key, its size has
been checked (`CalcHash` for Toeplitz, the size test for the others).
-/
import Vnic.Parser

namespace Vnic.Rss

/-- `rss::HashFunc`. -/
inductive HashFunc
  | none
  | toeplitz
  | simpleXor
  | crc32
  deriving DecidableEq, Repr

/-- `rss::Protocol`: a bit mask. -/
abbrev Protocol := UInt32

/-- `Protocol::IPV4`. -/
def Protocol.ipv4 : Protocol := 1

/-- `Protocol::IPV6`. -/
def Protocol.ipv6 : Protocol := 2

/-- `Protocol::TCP`. -/
def Protocol.tcp : Protocol := 4

/-- `Protocol::UDP`. -/
def Protocol.udp : Protocol := 8

/-- `Protocol::SCTP`. -/
def Protocol.sctp : Protocol := 16

/-- `rss::SymmetryMode`. -/
inductive SymmetryMode
  | none
  | asymmetric
  | symmetric
  deriving DecidableEq, Repr

/-- `kMinKeyBytes`. -/
def kMinKeyBytes : Nat := 40

/-- `kToeplitzKeyBytes`. -/
def kToeplitzKeyBytes : Nat := 40

-- ========================================================== hash input

/-- `HasIp(protocol)`. -/
def hasIp (p : Protocol) : Bool :=
  p &&& (Protocol.ipv4 ||| Protocol.ipv6) != 0

/-- `HasL4(protocol)`. -/
def hasL4 (p : Protocol) : Bool :=
  p &&& (Protocol.tcp ||| Protocol.udp ||| Protocol.sctp) != 0

/-- `BuildHashInput(tuple, protocol, out)`: the bytes written. -/
def buildHashInput (tuple : FiveTuple) (protocol : Protocol) :
    List UInt8 :=
  if hasIp protocol = false then []
  else
    (if tuple.version = FiveTuple.kIpv6
      then tuple.saddr6.toList ++ tuple.daddr6.toList
      else tuple.saddr4.toList ++ tuple.daddr4.toList)
    ++ (if hasL4 protocol
      then tuple.sport.toList ++ tuple.dport.toList else [])

-- ====================================================== hash functions

/-- The first eight key bytes, most significant first. -/
def keyPrefix (key : List UInt8) : UInt64 :=
  (key.take 8).foldl (fun acc b => acc <<< 8 ||| b.toUInt64) 0

/-- The bit loop over one input byte: window, byte and hash. -/
def toeplitzBits : Nat → UInt64 → UInt8 → UInt32 → UInt64 × UInt32
  | 0, window, _, hash => (window, hash)
  | n + 1, window, byte, hash =>
      let hash := if byte &&& 0x80 != 0 then
        hash ^^^ (window >>> 32).toUInt32 else hash
      toeplitzBits n (window <<< 1) (byte <<< 1) hash

/-- The byte loop of `key320_hash_calc`. -/
def toeplitzLoop (key : List UInt8) :
    List UInt8 → Nat → UInt64 → UInt32 → UInt32
  | [], _, _, hash => hash
  | byte :: rest, keyIndex, window, hash =>
      let (window, hash) := toeplitzBits 8 window byte hash
      let next : UInt8 :=
        if keyIndex < kToeplitzKeyBytes then key.getD keyIndex 0 else 0
      toeplitzLoop key rest (keyIndex + 1) (window ||| next.toUInt64) hash

/-- `key320_hash_calc(key, data, len)`. -/
def key320HashCalc (key data : List UInt8) : UInt32 :=
  toeplitzLoop key data 8 (keyPrefix key) 0

/-- The first four key bytes as a little-endian word. -/
def keyWord (key : List UInt8) : UInt32 :=
  (key.getD 0 0).toUInt32 ||| (key.getD 1 0).toUInt32 <<< 8
    ||| (key.getD 2 0).toUInt32 <<< 16 ||| (key.getD 3 0).toUInt32 <<< 24

/-- The loop of `simple_xor_calc` from input index `i`. -/
def xorLoop : Nat → List UInt8 → UInt32 → UInt32
  | _, [], hash => hash
  | i, byte :: rest, hash =>
      xorLoop (i + 1) rest
        (hash ^^^ byte.toUInt32 <<< UInt32.ofNat (i % 4 * 8))

/-- `simple_xor_calc(data, len, key)`. -/
def simpleXorCalc (data key : List UInt8) : UInt32 :=
  let hash := xorLoop 0 data 0
  if 4 ≤ key.length then hash ^^^ keyWord key else hash

/-- The bit loop of `crc32_calc`. -/
def crcBits : Nat → UInt32 → UInt32
  | 0, crc => crc
  | n + 1, crc =>
      let mask := 0 - (crc &&& 1)
      crcBits n (crc >>> 1 ^^^ (0xEDB88320 &&& mask))

/-- `crc32_calc(data, len, seed)`. -/
def crc32Calc (data : List UInt8) (seed : UInt32) : UInt32 :=
  ~~~ data.foldl (fun crc byte => crcBits 8 (crc ^^^ byte.toUInt32)) seed

-- ============================================================ symmetry

/-- Exchange the IPv4 addresses and the ports. -/
def swap4 (t : FiveTuple) : FiveTuple :=
  { t with
    saddr4 := t.daddr4, daddr4 := t.saddr4
    sport := t.dport, dport := t.sport }

/-- Exchange the IPv6 addresses and the ports. -/
def swap6 (t : FiveTuple) : FiveTuple :=
  { t with
    saddr6 := t.daddr6, daddr6 := t.saddr6
    sport := t.dport, dport := t.sport }

/-- Exchange the ports. -/
def swapPorts (t : FiveTuple) : FiveTuple :=
  { t with sport := t.dport, dport := t.sport }

/-- `MakeSymmetric(tuple)`. -/
def makeSymmetric (tuple : FiveTuple) : FiveTuple :=
  if tuple.version = FiveTuple.kIpv6 then
    match memcmp tuple.saddr6.toList tuple.daddr6.toList with
    | .gt => swap6 tuple
    | .eq =>
        if ntohs tuple.dport < ntohs tuple.sport then swapPorts tuple
        else tuple
    | .lt => tuple
  else
    let srcIp := ntohl tuple.saddr4
    let dstIp := ntohl tuple.daddr4
    if dstIp < srcIp then swap4 tuple
    else if srcIp = dstIp then
      if ntohs tuple.dport < ntohs tuple.sport then swapPorts tuple
      else tuple
    else tuple

-- ================================================================ hash

/-- `CalcHash(tuple, key, hf, protocol, symmetry)`. -/
def calcHash (tuple : FiveTuple) (key : List UInt8) (hf : HashFunc)
    (protocol : Protocol) (symmetry : SymmetryMode) : UInt32 :=
  let tuple := if symmetry = .symmetric then makeSymmetric tuple else tuple
  let input := buildHashInput tuple protocol
  if input.length = 0 then 0
  else
    match hf with
    | .toeplitz =>
        if key.length < kMinKeyBytes then 0 else key320HashCalc key input
    | .simpleXor => simpleXorCalc input key
    | .crc32 =>
        let seed : UInt32 :=
          if 4 ≤ key.length then 0xFFFFFFFF ^^^ keyWord key else 0xFFFFFFFF
        crc32Calc input seed
    | .none => 0

end Vnic.Rss
