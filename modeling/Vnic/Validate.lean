/-
`validate`: the MAC text parser and the receive filter's checks, each a
predicate on the frame and its parse.

# sscanf

`ParseMac` calls `sscanf` with six `%x` separated by colons. `scanHex` is
one `%x` as the C standard defines it on an LP64 platform: white space is
skipped, a sign and a `0x` prefix may precede the digits, the value is
`strtoul`'s (clamped to 64 bits, negated when signed) stored into a
32-bit object. A `0x` with no digit behind it is a matching failure. Text
behind the sixth number is not looked at.
-/
import Vnic.Parser

namespace Vnic.Validate

-- ============================================================ ParseMac

/-- `isspace` in the C locale. -/
def isSpace (c : UInt8) : Bool := c == 32 || (9 ≤ c && c ≤ 13)

/-- The value of a hexadecimal digit. -/
def hexDigit (c : UInt8) : Option Nat :=
  if 48 ≤ c ∧ c ≤ 57 then some (c.toNat - 48)
  else if 97 ≤ c ∧ c ≤ 102 then some (c.toNat - 97 + 10)
  else if 65 ≤ c ∧ c ≤ 70 then some (c.toNat - 65 + 10)
  else none

/-- The longest run of hexadecimal digits, and what follows it. -/
def scanDigits : List UInt8 → List Nat × List UInt8
  | [] => ([], [])
  | c :: rest =>
      match hexDigit c with
      | none => ([], c :: rest)
      | some v =>
          let (vs, tail) := scanDigits rest
          (v :: vs, tail)

/-- An optional sign. -/
def scanSign : List UInt8 → Bool × List UInt8
  | [] => (false, [])
  | c :: rest =>
      if c = 45 then (true, rest)
      else if c = 43 then (false, rest)
      else (false, c :: rest)

/-- An optional `0x` or `0X`. -/
def scanPrefix : List UInt8 → List UInt8
  | a :: b :: rest =>
      if a = 48 ∧ (b = 120 ∨ b = 88) then rest else a :: b :: rest
  | s => s

/-- `strtoul`'s value of a digit string, in the 32-bit object. -/
def hexValue (negative : Bool) (digits : List Nat) : UInt32 :=
  let value := digits.foldl (fun acc v => acc * 16 + v) 0
  if 2 ^ 64 ≤ value then UInt32.ofNat (2 ^ 64 - 1)
  else if negative then UInt32.ofNat ((2 ^ 64 - value) % 2 ^ 64)
  else UInt32.ofNat value

/-- One `%x`. -/
def scanHex (s : List UInt8) : Option (UInt32 × List UInt8) :=
  let (negative, s) := scanSign (s.dropWhile isSpace)
  match scanDigits (scanPrefix s) with
  | ([], _) => none
  | (digits, tail) => some (hexValue negative digits, tail)

/-- `n + 1` numbers separated by single colons. -/
def scanParts : (n : Nat) → List UInt8 → Option (List.Vector UInt32 (n + 1))
  | 0, s =>
      match scanHex s with
      | none => none
      | some (v, _) => some (v ::ᵥ .nil)
  | n + 1, s =>
      match scanHex s with
      | none => none
      | some (_, []) => none
      | some (v, c :: rest) =>
          if c = 58 then
            match scanParts n rest with
            | none => none
            | some vs => some (v ::ᵥ vs)
          else none

/-- `ParseMac(mac)`: the string as bytes; `c_str()` ends at the first
NUL. -/
def parseMac (mac : List UInt8) : Option (Bytes 6) :=
  match scanParts 5 (mac.takeWhile (· != 0)) with
  | none => none
  | some parts =>
      if parts.toList.all (· ≤ 0xFF) then
        some (parts.map UInt32.toUInt8)
      else none

-- ============================================================== checks

/-- `kIpv4MinHeaderBytes`. -/
def kIpv4MinHeaderBytes : Nat := 20

/-- `kEthernetHeaderBytes`. -/
def kEthernetHeaderBytes : Nat := 14

/-- `kBroadcastMac`. -/
def kBroadcastMac : Bytes 6 := List.Vector.replicate 6 0xFF

/-- `IsBroadcast(mac)`. -/
def isBroadcast (mac : Bytes 6) : Bool :=
  memcmp mac.toList kBroadcastMac.toList == .eq

/-- `IsMulticast(mac)`. -/
def isMulticast (mac : Bytes 6) : Bool := mac.get 0 &&& 0x01 != 0

/-- The L2 header length the size check allows for. -/
def l2HeaderBytes (parser : Parser) : Nat :=
  if parser.l2Offset ≠ 0 then parser.l2Offset else kEthernetHeaderBytes

/-- `CheckFrameSize(packet, parser, minFrameSize, mtu)`. -/
def checkFrameSize (packet : Frame) (parser : Parser) (minFrameSize : Nat)
    (mtu : UInt32) : Bool :=
  minFrameSize ≤ packet.length
    && packet.length ≤ l2HeaderBytes parser + mtu.toNat

/-- `CheckFcs(packet)`: the link carries no FCS. -/
def checkFcs (_packet : Frame) : Bool := true

/-- `CheckDstMac(parser, macAddr, promiscuousEnabled)`. -/
def checkDstMac (parser : Parser) (macAddr : Bytes 6)
    (promiscuousEnabled : Bool) : Bool :=
  if promiscuousEnabled then true
  else
    match parser.eth with
    | none => true
    | some eth =>
        memcmp eth.hDest.toList macAddr.toList == .eq
          || isBroadcast eth.hDest || isMulticast eth.hDest

/-- `CheckVlanFilter(parser, allowList)`. -/
def checkVlanFilter (parser : Parser) (allowList : List UInt16) : Bool :=
  if parser.l1Protocol ≠ .vlan then true
  else if allowList.isEmpty then true
  else allowList.any (· == parser.vlanId)

/-- `CheckIpTotalLength(packet, parser)`. -/
def checkIpTotalLength (packet : Frame) (parser : Parser) : Bool :=
  if parser.l2Protocol ≠ .ipv4 then true
  else
    match parser.ipv4 with
    | none => true
    | some ip =>
        let headerBytes := ip.ihl * 4
        let totalLength := ntohs ip.totLen
        if headerBytes < kIpv4MinHeaderBytes then false
        else if totalLength < headerBytes then false
        else if packet.length < parser.l2Offset + totalLength then false
        else true

/-- The word loop of `CheckIpv4Checksum` over the header bytes. -/
def sumWords : List UInt8 → UInt32 → UInt32
  | a :: b :: rest, sum =>
      sumWords rest (sum + (a.toUInt32 <<< 8 ||| b.toUInt32))
  | _, sum => sum

/-- The carry loop: `while (sum >> 16)`. -/
def foldCarry : Nat → UInt32 → UInt32
  | 0, sum => sum
  | fuel + 1, sum =>
      if sum >>> 16 = 0 then sum
      else foldCarry fuel ((sum &&& (0xFFFF : UInt32)) + (sum >>> 16))

/-- `CheckIpv4Checksum(packet, parser)`: two turns of the carry loop are
enough (`foldCarry_done`). -/
def checkIpv4Checksum (packet : Frame) (parser : Parser) : Bool :=
  if parser.l2Protocol ≠ .ipv4 then true
  else
    match parser.ipv4 with
    | none => true
    | some ip =>
        let headerBytes := ip.ihl * 4
        if headerBytes < kIpv4MinHeaderBytes
            ∨ packet.length < parser.l2Offset + headerBytes then false
        else
          let bytes := (packet.drop parser.l2Offset).take headerBytes
          (foldCarry 2 (sumWords bytes 0)).toUInt16 == 0xFFFF

/-- One turn of the carry loop. -/
theorem toNat_turn (x : UInt32) :
    ((x &&& (0xFFFF : UInt32)) + (x >>> 16)).toNat
      = x.toNat % 0x10000 + x.toNat / 0x10000 := by
  have hand : (x &&& 0xFFFF).toNat = x.toNat % 0x10000 := by
    rw [UInt32.toNat_and]
    exact Nat.and_two_pow_sub_one_eq_mod x.toNat 16
  have hshift : (x >>> 16).toNat = x.toNat / 0x10000 := by
    rw [UInt32.toNat_shiftRight]
    exact Nat.shiftRight_eq_div_pow x.toNat 16
  rw [UInt32.toNat_add, hand, hshift]
  have := x.toNat_lt
  omega

/-- After two turns the carry loop has nothing left to fold. -/
theorem foldCarry_done (sum : UInt32) : foldCarry 2 sum >>> 16 = 0 := by
  have hsmall : ∀ x : UInt32, x.toNat < 65536 → x >>> 16 = 0 := by
    intro x hx
    apply UInt32.toNat_inj.1
    rw [UInt32.toNat_shiftRight]
    show x.toNat >>> 16 = 0
    rw [Nat.shiftRight_eq_div_pow]
    omega
  unfold foldCarry
  split
  · next h => exact h
  · unfold foldCarry
    split
    · next h => exact h
    · unfold foldCarry
      apply hsmall
      rw [toNat_turn, toNat_turn]
      have := sum.toNat_lt
      omega

end Vnic.Validate
