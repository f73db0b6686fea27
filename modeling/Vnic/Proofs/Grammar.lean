/-
`Parser::parse` accepts its grammar, decodes it faithfully and reads
nothing else.

The pass with unchecked loads never fails (`RawParser.parse_eq`), so the
source's comparisons keep every read inside the frame, on the failing
paths too. `parse_grammar` puts the reads, the grammar and the accessors
together.

# The two passes

`RawParser` loads with a function that fails outside the frame. The two
parsers branch alike, so that one walk through the branches, with the
comparison of the source in hand at each load, shows that they agree. The
accessors read what `decode` and `Stopped` say was stored: after a
success all of it, after a failure the headers in front of it.
-/
import Vnic.RawParser
import Vnic.Proofs.Parser

namespace Vnic

-- ============================================================ the reads

namespace RawParser

variable {f : Frame} {off n : Nat}

/-- A guarded load. -/
private theorem loadAt_of_le (h : off + n ≤ f.length) :
    loadAt n f off = some (loadUnaligned n f off h) := dif_pos h

private theorem parseL4_eq (icmpProto : UInt8) (f : Frame) (off : Nat)
    (protocol : UInt8) (p : Parser) :
    parseL4 icmpProto f off protocol p
      = some (Parser.parseL4 icmpProto f off protocol p) := by
  unfold parseL4 Parser.parseL4
  by_cases h6 : protocol = 6
  · rw [if_pos h6, if_pos h6]
    by_cases hlen : f.length < off + 20
    · rw [if_pos hlen, dif_pos hlen]
    · rw [if_neg hlen, dif_neg hlen, loadAt_of_le (Nat.not_lt.1 hlen)]
      rfl
  · rw [if_neg h6, if_neg h6]
    by_cases h17 : protocol = 17
    · rw [if_pos h17, if_pos h17]
      by_cases hlen : f.length < off + 8
      · rw [if_pos hlen, dif_pos hlen]
      · rw [if_neg hlen, dif_neg hlen, loadAt_of_le (Nat.not_lt.1 hlen)]
        rfl
    · rw [if_neg h17, if_neg h17]
      by_cases hicmp : protocol = icmpProto
      · rw [if_pos hicmp, if_pos hicmp]
        by_cases hlen : f.length < off + 8
        · rw [if_pos hlen, dif_pos hlen]
        · rw [if_neg hlen, dif_neg hlen, loadAt_of_le (Nat.not_lt.1 hlen)]
          rfl
      · rw [if_neg hicmp, if_neg hicmp]

private theorem parseIpv4_eq (f : Frame) (off : Nat) (p : Parser) :
    parseIpv4 f off p = some (Parser.parseIpv4 f off p) := by
  unfold parseIpv4 Parser.parseIpv4
  by_cases hlen : f.length < off + 20
  · rw [if_pos hlen, dif_pos hlen]
  · rw [if_neg hlen, dif_neg hlen, loadAt_of_le (Nat.not_lt.1 hlen)]
    simp only [Option.bind_eq_bind, Option.bind_some, parseL4_eq]
    split
    · rfl
    · split
      · rfl
      · rfl

private theorem parseIpv6_eq (f : Frame) (off : Nat) (p : Parser) :
    parseIpv6 f off p = some (Parser.parseIpv6 f off p) := by
  unfold parseIpv6 Parser.parseIpv6
  by_cases hlen : f.length < off + 40
  · rw [if_pos hlen, dif_pos hlen]
  · rw [if_neg hlen, dif_neg hlen, loadAt_of_le (Nat.not_lt.1 hlen)]
    simp only [Option.bind_eq_bind, Option.bind_some, parseL4_eq]
    split
    · rfl
    · rfl

private theorem parseArp_eq (f : Frame) (off : Nat) (p : Parser) :
    parseArp f off p = some (Parser.parseArp f off p) := by
  unfold parseArp Parser.parseArp
  by_cases hlen : f.length < off + 8
  · rw [if_pos hlen, dif_pos hlen]
  · rw [if_neg hlen, dif_neg hlen, loadAt_of_le (Nat.not_lt.1 hlen)]
    simp only [Option.bind_eq_bind, Option.bind_some]
    split
    · rfl
    · next hlong =>
      split
      · next haddr =>
        -- two hardware and two protocol addresses: 20 bytes
        rw [haddr.1, haddr.2] at hlong
        rw [loadAt_of_le (by omega), loadAt_of_le (by omega),
          loadAt_of_le (by omega), loadAt_of_le (by omega)]
        rfl
      · rfl

private theorem parseL2_eq (f : Frame) (etherType off : Nat) (p : Parser) :
    parseL2 f etherType off p = some (Parser.parseL2 f etherType off p) := by
  unfold parseL2 Parser.parseL2
  simp only [parseIpv4_eq, parseIpv6_eq, parseArp_eq]
  split
  · rfl
  · split
    · rfl
    · split
      · rfl
      · rfl

/-- No load leaves the frame. -/
theorem parse_eq (f : Frame) (p : Parser) :
    parse f p = some (Parser.parse f p) := by
  unfold parse Parser.parse
  simp only [parseL2_eq]
  by_cases hlen : f.length < 14
  · rw [if_pos hlen, dif_pos hlen]
  · rw [if_neg hlen, dif_neg hlen, loadAt_of_le (by omega)]
    simp only [Option.bind_eq_bind, Option.bind_some]
    split
    · by_cases hlong : f.length < 14 + 4
      · rw [if_pos hlong, dif_pos hlong]
      · rw [if_neg hlong, dif_neg hlong, loadAt_of_le (by omega),
          loadAt_of_le (by omega)]
        rfl
    · rfl

end RawParser

-- ======================================================== the accessors

namespace Frame

/-- The protocol number of the layer above IP. -/
def protocol (f : Frame) : Option UInt8 :=
  if f.networkType = 0x0800 then some (f.byte (f.l2Offset + 9))
  else if f.networkType = 0x86DD then some (f.byte (f.l2Offset + 6))
  else none

/-- ICMP, for the IP version of the frame. -/
def icmpProto (f : Frame) : UInt8 :=
  if f.networkType = 0x0800 then 1 else 58

/-- The protocol of the transport layer, as the parser names it. -/
def l3Protocol (f : Frame) : L3Protocol :=
  if f.protocol = none then .none
  else if f.protocol = some 6 then .tcp
  else if f.protocol = some 17 then .udp
  else if f.protocol = some f.icmpProto then .icmp
  else .unknown

/-- Where the transport header starts. -/
def l4Offset (f : Frame) : Nat :=
  if f.networkType = 0x0800 then f.l2Offset + 4 * f.ihl f.l2Offset
  else f.l2Offset + 40

end Frame

namespace Parser

open Vnic.Frame

variable {f : Frame} {p : Parser}

/-- What the accessors answer after a well-formed frame. -/
structure Decoded (f : Frame) (p : Parser) : Prop where
  l2Offset : p.l2Offset = f.l2Offset
  eth : p.eth = some ⟨f.bytesAt 0 14⟩
  l1Protocol : p.l1Protocol = if f.Tagged then .vlan else .eth
  /-- The low 12 bits of the TCI, or 0 without a tag. -/
  vlanId : p.vlanId.toNat = f.vid
  l2Protocol : p.l2Protocol = if f.networkType = 0x0800 then .ipv4
    else if f.networkType = 0x86DD then .ipv6 else .arp
  ipv4 : p.ipv4 = if f.networkType = 0x0800
    then some ⟨f.bytesAt f.l2Offset 20⟩ else none
  ipv6 : p.ipv6 = if f.networkType = 0x86DD
    then some ⟨f.bytesAt f.l2Offset 40⟩ else none
  arp : p.arp = if f.networkType = 0x0806
    then some ⟨f.bytesAt f.l2Offset 8⟩ else none
  l3Protocol : p.l3Protocol = f.l3Protocol
  tcp : p.tcp = if f.protocol = some 6
    then some ⟨f.bytesAt f.l4Offset 20⟩ else none
  udp : p.udp = if f.protocol = some 17
    then some ⟨f.bytesAt f.l4Offset 8⟩ else none
  icmp : p.icmp = if f.protocol = some f.icmpProto
    then some ⟨f.bytesAt f.l4Offset 8⟩ else none
  oneNetwork :
    [p.ipv4.isSome, p.ipv6.isSome, p.arp.isSome].count true = 1
  oneTransport :
    [p.tcp.isSome, p.udp.isSome, p.icmp.isSome].count true ≤ 1

/-- What the accessors answer after any other frame: the Ethernet header
if it was there, an IP header if it was there and of the right version,
and nothing behind it. -/
structure Cut (f : Frame) (p : Parser) : Prop where
  eth : p.eth = if 14 ≤ f.length then some ⟨f.bytesAt 0 14⟩ else none
  ipv4 : p.ipv4
    = if f.Framed ∧ f.networkType = 0x0800 ∧ f.Ipv4At f.l2Offset
      then some ⟨f.bytesAt f.l2Offset 20⟩ else none
  ipv6 : p.ipv6
    = if f.Framed ∧ f.networkType = 0x86DD ∧ f.Ipv6At f.l2Offset
      then some ⟨f.bytesAt f.l2Offset 40⟩ else none
  arp : p.arp = none
  tcp : p.tcp = none
  udp : p.udp = none
  icmp : p.icmp = none

/-- The transport accessors over a decoded transport layer. -/
private theorem transport_of_l3 (icmpProto : UInt8) {protocol : UInt8}
    {off : Nat}
    (h6 : icmpProto ≠ 6) (h17 : icmpProto ≠ 17)
    (h : p.l3 = f.l3 icmpProto off protocol) :
    p.l3Protocol = (if protocol = 6 then .tcp
      else if protocol = 17 then .udp
      else if protocol = icmpProto then .icmp else .unknown)
    ∧ p.tcp = (if protocol = 6 then some ⟨f.bytesAt off 20⟩ else none)
    ∧ p.udp = (if protocol = 17 then some ⟨f.bytesAt off 8⟩ else none)
    ∧ p.icmp
      = (if protocol = icmpProto then some ⟨f.bytesAt off 8⟩ else none)
    ∧ [p.tcp.isSome, p.udp.isSome, p.icmp.isSome].count true ≤ 1 := by
  unfold l3Protocol tcp udp icmp
  rw [h]
  unfold Frame.l3
  by_cases hp6 : protocol = 6
  · subst hp6
    simp [Ne.symm h6]
  · by_cases hp17 : protocol = 17
    · subst hp17
      simp [Ne.symm h17]
    · by_cases hpi : protocol = icmpProto
      · subst hpi
        simp [hp6, hp17]
      · simp [hp6, hp17, hpi]

private theorem eth_of_l1 (h : p.l1 = f.l1) :
    p.eth = some ⟨f.bytesAt 0 14⟩
      ∧ p.l1Protocol = if f.Tagged then .vlan else .eth := by
  unfold eth l1Protocol
  rw [h]
  unfold Frame.l1
  by_cases htag : f.Tagged
  · simp [htag]
  · simp [htag]

/-- The reading of a grammatical frame is what its bytes say. -/
theorem decoded_of_grammatical (h : f.Grammatical)
    (hp : parse f p = (f.decode, .ok ())) : Decoded f f.decode := by
  obtain ⟨heth, hl1⟩ := eth_of_l1 (decode_l1 f)
  have hvlan := (parse_ok hp).1
  -- one network protocol at a time: IPv4, IPv6, ARP; only the first two
  -- have a transport part
  obtain ⟨-, ⟨h4, -⟩ | ⟨h6, -⟩ | ⟨ha, -⟩⟩ := h
  · have hd : f.decode = _ := if_pos h4
    obtain ⟨hl3, htcp, hudp, hicmp, hone⟩ := transport_of_l3 1 (p := f.decode)
      (f := f) (by decide) (by decide) (by rw [hd])
    refine ⟨by rw [hd]; rfl, heth, hl1, hvlan, ?_, ?_, ?_, ?_, ?_, ?_, ?_,
      ?_, ?_, hone⟩
    · rw [if_pos h4, hd]
      rfl
    · rw [if_pos h4, hd]
      rfl
    · rw [h4, hd]
      rfl
    · rw [h4, hd]
      rfl
    · rw [hl3]
      simp [Frame.l3Protocol, Frame.protocol, Frame.icmpProto, h4]
    · rw [htcp]
      simp [Frame.protocol, Frame.l4Offset, h4]
    · rw [hudp]
      simp [Frame.protocol, Frame.l4Offset, h4]
    · rw [hicmp]
      simp [Frame.protocol, Frame.l4Offset, Frame.icmpProto, h4]
    · rw [hd]
      rfl
  · have hd : f.decode = _ := (if_neg (by rw [h6]; decide)).trans (if_pos h6)
    obtain ⟨hl3, htcp, hudp, hicmp, hone⟩ := transport_of_l3 58 (p := f.decode)
      (f := f) (by decide) (by decide) (by rw [hd])
    refine ⟨by rw [hd]; rfl, heth, hl1, hvlan, ?_, ?_, ?_, ?_, ?_, ?_, ?_,
      ?_, ?_, hone⟩
    · rw [h6, hd]
      rfl
    · rw [h6, hd]
      rfl
    · rw [if_pos h6, hd]
      rfl
    · rw [h6, hd]
      rfl
    · rw [hl3]
      simp [Frame.l3Protocol, Frame.protocol, Frame.icmpProto, h6]
    · rw [htcp]
      simp [Frame.protocol, Frame.l4Offset, h6]
    · rw [hudp]
      simp [Frame.protocol, Frame.l4Offset, h6]
    · rw [hicmp]
      simp [Frame.protocol, Frame.l4Offset, Frame.icmpProto, h6]
    · rw [hd]
      rfl
  · have hd : f.decode = f.withArp f.l2Offset f.linked :=
      (if_neg (by rw [ha]; decide)).trans (if_neg (by rw [ha]; decide))
    have hno : f.protocol = none := by simp [Frame.protocol, ha]
    have hl2 : f.decode.l2 = f.arpL2 f.l2Offset := by
      rw [hd, withArp]
      split
      · rfl
      · rfl
    have hl3 : f.decode.l3 = {} := by
      rw [hd, withArp]
      split
      · rfl
      · rfl
    refine ⟨?_, heth, hl1, hvlan, ?_, ?_, ?_, ?_, ?_, ?_, ?_, ?_, ?_, ?_⟩
    · rw [hd, withArp]
      split
      · rfl
      · rfl
    · simp [l2Protocol, hl2, arpL2, ha]
    · simp [ipv4, hl2, arpL2, ha]
    · simp [ipv6, hl2, arpL2, ha]
    · simp [arp, hl2, arpL2, ha]
    · simp [l3Protocol, Frame.l3Protocol, hl3, hno]
    · simp [tcp, hl3, hno]
    · simp [udp, hl3, hno]
    · simp [icmp, hl3, hno]
    · simp [ipv4, ipv6, arp, hl2, arpL2]
    · simp [tcp, udp, icmp, hl3]

/-- Where the parse stopped, it has filled in what came before. -/
theorem Stopped.cut (h : Stopped f p) : Cut f p := by
  -- one case per place where parse returns early, in its own order
  cases h with
  | ethernet hlen =>
      have hno : ¬ f.Framed := fun h => absurd h.1 (by omega)
      refine ⟨?_, ?_, ?_, rfl, rfl, rfl, rfl⟩
      · rw [if_neg (by omega)]
        rfl
      · rw [if_neg fun h => hno h.1]
        rfl
      · rw [if_neg fun h => hno h.1]
        rfl
  | tag hle htag hlt =>
      have hno : ¬ f.Framed := fun h => absurd (h.2 htag) (by omega)
      refine ⟨?_, ?_, ?_, rfl, rfl, rfl, rfl⟩
      · rw [if_pos hle]
        rfl
      · rw [if_neg fun h => hno h.1]
        rfl
      · rw [if_neg fun h => hno h.1]
        rfl
  | unsupported hf h4 h6 ha =>
      refine ⟨?_, ?_, ?_, rfl, rfl, rfl, rfl⟩
      · rw [if_pos hf.1]
        exact (eth_of_l1 rfl).1
      · rw [if_neg fun h => h4 h.2.1]
        rfl
      · rw [if_neg fun h => h6 h.2.1]
        rfl
  | network hf h4 h6 =>
      refine ⟨?_, ?_, ?_, rfl, rfl, rfl, rfl⟩
      · rw [if_pos hf.1]
        exact (eth_of_l1 rfl).1
      · rw [if_neg fun h => h4 h.2]
        rfl
      · rw [if_neg fun h => h6 h.2]
        rfl
  | ipv4 hf h4 hat =>
      refine ⟨?_, ?_, ?_, rfl, rfl, rfl, rfl⟩
      · rw [if_pos hf.1]
        exact (eth_of_l1 rfl).1
      · rw [if_pos ⟨hf, h4, hat⟩]
        rfl
      · rw [if_neg fun h => absurd (h4.symm.trans h.2.1) (by decide)]
        rfl
  | ipv6 hf h6 hat =>
      refine ⟨?_, ?_, ?_, rfl, rfl, rfl, rfl⟩
      · rw [if_pos hf.1]
        exact (eth_of_l1 rfl).1
      · rw [if_neg fun h => absurd (h6.symm.trans h.2.1) (by decide)]
        rfl
      · rw [if_pos ⟨hf, h6, hat⟩]
        rfl

/-- Whatever the parser held before, `parse` reads inside the frame only,
ends in a state that depends on the frame alone, and succeeds if and only
if the frame is well formed. Then the accessors answer its headers, and
otherwise those in front of the failure and none behind it. -/
theorem parse_grammar (f : Frame) (p : Parser) :
    RawParser.parse f p = some (parse f p)
    ∧ (∀ q : Parser, parse f q = parse f p)
    ∧ ((parse f p).2 = .ok () ↔ f.Grammatical)
    ∧ ((parse f p).2 = .ok () → Decoded f (parse f p).1)
    ∧ ((parse f p).2 ≠ .ok () → Cut f (parse f p).1) := by
  refine ⟨RawParser.parse_eq f p, fun q => rfl, ?_⟩
  rcases parse_cases f p with ⟨hg, heq⟩ | ⟨hg, q, e, heq, hstop⟩
  · have hd := decoded_of_grammatical hg heq
    rw [heq]
    exact ⟨⟨fun _ => hg, fun _ => rfl⟩, fun _ => hd, fun h => absurd rfl h⟩
  · rw [heq]
    refine ⟨⟨fun h => (by cases h), fun h => absurd h hg⟩,
      fun h => (by cases h), fun _ => hstop.cut⟩

end Parser

end Vnic
