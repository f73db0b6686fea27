/-
What `parse` accepts and what it leaves behind, in terms of the bytes of
the frame.

An 802.1Q or 802.1ad tag stands where the EtherType would, and moves the
EtherType of the network layer by four bytes. `Grammatical` says of the
raw bytes which frames are well formed, and `decode` what a parser holds
after one of them. `parse_cases` is the specification: whatever the parser
held before, it ends in `decode` on a well-formed frame and otherwise with
an error and the headers in front of the failure only.
-/
import Vnic.Port

namespace Vnic

-- ============================================================ raw bytes

namespace Frame

/-- The byte at an offset. -/
def byte (f : Frame) (off : Nat) : UInt8 := f.getD off 0

/-- The `n` bytes at an offset. -/
def bytesAt (f : Frame) (off n : Nat) : Bytes n :=
  List.Vector.ofFn fun i => f.byte (off + i)

/-- The 16-bit network-order number at an offset. -/
def be16 (f : Frame) (off : Nat) : Nat :=
  (f.getD off 0).toNat * 256 + (f.getD (off + 1) 0).toNat

/-- The frame carries a VLAN tag. -/
def Tagged (f : Frame) : Prop := f.be16 12 = 0x8100 ∨ f.be16 12 = 0x88A8

instance (f : Frame) : Decidable f.Tagged :=
  inferInstanceAs (Decidable (_ ∨ _))

/-- The 12-bit VLAN id of the tag, 0 without one. -/
def vid (f : Frame) : Nat := if f.Tagged then f.be16 14 % 4096 else 0

/-- The EtherType of the network layer. -/
def networkType (f : Frame) : Nat :=
  if f.Tagged then f.be16 16 else f.be16 12

/-- The frame carries IPv4 or IPv6. -/
def IsIp (f : Frame) : Prop :=
  f.networkType = 0x0800 ∨ f.networkType = 0x86DD

instance (f : Frame) : Decidable f.IsIp :=
  inferInstanceAs (Decidable (_ ∨ _))

/-- Where the network header starts. -/
def l2Offset (f : Frame) : Nat := if f.Tagged then 18 else 14

/-- `version`, of an IP header at `off`. -/
def version (f : Frame) (off : Nat) : Nat := (f.byte off).toNat / 16

/-- `ihl`, of an IPv4 header at `off`. -/
def ihl (f : Frame) (off : Nat) : Nat := (f.byte off).toNat % 16

end Frame

/-- A byte of a block, by its list. -/
private theorem Bytes.get_eq_getD {n : Nat} (b : Bytes n) (i : Fin n) :
    b.get i = b.toList.getD i.val 0 := by
  have hi : i.val < b.toList.length := by simp
  rw [List.Vector.get_eq_get_toList, List.get_eq_getElem,
    List.getD_eq_getElem?_getD, List.getElem?_eq_getElem hi]
  rfl

/-- A load within bounds reads the bytes that stand there. -/
theorem loadUnaligned_eq {n off : Nat} {f : Frame}
    (h : off + n ≤ f.length) :
    loadUnaligned n f off h = f.bytesAt off n := by
  apply List.Vector.ext
  intro i
  unfold Frame.bytesAt Frame.byte
  rw [List.Vector.get_ofFn, Bytes.get_eq_getD]
  show ((f.drop off).take n).getD i.val 0 = _
  rw [List.getD_eq_getElem?_getD, List.getD_eq_getElem?_getD,
    List.getElem?_take_of_lt i.isLt, List.getElem?_drop]

/-- A field of a header stands in the frame. -/
theorem slice_bytesAt {f : Frame} {off n k len : Nat} (h : k + len ≤ n) :
    (f.bytesAt off n).slice k len h = f.bytesAt (off + k) len := by
  unfold Bytes.slice
  rw [loadUnaligned_eq]
  apply List.Vector.ext
  intro i
  have hi := i.isLt
  have hget := Bytes.get_eq_getD (f.bytesAt off n) ⟨k + i, by omega⟩
  unfold Frame.bytesAt Frame.byte at *
  rw [List.Vector.get_ofFn] at *
  rw [List.Vector.get_ofFn, ← hget, Nat.add_assoc]

/-- A field in network order. -/
theorem ntohs_bytesAt (f : Frame) (off : Nat) :
    ntohs (f.bytesAt off 2) = f.be16 off := rfl

/-- The EtherType field of the Ethernet header. -/
theorem ntohs_hProto (f : Frame) :
    ntohs (EthHdr.hProto ⟨f.bytesAt 0 14⟩) = f.be16 12 := by
  unfold EthHdr.hProto
  rw [slice_bytesAt, ntohs_bytesAt]

-- ============================================================== grammar

namespace Frame

/-- The transport header the protocol number announces is there. -/
def FitsL4 (icmpProto : UInt8) (f : Frame) (off : Nat) (protocol : UInt8) :
    Prop :=
  (protocol = 6 → off + 20 ≤ f.length)
  ∧ (protocol = 17 → off + 8 ≤ f.length)
  ∧ (protocol = icmpProto → off + 8 ≤ f.length)

/-- An IPv4 header stands at `off`. -/
def Ipv4At (f : Frame) (off : Nat) : Prop :=
  off + 20 ≤ f.length ∧ f.version off = 4

/-- An IPv6 header stands at `off`. -/
def Ipv6At (f : Frame) (off : Nat) : Prop :=
  off + 40 ≤ f.length ∧ f.version off = 6

/-- An ARP header with its four addresses stands at `off`. -/
def ArpAt (f : Frame) (off : Nat) : Prop :=
  off + (8 + 2 * ((f.byte (off + 4)).toNat + (f.byte (off + 5)).toNat))
    ≤ f.length

/-- The Ethernet header and the tag it announces are there. -/
def Framed (f : Frame) : Prop :=
  14 ≤ f.length ∧ (f.Tagged → 18 ≤ f.length)

/-- IPv4 up to the transport header. -/
def Ipv4Datagram (f : Frame) (off : Nat) : Prop :=
  f.Ipv4At off ∧ 5 ≤ f.ihl off
    ∧ f.FitsL4 1 (off + 4 * f.ihl off) (f.byte (off + 9))

/-- IPv6 up to the transport header. -/
def Ipv6Datagram (f : Frame) (off : Nat) : Prop :=
  f.Ipv6At off ∧ f.FitsL4 58 (off + 40) (f.byte (off + 6))

/-- The frames `parse` accepts. -/
def Grammatical (f : Frame) : Prop :=
  f.Framed
  ∧ ((f.networkType = 0x0800 ∧ f.Ipv4Datagram f.l2Offset)
    ∨ (f.networkType = 0x86DD ∧ f.Ipv6Datagram f.l2Offset)
    ∨ (f.networkType = 0x0806 ∧ f.ArpAt f.l2Offset))

instance (icmpProto : UInt8) (f : Frame) (off : Nat) (protocol : UInt8) :
    Decidable (f.FitsL4 icmpProto off protocol) :=
  inferInstanceAs (Decidable (_ ∧ _ ∧ _))

instance (f : Frame) (off : Nat) : Decidable (f.Ipv4At off) :=
  inferInstanceAs (Decidable (_ ∧ _))

instance (f : Frame) (off : Nat) : Decidable (f.Ipv6At off) :=
  inferInstanceAs (Decidable (_ ∧ _))

instance (f : Frame) (off : Nat) : Decidable (f.ArpAt off) :=
  inferInstanceAs (Decidable (_ ≤ _))

instance (f : Frame) : Decidable f.Framed :=
  inferInstanceAs (Decidable (_ ∧ _))

instance (f : Frame) (off : Nat) : Decidable (f.Ipv4Datagram off) :=
  inferInstanceAs (Decidable (_ ∧ _ ∧ _))

instance (f : Frame) (off : Nat) : Decidable (f.Ipv6Datagram off) :=
  inferInstanceAs (Decidable (_ ∧ _))

instance (f : Frame) : Decidable f.Grammatical :=
  inferInstanceAs (Decidable (_ ∧ (_ ∨ _ ∨ _)))

-- ============================================================= decoding

/-- The link layer of a frame. -/
def l1 (f : Frame) : L1 :=
  if f.Tagged then
    { protocol := .vlan
      eth := some ⟨f.bytesAt 0 14⟩
      vlanId := UInt16.ofNat (f.be16 14 % 4096)
      vlanPcp := UInt8.ofNat (f.be16 14 / 8192 % 8) }
  else { protocol := .eth, eth := some ⟨f.bytesAt 0 14⟩ }

/-- An IPv4 header at `off`. -/
def ipv4L2 (f : Frame) (off : Nat) : L2 :=
  { protocol := .ipv4, ip := some ⟨f.bytesAt off 20⟩ }

/-- An IPv6 header at `off`. -/
def ipv6L2 (f : Frame) (off : Nat) : L2 :=
  { protocol := .ipv6, ip6 := some ⟨f.bytesAt off 40⟩ }

/-- An ARP header at `off`. -/
def arpL2 (f : Frame) (off : Nat) : L2 :=
  { protocol := .arp, arp := some ⟨f.bytesAt off 8⟩ }

/-- The transport layer at `off`. -/
def l3 (icmpProto : UInt8) (f : Frame) (off : Nat) (protocol : UInt8) : L3 :=
  if protocol = 6 then
    { protocol := .tcp, tcp := some ⟨f.bytesAt off 20⟩ }
  else if protocol = 17 then
    { protocol := .udp, udp := some ⟨f.bytesAt off 8⟩ }
  else if protocol = icmpProto then
    { protocol := .icmp, icmp := some ⟨f.bytesAt off 8⟩ }
  else { protocol := .unknown }

/-- A parser that has seen the ARP header at `off`. -/
def withArp (f : Frame) (off : Nat) (p : Parser) : Parser :=
  let p := { p with l2 := f.arpL2 off }
  if (f.byte (off + 4)).toNat = 6 ∧ (f.byte (off + 5)).toNat = 4 then
    { p with
      arpSenderHw := f.bytesAt (off + 8) 6
      arpTargetHw := f.bytesAt (off + 8 + 10) 6
      arpSenderProto := f.bytesAt (off + 8 + 6) 4
      arpTargetProto := f.bytesAt (off + 8 + 16) 4
      hasArpAddresses := true }
  else p

/-- A parser that has seen the link layer. -/
def linked (f : Frame) : Parser := { l1 := f.l1, l2Offset := f.l2Offset }

/-- What a parser holds after a well-formed frame. -/
def decode (f : Frame) : Parser :=
  if f.networkType = 0x0800 then
    { f.linked with
      l2 := f.ipv4L2 f.l2Offset
      l3 := f.l3 1 (f.l2Offset + 4 * f.ihl f.l2Offset)
        (f.byte (f.l2Offset + 9)) }
  else if f.networkType = 0x86DD then
    { f.linked with
      l2 := f.ipv6L2 f.l2Offset
      l3 := f.l3 58 (f.l2Offset + 40) (f.byte (f.l2Offset + 6)) }
  else f.withArp f.l2Offset f.linked

end Frame

-- =========================================================== the layers

namespace Parser

open Vnic.Frame

variable {f : Frame} {p p' : Parser} {off : Nat}

/-- The transport layer is there, or nothing is written. -/
theorem parseL4_cases (icmpProto : UInt8) (f : Frame) (off : Nat)
    (protocol : UInt8) (hp : p.l3 = {}) :
    (f.FitsL4 icmpProto off protocol
      ∧ parseL4 icmpProto f off protocol p
        = ({ p with l3 := f.l3 icmpProto off protocol }, .ok ()))
    ∨ (¬ f.FitsL4 icmpProto off protocol
      ∧ ∃ e, parseL4 icmpProto f off protocol p = (p, .error e)) := by
  unfold parseL4 Frame.l3 FitsL4
  simp only [loadUnaligned_eq, hp]
  -- TCP, UDP, ICMP in the source's order; any other protocol succeeds with
  -- no transport header
  by_cases h6 : protocol = 6
  · by_cases hlen : f.length < off + 20
    · refine Or.inr ⟨fun h => ?_, _, by rw [if_pos h6, dif_pos hlen]⟩
      exact absurd (h.1 h6) (by omega)
    · refine Or.inl ⟨⟨?_, ?_, ?_⟩, by rw [if_pos h6, if_pos h6, dif_neg hlen]⟩
      all_goals
        intro _
        omega
  · rw [if_neg h6, if_neg h6]
    by_cases h17 : protocol = 17
    · by_cases hlen : f.length < off + 8
      · refine Or.inr ⟨fun h => ?_, _, by rw [if_pos h17, dif_pos hlen]⟩
        exact absurd (h.2.1 h17) (by omega)
      · refine Or.inl ⟨⟨fun h => absurd h h6, ?_, ?_⟩,
          by rw [if_pos h17, if_pos h17, dif_neg hlen]⟩
        all_goals
          intro _
          omega
    · rw [if_neg h17, if_neg h17]
      by_cases hicmp : protocol = icmpProto
      · by_cases hlen : f.length < off + 8
        · refine Or.inr ⟨fun h => ?_, _, by rw [if_pos hicmp, dif_pos hlen]⟩
          exact absurd (h.2.2 hicmp) (by omega)
        · refine Or.inl ⟨⟨fun h => absurd h h6, fun h => absurd h h17, ?_⟩,
            by rw [if_pos hicmp, if_pos hicmp, dif_neg hlen]⟩
          intro _
          omega
      · rw [if_neg hicmp, if_neg hicmp]
        exact Or.inl ⟨⟨fun h => absurd h h6, fun h => absurd h h17,
          fun h => absurd h hicmp⟩, rfl⟩

/-- `ParseIpv4` stops before the header, behind it, or reads the datagram. -/
private theorem parseIpv4_cases (f : Frame) (off : Nat) (h2 : p.l2 = {})
    (h3 : p.l3 = {}) :
    (¬ f.Ipv4At off ∧ ∃ e, parseIpv4 f off p = (p, .error e))
    ∨ (f.Ipv4At off ∧ ¬ f.Ipv4Datagram off
      ∧ ∃ e, parseIpv4 f off p = ({ p with l2 := f.ipv4L2 off }, .error e))
    ∨ (f.Ipv4Datagram off
      ∧ parseIpv4 f off p
        = ({ p with
            l2 := f.ipv4L2 off
            l3 := f.l3 1 (off + 4 * f.ihl off) (f.byte (off + 9)) },
          .ok ())) := by
  have hversion : IpHdr.version ⟨f.bytesAt off 20⟩ = f.version off := rfl
  have hihl : IpHdr.ihl ⟨f.bytesAt off 20⟩ = f.ihl off := rfl
  have hproto : IpHdr.protocol ⟨f.bytesAt off 20⟩ = f.byte (off + 9) := rfl
  unfold parseIpv4
  simp only [loadUnaligned_eq, hversion, hihl, hproto, h2]
  -- before the header is stored the parser is untouched, after it l2 names
  -- the header
  by_cases hlen : f.length < off + 20
  · exact Or.inl ⟨fun h => absurd h.1 (by omega), _, dif_pos hlen⟩
  · rw [dif_neg hlen]
    by_cases hver : f.version off = 4
    · have hat : f.Ipv4At off := ⟨by omega, hver⟩
      rw [if_neg (not_not.2 hver)]
      by_cases hshort : f.ihl off * 4 < 20
      · refine Or.inr (Or.inl ⟨hat, fun h => ?_, _, if_pos hshort⟩)
        have := h.2.1
        omega
      · rw [if_neg hshort, Nat.mul_comm (f.ihl off) 4]
        rcases parseL4_cases 1 f (off + 4 * f.ihl off) (f.byte (off + 9))
            (p := { p with l2 := f.ipv4L2 off }) h3 with
          ⟨hfits, h4⟩ | ⟨hfits, e, h4⟩
        · exact Or.inr (Or.inr ⟨⟨hat, by omega, hfits⟩, h4⟩)
        · exact Or.inr (Or.inl ⟨hat, fun h => hfits h.2.2, e, h4⟩)
    · exact Or.inl ⟨fun h => hver h.2, _, if_pos hver⟩

/-- `ParseIpv6` likewise. -/
private theorem parseIpv6_cases (f : Frame) (off : Nat) (h2 : p.l2 = {})
    (h3 : p.l3 = {}) :
    (¬ f.Ipv6At off ∧ ∃ e, parseIpv6 f off p = (p, .error e))
    ∨ (f.Ipv6At off ∧ ¬ f.Ipv6Datagram off
      ∧ ∃ e, parseIpv6 f off p = ({ p with l2 := f.ipv6L2 off }, .error e))
    ∨ (f.Ipv6Datagram off
      ∧ parseIpv6 f off p
        = ({ p with
            l2 := f.ipv6L2 off
            l3 := f.l3 58 (off + 40) (f.byte (off + 6)) }, .ok ())) := by
  have hversion : Ipv6Hdr.version ⟨f.bytesAt off 40⟩ = f.version off := rfl
  have hproto : Ipv6Hdr.nexthdr ⟨f.bytesAt off 40⟩ = f.byte (off + 6) := rfl
  unfold parseIpv6
  simp only [loadUnaligned_eq, hversion, hproto, h2]
  -- as for IPv4, without a header length to check
  by_cases hlen : f.length < off + 40
  · exact Or.inl ⟨fun h => absurd h.1 (by omega), _, dif_pos hlen⟩
  · rw [dif_neg hlen]
    by_cases hver : f.version off = 6
    · have hat : f.Ipv6At off := ⟨by omega, hver⟩
      rw [if_neg (not_not.2 hver)]
      rcases parseL4_cases 58 f (off + 40) (f.byte (off + 6))
          (p := { p with l2 := f.ipv6L2 off }) h3 with
        ⟨hfits, h4⟩ | ⟨hfits, e, h4⟩
      · exact Or.inr (Or.inr ⟨⟨hat, hfits⟩, h4⟩)
      · exact Or.inr (Or.inl ⟨hat, fun h => hfits h.2, e, h4⟩)
    · exact Or.inl ⟨fun h => hver h.2, _, if_pos hver⟩

/-- `ParseArp` reads the packet or nothing. -/
private theorem parseArp_cases (f : Frame) (off : Nat) (h2 : p.l2 = {}) :
    (¬ f.ArpAt off ∧ ∃ e, parseArp f off p = (p, .error e))
    ∨ (f.ArpAt off
      ∧ parseArp f off p = (f.withArp off p, .ok ())) := by
  have hhln : ArpHdr.arHln ⟨f.bytesAt off 8⟩ = (f.byte (off + 4)).toNat :=
    rfl
  have hpln : ArpHdr.arPln ⟨f.bytesAt off 8⟩ = (f.byte (off + 5)).toNat :=
    rfl
  unfold parseArp withArp ArpAt
  simp only [loadUnaligned_eq, hhln, hpln, h2]
  by_cases hlen : f.length < off + 8
  · exact Or.inl ⟨by omega, _, dif_pos hlen⟩
  · rw [dif_neg hlen]
    by_cases hlong : f.length < off + (8 + 2 * ((f.byte (off + 4)).toNat
        + (f.byte (off + 5)).toNat))
    · exact Or.inl ⟨by omega, _, dif_pos hlong⟩
    · rw [dif_neg hlong]
      refine Or.inr ⟨by omega, ?_⟩
      split
      · rfl
      · rfl

-- ================================================================ parse

/-- How `parse` ends on a frame that is not well formed: the headers in
front of the failure are there. -/
inductive Stopped (f : Frame) : Parser → Prop
  | ethernet : f.length < 14 → Stopped f {}
  | tag : 14 ≤ f.length → f.Tagged → f.length < 18 →
      Stopped f { l1 := { protocol := .eth, eth := some ⟨f.bytesAt 0 14⟩ } }
  | unsupported : f.Framed → f.networkType ≠ 0x0800 →
      f.networkType ≠ 0x86DD → f.networkType ≠ 0x0806 →
      Stopped f { f.linked with l2 := { protocol := .unknown } }
  | network : f.Framed →
      ¬ (f.networkType = 0x0800 ∧ f.Ipv4At f.l2Offset) →
      ¬ (f.networkType = 0x86DD ∧ f.Ipv6At f.l2Offset) →
      Stopped f f.linked
  | ipv4 : f.Framed → f.networkType = 0x0800 → f.Ipv4At f.l2Offset →
      Stopped f { f.linked with l2 := f.ipv4L2 f.l2Offset }
  | ipv6 : f.Framed → f.networkType = 0x86DD → f.Ipv6At f.l2Offset →
      Stopped f { f.linked with l2 := f.ipv6L2 f.l2Offset }

/-- Behind an IPv4 ether type only the datagram matters. -/
theorem grammatical_ipv4 (h : f.Framed) (h4 : f.networkType = 0x0800) :
    f.Grammatical ↔ f.Ipv4Datagram f.l2Offset := by
  simp [Grammatical, h, h4]

private theorem grammatical_ipv6 (h : f.Framed) (h6 : f.networkType = 0x86DD) :
    f.Grammatical ↔ f.Ipv6Datagram f.l2Offset := by
  simp [Grammatical, h, h6]

private theorem grammatical_arp (h : f.Framed) (ha : f.networkType = 0x0806) :
    f.Grammatical ↔ f.ArpAt f.l2Offset := by
  simp [Grammatical, h, ha]

/-- The network layer of a frame whose link layer is there. -/
theorem parseL2_cases (h : f.Framed) :
    (f.Grammatical
      ∧ parseL2 f f.networkType f.l2Offset { l1 := f.l1 }
        = (f.decode, .ok ()))
    ∨ (¬ f.Grammatical
      ∧ ∃ q e, parseL2 f f.networkType f.l2Offset { l1 := f.l1 }
          = (q, .error e) ∧ Stopped f q) := by
  unfold parseL2 decode
  -- by EtherType; where no branch takes it parse fails with the link
  -- header alone
  by_cases h4 : f.networkType = 0x0800
  · rw [grammatical_ipv4 h h4]
    simp only [h4, if_true]
    rcases parseIpv4_cases f f.l2Offset (p := f.linked) rfl rfl with
      ⟨hno, e, heq⟩ | ⟨hat, hno, e, heq⟩ | ⟨hd, heq⟩
    · refine Or.inr ⟨fun hd => hno hd.1, _, e, heq,
        .network h (fun hc => hno hc.2) ?_⟩
      rw [h4]
      exact fun hc => absurd hc.1 (by decide)
    · exact Or.inr ⟨hno, _, e, heq, .ipv4 h h4 hat⟩
    · exact Or.inl ⟨hd, heq⟩
  · by_cases h6 : f.networkType = 0x86DD
    · rw [grammatical_ipv6 h h6]
      simp only [h6, if_true]
      rcases parseIpv6_cases f f.l2Offset (p := f.linked) rfl rfl with
        ⟨hno, e, heq⟩ | ⟨hat, hno, e, heq⟩ | ⟨hd, heq⟩
      · exact Or.inr ⟨fun hd => hno hd.1, _, e, heq,
          .network h (fun hc => h4 hc.1) (fun hc => hno hc.2)⟩
      · exact Or.inr ⟨hno, _, e, heq, .ipv6 h h6 hat⟩
      · exact Or.inl ⟨hd, heq⟩
    · by_cases ha : f.networkType = 0x0806
      · rw [grammatical_arp h ha]
        simp only [ha, if_true]
        rcases parseArp_cases f f.l2Offset (p := f.linked) rfl with
          ⟨hno, e, heq⟩ | ⟨hat, heq⟩
        · exact Or.inr ⟨hno, _, e, heq,
            .network h (fun hc => h4 hc.1) (fun hc => h6 hc.1)⟩
        · exact Or.inl ⟨hat, heq⟩
      · simp only [h4, h6, ha, if_false]
        refine Or.inr ⟨?_, _, _, rfl, .unsupported h h4 h6 ha⟩
        rintro ⟨-, ⟨hc, -⟩ | ⟨hc, -⟩ | ⟨hc, -⟩⟩
        · exact h4 hc
        · exact h6 hc
        · exact ha hc

/-- What `parse` can do, whatever the parser held before. -/
theorem parse_cases (f : Frame) (p : Parser) :
    (f.Grammatical ∧ parse f p = (f.decode, .ok ()))
    ∨ (¬ f.Grammatical
      ∧ ∃ q e, parse f p = (q, .error e) ∧ Stopped f q) := by
  unfold parse reset
  simp only [loadUnaligned_eq, ntohs_hProto, ntohs_bytesAt]
  by_cases hlen : f.length < 14
  · refine Or.inr ⟨fun h => ?_, _, _, dif_pos hlen, .ethernet hlen⟩
    have := h.1.1
    omega
  · rw [dif_neg hlen]
    -- a tag moves the network header by four bytes, and has to be inside
    -- the frame
    by_cases htag : f.Tagged
    · rw [if_pos (show f.be16 12 = 0x8100 ∨ f.be16 12 = 0x88A8 from htag)]
      by_cases hlong : f.length < 14 + 4
      · refine Or.inr ⟨fun h => ?_, _, _, dif_pos hlong,
          .tag (by omega) htag hlong⟩
        have := h.1.2 htag
        omega
      · rw [dif_neg hlong]
        have hl1 : f.l1 = _ := if_pos htag
        have htype : f.networkType = f.be16 16 := if_pos htag
        have hoff : f.l2Offset = 18 := if_pos htag
        have hcases := parseL2_cases (f := f) ⟨by omega, fun _ => by omega⟩
        rw [hl1, htype, hoff] at hcases
        exact hcases
    · rw [if_neg (show ¬ (f.be16 12 = 0x8100 ∨ f.be16 12 = 0x88A8)
        from htag)]
      have hl1 : f.l1 = _ := if_neg htag
      have htype : f.networkType = f.be16 12 := if_neg htag
      have hoff : f.l2Offset = 14 := if_neg htag
      have hcases := parseL2_cases (f := f)
        ⟨by omega, fun h => absurd h htag⟩
      rw [hl1, htype, hoff] at hcases
      exact hcases

/-- A grammatical frame is parsed into its reading, whatever the parser
held. -/
theorem parse_of_grammatical (hg : f.Grammatical) (p : Parser) :
    parse f p = (f.decode, .ok ()) := by
  rcases parse_cases f p with ⟨-, heq⟩ | ⟨hno, -⟩
  · exact heq
  · exact absurd hg hno

/-- A frame `parse` accepts is well formed, and is decoded. -/
theorem decode_of_parse (h : parse f p = (p', .ok ())) :
    f.Grammatical ∧ p' = f.decode := by
  rcases parse_cases f p with ⟨hg, heq⟩ | ⟨-, q, e, heq, -⟩
  · rw [heq] at h
    cases h
    exact ⟨hg, rfl⟩
  · rw [heq] at h
    cases h

/-- The link layer of a frame that is decoded. -/
theorem decode_l1 (f : Frame) : f.decode.l1 = f.l1 := by
  unfold decode withArp
  split
  · rfl
  · split
    · rfl
    · split
      · rfl
      · rfl

/-- What `parse` reads off a frame it accepts. -/
theorem parse_ok (h : parse f p = (p', .ok ())) :
    p'.vlanId.toNat = f.vid
      ∧ (VNic.rssHashable p' = true ↔ f.IsIp) := by
  obtain ⟨hg, rfl⟩ := decode_of_parse h
  constructor
  · unfold vlanId
    rw [decode_l1]
    unfold Frame.l1 vid
    by_cases htag : f.Tagged
    · rw [if_pos htag, if_pos htag]
      show (UInt16.ofNat (f.be16 14 % 4096)).toNat = _
      rw [UInt16.toNat_ofNat', Nat.mod_eq_of_lt (by omega)]
    · rw [if_neg htag, if_neg htag]
      rfl
  · unfold VNic.rssHashable l2Protocol IsIp decode
    by_cases h4 : f.networkType = 0x0800
    · simp [h4, ipv4L2]
    · by_cases h6 : f.networkType = 0x86DD
      · simp [h6, ipv6L2]
      · simp only [h4, h6, if_false, or_self, iff_false]
        unfold withArp
        split
        · simp [arpL2]
        · simp [arpL2]

end Parser

end Vnic
