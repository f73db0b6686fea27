/-
What stands behind an IPv4 datagram, and steering.

`validate` takes the datagram to end at the header's total length; a frame
may go on, with padding up to the minimum length or a trailer. The parser
bounds the transport header by the frame instead. So the ports of a TCP or
UDP frame are read from what stands behind the datagram when the total
length does not cover them, and the hash depends on it; that is the only
way (`padding_blind_iff`).

# What is compared

Two frames are steered alike (`SteeredAlike`) when every iteration of
`poll` that accepts them puts them into the same queue with the same
hash. For frames that pass the checks this is a matter of their
descriptions (`steeredAlike_iff`), since `Steers` leaves the hash and the
queue no choice.

# The two directions

- Enough: frames with the same datagram have their headers in common
  (`SameHeader`), so both are admitted or neither is, and the tuple of the
  one is that of the other as long as the ports lie inside the datagram.
- Needed: where the total length stops short of the ports, the last port
  byte is padding. Another value there (`bump`) gives a frame with the
  same datagram that passes too, and the XOR hash of the same port with
  RSS on (`xorRss`) tells the two apart.
-/
import Vnic.Proofs.Filter
import Vnic.Proofs.Steering

namespace Vnic

-- ============================================================ agreement

namespace Frame

/-- Two frames of one length that have their first `k` bytes in common. -/
structure Agree (k : Nat) (f f' : Frame) : Prop where
  length : f'.length = f.length
  byte : ∀ i < k, f'.byte i = f.byte i

variable {f f' : Frame} {k : Nat}

/-- Equal beginnings agree. -/
theorem Agree.of_take (hlen : f'.length = f.length)
    (h : f'.take k = f.take k) : Agree k f f' := by
  refine ⟨hlen, fun i hi => ?_⟩
  have hget := congrArg (fun l => l[i]?) h
  simp only [List.getElem?_take_of_lt hi] at hget
  unfold Frame.byte
  rw [List.getD_eq_getElem?_getD, hget, List.getD_eq_getElem?_getD]

/-- A field inside the common part reads the same. -/
theorem Agree.be16 (h : Agree k f f') (off : Nat) (hoff : off + 2 ≤ k) :
    f'.be16 off = f.be16 off := by
  have h₀ := h.byte off (by omega)
  have h₁ := h.byte (off + 1) (by omega)
  unfold Frame.byte at h₀ h₁
  unfold Frame.be16
  rw [h₀, h₁]

theorem Agree.bytesAt (h : Agree k f f') {off n : Nat} (hoff : off + n ≤ k) :
    f'.bytesAt off n = f.bytesAt off n := by
  unfold Frame.bytesAt
  congr 1
  funext i
  have hi := i.isLt
  exact h.byte _ (by omega)

/-- A part of the frame, as a list. -/
theorem Agree.slice (h : Agree k f f') (off : Nat) {n : Nat}
    (hoff : off + n ≤ k) :
    (f'.drop off).take n = (f.drop off).take n := by
  apply List.ext_getElem?
  intro i
  by_cases hi : i < n
  · rw [List.getElem?_take_of_lt hi, List.getElem?_take_of_lt hi,
      List.getElem?_drop, List.getElem?_drop]
    by_cases hlt : off + i < f.length
    · have hb := h.byte (off + i) (by omega)
      unfold Frame.byte at hb
      rw [List.getD_eq_getElem?_getD, List.getD_eq_getElem?_getD,
        List.getElem?_eq_getElem (by rw [h.length]; exact hlt),
        List.getElem?_eq_getElem hlt] at hb
      rw [List.getElem?_eq_getElem (by rw [h.length]; exact hlt),
        List.getElem?_eq_getElem hlt]
      exact congrArg some hb
    · rw [List.getElem?_eq_none (by rw [h.length]; omega),
        List.getElem?_eq_none (by omega)]
  · rw [List.getElem?_take_eq_none (by omega),
      List.getElem?_take_eq_none (by omega)]

theorem Agree.tagged (h : Agree k f f') (hk : 14 ≤ k) :
    f'.Tagged ↔ f.Tagged := by
  unfold Tagged
  rw [h.be16 _ hk]

theorem Agree.l2Offset (h : Agree k f f') (hk : 14 ≤ k) :
    f'.l2Offset = f.l2Offset := by
  unfold Frame.l2Offset
  simp only [h.tagged hk]

theorem Agree.networkType (h : Agree k f f') (hk : 18 ≤ k) :
    f'.networkType = f.networkType := by
  unfold Frame.networkType
  simp only [h.tagged (by omega), h.be16 12 (by omega),
    h.be16 16 (by omega)]

theorem Agree.vid (h : Agree k f f') (hk : 18 ≤ k) : f'.vid = f.vid := by
  unfold Frame.vid
  simp only [h.tagged (by omega), h.be16 14 (by omega)]

theorem Agree.ihl (h : Agree k f f') (off : Nat) (hk : off < k) :
    f'.ihl off = f.ihl off := by
  unfold Frame.ihl
  rw [h.byte off hk]

end Frame

-- =========================================================== the tuple

/-- The frame announces a transport with ports. -/
def Frame.HasPorts (f : Frame) : Prop :=
  f.protocol = some 6 ∨ f.protocol = some 17

instance (f : Frame) : Decidable f.HasPorts :=
  inferInstanceAs (Decidable (_ ∨ _))

/-- The 5-tuple of an IPv4 frame; a transport other than TCP and UDP has
no ports. -/
def Frame.tuple4 (f : Frame) : FiveTuple where
  version := FiveTuple.kIpv4
  saddr4 := f.bytesAt (f.l2Offset + 12) 4
  daddr4 := f.bytesAt (f.l2Offset + 16) 4
  sport := if f.HasPorts then f.bytesAt f.l4Offset 2 else Bytes.zero 2
  dport := if f.HasPorts then f.bytesAt (f.l4Offset + 2) 2 else Bytes.zero 2
  iproto := f.byte (f.l2Offset + 9)

variable {f f' : Frame}

private theorem get5Tuple_decoded {p : Parser} (h : Parser.Decoded f p)
    (h4 : f.networkType = 0x0800) : get5Tuple p = f.tuple4 := by
  have hip := h.ipv4
  rw [if_pos h4] at hip
  have hsaddr : IpHdr.saddr ⟨f.bytesAt f.l2Offset 20⟩
      = f.bytesAt (f.l2Offset + 12) 4 := slice_bytesAt _
  have hdaddr : IpHdr.daddr ⟨f.bytesAt f.l2Offset 20⟩
      = f.bytesAt (f.l2Offset + 16) 4 := slice_bytesAt _
  have hproto : IpHdr.protocol ⟨f.bytesAt f.l2Offset 20⟩
      = f.byte (f.l2Offset + 9) := rfl
  unfold get5Tuple withPorts Frame.tuple4
  rw [hip, h.l3Protocol, h.tcp, h.udp]
  simp only [hsaddr, hdaddr, hproto]
  unfold Frame.l3Protocol
  -- ports are read for TCP and UDP only, each at its own header type
  by_cases h6 : f.protocol = some 6
  · have hsport : TcpHdr.source ⟨f.bytesAt f.l4Offset 20⟩
        = f.bytesAt f.l4Offset 2 := slice_bytesAt _
    have hdport : TcpHdr.dest ⟨f.bytesAt f.l4Offset 20⟩
        = f.bytesAt (f.l4Offset + 2) 2 := slice_bytesAt _
    have hp : f.HasPorts := Or.inl h6
    simp [h6, hp, hsport, hdport]
  · by_cases h17 : f.protocol = some 17
    · have hsport : UdpHdr.source ⟨f.bytesAt f.l4Offset 8⟩
          = f.bytesAt f.l4Offset 2 := slice_bytesAt _
      have hdport : UdpHdr.dest ⟨f.bytesAt f.l4Offset 8⟩
          = f.bytesAt (f.l4Offset + 2) 2 := slice_bytesAt _
      have hp : f.HasPorts := Or.inr h17
      simp [h17, hp, hsport, hdport]
    · have hsome : f.protocol ≠ none := by simp [Frame.protocol, h4]
      have hp : ¬ f.HasPorts := not_or.2 ⟨h6, h17⟩
      rw [if_neg hsome, if_neg h6, if_neg h17, if_neg hp, if_neg hp]
      by_cases hicmp : f.protocol = some f.icmpProto
      · rw [if_pos hicmp]
      · rw [if_neg hicmp]

-- ====================================================== the same datagram

namespace VNic

variable {n : VNic} {p : Parser} {k : Nat}

/-- What the bytes of a frame meet that passes `parse` and `validate`. -/
structure Admitted (n : VNic) (f : Frame) : Prop where
  grammatical : f.Grammatical
  size : SizeOk n.config f
  mac : MacOk n.config n.macAddr f
  vlan : VlanOk n.config f
  length : LengthOk f
  checksum : ChecksumOk f

/-- A frame passes exactly if it is admitted, and its parse is its reading. -/
private theorem passes_iff (hin : InForce n.config n) :
    n.Passes f p ↔ p = f.decode ∧ Admitted n f := by
  constructor
  · rintro ⟨hparse, hvalid⟩
    obtain ⟨hg, rfl⟩ := Parser.decode_of_parse hparse
    rw [validate_eq hin hg (Parser.decoded_of_grammatical hg hparse)]
      at hvalid
    obtain ⟨hs, hm, hv, hl, hk⟩ := firstFailure_ok.1 hvalid
    exact ⟨rfl, hg, hs, hm, hv, hl, hk⟩
  · rintro ⟨rfl, hg, hs, hm, hv, hl, hk⟩
    have hparse := Parser.parse_of_grammatical hg {}
    refine ⟨hparse, ?_⟩
    rw [validate_eq hin hg (Parser.decoded_of_grammatical hg hparse)]
    exact firstFailure_ok.2 ⟨hs, hm, hv, hl, hk⟩

theorem l2Offset_ge (f : Frame) : 14 ≤ f.l2Offset := by
  unfold Frame.l2Offset
  split
  · omega
  · omega

/-- Frames that agree on the datagram, up to its IPv4 header at least. -/
structure SameHeader (k : Nat) (f f' : Frame) : Prop where
  agree : Frame.Agree k f f'
  ipv4 : f.networkType = 0x0800
  header : f.l2Offset + 4 * f.ihl f.l2Offset ≤ k
  min : 5 ≤ f.ihl f.l2Offset

/-- The addresses and the type of the network lie in the common part. -/
private theorem SameHeader.covers (h : SameHeader k f f') :
    14 ≤ f.l2Offset ∧ f.l2Offset + 20 ≤ k := by
  have hhead := h.header
  have hmin := h.min
  exact ⟨l2Offset_ge f, by omega⟩

private theorem SameHeader.networkType (h : SameHeader k f f') :
    f'.networkType = f.networkType := by
  have hcovers := h.covers
  exact h.agree.networkType (by omega)

/-- The transport is announced in the header. -/
theorem SameHeader.protocol (h : SameHeader k f f') :
    f'.protocol = f.protocol := by
  have hcovers := h.covers
  unfold Frame.protocol
  rw [h.networkType, h.agree.l2Offset (by omega),
    h.agree.byte _ (by omega : f.l2Offset + 9 < k), if_pos h.ipv4,
    if_pos h.ipv4]

theorem SameHeader.l4Offset (h : SameHeader k f f') :
    f'.l4Offset = f.l4Offset := by
  have hcovers := h.covers
  unfold Frame.l4Offset
  rw [h.networkType, h.agree.l2Offset (by omega), h.agree.ihl _ (by omega)]

/-- Without ports, or with ports inside the datagram, the 5-tuple depends
on the datagram alone. -/
private theorem SameHeader.tuple4 (h : SameHeader k f f')
    (hports : f.HasPorts → f.l4Offset + 4 ≤ k) : f'.tuple4 = f.tuple4 := by
  have hcovers := h.covers
  have hsame : f'.HasPorts ↔ f.HasPorts := by
    unfold Frame.HasPorts
    rw [h.protocol]
  unfold Frame.tuple4
  simp only [hsame]
  rw [h.l4Offset, h.agree.l2Offset (by omega), h.agree.bytesAt (by omega),
    h.agree.bytesAt (by omega), h.agree.byte _ (by omega)]
  by_cases hp : f.HasPorts
  · have hk := hports hp
    rw [if_pos hp, if_pos hp, if_pos hp, if_pos hp,
      h.agree.bytesAt (by omega), h.agree.bytesAt (by omega)]
  · rw [if_neg hp, if_neg hp, if_neg hp, if_neg hp]

/-- A frame that agrees with an admitted one on the datagram's header, and
announces the same length, is admitted too. -/
private theorem SameHeader.admitted (h : SameHeader k f f') (ha : Admitted n f)
    :
    Admitted n f' := by
  have hoff := l2Offset_ge f
  have hhead := h.header
  have hmin := h.min
  have hlen := h.agree.length
  have htag := h.agree.tagged (by omega)
  have hl2 := h.agree.l2Offset (by omega)
  have htype := h.networkType
  have hihl := h.agree.ihl f.l2Offset (by omega)
  have htot : f'.totalLength = f.totalLength := by
    unfold Frame.totalLength
    rw [hl2, h.agree.be16 _ (by omega)]
  have hbyte0 := h.agree.byte 0 (by omega)
  have hbyteOff := h.agree.byte f.l2Offset (by omega)
  -- the checks of the receive filter one by one: each reads bytes below
  -- the prefix only
  constructor
  · have hg := ha.grammatical
    have hframed : f'.Framed := by
      unfold Frame.Framed
      rw [hlen, htag]
      exact hg.1
    rw [Parser.grammatical_ipv4 hframed (htype.trans h.ipv4)]
    rw [Parser.grammatical_ipv4 hg.1 h.ipv4] at hg
    unfold Frame.Ipv4Datagram Frame.Ipv4At Frame.FitsL4 Frame.version at *
    rw [hl2, hlen, hihl, hbyteOff, h.agree.byte _ (by omega)]
    exact hg
  · have hs := ha.size
    unfold SizeOk at *
    rw [hlen, hl2]
    exact hs
  · have hm := ha.mac
    unfold MacOk at *
    rw [h.agree.bytesAt (by omega), hbyte0]
    exact hm
  · have hv := ha.vlan
    unfold VlanOk at *
    rw [htag, h.agree.vid (by omega)]
    exact hv
  · have hl := ha.length
    unfold LengthOk at *
    rw [htype, hl2, hihl, htot, hlen]
    exact hl
  · have hk := ha.checksum
    unfold ChecksumOk Frame.headerBytes at *
    rw [htype, hl2, hihl, h.agree.slice _ hhead]
    exact hk

/-- What RSS makes of an admitted IPv4 frame. -/
private theorem Admitted.describe_ipv4 (ha : Admitted n f)
    (h4 : f.networkType = 0x0800) (he : n.config.rss.enabled = true)
    (now : UInt64) :
    (n.describe now f.decode).hash
      = Rss.calcHash f.tuple4 n.config.rss.key n.config.rss.hf
          n.config.rss.protocol n.config.rss.symmetry
    ∧ (n.describe now f.decode).queueId
      = readReta n.reta (n.describe now f.decode).hash := by
  have h := Parser.decoded_of_grammatical ha.grammatical
    (Parser.parse_of_grammatical ha.grammatical {})
  have hhash : n.frameHash f.decode
      = some (Rss.calcHash f.tuple4 n.config.rss.key n.config.rss.hf
          n.config.rss.protocol n.config.rss.symmetry) := by
    unfold frameHash rssHashable
    rw [he, (ipv4_of_decoded h h4).1, get5Tuple_decoded h h4]
    rfl
  unfold describe
  rw [hhash]
  exact ⟨rfl, rfl⟩

end VNic

-- ====================================================== a hash that sees

namespace Rss

/-- The loop of the plain XOR, with one more byte at the end. -/
private theorem xorLoop_concat (xs : List UInt8) (b : UInt8) :
    ∀ (i : Nat) (hash : UInt32), xorLoop i (xs ++ [b]) hash
      = xorLoop i xs hash
        ^^^ b.toUInt32 <<< UInt32.ofNat ((i + xs.length) % 4 * 8) := by
  induction xs with
  | nil =>
      intro i hash
      rfl
  | cons x xs ih =>
      intro i hash
      rw [List.cons_append, xorLoop, xorLoop, ih, List.length_cons]
      congr 5
      omega

/-- The last of twelve input bytes is seen by the plain XOR. -/
private theorem simpleXor_last {xs key : List UInt8} {b b' : UInt8}
    (hlen : xs.length = 11)
    (h : simpleXorCalc (xs ++ [b]) key = simpleXorCalc (xs ++ [b']) key) :
    b = b' := by
  have hloop : xorLoop 0 (xs ++ [b]) 0 = xorLoop 0 (xs ++ [b']) 0 := by
    unfold simpleXorCalc at h
    simp only at h
    split at h
    · exact (UInt32.xor_left_inj _).1 h
    · exact h
  rw [xorLoop_concat, xorLoop_concat, UInt32.xor_right_inj, hlen] at hloop
  have hnat := congrArg UInt32.toNat hloop
  rw [UInt32.toNat_shiftLeft, UInt32.toNat_shiftLeft, UInt8.toNat_toUInt32,
    UInt8.toNat_toUInt32] at hnat
  have hb := b.toNat_lt
  have hb' := b'.toNat_lt
  replace hnat : b.toNat <<< 24 % 2 ^ 32 = b'.toNat <<< 24 % 2 ^ 32 := hnat
  rw [Nat.shiftLeft_eq, Nat.shiftLeft_eq] at hnat
  apply UInt8.toNat_inj.1
  omega

end Rss

-- ============================================================= steering

namespace VNic

variable {n : VNic} {p : Parser}

/-- `f'` carries the datagram of `f`, in a frame of the same length. -/
def SameDatagram (f f' : Frame) : Prop :=
  f'.length = f.length
    ∧ f'.take (f.l2Offset + f.totalLength)
      = f.take (f.l2Offset + f.totalLength)

/-- The frames are steered alike: by one hash, to one queue, however the
allocations go and whatever the chains of the memory hold. -/
def SteeredAlike (n : VNic) (f f' : Frame) : Prop :=
  ∀ (malloc malloc' : Malloc) (now now' : UInt64) (m m' : Memory),
    ∃ hash queue, Steers malloc now f m n hash queue
      ∧ Steers malloc' now' f' m' n hash queue

/-- On every port with a valid configuration, the queues it asks for and
RSS on, whatever its table and whatever the queues hold, the frames that
carry the datagram of `f` are steered as `f` is. -/
def PaddingBlind (f : Frame) : Prop :=
  ∀ (n : VNic) (f' : Frame) (p p' : Parser),
    n.config.validate = .none → InForce n.config n →
    n.rxQueues.length = n.config.rxQueueCount.toNat →
    n.config.rss.enabled = true → n.Passes f p → n.Passes f' p' →
    SameDatagram f f' → SteeredAlike n f f'

/-- Frames that pass are steered alike exactly when RSS says the same of
both. -/
theorem steeredAlike_iff {p p' : Parser} (hp : n.Passes f p)
    (hp' : n.Passes f' p') :
    SteeredAlike n f f' ↔ ∀ now now',
      (n.describe now p).hash = (n.describe now' p').hash
        ∧ (n.describe now p).queueId = (n.describe now' p').queueId := by
  constructor
  · intro h now now'
    obtain ⟨hash, queue, hs, hs'⟩ := h .bump .bump now now' {} {}
    have hf := (pollFrame_steers hp .bump now {}).unique hs
    have hf' := (pollFrame_steers hp' .bump now' {}).unique hs'
    exact ⟨hf.1.trans hf'.1.symm, hf.2.trans hf'.2.symm⟩
  · intro h malloc malloc' now now' m m'
    have hs' := pollFrame_steers hp' malloc' now' m'
    rw [← (h now now').1, ← (h now now').2] at hs'
    exact ⟨_, _, pollFrame_steers hp malloc now m, hs'⟩

/-- An admitted datagram covers its header. -/
private theorem sameHeader_of_sameDatagram (h4 : f.networkType = 0x0800)
    (ha : Admitted n f) (h : SameDatagram f f') :
    SameHeader (f.l2Offset + f.totalLength) f f' := by
  obtain ⟨hmin, -⟩ := ihl_of_grammatical ha.grammatical h4
  obtain ⟨hcover, -⟩ := ha.length h4
  exact ⟨.of_take h.1 h.2, h4, by omega, hmin⟩

private theorem l4Offset_ipv4 (h4 : f.networkType = 0x0800) :
    f.l4Offset = f.l2Offset + 4 * f.ihl f.l2Offset := if_pos h4

/-- Ports inside the datagram, or none: the padding does not matter. -/
theorem paddingBlind_of_covered (h4 : f.networkType = 0x0800)
    (h : ¬ f.HasPorts ∨ 4 * f.ihl f.l2Offset + 4 ≤ f.totalLength) :
    PaddingBlind f := by
  intro n f' p p' _ hin _ he hp hp' hsame
  rw [steeredAlike_iff hp hp']
  intro now now'
  obtain ⟨rfl, ha⟩ := (passes_iff hin).1 hp
  obtain ⟨rfl, ha'⟩ := (passes_iff hin).1 hp'
  have hhead := sameHeader_of_sameDatagram h4 ha hsame
  -- the ports lie within the datagram, where the two frames agree
  have htuple : f'.tuple4 = f.tuple4 := by
    apply hhead.tuple4
    intro hports
    rw [l4Offset_ipv4 h4]
    rcases h with hno | hcover
    · exact absurd hports hno
    · omega
  have h4' : f'.networkType = 0x0800 := hhead.networkType.trans h4
  have hd := ha.describe_ipv4 h4 he now
  have hd' := ha'.describe_ipv4 h4' he now'
  have hhash : (n.describe now f.decode).hash
      = (n.describe now' f'.decode).hash := by
    rw [hd.1, hd'.1, htuple]
  exact ⟨hhash, by rw [hd.2, hd'.2, hhash]⟩

/-- RSS by the plain XOR over addresses and ports. -/
def xorRss : RssConfig where
  enabled := true
  hf := .simpleXor
  protocol := Rss.Protocol.ipv4 ||| Rss.Protocol.udp
  key := List.replicate 40 0

/-- A valid configuration stays valid with RSS over one queue. -/
private theorem validate_xorRss {c : Config} (h : c.validate = .none) :
    ({ c with rxQueueCount := 1, rss := xorRss } : Config).validate
      = .none := by
  obtain ⟨hmtu, hl, -, -, -, hvlan, hmac⟩ := validate_none_iff.1 h
  have hrss : xorRss.validate = .none := by decide
  have hcount : ¬ (xorRss.enabled = true ∧ (1 : UInt16) = 0) := by decide
  have hbound : ¬ (xorRss.enabled = true
      ∧ xorRss.reta.any (fun id => (1 : UInt16) ≤ id) = true) := by decide
  exact validate_none_iff.2
    ⟨hmtu, hl, hrss, hcount, hbound, hvlan, hmac⟩

/-- The bytes of a 5-tuple with ports, but for the last. -/
def allButLast (f : Frame) : List UInt8 :=
  (f.bytesAt (f.l2Offset + 12) 4).toList
    ++ (f.bytesAt (f.l2Offset + 16) 4).toList
    ++ ((f.bytesAt f.l4Offset 2).toList ++ [f.byte (f.l4Offset + 2)])

private theorem calcHash_xorRss (hp : f.HasPorts) :
    Rss.calcHash f.tuple4 xorRss.key xorRss.hf xorRss.protocol
        xorRss.symmetry
      = Rss.simpleXorCalc
          (allButLast f ++ [f.byte (f.l4Offset + 3)]) xorRss.key := by
  have hinput : Rss.buildHashInput f.tuple4 xorRss.protocol
      = allButLast f ++ [f.byte (f.l4Offset + 3)] := by
    have hdport : (f.bytesAt (f.l4Offset + 2) 2).toList
        = [f.byte (f.l4Offset + 2), f.byte (f.l4Offset + 3)] := rfl
    unfold Rss.buildHashInput allButLast Frame.tuple4
    simp only [if_pos hp]
    rw [if_neg (by decide), if_neg (by decide), if_pos (by decide), hdport,
      List.append_assoc, List.append_assoc]
    rfl
  have hsymmetry : ¬ xorRss.symmetry = .symmetric := by decide
  unfold Rss.calcHash
  simp only [if_neg hsymmetry, hinput]
  rw [if_neg (by simp)]
  rfl

/-- Another value for one byte. -/
def bump (f : Frame) (i : Nat) : Frame := f.set i (f.byte i + 1)

private theorem bump_agree (f : Frame) {i k : Nat} (h : k ≤ i) :
    Frame.Agree k f (bump f i) := by
  refine ⟨List.length_set, fun j hj => ?_⟩
  unfold bump Frame.byte
  rw [List.getD_eq_getElem?_getD, List.getD_eq_getElem?_getD,
    List.getElem?_set_ne (by omega), List.getD_eq_getElem?_getD]

private theorem bump_byte {f : Frame} {i : Nat} (h : i < f.length) :
    (bump f i).byte i = f.byte i + 1 := by
  unfold bump Frame.byte
  rw [List.getD_eq_getElem?_getD, List.getElem?_set_self h]
  rfl

/-- A byte behind the datagram does not matter to it. -/
private theorem sameDatagram_bump {i : Nat}
    (h : f.l2Offset + f.totalLength ≤ i) : SameDatagram f (bump f i) := by
  have hagree := bump_agree f h
  refine ⟨hagree.length, ?_⟩
  have hslice := hagree.slice 0 (n := f.l2Offset + f.totalLength) (by omega)
  rwa [List.drop_zero, List.drop_zero] at hslice

/-- The last port byte is the last byte of the tuple. -/
private theorem SameHeader.allButLast_bump {k : Nat}
    (h : SameHeader k f (bump f (f.l4Offset + 3))) :
    allButLast (bump f (f.l4Offset + 3)) = allButLast f := by
  have hbefore := bump_agree f (Nat.le_refl (f.l4Offset + 3))
  have hmin := h.min
  have hoff := l4Offset_ipv4 h.ipv4
  unfold allButLast
  rw [h.l4Offset, hbefore.l2Offset (by omega), hbefore.bytesAt (by omega),
    hbefore.bytesAt (by omega), hbefore.bytesAt (by omega),
    hbefore.byte _ (by omega)]

private theorem succ_ne_self (b : UInt8) : b + 1 ≠ b := by
  intro h
  have hnat := congrArg UInt8.toNat h
  rw [UInt8.toNat_add] at hnat
  replace hnat : (b.toNat + 1) % 256 = b.toNat := hnat
  omega

/-- The ports of an accepted frame lie inside it. -/
private theorem ports_fit (h4 : f.networkType = 0x0800) (hg : f.Grammatical)
    (hports : f.HasPorts) : f.l4Offset + 3 < f.length := by
  have hfits := ((Parser.grammatical_ipv4 hg.1 h4).1 hg).2.2
  have hproto : f.protocol = some (f.byte (f.l2Offset + 9)) := if_pos h4
  unfold Frame.FitsL4 at hfits
  rw [l4Offset_ipv4 h4]
  rcases hports with h6 | h17
  · rw [hproto, Option.some.injEq] at h6
    have hlen := hfits.1 h6
    omega
  · rw [hproto, Option.some.injEq] at h17
    have hlen := hfits.2.1 h17
    omega

/-- Ports behind the datagram: another byte there gives another hash. -/
theorem covered_of_paddingBlind {n₀ : VNic} {p₀ : Parser}
    (h4 : f.networkType = 0x0800) (hv : n₀.config.validate = .none)
    (hin : InForce n₀.config n₀) (hp : n₀.Passes f p₀)
    (h : PaddingBlind f) :
    ¬ f.HasPorts ∨ 4 * f.ihl f.l2Offset + 4 ≤ f.totalLength := by
  by_contra hno
  rw [not_or, not_not] at hno
  obtain ⟨hports, hshort⟩ := hno
  obtain ⟨-, ha₀⟩ := (passes_iff hin).1 hp
  -- the same port, with RSS on and one queue, started
  let n : VNic := { n₀ with
    config := { n₀.config with rxQueueCount := 1, rss := xorRss }
    rxQueues := [startedQueue] }
  have hin' : InForce n.config n := ⟨rfl, hin.mac⟩
  have ha : Admitted n f := ⟨ha₀.grammatical, ha₀.size, ha₀.mac, ha₀.vlan,
    ha₀.length, ha₀.checksum⟩
  -- the last port byte stands behind the datagram, inside the frame
  have hoff := l4Offset_ipv4 h4
  have hge : f.l2Offset + f.totalLength ≤ f.l4Offset + 3 := by omega
  have hlt := ports_fit h4 ha.grammatical hports
  have hsame := sameDatagram_bump hge
  have hhead := sameHeader_of_sameDatagram h4 ha hsame
  have ha' := hhead.admitted ha
  have hp := (passes_iff hin').2 ⟨rfl, ha⟩
  have hp' := (passes_iff hin').2 ⟨rfl, ha'⟩
  have hdesc := (steeredAlike_iff hp hp').1
    (h n _ _ _ (validate_xorRss hv) hin' rfl rfl hp hp' hsame) 0 0
  have h4' : (bump f (f.l4Offset + 3)).networkType = 0x0800 :=
    hhead.networkType.trans h4
  have hports' : (bump f (f.l4Offset + 3)).HasPorts := by
    unfold Frame.HasPorts
    rw [hhead.protocol]
    exact hports
  have hd := ha.describe_ipv4 h4 rfl 0
  have hd' := ha'.describe_ipv4 h4' rfl 0
  have hhash := hd.1.symm.trans (hdesc.1.trans hd'.1)
  rw [calcHash_xorRss hports, calcHash_xorRss hports',
    hhead.allButLast_bump, hhead.l4Offset] at hhash
  have hb := Rss.simpleXor_last rfl hhash
  rw [bump_byte hlt] at hb
  exact succ_ne_self _ hb.symm

/-- For an IPv4 frame that passes on some port, what stands behind the
datagram has no influence on steering if and only if the frame has no
ports or the total length covers them. -/
theorem padding_blind_iff {n₀ : VNic} {p₀ : Parser}
    (h4 : f.networkType = 0x0800) (hv : n₀.config.validate = .none)
    (hin : InForce n₀.config n₀) (hp : n₀.Passes f p₀) :
    PaddingBlind f
      ↔ ¬ f.HasPorts ∨ 4 * f.ihl f.l2Offset + 4 ≤ f.totalLength :=
  ⟨covered_of_paddingBlind h4 hv hin hp, paddingBlind_of_covered h4⟩

/-- A promiscuous port that spreads over two started queues. -/
def twoQueues : VNic where
  config :=
    { promiscuousEnabled := true
      rxQueueCount := 2
      rss := xorRss }
  reta := [0, 1]
  rxQueues := [startedQueue, startedQueue]

/-- A UDP frame of the minimum length whose datagram is an IPv4 header
and nothing else. -/
def emptyDatagram (padding : UInt8) : Frame :=
  [2, 0, 0, 0, 0, 1, 0, 0, 0, 0, 0, 9, 0x08, 0x00,
    0x45, 0, 0, 20, 0, 0, 0, 0, 64, 17, 0x66, 0xd7, 10, 0, 0, 1, 10, 0, 0, 2]
    ++ List.replicate 26 padding

/-- A datagram with a payload, and one that ends before its ports. -/
theorem padding_blind_iff_udpFrame :
    PaddingBlind Sys.udpFrame ∧ ¬ PaddingBlind (emptyDatagram 0) := by
  have hv : twoQueues.config.validate = .none := by decide
  have hin : InForce twoQueues.config twoQueues := ⟨rfl, rfl⟩
  have hudp : twoQueues.Passes Sys.udpFrame Sys.udpFrame.decode :=
    ⟨by decide +kernel, by decide +kernel⟩
  have hempty : twoQueues.Passes (emptyDatagram 0)
      (emptyDatagram 0).decode := ⟨by decide +kernel, by decide +kernel⟩
  rw [padding_blind_iff (by decide) hv hin hudp,
    padding_blind_iff (by decide) hv hin hempty]
  decide

/-- The queue a frame is stored in, by its number. -/
def storedIn (n : VNic) (packet : Frame) : Option Nat :=
  (pollFrame .bump 0 packet ({}, n)).1.2.rxQueues.findIdx?
    fun q => !q.used_.queue.isEmpty

/-- Two paddings of one datagram, two queues: the port stores the one in
queue 0 and the other in queue 1. -/
theorem not_alike_emptyDatagram :
    (¬ ∀ (n : VNic) (f f' : Frame) (p p' : Parser),
        n.config.validate = .none → InForce n.config n →
        n.rxQueues.length = n.config.rxQueueCount.toNat →
        n.config.rss.enabled = true → f.networkType = 0x0800 →
        n.Passes f p → n.Passes f' p' → SameDatagram f f' →
        SteeredAlike n f f')
      ∧ twoQueues.storedIn (emptyDatagram 0) = some 0
      ∧ twoQueues.storedIn (emptyDatagram 1) = some 1 := by
  refine ⟨?_, by decide +kernel, by decide +kernel⟩
  intro hall
  have hp : twoQueues.Passes (emptyDatagram 0) (emptyDatagram 0).decode :=
    ⟨by decide +kernel, by decide +kernel⟩
  have hp' : twoQueues.Passes (emptyDatagram 1) (emptyDatagram 1).decode :=
    ⟨by decide +kernel, by decide +kernel⟩
  have halike := hall twoQueues (emptyDatagram 0) (emptyDatagram 1) _ _
    (by decide) ⟨rfl, rfl⟩ rfl rfl (by decide) hp hp'
    ⟨by decide, by decide⟩
  have hdesc := (steeredAlike_iff hp hp').1 halike 0 0
  revert hdesc
  decide +kernel

end VNic

end Vnic
