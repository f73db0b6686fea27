/-
The receive filter as one predicate on the bytes of a frame.

`validate` runs its checks on the parser's state. On a frame `parse`
accepts, each of them is a condition on the bytes (`SizeOk` to
`ChecksumOk`), and the answer is the code of the first that fails
(`firstFailure`). The checksum loop adds 32-bit words and folds the
carries at the end; a header has at most 60 bytes, so nothing overflows
and the result is the ones'-complement sum.

# The order of the checks

`firstFailure` lists the conditions in the order of `validate`. The proof
goes check by check: each function of the source is decided by its
predicate (`checkFrameSize_iff` and its sisters), under the assumption
that the parser has decoded the frame. The two early exits for a short
header are dead by then, since `parse` has checked the same bounds.
-/
import Vnic.Lib.OnesComplement
import Vnic.Proofs.Grammar
import Vnic.Proofs.System

namespace Vnic

-- ========================================================= the checksum

namespace Validate

/-- The 16-bit words of a header. -/
def words : List UInt8 → List Nat
  | a :: b :: rest => (a.toNat * 256 + b.toNat) :: words rest
  | _ => []

theorem words_cons (a b : UInt8) (rest : List UInt8) :
    words (a :: b :: rest) = (a.toNat * 256 + b.toNat) :: words rest := rfl

theorem word_le (a b : UInt8) : a.toNat * 256 + b.toNat ≤ 0xFFFF := by
  have := a.toNat_lt
  have := b.toNat_lt
  omega

/-- A word is at most `0xFFFF`. -/
theorem words_le (bytes : List UInt8) : ∀ w ∈ words bytes, w ≤ 0xFFFF := by
  induction bytes using words.induct with
  | case1 a b rest ih =>
      intro w hw
      rcases List.mem_cons.1 hw with rfl | hw
      · exact word_le a b
      · exact ih w hw
  | case2 bytes hno =>
      intro w hw
      match bytes with
      | [] => cases hw
      | [_] => cases hw
      | _ :: _ :: _ => exact absurd rfl (hno _ _ _)

/-- So the sum of a header cannot overflow 32 bits. -/
theorem words_sum_le (bytes : List UInt8) :
    (words bytes).sum ≤ bytes.length * 0xFFFF := by
  induction bytes using words.induct with
  | case1 a b rest ih =>
      rw [words_cons, List.sum_cons, List.length_cons, List.length_cons,
        Nat.succ_mul, Nat.succ_mul]
      exact (Nat.add_le_add (word_le a b) ih).trans (by omega)
  | case2 bytes hno =>
      match bytes with
      | [] => exact Nat.zero_le _
      | [_] => exact Nat.zero_le _
      | _ :: _ :: _ => exact absurd rfl (hno _ _ _)

/-- One word of the loop. -/
private theorem toNat_word (a b : UInt8) :
    (a.toUInt32 <<< 8 ||| b.toUInt32).toNat = a.toNat * 256 + b.toNat := by
  have ha := a.toNat_lt
  have hb := b.toNat_lt
  rw [UInt32.toNat_or, UInt32.toNat_shiftLeft, UInt8.toNat_toUInt32,
    UInt8.toNat_toUInt32]
  show a.toNat <<< 8 % 2 ^ 32 ||| b.toNat = _
  rw [Nat.shiftLeft_eq, Nat.mod_eq_of_lt (by omega)]
  rw [← Nat.shiftLeft_eq, ← Nat.shiftLeft_add_eq_or_of_lt hb,
    Nat.shiftLeft_eq]

/-- The loop adds the words, as long as the sum fits. -/
theorem toNat_sumWords (bytes : List UInt8) :
    ∀ acc : UInt32, acc.toNat + (words bytes).sum < 2 ^ 32 →
      (sumWords bytes acc).toNat = acc.toNat + (words bytes).sum := by
  induction bytes using words.induct with
  | case1 a b rest ih =>
      intro acc hlt
      rw [words_cons, List.sum_cons, ← Nat.add_assoc] at hlt ⊢
      have hadd : (acc + (a.toUInt32 <<< 8 ||| b.toUInt32)).toNat
          = acc.toNat + (a.toNat * 256 + b.toNat) := by
        rw [UInt32.toNat_add, toNat_word]
        apply Nat.mod_eq_of_lt
        exact Nat.lt_of_le_of_lt (Nat.le_add_right _ _) hlt
      unfold sumWords
      rw [ih, hadd]
      rw [hadd]
      exact hlt
  | case2 bytes hno =>
      intro acc _
      match bytes with
      | [] => rfl
      | [_] => rfl
      | _ :: _ :: _ => exact absurd rfl (hno _ _ _)

/-- Folding the carries keeps the residue. -/
private theorem residue_foldCarry (fuel : Nat) (x : UInt32) :
    OnesComplement.residue (foldCarry fuel x).toNat
      = OnesComplement.residue x.toNat := by
  induction fuel generalizing x with
  | zero => rfl
  | succ fuel ih =>
      unfold foldCarry
      split
      · rfl
      · rw [ih, toNat_turn, OnesComplement.residue_fold]

/-- The carry loop ends with the residue itself. -/
theorem toNat_foldCarry (x : UInt32) :
    (foldCarry 2 x).toNat = OnesComplement.residue x.toNat := by
  have hsmall : (foldCarry 2 x).toNat ≤ 0xFFFF := by
    have h := congrArg UInt32.toNat (foldCarry_done x)
    rw [UInt32.toNat_shiftRight] at h
    have h' : (foldCarry 2 x).toNat >>> 16 = 0 := h
    rw [Nat.shiftRight_eq_div_pow] at h'
    omega
  rw [← residue_foldCarry 2 x, OnesComplement.residue_of_le hsmall]

/-- The test of the checksum routine on a header of at most 60 bytes. -/
theorem checksum_iff {bytes : List UInt8} (h : bytes.length ≤ 60) :
    ((foldCarry 2 (sumWords bytes 0)).toUInt16 == 0xFFFF) = true
      ↔ OnesComplement.sum (words bytes) = 0xFFFF := by
  have hsum := words_sum_le bytes
  have htotal : (sumWords bytes 0).toNat = (words bytes).sum := by
    rw [toNat_sumWords bytes 0]
    · exact Nat.zero_add _
    · show 0 + (words bytes).sum < 2 ^ 32
      omega
  have hfold := toNat_foldCarry (sumWords bytes 0)
  rw [htotal, ← OnesComplement.sum_eq_residue (words_le bytes)] at hfold
  have hle : OnesComplement.sum (words bytes) ≤ 0xFFFF := by
    rw [OnesComplement.sum_eq_residue (words_le bytes)]
    exact OnesComplement.residue_le _
  rw [beq_iff_eq, ← UInt16.toNat_inj, UInt32.toNat_toUInt16, hfold]
  show OnesComplement.sum (words bytes) % 65536 = 65535 ↔ _
  omega

end Validate

-- =========================================================== the checks

namespace Frame

/-- `tot_len`, of the IPv4 header. -/
def totalLength (f : Frame) : Nat := f.be16 (f.l2Offset + 2)

/-- The `4 * ihl` bytes of the IPv4 header. -/
def headerBytes (f : Frame) : List UInt8 :=
  (f.drop f.l2Offset).take (4 * f.ihl f.l2Offset)

end Frame

namespace VNic

variable {f : Frame} {c : Config} {mac : Bytes 6} {n : VNic}

/-- Neither a runt nor longer than the MTU allows. -/
def SizeOk (c : Config) (f : Frame) : Prop :=
  60 ≤ f.length ∧ f.length ≤ f.l2Offset + c.mtu.toNat

/-- Promiscuous, or addressed to the port or to a group. -/
def MacOk (c : Config) (mac : Bytes 6) (f : Frame) : Prop :=
  c.promiscuousEnabled = true ∨ f.bytesAt 0 6 = mac
    ∨ (f.byte 0).toNat % 2 = 1

/-- Untagged, or of an allowed VLAN. -/
def VlanOk (c : Config) (f : Frame) : Prop :=
  ¬ f.Tagged ∨ c.vlanAllowList = []
    ∨ ∃ id ∈ c.vlanAllowList, id.toNat = f.vid

/-- The total length of an IPv4 header covers the header and is there. -/
def LengthOk (f : Frame) : Prop :=
  f.networkType = 0x0800 → 4 * f.ihl f.l2Offset ≤ f.totalLength
    ∧ f.totalLength ≤ f.length - f.l2Offset

/-- An IPv4 header sums up to `0xFFFF`. -/
def ChecksumOk (f : Frame) : Prop :=
  f.networkType = 0x0800 →
    OnesComplement.sum (Validate.words f.headerBytes) = 0xFFFF

instance (c : Config) (f : Frame) : Decidable (SizeOk c f) :=
  inferInstanceAs (Decidable (_ ∧ _))

instance (c : Config) (mac : Bytes 6) (f : Frame) :
    Decidable (MacOk c mac f) :=
  inferInstanceAs (Decidable (_ ∨ _ ∨ _))

instance (c : Config) (f : Frame) : Decidable (VlanOk c f) :=
  inferInstanceAs (Decidable (_ ∨ _ ∨ _))

instance (f : Frame) : Decidable (LengthOk f) :=
  inferInstanceAs (Decidable (_ → _))

instance (f : Frame) : Decidable (ChecksumOk f) :=
  inferInstanceAs (Decidable (_ → _))

/-- The answer of `validate`: the code of the first condition that
fails. -/
def firstFailure (c : Config) (mac : Bytes 6) (f : Frame) : Res :=
  if ¬ SizeOk c f then
    .error (if f.l2Offset + c.mtu.toNat < f.length
      then .validationFrameTooLong else .validationFrameTooShort)
  else if ¬ MacOk c mac f then .error .validationDstMacMismatch
  else if ¬ VlanOk c f then .error .validationVlanRejected
  else if ¬ LengthOk f then .error .validationIpTotalLengthInvalid
  else if ¬ ChecksumOk f then .error .validationIpv4ChecksumInvalid
  else .ok ()

private theorem l2HeaderBytes_eq {p : Parser} (h : Parser.Decoded f p) :
    Validate.l2HeaderBytes p = f.l2Offset := by
  unfold Validate.l2HeaderBytes
  rw [h.l2Offset, if_pos]
  unfold Frame.l2Offset
  split
  · decide
  · decide

/-- `CheckFrameSize` in terms of the frame. -/
private theorem checkFrameSize_iff {p : Parser} (h : Parser.Decoded f p) :
    Validate.checkFrameSize f p kMinFrameSize c.mtu = true
      ↔ SizeOk c f := by
  unfold Validate.checkFrameSize SizeOk
  rw [l2HeaderBytes_eq h]
  rw [Bool.and_eq_true, decide_eq_true_eq, decide_eq_true_eq]
  rfl

private theorem isMulticast_iff (mac : Bytes 6) :
    Validate.isMulticast mac = true ↔ (mac.get 0).toNat % 2 = 1 := by
  unfold Validate.isMulticast
  rw [bne_iff_ne, ne_eq, ← UInt8.toNat_inj, UInt8.toNat_and]
  show ¬ (mac.get 0).toNat &&& 1 = 0 ↔ _
  rw [Nat.and_one_is_mod]
  omega

/-- The broadcast address is a group address. -/
theorem isMulticast_of_isBroadcast {mac : Bytes 6}
    (h : Validate.isBroadcast mac = true) :
    Validate.isMulticast mac = true := by
  unfold Validate.isBroadcast at h
  have heq : mac = Validate.kBroadcastMac :=
    List.Vector.toList_injective
      (eq_of_memcmp (by simp) (beq_iff_eq.1 h))
  rw [heq]
  decide

/-- `CheckDstMac` in terms of the frame. -/
private theorem checkDstMac_iff {p : Parser} (h : Parser.Decoded f p) :
    Validate.checkDstMac p mac c.promiscuousEnabled = true
      ↔ MacOk c mac f := by
  have hdest : EthHdr.hDest ⟨f.bytesAt 0 14⟩ = f.bytesAt 0 6 :=
    slice_bytesAt _
  unfold Validate.checkDstMac MacOk
  rw [h.eth]
  simp only [hdest]
  by_cases hp : c.promiscuousEnabled = true
  · simp [hp]
  · rw [if_neg hp, Bool.or_eq_true, Bool.or_eq_true, beq_iff_eq, or_assoc,
      or_iff_right hp]
    -- the source's three disjuncts are two here: a broadcast address is a
    -- group address
    have hself : memcmp (f.bytesAt 0 6).toList mac.toList = .eq
        ↔ f.bytesAt 0 6 = mac := by
      constructor
      · exact fun heq => List.Vector.toList_injective
          (eq_of_memcmp (by simp) heq)
      · rintro rfl
        exact memcmp_self _
    have hgroup : Validate.isMulticast (f.bytesAt 0 6) = true
        ↔ (f.byte 0).toNat % 2 = 1 := isMulticast_iff _
    rw [hself, ← hgroup]
    constructor
    · rintro (heq | hb | hm)
      · exact Or.inl heq
      · exact Or.inr (isMulticast_of_isBroadcast hb)
      · exact Or.inr hm
    · rintro (heq | hm)
      · exact Or.inl heq
      · exact Or.inr (Or.inr hm)

/-- `CheckVlanFilter` in terms of the frame. -/
private theorem checkVlanFilter_iff {p : Parser} (h : Parser.Decoded f p) :
    Validate.checkVlanFilter p c.vlanAllowList = true ↔ VlanOk c f := by
  unfold Validate.checkVlanFilter VlanOk
  rw [h.l1Protocol]
  by_cases htag : f.Tagged
  · simp only [htag, if_true, not_true_eq_false, ne_eq, if_false, false_or]
    by_cases hnil : c.vlanAllowList = []
    · simp [hnil]
    · rw [if_neg (by simpa using hnil), List.any_eq_true]
      simp only [hnil, false_or, beq_iff_eq]
      constructor
      · rintro ⟨id, hid, rfl⟩
        exact ⟨_, hid, h.vlanId⟩
      · rintro ⟨id, hid, heq⟩
        refine ⟨id, hid, UInt16.toNat_inj.1 ?_⟩
        rw [heq, h.vlanId]
  · simp [htag]

/-- The header `parse` found in an IPv4 frame. -/
theorem ipv4_of_decoded {p : Parser} (h : Parser.Decoded f p)
    (h4 : f.networkType = 0x0800) :
    p.l2Protocol = .ipv4 ∧ p.ipv4 = some ⟨f.bytesAt f.l2Offset 20⟩ := by
  have hl2 := h.l2Protocol
  have hip := h.ipv4
  rw [if_pos h4] at hl2 hip
  exact ⟨hl2, hip⟩

private theorem l2Protocol_ne_of_decoded {p : Parser} (h : Parser.Decoded f p)
    (h4 : f.networkType ≠ 0x0800) : p.l2Protocol ≠ .ipv4 := by
  rw [h.l2Protocol, if_neg h4]
  split
  · decide
  · decide

/-- The fields the IPv4 checks read. -/
theorem ipHdr_fields (f : Frame) (off : Nat) :
    IpHdr.ihl ⟨f.bytesAt off 20⟩ = f.ihl off
      ∧ ntohs (IpHdr.totLen ⟨f.bytesAt off 20⟩) = f.be16 (off + 2) := by
  refine ⟨rfl, ?_⟩
  unfold IpHdr.totLen
  rw [slice_bytesAt, ntohs_bytesAt]

/-- An IPv4 frame that `parse` accepts has a header of at least 20 bytes,
the first 20 of which are there. -/
theorem ihl_of_grammatical (hg : f.Grammatical)
    (h4 : f.networkType = 0x0800) :
    5 ≤ f.ihl f.l2Offset ∧ f.l2Offset + 20 ≤ f.length := by
  have hd := (Parser.grammatical_ipv4 hg.1 h4).1 hg
  exact ⟨hd.2.1, hd.1.1⟩

/-- `CheckIpTotalLength` in terms of the frame. -/
private theorem checkIpTotalLength_iff {p : Parser} (hg : f.Grammatical)
    (h : Parser.Decoded f p) :
    Validate.checkIpTotalLength f p = true ↔ LengthOk f := by
  unfold Validate.checkIpTotalLength LengthOk Frame.totalLength
  by_cases h4 : f.networkType = 0x0800
  · obtain ⟨hl2, hip⟩ := ipv4_of_decoded h h4
    obtain ⟨hihl, htot⟩ := ipHdr_fields f f.l2Offset
    obtain ⟨hmin, hroom⟩ := ihl_of_grammatical hg h4
    rw [if_neg (not_not.2 hl2), hip, h.l2Offset]
    simp only [hihl, htot, h4, true_implies, Validate.kIpv4MinHeaderBytes]
    rw [if_neg (by omega)]
    split
    · simp only [Bool.false_eq_true, false_iff]
      omega
    · split
      · simp only [Bool.false_eq_true, false_iff]
        omega
      · simp only [true_iff]
        omega
  · rw [if_pos (l2Protocol_ne_of_decoded h h4)]
    simp [h4]

/-- `CheckIpv4Checksum` in terms of the frame; the length check comes
before it and bounds the header. -/
private theorem checkIpv4Checksum_iff {p : Parser} (hg : f.Grammatical)
    (h : Parser.Decoded f p) (hlen : LengthOk f) :
    Validate.checkIpv4Checksum f p = true ↔ ChecksumOk f := by
  unfold Validate.checkIpv4Checksum ChecksumOk Frame.headerBytes
  by_cases h4 : f.networkType = 0x0800
  · obtain ⟨hl2, hip⟩ := ipv4_of_decoded h h4
    obtain ⟨hihl, -⟩ := ipHdr_fields f f.l2Offset
    obtain ⟨hmin, hroom⟩ := ihl_of_grammatical hg h4
    obtain ⟨hcover, hfits⟩ := hlen h4
    rw [if_neg (not_not.2 hl2), hip, h.l2Offset]
    simp only [hihl, h4, true_implies, Validate.kIpv4MinHeaderBytes]
    rw [if_neg (by omega), Nat.mul_comm (f.ihl f.l2Offset) 4]
    apply Validate.checksum_iff
    have hmax : f.ihl f.l2Offset < 16 := Nat.mod_lt _ (by decide)
    rw [List.length_take]
    omega
  · rw [if_pos (l2Protocol_ne_of_decoded h h4)]
    simp [h4]

/-- The early exits of the two IPv4 checks, on a frame `parse` accepts:
the header is never too short, and when `validate` comes to the checksum
the header is within the frame. -/
theorem early_exits_dead {p : Parser} {ip : IpHdr} (hg : f.Grammatical)
    (h : Parser.Decoded f p) (hip : p.ipv4 = some ip) :
    ¬ ip.ihl * 4 < Validate.kIpv4MinHeaderBytes
    ∧ (Validate.checkIpTotalLength f p = true →
      ¬ f.length < p.l2Offset + ip.ihl * 4) := by
  have h4 : f.networkType = 0x0800 := by
    by_contra h4
    rw [h.ipv4, if_neg h4] at hip
    cases hip
  obtain ⟨-, hip'⟩ := ipv4_of_decoded h h4
  rw [hip'] at hip
  cases hip
  obtain ⟨hihl, -⟩ := ipHdr_fields f f.l2Offset
  obtain ⟨hmin, hroom⟩ := ihl_of_grammatical hg h4
  rw [hihl]
  refine ⟨by simp only [Validate.kIpv4MinHeaderBytes]; omega, fun hlen => ?_⟩
  obtain ⟨hcover, hfits⟩ := (checkIpTotalLength_iff hg h).1 hlen h4
  rw [h.l2Offset]
  omega

-- =========================================================== the filter

/-- `c` is the configuration the port works with. -/
structure InForce (c : Config) (n : VNic) : Prop where
  config : n.config = c
  mac : configuredMac c = some n.macAddr

/-- `validate` answers the first failure. -/
theorem validate_eq {p : Parser} (hc : InForce c n) (hg : f.Grammatical)
    (h : Parser.Decoded f p) :
    n.validate f p = firstFailure c n.macAddr f := by
  unfold validate firstFailure Validate.checkFcs
  rw [hc.config, l2HeaderBytes_eq h]
  simp only [← Bool.not_eq_true, checkFrameSize_iff h, checkDstMac_iff h,
    checkVlanFilter_iff h, checkIpTotalLength_iff hg h, not_true_eq_false,
    if_false]
  by_cases hlen : LengthOk f
  · simp only [checkIpv4Checksum_iff hg h hlen]
  · simp only [hlen, not_false_eq_true, if_true]

/-- A frame passes if and only if every condition holds. -/
theorem firstFailure_ok :
    firstFailure c mac f = .ok ()
      ↔ SizeOk c f ∧ MacOk c mac f ∧ VlanOk c f ∧ LengthOk f
        ∧ ChecksumOk f := by
  unfold firstFailure
  by_cases hs : SizeOk c f
  · by_cases hm : MacOk c mac f
    · by_cases hv : VlanOk c f
      · by_cases hl : LengthOk f
        · by_cases hk : ChecksumOk f
          · simp [hs, hm, hv, hl, hk]
          · simp [hs, hm, hv, hl, hk]
        · simp [hs, hm, hv, hl]
      · simp [hs, hm, hv]
    · simp [hs, hm]
  · simp [hs]

/-- The verdict of `poll` on a frame. -/
theorem pollFrame_verdict (hc : InForce c n) (malloc : Malloc)
    (now : UInt64) (f : Frame) (m : Memory) :
    (f.Grammatical
      ∧ match firstFailure c n.macAddr f with
        | .ok () => ∃ desc r,
            (pollFrame malloc now f (m, n)).2 = .distributed desc r
        | .error e => (pollFrame malloc now f (m, n)).2 = .rejected e)
    ∨ (¬ f.Grammatical
      ∧ ∃ e, (Parser.parse f {}).2 = .error e
        ∧ (pollFrame malloc now f (m, n)).2 = .rejected e) := by
  unfold pollFrame
  rcases Parser.parse_cases f {} with ⟨hg, heq⟩ | ⟨hg, q, e, heq, -⟩
  · have hd := Parser.decoded_of_grammatical hg heq
    refine Or.inl ⟨hg, ?_⟩
    rw [heq, ← validate_eq hc hg hd]
    simp only
    cases n.validate f f.decode with
    | ok u => exact ⟨_, _, rfl⟩
    | error e => rfl
  · refine Or.inr ⟨hg, e, by rw [heq], ?_⟩
    rw [heq]

end VNic

namespace Sys

open VNic

variable {s t : Sys} {a : Op} {e : Event} {c : Config}

/-- A successful `configure` puts its configuration in force. -/
private theorem configured_inForce
    (h : s.step (.configure c) = some (t, .configure (.ok ()))) :
    InForce c t.nic := by
  simp only [step, Option.some.injEq, Prod.mk.injEq,
    Event.configure.injEq] at h
  obtain ⟨rfl, hr⟩ := h
  obtain ⟨-, -, mac, hmac, heq⟩ := configure_of_ok hr
  rw [pair, heq]
  exact ⟨rfl, hmac⟩

/-- Only a successful `configure(config)` replaces the configuration. -/
theorem step_inForce (hi : InForce c s.nic) (h : s.step a = some (t, e))
    (he : e ≠ .configure (.ok ())) : InForce c t.nic := by
  by_cases hc : a.IsControl
  · rcases step_control hc h with ⟨config, -, rfl, rfl⟩ | hs
    · rcases configure_cases config s.mem s.nic with
        ⟨-, heq⟩ | ⟨-, -, heq⟩ | ⟨-, -, mac, reta, -, heq⟩
      · rw [pair, heq]
        exact hi
      · rw [pair, heq]
        exact ⟨hi.config, hi.mac⟩
      · rw [pair, heq] at he
        exact absurd rfl he
    · obtain ⟨m, st, rx, tx, thread, -, rfl⟩ := hs
      exact ⟨hi.config, hi.mac⟩
  · have hshape := step_sameShape hc h
    exact ⟨hshape.config.trans hi.config, hshape.macAddr ▸ hi.mac⟩

/-- As long as a configuration is in force, `poll` hands a frame to
`distribute` if and only if it parses and meets every condition. A frame
that parses and does not is rejected with the code of the first condition
it fails, and the early exits of the IPv4 checks are dead. -/
theorem receive_filter {s₀ : Sys} {bs : List Op} {fs : List Event}
    (hconf : s.step (.configure c) = some (s₀, .configure (.ok ())))
    (hperiod : sys.run s₀ bs = some (t, fs))
    (hkeep : ∀ e ∈ fs, e ≠ .configure (.ok ())) :
    ∃ mac, configuredMac c = some mac
    ∧ ∀ (malloc : Malloc) (now : UInt64) (f : Frame),
      ((∃ desc r, (pollFrame malloc now f t.pair).2 = .distributed desc r)
        ↔ (Parser.parse f {}).2 = .ok () ∧ SizeOk c f ∧ MacOk c mac f
          ∧ VlanOk c f ∧ LengthOk f ∧ ChecksumOk f)
      ∧ ∀ parser, Parser.parse f {} = (parser, .ok ()) →
        t.nic.validate f parser = firstFailure c mac f
        ∧ (∀ e, firstFailure c mac f = .error e →
          (pollFrame malloc now f t.pair).2 = .rejected e)
        ∧ ∀ ip, parser.ipv4 = some ip →
          ¬ ip.ihl * 4 < Validate.kIpv4MinHeaderBytes
          ∧ (Validate.checkIpTotalLength f parser = true →
            ¬ f.length < parser.l2Offset + ip.ihl * 4) := by
  -- the configuration stays in force up to the next successful configure
  have hin : InForce c t.nic := sys.run_invariant_along
    (fun hi hs he => step_inForce hi hs he)
    (sys.along_of_events hperiod hkeep) (configured_inForce hconf) hperiod
  refine ⟨t.nic.macAddr, hin.mac, fun malloc now f => ⟨?_, ?_⟩⟩
  · rw [← firstFailure_ok]
    -- either the frame parses and validate decides, or parse's own error
    -- is the verdict
    rcases pollFrame_verdict hin malloc now f t.mem with
      ⟨hg, hv⟩ | ⟨hg, e, hparse, hv⟩
    · have hok : (Parser.parse f {}).2 = .ok () :=
        congrArg Prod.snd (Parser.parse_of_grammatical hg {})
      cases hfirst : firstFailure c t.nic.macAddr f with
      | ok u =>
          rw [hfirst] at hv
          exact ⟨fun _ => ⟨hok, rfl⟩, fun _ => hv⟩
      | error e =>
          rw [hfirst] at hv
          constructor
          · rintro ⟨desc, r, hd⟩
            exact absurd (hd.symm.trans hv) (by simp)
          · rintro ⟨-, h⟩
            cases h
    · constructor
      · rintro ⟨desc, r, hd⟩
        exact absurd (hd.symm.trans hv) (by simp)
      · rintro ⟨hok, -⟩
        rw [hparse] at hok
        cases hok
  · intro parser hparse
    obtain ⟨hg, rfl⟩ := Parser.decode_of_parse hparse
    have hd := Parser.decoded_of_grammatical hg hparse
    refine ⟨validate_eq hin hg hd, fun e he => ?_, fun ip hip => ?_⟩
    · rcases pollFrame_verdict hin malloc now f t.mem with
        ⟨-, hv⟩ | ⟨hno, -⟩
      · rw [he] at hv
        exact hv
      · exact absurd hg hno
    · exact early_exits_dead hg hd hip

/-- A port with the address `2:0:0:0:0:1`. -/
def addressed : Config :=
  { macAddr := [50, 58, 48, 58, 48, 58, 48, 58, 48, 58, 49] }

/-- A UDP frame to that address, of the minimum length. -/
def udpFrame : Frame :=
  [2, 0, 0, 0, 0, 1, 0, 0, 0, 0, 0, 9, 0x08, 0x00,
    0x45, 0, 0, 46, 0, 0, 0, 0, 64, 17, 0x66, 0xbd, 10, 0, 0, 1, 10, 0, 0, 2,
    0, 7, 0, 8, 0, 26, 0, 0] ++ List.replicate 18 0

/-- A datagram to the configured address passes. -/
theorem receive_filter_udpFrame :
    ∃ s₀ desc r, (init ∅).step (.configure addressed)
        = some (s₀, .configure (.ok ()))
      ∧ (pollFrame .bump 0 udpFrame s₀.pair).2 = .distributed desc r := by
  have heval : ((init ∅).step (.configure addressed)).map Prod.snd
      = some (.configure (.ok ())) := by decide
  obtain ⟨⟨s₀, e⟩, hconf, rfl⟩ := Option.map_eq_some_iff.1 heval
  obtain ⟨mac, hmac, hfilter⟩ := receive_filter hconf
    (show sys.run s₀ [] = some (s₀, []) from rfl)
    (fun e he => absurd he (List.not_mem_nil))
  have hparsed : configuredMac addressed = some (udpFrame.bytesAt 0 6) := by
    decide
  obtain rfl : mac = udpFrame.bytesAt 0 6 :=
    Option.some.inj (hmac.symm.trans hparsed)
  have hpass : (Parser.parse udpFrame {}).2 = .ok () ∧ SizeOk addressed udpFrame
      ∧ MacOk addressed (udpFrame.bytesAt 0 6) udpFrame
      ∧ VlanOk addressed udpFrame ∧ LengthOk udpFrame
      ∧ ChecksumOk udpFrame := by decide +kernel
  obtain ⟨desc, r, hd⟩ := (hfilter .bump 0 udpFrame).1.2 hpass
  exact ⟨s₀, desc, r, hconf, hd⟩

end Sys

end Vnic
