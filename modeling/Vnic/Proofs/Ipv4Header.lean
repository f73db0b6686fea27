/-
The IPv4 header: its checksum as a law of arithmetic modulo `0xFFFF`, and
the frames that end inside it.

A header has at most thirty words, so the 32-bit accumulator holds their
plain sum, and two turns of the carry loop bring it to its residue. The
check therefore accepts exactly when the sum is a multiple of `0xFFFF`;
the sum is not zero, as the first word holds the version. What follows is
arithmetic: which values of the checksum field are accepted, and that a
change of one word to another residue is always seen. The changed frame
may announce another transport that does not fit; `parse` then stops
behind the IPv4 header, which is all the check looks at.

`parse` asks for the fixed 20 bytes and for the transport header behind
the options, but for nothing when it does not know the transport. So a
frame may end inside its options there, and only there.
-/
import Mathlib.Algebra.BigOperators.Group.List.Basic
import Mathlib.Data.List.GetD
import Vnic.Proofs.Padding

namespace Vnic

-- ================================================================ words

namespace Validate

private theorem length_words (bytes : List UInt8) :
    (words bytes).length = bytes.length / 2 := by
  induction bytes using words.induct with
  | case1 a b rest ih =>
      rw [words_cons, List.length_cons, ih, List.length_cons,
        List.length_cons]
      omega
  | case2 bytes hno =>
      cases bytes with
      | nil => rfl
      | cons a bytes =>
          cases bytes with
          | nil => simp [words]
          | cons b rest => exact absurd rfl (hno a b rest)

/-- Two bytes replaced are one word replaced. -/
private theorem words_set (bytes : List UInt8) {i : Nat} (a b : UInt8)
    (h : 2 * i + 1 < bytes.length) :
    words ((bytes.set (2 * i) a).set (2 * i + 1) b)
      = (words bytes).set i (a.toNat * 256 + b.toNat) := by
  induction i generalizing bytes with
  | zero =>
      match bytes, h with
      | x :: y :: rest, _ => rfl
  | succ i ih =>
      match bytes, h with
      | x :: y :: rest, h =>
          have hrest := ih rest (by simp only [List.length_cons] at h; omega)
          show words (x :: y :: ((rest.set (2 * i) a).set (2 * i + 1) b)) = _
          rw [words_cons, hrest]
          rfl

/-- The machine's sum over a header is the plain sum. -/
theorem toNat_sumWords_header {bytes : List UInt8} (h : bytes.length ≤ 60) :
    (sumWords bytes 0).toNat = (words bytes).sum := by
  have hsum := words_sum_le bytes
  rw [toNat_sumWords bytes 0]
  · exact Nat.zero_add _
  · show 0 + (words bytes).sum < 2 ^ 32
    omega

/-- A sum with nothing to fold ends the carry loop. -/
private theorem foldCarry_of_small {x : UInt32} (h : x >>> 16 = 0) (n : Nat) :
    foldCarry n x = x := by
  cases n with
  | zero => rfl
  | succ n =>
      unfold foldCarry
      rw [if_pos h]

/-- Folding in two stages. -/
private theorem foldCarry_add (k n : Nat) (x : UInt32) :
    foldCarry (k + n) x = foldCarry n (foldCarry k x) := by
  induction k generalizing x with
  | zero =>
      rw [Nat.zero_add]
      rfl
  | succ k ih =>
      rw [Nat.add_right_comm, foldCarry, foldCarry]
      split
      · next h => rw [foldCarry_of_small h]
      · exact ih _

/-- More than two turns of the carry loop change nothing. -/
private theorem foldCarry_stable (x : UInt32) {n : Nat} (hn : 2 ≤ n) :
    foldCarry n x = foldCarry 2 x := by
  obtain ⟨m, rfl⟩ := Nat.exists_eq_add_of_le hn
  rw [foldCarry_add, foldCarry_of_small (foldCarry_done x)]

end Validate

-- =============================================================== header

namespace Parser

open Vnic.Frame

variable {f : Frame}

/-- Once the IPv4 header is there, `parse` has found it, however it ends. -/
theorem parse_ipv4_header (hf : f.Framed) (h4 : f.networkType = 0x0800)
    (hat : f.Ipv4At f.l2Offset) (p : Parser) :
    (parse f p).1.l2 = f.ipv4L2 f.l2Offset
      ∧ (parse f p).1.l2Offset = f.l2Offset := by
  rcases parse_cases f p with ⟨-, hparse⟩ | ⟨-, q, e, hparse, hstop⟩
  · rw [hparse]
    unfold decode
    rw [if_pos h4]
    exact ⟨rfl, rfl⟩
  · rw [hparse]
    have hlen := hf.1
    cases hstop with
    | ethernet hshort => omega
    | tag _ htag hshort =>
        have := hf.2 htag
        omega
    | unsupported _ hne => exact absurd h4 hne
    | network _ hno => exact absurd ⟨h4, hat⟩ hno
    | ipv4 => exact ⟨rfl, rfl⟩
    | ipv6 _ h6 =>
        rw [h4] at h6
        cases h6

/-- Where the IPv4 header of an accepted frame is, and how long. -/
theorem ipv4_of_parse {p₀ p : Parser} {ip : IpHdr}
    (hp : parse f p₀ = (p, .ok ())) (hip : p.ipv4 = some ip) :
    f.Grammatical ∧ f.networkType = 0x0800 ∧ p.l2Offset = f.l2Offset
      ∧ ip.ihl = f.ihl f.l2Offset := by
  obtain ⟨hg, rfl⟩ := decode_of_parse hp
  have hd := decoded_of_grammatical hg hp
  have h4 : f.networkType = 0x0800 := by
    by_contra h4
    rw [hd.ipv4, if_neg h4] at hip
    cases hip
  obtain ⟨-, hip'⟩ := VNic.ipv4_of_decoded hd h4
  rw [hip'] at hip
  cases hip
  exact ⟨hg, h4, hd.l2Offset, (VNic.ipHdr_fields f f.l2Offset).1⟩

end Parser

namespace Frame

/-- A whole IPv4 header, options included, is in the frame. -/
structure WholeHeader (f : Frame) : Prop where
  framed : f.Framed
  type : f.networkType = 0x0800
  version : f.version f.l2Offset = 4
  ihl : 5 ≤ f.ihl f.l2Offset
  inside : f.l2Offset + 4 * f.ihl f.l2Offset ≤ f.length

variable {f : Frame}

private theorem WholeHeader.ipv4At (h : WholeHeader f) : f.Ipv4At f.l2Offset :=
    by
  have := h.ihl
  have := h.inside
  exact ⟨by omega, h.version⟩

/-- The header has as many bytes as it says. -/
theorem WholeHeader.length (h : WholeHeader f) :
    f.headerBytes.length = 4 * f.ihl f.l2Offset := by
  have := h.inside
  unfold headerBytes
  rw [List.length_take, List.length_drop]
  omega

private theorem ihl_le (f : Frame) (off : Nat) : f.ihl off ≤ 15 := by
  unfold ihl
  omega

/-- The first word of the header. -/
theorem WholeHeader.words_eq (h : WholeHeader f) :
    ∃ rest, Validate.words f.headerBytes
      = ((f.byte f.l2Offset).toNat * 256
          + (f.byte (f.l2Offset + 1)).toNat) :: rest := by
  have hihl := h.ihl
  have hin := h.inside
  have hlen := h.length
  -- a whole header has at least twenty bytes, which rules out the two
  -- short lists
  match hbytes : f.headerBytes with
  | [] =>
      rw [hbytes] at hlen
      simp only [List.length_nil] at hlen
      omega
  | [_] =>
      rw [hbytes] at hlen
      simp only [List.length_cons, List.length_nil] at hlen
      omega
  | a :: b :: rest =>
      refine ⟨Validate.words rest, ?_⟩
      have ha : f.headerBytes[0]? = some a := by rw [hbytes]; rfl
      have hb : f.headerBytes[1]? = some b := by rw [hbytes]; rfl
      unfold headerBytes at ha hb
      rw [List.getElem?_take_of_lt (by omega), List.getElem?_drop] at ha hb
      unfold byte
      rw [List.getD_eq_getElem?_getD, List.getD_eq_getElem?_getD, hb,
        show f.l2Offset = f.l2Offset + 0 from rfl, ha]
      rfl

/-- The sum of a header is not zero, as its version is not. -/
private theorem WholeHeader.sum_pos (h : WholeHeader f) :
    0 < (Validate.words f.headerBytes).sum := by
  obtain ⟨rest, hwords⟩ := h.words_eq
  have hver := h.version
  unfold Frame.version at hver
  rw [hwords, List.sum_cons]
  omega

/-- The check on a whole header, from whatever state `parse` left. -/
theorem WholeHeader.check_iff (h : WholeHeader f) (p : Parser) :
    Validate.checkIpv4Checksum f (Parser.parse f p).1 = true
      ↔ 0xFFFF ∣ (Validate.words f.headerBytes).sum := by
  obtain ⟨hl2, hoff⟩ := Parser.parse_ipv4_header h.framed h.type h.ipv4At p
  have hihl := h.ihl
  have hin := h.inside
  have hmax := f.ihl_le f.l2Offset
  have hproto : (Parser.parse f p).1.l2Protocol = .ipv4 := by
    unfold Parser.l2Protocol
    rw [hl2]
    rfl
  have hip : (Parser.parse f p).1.ipv4 = some ⟨f.bytesAt f.l2Offset 20⟩ := by
    unfold Parser.ipv4
    rw [hl2]
    rfl
  have hfield := (VNic.ipHdr_fields f f.l2Offset).1
  unfold Validate.checkIpv4Checksum
  rw [if_neg (not_not.2 hproto), hip, hoff]
  simp only [hfield, Validate.kIpv4MinHeaderBytes]
  -- IHL is at least five here, so the shortcut for a short header is not
  -- taken
  rw [if_neg (by omega), Nat.mul_comm (f.ihl f.l2Offset) 4]
  have hbytes : f.headerBytes.length ≤ 60 := by
    rw [h.length]
    omega
  rw [show (f.drop f.l2Offset).take (4 * f.ihl f.l2Offset) = f.headerBytes
    from rfl, Validate.checksum_iff hbytes,
    OnesComplement.sum_eq_residue (Validate.words_le _),
    OnesComplement.residue_eq_top_iff h.sum_pos]

/-- The checksum field and the other words. -/
theorem WholeHeader.sum_eq (h : WholeHeader f) {i : Nat}
    (hi : i < 2 * f.ihl f.l2Offset) :
    (Validate.words f.headerBytes).sum
      = (Validate.words f.headerBytes).getD i 0
        + ((Validate.words f.headerBytes).eraseIdx i).sum := by
  have hlt : i < (Validate.words f.headerBytes).length := by
    rw [Validate.length_words, h.length]
    omega
  rw [List.getD_eq_getElem _ _ hlt,
    List.CommMonoid.add_sum_eraseIdx hlt]

/-- A word of a header is a word. -/
theorem WholeHeader.word_le (f : Frame) (i : Nat) :
    (Validate.words f.headerBytes).getD i 0 ≤ 0xFFFF := by
  rcases Nat.lt_or_ge i (Validate.words f.headerBytes).length with hi | hi
  · rw [List.getD_eq_getElem _ _ hi]
    exact Validate.words_le _ _ (List.getElem_mem hi)
  · rw [List.getD_eq_default _ _ hi]
    omega

/-- The words but the checksum do not sum up to zero either. -/
theorem WholeHeader.others_pos (h : WholeHeader f) :
    0 < ((Validate.words f.headerBytes).eraseIdx 5).sum := by
  obtain ⟨rest, hwords⟩ := h.words_eq
  have hver := h.version
  unfold Frame.version at hver
  rw [hwords, List.eraseIdx_cons_succ, List.sum_cons]
  omega

/-- Which values of the checksum field are accepted. -/
theorem WholeHeader.field_iff (h : WholeHeader f) :
    0xFFFF ∣ (Validate.words f.headerBytes).sum
      ↔ (Validate.words f.headerBytes).getD 5 0 = 0xFFFF
            - OnesComplement.sum ((Validate.words f.headerBytes).eraseIdx 5)
          ∨ 0xFFFF - OnesComplement.sum
                ((Validate.words f.headerBytes).eraseIdx 5) = 0
            ∧ (Validate.words f.headerBytes).getD 5 0 = 0xFFFF := by
  have hihl := h.ihl
  have hothers : ∀ w ∈ (Validate.words f.headerBytes).eraseIdx 5,
      w ≤ 0xFFFF := fun w hw =>
    Validate.words_le _ w (List.mem_of_mem_eraseIdx hw)
  rw [h.sum_eq (i := 5) (by omega), Nat.add_comm,
    OnesComplement.sum_eq_residue hothers]
  exact OnesComplement.dvd_add_iff h.others_pos (WholeHeader.word_le f 5)

-- ========================================================== replacement

/-- The frame with word `i` of its IPv4 header replaced. -/
def replaceWord (f : Frame) (i : Nat) (a b : UInt8) : Frame :=
  (f.set (f.l2Offset + 2 * i) a).set (f.l2Offset + 2 * i + 1) b

variable {i : Nat} {a b : UInt8}

private theorem replaceWord_agree (f : Frame) (i : Nat) (a b : UInt8) :
    Agree f.l2Offset f (f.replaceWord i a b) := by
  refine ⟨by simp [replaceWord], fun j hj => ?_⟩
  unfold byte replaceWord
  rw [List.getD_eq_getElem?_getD, List.getElem?_set_ne (by omega),
    List.getElem?_set_ne (by omega), List.getD_eq_getElem?_getD]

/-- What stands in front of the IPv4 header decides where it is. -/
private theorem Agree.networkType_of_l2Offset {f' : Frame}
    (h : Agree f.l2Offset f f') : f'.networkType = f.networkType := by
  have hoff := VNic.l2Offset_ge f
  unfold Frame.networkType
  simp only [h.tagged hoff]
  by_cases htag : f.Tagged
  · have h18 : f.l2Offset = 18 := if_pos htag
    rw [if_pos htag, if_pos htag, h.be16 16 (by omega)]
  · rw [if_neg htag, if_neg htag, h.be16 12 hoff]

/-- Replacing a word of the frame replaces one of the header. -/
private theorem headerBytes_replaceWord
    (hihl : (f.replaceWord i a b).ihl f.l2Offset = f.ihl f.l2Offset) :
    (f.replaceWord i a b).headerBytes
      = (f.headerBytes.set (2 * i) a).set (2 * i + 1) b := by
  have hoff := (replaceWord_agree f i a b).l2Offset (VNic.l2Offset_ge f)
  unfold headerBytes
  rw [hoff, hihl]
  unfold replaceWord
  rw [Nat.add_assoc, List.drop_set, if_neg (by omega), List.drop_set,
    if_neg (by omega), List.take_set, List.take_set, Nat.add_sub_cancel_left,
    Nat.add_sub_cancel_left]

/-- If neither version nor length is touched, a header is left. -/
private theorem WholeHeader.replaceWord (h : WholeHeader f)
    (hver : (f.replaceWord i a b).version f.l2Offset
      = f.version f.l2Offset)
    (hihl : (f.replaceWord i a b).ihl f.l2Offset = f.ihl f.l2Offset) :
    WholeHeader (f.replaceWord i a b) := by
  have hagree := replaceWord_agree f i a b
  have hge := VNic.l2Offset_ge f
  have hoff := hagree.l2Offset hge
  refine ⟨⟨?_, ?_⟩, ?_, ?_, ?_, ?_⟩
  · rw [hagree.length]
    exact h.framed.1
  · rw [hagree.length, hagree.tagged hge]
    exact h.framed.2
  · rw [hagree.networkType_of_l2Offset]
    exact h.type
  · rw [hoff, hver]
    exact h.version
  · rw [hoff, hihl]
    exact h.ihl
  · rw [hoff, hihl, hagree.length]
    exact h.inside

/-- A word of another residue turns an accepted header into a rejected
one. -/
theorem WholeHeader.replaceWord_rejected (h : WholeHeader f)
    (hi : i < 2 * f.ihl f.l2Offset)
    (hver : (f.replaceWord i a b).version f.l2Offset
      = f.version f.l2Offset)
    (hihl : (f.replaceWord i a b).ihl f.l2Offset = f.ihl f.l2Offset)
    (hne : (a.toNat * 256 + b.toNat) % 0xFFFF
      ≠ (Validate.words f.headerBytes).getD i 0 % 0xFFFF)
    (hdvd : 0xFFFF ∣ (Validate.words f.headerBytes).sum) :
    ¬ 0xFFFF ∣ (Validate.words (f.replaceWord i a b).headerBytes).sum := by
  have hset : Validate.words (f.replaceWord i a b).headerBytes
      = (Validate.words f.headerBytes).set i (a.toNat * 256 + b.toNat) := by
    rw [headerBytes_replaceWord hihl, Validate.words_set]
    rw [h.length]
    omega
  have hlen : i < (Validate.words f.headerBytes).length := by
    rw [Validate.length_words, h.length]
    omega
  have hnew := (h.replaceWord hver hihl).sum_eq (i := i) (by
    rw [(replaceWord_agree f i a b).l2Offset (VNic.l2Offset_ge f), hihl]
    exact hi)
  rw [h.sum_eq hi] at hdvd
  rw [hset, List.eraseIdx_set_eq,
    List.getD_eq_getElem _ _ (by simpa using hlen),
    List.getElem_set_self] at hnew
  rw [hset, hnew]
  omega

end Frame

-- =============================================================== result

namespace Validate

open Vnic.Frame

/-- The header of a frame that parses as IPv4. -/
theorem wholeHeader_of_parse {f : Frame} {p₀ p : Parser} {ip : IpHdr}
    (hp : Parser.parse f p₀ = (p, .ok ())) (hip : p.ipv4 = some ip)
    (hin : p.l2Offset + 4 * ip.ihl ≤ f.length) :
    WholeHeader f ∧ p.l2Offset = f.l2Offset ∧ ip.ihl = f.ihl f.l2Offset := by
  obtain ⟨hg, h4, hoff, hihl⟩ := Parser.ipv4_of_parse hp hip
  have hdatagram := (Parser.grammatical_ipv4 hg.1 h4).1 hg
  rw [hoff, hihl] at hin
  exact ⟨⟨hg.1, h4, hdatagram.1.2, hdatagram.2.1, hin⟩, hoff, hihl⟩

/-- The checksum of an IPv4 header that is in the frame with its options:
the accumulator is the plain sum at every point of the word loop, the
carry loop ends after at most two turns, and the check accepts exactly the
multiples of `0xFFFF`. So the checksum field has to hold the complement of
the sum of the other words (all ones being as good as zero), and replacing
one word of an accepted header by one of another residue, version and IHL
as before, makes the check fail. -/
theorem checksum_law (f : Frame) (p₀ p : Parser) (ip : IpHdr)
    (hp : Parser.parse f p₀ = (p, .ok ())) (hip : p.ipv4 = some ip)
    (hin : p.l2Offset + 4 * ip.ihl ≤ f.length) :
    let header := (f.drop p.l2Offset).take (4 * ip.ihl)
    let ws := words header
    let c := 0xFFFF - OnesComplement.sum (ws.eraseIdx 5)
    (∀ k, (sumWords (header.take k) 0).toNat = (words (header.take k)).sum)
    ∧ ((foldCarry 2 (sumWords header 0)) >>> 16 = 0
      ∧ ∀ n, 2 ≤ n →
        foldCarry n (sumWords header 0) = foldCarry 2 (sumWords header 0))
    ∧ (checkIpv4Checksum f p = true ↔ 65535 ∣ ws.sum)
    ∧ (checkIpv4Checksum f p = true
        ↔ ws.getD 5 0 = c ∨ c = 0 ∧ ws.getD 5 0 = 0xFFFF)
    ∧ ∀ i a b p₁, i < ws.length →
        (f.replaceWord i a b).version p.l2Offset = f.version p.l2Offset →
        (f.replaceWord i a b).ihl p.l2Offset = f.ihl p.l2Offset →
        (a.toNat * 256 + b.toNat) % 65535 ≠ ws.getD i 0 % 65535 →
        checkIpv4Checksum f p = true →
        checkIpv4Checksum (f.replaceWord i a b)
          (Parser.parse (f.replaceWord i a b) p₁).1 = false := by
  obtain ⟨hwhole, hoff, hihl⟩ := wholeHeader_of_parse hp hip hin
  have hheader : (f.drop p.l2Offset).take (4 * ip.ihl) = f.headerBytes := by
    rw [hoff, hihl]
    rfl
  have hmax := f.ihl_le f.l2Offset
  have hcheck := hwhole.check_iff p₀
  rw [hp] at hcheck
  intro header ws c
  simp only [header, ws, c, hheader]
  refine ⟨?_, ⟨foldCarry_done _, fun n hn => foldCarry_stable _ hn⟩, hcheck,
    hcheck.trans hwhole.field_iff, ?_⟩
  · intro k
    apply toNat_sumWords_header
    rw [List.length_take, hwhole.length]
    omega
  · intro i a b p₁ hi hver hsame hne haccept
    rw [hoff] at hver hsame
    rw [length_words, hwhole.length] at hi
    -- the change is seen by the sum, and the sum is what the check of the
    -- new frame reads
    have hreject := hwhole.replaceWord_rejected (by omega) hver hsame hne
      (hcheck.mp haccept)
    rw [← (hwhole.replaceWord hver hsame).check_iff p₁] at hreject
    exact Bool.eq_false_iff.mpr hreject

/-- A frame that ends with its IPv4 header: IHL 6, protocol 47. -/
def optionFrame : Frame :=
  List.replicate 12 0 ++ [0x08, 0x00, 0x46, 0x00, 0x00, 0x18, 0x00, 0x00,
    0x00, 0x00, 0x40, 0x2f, 0x63, 0xb4, 10, 0, 0, 1, 10, 0, 0, 2,
    1, 1, 1, 0]

/-- Its checksum is accepted, and is not with another option word. -/
theorem checksum_law_optionFrame :
    checkIpv4Checksum optionFrame (Parser.parse optionFrame {}).1 = true
      ∧ checkIpv4Checksum (optionFrame.replaceWord 10 1 2)
          (Parser.parse (optionFrame.replaceWord 10 1 2) {}).1 = false := by
  have hp : Parser.parse optionFrame {}
      = ((Parser.parse optionFrame {}).1, .ok ()) :=
    Prod.ext rfl (by decide +kernel)
  obtain ⟨-, -, hdvd, -, hreplace⟩ := checksum_law optionFrame {} _
    ⟨optionFrame.bytesAt 14 20⟩ hp (by decide +kernel) (by decide +kernel)
  have haccept := hdvd.mpr (by decide +kernel)
  exact ⟨haccept, hreplace 10 1 2 {} (by decide +kernel) (by decide +kernel)
    (by decide +kernel) (by decide +kernel) haccept⟩

end Validate

-- =========================================================== truncation

namespace Parser

open Vnic.Frame

variable {f : Frame}

/-- If `parse` accepts a frame as IPv4, the whole header is in it. -/
def HeaderInside (f : Frame) (p₀ : Parser) : Prop :=
  ∀ p ip, parse f p₀ = (p, .ok ()) → p.l2Protocol = .ipv4 →
    p.ipv4 = some ip → p.l2Offset + 4 * ip.ihl ≤ f.length

/-- An IPv4 frame that announces a transport `parse` does not know and
ends inside its options. -/
structure EndsInOptions (f : Frame) : Prop where
  framed : f.Framed
  type : f.networkType = 0x0800
  header : f.Ipv4At f.l2Offset
  ihl : 5 ≤ f.ihl f.l2Offset
  protocol : f.byte (f.l2Offset + 9) ≠ 1 ∧ f.byte (f.l2Offset + 9) ≠ 6
    ∧ f.byte (f.l2Offset + 9) ≠ 17
  cut : f.length < f.l2Offset + 4 * f.ihl f.l2Offset

/-- Such a frame is accepted. -/
theorem EndsInOptions.grammatical (h : EndsInOptions f) : f.Grammatical := by
  rw [grammatical_ipv4 h.framed h.type]
  obtain ⟨hicmp, htcp, hudp⟩ := h.protocol
  exact ⟨h.header, h.ihl, fun he => absurd he htcp, fun he => absurd he hudp,
    fun he => absurd he hicmp⟩

/-- An accepted IPv4 frame that is cut ends inside its options. -/
theorem endsInOptions_of_cut (hg : f.Grammatical)
    (h4 : f.networkType = 0x0800)
    (hcut : f.length < f.l2Offset + 4 * f.ihl f.l2Offset) :
    EndsInOptions f := by
  obtain ⟨hat, hihl, htcp, hudp, hicmp⟩ := (grammatical_ipv4 hg.1 h4).1 hg
  refine ⟨hg.1, h4, hat, hihl, ⟨?_, ?_, ?_⟩, hcut⟩
  · intro he
    have := hicmp he
    omega
  · intro he
    have := htcp he
    omega
  · intro he
    have := hudp he
    omega

/-- The whole IPv4 header of an accepted frame is in it, exactly unless
the frame announces a transport `parse` does not know and ends inside its
options. -/
theorem headerInside_iff (f : Frame) (p₀ : Parser) :
    HeaderInside f p₀ ↔ ¬ EndsInOptions f := by
  constructor
  · intro h hends
    have hp := parse_of_grammatical hends.grammatical p₀
    have hd := decoded_of_grammatical hends.grammatical hp
    obtain ⟨hl2, hip⟩ := VNic.ipv4_of_decoded hd hends.type
    have hin := h _ _ hp hl2 hip
    have hcut := hends.cut
    rw [hd.l2Offset, (VNic.ipHdr_fields f f.l2Offset).1] at hin
    omega
  · intro h p ip hp _ hip
    obtain ⟨hg, h4, hoff, hihl⟩ := ipv4_of_parse hp hip
    rw [hoff, hihl]
    apply Nat.le_of_not_lt
    intro hcut
    exact h (endsInOptions_of_cut hg h4 hcut)

/-- A frame of 34 bytes with IHL 15 and protocol 47. -/
def cutFrame : Frame :=
  List.replicate 12 0 ++ [0x08, 0x00, 0x4f, 0x00, 0x00, 0x3c, 0x00, 0x00,
    0x00, 0x00, 0x40, 0x2f, 0x00, 0x00, 10, 0, 0, 1, 10, 0, 0, 2]

/-- It is accepted, though 40 bytes of its header are missing. -/
theorem not_headerInside_cutFrame :
    (parse cutFrame {}).2 = .ok () ∧ ¬ ∀ f p₀, HeaderInside f p₀ := by
  have hok : (parse cutFrame {}).2 = .ok () := by decide +kernel
  refine ⟨hok, fun h => ?_⟩
  have hin := h cutFrame {} (parse cutFrame {}).1 ⟨cutFrame.bytesAt 14 20⟩
    (Prod.ext rfl hok) (by decide +kernel) (by decide +kernel)
  revert hin
  decide +kernel

end Parser

end Vnic
