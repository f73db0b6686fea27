/-
What the XOR and CRC32 hashes tell apart, and what they do not look at.

Both see the tuple through its hash input alone. The ports are its last
four bytes and start at a multiple of four, so the XOR hash folds them
into four lanes of their own, and the CRC register takes them in as 32
bits that nothing overwrites. The key enters as one word: as a last XOR
in the one, as the seed in the other, and the register forgets no seed.

# The two arguments

- XOR: the hash is the XOR of the four-byte words of its input. A change
  in one word changes it, whatever the others are, and the port word is
  one of them in both versions.
- CRC: the register after the input is a linear map of the register
  before, plus something that the input alone decides. The map is a
  multiplication by a power of `X`, which the modulus, having a constant
  term, cannot bring to zero.
-/
import Vnic.Proofs.Crc32
import Vnic.Proofs.Toeplitz

namespace Vnic.Rss

open BitPoly Polynomial

variable {t t' : FiveTuple} {key key' : List UInt8} {hf : HashFunc}
  {protocol : Protocol} {symmetry : SymmetryMode}

-- ================================================================ lanes

/-- The four bytes of a word. -/
def Lanes (w : UInt32) (byte : Nat → UInt8) : Prop :=
  ∀ k < 4, ∀ j < 8,
    w.toBitVec.getLsbD (k * 8 + j) = (byte k).toBitVec.getLsbD j

/-- A word determines its lanes. -/
theorem Lanes.inj {w : UInt32} {byte byte' : Nat → UInt8}
    (h : Lanes w byte) (h' : Lanes w byte') {k : Nat} (hk : k < 4) :
    byte k = byte' k := by
  apply UInt8.toBitVec_inj.mp
  apply BitVec.eq_of_getLsbD_eq
  intro j hj
  rw [← h k hk j hj, ← h' k hk j hj]

/-- The bits of a byte shifted into lane `k`. -/
private theorem getLsbD_lane (b : UInt8) {k i : Nat} (hk : k < 4) (hi : i < 32)
    :
    (b.toUInt32 <<< UInt32.ofNat (k * 8)).toBitVec.getLsbD i
      = (decide (k * 8 ≤ i) && b.toBitVec.getLsbD (i - k * 8)) := by
  have hshift : (UInt32.ofNat (k * 8)).toBitVec.toNat % 32 = k * 8 := by
    rw [UInt32.toNat_toBitVec, UInt32.toNat_ofNat']
    omega
  have hnot : decide (i < k * 8) = !decide (k * 8 ≤ i) := by
    by_cases h : k * 8 ≤ i
    · simp [h, Nat.not_lt.mpr h]
    · simp [h, Nat.lt_of_not_le h]
  rw [UInt32.toBitVec_shiftLeft]
  show (b.toBitVec.setWidth 32
    <<< ((UInt32.ofNat (k * 8)).toBitVec % 32#32)).getLsbD i = _
  rw [BitVec.shiftLeft_eq', BitVec.toNat_umod,
    show (32#32).toNat = 32 from rfl, hshift, BitVec.getLsbD_shiftLeft,
    hnot, BitVec.getLsbD_setWidth]
  simp [hi, show i - k * 8 < 32 by omega]

/-- Of the byte in lane `m`, lane `k` shows everything or nothing. -/
private theorem getLsbD_lane_at (b : UInt8) {m k j : Nat} (hm : m < 4)
    (hk : k < 4)
    (hj : j < 8) :
    (b.toUInt32 <<< UInt32.ofNat (m * 8)).toBitVec.getLsbD (k * 8 + j)
      = (decide (m = k) && b.toBitVec.getLsbD j) := by
  rw [getLsbD_lane b hm (by omega)]
  rcases Nat.lt_trichotomy m k with h | rfl | h
  · rw [BitVec.getLsbD_of_ge b.toBitVec _ (by omega)]
    simp [Nat.ne_of_lt h]
  · simp
  · simp [Nat.ne_of_gt h, show ¬ m * 8 ≤ k * 8 + j by omega]

private theorem shiftLeft_lane_zero (w : UInt32) :
    w <<< UInt32.ofNat (0 * 8) = w := by
  apply UInt32.toNat_inj.mp
  simp

/-- The key word holds the first four key bytes. -/
theorem lanes_keyWord (key : List UInt8) :
    Lanes (keyWord key) fun k => key.getD k 0 := by
  intro k hk j hj
  have hlane := fun m hm =>
    getLsbD_lane_at (key.getD m 0) (m := m) (k := k) (j := j) hm hk hj
  have hword : keyWord key
      = (key.getD 0 0).toUInt32 <<< UInt32.ofNat (0 * 8)
        ||| (key.getD 1 0).toUInt32 <<< UInt32.ofNat (1 * 8)
        ||| (key.getD 2 0).toUInt32 <<< UInt32.ofNat (2 * 8)
        ||| (key.getD 3 0).toUInt32 <<< UInt32.ofNat (3 * 8) := by
    rw [shiftLeft_lane_zero]
    rfl
  rw [hword, UInt32.toBitVec_or, UInt32.toBitVec_or, UInt32.toBitVec_or,
    BitVec.getLsbD_or, BitVec.getLsbD_or, BitVec.getLsbD_or,
    hlane 0 (by omega), hlane 1 (by omega), hlane 2 (by omega),
    hlane 3 (by omega)]
  match k with
  | 0 => simp
  | 1 => simp
  | 2 => simp
  | 3 => simp

/-- Four bytes go to four lanes. -/
theorem lanes_xorLoop (b₀ b₁ b₂ b₃ : UInt8) :
    Lanes (xorLoop 0 [b₀, b₁, b₂, b₃] 0)
      fun k => [b₀, b₁, b₂, b₃].getD k 0 := by
  intro k hk j hj
  have hlane := fun b m hm =>
    getLsbD_lane_at b (m := m) (k := k) (j := j) hm hk hj
  have hloop : xorLoop 0 [b₀, b₁, b₂, b₃] 0
      = 0 ^^^ b₀.toUInt32 <<< UInt32.ofNat (0 * 8)
        ^^^ b₁.toUInt32 <<< UInt32.ofNat (1 * 8)
        ^^^ b₂.toUInt32 <<< UInt32.ofNat (2 * 8)
        ^^^ b₃.toUInt32 <<< UInt32.ofNat (3 * 8) := rfl
  rw [hloop, UInt32.toBitVec_xor, UInt32.toBitVec_xor, UInt32.toBitVec_xor,
    UInt32.toBitVec_xor, BitVec.getLsbD_xor, BitVec.getLsbD_xor,
    BitVec.getLsbD_xor, BitVec.getLsbD_xor, hlane b₀ 0 (by omega),
    hlane b₁ 1 (by omega), hlane b₂ 2 (by omega), hlane b₃ 3 (by omega)]
  match k with
  | 0 => simp
  | 1 => simp
  | 2 => simp
  | 3 => simp

/-- Two keys of at least four bytes have the same word exactly when their
first four bytes are the same. -/
theorem keyWord_inj (hkey : 4 ≤ key.length) (hkey' : 4 ≤ key'.length) :
    keyWord key = keyWord key' ↔ key.take 4 = key'.take 4 := by
  constructor
  · intro h
    have hbyte : ∀ k < 4, key.getD k 0 = key'.getD k 0 := fun k hk =>
      Lanes.inj (lanes_keyWord key) (h ▸ lanes_keyWord key') hk
    apply List.ext_getElem
    · simp only [List.length_take]
      omega
    · intro k hk hk'
      have hlt : k < 4 := by
        rw [List.length_take] at hk
        omega
      have hget := hbyte k hlt
      rw [List.getElem_take, List.getElem_take]
      rwa [List.getD_eq_getElem _ _ (by omega),
        List.getD_eq_getElem _ _ (by omega)] at hget
  · intro h
    have hbyte : ∀ k < 4, key.getD k 0 = key'.getD k 0 := by
      intro k hk
      have hget := congrArg (fun l : List UInt8 => l.getD k 0) h
      simpa [List.getD_eq_getElem?_getD, hk] using hget
    unfold keyWord
    rw [hbyte 0 (by omega), hbyte 1 (by omega), hbyte 2 (by omega),
      hbyte 3 (by omega)]

-- ================================================================== xor

/-- What came before stays apart from what is folded in. -/
private theorem xorLoop_acc (i : Nat) (data : List UInt8) (hash : UInt32) :
    xorLoop i data hash = hash ^^^ xorLoop i data 0 := by
  induction data generalizing i hash with
  | nil => simp [xorLoop]
  | cons byte rest ih =>
      rw [xorLoop, ih, xorLoop, ih _ (0 ^^^ _), UInt32.zero_xor,
        UInt32.xor_assoc]

/-- The loop goes on where it stopped. -/
private theorem xorLoop_append (i : Nat) (a b : List UInt8) (hash : UInt32) :
    xorLoop i (a ++ b) hash = xorLoop (i + a.length) b (xorLoop i a hash) := by
  induction a generalizing i hash with
  | nil => rfl
  | cons byte rest ih =>
      rw [List.cons_append, xorLoop, ih, xorLoop, List.length_cons,
        Nat.add_right_comm, Nat.add_assoc]

/-- The lanes repeat every four bytes. -/
theorem xorLoop_period {i : Nat} (hi : i % 4 = 0) (data : List UInt8)
    (hash : UInt32) : xorLoop i data hash = xorLoop 0 data hash := by
  have hgen : ∀ (data : List UInt8) (j : Nat) (hash : UInt32),
      xorLoop (i + j) data hash = xorLoop j data hash := by
    intro data
    induction data with
    | nil =>
        intro j hash
        rfl
    | cons byte rest ih =>
        intro j hash
        rw [xorLoop, xorLoop, Nat.add_assoc, ih,
          show (i + j) % 4 = j % 4 by omega]
  exact hgen data 0 hash

/-- Behind a whole number of words, four bytes can be told from four
others. -/
theorem xorLoop_ports {front ports ports' : List UInt8} {hash : UInt32}
    (hfront : front.length % 4 = 0) (hlen : ports.length = 4)
    (hlen' : ports'.length = 4)
    (h : xorLoop 0 (front ++ ports) hash = xorLoop 0 (front ++ ports') hash) :
    ports = ports' := by
  rw [xorLoop_append, xorLoop_append, Nat.zero_add, xorLoop_period hfront,
    xorLoop_period hfront, xorLoop_acc 0 ports, xorLoop_acc 0 ports',
    UInt32.xor_right_inj] at h
  match ports, ports', hlen, hlen' with
  | [b₀, b₁, b₂, b₃], [c₀, c₁, c₂, c₃], _, _ =>
      have hlane := fun k hk => Lanes.inj (lanes_xorLoop b₀ b₁ b₂ b₃)
        (h ▸ lanes_xorLoop c₀ c₁ c₂ c₃) (k := k) hk
      have h₀ : b₀ = c₀ := hlane 0 (by omega)
      have h₁ : b₁ = c₁ := hlane 1 (by omega)
      have h₂ : b₂ = c₂ := hlane 2 (by omega)
      have h₃ : b₃ = c₃ := hlane 3 (by omega)
      rw [h₀, h₁, h₂, h₃]

-- ================================================================== crc

private theorem coeff_ieee_zero : ieee.coeff 0 ≠ 0 := by
  unfold ieee
  rw [coeff_poly]
  decide

/-- The polynomial of the reversed word determines the word. -/
private theorem wordPoly_reverse_inj {a b : UInt32}
    (h : wordPoly (reverse a) = wordPoly (reverse b)) : a = b := by
  rw [← reverse_reverse a, ← reverse_reverse b, ← polyWord_wordPoly (reverse a),
    h, polyWord_wordPoly]

private theorem degree_wordPoly_lt (s : UInt32) :
    (wordPoly s).degree < ieee.degree := by
  rw [degree_ieee]
  exact degree_poly_lt _

/-- No input makes the register forget where it started. -/
theorem crcFold_seed_inj {d : List UInt8} {s s' : UInt32}
    (h : crcFold d s = crcFold d s') : s = s' := by
  apply wordPoly_reverse_inj
  apply eq_of_modByMonic_shift (n := 8 * d.length) (r := message d * X ^ 32)
    monic_ieee coeff_ieee_zero (degree_wordPoly_lt _) (degree_wordPoly_lt _)
  rw [add_comm, ← crcFold_poly, h, crcFold_poly, add_comm]

/-- Strings of one length are told apart by their bits. -/
theorem messageBits_inj {d d' : List UInt8} (hlen : d.length = d'.length)
    (h : messageBits d = messageBits d') : d = d' := by
  induction d generalizing d' with
  | nil =>
      cases d' with
      | nil => rfl
      | cons byte' rest' => simp at hlen
  | cons byte rest ih =>
      cases d' with
      | nil => simp at hlen
      | cons byte' rest' =>
          obtain ⟨hbyte, hrest⟩ :
              bits byte.toBitVec = bits byte'.toBitVec
                ∧ messageBits rest = messageBits rest' :=
            List.append_inj h (by simp)
          rw [UInt8.toBitVec_inj.mp (bits_injective hbyte),
            ih (by simpa using hlen) hrest]

/-- From one state, four bytes lead to different states than four
others. -/
theorem crcFold_ports {ports ports' : List UInt8} {s : UInt32}
    (hlen : ports.length = 4) (hlen' : ports'.length = 4)
    (h : crcFold ports s = crcFold ports' s) : ports = ports' := by
  have hdeg : ∀ d : List UInt8, d.length = 4 →
      (message d).degree < ieee.degree := by
    intro d hd
    rw [degree_ieee]
    have hlt := degree_ofBits_lt (messageBits d)
    rwa [length_messageBits, hd] at hlt
  have hpoly := congrArg (fun c => wordPoly (reverse c)) h
  simp only [crcFold_poly, hlen, hlen'] at hpoly
  have hmsg := eq_of_modByMonic_shift monic_ieee coeff_ieee_zero
    (hdeg ports hlen) (hdeg ports' hlen') hpoly
  apply messageBits_inj (hlen.trans hlen'.symm)
  apply ofBits_injective _ hmsg
  rw [length_messageBits, length_messageBits, hlen, hlen']

-- =============================================================== tuples

/-- The seed of `crc32_calc` in `CalcHash`. -/
def crcSeed (key : List UInt8) : UInt32 :=
  if 4 ≤ key.length then 0xFFFFFFFF ^^^ keyWord key else 0xFFFFFFFF

/-- What `CalcHash` does with a hash input that is not empty. -/
def hashInput (key : List UInt8) (hf : HashFunc) (input : List UInt8) :
    UInt32 :=
  match hf with
  | .toeplitz =>
      if key.length < kMinKeyBytes then 0 else key320HashCalc key input
  | .simpleXor => simpleXorCalc input key
  | .crc32 => crc32Calc input (crcSeed key)
  | .none => 0

/-- With an IP flag in the mask, the hash is that of the selected bytes. -/
theorem calcHash_input (hip : hasIp protocol = true) :
    calcHash t key hf protocol symmetry
      = hashInput key hf (flowBytes (canonical symmetry t) protocol) := by
  have hinput : buildHashInput (canonical symmetry t) protocol
      = flowBytes (canonical symmetry t) protocol := by
    unfold buildHashInput
    rw [hip]
    rfl
  have hlen := flowBytes_bounds (canonical symmetry t) protocol
  unfold calcHash
  show (if (buildHashInput (canonical symmetry t) protocol).length = 0
    then 0 else hashInput key hf
      (buildHashInput (canonical symmetry t) protocol)) = _
  rw [hinput, if_neg (by omega)]

/-- Without an IP bit there is nothing to hash. -/
theorem calcHash_no_ip (hip : hasIp protocol = false) :
    calcHash t key hf protocol symmetry = 0 := by
  unfold calcHash buildHashInput
  simp [hip]

/-- One version, and the same addresses of that version. -/
structure SameAddresses (t t' : FiveTuple) : Prop where
  version : t.version = t'.version
  v4 : t.version ≠ FiveTuple.kIpv6 →
    t.saddr4 = t'.saddr4 ∧ t.daddr4 = t'.daddr4
  v6 : t.version = FiveTuple.kIpv6 →
    t.saddr6 = t'.saddr6 ∧ t.daddr6 = t'.daddr6

/-- The address part of the hash input. -/
def addressBytes (t : FiveTuple) : List UInt8 :=
  if t.version = FiveTuple.kIpv6
    then t.saddr6.toList ++ t.daddr6.toList
    else t.saddr4.toList ++ t.daddr4.toList

/-- The port part of the hash input. -/
def portBytes (t : FiveTuple) : List UInt8 :=
  t.sport.toList ++ t.dport.toList

/-- The selected bytes: the addresses, then the ports if asked for. -/
theorem flowBytes_eq (t : FiveTuple) (protocol : Protocol) :
    flowBytes t protocol
      = addressBytes t ++ if hasL4 protocol then portBytes t else [] := rfl

/-- Equal addresses give equal bytes. -/
theorem SameAddresses.addressBytes_eq (h : SameAddresses t t') :
    addressBytes t = addressBytes t' := by
  unfold addressBytes
  rw [← h.version]
  by_cases hv : t.version = FiveTuple.kIpv6
  · rw [if_pos hv, if_pos hv, (h.v6 hv).1, (h.v6 hv).2]
  · rw [if_neg hv, if_neg hv, (h.v4 hv).1, (h.v4 hv).2]

private theorem addressBytes_length (t : FiveTuple) :
    (addressBytes t).length % 4 = 0 := by
  unfold addressBytes
  split
  · simp
  · simp

private theorem portBytes_length (t : FiveTuple) : (portBytes t).length = 4 :=
    by
  simp [portBytes]

private theorem portBytes_inj (h : portBytes t = portBytes t') :
    (t.sport, t.dport) = (t'.sport, t'.dport) := by
  obtain ⟨hs, hd⟩ := List.append_inj h (by simp)
  rw [List.Vector.toList_injective hs, List.Vector.toList_injective hd]

/-- Two tuples that hold the same flow. -/
structure SameFlow (t t' : FiveTuple) : Prop extends SameAddresses t t' where
  sport : t.sport = t'.sport
  dport : t.dport = t'.dport

/-- Equal flows give equal input. -/
theorem SameFlow.flowBytes_eq (h : SameFlow t t') (protocol : Protocol) :
    flowBytes t protocol = flowBytes t' protocol := by
  rw [Rss.flowBytes_eq, Rss.flowBytes_eq, h.addressBytes_eq]
  unfold portBytes
  rw [h.sport, h.dport]

theorem SameFlow.swapPorts (h : SameFlow t t') :
    SameFlow (swapPorts t) (swapPorts t') :=
  ⟨⟨h.version, h.v4, h.v6⟩, h.dport, h.sport⟩

theorem SameFlow.swap4 (h : SameFlow t t')
    (hv : t.version ≠ FiveTuple.kIpv6) : SameFlow (swap4 t) (swap4 t') :=
  ⟨⟨h.version, fun _ => (h.v4 hv).symm, h.v6⟩, h.dport, h.sport⟩

theorem SameFlow.swap6 (h : SameFlow t t')
    (hv : t.version = FiveTuple.kIpv6) : SameFlow (swap6 t) (swap6 t') :=
  ⟨⟨h.version, h.v4, fun _ => (h.v6 hv).symm⟩, h.dport, h.sport⟩

/-- The port tie-break sees the ports only. -/
private theorem SameFlow.portOrder (h : SameFlow t t') :
    SameFlow
      (if ntohs t.dport < ntohs t.sport then Rss.swapPorts t else t)
      (if ntohs t'.dport < ntohs t'.sport then Rss.swapPorts t' else t') := by
  rw [← h.sport, ← h.dport]
  split
  · exact h.swapPorts
  · exact h

/-- The canonical form, too, is blind to what is not hashed. -/
theorem SameFlow.makeSymmetric (h : SameFlow t t') :
    SameFlow (makeSymmetric t) (makeSymmetric t') := by
  unfold Rss.makeSymmetric
  by_cases hv : t.version = FiveTuple.kIpv6
  · have hv' : t'.version = FiveTuple.kIpv6 := h.version ▸ hv
    rw [if_pos hv, if_pos hv', ← (h.v6 hv).1, ← (h.v6 hv).2]
    cases memcmp t.saddr6.toList t.daddr6.toList with
    | lt => exact h
    | eq => exact h.portOrder
    | gt => exact h.swap6 hv
  · have hv' : t'.version ≠ FiveTuple.kIpv6 := h.version ▸ hv
    rw [if_neg hv, if_neg hv', ← (h.v4 hv).1, ← (h.v4 hv).2]
    simp only
    split
    · exact h.swap4 hv
    · split
      · exact h.portOrder
      · exact h

/-- Equal flows stay equal in canonical form. -/
theorem SameFlow.canonical (h : SameFlow t t') (symmetry : SymmetryMode) :
    SameFlow (canonical symmetry t) (canonical symmetry t') := by
  unfold Rss.canonical
  split
  · exact h.makeSymmetric
  · exact h

-- ============================================================== results

/-- No hash looks past the flow. -/
theorem calcHash_sameFlow (h : SameFlow t t') :
    calcHash t key hf protocol symmetry
      = calcHash t' key hf protocol symmetry := by
  cases hip : hasIp protocol with
  | false => rw [calcHash_no_ip hip, calcHash_no_ip hip]
  | true =>
      rw [calcHash_input hip, calcHash_input hip,
        (h.canonical symmetry).flowBytes_eq]

/-- The two hash functions that take the key as one word. -/
def WordKeyed (hf : HashFunc) : Prop :=
  hf = .simpleXor ∨ hf = .crc32

/-- They tell apart the last four bytes of an input of whole words. -/
theorem hashInput_last (hhf : WordKeyed hf) {front x y : List UInt8}
    (hfront : front.length % 4 = 0) (hx : x.length = 4) (hy : y.length = 4)
    (h : hashInput key hf (front ++ x) = hashInput key hf (front ++ y)) :
    x = y := by
  rcases hhf with rfl | rfl
  · have hloop : xorLoop 0 (front ++ x) 0 = xorLoop 0 (front ++ y) 0 := by
      unfold hashInput simpleXorCalc at h
      simp only at h
      split at h
      · exact (UInt32.xor_left_inj _).mp h
      · exact h
    exact xorLoop_ports hfront hx hy hloop
  · unfold hashInput at h
    simp only [crc32Calc_eq, UInt32.not_inj] at h
    unfold crcFold at h
    rw [List.foldl_append, List.foldl_append] at h
    exact crcFold_ports hx hy h

/-- Inputs of whole words that differ in the last four bytes at most. -/
theorem hashInput_of_take (hhf : WordKeyed hf) {a b : List UInt8} {n : Nat}
    (hn : n % 4 = 0) (ha : a.length = n + 4) (hb : b.length = n + 4)
    (htake : a.take n = b.take n)
    (h : hashInput key hf a = hashInput key hf b) : a = b := by
  have hlast : a.drop n = b.drop n := by
    rw [← List.take_append_drop n a, ← List.take_append_drop n b,
      htake] at h
    apply hashInput_last hhf _ _ _ h
    · simp only [List.length_take]
      omega
    · simp [ha]
    · simp [hb]
  rw [← List.take_append_drop n a, ← List.take_append_drop n b, htake, hlast]

/-- In plain mode the hash determines the ports. -/
private theorem calcHash_ports (hhf : WordKeyed hf)
    (hsym : symmetry ≠ .symmetric)
    (hip : hasIp protocol = true) (hl4 : hasL4 protocol = true)
    (haddr : SameAddresses t t')
    (h : calcHash t key hf protocol symmetry
      = calcHash t' key hf protocol symmetry) :
    (t.sport, t.dport) = (t'.sport, t'.dport) := by
  have hcanon : ∀ t : FiveTuple, canonical symmetry t = t :=
    fun t => if_neg hsym
  rw [calcHash_input hip, calcHash_input hip, hcanon, hcanon, flowBytes_eq,
    flowBytes_eq, hl4, if_pos rfl, if_pos rfl, ← haddr.addressBytes_eq] at h
  apply portBytes_inj
  exact hashInput_last hhf (addressBytes_length t) (portBytes_length t)
    (portBytes_length t') h

/-- Only the first four key bytes count. -/
theorem calcHash_take (hhf : WordKeyed hf)
    (htake : key.take 4 = key'.take 4) :
    calcHash t key hf protocol symmetry
      = calcHash t key' hf protocol symmetry := by
  have hlen : 4 ≤ key.length ↔ 4 ≤ key'.length := by
    have hcount := congrArg List.length htake
    rw [List.length_take, List.length_take] at hcount
    omega
  have hinput : ∀ input, hashInput key hf input = hashInput key' hf input := by
    intro input
    by_cases hkey : 4 ≤ key.length
    · have hkey' := hlen.mp hkey
      have hword := (keyWord_inj hkey hkey').mpr htake
      rcases hhf with rfl | rfl
      · simp [hashInput, simpleXorCalc, hkey, hkey', hword]
      · simp [hashInput, crcSeed, hkey, hkey', hword]
    · have hkey' : ¬ 4 ≤ key'.length := fun h => hkey (hlen.mpr h)
      rcases hhf with rfl | rfl
      · simp [hashInput, simpleXorCalc, hkey, hkey']
      · simp [hashInput, crcSeed, hkey, hkey']
  cases hip : hasIp protocol with
  | false => rw [calcHash_no_ip hip, calcHash_no_ip hip]
  | true => rw [calcHash_input hip, calcHash_input hip, hinput]

/-- The hash determines the first word of the key. -/
private theorem calcHash_keyWord (hhf : WordKeyed hf)
    (hip : hasIp protocol = true)
    (hkey : 4 ≤ key.length) (hkey' : 4 ≤ key'.length)
    (h : calcHash t key hf protocol symmetry
      = calcHash t key' hf protocol symmetry) :
    key.take 4 = key'.take 4 := by
  rw [calcHash_input hip, calcHash_input hip] at h
  rw [← keyWord_inj hkey hkey']
  rcases hhf with rfl | rfl
  · simp only [hashInput, simpleXorCalc, if_pos hkey, if_pos hkey'] at h
    exact (UInt32.xor_right_inj _).mp h
  · simp only [hashInput, crc32Calc_eq, UInt32.not_inj, crcSeed, if_pos hkey,
      if_pos hkey'] at h
    exact (UInt32.xor_right_inj _).mp (crcFold_seed_inj h)

/-- The XOR and CRC32 hashes tell apart the ports and the first four key
bytes, and look neither at `iproto` nor at the addresses of the other
version nor at the rest of the key. -/
theorem wordKeyed_separates (hf : HashFunc) (hhf : WordKeyed hf) :
    (∀ (t t' : FiveTuple) (key : List UInt8) (protocol : Protocol)
        (symmetry : SymmetryMode), symmetry ≠ .symmetric →
      hasIp protocol = true → hasL4 protocol = true → SameAddresses t t' →
      (t.sport, t.dport) ≠ (t'.sport, t'.dport) →
      calcHash t key hf protocol symmetry
        ≠ calcHash t' key hf protocol symmetry)
    ∧ (∀ (t : FiveTuple) (key key' : List UInt8) (protocol : Protocol)
        (symmetry : SymmetryMode), hasIp protocol = true →
      4 ≤ key.length → 4 ≤ key'.length →
      (calcHash t key hf protocol symmetry
          = calcHash t key' hf protocol symmetry
        ↔ key.take 4 = key'.take 4))
    ∧ (∀ (t t' : FiveTuple) (key key' : List UInt8) (protocol : Protocol)
        (symmetry : SymmetryMode), SameAddresses t t' →
      t.sport = t'.sport → t.dport = t'.dport → key.take 4 = key'.take 4 →
      calcHash t key hf protocol symmetry
        = calcHash t' key' hf protocol symmetry) := by
  refine ⟨?_, ?_, ?_⟩
  · intro t t' key protocol symmetry hsym hip hl4 haddr hne h
    exact hne (calcHash_ports hhf hsym hip hl4 haddr h)
  · intro t key key' protocol symmetry hip hkey hkey'
    constructor
    · exact calcHash_keyWord hhf hip hkey hkey'
    · exact calcHash_take hhf
  · intro t t' key key' protocol symmetry haddr hs hd htake
    rw [calcHash_sameFlow ⟨haddr, hs, hd⟩]
    exact calcHash_take hhf htake

/-- Two port pairs under CRC32, and two keys. -/
theorem wordKeyed_separates_reference :
    calcHash referenceTuple [1, 2, 3, 4] .crc32 5 .asymmetric
        ≠ calcHash { referenceTuple with sport := Bytes.zero 2 } [1, 2, 3, 4]
          .crc32 5 .asymmetric
      ∧ (calcHash referenceTuple [1, 2, 3, 4] .crc32 1 .asymmetric
          = calcHash referenceTuple [1, 2, 3, 4, 5] .crc32 1 .asymmetric
        ↔ [1, 2, 3, 4] = ([1, 2, 3, 4] : List UInt8))
      ∧ calcHash referenceTuple [1, 2, 3, 4] .crc32 5 .symmetric
        = calcHash { referenceTuple with iproto := 17 } [1, 2, 3, 4, 5]
          .crc32 5 .symmetric := by
  have hsep := wordKeyed_separates .crc32 (Or.inr rfl)
  refine ⟨?_, ?_, ?_⟩
  · exact hsep.1 _ _ _ _ _ (by decide) (by decide) (by decide)
      ⟨rfl, fun _ => ⟨rfl, rfl⟩, fun _ => ⟨rfl, rfl⟩⟩ (by decide)
  · exact hsep.2.1 _ _ _ _ _ (by decide) (by decide) (by decide)
  · exact hsep.2.2 _ _ _ _ _ _
      ⟨rfl, fun _ => ⟨rfl, rfl⟩, fun _ => ⟨rfl, rfl⟩⟩ rfl rfl rfl

end Vnic.Rss
