/-
The field mask of RSS, bit by bit.

The flags name one protocol each, but `HasIp` and `HasL4` ask for any of
them: a mask with some IP bit hashes the addresses of both versions, and
with some L4 bit the ports of every protocol. So a tuple whose own bit is
missing is hashed all the same as soon as a sister bit is set.

When that happens the hash does depend on the fields that should be left
out, unless the hash function looks at nothing: `NONE`, Toeplitz with a
short key, or Toeplitz with a key whose bits over those fields are zero.
A base tuple with the lowest source and the highest destination address
shows it: flipping any one bit of it leaves the order of the addresses as
it is, so the symmetric mode does not interfere.
-/
import Vnic.Proofs.Separation
import Vnic.Proofs.Symmetric

namespace Vnic.Rss

open BitString

variable {t t' : FiveTuple} {key : List UInt8} {hf : HashFunc}
  {mask : Protocol} {symmetry : SymmetryMode} {version iproto : UInt8}

-- ========================================================= the property

/-- The mask lacks the bit of the IP version. -/
def LacksIp (mask : Protocol) (version : UInt8) : Prop :=
  (version = FiveTuple.kIpv4 ∧ mask &&& Protocol.ipv4 = 0)
    ∨ (version = FiveTuple.kIpv6 ∧ mask &&& Protocol.ipv6 = 0)

/-- The mask lacks the bit of the L4 protocol: TCP, UDP or SCTP. -/
def LacksL4 (mask : Protocol) (iproto : UInt8) : Prop :=
  (iproto = 6 ∧ mask &&& Protocol.tcp = 0)
    ∨ (iproto = 17 ∧ mask &&& Protocol.udp = 0)
    ∨ (iproto = 132 ∧ mask &&& Protocol.sctp = 0)

/-- The mask selects what is hashed of the tuples of a version and an L4
protocol. -/
def Selects (hf : HashFunc) (key : List UInt8) (symmetry : SymmetryMode)
    (mask : Protocol) (version iproto : UInt8) : Prop :=
  ∀ t t' : FiveTuple, t.version = version → t'.version = version →
    t.iproto = iproto → t'.iproto = iproto →
    (LacksL4 mask iproto → SameAddresses t t' →
      calcHash t key hf mask symmetry = calcHash t' key hf mask symmetry)
    ∧ (LacksIp mask version →
      calcHash t key hf mask symmetry = calcHash t' key hf mask symmetry)

/-- The number of address bytes in a hash input. -/
def addressLength (version : UInt8) : Nat :=
  if version = FiveTuple.kIpv6 then 32 else 8

/-- The number of bytes in a hash input. -/
def flowLength (version : UInt8) (mask : Protocol) : Nat :=
  addressLength version + if hasL4 mask then 4 else 0

/-- The hash function under this key looks at no input byte from `lo` up
to `hi`. -/
def Ignores (hf : HashFunc) (key : List UInt8) (lo hi : Nat) : Prop :=
  hf = .none ∨ hf = .toeplitz ∧ (key.length < kMinKeyBytes
    ∨ ∀ i, 8 * lo ≤ i → i < 8 * hi + 31 → ofBytes key i = false)

/-- Where a tuple is hashed though its own bit is missing, the hash
function does not look there. -/
def Respects (hf : HashFunc) (key : List UInt8) (mask : Protocol)
    (version iproto : UInt8) : Prop :=
  hasIp mask = true →
    (LacksIp mask version → Ignores hf key 0 (flowLength version mask))
    ∧ (LacksL4 mask iproto → hasL4 mask = true →
        Ignores hf key (addressLength version) (flowLength version mask))

-- ========================================================== sufficiency

private theorem makeSymmetric_version (t : FiveTuple) :
    (makeSymmetric t).version = t.version := by
  rcases makeSymmetric_cases t with h | h
  · rw [h]
  · rw [h]
    unfold reversed
    split
    · rfl
    · rfl

private theorem canonical_version (symmetry : SymmetryMode) (t : FiveTuple) :
    (canonical symmetry t).version = t.version := by
  unfold canonical
  split
  · exact makeSymmetric_version t
  · rfl

private theorem length_flowBytes_canonical (t : FiveTuple) (mask : Protocol)
    (symmetry : SymmetryMode) :
    (flowBytes (canonical symmetry t) mask).length
      = flowLength t.version mask := by
  rw [flowBytes_length, canonical_version]
  rfl

/-- Exchanging ports or not, the addresses stay. -/
private theorem SameAddresses.swapPorts_or {c c' : Prop} [Decidable c]
    [Decidable c'] (h : SameAddresses t t') :
    SameAddresses (if c then swapPorts t else t)
      (if c' then swapPorts t' else t') := by
  split <;> split
  · exact ⟨h.version, h.v4, h.v6⟩
  · exact ⟨h.version, h.v4, h.v6⟩
  · exact ⟨h.version, h.v4, h.v6⟩
  · exact h

/-- Equal addresses stay equal in canonical form. -/
theorem SameAddresses.canonical (h : SameAddresses t t')
    (symmetry : SymmetryMode) :
    SameAddresses (canonical symmetry t) (canonical symmetry t') := by
  unfold Rss.canonical
  split
  · unfold makeSymmetric
    by_cases hv : t.version = FiveTuple.kIpv6
    · have hv' : t'.version = FiveTuple.kIpv6 := h.version ▸ hv
      rw [if_pos hv, if_pos hv', ← (h.v6 hv).1, ← (h.v6 hv).2]
      cases memcmp t.saddr6.toList t.daddr6.toList with
      | lt => exact h
      | eq => exact h.swapPorts_or
      | gt => exact ⟨h.version, h.v4, fun _ => (h.v6 hv).symm⟩
    · have hv' : t'.version ≠ FiveTuple.kIpv6 := h.version ▸ hv
      rw [if_neg hv, if_neg hv', ← (h.v4 hv).1, ← (h.v4 hv).2]
      simp only
      split
      · exact ⟨h.version, fun _ => (h.v4 hv).symm, h.v6⟩
      · split
        · exact h.swapPorts_or
        · exact h
  · exact h

/-- Inputs that agree in front of the bytes looked past. -/
theorem calcHash_ignores {lo : Nat} (hip : hasIp mask = true)
    (hv : t.version = version) (hv' : t'.version = version)
    (hig : Ignores hf key lo (flowLength version mask))
    (htake : (flowBytes (canonical symmetry t) mask).take lo
      = (flowBytes (canonical symmetry t') mask).take lo) :
    calcHash t key hf mask symmetry = calcHash t' key hf mask symmetry := by
  rcases hig with rfl | ⟨rfl, hig⟩
  · rw [calcHash_input hip, calcHash_input hip]
    rfl
  · by_cases hkey : key.length < kMinKeyBytes
    · rw [calcHash_input hip, calcHash_input hip]
      simp only [hashInput, if_pos hkey]
    · have hzero := hig.resolve_left hkey
      have hlen := Nat.le_of_not_lt hkey
      apply UInt32.toNat_inj.1
      rw [calcHash_spec hlen hip, calcHash_spec hlen hip,
        length_flowBytes_canonical, length_flowBytes_canonical, hv, hv']
      apply toeplitz_congr_input
      intro i hi
      rcases Nat.lt_or_ge i (8 * lo) with hlo | hlo
      · left
        rw [← ofBytes_take _ hlo, htake, ofBytes_take _ hlo]
      · right
        rw [number_eq_zero_iff]
        intro k hk
        exact hzero (i + k) (by omega) (by omega)

private theorem length_addressBytes_eq (t : FiveTuple) :
    (addressBytes t).length = addressLength t.version := by
  unfold addressBytes addressLength
  split
  · simp
  · simp

/-- Where the condition holds, the mask selects what is hashed. -/
private theorem selects_of_respects (h : Respects hf key mask version iproto) :
    Selects hf key symmetry mask version iproto := by
  intro t t' hv hv' _ _
  cases hip : hasIp mask with
  | false => simp [calcHash_no_ip hip]
  | true =>
      obtain ⟨hver, hl4⟩ := h hip
      constructor
      · intro hlacks haddr
        have hcanon := (haddr.canonical symmetry).addressBytes_eq
        cases hports : hasL4 mask with
        | false =>
            rw [calcHash_input hip, calcHash_input hip, flowBytes_eq,
              flowBytes_eq, hports, hcanon]
            rfl
        | true =>
            apply calcHash_ignores hip hv hv' (hl4 hlacks hports)
            have hlen : ∀ u : FiveTuple, u.version = version →
                (addressBytes (canonical symmetry u)).length
                  = addressLength version := by
              intro u hu
              rw [length_addressBytes_eq, canonical_version, hu]
            rw [flowBytes_eq, flowBytes_eq, List.take_left' (hlen t hv),
              List.take_left' (hlen t' hv'), hcanon]
      · intro hlacks
        exact calcHash_ignores hip hv hv' (hver hlacks) (by simp)

-- ============================================================ necessity

/-- The bytes from `off` on of a string that is zero but for byte `k`. -/
def pick (n off k : Nat) (v : UInt8) : Bytes n :=
  List.Vector.ofFn fun j => if off + j = k then v else 0

private theorem pick_toList (n off k : Nat) (v : UInt8) :
    (pick n off k v).toList
      = (List.range' off n).map fun j => if j = k then v else 0 := by
  unfold pick
  rw [List.Vector.toList_ofFn]
  apply List.ext_getElem
  · simp
  · intro i hi hi'
    simp

/-- The tuple whose hash input is zero but for byte `k`. -/
def unit (version iproto : UInt8) (k : Nat) (v : UInt8) : FiveTuple :=
  { version := version
    saddr4 := pick 4 0 k v
    daddr4 := pick 4 4 k v
    saddr6 := pick 16 0 k v
    daddr6 := pick 16 16 k v
    sport := pick 2 (addressLength version) k v
    dport := pick 2 (addressLength version + 2) k v
    iproto := iproto }

/-- The input bytes of a tuple that has one byte set. -/
private theorem flowBytes_unit (version iproto : UInt8) (k : Nat) (v : UInt8)
    (mask : Protocol) :
    flowBytes (unit version iproto k v) mask
      = (List.range (flowLength version mask)).map
          fun j => if j = k then v else 0 := by
  unfold flowBytes unit flowLength addressLength
  simp only [pick_toList, ← List.map_append]
  split <;> split
  · simp only [← List.map_append, List.range_eq_range']
    rfl
  · simp only [List.append_nil, List.range_eq_range']
    rfl
  · simp only [← List.map_append, List.range_eq_range']
    rfl
  · simp only [List.append_nil, List.range_eq_range']
    rfl

/-- The byte that has bit `p` of the string set. -/
def bitAt (p : Nat) : UInt8 := UInt8.ofNat (2 ^ (7 - p % 8))

/-- And the bits of one that has one bit set. -/
private theorem ofBytes_unit {p i : Nat} (hi : i < 8 * flowLength version mask)
    :
    ofBytes (flowBytes (unit version iproto (p / 8) (bitAt p)) mask) i
      = decide (i = p) := by
  rw [flowBytes_unit]
  unfold ofBytes ofStream
  beta_reduce
  rw [List.getD_eq_getElem _ _ (by simp; omega), List.getElem_map,
    List.getElem_range]
  by_cases hk : i / 8 = p / 8
  · have hpow : 2 ^ (7 - p % 8) < 256 :=
      Nat.pow_lt_pow_right (by omega) (by omega : 7 - p % 8 < 8)
    rw [if_pos hk, bitAt, UInt8.toNat_ofNat_of_lt' hpow,
      Nat.testBit_two_pow]
    apply decide_eq_decide.mpr
    omega
  · rw [if_neg hk]
    have hne : i ≠ p := fun h => hk (by rw [h])
    simp [hne]

/-- The lowest source and the highest destination. -/
def base (version iproto : UInt8) : FiveTuple :=
  { version := version
    saddr4 := List.Vector.replicate 4 0
    daddr4 := List.Vector.replicate 4 255
    saddr6 := List.Vector.replicate 16 0
    daddr6 := List.Vector.replicate 16 255
    sport := List.Vector.replicate 2 0
    dport := List.Vector.replicate 2 0
    iproto := iproto }

/-- The base tuple with one bit of its hash input flipped. -/
def flip (version iproto : UInt8) (p : Nat) : FiveTuple :=
  xorTuple (base version iproto) (unit version iproto (p / 8) (bitAt p))

/-- A tuple whose source is below its destination is canonical. -/
private theorem canonical_of_lt
    (h4 : t.version ≠ FiveTuple.kIpv6 → ntohl t.saddr4 < ntohl t.daddr4)
    (h6 : t.version = FiveTuple.kIpv6 →
      memcmp t.saddr6.toList t.daddr6.toList = .lt)
    (symmetry : SymmetryMode) : canonical symmetry t = t := by
  unfold canonical
  split
  · unfold makeSymmetric
    by_cases hv : t.version = FiveTuple.kIpv6
    · rw [if_pos hv, h6 hv]
    · have hlt := h4 hv
      rw [if_neg hv]
      simp only
      rw [if_neg (by omega), if_neg (by omega)]
  · rfl

private theorem memcmp_of_first_lt {n : Nat} {a b : Bytes (n + 1)}
    (h : a.get 0 < b.get 0) : memcmp a.toList b.toList = .lt := by
  rw [← List.Vector.cons_head_tail a, ← List.Vector.cons_head_tail b,
    List.Vector.toList_cons, List.Vector.toList_cons, memcmp]
  rw [List.Vector.get_zero, List.Vector.get_zero] at h
  exact if_pos h

private theorem ntohl_of_first_lt {a b : Bytes 4} (h : a.get 0 < b.get 0) :
    ntohl a < ntohl b := by
  have h₀ := UInt8.lt_iff_toNat_lt.mp h
  have h₁ := (a.get 1).toNat_lt
  have h₂ := (a.get 2).toNat_lt
  have h₃ := (a.get 3).toNat_lt
  unfold ntohl
  omega

/-- With one bit flipped, the first source byte stays below the first
destination byte. -/
private theorem first_flipped_lt {off p : Nat} (hoff : 0 < off) :
    (0 : UInt8) ^^^ (if 0 = p / 8 then bitAt p else 0)
      < 255 ^^^ (if off = p / 8 then bitAt p else 0) := by
  have hbit : ∀ r < 8, (0 : UInt8) ^^^ UInt8.ofNat (2 ^ (7 - r)) < 255
      ∧ (0 : UInt8) < 255 ^^^ UInt8.ofNat (2 ^ (7 - r)) := by
    decide
  have hp := hbit (p % 8) (Nat.mod_lt p (by omega))
  by_cases h0 : 0 = p / 8
  · rw [if_pos h0, if_neg (by omega)]
    exact hp.1
  · rw [if_neg h0]
    by_cases h : off = p / 8
    · rw [if_pos h]
      exact hp.2
    · rw [if_neg h]
      decide

/-- One flipped bit does not exchange the order of the addresses. -/
private theorem canonical_flip (symmetry : SymmetryMode)
    (version iproto : UInt8)
    (p : Nat) :
    canonical symmetry (flip version iproto p) = flip version iproto p := by
  apply canonical_of_lt
  · intro _
    apply ntohl_of_first_lt
    simp only [flip, xorTuple, base, unit, pick, List.Vector.zipWith_get,
      List.Vector.get_replicate, List.Vector.get_ofFn]
    exact first_flipped_lt (by omega)
  · intro _
    apply memcmp_of_first_lt
    simp only [flip, xorTuple, base, unit, pick, List.Vector.zipWith_get,
      List.Vector.get_replicate, List.Vector.get_ofFn]
    exact first_flipped_lt (by omega)

/-- The base tuple is canonical already: its source is below its
destination. -/
private theorem canonical_base (symmetry : SymmetryMode)
    (version iproto : UInt8) :
    canonical symmetry (base version iproto) = base version iproto := by
  apply canonical_of_lt
  · intro _
    apply ntohl_of_first_lt
    simp [base]
  · intro _
    apply memcmp_of_first_lt
    simp [base]

/-- Flipping one bit of a tuple flips one bit of the input. -/
private theorem flowBytes_flip (version iproto : UInt8) (p : Nat)
    (mask : Protocol) :
    flowBytes (flip version iproto p) mask
      = List.zipWith (· ^^^ ·) (flowBytes (base version iproto) mask)
          (flowBytes (unit version iproto (p / 8) (bitAt p)) mask) := by
  apply flowBytes_xorTuple
  rfl

private theorem length_flowBytes_base (version iproto : UInt8)
    (mask : Protocol) :
    (flowBytes (base version iproto) mask).length
      = flowLength version mask := by
  rw [flowBytes_length]
  rfl

private theorem length_flowBytes_flip (version iproto : UInt8) (p : Nat)
    (mask : Protocol) :
    (flowBytes (flip version iproto p) mask).length
      = flowLength version mask := by
  rw [flowBytes_length]
  rfl

/-- Exactly one input bit differs. -/
private theorem ofBytes_flip (version iproto : UInt8) {p i : Nat}
    (hi : i < 8 * flowLength version mask) :
    ofBytes (flowBytes (flip version iproto p) mask) i
      = (ofBytes (flowBytes (base version iproto) mask) i ^^ decide (i = p)) := by
  rw [flowBytes_flip, ofBytes_xor, ofBytes_unit hi]
  rw [length_flowBytes_base, flowBytes_length]
  rfl

/-- Under Toeplitz a flipped bit shows its window of the key. -/
private theorem number_of_flip {p : Nat}
    (hkey : kToeplitzKeyBytes ≤ key.length)
    (hip : hasIp mask = true) (hp : p < 8 * flowLength version mask)
    (h : calcHash (flip version iproto p) key .toeplitz mask symmetry
      = calcHash (base version iproto) key .toeplitz mask symmetry) :
    number (ofBytes key) p 32 = 0 := by
  have hsingle : toeplitz 32 (ofBytes key) (fun i => decide (i = p))
      (8 * flowLength version mask) = number (ofBytes key) p 32 :=
    toeplitz_single hp fun i _ => rfl
  have hsplit : toeplitz 32 (ofBytes key)
      (ofBytes (flowBytes (flip version iproto p) mask))
        (8 * flowLength version mask)
      = toeplitz 32 (ofBytes key)
          (ofBytes (flowBytes (base version iproto) mask))
          (8 * flowLength version mask)
        ^^^ number (ofBytes key) p 32 := by
    rw [← hsingle, ← toeplitz_xor]
    apply toeplitz_congr_input
    intro i hi
    exact Or.inl (ofBytes_flip version iproto hi)
  have hnat := congrArg UInt32.toNat h
  rw [calcHash_spec hkey hip, calcHash_spec hkey hip, canonical_flip,
    canonical_base, length_flowBytes_flip, length_flowBytes_base,
    hsplit] at hnat
  have hxor := congrArg (toeplitz 32 (ofBytes key)
    (ofBytes (flowBytes (base version iproto) mask))
    (8 * flowLength version mask) ^^^ ·) hnat
  simpa [← Nat.xor_assoc] using hxor

private theorem flowLength_bounds (version : UInt8) (mask : Protocol) :
    8 ≤ flowLength version mask ∧ flowLength version mask % 4 = 0 := by
  unfold flowLength addressLength
  split <;> split <;> omega

/-- The last bit flipped: the bytes before the last four are the same. -/
private theorem take_flip {p : Nat} (hp : 8 * flowLength version mask ≤ p + 32)
    :
    (flowBytes (flip version iproto p) mask).take (flowLength version mask - 4)
      = (flowBytes (base version iproto) mask).take
          (flowLength version mask - 4) := by
  apply List.ext_getElem
  · rw [List.length_take, List.length_take, length_flowBytes_flip,
      length_flowBytes_base]
  · intro j hj hj'
    rw [List.length_take] at hj
    have hne : j ≠ p / 8 := by omega
    simp [flowBytes_flip, flowBytes_unit, hne]

/-- A word-keyed hash sees a flip in the last four bytes. -/
private theorem calcHash_flip_ne (hhf : WordKeyed hf) (hip : hasIp mask = true)
    {p : Nat} (hp : 8 * flowLength version mask ≤ p + 32)
    (hlt : p < 8 * flowLength version mask) :
    calcHash (flip version iproto p) key hf mask symmetry
      ≠ calcHash (base version iproto) key hf mask symmetry := by
  intro h
  have hlen := flowLength_bounds version mask
  rw [calcHash_input hip, calcHash_input hip, canonical_flip,
    canonical_base] at h
  have hsame := hashInput_of_take hhf (n := flowLength version mask - 4)
    (by omega) (by rw [length_flowBytes_flip]; omega)
    (by rw [length_flowBytes_base]; omega) (take_flip hp) h
  have hbit := ofBytes_flip version iproto (p := p) hlt
  rw [hsame] at hbit
  simp at hbit

/-- A hash that no flip from byte `lo` on changes looks at none of it. -/
theorem ignores_of_flips {lo : Nat} (hip : hasIp mask = true)
    (hlo : lo + 4 ≤ flowLength version mask)
    (h : ∀ p, 8 * lo ≤ p → p < 8 * flowLength version mask →
      calcHash (flip version iproto p) key hf mask symmetry
        = calcHash (base version iproto) key hf mask symmetry) :
    Ignores hf key lo (flowLength version mask) := by
  have hword : ¬ WordKeyed hf := by
    intro hhf
    exact calcHash_flip_ne hhf hip (p := 8 * flowLength version mask - 1)
      (by omega) (by omega) (h _ (by omega) (by omega))
  cases hf with
  | none => exact Or.inl rfl
  | simpleXor => exact absurd (Or.inl rfl) hword
  | crc32 => exact absurd (Or.inr rfl) hword
  | toeplitz =>
      refine Or.inr ⟨rfl, ?_⟩
      rcases Nat.lt_or_ge key.length kMinKeyBytes with hkey | hkey
      · exact Or.inl hkey
      · right
        intro i hlow hhigh
        -- the window of the last position at or before `i` covers bit `i`
        obtain ⟨p, hplow, hphigh, hpi, hip32⟩ : ∃ p, 8 * lo ≤ p
            ∧ p < 8 * flowLength version mask ∧ p ≤ i ∧ i < p + 32 := by
          rcases Nat.lt_or_ge i (8 * flowLength version mask) with hi | hi
          · exact ⟨i, hlow, hi, Nat.le_refl i, by omega⟩
          · exact ⟨8 * flowLength version mask - 1, by omega, by omega,
              by omega, by omega⟩
        have hnum := number_of_flip hkey hip hphigh (h p hplow hphigh)
        have hbit := number_eq_zero_iff.mp hnum (i - p) (by omega)
        rwa [Nat.add_sub_cancel' hpi] at hbit

private theorem zipWith_pick {n off k : Nat} {v : UInt8} (x : Bytes n)
    (h : off + n ≤ k) : .zipWith (· ^^^ ·) x (pick n off k v) = x := by
  apply List.Vector.ext
  intro i
  have hne : off + i.val ≠ k := by omega
  simp [pick, hne]

/-- A flip behind the addresses leaves them alone. -/
theorem sameAddresses_flip (iproto : UInt8) {p : Nat}
    (hp : 8 * addressLength version ≤ p) :
    SameAddresses (flip version iproto p) (base version iproto) := by
  refine ⟨rfl, ?_, ?_⟩
  · intro hv
    have hlen : addressLength version = 8 := if_neg hv
    exact ⟨zipWith_pick _ (by omega), zipWith_pick _ (by omega)⟩
  · intro hv
    have hlen : addressLength version = 32 := if_pos hv
    exact ⟨zipWith_pick _ (by omega), zipWith_pick _ (by omega)⟩

/-- Where it fails, a bit outside the mask is hashed. -/
private theorem respects_of_selects
    (h : Selects hf key symmetry mask version iproto) :
    Respects hf key mask version iproto := by
  intro hip
  have hpair := fun p =>
    h (flip version iproto p) (base version iproto) rfl rfl rfl rfl
  have hlen := flowLength_bounds version mask
  constructor
  · intro hlacks
    apply ignores_of_flips hip (by omega)
    intro p _ _
    exact (hpair p).2 hlacks
  · intro hlacks hl4
    have hflow : flowLength version mask = addressLength version + 4 := by
      unfold flowLength
      rw [hl4]
      rfl
    apply ignores_of_flips hip (by omega)
    intro p hp _
    exact (hpair p).1 hlacks (sameAddresses_flip iproto hp)

-- =============================================================== result

/-- The mask selects what is hashed exactly where no sister bit brings in
a field whose own bit is missing, or the hash function does not look at
it. -/
theorem selects_iff_respects (hf : HashFunc) (key : List UInt8)
    (symmetry : SymmetryMode) (mask : Protocol) (version iproto : UInt8) :
    Selects hf key symmetry mask version iproto
      ↔ Respects hf key mask version iproto :=
  ⟨respects_of_selects, selects_of_respects⟩

/-- The ports of a UDP flow are hashed under a mask of IPv4 and TCP. -/
theorem selects_fails_udp :
    ¬ ∀ hf key symmetry mask version iproto,
      Selects hf key symmetry mask version iproto := by
  intro h
  have hports := (h .simpleXor [] .asymmetric
    (Protocol.ipv4 ||| Protocol.tcp) FiveTuple.kIpv4 17
    { version := FiveTuple.kIpv4, iproto := 17, dport := ⟨[0, 53], rfl⟩ }
    { version := FiveTuple.kIpv4, iproto := 17, dport := ⟨[0, 123], rfl⟩ }
    rfl rfl rfl rfl).1 (Or.inr (Or.inl ⟨rfl, rfl⟩))
    ⟨rfl, fun _ => ⟨rfl, rfl⟩, fun _ => ⟨rfl, rfl⟩⟩
  revert hports
  decide

end Vnic.Rss
