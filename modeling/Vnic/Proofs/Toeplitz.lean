/-
`key320_hash_calc` computes the Toeplitz hash.

The source slides a 64-bit window over the key. Before input byte `k` the
window holds the key bits from `8 * k` on; while the byte is looked at it
is shifted left bit by bit, and the next key byte fills the gap of eight.
Past key byte 39 the fill is zero. The inputs have at most 36 bytes, so
the 32 bits that reach the hash are always bits of the first 40 key bytes.

# The invariant

`windowLoop_spec` carries it over the bytes: after `k` of them the window
is the number spelt by the key bits from `8 * k` on, and the hash is the
Toeplitz hash of the first `8 * k` input bits. `toeplitzBits_spec` is the
same inside one byte, where the window has lost its first bits and shows
zeros at the end; the fill is what makes it whole again.
-/
import Vnic.Lib.BitString
import Vnic.Rss
import Mathlib.Data.Vector.Zip

namespace Vnic.Rss

open BitString

variable {key input : Nat → Bool}

-- ============================================================= one byte

/-- The test of the leftmost bit. -/
private theorem msb_iff (byte : UInt8) :
    (byte &&& 0x80 != 0) = true ↔ byte.toNat / 2 ^ 7 = 1 := by
  have hlt := byte.toNat_lt
  rw [bne_iff_ne, ne_eq, ← UInt8.toNat_inj, UInt8.toNat_and]
  show ¬ byte.toNat &&& 2 ^ 7 = 0 ↔ _
  rw [Nat.and_two_pow, Nat.testBit_eq_decide_div_mod_eq]
  by_cases h : byte.toNat / 2 ^ 7 % 2 = 1
  · simp only [h, decide_true, Bool.toNat_true]
    omega
  · simp only [h, decide_false, Bool.toNat_false]
    omega

/-- A byte that holds the input bits from `p` on: the test of its leftmost
bit looks at bit `p`, and a shift brings up the next one. -/
private theorem byte_msb {p n : Nat} {byte : UInt8} (hn : n < 8)
    (hb : byte.toNat = number input p (n + 1) * 2 ^ (7 - n)) :
    (byte &&& 0x80 != 0) = true ↔ input p = true := by
  have hnum := number_top input p 1 n (7 - n)
  rw [show 1 + n = n + 1 by omega, ← hb,
    show n + (7 - n) = 7 by omega] at hnum
  rw [msb_iff, hnum]
  cases hbit : input p with
  | false => simp [number, hbit]
  | true => simp [number, hbit]

/-- Shifting the byte left drops its first bit. -/
private theorem byte_shift {p n : Nat} {byte : UInt8} (hn : n < 8)
    (hb : byte.toNat = number input p (n + 1) * 2 ^ (7 - n)) :
    (byte <<< 1).toNat = number input (p + 1) n * 2 ^ (8 - n) := by
  have hshift := number_shift input p n (7 - n)
  rw [show n + 1 + (7 - n) = 8 by omega,
    show 7 - n + 1 = 8 - n by omega] at hshift
  rw [UInt8.toNat_shiftLeft, ← hshift]
  show byte.toNat <<< 1 % 2 ^ 8 = _
  rw [Nat.shiftLeft_eq, hb]

/-- The window in front of key bit `p`: its left half is the 32 key bits
from there on, and a shift moves it to the next bit. -/
private theorem window_top {p n : Nat} {window : UInt64} (hn : n < 8)
    (hw : window.toNat = number key p (56 + (n + 1)) * 2 ^ (7 - n)) :
    (window >>> 32).toUInt32.toNat = number key p 32 := by
  rw [UInt64.toNat_toUInt32, UInt64.toNat_shiftRight]
  show window.toNat >>> 32 % 2 ^ 32 = _
  have hnum := number_top key p 32 (25 + n) (7 - n)
  rw [show 32 + (25 + n) = 56 + (n + 1) by omega, ← hw,
    show 25 + n + (7 - n) = 32 by omega] at hnum
  rw [Nat.shiftRight_eq_div_pow, hnum,
    Nat.mod_eq_of_lt (number_lt key p 32)]

/-- Shifting the window drops its first bit and makes room for the next. -/
private theorem window_shift {p n : Nat} {window : UInt64} (hn : n < 8)
    (hw : window.toNat = number key p (56 + (n + 1)) * 2 ^ (7 - n)) :
    (window <<< 1).toNat = number key (p + 1) (56 + n) * 2 ^ (8 - n) := by
  have hshift := number_shift key p (56 + n) (7 - n)
  rw [show 56 + n + 1 + (7 - n) = 64 by omega,
    show 7 - n + 1 = 8 - n by omega] at hshift
  rw [UInt64.toNat_shiftLeft, ← hshift]
  show window.toNat <<< 1 % 2 ^ 64 = _
  rw [Nat.shiftLeft_eq, hw]
  rfl

/-- The bit loop: `n` bits of the byte are left. -/
theorem toeplitzBits_spec {n : Nat} (hn : n ≤ 8) :
    ∀ {p : Nat} {window : UInt64} {byte : UInt8} {hash : UInt32},
      window.toNat = number key p (56 + n) * 2 ^ (8 - n) →
      byte.toNat = number input p n * 2 ^ (8 - n) →
      hash.toNat = toeplitz 32 key input p →
      (toeplitzBits n window byte hash).1.toNat
          = number key (p + n) 56 * 2 ^ 8
        ∧ (toeplitzBits n window byte hash).2.toNat
          = toeplitz 32 key input (p + n) := by
  -- on the bits still to go; window and byte are what the key and the
  -- input show from p on
  induction n with
  | zero =>
      intro p window byte hash hw _ hh
      exact ⟨hw, hh⟩
  | succ n ih =>
      intro p window byte hash hw hb hh
      rw [show 8 - (n + 1) = 7 - n by omega] at hw hb
      have hmsb := byte_msb hn hb
      have hh' : (if (byte &&& 0x80 != 0) = true then
            hash ^^^ (window >>> 32).toUInt32 else hash).toNat
          = toeplitz 32 key input (p + 1) := by
        rw [toeplitz_succ]
        by_cases hbit : input p = true
        · rw [if_pos (hmsb.2 hbit), if_pos hbit, UInt32.toNat_xor, hh,
            window_top hn hw]
        · rw [if_neg fun h => hbit (hmsb.1 h), if_neg hbit, hh,
            Nat.xor_zero]
      have hrest := ih (by omega) (window_shift hn hw) (byte_shift hn hb) hh'
      rw [show p + 1 + n = p + (n + 1) by omega] at hrest
      exact hrest

-- ============================================================ the loops

/-- A key byte fills the gap of eight on the right. -/
private theorem toNat_fill {window : UInt64} {m : Nat} (byte : UInt8)
    (hw : window.toNat = m * 2 ^ 8) :
    (window ||| byte.toUInt64).toNat = m * 2 ^ 8 + byte.toNat := by
  rw [UInt64.toNat_or, hw, UInt8.toNat_toUInt64, ← Nat.shiftLeft_eq,
    Nat.shiftLeft_add_eq_or_of_lt byte.toNat_lt]

/-- The prefix loop: `done` is shifted in, `rest` is not. -/
private theorem keyPrefix_foldl (rest : List UInt8) :
    ∀ {done : List UInt8} {acc : UInt64},
      done.length + rest.length ≤ 8 →
      acc.toNat = number (ofBytes (done ++ rest)) 0 (8 * done.length) →
      (rest.foldl (fun (acc : UInt64) b => acc <<< 8 ||| b.toUInt64)
          acc).toNat
        = number (ofBytes (done ++ rest)) 0
            (8 * (done.length + rest.length)) := by
  -- on the bytes still to shift in
  induction rest with
  | nil =>
      intro done acc _ hacc
      exact hacc
  | cons b rest ih =>
      intro done acc hlen hacc
      rw [List.length_cons] at hlen
      have happ : done ++ b :: rest = (done ++ [b]) ++ rest := by simp
      have hlt : acc.toNat * 2 ^ 8 < 2 ^ 64 := by
        have hpow : 2 ^ (8 * done.length) ≤ 2 ^ 56 :=
          Nat.pow_le_pow_right (by omega) (by omega)
        have hacc_lt := number_lt (ofBytes (done ++ b :: rest)) 0
          (8 * done.length)
        omega
      have hshift : (acc <<< 8).toNat = acc.toNat * 2 ^ 8 := by
        rw [UInt64.toNat_shiftLeft]
        show acc.toNat <<< 8 % 2 ^ 64 = _
        rw [Nat.shiftLeft_eq, Nat.mod_eq_of_lt hlt]
      have hacc' : (acc <<< 8 ||| b.toUInt64).toNat
          = number (ofBytes ((done ++ [b]) ++ rest)) 0
              (8 * (done ++ [b]).length) := by
        rw [toNat_fill b hshift, hacc, ← happ, List.length_append,
          List.length_singleton, Nat.mul_add, Nat.mul_one, number_add,
          Nat.zero_add, number_ofBytes_append]
      have hrest := ih (by simp; omega) hacc'
      rw [List.foldl_cons, hrest, ← happ, List.length_append,
        List.length_singleton, List.length_cons, Nat.add_assoc,
        Nat.add_comm 1]

/-- The byte loop, with the key bytes taken from a stream. -/
def windowLoop (fetch : Nat → UInt8) :
    List UInt8 → Nat → UInt64 → UInt32 → UInt32
  | [], _, _, hash => hash
  | byte :: rest, keyIndex, window, hash =>
      let (window, hash) := toeplitzBits 8 window byte hash
      windowLoop fetch rest (keyIndex + 1)
        (window ||| (fetch keyIndex).toUInt64) hash

/-- The key bytes the source fetches: `fill` past byte 39. -/
def keyStream (key : List UInt8) (fill : Nat → UInt8) (k : Nat) : UInt8 :=
  if k < kToeplitzKeyBytes then key.getD k 0 else fill k

/-- The source fills with zeros. -/
theorem toeplitzLoop_eq (key data : List UInt8) :
    ∀ (k : Nat) (window : UInt64) (hash : UInt32),
      toeplitzLoop key data k window hash
        = windowLoop (keyStream key fun _ => 0) data k window hash := by
  induction data with
  | nil =>
      intro k window hash
      rfl
  | cons byte rest ih =>
      intro k window hash
      exact ih _ _ _

/-- Before a byte the window holds the 64 key bits from its first bit
on. -/
theorem windowLoop_spec (fetch : Nat → UInt8) (rest : List UInt8) :
    ∀ {done : List UInt8} {window : UInt64} {hash : UInt32},
      window.toNat = number (ofStream fetch) (8 * done.length) 64 →
      hash.toNat = toeplitz 32 (ofStream fetch) (ofBytes (done ++ rest))
        (8 * done.length) →
      (windowLoop fetch rest (8 + done.length) window hash).toNat
        = toeplitz 32 (ofStream fetch) (ofBytes (done ++ rest))
            (8 * (done.length + rest.length)) := by
  -- on the input: eight bits of the byte, then the next key byte fills the
  -- window
  induction rest with
  | nil =>
      intro done window hash _ hh
      exact hh
  | cons byte rest ih =>
      intro done window hash hw hh
      have happ : done ++ byte :: rest = (done ++ [byte]) ++ rest := by simp
      have hlen : (done ++ [byte]).length = done.length + 1 := by simp
      have hwin : window.toNat
          = number (ofStream fetch) (8 * done.length) (56 + 8)
            * 2 ^ (8 - 8) := by
        rw [hw, Nat.sub_self, Nat.pow_zero, Nat.mul_one]
      have hbyte : byte.toNat
          = number (ofBytes (done ++ byte :: rest)) (8 * done.length) 8
            * 2 ^ (8 - 8) := by
        rw [number_ofBytes_append, Nat.sub_self, Nat.pow_zero, Nat.mul_one]
      obtain ⟨hw', hh'⟩ :=
        toeplitzBits_spec (Nat.le_refl 8) hwin hbyte hh
      have hfill := toNat_fill (fetch (8 + done.length)) hw'
      rw [← number_ofStream fetch,
        show 8 * (8 + done.length) = 8 * done.length + 8 + 56 by omega,
        ← number_add, show 8 * done.length + 8
          = 8 * (done ++ [byte]).length by rw [hlen]; omega] at hfill
      rw [happ, show 8 * done.length + 8
          = 8 * (done ++ [byte]).length by rw [hlen]; omega] at hh'
      have hrest := ih hfill hh'
      rw [hlen, ← happ] at hrest
      rw [List.length_cons, Nat.add_comm rest.length, ← Nat.add_assoc,
        ← hrest, ← Nat.add_assoc]
      rfl

-- ============================================================= the hash

variable {key data : List UInt8}

/-- The first window is the first eight bytes of the key. -/
private theorem keyPrefix_spec (hkey : 8 ≤ key.length) :
    (keyPrefix key).toNat = number (ofBytes key) 0 64 := by
  have hlen : (key.take 8).length = 8 := by
    rw [List.length_take]
    omega
  have hstart : (0 : UInt64).toNat
      = number (ofBytes ([] ++ key.take 8)) 0
          (8 * ([] : List UInt8).length) := rfl
  have hloop := keyPrefix_foldl (key.take 8) (by rw [hlen]; simp) hstart
  rw [hlen, List.nil_append, List.length_nil] at hloop
  unfold keyPrefix
  rw [hloop]
  apply number_congr
  intro k hk
  exact ofBytes_take key (by omega)

/-- The window loop computes the Toeplitz hash, whatever stands in for the
key bytes past byte 39. -/
theorem windowLoop_eq (fill : Nat → UInt8)
    (hkey : kToeplitzKeyBytes ≤ key.length) (hdata : data.length ≤ 36) :
    (windowLoop (keyStream key fill) data 8 (keyPrefix key) 0).toNat
      = toeplitz 32 (ofBytes key) (ofBytes data) (8 * data.length) := by
  have hfetch : ∀ i < 8 * kToeplitzKeyBytes,
      ofStream (keyStream key fill) i = ofBytes key i := by
    intro i hi
    apply ofStream_congr (m := kToeplitzKeyBytes)
    · intro k hk
      exact if_pos hk
    · exact hi
  unfold kToeplitzKeyBytes at hkey hfetch
  have hw : (keyPrefix key).toNat
      = number (ofStream (keyStream key fill)) (8 * ([] : List UInt8).length)
          64 := by
    rw [keyPrefix_spec (by omega)]
    apply number_congr
    intro k hk
    exact (hfetch (0 + k) (by omega)).symm
  have hh : (0 : UInt32).toNat
      = toeplitz 32 (ofStream (keyStream key fill)) (ofBytes ([] ++ data))
          (8 * ([] : List UInt8).length) := rfl
  have hloop := windowLoop_spec (keyStream key fill) data hw hh
  rw [List.nil_append, List.length_nil, Nat.zero_add] at hloop
  refine hloop.trans (toeplitz_congr ?_)
  intro i hi
  exact hfetch i (by omega)

/-- The unrolled loops compute the Toeplitz sum. -/
private theorem key320HashCalc_eq (hkey : kToeplitzKeyBytes ≤ key.length)
    (hdata : data.length ≤ 36) :
    (key320HashCalc key data).toNat
      = toeplitz 32 (ofBytes key) (ofBytes data) (8 * data.length) := by
  unfold key320HashCalc
  rw [toeplitzLoop_eq, windowLoop_eq _ hkey hdata]

-- ============================================================ the input

/-- The bytes of a flow: the addresses, and the ports when an L4 protocol
is selected. -/
def flowBytes (t : FiveTuple) (protocol : Protocol) : List UInt8 :=
  (if t.version = FiveTuple.kIpv6
    then t.saddr6.toList ++ t.daddr6.toList
    else t.saddr4.toList ++ t.daddr4.toList)
  ++ (if hasL4 protocol then t.sport.toList ++ t.dport.toList else [])

/-- The tuple that is hashed. -/
def canonical (symmetry : SymmetryMode) (t : FiveTuple) : FiveTuple :=
  if symmetry = .symmetric then makeSymmetric t else t

variable {t t' : FiveTuple} {protocol : Protocol} {symmetry : SymmetryMode}

/-- How long the input is. -/
theorem flowBytes_length (t : FiveTuple) (protocol : Protocol) :
    (flowBytes t protocol).length
      = (if t.version = FiveTuple.kIpv6 then 32 else 8)
        + if hasL4 protocol then 4 else 0 := by
  unfold flowBytes
  split <;> split <;> simp

/-- The hash input has between 8 and 36 bytes. -/
theorem flowBytes_bounds (t : FiveTuple) (protocol : Protocol) :
    8 ≤ (flowBytes t protocol).length
      ∧ (flowBytes t protocol).length ≤ 36 := by
  rw [flowBytes_length]
  split <;> split <;> omega

/-- `CalcHash` hands the bytes of the canonical tuple to Toeplitz. -/
theorem calcHash_eq (hkey : kToeplitzKeyBytes ≤ key.length)
    (hip : hasIp protocol = true) :
    calcHash t key .toeplitz protocol symmetry
      = key320HashCalc key (flowBytes (canonical symmetry t) protocol) := by
  have hinput : buildHashInput (canonical symmetry t) protocol
      = flowBytes (canonical symmetry t) protocol := by
    unfold buildHashInput
    rw [if_neg (by rw [hip]; decide)]
    rfl
  have hlen := flowBytes_bounds (canonical symmetry t) protocol
  unfold calcHash
  show (if (buildHashInput (canonical symmetry t) protocol).length = 0
    then 0
    else if key.length < kMinKeyBytes then 0
    else key320HashCalc key (buildHashInput (canonical symmetry t) protocol))
      = _
  rw [hinput, if_neg (by omega)]
  exact if_neg (Nat.not_lt.2 hkey)

/-- The bitwise XOR of two tuples of one version. -/
def xorTuple (t t' : FiveTuple) : FiveTuple :=
  { t with
    saddr4 := .zipWith (· ^^^ ·) t.saddr4 t'.saddr4
    daddr4 := .zipWith (· ^^^ ·) t.daddr4 t'.daddr4
    saddr6 := .zipWith (· ^^^ ·) t.saddr6 t'.saddr6
    daddr6 := .zipWith (· ^^^ ·) t.daddr6 t'.daddr6
    sport := .zipWith (· ^^^ ·) t.sport t'.sport
    dport := .zipWith (· ^^^ ·) t.dport t'.dport }

/-- The input of the bitwise sum is the bitwise sum of the inputs. -/
theorem flowBytes_xorTuple (hv : t.version = t'.version)
    (protocol : Protocol) :
    flowBytes (xorTuple t t') protocol
      = List.zipWith (· ^^^ ·) (flowBytes t protocol)
          (flowBytes t' protocol) := by
  unfold flowBytes
  show (if t.version = _ then _ else _) ++ _ = _
  rw [← hv]
  split <;> split <;>
    simp [xorTuple, List.zipWith_append, List.Vector.zipWith_toList]

-- ======================================================== the definition

/-- The hash of a tuple is the Toeplitz sum over its selected bytes. -/
theorem calcHash_spec (hkey : kToeplitzKeyBytes ≤ key.length)
    (hip : hasIp protocol = true) :
    (calcHash t key .toeplitz protocol symmetry).toNat
      = toeplitz 32 (ofBytes key)
          (ofBytes (flowBytes (canonical symmetry t) protocol))
          (8 * (flowBytes (canonical symmetry t) protocol).length) := by
  rw [calcHash_eq hkey hip]
  exact key320HashCalc_eq hkey (flowBytes_bounds _ _).2

/-- Keys that agree on their first 40 bytes give the same hash. -/
theorem calcHash_key {key' : List UInt8}
    (hkey : kToeplitzKeyBytes ≤ key.length) (hip : hasIp protocol = true)
    (htake : key'.take kToeplitzKeyBytes = key.take kToeplitzKeyBytes) :
    calcHash t key' .toeplitz protocol symmetry
      = calcHash t key .toeplitz protocol symmetry := by
  have hkey' : kToeplitzKeyBytes ≤ key'.length := by
    have hcount := congrArg List.length htake
    rw [List.length_take, List.length_take] at hcount
    omega
  have hlen := (flowBytes_bounds (canonical symmetry t) protocol).2
  apply UInt32.toNat_inj.1
  rw [calcHash_spec hkey' hip, calcHash_spec hkey hip]
  apply toeplitz_congr
  intro i hi
  have hbit : i < 8 * kToeplitzKeyBytes := by
    unfold kToeplitzKeyBytes
    omega
  rw [← ofBytes_take key' hbit, htake, ofBytes_take key hbit]

/-- The hash of the XOR is the XOR of the hashes. -/
theorem calcHash_xorTuple (hkey : kToeplitzKeyBytes ≤ key.length)
    (hip : hasIp protocol = true) (hsym : symmetry ≠ .symmetric)
    (hv : t.version = t'.version) :
    calcHash (xorTuple t t') key .toeplitz protocol symmetry
      = calcHash t key .toeplitz protocol symmetry
        ^^^ calcHash t' key .toeplitz protocol symmetry := by
  have hcanon : ∀ t : FiveTuple, canonical symmetry t = t :=
    fun t => if_neg hsym
  have hsame : (flowBytes t protocol).length
      = (flowBytes t' protocol).length := by
    rw [flowBytes_length, flowBytes_length, hv]
  apply UInt32.toNat_inj.1
  rw [UInt32.toNat_xor, calcHash_spec hkey hip, calcHash_spec hkey hip,
    calcHash_spec hkey hip, hcanon, hcanon, hcanon, flowBytes_xorTuple hv,
    List.length_zipWith, hsame, Nat.min_self, ← toeplitz_xor]
  congr 1
  funext i
  exact ofBytes_xor hsame i

/-- `CalcHash` with Toeplitz is the XOR, over the set bits of the hash
input, of the 32 key bits from there on. Only the first 40 key bytes
matter, whatever is filled in behind them, and the hash is linear in the
tuple. -/
theorem calcHash_toeplitz (t : FiveTuple) (key : List UInt8)
    (protocol : Protocol) (symmetry : SymmetryMode)
    (hkey : 40 ≤ key.length) (hip : hasIp protocol = true) :
    let input := flowBytes (canonical symmetry t) protocol
    let hash := fun t key => calcHash t key .toeplitz protocol symmetry
    (hash t key).toNat
        = toeplitz 32 (ofBytes key) (ofBytes input) (8 * input.length)
      ∧ (∀ i < 8 * input.length, i + 32 ≤ 8 * 40)
      ∧ (∀ key' : List UInt8, key'.take 40 = key.take 40 →
          hash t key' = hash t key)
      ∧ (∀ fill : Nat → UInt8,
          windowLoop (keyStream key fill) input 8 (keyPrefix key) 0
            = hash t key)
      ∧ (symmetry ≠ .symmetric → ∀ t' : FiveTuple, t'.version = t.version →
          hash (xorTuple t t') key = hash t key ^^^ hash t' key) := by
  intro input hash
  have hlen : input.length ≤ 36 := (flowBytes_bounds _ protocol).2
  refine ⟨calcHash_spec hkey hip, ?_, ?_, ?_, ?_⟩
  · intro i hi
    omega
  · intro key' htake
    exact calcHash_key hkey hip htake
  · intro fill
    apply UInt32.toNat_inj.1
    exact (windowLoop_eq fill hkey hlen).trans (calcHash_spec hkey hip).symm
  · intro hsym t' hv
    exact calcHash_xorTuple hkey hip hsym hv.symm

/-- The key of the unit tests. -/
def defaultKey : List UInt8 :=
  [0x6d, 0x5a, 0x56, 0xda, 0x25, 0x5b, 0x0e, 0xc2, 0x41, 0x67, 0x25, 0x3d,
   0x43, 0xa3, 0x8f, 0xb0, 0xd0, 0xca, 0x2b, 0xcb, 0xae, 0x7b, 0x30, 0xb4,
   0x77, 0xcb, 0x2d, 0xa3, 0x80, 0x30, 0xf2, 0x0c, 0x6a, 0x42, 0xb7, 0x3b,
   0xbe, 0xac, 0x01, 0xfa]

/-- The first reference vector of the unit tests. -/
def referenceTuple : FiveTuple :=
  { version := FiveTuple.kIpv4
    saddr4 := ⟨[66, 9, 149, 187], rfl⟩
    daddr4 := ⟨[161, 142, 100, 80], rfl⟩
    sport := ⟨[0x0a, 0xea], rfl⟩
    dport := ⟨[0x06, 0xe6], rfl⟩
    iproto := 6 }

/-- On the reference vector code and definition give the published hash. -/
theorem calcHash_toeplitz_reference :
    calcHash referenceTuple defaultKey .toeplitz
        (Protocol.ipv4 ||| Protocol.tcp) .asymmetric = 0x51ccc178
      ∧ toeplitz 32 (ofBytes defaultKey)
          (ofBytes [66, 9, 149, 187, 161, 142, 100, 80, 0x0a, 0xea, 0x06,
            0xe6]) 96 = 0x51ccc178 := by
  have hhash : calcHash referenceTuple defaultKey .toeplitz
      (Protocol.ipv4 ||| Protocol.tcp) .asymmetric = 0x51ccc178 := by
    decide +kernel
  have hspec := (calcHash_toeplitz referenceTuple defaultKey
    (Protocol.ipv4 ||| Protocol.tcp) .asymmetric (by decide) (by decide)).1
  exact ⟨hhash, hspec.symm.trans (congrArg UInt32.toNat hhash)⟩

end Vnic.Rss
