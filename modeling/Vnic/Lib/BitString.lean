/-
Bit strings, the numbers they spell, and Toeplitz hashing.

A bit string is a function from positions to bits; `number` reads `n` bits
from a position on as a number, the first the most significant. The
Toeplitz hash of an input under a key is the XOR, over the positions of
the input's set bits, of the `w` key bits from there on. It is linear in
the input, and it looks at the key no further than `w` bits past the last
input bit.
-/
import Mathlib.Data.Nat.Bitwise

namespace BitString

variable {bit bit' : Nat → Bool} {i n w : Nat}

-- ============================================================== numbers

/-- The number the `n` bits from position `i` on spell. -/
def number (bit : Nat → Bool) (i : Nat) : Nat → Nat
  | 0 => 0
  | n + 1 => 2 * number bit i n + (bit (i + n)).toNat

theorem number_lt (bit : Nat → Bool) (i n : Nat) :
    number bit i n < 2 ^ n := by
  induction n with
  | zero => exact Nat.one_pos
  | succ n ih =>
      have hbit := Bool.toNat_lt (bit (i + n))
      rw [number, Nat.pow_succ]
      omega

/-- The number a string spells depends on its bits alone. -/
theorem number_congr (h : ∀ k < n, bit (i + k) = bit' (i + k)) :
    number bit i n = number bit' i n := by
  induction n with
  | zero => rfl
  | succ n ih =>
      rw [number, number, ih fun k hk => h k (by omega), h n (by omega)]

/-- A string in two parts. -/
theorem number_add (bit : Nat → Bool) (i a b : Nat) :
    number bit i (a + b) = number bit i a * 2 ^ b + number bit (i + a) b := by
  induction b with
  | zero => simp [number]
  | succ b ih =>
      rw [← Nat.add_assoc, number, ih, number, Nat.pow_succ, Nat.add_assoc i,
        Nat.mul_add, Nat.mul_left_comm, Nat.mul_comm 2 (2 ^ b),
        Nat.add_assoc]

/-- The first bit and the rest. -/
theorem number_succ (bit : Nat → Bool) (i n : Nat) :
    number bit i (n + 1)
      = (bit i).toNat * 2 ^ n + number bit (i + 1) n := by
  rw [Nat.add_comm n 1, number_add]
  simp [number]

/-- Zeros, and nothing else, spell zero. -/
theorem number_eq_zero_iff :
    number bit i n = 0 ↔ ∀ k < n, bit (i + k) = false := by
  induction n with
  | zero => simp [number]
  | succ n ih =>
      rw [number, Nat.add_eq_zero_iff, Bool.toNat_eq_zero]
      constructor
      · rintro ⟨hnum, hbit⟩ k hk
        rcases Nat.lt_succ_iff_lt_or_eq.mp hk with hlt | rfl
        · exact ih.mp (by omega) k hlt
        · exact hbit
      · intro h
        have hnum := ih.mpr fun k hk => h k (by omega)
        exact ⟨by omega, h n (by omega)⟩

/-- A register of `a + 1 + c` bits that holds `a + 1` bits on the left and
zeros on the right, shifted by one: the first bit leaves, and a zero
enters. -/
theorem number_shift (bit : Nat → Bool) (i a c : Nat) :
    number bit i (a + 1) * 2 ^ c * 2 % 2 ^ (a + 1 + c)
      = number bit (i + 1) a * 2 ^ (c + 1) := by
  have hpow : 2 ^ (a + 1 + c) = 2 ^ a * 2 ^ (c + 1) := by
    rw [← Nat.pow_add]
    congr 1
    omega
  have hlt : number bit (i + 1) a * 2 ^ (c + 1) < 2 ^ (a + 1 + c) := by
    rw [hpow]
    exact Nat.mul_lt_mul_of_pos_right (number_lt bit (i + 1) a)
      (Nat.two_pow_pos (c + 1))
  have hsplit : number bit i (a + 1) * 2 ^ c * 2
      = number bit (i + 1) a * 2 ^ (c + 1)
        + 2 ^ (a + 1 + c) * (bit i).toNat := by
    rw [number_succ, Nat.mul_assoc, ← Nat.pow_succ, Nat.add_mul, hpow,
      Nat.mul_assoc, Nat.mul_comm (bit i).toNat, Nat.add_comm]
  rw [hsplit, Nat.add_mul_mod_self_left, Nat.mod_eq_of_lt hlt]

/-- The leftmost `w` bits of such a register. -/
theorem number_top (bit : Nat → Bool) (i w r c : Nat) :
    number bit i (w + r) * 2 ^ c / 2 ^ (r + c) = number bit i w := by
  have hlt : number bit (i + w) r * 2 ^ c < 2 ^ (r + c) := by
    rw [Nat.pow_add]
    exact Nat.mul_lt_mul_of_pos_right (number_lt bit (i + w) r)
      (Nat.two_pow_pos c)
  rw [number_add, Nat.add_mul, Nat.mul_assoc, ← Nat.pow_add, Nat.add_comm,
    Nat.add_mul_div_right _ _ (Nat.two_pow_pos (r + c)),
    Nat.div_eq_of_lt hlt, Nat.zero_add]

-- ================================================================ bytes

/-- The bits of a byte stream, the most significant of each byte first. -/
def ofStream (byte : Nat → UInt8) (i : Nat) : Bool :=
  (byte (i / 8)).toNat.testBit (7 - i % 8)

/-- The bits of a byte string; zeros past its end. -/
def ofBytes (bytes : List UInt8) : Nat → Bool :=
  ofStream fun k => bytes.getD k 0

/-- Eight bits spell their byte. -/
theorem number_ofStream (byte : Nat → UInt8) (k : Nat) :
    number (ofStream byte) (8 * k) 8 = (byte k).toNat := by
  have hbyte : ∀ b : Fin 256,
      number (fun i => b.val.testBit (7 - i)) 0 8 = b.val := by
    decide +kernel
  have hlt : (byte k).toNat < 256 := UInt8.toNat_lt _
  have hshift : number (ofStream byte) (8 * k) 8
      = number (fun i => ofStream byte (8 * k + i)) 0 8 := by
    simp only [number, Nat.zero_add]
  rw [hshift]
  refine Eq.trans ?_ (hbyte ⟨_, hlt⟩)
  apply number_congr
  intro j hj
  unfold ofStream
  rw [show (8 * k + (0 + j)) / 8 = k by omega,
    show (8 * k + (0 + j)) % 8 = 0 + j by omega]

/-- The eight bits of a byte in the middle of a string. -/
theorem number_ofBytes_append (pre rest : List UInt8) (b : UInt8) :
    number (ofBytes (pre ++ b :: rest)) (8 * pre.length) 8 = b.toNat := by
  unfold ofBytes
  rw [number_ofStream]
  simp

/-- Streams that agree on `m` bytes agree on their bits. -/
theorem ofStream_congr {byte byte' : Nat → UInt8} {m : Nat}
    (h : ∀ k < m, byte k = byte' k) (hi : i < 8 * m) :
    ofStream byte i = ofStream byte' i := by
  unfold ofStream
  rw [h (i / 8) (by omega)]

/-- The first `m` bytes hold the first `8 * m` bits. -/
theorem ofBytes_take (bytes : List UInt8) {m : Nat} (hi : i < 8 * m) :
    ofBytes (bytes.take m) i = ofBytes bytes i := by
  apply ofStream_congr (m := m)
  · intro k hk
    simp [List.getD_eq_getElem?_getD, hk]
  · exact hi

/-- The bits of the bytewise XOR of two strings of one length. -/
theorem ofBytes_xor {a b : List UInt8} (h : a.length = b.length) (i : Nat) :
    ofBytes (List.zipWith (· ^^^ ·) a b) i
      = (ofBytes a i ^^ ofBytes b i) := by
  have hbyte : (List.zipWith (· ^^^ ·) a b).getD (i / 8) 0
      = a.getD (i / 8) 0 ^^^ b.getD (i / 8) 0 := by
    rcases Nat.lt_or_ge (i / 8) a.length with hlt | hge
    · have hlt' : i / 8 < b.length := h ▸ hlt
      rw [List.getD_eq_getElem?_getD, List.getElem?_zipWith,
        List.getD_eq_getElem a 0 hlt, List.getD_eq_getElem b 0 hlt',
        List.getElem?_eq_getElem hlt, List.getElem?_eq_getElem hlt']
      rfl
    · have hge' : b.length ≤ i / 8 := h ▸ hge
      rw [List.getD_eq_getElem?_getD, List.getElem?_zipWith,
        List.getD_eq_default a 0 hge, List.getD_eq_default b 0 hge',
        List.getElem?_eq_none hge, List.getElem?_eq_none hge']
      rfl
  show ((List.zipWith (· ^^^ ·) a b).getD (i / 8) 0).toNat.testBit _ = _
  rw [hbyte, UInt8.toNat_xor, Nat.testBit_xor]
  rfl

-- ============================================================= Toeplitz

/-- The Toeplitz hash of the first `n` bits of an input. -/
def toeplitz (w : Nat) (key input : Nat → Bool) (n : Nat) : Nat :=
  (((List.range n).filter input).map fun i => number key i w).foldl
    (· ^^^ ·) 0

variable {key key' input input' : Nat → Bool}

/-- One input bit more. -/
theorem toeplitz_succ (w : Nat) (key input : Nat → Bool) (n : Nat) :
    toeplitz w key input (n + 1)
      = toeplitz w key input n
        ^^^ if input n = true then number key n w else 0 := by
  unfold toeplitz
  rw [List.range_succ, List.filter_append, List.map_append,
    List.foldl_append]
  by_cases h : input n = true
  · simp [h]
  · simp [h]

/-- Only `w` key bits past the last input bit matter. -/
theorem toeplitz_congr
    (hkey : ∀ i < n + w, key i = key' i) :
    toeplitz w key input n = toeplitz w key' input n := by
  induction n with
  | zero => rfl
  | succ n ih =>
      rw [toeplitz_succ, toeplitz_succ, ih fun i hi => hkey i (by omega),
        number_congr fun k hk => hkey (n + k) (by omega)]

/-- Input bits under a window of zeros do not matter. -/
theorem toeplitz_congr_input
    (h : ∀ i < n, input i = input' i ∨ number key i w = 0) :
    toeplitz w key input n = toeplitz w key input' n := by
  induction n with
  | zero => rfl
  | succ n ih =>
      rw [toeplitz_succ, toeplitz_succ, ih fun i hi => h i (by omega)]
      rcases h n (by omega) with hbit | hzero
      · rw [hbit]
      · simp [hzero]

theorem toeplitz_zeros (h : ∀ i < n, input i = false) :
    toeplitz w key input n = 0 := by
  induction n with
  | zero => rfl
  | succ n ih =>
      rw [toeplitz_succ, ih fun i hi => h i (by omega), h n (by omega)]
      simp

/-- One set bit shows its window. -/
theorem toeplitz_single {p : Nat} (hp : p < n)
    (h : ∀ i < n, input i = decide (i = p)) :
    toeplitz w key input n = number key p w := by
  induction n with
  | zero => omega
  | succ n ih =>
      rw [toeplitz_succ, h n (by omega)]
      rcases Nat.lt_succ_iff_lt_or_eq.mp hp with hlt | rfl
      · rw [ih hlt fun i hi => h i (by omega)]
        simp [Nat.ne_of_gt hlt]
      · rw [toeplitz_zeros]
        · simp
        · intro i hi
          rw [h i (by omega)]
          simp [Nat.ne_of_lt hi]

/-- The hash is linear in the input. -/
theorem toeplitz_xor (w : Nat) (key input input' : Nat → Bool) (n : Nat) :
    toeplitz w key (fun i => input i ^^ input' i) n
      = toeplitz w key input n ^^^ toeplitz w key input' n := by
  induction n with
  | zero => simp [toeplitz]
  | succ n ih =>
      rw [toeplitz_succ, toeplitz_succ, toeplitz_succ, ih]
      cases input n with
      | false =>
          cases input' n with
          | false => simp
          | true => simp [Nat.xor_assoc]
      | true =>
          cases input' n with
          | false =>
              simp only [Bool.xor_false, if_true, Bool.false_eq_true,
                if_false, Nat.xor_zero]
              rw [Nat.xor_assoc, Nat.xor_assoc, Nat.xor_comm (number _ _ _)]
          | true =>
              simp only [Bool.xor_self, if_true, Bool.false_eq_true, if_false,
                Nat.xor_zero]
              rw [Nat.xor_assoc, Nat.xor_comm (number _ _ _), Nat.xor_assoc,
                Nat.xor_self, Nat.xor_zero]

end BitString
