/-
Words and bit strings as polynomials over GF(2), and the shift register
that divides by one.

Bit `i` of a word is the coefficient of `X ^ i`; the first bit of a string
is its leading coefficient. A reflected register keeps its bits the other
way round: the leading coefficient is the rightmost bit, and shifting
right by one multiplies by `X`. When the bit that leaves is subtracted
again as a multiple of the modulus, what stays is the remainder. Where
the constant coefficient of the modulus is not zero, `X` can be cancelled
from a congruence, so such a register forgets nothing.
-/
import Mathlib.Algebra.Polynomial.OfFn
import Mathlib.Algebra.Polynomial.FieldDivision
import Mathlib.Algebra.Field.ZMod

namespace BitPoly

open Polynomial

variable {w : Nat} {c g : BitVec w}

-- ================================================================= bits

/-- A bit as a coefficient. -/
def ofBool (b : Bool) : ZMod 2 :=
  if b then 1 else 0

@[simp]
theorem ofBool_false : ofBool false = 0 := rfl

@[simp]
theorem ofBool_true : ofBool true = 1 := rfl

theorem ofBool_xor (a b : Bool) :
    ofBool (a ^^ b) = ofBool a + ofBool b := by
  cases a with
  | false => simp
  | true =>
      cases b with
      | false => simp
      | true => rfl

theorem ofBool_inj {a b : Bool} (h : ofBool a = ofBool b) : a = b := by
  revert a b
  decide

-- ================================================================ words

/-- The polynomial of a word. -/
noncomputable def poly (word : BitVec w) : (ZMod 2)[X] :=
  ofFn w fun i => ofBool word[i]

/-- The word of the first `w` coefficients. -/
def word (w : Nat) (p : (ZMod 2)[X]) : BitVec w :=
  (BitVec.ofBoolListLE (List.ofFn fun i : Fin w => decide (p.coeff i = 1))).cast
    List.length_ofFn

@[simp]
theorem coeff_poly (c : BitVec w) (i : Nat) :
    (poly c).coeff i = ofBool (c.getLsbD i) := by
  unfold poly
  rcases Nat.lt_or_ge i w with hi | hi
  · rw [ofFn_coeff_eq_val_of_lt _ hi, BitVec.getLsbD_eq_getElem hi]
    rfl
  · rw [ofFn_coeff_eq_zero_of_ge _ hi, BitVec.getLsbD_of_ge c i hi]
    rfl

theorem degree_poly_lt (c : BitVec w) : (poly c).degree < w :=
  ofFn_degree_lt _

theorem poly_xor (a b : BitVec w) : poly (a ^^^ b) = poly a + poly b := by
  ext i
  rw [coeff_add, coeff_poly, coeff_poly, coeff_poly, BitVec.getLsbD_xor,
    ofBool_xor]

/-- The word of a word's polynomial. -/
theorem word_poly (c : BitVec w) : word w (poly c) = c := by
  apply BitVec.eq_of_getLsbD_eq
  intro i hi
  unfold word
  rw [BitVec.getLsbD_cast, BitVec.getLsbD_ofBoolListLE,
    List.getD_eq_getElem _ _ (by simpa using hi), List.getElem_ofFn,
    coeff_poly]
  cases c.getLsbD i with
  | false => rfl
  | true => rfl

-- ============================================================== strings

/-- The polynomial of a string of bits. -/
noncomputable def ofBits : List Bool → (ZMod 2)[X]
  | [] => 0
  | b :: rest => C (ofBool b) * X ^ rest.length + ofBits rest

theorem ofBits_append (a b : List Bool) :
    ofBits (a ++ b) = ofBits a * X ^ b.length + ofBits b := by
  induction a with
  | nil => simp [ofBits]
  | cons x rest ih =>
      rw [List.cons_append, ofBits, ofBits, ih, List.length_append, pow_add]
      ring

/-- The coefficients of a string, from its end. -/
theorem coeff_ofBits (bits : List Bool) (i : Nat) :
    (ofBits bits).coeff i = ofBool (bits.reverse.getD i false) := by
  induction bits with
  | nil => simp [ofBits]
  | cons b rest ih =>
      rw [ofBits, coeff_add, coeff_C_mul, coeff_X_pow, ih,
        List.reverse_cons]
      rcases Nat.lt_trichotomy i rest.length with hi | rfl | hi
      · simp [List.getElem?_append, hi, Nat.ne_of_lt hi]
      · simp
      · rw [if_neg (by omega), List.getD_eq_default _ _ (by simp; omega),
          List.getD_eq_default _ _ (by simp; omega)]
        simp

theorem degree_ofBits_lt (bits : List Bool) :
    (ofBits bits).degree < bits.length := by
  rw [degree_lt_iff_coeff_zero]
  intro i hi
  rw [coeff_ofBits, List.getD_eq_default _ _ (by simpa using hi)]
  rfl

/-- Strings of one length are told apart by their polynomials. -/
theorem ofBits_injective {a b : List Bool} (hlen : a.length = b.length)
    (h : ofBits a = ofBits b) : a = b := by
  apply List.reverse_injective
  apply List.ext_getElem
  · simp [hlen]
  · intro i hia hib
    have hcoeff := congrArg (fun p => p.coeff i) h
    simp only [coeff_ofBits] at hcoeff
    have hbit := ofBool_inj hcoeff
    rwa [List.getD_eq_getElem _ _ hia, List.getD_eq_getElem _ _ hib]
      at hbit

/-- The bits of a word, the rightmost first. -/
def bits (word : BitVec w) : List Bool :=
  List.ofFn fun i : Fin w => word[i]

@[simp]
theorem length_bits (c : BitVec w) : (bits c).length = w :=
  List.length_ofFn

theorem bits_injective : Function.Injective (bits (w := w)) := by
  intro a b h
  apply BitVec.eq_of_getElem_eq
  intro i hi
  exact congrFun (List.ofFn_injective h) ⟨i, hi⟩

/-- Read from the right, a word spells its reversal. -/
theorem ofBits_bits (c : BitVec w) : ofBits (bits c) = poly c.reverse := by
  ext i
  rw [coeff_ofBits, coeff_poly, BitVec.getLsbD_reverse,
    BitVec.getMsbD_eq_getLsbD]
  rcases Nat.lt_or_ge i w with hi | hi
  · rw [List.getD_eq_getElem _ _ (by simpa using hi), List.getElem_reverse]
    simp [bits, hi, BitVec.getLsbD_eq_getElem (by omega : w - 1 - i < w)]
  · rw [List.getD_eq_default _ _ (by simpa using hi)]
    simp [Nat.not_lt.mpr hi]

/-- A word in the right end of a wider register. -/
theorem poly_reverse_setWidth (c : BitVec w) (k : Nat) :
    poly (c.setWidth (w + k)).reverse = poly c.reverse * X ^ k := by
  ext i
  rw [coeff_mul_X_pow', coeff_poly, BitVec.getLsbD_reverse]
  rcases Nat.lt_or_ge i k with hi | hi
  · rw [if_neg (by omega), BitVec.getMsbD_eq_getLsbD,
      BitVec.getLsbD_setWidth, BitVec.getLsbD_of_ge c _ (by omega)]
    simp
  · rw [if_pos hi, coeff_poly, BitVec.getLsbD_reverse,
      BitVec.getMsbD_eq_getLsbD, BitVec.getMsbD_eq_getLsbD,
      BitVec.getLsbD_setWidth,
      show w + k - 1 - i = w - 1 - (i - k) by omega]
    by_cases hw : i - k < w
    · simp [hw, show i < w + k by omega, show w - 1 - (i - k) < w + k by omega]
    · simp [hw, show ¬ i < w + k by omega]

-- ============================================================= division

/-- The modulus of a reflected register with taps `g`. -/
noncomputable def modulus (g : BitVec w) : (ZMod 2)[X] :=
  X ^ w + poly g.reverse

theorem monic_modulus (g : BitVec w) : (modulus g).Monic :=
  monic_X_pow_add (degree_poly_lt _)

theorem degree_modulus (g : BitVec w) : (modulus g).degree = w := by
  unfold modulus
  rw [degree_add_eq_left_of_degree_lt, degree_X_pow]
  rw [degree_X_pow]
  exact degree_poly_lt _

/-- A remainder is known by its degree and its class. -/
theorem eq_modByMonic {p r a : (ZMod 2)[X]} (hp : p.Monic)
    (hdeg : r.degree < p.degree) (hdvd : p ∣ r - a) : r = a %ₘ p := by
  rw [← modByMonic_eq_of_dvd_sub hp hdvd]
  exact ((modByMonic_eq_self_iff hp).mpr hdeg).symm

/-- One step of a reflected register: the bit that leaves on the right
decides whether the taps are flipped. -/
def shift (g c : BitVec w) : BitVec w :=
  c >>> 1 ^^^ if c.getLsbD 0 then g else 0#w

/-- Reversed, a shift to the right drops the leading coefficient. -/
theorem poly_reverse_ushiftRight (c : BitVec w) :
    poly (c >>> 1).reverse
      = poly c.reverse * X - C (ofBool (c.getLsbD 0)) * X ^ w := by
  ext i
  rw [coeff_sub, coeff_C_mul, coeff_X_pow, coeff_poly,
    BitVec.getLsbD_reverse, BitVec.getMsbD_eq_getLsbD,
    BitVec.getLsbD_ushiftRight]
  cases i with
  | zero =>
      rw [coeff_mul_X_zero, BitVec.getLsbD_of_ge c _ (by omega)]
      cases w with
      | zero => simp [BitVec.getLsbD_of_ge]
      | succ w => simp
  | succ i =>
      rw [coeff_mul_X, coeff_poly, BitVec.getLsbD_reverse,
        BitVec.getMsbD_eq_getLsbD]
      rcases Nat.lt_trichotomy (i + 1) w with hi | rfl | hi
      · simp [hi, show i < w by omega, Nat.ne_of_lt hi,
          show 1 + (w - 1 - (i + 1)) = w - 1 - i by omega]
      · simp
      · simp [Nat.ne_of_gt hi, show ¬ i + 1 < w by omega,
          show ¬ i < w by omega]

theorem poly_reverse_xor (a b : BitVec w) :
    poly (a ^^^ b).reverse = poly a.reverse + poly b.reverse := by
  rw [← poly_xor]
  congr 1
  apply BitVec.eq_of_getLsbD_eq
  intro i _
  simp [BitVec.getLsbD_reverse]

/-- The step multiplies by `X` and subtracts a multiple of the modulus. -/
theorem poly_shift (g c : BitVec w) :
    poly (shift g c).reverse
      = poly c.reverse * X - C (ofBool (c.getLsbD 0)) * modulus g := by
  unfold shift modulus
  rw [poly_reverse_xor, poly_reverse_ushiftRight]
  cases c.getLsbD 0 with
  | false =>
      have hzero : poly (0#w).reverse = 0 := by
        ext i
        simp [BitVec.getLsbD_reverse]
      simp [hzero]
  | true =>
      have hneg : -poly g.reverse = poly g.reverse := CharTwo.neg_eq _
      simp only [ofBool_true, map_one, one_mul, if_true]
      rw [← sub_sub, sub_eq_add_neg _ (poly g.reverse), hneg]

/-- Many steps: the remainder of the shifted polynomial. -/
theorem poly_iterate_shift (g c : BitVec w) (n : Nat) :
    poly ((shift g)^[n] c).reverse
      = (poly c.reverse * X ^ n) %ₘ modulus g := by
  have hdeg : ∀ a : BitVec w, (poly a).degree < (modulus g).degree := by
    intro a
    rw [degree_modulus]
    exact degree_poly_lt a
  apply eq_modByMonic (monic_modulus g) (hdeg _)
  induction n with
  | zero => simp
  | succ n ih =>
      rw [Function.iterate_succ_apply', poly_shift, pow_succ, ← mul_assoc,
        sub_right_comm, ← sub_mul]
      exact dvd_sub (ih.mul_right X) (dvd_mul_left _ _)

/-- With a constant coefficient in the modulus, `X` can be cancelled: a
polynomial below the modulus is known from the remainder of any shift. -/
theorem eq_of_modByMonic_shift {p a b r : (ZMod 2)[X]} {n : Nat}
    (hp : p.Monic) (h0 : p.coeff 0 ≠ 0)
    (ha : a.degree < p.degree) (hb : b.degree < p.degree)
    (h : (a * X ^ n + r) %ₘ p = (b * X ^ n + r) %ₘ p) : a = b := by
  have hdvd : p ∣ (a - b) * X ^ n := by
    have hmod := (modByMonic_eq_zero_iff_dvd hp).mp
      ((sub_modByMonic _ _ p).trans (sub_eq_zero.mpr h))
    rwa [add_sub_add_right_eq_sub, ← sub_mul] at hmod
  have hcop : IsCoprime p (X ^ n) := by
    apply IsCoprime.pow_right
    rw [isCoprime_comm]
    rw [(irreducible_X (R := ZMod 2)).coprime_iff_not_dvd, X_dvd_iff]
    exact h0
  have hzero : a - b = 0 := by
    apply eq_zero_of_dvd_of_degree_lt (hcop.dvd_of_dvd_mul_right hdvd)
    exact lt_of_le_of_lt (degree_sub_le a b) (max_lt ha hb)
  exact sub_eq_zero.mp hzero

end BitPoly
