/-
`crc32_calc` computes a polynomial remainder.

The source keeps a reflected register: the seed first, then for each input
byte an exclusive or into the right end and eight steps to the right, in
each of which the bit that leaves selects the taps by a mask of ones or
zeros. Read backwards the register is a polynomial over GF(2); a byte
multiplies it by `X ^ 8` and adds the byte's bits times `X ^ 32`, modulo
the IEEE 802.3 polynomial.
-/
import Vnic.Lib.BitPoly
import Vnic.Rss

namespace Vnic.Rss

open BitPoly Polynomial

-- ============================================================= one byte

/-- The taps of `crc32_calc`. -/
def crcTaps : BitVec 32 := 0xEDB88320#32

/-- The IEEE 802.3 polynomial. -/
noncomputable def ieee : (ZMod 2)[X] := poly 0x104C11DB7#33

/-- The taps are that polynomial, reflected and without its leading
coefficient. -/
theorem modulus_crcTaps : modulus crcTaps = ieee := by
  have hbits : ∀ i < 33, (if i = 32 then (1 : ZMod 2) else 0)
      + ofBool (crcTaps.reverse.getLsbD i)
        = ofBool ((0x104C11DB7#33).getLsbD i) := by
    decide +kernel
  ext i
  unfold modulus ieee
  rw [coeff_add, coeff_X_pow, coeff_poly, coeff_poly]
  rcases Nat.lt_or_ge i 33 with hi | hi
  · exact hbits i hi
  · rw [if_neg (by omega), BitVec.getLsbD_of_ge _ _ (by omega),
      BitVec.getLsbD_of_ge _ _ hi]
    rfl

theorem degree_ieee : ieee.degree = 32 := by
  rw [← modulus_crcTaps]
  exact degree_modulus crcTaps

theorem monic_ieee : ieee.Monic := by
  rw [← modulus_crcTaps]
  exact monic_modulus crcTaps

/-- The mask of the source selects the taps. -/
private theorem crcMask (crc : UInt32) :
    (0xEDB88320 &&& (0 - (crc &&& 1))).toBitVec
      = if crc.toBitVec.getLsbD 0 then crcTaps else 0#32 := by
  have hand : crc.toBitVec &&& 1#32
      = BitVec.setWidth 32 (BitVec.ofBool (crc.toBitVec.getLsbD 0)) :=
    BitVec.and_one_eq_setWidth_ofBool_getLsbD
  show 0xEDB88320#32 &&& (0#32 - (crc.toBitVec &&& 1#32)) = _
  rw [hand]
  cases crc.toBitVec.getLsbD 0 with
  | false => rfl
  | true => rfl

/-- The bit loop runs the register. -/
theorem crcBits_eq (n : Nat) (crc : UInt32) :
    (crcBits n crc).toBitVec = (shift crcTaps)^[n] crc.toBitVec := by
  induction n generalizing crc with
  | zero => rfl
  | succ n ih =>
      rw [crcBits, ih, Function.iterate_succ_apply]
      congr 1
      unfold shift
      rw [UInt32.toBitVec_xor, crcMask]
      rfl

-- ============================================================ byte loop

/-- The state of the byte loop. -/
def crcFold (d : List UInt8) (s : UInt32) : UInt32 :=
  d.foldl (fun crc byte => crcBits 8 (crc ^^^ byte.toUInt32)) s

/-- The bits of the input in the order the register takes them: byte by
byte, the least significant first. -/
def messageBits (d : List UInt8) : List Bool :=
  d.flatMap fun byte => bits byte.toBitVec

/-- The input as a polynomial. -/
noncomputable def message (d : List UInt8) : (ZMod 2)[X] :=
  ofBits (messageBits d)

/-- The bits of a word, backwards. -/
def reverse (s : UInt32) : UInt32 :=
  UInt32.ofBitVec s.toBitVec.reverse

/-- A word as a polynomial. -/
noncomputable def wordPoly (s : UInt32) : (ZMod 2)[X] :=
  poly s.toBitVec

/-- A polynomial below degree 32 as a word. -/
def polyWord (p : (ZMod 2)[X]) : UInt32 :=
  UInt32.ofBitVec (word 32 p)

theorem length_messageBits (d : List UInt8) :
    (messageBits d).length = 8 * d.length := by
  induction d with
  | nil => rfl
  | cons byte rest ih =>
      unfold messageBits at ih ⊢
      rw [List.flatMap_cons, List.length_append, ih, length_bits,
        List.length_cons]
      omega

/-- One more byte in front. -/
private theorem message_cons (byte : UInt8) (d : List UInt8) :
    message (byte :: d)
      = poly byte.toBitVec.reverse * X ^ (8 * d.length) + message d := by
  unfold message
  rw [← length_messageBits, ← ofBits_bits, ← ofBits_append]
  rfl

/-- One byte multiplies by `X ^ 8` and brings in its bits. -/
theorem crcStep_poly (crc : UInt32) (byte : UInt8) :
    wordPoly (reverse (crcBits 8 (crc ^^^ byte.toUInt32)))
      = (wordPoly (reverse crc) * X ^ 8
          + poly byte.toBitVec.reverse * X ^ 32) %ₘ ieee := by
  have hbyte : poly byte.toUInt32.toBitVec.reverse
      = poly byte.toBitVec.reverse * X ^ 24 :=
    poly_reverse_setWidth byte.toBitVec 24
  show poly (crcBits 8 (crc ^^^ byte.toUInt32)).toBitVec.reverse = _
  rw [crcBits_eq, poly_iterate_shift, modulus_crcTaps, UInt32.toBitVec_xor,
    poly_reverse_xor, hbyte, add_mul, mul_assoc, ← pow_add]
  rfl

/-- The state of the byte loop is the remainder so far. -/
theorem crcFold_poly (d : List UInt8) (s : UInt32) :
    wordPoly (reverse (crcFold d s))
      = (message d * X ^ 32 + wordPoly (reverse s) * X ^ (8 * d.length))
          %ₘ ieee := by
  induction d generalizing s with
  | nil =>
      have hdeg : (wordPoly (reverse s)).degree < ieee.degree := by
        rw [degree_ieee]
        exact degree_poly_lt _
      have hself := (modByMonic_eq_self_iff monic_ieee).mpr hdeg
      simp [crcFold, message, messageBits, ofBits, hself]
  | cons byte rest ih =>
      have hstep := crcStep_poly s byte
      show wordPoly (reverse (crcFold rest _)) = _
      rw [ih, hstep]
      apply modByMonic_eq_of_dvd_sub monic_ieee
      rw [message_cons, List.length_cons, Nat.mul_succ, pow_add]
      have hdvd := (dvd_modByMonic_sub (wordPoly (reverse s) * X ^ 8
        + poly byte.toBitVec.reverse * X ^ 32) ieee).mul_right
          (X ^ (8 * rest.length))
      convert hdvd using 1
      ring

-- =============================================================== result

theorem reverse_reverse (s : UInt32) : reverse (reverse s) = s := by
  apply UInt32.toBitVec_inj.mp
  apply BitVec.eq_of_getLsbD_eq
  intro i _
  simp [reverse]

/-- Word to polynomial and back. -/
theorem polyWord_wordPoly (s : UInt32) : polyWord (wordPoly s) = s := by
  apply UInt32.toBitVec_inj.mp
  exact word_poly s.toBitVec

/-- The fold, complemented. -/
theorem crc32Calc_eq (d : List UInt8) (s : UInt32) :
    crc32Calc d s = ~~~ crcFold d s := rfl

/-- `crc32_calc` is polynomial division, and so it may be done in parts. -/
theorem crc32Calc_division :
    (∀ (d : List UInt8) (s : UInt32), crc32Calc d s
      = ~~~ reverse (polyWord
          ((message d * X ^ 32 + wordPoly (reverse s) * X ^ (8 * d.length))
            %ₘ ieee)))
    ∧ ∀ (a b : List UInt8) (s : UInt32),
        crc32Calc (a ++ b) s = crc32Calc b (~~~ crc32Calc a s) := by
  constructor
  · intro d s
    rw [crc32Calc_eq, ← crcFold_poly, polyWord_wordPoly, reverse_reverse]
  · intro a b s
    rw [crc32Calc_eq, crc32Calc_eq, crc32Calc_eq, UInt32.not_not]
    unfold crcFold
    rw [List.foldl_append]

end Vnic.Rss
