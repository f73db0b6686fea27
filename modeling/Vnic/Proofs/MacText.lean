/-
`MacToString` and `ParseMac` are inverse.

The printer lives with the parser of frames and goes through `snprintf`,
the reader lives with the checks of the configuration and goes through
`sscanf`. Both meet in `IsMac`: what is printed is six groups of two
digits with single colons between them, each with the value of its byte,
and such a text scans to its own bytes. No group is longer than two
digits, so that a leading `0x` never arises.
-/
import Vnic.Proofs.ParseMac

namespace Vnic

open Validate

-- ============================================================ one byte

/-- The digit of a value below 16, as it is printed. -/
def lowerDigit (d : Nat) : UInt8 := (Nat.digitChar d).toUInt8

/-- A byte is printed as two digits, the high one first. -/
private theorem formatHex_byte (b : UInt8) :
    formatHex 2 b.toUInt32
      = [lowerDigit (b.toNat / 16), lowerDigit (b.toNat % 16)] := by
  have hb := b.toNat_lt
  unfold formatHex
  rw [UInt8.toNat_toUInt32]
  by_cases hlow : b.toNat < 16
  · -- one digit, and a zero in front of it
    rw [Nat.toDigits_of_lt_base hlow, Nat.div_eq_of_lt hlow,
      Nat.mod_eq_of_lt hlow]
    rfl
  · rw [Nat.toDigits_of_base_le (by omega) (by omega),
      Nat.toDigits_of_lt_base (by omega)]
    rfl

/-- A lower-case hexadecimal digit. -/
def IsLowerDigit (c : UInt8) : Prop :=
  (48 ≤ c ∧ c ≤ 57) ∨ (97 ≤ c ∧ c ≤ 102)

instance (c : UInt8) : Decidable (IsLowerDigit c) :=
  inferInstanceAs (Decidable (_ ∨ _))

/-- A printed digit is lower case, and reads as its value. -/
private theorem lowerDigit_spec : ∀ d < 16,
    hexDigit (lowerDigit d) = some d ∧ IsLowerDigit (lowerDigit d) := by
  decide

private theorem groupValue_formatHex (b : UInt8) :
    groupValue (formatHex 2 b.toUInt32) = some b := by
  have hb := b.toNat_lt
  have hhigh := (lowerDigit_spec (b.toNat / 16) (by omega)).1
  have hlow := (lowerDigit_spec (b.toNat % 16) (by omega)).1
  rw [formatHex_byte]
  unfold groupValue
  simp only [hhigh, hlow]
  rw [Nat.div_add_mod, UInt8.ofNat_toNat]

-- ======================================================== the whole text

/-- The text that `snprintf` is given room for. -/
def macText (mac : Bytes 6) : List UInt8 :=
  [58].intercalate (mac.toList.map fun b => formatHex 2 b.toUInt32)

/-- The text of an address is one. -/
private theorem isMac_macText (mac : Bytes 6) : IsMac (macText mac) mac := by
  refine ⟨_, rfl, ?_⟩
  rw [List.map_map]
  exact List.map_congr_left fun b _ => groupValue_formatHex b

private theorem length_intercalate_pairs {groups : List (List UInt8)}
    (h : ∀ g ∈ groups, g.length = 2) :
    ([58].intercalate groups).length = 3 * groups.length - 1 := by
  induction groups with
  | nil => rfl
  | cons g groups ih =>
      obtain ⟨hg, hrest⟩ := List.forall_mem_cons.1 h
      cases groups with
      | nil =>
          rw [List.intercalate_singleton, hg]
          rfl
      | cons g' groups =>
          have hlen := ih hrest
          rw [List.intercalate_cons_cons, List.length_append,
            List.length_append, hlen, hg]
          simp only [List.length_cons, List.length_nil]
          omega

private theorem length_macText (mac : Bytes 6) : (macText mac).length = 17 :=
    by
  unfold macText
  rw [length_intercalate_pairs, List.length_map, mac.toList_length]
  intro g hg
  obtain ⟨b, -, rfl⟩ := List.mem_map.1 hg
  rw [formatHex_byte]
  rfl

/-- All of it fits, and is what the string holds. -/
theorem macToString_eq (mac : Bytes 6) : macToString mac = macText mac := by
  show (snprintf 18 (macText mac)).takeWhile (· != 0) = _
  unfold snprintf
  rw [List.take_of_length_le (length_macText mac).le,
    List.takeWhile_append_of_pos (isMac_macText mac).no_nul]
  exact List.append_nil _

private theorem macText_lower (mac : Bytes 6) :
    ∀ c ∈ macText mac, c = 58 ∨ IsLowerDigit c := by
  refine forall_mem_intercalate (Or.inl rfl) fun g hg c hc => Or.inr ?_
  obtain ⟨b, -, rfl⟩ := List.mem_map.1 hg
  have hb := b.toNat_lt
  rw [formatHex_byte, List.mem_cons, List.mem_singleton] at hc
  rcases hc with rfl | rfl
  · exact (lowerDigit_spec _ (by omega)).2
  · exact (lowerDigit_spec _ (by omega)).2

/-- Reading what was written gives the address. -/
private theorem parseMac_macToString (mac : Bytes 6) :
    parseMac (macToString mac) = some mac := by
  rw [macToString_eq, parseMac_iff]
  exact (isMac_macText mac).scans

/-- With an address that parses the other checks decide. -/
theorem validate_of_parseMac (c : VNic.Config) {mac : List UInt8}
    {out : Bytes 6} (h : parseMac mac = some out) :
    { c with macAddr := mac }.validate = { c with macAddr := [] }.validate := by
  unfold VNic.Config.validate
  simp [h]

/-- MAC text round trip: 17 lower-case characters, read back as the same
address, different for different addresses, and accepted by `validate`
wherever a configuration without an address is. -/
theorem macToString_round_trip (mac : Bytes 6) :
    (macToString mac).length = 17
    ∧ (∀ c ∈ macToString mac, c = 58 ∨ IsLowerDigit c)
    ∧ parseMac (macToString mac) = some mac
    ∧ (∀ other, macToString other = macToString mac → other = mac)
    ∧ ∀ c : VNic.Config,
        { c with macAddr := macToString mac }.validate
          = { c with macAddr := [] }.validate := by
  have hparse := parseMac_macToString mac
  refine ⟨?_, ?_, hparse, fun other heq => ?_, fun c => ?_⟩
  · rw [macToString_eq]
    exact length_macText mac
  · rw [macToString_eq]
    exact macText_lower mac
  · have hother := parseMac_macToString other
    rw [heq, hparse] at hother
    exact (Option.some.inj hother).symm
  · exact validate_of_parseMac c hparse

end Vnic
