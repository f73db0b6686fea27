/-
Sixteen-bit ones'-complement sums.

`add` is addition with an end-around carry: a carry out of bit 16 is added
back at the bottom. A sum is never zero unless every word is, so its value
is the residue of the plain sum modulo `0xFFFF` taken in `1 .. 0xFFFF`
(`residue`). An implementation may therefore add the words as they are and
fold the carries back at the end (`residue_fold`).
-/
import Mathlib.Algebra.GroupWithZero.Nat

namespace OnesComplement

/-- Addition of two words with an end-around carry. -/
def add (a b : Nat) : Nat :=
  if a + b ≤ 0xFFFF then a + b else a + b - 0xFFFF

/-- The ones'-complement sum of a list of words. -/
def sum (ws : List Nat) : Nat := ws.foldl add 0

/-- The sum a plain total stands for. -/
def residue (total : Nat) : Nat :=
  if total = 0 then 0 else (total - 1) % 0xFFFF + 1

theorem residue_le (total : Nat) : residue total ≤ 0xFFFF := by
  unfold residue
  split
  · omega
  · omega

/-- A word is its own residue. -/
theorem residue_of_le {total : Nat} (h : total ≤ 0xFFFF) :
    residue total = total := by
  unfold residue
  split
  · omega
  · omega

/-- Folding the carries back once keeps the residue. -/
theorem residue_fold (total : Nat) :
    residue (total % 0x10000 + total / 0x10000) = residue total := by
  unfold residue
  by_cases h : total = 0
  · simp [h]
  · rw [if_neg h, if_neg (by omega)]
    omega

/-- Adding a word to a residue. -/
theorem add_residue {w : Nat} (total : Nat) (h : w ≤ 0xFFFF) :
    add (residue total) w = residue (total + w) := by
  unfold add residue
  by_cases h0 : total = 0
  · by_cases hw : w = 0
    · simp [h0, hw]
    · simp only [h0, hw, if_true, if_false, Nat.zero_add]
      rw [if_pos h]
      omega
  · rw [if_neg h0, if_neg (show ¬ total + w = 0 by omega)]
    split
    · omega
    · omega

/-- A sum is the residue of the plain total. -/
theorem sum_eq_residue {ws : List Nat} (h : ∀ w ∈ ws, w ≤ 0xFFFF) :
    sum ws = residue ws.sum := by
  have hfold : ∀ total, ws.foldl add (residue total)
      = residue (total + ws.sum) := by
    induction ws with
    | nil => exact fun total => rfl
    | cons w ws ih =>
        intro total
        obtain ⟨hw, hws⟩ := List.forall_mem_cons.1 h
        rw [List.foldl_cons, add_residue total hw, ih hws, List.sum_cons,
          Nat.add_assoc]
  have := hfold 0
  rwa [Nat.zero_add] at this

/-- All ones is the sum of the totals divisible by `0xFFFF`, zero
apart. -/
theorem residue_eq_top_iff {total : Nat} (h : 0 < total) :
    residue total = 0xFFFF ↔ 0xFFFF ∣ total := by
  unfold residue
  rw [if_neg (by omega)]
  omega

/-- The word that completes a total to a multiple of `0xFFFF` is the
complement of its sum; where that is zero, all ones does as well. -/
theorem dvd_add_iff {total w : Nat} (h : 0 < total) (hw : w ≤ 0xFFFF) :
    0xFFFF ∣ total + w ↔ w = 0xFFFF - residue total
      ∨ 0xFFFF - residue total = 0 ∧ w = 0xFFFF := by
  unfold residue
  rw [if_neg (by omega)]
  omega

end OnesComplement
