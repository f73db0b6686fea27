/-
The symmetric mode: both directions of a flow hash alike, and the
canonical form merges nothing else.

`makeSymmetric` returns the tuple or its reverse (`makeSymmetric_cases`)
and cannot tell the two apart (`makeSymmetric_reversed`). Everything else
follows from that: a tuple has the same canonical form as another exactly
when it is that tuple or its reverse.

The tie-break matters in one place only. When the two addresses are
equal, reversing the tuple exchanges the ports alone, and the port
comparison has to decide; when the ports are equal too, the tuple is its
own reverse, which needs the byte-order conversions to be injective.
-/
import Vnic.Port

namespace Vnic

-- ========================================================== byte order

private theorem ntohs_inj {a b : Bytes 2} (h : ntohs a = ntohs b) : a = b := by
  unfold ntohs at h
  have ha := (a.get 1).toNat_lt
  have hb := (b.get 1).toNat_lt
  have h₀ : (a.get 0).toNat = (b.get 0).toNat := by omega
  have h₁ : (a.get 1).toNat = (b.get 1).toNat := by omega
  apply List.Vector.ext
  intro i
  match i with
  | 0 => exact UInt8.toNat_inj.1 h₀
  | 1 => exact UInt8.toNat_inj.1 h₁

private theorem ntohl_inj {a b : Bytes 4} (h : ntohl a = ntohl b) : a = b := by
  unfold ntohl at h
  have ha₁ := (a.get 1).toNat_lt
  have hb₁ := (b.get 1).toNat_lt
  have ha₂ := (a.get 2).toNat_lt
  have hb₂ := (b.get 2).toNat_lt
  have ha₃ := (a.get 3).toNat_lt
  have hb₃ := (b.get 3).toNat_lt
  have h₀ : (a.get 0).toNat = (b.get 0).toNat := by omega
  have h₁ : (a.get 1).toNat = (b.get 1).toNat := by omega
  have h₂ : (a.get 2).toNat = (b.get 2).toNat := by omega
  have h₃ : (a.get 3).toNat = (b.get 3).toNat := by omega
  apply List.Vector.ext
  intro i
  match i with
  | 0 => exact UInt8.toNat_inj.1 h₀
  | 1 => exact UInt8.toNat_inj.1 h₁
  | 2 => exact UInt8.toNat_inj.1 h₂
  | 3 => exact UInt8.toNat_inj.1 h₃

/-- Exchanging the arguments of `memcmp` flips the sign. -/
private theorem memcmp_swap (as bs : List UInt8) :
    memcmp bs as = (memcmp as bs).swap := by
  induction as generalizing bs with
  | nil => cases bs <;> rfl
  | cons a as ih =>
      cases bs with
      | nil => rfl
      | cons b bs =>
          unfold memcmp
          rcases lt_trichotomy a.toNat b.toNat with h | h | h
          · have hlt : a < b := UInt8.lt_iff_toNat_lt.2 h
            have hgt : ¬ b < a := fun h' => by
              have := UInt8.lt_iff_toNat_lt.1 h'
              omega
            simp [hlt, hgt]
          · have heq : a = b := UInt8.toNat_inj.1 h
            subst heq
            have hirr : ¬ a < a := fun h' => by
              have := UInt8.lt_iff_toNat_lt.1 h'
              omega
            simp only [hirr, if_false]
            exact ih bs
          · have hgt : b < a := UInt8.lt_iff_toNat_lt.2 h
            have hlt : ¬ a < b := fun h' => by
              have := UInt8.lt_iff_toNat_lt.1 h'
              omega
            simp [hlt, hgt]

namespace Rss

-- ============================================================= reverse

/-- The tuple of the other direction: addresses and ports exchanged. -/
def reversed (t : FiveTuple) : FiveTuple :=
  if t.version = FiveTuple.kIpv6 then swap6 t else swap4 t

variable {t t' : FiveTuple}

/-- Reversing twice gives the tuple back. -/
private theorem reversed_reversed (t : FiveTuple) : reversed (reversed t) = t
    := by
  unfold reversed
  by_cases h : t.version = FiveTuple.kIpv6
  · rw [if_pos h, if_pos (show (swap6 t).version = _ from h)]
    rfl
  · rw [if_neg h, if_neg (show (swap4 t).version ≠ _ from h)]
    rfl

/-- Between equal addresses a reversal only exchanges the ports. -/
private theorem swap6_eq_swapPorts (h : t.saddr6 = t.daddr6) :
    swap6 t = swapPorts t := by
  unfold swap6 swapPorts
  rw [h]

private theorem swap4_eq_swapPorts (h : t.saddr4 = t.daddr4) :
    swap4 t = swapPorts t := by
  unfold swap4 swapPorts
  rw [h]

/-- Between equal ports nothing changes at all. -/
private theorem swapPorts_of_eq (h : t.sport = t.dport) : swapPorts t = t := by
  cases t with
  | mk version saddr4 daddr4 saddr6 daddr6 sport dport iproto =>
      simp only at h
      subst h
      rfl

private theorem saddr6_eq_of_memcmp
    (h : memcmp t.saddr6.toList t.daddr6.toList = .eq) :
    t.saddr6 = t.daddr6 :=
  List.Vector.toList_injective (eq_of_memcmp (by simp) h)

-- =========================================================== canonical

/-- The port tie-break, on a tuple and on its port reversal. -/
private theorem portOrder_swapPorts (t : FiveTuple) :
    (if ntohs (swapPorts t).dport < ntohs (swapPorts t).sport
      then swapPorts (swapPorts t) else swapPorts t)
    = if ntohs t.dport < ntohs t.sport then swapPorts t else t := by
  show (if ntohs t.sport < ntohs t.dport then t else swapPorts t) = _
  rcases lt_trichotomy (ntohs t.sport) (ntohs t.dport) with h | h | h
  · rw [if_pos h, if_neg (by omega)]
  · rw [if_neg (by omega), if_neg (by omega), swapPorts_of_eq (ntohs_inj h)]
  · rw [if_neg (by omega), if_pos h]

/-- The canonical form is the tuple or its reverse. -/
theorem makeSymmetric_cases (t : FiveTuple) :
    makeSymmetric t = t ∨ makeSymmetric t = reversed t := by
  unfold makeSymmetric reversed
  by_cases hv : t.version = FiveTuple.kIpv6
  · rw [if_pos hv, if_pos hv]
    cases hc : memcmp t.saddr6.toList t.daddr6.toList with
    | lt => exact Or.inl rfl
    | gt => exact Or.inr rfl
    | eq =>
        simp only
        split
        · exact Or.inr (swap6_eq_swapPorts (saddr6_eq_of_memcmp hc)).symm
        · exact Or.inl rfl
  · rw [if_neg hv, if_neg hv]
    simp only
    split
    · exact Or.inr rfl
    · split
      · next heq =>
        split
        · exact Or.inr (swap4_eq_swapPorts (ntohl_inj heq)).symm
        · exact Or.inl rfl
      · exact Or.inl rfl

/-- A tuple and its reverse have one canonical form. -/
theorem makeSymmetric_reversed (t : FiveTuple) :
    makeSymmetric (reversed t) = makeSymmetric t := by
  by_cases hv : t.version = FiveTuple.kIpv6
  · have hrev : reversed t = swap6 t := if_pos hv
    rw [hrev]
    unfold makeSymmetric
    rw [if_pos hv, if_pos (show (swap6 t).version = _ from hv)]
    have hswap : memcmp (swap6 t).saddr6.toList (swap6 t).daddr6.toList
        = (memcmp t.saddr6.toList t.daddr6.toList).swap :=
      memcmp_swap _ _
    rw [hswap]
    cases hc : memcmp t.saddr6.toList t.daddr6.toList with
    | lt => rfl
    | gt => rfl
    | eq =>
        rw [swap6_eq_swapPorts (saddr6_eq_of_memcmp hc)]
        exact portOrder_swapPorts t
  · have hrev : reversed t = swap4 t := if_neg hv
    rw [hrev]
    unfold makeSymmetric
    rw [if_neg hv, if_neg (show (swap4 t).version ≠ _ from hv)]
    -- the source compares the addresses in host order; only equal ones
    -- leave it to the ports
    rcases lt_trichotomy (ntohl t.saddr4) (ntohl t.daddr4) with h | h | h
    · have h₁ : ¬ ntohl t.daddr4 < ntohl t.saddr4 := by omega
      have h₂ : ntohl t.saddr4 ≠ ntohl t.daddr4 := by omega
      simp only [if_neg h₁, if_neg h₂]
      exact if_pos h
    · have haddr := ntohl_inj h
      rw [swap4_eq_swapPorts haddr]
      have h₁ : ¬ ntohl t.daddr4 < ntohl t.saddr4 := by omega
      have h₁' : ¬ ntohl (swapPorts t).daddr4
          < ntohl (swapPorts t).saddr4 := h₁
      have h₂ : ntohl (swapPorts t).saddr4
          = ntohl (swapPorts t).daddr4 := h
      simp only [if_neg h₁, if_neg h₁', if_pos h, if_pos h₂]
      exact portOrder_swapPorts t
    · have h₁ : ¬ ntohl (swap4 t).daddr4 < ntohl (swap4 t).saddr4 := by
        show ¬ ntohl t.saddr4 < ntohl t.daddr4
        omega
      have h₂ : ntohl (swap4 t).saddr4 ≠ ntohl (swap4 t).daddr4 := by
        show ntohl t.daddr4 ≠ ntohl t.saddr4
        omega
      simp only [if_neg h₁, if_neg h₂, if_pos h]

/-- The canonicalisation merges a tuple with its reverse and with nothing
else. -/
theorem makeSymmetric_eq_iff :
    makeSymmetric t = makeSymmetric t' ↔ t' = t ∨ t' = reversed t := by
  constructor
  · intro h
    rcases makeSymmetric_cases t with ht | ht
    · rcases makeSymmetric_cases t' with ht' | ht'
      · rw [ht, ht'] at h
        exact Or.inl h.symm
      · rw [ht, ht'] at h
        exact Or.inr (by rw [h, reversed_reversed])
    · rcases makeSymmetric_cases t' with ht' | ht'
      · rw [ht, ht'] at h
        exact Or.inr h.symm
      · rw [ht, ht'] at h
        apply Or.inl
        rw [← reversed_reversed t', ← h, reversed_reversed]
  · rintro (rfl | rfl)
    · rfl
    · exact (makeSymmetric_reversed t).symm

/-- In symmetric mode both directions have one hash. -/
theorem calcHash_reversed (t : FiveTuple) (key : List UInt8)
    (hf : HashFunc) (protocol : Protocol) :
    calcHash (reversed t) key hf protocol .symmetric
      = calcHash t key hf protocol .symmetric := by
  unfold calcHash
  simp only [if_true, makeSymmetric_reversed]

end Rss

end Vnic
