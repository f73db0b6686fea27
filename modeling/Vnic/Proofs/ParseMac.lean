/-
Which texts `ParseMac` accepts.

`sscanf` reads more than MAC addresses. Its six numbers may stand behind
white space, a sign or `0x`, may have any number of digits, and whatever
follows the last one is not looked at; `c_str()` hides everything behind
a NUL. `Numeral` is one such number and `Scans` the texts that start with
six of them; `parseMac` accepts exactly those (`parseMac_iff`). A MAC
address is six groups of one or two digits and nothing else (`IsMac`).
Every MAC address scans, to its own bytes, so `ParseMac` keeps its contract
on a text exactly if that text is a MAC address or does not scan at all.

# The scanner, both ways

`scanHex_sound` and `scanHex_text` are the two directions for one number:
what the scanner takes is a `Numeral` that ends where the scanner stops,
and a `Numeral` followed by something that cannot continue it is taken as
a whole. `scanParts` strings six of them together with the five colons;
the induction is on the numbers still expected. The last number needs no
end, which is how the trailing text gets in.
-/
import Mathlib.Data.List.TakeWhile
import Vnic.Proofs.Port

namespace Vnic.Validate

-- ======================================================== one character

/-- The text goes on with a hexadecimal digit. -/
def StartsHex : List UInt8 → Prop
  | [] => False
  | c :: _ => hexDigit c ≠ none

/-- The text goes on with an `x`. -/
def StartsX : List UInt8 → Prop
  | [] => False
  | c :: _ => c = 120 ∨ c = 88

private theorem hexDigit_range {c : UInt8} {v : Nat} (h : hexDigit c = some v)
    :
    v < 16 ∧ 48 ≤ c.toNat := by
  unfold hexDigit at h
  simp only [UInt8.le_iff_toNat_le, UInt8.reduceToNat] at h
  split at h
  · next hc =>
    cases h
    omega
  · split at h
    · next hc =>
      cases h
      omega
    · split at h
      · next hc =>
        cases h
        omega
      · cases h

private theorem isSpace_lt {c : UInt8} (h : isSpace c = true) : c.toNat < 48 :=
    by
  unfold isSpace at h
  simp only [Bool.or_eq_true, beq_iff_eq, Bool.and_eq_true, decide_eq_true_eq,
    UInt8.le_iff_toNat_le, UInt8.reduceToNat] at h
  rcases h with rfl | h
  · decide
  · omega

private theorem not_isSpace_of_hexDigit {c : UInt8} (h : hexDigit c ≠ none) :
    ¬ isSpace c = true := by
  intro hs
  obtain ⟨v, hv⟩ := Option.ne_none_iff_exists'.1 h
  have hlow := (hexDigit_range hv).2
  have hhigh := isSpace_lt hs
  omega

/-- What a digit is not: a sign, a colon, an `x`, the terminator. -/
private theorem hexDigit_ne {c : UInt8} (h : hexDigit c ≠ none) :
    c ≠ 43 ∧ c ≠ 45 ∧ c ≠ 58 ∧ c ≠ 120 ∧ c ≠ 88 ∧ c ≠ 0 := by
  refine ⟨?_, ?_, ?_, ?_, ?_, ?_⟩ <;>
    (rintro rfl
     exact h rfl)

-- ========================================================== one numeral

/-- One number as `%x` reads it. -/
structure Numeral where
  space : List UInt8
  sign : List UInt8
  base : List UInt8
  digits : List UInt8
  space_all : ∀ c ∈ space, isSpace c = true
  sign_mem : sign = [] ∨ sign = [43] ∨ sign = [45]
  base_mem : base = [] ∨ base = [48, 120] ∨ base = [48, 88]
  digits_ne : digits ≠ []
  digits_hex : ∀ c ∈ digits, hexDigit c ≠ none

namespace Numeral

/-- How it is written. -/
def text (n : Numeral) : List UInt8 :=
  n.space ++ (n.sign ++ (n.base ++ n.digits))

/-- What it stands for. -/
def value (n : Numeral) : UInt32 :=
  hexValue (n.sign == [45]) (n.digits.filterMap hexDigit)

/-- The number ends here: no digit follows, and no `x` that would turn a
lone zero into the start of `0x`. -/
def Ends (n : Numeral) (tail : List UInt8) : Prop :=
  ¬ StartsHex tail ∧ (n.base = [] → n.digits = [48] → ¬ StartsX tail)

private theorem ends_colon (n : Numeral) (rest : List UInt8) :
    n.Ends (58 :: rest) := by
  refine ⟨fun h => h rfl, fun _ _ h => ?_⟩
  rcases h with h | h <;> cases h

end Numeral

/-- The digits are taken up to the first character that is none. -/
private theorem scanDigits_append {ds tail : List UInt8}
    (hds : ∀ c ∈ ds, hexDigit c ≠ none) (htail : ¬ StartsHex tail) :
    scanDigits (ds ++ tail) = (ds.filterMap hexDigit, tail) := by
  induction ds with
  | nil =>
      cases tail with
      | nil => rfl
      | cons c rest =>
          have hnone : hexDigit c = none := not_not.1 htail
          show scanDigits (c :: rest) = _
          unfold scanDigits
          rw [hnone]
          rfl
  | cons c ds ih =>
      obtain ⟨hc, hrest⟩ := List.forall_mem_cons.1 hds
      obtain ⟨v, hv⟩ := Option.ne_none_iff_exists'.1 hc
      rw [List.cons_append, List.filterMap_cons_some hv]
      unfold scanDigits
      simp only [hv, ih hrest]

/-- Every run of digits is found this way. -/
private theorem scanDigits_split (s : List UInt8) :
    ∃ ds tail, s = ds ++ tail ∧ (∀ c ∈ ds, hexDigit c ≠ none)
      ∧ ¬ StartsHex tail := by
  induction s with
  | nil => exact ⟨[], [], rfl, fun c hc => absurd hc (List.not_mem_nil), id⟩
  | cons c rest ih =>
      by_cases hc : hexDigit c = none
      · exact ⟨[], c :: rest, rfl, fun c hc => absurd hc (List.not_mem_nil),
          not_not.2 hc⟩
      · obtain ⟨ds, tail, rfl, hds, htail⟩ := ih
        exact ⟨c :: ds, tail, rfl, List.forall_mem_cons.2 ⟨hc, hds⟩, htail⟩

/-- Behind the sign stands a digit. -/
private theorem Numeral.body (n : Numeral) :
    ∃ c rest, n.base ++ n.digits = c :: rest ∧ hexDigit c ≠ none := by
  rcases n.base_mem with h | h | h
  · obtain ⟨c, rest, hd⟩ := List.exists_cons_of_ne_nil n.digits_ne
    refine ⟨c, rest, ?_, ?_⟩
    · rw [h, hd]
      rfl
    · apply n.digits_hex
      rw [hd]
      exact List.mem_cons_self ..
  · rw [h]
    exact ⟨48, _, rfl, fun h0 => (by cases h0)⟩
  · rw [h]
    exact ⟨48, _, rfl, fun h0 => (by cases h0)⟩

private theorem scanSign_cons (c : UInt8) (rest : List UInt8) :
    scanSign (c :: rest)
      = if c = 45 then (true, rest)
        else if c = 43 then (false, rest)
        else (false, c :: rest) := rfl

private theorem scanSign_append {sign : List UInt8} {c : UInt8}
    (rest : List UInt8)
    (hsign : sign = [] ∨ sign = [43] ∨ sign = [45])
    (hc : hexDigit c ≠ none) :
    scanSign (sign ++ c :: rest) = (sign == [45], c :: rest) := by
  obtain ⟨hplus, hminus, -⟩ := hexDigit_ne hc
  rcases hsign with rfl | rfl | rfl
  · rw [List.nil_append, scanSign_cons, if_neg hminus, if_neg hplus]
    rfl
  · rfl
  · rfl

/-- Without `0x` in front nothing is skipped. -/
private theorem scanPrefix_of_not {s : List UInt8}
    (h : ∀ x rest, s = 48 :: x :: rest → ¬ (x = 120 ∨ x = 88)) :
    scanPrefix s = s := by
  unfold scanPrefix
  split
  · next a b rest =>
    rw [if_neg]
    rintro ⟨rfl, hx⟩
    exact h b rest rfl hx
  · rfl

private theorem Numeral.scanPrefix_body (n : Numeral) {tail : List UInt8}
    (h : n.Ends tail) :
    scanPrefix ((n.base ++ n.digits) ++ tail) = n.digits ++ tail := by
  rcases n.base_mem with hb | hb | hb
  · rw [hb, List.nil_append]
    apply scanPrefix_of_not
    intro x rest heq hx
    obtain ⟨d, ds, hd⟩ := List.exists_cons_of_ne_nil n.digits_ne
    rw [hd, List.cons_append, List.cons.injEq] at heq
    obtain ⟨rfl, heq⟩ := heq
    cases ds with
    | nil =>
        -- the `x` would have to stand right behind the zero
        refine h.2 hb hd ?_
        rw [List.nil_append] at heq
        rw [heq]
        exact hx
    | cons e es =>
        rw [List.cons_append, List.cons.injEq] at heq
        have hhex : hexDigit e ≠ none := by
          apply n.digits_hex
          rw [hd]
          exact List.mem_cons_of_mem _ (List.mem_cons_self ..)
        obtain ⟨-, -, -, hx₁, hx₂, -⟩ := hexDigit_ne hhex
        rw [heq.1] at hx₁ hx₂
        exact hx.elim hx₁ hx₂
  · rw [hb]
    rfl
  · rw [hb]
    rfl

/-- `%x` reads a numeral up to where it ends. -/
theorem scanHex_text (n : Numeral) {tail : List UInt8} (h : n.Ends tail) :
    scanHex (n.text ++ tail) = some (n.value, tail) := by
  obtain ⟨c, rest, hbody, hc⟩ := n.body
  have hspace : (n.text ++ tail).dropWhile isSpace
      = n.sign ++ ((n.base ++ n.digits) ++ tail) := by
    unfold Numeral.text
    rw [List.append_assoc, List.dropWhile_append_of_pos n.space_all,
      List.append_assoc, hbody, List.cons_append]
    rcases n.sign_mem with hs | hs | hs
    · rw [hs]
      exact List.dropWhile_cons_of_neg (not_isSpace_of_hexDigit hc)
    · rw [hs]
      rfl
    · rw [hs]
      rfl
  have hsign : scanSign (n.sign ++ ((n.base ++ n.digits) ++ tail))
      = (n.sign == [45], (n.base ++ n.digits) ++ tail) := by
    rw [hbody, List.cons_append]
    exact scanSign_append _ n.sign_mem hc
  have hdigits := scanDigits_append n.digits_hex h.1
  obtain ⟨d, ds, hd⟩ := List.exists_cons_of_ne_nil n.digits_ne
  obtain ⟨v, hv⟩ := Option.ne_none_iff_exists'.1
    (n.digits_hex d (by rw [hd]; exact List.mem_cons_self ..))
  unfold scanHex
  simp only [hspace, hsign, n.scanPrefix_body h, hdigits]
  unfold Numeral.value
  rw [hd, List.filterMap_cons_some hv]

-- ------------------------------------------------------ the other way

/-- What `scanSign` takes off is at most one sign. -/
private theorem scanSign_split (s : List UInt8) :
    ∃ sign rest, (sign = [] ∨ sign = [43] ∨ sign = [45])
      ∧ s = sign ++ rest ∧ scanSign s = (sign == [45], rest) := by
  cases s with
  | nil => exact ⟨[], [], Or.inl rfl, rfl, rfl⟩
  | cons c rest =>
      rw [scanSign_cons]
      by_cases hminus : c = 45
      · rw [if_pos hminus]
        exact ⟨[45], rest, Or.inr (Or.inr rfl), by rw [hminus]; rfl, rfl⟩
      · rw [if_neg hminus]
        by_cases hplus : c = 43
        · rw [if_pos hplus]
          exact ⟨[43], rest, Or.inr (Or.inl rfl), by rw [hplus]; rfl, rfl⟩
        · rw [if_neg hplus]
          exact ⟨[], c :: rest, Or.inl rfl, rfl, rfl⟩

/-- What `scanPrefix` takes off is nothing or a prefix, and it never leaves
one. -/
private theorem scanPrefix_split (s : List UInt8) :
    ∃ base, (base = [] ∨ base = [48, 120] ∨ base = [48, 88])
      ∧ s = base ++ scanPrefix s
      ∧ (base = [] → ∀ x rest, s = 48 :: x :: rest → ¬ (x = 120 ∨ x = 88)) := by
  by_cases h : ∃ x rest, s = 48 :: x :: rest ∧ (x = 120 ∨ x = 88)
  · obtain ⟨x, rest, rfl, hx⟩ := h
    rcases hx with rfl | rfl
    · exact ⟨[48, 120], Or.inr (Or.inl rfl), rfl, fun h => (by cases h)⟩
    · exact ⟨[48, 88], Or.inr (Or.inr rfl), rfl, fun h => (by cases h)⟩
  · have hno : ∀ x rest, s = 48 :: x :: rest → ¬ (x = 120 ∨ x = 88) :=
      fun x rest heq hx => h ⟨x, rest, heq, hx⟩
    refine ⟨[], Or.inl rfl, ?_, fun _ => hno⟩
    rw [scanPrefix_of_not hno]
    rfl

/-- What `%x` has read is a numeral. -/
theorem scanHex_sound {s tail : List UInt8} {v : UInt32}
    (h : scanHex s = some (v, tail)) :
    ∃ n : Numeral, s = n.text ++ tail ∧ n.value = v ∧ n.Ends tail := by
  obtain ⟨sign, s₂, hsign, hs₁, hscan⟩ := scanSign_split (s.dropWhile isSpace)
  obtain ⟨base, hbase, hs₂, hno⟩ := scanPrefix_split s₂
  obtain ⟨ds, tail', hs₃, hds, htail⟩ := scanDigits_split (scanPrefix s₂)
  have hdigits := scanDigits_append hds htail
  unfold scanHex at h
  simp only [hscan] at h
  rw [hs₃, hdigits] at h
  cases ds with
  | nil => cases h
  | cons d ds =>
      obtain ⟨w, hw⟩ := Option.ne_none_iff_exists'.1
        (hds d (List.mem_cons_self ..))
      rw [List.filterMap_cons_some hw] at h
      simp only [Option.some.injEq, Prod.mk.injEq] at h
      obtain ⟨hv, rfl⟩ := h
      refine ⟨⟨s.takeWhile isSpace, sign, base, d :: ds,
        fun c hc => List.mem_takeWhile_imp hc, hsign, hbase,
        List.cons_ne_nil d ds, hds⟩, ?_, ?_, htail, ?_⟩
      · unfold Numeral.text
        rw [List.append_assoc, List.append_assoc, List.append_assoc, ← hs₃,
          ← hs₂, ← hs₁, List.takeWhile_append_dropWhile]
      · unfold Numeral.value
        rw [List.filterMap_cons_some hw]
        exact hv
      · rintro hb hd hx
        -- then `s₂` would start with `0x`
        have hb' : base = [] := hb
        have hd' : d :: ds = [48] := hd
        cases tail' with
        | nil => exact hx
        | cons x rest =>
            refine hno hb' x rest ?_ hx
            rw [hs₂, hs₃, hb', hd']
            rfl

-- ========================================================= six numerals

/-- Numerals with single colons between them, as they are written. -/
def colonText (ns : List Numeral) : List UInt8 :=
  [58].intercalate (ns.map Numeral.text)

private theorem colonText_cons (n : Numeral) {ns : List Numeral} (h : ns ≠ [])
    :
    colonText (n :: ns) = n.text ++ 58 :: colonText ns := by
  unfold colonText
  rw [List.map_cons, List.intercalate_cons_of_ne_nil (by simpa using h),
    List.append_assoc]
  rfl

private theorem colonText_singleton (n : Numeral) : colonText [n] = n.text :=
    by
  unfold colonText
  rw [List.map_singleton, List.intercalate_singleton]

/-- A number, a colon, and the rest. -/
private theorem scanParts_succ {k : Nat} {s : List UInt8}
    {vs : List.Vector UInt32 (k + 2)} (h : scanParts (k + 1) s = some vs) :
    ∃ v rest ws, scanHex s = some (v, 58 :: rest)
      ∧ scanParts k rest = some ws ∧ vs = v ::ᵥ ws := by
  unfold scanParts at h
  cases hx : scanHex s with
  | none =>
      rw [hx] at h
      cases h
  | some p =>
      obtain ⟨v, tail⟩ := p
      rw [hx] at h
      cases tail with
      | nil => cases h
      | cons c rest =>
          simp only at h
          by_cases hc : c = 58
          · rw [if_pos hc] at h
            cases hrest : scanParts k rest with
            | none =>
                rw [hrest] at h
                cases h
            | some ws =>
                rw [hrest] at h
                cases h
                exact ⟨v, rest, ws, by rw [hc], hrest, rfl⟩
          · rw [if_neg hc] at h
            cases h

/-- What was converted was a text of numerals, and the rest follows it. -/
private theorem scanParts_sound {k : Nat} {s : List UInt8}
    {vs : List.Vector UInt32 (k + 1)} (h : scanParts k s = some vs) :
    ∃ ns tail, s = colonText ns ++ tail
      ∧ (∀ n ∈ ns.getLast?, n.Ends tail)
      ∧ vs.toList = ns.map Numeral.value := by
  -- on the numbers still expected; every number but the last is followed
  -- by a colon
  induction k generalizing s with
  | zero =>
      unfold scanParts at h
      cases hx : scanHex s with
      | none =>
          rw [hx] at h
          cases h
      | some p =>
          obtain ⟨v, tail⟩ := p
          rw [hx] at h
          cases h
          obtain ⟨n, hs, hv, hends⟩ := scanHex_sound hx
          refine ⟨[n], tail, ?_, ?_, ?_⟩
          · rw [colonText_singleton]
            exact hs
          · intro m hm
            cases hm
            exact hends
          · rw [List.map_singleton, hv]
            rfl
  | succ k ih =>
      obtain ⟨v, rest, ws, hx, hrest, rfl⟩ := scanParts_succ h
      obtain ⟨n, hs, hv, -⟩ := scanHex_sound hx
      obtain ⟨ns, tail, hns, hends, hws⟩ := ih hrest
      have hne : ns ≠ [] := by
        rintro rfl
        have hlen := congrArg List.length hws
        rw [List.Vector.toList_length] at hlen
        cases hlen
      refine ⟨n :: ns, tail, ?_, ?_, ?_⟩
      · rw [hs, hns, colonText_cons n hne, List.append_assoc,
          List.cons_append]
      · rwa [List.getLast?_cons_of_ne_nil hne]
      · rw [List.map_cons, hv, ← hws]
        rfl

/-- A text of numerals is converted, one value for each. -/
private theorem scanParts_text {k : Nat} {ns : List Numeral}
    {tail : List UInt8}
    (hlen : ns.length = k + 1) (hends : ∀ n ∈ ns.getLast?, n.Ends tail) :
    ∃ vs, scanParts k (colonText ns ++ tail) = some vs
      ∧ vs.toList = ns.map Numeral.value := by
  induction k generalizing ns with
  | zero =>
      obtain ⟨n, rfl⟩ := List.length_eq_one_iff.1 hlen
      refine ⟨n.value ::ᵥ .nil, ?_, rfl⟩
      unfold scanParts
      rw [colonText_singleton, scanHex_text n (hends n rfl)]
  | succ k ih =>
      obtain ⟨n, ns, rfl⟩ := List.exists_cons_of_length_eq_add_one hlen
      rw [List.length_cons, Nat.add_right_cancel_iff] at hlen
      have hne : ns ≠ [] := List.ne_nil_of_length_eq_add_one hlen
      rw [List.getLast?_cons_of_ne_nil hne] at hends
      obtain ⟨vs, hvs, hlist⟩ := ih hlen hends
      refine ⟨n.value ::ᵥ vs, ?_, ?_⟩
      · rw [colonText_cons n hne, List.append_assoc, List.cons_append]
        unfold scanParts
        rw [scanHex_text n (n.ends_colon _)]
        simp only [if_true, hvs]
      · rw [List.map_cons, ← hlist]
        rfl

private theorem toUInt32_le (b : UInt8) : b.toUInt32 ≤ 0xFF := by
  rw [UInt32.le_iff_toNat_le, UInt8.toNat_toUInt32]
  exact Nat.le_of_lt_succ b.toNat_lt

private theorem toUInt32_toUInt8_of_le {v : UInt32} (h : v ≤ 0xFF) :
    v.toUInt8.toUInt32 = v := by
  rw [UInt32.le_iff_toNat_le] at h
  rw [← UInt32.toNat_inj, UInt8.toNat_toUInt32, UInt32.toNat_toUInt8]
  exact Nat.mod_eq_of_lt (Nat.lt_succ_of_le h)

/-- Up to its first NUL the text starts with six numerals, one colon
between each two, that `sscanf` stores as the bytes `out`. -/
def Scans (s : List UInt8) (out : Bytes 6) : Prop :=
  ∃ ns tail, s.takeWhile (· != 0) = colonText ns ++ tail
    ∧ (∀ n ∈ ns.getLast?, n.Ends tail)
    ∧ ns.map Numeral.value = out.toList.map UInt8.toUInt32

/-- `ParseMac` accepts what scans, and nothing else. -/
theorem parseMac_iff (s : List UInt8) (out : Bytes 6) :
    parseMac s = some out ↔ Scans s out := by
  unfold parseMac
  -- forward, the scan is read back as a text; backward, the text is
  -- scanned
  constructor
  · intro h
    cases hp : scanParts 5 (s.takeWhile (· != 0)) with
    | none =>
        rw [hp] at h
        cases h
    | some vs =>
        simp only [hp] at h
        by_cases hall : vs.toList.all (· ≤ 0xFF) = true
        · rw [if_pos hall] at h
          cases h
          obtain ⟨ns, tail, hs, hends, hvs⟩ := scanParts_sound hp
          refine ⟨ns, tail, hs, hends, ?_⟩
          rw [← hvs, List.Vector.toList_map, List.map_map]
          refine (List.map_id _).symm.trans (List.map_congr_left ?_)
          intro v hv
          have hle := List.all_eq_true.1 hall v hv
          exact (toUInt32_toUInt8_of_le (of_decide_eq_true hle)).symm
        · rw [if_neg hall] at h
          cases h
  · rintro ⟨ns, tail, hs, hends, hout⟩
    have hlen : ns.length = 5 + 1 := by
      have := congrArg List.length hout
      rwa [List.length_map, List.length_map, List.Vector.toList_length] at this
    obtain ⟨vs, hvs, hlist⟩ := scanParts_text hlen hends
    rw [hs, hvs]
    rw [hout] at hlist
    have hall : vs.toList.all (· ≤ 0xFF) = true := by
      rw [hlist, List.all_eq_true]
      intro v hv
      obtain ⟨b, -, rfl⟩ := List.mem_map.1 hv
      exact decide_eq_true (toUInt32_le b)
    simp only [if_pos hall, Option.some.injEq]
    apply List.Vector.toList_injective
    rw [List.Vector.toList_map, hlist, List.map_map]
    refine (List.map_congr_left ?_).trans (List.map_id _)
    intro b _
    exact UInt8.toUInt8_toUInt32 b

-- ========================================================= MAC addresses

/-- One or two hexadecimal digits, as a byte. -/
def groupValue : List UInt8 → Option UInt8
  | [a] =>
      match hexDigit a with
      | some x => some (UInt8.ofNat x)
      | none => none
  | [a, b] =>
      match hexDigit a, hexDigit b with
      | some x, some y => some (UInt8.ofNat (16 * x + y))
      | _, _ => none
  | _ => none

/-- `s` is the MAC address `out`: from its first to its last character six
groups of one or two hexadecimal digits with single colons between them. -/
def IsMac (s : List UInt8) (out : Bytes 6) : Prop :=
  ∃ groups, s = [58].intercalate groups
    ∧ groups.map groupValue = out.toList.map some

/-- Two hex digits do not reach the wrap. -/
private theorem hexValue_of_lt {ds : List Nat}
    (hlt : ds.foldl (fun acc v => acc * 16 + v) 0 < 256) :
    hexValue false ds
      = (UInt8.ofNat (ds.foldl (fun acc v => acc * 16 + v) 0)).toUInt32 := by
  unfold hexValue
  simp only
  rw [if_neg (by omega), if_neg (fun h => (by cases h)), ← UInt32.toNat_inj,
    UInt8.toNat_toUInt32, UInt32.toNat_ofNat', UInt8.toNat_ofNat']
  omega

/-- A numeral of digits alone. -/
def plain (ds : List UInt8) (hne : ds ≠ [])
    (hhex : ∀ c ∈ ds, hexDigit c ≠ none) : Numeral :=
  ⟨[], [], [], ds, fun _ hc => absurd hc List.not_mem_nil, Or.inl rfl,
    Or.inl rfl, hne, hhex⟩

/-- Digits alone, with a value that fits a byte. -/
private theorem plain_value {ds : List UInt8} (vs : List Nat) (hne : ds ≠ [])
    (h : ds.map hexDigit = vs.map some)
    (hlt : vs.foldl (fun acc v => acc * 16 + v) 0 < 256) :
    ∃ n : Numeral, n.text = ds
      ∧ n.value
        = (UInt8.ofNat (vs.foldl (fun acc v => acc * 16 + v) 0)).toUInt32
      ∧ ∀ c ∈ ds, hexDigit c ≠ none := by
  have hhex : ∀ c ∈ ds, hexDigit c ≠ none := by
    intro c hc
    have hmem : hexDigit c ∈ vs.map some := h ▸ List.mem_map_of_mem hc
    obtain ⟨v, -, hv⟩ := List.mem_map.1 hmem
    rw [← hv]
    exact Option.some_ne_none v
  refine ⟨plain ds hne hhex, rfl, ?_, hhex⟩
  have hvalues : ds.filterMap hexDigit = vs := calc
    ds.filterMap hexDigit = (ds.map hexDigit).filterMap id :=
      (List.filterMap_map (f := hexDigit) (g := id)).symm
    _ = (vs.map some).filterMap id := by rw [h]
    _ = vs := List.filterMap_map.trans List.filterMap_some
  show hexValue false (ds.filterMap hexDigit) = _
  rw [hvalues]
  exact hexValue_of_lt hlt

/-- What a group can be. -/
theorem groupValue_cases {g : List UInt8} {b : UInt8}
    (h : groupValue g = some b) :
    (∃ a x, g = [a] ∧ hexDigit a = some x ∧ b = UInt8.ofNat x)
    ∨ ∃ a c x y, g = [a, c] ∧ hexDigit a = some x ∧ hexDigit c = some y
      ∧ b = UInt8.ofNat (16 * x + y) := by
  -- a group has one digit or two
  unfold groupValue at h
  split at h
  · next a =>
    cases ha : hexDigit a with
    | none =>
        rw [ha] at h
        cases h
    | some x =>
        rw [ha] at h
        cases h
        exact Or.inl ⟨a, x, rfl, ha, rfl⟩
  · next a c =>
    cases ha : hexDigit a with
    | none =>
        rw [ha] at h
        cases h
    | some x =>
        cases hc : hexDigit c with
        | none =>
            rw [ha, hc] at h
            cases h
        | some y =>
            rw [ha, hc] at h
            cases h
            exact Or.inr ⟨a, c, x, y, rfl, ha, hc, rfl⟩
  · cases h

/-- A group is a numeral with its own value. -/
theorem group_numeral {g : List UInt8} {b : UInt8}
    (h : groupValue g = some b) :
    ∃ n : Numeral, n.text = g ∧ n.value = b.toUInt32
      ∧ ∀ c ∈ g, hexDigit c ≠ none := by
  rcases groupValue_cases h with
    ⟨a, x, rfl, ha, rfl⟩ | ⟨a, c, x, y, rfl, ha, hc, rfl⟩
  · have hx := (hexDigit_range ha).1
    have hfold : [x].foldl (fun acc v => acc * 16 + v) 0 = x := by
      rw [List.foldl_cons, List.foldl_nil]
      omega
    have hplain := plain_value [x] (List.cons_ne_nil a [])
      (congrArg (· :: []) ha)
    rw [hfold] at hplain
    apply hplain
    omega
  · have hx := (hexDigit_range ha).1
    have hy := (hexDigit_range hc).1
    have hfold : [x, y].foldl (fun acc v => acc * 16 + v) 0 = 16 * x + y := by
      rw [List.foldl_cons, List.foldl_cons, List.foldl_nil]
      omega
    have hplain := plain_value [x, y] (List.cons_ne_nil a [c])
      (congrArg₂ (fun d e => [d, e]) ha hc)
    rw [hfold] at hplain
    apply hplain
    omega

/-- Groups that spell bytes are numerals of those values, without sign or
prefix. -/
private theorem groups_numerals {groups : List (List UInt8)} {bs : List UInt8}
    (h : groups.map groupValue = bs.map some) :
    ∃ ns : List Numeral, ns.map Numeral.text = groups
      ∧ ns.map Numeral.value = bs.map UInt8.toUInt32
      ∧ ∀ g ∈ groups, ∀ c ∈ g, hexDigit c ≠ none := by
  induction groups generalizing bs with
  | nil =>
      cases bs with
      | nil => exact ⟨[], rfl, rfl, fun g hg => absurd hg List.not_mem_nil⟩
      | cons b bs => cases h
  | cons g groups ih =>
      cases bs with
      | nil => cases h
      | cons b bs =>
          rw [List.map_cons, List.map_cons, List.cons.injEq] at h
          obtain ⟨n, htext, hvalue, hhex⟩ := group_numeral h.1
          obtain ⟨ns, htexts, hvalues, hall⟩ := ih h.2
          refine ⟨n :: ns, ?_, ?_, List.forall_mem_cons.2 ⟨hhex, hall⟩⟩
          · rw [List.map_cons, htext, htexts]
          · rw [List.map_cons, hvalue, hvalues]
            rfl

/-- What holds of a separator and of all parts holds of the joined text. -/
theorem forall_mem_intercalate {p : UInt8 → Prop} {ls : List (List UInt8)}
    (hsep : p 58) (hls : ∀ l ∈ ls, ∀ c ∈ l, p c) :
    ∀ c ∈ [58].intercalate ls, p c := by
  induction ls with
  | nil => exact fun c hc => absurd hc List.not_mem_nil
  | cons l ls ih =>
      obtain ⟨hl, hrest⟩ := List.forall_mem_cons.1 hls
      cases ls with
      | nil =>
          rw [List.intercalate_singleton]
          exact hl
      | cons l' ls =>
          rw [List.intercalate_cons_cons, List.forall_mem_append,
            List.forall_mem_append]
          exact ⟨⟨hl, List.forall_mem_singleton.2 hsep⟩, ih hrest⟩

/-- A MAC address is made of digits and colons. -/
theorem IsMac.chars {s : List UInt8} {out : Bytes 6} (h : IsMac s out) :
    ∀ c ∈ s, c = 58 ∨ hexDigit c ≠ none := by
  obtain ⟨groups, rfl, hgroups⟩ := h
  obtain ⟨-, -, -, hhex⟩ := groups_numerals hgroups
  exact forall_mem_intercalate (Or.inl rfl)
    fun g hg c hc => Or.inr (hhex g hg c hc)

/-- No character of a MAC address ends a C string. -/
theorem IsMac.no_nul {s : List UInt8} {out : Bytes 6} (h : IsMac s out) :
    ∀ c ∈ s, (c != 0) = true := by
  intro c hc
  rcases h.chars c hc with rfl | hhex
  · rfl
  · exact bne_iff_ne.2 (hexDigit_ne hhex).2.2.2.2.2

/-- A MAC address scans, to its own bytes. -/
theorem IsMac.scans {s : List UInt8} {out : Bytes 6} (h : IsMac s out) :
    Scans s out := by
  have hnul : s.takeWhile (· != 0) = s :=
    List.takeWhile_eq_self_iff.2 h.no_nul
  obtain ⟨groups, hs, hgroups⟩ := h
  obtain ⟨ns, htext, hvalue, -⟩ := groups_numerals hgroups
  refine ⟨ns, [], ?_, ?_, hvalue⟩
  · unfold colonText
    rw [hnul, htext, List.append_nil]
    exact hs
  · exact fun n _ => ⟨id, fun _ _ => id⟩

-- ============================================================= contract

/-- `ParseMac` keeps its contract on `s`: it answers the address that `s`
is, and nothing else, so that a configuration with any other text for its
address is refused for it. An empty text asks for no address. -/
structure KeepsContract (s : List UInt8) : Prop where
  parse : ∀ out, parseMac s = some out ↔ IsMac s out
  refuse : s ≠ [] → (∀ out, ¬ IsMac s out) →
    ∀ c : VNic.Config, c.macAddr = s →
      { c with macAddr := [] }.validate = .none →
      c.validate = .configMacInvalid

/-- With an address that does not parse, the last check of `validate`
decides. -/
private theorem validate_of_macAddr {c : VNic.Config} (hne : c.macAddr ≠ [])
    (hmac : parseMac c.macAddr = none)
    (h : { c with macAddr := [] }.validate = .none) :
    c.validate = .configMacInvalid := by
  obtain ⟨hmtu, hl, hr, hcount, hbound, hvlan, -⟩ :=
    VNic.validate_none_iff.1 h
  unfold VNic.Config.validate
  rw [if_neg hmtu, if_neg (not_not.2 hl), if_neg (not_not.2 hr),
    if_neg hcount, if_neg hbound, if_neg hvlan, if_pos ⟨hne, hmac⟩]

/-- `ParseMac` keeps its contract on exactly the MAC addresses and the
texts that do not scan. -/
theorem keepsContract_iff (s : List UInt8) :
    KeepsContract s ↔ (∃ out, IsMac s out) ∨ ∀ out, ¬ Scans s out := by
  constructor
  · intro h
    by_cases hscan : ∃ out, Scans s out
    · obtain ⟨out, hout⟩ := hscan
      exact Or.inl ⟨out, (h.parse out).1 ((parseMac_iff s out).2 hout)⟩
    · exact Or.inr (not_exists.1 hscan)
  · intro h
    have hparse : ∀ out, parseMac s = some out ↔ IsMac s out := by
      intro out
      rw [parseMac_iff]
      refine ⟨fun hscan => ?_, IsMac.scans⟩
      rcases h with ⟨out', hmac⟩ | hno
      · have heq := (parseMac_iff s out').2 hmac.scans
        rw [(parseMac_iff s out).2 hscan] at heq
        cases heq
        exact hmac
      · exact absurd hscan (hno out)
    refine ⟨hparse, fun hne hnot c hc => ?_⟩
    subst hc
    refine validate_of_macAddr hne ?_
    rw [Option.eq_none_iff_forall_ne_some]
    exact fun out hout => hnot out ((hparse out).1 hout)

/-- `00:11:22:33:44:55zz`. -/
def macWithTail : List UInt8 :=
  [48, 48, 58, 49, 49, 58, 50, 50, 58, 51, 51, 58, 52, 52, 58, 53, 53, 122,
    122]

/-- The tail is ignored, and the text accepted. -/
theorem not_keepsContract_macWithTail :
    parseMac macWithTail
        = some ⟨[0x00, 0x11, 0x22, 0x33, 0x44, 0x55], rfl⟩
    ∧ (∀ out, ¬ IsMac macWithTail out)
    ∧ ¬ KeepsContract macWithTail := by
  have hparse : parseMac macWithTail
      = some ⟨[0x00, 0x11, 0x22, 0x33, 0x44, 0x55], rfl⟩ := rfl
  have hnot : ∀ out, ¬ IsMac macWithTail out := by
    intro out h
    have hz : (122 : UInt8) ∈ macWithTail := by
      simp [macWithTail]
    rcases h.chars 122 hz with h58 | hhex
    · cases h58
    · exact hhex rfl
  exact ⟨hparse, hnot, fun h => hnot _ ((h.parse _).1 hparse)⟩

end Vnic.Validate
