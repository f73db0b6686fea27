/-
Singly linked chains in a finite heap: the chain predicate, the fuelled
walk that computes it, and separation of a family of chains.

A heap is an association list from keys to cells; `Linked` names the
null key and the successor field of a cell. Nothing here knows what a
cell holds beyond its successor.

# Separation

`Separate h ps` says that every pointer of `ps` heads a finite live
chain and that no two of those chains, nor one of them with itself,
share a key. It is the ownership invariant of a program that hands
chains around: allocating a chain of fresh keys extends it
(`Separate.cons_of_fresh`), releasing one chain leaves the others as
they were (`Separate.eraseAll`), and any change elsewhere is invisible
(`Separate.congr`).
-/
import Mathlib.Data.List.AList
import Mathlib.Data.List.Flatten
import Mathlib.Data.List.Induction
import Mathlib.Data.List.Perm.Subperm

/-- The linked structure of a cell type: the null key and the successor
field. -/
class Linked (κ : outParam Type) (β : Type) where
  null : κ
  next : β → κ

namespace Linked

variable {κ β : Type} [DecidableEq κ]

/-- A finite heap of cells. -/
abbrev Heap (κ β : Type) := AList fun _ : κ => β

variable {h h' : Heap κ β} {p : κ} {ks : List κ}

-- ============================================================= release

/-- Erase a list of keys. -/
def eraseAll (h : Heap κ β) (ks : List κ) : Heap κ β :=
  ks.foldl (fun h k => h.erase k) h

@[simp]
theorem eraseAll_nil (h : Heap κ β) : eraseAll h [] = h := rfl

@[simp]
theorem eraseAll_cons (h : Heap κ β) (k : κ) (ks : List κ) :
    eraseAll h (k :: ks) = eraseAll (h.erase k) ks := rfl

theorem lookup_eraseAll_of_notMem {k : κ} (hk : k ∉ ks) :
    (eraseAll h ks).lookup k = h.lookup k := by
  induction ks generalizing h with
  | nil => rfl
  | cons a ks ih =>
      rw [List.mem_cons, not_or] at hk
      rw [eraseAll_cons, ih hk.2, AList.lookup_erase_ne hk.1]

theorem notMem_eraseAll {k : κ} (hk : k ∈ ks) : k ∉ eraseAll h ks := by
  induction ks generalizing h with
  | nil => cases hk
  | cons a ks ih =>
      by_cases hmem : k ∈ ks
      · exact ih hmem
      · obtain rfl : k = a := by
          rcases List.mem_cons.1 hk with rfl | h
          · rfl
          · exact absurd h hmem
        rw [eraseAll_cons, ← AList.lookup_eq_none,
          lookup_eraseAll_of_notMem hmem]
        exact AList.lookup_erase k h

-- ======================================================== reservation

/-- Insert one cell under each key of a list. -/
def insertAll (c : β) (h : Heap κ β) (ks : List κ) : Heap κ β :=
  ks.foldl (fun h k => h.insert k c) h

@[simp]
theorem insertAll_nil (c : β) (h : Heap κ β) : insertAll c h [] = h := rfl

theorem insertAll_concat (c : β) (h : Heap κ β) (ks : List κ) (k : κ) :
    insertAll c h (ks ++ [k]) = (insertAll c h ks).insert k c := by
  simp [insertAll]

theorem mem_insertAll {c : β} {k : κ} :
    k ∈ insertAll c h ks ↔ k ∈ ks ∨ k ∈ h := by
  induction ks generalizing h with
  | nil => simp
  | cons a ks ih =>
      rw [show insertAll c h (a :: ks) = insertAll c (h.insert a c) ks from
        rfl, ih, AList.mem_insert, List.mem_cons]
      tauto

theorem lookup_insertAll_of_notMem {c : β} {k : κ} (hk : k ∉ ks) :
    (insertAll c h ks).lookup k = h.lookup k := by
  induction ks generalizing h with
  | nil => rfl
  | cons a ks ih =>
      rw [List.mem_cons, not_or] at hk
      rw [show insertAll c h (a :: ks) = insertAll c (h.insert a c) ks from
        rfl, ih hk.2, AList.lookup_insert_ne hk.1]

/-- Erasing a key forgets what was inserted under it. -/
theorem erase_insert_self (h : Heap κ β) (k : κ) (c : β) :
    (h.insert k c).erase k = h.erase k := by
  apply AList.ext
  show List.kerase k (List.kinsert k c h.entries) = List.kerase k h.entries
  rw [List.kinsert_def]
  exact List.kerase_cons_eq rfl

/-- Insertion commutes with erasing another key. -/
theorem erase_insert_of_ne {k a : κ} (hne : a ≠ k) (h : Heap κ β) (c : β) :
    (h.insert k c).erase a = (h.erase a).insert k c := by
  apply AList.ext
  show List.kerase a (List.kinsert k c h.entries)
    = List.kinsert k c (List.kerase a h.entries)
  rw [List.kinsert_def, List.kinsert_def, List.kerase_cons_ne hne,
    List.kerase_kerase]

theorem erase_of_notMem {k : κ} (hk : k ∉ h) : h.erase k = h := by
  apply AList.ext
  exact List.kerase_of_notMem_keys hk

/-- A family of keys about to be erased absorbs any write under it. -/
theorem eraseAll_insert_of_mem {k : κ} (hk : k ∈ ks) (c : β) :
    eraseAll (h.insert k c) ks = eraseAll h ks := by
  induction ks generalizing h with
  | nil => cases hk
  | cons a ks ih =>
      rw [eraseAll_cons, eraseAll_cons]
      by_cases hak : a = k
      · rw [hak, erase_insert_self]
      · rw [erase_insert_of_ne hak]
        exact ih ((List.mem_cons.1 hk).resolve_left (Ne.symm hak))

theorem eraseAll_append (ks ls : List κ) :
    eraseAll h (ks ++ ls) = eraseAll (eraseAll h ks) ls :=
  List.foldl_append

/-- The order does not matter. -/
theorem eraseAll_perm {ls : List κ} (hp : ks.Perm ls) :
    eraseAll h ks = eraseAll h ls := by
  induction hp generalizing h with
  | nil => rfl
  | cons k _ ih => exact ih
  | swap a b ks =>
      rw [eraseAll_cons, eraseAll_cons, eraseAll_cons, eraseAll_cons,
        AList.erase_erase]
  | trans _ _ ih₁ ih₂ => exact ih₁.trans ih₂

theorem eraseAll_of_notMem (hks : ∀ k ∈ ks, k ∉ h) : eraseAll h ks = h := by
  induction ks with
  | nil => rfl
  | cons a ks ih =>
      rw [eraseAll_cons, erase_of_notMem (hks a (List.mem_cons_self ..))]
      exact ih fun k hk => hks k (List.mem_cons_of_mem _ hk)

/-- Giving back freshly reserved keys restores the heap. -/
theorem eraseAll_insertAll {c : β} (hks : ∀ k ∈ ks, k ∉ h) :
    eraseAll (insertAll c h ks) ks = h := by
  have habsorb : ∀ ls : List κ, (∀ k ∈ ls, k ∈ ks) →
      eraseAll (insertAll c h ls) ks = eraseAll h ks := by
    intro ls
    induction ls using List.reverseRecOn with
    | nil => intro _; rfl
    | append_singleton ls a ih =>
        intro hls
        rw [insertAll_concat, eraseAll_insert_of_mem (hls a (by simp))]
        exact ih fun k hk => hls k (by simp [hk])
  rw [habsorb ks fun _ hk => hk, eraseAll_of_notMem hks]

-- ============================================================ contents

/-- The data of a list of cells, in order. -/
def dataOf {γ : Type} (f : β → List γ) (h : Heap κ β) (ks : List κ) :
    List γ :=
  ks.flatMap fun k => ((h.lookup k).map f).getD []

theorem dataOf_congr {γ : Type} (f : β → List γ)
    (heq : ∀ k ∈ ks, h'.lookup k = h.lookup k) :
    dataOf f h' ks = dataOf f h ks :=
  List.flatMap_congr fun k hk => by rw [heq k hk]

variable [Linked κ β]

-- ============================================================== chains

/-- `Chain h p ks`: following successors from `p` visits exactly the live
keys `ks`, in order, and ends at null. -/
inductive Chain (h : Heap κ β) : κ → List κ → Prop
  | nil : Chain h (null (β := β)) []
  | cons {k : κ} {c : β} {ks : List κ} : k ≠ null (β := β) →
      h.lookup k = some c → Chain h (next c) ks → Chain h k (k :: ks)

/-- The successor map is a function, so chains are unique. -/
theorem Chain.unique {ks' : List κ} (h₁ : Chain h p ks)
    (h₂ : Chain h p ks') : ks = ks' := by
  induction h₁ generalizing ks' with
  | nil =>
      cases h₂ with
      | nil => rfl
      | cons hne _ _ => exact absurd rfl hne
  | cons hne hc _ ih =>
      cases h₂ with
      | nil => exact absurd rfl hne
      | cons _ hc' hrest =>
          rw [hc] at hc'
          cases hc'
          rw [ih hrest]

/-- Every key of a chain is live. -/
theorem Chain.mem (hc : Chain h p ks) {k : κ} (hk : k ∈ ks) : k ∈ h := by
  induction hc with
  | nil => cases hk
  | cons _ hl _ ih =>
      rcases List.mem_cons.1 hk with rfl | hk
      · exact AList.lookup_isSome.1 (by simp [hl])
      · exact ih hk

/-- No key of a chain is null. -/
theorem Chain.ne_null (hc : Chain h p ks) {k : κ} (hk : k ∈ ks) :
    k ≠ null (β := β) := by
  induction hc with
  | nil => cases hk
  | cons hne _ _ ih =>
      rcases List.mem_cons.1 hk with rfl | hk
      · exact hne
      · exact ih hk

/-- A chain reads only the cells it visits. -/
theorem Chain.congr (hc : Chain h p ks)
    (heq : ∀ k ∈ ks, h'.lookup k = h.lookup k) : Chain h' p ks := by
  induction hc with
  | nil => exact .nil
  | @cons k c ks hne hl _ ih =>
      refine .cons hne ?_ (ih fun x hx => heq x (List.mem_cons_of_mem _ hx))
      rw [heq k (List.mem_cons_self ..), hl]

/-- A key on a chain heads a chain of its own, no longer than the whole. -/
theorem Chain.subchain (hc : Chain h p ks) {k : κ} (hk : k ∈ ks) :
    ∃ ks', Chain h k ks' ∧ ks'.length ≤ ks.length := by
  induction hc with
  | nil => cases hk
  | @cons k₀ c ks hne hl hrest ih =>
      rcases List.mem_cons.1 hk with rfl | hk
      · exact ⟨_, .cons hne hl hrest, Nat.le_refl _⟩
      · obtain ⟨ks', hk', hle⟩ := ih hk
        exact ⟨ks', hk', by rw [List.length_cons]; omega⟩

/-- A finite chain repeats no key: a repetition would be a cycle. -/
theorem Chain.nodup (hc : Chain h p ks) : ks.Nodup := by
  induction hc with
  | nil => exact List.nodup_nil
  | @cons k c ks hne hl hrest ih =>
      refine List.nodup_cons.2 ⟨fun hmem => ?_, ih⟩
      obtain ⟨ks', hk', hle⟩ := hrest.subchain hmem
      have := Chain.unique (.cons hne hl hrest) hk'
      rw [← this, List.length_cons] at hle
      omega

/-- A chain is no longer than its heap. -/
theorem Chain.length_le (hc : Chain h p ks) :
    ks.length ≤ h.keys.length :=
  (hc.nodup.subperm fun _ hk => AList.mem_keys.1 (hc.mem hk)).length_le

-- ============================================================ the walk

/-- Follow successors for at most `fuel` cells; stops at null and at a
key that is not live. -/
def walk (h : Heap κ β) : Nat → κ → List κ
  | 0, _ => []
  | fuel + 1, k =>
      if k = null (β := β) then []
      else match h.lookup k with
        | none => []
        | some c => k :: walk h fuel (next c)

/-- The keys reachable from `p`: a walk whose fuel no chain exceeds. -/
def chainOf (h : Heap κ β) (p : κ) : List κ := walk h h.keys.length p

/-- A walk with enough fuel is the chain. -/
theorem Chain.walk_eq (hc : Chain h p ks) :
    ∀ {fuel : Nat}, ks.length ≤ fuel → walk h fuel p = ks := by
  induction hc with
  | nil =>
      intro fuel _
      cases fuel with
      | zero => rfl
      | succ n => simp [walk]
  | cons hne hl _ ih =>
      intro fuel hle
      cases fuel with
      | zero => simp at hle
      | succ n =>
          rw [List.length_cons] at hle
          simp only [walk, if_neg hne, hl]
          rw [ih (by omega)]

theorem Chain.chainOf_eq (hc : Chain h p ks) : chainOf h p = ks :=
  hc.walk_eq hc.length_le

@[simp]
theorem chainOf_null (h : Heap κ β) :
    chainOf h (null (β := β)) = [] :=
  (Chain.nil (h := h)).chainOf_eq

-- ========================================================== separation

/-- Every pointer of `ps` heads a live chain and the chains are pairwise
disjoint. -/
structure Separate (h : Heap κ β) (ps : List κ) : Prop where
  chain : ∀ p ∈ ps, Chain h p (chainOf h p)
  nodup : (ps.flatMap (chainOf h)).Nodup

variable {ps qs : List κ}

theorem Separate.nil : Separate h [] :=
  ⟨fun _ hp => absurd hp (by simp), by simp⟩

/-- Separation does not depend on the order of the owners. -/
theorem Separate.perm (hs : Separate h ps) (hp : ps.Perm qs) :
    Separate h qs :=
  ⟨fun p hq => hs.chain p (hp.mem_iff.2 hq),
    (hp.flatMap_right _).nodup_iff.1 hs.nodup⟩

theorem Separate.sublist (hs : Separate h ps) (hsub : qs.Sublist ps) :
    Separate h qs :=
  ⟨fun p hq => hs.chain p (hsub.subset hq),
    (hsub.flatMap _).nodup hs.nodup⟩

/-- A heap that agrees on the owned cells has the same chains. -/
theorem Separate.chainOf_congr (hs : Separate h ps)
    (heq : ∀ k ∈ ps.flatMap (chainOf h), h'.lookup k = h.lookup k)
    (hp : p ∈ ps) : chainOf h' p = chainOf h p :=
  ((hs.chain p hp).congr fun k hk =>
    heq k (List.mem_flatMap.2 ⟨p, hp, hk⟩)).chainOf_eq

/-- Separation survives any change outside the owned cells. -/
theorem Separate.congr (hs : Separate h ps)
    (heq : ∀ k ∈ ps.flatMap (chainOf h), h'.lookup k = h.lookup k) :
    Separate h' ps := by
  have hflat : ps.flatMap (chainOf h') = ps.flatMap (chainOf h) :=
    List.flatMap_congr fun p hp => hs.chainOf_congr heq hp
  refine ⟨fun p hp => ?_, hflat ▸ hs.nodup⟩
  rw [hs.chainOf_congr heq hp]
  exact (hs.chain p hp).congr fun k hk =>
    heq k (List.mem_flatMap.2 ⟨p, hp, hk⟩)

/-- Every owned key is live. -/
theorem Separate.mem (hs : Separate h ps) {k : κ}
    (hk : k ∈ ps.flatMap (chainOf h)) : k ∈ h := by
  obtain ⟨p, hp, hk⟩ := List.mem_flatMap.1 hk
  exact (hs.chain p hp).mem hk

/-- No owned key is null. -/
theorem Separate.ne_null (hs : Separate h ps) {k : κ}
    (hk : k ∈ ps.flatMap (chainOf h)) : k ≠ null (β := β) := by
  obtain ⟨p, hp, hk⟩ := List.mem_flatMap.1 hk
  exact (hs.chain p hp).ne_null hk

/-- A chain over keys that were not live before joins the family: the old
chains cannot reach it. -/
theorem Separate.cons_of_fresh (hs : Separate h ps)
    (heq : ∀ k ∈ h, h'.lookup k = h.lookup k)
    (hc : Chain h' p ks) (hfresh : ∀ k ∈ ks, k ∉ h) :
    Separate h' (p :: ps) := by
  have hs' : Separate h' ps := hs.congr fun k hk => heq k (hs.mem hk)
  have hflat : ps.flatMap (chainOf h') = ps.flatMap (chainOf h) :=
    List.flatMap_congr fun q hq =>
      hs.chainOf_congr (fun k hk => heq k (hs.mem hk)) hq
  refine ⟨?_, ?_⟩
  · intro q hq
    rcases List.mem_cons.1 hq with rfl | hq
    · rw [hc.chainOf_eq]
      exact hc
    · exact hs'.chain q hq
  · rw [List.flatMap_cons, hc.chainOf_eq, hflat]
    refine List.nodup_append'.2 ⟨hc.nodup, hs.nodup, ?_⟩
    intro k hk hk'
    exact hfresh k hk (hs.mem hk')

/-- Two families join that share no key. -/
theorem Separate.append (hp : Separate h ps) (hq : Separate h qs)
    (hdisj : ∀ k ∈ ps.flatMap (chainOf h), k ∉ qs.flatMap (chainOf h)) :
    Separate h (ps ++ qs) := by
  refine ⟨fun p hmem => ?_, ?_⟩
  · rcases List.mem_append.1 hmem with hmem | hmem
    · exact hp.chain p hmem
    · exact hq.chain p hmem
  · rw [List.flatMap_append]
    exact List.nodup_append'.2 ⟨hp.nodup, hq.nodup, hdisj⟩

/-- Releasing one chain of a separated family leaves the others. -/
theorem Separate.eraseAll (hs : Separate h (p :: ps)) :
    Separate (eraseAll h (chainOf h p)) ps := by
  have hnd := hs.nodup
  rw [List.flatMap_cons, List.nodup_append'] at hnd
  apply (hs.sublist (List.sublist_cons_self ..)).congr
  intro k hk
  exact lookup_eraseAll_of_notMem fun hk' => hnd.2.2 hk' hk

end Linked
