/-
A ledger of values handed out to a client that may give each of them
back at most once.

Every issued value gets the next number; `redeem` takes a list of
numbers and answers the values, in that order, or fails when a number is
not outstanding (never issued, already redeemed, or named twice). That
the outstanding numbers are distinct and below the counter is part of
the structure.

The facts a client proof needs are: what is redeemed and what stays make
up what was there (`redeem_perm`), a number keeps its value as long as it
is outstanding (`get_of_redeem`, `get_issue_old`) and stays outstanding
until it is redeemed (`get_redeem_of_notMem`), and the numbers of a batch
follow the counter (`get_issue_new`).
-/
import Mathlib.Data.List.Nodup
import Mathlib.Data.List.Perm.Basic
import Mathlib.Tactic.Common

/-- Outstanding values by number, and the next number. -/
structure Ledger (α : Type) where
  items : List (Nat × α) := []
  next : Nat := 0
  nodup : (items.map Prod.fst).Nodup := by simp
  lt : ∀ i ∈ items, i.1 < next := by simp

namespace Ledger

variable {α : Type}

/-- Nothing is outstanding. -/
def empty : Ledger α := {}

/-- The outstanding values, oldest first. -/
def values (L : Ledger α) : List α := L.items.map Prod.snd

/-- The value outstanding under a number. -/
def get (L : Ledger α) (n : Nat) : Option α := L.items.lookup n

-- =============================================================== issue

/-- Hand out one value. -/
def issueOne (L : Ledger α) (x : α) : Ledger α where
  items := L.items ++ [(L.next, x)]
  next := L.next + 1
  nodup := by
    rw [List.map_append, List.nodup_append']
    refine ⟨L.nodup, by simp, ?_⟩
    intro n hn hn'
    obtain ⟨i, hi, rfl⟩ := List.mem_map.1 hn
    have := L.lt i hi
    simp only [List.map_cons, List.map_nil, List.mem_singleton] at hn'
    omega
  lt := by
    intro i hi
    rcases List.mem_append.1 hi with hi | hi
    · have := L.lt i hi
      omega
    · rw [List.mem_singleton] at hi
      rw [hi]
      exact Nat.lt_succ_self _

/-- Hand out a list of values, in order. -/
def issue (L : Ledger α) (xs : List α) : Ledger α := xs.foldl issueOne L

@[simp]
theorem issue_nil (L : Ledger α) : L.issue [] = L := rfl

theorem issue_cons (L : Ledger α) (x : α) (xs : List α) :
    L.issue (x :: xs) = (L.issueOne x).issue xs := rfl

theorem issue_values (L : Ledger α) (xs : List α) :
    (L.issue xs).values = L.values ++ xs := by
  induction xs generalizing L with
  | nil => simp
  | cons x xs ih =>
      rw [issue_cons, ih]
      simp [values, issueOne]

theorem issue_next (L : Ledger α) (xs : List α) :
    (L.issue xs).next = L.next + xs.length := by
  induction xs generalizing L with
  | nil => simp
  | cons x xs ih =>
      rw [issue_cons, ih, List.length_cons]
      show L.next + 1 + xs.length = _
      omega

theorem get_eq_none {L : Ledger α} {n : Nat} (h : L.next ≤ n) :
    L.get n = none := by
  unfold get
  rw [List.lookup_eq_none_iff]
  intro i hi
  have := L.lt i hi
  simp only [bne_iff_ne, ne_eq]
  omega

theorem lt_of_get {L : Ledger α} {n : Nat} {x : α} (h : L.get n = some x) :
    n < L.next := by
  by_contra hge
  rw [get_eq_none (Nat.le_of_not_lt hge)] at h
  cases h

theorem mem_values_of_get {L : Ledger α} {n : Nat} {x : α}
    (h : L.get n = some x) : x ∈ L.values := by
  obtain ⟨l₁, l₂, heq, _⟩ := List.lookup_eq_some_iff.1 h
  exact List.mem_map.2 ⟨(n, x), by rw [heq]; simp, rfl⟩

theorem get_issueOne (L : Ledger α) (x : α) (n : Nat) :
    (L.issueOne x).get n = if n = L.next then some x else L.get n := by
  show (L.items ++ [(L.next, x)]).lookup n = _
  rw [List.lookup_append]
  split
  · next h =>
    subst h
    rw [show L.items.lookup L.next = none from get_eq_none (Nat.le_refl _)]
    simp
  · next h =>
    have hne : (n == L.next) = false := by simpa using h
    rw [List.lookup_cons, hne]
    exact Option.or_none

/-- Issuing leaves the old numbers alone. -/
theorem get_issue_old (L : Ledger α) (xs : List α) {n : Nat}
    (hn : n < L.next) : (L.issue xs).get n = L.get n := by
  induction xs generalizing L with
  | nil => rfl
  | cons y ys ih =>
      rw [issue_cons, ih (L.issueOne y) (Nat.lt_succ_of_lt hn),
        get_issueOne, if_neg (by omega)]

/-- The new numbers follow the counter. -/
theorem get_issue_new (L : Ledger α) (xs : List α) {i : Nat}
    (hi : i < xs.length) : (L.issue xs).get (L.next + i) = xs[i]? := by
  induction xs generalizing L i with
  | nil => simp at hi
  | cons y ys ih =>
      rw [issue_cons]
      cases i with
      | zero =>
          rw [Nat.add_zero, get_issue_old _ ys (Nat.lt_succ_self _),
            get_issueOne, if_pos rfl]
          rfl
      | succ i =>
          rw [List.length_cons] at hi
          have := ih (L.issueOne y) (i := i) (by omega)
          rw [show (L.issueOne y).next + i = L.next + (i + 1) by
            show L.next + 1 + i = _; omega] at this
          rw [this]
          rfl

-- ============================================================== redeem

/-- Give one value back. -/
def redeemOne (L : Ledger α) (n : Nat) : Option (α × Ledger α) :=
  match L.get n with
  | none => none
  | some x =>
      some (x,
        { items := L.items.eraseP fun i => i.1 == n
          next := L.next
          nodup := (List.eraseP_sublist.map Prod.fst).nodup L.nodup
          lt := fun i hi => L.lt i (List.eraseP_sublist.subset hi) })

/-- Give back the values with the given numbers. -/
def redeem : List Nat → Ledger α → Option (List α × Ledger α)
  | [], L => some ([], L)
  | n :: ns, L =>
      match L.redeemOne n with
      | none => none
      | some (x, L) =>
          match redeem ns L with
          | none => none
          | some (xs, L) => some (x :: xs, L)

variable {L L' : Ledger α} {xs : List α} {ns : List Nat}

/-- What `redeemOne` removed. -/
theorem redeemOne_eq {n : Nat} {x : α} (h : L.redeemOne n = some (x, L')) :
    L.get n = some x ∧ L'.next = L.next
      ∧ L'.items = L.items.eraseP (fun i => i.1 == n) := by
  unfold redeemOne at h
  cases hg : L.get n with
  | none => simp [hg] at h
  | some y =>
      simp only [hg, Option.some.injEq, Prod.mk.injEq] at h
      obtain ⟨rfl, rfl⟩ := h
      exact ⟨rfl, rfl, rfl⟩

/-- A successful `redeem` of `n :: ns` gives back `n`, then `ns`. -/
theorem redeem_cons {n : Nat} (h : redeem (n :: ns) L = some (xs, L')) :
    ∃ x L₁ ys, L.redeemOne n = some (x, L₁)
      ∧ redeem ns L₁ = some (ys, L') ∧ xs = x :: ys := by
  unfold redeem at h
  cases h₁ : L.redeemOne n with
  | none => simp [h₁] at h
  | some p =>
      obtain ⟨x, L₁⟩ := p
      simp only [h₁] at h
      cases h₂ : redeem ns L₁ with
      | none => simp [h₂] at h
      | some p =>
          obtain ⟨ys, L₂⟩ := p
          simp only [h₂, Option.some.injEq, Prod.mk.injEq] at h
          obtain ⟨rfl, rfl⟩ := h
          exact ⟨x, L₁, ys, rfl, h₂, rfl⟩

theorem lookup_perm {l : List (Nat × α)} {n : Nat} {x : α}
    (h : l.lookup n = some x) :
    l.Perm ((n, x) :: l.eraseP fun i => i.1 == n) := by
  induction l with
  | nil => simp at h
  | cons i l ih =>
      obtain ⟨k, y⟩ := i
      by_cases hk : k = n
      · subst hk
        simp only [List.lookup_cons_self, Option.some.injEq] at h
        subst h
        simp
      · have hk' : (n == k) = false := by simpa using fun h => hk h.symm
        rw [List.lookup_cons, hk'] at h
        rw [List.eraseP_cons_of_neg (by simpa using hk)]
        exact ((ih h).cons _).trans (List.Perm.swap ..)

/-- What is redeemed and what stays make up what was outstanding. -/
theorem redeem_perm (h : redeem ns L = some (xs, L')) :
    L.values.Perm (xs ++ L'.values) := by
  induction ns generalizing L xs with
  | nil =>
      simp only [redeem, Option.some.injEq, Prod.mk.injEq] at h
      obtain ⟨rfl, rfl⟩ := h
      exact List.Perm.refl _
  | cons n ns ih =>
      obtain ⟨x, L₁, ys, h₁, h₂, rfl⟩ := redeem_cons h
      obtain ⟨hget, -, hitems⟩ := redeemOne_eq h₁
      have hp : L.values.Perm (x :: L₁.values) := by
        have := (lookup_perm hget).map Prod.snd
        rw [List.map_cons, ← hitems] at this
        exact this
      exact hp.trans ((ih h₂).cons x)

/-- The same, beside other values. -/
theorem redeem_perm_append (h : redeem ns L = some (xs, L'))
    (ys : List α) : (ys ++ L.values).Perm (xs ++ (ys ++ L'.values)) := by
  apply ((redeem_perm h).append_left ys).trans
  rw [← List.append_assoc, ← List.append_assoc]
  exact List.perm_append_comm.append_right _

theorem redeem_next (h : redeem ns L = some (xs, L')) :
    L'.next = L.next := by
  induction ns generalizing L xs with
  | nil =>
      simp only [redeem, Option.some.injEq, Prod.mk.injEq] at h
      rw [h.2]
  | cons n ns ih =>
      obtain ⟨x, L₁, ys, h₁, h₂, rfl⟩ := redeem_cons h
      rw [ih h₂, (redeemOne_eq h₁).2.1]

/-- A number keeps its value as long as it is outstanding. -/
theorem get_of_redeem (h : redeem ns L = some (xs, L')) {n : Nat} {x : α}
    (hget : L'.get n = some x) : L.get n = some x := by
  induction ns generalizing L xs with
  | nil =>
      simp only [redeem, Option.some.injEq, Prod.mk.injEq] at h
      rwa [h.2]
  | cons k ns ih =>
      obtain ⟨y, L₁, ys, h₁, h₂, rfl⟩ := redeem_cons h
      obtain ⟨-, -, hitems⟩ := redeemOne_eq h₁
      have hL₁ := ih h₂
      -- the numbers left after an erasure are a sublist of distinct ones
      have hsub : L₁.items.Sublist L.items := by
        rw [hitems]
        exact List.eraseP_sublist
      obtain ⟨l₁, l₂, heq, -⟩ := List.lookup_eq_some_iff.1 hL₁
      have hmem : (n, x) ∈ L.items := hsub.subset (by rw [heq]; simp)
      obtain ⟨s, t, hst⟩ := List.append_of_mem hmem
      refine List.lookup_eq_some_iff.2 ⟨s, t, hst, ?_⟩
      intro i hi
      have hnd := L.nodup
      rw [hst, List.map_append, List.map_cons, List.nodup_append'] at hnd
      have hne : i.1 ≠ n := fun he =>
        hnd.2.2 (List.mem_map_of_mem hi) (by rw [he]; simp)
      simpa [bne_iff_ne] using Ne.symm hne

theorem lookup_eraseP_of_ne {l : List (Nat × α)} {k n : Nat} (h : n ≠ k) :
    (l.eraseP fun i => i.1 == k).lookup n = l.lookup n := by
  induction l with
  | nil => rfl
  | cons i l ih =>
      obtain ⟨j, y⟩ := i
      by_cases hj : j = k
      · subst hj
        have hne : (n == j) = false := by simpa using h
        rw [List.eraseP_cons_of_pos (by simp), List.lookup_cons, hne]
      · rw [List.eraseP_cons_of_neg (by simpa using hj), List.lookup_cons,
          List.lookup_cons, ih]

/-- A number that is not redeemed stays outstanding. -/
theorem get_redeem_of_notMem (h : redeem ns L = some (xs, L')) {n : Nat}
    (hn : n ∉ ns) : L'.get n = L.get n := by
  induction ns generalizing L xs with
  | nil =>
      simp only [redeem, Option.some.injEq, Prod.mk.injEq] at h
      rw [h.2]
  | cons k ns ih =>
      obtain ⟨y, L₁, ys, h₁, h₂, rfl⟩ := redeem_cons h
      obtain ⟨-, -, hitems⟩ := redeemOne_eq h₁
      rw [List.mem_cons, not_or] at hn
      rw [ih h₂ hn.2]
      unfold get
      rw [hitems]
      exact lookup_eraseP_of_ne hn.1

-- ================================================================= map

variable {β : Type} {f g : α → β}

theorem ext {L₁ L₂ : Ledger α} (hitems : L₁.items = L₂.items)
    (hnext : L₁.next = L₂.next) : L₁ = L₂ := by
  cases L₁
  cases L₂
  cases hitems
  cases hnext
  rfl

/-- The same numbers, other values. -/
def map (f : α → β) (L : Ledger α) : Ledger β where
  items := L.items.map fun i => (i.1, f i.2)
  next := L.next
  nodup := by
    rw [List.map_map]
    exact L.nodup
  lt := by
    intro i hi
    obtain ⟨j, hj, rfl⟩ := List.mem_map.1 hi
    exact L.lt j hj

theorem map_values (L : Ledger α) : (L.map f).values = L.values.map f := by
  unfold values map
  rw [List.map_map, List.map_map]
  rfl

theorem map_get (L : Ledger α) (n : Nat) :
    (L.map f).get n = (L.get n).map f := by
  show (L.items.map fun i => (i.1, f i.2)).lookup n
    = (L.items.lookup n).map f
  generalize L.items = l
  induction l with
  | nil => rfl
  | cons i l ih =>
      rw [List.map_cons, List.lookup_cons, List.lookup_cons]
      cases n == i.1 with
      | true => rfl
      | false => exact ih

theorem map_issueOne (L : Ledger α) (x : α) :
    (L.issueOne x).map f = (L.map f).issueOne (f x) := by
  refine ext ?_ rfl
  show (L.items ++ [(L.next, x)]).map _ = L.items.map _ ++ [(L.next, f x)]
  rw [List.map_append]
  rfl

theorem map_issue (L : Ledger α) (xs : List α) :
    (L.issue xs).map f = (L.map f).issue (xs.map f) := by
  induction xs generalizing L with
  | nil => rfl
  | cons x xs ih =>
      rw [issue_cons, ih, map_issueOne]
      rfl

theorem map_redeemOne {n : Nat} {x : α}
    (h : L.redeemOne n = some (x, L')) :
    (L.map f).redeemOne n = some (f x, L'.map f) := by
  obtain ⟨hget, hnext, hitems⟩ := redeemOne_eq h
  unfold redeemOne
  rw [map_get, hget]
  refine congrArg some (Prod.ext rfl (ext ?_ hnext.symm))
  show (L.items.map _).eraseP _ = L'.items.map _
  rw [hitems, List.eraseP_map]
  rfl

theorem map_redeem (h : redeem ns L = some (xs, L')) :
    redeem ns (L.map f) = some (xs.map f, L'.map f) := by
  induction ns generalizing L xs with
  | nil =>
      simp only [redeem, Option.some.injEq, Prod.mk.injEq] at h
      obtain ⟨rfl, rfl⟩ := h
      rfl
  | cons n ns ih =>
      obtain ⟨x, L₁, ys, h₁, h₂, rfl⟩ := redeem_cons h
      unfold redeem
      rw [map_redeemOne h₁]
      simp only [ih h₂, List.map_cons]

theorem map_congr (h : ∀ x ∈ L.values, f x = g x) : L.map f = L.map g := by
  refine ext (List.map_congr_left fun i hi => ?_) rfl
  rw [h i.2 (List.mem_map_of_mem hi)]

end Ledger
