/-
Rows: a list of components over one shared memory, and walks along them.

# Walks

A walk is a sequence of calls, each on one component of the row: the
memory and that component change, its neighbours stay. Nothing is said
about the order, so a loop over the row, a loop that gives up half way
and a rollback over a part of the row are all walks.

# Rules

- `Walk.keeps`: what one call keeps, wherever in the row it happens, a
  walk keeps.
- `Walk.map_eq`, `Walk.length_eq`, `Walk.forall_mem`: the same for a
  value read off each component, for their number and for a property of
  each component.
- `Walk.still`: calls that do not touch the memory.
-/
import Mathlib.Tactic.Common

namespace Row

/-- Calls on the components of a row, one after the other. -/
inductive Walk {μ σ : Type} (call : μ → σ → μ → σ → Prop) :
    μ → List σ → μ → List σ → Prop
  | refl (m : μ) (row : List σ) : Walk call m row m row
  | step {m m' m'' : μ} {pre post row : List σ} {q q' : σ} :
      call m q m' q' → Walk call m' (pre ++ q' :: post) m'' row →
      Walk call m (pre ++ q :: post) m'' row

variable {μ σ β : Type} {call : μ → σ → μ → σ → Prop}
  {m m' m'' : μ} {row row' row'' : List σ}

-- ============================================================ building

/-- A row around one of its components, and what replacing that component
leaves. -/
theorem split_at {i : Nat} {q : σ} (h : row[i]? = some q) :
    ∃ pre post, pre.length = i ∧ row = pre ++ q :: post
      ∧ ∀ q', row.set i q' = pre ++ q' :: post := by
  obtain ⟨hi, rfl⟩ := List.getElem?_eq_some_iff.1 h
  refine ⟨row.take i, row.drop (i + 1), ?_, ?_, fun q' => ?_⟩
  · rw [List.length_take]
    omega
  · rw [List.getElem_cons_drop, List.take_append_drop]
  · rw [List.set_eq_take_append_cons_drop, if_pos hi]

theorem Walk.single {q q' : σ} (h : call m q m' q') (pre post : List σ) :
    Walk call m (pre ++ q :: post) m' (pre ++ q' :: post) :=
  .step h (.refl _ _)

theorem Walk.set {i : Nat} {q q' : σ} (hq : row[i]? = some q)
    (h : call m q m' q') : Walk call m row m' (row.set i q') := by
  obtain ⟨pre, post, -, hrow, hset⟩ := split_at hq
  rw [hset, hrow]
  exact .single h pre post

theorem Walk.trans (h₁ : Walk call m row m' row')
    (h₂ : Walk call m' row' m'' row'') : Walk call m row m'' row'' := by
  induction h₁ with
  | refl m row => exact h₂
  | step hcall _ ih => exact .step hcall (ih h₂)

/-- A walk in a longer row. -/
theorem Walk.cons (h : Walk call m row m' row') (q : σ) :
    Walk call m (q :: row) m' (q :: row') := by
  induction h with
  | refl m row => exact .refl _ _
  | @step m _ m'' pre post _ q₁ _ hcall _ ih =>
      show Walk call m ((q :: pre) ++ q₁ :: post) m'' _
      exact .step hcall ih

/-- A call on the head, then a walk along the tail. -/
theorem Walk.head {q q' : σ} (hcall : call m q m' q')
    (h : Walk call m' row m'' row') :
    Walk call m (q :: row) m'' (q' :: row') := by
  show Walk call m ([] ++ q :: row) m'' (q' :: row')
  exact .step hcall (h.cons q')

-- =============================================================== rules

/-- The invariant rule. -/
theorem Walk.keeps {I : μ → List σ → Prop}
    (hcall : ∀ {m m' : μ} {pre post : List σ} {q q' : σ},
      call m q m' q' → I m (pre ++ q :: post) → I m' (pre ++ q' :: post))
    (h : Walk call m row m' row') (hI : I m row) : I m' row' := by
  induction h with
  | refl m row => exact hI
  | step hc _ ih => exact ih (hcall hc hI)

/-- A value that no call changes. -/
theorem Walk.map_eq {f : σ → β}
    (hcall : ∀ {m m' : μ} {q q' : σ}, call m q m' q' → f q' = f q)
    (h : Walk call m row m' row') : row'.map f = row.map f := by
  refine h.keeps (I := fun _ l => l.map f = row.map f) ?_ rfl
  intro m m' pre post q q' hc hI
  rw [← hI]
  simp [hcall hc]

theorem Walk.length_eq (h : Walk call m row m' row') :
    row'.length = row.length := by
  have hmap : row'.map (fun _ => ()) = row.map fun _ => () :=
    h.map_eq fun _ => rfl
  simpa using congrArg List.length hmap

/-- A property that every call keeps, or sets up. -/
theorem Walk.forall_mem {P : σ → Prop}
    (hcall : ∀ {m m' : μ} {q q' : σ}, call m q m' q' → P q → P q')
    (h : Walk call m row m' row') (hP : ∀ q ∈ row, P q) :
    ∀ q ∈ row', P q := by
  refine h.keeps (I := fun _ l => ∀ q ∈ l, P q) ?_ hP
  intro m m' pre post q q' hc hI
  simp only [List.forall_mem_append, List.forall_mem_cons] at hI ⊢
  exact ⟨hI.1, hcall hc hI.2.1, hI.2.2⟩

/-- Calls that leave the memory alone make walks that do. -/
theorem Walk.still {R : σ → σ → Prop}
    (h : Walk (fun m q m' q' => m' = m ∧ R q q') m row m' row') :
    m' = m ∧ Walk (fun (_ : Unit) q _ q' => R q q') () row () row' := by
  induction h with
  | refl m row => exact ⟨rfl, .refl _ _⟩
  | step hc _ ih => exact ⟨ih.1.trans hc.1, .step hc.2 ih.2⟩

end Row
