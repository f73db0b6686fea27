/-
Labelled step systems: a partial step function over a state, an action
alphabet and an event alphabet, with runs, the invariant rule and the
history rule. An action may be a whole call or one atomic step of one of
many threads; the inductions over runs are done here once.

# Runs

`run s as` performs the actions in order and returns the final state
with the list of events, or fails at the first disabled action. Events
are what an observer of the run sees; every history variable of the
development is a function of the event list, never a field of the
state.

# The two rules

- `run_invariant`: a predicate kept by every step holds at the end of
  every run.
- `run_history`: the same for a predicate over the state and the events
  so far, extended at the right end. This is the form a refinement or
  an accounting statement needs.

`Along` is the guarded form: it says that every step of a run meets a
condition on the state before it, the action and the event. `Always` says
that every state of a run meets a condition; where a step keeps that
condition exactly if it meets a guard, the two are one (`always_iff`).

# Refinement

`run_simulation` lifts a step-by-step simulation to runs: where every
step of `M` is, through an abstraction of states, actions and events, a
step of `N`, every run of `M` is a run of `N`. `run_refines` is the form
with a relation between the states, where a step of `M` may stand for any
number of steps of `N`, also none.
-/
import Mathlib.Tactic.Common

/-- A labelled step system: `step s a` is the successor with the event
the step shows, or `none` where the action is disabled. -/
structure StepSystem (σ α ε : Type) where
  step : σ → α → Option (σ × ε)

namespace StepSystem

variable {σ α ε : Type} (M : StepSystem σ α ε)

-- ================================================================ runs

/-- Perform a list of actions, collecting the events; fails at the first
disabled action. -/
def run : σ → List α → Option (σ × List ε)
  | s, [] => some (s, [])
  | s, a :: rest =>
      match M.step s a with
      | none => none
      | some (s₁, e) =>
          match run s₁ rest with
          | none => none
          | some (t, es) => some (t, e :: es)

@[simp]
theorem run_nil (s : σ) : M.run s [] = some (s, []) := rfl

/-- A successful run of `a :: rest` is a step followed by a run. -/
theorem run_cons {s t : σ} {a : α} {rest : List α} {es : List ε}
    (h : M.run s (a :: rest) = some (t, es)) :
    ∃ s₁ e es', M.step s a = some (s₁, e)
      ∧ M.run s₁ rest = some (t, es') ∧ es = e :: es' := by
  unfold run at h
  cases hstep : M.step s a with
  | none => simp [hstep] at h
  | some p =>
      obtain ⟨s₁, e⟩ := p
      simp only [hstep] at h
      cases hrun : M.run s₁ rest with
      | none => simp [hrun] at h
      | some r =>
          obtain ⟨t', es'⟩ := r
          simp only [hrun, Option.some.injEq, Prod.mk.injEq] at h
          obtain ⟨rfl, rfl⟩ := h
          exact ⟨s₁, e, es', rfl, hrun, rfl⟩

/-- A step in front of a run. -/
theorem run_of_step {s t u : σ} {a : α} {e : ε} {rest : List α}
    {es : List ε} (hstep : M.step s a = some (t, e))
    (hrun : M.run t rest = some (u, es)) :
    M.run s (a :: rest) = some (u, e :: es) := by
  unfold run
  rw [hstep]
  simp only [hrun]

-- =========================================================== the rules

/-- The guarded run: every step taken from `s` along `as` meets `G`. -/
def Along (G : σ → α → ε → Prop) : σ → List α → Prop
  | _, [] => True
  | s, a :: rest =>
      ∀ s₁ e, M.step s a = some (s₁, e) → G s a e ∧ Along G s₁ rest

/-- A decidable guard can be checked along a run. -/
instance Along.decidable (G : σ → α → ε → Prop)
    [∀ s a e, Decidable (G s a e)] :
    ∀ s as, Decidable (M.Along G s as)
  | _, [] => isTrue trivial
  | s, a :: rest =>
      match hs : M.step s a with
      | none => isTrue fun s₁ e h => nomatch hs.symm.trans h
      | some (s₁, e) =>
          have : Decidable (M.Along G s₁ rest) := Along.decidable G s₁ rest
          decidable_of_iff (G s a e ∧ M.Along G s₁ rest)
            ⟨fun h s₂ e₂ h₂ => by
              cases hs.symm.trans h₂
              exact h, fun h => h s₁ e hs⟩

/-- The history rule, guarded: a predicate over the state and the events
so far that every guarded step extends holds at the end of every
guarded run. -/
theorem run_history_along {G : σ → α → ε → Prop}
    {P : σ → List ε → Prop}
    (hstep : ∀ {s s₁ : σ} {a : α} {e : ε} {es : List ε},
      P s es → M.step s a = some (s₁, e) → G s a e →
      P s₁ (es ++ [e])) :
    ∀ {as : List α} {s t : σ} {fs : List ε},
      M.Along G s as → M.run s as = some (t, fs) →
      ∀ es, P s es → P t (es ++ fs) := by
  intro as
  induction as with
  | nil =>
      intro s t fs _ hrun es hP
      simp only [run_nil, Option.some.injEq, Prod.mk.injEq] at hrun
      obtain ⟨rfl, rfl⟩ := hrun
      simpa using hP
  | cons a rest ih =>
      intro s t fs hG hrun es hP
      obtain ⟨s₁, e, fs', hs, hr, rfl⟩ := M.run_cons hrun
      obtain ⟨hg, hrest⟩ := hG s₁ e hs
      have := ih hrest hr _ (hstep hP hs hg)
      simpa using this

/-- Every run is guarded by the trivial condition. -/
theorem along_true (s : σ) (as : List α) :
    M.Along (fun _ _ _ => True) s as := by
  induction as generalizing s with
  | nil => trivial
  | cons a rest ih => exact fun s₁ e _ => ⟨trivial, ih s₁⟩

/-- A guard may be weakened along a run. -/
theorem Along.mono {G H : σ → α → ε → Prop}
    (hGH : ∀ s a e, G s a e → H s a e) {s : σ} {as : List α}
    (h : M.Along G s as) : M.Along H s as := by
  induction as generalizing s with
  | nil => trivial
  | cons a rest ih =>
      exact fun s₁ e hs => ⟨hGH _ _ _ (h s₁ e hs).1, ih (h s₁ e hs).2⟩

/-- Two guards along one run. -/
theorem Along.and {G H : σ → α → ε → Prop} {s : σ} {as : List α}
    (hG : M.Along G s as) (hH : M.Along H s as) :
    M.Along (fun s a e => G s a e ∧ H s a e) s as := by
  induction as generalizing s with
  | nil => trivial
  | cons a rest ih =>
      intro s₁ e hs
      obtain ⟨hg, hrest⟩ := hG s₁ e hs
      obtain ⟨hh, hrest'⟩ := hH s₁ e hs
      exact ⟨⟨hg, hh⟩, ih hrest hrest'⟩

/-- A guard that reads the action alone holds along a run whose actions
all meet it. -/
theorem along_of_forall {G : α → Prop} {as : List α} (h : ∀ a ∈ as, G a)
    (s : σ) : M.Along (fun _ a _ => G a) s as := by
  induction as generalizing s with
  | nil => trivial
  | cons a rest ih =>
      intro s₁ e _
      exact ⟨h a (List.mem_cons_self ..),
        ih (fun b hb => h b (List.mem_cons_of_mem _ hb)) s₁⟩

/-- A guard that reads the event alone holds along a run whose events
all meet it. -/
theorem along_of_events {G : ε → Prop} {as : List α} {s t : σ}
    {es : List ε} (hrun : M.run s as = some (t, es)) (h : ∀ e ∈ es, G e) :
    M.Along (fun _ _ e => G e) s as := by
  induction as generalizing s es with
  | nil => trivial
  | cons a rest ih =>
      intro s₁ e hstep
      obtain ⟨s₂, e', es', hs, hr, rfl⟩ := M.run_cons hrun
      rw [hs] at hstep
      cases hstep
      obtain ⟨he, hes⟩ := List.forall_mem_cons.1 h
      exact ⟨he, ih hr hes⟩

/-- The history rule: `run_history_along` with no guard. -/
theorem run_history {P : σ → List ε → Prop}
    (hstep : ∀ {s s₁ : σ} {a : α} {e : ε} {es : List ε},
      P s es → M.step s a = some (s₁, e) → P s₁ (es ++ [e]))
    {as : List α} {s t : σ} {fs : List ε}
    (hP : P s []) (hrun : M.run s as = some (t, fs)) : P t fs := by
  have h := M.run_history_along (G := fun _ _ _ => True) (P := P)
    (fun h hs _ => hstep h hs) (M.along_true s as) hrun [] hP
  simpa using h

/-- The invariant rule, guarded. -/
theorem run_invariant_along {G : σ → α → ε → Prop} {I : σ → Prop}
    (hstep : ∀ {s s₁ : σ} {a : α} {e : ε},
      I s → M.step s a = some (s₁, e) → G s a e → I s₁)
    {as : List α} {s t : σ} {fs : List ε}
    (hG : M.Along G s as) (hI : I s)
    (hrun : M.run s as = some (t, fs)) : I t :=
  M.run_history_along (G := G) (P := fun s _ => I s)
    (fun h hs hg => hstep h hs hg) hG hrun [] hI

/-- The invariant rule: what every step keeps holds after every run. -/
theorem run_invariant {I : σ → Prop}
    (hstep : ∀ {s s₁ : σ} {a : α} {e : ε},
      I s → M.step s a = some (s₁, e) → I s₁)
    {as : List α} {s t : σ} {fs : List ε}
    (hI : I s) (hrun : M.run s as = some (t, fs)) : I t :=
  M.run_history (P := fun s _ => I s) (fun h hs => hstep h hs) hI hrun

-- ========================================================= every state

/-- Every state a run from `s` along `as` passes through meets `P`. -/
def Always (P : σ → Prop) (s : σ) (as : List α) : Prop :=
  ∀ bs cs t es, as = bs ++ cs → M.run s bs = some (t, es) → P t

variable {P : σ → Prop}

/-- Also the first. -/
theorem Always.head {s : σ} {as : List α} (h : M.Always P s as) : P s :=
  h [] as s [] rfl rfl

theorem always_nil {s : σ} : M.Always P s [] ↔ P s := by
  constructor
  · exact Always.head M
  · intro h bs cs t es heq hrun
    obtain ⟨rfl, rfl⟩ := List.append_eq_nil_iff.1 heq.symm
    simp only [run_nil, Option.some.injEq, Prod.mk.injEq] at hrun
    rw [← hrun.1]
    exact h

theorem always_cons {s : σ} {a : α} {as : List α} :
    M.Always P s (a :: as)
      ↔ P s ∧ ∀ t e, M.step s a = some (t, e) → M.Always P t as := by
  constructor
  · intro h
    refine ⟨Always.head M h, fun t e hstep bs cs u es heq hrun => ?_⟩
    apply h (a :: bs) cs u (e :: es)
    · rw [heq]
      rfl
    · exact M.run_of_step hstep hrun
  · rintro ⟨hs, h⟩ bs cs u es heq hrun
    cases bs with
    | nil =>
        simp only [run_nil, Option.some.injEq, Prod.mk.injEq] at hrun
        rw [← hrun.1]
        exact hs
    | cons b bs =>
        rw [List.cons_append, List.cons.injEq] at heq
        obtain ⟨rfl, rfl⟩ := heq
        obtain ⟨t, e, es', hstep, hrest, -⟩ := M.run_cons hrun
        exact h t e hstep bs cs u es' rfl hrest

/-- The exact guard: a condition that a step keeps exactly if it meets `G`
holds all along a run exactly if every step meets `G`. -/
theorem always_iff {G : σ → α → ε → Prop}
    (hstep : ∀ {s t : σ} {a : α} {e : ε},
      P s → M.step s a = some (t, e) → (P t ↔ G s a e))
    {s : σ} {as : List α} (hs : P s) :
    M.Always P s as ↔ M.Along G s as := by
  induction as generalizing s with
  | nil => exact iff_of_true ((always_nil M).2 hs) trivial
  | cons a rest ih =>
      rw [always_cons]
      constructor
      · rintro ⟨-, h⟩ t e ht
        have hrest := h t e ht
        have hP := Always.head M hrest
        exact ⟨(hstep hs ht).1 hP, (ih hP).1 hrest⟩
      · intro h
        refine ⟨hs, fun t e ht => ?_⟩
        obtain ⟨hG, hrest⟩ := h t e ht
        exact (ih ((hstep hs ht).2 hG)).2 hrest

-- ========================================================== refinement

/-- A system whose every action is enabled runs every list of actions. -/
theorem run_total (hstep : ∀ s a, ∃ t e, M.step s a = some (t, e))
    (s : σ) (as : List α) : ∃ t es, M.run s as = some (t, es) := by
  induction as generalizing s with
  | nil => exact ⟨s, [], rfl⟩
  | cons a rest ih =>
      obtain ⟨t, e, ht⟩ := hstep s a
      obtain ⟨u, es, hu⟩ := ih t
      exact ⟨u, e :: es, M.run_of_step ht hu⟩

/-- The simulation rule: steps of `M` are steps of `N` under `abs`, so
runs of `M` are runs of `N` with the events as `view` shows them. -/
theorem run_simulation {σ' α' ε' : Type} (N : StepSystem σ' α' ε')
    (abs : σ → σ') (view : ε → ε')
    (hstep : ∀ {s t : σ} {a : α} {e : ε}, M.step s a = some (t, e) →
      ∃ b, N.step (abs s) b = some (abs t, view e))
    {s t : σ} {as : List α} {es : List ε}
    (hrun : M.run s as = some (t, es)) :
    ∃ bs, N.run (abs s) bs = some (abs t, es.map view) := by
  induction as generalizing s es with
  | nil =>
      simp only [run_nil, Option.some.injEq, Prod.mk.injEq] at hrun
      obtain ⟨rfl, rfl⟩ := hrun
      exact ⟨[], rfl⟩
  | cons a rest ih =>
      obtain ⟨s₁, e, es', hs, hr, rfl⟩ := M.run_cons hrun
      obtain ⟨b, hb⟩ := hstep hs
      obtain ⟨bs, hbs⟩ := ih hr
      exact ⟨b :: bs, N.run_of_step hb hbs⟩

/-- A run behind a run. -/
theorem run_append {s t u : σ} {as bs : List α} {es fs : List ε}
    (h : M.run s as = some (t, es)) (h' : M.run t bs = some (u, fs)) :
    M.run s (as ++ bs) = some (u, es ++ fs) := by
  induction as generalizing s es with
  | nil =>
      simp only [run_nil, Option.some.injEq, Prod.mk.injEq] at h
      obtain ⟨rfl, rfl⟩ := h
      exact h'
  | cons a rest ih =>
      obtain ⟨s₁, e, es', hs, hr, rfl⟩ := M.run_cons h
      exact M.run_of_step hs (ih hr)

/-- The refinement rule: where a step of `M` from related states is a run
of `N` that shows what `view` keeps of the event, so is every run. -/
theorem run_refines {σ' α' ε' : Type} (N : StepSystem σ' α' ε')
    (R : σ → σ' → Prop) (view : ε → List ε')
    (hstep : ∀ {s t : σ} {a : α} {e : ε} {u : σ'}, R s u →
      M.step s a = some (t, e) →
      ∃ bs v, N.run u bs = some (v, view e) ∧ R t v)
    {s t : σ} {u : σ'} {as : List α} {es : List ε} (hR : R s u)
    (hrun : M.run s as = some (t, es)) :
    ∃ bs v, N.run u bs = some (v, es.flatMap view) ∧ R t v := by
  induction as generalizing s u es with
  | nil =>
      simp only [run_nil, Option.some.injEq, Prod.mk.injEq] at hrun
      obtain ⟨rfl, rfl⟩ := hrun
      exact ⟨[], u, rfl, hR⟩
  | cons a rest ih =>
      obtain ⟨s₁, e, es', hs, hr, rfl⟩ := M.run_cons hrun
      obtain ⟨bs, v, hbs, hv⟩ := hstep hR hs
      obtain ⟨cs, w, hcs, hw⟩ := ih hv hr
      refine ⟨bs ++ cs, w, ?_, hw⟩
      rw [List.flatMap_cons]
      exact N.run_append hbs hcs

end StepSystem
