/-
Who may be inside a lifecycle call, under any interleaving.

# Owners

A thread owns the object from the exchange it won to the store (or the
successful return) that ends its call: `Pc.Owns`. While it does, the
state names its phase (`Pc.phase`), and no exchange of another thread
expects that value, with one exception: `Started` is published before
`startImpl` runs, and `stop` expects `Started`. So ownership is exclusive
in every run in which no `stop` wins its exchange inside a `start`
(`Calm`), and not in general (`overlap`).
-/
import Vnic.Lifecycle

namespace Vnic

namespace Pc

/-- The state value a call holds the object under, from its exchange to
its end. -/
def phase : Pc → Option State
  | .configureImpl => some .configuring
  | .configureStore _ => some .configuring
  | .startPublish => some .starting
  | .startImpl => some .started
  | .startStore => some .started
  | .stopImpl => some .stopping
  | .stopStore _ => some .stopping
  | _ => none

/-- The thread holds the object. -/
def Owns (pc : Pc) : Prop := pc.phase.isSome = true

/-- A start that has published `Started` and not returned. -/
def InStart (pc : Pc) : Prop := pc = .startImpl ∨ pc = .startStore

instance (pc : Pc) : Decidable pc.InStart :=
  inferInstanceAs (Decidable (_ ∨ _))

private theorem InImpl.owns {pc : Pc} (h : pc.InImpl) : pc.Owns := by
  rcases h with rfl | rfl | rfl <;> rfl

end Pc

namespace Lifecycle

variable {ι : Type} {s t : Lifecycle ι} {a : Op ι} {e : Event ι} {i j : ι}

-- ============================================================ exclusion

/-- The calls are exclusive, and the state names the owner's phase. -/
structure Exclusive (s : Lifecycle ι) : Prop where
  unique : ∀ {i j}, (s.pc i).Owns → (s.pc j).Owns → i = j
  phase : ∀ {i st}, (s.pc i).phase = some st → s.state = st

/-- No `stop` wins its exchange while a `start` that has published
`Started` has not returned. -/
def Calm (s : Lifecycle ι) : Op ι → Prop
  | .tick i => s.pc i = .stopCas → s.state = .started →
      ∀ j, ¬ (s.pc j).InStart
  | _ => True

/-- At first nobody is in a call. -/
theorem Exclusive.init : Exclusive ({} : Lifecycle ι) :=
  ⟨fun h => (by cases h), fun h => (by cases h)⟩

/-- Only one thread owns, so a step of an owner meets no other. -/
theorem Exclusive.alone (h : Exclusive s) (hi : (s.pc i).Owns)
    (hj : j ≠ i) : ¬ (s.pc j).Owns :=
  fun hown => hj (h.unique hown hi)

/-- A thread that wins an exchange finds nobody inside: the value it
expects is no owner's phase. -/
theorem Exclusive.nobody (h : Exclusive s)
    (hno : ∀ j, (s.pc j).phase ≠ some s.state) (j : ι) :
    ¬ (s.pc j).Owns := by
  intro hown
  obtain ⟨st, hst⟩ := Option.isSome_iff_exists.1 hown
  have := h.phase hst
  rw [← this] at hst
  exact hno j hst

/-- A phase value is one of four. -/
private theorem phase_cases {pc : Pc} {st : State} (h : pc.phase = some st) :
    st = .configuring ∨ st = .starting ∨ st = .stopping
      ∨ st = .started ∧ pc.InStart := by
  cases pc with
  | startImpl => cases h; exact Or.inr (Or.inr (Or.inr ⟨rfl, Or.inl rfl⟩))
  | startStore => cases h; exact Or.inr (Or.inr (Or.inr ⟨rfl, Or.inr rfl⟩))
  | startPublish => cases h; exact Or.inr (Or.inl rfl)
  | configureImpl => cases h; exact Or.inl rfl
  | configureStore ok => cases h; exact Or.inl rfl
  | stopImpl => cases h; exact Or.inr (Or.inr (Or.inl rfl))
  | stopStore ok => cases h; exact Or.inr (Or.inr (Or.inl rfl))
  | idle => cases h
  | configureCas expected => cases h
  | startCas => cases h
  | stopCas => cases h

/-- The expectations still to be tried are among the three `configure`
may leave from. -/
def Expecting (s : Lifecycle ι) : Prop :=
  ∀ i expected, s.pc i = .configureCas expected →
    ∀ st ∈ expected, Stateful.Configurable st

/-- No owner's phase is a state `configure` may leave from. -/
private theorem no_phase_of_configurable (h : Stateful.Configurable s.state)
    (j : ι) : (s.pc j).phase ≠ some s.state := by
  intro hp
  rcases phase_cases hp with h' | h' | h' | ⟨h', -⟩ <;>
    (rw [h'] at h; exact absurd h (by decide))

variable [DecidableEq ι]

@[simp]
theorem move_pc_self (s : Lifecycle ι) (i : ι) (pc : Pc) (st : State) :
    (s.move i pc st).pc i = pc :=
  Function.update_self ..

private theorem move_pc_of_ne (s : Lifecycle ι) {i j : ι} (h : j ≠ i) (pc : Pc)
    (st : State) : (s.move i pc st).pc j = s.pc j :=
  Function.update_of_ne h ..

@[simp]
theorem move_state (s : Lifecycle ι) (i : ι) (pc : Pc) (st : State) :
    (s.move i pc st).state = st := rfl

/-- A step of the owner, or of a thread that stays outside: nobody else
becomes an owner, and the state follows the owner. -/
theorem Exclusive.move (h : Exclusive s) {pc : Pc} {st : State}
    (hphase : ∀ st', pc.phase = some st' → st = st')
    (hother : ∀ j, j ≠ i → (s.pc j).Owns → ¬ pc.Owns ∧ st = s.state) :
    Exclusive (s.move i pc st) := by
  have hone : ∀ k, k ≠ i → ((s.move i pc st).pc k).Owns →
      (s.pc k).Owns := by
    intro k hk hown
    rwa [move_pc_of_ne s hk] at hown
  constructor
  · intro k l hk hl
    -- only the thread that moves can gain ownership, and hother speaks of
    -- the others
    by_cases hki : k = i
    · by_cases hli : l = i
      · rw [hki, hli]
      · subst hki
        rw [move_pc_self] at hk
        exact absurd hk (hother l hli (hone l hli hl)).1
    · by_cases hli : l = i
      · subst hli
        rw [move_pc_self] at hl
        exact absurd hl (hother k hki (hone k hki hk)).1
      · exact h.unique (hone k hki hk) (hone l hli hl)
  · intro k st' hk
    by_cases hki : k = i
    · subst hki
      rw [move_pc_self] at hk
      rw [move_state]
      exact hphase st' hk
    · rw [move_pc_of_ne s hki] at hk
      have hown : (s.pc k).Owns := by
        unfold Pc.Owns
        rw [hk]
        rfl
      rw [move_state, (hother k hki hown).2]
      exact h.phase hk

/-- A thread outside moves to another place outside. -/
theorem Exclusive.stay (h : Exclusive s) {pc : Pc} (hpc : pc.phase = none) :
    Exclusive (s.move i pc s.state) := by
  refine h.move (fun st' hst => ?_) fun j _ _ => ⟨?_, rfl⟩
  · rw [hpc] at hst
    cases hst
  · unfold Pc.Owns
    rw [hpc]
    simp

/-- The owner moves on: its new place and the new state agree. -/
theorem Exclusive.advance (h : Exclusive s) (hi : (s.pc i).Owns) {pc : Pc}
    {st : State} (hphase : ∀ st', pc.phase = some st' → st = st') :
    Exclusive (s.move i pc st) :=
  h.move hphase fun _ hj hown => absurd hown (h.alone hi hj)

/-- A thread enters: nobody was inside. -/
theorem Exclusive.enter (h : Exclusive s)
    (hno : ∀ j, (s.pc j).phase ≠ some s.state) {pc : Pc} {st : State}
    (hphase : ∀ st', pc.phase = some st' → st = st') :
    Exclusive (s.move i pc st) :=
  h.move hphase fun j _ hown => absurd hown (h.nobody hno j)

theorem Expecting.move (h : Expecting s) {pc : Pc} {st : State}
    (hpc : ∀ expected, pc = .configureCas expected →
      ∀ st ∈ expected, Stateful.Configurable st) :
    Expecting (s.move i pc st) := by
  intro j expected hj
  by_cases hji : j = i
  · subst hji
    rw [move_pc_self] at hj
    exact hpc expected hj
  · rw [move_pc_of_ne s hji] at hj
    exact h j expected hj

/-- A thread that leaves the expectation loop expects nothing. -/
theorem Expecting.leave (h : Expecting s) {pc : Pc} {st : State}
    (hpc : ∀ expected, pc ≠ .configureCas expected) :
    Expecting (s.move i pc st) :=
  h.move fun expected heq => absurd heq (hpc expected)

/-- An exchange that wins finds no owner, by the state it expects. -/
private theorem tick_exclusive (h : Exclusive s) (he : Expecting s)
    (hcalm : Calm s (.tick i)) (hs : s.tick i = some (t, e)) :
    Exclusive t ∧ Expecting t := by
  unfold tick at hs
  cases hpc : s.pc i with
  | idle => simp [hpc] at hs
  | configureImpl => simp [hpc] at hs
  | startImpl => simp [hpc] at hs
  | stopImpl => simp [hpc] at hs
  | configureCas expected =>
      cases expected with
      | nil =>
          simp only [hpc] at hs
          cases hs
          exact ⟨h.stay rfl, he.leave (by simp)⟩
      | cons st rest =>
          have hst := he i _ hpc
          simp only [hpc] at hs
          split at hs
          · next heq =>
            cases hs
            have hc : Stateful.Configurable s.state :=
              heq ▸ hst st (List.mem_cons_self ..)
            exact ⟨h.enter (no_phase_of_configurable hc)
              (fun st' h' => by cases h'; rfl), he.leave (by simp)⟩
          · cases hs
            refine ⟨h.stay rfl, he.move fun expected heq => ?_⟩
            cases heq
            exact fun st' h' => hst st' (List.mem_cons_of_mem _ h')
  | configureStore ok =>
      have hown : (s.pc i).Owns := by rw [hpc]; rfl
      cases ok with
      | true =>
          simp only [hpc] at hs
          cases hs
          exact ⟨h.advance hown (fun st' h' => by cases h'),
            he.leave (by simp)⟩
      | false =>
          simp only [hpc] at hs
          cases hs
          exact ⟨h.advance hown (fun st' h' => by cases h'),
            he.leave (by simp)⟩
  | startCas =>
      simp only [hpc] at hs
      split at hs
      · next heq =>
        cases hs
        have hc : Stateful.Configurable s.state := Or.inr (Or.inl heq)
        exact ⟨h.enter (no_phase_of_configurable hc)
          (fun st' h' => by cases h'; rfl), he.leave (by simp)⟩
      · cases hs
        exact ⟨h.stay rfl, he.leave (by simp)⟩
  | startPublish =>
      have hown : (s.pc i).Owns := by rw [hpc]; rfl
      simp only [hpc] at hs
      cases hs
      exact ⟨h.advance hown (fun st' h' => by cases h'; rfl),
        he.leave (by simp)⟩
  | startStore =>
      have hown : (s.pc i).Owns := by rw [hpc]; rfl
      simp only [hpc] at hs
      cases hs
      exact ⟨h.advance hown (fun st' h' => by cases h'),
        he.leave (by simp)⟩
  | stopCas =>
      simp only [hpc] at hs
      split at hs
      · next heq =>
        cases hs
        -- the one exchange whose expected value may be an owner's phase
        have hno : ∀ j, (s.pc j).phase ≠ some s.state := by
          intro j hp
          rcases phase_cases hp with h' | h' | h' | ⟨-, hin⟩
          · rw [heq] at h'; cases h'
          · rw [heq] at h'; cases h'
          · rw [heq] at h'; cases h'
          · exact hcalm hpc heq j hin
        exact ⟨h.enter hno (fun st' h' => by cases h'; rfl),
          he.leave (by simp)⟩
      · cases hs
        exact ⟨h.stay rfl, he.leave (by simp)⟩
  | stopStore ok =>
      have hown : (s.pc i).Owns := by rw [hpc]; rfl
      cases ok with
      | true =>
          simp only [hpc] at hs
          cases hs
          exact ⟨h.advance hown (fun st' h' => by cases h'),
            he.leave (by simp)⟩
      | false =>
          simp only [hpc] at hs
          cases hs
          exact ⟨h.advance hown (fun st' h' => by cases h'),
            he.leave (by simp)⟩

/-- Leaving an `*Impl` does not make an owner. -/
private theorem implReturn_exclusive {ok : Bool} (h : Exclusive s)
    (he : Expecting s) (hs : s.implReturn i ok = some (t, e)) :
    Exclusive t ∧ Expecting t := by
  unfold implReturn at hs
  cases hpc : s.pc i with
  | configureImpl =>
      have hown : (s.pc i).Owns := by rw [hpc]; rfl
      simp only [hpc] at hs
      cases hs
      refine ⟨h.advance hown (fun st' h' => ?_), he.leave (by simp)⟩
      cases h'
      exact h.phase (i := i) (by rw [hpc]; rfl)
  | startImpl =>
      have hown : (s.pc i).Owns := by rw [hpc]; rfl
      cases ok with
      | true =>
          simp only [hpc, if_true] at hs
          cases hs
          exact ⟨h.stay rfl, he.leave (by simp)⟩
      | false =>
          simp only [hpc, Bool.false_eq_true, if_false] at hs
          cases hs
          refine ⟨h.advance hown (fun st' h' => ?_),
            he.leave (by simp)⟩
          cases h'
          exact h.phase (i := i) (by rw [hpc]; rfl)
  | stopImpl =>
      have hown : (s.pc i).Owns := by rw [hpc]; rfl
      simp only [hpc] at hs
      cases hs
      refine ⟨h.advance hown (fun st' h' => ?_), he.leave (by simp)⟩
      cases h'
      exact h.phase (i := i) (by rw [hpc]; rfl)
  -- at the other places no Impl is under way, so there is no such step
  | idle => simp [hpc] at hs
  | configureCas _ => simp [hpc] at hs
  | configureStore _ => simp [hpc] at hs
  | startCas => simp [hpc] at hs
  | startPublish => simp [hpc] at hs
  | startStore => simp [hpc] at hs
  | stopCas => simp [hpc] at hs
  | stopStore _ => simp [hpc] at hs

/-- A calm step keeps the calls exclusive. -/
theorem Exclusive.step (h : Exclusive s) (he : Expecting s)
    (hcalm : Calm s a) (hs : s.step a = some (t, e)) :
    Exclusive t ∧ Expecting t := by
  cases a with
  | tick i => exact tick_exclusive h he hcalm hs
  | implReturn i ok => exact implReturn_exclusive h he hs
  | call i c =>
      unfold Lifecycle.step at hs
      cases hpc : s.pc i with
      | idle =>
          simp only [hpc] at hs
          cases hs
          cases c with
          | configure =>
              refine ⟨h.stay rfl, he.move fun expected heq => ?_⟩
              cases heq
              decide
          | start => exact ⟨h.stay rfl, he.move fun _ heq => by cases heq⟩
          | stop => exact ⟨h.stay rfl, he.move fun _ heq => by cases heq⟩
      -- a thread inside a call makes no second one
      | configureCas _ => simp [hpc] at hs
      | configureImpl => simp [hpc] at hs
      | configureStore _ => simp [hpc] at hs
      | startCas => simp [hpc] at hs
      | startPublish => simp [hpc] at hs
      | startImpl => simp [hpc] at hs
      | startStore => simp [hpc] at hs
      | stopCas => simp [hpc] at hs
      | stopImpl => simp [hpc] at hs
      | stopStore _ => simp [hpc] at hs

-- =============================================================== solo

/-- Thread `i` is the only one in a call, a `start`; once that has
returned success the state is `Started`. -/
def SoloStart (i : ι) (s : Lifecycle ι) (es : List (Event ι)) : Prop :=
  (∀ j, j ≠ i → s.pc j = .idle)
    ∧ ((Event.ret i .start true ∉ es
        ∧ (s.pc i = .startCas ∨ s.pc i = .startPublish
          ∨ s.pc i = .startImpl ∧ s.state = .started
          ∨ s.pc i = .startStore))
      ∨ (s.pc i = .idle
        ∧ (Event.ret i .start true ∈ es → s.state = .started)))

private theorem move_idle {pc : Pc} {st : State}
    (h : ∀ j, j ≠ i → s.pc j = .idle) :
    ∀ j, j ≠ i → (s.move i pc st).pc j = .idle := by
  intro j hj
  rw [move_pc_of_ne s hj]
  exact h j hj

/-- Every step of a run without new calls is the starter's. -/
theorem SoloStart.step {es : List (Event ι)} (h : SoloStart i s es)
    (hs : s.step a = some (t, e)) (hcall : ∀ j c, a ≠ .call j c) :
    SoloStart i t (es ++ [e]) := by
  obtain ⟨hidle, hmain⟩ := h
  cases a with
  | call j c => exact absurd rfl (hcall j c)
  | tick j =>
      by_cases hj : j = i
      · subst hj
        have hs' : s.tick j = some (t, e) := hs
        unfold tick at hs'
        -- where start() stands: before its exchange, before Started is
        -- published, in startImpl, before it stores Error, or returned
        rcases hmain with ⟨hno, hpc | hpc | ⟨hpc, -⟩ | hpc⟩ | ⟨hpc, -⟩
        · simp only [hpc] at hs'
          split at hs'
          · cases hs'
            exact ⟨move_idle hidle,
              Or.inl ⟨by simpa using hno, Or.inr (Or.inl (by simp))⟩⟩
          · cases hs'
            exact ⟨move_idle hidle,
              Or.inr ⟨by simp, fun hmem => absurd hmem (by simpa using hno)⟩⟩
        · simp only [hpc] at hs'
          cases hs'
          exact ⟨move_idle hidle, Or.inl ⟨by simpa using hno,
            Or.inr (Or.inr (Or.inl ⟨by simp, rfl⟩))⟩⟩
        · simp [hpc] at hs'
        · simp only [hpc] at hs'
          cases hs'
          exact ⟨move_idle hidle,
            Or.inr ⟨by simp, fun hmem => absurd hmem (by simpa using hno)⟩⟩
        · simp [hpc] at hs'
      · have hs' : s.tick j = some (t, e) := hs
        simp [tick, hidle j hj] at hs'
  | implReturn j ok =>
      by_cases hj : j = i
      · subst hj
        have hs' : s.implReturn j ok = some (t, e) := hs
        unfold implReturn at hs'
        rcases hmain with ⟨hno, hpc | hpc | ⟨hpc, hst⟩ | hpc⟩ | ⟨hpc, -⟩
        · simp [hpc] at hs'
        · simp [hpc] at hs'
        · cases ok with
          | true =>
              simp only [hpc, if_true] at hs'
              cases hs'
              exact ⟨move_idle hidle, Or.inr ⟨by simp, fun _ => hst⟩⟩
          | false =>
              simp only [hpc, Bool.false_eq_true, if_false] at hs'
              cases hs'
              exact ⟨move_idle hidle, Or.inl ⟨by simpa using hno,
                Or.inr (Or.inr (Or.inr (by simp)))⟩⟩
        · simp [hpc] at hs'
        · simp [hpc] at hs'
      · have hs' : s.implReturn j ok = some (t, e) := hs
        simp [implReturn, hidle j hj] at hs'

-- ========================================================= the theorem

/-- For any number of threads and any interleaving: as long as no `stop`
wins its exchange while a `start` that has published `Started` has not
returned, at most one `*Impl` is in progress; and after a `start` that
returned success, with no other call overlapping or following it, the
state is `Started`. -/
theorem impl_exclusion {as : List (Op ι)} {es : List (Event ι)}
    (hrun : (lifecycle ι).run {} as = some (s, es)) :
    ((lifecycle ι).Along (fun s a _ => Calm s a) {} as →
      ∀ i j, (s.pc i).InImpl → (s.pc j).InImpl → i = j)
    ∧ ∀ (i : ι) (bs : List (Op ι)) (t : Lifecycle ι)
        (fs : List (Event ι)),
        (∀ j, s.pc j = .idle) → (∀ b ∈ bs, ∀ j c, b ≠ .call j c) →
        (lifecycle ι).run s (.call i .start :: bs) = some (t, fs) →
        .ret i .start true ∈ fs → t.state = .started := by
  constructor
  · intro hcalm i j hi hj
    have hex : Exclusive s ∧ Expecting s :=
      (lifecycle ι).run_invariant_along
        (I := fun s => Exclusive s ∧ Expecting s)
        (fun h hs hg => h.1.step h.2 hg hs) hcalm
        ⟨Exclusive.init, fun _ _ h => (by cases h)⟩ hrun
    exact hex.1.unique hi.owns hj.owns
  · intro i bs t fs hidle hbs hrun' hret
    obtain ⟨s₁, e, fs', hstep, hrest, rfl⟩ := (lifecycle ι).run_cons hrun'
    have hs₁ : SoloStart i s₁ [e] := by
      simp only [lifecycle, Lifecycle.step, hidle i, Option.some.injEq,
        Prod.mk.injEq] at hstep
      obtain ⟨rfl, rfl⟩ := hstep
      exact ⟨move_idle fun j _ => hidle j,
        Or.inl ⟨by simp, Or.inl (by simp [entry])⟩⟩
    have hfin := (lifecycle ι).run_history_along
      (P := fun s es => SoloStart i s es)
      (fun h hs hg => SoloStart.step h hs hg)
      ((lifecycle ι).along_of_forall hbs s₁) hrest [e] hs₁
    -- the history says whether start() has answered true, and then the
    -- state is Started
    rcases hfin.2 with ⟨hno, -⟩ | ⟨-, hst⟩
    · exact absurd hret hno
    · exact hst hret

/-- One thread configures. -/
def configureOnce : List (Op Bool) :=
  [.call false .configure, .tick false, .implReturn false true, .tick false]

instance (s : Lifecycle Bool) : (a : Op Bool) → Decidable (Calm s a)
  | .call _ _ => isTrue trivial
  | .tick _ => inferInstanceAs (Decidable (_ → _ → ∀ _j, ¬ _))
  | .implReturn _ _ => isTrue trivial

/-- Two threads stop what the first has started; the second comes too
late. -/
def stopTwice : List (Op Bool) :=
  configureOnce
    ++ [.call false .start, .tick false, .tick false,
      .implReturn false true, .call true .stop, .call false .stop,
      .tick true, .tick false]

/-- In a calm run only one of two stopping threads is inside `stopImpl`;
and after `configure` a `start` leaves the object started. -/
theorem impl_exclusion_configureOnce :
    (∃ s es, (lifecycle Bool).run {} stopTwice = some (s, es)
      ∧ (s.pc true).InImpl ∧ ∀ i, (s.pc i).InImpl → i = true)
    ∧ ∃ s es t fs, (lifecycle Bool).run {} configureOnce = some (s, es)
      ∧ (lifecycle Bool).run s [.call false .start, .tick false,
          .tick false, .implReturn false true] = some (t, fs)
      ∧ t.state = .started := by
  constructor
  · have hsome : ((lifecycle Bool).run {} stopTwice).map
        (fun p => decide (p.1.pc true).InImpl) = some true := by decide
    have hcalm : (lifecycle Bool).Along (fun s a _ => Calm s a) {}
        stopTwice := by decide
    obtain ⟨⟨s, es⟩, hrun, hin⟩ := Option.map_eq_some_iff.1 hsome
    have himpl : (s.pc true).InImpl := of_decide_eq_true hin
    exact ⟨s, es, hrun, himpl, fun i hi =>
      (impl_exclusion hrun).1 hcalm i true hi himpl⟩
  · have hsome : ((lifecycle Bool).run {} configureOnce).bind (fun p =>
        ((lifecycle Bool).run p.1 [.call false .start, .tick false,
          .tick false, .implReturn false true]).map fun q =>
            (p.1.pc false, p.1.pc true,
              decide (Event.ret false .start true ∈ q.2)))
          = some (.idle, .idle, true) := by decide
    obtain ⟨⟨s, es⟩, hrun, hrest⟩ := Option.bind_eq_some_iff.1 hsome
    obtain ⟨⟨t, fs⟩, hrun', hval⟩ := Option.map_eq_some_iff.1 hrest
    simp only [Prod.mk.injEq, decide_eq_true_eq] at hval
    have hidle : ∀ j, s.pc j = .idle := by
      intro j
      cases j with
      | false => exact hval.1
      | true => exact hval.2.1
    exact ⟨s, es, t, fs, hrun, hrun', (impl_exclusion hrun).2 false _ t fs
      hidle (by simp) hrun' hval.2.2⟩

/-- A second thread stops while the first is inside `startImpl`. -/
def stopInsideStart : List (Op Bool) :=
  configureOnce
    ++ [.call false .start, .tick false, .tick false, .call true .stop,
      .tick true]

/-- `Started` is published before `startImpl` runs, so without the
condition the two overlap. -/
theorem not_exclusion_stopInsideStart :
    ¬ ∀ (as : List (Op Bool)) (s : Lifecycle Bool)
        (es : List (Event Bool)),
        (lifecycle Bool).run {} as = some (s, es) →
        ∀ i j, (s.pc i).InImpl → (s.pc j).InImpl → i = j := by
  intro hall
  have hsome : ((lifecycle Bool).run {} stopInsideStart).map
      (fun p => (p.1.pc false, p.1.pc true))
        = some (.startImpl, .stopImpl) := by decide
  obtain ⟨⟨s, es⟩, hrun, hval⟩ := Option.map_eq_some_iff.1 hsome
  simp only [Prod.mk.injEq] at hval
  have := hall _ s es hrun false true (by rw [hval.1]; decide)
    (by rw [hval.2]; decide)
  cases this

-- ========================================================== sequential

/-- The bare state as a stateful object. -/
instance : Stateful State where
  getState st := st
  setState st _ := st
  getState_setState _ _ := rfl

/-- One whole call of the sequential model on a bare state, its `*Impl`
returning `ok`. -/
def sequential (c : Call) (ok : Bool) (st : State) : State × Res :=
  let impl : State → State × Res := fun st =>
    (st, if ok then .ok () else .error .none)
  match c with
  | .configure => Stateful.configure impl st
  | .start => Stateful.start impl st
  | .stop => Stateful.stop impl st

/-- A thread that runs a call to its end without interference does what
the sequential model says. -/
theorem solo_call (hidle : s.pc i = .idle) (c : Call) (ok : Bool) :
    ∃ bs fs, (lifecycle ι).run s (.call i c :: bs)
      = some ({ s with state := (sequential c ok s.state).1 },
          fs ++ [.ret i c
            (decide ((sequential c ok s.state).2 = .ok ()))]) := by
  -- back at idle the thread table is the old one
  have hback : Function.update s.pc i .idle = s.pc := by
    rw [← hidle, Function.update_eq_self]
  cases c with
  | configure =>
      by_cases hc : Stateful.Configurable s.state
      · rcases hc with hst | hst | hst
        · refine ⟨[.tick i, .implReturn i ok, .tick i],
            [.silent, .silent, .silent], ?_⟩
          cases ok <;>
            simp [StepSystem.run, lifecycle, step, tick, implReturn, move,
              entry, hidle, hst, hback, sequential, Stateful.configure,
              Stateful.casAny, Stateful.cas, Stateful.getState,
              Stateful.setState]
        · refine ⟨[.tick i, .tick i, .implReturn i ok, .tick i],
            [.silent, .silent, .silent, .silent], ?_⟩
          cases ok <;>
            simp [StepSystem.run, lifecycle, step, tick, implReturn, move,
              entry, hidle, hst, hback, sequential, Stateful.configure,
              Stateful.casAny, Stateful.cas, Stateful.getState,
              Stateful.setState]
        · refine ⟨[.tick i, .tick i, .tick i, .implReturn i ok, .tick i],
            [.silent, .silent, .silent, .silent, .silent], ?_⟩
          cases ok <;>
            simp [StepSystem.run, lifecycle, step, tick, implReturn, move,
              entry, hidle, hst, hback, sequential, Stateful.configure,
              Stateful.casAny, Stateful.cas, Stateful.getState,
              Stateful.setState]
      · simp only [Stateful.Configurable, not_or] at hc
        refine ⟨[.tick i, .tick i, .tick i, .tick i],
          [.silent, .silent, .silent, .silent], ?_⟩
        simp [StepSystem.run, lifecycle, step, tick, move, entry, hidle,
          hc.1, hc.2.1, hc.2.2, hback, sequential, Stateful.configure,
          Stateful.casAny, Stateful.cas, Stateful.getState]
  | start =>
      by_cases hst : s.state = .configured
      · cases ok with
        | true =>
            refine ⟨[.tick i, .tick i, .implReturn i true],
              [.silent, .silent, .silent], ?_⟩
            simp [StepSystem.run, lifecycle, step, tick, implReturn, move,
              entry, hidle, hst, hback, sequential, Stateful.start,
              Stateful.cas, Stateful.getState, Stateful.setState]
        | false =>
            refine ⟨[.tick i, .tick i, .implReturn i false, .tick i],
              [.silent, .silent, .silent, .silent], ?_⟩
            simp [StepSystem.run, lifecycle, step, tick, implReturn, move,
              entry, hidle, hst, hback, sequential, Stateful.start,
              Stateful.cas, Stateful.getState, Stateful.setState]
      · refine ⟨[.tick i], [.silent], ?_⟩
        simp [StepSystem.run, lifecycle, step, tick, move, entry, hidle, hst,
          hback, sequential, Stateful.start, Stateful.cas,
          Stateful.getState]
  | stop =>
      by_cases hst : s.state = .started
      · refine ⟨[.tick i, .implReturn i ok, .tick i],
          [.silent, .silent, .silent], ?_⟩
        cases ok <;>
          simp [StepSystem.run, lifecycle, step, tick, implReturn, move,
            entry, hidle, hst, hback, sequential, Stateful.stop,
            Stateful.cas, Stateful.getState, Stateful.setState]
      · refine ⟨[.tick i], [.silent], ?_⟩
        simp [StepSystem.run, lifecycle, step, tick, move, entry, hidle, hst,
          hback, sequential, Stateful.stop, Stateful.cas,
          Stateful.getState]

end Lifecycle

end Vnic
