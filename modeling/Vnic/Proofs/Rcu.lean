/-
`Rcu` is an atomic register: any number of threads may read and write at
once, and what their calls return is what they would return one after
another.

# The relation

`Holds s v` says that the register holds `v` while the implementation is
at `s`. The mutex knows who is behind it (`unique`, `shared`). The value
in memory is `v` unless a write is under way, and a reader's rest returns
on `v` what its whole body returns. A write takes effect where its
assignment ends, a read where its lock is given back; both are steps of
the call itself, so that the order of the effects extends the order of the
calls.
-/
import Vnic.Rcu
import Mathlib.Data.Finset.Card

namespace Vnic.Rcu

variable {ι τ ω ρ : Type} {s t : State ι τ ω ρ} {v w : τ}

-- ======================================================== the relation

/-- Behind the unique lock. -/
def Pc.unique : Pc τ ω ρ → Bool
  | .writing _ | .written => true
  | _ => false

/-- Behind the shared lock. -/
def Pc.shared : Pc τ ω ρ → Bool
  | .reading _ _ => true
  | _ => false

/-- The register holds `v` while the threads are at `s`. -/
structure Holds (s : State ι τ ω ρ) (v : τ) : Prop where
  unique : ∀ i, s.mutex.writer = some i ↔ (s.pc i).unique = true
  shared : ∀ i, i ∈ s.mutex.readers ↔ (s.pc i).shared = true
  value : (∀ i w, s.pc i ≠ .writing w) → s.value = v
  rest : ∀ i fn rest, s.pc i = .reading fn rest → rest.eval v = fn.eval v

/-- Nobody is inside, and memory holds the value. -/
theorem Holds.init (v : τ) : Holds (init v : State ι τ ω ρ) v where
  unique := fun i => by simp [Rcu.init, Pc.unique]
  shared := fun i => by simp [Rcu.init, Pc.shared]
  value := fun _ => rfl
  rest := nofun

/-- A thread behind the shared lock keeps every writer out, so that the
value in memory is the register's. -/
theorem Holds.value_of_shared (h : Holds s v) {i : ι}
    (hi : (s.pc i).shared = true) : s.value = v := by
  apply h.value
  intro j w hj
  have hw : s.mutex.writer = some j := (h.unique j).2 (by rw [hj]; rfl)
  have hr := SharedMutex.writer_eq_none ((h.shared i).2 hi)
  cases hr.symm.trans hw

/-- A thread behind the unique lock is the only one behind the lock. -/
theorem Holds.alone (h : Holds s v) {i j : ι}
    (hi : (s.pc i).unique = true) (hj : j ≠ i) :
    (s.pc j).unique = false ∧ (s.pc j).shared = false := by
  have hw := (h.unique i).2 hi
  constructor
  · rw [Bool.eq_false_iff]
    intro hu
    have heq := (h.unique j).2 hu
    rw [hw, Option.some.injEq] at heq
    exact hj heq.symm
  · rw [Bool.eq_false_iff]
    intro hs
    have hm := (h.shared j).2 hs
    rw [SharedMutex.readers_eq_empty hw] at hm
    cases hm

/-- Under the writer's lock the value may be anything. -/
theorem Holds.tear (h : Holds s v) {i : ι} {value : τ}
    (hpc : s.pc i = .writing value) (garbage : τ) :
    Holds { s with value := garbage } v where
  unique := h.unique
  shared := h.shared
  value := fun hnone => absurd hpc (hnone i value)
  rest := h.rest

/-- With nobody behind it the lock is free. -/
theorem Holds.free (h : Holds s v)
    (hpcs : ∀ j, (s.pc j).unique = false ∧ (s.pc j).shared = false) :
    s.mutex.writer = none ∧ s.mutex.readers = ∅ := by
  constructor
  · cases hw : s.mutex.writer with
    | none => rfl
    | some j =>
        have := (h.unique j).1 hw
        rw [(hpcs j).1] at this
        cases this
  · rw [Finset.eq_empty_iff_forall_notMem]
    intro j hj
    have := (h.shared j).1 hj
    rw [(hpcs j).2] at this
    cases this

variable [DecidableEq ι]

-- =============================================================== steps

@[simp]
theorem goto_self (s : State ι τ ω ρ) (i : ι) (p : Pc τ ω ρ) :
    (s.goto i p).pc i = p := by
  simp [State.goto]

theorem goto_ne (s : State ι τ ω ρ) {i j : ι} (h : j ≠ i) (p : Pc τ ω ρ) :
    (s.goto i p).pc j = s.pc j := by
  simp [State.goto, h]

@[simp]
theorem goto_value (s : State ι τ ω ρ) (i : ι) (p : Pc τ ω ρ) :
    (s.goto i p).value = s.value := rfl

@[simp]
theorem goto_mutex (s : State ι τ ω ρ) (i : ι) (p : Pc τ ω ρ) :
    (s.goto i p).mutex = s.mutex := rfl

/-- Everything a step can be. -/
inductive Moves (s : State ι τ ω ρ) : Act ι τ ω ρ →
    State ι τ ω ρ → Option (Register.Event ι τ ω ρ) → Prop
  | read {i : ι} {fn : Reads τ ω ρ} (hpc : s.pc i = .idle) :
      Moves s (.read i fn) (s.goto i (.lockShared fn)) none
  | write {i : ι} {value : τ} (hpc : s.pc i = .idle) :
      Moves s (.write i value) (s.goto i (.lockUnique value)) none
  | lockShared {i : ι} {fn : Reads τ ω ρ} {m : SharedMutex ι}
      (hpc : s.pc i = .lockShared fn) (hm : s.mutex.lockShared i = some m) :
      Moves s (.lock i) (({ s with mutex := m } : State ι τ ω ρ).goto i
        (.reading fn fn)) none
  | lockUnique {i : ι} {value : τ} {m : SharedMutex ι}
      (hpc : s.pc i = .lockUnique value) (hm : s.mutex.lock i = some m) :
      Moves s (.lock i) (({ s with mutex := m } : State ι τ ω ρ).goto i
        (.writing value)) none
  | look {i : ι} {fn : Reads τ ω ρ} {part : τ → ω}
      {next : ω → Reads τ ω ρ} (hpc : s.pc i = .reading fn (.look part next)) :
      Moves s (.look i) (s.goto i (.reading fn (next (part s.value)))) none
  | tear {i : ι} {value garbage : τ} (hpc : s.pc i = .writing value) :
      Moves s (.tear i garbage) { s with value := garbage } none
  | assign {i : ι} {value : τ} (hpc : s.pc i = .writing value) :
      Moves s (.assign i)
        (({ s with value := value } : State ι τ ω ρ).goto i .written)
        (some (.wrote i value))
  | unlockShared {i : ι} {fn : Reads τ ω ρ} {r : ρ}
      (hpc : s.pc i = .reading fn (.done r)) :
      Moves s (.unlock i) (({ s with mutex := s.mutex.unlockShared i } :
        State ι τ ω ρ).goto i .idle) (some (.read i fn r))
  | unlock {i : ι} (hpc : s.pc i = .written) :
      Moves s (.unlock i)
        (({ s with mutex := s.mutex.unlock } : State ι τ ω ρ).goto i .idle) none

/-- Every step is one of the moves. -/
theorem moves_of_step {a : Act ι τ ω ρ}
    {e : Option (Register.Event ι τ ω ρ)}
    (h : (system ι τ ω ρ).step s a = some (t, e)) : Moves s a t e := by
  change s.step a = some (t, e) at h
  cases a with
  | read i fn =>
      simp only [State.step] at h
      split at h
      · next hpc =>
        cases h
        exact .read hpc
      · cases h
  | write i value =>
      simp only [State.step] at h
      split at h
      · next hpc =>
        cases h
        exact .write hpc
      · cases h
  | lock i =>
      simp only [State.step] at h
      split at h
      · next fn hpc =>
        obtain ⟨m, hm, heq⟩ := Option.map_eq_some_iff.1 h
        cases heq
        exact .lockShared hpc hm
      · next value hpc =>
        obtain ⟨m, hm, heq⟩ := Option.map_eq_some_iff.1 h
        cases heq
        exact .lockUnique hpc hm
      · cases h
  | look i =>
      simp only [State.step] at h
      split at h
      · next hpc =>
        cases h
        exact .look hpc
      · cases h
  | tear i garbage =>
      simp only [State.step] at h
      split at h
      · next hpc =>
        cases h
        exact .tear hpc
      · cases h
  | assign i =>
      simp only [State.step] at h
      split at h
      · next hpc =>
        cases h
        exact .assign hpc
      · cases h
  | unlock i =>
      simp only [State.step] at h
      split at h
      · next hpc =>
        cases h
        exact .unlockShared hpc
      · next hpc =>
        cases h
        exact .unlock hpc
      · cases h

-- ============================================================ one step

/-- The mutex and the threads still agree once thread `i` has gone on to
`p` with the mutex at `m`, which has changed for `i` alone. -/
theorem Holds.agree (h : Holds s v) {i : ι} {p : Pc τ ω ρ}
    {m : SharedMutex ι} (x : τ)
    (hwi : m.writer = some i ↔ p.unique = true)
    (hw : ∀ j, j ≠ i → (m.writer = some j ↔ s.mutex.writer = some j))
    (hri : i ∈ m.readers ↔ p.shared = true)
    (hr : ∀ j, j ≠ i → (j ∈ m.readers ↔ j ∈ s.mutex.readers))
    (hvalue : (∀ w, p ≠ .writing w) → (∀ j w, j ≠ i → s.pc j ≠ .writing w) →
      x = w)
    (hrest : ∀ fn rest, p = .reading fn rest → rest.eval w = fn.eval w)
    (hothers : ∀ j fn rest, j ≠ i → s.pc j = .reading fn rest →
      rest.eval w = fn.eval w) :
    Holds (({ s with value := x, mutex := m } : State ι τ ω ρ).goto i p) w
    where
  unique := by
    intro j
    by_cases hj : j = i
    · subst hj
      rw [goto_self]
      exact hwi
    · rw [goto_ne _ hj]
      exact (hw j hj).trans (h.unique j)
  shared := by
    intro j
    by_cases hj : j = i
    · subst hj
      rw [goto_self]
      exact hri
    · rw [goto_ne _ hj]
      exact (hr j hj).trans (h.shared j)
  value := by
    intro hnone
    apply hvalue
    · intro u hp
      exact hnone i u (by rw [goto_self, hp])
    · intro j u hj hpc
      exact hnone j u (by rw [goto_ne _ hj]; exact hpc)
  rest := by
    intro j fn rest hpc
    by_cases hj : j = i
    · subst hj
      rw [goto_self] at hpc
      exact hrest fn rest hpc
    · rw [goto_ne _ hj] at hpc
      exact hothers j fn rest hj hpc

/-- A thread that neither takes nor gives back the lock, and does not
write. -/
theorem Holds.goto (h : Holds s v) {i : ι} {p : Pc τ ω ρ}
    (hu : p.unique = (s.pc i).unique) (hs : p.shared = (s.pc i).shared)
    (hpc : ∀ w, s.pc i ≠ .writing w)
    (hrest : ∀ fn rest, p = .reading fn rest → rest.eval v = fn.eval v) :
    Holds (s.goto i p) v := by
  apply h.agree s.value (hu ▸ h.unique i) (fun _ _ => Iff.rfl)
    (hs ▸ h.shared i) (fun _ _ => Iff.rfl) _ hrest
    (fun j fn rest _ => h.rest j fn rest)
  intro _ hothers
  apply h.value
  intro j w hj
  by_cases hji : j = i
  · subst hji
    exact hpc w hj
  · exact hothers j w hji hj

/-- A reader enters only where no writer is. -/
theorem Holds.lockShared (h : Holds s v) {i : ι} {fn : Reads τ ω ρ}
    {m : SharedMutex ι} (hm : s.mutex.lockShared i = some m) :
    Holds (({ s with mutex := m } : State ι τ ω ρ).goto i (.reading fn fn))
      v := by
  obtain ⟨hfree, hw, hr⟩ := SharedMutex.lockShared_some hm
  apply h.agree s.value
  · rw [hw]
    simp [Pc.unique]
  · intro j _
    rw [hw, hfree]
  · rw [hr]
    simp [Pc.shared]
  · intro j hj
    rw [hr]
    simp [hj]
  · intro _ hothers
    apply h.value
    intro j w hj
    have := (h.unique j).2 (by rw [hj]; rfl)
    cases hfree.symm.trans this
  · intro fn' rest heq
    cases heq
    rfl
  · exact fun j fn rest _ => h.rest j fn rest

/-- A writer enters alone. -/
theorem Holds.lockUnique (h : Holds s v) {i : ι} {value : τ}
    {m : SharedMutex ι} (hm : s.mutex.lock i = some m) :
    Holds (({ s with mutex := m } : State ι τ ω ρ).goto i (.writing value))
      v := by
  obtain ⟨hfree, hnone, hw, hr⟩ := SharedMutex.lock_some hm
  apply h.agree s.value
  · rw [hw]
    simp [Pc.unique]
  · intro j hj
    rw [hw, hfree]
    simp [Ne.symm hj]
  · rw [hr]
    simp [Pc.shared]
  · intro j _
    rw [hr, hnone]
  · exact fun hwriting => absurd rfl (hwriting value)
  · intro fn rest heq
    cases heq
  · exact fun j fn rest _ => h.rest j fn rest

/-- A look under the shared lock sees the value itself. -/
theorem Holds.look (h : Holds s v) {i : ι} {fn : Reads τ ω ρ} {part : τ → ω}
    {next : ω → Reads τ ω ρ} (hpc : s.pc i = .reading fn (.look part next)) :
    Holds (s.goto i (.reading fn (next (part s.value)))) v := by
  apply h.goto
  · rw [hpc]
    rfl
  · rw [hpc]
    rfl
  · intro w hw
    cases hpc.symm.trans hw
  · intro fn' rest heq
    cases heq
    rw [h.value_of_shared (by rw [hpc]; rfl)]
    exact h.rest i fn (.look part next) hpc

/-- The last store of an assignment makes the value whole again. -/
theorem Holds.assign (h : Holds s v) {i : ι} {value : τ}
    (hpc : s.pc i = .writing value) :
    Holds (({ s with value := value } : State ι τ ω ρ).goto i .written)
      value := by
  have hu : (s.pc i).unique = true := by rw [hpc]; rfl
  have hs : (s.pc i).shared = false := by rw [hpc]; rfl
  apply h.agree value
  · exact iff_of_true ((h.unique i).2 hu) rfl
  · exact fun _ _ => Iff.rfl
  · rw [h.shared i, hs]
    simp [Pc.shared]
  · exact fun _ _ => Iff.rfl
  · exact fun _ _ => rfl
  · intro fn rest heq
    cases heq
  · intro j fn rest hj hreading
    have := (h.alone hu hj).2
    rw [hreading] at this
    cases this

theorem Holds.unlockShared (h : Holds s v) {i : ι} {fn rest : Reads τ ω ρ}
    (hpc : s.pc i = .reading fn rest) :
    Holds (({ s with mutex := s.mutex.unlockShared i } :
      State ι τ ω ρ).goto i .idle) v := by
  have hs : (s.pc i).shared = true := by rw [hpc]; rfl
  have hw := SharedMutex.writer_eq_none ((h.shared i).2 hs)
  apply h.agree s.value
  · change s.mutex.writer = some i ↔ _
    rw [hw]
    simp [Pc.unique]
  · exact fun _ _ => Iff.rfl
  · simp [SharedMutex.unlockShared, Pc.shared]
  · intro j hj
    simp [SharedMutex.unlockShared, hj]
  · exact fun _ _ => h.value_of_shared hs
  · intro fn rest heq
    cases heq
  · exact fun j fn rest _ => h.rest j fn rest

theorem Holds.unlock (h : Holds s v) {i : ι} (hpc : s.pc i = .written) :
    Holds (({ s with mutex := s.mutex.unlock } : State ι τ ω ρ).goto i .idle)
      v := by
  have hu : (s.pc i).unique = true := by rw [hpc]; rfl
  have hw := (h.unique i).2 hu
  apply h.agree s.value
  · simp [SharedMutex.unlock, Pc.unique]
  · intro j hj
    rw [hw]
    simp [SharedMutex.unlock, Ne.symm hj]
  · change i ∈ s.mutex.readers ↔ _
    rw [SharedMutex.readers_eq_empty hw]
    simp [Pc.shared]
  · exact fun _ _ => Iff.rfl
  · intro _ hothers
    apply h.value
    intro j w hj
    by_cases hji : j = i
    · subst hji
      cases hpc.symm.trans hj
    · exact hothers j w hji hj
  · intro fn rest heq
    cases heq
  · exact fun j fn rest _ => h.rest j fn rest

/-- A step of a thread is a call of the register, or none. -/
theorem Holds.step {a : Act ι τ ω ρ} {e : Option (Register.Event ι τ ω ρ)}
    (h : Holds s v) (hmove : Moves s a t e) :
    ∃ calls w, (Register.system ι τ ω ρ).run v calls = some (w, e.toList)
      ∧ Holds t w := by
  cases hmove with
  | read hpc =>
      refine ⟨[], v, rfl, h.goto ?_ ?_ ?_ nofun⟩ <;> rw [hpc]
      · rfl
      · rfl
      · nofun
  | write hpc =>
      refine ⟨[], v, rfl, h.goto ?_ ?_ ?_ nofun⟩ <;> rw [hpc]
      · rfl
      · rfl
      · nofun
  | lockShared hpc hm => exact ⟨[], v, rfl, h.lockShared hm⟩
  | lockUnique hpc hm => exact ⟨[], v, rfl, h.lockUnique hm⟩
  | look hpc => exact ⟨[], v, rfl, h.look hpc⟩
  | tear hpc => exact ⟨[], v, rfl, h.tear hpc _⟩
  | @assign i value hpc => exact ⟨[.write i value], value, rfl, h.assign hpc⟩
  | @unlockShared i fn r hpc =>
      refine ⟨[.read i fn], v, ?_, h.unlockShared hpc⟩
      have hr : r = fn.eval v := h.rest i fn _ hpc
      rw [hr]
      rfl
  | unlock hpc => exact ⟨[], v, rfl, h.unlock hpc⟩

-- ================================================================ runs

/-- The threads' calls, in the order of their effects, are calls of an
atomic register. -/
theorem holds_run {acts : List (Act ι τ ω ρ)}
    {es : List (Option (Register.Event ι τ ω ρ))}
    (hrun : (system ι τ ω ρ).run (init v) acts = some (t, es)) :
    ∃ calls w, (Register.system ι τ ω ρ).run v calls
        = some (w, es.flatMap Option.toList) ∧ Holds t w :=
  (system ι τ ω ρ).run_refines (Register.system ι τ ω ρ) Holds Option.toList
    (fun h hs => h.step (moves_of_step hs)) (Holds.init v) hrun

/-- Thread `i` has still to write `value`. -/
def Pc.Pending (value : τ) (p : Pc τ ω ρ) : Prop :=
  p = .lockUnique value ∨ p = .writing value

/-- Every write under way has a value of `P`. -/
def PendingOf (P : τ → Prop) (s : State ι τ ω ρ) : Prop :=
  ∀ i value, (s.pc i).Pending value → P value

/-- A thread that goes on with an allowed value keeps all pending values
allowed. -/
theorem PendingOf.goto {P : τ → Prop} (h : PendingOf P s) {i : ι}
    {p : Pc τ ω ρ} (hp : ∀ value, p.Pending value → P value) :
    PendingOf P (s.goto i p) := by
  intro j value hj
  by_cases hji : j = i
  · subst hji
    rw [goto_self] at hj
    exact hp value hj
  · rw [goto_ne _ hji] at hj
    exact h j value hj

/-- A call brings the value it is called with, and the call's own value is
what is written. -/
theorem Moves.pendingOf {a : Act ι τ ω ρ}
    {e : Option (Register.Event ι τ ω ρ)} {P : τ → Prop}
    (hmove : Moves s a t e) (h : PendingOf P s)
    (hcall : ∀ i value, a = .write i value → P value) :
    PendingOf P t ∧ ∀ i value, e = some (.wrote i value) → P value := by
  cases hmove with
  | read hpc => exact ⟨h.goto nofun, nofun⟩
  | write hpc =>
      refine ⟨h.goto ?_, nofun⟩
      rintro value (heq | heq)
      · cases heq
        exact hcall _ _ rfl
      · cases heq
  | lockShared hpc hm =>
      exact ⟨PendingOf.goto (s := { s with mutex := _ }) h nofun, nofun⟩
  | lockUnique hpc hm =>
      refine ⟨PendingOf.goto (s := { s with mutex := _ }) h ?_, nofun⟩
      rintro value (heq | heq)
      · cases heq
      · cases heq
        exact h _ _ (Or.inl hpc)
  | look hpc => exact ⟨h.goto nofun, nofun⟩
  | tear hpc => exact ⟨h, nofun⟩
  | assign hpc =>
      refine ⟨PendingOf.goto (s := { s with value := _ }) h nofun, ?_⟩
      rintro i value heq
      cases heq
      exact h _ _ (Or.inr hpc)
  | unlockShared hpc =>
      exact ⟨PendingOf.goto (s := { s with mutex := _ }) h nofun, nofun⟩
  | unlock hpc =>
      exact ⟨PendingOf.goto (s := { s with mutex := _ }) h nofun, nofun⟩

/-- And every write that has taken effect. -/
def WritesOf (P : τ → Prop) (s : State ι τ ω ρ)
    (es : List (Option (Register.Event ι τ ω ρ))) : Prop :=
  PendingOf P s
    ∧ ∀ i value, .wrote i value ∈ es.flatMap Option.toList → P value

/-- What takes effect was pending, and what is pending was called with. -/
theorem WritesOf.step {P : τ → Prop} {a : Act ι τ ω ρ}
    {e : Option (Register.Event ι τ ω ρ)}
    {es : List (Option (Register.Event ι τ ω ρ))} (h : WritesOf P s es)
    (hs : (system ι τ ω ρ).step s a = some (t, e))
    (hcall : ∀ i value, a = .write i value → P value) :
    WritesOf P t (es ++ [e]) := by
  obtain ⟨hpending, hwrote⟩ := (moves_of_step hs).pendingOf h.1 hcall
  refine ⟨hpending, fun i value hm => ?_⟩
  rw [List.flatMap_append, List.mem_append] at hm
  rcases hm with hm | hm
  · exact h.2 i value hm
  · apply hwrote i value
    simpa using hm

/-- Nothing is written that no call brought. -/
theorem wrote_of {P : τ → Prop} {acts : List (Act ι τ ω ρ)}
    {es : List (Option (Register.Event ι τ ω ρ))}
    (hacts : ∀ a ∈ acts, ∀ i value, a = .write i value → P value)
    (hrun : (system ι τ ω ρ).run (init v) acts = some (t, es)) :
    ∀ i value, .wrote i value ∈ es.flatMap Option.toList → P value := by
  have halong := (system ι τ ω ρ).along_of_forall hacts (init v)
  have h := (system ι τ ω ρ).run_history_along (P := WritesOf P)
    (fun h hs hcall => h.step hs hcall) halong hrun [] ⟨nofun, nofun⟩
  exact h.2

/-- Over every interleaving of the threads' steps: the calls, in the
order in which they take effect, are a run of the atomic register, whose
value is the one in memory as soon as no assignment is under way. -/
theorem rcu_refines_register {acts : List (Act ι τ ω ρ)}
    {es : List (Option (Register.Event ι τ ω ρ))}
    (hrun : (system ι τ ω ρ).run (init v) acts = some (t, es)) :
    ∃ calls w, (Register.system ι τ ω ρ).run v calls
        = some (w, es.flatMap Option.toList)
      ∧ ((∀ i u, t.pc i ≠ .writing u) → t.value = w) := by
  obtain ⟨calls, w, hcalls, hw⟩ := holds_run hrun
  exact ⟨calls, w, hcalls, hw.value⟩

/-- Both halves of a pair. -/
def bothHalves : Reads (Nat × Nat) Nat (Nat × Nat) :=
  .look Prod.fst fun a => .look Prod.snd fun b => .done (a, b)

/-- A reader waits behind a writer that has assigned one half. -/
def readBehindWrite : List (Act Nat (Nat × Nat) Nat (Nat × Nat)) :=
  [.write 1 (7, 8), .lock 1, .read 0 bothHalves, .tear 1 (7, 2), .assign 1,
    .unlock 1, .lock 0, .look 0, .look 0, .unlock 0]

/-- A copy that is asked for during an assignment waits and sees all of it. -/
theorem rcu_refines_register_readBehindWrite :
    ∃ t es, (system Nat (Nat × Nat) Nat (Nat × Nat)).run (init (1, 2))
        readBehindWrite = some (t, es)
      ∧ ∃ calls w, (Register.system Nat (Nat × Nat) Nat (Nat × Nat)).run
          (1, 2) calls = some (w, es.flatMap Option.toList)
        ∧ ((∀ i u, t.pc i ≠ .writing u) → t.value = w) := by
  have hrun : (system Nat (Nat × Nat) Nat (Nat × Nat)).run (init (1, 2))
      readBehindWrite = some (_, _) := rfl
  exact ⟨_, _, hrun, rcu_refines_register hrun⟩

-- ============================================================ progress

/-- The steps by which calls begin. -/
def Act.isCall : Act ι τ ω ρ → Bool
  | .read _ _ | .write _ _ => true
  | _ => false

/-- From `s` the threads can reach `t` with no new call. -/
def Finishes (s t : State ι τ ω ρ) : Prop :=
  ∃ acts es, (∀ a ∈ acts, a.isCall = false)
    ∧ (system ι τ ω ρ).run s acts = some (t, es)

theorem Finishes.refl (s : State ι τ ω ρ) : Finishes s s :=
  ⟨[], [], nofun, rfl⟩

/-- Bringing to an end in stages. -/
theorem Finishes.trans {u : State ι τ ω ρ} (h : Finishes s t)
    (h' : Finishes t u) : Finishes s u := by
  obtain ⟨acts, es, hacts, hrun⟩ := h
  obtain ⟨acts', es', hacts', hrun'⟩ := h'
  refine ⟨acts ++ acts', es ++ es', ?_, (system ι τ ω ρ).run_append hrun hrun'⟩
  intro a ha
  rcases List.mem_append.1 ha with h | h
  · exact hacts a h
  · exact hacts' a h

private theorem Finishes.of_step {a : Act ι τ ω ρ}
    {e : Option (Register.Event ι τ ω ρ)} (ha : a.isCall = false)
    (hs : s.step a = some (t, e)) : Finishes s t := by
  refine ⟨[a], [e], ?_, (system ι τ ω ρ).run_of_step hs rfl⟩
  intro b hb
  rw [List.mem_singleton.1 hb]
  exact ha

/-- A run of steps keeps the relation, for some value. -/
theorem Finishes.holds (h : Finishes s t) (hs : Holds s v) :
    ∃ w, Holds t w := by
  obtain ⟨acts, es, -, hrun⟩ := h
  obtain ⟨-, w, -, hw⟩ := (system ι τ ω ρ).run_refines
    (Register.system ι τ ω ρ) Holds Option.toList
    (fun h hs => h.step (moves_of_step hs)) hs hrun
  exact ⟨w, hw⟩

/-- Thread `i` leaves, the others stay where they are. -/
def Leaves (i : ι) (s t : State ι τ ω ρ) : Prop :=
  Finishes s t ∧ t.pc i = .idle ∧ ∀ j, j ≠ i → t.pc j = s.pc j

/-- A step of `i` in front. -/
theorem Leaves.of_step {i : ι} {u : State ι τ ω ρ} {a : Act ι τ ω ρ}
    {e : Option (Register.Event ι τ ω ρ)} (ha : a.isCall = false)
    (hs : s.step a = some (t, e)) (hpc : ∀ j, j ≠ i → t.pc j = s.pc j)
    (h : Leaves i t u) : Leaves i s u := by
  obtain ⟨hfin, hidle, hothers⟩ := h
  refine ⟨(Finishes.of_step ha hs).trans hfin, hidle, fun j hj => ?_⟩
  rw [hothers j hj, hpc j hj]

/-- The last step of a call. -/
private theorem leaves_of_unlock {i : ι} {m : SharedMutex ι}
    {e : Option (Register.Event ι τ ω ρ)}
    (hs : s.step (.unlock i) = some
      (({ s with mutex := m } : State ι τ ω ρ).goto i .idle, e)) :
    ∃ t, Leaves i s t :=
  ⟨_, Finishes.of_step rfl hs, goto_self _ i _, fun _ hj => goto_ne _ hj _⟩

/-- A reader behind the lock needs nobody. -/
private theorem leaves_of_reading {i : ι} {fn rest : Reads τ ω ρ}
    (hpc : s.pc i = .reading fn rest) : ∃ t, Leaves i s t := by
  induction rest generalizing s with
  | done r =>
      apply leaves_of_unlock (m := s.mutex.unlockShared i)
        (e := some (.read i fn r))
      simp only [State.step, hpc]
  | look part next ih =>
      obtain ⟨t, ht⟩ := ih (part s.value) (goto_self s i _)
      refine ⟨t, Leaves.of_step (a := .look i) (e := none) rfl ?_
        (fun j hj => goto_ne _ hj _) ht⟩
      simp only [State.step, hpc]

/-- Nor does a writer. -/
private theorem leaves_of_written {i : ι} (hpc : s.pc i = .written) :
    ∃ t, Leaves i s t := by
  apply leaves_of_unlock (m := s.mutex.unlock) (e := none)
  simp only [State.step, hpc]

private theorem leaves_of_writing {i : ι} {value : τ}
    (hpc : s.pc i = .writing value) :
    ∃ t, Leaves i s t := by
  obtain ⟨t, ht⟩ := leaves_of_written
    (goto_self ({ s with value := value } : State ι τ ω ρ) i .written)
  refine ⟨t, Leaves.of_step (a := .assign i) (e := some (.wrote i value)) rfl
    ?_ ?_ ht⟩
  · simp only [State.step, hpc]
  · exact fun j hj => goto_ne _ hj _

/-- The readers leave one after another. -/
private theorem readers_leave (n : Nat) : ∀ {s : State ι τ ω ρ} {v : τ}, Holds
    s v →
    s.mutex.readers.card = n →
    ∃ t, Finishes s t
      ∧ ∀ j, t.pc j = if (s.pc j).shared then .idle else s.pc j := by
  -- on the number of readers: one of them finishes its call and releases
  -- the lock
  induction n with
  | zero =>
      intro s v h hcard
      refine ⟨s, Finishes.refl s, fun j => ?_⟩
      have hnone := mt (h.shared j).2
        (by rw [Finset.card_eq_zero.1 hcard]; exact Finset.notMem_empty j)
      rw [if_neg hnone]
  | succ n ih =>
      intro s v h hcard
      obtain ⟨i, hi⟩ := Finset.card_pos.1 (by omega : 0 < s.mutex.readers.card)
      have hshared := (h.shared i).1 hi
      obtain ⟨fn, rest, hpc⟩ : ∃ fn rest, s.pc i = .reading fn rest := by
        cases hp : s.pc i with
        | reading fn rest => exact ⟨fn, rest, rfl⟩
        | _ => rw [hp] at hshared; cases hshared
      obtain ⟨t, hfin, hidle, hothers⟩ := leaves_of_reading hpc
      obtain ⟨w, hw⟩ := hfin.holds h
      have hreaders : t.mutex.readers = s.mutex.readers.erase i := by
        ext j
        rw [hw.shared j, Finset.mem_erase, h.shared j]
        by_cases hj : j = i
        · subst hj
          simp [hidle, Pc.shared]
        · simp [hj, hothers j hj]
      obtain ⟨u, hu, hpcs⟩ := ih hw (by
        rw [hreaders, Finset.card_erase_of_mem hi, hcard]
        omega)
      refine ⟨u, hfin.trans hu, fun j => ?_⟩
      by_cases hj : j = i
      · subst hj
        rw [hpcs, hidle, if_pos hshared]
        rfl
      · rw [hpcs, hothers j hj]

/-- Whoever holds the lock can give it back, with the threads that wait
for it still waiting. -/
private theorem holders_leave (h : Holds s v) :
    ∃ t, Finishes s t ∧ ∀ j, t.pc j
      = if (s.pc j).unique || (s.pc j).shared then .idle else s.pc j := by
  -- a unique holder is alone; without one there are only readers
  cases hwriter : s.mutex.writer with
  | none =>
      obtain ⟨t, hfin, hpcs⟩ := readers_leave _ h rfl
      refine ⟨t, hfin, fun j => ?_⟩
      have hu : (s.pc j).unique = false := by
        rw [Bool.eq_false_iff]
        intro hu
        cases hwriter.symm.trans ((h.unique j).2 hu)
      rw [hpcs, hu, Bool.false_or]
  | some i =>
      have hu := (h.unique i).1 hwriter
      have hleaves : ∃ t, Leaves i s t := by
        cases hp : s.pc i with
        | writing value => exact leaves_of_writing hp
        | written => exact leaves_of_written hp
        | _ => rw [hp] at hu; cases hu
      obtain ⟨t, hfin, hidle, hothers⟩ := hleaves
      refine ⟨t, hfin, fun j => ?_⟩
      by_cases hj : j = i
      · subst hj
        rw [hidle, hu]
        rfl
      · obtain ⟨hju, hjs⟩ := h.alone hu hj
        rw [hothers j hj, hju, hjs]
        rfl

/-- A thread at a free lock. -/
theorem leaves_of_free (hw : s.mutex.writer = none)
    (hr : s.mutex.readers = ∅) {i : ι}
    (hi : (s.pc i).unique = false ∧ (s.pc i).shared = false) :
    ∃ t, Leaves i s t := by
  cases hpc : s.pc i with
  | idle => exact ⟨s, Finishes.refl s, hpc, fun _ _ => rfl⟩
  | lockShared fn =>
      obtain ⟨m, hm⟩ := SharedMutex.lockShared_of_free hw i
      obtain ⟨t, ht⟩ := leaves_of_reading
        (goto_self ({ s with mutex := m } : State ι τ ω ρ) i (.reading fn fn))
      refine ⟨t, Leaves.of_step (a := .lock i) (e := none) rfl ?_ ?_ ht⟩
      · simp only [State.step, hpc, hm]
        rfl
      · exact fun j hj => goto_ne _ hj _
  | lockUnique value =>
      obtain ⟨m, hm⟩ := SharedMutex.lock_of_free hw hr i
      obtain ⟨t, ht⟩ := leaves_of_writing
        (goto_self ({ s with mutex := m } : State ι τ ω ρ) i (.writing value))
      refine ⟨t, Leaves.of_step (a := .lock i) (e := none) rfl ?_ ?_ ht⟩
      · simp only [State.step, hpc, hm]
        rfl
      · exact fun j hj => goto_ne _ hj _
  | reading fn rest => rw [hpc] at hi; cases hi.2
  | writing value => rw [hpc] at hi; cases hi.1
  | written => rw [hpc] at hi; cases hi.1

/-- A call under way can be finished with no new call. -/
theorem Holds.finishes (h : Holds s v) (i : ι) :
    ∃ t, Finishes s t ∧ t.pc i = .idle := by
  obtain ⟨u, hu, hpcs⟩ := holders_leave h
  obtain ⟨w, hw⟩ := hu.holds h
  have hout : ∀ j, (u.pc j).unique = false ∧ (u.pc j).shared = false := by
    intro j
    rw [hpcs]
    split
    · exact ⟨rfl, rfl⟩
    · next hnone => simpa using hnone
  obtain ⟨hwriter, hreaders⟩ := hw.free hout
  obtain ⟨t, hfin, hidle, -⟩ := leaves_of_free hwriter hreaders (hout i)
  exact ⟨t, hu.trans hfin, hidle⟩

/-- Over every interleaving nobody is stuck: whatever the threads have
done, any one of them can be brought out of its call by steps of the
calls under way. -/
theorem rcu_deadlock_free {acts : List (Act ι τ ω ρ)}
    {es : List (Option (Register.Event ι τ ω ρ))}
    (hrun : (system ι τ ω ρ).run (init v) acts = some (t, es)) (i : ι) :
    ∃ acts' u es', (∀ a ∈ acts', a.isCall = false)
      ∧ (system ι τ ω ρ).run t acts' = some (u, es') ∧ u.pc i = .idle := by
  obtain ⟨-, w, -, hw⟩ := holds_run hrun
  obtain ⟨u, ⟨acts', es', hacts, hu⟩, hidle⟩ := hw.finishes i
  exact ⟨acts', u, es', hacts, hu, hidle⟩

/-- A writer waits for two readers, one of them inside its body. -/
def writeBehindReads : List (Act Nat (Nat × Nat) Nat (Nat × Nat)) :=
  [.read 0 bothHalves, .read 2 bothHalves, .write 1 (7, 8), .lock 0, .lock 2,
    .look 2]

/-- The writer waits for two readers, and gets through. -/
theorem rcu_deadlock_free_writeBehindReads :
    ∃ t es, (system Nat (Nat × Nat) Nat (Nat × Nat)).run (init (1, 2))
        writeBehindReads = some (t, es) ∧ t.mutex.readers = {0, 2}
      ∧ ∃ acts' u es', (∀ a ∈ acts', a.isCall = false)
        ∧ (system Nat (Nat × Nat) Nat (Nat × Nat)).run t acts'
          = some (u, es') ∧ u.pc 1 = .idle := by
  have hrun : (system Nat (Nat × Nat) Nat (Nat × Nat)).run (init (1, 2))
      writeBehindReads = some (_, _) := rfl
  exact ⟨_, _, hrun, by decide, rcu_deadlock_free hrun 1⟩

end Vnic.Rcu
