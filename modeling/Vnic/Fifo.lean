/-
`Fifo<T>` as a queue of elements with a logical capacity, and the CRTP
base `utils::Stateful` as operations over any object that carries a
lifecycle state.

# Fifo

Every entry point of the source takes the queue's mutex for its whole
body, so one call is one atomic step and the model is a function. A
capacity of `0` means unbounded. `pop` stands for the timed and for the
blocking form: `none` is "no element before the timeout" for the first
and "would wait" for the second.

# Stateful

`configure`, `start` and `stop` are written once over the class
`Stateful`, with the derived class's `*Impl` as an argument, exactly as
the CRTP base calls `self().configureImpl(..)`. This is the sequential
reading (one call at a time); the reading with many threads, where the
compare-exchange and the stores are separate steps, is
`Vnic.Lifecycle`.
-/
import Vnic.Basic

namespace Vnic

-- ================================================================ Fifo

/-- `Fifo::Config`. -/
structure Fifo.Config where
  capacity : Nat := 0
  socketId : UInt32 := 0
  deriving DecidableEq, Repr

/-- `Fifo<T>`: the queued elements, front first. -/
structure Fifo (α : Type) where
  queue : List α := []
  config : Fifo.Config := {}
  deriving DecidableEq, Repr

namespace Fifo

variable {α : Type}

/-- `isFullLocked()`. -/
def isFullLocked (f : Fifo α) : Bool :=
  f.config.capacity != 0 && decide (f.config.capacity ≤ f.queue.length)

/-- `isEmpty()`. -/
def isEmpty (f : Fifo α) : Bool := f.queue.isEmpty

/-- `push(value)`. -/
def push (f : Fifo α) (value : α) : Fifo α × Res :=
  if f.isFullLocked then (f, .error .queueFull)
  else ({ f with queue := f.queue ++ [value] }, .ok ())

/-- The loop of `pushAll`: stores until the queue is full; the flag is
the local `full`. -/
def pushAllLoop (f : Fifo α) : List α → Fifo α × Bool
  | [] => (f, false)
  | item :: rest =>
      if f.isFullLocked then (f, true)
      else pushAllLoop { f with queue := f.queue ++ [item] } rest

/-- `pushAll(data)`: what fits is stored even when the call fails. -/
def pushAll (f : Fifo α) (data : List α) : Fifo α × Res :=
  match f.pushAllLoop data with
  | (f', true) => (f', .error .queueFull)
  | (f', false) => (f', .ok ())

/-- `pop(timeout)` and `pop()`. -/
def pop (f : Fifo α) : Option α × Fifo α :=
  match f.queue with
  | [] => (none, f)
  | value :: rest => (some value, { f with queue := rest })

/-- `tryPopSome(std::span<T, N>)` for a span of exactly `n` elements: at
most `n` elements, never waiting. -/
def tryPopSome (f : Fifo α) (n : Nat) : List α × Fifo α :=
  (f.queue.take n, { f with queue := f.queue.drop n })

/-- `configure(config)`: `Config::isValid()` is constantly true. -/
def configure (f : Fifo α) (config : Config) : Fifo α × Res :=
  ({ f with config := config }, .ok ())

/-- `reserve(capacity)`. -/
def reserve (f : Fifo α) (capacity : Nat) : Fifo α :=
  { f with config := { f.config with capacity := capacity } }

-- ---------------------------------------------------------- push facts

theorem isFullLocked_iff {f : Fifo α} :
    f.isFullLocked = true
      ↔ f.config.capacity ≠ 0 ∧ f.config.capacity ≤ f.queue.length := by
  simp [isFullLocked]

theorem push_of_full {f : Fifo α} (h : f.isFullLocked = true) (x : α) :
    f.push x = (f, .error .queueFull) := by
  simp [push, h]

theorem push_of_room {f : Fifo α} (h : f.isFullLocked = false) (x : α) :
    f.push x = ({ f with queue := f.queue ++ [x] }, .ok ()) := by
  simp [push, h]

theorem isFullLocked_eq_false_of_lt {f : Fifo α}
    (h : f.queue.length < f.config.capacity) :
    f.isFullLocked = false := by
  rw [Bool.eq_false_iff]
  intro hfull
  have := (isFullLocked_iff.1 hfull).2
  omega

@[simp]
theorem push_config (f : Fifo α) (x : α) : (f.push x).1.config = f.config := by
  unfold push
  split <;> rfl

@[simp]
theorem pushAllLoop_config (f : Fifo α) (xs : List α) :
    (f.pushAllLoop xs).1.config = f.config := by
  induction xs generalizing f with
  | nil => rfl
  | cons x xs ih =>
      unfold pushAllLoop
      split
      · rfl
      · rw [ih]

theorem pushAll_fst (f : Fifo α) (xs : List α) :
    (f.pushAll xs).1 = (f.pushAllLoop xs).1 := by
  unfold pushAll
  split <;> simp_all

@[simp]
theorem pushAll_config (f : Fifo α) (xs : List α) :
    (f.pushAll xs).1.config = f.config := by
  rw [pushAll_fst, pushAllLoop_config]

/-- With room for all of it the whole batch is stored. -/
theorem pushAllLoop_of_room (f : Fifo α) (xs : List α)
    (h : f.queue.length + xs.length ≤ f.config.capacity) :
    f.pushAllLoop xs = ({ f with queue := f.queue ++ xs }, false) := by
  induction xs generalizing f with
  | nil => simp [pushAllLoop]
  | cons x xs ih =>
      rw [List.length_cons] at h
      have hroom : f.isFullLocked = false :=
        isFullLocked_eq_false_of_lt (by omega)
      unfold pushAllLoop
      simp only [hroom, Bool.false_eq_true, if_false]
      rw [ih _ (by simp; omega)]
      simp

theorem pushAll_of_room (f : Fifo α) (xs : List α)
    (h : f.queue.length + xs.length ≤ f.config.capacity) :
    f.pushAll xs = ({ f with queue := f.queue ++ xs }, .ok ()) := by
  simp [pushAll, pushAllLoop_of_room f xs h]

end Fifo

-- ============================================================ Stateful

/-- `Stateful::State`. -/
inductive State
  | configuring
  | configured
  | starting
  | started
  | stopping
  | stopped
  | error
  deriving DecidableEq, Repr

/-- An object that carries a lifecycle state, as the CRTP base does. -/
class Stateful (σ : Type) where
  getState : σ → State
  setState : State → σ → σ
  getState_setState : ∀ st s, getState (setState st s) = st

attribute [simp] Stateful.getState_setState

namespace Stateful

variable {σ : Type} [Stateful σ]

/-- An object used together with the memory it allocates from keeps its
state. -/
instance {μ : Type} : Stateful (μ × σ) where
  getState s := getState s.2
  setState st s := (s.1, setState st s.2)
  getState_setState st s := getState_setState st s.2

/-- `cas(expected, newState)` when no other thread intervenes. -/
def cas (expected newState : State) (s : σ) : Option σ :=
  if getState s = expected then some (setState newState s) else none

/-- `cas(std::span expected, newState)`: each expectation in turn. -/
def casAny : List State → State → σ → Option σ
  | [], _, _ => none
  | expected :: rest, newState, s =>
      match cas expected newState s with
      | some s' => some s'
      | none => casAny rest newState s

/-- `configure(args...)`. -/
def configure (configureImpl : σ → σ × Res) (s : σ) : σ × Res :=
  match casAny [.stopped, .configured, .error] .configuring s with
  | none => (s, .error .stateConfigureNotAllowed)
  | some s =>
      match configureImpl s with
      | (s, .error e) => (setState .error s, .error e)
      | (s, .ok ()) => (setState .configured s, .ok ())

/-- `start(args...)`: `Started` is published before `startImpl` runs. -/
def start (startImpl : σ → σ × Res) (s : σ) : σ × Res :=
  match cas .configured .starting s with
  | none => (s, .error .stateStartNotAllowed)
  | some s =>
      match startImpl (setState .started s) with
      | (s, .error e) => (setState .error s, .error e)
      | (s, .ok ()) => (s, .ok ())

/-- `stop(args...)`. -/
def stop (stopImpl : σ → σ × Res) (s : σ) : σ × Res :=
  match cas .started .stopping s with
  | none => (s, .error .stateStopNotAllowed)
  | some s =>
      match stopImpl s with
      | (s, .error e) => (setState .error s, .error e)
      | (s, .ok ()) => (setState .stopped s, .ok ())

/-- The states `configure` may leave from. -/
def Configurable (st : State) : Prop :=
  st = .stopped ∨ st = .configured ∨ st = .error

instance (st : State) : Decidable (Configurable st) :=
  inferInstanceAs (Decidable (_ ∨ _ ∨ _))

theorem Configurable.ne_started {st : State} (h : Configurable st) :
    st ≠ .started := by
  rintro rfl
  rcases h with h | h | h <;> cases h

/-- What `configure` can do: refuse and change nothing, or run
`configureImpl` and publish its verdict. -/
theorem configure_cases (impl : σ → σ × Res) (s : σ) :
    (¬ Configurable (getState s)
      ∧ configure impl s = (s, .error .stateConfigureNotAllowed))
    ∨ (Configurable (getState s)
      ∧ ((∃ t, impl (setState .configuring s) = (t, .ok ())
            ∧ configure impl s = (setState .configured t, .ok ()))
        ∨ ∃ t e, impl (setState .configuring s) = (t, .error e)
            ∧ configure impl s = (setState .error t, .error e))) := by
  by_cases hc : Configurable (getState s)
  · refine Or.inr ⟨hc, ?_⟩
    have hcas : casAny [.stopped, .configured, .error] .configuring s
        = some (setState .configuring s) := by
      rcases hc with h | h | h <;> simp [casAny, cas, h]
    unfold configure
    rw [hcas]
    cases himpl : impl (setState .configuring s) with
    | mk t r =>
        cases r with
        | ok u => exact Or.inl ⟨t, rfl, by simp [himpl]⟩
        | error e => exact Or.inr ⟨t, e, rfl, by simp [himpl]⟩
  · refine Or.inl ⟨hc, ?_⟩
    have hcas : casAny [.stopped, .configured, .error] .configuring s
        = none := by
      simp only [Configurable, not_or] at hc
      simp [casAny, cas, hc.1, hc.2.1, hc.2.2]
    simp [configure, hcas]

/-- What `start` can do. -/
theorem start_cases (impl : σ → σ × Res) (s : σ) :
    (getState s ≠ .configured
      ∧ start impl s = (s, .error .stateStartNotAllowed))
    ∨ (getState s = .configured
      ∧ ((∃ t, impl (setState .started (setState .starting s)) = (t, .ok ())
            ∧ start impl s = (t, .ok ()))
        ∨ ∃ t e, impl (setState .started (setState .starting s))
              = (t, .error e)
            ∧ start impl s = (setState .error t, .error e))) := by
  by_cases hc : getState s = .configured
  · refine Or.inr ⟨hc, ?_⟩
    unfold start
    rw [cas, if_pos hc]
    cases himpl : impl (setState .started (setState .starting s)) with
    | mk t r =>
        cases r with
        | ok u => exact Or.inl ⟨t, rfl, by simp [himpl]⟩
        | error e => exact Or.inr ⟨t, e, rfl, by simp [himpl]⟩
  · exact Or.inl ⟨hc, by simp [start, cas, hc]⟩

/-- What `stop` can do. -/
theorem stop_cases (impl : σ → σ × Res) (s : σ) :
    (getState s ≠ .started
      ∧ stop impl s = (s, .error .stateStopNotAllowed))
    ∨ (getState s = .started
      ∧ ((∃ t, impl (setState .stopping s) = (t, .ok ())
            ∧ stop impl s = (setState .stopped t, .ok ()))
        ∨ ∃ t e, impl (setState .stopping s) = (t, .error e)
            ∧ stop impl s = (setState .error t, .error e))) := by
  by_cases hc : getState s = .started
  · refine Or.inr ⟨hc, ?_⟩
    unfold stop
    rw [cas, if_pos hc]
    cases himpl : impl (setState .stopping s) with
    | mk t r =>
        cases r with
        | ok u => exact Or.inl ⟨t, rfl, by simp [himpl]⟩
        | error e => exact Or.inr ⟨t, e, rfl, by simp [himpl]⟩
  · exact Or.inl ⟨hc, by simp [stop, cas, hc]⟩

end Stateful

end Vnic
