/-
The atomic register: a shared value whose reads and writes are one step
each, the abstract object that a lock around a value implements.

# What a read is

The body of a read is a program over the value: `Reads` looks at one part
of it at a time, and what it sees decides how it goes on. `Reads.eval` is
its result on a value that stays put. On a value that changes between two
looks the result may be that of no value at all, which is what the
implementation has to exclude.
-/
import Vnic.Lib.StepSystem

/-- A body that looks at parts of a value of `τ` and returns a `ρ`. -/
inductive Reads (τ ω ρ : Type)
  | done (r : ρ)
  | look (part : τ → ω) (next : ω → Reads τ ω ρ)

/-- The result on a value that nobody changes. -/
def Reads.eval {τ ω ρ : Type} (v : τ) : Reads τ ω ρ → ρ
  | .done r => r
  | .look part next => (next (part v)).eval v

namespace Register

variable (ι τ ω ρ : Type)

/-- A call on the register, by thread `i`. -/
inductive Call
  | read (i : ι) (fn : Reads τ ω ρ)
  | write (i : ι) (value : τ)

/-- A call with what it returned. -/
inductive Event
  | read (i : ι) (fn : Reads τ ω ρ) (r : ρ)
  | wrote (i : ι) (value : τ)

/-- One call is one step. -/
def system : StepSystem τ (Call ι τ ω ρ) (Event ι τ ω ρ) where
  step v
    | .read i fn => some (v, .read i fn (fn.eval v))
    | .write i value => some (value, .wrote i value)

variable {ι τ ω ρ}

/-- The value after the writes among `es`. -/
def last (v : τ) : List (Event ι τ ω ρ) → τ
  | [] => v
  | .read _ _ _ :: es => last v es
  | .wrote _ value :: es => last value es

/-- What `es` show are the calls of a register that held `v`: each read
returns its body's result on the value last written. -/
def Atomic (v : τ) : List (Event ι τ ω ρ) → Prop
  | [] => True
  | .read _ fn r :: es => r = fn.eval v ∧ Atomic v es
  | .wrote _ value :: es => Atomic value es

/-- What a run of the register shows. -/
theorem run_atomic {v w : τ} {calls : List (Call ι τ ω ρ)}
    {es : List (Event ι τ ω ρ)}
    (hrun : (system ι τ ω ρ).run v calls = some (w, es)) :
    Atomic v es ∧ w = last v es := by
  induction calls generalizing v es with
  | nil =>
      simp only [StepSystem.run_nil, Option.some.injEq, Prod.mk.injEq] at hrun
      obtain ⟨rfl, rfl⟩ := hrun
      exact ⟨trivial, rfl⟩
  | cons a rest ih =>
      obtain ⟨v₁, e, es', hs, hr, rfl⟩ := (system ι τ ω ρ).run_cons hrun
      obtain ⟨hatomic, hlast⟩ := ih hr
      cases a with
      | read i fn =>
          cases hs
          exact ⟨⟨rfl, hatomic⟩, hlast⟩
      | write i value =>
          cases hs
          exact ⟨hatomic, hlast⟩

/-- The last calls go on where the first ones ended. -/
theorem atomic_append {v : τ} {es fs : List (Event ι τ ω ρ)} :
    Atomic v (es ++ fs) ↔ Atomic v es ∧ Atomic (last v es) fs := by
  induction es generalizing v with
  | nil => simp [Atomic, last]
  | cons e es ih =>
      cases e with
      | read i fn r =>
          simp only [List.cons_append, Atomic, last]
          rw [ih, and_assoc]
      | wrote i value =>
          simp only [List.cons_append, Atomic, last]
          exact ih

/-- The register holds its first value or one that was written. -/
theorem last_of {P : τ → Prop} {v : τ} {es : List (Event ι τ ω ρ)} (hv : P v)
    (hes : ∀ i value, Event.wrote i value ∈ es → P value) :
    P (last v es) := by
  induction es generalizing v with
  | nil => exact hv
  | cons e es ih =>
      have hrest : ∀ i value, Event.wrote i value ∈ es → P value :=
        fun i value hm => hes i value (List.mem_cons_of_mem _ hm)
      cases e with
      | read i fn r => exact ih hv hrest
      | wrote i value => exact ih (hes i value (List.mem_cons_self ..)) hrest

end Register
