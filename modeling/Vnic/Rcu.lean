/-
`Rcu<T>` (utils/rcu.h) under any number of threads, at the granularity of
its lock and of the memory behind it.

# Steps

A call of `read` takes the shared lock, runs its body on the value, one
look at a time, and gives the lock back; `snapshot` is a read whose body
copies the value. A call of `write` takes the unique lock, assigns and
gives the lock back. The assignment of a value that is not one machine
word is not one step: until it ends the value may be anything (`tear`, any
number of times), and its last step leaves the value that was to be
written. The two overloads of `write` differ in what they leave of their
argument, not in what they store.

Nothing in a step says that a look and an assignment cannot meet: that is
what the lock is for, and what is proved of the runs.
-/
import Vnic.Lib.Register
import Vnic.Lib.SharedMutex

namespace Vnic.Rcu

/-- Where a thread is: outside, waiting for the lock, or behind it. A
reader keeps the body it was called with beside what is left of it. -/
inductive Pc (τ ω ρ : Type)
  | idle
  | lockShared (fn : Reads τ ω ρ)
  | reading (fn rest : Reads τ ω ρ)
  | lockUnique (value : τ)
  | writing (value : τ)
  | written

/-- The guarded value, the mutex and the threads. -/
structure State (ι τ ω ρ : Type) where
  value : τ
  mutex : SharedMutex ι
  pc : ι → Pc τ ω ρ

/-- What a thread does next. -/
inductive Act (ι τ ω ρ : Type)
  | read (i : ι) (fn : Reads τ ω ρ)
  | write (i : ι) (value : τ)
  | lock (i : ι)
  | look (i : ι)
  | tear (i : ι) (value : τ)
  | assign (i : ι)
  | unlock (i : ι)

variable {ι τ ω ρ : Type} [DecidableEq ι]

/-- `Rcu(value)`: nobody is inside. -/
def init (value : τ) : State ι τ ω ρ where
  value := value
  mutex := {}
  pc := fun _ => .idle

namespace State

/-- Thread `i` goes on at `p`. -/
def goto (s : State ι τ ω ρ) (i : ι) (p : Pc τ ω ρ) : State ι τ ω ρ :=
  { s with pc := fun j => if j = i then p else s.pc j }

/-- One step; the event is the call, where the call takes effect. -/
def step (s : State ι τ ω ρ) : Act ι τ ω ρ →
    Option (State ι τ ω ρ × Option (Register.Event ι τ ω ρ))
  | .read i fn =>
      match s.pc i with
      | .idle => some (s.goto i (.lockShared fn), none)
      | _ => none
  | .write i value =>
      match s.pc i with
      | .idle => some (s.goto i (.lockUnique value), none)
      | _ => none
  | .lock i =>
      match s.pc i with
      | .lockShared fn =>
          (s.mutex.lockShared i).map fun m =>
            (({ s with mutex := m } : State ι τ ω ρ).goto i
              (.reading fn fn), none)
      | .lockUnique value =>
          (s.mutex.lock i).map fun m =>
            (({ s with mutex := m } : State ι τ ω ρ).goto i
              (.writing value), none)
      | _ => none
  | .look i =>
      match s.pc i with
      | .reading fn (.look part next) =>
          some (s.goto i (.reading fn (next (part s.value))), none)
      | _ => none
  | .tear i value =>
      match s.pc i with
      | .writing _ => some ({ s with value := value }, none)
      | _ => none
  | .assign i =>
      match s.pc i with
      | .writing value =>
          some (({ s with value := value } : State ι τ ω ρ).goto i .written,
            some (.wrote i value))
      | _ => none
  | .unlock i =>
      match s.pc i with
      | .reading fn (.done r) =>
          some (({ s with mutex := s.mutex.unlockShared i } :
            State ι τ ω ρ).goto i .idle, some (.read i fn r))
      | .written =>
          some (({ s with mutex := s.mutex.unlock } :
            State ι τ ω ρ).goto i .idle, none)
      | _ => none

end State

/-- The threads of one `Rcu`, in any order of their steps. -/
def system (ι τ ω ρ : Type) [DecidableEq ι] :
    StepSystem (State ι τ ω ρ) (Act ι τ ω ρ)
      (Option (Register.Event ι τ ω ρ)) where
  step := State.step

end Vnic.Rcu
