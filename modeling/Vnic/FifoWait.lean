/-
`Fifo<T>` between threads, with its condition variable.

# Steps

The mutex is held from the moment a call finds it free to the moment the
call waits or returns, and nobody else sees the queue in between, so that
this is one step (`enter`, `expire`). Waiting gives the mutex up and puts
the thread among the `sleepers` of the condition variable in the same
moment. What the code does outside the mutex are steps of their own: a
push notifies after it has given the mutex back, so that any number of
other calls may come between an element and its notification.

A sleeper wakes because it is notified, because its timeout has passed, or
for no reason (`wake`). It has then to take the mutex again like any
caller, and looks at the queue only when it has it. `expire` is a timed
wait that finds its timeout passed and the queue empty.
-/
import Vnic.FifoSystem
import Mathlib.Data.Finset.Insert
import Mathlib.Data.Finset.Erase

namespace Vnic.Fifo

/-- The calls that wait for an element. -/
def Call.waits {α : Type} : Call α → Bool
  | .pop | .popFor | .popSomeVector _ | .popSomeVectorFor _
  | .popSomeSpan _ _ | .popSomeSpanFor _ _ => true
  | _ => false

/-- Those that wait for some time only. -/
def Call.timed {α : Type} : Call α → Bool
  | .popFor | .popSomeVectorFor _ | .popSomeSpanFor _ _ => true
  | _ => false

namespace Wait

/-- Where a thread is: outside, before the mutex or asleep in a call, or
about to notify. -/
inductive Pc (α : Type)
  | idle
  | entering (c : Call α)
  | notifyOne
  | notifyAll

/-- What a call does once it has given the mutex back. -/
def after {α : Type} : Call α → Answer α → Pc α
  | .emplace _, .result (.ok ()) => .notifyOne
  | .pushCopy _, .result (.ok ()) => .notifyOne
  | .pushMove _, .result (.ok ()) => .notifyOne
  | .pushAll _, _ => .notifyAll
  | .pushSome _, _ => .notifyAll
  | _, _ => .idle

/-- The queue, who sleeps on the condition variable, and the threads. -/
structure State (ι α : Type) where
  fifo : Fifo α := {}
  sleepers : Finset ι := ∅
  pc : ι → Pc α := fun _ => .idle

/-- What a thread does next. `notifyOne` wakes a sleeper of the system's
choice. -/
inductive Act (ι α : Type)
  | call (i : ι) (c : Call α)
  | enter (i : ι)
  | expire (i : ι)
  | wake (i : ι)
  | notifyOne (i : ι) (woken : ι)
  | notifyNobody (i : ι)
  | notifyAll (i : ι)

variable {ι α : Type} [DecidableEq ι]

namespace State

/-- Thread `i` goes on at `p`. -/
def goto (s : State ι α) (i : ι) (p : Pc α) : State ι α :=
  { s with pc := fun j => if j = i then p else s.pc j }

/-- The call is made with the mutex held, by a thread that is awake. -/
def perform (s : State ι α) (i : ι) (c : Call α) :
    Option (State ι α × Option (Event α)) :=
  match s.fifo.call c with
  | .returns (g, answer) =>
      some (({ s with fifo := g } : State ι α).goto i (after c answer),
        some ⟨c, some answer, g.queue.length - s.fifo.queue.length⟩)
  | .waits => none
  | .outside _ => none

/-- One step; the event is the call, where the call takes effect. -/
def step (s : State ι α) : Act ι α →
    Option (State ι α × Option (Event α))
  | .call i c =>
      match s.pc i with
      | .idle => some (s.goto i (.entering c), none)
      | _ => none
  | .enter i =>
      match s.pc i with
      | .entering c =>
          if i ∈ s.sleepers then none
          else if c.waits && s.fifo.isEmpty then
            some ({ s with sleepers := insert i s.sleepers }, none)
          else s.perform i c
      | _ => none
  | .expire i =>
      match s.pc i with
      | .entering c =>
          if c.timed && s.fifo.isEmpty then
            ({ s with sleepers := s.sleepers.erase i } : State ι α).perform i c
          else none
      | _ => none
  | .wake i =>
      if i ∈ s.sleepers then
        some ({ s with sleepers := s.sleepers.erase i }, none)
      else none
  | .notifyOne i woken =>
      match s.pc i with
      | .notifyOne =>
          if woken ∈ s.sleepers then
            some (({ s with sleepers := s.sleepers.erase woken } :
              State ι α).goto i .idle, none)
          else none
      | _ => none
  | .notifyNobody i =>
      match s.pc i with
      | .notifyOne =>
          if s.sleepers = ∅ then some (s.goto i .idle, none) else none
      | _ => none
  | .notifyAll i =>
      match s.pc i with
      | .notifyAll =>
          some (({ s with sleepers := ∅ } : State ι α).goto i .idle, none)
      | _ => none

end State

/-- The threads of one queue, in any order of their steps. -/
def system (ι α : Type) [DecidableEq ι] :
    StepSystem (State ι α) (Act ι α) (Option (Event α)) where
  step := State.step

end Wait

end Vnic.Fifo
