/-
`utils::Stateful` under many threads: the same three calls as in
`Vnic.Fifo`, with every access to `state_` a step of its own.

# Steps

A thread inside a call stands at a `Pc`. `tick` performs its next access
to `state_`: one compare-exchange (the multi-expectation form is a loop of
single ones, so it takes several ticks), or one store. `implReturn` ends
the thread's `*Impl` with a result; between entering and leaving an
`*Impl` any steps of other threads may happen. A successful `start`
returns without a store: `Started` was published before `startImpl` ran.
-/
import Mathlib.Logic.Function.Basic
import Vnic.Fifo
import Vnic.Lib.StepSystem

namespace Vnic

/-- The three lifecycle calls. -/
inductive Call
  | configure
  | start
  | stop
  deriving DecidableEq, Repr

/-- Where a thread is inside a lifecycle call. -/
inductive Pc
  /-- In no call. -/
  | idle
  /-- `configure`: the expectations still to be tried. -/
  | configureCas (expected : List State)
  /-- Inside `configureImpl`. -/
  | configureImpl
  /-- `configureImpl` returned; the store of its verdict is next. -/
  | configureStore (ok : Bool)
  /-- `start`: the exchange is next. -/
  | startCas
  /-- The exchange won; the store of `Started` is next. -/
  | startPublish
  /-- Inside `startImpl`. -/
  | startImpl
  /-- `startImpl` failed; the store of `Error` is next. -/
  | startStore
  /-- `stop`: the exchange is next. -/
  | stopCas
  /-- Inside `stopImpl`. -/
  | stopImpl
  /-- `stopImpl` returned; the store of its verdict is next. -/
  | stopStore (ok : Bool)
  deriving DecidableEq, Repr

/-- Whether one of the three `*Impl` is in progress at `pc`. -/
def Pc.InImpl (pc : Pc) : Prop :=
  pc = .configureImpl ∨ pc = .startImpl ∨ pc = .stopImpl

instance (pc : Pc) : Decidable pc.InImpl :=
  inferInstanceAs (Decidable (_ ∨ _ ∨ _))

/-- One object and the threads that call it. -/
structure Lifecycle (ι : Type) where
  state : State := .stopped
  pc : ι → Pc := fun _ => .idle

namespace Lifecycle

variable {ι : Type} [DecidableEq ι]

/-- One atomic step of thread `i`. -/
inductive Op (ι : Type)
  | call (i : ι) (c : Call)
  | tick (i : ι)
  | implReturn (i : ι) (ok : Bool)

/-- What a step shows: a call returning. -/
inductive Event (ι : Type)
  | silent
  | ret (i : ι) (c : Call) (ok : Bool)
  deriving DecidableEq

/-- Move thread `i` and set the state. -/
def move (s : Lifecycle ι) (i : ι) (pc : Pc) (state : State) : Lifecycle ι :=
  { state := state, pc := Function.update s.pc i pc }

/-- The entry point of a call. -/
def entry : Call → Pc
  | .configure => .configureCas [.stopped, .configured, .error]
  | .start => .startCas
  | .stop => .stopCas

/-- Thread `i`'s next access to `state_`. -/
def tick (s : Lifecycle ι) (i : ι) : Option (Lifecycle ι × Event ι) :=
  match s.pc i with
  | .configureCas (expected :: rest) =>
      if s.state = expected then
        some (s.move i .configureImpl .configuring, .silent)
      else some (s.move i (.configureCas rest) s.state, .silent)
  | .configureCas [] =>
      some (s.move i .idle s.state, .ret i .configure false)
  | .configureStore true =>
      some (s.move i .idle .configured, .ret i .configure true)
  | .configureStore false =>
      some (s.move i .idle .error, .ret i .configure false)
  | .startCas =>
      if s.state = .configured then
        some (s.move i .startPublish .starting, .silent)
      else some (s.move i .idle s.state, .ret i .start false)
  | .startPublish => some (s.move i .startImpl .started, .silent)
  | .startStore => some (s.move i .idle .error, .ret i .start false)
  | .stopCas =>
      if s.state = .started then
        some (s.move i .stopImpl .stopping, .silent)
      else some (s.move i .idle s.state, .ret i .stop false)
  | .stopStore true => some (s.move i .idle .stopped, .ret i .stop true)
  | .stopStore false => some (s.move i .idle .error, .ret i .stop false)
  | .idle => none
  | .configureImpl => none
  | .startImpl => none
  | .stopImpl => none

/-- Thread `i`'s `*Impl` returns. -/
def implReturn (s : Lifecycle ι) (i : ι) (ok : Bool) :
    Option (Lifecycle ι × Event ι) :=
  match s.pc i with
  | .configureImpl => some (s.move i (.configureStore ok) s.state, .silent)
  | .startImpl =>
      if ok then some (s.move i .idle s.state, .ret i .start true)
      else some (s.move i .startStore s.state, .silent)
  | .stopImpl => some (s.move i (.stopStore ok) s.state, .silent)
  | _ => none

/-- Perform one atomic step. -/
def step (s : Lifecycle ι) : Op ι → Option (Lifecycle ι × Event ι)
  | .call i c =>
      match s.pc i with
      | .idle => some (s.move i (entry c) s.state, .silent)
      | _ => none
  | .tick i => s.tick i
  | .implReturn i ok => s.implReturn i ok

end Lifecycle

/-- The lifecycle automaton shared by the threads `ι`. -/
def lifecycle (ι : Type) [DecidableEq ι] :
    StepSystem (Lifecycle ι) (Lifecycle.Op ι) (Lifecycle.Event ι) where
  step := Lifecycle.step

end Vnic
