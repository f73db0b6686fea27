/-
The entry points of `Fifo<T>` that `Vnic.Fifo` leaves out, and one queue
shared by any number of callers.

# Waiting

`pop` and `popSome` wait on the condition variable until the queue has an
element, the timed forms at most until their timeout. Waiting gives the
mutex up, and the predicate is evaluated again with the mutex held, so
that a call takes its whole effect at the moment its wait ends: a timed
call either finds an element then or finds none, a blocking one finds an
element or goes on waiting. `Outcome.waits` is the second case; the call
has changed nothing and comes again.

# Spans

A batch pop writes into memory of its caller. `Span` is `std::span<T, N>`
with the elements it covers; `N` is their number, or `std::dynamic_extent`
where the number is known at run time only. The loop of the three batch
pops is bounded by `N`. A write behind the last element has no meaning in
the language, so that the run ends there (`Outcome.outside`).

# The system

One call is one step, by whichever thread. A call that waits is a step
that changes nothing, so every order in which the mutex can be taken is a
list of calls.
-/
import Vnic.Fifo
import Vnic.Lib.StepSystem

namespace Vnic.Fifo

/-- How a call on a queue comes out. -/
inductive Outcome (β : Type)
  | waits
  | outside (index : Nat)
  | returns (value : β)
  deriving DecidableEq, Repr

/-- What is returned, changed by `g`. -/
def Outcome.map {β γ : Type} (g : β → γ) : Outcome β → Outcome γ
  | .waits => .waits
  | .outside index => .outside index
  | .returns value => .returns (g value)

-- =============================================================== spans

/-- `std::dynamic_extent`. -/
def dynamicExtent : Nat := 2 ^ 64 - 1

/-- `std::span<T, N>`: the template argument and the elements covered.
No object has as many elements as `std::dynamic_extent`. -/
structure Span (α : Type) where
  extent : Nat
  elements : List α
  size_lt : elements.length < dynamicExtent
  extent_eq : extent = dynamicExtent ∨ extent = elements.length

namespace Span

variable {α : Type}

/-- `size()`. -/
def size (buffer : Span α) : Nat := buffer.elements.length

/-- The extent is part of the type. -/
def Fixed (buffer : Span α) : Prop := buffer.extent ≠ dynamicExtent

instance (buffer : Span α) : Decidable buffer.Fixed :=
  inferInstanceAs (Decidable (_ ≠ _))

end Span

variable {α : Type}

-- ============================================================== pushes

/-- `emplace(args...)`: the element is constructed in place. -/
def emplace {β : Type} (f : Fifo α) (construct : β → α) (args : β) :
    Fifo α × Res :=
  f.push (construct args)

/-- The loop of `pushSome`; `pushed` is the local of that name. -/
def pushSomeLoop (f : Fifo α) (pushed : Nat) : List α → Fifo α × Nat
  | [] => (f, pushed)
  | item :: rest =>
      if f.isFullLocked then (f, pushed)
      else pushSomeLoop { f with queue := f.queue ++ [item] } (pushed + 1) rest

/-- `pushSome(data)`: how many were pushed. -/
def pushSome (f : Fifo α) (data : List α) : Fifo α × Nat :=
  f.pushSomeLoop 0 data

-- ================================================================ pops

/-- `pop()`. -/
def popBlocking (f : Fifo α) : Outcome (Fifo α × α) :=
  match f.pop with
  | (none, _) => .waits
  | (some value, f') => .returns (f', value)

/-- The loop of the two `popSome(std::vector<T>&)`: until the queue is
empty. -/
def drainLoop : (queue buffer : List α) → (count : Nat) → List α × Nat
  | [], buffer, count => (buffer, count)
  | front :: rest, buffer, count =>
      drainLoop rest (buffer ++ [front]) (count + 1)

/-- The queue, the vector and the count that the loop leaves. -/
def drain (f : Fifo α) (buffer : List α) : Fifo α × List α × Nat :=
  ({ f with queue := [] }, drainLoop f.queue buffer 0)

/-- `popSome(std::vector<T>& buffer)`. -/
def popSomeVector (f : Fifo α) (buffer : List α) :
    Outcome (Fifo α × List α × Nat) :=
  if f.isEmpty then .waits else .returns (f.drain buffer)

/-- `popSome(std::vector<T>& buffer, timeout)`. -/
def popSomeVectorFor (f : Fifo α) (buffer : List α) :
    Fifo α × List α × Nat :=
  if f.isEmpty then (f, buffer, 0) else f.drain buffer

/-- The loop of the three batch pops into a span, `N` the template
argument: `while (!queue_.empty() && count < N)`. -/
def spanLoop (N : Nat) : (queue elements : List α) → (count : Nat) →
    Outcome (List α × List α × Nat)
  | [], elements, count => .returns ([], elements, count)
  | front :: rest, elements, count =>
      if count < N then
        if count < elements.length then
          spanLoop N rest (elements.set count front) (count + 1)
        else .outside count
      else .returns (front :: rest, elements, count)

/-- The queue, the span's elements and the count that the loop leaves. -/
def popUpTo (f : Fifo α) (buffer : Span α) :
    Outcome (Fifo α × List α × Nat) :=
  (spanLoop buffer.extent f.queue buffer.elements 0).map
    fun r => ({ f with queue := r.1 }, r.2)

/-- `popSome(std::span<T, N> buffer)`. -/
def popSomeSpan (f : Fifo α) (buffer : Span α) :
    Outcome (Fifo α × List α × Nat) :=
  if f.isEmpty then .waits else f.popUpTo buffer

/-- `popSome(std::span<T, N> buffer, timeout)`. -/
def popSomeSpanFor (f : Fifo α) (buffer : Span α) :
    Outcome (Fifo α × List α × Nat) :=
  if f.isEmpty then .returns (f, buffer.elements, 0) else f.popUpTo buffer

/-- `tryPopSome(std::span<T, N> buffer)`. -/
def tryPopSomeSpan (f : Fifo α) (buffer : Span α) :
    Outcome (Fifo α × List α × Nat) :=
  f.popUpTo buffer

-- ========================================================== the system

/-- A call on the queue. `push` is overloaded for a value to copy and for
one to move from; the spans have a fixed extent. -/
inductive Call (α : Type)
  | emplace (value : α)
  | pushCopy (value : α)
  | pushMove (value : α)
  | pushAll (data : List α)
  | pushSome (data : List α)
  | pop
  | popFor
  | popSomeVector (buffer : List α)
  | popSomeVectorFor (buffer : List α)
  | popSomeSpan (buffer : Span α) (fixed : buffer.Fixed)
  | popSomeSpanFor (buffer : Span α) (fixed : buffer.Fixed)
  | tryPopSome (buffer : Span α) (fixed : buffer.Fixed)
  | configure (config : Config)
  | reserve (capacity : Nat)

/-- What a caller gets back: for a batch pop the count and the buffer as
it is then. -/
inductive Answer (α : Type)
  | nothing
  | result (r : Res)
  | pushed (count : Nat)
  | element (value : Option α)
  | popped (count : Nat) (buffer : List α)

/-- The batch pops answer alike. -/
def popAnswer (r : Fifo α × List α × Nat) : Fifo α × Answer α :=
  (r.1, .popped r.2.2 r.2.1)

/-- One call, with the mutex held. -/
def call (f : Fifo α) : Call α → Outcome (Fifo α × Answer α)
  | .emplace value => .returns ((f.emplace id value).map id .result)
  | .pushCopy value => .returns ((f.push value).map id .result)
  | .pushMove value => .returns ((f.push value).map id .result)
  | .pushAll data => .returns ((f.pushAll data).map id .result)
  | .pushSome data => .returns ((f.pushSome data).map id .pushed)
  | .pop => f.popBlocking.map fun r => (r.1, .element (some r.2))
  | .popFor => .returns (f.pop.2, .element f.pop.1)
  | .popSomeVector buffer => (f.popSomeVector buffer).map popAnswer
  | .popSomeVectorFor buffer => .returns (popAnswer (f.popSomeVectorFor buffer))
  | .popSomeSpan buffer _ => (f.popSomeSpan buffer).map popAnswer
  | .popSomeSpanFor buffer _ => (f.popSomeSpanFor buffer).map popAnswer
  | .tryPopSome buffer _ => (f.tryPopSomeSpan buffer).map popAnswer
  | .configure config => .returns ((f.configure config).map id .result)
  | .reserve capacity => .returns (f.reserve capacity, .nothing)

/-- A call, its answer (`none` while it waits) and by how much the queue
grew. -/
structure Event (α : Type) where
  call : Call α
  answer : Option (Answer α)
  grown : Nat

/-- One queue under calls in any order. -/
def system (α : Type) : StepSystem (Fifo α) (Call α) (Event α) where
  step f c :=
    match f.call c with
    | .waits => some (f, ⟨c, none, 0⟩)
    | .outside _ => none
    | .returns (g, answer) =>
        some (g, ⟨c, some answer, g.queue.length - f.queue.length⟩)

/-- The elements a call had accepted, as its answer tells the caller. A
`pushAll` that failed does not say how many it stored; the queue grew by
that many. -/
def Event.accepted (e : Event α) : List α :=
  match e.call, e.answer with
  | .emplace value, some (.result (.ok ())) => [value]
  | .pushCopy value, some (.result (.ok ())) => [value]
  | .pushMove value, some (.result (.ok ())) => [value]
  | .pushAll data, some (.result (.ok ())) => data
  | .pushAll data, some (.result (.error _)) => data.take e.grown
  | .pushSome data, some (.pushed count) => data.take count
  | _, _ => []

/-- The elements a call has handed to its caller: the optional's value,
what stands behind the vector's old end, the first `count` elements of
the span. -/
def Event.popped (e : Event α) : List α :=
  match e.call, e.answer with
  | .pop, some (.element (some value)) => [value]
  | .popFor, some (.element (some value)) => [value]
  | .popSomeVector old, some (.popped _ buffer) => buffer.drop old.length
  | .popSomeVectorFor old, some (.popped _ buffer) => buffer.drop old.length
  | .popSomeSpan .., some (.popped count buffer) => buffer.take count
  | .popSomeSpanFor .., some (.popped count buffer) => buffer.take count
  | .tryPopSome .., some (.popped count buffer) => buffer.take count
  | _, _ => []

/-- A call that stores. -/
def Call.IsPush : Call α → Prop
  | .emplace _ => True
  | .pushCopy _ => True
  | .pushMove _ => True
  | .pushAll _ => True
  | .pushSome _ => True
  | _ => False

end Vnic.Fifo
