/-
`RxQueue::stopImpl` against concurrent `take` calls, cut at its accesses
to the FIFOs.

The drain loops test `isEmpty()` and pop in two steps, each under the
FIFO's mutex on its own; the pop waits for an element. The poll thread has
been joined, so nothing is put any more; application threads may go on
calling `take`, whose only access to the queue is one `tryPopSome`, so any
number of them is one action. A pop that has to wait is a disabled step.
-/
import Vnic.Lib.StepSystem
import Vnic.RxQueue

namespace Vnic

/-- Where `stopImpl` stands. -/
inductive DrainPc
  /-- Before `free_.isEmpty()`. -/
  | testFree
  /-- Before `free_.pop()`. -/
  | popFree
  /-- Before `used_.isEmpty()`. -/
  | testUsed
  /-- Before `used_.pop()`. -/
  | popUsed
  /-- Before `releaseChain(head)`. -/
  | release (head : Ptr)
  | done
  deriving DecidableEq, Repr

/-- The queue while `stopImpl` runs. -/
structure RxDrain where
  mem : Memory
  queue : RxQueue
  pc : DrainPc := .testFree

namespace RxDrain

/-- The next step of `stopImpl`, or a `take` by an application thread. -/
inductive Op
  | stop
  | take
  deriving DecidableEq, Repr

/-- One step of `stopImpl`. -/
def stopStep (s : RxDrain) : Option RxDrain :=
  match s.pc with
  | .testFree =>
      some { s with
        pc := if s.queue.free_.isEmpty then .testUsed else .popFree }
  | .popFree =>
      match s.queue.free_.pop with
      | (none, _) => none
      | (some _, free) =>
          some { s with
            queue := { s.queue with free_ := free }
            pc := .testFree }
  | .testUsed =>
      some { s with
        pc := if s.queue.used_.isEmpty then .done else .popUsed }
  | .popUsed =>
      match s.queue.used_.pop with
      | (none, _) => none
      | (some desc, used) =>
          some { s with
            queue := { s.queue with used_ := used }
            pc := .release desc.buffer }
  | .release head =>
      match RxQueue.releaseChain head (s.mem, s.queue.memPool) with
      | (m, pool) =>
          some { s with
            mem := m
            queue := { s.queue with memPool := pool }
            pc := .testUsed }
  | .done => none

/-- Perform one step; a `take` shows the descriptors it returns. -/
def step (s : RxDrain) : Op → Option (RxDrain × List PacketDescriptor)
  | .stop => s.stopStep.map fun t => (t, [])
  | .take =>
      match s.queue.take with
      | (descs, q) => some ({ s with queue := q }, descs)

/-- A pop is next, and its FIFO is empty. -/
def Waits (s : RxDrain) : Prop :=
  (s.pc = .popFree ∧ s.queue.free_.queue = [])
    ∨ (s.pc = .popUsed ∧ s.queue.used_.queue = [])

end RxDrain

/-- The system of atomic steps. -/
def rxDrain : StepSystem RxDrain RxDrain.Op (List PacketDescriptor) where
  step := RxDrain.step

end Vnic
