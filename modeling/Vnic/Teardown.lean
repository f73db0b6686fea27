/-
The end of a port and of a link: `~VNic()` and `~Link()`.

The body of `~VNic()` joins the poll thread and stops the queues, whatever
their state; then the members go, the RX queues among them, each of which
drains once more. The poll thread is joined, so that the destructor waits
until the iteration under way is over.

`~Link()` pops both pipes empty and releases the blocks. Nobody may be
inside a call then. Releasing a block that is not live has no meaning, so
that the destructor of the model fails there.
-/
import Vnic.LinkSystem
import Vnic.System

namespace Vnic

/-- `~VNic()`: what is left in memory. -/
def VNic.destroy (s : Memory × VNic) : Memory :=
  let s := (VNic.stopQueues (s.1, { s.2 with thread := false })).1
  VNic.destroyRx s.2.rxQueues s.1

/-- The destructor of the port in use; it waits for the poll thread. -/
def Sys.destroy (s : Sys) : Option Memory :=
  if s.inTakeRx ∨ s.inFlight.isSome then none
  else some (VNic.destroy s.pair)

namespace LinkSystem

/-- The loop of `drain(queue, allocator)`. -/
def drainLoop : List Span → (Ptr → Option Frame) →
    Option (Ptr → Option Frame)
  | [], heap => some heap
  | frame :: rest, heap =>
      if heap frame.data = none then none
      else drainLoop rest (Function.update heap frame.data none)

/-- `~Link()`: what is left in the heap. -/
def destroy {ι : Type} (s : LinkSystem ι) : Option (Ptr → Option Frame) :=
  match drainLoop (s.queue .rx).queue s.heap with
  | none => none
  | some heap => drainLoop (s.queue .tx).queue heap

end LinkSystem

end Vnic
