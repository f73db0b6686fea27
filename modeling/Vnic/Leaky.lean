/-
A port in use by an application that may run out of memory inside `rx`.

`RxQueue::take` pops up to `kMaxSegments` descriptors into an array of its
thread and then appends them to the caller's vector. The append may have
to grow the vector, and if that allocation fails `std::bad_alloc` leaves
`take` and `rx`: the vector is as it was, the descriptors are out of
`used_`, and nobody is told which they were. Nothing is appended where
nothing was popped, so such a call throws only when something waits.

The port goes on after that as before. Its state here is that of the port
in use and, for the record only, the descriptors lost so far; no step
reads them.
-/
import Vnic.Teardown

namespace Vnic

/-- `rx(queueId, descs)` when `descs` cannot grow: the descriptors it
popped are lost. -/
def VNic.rxThrows (queueId : UInt16) (n : VNic) :
    Option (VNic × List PacketDescriptor) :=
  match n.rxQueues[queueId.toNat]? with
  | none => none
  | some q =>
      let (popped, q) := q.take
      if popped = [] then none
      else
        some ({ n with rxQueues := n.rxQueues.set queueId.toNat q }, popped)

/-- A port in use and the descriptors lost in it. -/
structure Leaky where
  port : Sys := {}
  lost : List PacketDescriptor := []

namespace Leaky

/-- A default-constructed port in a process with some live blocks. -/
def init (blocks : Blocks) : Leaky := { port := .init blocks }

inductive Op
  /-- A step of the port. -/
  | call (op : Sys.Op)
  /-- `rx` that throws. -/
  | rxThrows (queueId : UInt16)

inductive Event
  | call (e : Sys.Event)
  | threw (queueId : UInt16)

/-- Perform one step. -/
def step (s : Leaky) : Op → Option (Leaky × Event)
  | .call op =>
      match s.port.step op with
      | none => none
      | some (port, e) => some ({ s with port := port }, .call e)
  | .rxThrows queueId =>
      match s.port.nic.rxThrows queueId with
      | none => none
      | some (n, popped) =>
          some ({ port := s.port.withNic n, lost := s.lost ++ popped },
            .threw queueId)

end Leaky

/-- The system of one port whose `rx` may throw. -/
def leaky : StepSystem Leaky Leaky.Op Leaky.Event where
  step := Leaky.step

end Vnic
