/-
One `RxQueue` in use: the queue, the process memory, and the descriptors
the application has taken and not yet given back.

Two step systems share that state.

- `rxSystem`: whole calls, one after the other, in any order and number:
  `configure`, `start`, `stop`, `put`, `take`, `free`. Nothing is gated
  by the lifecycle state beyond what the source checks, so `free` may
  come after `stop` and `put` before `start`.
- `rxPeriod`: the poll thread's `put` cut at its accesses to the two
  FIFOs, with the application's `take` and `free` in between.

# Held descriptors

The application may pass each taken descriptor to `free` once. A `Ledger`
keeps what it holds; `free` names the descriptors by number and is
disabled when one of them is not outstanding. The order of the numbers is
the order of the span passed to `free`.
-/
import Vnic.RxQueue
import Vnic.Lib.Ledger
import Vnic.Lib.StepSystem
import Mathlib.Algebra.GroupWithZero.Nat

namespace Vnic

-- ========================================================= whole calls

/-- A queue, its memory, and the descriptors held by the application. -/
structure RxSystem where
  mem : Memory := {}
  queue : RxQueue := {}
  held : Ledger PacketDescriptor := .empty

namespace RxSystem

/-- A default-constructed queue in a process with some live blocks. -/
def init (blocks : Blocks) : RxSystem := { mem := { blocks := blocks } }

/-- One call. Each `put` brings the `malloc` it runs under. -/
inductive Op
  | configure (config : RxQueue.Config)
  | start
  | stop
  | put (malloc : Malloc) (desc : PacketDescriptor) (packet : Frame)
  | take
  | free (tickets : List Nat)

/-- What the call answered. -/
inductive Event
  | configure (r : Res)
  | start (r : Res)
  | stop (r : Res)
  | put (packet : Frame) (r : Res)
  | take (descs : List PacketDescriptor)
  | free (descs : List PacketDescriptor) (r : Res)
  deriving DecidableEq, Repr

/-- The pair the queue's operations work on. -/
def pair (s : RxSystem) : Memory × RxQueue := (s.mem, s.queue)

/-- Put a pair back. -/
def withPair (s : RxSystem) (p : Memory × RxQueue) : RxSystem :=
  { s with mem := p.1, queue := p.2 }

/-- Perform one call. -/
def step (s : RxSystem) : Op → Option (RxSystem × Event)
  | .configure config =>
      let (q, r) := s.queue.configure config
      some ({ s with queue := q }, .configure r)
  | .start =>
      let (p, r) := RxQueue.start s.pair
      some (s.withPair p, .start r)
  | .stop =>
      let (p, r) := RxQueue.stop s.pair
      some (s.withPair p, .stop r)
  | .put malloc desc packet =>
      let (p, r) := RxQueue.put malloc desc packet s.pair
      some (s.withPair p, .put packet r)
  | .take =>
      let (descs, q) := s.queue.take
      some ({ s with queue := q, held := s.held.issue descs }, .take descs)
  | .free tickets =>
      match s.held.redeem tickets with
      | none => none
      | some (descs, held) =>
          let (p, r) := RxQueue.free descs s.pair
          some ({ s.withPair p with held := held }, .free descs r)

end RxSystem

/-- The system of whole calls. -/
def rxSystem : StepSystem RxSystem RxSystem.Op RxSystem.Event where
  step := RxSystem.step

-- ==================================================== one started period

/-- Where the poll thread is inside `put`. -/
inductive PutPc
  /-- Between two calls. -/
  | idle
  /-- The segments are filled, the slot is not popped yet. -/
  | filled (desc : PacketDescriptor) (bytes : Nat) (buffers : List Ptr)
  /-- The slot is popped, `used_.push` is next. -/
  | popped (desc : PacketDescriptor) (bytes : Nat)
      (slot : PacketDescriptor) (buffers : List Ptr)
  /-- `used_.push` failed; the scope guards are next. -/
  | failed (e : ErrorCode) (slot : PacketDescriptor) (buffers : List Ptr)
  deriving DecidableEq, Repr

/-- The queue under one poll thread and any number of application
threads. `freeing` holds the batches whose chains are already released
and whose `free_.pushAll` is still to come. -/
structure RxPeriod where
  mem : Memory
  queue : RxQueue
  held : Ledger PacketDescriptor := .empty
  freeing : List (List PacketDescriptor) := []
  pc : PutPc := .idle

namespace RxPeriod

/-- One atomic step. -/
inductive Op
  | fill (malloc : Malloc) (desc : PacketDescriptor) (packet : Frame)
  | pop
  | push
  | giveBack
  | take
  | release (tickets : List Nat)
  | pushAll (i : Nat)

/-- What a step shows: the result of a call it completes. -/
inductive Event
  | silent
  | put (r : Res)
  | take (descs : List PacketDescriptor)
  | free (r : Res)
  deriving DecidableEq, Repr

/-- Perform one atomic step. -/
def step (s : RxPeriod) : Op → Option (RxPeriod × Event)
  | .fill malloc desc packet =>
      match s.pc with
      | .idle =>
          match RxQueue.putFill malloc desc packet (s.mem, s.queue) with
          | ((m, q), .error e) =>
              some ({ s with mem := m, queue := q }, .put (.error e))
          | ((m, q), .ok (desc, buffers)) =>
              some ({ s with
                      mem := m
                      queue := q
                      pc := .filled desc packet.length buffers }, .silent)
      | _ => none
  | .pop =>
      match s.pc with
      | .filled desc bytes buffers =>
          match RxQueue.putPop buffers (s.mem, s.queue) with
          | ((m, q), .error e) =>
              some ({ s with mem := m, queue := q, pc := .idle },
                .put (.error e))
          | ((m, q), .ok slot) =>
              some ({ s with
                      mem := m
                      queue := q
                      pc := .popped desc bytes slot buffers }, .silent)
      | _ => none
  | .push =>
      match s.pc with
      | .popped desc bytes slot buffers =>
          match RxQueue.putPush desc bytes s.queue with
          | (q, .error e) =>
              some ({ s with queue := q, pc := .failed e slot buffers },
                .silent)
          | (q, .ok ()) =>
              some ({ s with queue := q, pc := .idle }, .put (.ok ()))
      | _ => none
  | .giveBack =>
      match s.pc with
      | .failed e slot buffers =>
          let (m, q) := RxQueue.putUndo slot buffers (s.mem, s.queue)
          some ({ s with mem := m, queue := q, pc := .idle },
            .put (.error e))
      | _ => none
  | .take =>
      let (descs, q) := s.queue.take
      some ({ s with queue := q, held := s.held.issue descs }, .take descs)
  | .release tickets =>
      match s.held.redeem tickets with
      | none => none
      | some (descs, held) =>
          let (m, pool) :=
            RxQueue.releaseAll descs (s.mem, s.queue.memPool)
          some ({ s with
                  mem := m
                  queue := { s.queue with memPool := pool }
                  held := held
                  freeing := s.freeing ++ [descs] }, .silent)
  | .pushAll i =>
      match s.freeing[i]? with
      | none => none
      | some descs =>
          match s.queue.free_.pushAll descs with
          | (free, .error e) =>
              some ({ s with
                      queue := { s.queue with free_ := free }
                      freeing := s.freeing.eraseIdx i },
                .free (.error
                  (if e = .queueFull then .queueFreeListFull else e)))
          | (free, .ok ()) =>
              some ({ s with
                      queue := { s.queue with free_ := free }
                      freeing := s.freeing.eraseIdx i }, .free (.ok ()))

/-- The slot an in-flight `put` holds. -/
def inFlight (s : RxPeriod) : Nat :=
  match s.pc with
  | .idle => 0
  | .filled _ _ _ => 0
  | .popped _ _ _ _ => 1
  | .failed _ _ _ => 1

/-- Descriptors the application holds; those of a `free` still under way
are held until they are back in `free_`. -/
def heldCount (s : RxPeriod) : Nat :=
  s.held.values.length + (s.freeing.map List.length).sum

/-- All descriptors of the period. -/
def total (s : RxPeriod) : Nat :=
  s.queue.free_.queue.length + s.queue.used_.queue.length
    + s.heldCount + s.inFlight

end RxPeriod

/-- The system of atomic steps. -/
def rxPeriod : StepSystem RxPeriod RxPeriod.Op RxPeriod.Event where
  step := RxPeriod.step

end Vnic
