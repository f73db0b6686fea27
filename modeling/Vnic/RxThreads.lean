/-
One started `RxQueue` between the poll thread and any number of
application threads, cut at every access to what they share: each block
allocated, written or released, and each call on a FIFO.

`put` runs in the poll thread only and keeps its segments in an array of
its own until `used_.push` publishes them. `free` may run in many threads
at once; each call is an entry of `freeing`, wherever it stands. `take`
touches the queue once, under the mutex of `used_`. An application thread
may look through a descriptor it holds at any time.

The result of a `put` is shown where it is decided; what the scope guards
do afterwards is silent. The counters of the pool and of the statistics
are atomic and are bumped with the step they belong to.
-/
import Vnic.Lib.Ledger
import Vnic.Lib.StepSystem
import Vnic.RxQueue

namespace Vnic

/-- Where the poll thread is inside `put`. -/
inductive RxThreads.PutPc
  /-- Between two calls. -/
  | idle
  /-- The allocation loop, with the blocks so far. -/
  | alloc (desc : PacketDescriptor) (packet : Frame) (buffers : List Ptr)
  /-- The fill loop at an offset: segments written, segments to come. -/
  | fill (desc : PacketDescriptor) (packet : Frame) (offset : Nat)
      (written rest : List Ptr)
  /-- Before `free_.pop`. -/
  | pop (desc : PacketDescriptor) (packet : Frame) (buffers : List Ptr)
  /-- Before `used_.push`. -/
  | push (desc : PacketDescriptor) (packet : Frame)
      (slot : PacketDescriptor) (buffers : List Ptr)
  /-- In `slotGuard`, then in `buffersGuard`. -/
  | guards (slot : Option PacketDescriptor) (buffers : List Ptr)
  deriving DecidableEq, Repr

/-- Where an application thread is inside `free(descs)`. -/
inductive RxThreads.FreeCall
  /-- `releaseChain` is at `segment`; the chains of `rest` follow. -/
  | release (descs : List PacketDescriptor) (segment : Ptr)
      (rest : List PacketDescriptor)
  /-- Before `free_.pushAll(descs)`. -/
  | pushAll (descs : List PacketDescriptor)
  deriving DecidableEq, Repr

/-- The queue, what the application holds, and the calls under way. -/
structure RxThreads where
  mem : Memory
  queue : RxQueue
  held : Ledger PacketDescriptor := .empty
  pc : RxThreads.PutPc := .idle
  freeing : List RxThreads.FreeCall := []

namespace RxThreads

/-- One step. -/
inductive Op
  /-- `put(desc, packet)` is called. -/
  | put (desc : PacketDescriptor) (packet : Frame)
  /-- The next step of the `put` under way. -/
  | poll (malloc : Malloc)
  | take
  /-- A thread follows the buffer of a descriptor it holds. -/
  | look (ticket : Nat)
  /-- `free` is called. -/
  | free (tickets : List Nat)
  /-- The next step of a `free` under way. -/
  | app (i : Nat)

/-- What a holder sees through a descriptor: all but the address. -/
def observed (m : Memory) (d : PacketDescriptor) :
    PacketDescriptor × Frame :=
  ({ d with buffer := nullptr }, m.contents d.buffer)

/-- What a step shows. -/
inductive Event
  | silent
  | put (desc : PacketDescriptor) (packet : Frame) (r : Res)
  /-- `take` returned descriptors, numbered from the ticket on. -/
  | take (ticket : Nat) (seen : List (PacketDescriptor × Frame))
  | look (seen : PacketDescriptor × Frame)
  | free (tickets : List Nat)
  /-- `free_.pushAll` of so many descriptors. -/
  | freed (n : Nat) (r : Res)
  deriving DecidableEq, Repr

-- ================================================================= put

/-- The size checks of `put`. -/
def putStep (desc : PacketDescriptor) (packet : Frame) (s : RxThreads) :
    RxThreads × Event :=
  let bytes := packet.length
  if bytes = 0 then
    (s, .put desc packet (.error .queueZeroLengthPacket))
  else if 2 ^ 32 - 1 < bytes then
    (s, .put desc packet (.error .queuePacketTooLarge))
  else if kMaxSegments < RxQueue.segmentCount bytes then
    ({ s with
        queue := { s.queue with stats := s.queue.stats.fetchOverflows } },
      .put desc packet (.error .queueSegmentLimitExceeded))
  else ({ s with pc := .alloc desc packet [] }, .silent)

/-- One step of the poll thread inside `put`. -/
def pollStep (malloc : Malloc) (s : RxThreads) :
    Option (RxThreads × Event) :=
  match s.pc with
  | .idle => none
  | .alloc desc packet buffers =>
      if buffers.length < RxQueue.segmentCount packet.length then
        match Pool.allocate malloc s.mem s.queue.memPool with
        | ((m, pool), .error e) =>
            some ({ s with
                mem := m
                queue := { s.queue with memPool := pool }
                pc := .guards none buffers },
              .put desc packet (.error e))
        | ((m, pool), .ok p) =>
            some ({ s with
                mem := m
                queue := { s.queue with memPool := pool }
                pc := .alloc desc packet (buffers ++ [p]) }, .silent)
      else some ({ s with pc := .fill desc packet 0 [] buffers }, .silent)
  | .fill desc packet _ written [] =>
      some ({ s with pc := .pop desc packet written }, .silent)
  | .fill desc packet offset written (p :: rest) =>
      let chunk := min kPacketBufferSize (packet.length - offset)
      some ({ s with
          mem := s.mem.store p
            { next := rest.headD nullptr
              length := UInt32.ofNat chunk
              payload := (packet.drop offset).take chunk }
          pc := .fill desc packet (offset + chunk) (written ++ [p]) rest },
        .silent)
  | .pop desc packet buffers =>
      match s.queue.free_.pop with
      | (none, _) =>
          some ({ s with
              queue :=
                { s.queue with stats := s.queue.stats.fetchOverflows }
              pc := .guards none buffers },
            .put desc packet (.error .queueFreeListEmpty))
      | (some slot, free) =>
          some ({ s with
              queue := { s.queue with free_ := free }
              pc := .push desc packet slot buffers }, .silent)
  | .push desc packet slot buffers =>
      match RxQueue.putPush
          { desc with
            buffer := buffers.headD nullptr
            totalLength := UInt32.ofNat packet.length }
          packet.length s.queue with
      | (q, .error e) =>
          some ({ s with queue := q, pc := .guards (some slot) buffers },
            .put desc packet (.error e))
      | (q, .ok ()) =>
          some ({ s with queue := q, pc := .idle },
            .put desc packet (.ok ()))
  | .guards (some slot) buffers =>
      some ({ s with
          queue := { s.queue with free_ := (s.queue.free_.push slot).1 }
          pc := .guards none buffers }, .silent)
  | .guards none (p :: rest) =>
      match s.queue.memPool.deallocate s.mem p with
      | (m, pool) =>
          some ({ s with
              mem := m
              queue := { s.queue with memPool := pool }
              pc := .guards none rest }, .silent)
  | .guards none [] => some ({ s with pc := .idle }, .silent)

-- ================================================================ free

/-- One step of an application thread inside `free`, in a call that
stands at `i`. -/
def appStep (i : Nat) (s : RxThreads) : Option (RxThreads × Event) :=
  match s.freeing[i]? with
  | none => none
  | some (.release descs segment rest) =>
      if segment = nullptr then
        match rest with
        | [] => some ({ s with
            freeing := s.freeing.set i (.pushAll descs) }, .silent)
        | d :: rest => some ({ s with
            freeing := s.freeing.set i (.release descs d.buffer rest) },
          .silent)
      else
        match s.queue.memPool.deallocate s.mem segment with
        | (m, pool) =>
            some ({ s with
                mem := m
                queue := { s.queue with memPool := pool }
                freeing := s.freeing.set i
                  (.release descs (s.mem.load segment).next rest) },
              .silent)
  | some (.pushAll descs) =>
      match s.queue.free_.pushAll descs with
      | (free, .error e) =>
          some ({ s with
              queue := { s.queue with free_ := free }
              freeing := s.freeing.eraseIdx i },
            .freed descs.length (.error
              (if e = .queueFull then .queueFreeListFull else e)))
      | (free, .ok ()) =>
          some ({ s with
              queue := { s.queue with free_ := free }
              freeing := s.freeing.eraseIdx i },
            .freed descs.length (.ok ()))

/-- Perform one step. -/
def step (s : RxThreads) : Op → Option (RxThreads × Event)
  | .put desc packet =>
      match s.pc with
      | .idle => some (s.putStep desc packet)
      | _ => none
  | .poll malloc => s.pollStep malloc
  | .take =>
      match s.queue.take with
      | (descs, q) =>
          some ({ s with queue := q, held := s.held.issue descs },
            .take s.held.next (descs.map (observed s.mem)))
  | .look ticket =>
      (s.held.get ticket).map fun d => (s, .look (observed s.mem d))
  | .free tickets =>
      match s.held.redeem tickets with
      | none => none
      | some (descs, held) =>
          some ({ s with
              held := held
              freeing := s.freeing ++ [.release descs nullptr descs] },
            .free tickets)
  | .app i => s.appStep i

end RxThreads

/-- The system of the threads' steps. -/
def rxThreads : StepSystem RxThreads RxThreads.Op RxThreads.Event where
  step := RxThreads.step

end Vnic
