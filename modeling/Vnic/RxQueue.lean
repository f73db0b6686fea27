/-
`RxQueue`: the two descriptor FIFOs, the segmenting `put`, `take`,
`free`, and the lifecycle hooks.

Every operation that allocates or releases works on the pair of the
process memory and the queue.

# put in three phases

`put` touches shared state at three points: it allocates and fills the
segments, pops a slot from `free_`, and publishes into `used_`. The
phases are separate definitions (`putFill`, `putPop`, `putPush`, and
`putUndo` for what the two scope guards do when publishing fails), and
`put` is their sequence. The concurrent reading interleaves the same
phases with the application's calls.

# Scope guards

`buffersGuard` and `slotGuard` run on scope exit in reverse order of
construction unless cancelled. On the path where `used_.push` fails,
`slotGuard` returns the slot first and `buffersGuard` releases the
segments after it; the result of the guard's `free_.push` is ignored, as
in the source.
-/
import Vnic.Fifo
import Vnic.Memory

namespace Vnic

/-- `RxQueue::Config`. -/
structure RxQueue.Config where
  queueId : UInt16 := 0
  size : UInt32 := 512
  socketId : UInt32 := 0
  deriving DecidableEq, Repr

/-- `RxQueue`. -/
structure RxQueue where
  state : State := .stopped
  free_ : Fifo PacketDescriptor := {}
  used_ : Fifo PacketDescriptor := {}
  memPool : Pool := {}
  stats : Stats := {}
  config : RxQueue.Config := {}
  deriving DecidableEq, Repr

instance : Stateful RxQueue where
  getState := RxQueue.state
  setState st q := { q with state := st }
  getState_setState _ _ := rfl

namespace RxQueue

/-- `Config::isValid()`. -/
def Config.isValid (c : Config) : Bool := decide (0 < c.size)

-- ================================================================= put

/-- Number of segments a packet of `bytes` bytes is split into. -/
def segmentCount (bytes : Nat) : Nat :=
  (bytes + kPacketBufferSize - 1) / kPacketBufferSize

/-- The allocation loop: `n` more blocks after `buffers`. A failure runs
`buffersGuard`. -/
def allocSegments (malloc : Malloc) :
    Nat → Memory × Pool → List Ptr →
    (Memory × Pool) × Except ErrorCode (List Ptr)
  | 0, s, buffers => (s, .ok buffers)
  | n + 1, s, buffers =>
      match Pool.allocate malloc s.1 s.2 with
      | (s, .error e) => (s.2.deallocateAll s.1 buffers, .error e)
      | (s, .ok p) => allocSegments malloc n s (buffers ++ [p])

/-- The fill loop: header, link to the following block, and the chunk of
`packet` at `offset`. -/
def fillSegments (packet : Frame) (m : Memory) :
    Nat → List Ptr → Memory
  | _, [] => m
  | offset, p :: rest =>
      let chunk := min kPacketBufferSize (packet.length - offset)
      let m := m.store p
        { next := rest.headD nullptr
          length := UInt32.ofNat chunk
          payload := (packet.drop offset).take chunk }
      fillSegments packet m (offset + chunk) rest

/-- `put` up to the descriptor pop: size checks, allocation, fill. -/
def putFill (malloc : Malloc) (desc : PacketDescriptor) (packet : Frame)
    (s : Memory × RxQueue) :
    (Memory × RxQueue) × Except ErrorCode (PacketDescriptor × List Ptr) :=
  let bytes := packet.length
  if bytes = 0 then (s, .error .queueZeroLengthPacket)
  else if 2 ^ 32 - 1 < bytes then (s, .error .queuePacketTooLarge)
  else if kMaxSegments < segmentCount bytes then
    ((s.1, { s.2 with stats := s.2.stats.fetchOverflows }),
      .error .queueSegmentLimitExceeded)
  else
    match allocSegments malloc (segmentCount bytes)
        (s.1, s.2.memPool) [] with
    | ((m, pool), .error e) => ((m, { s.2 with memPool := pool }), .error e)
    | ((m, pool), .ok buffers) =>
        ((fillSegments packet m 0 buffers, { s.2 with memPool := pool }),
          .ok ({ desc with
                  buffer := buffers.headD nullptr
                  totalLength := UInt32.ofNat bytes }, buffers))

/-- `free_.pop(0us)`; an empty list counts an overflow and runs
`buffersGuard`. -/
def putPop (buffers : List Ptr) (s : Memory × RxQueue) :
    (Memory × RxQueue) × Except ErrorCode PacketDescriptor :=
  match s.2.free_.pop with
  | (none, _) =>
      let (m, pool) := s.2.memPool.deallocateAll s.1 buffers
      ((m, { s.2 with memPool := pool, stats := s.2.stats.fetchOverflows }),
        .error .queueFreeListEmpty)
  | (some slot, free) => ((s.1, { s.2 with free_ := free }), .ok slot)

/-- `used_.push(desc)`, and on success the processed counters. -/
def putPush (desc : PacketDescriptor) (bytes : Nat) (q : RxQueue) :
    RxQueue × Res :=
  match q.used_.push desc with
  | (_, .error e) =>
      (q, .error (if e = .queueFull then .queueUsedListFull else e))
  | (used, .ok ()) =>
      ({ q with used_ := used, stats := q.stats.fetchProcessed bytes },
        .ok ())

/-- `slotGuard`, then `buffersGuard`. -/
def putUndo (slot : PacketDescriptor) (buffers : List Ptr)
    (s : Memory × RxQueue) : Memory × RxQueue :=
  let q := { s.2 with free_ := (s.2.free_.push slot).1 }
  let (m, pool) := q.memPool.deallocateAll s.1 buffers
  (m, { q with memPool := pool })

/-- `put(desc, packet)`. -/
def put (malloc : Malloc) (desc : PacketDescriptor) (packet : Frame)
    (s : Memory × RxQueue) : (Memory × RxQueue) × Res :=
  match putFill malloc desc packet s with
  | (s, .error e) => (s, .error e)
  | (s, .ok (desc, buffers)) =>
      match putPop buffers s with
      | (s, .error e) => (s, .error e)
      | ((m, q), .ok slot) =>
          match putPush desc packet.length q with
          | (q, .error e) => (putUndo slot buffers (m, q), .error e)
          | (q, .ok ()) => ((m, q), .ok ())

-- ======================================================== take and free

/-- `take(descs)`: the descriptors appended to the caller's vector. -/
def take (q : RxQueue) : List PacketDescriptor × RxQueue :=
  match q.used_.tryPopSome kMaxSegments with
  | (descs, used) => (descs, { q with used_ := used })

/-- The loop of `releaseChain`; the model stops at a dead segment, where
the source would read freed memory. -/
def releaseLoop : Nat → Ptr → Memory × Pool → Memory × Pool
  | 0, _, s => s
  | fuel + 1, segment, s =>
      if segment = nullptr then s
      else releaseLoop fuel (s.1.load segment).next
        (s.2.deallocate s.1 segment)

/-- `releaseChain(head)`: each turn releases one live block, so the
number of live blocks bounds the turns. -/
def releaseChain (head : Ptr) (s : Memory × Pool) : Memory × Pool :=
  releaseLoop (s.1.blocks.keys.length + 1) head s

/-- `releaseChain` over the buffers of a list of descriptors. -/
def releaseAll (descs : List PacketDescriptor) (s : Memory × Pool) :
    Memory × Pool :=
  descs.foldl (fun s d => releaseChain d.buffer s) s

/-- `free(descs)`: the chains are released whether or not the free list
takes the descriptors. -/
def free (descs : List PacketDescriptor) (s : Memory × RxQueue) :
    (Memory × RxQueue) × Res :=
  match releaseAll descs (s.1, s.2.memPool) with
  | (m, pool) =>
      match s.2.free_.pushAll descs with
      | (free, .error e) =>
          ((m, { s.2 with memPool := pool, free_ := free }),
            .error (if e = .queueFull then .queueFreeListFull else e))
      | (free, .ok ()) =>
          ((m, { s.2 with memPool := pool, free_ := free }), .ok ())

-- =========================================================== lifecycle

/-- `configureImpl(config)`. -/
def configureImpl (config : Config) (q : RxQueue) : RxQueue × Res :=
  if config.isValid then
    let q := { q with config := config }
    match q.memPool.configure
        { blockSize := UInt32.ofNat kPacketBufferSize
          capacity := config.size
          socketId := config.socketId } with
    | (_, .error e) => (q, .error e)
    | (pool, .ok ()) =>
        let fifoConfig : Fifo.Config :=
          { capacity := config.size.toNat, socketId := config.socketId }
        match q.free_.configure fifoConfig with
        | (free, .error e) =>
            ({ q with memPool := pool, free_ := free }, .error e)
        | (free, .ok ()) =>
            match q.used_.configure fifoConfig with
            | (used, r) =>
                ({ q with memPool := pool, free_ := free, used_ := used }, r)
  else (q, .error .configQueueSizeInvalid)

/-- `configure(config)`. -/
def configure (config : Config) (q : RxQueue) : RxQueue × Res :=
  Stateful.configure (configureImpl config) q

/-- The two drain loops shared by `stopImpl` and the cleanup guard of
`startImpl`. -/
def drain (s : Memory × RxQueue) : Memory × RxQueue :=
  match releaseAll s.2.used_.queue (s.1, s.2.memPool) with
  | (m, pool) =>
      (m, { s.2 with
            free_ := { s.2.free_ with queue := [] }
            used_ := { s.2.used_ with queue := [] }
            memPool := pool })

/-- The fill loop of `startImpl`: `n` empty descriptors into `free_`. -/
def startLoop : Nat → Fifo PacketDescriptor → Fifo PacketDescriptor × Res
  | 0, free => (free, .ok ())
  | n + 1, free =>
      match free.push {} with
      | (free, .error e) => (free, .error e)
      | (free, .ok ()) => startLoop n free

/-- `startImpl()`; the cleanup guard drains both FIFOs on failure. -/
def startImpl (s : Memory × RxQueue) : (Memory × RxQueue) × Res :=
  match startLoop s.2.config.size.toNat s.2.free_ with
  | (free, .error e) => (drain (s.1, { s.2 with free_ := free }), .error e)
  | (free, .ok ()) => ((s.1, { s.2 with free_ := free }), .ok ())

/-- `startImpl()` made to fail with `inject` from outside: the cleanup
guard runs, as at any refused push. `none` is the plain call. -/
def startImplOr (inject : Option ErrorCode) (s : Memory × RxQueue) :
    (Memory × RxQueue) × Res :=
  match inject with
  | none => startImpl s
  | some e => (drain s, .error e)

/-- `start()`: a stopped queue is first configured with the last applied
configuration. -/
def startOr (inject : Option ErrorCode) (s : Memory × RxQueue) :
    (Memory × RxQueue) × Res :=
  if s.2.state = .stopped then
    match configure s.2.config s.2 with
    | (q, .error e) => ((s.1, q), .error e)
    | (q, .ok ()) => Stateful.start (startImplOr inject) (s.1, q)
  else Stateful.start (startImplOr inject) s

/-- `start()`. -/
def start (s : Memory × RxQueue) : (Memory × RxQueue) × Res :=
  startOr none s

/-- `stopImpl()`. -/
def stopImpl (s : Memory × RxQueue) : (Memory × RxQueue) × Res :=
  (drain s, .ok ())

/-- `stop()`. -/
def stop (s : Memory × RxQueue) : (Memory × RxQueue) × Res :=
  Stateful.stop stopImpl s

/-- `~RxQueue()`: what is left in memory. -/
def destroy (s : Memory × RxQueue) : Memory := (stopImpl s).1.1

end RxQueue

end Vnic
