/-
One `Link` in use, in two readings.

- `linkCalls`: whole calls, one after the other, over `Link`.
- `linkSystem`: any number of threads, with the calls cut at the points
  where they touch what they share. The pipes hold spans, as the source's
  queues do, and the bytes lie in the process heap beside the callers' own
  buffers.

# Steps

A `put` copies the caller's bytes into a fresh block, then pushes the span
of the copy; a refused copy is released by the scope guard. A `take` pops
a span, appends its bytes to the caller's vector, then the guard releases
the block. `configure` stores `config_`, then sets the two capacities, one
queue mutex at a time. Between any two of these steps other threads may do
anything, and the callers may write, free and reuse their own buffers.

`malloc` answers null or any address that is not live, so a block that was
released may come back for the next copy. The caller's vector is private
to its `take`: it is an argument of the call.

# What is left out

The nodes of the two queues are not in the heap, and a push that finds no
memory for its node is not a step. Such a push throws with the mutex given
back and the queue as it was; the scope guard of `put` releases the copy,
as it does for a copy that the queue refuses, and the caller gets the
exception in place of an error. The blocks are then those of a refused
`put`, so that what is said of a failing allocation is said of the copies
and of the caller's vector.
-/
import Mathlib.Logic.Function.Basic
import Vnic.Lib.StepSystem
import Vnic.Link
import Vnic.Memory

namespace Vnic

-- ========================================================= whole calls

namespace Link

/-- One call. Each call says whether its allocation succeeds. -/
inductive Op
  | configure (config : Config)
  | putRx (alloc : Bool) (packet : Frame)
  | takeRx (alloc : Bool)
  | putTx (alloc : Bool) (packet : Frame)
  | takeTx (alloc : Bool)
  | up
  | down
  deriving DecidableEq, Repr

/-- What the call answered. -/
inductive Event
  | configure (r : Res)
  | putRx (r : Res)
  | takeRx (r : Except ErrorCode Frame)
  | putTx (r : Res)
  | takeTx (r : Except ErrorCode Frame)
  | up
  | down
  deriving DecidableEq, Repr

/-- Perform one call. -/
def step (l : Link) : Op → Option (Link × Event)
  | .configure config =>
      let (l, r) := l.configure config
      some (l, .configure r)
  | .putRx alloc packet =>
      let (l, r) := l.putRx alloc packet
      some (l, .putRx r)
  | .takeRx alloc =>
      let (l, r) := l.takeRx alloc
      some (l, .takeRx r)
  | .putTx alloc packet =>
      let (l, r) := l.putTx alloc packet
      some (l, .putTx r)
  | .takeTx alloc =>
      let (l, r) := l.takeTx alloc
      some (l, .takeTx r)
  | .up => some (l.setUp true, .up)
  | .down => some (l.setUp false, .down)

end Link

/-- The system of whole calls. -/
def linkCalls : StepSystem Link Link.Op Link.Event where
  step := Link.step

-- ======================================================== shared memory

/-- The two pipes. -/
inductive Pipe
  | rx
  | tx
  deriving DecidableEq, Repr

/-- The `fullError` a pipe's `put` is called with. -/
def Pipe.fullError : Pipe → ErrorCode
  | .rx => .linkRxQueueFull
  | .tx => .linkTxQueueFull

/-- `std::span<std::byte>`. -/
structure Span where
  data : Ptr
  size : Nat
  deriving DecidableEq, Repr

/-- Where a thread is inside a call. -/
inductive LinkPc
  /-- In no call. -/
  | idle
  /-- `put`: the copy is made, `queue.push` is next. -/
  | copied (pipe : Pipe) (copy : Span)
  /-- `take`: the span is popped, `packet.insert` is next. -/
  | popped (pipe : Pipe) (data : Span) (packet : Frame)
  /-- The scope guard's `deallocate` is next. -/
  | releasing (memory : Ptr)
  /-- `configure`: `rxQueue_.reserve` is next. -/
  | reserveRx
  /-- `configure`: `txQueue_.reserve` is next. -/
  | reserveTx
  deriving DecidableEq, Repr

/-- A link, the heap, the blocks that are the callers' own, and the
threads. -/
structure LinkSystem (ι : Type) where
  queue : Pipe → Fifo Span := fun _ => {}
  config : Link.Config := {}
  up : Bool := false
  heap : Ptr → Option Frame
  app : Ptr → Bool
  pc : ι → LinkPc := fun _ => .idle

namespace LinkSystem

variable {ι : Type} [DecidableEq ι]

/-- A new link in a process whose live blocks are the callers'. -/
def init (heap : Ptr → Option Frame) : LinkSystem ι :=
  { heap := heap, app := fun p => (heap p).isSome }

/-- The bytes of a block; a dead address has none. -/
def block (s : LinkSystem ι) (p : Ptr) : Frame := (s.heap p).getD []

/-- The bytes a span covers. -/
def load (s : LinkSystem ι) (span : Span) : Frame :=
  (s.block span.data).take span.size

/-- The frames in a pipe, front first. -/
def contents (s : LinkSystem ι) (pipe : Pipe) : List Frame :=
  (s.queue pipe).queue.map s.load

/-- Move thread `i`. -/
def move (s : LinkSystem ι) (i : ι) (pc : LinkPc) : LinkSystem ι :=
  { s with pc := Function.update s.pc i pc }

/-- Put a queue back. -/
def withQueue (s : LinkSystem ι) (pipe : Pipe) (q : Fifo Span) :
    LinkSystem ι :=
  { s with queue := Function.update s.queue pipe q }

/-- Change what is at one address. -/
def poke (s : LinkSystem ι) (p : Ptr) (b : Option Frame) : LinkSystem ι :=
  { s with heap := Function.update s.heap p b }

-- =============================================================== steps

/-- One atomic step. -/
inductive Op (ι : Type)
  | put (i : ι) (pipe : Pipe) (packet : Span) (answer : Option Ptr)
  | push (i : ι)
  | take (i : ι) (pipe : Pipe) (packet : Frame)
  | insert (i : ι) (alloc : Bool)
  | deallocate (i : ι)
  | configure (i : ι) (config : Link.Config)
  | reserve (i : ι)
  | setUp (up : Bool)
  | appAllocate (p : Ptr) (bytes : Frame)
  | appWrite (p : Ptr) (bytes : Frame)
  | appFree (p : Ptr)

/-- What a step shows. A call's answer is shown where it is decided; the
scope guard may still be to come. -/
inductive Event (ι : Type)
  | silent
  /-- A `put` has copied these bytes from its caller. -/
  | copied (i : ι) (pipe : Pipe) (frame : Frame)
  | put (i : ι) (pipe : Pipe) (r : Res)
  /-- A `take` has popped a span. -/
  | popped (i : ι) (pipe : Pipe)
  /-- A `take` with its caller's vector before and after. -/
  | took (i : ι) (pipe : Pipe) (before after : Frame)
      (r : Except ErrorCode Nat)
  | configure (i : ι) (r : Res)
  deriving DecidableEq

/-- The caller may pass `span`: it lies in a block of its own. -/
def Readable (s : LinkSystem ι) (span : Span) : Prop :=
  s.app span.data = true ∧ span.size ≤ (s.block span.data).length

instance (s : LinkSystem ι) (span : Span) : Decidable (s.Readable span) :=
  inferInstanceAs (Decidable (_ ∧ _))

/-- `malloc` may answer `p`. -/
def Fresh (s : LinkSystem ι) (p : Ptr) : Prop :=
  p ≠ nullptr ∧ s.heap p = none

instance (s : LinkSystem ι) (p : Ptr) : Decidable (s.Fresh p) :=
  inferInstanceAs (Decidable (_ ∧ _))

/-- `put`, up to the copy. -/
def put (s : LinkSystem ι) (i : ι) (pipe : Pipe) (packet : Span)
    (answer : Option Ptr) : Option (LinkSystem ι × Event ι) :=
  if packet.size = 0 then some (s, .put i pipe (.error .linkPacketEmpty))
  else if s.Readable packet then
    match answer with
    | none => some (s, .put i pipe (.error .allocatorAllocationFailed))
    | some p =>
        if s.Fresh p then
          some ((s.poke p (some (s.load packet))).move i
              (.copied pipe ⟨p, packet.size⟩),
            .copied i pipe (s.load packet))
        else none
  else none

/-- `queue.push` inside `put`. -/
def push (s : LinkSystem ι) (i : ι) (pipe : Pipe) (copy : Span) :
    LinkSystem ι × Event ι :=
  match (s.queue pipe).push copy with
  | (_, .error _) =>
      (s.move i (.releasing copy.data),
        .put i pipe (.error pipe.fullError))
  | (q, .ok ()) => ((s.withQueue pipe q).move i .idle, .put i pipe (.ok ()))

/-- `take`, up to the pop. -/
def take (s : LinkSystem ι) (i : ι) (pipe : Pipe) (packet : Frame) :
    LinkSystem ι × Event ι :=
  match (s.queue pipe).pop with
  | (none, _) => (s, .took i pipe packet packet (.error .timeout))
  | (some data, q) =>
      ((s.withQueue pipe q).move i (.popped pipe data packet),
        .popped i pipe)

/-- `packet.insert` inside `take`; `alloc` is whether the vector can
grow. -/
def insert (s : LinkSystem ι) (i : ι) (pipe : Pipe) (data : Span)
    (packet : Frame) (alloc : Bool) : LinkSystem ι × Event ι :=
  if alloc then
    (s.move i (.releasing data.data),
      .took i pipe packet (packet ++ s.load data) (.ok data.size))
  else
    (s.move i (.releasing data.data),
      .took i pipe packet packet (.error .linkAllocationFailed))

/-- `configure`, up to the store of `config_`. -/
def configure (s : LinkSystem ι) (i : ι) (config : Link.Config) :
    LinkSystem ι × Event ι :=
  match config.validate with
  | .none => ({ s with config := config }.move i .reserveRx, .silent)
  | code => (s, .configure i (.error code))

/-- One `reserve` inside `configure`. -/
def reserve (s : LinkSystem ι) (pipe : Pipe) (depth : UInt32) :
    LinkSystem ι :=
  s.withQueue pipe ((s.queue pipe).reserve depth.toNat)

/-- Perform one atomic step. -/
def step (s : LinkSystem ι) : Op ι → Option (LinkSystem ι × Event ι)
  | .put i pipe packet answer =>
      match s.pc i with
      | .idle => s.put i pipe packet answer
      | _ => none
  | .push i =>
      match s.pc i with
      | .copied pipe copy => some (s.push i pipe copy)
      | _ => none
  | .take i pipe packet =>
      match s.pc i with
      | .idle => some (s.take i pipe packet)
      | _ => none
  | .insert i alloc =>
      match s.pc i with
      | .popped pipe data packet => some (s.insert i pipe data packet alloc)
      | _ => none
  | .deallocate i =>
      match s.pc i with
      | .releasing p => some ((s.poke p none).move i .idle, .silent)
      | _ => none
  | .configure i config =>
      match s.pc i with
      | .idle => some (s.configure i config)
      | _ => none
  | .reserve i =>
      match s.pc i with
      | .reserveRx =>
          some ((s.reserve .rx s.config.rxQueueDepth).move i .reserveTx,
            .silent)
      | .reserveTx =>
          some ((s.reserve .tx s.config.txQueueDepth).move i .idle,
            .configure i (.ok ()))
      | _ => none
  | .setUp up => some ({ s with up := up }, .silent)
  | .appAllocate p bytes =>
      if s.Fresh p then
        some ({ s.poke p (some bytes) with
                app := Function.update s.app p true }, .silent)
      else none
  | .appWrite p bytes =>
      if s.app p then some (s.poke p (some bytes), .silent) else none
  | .appFree p =>
      if s.app p then
        some ({ s.poke p none with
                app := Function.update s.app p false }, .silent)
      else none

end LinkSystem

/-- The system of atomic steps of the threads `ι`. -/
def linkSystem (ι : Type) [DecidableEq ι] :
    StepSystem (LinkSystem ι) (LinkSystem.Op ι) (LinkSystem.Event ι) where
  step := LinkSystem.step

-- ============================================================= history

namespace LinkSystem

variable {ι : Type} [DecidableEq ι]

/-- No allocation failed in the step. -/
def Event.allocated : Event ι → Bool
  | .put _ _ (.error .allocatorAllocationFailed) => false
  | .took _ _ _ _ (.error .linkAllocationFailed) => false
  | _ => true

/-- What an observer knows of the calls: the bytes each thread's last
`put` copied; for each pipe the frames of the successful puts, in the
order of the pushes; and for each pipe the takes, in the order of the
pops, with what each has returned. -/
structure History (ι : Type) where
  copied : ι → Frame := fun _ => []
  puts : Pipe → List Frame := fun _ => []
  takes : Pipe → List (ι × Option Frame) := fun _ => []

/-- The take in progress of thread `i` has returned `frame`. -/
def returned (i : ι) (frame : Frame) (t : ι × Option Frame) :
    ι × Option Frame :=
  if t.1 = i ∧ t.2 = none then (i, some frame) else t

/-- One event more. What a take returned is what its caller finds behind
the old end of the vector. -/
def History.next (h : History ι) : Event ι → History ι
  | .copied i _ frame => { h with copied := Function.update h.copied i frame }
  | .put i pipe (.ok ()) =>
      { h with
        puts := Function.update h.puts pipe (h.puts pipe ++ [h.copied i]) }
  | .popped i pipe =>
      { h with
        takes := Function.update h.takes pipe
          (h.takes pipe ++ [(i, none)]) }
  | .took i pipe before after (.ok _) =>
      { h with
        takes := Function.update h.takes pipe
          ((h.takes pipe).map (returned i (after.drop before.length))) }
  | _ => h

/-- The history of a list of events. -/
def History.ofEvents (es : List (Event ι)) : History ι :=
  es.foldl History.next {}

/-- Thread `i` is inside a `take` of the pipe and has its frame. -/
def Taking (s : LinkSystem ι) (pipe : Pipe) (i : ι) : Prop :=
  ∃ data packet, s.pc i = .popped pipe data packet

end LinkSystem

end Vnic
