/-
One port in use: the control-plane calls, the application's data-path
calls, the outside feeding the link, and the poll thread, interleaved in
any order.

# Steps

Every call on the port is one step. An iteration of `poll` is three
steps, because other threads run between them: `pollCheck` (read `isUp`),
`pollTake` (what the wait in `takeRx` ends with: a frame is removed, or
the time is up) and `pollFrame` (parse, validate, distribute). The poll
thread only steps while it exists, and `stop` joins it, so `stop` is
disabled inside an iteration.

# Held descriptors

As for one queue, a ledger numbers what `rx` has handed out, and `freeRx`
names descriptors by number, each at most once. A `freeRx` on a queue
that does not exist gives nothing back.
-/
import Vnic.Port
import Vnic.Lib.Ledger
import Vnic.Lib.StepSystem

namespace Vnic

/-- A port, the process memory, the descriptors the application holds,
whether the poll thread waits in `takeRx`, and the frame it is working
on. -/
structure Sys where
  mem : Memory := {}
  nic : VNic := {}
  held : Ledger PacketDescriptor := .empty
  inTakeRx : Bool := false
  inFlight : Option Frame := none

namespace Sys

/-- A default-constructed port in a process with some live blocks. -/
def init (blocks : Blocks) : Sys := { mem := { blocks := blocks } }

/-- One step. The arguments a step takes from its environment (which
allocations fail, what the clock reads) are part of it. -/
inductive Op
  -- control plane
  | configure (config : VNic.Config)
  | configureRx (queueId : UInt16) (config : RxQueue.Config)
  | configureTx (queueId : UInt16) (config : TxQueue.Config)
  | start (env : VNic.StartEnv)
  | stop
  | updateReta (reta : Reta)
  | resetStats
  -- application
  | tx (queueId : UInt16) (descs : List (TxQueue.Alloc × PacketDescriptor))
  | rx (queueId : UInt16)
  | freeRx (queueId : UInt16) (tickets : List Nat)
  -- link
  | putRx (alloc : Bool) (frame : Frame)
  | takeTx (alloc : Bool)
  | setUp (up : Bool)
  -- poll thread
  | pollCheck
  | pollTake (alloc : Bool)
  | pollFrame (malloc : Malloc) (now : UInt64)

/-- What a step shows. -/
inductive Event
  | configure (r : Res)
  | configureRx (r : Res)
  | configureTx (r : Res)
  | start (r : Res)
  | stop (r : Res)
  | updateReta (r : Res)
  | resetStats
  | tx (r : Except ErrorCode Nat)
  /-- `rx` on a queue: the descriptors, numbered from the ticket on. -/
  | rx (queueId : UInt16) (ticket : Nat)
      (r : Except ErrorCode (List PacketDescriptor))
  /-- `freeRx` of the descriptors with these numbers. -/
  | freeRx (queueId : UInt16) (tickets : List Nat)
      (descs : List PacketDescriptor) (r : Res)
  | putRx (frame : Frame) (r : Res)
  | takeTx (r : Except ErrorCode Frame)
  | setUp (up : Bool)
  /-- The link is up: `poll` enters `takeRx`. -/
  | pollUp
  /-- The link is down: `poll` sleeps. -/
  | pollIdle
  /-- `takeRx` answered: the frame, a timeout, or a failed copy of the
  frame that was removed. -/
  | pollTaken (frame : Frame)
  | pollTimeout
  | pollLost (frame : Frame)
  | frame (packet : Frame) (verdict : VNic.Verdict)
  deriving DecidableEq

/-- The pair the port's operations work on. -/
def pair (s : Sys) : Memory × VNic := (s.mem, s.nic)

/-- Put a pair back. -/
def withPair (s : Sys) (p : Memory × VNic) : Sys :=
  { s with mem := p.1, nic := p.2 }

/-- Put a port back. -/
def withNic (s : Sys) (n : VNic) : Sys := { s with nic := n }

/-- The end of `takeRx`. An empty frame would be skipped. -/
def takeFrame (alloc : Bool) (s : Sys) : Sys × Event :=
  match s.nic.link.takeRx alloc with
  | (link, .ok frame) =>
      ({ s with
          nic := { s.nic with link := link }
          inFlight := if frame = [] then none else some frame },
        .pollTaken frame)
  | (link, .error .timeout) =>
      (s.withNic { s.nic with link := link }, .pollTimeout)
  | (link, .error _) =>
      (s.withNic { s.nic with
          link := link
          stats := s.nic.stats.fetchErrors },
        .pollLost (s.nic.link.rxQueue.queue.headD []))

/-- Perform one step. -/
def step (s : Sys) : Op → Option (Sys × Event)
  | .configure config =>
      let (p, r) := VNic.configure config s.pair
      some (s.withPair p, .configure r)
  | .configureRx queueId config =>
      let (n, r) := VNic.configureRx queueId config s.nic
      some (s.withNic n, .configureRx r)
  | .configureTx queueId config =>
      let (n, r) := VNic.configureTx queueId config s.nic
      some (s.withNic n, .configureTx r)
  | .start env =>
      let (p, r) := VNic.start env s.pair
      some (s.withPair p, .start r)
  | .stop =>
      if s.inTakeRx ∨ s.inFlight.isSome then none
      else
        let (p, r) := VNic.stop s.pair
        some (s.withPair p, .stop r)
  | .updateReta reta =>
      let (n, r) := VNic.updateReta reta s.nic
      some (s.withNic n, .updateReta r)
  | .resetStats => some (s.withNic s.nic.resetStats, .resetStats)
  | .tx queueId descs =>
      let (n, r) := VNic.tx s.mem queueId descs s.nic
      some (s.withNic n, .tx r)
  | .rx queueId =>
      match VNic.rx queueId s.nic with
      | (n, .error e) => some (s.withNic n, .rx queueId s.held.next (.error e))
      | (n, .ok descs) =>
          some ({ s.withNic n with held := s.held.issue descs },
            .rx queueId s.held.next (.ok descs))
  | .freeRx queueId tickets =>
      match s.held.redeem tickets with
      | none => none
      | some (descs, held) =>
          if s.nic.rxQueues.length ≤ queueId.toNat then
            some (s, .freeRx queueId tickets [] (.error .queueInvalidId))
          else
            let (p, r) := VNic.freeRx queueId descs s.pair
            some ({ s.withPair p with held := held },
              .freeRx queueId tickets descs r)
  | .putRx alloc frame =>
      let (link, r) := s.nic.link.putRx alloc frame
      some (s.withNic { s.nic with link := link }, .putRx frame r)
  | .takeTx alloc =>
      let (link, r) := s.nic.link.takeTx alloc
      some (s.withNic { s.nic with link := link }, .takeTx r)
  | .setUp up =>
      some (s.withNic { s.nic with link := s.nic.link.setUp up }, .setUp up)
  | .pollCheck =>
      if s.nic.thread = false ∨ s.inTakeRx ∨ s.inFlight.isSome then none
      else if s.nic.link.up then some ({ s with inTakeRx := true }, .pollUp)
      else some (s, .pollIdle)
  | .pollTake alloc =>
      if s.nic.thread = false ∨ ¬ s.inTakeRx ∨ s.inFlight.isSome then none
      else some ({ s with inTakeRx := false }.takeFrame alloc)
  | .pollFrame malloc now =>
      match s.inFlight with
      | none => none
      | some packet =>
          let (p, verdict) := VNic.pollFrame malloc now packet s.pair
          some ({ s.withPair p with inFlight := none },
            .frame packet verdict)

end Sys

/-- The system of one port. -/
def sys : StepSystem Sys Sys.Op Sys.Event where
  step := Sys.step

end Vnic
