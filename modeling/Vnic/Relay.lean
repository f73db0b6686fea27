/-
A port and an application that relays: what it sends, it has received
and still holds.

`tx` takes any descriptor. A relay names what it sends by number, as
every application names what it frees, so the buffers behind it are the
ones `rx` handed out. All other steps are the port's own.
-/
import Vnic.System

namespace Vnic

namespace Relay

/-- One step. -/
inductive Op
  /-- A step of the port, other than `tx`. -/
  | port (a : Sys.Op)
  /-- `tx(queueId, ..)` of the held descriptors with these numbers, each
  with the allocation outcomes of its `put`. -/
  | send (queueId : UInt16) (tickets : List (TxQueue.Alloc × Nat))

/-- What a step shows. -/
inductive Event
  | port (e : Sys.Event)
  | send (tickets : List Nat) (r : Except ErrorCode Nat)
  deriving DecidableEq

/-- The descriptors held under some numbers. -/
def named (held : Ledger PacketDescriptor) :
    List (TxQueue.Alloc × Nat) →
    Option (List (TxQueue.Alloc × PacketDescriptor))
  | [] => some []
  | (alloc, k) :: rest =>
      match held.get k, named held rest with
      | some d, some ds => some ((alloc, d) :: ds)
      | _, _ => none

/-- Perform one step. -/
def step (s : Sys) : Op → Option (Sys × Event)
  | .port (.tx _ _) => none
  | .port a =>
      match s.step a with
      | none => none
      | some (t, e) => some (t, .port e)
  | .send queueId tickets =>
      match named s.held tickets with
      | none => none
      | some descs =>
          match VNic.tx s.mem queueId descs s.nic with
          | (n, r) => some (s.withNic n, .send (tickets.map Prod.snd) r)

end Relay

/-- The system of a port and its relay. -/
def relay : StepSystem Sys Relay.Op Relay.Event where
  step := Relay.step

end Vnic
