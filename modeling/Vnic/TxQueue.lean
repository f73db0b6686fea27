/-
`TxQueue`: the linearising `put` and the lifecycle hooks.

`put` walks the descriptor's chain twice. The first pass counts segments
against `kMaxSegments` and sums their lengths; the second copies the
payloads. Both are `do .. while (it)` loops over `next` pointers, and the
second only runs after the first has found the end of the chain within
the limit, so `kMaxSegments` bounds both.

The queue keeps a pointer to the port's link; `link_` says whether it is
set.
-/
import Vnic.Link
import Vnic.Memory

namespace Vnic

/-- `TxQueue::Config` (empty in the source). -/
structure TxQueue.Config where
  deriving DecidableEq, Repr

/-- `TxQueue`. -/
structure TxQueue where
  state : State := .stopped
  link_ : Bool := false
  stats : Stats := {}
  config : TxQueue.Config := {}
  deriving DecidableEq, Repr

instance : Stateful TxQueue where
  getState := TxQueue.state
  setState st q := { q with state := st }
  getState_setState _ _ := rfl

namespace TxQueue

/-- `Config::isValid()`. -/
def Config.isValid (_ : Config) : Bool := true

/-- Which allocations of one `put` succeed: the contiguous buffer, and
the link's copy of it. -/
structure Alloc where
  resize : Bool := true
  link : Bool := true
  deriving DecidableEq, Repr

/-- The first pass: `n` more segments are allowed. -/
def totalLoop (m : Memory) : Nat → Ptr → Nat → Except ErrorCode Nat
  | 0, _, _ => .error .txSegmentLimitExceeded
  | n + 1, it, total =>
      let total := total + (m.load it).length.toNat
      if (m.load it).next = nullptr then .ok total
      else totalLoop m n (m.load it).next total

/-- The second pass: the payloads in chain order. -/
def gatherLoop (m : Memory) : Nat → Ptr → List UInt8
  | 0, _ => []
  | n + 1, it =>
      (m.load it).getPacket
        ++ if (m.load it).next = nullptr then []
            else gatherLoop m n (m.load it).next

/-- A dropped packet. -/
def drop (q : TxQueue) (desc : PacketDescriptor) : TxQueue :=
  { q with stats := q.stats.fetchDropped desc.totalLength.toNat }

/-- `put(desc)`. -/
def put (alloc : Alloc) (m : Memory) (desc : PacketDescriptor)
    (s : Link × TxQueue) : (Link × TxQueue) × Res :=
  let dropped : Link × TxQueue := (s.1, s.2.drop desc)
  if desc.buffer = nullptr then (dropped, .error .txDescriptorNull)
  else
    match totalLoop m kMaxSegments desc.buffer 0 with
    | .error e => (dropped, .error e)
    | .ok total =>
        if total ≠ desc.totalLength.toNat then
          (dropped, .error .txLengthMismatch)
        else if alloc.resize = false then
          (dropped, .error .txAllocationFailed)
        else
          let packet := gatherLoop m kMaxSegments desc.buffer
          if s.2.link_ = false then (dropped, .error .txLinkUnavailable)
          else
            match s.1.putTx alloc.link packet with
            | (_, .error e) =>
                (dropped, .error (if e ≠ .none then e else .txLinkRejected))
            | (link, .ok ()) =>
                ((link, { s.2 with
                    stats :=
                      s.2.stats.fetchProcessed desc.totalLength.toNat }),
                  .ok ())

/-- `configureImpl(config, link)`. -/
def configureImpl (config : Config) (q : TxQueue) : TxQueue × Res :=
  if config.isValid then ({ q with config := config, link_ := true }, .ok ())
  else (q, .error .queueInvalidConfig)

/-- `startImpl()`. -/
def startImpl (q : TxQueue) : TxQueue × Res := (q, .ok ())

/-- `startImpl()` made to fail with `inject` from outside; `none` is the
plain call. -/
def startImplOr (inject : Option ErrorCode) (q : TxQueue) : TxQueue × Res :=
  match inject with
  | none => startImpl q
  | some e => (q, .error e)

/-- `stopImpl()`. -/
def stopImpl (q : TxQueue) : TxQueue × Res := (q, .ok ())

/-- `configure(config, link)`. -/
def configure (config : Config) (q : TxQueue) : TxQueue × Res :=
  Stateful.configure (configureImpl config) q

/-- `start()` under an injected failure. -/
def startOr (inject : Option ErrorCode) (q : TxQueue) : TxQueue × Res :=
  Stateful.start (startImplOr inject) q

/-- `start()`. -/
def start (q : TxQueue) : TxQueue × Res := startOr none q

/-- `stop()`. -/
def stop (q : TxQueue) : TxQueue × Res := Stateful.stop stopImpl q

end TxQueue

end Vnic
