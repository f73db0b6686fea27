/-
`TxQueue::put` with the variables of its two loops.

The model in `Vnic.TxQueue` has the sum and the concatenation the loops
compute. Here they are loops: a segment counter and a `size_t` sum in the
first, an offset into the linear buffer in the second, and no limit on the
number of iterations but the fuel. Running out of fuel and a `memcpy` that
does not fit into the buffer both answer `none`; each loop also answers
the segments it visited.
-/
import Vnic.TxQueue

namespace Vnic.RawTxQueue

open TxQueue

/-- `std::memcpy(packet.data() + offset, bytes.data(), bytes.size())`. -/
def memcpyAt (packet : List UInt8) (offset : Nat) (bytes : List UInt8) :
    Option (List UInt8) :=
  if offset + bytes.length ≤ packet.length then
    some (packet.take offset ++ bytes ++ packet.drop (offset + bytes.length))
  else none

/-- The first `do .. while (it)`: counts the segments and sums their
lengths. -/
def scanLoop (m : Memory) :
    Nat → Ptr → Nat → Nat → Option (List Ptr × Except ErrorCode Nat)
  | 0, _, _, _ => none
  | fuel + 1, it, segments, total =>
      if kMaxSegments ≤ segments then
        some ([], .error .txSegmentLimitExceeded)
      else
        let total := (total + (m.load it).length.toNat) % 2 ^ 64
        if (m.load it).next = nullptr then some ([it], .ok total)
        else
          match scanLoop m fuel (m.load it).next (segments + 1) total with
          | none => none
          | some (visited, r) => some (it :: visited, r)

/-- One turn of the second loop: empty segments are skipped. -/
def copySegment (segment : List UInt8) (offset : Nat)
    (packet : List UInt8) : Option (Nat × List UInt8) :=
  if segment = [] then some (offset, packet)
  else
    match memcpyAt packet offset segment with
    | none => none
    | some packet => some (offset + segment.length, packet)

/-- The second `do .. while (it)`: copies the payloads. -/
def copyLoop (m : Memory) :
    Nat → Ptr → Nat → List UInt8 → Option (List Ptr × List UInt8)
  | 0, _, _, _ => none
  | fuel + 1, it, offset, packet =>
      match copySegment (m.load it).getPacket offset packet with
      | none => none
      | some (offset, packet) =>
          if (m.load it).next = nullptr then some ([it], packet)
          else
            match copyLoop m fuel (m.load it).next offset packet with
            | none => none
            | some (visited, packet) => some (it :: visited, packet)

/-- What is left of `put` once the packet is linear. -/
def send (alloc : Alloc) (desc : PacketDescriptor) (packet : List UInt8)
    (s : Link × TxQueue) : (Link × TxQueue) × Res :=
  let dropped : Link × TxQueue := (s.1, s.2.drop desc)
  if s.2.link_ = false then (dropped, .error .txLinkUnavailable)
  else
    match s.1.putTx alloc.link packet with
    | (_, .error e) =>
        (dropped, .error (if e ≠ .none then e else .txLinkRejected))
    | (link, .ok ()) =>
        ((link, { s.2 with
            stats := s.2.stats.fetchProcessed desc.totalLength.toNat }),
          .ok ())

/-- The segments each pass visited. -/
structure Passes where
  first : List Ptr := []
  second : List Ptr := []

/-- `put(desc)`. -/
def put (fuel : Nat) (alloc : Alloc) (m : Memory) (desc : PacketDescriptor)
    (s : Link × TxQueue) : Option (Passes × (Link × TxQueue) × Res) :=
  let dropped : Link × TxQueue := (s.1, s.2.drop desc)
  if desc.buffer = nullptr then
    some ({}, dropped, .error .txDescriptorNull)
  else
    match scanLoop m fuel desc.buffer 0 0 with
    | none => none
    | some (first, .error e) => some ({ first := first }, dropped, .error e)
    | some (first, .ok total) =>
        if total ≠ desc.totalLength.toNat then
          some ({ first := first }, dropped, .error .txLengthMismatch)
        else if alloc.resize = false then
          some ({ first := first }, dropped, .error .txAllocationFailed)
        else
          match copyLoop m fuel desc.buffer 0 (List.replicate total 0) with
          | none => none
          | some (second, packet) =>
              some ({ first := first, second := second },
                send alloc desc packet s)

end Vnic.RawTxQueue
