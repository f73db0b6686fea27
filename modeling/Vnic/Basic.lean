/-
Vocabulary shared by every component: the error codes the modelled
functions return, the compile-time constants, raw byte blocks in network
order, and the counter set of `stats::Stats`.

# Machine integers

Fields that the source declares with a fixed width keep it (`UInt16`
queue ids, `UInt32` hashes and lengths, `UInt64` counters), so a counter
wraps exactly where the source's does. Sizes of containers are `Nat`:
the source compares them and never does arithmetic on them that could
leave 64 bits.

# Byte order

A `__be16`, `__be32` or `in6_addr` is a memory block, not a number: it
is `Bytes n`, the bytes in the order they stand in the frame. `ntohs`
and `ntohl` read such a block as a number. This makes the model
independent of the host's endianness, as `ntohs` and `memcmp` are.
-/
import Mathlib.Data.Vector.Basic
import Mathlib.Tactic.Common

namespace Vnic

-- ========================================================= error codes

/-- `ErrorCode`, restricted to the codes a modelled function returns or
compares with. -/
inductive ErrorCode
  | none
  | timeout
  -- state machine
  | stateConfigureNotAllowed
  | stateStartNotAllowed
  | stateStopNotAllowed
  -- config
  | configMtuInvalid
  | configMacInvalid
  | configVlanInvalid
  | configQueueCountInvalid
  | configRssKeyTooShort
  | configRssRetaSizeNotPowerOfTwo
  | configRssRetaQueueOutOfRange
  | configLinkRxDepthInvalid
  | configLinkTxDepthInvalid
  | configLinkRxFrameSizeInvalid
  | configLinkTxFrameSizeInvalid
  | configQueueInvalid
  | configQueueSizeInvalid
  | configPoolInvalid
  -- link
  | linkConfigureFailed
  | linkPacketEmpty
  | linkRxQueueFull
  | linkTxQueueFull
  | linkAllocationFailed
  -- memory
  | memoryPoolExhausted
  | allocatorAllocationFailed
  -- queues
  | queueFull
  | queueNotConfigured
  | queueStartFailed
  | queueStopFailed
  | queueInvalidId
  | queueInvalidConfig
  | queueSegmentLimitExceeded
  | queueZeroLengthPacket
  | queuePacketTooLarge
  | queueFreeListEmpty
  | queueUsedListFull
  | queueFreeListFull
  -- parser
  | parseTruncated
  | parseEthernetTooShort
  | parseUnsupportedEtherType
  | parseIpv4TooShort
  | parseInvalidIpv4Version
  | parseInvalidIpv4HeaderLength
  | parseIpv6TooShort
  | parseInvalidIpv6Version
  | parseArpTooShort
  | parseInvalidArpHeaderLength
  | parseTcpTooShort
  | parseUdpTooShort
  | parseIcmpTooShort
  -- validation
  | validationFrameTooShort
  | validationFrameTooLong
  | validationFcsInvalid
  | validationDstMacMismatch
  | validationVlanRejected
  | validationIpTotalLengthInvalid
  | validationIpv4ChecksumInvalid
  -- RSS
  | rssRetaEmpty
  | rssRetaSizeInvalid
  | rssRetaQueueOutOfRange
  -- TX
  | txDescriptorNull
  | txSegmentLimitExceeded
  | txLengthMismatch
  | txLinkUnavailable
  | txLinkRejected
  | txAllocationFailed
  -- threads
  | threadCreateFailed
  deriving DecidableEq, Repr

/-- `std::expected<void, ErrorCode>`. -/
abbrev Res := Except ErrorCode Unit

-- =========================================================== constants

/-- Maximum number of segments in a buffer chain, and the maximum number
of descriptors drained by one `RxQueue::take()`. -/
def kMaxSegments : Nat := 512

/-- Size of the payload area of one `PacketBuffer` segment. -/
def kPacketBufferSize : Nat := 2048

/-- Minimum frame size: the link carries no FCS. -/
def kMinFrameSize : Nat := 60

-- =========================================================== raw bytes

/-- A frame, or any other `std::span<const std::byte>`. -/
abbrev Frame := List UInt8

/-- A block of `n` bytes of memory. -/
abbrev Bytes (n : Nat) := List.Vector UInt8 n

/-- `utils::LoadUnaligned`: copy `n` bytes from offset `off`. The bounds
proof is part of the call, so a load outside the buffer cannot be
written down. -/
def loadUnaligned (n : Nat) (data : Frame) (off : Nat)
    (h : off + n ≤ data.length) : Bytes n :=
  ⟨(data.drop off).take n, by simp; omega⟩

/-- The sub-block of `len` bytes at `off`. -/
def Bytes.slice {n : Nat} (b : Bytes n) (off len : Nat)
    (h : off + len ≤ n) : Bytes len :=
  loadUnaligned len b.toList off (by simpa using h)

/-- `ntohs`: the number a 16-bit network-order block stands for. -/
def ntohs (b : Bytes 2) : Nat := (b.get 0).toNat * 256 + (b.get 1).toNat

/-- `ntohl`: the number a 32-bit network-order block stands for. -/
def ntohl (b : Bytes 4) : Nat :=
  (((b.get 0).toNat * 256 + (b.get 1).toNat) * 256
    + (b.get 2).toNat) * 256 + (b.get 3).toNat

/-- The sign of `std::memcmp` on two blocks of one length. -/
def memcmp : List UInt8 → List UInt8 → Ordering
  | a :: as, b :: bs =>
      if a < b then .lt else if b < a then .gt else memcmp as bs
  | _, _ => .eq

/-- Blocks of one length that compare equal are equal. -/
theorem eq_of_memcmp {as bs : List UInt8} (hlen : as.length = bs.length)
    (h : memcmp as bs = .eq) : as = bs := by
  induction as generalizing bs with
  | nil =>
      cases bs with
      | nil => rfl
      | cons b bs => simp at hlen
  | cons a as ih =>
      cases bs with
      | nil => simp at hlen
      | cons b bs =>
          unfold memcmp at h
          split at h
          · cases h
          · next hlt =>
            split at h
            · cases h
            · next hgt =>
              have heq : a = b := by
                apply UInt8.toNat_inj.1
                rw [UInt8.lt_iff_toNat_lt] at hlt hgt
                omega
              rw [heq, ih (by simpa using hlen) h]

@[simp]
theorem memcmp_self (as : List UInt8) : memcmp as as = .eq := by
  induction as with
  | nil => rfl
  | cons a as ih =>
      unfold memcmp
      rw [if_neg (UInt8.lt_irrefl a), if_neg (UInt8.lt_irrefl a)]
      exact ih

-- ============================================================ counters

/-- `stats::Stats`: the counter set of the port and of each queue. -/
structure Stats where
  processedPackets : UInt64 := 0
  processedBytes : UInt64 := 0
  droppedPackets : UInt64 := 0
  droppedBytes : UInt64 := 0
  errors : UInt64 := 0
  overflows : UInt64 := 0
  transmittedPackets : UInt64 := 0
  transmittedBytes : UInt64 := 0
  txDroppedPackets : UInt64 := 0
  txDroppedBytes : UInt64 := 0
  deriving DecidableEq, Repr

namespace Stats

/-- `fetchProcessedPackets()` and `fetchProcessedBytes(n)`: the source
always bumps the pair. -/
def fetchProcessed (s : Stats) (n : Nat) : Stats :=
  { s with
    processedPackets := s.processedPackets + 1
    processedBytes := s.processedBytes + UInt64.ofNat n }

/-- `fetchDroppedPackets()` and `fetchDroppedBytes(n)`. -/
def fetchDropped (s : Stats) (n : Nat) : Stats :=
  { s with
    droppedPackets := s.droppedPackets + 1
    droppedBytes := s.droppedBytes + UInt64.ofNat n }

/-- `fetchErrors()`. -/
def fetchErrors (s : Stats) : Stats := { s with errors := s.errors + 1 }

/-- `fetchOverflows()`. -/
def fetchOverflows (s : Stats) : Stats :=
  { s with overflows := s.overflows + 1 }

/-- `fetchTransmittedPackets()` and `fetchTransmittedBytes(n)`. -/
def fetchTransmitted (s : Stats) (n : Nat) : Stats :=
  { s with
    transmittedPackets := s.transmittedPackets + 1
    transmittedBytes := s.transmittedBytes + UInt64.ofNat n }

/-- `fetchTxDroppedPackets()` and `fetchTxDroppedBytes(n)`. -/
def fetchTxDropped (s : Stats) (n : Nat) : Stats :=
  { s with
    txDroppedPackets := s.txDroppedPackets + 1
    txDroppedBytes := s.txDroppedBytes + UInt64.ofNat n }

/-- `reset()`. -/
def reset (_ : Stats) : Stats := {}

end Stats

end Vnic
