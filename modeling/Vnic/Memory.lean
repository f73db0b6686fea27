/-
Packet memory: `PacketBuffer` blocks in the process heap, the block pool
`memory::Pool`, and `PacketDescriptor`.

# The heap

Blocks live in a finite heap keyed by 64-bit addresses, `0` being
`nullptr`. A `malloc` is any function that answers null or the address
of a block that is not live (`Malloc` carries that fact); it sees the
heap, so one `Malloc` can fail at any chosen segment of a `put`, and an
address may be handed out again once its block was freed.

# Faults

Releasing a block that is not live, writing to one, and decrementing the
live counter below zero are recorded in `Memory.faults` and otherwise do
nothing. The source has undefined behaviour (or a wrapped counter) at
those points; "it never happens" is the statement `faults = []`. A load
from a dead address reads the zero block. The port records its failed
assertions and table accesses in the same place.
-/
import Vnic.Basic
import Vnic.Lib.Chain

namespace Vnic

-- ======================================================= blocks, memory

/-- An address; `0` is `nullptr`. -/
abbrev Ptr := UInt64

/-- `nullptr`. -/
def nullptr : Ptr := 0

/-- `PacketBuffer`: the segment header and the payload area that follows
it in the block. -/
structure PacketBuffer where
  next : Ptr := nullptr
  length : UInt32 := 0
  payload : List UInt8 := []
  deriving DecidableEq, Repr

/-- `getPacket()`: the first `length` bytes behind the header. -/
def PacketBuffer.getPacket (b : PacketBuffer) : List UInt8 :=
  b.payload.take b.length.toNat

instance : Linked Ptr PacketBuffer where
  null := nullptr
  next := PacketBuffer.next

/-- The live blocks. -/
abbrev Blocks := Linked.Heap Ptr PacketBuffer

/-- What a run must never do. -/
inductive Fault
  | badFree (p : Ptr)
  | badStore (p : Ptr)
  | liveUnderflow
  | retaSize (size : Nat)
  | retaIndex (index : Nat)
  | queueIndex (queueId : Nat)
  deriving DecidableEq, Repr

/-- The process memory as the packet path sees it. -/
structure Memory where
  blocks : Blocks := ∅
  faults : List Fault := []

/-- `std::malloc`: null, or a fresh non-null address. -/
structure Malloc where
  answer : Blocks → Option Ptr
  fresh : ∀ h p, answer h = some p → p ≠ nullptr ∧ p ∉ h

/-- `malloc` answers `n` times in a row, starting from the heap `h`. -/
def Malloc.Supplies (malloc : Malloc) : Blocks → Nat → Prop
  | _, 0 => True
  | h, n + 1 => ∃ p, malloc.answer h = some p
      ∧ malloc.Supplies (h.insert p {}) n

/-- The largest live address. -/
def Blocks.top (h : Blocks) : Nat :=
  h.keys.foldr (fun p n => max p.toNat n) 0

theorem Blocks.le_top {h : Blocks} {p : Ptr} (hp : p ∈ h) :
    p.toNat ≤ Blocks.top h := by
  have hmem : p ∈ h.keys := hp
  unfold Blocks.top
  generalize h.keys = ks at hmem
  induction ks with
  | nil => cases hmem
  | cons k ks ih =>
      rw [List.foldr_cons]
      rcases List.mem_cons.1 hmem with rfl | hk
      · exact Nat.le_max_left ..
      · exact (ih hk).trans (Nat.le_max_right ..)

/-- The simplest allocator that meets the contract: the address above
every live one. Concrete runs are evaluated under it. -/
def Malloc.bump : Malloc where
  answer h :=
    if Blocks.top h + 1 < 2 ^ 64 then some (UInt64.ofNat (Blocks.top h + 1))
    else none
  fresh := by
    intro h p hp
    split at hp
    · next hlt =>
      simp only [Option.some.injEq] at hp
      have hval : p.toNat = Blocks.top h + 1 := by
        rw [← hp, UInt64.toNat_ofNat']
        exact Nat.mod_eq_of_lt hlt
      refine ⟨fun h0 => ?_, fun hmem => ?_⟩
      · rw [h0] at hval
        cases hval
      · have := Blocks.le_top hmem
        omega
    · cases hp

namespace Memory

/-- `it->field`: a load from a dead address reads the zero block. -/
def load (m : Memory) (p : Ptr) : PacketBuffer :=
  (m.blocks.lookup p).getD {}

/-- Overwrite a live block. -/
def store (m : Memory) (p : Ptr) (b : PacketBuffer) : Memory :=
  if p ∈ m.blocks then { m with blocks := m.blocks.insert p b }
  else { m with faults := m.faults ++ [.badStore p] }

/-- `std::free(p)`. -/
def free (m : Memory) (p : Ptr) : Memory :=
  if p = nullptr then m
  else if p ∈ m.blocks then { m with blocks := m.blocks.erase p }
  else { m with faults := m.faults ++ [.badFree p] }

/-- The segments of the chain at `p`. -/
def segments (m : Memory) (p : Ptr) : List Ptr := Linked.chainOf m.blocks p

/-- The concatenated segment payloads of the chain at `p`. -/
def contents (m : Memory) (p : Ptr) : List UInt8 :=
  Linked.dataOf PacketBuffer.getPacket m.blocks (m.segments p)

end Memory

-- ================================================================ pool

/-- `Pool::Config`. -/
structure Pool.Config where
  blockSize : UInt32 := 0
  capacity : UInt32 := 0
  socketId : UInt32 := 0
  deriving DecidableEq, Repr

/-- `memory::Pool<N>`: the counters of a `malloc`-backed pool. -/
structure Pool where
  config : Pool.Config := {}
  live : UInt64 := 0
  total : UInt64 := 0
  deriving DecidableEq, Repr

namespace Pool

/-- `Config::isValid()`. -/
def Config.isValid (c : Config) : Bool := decide (0 < c.capacity)

/-- `configure(config)`. -/
def configure (pool : Pool) (config : Config) : Pool × Res :=
  if config.isValid then ({ pool with config := config }, .ok ())
  else (pool, .error .configPoolInvalid)

/-- `allocate()`: a new block's contents are indeterminate; the zero
block stands for them and is overwritten before it is read. -/
def allocate (malloc : Malloc) (m : Memory) (pool : Pool) :
    (Memory × Pool) × Except ErrorCode Ptr :=
  match malloc.answer m.blocks with
  | none => ((m, pool), .error .memoryPoolExhausted)
  | some p =>
      (({ m with blocks := m.blocks.insert p {} },
        { pool with live := pool.live + 1, total := pool.total + 1 }),
        .ok p)

/-- `deallocate(ptr)`. -/
def deallocate (m : Memory) (pool : Pool) (p : Ptr) : Memory × Pool :=
  if p = nullptr then (m.free p, pool)
  else
    let m := if pool.live = 0
      then { m with faults := m.faults ++ [.liveUnderflow] } else m
    (m.free p, { pool with live := pool.live - 1 })

/-- `liveBlocks()`. -/
def liveBlocks (pool : Pool) : Nat := pool.live.toNat

/-- `for (j < bufferIdx) memPool_.deallocate(buffers[j])`. -/
def deallocateAll (m : Memory) (pool : Pool) : List Ptr → Memory × Pool
  | [] => (m, pool)
  | p :: rest =>
      let (m, pool) := pool.deallocate m p
      deallocateAll m pool rest

end Pool

-- ========================================================= descriptors

/-- `PacketDescriptor`. -/
structure PacketDescriptor where
  timestamp : UInt64 := 0
  hash : UInt32 := 0
  queueId : UInt16 := 0
  offloads : UInt32 := 0
  vlanId : UInt16 := 0
  totalLength : UInt32 := 0
  buffer : Ptr := nullptr
  deriving DecidableEq, Repr

end Vnic
