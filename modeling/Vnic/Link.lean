/-
`Link`: the two byte pipes between the port and the outside.

A frame in a pipe is the copy `put` made of it; nothing shares that
copy, so the pipe is a `Fifo` of frames (`Vnic.LinkSystem` has the spans,
the heap and the threads). Allocation of the copy and growth of the
caller's buffer in `take` may fail; each call says whether its own did.
`take` pops before it copies, so a failed copy loses the frame.
-/
import Vnic.Fifo

namespace Vnic

/-- `Link::Config`. -/
structure Link.Config where
  rxQueueDepth : UInt32 := 256
  txQueueDepth : UInt32 := 256
  rxFrameSize : UInt32 := 4096
  txFrameSize : UInt32 := 4096
  deriving DecidableEq, Repr

/-- `Link`. -/
structure Link where
  rxQueue : Fifo Frame := {}
  txQueue : Fifo Frame := {}
  config : Link.Config := {}
  up : Bool := false
  deriving DecidableEq, Repr

namespace Link

/-- `Config::validate()`. -/
def Config.validate (c : Config) : ErrorCode :=
  if c.rxQueueDepth = 0 then .configLinkRxDepthInvalid
  else if c.txQueueDepth = 0 then .configLinkTxDepthInvalid
  else if c.rxFrameSize = 0 then .configLinkRxFrameSizeInvalid
  else if c.txFrameSize = 0 then .configLinkTxFrameSizeInvalid
  else .none

/-- `put(packet, queue, allocator, fullError)`; `alloc` is whether
`malloc` has room for the copy. -/
def put (alloc : Bool) (packet : Frame) (queue : Fifo Frame)
    (fullError : ErrorCode) : Fifo Frame × Res :=
  if packet = [] then (queue, .error .linkPacketEmpty)
  else if alloc = false then (queue, .error .allocatorAllocationFailed)
  else
    match queue.push packet with
    | (_, .error _) => (queue, .error fullError)
    | (queue, .ok ()) => (queue, .ok ())

/-- `take(packet, queue, allocator, timeout)` into an empty buffer;
`alloc` is whether the buffer can grow to the frame. -/
def take (alloc : Bool) (queue : Fifo Frame) :
    Fifo Frame × Except ErrorCode Frame :=
  match queue.pop with
  | (none, _) => (queue, .error .timeout)
  | (some data, queue) =>
      if alloc then (queue, .ok data)
      else (queue, .error .linkAllocationFailed)

/-- `putRx(packet)`. -/
def putRx (alloc : Bool) (packet : Frame) (l : Link) : Link × Res :=
  match put alloc packet l.rxQueue .linkRxQueueFull with
  | (queue, r) => ({ l with rxQueue := queue }, r)

/-- `takeRx(packet, timeout)`. -/
def takeRx (alloc : Bool) (l : Link) : Link × Except ErrorCode Frame :=
  match take alloc l.rxQueue with
  | (queue, r) => ({ l with rxQueue := queue }, r)

/-- `putTx(packet)`. -/
def putTx (alloc : Bool) (packet : Frame) (l : Link) : Link × Res :=
  match put alloc packet l.txQueue .linkTxQueueFull with
  | (queue, r) => ({ l with txQueue := queue }, r)

/-- `takeTx(packet, timeout)`. -/
def takeTx (alloc : Bool) (l : Link) : Link × Except ErrorCode Frame :=
  match take alloc l.txQueue with
  | (queue, r) => ({ l with txQueue := queue }, r)

-- ================================================= the caller's vector

/-- `std::vector<std::byte>`: its bytes, and the room it has for them. -/
structure ByteVector where
  bytes : Frame
  capacity : Nat
  fits : bytes.length ≤ capacity

/-- `std::bad_alloc`, the one exception `takeRx` and `takeTx` catch. -/
inductive BadAlloc
  | badAlloc
  deriving DecidableEq, Repr

/-- `insert(end(), ..)`: in place where the bytes fit, else in a new store
of the size needed or more. `growth` is what the request for that store
gets, `none` for `std::bad_alloc`; no byte has moved by then. -/
def ByteVector.insert (v : ByteVector) (data : Frame)
    (growth : Option Nat) : ByteVector × Except BadAlloc Unit :=
  if h : v.bytes.length + data.length ≤ v.capacity then
    (⟨v.bytes ++ data, v.capacity, List.length_append.trans_le h⟩, .ok ())
  else
    match growth with
    | none => (v, .error .badAlloc)
    | some capacity =>
        (⟨v.bytes ++ data, max capacity (v.bytes.length + data.length),
          List.length_append.trans_le (Nat.le_max_right ..)⟩, .ok ())

/-- `take(packet, queue, allocator, timeout)` with the caller's vector. The
scope guard stands from the pop on: it releases the popped copy on every
way out, the exception of `insert` included. -/
def takeInto (growth : Option Nat) (packet : ByteVector)
    (queue : Fifo Frame) :
    (ByteVector × Fifo Frame) × Except BadAlloc (Except ErrorCode Nat) :=
  match queue.pop with
  | (none, _) => ((packet, queue), .ok (.error .timeout))
  | (some data, queue) =>
      match packet.insert data growth with
      | (packet, .error e) => ((packet, queue), .error e)
      | (packet, .ok ()) => ((packet, queue), .ok (.ok data.length))

/-- The handler of `takeRx` and `takeTx`. -/
def catchBadAlloc :
    Except BadAlloc (Except ErrorCode Nat) → Except ErrorCode Nat
  | .error .badAlloc => .error .linkAllocationFailed
  | .ok r => r

/-- `takeRx(packet, timeout)` with the caller's vector. -/
def takeRxInto (growth : Option Nat) (packet : ByteVector) (l : Link) :
    (ByteVector × Link) × Except ErrorCode Nat :=
  match takeInto growth packet l.rxQueue with
  | ((packet, queue), r) =>
      ((packet, { l with rxQueue := queue }), catchBadAlloc r)

/-- `takeTx(packet, timeout)` with the caller's vector. -/
def takeTxInto (growth : Option Nat) (packet : ByteVector) (l : Link) :
    (ByteVector × Link) × Except ErrorCode Nat :=
  match takeInto growth packet l.txQueue with
  | ((packet, queue), r) =>
      ((packet, { l with txQueue := queue }), catchBadAlloc r)

-- ======================================================== configuration

/-- `configure(config)`: frames already in the pipes stay. -/
def configure (config : Config) (l : Link) : Link × Res :=
  match config.validate with
  | .none =>
      ({ l with
          config := config
          rxQueue := l.rxQueue.reserve config.rxQueueDepth.toNat
          txQueue := l.txQueue.reserve config.txQueueDepth.toNat }, .ok ())
  | code => (l, .error code)

/-- `up()` and `down()`. -/
def setUp (up : Bool) (l : Link) : Link := { l with up := up }

-- ================================================================ facts

/-- An accepted frame stands last in the pipe; a refused one leaves it
alone. -/
theorem put_cases (alloc : Bool) (packet : Frame) (queue : Fifo Frame)
    (fullError : ErrorCode) :
    (∃ e, put alloc packet queue fullError = (queue, .error e))
    ∨ (packet ≠ [] ∧ alloc = true ∧ queue.isFullLocked = false
      ∧ put alloc packet queue fullError
        = ({ queue with queue := queue.queue ++ [packet] }, .ok ())) := by
  by_cases hp : packet = []
  · exact Or.inl ⟨_, by simp only [put, hp, if_true]; rfl⟩
  · cases alloc with
    | false => exact Or.inl ⟨_, by simp only [put, if_neg hp, if_true]; rfl⟩
    | true =>
        cases hf : queue.isFullLocked with
        | true =>
            exact Or.inl ⟨fullError, by
              simp [put, hp, Fifo.push_of_full hf]⟩
        | false =>
            exact Or.inr ⟨hp, rfl, rfl, by
              simp [put, hp, Fifo.push_of_room hf]⟩

theorem put_of_room {packet : Frame} {queue : Fifo Frame}
    (hp : packet ≠ []) (hroom : queue.isFullLocked = false)
    (fullError : ErrorCode) :
    put true packet queue fullError
      = ({ queue with queue := queue.queue ++ [packet] }, .ok ()) := by
  simp [put, hp, Fifo.push_of_room hroom]

/-- `take` answers the head frame, loses it, or times out. -/
theorem take_cases (alloc : Bool) (queue : Fifo Frame) :
    (queue.queue = [] ∧ take alloc queue = (queue, .error .timeout))
    ∨ ∃ data rest, queue.queue = data :: rest
      ∧ ((alloc = true
          ∧ take alloc queue = ({ queue with queue := rest }, .ok data))
        ∨ (alloc = false
          ∧ take alloc queue
            = ({ queue with queue := rest },
                .error .linkAllocationFailed))) := by
  cases hq : queue.queue with
  | nil => exact Or.inl ⟨rfl, by simp [take, Fifo.pop, hq]⟩
  | cons data rest =>
      refine Or.inr ⟨data, rest, rfl, ?_⟩
      cases alloc with
      | true => exact Or.inl ⟨rfl, by simp [take, Fifo.pop, hq]⟩
      | false => exact Or.inr ⟨rfl, by simp [take, Fifo.pop, hq]⟩

theorem configure_of_valid {c : Config} (hv : c.validate = .none)
    (l : Link) :
    l.configure c
      = ({ l with
            config := c
            rxQueue := l.rxQueue.reserve c.rxQueueDepth.toNat
            txQueue := l.txQueue.reserve c.txQueueDepth.toNat }, .ok ()) := by
  unfold configure
  rw [hv]

/-- A valid configuration sets both depths; an invalid one changes
nothing. -/
theorem configure_cases (c : Config) (l : Link) :
    (c.validate = .none
      ∧ l.configure c
        = ({ l with
              config := c
              rxQueue := l.rxQueue.reserve c.rxQueueDepth.toNat
              txQueue := l.txQueue.reserve c.txQueueDepth.toNat }, .ok ()))
    ∨ ∃ code, l.configure c = (l, .error code) := by
  by_cases hv : c.validate = .none
  · exact Or.inl ⟨hv, configure_of_valid hv l⟩
  · refine Or.inr ⟨c.validate, ?_⟩
    unfold configure
    split
    · next h => exact absurd h hv
    · rfl

end Link

end Vnic
