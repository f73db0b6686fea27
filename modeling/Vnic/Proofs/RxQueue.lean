/-
One specification per `RxQueue` operation. Later files cite these and
never unfold the operations.

- `put_cases`: a `put` either publishes one descriptor over a chain of
  fresh segments that spells the packet (`Published`), or refuses for a
  stated reason and leaves the blocks, `used_` and the live counter as
  they were (`Refused`).
- `filled_chain`, `filled_contents`, `filled_segment`: the published
  chain, its bytes, and the shape of each segment.
- `free_eq`, `drain_eq`: the owned chains of the argument go, the rest of
  the heap stays.
- `startOr_cases`, `stop_cases`, `configure_cases`: the lifecycle calls.
-/
import Vnic.Proofs.Memory

namespace Vnic.RxQueue

open Linked

variable {m m' : Memory} {q q' : RxQueue} {ps : List Ptr}
  {packet : Frame} {desc : PacketDescriptor}

-- ================================================= the published chain

/-- The segments have room for the packet. -/
theorem segmentCount_mul (bytes : Nat) :
    bytes ≤ segmentCount bytes * kPacketBufferSize := by
  unfold segmentCount kPacketBufferSize
  omega

theorem segmentCount_pos {bytes : Nat} (h : 0 < bytes) :
    0 < segmentCount bytes := by
  unfold segmentCount kPacketBufferSize
  omega

/-- The memory after the fill loop over fresh segments. -/
def filled (m : Memory) (packet : Frame) (ps : List Ptr) : Memory :=
  fillSegments packet (m.reserved ps) 0 ps

theorem filled_faults (packet : Frame) (ps : List Ptr) :
    (filled m packet ps).faults = m.faults :=
  (fillSegments_frame packet 0
    fun _ hp => mem_insertAll.2 (Or.inl hp)).1

/-- The fill loop leaves every block that was live before untouched. -/
private theorem filled_lookup_old (hf : FreshSegments m ps) {k : Ptr}
    (hk : k ∈ m.blocks) :
    (filled m packet ps).blocks.lookup k = m.blocks.lookup k := by
  have hnot : k ∉ ps := fun h => hf.notMem k h hk
  rw [filled, (fillSegments_frame packet 0
    fun _ hp => mem_insertAll.2 (Or.inl hp)).2.2 k hnot]
  exact lookup_insertAll_of_notMem hnot

/-- What the `i`-th segment of the published chain holds. -/
theorem filled_segment (hf : FreshSegments m ps) (packet : Frame) {p : Ptr}
    {i : Nat} (hi : ps[i]? = some p) :
    (filled m packet ps).blocks.lookup p
      = some (segmentAt packet (i * kPacketBufferSize)
          ((ps.drop (i + 1)).headD nullptr)) := by
  have h := fillSegments_lookup (m := m.reserved ps) packet 0 hf.nodup
    (fun _ hp => mem_insertAll.2 (Or.inl hp)) hi
  rwa [Nat.zero_add] at h

/-- Every suffix of the fresh segments is a chain of the filled heap. -/
private theorem filled_chain_suffix (hf : FreshSegments m ps) (packet : Frame)
    :
    ∀ (pre suf : List Ptr), ps = pre ++ suf →
      Chain (filled m packet ps).blocks (suf.headD nullptr) suf := by
  intro pre suf
  induction suf generalizing pre with
  | nil => intro _; exact .nil
  | cons p suf ih =>
      intro hps
      have hi : ps[pre.length]? = some p := by simp [hps]
      have hnext : (ps.drop (pre.length + 1)).headD nullptr
          = suf.headD nullptr := by
        simp [hps, List.drop_append]
      have hl := filled_segment hf packet hi
      rw [hnext] at hl
      exact .cons (hf.ne_null p (by simp [hps])) hl
        (ih (pre ++ [p]) (by simp [hps]))

/-- The fill loop links the blocks into one chain. -/
theorem filled_chain (hf : FreshSegments m ps) (packet : Frame) :
    Chain (filled m packet ps).blocks (ps.headD nullptr) ps :=
  filled_chain_suffix hf packet [] ps rfl

/-- The bytes a suffix of the chain holds: the packet from its offset
on, as far as the segments reach. -/
private theorem filled_data_suffix (hf : FreshSegments m ps) (packet : Frame) :
    ∀ (pre suf : List Ptr), ps = pre ++ suf →
      dataOf PacketBuffer.getPacket (filled m packet ps).blocks suf
        = (packet.drop (pre.length * kPacketBufferSize)).take
            (suf.length * kPacketBufferSize) := by
  intro pre suf
  induction suf generalizing pre with
  | nil => intro _; simp [dataOf]
  | cons p suf ih =>
      intro hps
      have hi : ps[pre.length]? = some p := by simp [hps]
      have hl := filled_segment hf packet hi
      have hrest := ih (pre ++ [p]) (by simp [hps])
      rw [List.length_append, List.length_singleton, Nat.add_mul,
        Nat.one_mul] at hrest
      show ((_ : Option PacketBuffer).map _).getD [] ++ dataOf _ _ suf = _
      rw [hrest, hl, Option.map_some, Option.getD_some, segmentAt_getPacket,
        List.length_cons, Nat.add_mul, Nat.one_mul,
        Nat.add_comm (suf.length * _), List.take_add, List.drop_drop]

/-- The published chain spells the packet. -/
theorem filled_contents (hf : FreshSegments m ps)
    (hcount : ps.length = segmentCount packet.length) :
    (filled m packet ps).contents (ps.headD nullptr) = packet := by
  have hc := filled_chain hf packet
  have hd := filled_data_suffix hf packet [] ps rfl
  unfold Memory.contents Memory.segments
  rw [hc.chainOf_eq, hd, List.length_nil, Nat.zero_mul, List.drop_zero,
    hcount, List.take_of_length_le (segmentCount_mul _)]

/-- The published chain joins the owners, and the others do not see it. -/
theorem filled_owners {ds : List PacketDescriptor} (h : Owners m ds)
    (hf : FreshSegments m ps) (packet : Frame) {d : PacketDescriptor}
    (hd : d.buffer = ps.headD nullptr) :
    Owners (filled m packet ps) (d :: ds)
      ∧ SameChains m (filled m packet ps) ds := by
  refine ⟨?_, (h.sameChains fun k hk => ?_).2⟩
  · unfold Owners
    rw [List.map_cons, hd]
    exact h.cons_of_fresh (fun k hk => filled_lookup_old hf hk)
      (filled_chain hf packet) hf.notMem
  · exact filled_lookup_old hf (h.owned.live k hk)

-- ================================================================= put

/-- The descriptor `put` publishes. -/
def stamped (desc : PacketDescriptor) (packet : Frame) (ps : List Ptr) :
    PacketDescriptor :=
  { desc with
    buffer := ps.headD nullptr
    totalLength := UInt32.ofNat packet.length }

/-- The queue after a successful `put`. -/
def published (q : RxQueue) (desc : PacketDescriptor) (packet : Frame)
    (ps : List Ptr) : RxQueue :=
  { q with
    free_ := { q.free_ with queue := q.free_.queue.tail }
    used_ := { q.used_ with
      queue := q.used_.queue ++ [stamped desc packet ps] }
    memPool := q.memPool.grown ps.length
    stats := q.stats.fetchProcessed packet.length }

/-- A `put` that publishes. -/
structure Published (m : Memory) (q : RxQueue) (desc : PacketDescriptor)
    (packet : Frame) (ps : List Ptr) (m' : Memory) (q' : RxQueue) : Prop where
  pos : 0 < packet.length
  limit : segmentCount packet.length ≤ kMaxSegments
  slot : q.free_.queue ≠ []
  room : q.used_.isFullLocked = false
  fresh : FreshSegments m ps
  count : ps.length = segmentCount packet.length
  mem : m' = filled m packet ps
  queue : q' = q.published desc packet ps

/-- Why a `put` refuses. -/
inductive Refusal (malloc : Malloc) (m : Memory) (q : RxQueue)
    (packet : Frame) : ErrorCode → Prop
  | zeroLength : packet.length = 0 →
      Refusal malloc m q packet .queueZeroLengthPacket
  | tooLarge : 2 ^ 32 - 1 < packet.length →
      Refusal malloc m q packet .queuePacketTooLarge
  | segmentLimit : 0 < packet.length → packet.length ≤ 2 ^ 32 - 1 →
      kMaxSegments < segmentCount packet.length →
      Refusal malloc m q packet .queueSegmentLimitExceeded
  | exhausted : segmentCount packet.length ≤ kMaxSegments →
      ¬ malloc.Supplies m.blocks (segmentCount packet.length) →
      Refusal malloc m q packet .memoryPoolExhausted
  | freeEmpty : q.free_.queue = [] →
      Refusal malloc m q packet .queueFreeListEmpty
  | usedFull : q.used_.isFullLocked = true →
      Refusal malloc m q packet .queueUsedListFull

/-- The two refusals that count an overflow. -/
def IsOverflow (e : ErrorCode) : Prop :=
  e = .queueSegmentLimitExceeded ∨ e = .queueFreeListEmpty

instance (e : ErrorCode) : Decidable (IsOverflow e) :=
  inferInstanceAs (Decidable (_ ∨ _))

/-- A `put` that refuses with `e`: everything it took is given back. The
segments `ps` it held in between bound where the live counter went. -/
structure Refused (malloc : Malloc) (m : Memory) (q : RxQueue)
    (packet : Frame) (e : ErrorCode) (m' : Memory) (q' : RxQueue) :
    Prop where
  reason : Refusal malloc m q packet e
  blocks : m'.blocks = m.blocks
  faults : ∃ ps, FreshSegments m ps
    ∧ (q.memPool.live.toNat + ps.length < 2 ^ 64 → m'.faults = m.faults)
  pool : ∃ n, q'.memPool = q.memPool.spent n
  used : q'.used_ = q.used_
  state : q'.state = q.state
  config : q'.config = q.config
  free : q'.free_ = q.free_
    ∨ ∃ slot rest, q.free_.queue = slot :: rest
        ∧ q'.free_ = (Fifo.push { q.free_ with queue := rest } slot).1
  unpopped : e ≠ .queueUsedListFull → q'.free_ = q.free_
  stats : q'.stats
    = if IsOverflow e then q.stats.fetchOverflows else q.stats

/-- No block is needed for nothing. -/
theorem FreshSegments.nil (m : Memory) : FreshSegments m [] :=
  ⟨List.nodup_nil, fun _ h => absurd h (by simp), fun _ h => absurd h (by simp)⟩

/-- Giving back the segments of a fill restores the heap. -/
theorem undo_blocks (hf : FreshSegments m ps) {pool : Pool} :
    (pool.deallocateAll (filled m packet ps) ps).1.blocks = m.blocks := by
  have howned : Owned (filled m packet ps) ps :=
    Owned.of_chain (filled_chain hf packet)
  rw [Pool.deallocateAll_blocks howned]
  -- the writes of the fill loop sit under keys that are erased
  have habsorb : ∀ (qs : List Ptr) (n : Memory) (off : Nat),
      (∀ p ∈ qs, p ∈ ps) → (∀ p ∈ qs, p ∈ n.blocks) →
      eraseAll (fillSegments packet n off qs).blocks ps
        = eraseAll n.blocks ps := by
    intro qs
    induction qs with
    | nil => intro n off _ _; rfl
    | cons p qs ih =>
        intro n off hps hlive
        rw [fillSegments_cons packet off p (hlive p (List.mem_cons_self ..)),
          ih _ _ (fun r hr => hps r (List.mem_cons_of_mem _ hr))
            (fun r hr => (AList.mem_insert _).2
              (Or.inr (hlive r (List.mem_cons_of_mem _ hr)))),
          Memory.written,
          eraseAll_insert_of_mem (hps p (List.mem_cons_self ..))]
  rw [filled, habsorb ps _ 0 (fun _ h => h)
    (fun _ hp => mem_insertAll.2 (Or.inl hp)), Memory.reserved]
  exact eraseAll_insertAll hf.notMem

/-- Giving back what was taken, the counter is where it was. -/
private theorem undo_pool (hf : FreshSegments m ps) {n : Memory} {pool : Pool}
    :
    ((pool.grown ps.length).deallocateAll n ps).2
      = pool.spent ps.length :=
  Pool.deallocateAll_grown hf.ne_null

/-- Where the counter does not wrap, it counts. -/
theorem grown_live {pool : Pool} {n : Nat}
    (h : pool.live.toNat + n < 2 ^ 64) :
    (pool.grown n).live.toNat = pool.live.toNat + n := by
  show (pool.live + UInt64.ofNat n).toNat = _
  rw [UInt64.toNat_add, UInt64.toNat_ofNat']
  omega

/-- And no fault is recorded. -/
private theorem undo_faults {n : Memory} (hf : Owned n ps)
    {pool : Pool} (h : pool.live.toNat + ps.length < 2 ^ 64) :
    ((pool.grown ps.length).deallocateAll n ps).1.faults = n.faults :=
  Pool.deallocateAll_faults hf (by rw [grown_live h]; omega)

/-- What the phase before the pop can do. -/
theorem putFill_cases (malloc : Malloc) (desc : PacketDescriptor)
    (packet : Frame) (m : Memory) (q : RxQueue) :
    (∃ e m' q', putFill malloc desc packet (m, q) = ((m', q'), .error e)
      ∧ Refused malloc m q packet e m' q')
    ∨ (0 < packet.length ∧ segmentCount packet.length ≤ kMaxSegments
      ∧ ∃ ps, FreshSegments m ps ∧ ps.length = segmentCount packet.length
        ∧ putFill malloc desc packet (m, q)
          = ((filled m packet ps,
              { q with memPool := q.memPool.grown ps.length }),
              .ok (stamped desc packet ps, ps))) := by
  unfold putFill
  simp only
  -- the guards in the source's order, then the reservation of the segments
  split
  · next h0 =>
    exact Or.inl ⟨_, _, _, rfl, .zeroLength h0, rfl,
      ⟨[], FreshSegments.nil m, fun _ => rfl⟩, ⟨0, by simp [Pool.spent]⟩,
      rfl, rfl, rfl, Or.inl rfl, fun _ => rfl, rfl⟩
  · next h0 =>
    split
    · next hbig =>
      exact Or.inl ⟨_, _, _, rfl, .tooLarge hbig, rfl,
        ⟨[], FreshSegments.nil m, fun _ => rfl⟩, ⟨0, by simp [Pool.spent]⟩,
        rfl, rfl, rfl, Or.inl rfl, fun _ => rfl, rfl⟩
    · next hbig =>
      split
      · next hseg =>
        exact Or.inl ⟨_, _, _, rfl,
          .segmentLimit (Nat.pos_of_ne_zero h0) (Nat.le_of_not_lt hbig) hseg,
          rfl, ⟨[], FreshSegments.nil m, fun _ => rfl⟩,
          ⟨0, by simp [Pool.spent]⟩, rfl, rfl, rfl, Or.inl rfl,
          fun _ => rfl, rfl⟩
      · next hseg =>
        have halloc := allocSegments_cases malloc q.memPool
          (segmentCount packet.length) (FreshSegments.nil m)
        rw [show (m.reserved [], q.memPool.grown ([] : List Ptr).length)
          = (m, q.memPool) by simp [Memory.reserved, Pool.grown]] at halloc
        rcases halloc with ⟨ps, hf, hlen, heq⟩ | ⟨ps, hf, -, hnone, heq⟩
        · rw [heq]
          refine Or.inr ⟨Nat.pos_of_ne_zero h0, Nat.le_of_not_lt hseg,
            ps, hf, by simpa using hlen, rfl⟩
        · rw [heq]
          have hblocks : ((q.memPool.grown ps.length).deallocateAll
              (m.reserved ps) ps).1.blocks = m.blocks := by
            rw [Pool.deallocateAll_blocks hf.owned]
            exact eraseAll_insertAll hf.notMem
          exact Or.inl ⟨_, _, _, rfl,
            .exhausted (Nat.le_of_not_lt hseg) hnone, hblocks,
            ⟨ps, hf, fun hlt => undo_faults hf.owned hlt⟩,
            ⟨ps.length, undo_pool hf⟩, rfl, rfl, rfl, Or.inl rfl,
            fun _ => rfl, rfl⟩

/-- What a `put` can do. -/
theorem put_cases (malloc : Malloc) (desc : PacketDescriptor)
    (packet : Frame) (m : Memory) (q : RxQueue) :
    (∃ ps m' q', put malloc desc packet (m, q) = ((m', q'), .ok ())
      ∧ Published m q desc packet ps m' q')
    ∨ (∃ e m' q', put malloc desc packet (m, q) = ((m', q'), .error e)
      ∧ Refused malloc m q packet e m' q') := by
  unfold put
  rcases putFill_cases malloc desc packet m q with
    ⟨e, m', q', heq, href⟩ | ⟨hpos, hlim, ps, hf, hlen, heq⟩
  · rw [heq]
    exact Or.inr ⟨e, m', q', rfl, href⟩
  · rw [heq]
    simp only
    have howned : Owned (filled m packet ps) ps :=
      Owned.of_chain (filled_chain hf packet)
    have hfaults : q.memPool.live.toNat + ps.length < 2 ^ 64 →
        ((q.memPool.grown ps.length).deallocateAll
          (filled m packet ps) ps).1.faults = m.faults := fun hlt => by
      rw [undo_faults howned hlt, filled_faults]
    -- a slot first, then room in used_: the slot is lost when the push
    -- fails
    unfold putPop Fifo.pop
    cases hfree : q.free_.queue with
    | nil =>
        exact Or.inr ⟨_, _, _, rfl, .freeEmpty hfree, undo_blocks hf,
          ⟨ps, hf, hfaults⟩, ⟨ps.length, undo_pool hf⟩, rfl, rfl, rfl,
          Or.inl rfl, fun _ => rfl, rfl⟩
    | cons slot rest =>
        simp only
        unfold putPush
        cases hfull : q.used_.isFullLocked with
        | true =>
            rw [Fifo.push_of_full hfull]
            exact Or.inr ⟨_, _, _, rfl, .usedFull hfull, undo_blocks hf,
              ⟨ps, hf, hfaults⟩, ⟨ps.length, undo_pool hf⟩, rfl, rfl, rfl,
              Or.inr ⟨slot, rest, hfree, rfl⟩, fun h => absurd rfl h, rfl⟩
        | false =>
            rw [Fifo.push_of_room hfull]
            refine Or.inl ⟨ps, _, _, rfl, hpos, hlim, by simp [hfree],
              hfull, hf, hlen, rfl, ?_⟩
            simp [published, hfree]

/-- With a slot, room in `used_` and memory, `put` accepts exactly the
non-empty packets that fit the segment limit. -/
theorem put_ok_iff {malloc : Malloc} (hslot : q.free_.queue ≠ [])
    (hroom : q.used_.isFullLocked = false)
    (hmalloc : segmentCount packet.length ≤ kMaxSegments →
      malloc.Supplies m.blocks (segmentCount packet.length)) :
    (put malloc desc packet (m, q)).2 = .ok ()
      ↔ 1 ≤ packet.length
        ∧ packet.length ≤ kMaxSegments * kPacketBufferSize := by
  rcases put_cases malloc desc packet m q with
    ⟨ps, m', q', heq, hp⟩ | ⟨e, m', q', heq, hr⟩
  · rw [heq]
    refine ⟨fun _ => ⟨hp.pos, ?_⟩, fun _ => rfl⟩
    exact (segmentCount_mul _).trans (Nat.mul_le_mul_right _ hp.limit)
  · rw [heq]
    refine ⟨fun h => (by cases h), fun ⟨hpos, hle⟩ => ?_⟩
    have hcount : segmentCount packet.length ≤ kMaxSegments := by
      unfold segmentCount kMaxSegments kPacketBufferSize at *
      omega
    -- each reason for a refusal is excluded by a hypothesis or by the
    -- bounds
    exfalso
    cases hr.reason with
    | zeroLength h0 => omega
    | tooLarge hbig =>
        unfold kMaxSegments kPacketBufferSize at hle
        omega
    | segmentLimit _ _ hseg => omega
    | exhausted _ hno => exact hno (hmalloc hcount)
    | freeEmpty hempty => exact hslot hempty
    | usedFull hfull =>
        rw [hroom] at hfull
        cases hfull

-- ====================================================== free and drain

/-- `free` over separated chains, in closed form. -/
theorem free_eq {ds : List PacketDescriptor} (h : Owners m ds) :
    (free ds (m, q)).1
      = ((q.memPool.deallocateAll m (m.segmentsOf ds)).1,
          { q with
            memPool := (q.memPool.deallocateAll m (m.segmentsOf ds)).2
            free_ := (q.free_.pushAll ds).1 }) := by
  unfold free
  simp only
  rw [releaseAll_eq h]
  cases hpush : q.free_.pushAll ds with
  | mk f r =>
      cases r with
      | ok _ => rfl
      | error _ => rfl

/-- `drain` over separated chains, in closed form. -/
theorem drain_eq (h : Owners m q.used_.queue) :
    drain (m, q)
      = ((q.memPool.deallocateAll m (m.segmentsOf q.used_.queue)).1,
          { q with
            free_ := { q.free_ with queue := [] }
            used_ := { q.used_ with queue := [] }
            memPool := (q.memPool.deallocateAll m
              (m.segmentsOf q.used_.queue)).2 }) := by
  unfold drain
  simp only
  rw [releaseAll_eq h]
  rfl

-- =========================================================== lifecycle

/-- The queue with a valid configuration applied. -/
def applied (config : Config) (q : RxQueue) : RxQueue :=
  { q with
    config := config
    memPool := { q.memPool with
      config :=
        { blockSize := UInt32.ofNat kPacketBufferSize
          capacity := config.size
          socketId := config.socketId } }
    free_ := { q.free_ with
      config :=
        { capacity := config.size.toNat, socketId := config.socketId } }
    used_ := { q.used_ with
      config :=
        { capacity := config.size.toNat, socketId := config.socketId } } }

/-- `configureImpl` by the one check it makes. -/
private theorem configureImpl_eq (config : Config) (q : RxQueue) :
    configureImpl config q
      = if config.isValid then (q.applied config, .ok ())
        else (q, .error .configQueueSizeInvalid) := by
  unfold configureImpl
  split
  · next hv =>
    have hpool : Pool.Config.isValid
        { blockSize := UInt32.ofNat kPacketBufferSize
          capacity := config.size
          socketId := config.socketId } = true := hv
    simp only [Pool.configure, hpool, if_true, Fifo.configure]
    rfl
  · rfl

/-- What `configure` can do to a queue. -/
theorem configure_cases (config : Config) (q : RxQueue) :
    (¬ Stateful.Configurable q.state
      ∧ configure config q = (q, .error .stateConfigureNotAllowed))
    ∨ (Stateful.Configurable q.state ∧ config.isValid = true
      ∧ configure config q
        = ({ q.applied config with state := .configured }, .ok ()))
    ∨ (Stateful.Configurable q.state ∧ config.isValid = false
      ∧ configure config q
        = ({ q with state := .error }, .error .configQueueSizeInvalid)) := by
  have himpl := configureImpl_eq config (Stateful.setState .configuring q)
  rcases Stateful.configure_cases (configureImpl config) q with
    ⟨hno, heq⟩ | ⟨hc, ⟨t, ht, heq⟩ | ⟨t, e, ht, heq⟩⟩
  · exact Or.inl ⟨hno, heq⟩
  -- configureImpl answers by isValid alone
  · cases hv : config.isValid with
    | false =>
        rw [himpl, hv] at ht
        simp at ht
    | true =>
        rw [himpl, hv] at ht
        simp only [if_true, Prod.mk.injEq, and_true] at ht
        subst ht
        exact Or.inr (Or.inl ⟨hc, rfl, heq⟩)
  · cases hv : config.isValid with
    | false =>
        rw [himpl, hv] at ht
        simp only [Bool.false_eq_true, if_false, Prod.mk.injEq,
          Except.error.injEq] at ht
        obtain ⟨rfl, rfl⟩ := ht
        exact Or.inr (Or.inr ⟨hc, rfl, heq⟩)
    | true =>
        rw [himpl, hv] at ht
        simp at ht

/-- A started queue cannot be configured. -/
theorem configure_of_started {q : RxQueue} (config : Config)
    (h : q.state = .started) :
    configure config q = (q, .error .stateConfigureNotAllowed) := by
  rcases configure_cases config q with ⟨-, heq⟩ | ⟨hc, -⟩ | ⟨hc, -⟩
  · exact heq
  · exact absurd h hc.ne_started
  · exact absurd h hc.ne_started

/-- `configure` neither starts nor stops a queue. -/
theorem configure_running (config : Config) (q : RxQueue) :
    (q.configure config).1.state = .started ↔ q.state = .started := by
  rcases configure_cases config q with ⟨-, h⟩ | ⟨hc, -, h⟩ | ⟨hc, -, h⟩
  · rw [h]
  · rw [h]
    exact ⟨fun hs => (by cases hs), fun hs => absurd hs hc.ne_started⟩
  · rw [h]
    exact ⟨fun hs => (by cases hs), fun hs => absurd hs hc.ne_started⟩

/-- The fill loop with room for every descriptor. -/
theorem startLoop_of_room :
    ∀ (n : Nat) (f : Fifo PacketDescriptor),
      f.queue.length + n ≤ f.config.capacity →
      startLoop n f
        = ({ f with queue := f.queue ++ List.replicate n {} }, .ok ()) := by
  intro n
  induction n with
  | zero => intro f _; simp [startLoop]
  | succ n ih =>
      intro f hroom
      have hnf : f.isFullLocked = false :=
        Fifo.isFullLocked_eq_false_of_lt (by omega)
      unfold startLoop
      rw [Fifo.push_of_room hnf]
      simp only
      rw [ih _ (by simp; omega)]
      simp [List.replicate_succ]

/-- The fill loop without room for every descriptor. -/
theorem startLoop_of_full :
    ∀ (n : Nat) (f : Fifo PacketDescriptor), f.config.capacity ≠ 0 →
      f.config.capacity < f.queue.length + n →
      (startLoop n f).2 = .error .queueFull
        ∨ n = 0 := by
  intro n
  induction n with
  | zero => intro f _ _; exact Or.inr rfl
  | succ n ih =>
      intro f h0 hlt
      apply Or.inl
      unfold startLoop
      cases hfull : f.isFullLocked with
      | true => rw [Fifo.push_of_full hfull]
      | false =>
          rw [Fifo.push_of_room hfull]
          simp only
          have hlen : f.queue.length < f.config.capacity := by
            rw [Bool.eq_false_iff, Ne, Fifo.isFullLocked_iff] at hfull
            omega
          rcases ih { f with queue := f.queue ++ [{}] } h0
            (by simp; omega) with h | h
          · exact h
          · omega

/-- The fill of `free_` leaves its capacity. -/
theorem startLoop_config :
    ∀ (n : Nat) (f : Fifo PacketDescriptor),
      (startLoop n f).1.config = f.config := by
  intro n
  induction n with
  | zero => intro f; rfl
  | succ n ih =>
      intro f
      unfold startLoop
      cases hp : f.push {} with
      | mk f' r =>
          have hc : f'.config = f.config := by
            rw [← Fifo.push_config f {}, hp]
          cases r with
          | ok _ => rw [← hc]; exact ih f'
          | error _ => exact hc

/-- `Ready q q₀`: `start` on `q` gets to run `startImpl`, on `q₀`. A
stopped queue is configured first. -/
inductive Ready (q : RxQueue) : RxQueue → Prop
  | configured : q.state = .configured → Ready q q
  | stopped : q.state = .stopped → q.config.isValid = true →
      Ready q { q.applied q.config with state := .configured }

/-- What the implicit configuration leaves alone. -/
theorem Ready.same {q₀ : RxQueue} (h : Ready q q₀) :
    q₀.state = .configured ∧ q₀.config = q.config ∧ q₀.stats = q.stats
      ∧ q₀.free_.queue = q.free_.queue ∧ q₀.used_.queue = q.used_.queue
      ∧ q₀.memPool.live = q.memPool.live := by
  cases h with
  | configured hc => exact ⟨hc, rfl, rfl, rfl, rfl, rfl⟩
  | stopped _ _ => exact ⟨rfl, rfl, rfl, rfl, rfl, rfl⟩

/-- A `start` that ran and failed: both FIFOs are drained. -/
def startFailed (m : Memory) (q₀ : RxQueue) : Memory × RxQueue :=
  Stateful.setState .error (drain (m, { q₀ with state := .started }))

/-- Draining forgets what the fill loop had stored. -/
theorem drain_startLoop (n : Nat) (m : Memory) (q : RxQueue) :
    drain (m, { q with free_ := (startLoop n q.free_).1 })
      = drain (m, q) := by
  unfold drain
  simp only [startLoop_config]

/-- `startImpl` under an injected failure. -/
theorem startImplOr_eq (inject : Option ErrorCode) (m : Memory)
    (q : RxQueue) :
    startImplOr inject (m, q)
      = match inject, (startLoop q.config.size.toNat q.free_).2 with
        | some e, _ => (drain (m, q), .error e)
        | none, .error e => (drain (m, q), .error e)
        | none, .ok () =>
            ((m, { q with
                  free_ := (startLoop q.config.size.toNat q.free_).1 }),
              .ok ()) := by
  cases inject with
  | some e => rfl
  | none =>
      have hdrain := drain_startLoop q.config.size.toNat m q
      unfold startImplOr startImpl
      cases hl : startLoop q.config.size.toNat q.free_ with
      | mk f r =>
          rw [hl] at hdrain
          cases r with
          | ok _ => rfl
          | error e =>
              simp only
              rw [hdrain]

/-- What `start` can do. -/
theorem startOr_cases (inject : Option ErrorCode) (m : Memory)
    (q : RxQueue) :
    (q.state ≠ .stopped ∧ q.state ≠ .configured
      ∧ startOr inject (m, q) = ((m, q), .error .stateStartNotAllowed))
    ∨ (q.state = .stopped ∧ q.config.isValid = false
      ∧ startOr inject (m, q)
        = ((m, { q with state := .error }), .error .configQueueSizeInvalid))
    ∨ (∃ q₀, Ready q q₀ ∧ inject = none
      ∧ (startLoop q₀.config.size.toNat q₀.free_).2 = .ok ()
      ∧ startOr inject (m, q)
        = ((m, { q₀ with
              state := .started
              free_ := (startLoop q₀.config.size.toNat q₀.free_).1 }),
            .ok ()))
    ∨ (∃ q₀ e, Ready q q₀
      ∧ (inject = some e ∨ inject = none
        ∧ (startLoop q₀.config.size.toNat q₀.free_).2 = .error e)
      ∧ startOr inject (m, q) = (startFailed m q₀, .error e)) := by
  -- from a configured queue the outcome is that of `startImpl`
  have hready : ∀ q₀ : RxQueue, Ready q q₀ →
      startOr inject (m, q) = Stateful.start (startImplOr inject) (m, q₀) →
      (∃ q₀, Ready q q₀ ∧ inject = none
        ∧ (startLoop q₀.config.size.toNat q₀.free_).2 = .ok ()
        ∧ startOr inject (m, q)
          = ((m, { q₀ with
                state := .started
                free_ := (startLoop q₀.config.size.toNat q₀.free_).1 }),
              .ok ()))
      ∨ (∃ q₀ e, Ready q q₀
        ∧ (inject = some e ∨ inject = none
          ∧ (startLoop q₀.config.size.toNat q₀.free_).2 = .error e)
        ∧ startOr inject (m, q) = (startFailed m q₀, .error e)) := by
    intro q₀ hr heq
    have himpl := startImplOr_eq inject m { q₀ with state := .started }
    rw [heq]
    rcases Stateful.start_cases (startImplOr inject) (m, q₀) with
      ⟨hno, -⟩ | ⟨-, ⟨t, ht, hres⟩ | ⟨t, e, ht, hres⟩⟩
    · exact absurd hr.same.1 hno
    · have ht' := himpl.symm.trans ht
      cases inject with
      | some e => cases ht'
      | none =>
          cases hl : (startLoop q₀.config.size.toNat q₀.free_).2 with
          | error e => simp [hl] at ht'
          | ok u =>
              simp only [hl, Prod.mk.injEq, and_true] at ht'
              subst ht'
              exact Or.inl ⟨q₀, hr, rfl, hl, hres⟩
    · have ht' := himpl.symm.trans ht
      cases inject with
      | some e' =>
          cases ht'
          exact Or.inr ⟨q₀, e, hr, Or.inl rfl, hres⟩
      | none =>
          cases hl : (startLoop q₀.config.size.toNat q₀.free_).2 with
          | ok u => simp [hl] at ht'
          | error e' =>
              simp only [hl, Prod.mk.injEq, Except.error.injEq] at ht'
              obtain ⟨rfl, rfl⟩ := ht'
              exact Or.inr ⟨q₀, e', hr, Or.inr ⟨rfl, hl⟩, hres⟩
  by_cases hs : q.state = .stopped
  · rcases configure_cases q.config q with
      ⟨hno, -⟩ | ⟨-, hv, heq⟩ | ⟨-, hv, heq⟩
    · exact absurd (Or.inl hs) hno
    · refine Or.inr (Or.inr (hready _ (.stopped hs hv) ?_))
      unfold startOr
      simp only [hs, if_true, heq]
    · refine Or.inr (Or.inl ⟨hs, hv, ?_⟩)
      unfold startOr
      simp only [hs, if_true, heq]
  · have hplain : startOr inject (m, q)
        = Stateful.start (startImplOr inject) (m, q) := by
      unfold startOr
      rw [if_neg hs]
    by_cases hc : q.state = .configured
    · exact Or.inr (Or.inr (hready q (.configured hc) hplain))
    · refine Or.inl ⟨hs, hc, ?_⟩
      rw [hplain]
      unfold Stateful.start
      rw [Stateful.cas, if_neg (show Stateful.getState (m, q) ≠ _ from hc)]

/-- A started queue cannot be started. -/
theorem startOr_of_started {q : RxQueue} (inject : Option ErrorCode)
    (m : Memory) (h : q.state = .started) :
    startOr inject (m, q) = ((m, q), .error .stateStartNotAllowed) := by
  have hready : ∀ q₀, ¬ Ready q q₀ := by
    intro q₀ hr
    cases hr with
    | configured hc => rw [h] at hc; cases hc
    | stopped hc _ => rw [h] at hc; cases hc
  rcases startOr_cases inject m q with
    ⟨-, -, heq⟩ | ⟨hs, -⟩ | ⟨q₀, hr, -⟩ | ⟨q₀, e, hr, -⟩
  · exact heq
  · rw [h] at hs
    cases hs
  · exact absurd hr (hready q₀)
  · exact absurd hr (hready q₀)

/-- What `stop` can do; `stopImpl` never fails. -/
theorem stop_cases (m : Memory) (q : RxQueue) :
    (q.state ≠ .started
      ∧ stop (m, q) = ((m, q), .error .stateStopNotAllowed))
    ∨ (q.state = .started
      ∧ stop (m, q)
        = (Stateful.setState .stopped
            (drain (m, { q with state := .stopping })), .ok ())) := by
  rcases Stateful.stop_cases stopImpl (m, q) with
    ⟨hno, heq⟩ | ⟨hs, ⟨t, ht, heq⟩ | ⟨t, e, ht, heq⟩⟩
  · exact Or.inl ⟨hno, heq⟩
  · cases ht
    exact Or.inr ⟨hs, heq⟩
  · cases ht

end Vnic.RxQueue
