/-
What a refused `RxQueue::put` leaves behind.

The two scope guards give back whatever had been taken when a stage
failed: the segments, then the slot. The segments always come back. The
slot goes back through `free_.push`, whose answer the guard ignores, so it
comes back as long as `free_` was within its capacity. On a started queue
it is, whatever was called before (`started_within`): only a `configure`
can lower the capacity under descriptors that a stopped queue was handed
back, and a queue in that shape does not start.

The three size errors are decided before the first allocation.
-/
import Vnic.Proofs.RxSystem

namespace Vnic

-- ============================================== queues within capacity

namespace Fifo

variable {α : Type} {f : Fifo α}

/-- The queue is unbounded or holds no more than its capacity. -/
def Within (f : Fifo α) : Prop :=
  f.config.capacity = 0 ∨ f.queue.length ≤ f.config.capacity

instance (f : Fifo α) : Decidable f.Within :=
  inferInstanceAs (Decidable (_ ∨ _))

/-- Fewer elements are within the capacity too. -/
theorem Within.of_le {queue : List α} (h : f.Within)
    (hle : queue.length ≤ f.queue.length) :
    Within { f with queue := queue } := by
  rcases h with h0 | hcap
  · exact Or.inl h0
  · exact Or.inr (hle.trans hcap)

private theorem within_append (hroom : f.isFullLocked = false) (x : α) :
    Within { f with queue := f.queue ++ [x] } := by
  rw [Bool.eq_false_iff, Ne, isFullLocked_iff] at hroom
  show f.config.capacity = 0 ∨ (f.queue ++ [x]).length ≤ f.config.capacity
  rw [List.length_append, List.length_singleton]
  omega

/-- No push goes beyond the capacity. -/
theorem Within.pushAllLoop (h : f.Within) (xs : List α) :
    Within (f.pushAllLoop xs).1 := by
  induction xs generalizing f with
  | nil => exact h
  | cons x xs ih =>
      unfold Fifo.pushAllLoop
      cases hfull : f.isFullLocked with
      | true => exact h
      | false => exact ih (within_append hfull x)

/-- An element that was just popped goes back in. -/
private theorem push_popped (h : f.Within) {x : α} {rest : List α}
    (hq : f.queue = x :: rest) :
    (push { f with queue := rest } x).1
      = { f with queue := rest ++ [x] } := by
  have hroom : isFullLocked { f with queue := rest } = false := by
    rw [Bool.eq_false_iff, Ne, isFullLocked_iff]
    rintro ⟨h0, hle⟩
    rcases h with h | h
    · exact h0 h
    · rw [hq, List.length_cons] at h
      exact absurd (hle.trans_lt h) (Nat.lt_irrefl _)
  rw [push_of_room hroom]

end Fifo

namespace RxQueue

variable {malloc : Malloc} {desc : PacketDescriptor} {packet : Frame}
  {m m' : Memory} {q q' : RxQueue} {e : ErrorCode}

-- ======================================================== what comes back

/-- Everything a `put` that failed with `e` must have given back, and the
overflow it must have counted. -/
structure Unwound (m : Memory) (q : RxQueue) (e : ErrorCode) (m' : Memory)
    (q' : RxQueue) : Prop where
  used : q'.used_ = q.used_
  free : (e = .queueUsedListFull → q.free_.Within) →
    q'.free_.queue.Perm q.free_.queue
  blocks : m'.blocks = m.blocks
  live : q'.memPool.liveBlocks = q.memPool.liveBlocks
  packets : q'.stats.processedPackets = q.stats.processedPackets
  bytes : q'.stats.processedBytes = q.stats.processedBytes
  overflows : q'.stats.overflows
    = q.stats.overflows + if IsOverflow e then 1 else 0

/-- Every refusal, by the table of what each one touches. -/
private theorem Refused.unwound (h : Refused malloc m q packet e m' q') :
    Unwound m q e m' q' := by
  -- only the last refusal has popped a slot, and has to push it back
  have hfree : (e = .queueUsedListFull → q.free_.Within) →
      q'.free_.queue.Perm q.free_.queue := by
    intro hwithin
    by_cases he : e = .queueUsedListFull
    · have hw := hwithin he
      rcases h.free with heq | ⟨slot, rest, hq, heq⟩
      · rw [heq]
      · rw [heq, Fifo.push_popped hw hq, hq]
        exact List.perm_append_singleton slot rest
    · rw [h.unpopped he]
  have hlive : q'.memPool.liveBlocks = q.memPool.liveBlocks := by
    obtain ⟨n, hn⟩ := h.pool
    rw [hn]
    rfl
  have hstats := h.stats
  by_cases ho : IsOverflow e
  · rw [if_pos ho] at hstats
    refine ⟨h.used, hfree, h.blocks, hlive, ?_, ?_, ?_⟩
    · rw [hstats]
      rfl
    · rw [hstats]
      rfl
    · rw [hstats, if_pos ho]
      rfl
  · rw [if_neg ho] at hstats
    refine ⟨h.used, hfree, h.blocks, hlive, ?_, ?_, ?_⟩
    · rw [hstats]
    · rw [hstats]
    · rw [hstats, if_neg ho]
      exact (UInt64.add_zero _).symm

-- ======================================================== the size errors

/-- The error a packet of `n` bytes gets for its size alone. -/
def sizeError (n : Nat) : Option ErrorCode :=
  if n = 0 then some .queueZeroLengthPacket
  else if 2 ^ 32 - 1 < n then some .queuePacketTooLarge
  else if kMaxSegments * kPacketBufferSize < n then
    some .queueSegmentLimitExceeded
  else none

/-- The limit on segments as one on bytes. -/
private theorem segmentLimit_iff (n : Nat) :
    kMaxSegments < segmentCount n ↔ kMaxSegments * kPacketBufferSize < n := by
  unfold segmentCount kMaxSegments kPacketBufferSize
  omega

/-- A size error is all there is: no allocation, no write, at most an
overflow counted. -/
private theorem put_of_sizeError (h : sizeError packet.length = some e) :
    put malloc desc packet (m, q)
      = ((m, { q with
            stats := if IsOverflow e then q.stats.fetchOverflows
              else q.stats }), .error e) := by
  unfold sizeError at h
  unfold put putFill
  simp only [segmentLimit_iff]
  by_cases h0 : packet.length = 0
  · rw [if_pos h0] at h ⊢
    cases h
    rfl
  · rw [if_neg h0] at h ⊢
    by_cases hbig : 2 ^ 32 - 1 < packet.length
    · rw [if_pos hbig] at h ⊢
      cases h
      rfl
    · rw [if_neg hbig] at h ⊢
      by_cases hseg : kMaxSegments * kPacketBufferSize < packet.length
      · rw [if_pos hseg] at h ⊢
        cases h
        rfl
      · rw [if_neg hseg] at h
        cases h

private theorem sizeError_zeroLength_iff {n : Nat} :
    sizeError n = some .queueZeroLengthPacket ↔ n = 0 := by
  unfold sizeError
  split
  · next h0 => exact iff_of_true rfl h0
  · next h0 =>
    refine iff_of_false ?_ h0
    split
    · exact fun h => (by cases h)
    · split <;> exact fun h => (by cases h)

private theorem sizeError_tooLarge_iff {n : Nat} :
    sizeError n = some .queuePacketTooLarge ↔ 2 ^ 32 - 1 < n := by
  unfold sizeError
  split
  · next h0 => exact iff_of_false (fun h => (by cases h)) (by omega)
  · split
    · next hbig => exact iff_of_true rfl hbig
    · next hbig =>
      refine iff_of_false ?_ hbig
      split <;> exact fun h => (by cases h)

private theorem sizeError_segmentLimit_iff {n : Nat} :
    sizeError n = some .queueSegmentLimitExceeded
      ↔ 512 * 2048 + 1 ≤ n ∧ n ≤ 2 ^ 32 - 1 := by
  unfold sizeError kMaxSegments kPacketBufferSize
  split
  · next h0 => exact iff_of_false (fun h => (by cases h)) (by omega)
  · split
    · next hbig => exact iff_of_false (fun h => (by cases h)) (by omega)
    · split
      · next hseg => exact iff_of_true rfl (by omega)
      · next hseg => exact iff_of_false (fun h => (by cases h)) (by omega)

/-- The three errors are given for the size and for nothing else. -/
private theorem Refusal.sizeError (h : Refusal malloc m q packet e)
    (he : e = .queueZeroLengthPacket ∨ e = .queuePacketTooLarge
      ∨ e = .queueSegmentLimitExceeded) :
    sizeError packet.length = some e := by
  cases h with
  | zeroLength h0 => exact sizeError_zeroLength_iff.2 h0
  | tooLarge hbig => exact sizeError_tooLarge_iff.2 hbig
  | segmentLimit hpos hle hseg =>
      exact sizeError_segmentLimit_iff.2 ⟨(segmentLimit_iff _).1 hseg, hle⟩
  | exhausted _ _ => rcases he with h | h | h <;> cases h
  | freeEmpty _ => rcases he with h | h | h <;> cases h
  | usedFull _ => rcases he with h | h | h <;> cases h

/-- The size errors are decided by the size alone. -/
private theorem put_error_iff_sizeError
    (he : e = .queueZeroLengthPacket ∨ e = .queuePacketTooLarge
      ∨ e = .queueSegmentLimitExceeded) :
    (put malloc desc packet (m, q)).2 = .error e
      ↔ sizeError packet.length = some e := by
  constructor
  · intro h
    rcases put_cases malloc desc packet m q with
      ⟨ps, m', q', heq, -⟩ | ⟨e', m', q', heq, href⟩
    · rw [heq] at h
      cases h
    · rw [heq] at h
      cases h
      exact href.reason.sizeError he
  · intro h
    rw [put_of_sizeError h]

end RxQueue

-- ==================================================== the started queue

namespace RxSystem

variable {s t : RxSystem} {a : Op} {e : Event}

/-- A fill loop that gets through leaves the queue within its capacity. -/
private theorem startLoop_within {n : Nat} {f : Fifo PacketDescriptor}
    (hn : n ≠ 0) (h : (RxQueue.startLoop n f).2 = .ok ()) :
    Fifo.Within (RxQueue.startLoop n f).1 := by
  by_cases h0 : f.config.capacity = 0
  · refine Or.inl ?_
    rw [RxQueue.startLoop_config]
    exact h0
  · by_cases hroom : f.queue.length + n ≤ f.config.capacity
    · rw [RxQueue.startLoop_of_room n f hroom]
      refine Or.inr ?_
      rw [List.length_append, List.length_replicate]
      exact hroom
    · rcases RxQueue.startLoop_of_full n f h0 (Nat.lt_of_not_le hroom) with
        herr | hzero
      · cases h.symm.trans herr
      · exact absurd hzero hn

/-- While the queue is started, `free_` is within its capacity. -/
def FreeWithin (s : RxSystem) : Prop :=
  s.queue.state = .started → s.queue.free_.Within

/-- The invariant by the moves of a step: only a fill and a return add to
`free_`, and both stop at the capacity. -/
theorem FreeWithin.step (hw : FreeWithin s) (hi : Inv s)
    (h : s.step a = some (t, e)) : FreeWithin t := by
  intro hst
  -- a slot that goes back was there a moment ago, so there is room for it
  cases step_moves h with
  | keep hstate hfree _ =>
      rw [hfree]
      exact hw (hstate ▸ hst)
  | settle _ ht _ _ => exact absurd hst ht
  | fill _ hok hfree _ =>
      rw [hfree]
      exact startLoop_within (Nat.ne_of_gt hi.sized.pos) hok
  | empty ht _ _ => exact absurd hst ht
  | publish hstate hq hfree =>
      rw [hfree]
      refine (hw (hstate ▸ hst)).of_le ?_
      rw [hq, List.length_cons]
      exact Nat.le_succ _
  | undo hstate hq hfree _ =>
      have hwq := hw (hstate ▸ hst)
      rw [hfree, Fifo.push_popped hwq hq]
      refine hwq.of_le (Nat.le_of_eq ?_)
      rw [hq, List.length_append, List.length_singleton, List.length_cons]
  | take hstate hfree _ =>
      rw [hfree]
      exact hw (hstate ▸ hst)
  | free _ hstate hfree _ =>
      rw [hfree, Fifo.pushAll_fst]
      exact (hw (hstate ▸ hst)).pushAllLoop _

/-- Whatever was called before, a started queue has `free_` within its
capacity. -/
theorem started_within {blocks : Blocks} {as : List Op} {es : List Event}
    (hrun : rxSystem.run (RxSystem.init blocks) as = some (s, es)) :
    FreeWithin s := by
  have hboth : Inv s ∧ FreeWithin s := by
    refine rxSystem.run_invariant (I := fun s => Inv s ∧ FreeWithin s) ?_
      ⟨Inv.init blocks, fun _ => Or.inl rfl⟩ hrun
    rintro s t a e ⟨hi, hw⟩ hstep
    exact ⟨hi.step hstep, hw.step hi hstep⟩
  exact hboth.2

end RxSystem

-- =============================================================== result

namespace RxQueue

/-- A `put` that fails, at whatever stage and under whatever `malloc`,
has given back all it took and counted an overflow exactly where it
should. Where `used_` was full, the slot needs `free_` to be within its
capacity for that, as it is on every started queue. The three size
errors are given exactly for their sizes, and before anything is
allocated. -/
theorem put_failure_atomic (malloc : Malloc) (desc : PacketDescriptor)
    (packet : Frame) (m : Memory) (q : RxQueue) :
    (∀ e, (put malloc desc packet (m, q)).2 = .error e →
      Unwound m q e (put malloc desc packet (m, q)).1.1
        (put malloc desc packet (m, q)).1.2)
    ∧ ((put malloc desc packet (m, q)).2 = .error .queueZeroLengthPacket
      ↔ packet = [])
    ∧ ((put malloc desc packet (m, q)).2 = .error .queuePacketTooLarge
      ↔ 2 ^ 32 - 1 < packet.length)
    ∧ ((put malloc desc packet (m, q)).2 = .error .queueSegmentLimitExceeded
      ↔ 512 * 2048 + 1 ≤ packet.length ∧ packet.length ≤ 2 ^ 32 - 1)
    ∧ (packet = [] ∨ 512 * 2048 + 1 ≤ packet.length →
      (put malloc desc packet (m, q)).1.1 = m
      ∧ (put malloc desc packet (m, q)).1.2.memPool = q.memPool
      ∧ ∀ malloc', put malloc' desc packet (m, q)
        = put malloc desc packet (m, q))
    ∧ ∀ blocks as s es,
        rxSystem.run (RxSystem.init blocks) as = some (s, es) →
        s.queue.state = .started → s.queue.free_.Within := by
  refine ⟨?_, ?_, ?_, ?_, ?_, ?_⟩
  · intro e he
    rcases put_cases malloc desc packet m q with
      ⟨ps, m', q', heq, -⟩ | ⟨e', m', q', heq, href⟩
    · rw [heq] at he
      cases he
    · rw [heq] at he ⊢
      cases he
      exact href.unwound
  · rw [put_error_iff_sizeError (Or.inl rfl), sizeError_zeroLength_iff,
      List.length_eq_zero_iff]
  · rw [put_error_iff_sizeError (Or.inr (Or.inl rfl)),
      sizeError_tooLarge_iff]
  · rw [put_error_iff_sizeError (Or.inr (Or.inr rfl)),
      sizeError_segmentLimit_iff]
  · intro hsize
    obtain ⟨e, he⟩ : ∃ e, sizeError packet.length = some e := by
      rcases hsize with rfl | hbig
      · exact ⟨_, sizeError_zeroLength_iff.2 rfl⟩
      · by_cases hle : packet.length ≤ 2 ^ 32 - 1
        · exact ⟨_, sizeError_segmentLimit_iff.2 ⟨hbig, hle⟩⟩
        · exact ⟨_, sizeError_tooLarge_iff.2 (Nat.lt_of_not_le hle)⟩
    rw [put_of_sizeError he]
    exact ⟨rfl, rfl, fun malloc' => put_of_sizeError he⟩
  · intro blocks as s es hrun
    exact RxSystem.started_within hrun

/-- A queue of one slot whose `used_` is full. -/
def fullQueue : RxQueue :=
  { free_ := { queue := [{}], config := { capacity := 1 } }
    used_ := { queue := [{}], config := { capacity := 1 } } }

/-- The slot and the segment it took come back. -/
theorem put_failure_atomic_fullQueue :
    (put .bump {} [7] ({}, fullQueue)).2 = .error .queueUsedListFull
    ∧ (put .bump {} [7] ({}, fullQueue)).1.2.free_.queue.Perm
        fullQueue.free_.queue
    ∧ (put .bump {} [7] ({}, fullQueue)).1.2.memPool.liveBlocks = 0 := by
  have herr : (put .bump {} [7] ({}, fullQueue)).2
      = .error .queueUsedListFull := rfl
  have hback := (put_failure_atomic .bump {} [7] {} fullQueue).1 _ herr
  exact ⟨herr, hback.free fun _ => Or.inr (Nat.le_refl 1), hback.live⟩

/-- Every packet is taken from a queue of three before it stops, and
returned after; then the queue is made smaller than what it was handed
back, and gets one packet. -/
def shrunkUnderReturns : List RxSystem.Op :=
  [.configure { size := 3 }, .start, .put .bump {} [7], .put .bump {} [7],
    .put .bump {} [7], .take, .stop, .free [0, 1, 2],
    .configure { size := 1 }, .put .bump {} [7]]

/-- The next packet finds `used_` full, and its slot does not come back. -/
theorem not_put_failure_atomic_shrunk :
    ∃ s es, rxSystem.run (RxSystem.init ∅) shrunkUnderReturns = some (s, es)
      ∧ (put .bump {} [7] s.pair).2 = .error .queueUsedListFull
      ∧ ¬ (put .bump {} [7] s.pair).1.2.free_.queue.Perm
          s.queue.free_.queue := by
  have hsome : (rxSystem.run (RxSystem.init ∅) shrunkUnderReturns).map
      (fun p => (p.1.queue.free_.queue.length,
        (put .bump {} [7] p.1.pair).2,
        (put .bump {} [7] p.1.pair).1.2.free_.queue.length))
        = some (2, .error .queueUsedListFull, 1) := by decide
  obtain ⟨⟨s, es⟩, hrun, hval⟩ := Option.map_eq_some_iff.1 hsome
  simp only [Prod.mk.injEq] at hval
  refine ⟨s, es, hrun, hval.2.1, fun hperm => ?_⟩
  have hlen := hperm.length_eq
  omega

end RxQueue

end Vnic
