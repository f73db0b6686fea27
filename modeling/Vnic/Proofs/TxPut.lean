/-
`TxQueue::put` on any graph of segments.

The caller builds the chain, so nothing is known of it: it may be cyclic
or shared, and its length fields need not add up. The counter of the first
pass is all that makes `put` return, and the sum it leaves is all that
keeps the copy of the second pass inside the linear buffer. Both are shown
on the loops of `Vnic.RawTxQueue`, which agree with the model; the exact
condition for success and what each outcome leaves behind are shown on
the model.
-/
import Vnic.Proofs.TxQueue
import Vnic.RawTxQueue

namespace Vnic

namespace RawTxQueue

open TxQueue

variable {m : Memory} {p : Ptr} {ps : List Ptr}

-- ========================================================== the segments

/-- The segments a caller can build: every `next` is null or another
segment, and a segment of length `n` has `n` payload bytes. -/
structure SegmentHeap (m : Memory) : Prop where
  next : ∀ p ∈ m.blocks, (m.load p).next = nullptr
    ∨ (m.load p).next ∈ m.blocks
  payload : ∀ p ∈ m.blocks,
    (m.load p).length.toNat ≤ (m.load p).payload.length

/-- A segment carries as many bytes as it says. -/
private theorem SegmentHeap.length_getPacket (hm : SegmentHeap m) (p : Ptr) :
    (m.load p).getPacket.length = (m.load p).length.toNat := by
  unfold PacketBuffer.getPacket
  rw [List.length_take]
  apply Nat.min_eq_left
  by_cases hp : p ∈ m.blocks
  · exact hm.payload p hp
  · have hdead : m.load p = {} := by
      unfold Memory.load
      rw [AList.lookup_eq_none.mpr hp]
      rfl
    rw [hdead]
    exact Nat.le_refl _

/-- And so does a list of segments. -/
private theorem SegmentHeap.length_payloads (hm : SegmentHeap m)
    (ps : List Ptr) :
    (payloads m ps).length = lengthSum m ps := by
  unfold payloads lengthSum
  rw [List.length_flatMap]
  congr 1
  apply List.map_congr_left
  intro p _
  exact hm.length_getPacket p

-- ============================================================ first pass

/-- The first pass returns after the segments that are still allowed, and
its `size_t` sum does not wrap. -/
theorem scanLoop_eq (m : Memory) :
    ∀ {n fuel : Nat} {it : Ptr} {segments total : Nat},
      segments + n = kMaxSegments → n < fuel →
      total + n * (2 ^ 32 - 1) < 2 ^ 64 →
      ∃ visited, scanLoop m fuel it segments total
          = some (visited, totalLoop m n it total)
        ∧ visited.length ≤ n := by
  intro n
  -- on the segments that may still be counted, which bounds the loop on
  -- any graph
  induction n with
  | zero =>
      intro fuel it segments total hseg hfuel _
      cases fuel with
      | zero => omega
      | succ fuel =>
          refine ⟨[], ?_, Nat.le_refl 0⟩
          unfold scanLoop
          rw [if_pos (by omega)]
          rfl
  | succ n ih =>
      intro fuel it segments total hseg hfuel hsum
      cases fuel with
      | zero => omega
      | succ fuel =>
          have hlen := (m.load it).length.toNat_lt
          have hexact : (total + (m.load it).length.toNat) % 2 ^ 64
              = total + (m.load it).length.toNat := by
            apply Nat.mod_eq_of_lt
            omega
          unfold scanLoop totalLoop
          rw [if_neg (by omega)]
          simp only [hexact]
          by_cases hnext : (m.load it).next = nullptr
          · simp only [hnext, if_true]
            exact ⟨[it], rfl, by simp⟩
          · simp only [hnext, if_false]
            obtain ⟨visited, hloop, hcount⟩ := @ih fuel (m.load it).next
              (segments + 1) (total + (m.load it).length.toNat)
              (by omega) (by omega) (by omega)
            refine ⟨it :: visited, ?_, ?_⟩
            · rw [hloop]
            · rw [List.length_cons]
              omega

-- =========================================================== second pass

/-- A payload that fits goes behind what is already there. -/
theorem copySegment_eq {segment done rest : List UInt8}
    (hfit : segment.length ≤ rest.length) :
    copySegment segment done.length (done ++ rest)
      = some ((done ++ segment).length,
          done ++ segment ++ rest.drop segment.length) := by
  unfold copySegment memcpyAt
  by_cases hempty : segment = []
  · simp [hempty]
  · rw [if_neg hempty, if_pos (by rw [List.length_append]; omega)]
    simp [List.drop_append]

/-- The second pass over a chain whose payloads fill the buffer visits its
segments and leaves their payloads in order. -/
theorem copyLoop_eq (h : Segments m p ps) :
    ∀ {fuel : Nat} {done rest : List UInt8}, ps.length ≤ fuel →
      rest.length = (payloads m ps).length →
      copyLoop m fuel p done.length (done ++ rest)
        = some (ps, done ++ payloads m ps) := by
  -- along the chain, with what is copied so far at the front of the packet
  induction h with
  | last hnext =>
      intro fuel done rest hfuel hrest
      cases fuel with
      | zero => simp at hfuel
      | succ fuel =>
          simp only [payloads, List.flatMap_cons, List.flatMap_nil,
            List.append_nil] at hrest ⊢
          unfold copyLoop
          rw [copySegment_eq (by omega)]
          simp [hnext, ← hrest]
  | @cons p ps hnext _ ih =>
      intro fuel done rest hfuel hrest
      cases fuel with
      | zero => simp at hfuel
      | succ fuel =>
          rw [List.length_cons] at hfuel
          have hsplit : payloads m (p :: ps)
              = (m.load p).getPacket ++ payloads m ps := rfl
          rw [hsplit, List.length_append] at hrest
          unfold copyLoop
          rw [copySegment_eq (by omega)]
          simp only [hnext, if_false]
          rw [ih (by omega) (by rw [List.length_drop]; omega), hsplit,
            List.append_assoc]

-- ================================================================== put

/-- `put` returns within the limit on both passes, writes nothing outside
the linear buffer, and does what the model says. -/
theorem put_eq (hm : SegmentHeap m) {fuel : Nat} (hfuel : kMaxSegments < fuel)
    (alloc : Alloc) (desc : PacketDescriptor) (s : Link × TxQueue) :
    ∃ passes, put fuel alloc m desc s
        = some (passes, TxQueue.put alloc m desc s)
      ∧ passes.first.length ≤ kMaxSegments
      ∧ passes.second.length ≤ kMaxSegments := by
  unfold put TxQueue.put
  by_cases hnull : desc.buffer = nullptr
  · simp only [hnull, if_true]
    exact ⟨_, rfl, Nat.zero_le _, Nat.zero_le _⟩
  · simp only [hnull, if_false]
    obtain ⟨first, hscan, hfirst⟩ := @scanLoop_eq m kMaxSegments fuel
      desc.buffer 0 0 (Nat.zero_add _) hfuel (by decide)
    rw [hscan]
    -- the scan ends with the limit exceeded or at the last segment, and
    -- the copy runs after the latter only
    cases htotal : totalLoop m kMaxSegments desc.buffer 0 with
    | error e => exact ⟨_, rfl, hfirst, Nat.zero_le _⟩
    | ok total =>
        simp only
        split
        · exact ⟨_, rfl, hfirst, Nat.zero_le _⟩
        · split
          · exact ⟨_, rfl, hfirst, Nat.zero_le _⟩
          · obtain ⟨ps, hps, hcount, hsum⟩ := segments_of_totalLoop htotal
            have hcopy := @copyLoop_eq m desc.buffer ps hps fuel []
              (List.replicate total 0) (by omega)
              (by rw [List.length_replicate, hm.length_payloads]; omega)
            simp only [List.length_nil, List.nil_append] at hcopy
            rw [hcopy, gatherLoop_segments hps hcount]
            exact ⟨_, rfl, hfirst, hcount⟩

end RawTxQueue

namespace TxQueue

open RawTxQueue (SegmentHeap)

variable {m : Memory}

/-- The two outcomes of `put`, with the link and the counters after each. -/
theorem put_outcomes (alloc : Alloc) (m : Memory) (desc : PacketDescriptor)
    (l : Link) (q : TxQueue) :
    (put alloc m desc (l, q)).2 = .ok ()
    ∨ ((put alloc m desc (l, q)).2 ≠ .ok ()
      ∧ (put alloc m desc (l, q)).1 = (l, q.drop desc)) := by
  rcases put_cases alloc m desc l q with ⟨e, -, hput⟩ | ⟨packet, -, hput⟩
  · right
    rw [hput]
    exact ⟨fun h => (by cases h), rfl⟩
  · left
    rw [hput]

/-- What a packet must be, and find, to be sent. -/
structure Sendable (alloc : Alloc) (m : Memory) (desc : PacketDescriptor)
    (l : Link) (q : TxQueue) (ps : List Ptr) : Prop where
  buffer : desc.buffer ≠ nullptr
  segments : Segments m desc.buffer ps
  limit : ps.length ≤ 512
  total : lengthSum m ps = desc.totalLength.toNat
  positive : 0 < desc.totalLength.toNat
  link : q.link_ = true
  room : l.txQueue.isFullLocked = false
  resize : alloc.resize = true
  copy : alloc.link = true

/-- What can be sent is sent. -/
private theorem put_of_sendable (hm : SegmentHeap m) {alloc : Alloc}
    {desc : PacketDescriptor} {l : Link} {q : TxQueue} {ps : List Ptr}
    (h : Sendable alloc m desc l q ps) :
    put alloc m desc (l, q)
      = (({ l with
            txQueue :=
              { l.txQueue with
                queue := l.txQueue.queue ++ [payloads m ps] } },
          { q with
            stats := q.stats.fetchProcessed desc.totalLength.toNat }),
          .ok ()) := by
  -- a positive total, so the link does not refuse an empty packet
  have hpacket : payloads m ps ≠ [] := by
    intro hnil
    have hlen := hm.length_payloads ps
    have hpos := h.positive
    rw [hnil, h.total, List.length_nil] at hlen
    omega
  have hlimit : ps.length ≤ kMaxSegments := h.limit
  have htotal := totalLoop_segments h.segments 0 hlimit
  rw [h.total, Nat.zero_add] at htotal
  have hputTx : l.putTx true (payloads m ps)
      = ({ l with
            txQueue :=
              { l.txQueue with
                queue := l.txQueue.queue ++ [payloads m ps] } }, .ok ()) := by
    unfold Link.putTx
    rw [Link.put_of_room hpacket h.room]
  unfold put
  simp only [if_neg h.buffer, htotal, ne_eq, not_true_eq_false, if_false,
    h.resize, h.link, h.copy, gatherLoop_segments h.segments hlimit, hputTx,
    Bool.true_eq_false]

/-- What was sent could be. -/
private theorem sendable_of_put (hm : SegmentHeap m) {alloc : Alloc}
    {desc : PacketDescriptor} {l : Link} {q : TxQueue}
    (h : (put alloc m desc (l, q)).2 = .ok ()) :
    ∃ ps, Sendable alloc m desc l q ps := by
  unfold put at h
  simp only at h
  -- the returns in the source's order: a success has passed them all
  split at h
  · cases h
  · next hnull =>
    split at h
    · cases h
    · next total htotal =>
      split at h
      · cases h
      · next hlen =>
        split at h
        · cases h
        · next hresize =>
          split at h
          · cases h
          · next hlink =>
            obtain ⟨ps, hps, hcount, hsum⟩ := segments_of_totalLoop htotal
            rw [gatherLoop_segments hps hcount] at h
            unfold Link.putTx at h
            rcases Link.put_cases alloc.link (payloads m ps) l.txQueue
                .linkTxQueueFull with ⟨e, hput⟩ | ⟨hne, hcopy, hroom, -⟩
            · rw [hput] at h
              cases h
            · have hpos := List.length_pos_iff.mpr hne
              rw [hm.length_payloads] at hpos
              exact ⟨ps, hnull, hps, hcount, by omega, by omega,
                by simpa using hlink, hroom, by simpa using hresize, hcopy⟩

-- =============================================================== result

/-- `put` on any graph of segments: it returns after at most
`kMaxSegments` segments a pass and writes nothing outside the linear
buffer; it succeeds exactly on a sendable packet and then appends the
payloads, in order and as one frame, to the TX pipe; otherwise the link is
as before. The packet is counted once, as processed or as dropped. -/
theorem put_any_graph (alloc : Alloc) (m : Memory) (hm : SegmentHeap m)
    (desc : PacketDescriptor) (l : Link) (q : TxQueue) :
    (∀ fuel, 512 < fuel → ∃ passes, RawTxQueue.put fuel alloc m desc (l, q)
          = some (passes, put alloc m desc (l, q))
        ∧ passes.first.length ≤ 512 ∧ passes.second.length ≤ 512)
    ∧ ((put alloc m desc (l, q)).2 = .ok ()
        ↔ ∃ ps, Sendable alloc m desc l q ps)
    ∧ (∀ ps, Sendable alloc m desc l q ps →
        (put alloc m desc (l, q)).1
          = ({ l with
                txQueue :=
                  { l.txQueue with
                    queue := l.txQueue.queue ++ [payloads m ps] } },
              { q with
                stats :=
                  { q.stats with
                    processedPackets := q.stats.processedPackets + 1
                    processedBytes := q.stats.processedBytes
                      + desc.totalLength.toUInt64 } }))
    ∧ ((put alloc m desc (l, q)).2 ≠ .ok () →
        (put alloc m desc (l, q)).1
          = (l,
              { q with
                stats :=
                  { q.stats with
                    droppedPackets := q.stats.droppedPackets + 1
                    droppedBytes := q.stats.droppedBytes
                      + desc.totalLength.toUInt64 } })) := by
  have hbytes : UInt64.ofNat desc.totalLength.toNat
      = desc.totalLength.toUInt64 := by
    simp
  refine ⟨?_, ?_, ?_, ?_⟩
  · intro fuel hfuel
    exact RawTxQueue.put_eq hm hfuel alloc desc (l, q)
  · constructor
    · exact sendable_of_put hm
    · rintro ⟨ps, hps⟩
      rw [put_of_sendable hm hps]
  · intro ps hps
    rw [put_of_sendable hm hps]
    unfold Stats.fetchProcessed
    rw [hbytes]
  · intro hfail
    -- a put that does not succeed has dropped
    rcases put_outcomes alloc m desc l q with hok | ⟨-, hdrop⟩
    · exact absurd hok hfail
    · rw [hdrop]
      unfold drop Stats.fetchDropped
      rw [hbytes]

/-- A chain of two segments, the second empty, and a segment that is its
own successor. -/
def loopedHeap : Memory :=
  { blocks :=
      ((AList.insert 3 { next := 3, length := 1, payload := [9] } ∅ : Blocks)
        |>.insert 2 {}).insert 1 { next := 2, length := 2, payload := [7, 8] } }

private theorem mem_loopedHeap {p : Ptr} (h : p ∈ loopedHeap.blocks) :
    p = 1 ∨ p = 2 ∨ p = 3 := by
  have hkeys : p ∈ ([1, 2, 3] : List Ptr) := h
  rcases List.mem_cons.1 hkeys with rfl | h₂
  · exact Or.inl rfl
  · exact Or.inr (List.mem_pair.1 h₂)

private theorem segmentHeap_loopedHeap : SegmentHeap loopedHeap := by
  constructor
  · intro p hp
    rcases mem_loopedHeap hp with rfl | rfl | rfl
    · exact Or.inr (List.mem_cons_of_mem _ (List.mem_cons_self ..))
    · exact Or.inl rfl
    · exact Or.inr (List.mem_cons_of_mem _
        (List.mem_cons_of_mem _ (List.mem_cons_self ..)))
  · intro p hp
    rcases mem_loopedHeap hp with rfl | rfl | rfl
    · exact Nat.le_refl 2
    · exact Nat.le_refl 0
    · exact Nat.le_refl 1

/-- The chain is sent; the cycle is refused and leaves the link alone. -/
theorem put_any_graph_loopedHeap :
    (put {} loopedHeap { buffer := 1, totalLength := 2 }
        ({}, { link_ := true })).2 = .ok ()
      ∧ (put {} loopedHeap { buffer := 3, totalLength := 512 }
          ({}, { link_ := true })).1.1 = {} := by
  have hchain := put_any_graph {} loopedHeap segmentHeap_loopedHeap
    { buffer := 1, totalLength := 2 } {} { link_ := true }
  have hcycle := put_any_graph {} loopedHeap segmentHeap_loopedHeap
    { buffer := 3, totalLength := 512 } {} { link_ := true }
  constructor
  · apply hchain.2.1.mpr
    refine ⟨[1, 2], ?_⟩
    exact
      { buffer := by decide
        segments := .cons (by decide) (.last (by decide))
        limit := by decide
        total := by decide
        positive := by decide
        link := rfl
        room := rfl
        resize := rfl
        copy := rfl }
  · rw [hcycle.2.2.2 (by decide +kernel)]

end TxQueue

end Vnic
