/-
From `RxQueue::put` to the link's TX pipe.

A published packet is tracked by number: a `take` hands descriptors out
in FIFO order, so the packet that stands `n`-th in `used_` when `put`
returns gets the `n`-th ticket from there. `Tracked` follows it through
any calls, from `used_` into the hands of the application, and says that
its chain still spells the packet, segment by segment.

The linearising loops of `TxQueue::put` then read that chain back
(`segments_of_chain`), and the splitter's and the
lineariser's limits agree: at most `kMaxSegments` segments, and a total
length that fits the 32-bit field.
-/
import Vnic.Proofs.RxSystem
import Vnic.Proofs.TxQueue

namespace Vnic

open Linked

variable {m m' : Memory} {d : PacketDescriptor} {packet : Frame}

-- ============================================================== spells

/-- The chain of `d` spells `packet`, cut into segments as `put` cuts
it. -/
structure Spells (m : Memory) (d : PacketDescriptor) (packet : Frame) :
    Prop where
  chain : Chain m.blocks d.buffer (m.segments d.buffer)
  count : (m.segments d.buffer).length
    = RxQueue.segmentCount packet.length
  segment : ∀ {i : Nat} {k : Ptr}, (m.segments d.buffer)[i]? = some k →
    ∃ next, m.blocks.lookup k
      = some (segmentAt packet (i * kPacketBufferSize) next)
  contents : m.contents d.buffer = packet
  total : d.totalLength = UInt32.ofNat packet.length

/-- A change elsewhere does not touch the spelling. -/
theorem Spells.congr {ds : List PacketDescriptor} (h : Spells m d packet)
    (hs : SameChains m m' ds) (hd : d ∈ ds) : Spells m' d packet := by
  obtain ⟨hseg, hlook⟩ := hs d hd
  refine ⟨?_, by rw [hseg]; exact h.count, ?_,
    by rw [hs.contents hd]; exact h.contents, h.total⟩
  · rw [hseg]
    exact h.chain.congr hlook
  · intro i k hk
    rw [hseg] at hk
    obtain ⟨next, hn⟩ := h.segment hk
    exact ⟨next, by rw [hlook k (List.mem_of_getElem? hk), hn]⟩

/-- What `put` publishes spells the packet. -/
theorem Spells.of_published {q q' : RxQueue} {desc : PacketDescriptor}
    {ps : List Ptr}
    (h : RxQueue.Published m q desc packet ps m' q') :
    Spells m' (RxQueue.stamped desc packet ps) packet := by
  have hchain := RxQueue.filled_chain h.fresh packet
  have hseg : m'.segments (RxQueue.stamped desc packet ps).buffer = ps := by
    rw [h.mem]
    exact hchain.chainOf_eq
  refine ⟨?_, by rw [hseg]; exact h.count, ?_, ?_, rfl⟩
  · rw [hseg, h.mem]
    exact hchain
  · intro i k hk
    rw [hseg] at hk
    rw [h.mem]
    exact ⟨_, RxQueue.filled_segment h.fresh packet hk⟩
  · rw [h.mem]
    exact RxQueue.filled_contents h.fresh h.count

/-- The shape of the cut: full segments, and a last one that is not
empty. -/
theorem Spells.length_segment (h : Spells m d packet)
    (hpos : 0 < packet.length) {i : Nat} {k : Ptr}
    (hk : (m.segments d.buffer)[i]? = some k) :
    if i + 1 < (m.segments d.buffer).length
    then (m.load k).length.toNat = kPacketBufferSize
    else 1 ≤ (m.load k).length.toNat
      ∧ (m.load k).length.toNat ≤ kPacketBufferSize := by
  obtain ⟨next, hn⟩ := h.segment hk
  have hlen : (m.load k).length.toNat
      = min kPacketBufferSize (packet.length - i * kPacketBufferSize) := by
    unfold Memory.load
    rw [hn]
    show (UInt32.ofNat _).toNat = _
    rw [UInt32.toNat_ofNat']
    apply Nat.mod_eq_of_lt
    simp only [kPacketBufferSize]
    omega
  have hi : i < (m.segments d.buffer).length :=
    (List.getElem?_eq_some_iff.1 hk).1
  rw [h.count] at hi ⊢
  rw [hlen]
  unfold RxQueue.segmentCount kPacketBufferSize at *
  split
  · omega
  · omega

-- =========================================================== the loops

namespace TxQueue

/-- A live chain is what the loops of `put` walk. -/
theorem segments_of_chain {ks : List Ptr} {p : Ptr}
    (h : Chain m.blocks p ks) (hne : p ≠ nullptr) : Segments m p ks := by
  induction h with
  | nil => exact absurd rfl hne
  | @cons k c ks _ hl hrest ih =>
      have hload : m.load k = c := by simp [Memory.load, hl]
      by_cases hnext : c.next = nullptr
      · have hnil : ks = [] := by
          have hrest' : Chain m.blocks nullptr ks := hnext ▸ hrest
          exact hrest'.unique .nil
        rw [hnil]
        exact .last (by rw [hload]; exact hnext)
      · refine .cons (by rw [hload]; exact hnext) ?_
        rw [hload]
        exact ih hnext

/-- The walk of `put` reads what the chain holds. -/
theorem payloads_eq_dataOf {ks : List Ptr} {p : Ptr}
    (h : Chain m.blocks p ks) :
    payloads m ks = dataOf PacketBuffer.getPacket m.blocks ks := by
  induction h with
  | nil => rfl
  | @cons k c ks _ hl _ ih =>
      have hload : m.load k = c := by simp [Memory.load, hl]
      have hhead : payloads m (k :: ks)
          = (m.load k).getPacket ++ payloads m ks := rfl
      rw [hhead, ih, hload]
      simp [dataOf, hl]

end TxQueue

/-- The length fields of a spelling add up to the packet. -/
theorem Spells.lengthSum_eq (h : Spells m d packet) :
    TxQueue.lengthSum m (m.segments d.buffer) = packet.length := by
  -- every block's payload is as long as its length field says
  have hblock : ∀ k ∈ m.segments d.buffer,
      (m.load k).length.toNat
        = (((m.blocks.lookup k).map PacketBuffer.getPacket).getD []).length := by
    intro k hk
    obtain ⟨i, hlt, hi⟩ := List.getElem_of_mem hk
    obtain ⟨next, hn⟩ := h.segment (List.getElem?_eq_some_iff.2 ⟨hlt, hi⟩)
    unfold Memory.load
    rw [hn, Option.map_some, Option.getD_some, Option.getD_some,
      segmentAt_getPacket]
    show (UInt32.ofNat _).toNat = _
    rw [UInt32.toNat_ofNat', Nat.mod_eq_of_lt]
    · simp
    · simp only [kPacketBufferSize]
      omega
  have hdata : (m.contents d.buffer).length
      = TxQueue.lengthSum m (m.segments d.buffer) := by
    unfold Memory.contents dataOf TxQueue.lengthSum
    rw [List.length_flatMap]
    exact congrArg List.sum
      (List.map_congr_left fun k hk => (hblock k hk).symm)
  rw [← hdata, h.contents]

namespace TxQueue

/-- A configured queue whose link has room sends exactly the packet a
chain spells. -/
theorem put_spells (h : Spells m d packet) (hpos : 0 < packet.length)
    (hlimit : RxQueue.segmentCount packet.length ≤ kMaxSegments)
    {link : Link} {q : TxQueue} (hlink : q.link_ = true)
    (hroom : link.txQueue.isFullLocked = false) :
    put {} m d (link, q)
      = (({ link with
            txQueue :=
              { link.txQueue with queue := link.txQueue.queue ++ [packet] } },
          { q with stats := q.stats.fetchProcessed packet.length }),
          .ok ()) := by
  have hsegs : (m.segments d.buffer).length ≤ kMaxSegments :=
    h.count ▸ hlimit
  have hne : d.buffer ≠ nullptr := by
    intro h0
    have hnil : m.segments d.buffer = [] := by
      rw [h0]
      exact chainOf_null m.blocks
    have := h.count
    rw [hnil] at this
    have := RxQueue.segmentCount_pos hpos
    simp at *
    omega
  have hwalk := segments_of_chain h.chain hne
  have htotal := totalLoop_segments hwalk 0 hsegs
  rw [h.lengthSum_eq, Nat.zero_add] at htotal
  -- the second walk copies what the first has measured
  have hgather : gatherLoop m kMaxSegments d.buffer = packet :=
    (gatherLoop_segments hwalk hsegs).trans
      ((payloads_eq_dataOf h.chain).trans h.contents)
  have hfield : d.totalLength.toNat = packet.length := by
    rw [h.total, UInt32.toNat_ofNat']
    apply Nat.mod_eq_of_lt
    have := RxQueue.segmentCount_mul packet.length
    unfold kMaxSegments kPacketBufferSize at *
    omega
  have hne' : packet ≠ [] := List.ne_nil_of_length_pos hpos
  unfold put
  simp only [if_neg hne, htotal, hfield, ne_eq, not_true_eq_false, if_false,
    hgather, hlink, Bool.true_eq_false, Link.putTx,
    Link.put_of_room hne' hroom]

end TxQueue

-- ============================================================ tracking

namespace RxSystem

variable {s t : RxSystem} {a : Op} {e : Event} {n : Nat}

/-- The descriptor `d`, published for ticket `n`: still in `used_`, or
taken. A taken one that is still held spells the packet. -/
def Tracked (n : Nat) (d : PacketDescriptor) (packet : Frame)
    (s : RxSystem) : Prop :=
  (s.held.next ≤ n ∧ s.queue.state = .started
    ∧ s.queue.used_.queue[n - s.held.next]? = some d
    ∧ Spells s.mem d packet)
  ∨ (n < s.held.next ∧ ∀ d', s.held.get n = some d' →
      d' = d ∧ Spells s.mem d packet)

/-- No call touches a chain the application goes on holding. -/
theorem Inv.sameChains_held (hi : Inv s) (h : s.step a = some (t, e))
    (hd : d ∈ s.held.values) (hd' : d ∈ t.held.values) :
    SameChains s.mem t.mem [d] := by
  have hsub : [d] ⊆ s.held.values := by simpa using hd
  have ho := hi.accounted.owners
  cases a with
  | configure config =>
      cases h
      exact SameChains.of_blocks rfl
  | start =>
      cases h
      exact (RxQueue.startOr_owners none ho rfl).2.mono hsub
  | stop =>
      cases h
      exact (RxQueue.stop_owners ho rfl).2.mono hsub
  | put malloc desc packet =>
      cases h
      exact (RxQueue.put_owners malloc desc packet ho rfl).2.mono
        (List.subset_append_of_subset_right _ hsub)
  | take =>
      cases h
      exact SameChains.of_blocks rfl
  | free ns =>
      obtain ⟨ds, held, hr, rfl, -⟩ := step_free h
      have hperm := Ledger.redeem_perm_append hr s.queue.used_.queue
      apply (RxQueue.free_owners s.queue (ho.of_perm hperm)).2.1.mono
      exact List.subset_append_of_subset_right _ (by simpa using hd')

/-- `take` hands the published descriptor out under its number, or moves
it up. -/
theorem Tracked.take (hn : s.held.next ≤ n)
    (hst : s.queue.state = .started)
    (hidx : s.queue.used_.queue[n - s.held.next]? = some d)
    (hsp : Spells s.mem d packet) :
    Tracked n d packet { s with
      queue := s.queue.take.2
      held := s.held.issue s.queue.take.1 } := by
  have hnext := Ledger.issue_next s.held
    (s.queue.used_.queue.take kMaxSegments)
  by_cases hlt : n - s.held.next
      < (s.queue.used_.queue.take kMaxSegments).length
  · -- this take hands it out, under number `n`
    refine Or.inr ⟨?_, fun d' hd' => ?_⟩
    · show n < (s.held.issue
        (s.queue.used_.queue.take kMaxSegments)).next
      omega
    · have hget := Ledger.get_issue_new s.held
        (s.queue.used_.queue.take kMaxSegments) hlt
      rw [Nat.add_sub_cancel' hn] at hget
      have hd'' : (s.held.issue
          (s.queue.used_.queue.take kMaxSegments)).get n = some d' := hd'
      rw [List.length_take] at hlt
      rw [hget, List.getElem?_take_of_lt (by omega), hidx] at hd''
      cases hd''
      exact ⟨rfl, hsp⟩
  · -- it moves up by the number taken
    rw [List.length_take] at hlt hnext
    have hlong := (List.getElem?_eq_some_iff.1 hidx).1
    refine Or.inl ⟨?_, hst, ?_, hsp⟩
    · show (s.held.issue
        (s.queue.used_.queue.take kMaxSegments)).next ≤ n
      omega
    · show (s.queue.used_.queue.drop kMaxSegments)[n - (s.held.issue
        (s.queue.used_.queue.take kMaxSegments)).next]? = some d
      rw [List.getElem?_drop, ← hidx]
      congr 1
      omega

/-- A call other than `stop` keeps the published descriptor in its place
in `used_`, or hands it out under its number. -/
theorem Tracked.step_used (hi : Inv s) (h : s.step a = some (t, e))
    (hstop : a ≠ .stop) (hn : s.held.next ≤ n)
    (hst : s.queue.state = .started)
    (hidx : s.queue.used_.queue[n - s.held.next]? = some d)
    (hsp : Spells s.mem d packet) : Tracked n d packet t := by
  have ho := hi.accounted.owners
  have hmem : d ∈ s.queue.used_.queue := List.mem_of_getElem? hidx
  cases a with
  | configure config =>
      simp only [RxSystem.step, RxQueue.configure_of_started config hst,
        Option.some.injEq, Prod.mk.injEq] at h
      rw [← h.1]
      exact Or.inl ⟨hn, hst, hidx, hsp⟩
  | start =>
      have heq : RxQueue.start s.pair
          = (s.pair, .error .stateStartNotAllowed) :=
        RxQueue.startOr_of_started none s.mem hst
      simp only [RxSystem.step, heq, Option.some.injEq, Prod.mk.injEq] at h
      rw [← h.1]
      exact Or.inl ⟨hn, hst, hidx, hsp⟩
  | stop => exact absurd rfl hstop
  -- a packet behind the tracked one does not move it
  | put malloc desc packet' =>
      cases h
      have hsame := (RxQueue.put_owners malloc desc packet' ho rfl).2
      have hset := RxQueue.put_setup malloc desc packet'
        (m := s.mem) (q := s.queue) rfl
      refine Or.inl ⟨hn, hset.state.trans hst, ?_,
        hsp.congr hsame (List.mem_append_left _ hmem)⟩
      show (RxQueue.put malloc desc packet'
        (s.mem, s.queue)).1.2.used_.queue[n - s.held.next]? = some d
      rcases RxQueue.put_cases malloc desc packet' s.mem s.queue with
        ⟨ps, m₁, q₁, hput, hp⟩ | ⟨e, m₁, q₁, hput, hr⟩
      · rw [hput, hp.queue]
        exact List.getElem?_append_left
          (List.getElem?_eq_some_iff.1 hidx).1 ▸ hidx
      · rw [hput, hr.used]
        exact hidx
  | take =>
      cases h
      exact Tracked.take hn hst hidx hsp
  -- what is given back was held, and the tracked one still waits
  | free ns =>
      obtain ⟨ds, held, hr, rfl, -⟩ := step_free h
      have hperm := Ledger.redeem_perm_append hr s.queue.used_.queue
      have hsame := (RxQueue.free_owners s.queue (ho.of_perm hperm)).2.1
      have hframe := RxQueue.free_frame ds s.mem s.queue
      have hnext := Ledger.redeem_next hr
      refine Or.inl ⟨by rw [← hnext] at hn; exact hn, ?_, ?_,
        hsp.congr hsame (List.mem_append_left _ hmem)⟩
      · show (RxQueue.free ds (s.mem, s.queue)).1.2.state = _
        rw [hframe]
        exact hst
      · show (RxQueue.free ds
          (s.mem, s.queue)).1.2.used_.queue[n - held.next]? = some d
        rw [hframe, hnext]
        exact hidx

/-- The ledger only forgets: an old number keeps its value or goes. -/
private theorem held_get_of_step (h : s.step a = some (t, e))
    (hn : n < s.held.next) (hget : t.held.get n = some d) :
    s.held.get n = some d := by
  cases a with
  | configure config => cases h; exact hget
  | start => cases h; exact hget
  | stop => cases h; exact hget
  | put malloc desc packet => cases h; exact hget
  | take =>
      cases h
      rwa [← Ledger.get_issue_old s.held
        (s.queue.used_.queue.take kMaxSegments) hn]
  | free ns =>
      obtain ⟨ds, held, hr, rfl, -⟩ := step_free h
      exact Ledger.get_of_redeem hr hget

private theorem held_next_mono (h : s.step a = some (t, e)) :
    s.held.next ≤ t.held.next := by
  cases a with
  | configure config => cases h; exact Nat.le_refl _
  | start => cases h; exact Nat.le_refl _
  | stop => cases h; exact Nat.le_refl _
  | put malloc desc packet => cases h; exact Nat.le_refl _
  | take =>
      cases h
      show _ ≤ (s.held.issue _).next
      rw [Ledger.issue_next]
      exact Nat.le_add_right _ _
  | free ns =>
      obtain ⟨ds, held, hr, rfl, -⟩ := step_free h
      exact Nat.le_of_eq (Ledger.redeem_next hr).symm

/-- One call: the published packet is not lost from sight unless a stop
drains it. -/
theorem Tracked.step (hi : Inv s) (ht : Tracked n d packet s)
    (h : s.step a = some (t, e)) (hstop : a = .stop → n < s.held.next) :
    Tracked n d packet t := by
  rcases ht with ⟨hn, hst, hidx, hsp⟩ | ⟨hn, hget⟩
  · exact Tracked.step_used hi h
      (fun heq => absurd (hstop heq) (Nat.not_lt.2 hn)) hn hst hidx hsp
  · refine Or.inr ⟨hn.trans_le (held_next_mono h), fun d' hd' => ?_⟩
    have hold := held_get_of_step h hn hd'
    obtain ⟨rfl, hsp⟩ := hget d' hold
    have hsame := hi.sameChains_held h (Ledger.mem_values_of_get hold)
      (Ledger.mem_values_of_get hd')
    exact ⟨rfl, hsp.congr hsame (List.mem_singleton_self _)⟩

/-- Over a whole run in which no stop comes before the packet is taken,
the packet stays tracked. -/
theorem Tracked.run {bs : List Op} {fs : List Event}
    (hi : Inv s) (ht : Tracked n d packet s)
    (halong : rxSystem.Along (fun s a _ => a = .stop → n < s.held.next) s bs)
    (hrun : rxSystem.run s bs = some (t, fs)) : Tracked n d packet t := by
  have := rxSystem.run_invariant_along
    (I := fun s => Inv s ∧ Tracked n d packet s)
    (fun hi hs hg => ⟨hi.1.step hs, Tracked.step hi.1 hi.2 hs hg⟩)
    halong ⟨hi, ht⟩ hrun
  exact this.2

-- ========================================================== round trip

/-- A started queue with a free slot and room in `used_` accepts exactly
the packets of 1 to `kMaxSegments * kPacketBufferSize` bytes; and the
descriptor that a later `take` hands out for an accepted packet, as long
as it is not freed, is sent by a configured `TxQueue` as exactly that
packet, from a chain of full segments and a non-empty last one. -/
theorem forward_round_trip {blocks : Blocks} {as : List Op}
    {es : List Event}
    (hrun : rxSystem.run (RxSystem.init blocks) as = some (s, es))
    (hst : s.queue.state = .started) (hfree : s.queue.free_.queue ≠ [])
    (hused : s.queue.used_.isFullLocked = false) (malloc : Malloc)
    (desc : PacketDescriptor) (packet : Frame)
    (hmalloc : RxQueue.segmentCount packet.length ≤ kMaxSegments →
      malloc.Supplies s.mem.blocks (RxQueue.segmentCount packet.length)) :
    ((RxQueue.put malloc desc packet s.pair).2 = .ok ()
      ↔ 1 ≤ packet.length
        ∧ packet.length ≤ kMaxSegments * kPacketBufferSize)
    ∧ ∀ (s₁ : RxSystem),
        rxSystem.step s (.put malloc desc packet)
          = some (s₁, .put packet (.ok ())) →
      ∀ (ticket : Nat),
        ticket = s.held.next + s.queue.used_.queue.length →
      ∀ (bs : List Op) (t : RxSystem) (fs : List Event)
        (d : PacketDescriptor),
        rxSystem.Along (fun s a _ => a = .stop → ticket < s.held.next)
          s₁ bs →
        rxSystem.run s₁ bs = some (t, fs) →
        t.held.get ticket = some d →
        (∀ (link : Link) (txq : TxQueue), txq.link_ = true →
          link.txQueue.isFullLocked = false →
          (TxQueue.put {} t.mem d (link, txq)).2 = .ok ()
            ∧ (TxQueue.put {} t.mem d (link, txq)).1.1.txQueue.queue
              = link.txQueue.queue ++ [packet])
        ∧ Chain t.mem.blocks d.buffer (t.mem.segments d.buffer)
        ∧ (t.mem.segments d.buffer).length = (packet.length + 2047) / 2048
        ∧ ∀ (i : Nat) (k : Ptr), (t.mem.segments d.buffer)[i]? = some k →
            if i + 1 < (t.mem.segments d.buffer).length
            then (t.mem.load k).length.toNat = 2048
            else 1 ≤ (t.mem.load k).length.toNat
              ∧ (t.mem.load k).length.toNat ≤ 2048 := by
  refine ⟨RxQueue.put_ok_iff hfree hused hmalloc, ?_⟩
  intro s₁ hput ticket hticket bs t fs d halong hrun' hget
  have hi := Inv.run hrun
  have hi₁ : Inv s₁ := hi.step (a := .put malloc desc packet) hput
  simp only [rxSystem, RxSystem.step, Option.some.injEq, Prod.mk.injEq,
    Event.put.injEq, true_and] at hput
  obtain ⟨rfl, hok⟩ := hput
  rcases RxQueue.put_cases malloc desc packet s.mem s.queue with
    ⟨ps, m₁, q₁, heq, hp⟩ | ⟨e, m₁, q₁, heq, -⟩
  · have heq' : RxQueue.put malloc desc packet s.pair = ((m₁, q₁), .ok ()) :=
      heq
    rw [heq'] at hrun' halong hi₁
    -- the next descriptors handed out take the numbers from `held.next`
    -- on, in the order of `used_`, so this one gets `ticket`
    have htracked : Tracked ticket (RxQueue.stamped desc packet ps) packet
        (s.withPair (m₁, q₁)) := by
      refine Or.inl ⟨?_, ?_, ?_, Spells.of_published hp⟩
      · show s.held.next ≤ ticket
        omega
      · show q₁.state = .started
        rw [hp.queue]
        exact hst
      · show q₁.used_.queue[ticket - s.held.next]? = _
        rw [hp.queue, hticket, Nat.add_sub_cancel_left]
        exact List.getElem?_concat_length
    have ht := Tracked.run hi₁ htracked halong hrun'
    rcases ht with ⟨hn, -⟩ | ⟨-, hheld⟩
    · rw [Ledger.get_eq_none hn] at hget
      cases hget
    · obtain ⟨rfl, hsp⟩ := hheld d hget
      refine ⟨fun link txq hlink hroom => ?_, hsp.chain, hsp.count, ?_⟩
      · rw [TxQueue.put_spells hsp hp.pos hp.limit hlink hroom]
        exact ⟨rfl, rfl⟩
      · intro i k hk
        exact hsp.length_segment hp.pos hk
  · have heq' : RxQueue.put malloc desc packet s.pair
        = ((m₁, q₁), .error e) := heq
    rw [heq'] at hok
    cases hok

/-- One answer is enough for one block. -/
private theorem supplies_one {malloc : Malloc} {h : Blocks}
    (hsome : (malloc.answer h).isSome = true) : malloc.Supplies h 1 := by
  obtain ⟨p, hp⟩ := Option.isSome_iff_exists.1 hsome
  exact ⟨p, hp, trivial⟩

/-- A started queue of one slot. -/
def startedOne : RxSystem :=
  { queue := (RxQueue.start
      ({}, (RxQueue.configure { size := 1 } {}).1)).1.2 }

/-- One byte more than a segment holds. -/
def twoSegments : Frame := List.replicate 2049 7

/-- The packet goes in over two segments and comes out whole. -/
theorem forward_round_trip_startedOne :
    ∃ s₁ t fs d,
      rxSystem.step startedOne (.put .bump {} twoSegments)
          = some (s₁, .put twoSegments (.ok ()))
        ∧ rxSystem.run s₁ [.take] = some (t, fs)
        ∧ t.held.get 0 = some d
        ∧ (t.mem.segments d.buffer).length = 2
        ∧ (TxQueue.put {} t.mem d ({}, { link_ := true })).1.1.txQueue.queue
          = [twoSegments] := by
  have hrun : rxSystem.run (RxSystem.init ∅)
      [.configure { size := 1 }, .start]
        = some (startedOne, [.configure (.ok ()), .start (.ok ())]) := rfl
  have hsome : (rxSystem.step startedOne (.put .bump {} twoSegments)).bind
      (fun p => (rxSystem.run p.1 [.take]).map fun q =>
        (p.2, (q.1.held.get 0).isSome))
        = some (.put twoSegments (.ok ()), true) := by decide +kernel
  obtain ⟨⟨s₁, e⟩, hstep, hrest⟩ := Option.bind_eq_some_iff.1 hsome
  obtain ⟨⟨t, fs⟩, htake, hval⟩ := Option.map_eq_some_iff.1 hrest
  simp only [Prod.mk.injEq] at hval
  obtain ⟨rfl, hget⟩ := hval
  obtain ⟨d, hd⟩ := Option.isSome_iff_exists.1 hget
  -- of the packet only its length matters from here on
  have hforward : ∀ packet : Frame, packet.length = 2049 →
      rxSystem.step startedOne (.put .bump {} packet)
        = some (s₁, .put packet (.ok ())) →
      (t.mem.segments d.buffer).length = 2
        ∧ (TxQueue.put {} t.mem d ({}, { link_ := true })).1.1.txQueue.queue
          = [packet] := by
    intro packet hlen hput
    have hmalloc : Malloc.bump.Supplies startedOne.mem.blocks
        (RxQueue.segmentCount packet.length) := by
      rw [hlen]
      exact ⟨1, rfl, 2, rfl, trivial⟩
    have hround := (forward_round_trip hrun rfl (by decide) (by decide)
      .bump {} packet (fun _ => hmalloc)).2 s₁ hput 0 rfl [.take] t fs d
      (fun _ _ _ => ⟨fun h => (by cases h), trivial⟩) htake hd
    refine ⟨?_, (hround.1 {} { link_ := true } rfl rfl).2⟩
    rw [hround.2.2.1, hlen]
  exact ⟨s₁, t, fs, d, hstep, htake, hd,
    hforward twoSegments (List.length_replicate ..) hstep⟩

/-- A descriptor of the first period returned in the second: `free_` has
a slot although `used_` is full. -/
def staleReturn : List Op :=
  [.configure { size := 1 }, .start, .put .bump {} [7], .take, .stop,
    .start, .put .bump {} [8], .free [0]]

/-- A free slot alone is not enough: `used_` may be full. -/
theorem not_put_ok_staleReturn :
    ¬ ∀ (blocks : Blocks) (as : List Op) (s : RxSystem) (es : List Event)
        (malloc : Malloc) (desc : PacketDescriptor) (packet : Frame),
        rxSystem.run (RxSystem.init blocks) as = some (s, es) →
        s.queue.state = .started → s.queue.free_.queue ≠ [] →
        (RxQueue.segmentCount packet.length ≤ kMaxSegments →
          malloc.Supplies s.mem.blocks
            (RxQueue.segmentCount packet.length)) →
        ((RxQueue.put malloc desc packet s.pair).2 = .ok ()
          ↔ 1 ≤ packet.length
            ∧ packet.length ≤ kMaxSegments * kPacketBufferSize) := by
  intro hall
  have hsome : (rxSystem.run (RxSystem.init ∅) staleReturn).map
      (fun p => (p.1.queue.state, p.1.queue.free_.queue.length,
        (Malloc.bump.answer p.1.mem.blocks).isSome,
        (RxQueue.put .bump {} [9] p.1.pair).2))
        = some (.started, 1, true, .error .queueUsedListFull) := by decide
  obtain ⟨⟨s, es⟩, hrun, hval⟩ := Option.map_eq_some_iff.1 hsome
  simp only [Prod.mk.injEq] at hval
  obtain ⟨hst, hfree, hmalloc, hput⟩ := hval
  have hok := (hall ∅ staleReturn s es .bump {} [9] hrun hst
    (fun hnil => by rw [hnil] at hfree; cases hfree)
    (fun _ => supplies_one hmalloc)).2 (by decide)
  rw [hput] at hok
  cases hok

end RxSystem

end Vnic
