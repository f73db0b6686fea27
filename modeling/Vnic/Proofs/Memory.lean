/-
What the loops of `RxQueue` do to the packet memory, in closed form.

- `deallocateAll` over live, distinct segments erases exactly them and
  moves the live counter by their number; it records no fault as long as
  the counter covers them.
- `releaseChain` is `deallocateAll` over the chain, and `releaseAll` over
  separated chains is `deallocateAll` over all their segments: the chain
  is read before its block goes, and no block of a later chain goes
  early.
- `allocSegments` either reserves the asked number of fresh blocks or
  gives every block back and leaves the heap as it was.
- `fillSegments` turns the reserved blocks into one chain that spells the
  packet.

The blocks, the counter and the fault record are stated apart: the port
may release a chain through a pool that never counted it (a descriptor
kept over a reconfiguration), and then only the blocks part holds.
-/
import Vnic.RxQueue

namespace Vnic

open Linked

variable {m : Memory} {pool : Pool} {ps : List Ptr}

-- ====================================================== deallocateAll

/-- A released live block leaves the heap, and nothing else changes
there. -/
theorem Memory.free_blocks {p : Ptr} (hne : p ≠ nullptr)
    (hlive : p ∈ m.blocks) : (m.free p).blocks = m.blocks.erase p := by
  simp [Memory.free, hne, hlive]

/-- Freeing a live block is no fault. -/
theorem Memory.free_faults {p : Ptr} (hlive : p ∈ m.blocks) :
    (m.free p).faults = m.faults := by
  unfold Memory.free
  rw [if_pos hlive]
  split <;> rfl

/-- `deallocate` of a live block erases it. -/
theorem Pool.deallocate_blocks {p : Ptr} (hne : p ≠ nullptr)
    (hlive : p ∈ m.blocks) :
    (pool.deallocate m p).1.blocks = m.blocks.erase p := by
  unfold Pool.deallocate
  rw [if_neg hne]
  split <;> exact Memory.free_blocks hne hlive

/-- The counter goes down by one, modulo 2^64. -/
theorem Pool.deallocate_pool {p : Ptr} (hne : p ≠ nullptr) :
    (pool.deallocate m p).2 = { pool with live := pool.live - 1 } := by
  unfold Pool.deallocate
  rw [if_neg hne]

/-- While the counter is not zero, no fault is recorded. -/
theorem Pool.deallocate_faults {p : Ptr} (hne : p ≠ nullptr)
    (hlive : p ∈ m.blocks) (hcount : pool.live ≠ 0) :
    (pool.deallocate m p).1.faults = m.faults := by
  unfold Pool.deallocate
  rw [if_neg hne]
  simp only [if_neg hcount]
  exact Memory.free_faults hlive

/-- The segments a release may be asked for: distinct, non-null, live. -/
structure Owned (m : Memory) (ps : List Ptr) : Prop where
  nodup : ps.Nodup
  ne_null : ∀ p ∈ ps, p ≠ nullptr
  live : ∀ p ∈ ps, p ∈ m.blocks

/-- Releasing the first of a list of owned segments leaves the rest
owned. -/
theorem Owned.tail {p : Ptr} (h : Owned m (p :: ps)) :
    Owned (pool.deallocate m p).1 ps := by
  have hnd := List.nodup_cons.1 h.nodup
  refine ⟨hnd.2, fun q hq => h.ne_null q (List.mem_cons_of_mem _ hq), ?_⟩
  intro q hq
  rw [Pool.deallocate_blocks (h.ne_null p (List.mem_cons_self ..))
    (h.live p (List.mem_cons_self ..)), AList.mem_erase]
  exact ⟨fun heq => hnd.1 (heq ▸ hq), h.live q (List.mem_cons_of_mem _ hq)⟩

/-- Many blocks, in one step. -/
theorem Pool.deallocateAll_blocks (h : Owned m ps) :
    (pool.deallocateAll m ps).1.blocks = eraseAll m.blocks ps := by
  induction ps generalizing m pool with
  | nil => rfl
  | cons p ps ih =>
      show ((pool.deallocate m p).2.deallocateAll
        (pool.deallocate m p).1 ps).1.blocks = _
      rw [ih h.tail, eraseAll_cons,
        Pool.deallocate_blocks (h.ne_null p (List.mem_cons_self ..))
          (h.live p (List.mem_cons_self ..))]

theorem Pool.deallocateAll_pool (h : ∀ p ∈ ps, p ≠ nullptr) :
    (pool.deallocateAll m ps).2
      = { pool with live := pool.live - UInt64.ofNat ps.length } := by
  induction ps generalizing m pool with
  | nil => simp [Pool.deallocateAll]
  | cons p ps ih =>
      show ((pool.deallocate m p).2.deallocateAll
        (pool.deallocate m p).1 ps).2 = _
      rw [ih fun q hq => h q (List.mem_cons_of_mem _ hq),
        Pool.deallocate_pool (h p (List.mem_cons_self ..)), List.length_cons]
      simp only [UInt64.ofNat_add, Pool.mk.injEq, true_and, and_true]
      grind

/-- As long as the pool has counted them, releasing blocks is no fault. -/
theorem Pool.deallocateAll_faults (h : Owned m ps)
    (hcount : ps.length ≤ pool.live.toNat) :
    (pool.deallocateAll m ps).1.faults = m.faults := by
  induction ps generalizing m pool with
  | nil => rfl
  | cons p ps ih =>
      rw [List.length_cons] at hcount
      have hne := h.ne_null p (List.mem_cons_self ..)
      have hpos : pool.live ≠ 0 := by
        intro h0
        rw [h0] at hcount
        simp at hcount
      have hdec : (pool.live - 1).toNat = pool.live.toNat - 1 :=
        UInt64.toNat_sub_of_le _ _ (UInt64.le_iff_toNat_le.2 (by
          show 1 ≤ pool.live.toNat
          omega))
      show ((pool.deallocate m p).2.deallocateAll
        (pool.deallocate m p).1 ps).1.faults = _
      rw [ih h.tail (by rw [Pool.deallocate_pool hne, hdec]; omega),
        Pool.deallocate_faults hne (h.live p (List.mem_cons_self ..)) hpos]

-- ======================================================== releaseChain

/-- The release loop over a live chain is `deallocateAll` over it: the
link is read before its block goes, and the rest of the chain does not
pass through that block again. -/
theorem RxQueue.releaseLoop_eq {p : Ptr} (hc : Chain m.blocks p ps) :
    ∀ {fuel : Nat}, ps.length < fuel →
      releaseLoop fuel p (m, pool) = pool.deallocateAll m ps := by
  -- on the chain, with the memory generalised: each pass erases the head
  -- it has just read
  induction ps generalizing m pool p with
  | nil =>
      intro fuel hlt
      cases hc
      cases fuel with
      | zero => simp at hlt
      | succ n =>
          show (if nullptr = nullptr then _ else _) = _
          rw [if_pos rfl]
          rfl
  | cons k ps ih =>
      intro fuel hlt
      have hnd := hc.nodup
      cases hc with
      | @cons _ c _ hne hl hrest =>
          cases fuel with
          | zero => simp at hlt
          | succ n =>
              have hlive : k ∈ m.blocks :=
                AList.lookup_isSome.1 (by simp [hl])
              have hload : m.load k = c := by simp [Memory.load, hl]
              have hrest' : Chain (pool.deallocate m k).1.blocks c.next ps := by
                apply hrest.congr
                intro q hq
                rw [Pool.deallocate_blocks hne hlive]
                apply AList.lookup_erase_ne
                intro heq
                exact (List.nodup_cons.1 hnd).1 (heq ▸ hq)
              show (if k = nullptr then _ else
                releaseLoop n (m.load k).next (pool.deallocate m k)) = _
              rw [if_neg (show k ≠ nullptr from hne), hload]
              exact ih hrest' (by rw [List.length_cons] at hlt; omega)

private theorem RxQueue.releaseChain_eq {p : Ptr}
    (hc : Chain m.blocks p (m.segments p)) :
    releaseChain p (m, pool) = pool.deallocateAll m (m.segments p) :=
  releaseLoop_eq hc (Nat.lt_succ_of_le hc.length_le)

/-- The segments of a separated family are owned. -/
theorem Owned.of_separate {qs : List Ptr} (h : Separate m.blocks qs) :
    Owned m (qs.flatMap m.segments) :=
  ⟨h.nodup, fun _ hp => h.ne_null hp, fun _ hp => h.mem hp⟩

/-- A chain owns its segments. -/
theorem Owned.of_chain {p : Ptr} (hc : Chain m.blocks p ps) : Owned m ps :=
  ⟨hc.nodup, fun _ hp => hc.ne_null hp, fun _ hp => hc.mem hp⟩

theorem Pool.deallocateAll_append (ps qs : List Ptr) :
    pool.deallocateAll m (ps ++ qs)
      = (pool.deallocateAll m ps).2.deallocateAll
          (pool.deallocateAll m ps).1 qs := by
  induction ps generalizing m pool with
  | nil => rfl
  | cons p ps ih =>
      show (pool.deallocate m p).2.deallocateAll (pool.deallocate m p).1
        (ps ++ qs) = _
      rw [ih]
      rfl

/-- Releasing separated chains one after the other is one
`deallocateAll` over all their segments. -/
theorem RxQueue.releaseAll_eq {ds : List PacketDescriptor}
    (h : Separate m.blocks (ds.map PacketDescriptor.buffer)) :
    releaseAll ds (m, pool)
      = pool.deallocateAll m
          (ds.flatMap fun d => m.segments d.buffer) := by
  induction ds generalizing m pool with
  | nil => rfl
  | cons d ds ih =>
      rw [List.map_cons] at h
      have hc := h.chain d.buffer (List.mem_cons_self ..)
      have hblocks : (pool.deallocateAll m (m.segments d.buffer)).1.blocks
          = eraseAll m.blocks (m.segments d.buffer) :=
        Pool.deallocateAll_blocks (Owned.of_chain hc)
      have hs : Separate (pool.deallocateAll m (m.segments d.buffer)).1.blocks
          (ds.map PacketDescriptor.buffer) := by
        rw [hblocks]
        exact h.eraseAll
      -- the later chains are the same before and after this release
      have hsame : ∀ e ∈ ds,
          (pool.deallocateAll m (m.segments d.buffer)).1.segments e.buffer
            = m.segments e.buffer := by
        intro e he
        have hnd := h.nodup
        rw [List.flatMap_cons, List.nodup_append'] at hnd
        unfold Memory.segments
        rw [show (pool.deallocateAll m (chainOf m.blocks d.buffer)).1.blocks
          = eraseAll m.blocks (chainOf m.blocks d.buffer) from hblocks]
        refine (h.sublist (List.sublist_cons_self ..)).chainOf_congr
          (fun k hk => ?_) (List.mem_map_of_mem he)
        exact lookup_eraseAll_of_notMem fun hk' => hnd.2.2 hk' hk
      show releaseAll ds (releaseChain d.buffer (m, pool)) = _
      rw [releaseChain_eq hc]
      apply (ih hs).trans
      rw [List.flatMap_cons, Pool.deallocateAll_append,
        List.flatMap_congr hsame]

-- ======================================================== the others

/-- The descriptors' chains are live and pairwise disjoint. -/
abbrev Owners (m : Memory) (ds : List PacketDescriptor) : Prop :=
  Separate m.blocks (ds.map PacketDescriptor.buffer)

/-- The chains of `ds` are the same in both memories, block for block. -/
def SameChains (m m' : Memory) (ds : List PacketDescriptor) : Prop :=
  ∀ d ∈ ds, m'.segments d.buffer = m.segments d.buffer
    ∧ ∀ k ∈ m.segments d.buffer, m'.blocks.lookup k = m.blocks.lookup k

/-- All segments of a list of descriptors. -/
def Memory.segmentsOf (m : Memory) (ds : List PacketDescriptor) :
    List Ptr :=
  ds.flatMap fun d => m.segments d.buffer

theorem Memory.segmentsOf_append (ds es : List PacketDescriptor) :
    m.segmentsOf (ds ++ es) = m.segmentsOf ds ++ m.segmentsOf es :=
  List.flatMap_append

/-- Owners own all segments of their chains. -/
theorem Owners.owned {ds : List PacketDescriptor} (h : Owners m ds) :
    Owned m (m.segmentsOf ds) := by
  have := Owned.of_separate h
  rwa [List.flatMap_map] at this

/-- Memories that agree on the owned blocks show the same chains. -/
theorem Owners.sameChains {m' : Memory} {ds : List PacketDescriptor}
    (h : Owners m ds)
    (heq : ∀ k ∈ m.segmentsOf ds, m'.blocks.lookup k = m.blocks.lookup k) :
    Owners m' ds ∧ SameChains m m' ds := by
  have heq' : ∀ k ∈ (ds.map PacketDescriptor.buffer).flatMap
      (chainOf m.blocks), m'.blocks.lookup k = m.blocks.lookup k := by
    intro k hk
    rw [List.flatMap_map] at hk
    exact heq k hk
  refine ⟨h.congr heq', fun d hd => ?_⟩
  exact ⟨h.chainOf_congr heq' (List.mem_map_of_mem hd),
    fun k hk => heq k (List.mem_flatMap.2 ⟨d, hd, hk⟩)⟩

theorem SameChains.segmentsOf {m' : Memory} {ds : List PacketDescriptor}
    (h : SameChains m m' ds) : m'.segmentsOf ds = m.segmentsOf ds :=
  List.flatMap_congr fun d hd => (h d hd).1

/-- The same blocks hold the same bytes. -/
theorem SameChains.contents {m' : Memory} {ds : List PacketDescriptor}
    (h : SameChains m m' ds) {d : PacketDescriptor} (hd : d ∈ ds) :
    m'.contents d.buffer = m.contents d.buffer := by
  unfold Memory.contents
  rw [(h d hd).1]
  exact dataOf_congr _ (h d hd).2

/-- Releasing the chains of `ds` leaves those of `es` alone. -/
theorem Owners.release {ds es : List PacketDescriptor}
    (h : Owners m (ds ++ es)) :
    Owners (pool.deallocateAll m (m.segmentsOf ds)).1 es
      ∧ SameChains m (pool.deallocateAll m (m.segmentsOf ds)).1 es := by
  have howned := h.owned
  rw [Memory.segmentsOf_append] at howned
  have hnd := List.nodup_append'.1 howned.nodup
  have hds : Owned m (m.segmentsOf ds) :=
    ⟨hnd.1, fun p hp => howned.ne_null p (List.mem_append_left _ hp),
      fun p hp => howned.live p (List.mem_append_left _ hp)⟩
  have hes : Owners m es :=
    h.sublist (List.Sublist.map _ (List.sublist_append_right ds es))
  apply hes.sameChains
  intro k hk
  rw [Pool.deallocateAll_blocks hds]
  exact lookup_eraseAll_of_notMem fun hk' => hnd.2.2 hk' hk

/-- Distinct non-null addresses are fewer than the address space. -/
theorem length_lt_of_nodup (hnd : ps.Nodup) (hne : ∀ p ∈ ps, p ≠ nullptr) :
    ps.length < 2 ^ 64 := by
  have hinj : (ps.map UInt64.toNat).Nodup :=
    hnd.map fun _ _ h => UInt64.toNat_inj.1 h
  have hsub : (ps.map UInt64.toNat) ⊆ List.range' 1 (2 ^ 64 - 1) := by
    intro n hn
    obtain ⟨p, hp, rfl⟩ := List.mem_map.1 hn
    have hlt := p.toNat_lt
    have hpos : p.toNat ≠ 0 := fun h0 => hne p hp (UInt64.toNat_inj.1 h0)
    rw [List.mem_range'_1]
    omega
  have hle := (hinj.subperm hsub).length_le
  rw [List.length_map, List.length_range'] at hle
  omega

-- ======================================================= allocSegments

/-- A pool that has handed out `n` more blocks. -/
def Pool.grown (pool : Pool) (n : Nat) : Pool :=
  { pool with
    live := pool.live + UInt64.ofNat n
    total := pool.total + UInt64.ofNat n }

/-- A pool that handed out `n` blocks and took them back: only the
lifetime total remembers. -/
def Pool.spent (pool : Pool) (n : Nat) : Pool :=
  { pool with total := pool.total + UInt64.ofNat n }

/-- Fresh segments: distinct, non-null, not live. -/
structure FreshSegments (m : Memory) (ps : List Ptr) : Prop where
  nodup : ps.Nodup
  ne_null : ∀ p ∈ ps, p ≠ nullptr
  notMem : ∀ p ∈ ps, p ∉ m.blocks

/-- The memory with fresh segments reserved. -/
def Memory.reserved (m : Memory) (ps : List Ptr) : Memory :=
  { m with blocks := insertAll {} m.blocks ps }

/-- Blocks just allocated are owned. -/
theorem FreshSegments.owned (h : FreshSegments m ps) :
    Owned (m.reserved ps) ps :=
  ⟨h.nodup, h.ne_null, fun _ hp => mem_insertAll.2 (Or.inl hp)⟩

private theorem Pool.grown_succ (pool : Pool) (n : Nat) :
    { pool.grown n with
        live := (pool.grown n).live + 1
        total := (pool.grown n).total + 1 } = pool.grown (n + 1) := by
  simp only [Pool.grown, UInt64.ofNat_add, Pool.mk.injEq, true_and]
  constructor <;> grind

/-- Giving back `n` of the blocks handed out. -/
theorem Pool.deallocateAll_grown {m' : Memory}
    (h : ∀ p ∈ ps, p ≠ nullptr) :
    ((pool.grown ps.length).deallocateAll m' ps).2 = pool.spent ps.length := by
  rw [Pool.deallocateAll_pool h]
  simp only [Pool.grown, Pool.spent, Pool.mk.injEq, true_and, and_true]
  grind

/-- The allocation loop, from `buffers` already reserved: it reserves `n`
more, or fails and gives everything back. -/
theorem RxQueue.allocSegments_cases (malloc : Malloc) (pool : Pool) :
    ∀ (n : Nat) {buffers : List Ptr}, FreshSegments m buffers →
      (∃ ps, FreshSegments m ps ∧ ps.length = buffers.length + n
        ∧ allocSegments malloc n
            (m.reserved buffers, pool.grown buffers.length) buffers
          = ((m.reserved ps, pool.grown ps.length), .ok ps))
      ∨ (∃ ps, FreshSegments m ps ∧ ps.length < buffers.length + n
        ∧ ¬ malloc.Supplies (m.reserved buffers).blocks n
        ∧ allocSegments malloc n
            (m.reserved buffers, pool.grown buffers.length) buffers
          = ((pool.grown ps.length).deallocateAll (m.reserved ps) ps,
              .error .memoryPoolExhausted)) := by
  intro n
  -- on the segments still to reserve; buffers are those already in hand
  induction n with
  | zero =>
      intro buffers hb
      exact Or.inl ⟨buffers, hb, rfl, rfl⟩
  | succ n ih =>
      intro buffers hb
      cases hans : malloc.answer (m.reserved buffers).blocks with
      | none =>
          have hno : ¬ malloc.Supplies (m.reserved buffers).blocks (n + 1) := by
            rintro ⟨p, hp, -⟩
            rw [hans] at hp
            cases hp
          refine Or.inr ⟨buffers, hb, by omega, hno, ?_⟩
          unfold allocSegments
          simp only [Pool.allocate, hans]
      | some p =>
          obtain ⟨hp0, hpm⟩ := malloc.fresh _ p hans
          -- the new block is neither in hand nor live elsewhere: malloc
          -- answers outside the blocks
          have hpm' : p ∉ buffers ∧ p ∉ m.blocks := by
            have hno : ¬ (p ∈ buffers ∨ p ∈ m.blocks) :=
              fun h => hpm (mem_insertAll.2 h)
            exact not_or.1 hno
          have hb' : FreshSegments m (buffers ++ [p]) := by
            refine ⟨?_, ?_, ?_⟩
            · rw [List.nodup_append']
              refine ⟨hb.nodup, List.nodup_singleton p, ?_⟩
              intro q hq hq'
              rw [List.mem_singleton] at hq'
              exact hpm'.1 (hq' ▸ hq)
            · intro q hq
              rcases List.mem_append.1 hq with hq | hq
              · exact hb.ne_null q hq
              · rw [List.mem_singleton.1 hq]
                exact hp0
            · intro q hq
              rcases List.mem_append.1 hq with hq | hq
              · exact hb.notMem q hq
              · rw [List.mem_singleton.1 hq]
                exact hpm'.2
          have hstep : allocSegments malloc (n + 1)
              (m.reserved buffers, pool.grown buffers.length) buffers
              = allocSegments malloc n (m.reserved (buffers ++ [p]),
                  pool.grown (buffers ++ [p]).length) (buffers ++ [p]) := by
            rw [allocSegments]
            simp only [Pool.allocate, hans]
            rw [Pool.grown_succ, List.length_append]
            unfold Memory.reserved
            rw [insertAll_concat]
            rfl
          have hsup : malloc.Supplies (m.reserved buffers).blocks (n + 1)
              → malloc.Supplies (m.reserved (buffers ++ [p])).blocks n := by
            rintro ⟨p', hp', hrest⟩
            rw [hans, Option.some.injEq] at hp'
            subst hp'
            rw [Memory.reserved, insertAll_concat]
            exact hrest
          rw [hstep]
          have := ih hb'
          rw [List.length_append, List.length_singleton] at this
          rw [show buffers.length + (n + 1) = buffers.length + 1 + n by omega]
          rw [List.length_append, List.length_singleton]
          rcases this with hok | ⟨ps, hf, hlen, hno, heq⟩
          · exact Or.inl hok
          · exact Or.inr ⟨ps, hf, hlen, fun h => hno (hsup h), heq⟩

-- ======================================================== fillSegments

/-- The header and chunk the fill loop writes at `offset`. -/
def segmentAt (packet : Frame) (offset : Nat) (next : Ptr) : PacketBuffer :=
  { next := next
    length := UInt32.ofNat (min kPacketBufferSize (packet.length - offset))
    payload := (packet.drop offset).take
      (min kPacketBufferSize (packet.length - offset)) }

/-- A segment holds its part of the packet. -/
theorem segmentAt_getPacket (packet : Frame) (offset : Nat) (next : Ptr) :
    (segmentAt packet offset next).getPacket
      = (packet.drop offset).take kPacketBufferSize := by
  have hsmall : (UInt32.ofNat
      (min kPacketBufferSize (packet.length - offset))).toNat
      = min kPacketBufferSize (packet.length - offset) := by
    rw [UInt32.toNat_ofNat']
    apply Nat.mod_eq_of_lt
    simp only [kPacketBufferSize]
    omega
  unfold PacketBuffer.getPacket segmentAt
  rw [hsmall, List.take_take, Nat.min_self]
  rcases Nat.le_total kPacketBufferSize (packet.length - offset) with h | h
  · rw [Nat.min_eq_left h]
  · rw [Nat.min_eq_right h, List.take_of_length_le (by simp),
      List.take_of_length_le (by simpa using h)]

/-- The memory with a live block overwritten. -/
def Memory.written (m : Memory) (p : Ptr) (b : PacketBuffer) : Memory :=
  { m with blocks := m.blocks.insert p b }

/-- The fill loop writes the first segment and goes on behind it. -/
theorem RxQueue.fillSegments_cons (packet : Frame) (offset : Nat) (p : Ptr)
    (hlive : p ∈ m.blocks) :
    fillSegments packet m offset (p :: ps)
      = fillSegments packet
          (m.written p (segmentAt packet offset (ps.headD nullptr)))
          (offset + min kPacketBufferSize (packet.length - offset)) ps := by
  show fillSegments packet (m.store p _) _ ps = _
  rw [Memory.store, if_pos hlive]
  rfl

/-- The fill loop writes its own blocks only and records no fault. -/
theorem RxQueue.fillSegments_frame (packet : Frame) (offset : Nat)
    (hlive : ∀ p ∈ ps, p ∈ m.blocks) :
    (fillSegments packet m offset ps).faults = m.faults
      ∧ (∀ k, k ∈ (fillSegments packet m offset ps).blocks ↔ k ∈ m.blocks)
      ∧ ∀ k, k ∉ ps →
          (fillSegments packet m offset ps).blocks.lookup k
            = m.blocks.lookup k := by
  induction ps generalizing m offset with
  | nil => exact ⟨rfl, fun _ => Iff.rfl, fun _ _ => rfl⟩
  | cons p ps ih =>
      have hp := hlive p (List.mem_cons_self ..)
      rw [fillSegments_cons packet offset p hp]
      obtain ⟨hf, hm, hl⟩ := ih
        (m := m.written p (segmentAt packet offset (ps.headD nullptr)))
        (offset + min kPacketBufferSize (packet.length - offset))
        (fun q hq => (AList.mem_insert _).2
          (Or.inr (hlive q (List.mem_cons_of_mem _ hq))))
      refine ⟨hf, fun k => ?_, fun k hk => ?_⟩
      · rw [hm k, Memory.written, AList.mem_insert]
        exact ⟨fun h => h.elim (fun h => h ▸ hp) id, Or.inr⟩
      · rw [List.mem_cons, not_or] at hk
        rw [hl k hk.2, Memory.written, AList.lookup_insert_ne hk.1]

/-- What the fill loop leaves in the `i`-th block. -/
theorem RxQueue.fillSegments_lookup (packet : Frame) (offset : Nat)
    (hnd : ps.Nodup) (hlive : ∀ p ∈ ps, p ∈ m.blocks) {p : Ptr} {i : Nat}
    (hi : ps[i]? = some p) :
    (fillSegments packet m offset ps).blocks.lookup p
      = some (segmentAt packet (offset + i * kPacketBufferSize)
          ((ps.drop (i + 1)).headD nullptr)) := by
  induction ps generalizing m offset i with
  | nil => simp at hi
  | cons q ps ih =>
      have hq := hlive q (List.mem_cons_self ..)
      have hnd' := List.nodup_cons.1 hnd
      rw [fillSegments_cons packet offset q hq]
      have hlive' : ∀ p ∈ ps, p ∈ (m.written q
          (segmentAt packet offset (ps.headD nullptr))).blocks := fun p hp =>
        (AList.mem_insert _).2 (Or.inr (hlive p (List.mem_cons_of_mem _ hp)))
      cases i with
      | zero =>
          simp only [List.getElem?_cons_zero, Option.some.injEq] at hi
          subst hi
          rw [(fillSegments_frame packet _ hlive').2.2 q hnd'.1]
          simp [Memory.written]
      | succ i =>
          rw [List.getElem?_cons_succ] at hi
          rw [ih _ hnd'.2 hlive' hi]
          -- a short chunk ends the packet, so later offsets agree past it
          unfold segmentAt
          simp only [List.drop_succ_cons, Option.some.injEq,
            PacketBuffer.mk.injEq, true_and]
          rcases Nat.le_total kPacketBufferSize (packet.length - offset)
            with h | h
          · rw [Nat.min_eq_left h, Nat.add_mul, Nat.one_mul]
            rw [show offset + kPacketBufferSize + i * kPacketBufferSize
              = offset + (i * kPacketBufferSize + kPacketBufferSize) by omega]
            exact ⟨rfl, rfl⟩
          · rw [Nat.min_eq_right h]
            have h₁ : packet.length
                - (offset + (packet.length - offset)
                    + i * kPacketBufferSize) = 0 := by omega
            have h₂ : packet.length
                - (offset + (i + 1) * kPacketBufferSize) = 0 := by
              rw [Nat.add_mul, Nat.one_mul]
              omega
            rw [h₁, h₂]
            simp

end Vnic
