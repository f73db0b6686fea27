/-
A started `RxQueue` shared between threads is a queue with credits.

# What is refined

The credits are the descriptors in `free_`; the one an in-flight `put`
has popped is one of them until the packet is published. What waits is
`used_`, what is held is held, and each descriptor stands for what a
holder sees through it, its fields and the bytes of its chain
(`RxThreads.abs`). A `free` gives up its descriptors when it is called
and returns the credits with its `pushAll`. Everything between is silent:
blocks allocated, segments written, blocks released, in any number of
threads.

# The invariant

The blocks the queue's users share out among themselves are an `Estate`
of the heap: the chains of `used_`, of the held descriptors and of what
the calls of `free` have still to release, and, as loose cells, the
segments of the `put` under way. Each step is one rule of the estate, and
the rule says that no other chain moves. `PutOk` is the loop invariant of
`put`, over the segments it has written.

That no slot is lost needs the credits: they are `size` at all times
(`CreditQueue.step_total`), so a FIFO whose capacity is `size` has room
for any of them that is elsewhere.

# Whole calls

Run back to back, the steps of one call are the call as the other models
have it: `put_run`, `free_run`.
-/
import Vnic.Lib.CreditQueue
import Vnic.Lib.Estate
import Vnic.Proofs.RxPeriod
import Vnic.RxThreads

namespace Vnic.RxThreads

open Linked

-- ========================================================= abstraction

/-- The descriptors a call of `free` was given. -/
def FreeCall.descs : FreeCall → List PacketDescriptor
  | .release descs _ _ => descs
  | .pushAll descs => descs

/-- The chains a call of `free` has still to release. -/
def FreeCall.heads : FreeCall → List Ptr
  | .release _ segment rest => segment :: rest.map PacketDescriptor.buffer
  | .pushAll _ => []

/-- The slot the `put` under way holds. -/
def PutPc.slots : PutPc → Nat
  | .push _ _ _ _ => 1
  | .guards (some _) _ => 1
  | _ => 0

/-- The segments of the `put` under way. -/
def PutPc.buffers : PutPc → List Ptr
  | .idle => []
  | .alloc _ _ buffers => buffers
  | .fill _ _ _ written rest => written ++ rest
  | .pop _ _ buffers => buffers
  | .push _ _ _ buffers => buffers
  | .guards _ buffers => buffers

/-- Credits on their way back. -/
def returning (calls : List FreeCall) : Nat :=
  (calls.map fun c => c.descs.length).sum

/-- What the queue is for. -/
def abs (s : RxThreads) : CreditQueue (PacketDescriptor × Frame) where
  credits := s.queue.free_.queue.length + s.pc.slots
  waiting := s.queue.used_.queue.map (observed s.mem)
  held := s.held.map (observed s.mem)
  returning := returning s.freeing

/-- What a step is, seen from outside. -/
def Event.view : Event → List (CreditQueue.Event (PacketDescriptor × Frame))
  | .put desc packet (.ok ()) =>
      [.accepted ({ desc with
          buffer := nullptr
          totalLength := UInt32.ofNat packet.length }, packet)]
  | .put _ _ (.error .queueFreeListEmpty) => [.full]
  | .take ticket seen => [.taken ticket seen]
  | .look seen => [.seen seen]
  | .free tickets => [.givenUp tickets]
  | .freed n (.ok ()) => [.credited n]
  | _ => []

/-- A step that loses a slot. -/
def Event.Loses : Event → Prop
  | .put _ _ (.error .queueUsedListFull) => True
  | .freed _ (.error _) => True
  | _ => False

-- =========================================================== ownership

/-- The chains of some descriptors and of the calls of `free`. -/
def heads (ds : List PacketDescriptor) (calls : List FreeCall) :
    List Ptr :=
  ds.map PacketDescriptor.buffer ++ calls.flatMap FreeCall.heads

/-- The descriptors somebody may still look through. -/
def reach (s : RxThreads) : List PacketDescriptor :=
  s.queue.used_.queue ++ s.held.values

/-- The blocks the queue's users share out among themselves. -/
def owned (s : RxThreads) : List Ptr :=
  cells s.mem.blocks (heads s.reach s.freeing) s.pc.buffers

/-- The first `n` segments of a packet are written. -/
def Written (m : Memory) (packet : Frame) (buffers : List Ptr) (n : Nat) :
    Prop :=
  ∀ i p, i < n → buffers[i]? = some p →
    m.blocks.lookup p = some (segmentAt packet (i * kPacketBufferSize)
      ((buffers.drop (i + 1)).headD nullptr))

/-- Where `put` stands, it has that much of the packet in its segments. -/
def PutOk (m : Memory) : PutPc → Prop
  | .idle => True
  | .alloc _ packet buffers =>
      buffers.length ≤ RxQueue.segmentCount packet.length
  | .fill _ packet offset written rest =>
      (written ++ rest).length = RxQueue.segmentCount packet.length
      ∧ (rest ≠ [] → offset = written.length * kPacketBufferSize)
      ∧ Written m packet (written ++ rest) written.length
  | .pop _ packet buffers =>
      buffers.length = RxQueue.segmentCount packet.length
      ∧ Written m packet buffers buffers.length
  | .push _ packet _ buffers =>
      buffers.length = RxQueue.segmentCount packet.length
      ∧ Written m packet buffers buffers.length
  | .guards slot _ => slot = none

/-- The blocks `outs` were counted by the pool before the period, and are
nobody's in it. -/
structure Outside (base : Memory) (outs : List Ptr) : Prop where
  nodup : outs.Nodup
  ne_null : ∀ p ∈ outs, p ≠ nullptr
  live : ∀ p ∈ outs, p ∈ base.blocks

/-- The invariant of a started period of a queue of size `size`, opened
in the memory `base`. -/
structure Inv (base : Memory) (outs : List Ptr) (size : Nat)
    (s : RxThreads) : Prop where
  freeCap : s.queue.free_.config.capacity = size
  usedCap : s.queue.used_.config.capacity = size
  total : s.abs.total = size
  estate : Estate base.blocks s.mem.blocks (heads s.reach s.freeing)
    s.pc.buffers
  put : PutOk s.mem s.pc
  live : s.queue.memPool.live.toNat = outs.length + s.owned.length
  faults : s.mem.faults = base.faults

variable {base m : Memory} {outs : List Ptr} {size : Nat}
  {s t : RxThreads} {a : Op} {e : Event} {ds : List PacketDescriptor}
  {calls pre post : List FreeCall} {c : FreeCall}

/-- One call under way, and the others. -/
private theorem heads_middle (ds : List PacketDescriptor)
    (pre post : List FreeCall) (c : FreeCall) :
    (heads ds (pre ++ c :: post)).Perm
      (c.heads ++ heads ds (pre ++ post)) := by
  unfold heads
  rw [List.flatMap_append, List.flatMap_cons, List.flatMap_append]
  calc ds.map PacketDescriptor.buffer
        ++ (pre.flatMap FreeCall.heads
          ++ (c.heads ++ post.flatMap FreeCall.heads))
      = (ds.map PacketDescriptor.buffer ++ pre.flatMap FreeCall.heads)
          ++ (c.heads ++ post.flatMap FreeCall.heads) := by
        rw [List.append_assoc]
    List.Perm _ (c.heads ++ ((ds.map PacketDescriptor.buffer
          ++ pre.flatMap FreeCall.heads)
          ++ post.flatMap FreeCall.heads)) :=
        List.perm_append_comm_assoc ..
    _ = _ := by rw [List.append_assoc]

private theorem heads_perm {es : List PacketDescriptor} (h : ds.Perm es)
    (calls : List FreeCall) : (heads ds calls).Perm (heads es calls) :=
  (h.map _).append_right _

private theorem mem_heads {d : PacketDescriptor} (hd : d ∈ ds) :
    d.buffer ∈ heads ds calls :=
  List.mem_append_left _ (List.mem_map_of_mem hd)

private theorem returning_middle (pre post : List FreeCall) (c : FreeCall) :
    returning (pre ++ c :: post)
      = c.descs.length + returning (pre ++ post) := by
  unfold returning
  simp only [List.map_append, List.map_cons, List.sum_append,
    List.sum_cons]
  omega

/-- The call that stands at `i`. -/
private theorem call_at {i : Nat} (h : calls[i]? = some c) :
    ∃ pre post, calls = pre ++ c :: post
      ∧ (∀ c', calls.set i c' = pre ++ c' :: post)
      ∧ calls.eraseIdx i = pre ++ post := by
  obtain ⟨hlt, hget⟩ := List.getElem?_eq_some_iff.1 h
  refine ⟨calls.take i, calls.drop (i + 1), ?_, fun c' => ?_, ?_⟩
  · rw [← hget, List.getElem_cons_drop, List.take_append_drop]
  · exact List.set_eq_take_append_cons_drop.trans (if_pos hlt)
  · exact List.eraseIdx_eq_take_drop_succ ..

-- ======================================================== what is seen

/-- Equal cells show the same through a descriptor. -/
private theorem observed_congr {m' : Memory} {ps : List Ptr}
    {d : PacketDescriptor}
    (h : SameCells m.blocks m'.blocks ps) (hd : d.buffer ∈ ps) :
    observed m' d = observed m d := by
  unfold observed Memory.contents Memory.segments
  rw [h.dataOf PacketBuffer.getPacket hd]

/-- A change that leaves the chains alone is not seen. -/
private theorem seen_congr (m' : Memory)
    (h : SameCells s.mem.blocks m'.blocks (heads s.reach s.freeing)) :
    s.queue.used_.queue.map (observed m')
        = s.queue.used_.queue.map (observed s.mem)
      ∧ s.held.map (observed m') = s.held.map (observed s.mem) := by
  constructor
  · exact List.map_congr_left fun d hd =>
      observed_congr h (mem_heads (List.mem_append_left _ hd))
  · exact Ledger.map_congr fun d hd =>
      observed_congr h (mem_heads (List.mem_append_right _ hd))

/-- The segments of a packet, all written, are a chain. -/
theorem Written.chain {packet : Frame} {buffers : List Ptr}
    (hw : Written m packet buffers buffers.length)
    (hne : ∀ p ∈ buffers, p ≠ nullptr) :
    ∀ pre suf : List Ptr, buffers = pre ++ suf →
      Chain m.blocks (suf.headD nullptr) suf
      ∧ dataOf PacketBuffer.getPacket m.blocks suf
        = (packet.drop (pre.length * kPacketBufferSize)).take
            (suf.length * kPacketBufferSize) := by
  intro pre suf
  induction suf generalizing pre with
  | nil => intro _; exact ⟨.nil, by simp [dataOf]⟩
  | cons p suf ih =>
      intro hps
      obtain ⟨hchain, hdata⟩ := ih (pre ++ [p]) (by simp [hps])
      have hi : buffers[pre.length]? = some p := by simp [hps]
      have hnext : (buffers.drop (pre.length + 1)).headD nullptr
          = suf.headD nullptr := by
        simp [hps, List.drop_append]
      have hl := hw pre.length p (by simp [hps]) hi
      rw [hnext] at hl
      refine ⟨.cons (hne p (by simp [hps])) hl hchain, ?_⟩
      rw [List.length_append, List.length_singleton, Nat.add_mul,
        Nat.one_mul] at hdata
      show ((_ : Option PacketBuffer).map _).getD [] ++ dataOf _ _ suf = _
      rw [hdata, hl, Option.map_some, Option.getD_some,
        segmentAt_getPacket, List.length_cons, Nat.add_mul, Nat.one_mul,
        Nat.add_comm (suf.length * _), List.take_add, List.drop_drop]

/-- What a holder will see through the descriptor `put` publishes. -/
theorem Written.observed {packet : Frame} {buffers : List Ptr}
    {desc : PacketDescriptor}
    (hw : Written m packet buffers buffers.length)
    (hne : ∀ p ∈ buffers, p ≠ nullptr)
    (hcount : buffers.length = RxQueue.segmentCount packet.length) :
    observed m { desc with
        buffer := buffers.headD nullptr
        totalLength := UInt32.ofNat packet.length }
      = ({ desc with
        buffer := nullptr
        totalLength := UInt32.ofNat packet.length }, packet) := by
  obtain ⟨hchain, hdata⟩ := hw.chain hne [] buffers rfl
  refine Prod.ext rfl ?_
  show dataOf PacketBuffer.getPacket m.blocks
    (chainOf m.blocks (buffers.headD nullptr)) = packet
  rw [hchain.chainOf_eq, hdata, List.length_nil, Nat.zero_mul,
    List.drop_zero, hcount,
    List.take_of_length_le (RxQueue.segmentCount_mul _)]

/-- The segments written stay written. -/
theorem Written.congr {m' : Memory} {packet : Frame} {buffers : List Ptr}
    {n : Nat} (hw : Written m packet buffers n)
    (heq : ∀ p ∈ buffers, m'.blocks.lookup p = m.blocks.lookup p) :
    Written m' packet buffers n := by
  intro i p hi hp
  rw [heq p (List.mem_of_getElem? hp)]
  exact hw i p hi hp

/-- A change elsewhere does not touch the segments of `put`. -/
theorem PutOk.congr {m' : Memory} {pc : PutPc} (h : PutOk m pc)
    (heq : ∀ p ∈ pc.buffers, m'.blocks.lookup p = m.blocks.lookup p) :
    PutOk m' pc := by
  cases pc with
  | idle => trivial
  | alloc _ _ _ => exact h
  | fill _ _ _ _ _ => exact ⟨h.1, h.2.1, h.2.2.congr heq⟩
  | pop _ _ _ => exact ⟨h.1, h.2.congr heq⟩
  | push _ _ _ _ => exact ⟨h.1, h.2.congr heq⟩
  | guards _ _ => exact h

-- ================================================== one step, in parts

/-- The specification's system. -/
abbrev spec : StepSystem (CreditQueue (PacketDescriptor × Frame))
    (CreditQueue.Op (PacketDescriptor × Frame))
    (CreditQueue.Event (PacketDescriptor × Frame)) :=
  CreditQueue.system _

/-- A step keeps the invariant, is a run of the specification, and loses
no slot. -/
structure Stepped (base : Memory) (outs : List Ptr) (size : Nat)
    (s t : RxThreads) (e : Event) : Prop where
  inv : Inv base outs size t
  run : ∃ ops, spec.run s.abs ops = some (t.abs, e.view)
  kept : ¬ e.Loses

/-- The credits need no proof of their own. -/
theorem Inv.stepped (hi : Inv base outs size s)
    (hfree : t.queue.free_.config = s.queue.free_.config)
    (hused : t.queue.used_.config = s.queue.used_.config)
    (hestate : Estate base.blocks t.mem.blocks (heads t.reach t.freeing)
      t.pc.buffers)
    (hput : PutOk t.mem t.pc)
    (hlive : t.queue.memPool.live.toNat = outs.length + t.owned.length)
    (hfaults : t.mem.faults = s.mem.faults)
    (hrun : ∃ ops, spec.run s.abs ops = some (t.abs, e.view))
    (hkept : ¬ e.Loses) : Stepped base outs size s t e := by
  obtain ⟨ops, hops⟩ := hrun
  exact ⟨⟨hfree ▸ hi.freeCap, hused ▸ hi.usedCap,
    (CreditQueue.run_total hops).trans hi.total, hestate, hput, hlive,
    hfaults.trans hi.faults⟩, ⟨ops, hops⟩, hkept⟩

/-- A step that the specification does not see. -/
theorem run_silent (h : t.abs = s.abs) (he : e.view = []) :
    ∃ ops, spec.run s.abs ops = some (t.abs, e.view) := by
  refine ⟨[], ?_⟩
  rw [h, he]
  rfl

/-- A step that is one step of the specification. -/
theorem run_one (op : CreditQueue.Op (PacketDescriptor × Frame))
    {x : CreditQueue.Event (PacketDescriptor × Frame)}
    (h : s.abs.step op = some (t.abs, x)) (he : e.view = [x]) :
    ∃ ops, spec.run s.abs ops = some (t.abs, e.view) :=
  ⟨[op], by rw [he]; exact spec.run_of_step h rfl⟩

/-- The blocks that may be counted are fewer than the addresses. -/
theorem Outside.bound (ho : Outside base outs) {blocks : Blocks}
    {hs loose : List Ptr} (he : Estate base.blocks blocks hs loose) :
    outs.length + (cells blocks hs loose).length < 2 ^ 64 := by
  rw [← List.length_append]
  refine length_lt_of_nodup ?_ ?_
  · refine List.nodup_append'.2 ⟨ho.nodup, he.cells_nodup, ?_⟩
    intro p hp hp'
    obtain ⟨hl, hc⟩ := he.fresh p (ho.live p hp)
    exact (List.mem_append.1 hp').elim hc hl
  · intro p hp
    rcases List.mem_append.1 hp with hp | hp
    · exact ho.ne_null p hp
    · exact he.cells_ne_null p hp

/-- One more block is counted. -/
private theorem live_succ {live : UInt64} {n : Nat} (h : live.toNat = n)
    (hlt : n + 1 < 2 ^ 64) : (live + 1).toNat = n + 1 := by
  rw [UInt64.toNat_add, h]
  exact Nat.mod_eq_of_lt hlt

/-- One block less is counted. -/
private theorem live_pred {live : UInt64} {n : Nat} (h : live.toNat = n + 1) :
    live ≠ 0 ∧ (live - 1).toNat = n := by
  constructor
  · rintro rfl
    simp at h
  · rw [UInt64.toNat_sub_of_le _ _ (UInt64.le_iff_toNat_le.2 (by
      show 1 ≤ live.toNat
      omega)), h]
    rfl

/-- A block of the estate is released through the pool. -/
theorem deallocate_cell {p : Ptr} {n : Nat} (hne : p ≠ nullptr)
    (hlive : p ∈ s.mem.blocks)
    (hcount : s.queue.memPool.live.toNat = n + 1) :
    ∃ m pool, s.queue.memPool.deallocate s.mem p = (m, pool)
      ∧ m.blocks = s.mem.blocks.erase p ∧ m.faults = s.mem.faults
      ∧ pool.live.toNat = n := by
  obtain ⟨hpos, hpred⟩ := live_pred hcount
  refine ⟨(s.queue.memPool.deallocate s.mem p).1,
    (s.queue.memPool.deallocate s.mem p).2, rfl,
    Pool.deallocate_blocks hne hlive,
    Pool.deallocate_faults hne hlive hpos, ?_⟩
  rw [Pool.deallocate_pool hne]
  exact hpred

/-- What the invariant says where the poll thread stands. -/
theorem Inv.at (hi : Inv base outs size s) {pc : PutPc} (hpc : s.pc = pc) :
    Estate base.blocks s.mem.blocks (heads s.reach s.freeing) pc.buffers
    ∧ PutOk s.mem pc
    ∧ s.queue.memPool.live.toNat = outs.length
      + (cells s.mem.blocks (heads s.reach s.freeing) pc.buffers).length := by
  subst hpc
  exact ⟨hi.estate, hi.put, hi.live⟩

-- ======================================================= steps of `put`

/-- The size checks show a refusal or open the allocation loop. -/
private theorem put_stepped (hi : Inv base outs size s)
    {desc : PacketDescriptor}
    {packet : Frame} (h : s.step (.put desc packet) = some (t, e)) :
    Stepped base outs size s t e := by
  cases hpc : s.pc with
  | idle =>
      simp only [step, hpc, Option.some.injEq] at h
      obtain ⟨hestate, -, hlive⟩ := hi.at hpc
      unfold putStep at h
      simp only at h
      split at h
      · cases h
        exact hi.stepped rfl rfl hi.estate hi.put hi.live rfl
          (run_silent rfl rfl) (fun h => h)
      · split at h
        · cases h
          exact hi.stepped rfl rfl hi.estate hi.put hi.live rfl
            (run_silent rfl rfl) (fun h => h)
        · split at h
          · cases h
            exact hi.stepped rfl rfl hi.estate hi.put hi.live rfl
              (run_silent rfl rfl) (fun h => h)
          · cases h
            exact hi.stepped rfl rfl hestate (Nat.zero_le _) hlive rfl
              (run_silent (by unfold abs; rw [hpc]; rfl) rfl) (fun h => h)
  | _ => simp [step, hpc] at h

/-- The allocation loop. -/
private theorem alloc_stepped (ho : Outside base outs)
    (hi : Inv base outs size s)
    {malloc : Malloc} {desc : PacketDescriptor} {packet : Frame}
    {buffers : List Ptr} (hpc : s.pc = .alloc desc packet buffers)
    (h : s.pollStep malloc = some (t, e)) :
    Stepped base outs size s t e := by
  obtain ⟨hestate, hput, hlive⟩ := hi.at hpc
  simp only [PutPc.buffers] at hestate hlive
  simp only [pollStep, hpc] at h
  by_cases hlt : buffers.length < RxQueue.segmentCount packet.length
  · rw [if_pos hlt] at h
    unfold Pool.allocate at h
    -- the reservation may fail: then the guards run, and the credit queue
    -- sees nothing yet
    cases hans : malloc.answer s.mem.blocks with
    | none =>
        simp only [hans] at h
        cases h
        exact hi.stepped rfl rfl hestate rfl hlive rfl
          (run_silent (by unfold abs; rw [hpc]; rfl) rfl) (fun h => h)
    | some p =>
        simp only [hans] at h
        cases h
        obtain ⟨hne, hfresh⟩ := malloc.fresh _ p hans
        obtain ⟨hnew, hsame⟩ := hestate.reserve hne hfresh {}
        obtain ⟨hused, hheld⟩ := seen_congr
          { s.mem with blocks := s.mem.blocks.insert p {} } hsame
        have hcells : (cells (s.mem.blocks.insert p {})
            (heads s.reach s.freeing) (buffers ++ [p])).length
            = (cells s.mem.blocks (heads s.reach s.freeing)
              buffers).length + 1 := by
          unfold cells
          rw [hsame.flatMap]
          simp only [List.length_append, List.length_singleton]
          omega
        have hbound := ho.bound hnew
        rw [hcells] at hbound
        refine hi.stepped rfl rfl hnew ?_ ?_ rfl (run_silent ?_ rfl)
          (fun h => h)
        · show (buffers ++ [p]).length ≤ _
          rw [List.length_append, List.length_singleton]
          omega
        · refine (live_succ hlive (by omega)).trans ?_
          show _ = outs.length + (cells (s.mem.blocks.insert p {})
            (heads s.reach s.freeing) (buffers ++ [p])).length
          rw [hcells]
          rfl
        · unfold abs
          rw [hpc]
          congr 1
  · rw [if_neg hlt] at h
    cases h
    have hcount : buffers.length
        = RxQueue.segmentCount packet.length :=
      Nat.le_antisymm hput (Nat.le_of_not_lt hlt)
    refine hi.stepped rfl rfl hestate ⟨hcount, fun _ => ?_, ?_⟩ hlive rfl
      (run_silent (by unfold abs; rw [hpc]; rfl) rfl) (fun h => h)
    · simp
    · intro i p hlt _
      simp at hlt

/-- One segment more is written. -/
theorem Written.succ {packet : Frame} {written rest : List Ptr} {p : Ptr}
    {blocks : Blocks} (hnd : (written ++ p :: rest).Nodup)
    (hw : Written m packet (written ++ p :: rest) written.length)
    (hblocks : blocks = m.blocks.insert p (segmentAt packet
      (written.length * kPacketBufferSize) (rest.headD nullptr))) :
    Written { m with blocks := blocks } packet (written ++ [p] ++ rest)
      (written ++ [p]).length := by
  rw [List.append_assoc, List.singleton_append]
  intro i q hi hq
  rw [List.length_append, List.length_singleton] at hi
  show blocks.lookup q = _
  rw [hblocks]
  by_cases hlast : i = written.length
  · subst hlast
    rw [List.getElem?_append_right (Nat.le_refl _), Nat.sub_self,
      List.getElem?_cons_zero, Option.some.injEq] at hq
    subst hq
    rw [AList.lookup_insert, List.drop_append, List.drop_of_length_le
      (by omega), List.nil_append, Nat.add_sub_cancel_left]
    rfl
  · -- the segments written before are others
    have hne : q ≠ p := by
      rintro rfl
      rw [List.getElem?_append_left (by omega)] at hq
      have hmem := List.mem_of_getElem? hq
      exact (List.nodup_append'.1 hnd).2.2 hmem (List.mem_cons_self ..)
    rw [AList.lookup_insert_ne hne]
    exact hw i q (by omega) hq

/-- The fill loop. -/
private theorem fill_stepped (hi : Inv base outs size s) {malloc : Malloc}
    {desc : PacketDescriptor} {packet : Frame} {offset : Nat}
    {written rest : List Ptr}
    (hpc : s.pc = .fill desc packet offset written rest)
    (h : s.pollStep malloc = some (t, e)) :
    Stepped base outs size s t e := by
  obtain ⟨hestate, ⟨hcount, hoffset, hwritten⟩, hlive⟩ := hi.at hpc
  simp only [PutPc.buffers] at hestate hlive
  cases rest with
  | nil =>
      simp only [pollStep, hpc] at h
      cases h
      rw [List.append_nil] at *
      exact hi.stepped rfl rfl hestate ⟨hcount, hwritten⟩ hlive rfl
        (run_silent (by unfold abs; rw [hpc]; rfl) rfl) (fun h => h)
  | cons p rest =>
      have hmem : p ∈ written ++ p :: rest :=
        List.mem_append_right _ (List.mem_cons_self ..)
      have hoff := hoffset (List.cons_ne_nil _ _)
      obtain ⟨hnew, hsame⟩ := hestate.write hmem (segmentAt packet
        (written.length * kPacketBufferSize) (rest.headD nullptr))
      have hstore : s.mem.store p (segmentAt packet
          (written.length * kPacketBufferSize) (rest.headD nullptr))
          = { s.mem with blocks := s.mem.blocks.insert p (segmentAt packet
            (written.length * kPacketBufferSize) (rest.headD nullptr)) } :=
        if_pos (hestate.live p hmem)
      obtain ⟨hused, hheld⟩ := seen_congr { s.mem with
        blocks := s.mem.blocks.insert p (segmentAt packet
          (written.length * kPacketBufferSize) (rest.headD nullptr)) } hsame
      simp only [pollStep, hpc, hoff] at h
      rw [show PacketBuffer.mk (rest.headD nullptr) _ _ = segmentAt packet
        (written.length * kPacketBufferSize) (rest.headD nullptr) from rfl,
        hstore] at h
      cases h
      have hsplit : written ++ p :: rest = written ++ [p] ++ rest :=
        List.append_cons ..
      refine hi.stepped rfl rfl ?_ ⟨?_, ?_, ?_⟩ ?_ rfl (run_silent ?_ rfl)
        (fun h => h)
      · show Estate _ _ _ (written ++ [p] ++ rest)
        rw [← hsplit]
        exact hnew
      · rw [← hsplit]
        exact hcount
      · intro hrest
        -- a segment is still to come, so this one is full
        have hpos : 0 < rest.length := List.length_pos_iff.2 hrest
        rw [List.length_append, List.length_cons] at hcount
        rw [List.length_append, List.length_singleton]
        unfold RxQueue.segmentCount at hcount
        simp only [kPacketBufferSize] at *
        omega
      · exact hwritten.succ hestate.nodup rfl
      · show _ = outs.length + (cells _ (heads s.reach s.freeing)
          (written ++ [p] ++ rest)).length
        rw [← hsplit]
        refine hlive.trans ?_
        unfold cells
        rw [← hsame.flatMap]
      · unfold abs
        rw [hpc]
        congr 1

/-- The pop of a slot decides whether there was a credit. -/
private theorem pop_stepped (hi : Inv base outs size s) {malloc : Malloc}
    {desc : PacketDescriptor} {packet : Frame} {buffers : List Ptr}
    (hpc : s.pc = .pop desc packet buffers)
    (h : s.pollStep malloc = some (t, e)) :
    Stepped base outs size s t e := by
  obtain ⟨hestate, hput, hlive⟩ := hi.at hpc
  simp only [PutPc.buffers] at hestate hlive
  simp only [pollStep, hpc, Fifo.pop] at h
  cases hq : s.queue.free_.queue with
  | nil =>
      simp only [hq] at h
      cases h
      -- no slot is no credit: the offer is answered full here
      have hfull : s.abs.step (.offer ({ desc with buffer := nullptr },
          packet)) = some (s.abs, .full) := by
        have hzero : s.abs.credits = 0 := by
          unfold abs
          rw [hpc, hq]
          rfl
        simp only [CreditQueue.step, hzero]
      refine hi.stepped rfl rfl hestate rfl hlive rfl
        (run_one (.offer ({ desc with buffer := nullptr }, packet)) ?_ rfl)
        (fun h => h)
      rw [hfull]
      unfold abs
      rw [hpc]
      rfl
  | cons slot rest =>
      simp only [hq] at h
      cases h
      refine hi.stepped rfl rfl hestate hput hlive rfl (run_silent ?_ rfl)
        (fun h => h)
      unfold abs
      rw [hpc, hq]
      rfl

/-- The slot popped is one of the credits, so `used_` has room, and what
a reader will find behind the descriptor is the packet. -/
private theorem push_stepped (hi : Inv base outs size s) {malloc : Malloc}
    {desc slot : PacketDescriptor} {packet : Frame} {buffers : List Ptr}
    (hpc : s.pc = .push desc packet slot buffers)
    (h : s.pollStep malloc = some (t, e)) :
    Stepped base outs size s t e := by
  obtain ⟨hestate, ⟨hcount, hwritten⟩, hlive⟩ := hi.at hpc
  simp only [PutPc.buffers] at hestate hlive
  have hslots : s.abs.credits = s.queue.free_.queue.length + 1 := by
    unfold abs
    rw [hpc]
    rfl
  -- a slot in hand leaves room in used_, whatever is taken or returned
  -- meanwhile
  have hroom : s.queue.used_.isFullLocked = false := by
    have htotal := hi.total
    unfold CreditQueue.total at htotal
    rw [hslots] at htotal
    simp only [abs, List.length_map] at htotal
    exact Fifo.isFullLocked_eq_false_of_lt (by rw [hi.usedCap]; omega)
  simp only [pollStep, hpc, RxQueue.putPush, Fifo.push_of_room hroom] at h
  cases h
  have hchain := (hwritten.chain hestate.ne_null [] buffers rfl).1
  have hseen : observed s.mem { desc with
        buffer := buffers.headD nullptr
        totalLength := UInt32.ofNat packet.length }
      = ({ desc with
        buffer := nullptr
        totalLength := UInt32.ofNat packet.length }, packet) :=
    hwritten.observed hestate.ne_null hcount
  have hformed := hestate.form hchain
  -- the segments in hand become one more chain of the fifo
  have hperm : (buffers.headD nullptr :: heads s.reach s.freeing).Perm
      (heads ((s.queue.used_.queue ++ [{ desc with
        buffer := buffers.headD nullptr
        totalLength := UInt32.ofNat packet.length }]) ++ s.held.values)
        s.freeing) := by
    have hmiddle : ({ desc with
        buffer := buffers.headD nullptr
        totalLength := UInt32.ofNat packet.length } :: s.reach).Perm
        ((s.queue.used_.queue ++ [{ desc with
          buffer := buffers.headD nullptr
          totalLength := UInt32.ofNat packet.length }])
          ++ s.held.values) := by
      rw [List.append_assoc]
      exact List.perm_middle.symm
    exact heads_perm hmiddle s.freeing
  refine hi.stepped rfl rfl (hformed.perm hperm) trivial ?_ rfl
    (run_one (.offer ({ desc with
      buffer := nullptr
      totalLength := UInt32.ofNat packet.length }, packet)) ?_ rfl)
    (fun h => h)
  · refine hlive.trans (congrArg (outs.length + ·) ?_)
    rw [← cells_form hchain]
    exact cells_length_perm hperm s.mem.blocks []
  · simp only [CreditQueue.step, hslots]
    refine congrArg some (Prod.ext ?_ rfl)
    unfold abs
    simp only [List.map_append, List.map_cons, List.map_nil, hseen]
    rfl

/-- The scope guards. No slot is ever given back there. -/
private theorem guards_stepped (hi : Inv base outs size s) {malloc : Malloc}
    {slot : Option PacketDescriptor} {buffers : List Ptr}
    (hpc : s.pc = .guards slot buffers)
    (h : s.pollStep malloc = some (t, e)) :
    Stepped base outs size s t e := by
  obtain ⟨hestate, rfl, hlive⟩ := hi.at hpc
  simp only [PutPc.buffers] at hestate hlive
  -- the guard gives back one segment a step, the abstract queue standing
  -- still
  cases buffers with
  | nil =>
      simp only [pollStep, hpc] at h
      cases h
      exact hi.stepped rfl rfl hestate trivial hlive rfl
        (run_silent (by unfold abs; rw [hpc]; rfl) rfl) (fun h => h)
  | cons p rest =>
      obtain ⟨hnew, hsame⟩ := hestate.drop
      have hlen : (cells s.mem.blocks (heads s.reach s.freeing)
          (p :: rest)).length
          = (cells (s.mem.blocks.erase p) (heads s.reach s.freeing)
            rest).length + 1 := by
        unfold cells
        rw [hsame.flatMap]
        simp only [List.length_append, List.length_cons]
        omega
      rw [hlen, ← Nat.add_assoc] at hlive
      obtain ⟨m, pool, hdeal, hblocks, hfaults, hcount⟩ :=
        deallocate_cell (hestate.ne_null p (List.mem_cons_self ..))
          (hestate.live p (List.mem_cons_self ..)) hlive
      rw [← hblocks] at hnew hsame hcount
      obtain ⟨hused, hheld⟩ := seen_congr m hsame
      simp only [pollStep, hpc, hdeal] at h
      cases h
      refine hi.stepped rfl rfl hnew rfl hcount hfaults (run_silent ?_ rfl)
        (fun h => h)
      unfold abs
      rw [hpc]
      congr 1

/-- Each step inside `put`, by the place it stands at. -/
private theorem poll_stepped (ho : Outside base outs)
    (hi : Inv base outs size s)
    {malloc : Malloc} (h : s.step (.poll malloc) = some (t, e)) :
    Stepped base outs size s t e := by
  cases hpc : s.pc with
  | idle => simp [step, pollStep, hpc] at h
  | alloc desc packet buffers => exact alloc_stepped ho hi hpc h
  | fill desc packet offset written rest => exact fill_stepped hi hpc h
  | pop desc packet buffers => exact pop_stepped hi hpc h
  | push desc packet slot buffers => exact push_stepped hi hpc h
  | guards slot buffers => exact guards_stepped hi hpc h

-- ======================================= steps of the application threads

/-- `take` hands out what waits: the specification's step. -/
private theorem take_stepped (hi : Inv base outs size s)
    (h : s.step .take = some (t, e)) : Stepped base outs size s t e := by
  cases h
  -- a take reorders what is reachable and drops none of it
  have hreach : s.reach.Perm (s.queue.used_.queue.drop kMaxSegments
      ++ (s.held.issue (s.queue.used_.queue.take kMaxSegments)).values) := by
    unfold reach
    rw [Ledger.issue_values]
    calc s.queue.used_.queue ++ s.held.values
        = s.queue.used_.queue.take kMaxSegments
            ++ (s.queue.used_.queue.drop kMaxSegments
              ++ s.held.values) := by
          rw [← List.append_assoc, List.take_append_drop]
      List.Perm _ ((s.queue.used_.queue.drop kMaxSegments
            ++ s.held.values)
          ++ s.queue.used_.queue.take kMaxSegments) :=
          List.perm_append_comm
      _ = _ := List.append_assoc ..
  have hperm := heads_perm hreach s.freeing
  refine hi.stepped rfl rfl (hi.estate.perm hperm) hi.put ?_ rfl
    (run_one (.take kMaxSegments) ?_ rfl) (fun h => h)
  · exact hi.live.trans (congrArg (outs.length + ·)
      (cells_length_perm hperm s.mem.blocks s.pc.buffers))
  · refine congrArg some (Prod.ext ?_ ?_)
    · unfold abs
      simp only [List.map_drop, List.map_take, Ledger.map_issue]
    · show CreditQueue.Event.taken s.abs.held.next _
        = CreditQueue.Event.taken s.held.next _
      unfold abs
      rw [← List.map_take]
      rfl

/-- A look sees what was accepted: the chain is the holder's alone. -/
private theorem look_stepped (hi : Inv base outs size s) {ticket : Nat}
    (h : s.step (.look ticket) = some (t, e)) :
    Stepped base outs size s t e := by
  obtain ⟨d, hd, heq⟩ := Option.map_eq_some_iff.1 h
  cases heq
  refine hi.stepped rfl rfl hi.estate hi.put hi.live rfl
    (run_one (.look ticket) ?_ rfl) (fun h => h)
  show (s.abs.held.get ticket).map _ = _
  unfold abs
  rw [Ledger.map_get, hd]
  rfl

/-- A `free` takes its descriptors out of the ledger when it is called. -/
private theorem free_stepped (hi : Inv base outs size s) {tickets : List Nat}
    (h : s.step (.free tickets) = some (t, e)) :
    Stepped base outs size s t e := by
  cases hr : s.held.redeem tickets with
  | none => simp [step, hr] at h
  | some p =>
      obtain ⟨descs, held⟩ := p
      simp only [step, hr] at h
      cases h
      have hreach : s.reach.Perm
          (descs ++ (s.queue.used_.queue ++ held.values)) :=
        Ledger.redeem_perm_append hr _
      -- the descriptors given up are reachable no more and are on their
      -- way to free_
      have hperm : (nullptr :: heads s.reach s.freeing).Perm
          (heads (s.queue.used_.queue ++ held.values)
            (s.freeing ++ [.release descs nullptr descs])) := by
        refine ((heads_perm hreach s.freeing).cons _).trans ?_
        refine (List.Perm.of_eq ?_).trans (heads_middle _ s.freeing [] _).symm
        rw [List.append_nil]
        unfold heads
        rw [List.map_append, List.append_assoc]
        rfl
      have hnull : Estate base.blocks s.mem.blocks
          (nullptr :: heads s.reach s.freeing) s.pc.buffers :=
        Estate.null_iff.2 hi.estate
      refine hi.stepped rfl rfl (hnull.perm hperm) hi.put ?_ rfl
        (run_one (.giveUp tickets) ?_ rfl) (fun h => h)
      · refine hi.live.trans (congrArg (outs.length + ·) ?_)
        exact (congrArg List.length (cells_null ..).symm).trans
          (cells_length_perm hperm s.mem.blocks s.pc.buffers)
      · show (s.abs.held.redeem tickets).map _ = _
        have hmap : s.abs.held.redeem tickets
            = some (descs.map (observed s.mem),
              held.map (observed s.mem)) :=
          Ledger.map_redeem hr
        rw [hmap]
        refine congrArg some (Prod.ext ?_ rfl)
        unfold abs
        simp only [List.length_map, returning_middle, List.append_nil,
          FreeCall.descs, Nat.add_comm]

/-- A call of `free` that only moved on to the next chain. -/
theorem next_chain (hi : Inv base outs size s)
    (hfreeing : s.freeing = pre ++ c :: post) {c' : FreeCall}
    (hdescs : c'.descs = c.descs)
    (hheads : c.heads = nullptr :: c'.heads) :
    Stepped base outs size s { s with freeing := pre ++ c' :: post }
      .silent := by
  have hperm : (heads s.reach s.freeing).Perm
      (nullptr :: heads s.reach (pre ++ c' :: post)) := by
    rw [hfreeing]
    refine (heads_middle _ pre post c).trans ?_
    rw [hheads]
    exact (heads_middle _ pre post c').symm.cons _
  have hestate : Estate base.blocks s.mem.blocks
      (heads s.reach (pre ++ c' :: post)) s.pc.buffers :=
    Estate.null_iff.1 (hi.estate.perm hperm)
  refine hi.stepped rfl rfl hestate hi.put ?_ rfl (run_silent ?_ rfl)
    (fun h => h)
  · refine hi.live.trans (congrArg (outs.length + ·) ?_)
    exact (cells_length_perm hperm s.mem.blocks s.pc.buffers).trans
      (congrArg List.length (cells_null ..))
  · unfold abs
    simp only [hfreeing, returning_middle, hdescs]

/-- A segment of a chain that was given up is released. Nobody else's
chain moves, nor do the segments of the `put` under way. -/
theorem release_segment (hi : Inv base outs size s)
    {descs rest : List PacketDescriptor} {segment : Ptr}
    (hfreeing : s.freeing = pre ++ .release descs segment rest :: post)
    (hne : segment ≠ nullptr) {pool : Pool}
    (hdeal : s.queue.memPool.deallocate s.mem segment = (m, pool)) :
    Stepped base outs size s
      { s with
        mem := m
        queue := { s.queue with memPool := pool }
        freeing := pre
          ++ .release descs (s.mem.load segment).next rest :: post }
      .silent := by
  have hperm : (heads s.reach s.freeing).Perm (segment
      :: (rest.map PacketDescriptor.buffer
        ++ heads s.reach (pre ++ post))) := by
    rw [hfreeing]
    exact heads_middle _ pre post _
  have hestate := hi.estate.perm hperm
  obtain ⟨b, hb, hnew, hsame, hcells⟩ := hestate.advance hne
  have hload : (s.mem.load segment).next = b.next := by
    unfold Memory.load
    rw [hb]
    rfl
  -- what follows the erased block is a chain of its own, and the call goes
  -- on from there
  have hback : (b.next :: (rest.map PacketDescriptor.buffer
      ++ heads s.reach (pre ++ post))).Perm (heads s.reach
        (pre ++ .release descs (s.mem.load segment).next rest :: post)) := by
    rw [hload]
    exact (heads_middle s.reach pre post
      (.release descs b.next rest)).symm
  have hlive := hi.live
  unfold owned at hlive
  rw [cells_length_perm hperm, hcells, List.length_cons, ← Nat.add_assoc]
    at hlive
  obtain ⟨m', pool', hdeal', hblocks, hfaults, hcount⟩ :=
    deallocate_cell hne (AList.lookup_isSome.1 (by rw [hb]; rfl)) hlive
  rw [hdeal, Prod.mk.injEq] at hdeal'
  obtain ⟨rfl, rfl⟩ := hdeal'
  rw [← hblocks] at hnew hsame hcount
  have hkeep : SameCells s.mem.blocks m.blocks
      (heads s.reach (pre ++ post)) :=
    hsame.mono (List.subset_append_right ..)
  have hnd := hestate.cells_nodup
  rw [hcells, List.nodup_cons] at hnd
  have hloose : ∀ p ∈ s.pc.buffers,
      m.blocks.lookup p = s.mem.blocks.lookup p := by
    intro p hp
    rw [hblocks]
    refine AList.lookup_erase_ne ?_
    rintro rfl
    exact hnd.1 (List.mem_append_right _ hp)
  refine hi.stepped rfl rfl (hnew.perm hback) (hi.put.congr hloose) ?_
    hfaults (run_silent ?_ rfl) (fun h => h)
  · refine hcount.trans (congrArg (outs.length + ·) ?_)
    exact cells_length_perm hback m.blocks s.pc.buffers
  · have hseen : ∀ d ∈ s.reach, observed m d = observed s.mem d :=
      fun d hd => observed_congr hkeep (mem_heads hd)
    unfold abs
    rw [hfreeing]
    simp only [returning_middle, FreeCall.descs]
    congr 1
    · exact List.map_congr_left fun d hd =>
        hseen d (List.mem_append_left _ hd)
    · exact Ledger.map_congr fun d hd =>
        hseen d (List.mem_append_right _ hd)

/-- What comes back is part of the credits, so `free_` has room. -/
private theorem pushAll_stepped (hi : Inv base outs size s)
    {descs : List PacketDescriptor}
    (hfreeing : s.freeing = pre ++ .pushAll descs :: post) :
    s.queue.free_.pushAll descs = ({ s.queue.free_ with
        queue := s.queue.free_.queue ++ descs }, .ok ())
    ∧ Stepped base outs size s
      { s with
        queue := { s.queue with free_ :=
          { s.queue.free_ with queue := s.queue.free_.queue ++ descs } }
        freeing := pre ++ post }
      (.freed descs.length (.ok ())) := by
  have hreturning : s.abs.returning
      = descs.length + returning (pre ++ post) := by
    unfold abs
    rw [hfreeing]
    exact returning_middle pre post _
  have htotal := hi.total
  unfold CreditQueue.total at htotal
  rw [hreturning] at htotal
  -- the credits on their way were counted, so free_ has room for all of
  -- them
  have hcredits : s.queue.free_.queue.length ≤ s.abs.credits :=
    Nat.le_add_right _ _
  have hperm : (heads s.reach s.freeing).Perm
      (heads s.reach (pre ++ post)) := by
    rw [hfreeing]
    exact heads_middle _ pre post _
  refine ⟨Fifo.pushAll_of_room _ _ (by rw [hi.freeCap]; omega), ?_⟩
  refine hi.stepped rfl rfl (hi.estate.perm hperm) hi.put ?_ rfl
    (run_one (.credit descs.length) ?_ rfl) (fun h => h)
  · exact hi.live.trans (congrArg (outs.length + ·)
      (cells_length_perm hperm s.mem.blocks s.pc.buffers))
  · show (if descs.length ≤ s.abs.returning then _ else none) = _
    rw [if_pos (by rw [hreturning]; omega)]
    refine congrArg some (Prod.ext ?_ rfl)
    have hsub : s.abs.returning - descs.length
        = returning (pre ++ post) := by
      rw [hreturning]
      omega
    rw [hsub]
    unfold abs
    simp only [List.length_append, CreditQueue.mk.injEq, and_true]
    omega

/-- Each step inside `free`: a block released, or the credits given back. -/
private theorem app_stepped (hi : Inv base outs size s) {i : Nat}
    (h : s.step (.app i) = some (t, e)) : Stepped base outs size s t e := by
  cases hc : s.freeing[i]? with
  | none => simp [step, appStep, hc] at h
  | some c =>
      obtain ⟨pre, post, hfreeing, hset, herase⟩ := call_at hc
      cases c with
      | pushAll descs =>
          obtain ⟨hpush, hstepped⟩ := pushAll_stepped hi hfreeing
          simp only [step, appStep, hc, hpush, herase] at h
          cases h
          exact hstepped
      | release descs segment rest =>
          simp only [step, appStep, hc, hset] at h
          by_cases hnull : segment = nullptr
          · subst hnull
            rw [if_pos rfl] at h
            cases rest with
            | nil =>
                cases h
                exact next_chain hi hfreeing rfl rfl
            | cons d rest =>
                cases h
                exact next_chain hi hfreeing rfl rfl
          · rw [if_neg hnull] at h
            cases hdeal : s.queue.memPool.deallocate s.mem segment with
            | mk m pool =>
                simp only [hdeal] at h
                cases h
                exact release_segment hi hfreeing hnull hdeal

/-- Every step is matched by steps of the specification, or by none. -/
theorem Inv.step (ho : Outside base outs) (hi : Inv base outs size s)
    (h : s.step a = some (t, e)) : Stepped base outs size s t e := by
  cases a with
  | put desc packet => exact put_stepped hi h
  | poll malloc => exact poll_stepped ho hi h
  | take => exact take_stepped hi h
  | look ticket => exact look_stepped hi h
  | free tickets => exact free_stepped hi h
  | app i => exact app_stepped hi h

-- ========================================================= whole calls

/-- The scope guards run to their end. -/
theorem guards_run (s : RxThreads) (malloc : Malloc) :
    ∀ {buffers : List Ptr}, s.pc = .guards none buffers →
    ∃ bs fs, rxThreads.run s bs
        = some ({ s with
            mem := (s.queue.memPool.deallocateAll s.mem buffers).1
            queue := { s.queue with memPool :=
              (s.queue.memPool.deallocateAll s.mem buffers).2 }
            pc := .idle }, fs)
      ∧ ∀ f ∈ fs, f = .silent := by
  intro buffers
  induction buffers generalizing s with
  | nil =>
      intro hpc
      refine ⟨[.poll malloc], [.silent], ?_, by simp⟩
      simp [StepSystem.run, rxThreads, step, pollStep, hpc,
        Pool.deallocateAll]
  | cons p rest ih =>
      intro hpc
      obtain ⟨bs, fs, hrun, hfs⟩ := ih { s with
        mem := (s.queue.memPool.deallocate s.mem p).1
        queue := { s.queue with memPool :=
          (s.queue.memPool.deallocate s.mem p).2 }
        pc := .guards none rest } rfl
      have hstep : rxThreads.step s (.poll malloc) = some ({ s with
          mem := (s.queue.memPool.deallocate s.mem p).1
          queue := { s.queue with memPool :=
            (s.queue.memPool.deallocate s.mem p).2 }
          pc := .guards none rest }, .silent) := by
        simp [rxThreads, step, pollStep, hpc]
      exact ⟨.poll malloc :: bs, .silent :: fs,
        rxThreads.run_of_step hstep hrun, List.forall_mem_cons.2 ⟨rfl, hfs⟩⟩

/-- The allocation loop runs to its end, or through the guards. -/
private theorem alloc_run (s : RxThreads) (malloc : Malloc)
    (desc : PacketDescriptor) (packet : Frame) :
    ∀ {n : Nat} {buffers : List Ptr}, s.pc = .alloc desc packet buffers →
    buffers.length + n = RxQueue.segmentCount packet.length →
    match RxQueue.allocSegments malloc n (s.mem, s.queue.memPool) buffers
      with
    | ((m, pool), .ok ps) =>
        ∃ bs fs, rxThreads.run s bs = some ({ s with
            mem := m
            queue := { s.queue with memPool := pool }
            pc := .fill desc packet 0 [] ps }, fs)
          ∧ ∀ f ∈ fs, f = .silent
    | ((m, pool), .error e) =>
        ∃ bs fs, rxThreads.run s bs = some ({ s with
            mem := m
            queue := { s.queue with memPool := pool }
            pc := .idle }, fs)
          ∧ fs.filter (· ≠ .silent) = [.put desc packet (.error e)] := by
  intro n
  -- on the segments still to reserve, as in the atomic loop
  induction n generalizing s with
  | zero =>
      intro buffers hpc hcount
      refine ⟨[.poll malloc], [.silent], ?_, by simp⟩
      have hlt : ¬ buffers.length
          < RxQueue.segmentCount packet.length := by omega
      simp [StepSystem.run, rxThreads, step, pollStep, hpc, hlt]
  | succ n ih =>
      intro buffers hpc hcount
      have hlt : buffers.length
          < RxQueue.segmentCount packet.length := by omega
      unfold RxQueue.allocSegments
      cases hans : Pool.allocate malloc s.mem s.queue.memPool with
      | mk p r =>
          obtain ⟨m, pool⟩ := p
          cases r with
          | error e =>
              obtain ⟨bs, fs, hrun, hfs⟩ := guards_run { s with
                mem := m
                queue := { s.queue with memPool := pool }
                pc := .guards none buffers } malloc rfl
              have hstep : rxThreads.step s (.poll malloc)
                  = some ({ s with
                    mem := m
                    queue := { s.queue with memPool := pool }
                    pc := .guards none buffers },
                    .put desc packet (.error e)) := by
                simp [rxThreads, step, pollStep, hpc, hlt, hans]
              refine ⟨.poll malloc :: bs, .put desc packet (.error e) :: fs,
                rxThreads.run_of_step hstep hrun, ?_⟩
              rw [List.filter_cons_of_pos (by simp),
                List.filter_eq_nil_iff.2 fun f hf => by simp [hfs f hf]]
          | ok p =>
              have hstep : rxThreads.step s (.poll malloc)
                  = some ({ s with
                    mem := m
                    queue := { s.queue with memPool := pool }
                    pc := .alloc desc packet (buffers ++ [p]) },
                    .silent) := by
                simp [rxThreads, step, pollStep, hpc, hlt, hans]
              have hnext := ih { s with
                mem := m
                queue := { s.queue with memPool := pool }
                pc := .alloc desc packet (buffers ++ [p]) } rfl (by
                  rw [List.length_append, List.length_singleton]
                  omega)
              simp only at hnext ⊢
              cases hal : RxQueue.allocSegments malloc n (m, pool)
                  (buffers ++ [p]) with
              | mk q r =>
                  rw [hal] at hnext
                  cases r with
                  | ok ps =>
                      obtain ⟨bs, fs, hrun, hfs⟩ := hnext
                      exact ⟨.poll malloc :: bs, .silent :: fs,
                        rxThreads.run_of_step hstep hrun,
                        List.forall_mem_cons.2 ⟨rfl, hfs⟩⟩
                  | error e =>
                      obtain ⟨bs, fs, hrun, hfs⟩ := hnext
                      exact ⟨.poll malloc :: bs, .silent :: fs,
                        rxThreads.run_of_step hstep hrun, hfs⟩

/-- The fill loop runs to its end. -/
private theorem fill_run (s : RxThreads) (malloc : Malloc)
    (desc : PacketDescriptor) (packet : Frame) :
    ∀ {rest : List Ptr} {offset : Nat} {written : List Ptr},
    s.pc = .fill desc packet offset written rest →
    ∃ bs fs, rxThreads.run s bs = some ({ s with
        mem := RxQueue.fillSegments packet s.mem offset rest
        pc := .pop desc packet (written ++ rest) }, fs)
      ∧ ∀ f ∈ fs, f = .silent := by
  intro rest
  induction rest generalizing s with
  | nil =>
      intro offset written hpc
      refine ⟨[.poll malloc], [.silent], ?_, by simp⟩
      simp [StepSystem.run, rxThreads, step, pollStep, hpc,
        RxQueue.fillSegments]
  | cons p rest ih =>
      intro offset written hpc
      obtain ⟨bs, fs, hrun, hfs⟩ := ih { s with
        mem := s.mem.store p
          { next := rest.headD nullptr
            length := UInt32.ofNat
              (min kPacketBufferSize (packet.length - offset))
            payload := (packet.drop offset).take
              (min kPacketBufferSize (packet.length - offset)) }
        pc := .fill desc packet
          (offset + min kPacketBufferSize (packet.length - offset))
          (written ++ [p]) rest } rfl
      rw [← List.append_cons] at hrun
      refine ⟨.poll malloc :: bs, .silent :: fs,
        rxThreads.run_of_step ?_ hrun, List.forall_mem_cons.2 ⟨rfl, hfs⟩⟩
      simp [rxThreads, step, pollStep, hpc]

/-- What a run shows when it was silent before its last step. -/
theorem shown_append {fs gs : List Event} (h : ∀ f ∈ fs, f = .silent) :
    (fs ++ gs).filter (· ≠ .silent) = gs.filter (· ≠ .silent) := by
  rw [List.filter_append,
    List.filter_eq_nil_iff.2 fun f hf => by simp [h f hf],
    List.nil_append]

/-- `put` from the descriptor pop on. -/
theorem pop_run (s : RxThreads) (malloc : Malloc)
    {desc : PacketDescriptor} {packet : Frame} {buffers : List Ptr}
    (hpc : s.pc = .pop desc packet buffers)
    {m : Memory} {q : RxQueue} {r : Res}
    (hput : (match RxQueue.putPop buffers (s.mem, s.queue) with
      | (u, .error e) => (u, .error e)
      | ((m, q), .ok slot) =>
          match RxQueue.putPush
              { desc with
                buffer := buffers.headD nullptr
                totalLength := UInt32.ofNat packet.length }
              packet.length q with
          | (q, .error e) =>
              (RxQueue.putUndo slot buffers (m, q), .error e)
          | (q, .ok ()) => ((m, q), .ok ())) = ((m, q), r)) :
    ∃ bs fs, rxThreads.run s bs
        = some ({ s with mem := m, queue := q, pc := .idle }, fs)
      ∧ fs.filter (· ≠ .silent) = [.put desc packet r] := by
  unfold RxQueue.putPop at hput
  cases hpop : s.queue.free_.pop with
  | mk slot free =>
      cases slot with
      | none =>
          simp only [hpop] at hput
          cases hput
          have hstep : rxThreads.step s (.poll malloc) = some ({ s with
              queue :=
                { s.queue with stats := s.queue.stats.fetchOverflows }
              pc := .guards none buffers },
              .put desc packet (.error .queueFreeListEmpty)) := by
            simp [rxThreads, step, pollStep, hpc, hpop]
          obtain ⟨bs, fs, hrun, hfs⟩ := guards_run { s with
            queue := { s.queue with stats := s.queue.stats.fetchOverflows }
            pc := .guards none buffers } malloc rfl
          refine ⟨_, _, rxThreads.run_of_step hstep hrun, ?_⟩
          rw [List.filter_cons_of_pos (by simp),
            List.filter_eq_nil_iff.2 fun f hf => by simp [hfs f hf]]
      | some slot =>
          simp only [hpop] at hput
          have hstep : rxThreads.step s (.poll malloc) = some ({ s with
              queue := { s.queue with free_ := free }
              pc := .push desc packet slot buffers }, .silent) := by
            simp [rxThreads, step, pollStep, hpc, hpop]
          cases hpush : RxQueue.putPush
              { desc with
                buffer := buffers.headD nullptr
                totalLength := UInt32.ofNat packet.length }
              packet.length { s.queue with free_ := free } with
          | mk q' r' =>
              rw [hpush] at hput
              cases r' with
              | ok _ =>
                  cases hput
                  have hlast : rxThreads.step { s with
                      queue := { s.queue with free_ := free }
                      pc := .push desc packet slot buffers } (.poll malloc)
                      = some ({ s with queue := q, pc := .idle },
                        .put desc packet (.ok ())) := by
                    simp only [rxThreads, step, pollStep, hpush]
                  exact ⟨[_, _], [_, _], rxThreads.run_of_step hstep
                    (rxThreads.run_of_step hlast (rxThreads.run_nil _)),
                    by simp⟩
              | error e =>
                  cases hput
                  have hlast : rxThreads.step { s with
                      queue := { s.queue with free_ := free }
                      pc := .push desc packet slot buffers } (.poll malloc)
                      = some ({ s with
                          queue := q', pc := .guards (some slot) buffers },
                        .put desc packet (.error e)) := by
                    simp only [rxThreads, step, pollStep, hpush]
                  have hslot : rxThreads.step { s with
                      queue := q', pc := .guards (some slot) buffers }
                      (.poll malloc) = some ({ s with
                        queue := { q' with
                          free_ := (q'.free_.push slot).1 }
                        pc := .guards none buffers }, .silent) := by
                    simp [rxThreads, step, pollStep]
                  obtain ⟨bs, fs, hrun, hfs⟩ := guards_run { s with
                    queue := { q' with free_ := (q'.free_.push slot).1 }
                    pc := .guards none buffers } malloc rfl
                  refine ⟨_, _, rxThreads.run_of_step hstep
                    (rxThreads.run_of_step hlast
                      (rxThreads.run_of_step hslot hrun)), ?_⟩
                  rw [List.filter_cons_of_neg (by simp),
                    List.filter_cons_of_pos (by simp),
                    List.filter_cons_of_neg (by simp),
                    List.filter_eq_nil_iff.2 fun f hf => by simp [hfs f hf]]

/-- The steps of one `put`, with no other thread between, are `put`. -/
theorem put_run (s : RxThreads) (malloc : Malloc)
    (desc : PacketDescriptor) (packet : Frame) (hpc : s.pc = .idle)
    {m : Memory} {q : RxQueue} {r : Res}
    (hput : RxQueue.put malloc desc packet (s.mem, s.queue)
      = ((m, q), r)) :
    ∃ bs fs, rxThreads.run s (.put desc packet :: bs)
        = some ({ s with mem := m, queue := q }, fs)
      ∧ fs.filter (· ≠ .silent) = [.put desc packet r] := by
  have hcall : rxThreads.step s (.put desc packet)
      = some (s.putStep desc packet) := by
    simp [rxThreads, step, hpc]
  have hidle : ∀ (m : Memory) (q : RxQueue),
      ({ s with mem := m, queue := q, pc := .idle } : RxThreads)
        = { s with mem := m, queue := q } := by
    intro m q
    rw [← hpc]
  unfold RxQueue.put RxQueue.putFill at hput
  simp only at hput
  unfold putStep at hcall
  simp only at hcall
  by_cases hzero : packet.length = 0
  · rw [if_pos hzero] at hput hcall
    cases hput
    exact ⟨[], [_], rxThreads.run_of_step hcall (rxThreads.run_nil _),
      by simp⟩
  rw [if_neg hzero] at hput hcall
  by_cases hlarge : 2 ^ 32 - 1 < packet.length
  · rw [if_pos hlarge] at hput hcall
    cases hput
    exact ⟨[], [_], rxThreads.run_of_step hcall (rxThreads.run_nil _),
      by simp⟩
  rw [if_neg hlarge] at hput hcall
  by_cases hmany : kMaxSegments < RxQueue.segmentCount packet.length
  · rw [if_pos hmany] at hput hcall
    cases hput
    exact ⟨[], [_], rxThreads.run_of_step hcall (rxThreads.run_nil _),
      by simp⟩
  rw [if_neg hmany] at hput hcall
  have halloc := alloc_run { s with pc := .alloc desc packet [] } malloc
    desc packet (n := RxQueue.segmentCount packet.length) rfl (by simp)
  cases hal : RxQueue.allocSegments malloc
      (RxQueue.segmentCount packet.length) (s.mem, s.queue.memPool) [] with
  | mk p r' =>
      obtain ⟨m', pool⟩ := p
      simp only [hal] at halloc hput
      cases r' with
      | error e =>
          cases hput
          obtain ⟨bs, fs, hrun, hfs⟩ := halloc
          rw [hidle] at hrun
          exact ⟨bs, _, rxThreads.run_of_step hcall hrun, by
            rw [List.filter_cons_of_neg (by simp), hfs]⟩
      | ok ps =>
          obtain ⟨bs, fs, hrun, hfs⟩ := halloc
          obtain ⟨bs', fs', hrun', hfs'⟩ := fill_run { s with
            mem := m'
            queue := { s.queue with memPool := pool }
            pc := .fill desc packet 0 [] ps } malloc desc packet rfl
          obtain ⟨bs'', fs'', hrun'', hfs''⟩ := pop_run { s with
            mem := RxQueue.fillSegments packet m' 0 ps
            queue := { s.queue with memPool := pool }
            pc := .pop desc packet ([] ++ ps) } malloc rfl hput
          rw [hidle] at hrun''
          refine ⟨_, _, rxThreads.run_of_step hcall
            (rxThreads.run_append hrun
              (rxThreads.run_append hrun' hrun'')), ?_⟩
          rw [List.filter_cons_of_neg (by simp), shown_append hfs,
            shown_append hfs', hfs'']

/-- `releaseChain` runs to the end of a chain. -/
theorem chain_run (s : RxThreads) {descs rest : List PacketDescriptor} :
    ∀ {p : Ptr} {ps : List Ptr},
    s.freeing = pre ++ .release descs p rest :: post →
    Chain s.mem.blocks p ps →
    ∃ bs fs, rxThreads.run s bs = some ({ s with
        mem := (s.queue.memPool.deallocateAll s.mem ps).1
        queue := { s.queue with memPool :=
          (s.queue.memPool.deallocateAll s.mem ps).2 }
        freeing := pre ++ .release descs nullptr rest :: post }, fs)
      ∧ ∀ f ∈ fs, f = .silent := by
  intro p ps
  induction ps generalizing s p with
  | nil =>
      intro hfreeing hc
      cases hc
      refine ⟨[], [], ?_, by simp⟩
      rw [rxThreads.run_nil,
        show pre ++ FreeCall.release descs nullptr rest :: post = s.freeing
          from hfreeing.symm]
      rfl
  | cons k ps ih =>
      intro hfreeing hc
      have hnd := hc.nodup
      cases hc with
      | @cons _ c _ hne hl hrest =>
          have hlive : k ∈ s.mem.blocks :=
            AList.lookup_isSome.1 (by simp [hl])
          have hload : s.mem.load k = c := by simp [Memory.load, hl]
          have hrest' : Chain (s.queue.memPool.deallocate s.mem k).1.blocks
              c.next ps := by
            apply hrest.congr
            intro q hq
            rw [Pool.deallocate_blocks hne hlive]
            apply AList.lookup_erase_ne
            intro heq
            exact (List.nodup_cons.1 hnd).1 (heq ▸ hq)
          have hstep : rxThreads.step s (.app pre.length) = some ({ s with
              mem := (s.queue.memPool.deallocate s.mem k).1
              queue := { s.queue with memPool :=
                (s.queue.memPool.deallocate s.mem k).2 }
              freeing := pre ++ .release descs c.next rest :: post },
              .silent) := by
            simp [rxThreads, step, appStep, hfreeing, show k ≠ nullptr
              from hne, hload]
          obtain ⟨bs, fs, hrun, hfs⟩ := ih { s with
            mem := (s.queue.memPool.deallocate s.mem k).1
            queue := { s.queue with memPool :=
              (s.queue.memPool.deallocate s.mem k).2 }
            freeing := pre ++ .release descs c.next rest :: post } rfl hrest'
          exact ⟨_, _, rxThreads.run_of_step hstep hrun,
            List.forall_mem_cons.2 ⟨rfl, hfs⟩⟩

/-- `free` up to its `pushAll`. -/
theorem chains_run (s : RxThreads) {descs : List PacketDescriptor} :
    ∀ {rest : List PacketDescriptor},
    s.freeing = pre ++ .release descs nullptr rest :: post →
    Owners s.mem rest →
    ∃ bs fs, rxThreads.run s bs = some ({ s with
        mem := (s.queue.memPool.deallocateAll s.mem
          (s.mem.segmentsOf rest)).1
        queue := { s.queue with memPool :=
          (s.queue.memPool.deallocateAll s.mem
            (s.mem.segmentsOf rest)).2 }
        freeing := pre ++ .pushAll descs :: post }, fs)
      ∧ ∀ f ∈ fs, f = .silent := by
  intro rest
  induction rest generalizing s with
  | nil =>
      intro hfreeing _
      refine ⟨[.app pre.length], [.silent], ?_, by simp⟩
      simp [StepSystem.run, rxThreads, step, appStep, hfreeing,
        Memory.segmentsOf, Pool.deallocateAll]
  | cons d rest ih =>
      intro hfreeing ho
      have hstep : rxThreads.step s (.app pre.length) = some ({ s with
          freeing := pre ++ .release descs d.buffer rest :: post },
          .silent) := by
        simp [rxThreads, step, appStep, hfreeing]
      have hd : Chain s.mem.blocks d.buffer (s.mem.segments d.buffer) :=
        ho.chain _ (List.mem_map_of_mem (List.mem_cons_self ..))
      obtain ⟨bs, fs, hrun, hfs⟩ := chain_run { s with
        freeing := pre ++ .release descs d.buffer rest :: post } rfl hd
      have hsplit : s.mem.segmentsOf (d :: rest)
          = s.mem.segmentsOf [d] ++ s.mem.segmentsOf rest :=
        Memory.segmentsOf_append [d] rest
      have hone : s.mem.segmentsOf [d] = s.mem.segments d.buffer :=
        List.append_nil _
      obtain ⟨hrest, hsame⟩ : Owners (s.queue.memPool.deallocateAll s.mem
            (s.mem.segmentsOf [d])).1 rest
          ∧ SameChains s.mem (s.queue.memPool.deallocateAll s.mem
            (s.mem.segmentsOf [d])).1 rest := Owners.release ho
      obtain ⟨bs', fs', hrun', hfs'⟩ := ih { s with
        mem := (s.queue.memPool.deallocateAll s.mem
          (s.mem.segments d.buffer)).1
        queue := { s.queue with memPool :=
          (s.queue.memPool.deallocateAll s.mem
            (s.mem.segments d.buffer)).2 }
        freeing := pre ++ .release descs nullptr rest :: post } rfl
        (hone ▸ hrest)
      rw [hone] at hsame
      simp only [hsame.segmentsOf] at hrun'
      rw [hsplit, hone, Pool.deallocateAll_append]
      exact ⟨_, _, rxThreads.run_of_step hstep
        (rxThreads.run_append hrun hrun'), List.forall_mem_cons.2
        ⟨rfl, fun f hf => (List.mem_append.1 hf).elim (hfs f) (hfs' f)⟩⟩

/-- The steps of one `free`, with no other thread between, are `free`. -/
theorem free_run (s : RxThreads) {descs : List PacketDescriptor}
    (hfreeing : s.freeing = pre ++ .release descs nullptr descs :: post)
    (ho : Owners s.mem descs) {m : Memory} {q : RxQueue} {r : Res}
    (hfree : RxQueue.free descs (s.mem, s.queue) = ((m, q), r)) :
    ∃ bs fs, rxThreads.run s bs = some ({ s with
        mem := m, queue := q, freeing := pre ++ post }, fs)
      ∧ fs.filter (· ≠ .silent) = [.freed descs.length r] := by
  obtain ⟨bs, fs, hrun, hfs⟩ := chains_run s hfreeing ho
  have hrel : RxQueue.releaseAll descs (s.mem, s.queue.memPool)
      = s.queue.memPool.deallocateAll s.mem (s.mem.segmentsOf descs) :=
    RxQueue.releaseAll_eq ho
  unfold RxQueue.free at hfree
  simp only [hrel] at hfree
  have hat : (pre ++ FreeCall.pushAll descs :: post)[pre.length]?
      = some (.pushAll descs) := by simp
  have herase : (pre ++ FreeCall.pushAll descs :: post).eraseIdx pre.length
      = pre ++ post := by
    rw [List.eraseIdx_append_of_length_le (Nat.le_refl _), Nat.sub_self]
    rfl
  cases hpush : s.queue.free_.pushAll descs with
  | mk free r' =>
      rw [hpush] at hfree
      cases r' with
      | ok _ =>
          cases hfree
          refine ⟨bs ++ [.app pre.length],
            fs ++ [.freed descs.length (.ok ())],
            rxThreads.run_append hrun
              (rxThreads.run_of_step ?_ (rxThreads.run_nil _)), ?_⟩
          · simp only [rxThreads, step, appStep, hat, hpush, herase]
          · rw [shown_append hfs]
            simp
      | error e =>
          cases hfree
          refine ⟨bs ++ [.app pre.length], fs ++ [.freed descs.length
            (.error (if e = .queueFull then .queueFreeListFull else e))],
            rxThreads.run_append hrun
              (rxThreads.run_of_step ?_ (rxThreads.run_nil _)), ?_⟩
          · simp only [rxThreads, step, appStep, hat, hpush, herase]
          · rw [shown_append hfs]
            simp

-- ============================================================== periods

/-- A successful `start` moves nothing that waits and no block. -/
theorem start_frame {m' : Memory} {q q' : RxQueue}
    (h : RxQueue.start (m, q) = ((m', q'), .ok ())) :
    m' = m ∧ q'.used_.queue = q.used_.queue := by
  unfold RxQueue.start at h
  rcases RxQueue.startOr_cases none m q with
    ⟨-, -, heq⟩ | ⟨-, -, heq⟩ | ⟨q₀, hr, -, -, heq⟩ | ⟨q₀, e, -, -, heq⟩
  · rw [heq] at h
    cases h
  · rw [heq] at h
    cases h
  · rw [heq] at h
    cases h
    exact ⟨rfl, hr.same.2.2.2.2.1⟩
  · rw [heq] at h
    cases h

/-- The queue a period begins with. -/
theorem Inv.start {blocks : Blocks} {as : List RxSystem.Op}
    {es : List RxSystem.Event} {r : RxSystem}
    (hrun : rxSystem.run (RxSystem.init blocks) as = some (r, es))
    (hfree : r.queue.free_.queue = []) (hused : r.queue.used_.queue = [])
    {m : Memory} {q : RxQueue}
    (hstart : RxQueue.start r.pair = ((m, q), .ok ())) :
    Outside m (m.segmentsOf r.held.values)
    ∧ Inv m (m.segmentsOf r.held.values) q.config.size.toNat
      { mem := m, queue := q } := by
  have hr := RxSystem.Inv.run hrun
  have hperiod := RxPeriod.Inv.start hr.sized hfree hused hstart
  obtain ⟨-, hqueue⟩ := start_frame hstart
  rw [hused] at hqueue
  have hacc : Accounted m q r.held.values :=
    RxQueue.startOr_accounted none hr.accounted hstart
  have howners := hacc.owners
  have hlive := hacc.live
  rw [hqueue, List.nil_append] at howners hlive
  have howned := howners.owned
  have htotal := hperiod.total
  have hreach : reach { mem := m, queue := q } = [] := by
    unfold reach
    rw [hqueue]
    rfl
  refine ⟨⟨howned.nodup, howned.ne_null, howned.live⟩,
    ⟨hperiod.freeCap, hperiod.usedCap, ?_, ?_, trivial, ?_, rfl⟩⟩
  · unfold RxPeriod.total RxPeriod.heldCount RxPeriod.inFlight at htotal
    simp only [Ledger.empty, Ledger.values, List.map_nil, List.length_nil,
      List.sum_nil, Nat.add_zero] at htotal
    unfold CreditQueue.total abs
    simp only [List.length_map]
    exact htotal
  · rw [hreach]
    exact Estate.init m.blocks
  · rw [hlive]
    unfold owned
    rw [hreach]
    rfl

/-- Any run of a period. -/
theorem Inv.run (ho : Outside base outs) (hi : Inv base outs size s)
    {as : List Op} {es : List Event}
    (hrun : rxThreads.run s as = some (t, es)) :
    Inv base outs size t
    ∧ (∃ ops, spec.run s.abs ops = some (t.abs, es.flatMap Event.view))
    ∧ ∀ e ∈ es, ¬ e.Loses := by
  have hkept := rxThreads.run_history
    (P := fun u fs => Inv base outs size u ∧ ∀ e ∈ fs, ¬ Event.Loses e)
    (fun {u v a e fs} hP hs => by
      obtain ⟨hu, hfs⟩ := hP
      have hstep := hu.step ho hs
      refine ⟨hstep.inv, fun e' he' => ?_⟩
      rcases List.mem_append.1 he' with hold | hnew
      · exact hfs e' hold
      · exact List.mem_singleton.1 hnew ▸ hstep.kept)
    ⟨hi, fun e he => by cases he⟩ hrun
  obtain ⟨ops, c, hops, hR⟩ := rxThreads.run_refines spec
    (fun u c => Inv base outs size u ∧ c = u.abs) Event.view
    (fun {u v a e c} hR hs => by
      obtain ⟨hu, rfl⟩ := hR
      have hstep := hu.step ho hs
      obtain ⟨ops, hops⟩ := hstep.run
      exact ⟨ops, v.abs, hops, hstep.inv, rfl⟩)
    ⟨hi, rfl⟩ hrun
  obtain ⟨-, rfl⟩ := hR
  exact ⟨hkept.1, ⟨ops, hops⟩, hkept.2⟩

/-- A period begins with `size` credits and nothing else. -/
private theorem abs_start {m : Memory} {q : RxQueue}
    (hi : Inv base outs size { mem := m, queue := q })
    (hused : q.used_.queue = []) :
    abs { mem := m, queue := q } = { credits := size } := by
  have htotal := hi.total
  unfold CreditQueue.total abs at htotal
  rw [hused] at htotal
  simp only [List.map_nil, List.length_nil, Ledger.map_values,
    List.length_map, Nat.add_zero] at htotal
  unfold abs
  rw [hused, ← htotal]
  rfl

/-- From a `start` on empty FIFOs on, and until the next `stop`, an
`RxQueue` is a queue with credits, in every interleaving of the poll
thread's `put` with any number of threads' `take`, `free` and looks at
what they hold, cut at every block allocated, written or released and at
every call on a FIFO. What is shown is a run of the specification from
`size` credits: a `put` is accepted or finds no credit, a `take` hands
out what waits, a look finds the fields and the bytes that were
accepted. No credit is lost and no call is refused for want of room. -/
theorem rx_queue_refines_credits {blocks : Blocks}
    {as : List RxSystem.Op} {es : List RxSystem.Event} {r : RxSystem}
    (hrun : rxSystem.run (RxSystem.init blocks) as = some (r, es))
    (hfree : r.queue.free_.queue = []) (hused : r.queue.used_.queue = [])
    {m : Memory} {q : RxQueue}
    (hstart : RxQueue.start r.pair = ((m, q), .ok ()))
    {bs : List Op} {fs : List Event}
    (hperiod : rxThreads.run { mem := m, queue := q } bs = some (t, fs)) :
    (∃ ops, spec.run { credits := q.config.size.toNat } ops
        = some (t.abs, fs.flatMap Event.view))
    ∧ t.abs.total = q.config.size.toNat
    ∧ (fs.flatMap Event.view).flatMap CreditQueue.Event.wentIn
      = (fs.flatMap Event.view).flatMap CreditQueue.Event.wentOut
        ++ t.abs.waiting
    ∧ ∀ e ∈ fs, ¬ e.Loses := by
  obtain ⟨ho, hi⟩ := Inv.start hrun hfree hused hstart
  obtain ⟨ht, ⟨ops, hops⟩, hkept⟩ := hi.run ho hperiod
  rw [abs_start hi ((start_frame hstart).2.trans hused)] at hops
  exact ⟨⟨ops, hops⟩, ht.total, CreditQueue.run_in_order hops, hkept⟩

/-- The blocks of an `RxQueue` in such a period, in every interleaving. At
every moment they are exactly the chains that wait, are held, or are
still to be released, and the segments of the `put` under way: none is
shared, none is lost, the pool counts each, no block is written or
released that is not live, and the rest of the heap is as it was. -/
theorem rx_queue_owns_blocks {blocks : Blocks}
    {as : List RxSystem.Op} {es : List RxSystem.Event} {r : RxSystem}
    (hrun : rxSystem.run (RxSystem.init blocks) as = some (r, es))
    (hfree : r.queue.free_.queue = []) (hused : r.queue.used_.queue = [])
    {m : Memory} {q : RxQueue}
    (hstart : RxQueue.start r.pair = ((m, q), .ok ()))
    {bs : List Op} {fs : List Event}
    (hperiod : rxThreads.run { mem := m, queue := q } bs = some (t, fs)) :
    t.mem.faults = []
    ∧ t.owned.Nodup
    ∧ (∀ p, p ∈ t.mem.blocks ↔ p ∈ m.blocks ∨ p ∈ t.owned)
    ∧ (∀ p ∈ m.blocks, p ∉ t.owned
      ∧ t.mem.blocks.lookup p = m.blocks.lookup p)
    ∧ t.queue.memPool.liveBlocks
      = q.memPool.liveBlocks + t.owned.length := by
  obtain ⟨ho, hi⟩ := Inv.start hrun hfree hused hstart
  obtain ⟨ht, -, -⟩ := hi.run ho hperiod
  have hbefore : m.faults = [] :=
    (RxQueue.startOr_accounted none (RxSystem.Inv.run hrun).accounted
      hstart).faults
  have hlive := hi.live
  have hnone : owned { mem := m, queue := q } = [] := by
    unfold owned reach
    rw [(start_frame hstart).2.trans hused]
    rfl
  rw [hnone] at hlive
  refine ⟨ht.faults.trans hbefore, ht.estate.cells_nodup,
    ht.estate.mem_iff, fun p hp => ?_, ?_⟩
  · obtain ⟨hloose, hchains⟩ := ht.estate.fresh p hp
    exact ⟨fun h => (List.mem_append.1 h).elim hchains hloose,
      ht.estate.outside p hloose hchains⟩
  · show t.queue.memPool.live.toNat = q.memPool.live.toNat + _
    rw [ht.live, hlive]
    rfl

/-- A queue of one descriptor, not started yet. -/
def ofSizeOne : RxSystem :=
  { queue := (RxQueue.configure { size := 1 } {}).1 }

/-- A block released by a `free` is allocated again by a `put` that then
finds no credit, as the `free` has not come to its `pushAll`. -/
def blockReused : List Op :=
  [.put {} [7], .poll .bump, .poll .bump, .poll .bump, .poll .bump,
    .poll .bump, .poll .bump, .take, .look 0, .free [0], .app 0, .app 0,
    .put {} [8], .poll .bump, .poll .bump, .poll .bump, .poll .bump,
    .poll .bump, .app 0, .app 0, .poll .bump]

/-- The specification's run for it: one credit, given up, missed, given
back. -/
theorem rx_queue_refines_credits_blockReused :
    ∃ m q t fs ops, RxQueue.start ofSizeOne.pair = ((m, q), .ok ())
      ∧ rxThreads.run { mem := m, queue := q } blockReused = some (t, fs)
      ∧ fs.flatMap Event.view
        = [.accepted ({ totalLength := 1 }, [7]),
          .taken 0 [({ totalLength := 1 }, [7])],
          .seen ({ totalLength := 1 }, [7]), .givenUp [0], .full,
          .credited 1]
      ∧ spec.run { credits := 1 } ops
        = some (t.abs, fs.flatMap Event.view) := by
  have hstart : (RxQueue.start ofSizeOne.pair).2 = .ok ()
      ∧ (RxQueue.start ofSizeOne.pair).1.2.config.size = 1 := by decide
  have heval : (rxThreads.run
      { mem := (RxQueue.start ofSizeOne.pair).1.1
        queue := (RxQueue.start ofSizeOne.pair).1.2 }
      blockReused).map (fun p => p.2.flatMap Event.view)
      = some [.accepted ({ totalLength := 1 }, [7]),
          .taken 0 [({ totalLength := 1 }, [7])],
          .seen ({ totalLength := 1 }, [7]), .givenUp [0], .full,
          .credited 1] := by decide +kernel
  obtain ⟨⟨t, fs⟩, hperiod, hview⟩ := Option.map_eq_some_iff.1 heval
  have hrun : rxSystem.run (RxSystem.init ∅) [.configure { size := 1 }]
      = some (ofSizeOne, [.configure (.ok ())]) := rfl
  have heq : RxQueue.start ofSizeOne.pair
      = (((RxQueue.start ofSizeOne.pair).1.1,
          (RxQueue.start ofSizeOne.pair).1.2), .ok ()) :=
    Prod.ext rfl hstart.1
  obtain ⟨ops, hops⟩ :=
    (rx_queue_refines_credits hrun rfl rfl heq hperiod).1
  rw [hstart.2] at hops
  exact ⟨_, _, t, fs, ops, heq, hperiod, hview, hops⟩

/-- At its end the block that was allocated again is back. -/
theorem rx_queue_owns_blocks_blockReused :
    ∃ m q t fs, RxQueue.start ofSizeOne.pair = ((m, q), .ok ())
      ∧ rxThreads.run { mem := m, queue := q } blockReused = some (t, fs)
      ∧ t.mem.faults = []
      ∧ t.queue.memPool.liveBlocks = t.owned.length := by
  have hstart : (RxQueue.start ofSizeOne.pair).2 = .ok ()
      ∧ (RxQueue.start ofSizeOne.pair).1.2.memPool.liveBlocks = 0 := by
    decide
  have hsome : (rxThreads.run
      { mem := (RxQueue.start ofSizeOne.pair).1.1
        queue := (RxQueue.start ofSizeOne.pair).1.2 }
      blockReused).isSome = true := by decide +kernel
  obtain ⟨⟨t, fs⟩, hperiod⟩ := Option.isSome_iff_exists.1 hsome
  have hrun : rxSystem.run (RxSystem.init ∅) [.configure { size := 1 }]
      = some (ofSizeOne, [.configure (.ok ())]) := rfl
  have heq : RxQueue.start ofSizeOne.pair
      = (((RxQueue.start ofSizeOne.pair).1.1,
          (RxQueue.start ofSizeOne.pair).1.2), .ok ()) :=
    Prod.ext rfl hstart.1
  obtain ⟨hfaults, -, -, -, hlive⟩ :=
    rx_queue_owns_blocks hrun rfl rfl heq hperiod
  rw [hstart.2, Nat.zero_add] at hlive
  exact ⟨_, _, t, fs, heq, hperiod, hfaults, hlive⟩

end Vnic.RxThreads
