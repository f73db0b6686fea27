/-
Who owns which chain, across one `RxQueue` operation.

The descriptors that may still be dereferenced are those in `used_` and
those outside the queue: held by the application, or sitting in another
queue over the same heap. `Owners m (q.used_.queue ++ ds)` says that
their chains are live and disjoint, with `ds` for the outside. Each
operation carries that over, and shows the outside an unchanged heap
(`SameChains`).

`Accounted` adds the live counter and the fault record, for a queue that
counted every chain itself. It is the whole invariant of buffer
conservation: the counter is the number of owned segments, and nothing
was ever released twice.
-/
import Vnic.Proofs.RxQueue

namespace Vnic

open Linked

variable {m m' : Memory} {q q' : RxQueue}
  {ds ds' es : List PacketDescriptor}

-- ========================================================== SameChains

/-- Equal heaps have the same chains. -/
theorem SameChains.of_blocks (h : m'.blocks = m.blocks) :
    SameChains m m' ds := by
  intro d _
  unfold Memory.segments
  rw [h]
  exact ⟨rfl, fun _ _ => rfl⟩

/-- Also for fewer descriptors. -/
theorem SameChains.mono (h : SameChains m m' ds) (hsub : es ⊆ ds) :
    SameChains m m' es :=
  fun d hd => h d (hsub hd)

theorem SameChains.trans {m'' : Memory} (h : SameChains m m' ds)
    (h' : SameChains m' m'' ds) : SameChains m m'' ds := by
  intro d hd
  obtain ⟨hseg, hlook⟩ := h d hd
  obtain ⟨hseg', hlook'⟩ := h' d hd
  refine ⟨hseg'.trans hseg, fun k hk => ?_⟩
  rw [hlook' k (by rw [hseg]; exact hk), hlook k hk]

theorem Owners.of_blocks (h : Owners m ds) (heq : m'.blocks = m.blocks) :
    Owners m' ds := by
  unfold Owners
  rw [heq]
  exact h

/-- Ownership does not depend on the order of the owners. -/
theorem Owners.of_perm (h : Owners m ds) (hp : ds.Perm es) : Owners m es :=
  h.perm (hp.map _)

theorem Memory.segmentsOf_perm (hp : ds.Perm es) :
    (m.segmentsOf ds).Perm (m.segmentsOf es) :=
  hp.flatMap_right _

-- ============================================== operations and owners

namespace RxQueue

/-- `put` adds at most one owner, over fresh blocks. -/
theorem put_owners (malloc : Malloc) (desc : PacketDescriptor)
    (packet : Frame) {r : Res} (h : Owners m (q.used_.queue ++ ds))
    (heq : put malloc desc packet (m, q) = ((m', q'), r)) :
    Owners m' (q'.used_.queue ++ ds)
      ∧ SameChains m m' (q.used_.queue ++ ds) := by
  rcases put_cases malloc desc packet m q with
    ⟨ps, m₁, q₁, hput, hp⟩ | ⟨e, m₁, q₁, hput, hr⟩
  · rw [hput] at heq
    cases heq
    rw [hp.mem, hp.queue]
    have hf := filled_owners (d := stamped desc packet ps) h hp.fresh packet
      rfl
    refine ⟨hf.1.of_perm ?_, hf.2⟩
    show (stamped desc packet ps :: (q.used_.queue ++ ds)).Perm
      ((q.used_.queue ++ [stamped desc packet ps]) ++ ds)
    rw [List.append_assoc]
    exact List.perm_middle.symm
  · rw [hput] at heq
    cases heq
    rw [hr.used]
    exact ⟨h.of_blocks hr.blocks, SameChains.of_blocks hr.blocks⟩

/-- `free` gives up its arguments. -/
theorem free_owners (q : RxQueue) (h : Owners m (ds ++ es)) :
    Owners (free ds (m, q)).1.1 es
      ∧ SameChains m (free ds (m, q)).1.1 es
      ∧ (free ds (m, q)).1.2.used_ = q.used_ := by
  have hds : Owners m ds :=
    h.sublist ((List.sublist_append_left ds es).map _)
  rw [free_eq hds]
  exact ⟨h.release.1, h.release.2, rfl⟩

/-- `drain` gives up what `used_` holds. -/
theorem drain_owners (h : Owners m (q.used_.queue ++ ds)) :
    Owners (drain (m, q)).1 ds ∧ SameChains m (drain (m, q)).1 ds := by
  have hus : Owners m q.used_.queue :=
    h.sublist ((List.sublist_append_left _ ds).map _)
  rw [drain_eq hus]
  exact h.release

/-- A `start` that fails drains `used_`; every other one leaves the chains
alone. -/
theorem startOr_owners (inject : Option ErrorCode) {r : Res}
    (h : Owners m (q.used_.queue ++ ds))
    (heq : startOr inject (m, q) = ((m', q'), r)) :
    Owners m' (q'.used_.queue ++ ds) ∧ SameChains m m' ds := by
  have hid : SameChains m m ds := SameChains.of_blocks rfl
  rcases startOr_cases inject m q with
    ⟨-, -, hs⟩ | ⟨-, -, hs⟩ | ⟨q₀, hr, -, -, hs⟩ | ⟨q₀, e, hr, -, hs⟩
  · rw [hs] at heq
    cases heq
    exact ⟨h, hid⟩
  · rw [hs] at heq
    cases heq
    exact ⟨h, hid⟩
  · rw [hs] at heq
    cases heq
    refine ⟨?_, hid⟩
    show Owners m (q₀.used_.queue ++ ds)
    rw [hr.same.2.2.2.2.1]
    exact h
  · rw [hs] at heq
    cases heq
    rw [← hr.same.2.2.2.2.1] at h
    exact drain_owners (q := { q₀ with state := .started }) h

/-- So does a `stop`, and one from the wrong state does nothing. -/
theorem stop_owners {r : Res} (h : Owners m (q.used_.queue ++ ds))
    (heq : stop (m, q) = ((m', q'), r)) :
    Owners m' (q'.used_.queue ++ ds) ∧ SameChains m m' ds := by
  rcases stop_cases m q with ⟨-, hs⟩ | ⟨-, hs⟩
  · rw [hs] at heq
    cases heq
    exact ⟨h, SameChains.of_blocks rfl⟩
  · rw [hs] at heq
    cases heq
    exact drain_owners (q := { q with state := .stopping }) h

/-- `configure` moves no descriptor and touches no block. -/
theorem configure_frame (config : Config) (q : RxQueue) :
    (configure config q).1.used_.queue = q.used_.queue
      ∧ (configure config q).1.free_.queue = q.free_.queue
      ∧ (configure config q).1.stats = q.stats
      ∧ (configure config q).1.memPool.live = q.memPool.live := by
  rcases configure_cases config q with ⟨-, h⟩ | ⟨-, -, h⟩ | ⟨-, -, h⟩
  · rw [h]
    exact ⟨rfl, rfl, rfl, rfl⟩
  · rw [h]
    exact ⟨rfl, rfl, rfl, rfl⟩
  · rw [h]
    exact ⟨rfl, rfl, rfl, rfl⟩

end RxQueue

-- =========================================================== Accounted

/-- The live counter of the queue is the number of segments owned by
`used_` and by the descriptors `ds` outside, and no fault was recorded. -/
structure Accounted (m : Memory) (q : RxQueue)
    (ds : List PacketDescriptor) : Prop where
  owners : Owners m (q.used_.queue ++ ds)
  live : q.memPool.live.toNat
    = (m.segmentsOf (q.used_.queue ++ ds)).length
  faults : m.faults = []

/-- The outside may be listed in any order. -/
theorem Accounted.of_perm (h : Accounted m q ds)
    (hp : (q.used_.queue ++ ds).Perm (q'.used_.queue ++ es))
    (hlive : q'.memPool.live = q.memPool.live) : Accounted m q' es :=
  ⟨h.owners.of_perm hp,
    by rw [hlive, h.live, (Memory.segmentsOf_perm hp).length_eq],
    h.faults⟩

/-- Releasing some of the accounted chains through the queue's own pool:
the counter covers them, so it cannot underflow. -/
theorem Accounted.release (h : Accounted m q ds)
    (hp : (q.used_.queue ++ ds).Perm (es ++ (q'.used_.queue ++ ds')))
    (hpool : q'.memPool
      = (q.memPool.deallocateAll m (m.segmentsOf es)).2) :
    Accounted (q.memPool.deallocateAll m (m.segmentsOf es)).1 q' ds' := by
  have howners : Owners m (es ++ (q'.used_.queue ++ ds')) :=
    h.owners.of_perm hp
  have hes : Owners m es :=
    howners.sublist ((List.sublist_append_left es _).map _)
  have hlen : (m.segmentsOf es).length
      + (m.segmentsOf (q'.used_.queue ++ ds')).length
        = q.memPool.live.toNat := by
    rw [h.live, (Memory.segmentsOf_perm hp).length_eq,
      Memory.segmentsOf_append es, List.length_append]
  have hrel : Owners (q.memPool.deallocateAll m (m.segmentsOf es)).1
        (q'.used_.queue ++ ds')
      ∧ SameChains m (q.memPool.deallocateAll m (m.segmentsOf es)).1
        (q'.used_.queue ++ ds') := howners.release
  refine ⟨hrel.1, ?_, ?_⟩
  · rw [hrel.2.segmentsOf, hpool,
      Pool.deallocateAll_pool hes.owned.ne_null]
    -- as many as there are distinct pointers, so live_ does not wrap
    have hsmall : (m.segmentsOf es).length < 2 ^ 64 :=
      length_lt_of_nodup hes.owned.nodup hes.owned.ne_null
    have hof : (UInt64.ofNat (m.segmentsOf es).length).toNat
        = (m.segmentsOf es).length := by
      rw [UInt64.toNat_ofNat']
      exact Nat.mod_eq_of_lt hsmall
    rw [UInt64.toNat_sub_of_le _ _ (UInt64.le_iff_toNat_le.2 (by
      rw [hof]; omega)), hof]
    omega
  · rw [Pool.deallocateAll_faults hes.owned (by omega), h.faults]

namespace RxQueue

/-- The segments owned and the segments a `put` holds on the way are
distinct addresses, so the counter has room for both. -/
theorem live_room (h : Accounted m q ds) {ps : List Ptr}
    (hf : FreshSegments m ps) :
    q.memPool.live.toNat + ps.length < 2 ^ 64 := by
  rw [h.live, ← List.length_append]
  have ho := h.owners.owned
  refine length_lt_of_nodup (List.nodup_append'.2 ⟨ho.nodup, hf.nodup, ?_⟩)
    fun p hp => ?_
  · intro p hp hp'
    exact hf.notMem p hp' (ho.live p hp)
  · rcases List.mem_append.1 hp with hp | hp
    · exact ho.ne_null p hp
    · exact hf.ne_null p hp

/-- A `put`, accepted or not, keeps the books. -/
theorem put_accounted (malloc : Malloc) (desc : PacketDescriptor)
    (packet : Frame) {r : Res} (h : Accounted m q ds)
    (heq : put malloc desc packet (m, q) = ((m', q'), r)) :
    Accounted m' q' ds := by
  obtain ⟨ho, hsame⟩ := put_owners malloc desc packet h.owners heq
  -- published: one more chain under used_; refused: the pool has back what
  -- it gave
  rcases put_cases malloc desc packet m q with
    ⟨ps, m₁, q₁, hput, hp⟩ | ⟨e, m₁, q₁, hput, hr⟩
  · rw [hput] at heq
    cases heq
    refine ⟨ho, ?_, ?_⟩
    · have hseg : (filled m packet ps).segments (stamped desc packet ps).buffer
          = ps :=
        (filled_chain hp.fresh packet).chainOf_eq
      have hsame' : (filled m packet ps).segmentsOf (q.used_.queue ++ ds)
          = m.segmentsOf (q.used_.queue ++ ds) := by
        rw [hp.mem] at hsame
        exact hsame.segmentsOf
      have hperm : ((q.published desc packet ps).used_.queue ++ ds).Perm
          (stamped desc packet ps :: (q.used_.queue ++ ds)) := by
        show ((q.used_.queue ++ [stamped desc packet ps]) ++ ds).Perm _
        rw [List.append_assoc]
        exact List.perm_middle
      rw [hp.mem, hp.queue, (Memory.segmentsOf_perm hperm).length_eq]
      show (q.memPool.grown ps.length).live.toNat
        = ((filled m packet ps).segments (stamped desc packet ps).buffer
          ++ (filled m packet ps).segmentsOf (q.used_.queue ++ ds)).length
      rw [grown_live (live_room h hp.fresh), hseg, hsame',
        List.length_append, h.live, Nat.add_comm]
    · rw [hp.mem, filled_faults, h.faults]
  · rw [hput] at heq
    cases heq
    obtain ⟨n, hpool⟩ := hr.pool
    obtain ⟨ps, hf, hfaults⟩ := hr.faults
    refine ⟨ho, ?_, by rw [hfaults (live_room h hf), h.faults]⟩
    rw [hr.used, hpool, (SameChains.of_blocks hr.blocks).segmentsOf]
    exact h.live

/-- `free` takes the chains it releases off the books. -/
theorem free_accounted (h : Accounted m q ds)
    (hperm : (q.used_.queue ++ ds).Perm (es ++ (q.used_.queue ++ ds'))) :
    Accounted (free es (m, q)).1.1 (free es (m, q)).1.2 ds' := by
  have hes : Owners m es :=
    (h.owners.of_perm hperm).sublist ((List.sublist_append_left es _).map _)
  rw [free_eq hes]
  exact h.release hperm rfl

private theorem drain_accounted (h : Accounted m q ds) :
    Accounted (drain (m, q)).1 (drain (m, q)).2 ds := by
  have hus : Owners m q.used_.queue :=
    h.owners.sublist ((List.sublist_append_left _ ds).map _)
  rw [drain_eq hus]
  exact h.release (List.Perm.refl _) rfl

/-- A failed `start` takes what waited off the books. -/
theorem startOr_accounted (inject : Option ErrorCode) {r : Res}
    (h : Accounted m q ds)
    (heq : startOr inject (m, q) = ((m', q'), r)) : Accounted m' q' ds := by
  -- Started already, a failing hook, a restart that fits, a restart that
  -- ends in Error
  rcases startOr_cases inject m q with
    ⟨-, -, hs⟩ | ⟨-, -, hs⟩ | ⟨q₀, hr, -, -, hs⟩ | ⟨q₀, e, hr, -, hs⟩
  · rw [hs] at heq
    cases heq
    exact h
  · rw [hs] at heq
    cases heq
    exact ⟨h.owners, h.live, h.faults⟩
  · rw [hs] at heq
    cases heq
    obtain ⟨-, -, -, -, hused, hlive⟩ := hr.same
    refine h.of_perm ?_ hlive
    rw [show ({ q₀ with
      state := .started
      free_ := (startLoop q₀.config.size.toNat q₀.free_).1 } : RxQueue).used_
        = q₀.used_ from rfl, hused]
  · rw [hs] at heq
    cases heq
    obtain ⟨-, -, -, -, hused, hlive⟩ := hr.same
    have h₀ : Accounted m { q₀ with state := .started } ds := by
      refine h.of_perm ?_ hlive
      rw [show ({ q₀ with state := .started } : RxQueue).used_
        = q₀.used_ from rfl, hused]
    have hd := drain_accounted h₀
    exact ⟨hd.owners, hd.live, hd.faults⟩

/-- And so does `stop`. -/
theorem stop_accounted {r : Res} (h : Accounted m q ds)
    (heq : stop (m, q) = ((m', q'), r)) : Accounted m' q' ds := by
  rcases stop_cases m q with ⟨-, hs⟩ | ⟨-, hs⟩
  · rw [hs] at heq
    cases heq
    exact h
  · rw [hs] at heq
    cases heq
    have h₀ : Accounted m { q with state := .stopping } ds :=
      ⟨h.owners, h.live, h.faults⟩
    have hd := drain_accounted h₀
    exact ⟨hd.owners, hd.live, hd.faults⟩

/-- `configure` touches neither chains nor the pool's counter. -/
theorem configure_accounted (config : Config) (h : Accounted m q ds) :
    Accounted m (configure config q).1 ds := by
  obtain ⟨hused, -, -, hlive⟩ := configure_frame config q
  exact h.of_perm (by rw [hused]) hlive

end RxQueue

end Vnic
