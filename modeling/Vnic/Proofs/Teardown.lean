/-
The heap over the whole life of a port.

`Intact base m ds` says three things. The chains of `ds` are live and
disjoint. The heap is `base` and these chains, nothing else: erase them
and `base` is left, block for block. And nothing was freed or written that
was not live; what a run may have recorded is only a pool's counter that
went below zero, which is the caller's doing: it takes a descriptor that
is given back through another queue than its own.

It is kept by every operation of a queue, with `ds` the chains waiting in
it and those outside, hence by every step of the port, whatever fails on
the way. The destructor gives back what waits in the queues, so that only
what the application still holds is left of the port.
-/
import Vnic.Teardown
import Vnic.Proofs.Custody

namespace Vnic

open Linked Row

variable {base : Blocks} {m m' : Memory} {q q' : RxQueue}
  {ds es : List PacketDescriptor}

-- ============================================================== intact

/-- The heap is `base` and the chains of `ds`, and nothing was freed twice
or written outside. -/
structure Intact (base : Blocks) (m : Memory)
    (ds : List PacketDescriptor) : Prop where
  owners : Owners m ds
  balanced : eraseAll m.blocks (m.segmentsOf ds) = base
  faults : ∀ f ∈ m.faults, f = .liveUnderflow

/-- The order of the owners does not matter. -/
theorem Intact.of_perm (h : Intact base m ds) (hp : ds.Perm es) :
    Intact base m es := by
  refine ⟨h.owners.of_perm hp, ?_, h.faults⟩
  rw [← eraseAll_perm (Memory.segmentsOf_perm hp)]
  exact h.balanced

/-- Nor does anything but the blocks and the faults. -/
theorem Intact.of_blocks (h : Intact base m ds)
    (heq : m'.blocks = m.blocks)
    (hfaults : ∀ f ∈ m'.faults, f = .liveUnderflow) : Intact base m' ds := by
  refine ⟨h.owners.of_blocks heq, ?_, hfaults⟩
  rw [heq, (SameChains.of_blocks heq).segmentsOf]
  exact h.balanced

/-- Releasing live blocks can only go wrong in the counter. -/
private theorem deallocateAll_faults_mild {ps : List Ptr} {pool : Pool}
    (ho : Owned m ps) (h : ∀ f ∈ m.faults, f = .liveUnderflow) :
    ∀ f ∈ (pool.deallocateAll m ps).1.faults, f = .liveUnderflow := by
  induction ps generalizing m pool with
  | nil => exact h
  | cons p ps ih =>
      have hlive := ho.live p (List.mem_cons_self ..)
      apply ih ho.tail
      unfold Pool.deallocate
      rw [if_neg (ho.ne_null p (List.mem_cons_self ..))]
      by_cases hzero : pool.live = 0
      · simp only [if_pos hzero]
        rw [Memory.free_faults
          (m := { m with faults := m.faults ++ [.liveUnderflow] }) hlive]
        intro f hf
        rcases List.mem_append.1 hf with hf | hf
        · exact h f hf
        · exact List.mem_singleton.1 hf
      · simp only [if_neg hzero]
        rw [Memory.free_faults hlive]
        exact h

/-- Releasing the chains of `ds` leaves those of `es`. -/
theorem Intact.release (h : Intact base m (ds ++ es)) {pool : Pool} :
    Intact base (pool.deallocateAll m (m.segmentsOf ds)).1 es := by
  have hds : Owners m ds :=
    h.owners.sublist ((List.sublist_append_left ds es).map _)
  refine ⟨h.owners.release.1, ?_, deallocateAll_faults_mild hds.owned h.faults⟩
  rw [h.owners.release.2.segmentsOf, Pool.deallocateAll_blocks hds.owned,
    ← eraseAll_append, ← Memory.segmentsOf_append]
  exact h.balanced

namespace RxQueue

/-- A published chain adds its own segments to the heap. -/
private theorem intact_filled {desc : PacketDescriptor} {packet : Frame}
    {ps : List Ptr} (h : Intact base m ds) (hf : FreshSegments m ps) :
    Intact base (filled m packet ps) (stamped desc packet ps :: ds) := by
  have hchain := filled_chain hf packet
  obtain ⟨ho, hsame⟩ := filled_owners (d := stamped desc packet ps) h.owners
    hf packet rfl
  have hundo : (({} : Pool).deallocateAll (filled m packet ps) ps).1.blocks
      = m.blocks := undo_blocks hf
  rw [Pool.deallocateAll_blocks (Owned.of_chain hchain)] at hundo
  have hhead : (filled m packet ps).segments (stamped desc packet ps).buffer
      = ps := hchain.chainOf_eq
  have hseg : (filled m packet ps).segmentsOf (stamped desc packet ps :: ds)
      = ps ++ m.segmentsOf ds := by
    rw [← hsame.segmentsOf]
    show (filled m packet ps).segments (stamped desc packet ps).buffer ++ _ = _
    rw [hhead]
    rfl
  refine ⟨ho, ?_, ?_⟩
  · rw [hseg, eraseAll_append, hundo]
    exact h.balanced
  · rw [filled_faults]
    exact h.faults

/-- Giving back the segments of a fill. -/
private theorem intact_undo {packet : Frame} {ps : List Ptr}
    (h : Intact base m ds)
    (hf : FreshSegments m ps) {pool : Pool} :
    Intact base (pool.deallocateAll (filled m packet ps) ps).1 ds := by
  refine h.of_blocks (undo_blocks hf) (deallocateAll_faults_mild
    (Owned.of_chain (filled_chain hf packet)) ?_)
  rw [filled_faults]
  exact h.faults

/-- `put` up to the pop has failed and left the heap as it was. -/
private theorem putFill_intact {malloc : Malloc} {desc : PacketDescriptor}
    {packet : Frame} {e : ErrorCode} (h : Intact base m ds)
    (heq : putFill malloc desc packet (m, q) = ((m', q'), .error e)) :
    Intact base m' ds := by
  unfold putFill at heq
  simp only at heq
  split at heq
  · cases heq
    exact h
  · split at heq
    · cases heq
      exact h
    · split at heq
      · cases heq
        exact h
      · have halloc := allocSegments_cases malloc q.memPool
          (segmentCount packet.length) (FreshSegments.nil m)
        rw [show (m.reserved [], q.memPool.grown ([] : List Ptr).length)
          = (m, q.memPool) by simp [Memory.reserved, Pool.grown]] at halloc
        rcases halloc with ⟨ps, hf, hlen, ha⟩ | ⟨ps, hf, -, -, ha⟩
        · rw [ha] at heq
          cases heq
        · rw [ha] at heq
          cases heq
          refine h.of_blocks ?_ (deallocateAll_faults_mild hf.owned h.faults)
          rw [Pool.deallocateAll_blocks hf.owned]
          exact eraseAll_insertAll hf.notMem

/-- `put` has failed somewhere and left the heap as it was. -/
private theorem put_error_intact {malloc : Malloc} {desc : PacketDescriptor}
    {packet : Frame} {e : ErrorCode} (h : Intact base m ds)
    (heq : put malloc desc packet (m, q) = ((m', q'), .error e)) :
    Intact base m' ds := by
  unfold put at heq
  rcases putFill_cases malloc desc packet m q with
    ⟨e', m₁, q₁, hfill, -⟩ | ⟨-, -, ps, hf, -, hfill⟩
  · rw [hfill] at heq
    cases heq
    exact putFill_intact h hfill
  · rw [hfill] at heq
    simp only at heq
    unfold putPop Fifo.pop at heq
    -- past the filling every failure gives the filled blocks back
    cases hfree : q.free_.queue with
    | nil =>
        simp only [hfree] at heq
        cases heq
        exact intact_undo h hf
    | cons slot rest =>
        simp only [hfree] at heq
        unfold putPush at heq
        cases hfull : q.used_.isFullLocked with
        | true =>
            rw [Fifo.push_of_full hfull] at heq
            cases heq
            exact intact_undo h hf
        | false =>
            rw [Fifo.push_of_room hfull] at heq
            cases heq

/-- `put` adds its chain to those that wait, or nothing. -/
private theorem put_intact (malloc : Malloc) (desc : PacketDescriptor)
    (packet : Frame) {r : Res} (h : Intact base m (q.used_.queue ++ ds))
    (heq : put malloc desc packet (m, q) = ((m', q'), r)) :
    Intact base m' (q'.used_.queue ++ ds) := by
  rcases put_cases malloc desc packet m q with
    ⟨ps, m₁, q₁, hput, hp⟩ | ⟨e, m₁, q₁, hput, hr⟩
  · rw [hput] at heq
    cases heq
    rw [hp.mem, hp.queue]
    apply (intact_filled h hp.fresh).of_perm
    show (stamped desc packet ps :: (q.used_.queue ++ ds)).Perm
      ((q.used_.queue ++ [stamped desc packet ps]) ++ ds)
    rw [List.append_assoc]
    exact List.perm_middle.symm
  · rw [hput] at heq
    cases heq
    rw [hr.used]
    exact put_error_intact h hput

private theorem free_intact (q : RxQueue) (h : Intact base m (ds ++ es)) :
    Intact base (free ds (m, q)).1.1 es := by
  rw [free_eq (h.owners.sublist ((List.sublist_append_left ds es).map _))]
  exact h.release

/-- A drain releases what waits. -/
private theorem drain_intact (h : Intact base m (q.used_.queue ++ ds)) :
    Intact base (drain (m, q)).1 ds := by
  rw [drain_eq (h.owners.sublist ((List.sublist_append_left _ ds).map _))]
  exact h.release

/-- A control call on a queue. -/
theorem Control.intact (hc : Control m q m' q')
    (h : Intact base m (q.used_.queue ++ ds)) :
    Intact base m' (q'.used_.queue ++ ds) := by
  cases hc with
  | configure config =>
      rw [(configure_frame config q).1]
      exact h
  | @start inject _ _ r heq =>
      rcases startOr_cases inject m q with
        ⟨-, -, hs⟩ | ⟨-, -, hs⟩ | ⟨q₀, hr, -, -, hs⟩ | ⟨q₀, e, hr, -, hs⟩
      · rw [hs] at heq
        cases heq
        exact h
      · rw [hs] at heq
        cases heq
        exact h
      · rw [hs] at heq
        cases heq
        show Intact base m (q₀.used_.queue ++ ds)
        rw [hr.same.2.2.2.2.1]
        exact h
      · rw [hs] at heq
        cases heq
        rw [← hr.same.2.2.2.2.1] at h
        exact drain_intact (q := { q₀ with state := .started }) h
  | @stop _ _ r heq =>
      rcases stop_cases m q with ⟨-, hs⟩ | ⟨-, hs⟩
      · rw [hs] at heq
        cases heq
        exact h
      · rw [hs] at heq
        cases heq
        exact drain_intact (q := { q with state := .stopping }) h

end RxQueue

-- ====================================================== rows of queues

/-- Control calls along a row. -/
theorem walk_intact {rx rx' : List RxQueue}
    (hwalk : Walk RxQueue.Control m rx m' rx')
    (h : Intact base m (waiting rx ++ ds)) :
    Intact base m' (waiting rx' ++ ds) := by
  refine hwalk.keeps (I := fun m₁ rx₁ => Intact base m₁ (waiting rx₁ ++ ds))
    ?_ h
  intro m₁ m₂ pre post q q' hc hI
  exact (hc.intact (hI.of_perm (waiting_perm pre post q ds))).of_perm
    (waiting_perm pre post q' ds).symm

/-- The destructors of a row. -/
theorem destroyRx_intact : ∀ {rx : List RxQueue} {m : Memory},
    Intact base m (waiting rx ++ ds) →
    Intact base (VNic.destroyRx rx m) ds := by
  intro rx
  induction rx with
  | nil => exact fun h => h
  | cons q rest ih =>
      intro m h
      unfold waiting at h
      rw [List.flatMap_cons, List.append_assoc] at h
      exact ih (RxQueue.drain_intact h)

/-- The destructor of a port leaves what is held outside of it. -/
theorem VNic.destroy_intact {n : VNic}
    (h : Intact base m (waiting n.rxQueues ++ ds)) :
    Intact base (VNic.destroy (m, n)) ds
      ∧ (VNic.destroy (m, n)).segmentsOf ds = m.segmentsOf ds := by
  obtain ⟨m₁, rx, tx, r, heq, hmoved, -⟩ :=
    VNic.stopQueues_cases m { n with thread := false }
  have h₁ := walk_intact hmoved.rx h
  have hsame := (walk_owners hmoved.rx h.owners).2
  have hsame' := (VNic.destroyRx_owners h₁.owners).2
  unfold VNic.destroy
  simp only [heq]
  exact ⟨destroyRx_intact h₁, (hsame.trans hsame').segmentsOf⟩

namespace Sys

variable {s t : Sys} {a : Op} {e : Event}

-- =========================================================== the port

/-- A `configure` that succeeds destroys the old queues with what waits in
them. -/
private theorem configure_intact (config : VNic.Config)
    (h : Intact base s.mem s.live) :
    Intact base (s.withPair (VNic.configure config s.pair).1).mem
      (s.withPair (VNic.configure config s.pair).1).live := by
  rcases VNic.configure_cases config s.mem s.nic with
    ⟨-, heq⟩ | ⟨-, -, heq⟩ | ⟨-, -, mac, reta, -, heq⟩
  · rw [pair, heq]
    exact h
  · rw [pair, heq]
    exact h
  · rw [pair, heq]
    have hfresh : waiting (List.replicate config.rxQueueCount.toNat {})
        = [] := by
      apply waiting_eq_nil
      intro q hq
      rw [List.eq_of_mem_replicate hq]
    show Intact base _
      (waiting (List.replicate config.rxQueueCount.toNat {})
        ++ s.held.values)
    rw [hfresh]
    exact destroyRx_intact h

/-- A step that changes one queue of the row, with `ds` held before it and
`es` after it. -/
theorem intact_set {i : Nat} {rx : List RxQueue} (hq : rx[i]? = some q)
    (hstep : ∀ others, Intact base m (q.used_.queue ++ (others ++ ds)) →
      Intact base m' (q'.used_.queue ++ (others ++ es)))
    (h : Intact base m (waiting rx ++ ds)) :
    Intact base m' (waiting (rx.set i q') ++ es) := by
  obtain ⟨pre, post, -, hrow, hset⟩ := split_at hq
  rw [hset]
  rw [hrow] at h
  exact (hstep _ (h.of_perm (waiting_perm pre post q ds))).of_perm
    (waiting_perm pre post q' es).symm

/-- `rx` moves chains from the queue to the application. -/
private theorem rx_intact {i : Nat} (hq : s.nic.rxQueues[i]? = some q)
    (h : Intact base s.mem s.live) :
    Intact base s.mem (waiting (s.nic.rxQueues.set i q.take.2)
      ++ (s.held.issue q.take.1).values) := by
  refine intact_set hq (fun others h => h.of_perm ?_) h
  rw [← (VNic.take_frame q).1, Ledger.issue_values, List.append_assoc]
  apply List.perm_append_comm.trans
  simp only [List.append_assoc, List.Perm.refl]

/-- `freeRx` releases what the application gives back, through whatever
queue. -/
private theorem freeRx_intact {i : Nat} {tickets : List Nat}
    {descs : List PacketDescriptor} {held : Ledger PacketDescriptor}
    (hq : s.nic.rxQueues[i]? = some q)
    (hr : s.held.redeem tickets = some (descs, held))
    (h : Intact base s.mem s.live) :
    Intact base (RxQueue.free descs (s.mem, q)).1.1
      (waiting (s.nic.rxQueues.set i (RxQueue.free descs (s.mem, q)).1.2)
        ++ held.values) := by
  have h' := h.of_perm
    (Ledger.redeem_perm_append hr (waiting s.nic.rxQueues))
  have hused : (RxQueue.free descs (s.mem, q)).1.2.used_ = q.used_ :=
    (RxQueue.free_owners q h'.owners).2.2
  have hwait : waiting (s.nic.rxQueues.set i
      (RxQueue.free descs (s.mem, q)).1.2) = waiting s.nic.rxQueues := by
    obtain ⟨pre, post, -, hrow, hset⟩ := split_at hq
    rw [hset, hrow]
    simp only [waiting, List.flatMap_append, List.flatMap_cons, hused]
  rw [hwait]
  exact RxQueue.free_intact q h'

/-- A frame that reaches `distribute` finds its queue. -/
private theorem pollFrame_intact {malloc : Malloc} {now : UInt64}
    {packet : Frame}
    {n : VNic} {verdict : VNic.Verdict} (htable : VNic.TableOk s.nic)
    (h : Intact base s.mem s.live)
    (hp : VNic.Polled malloc now packet s.mem s.nic m n verdict) :
    Intact base m (waiting n.rxQueues ++ s.held.values) := by
  cases hp with
  | rejected e => exact h
  | noQueues _ _ => exact h
  | @outOfRange parser _ hne hnone =>
      have hlt := htable.queueId_lt hne now parser
      rw [List.getElem?_eq_getElem hlt] at hnone
      cases hnone
  | @put parser q q' _ r _ hq hput =>
      have hne : s.nic.rxQueues ≠ [] := by
        intro hnil
        rw [hnil] at hq
        cases hq
      rw [htable.distributeFaults hne parser, List.append_nil] at hput
      exact intact_set hq (fun others h =>
        RxQueue.put_intact malloc _ packet h hput) h

/-- Every step of the port keeps the heap in order. -/
theorem step_intact (htable : VNic.TableOk s.nic)
    (h : Intact base s.mem s.live) (hs : s.step a = some (t, e)) :
    Intact base t.mem t.live := by
  by_cases hop : a.IsControl
  · rcases step_control hop hs with ⟨config, -, rfl, -⟩ | hshift
    · exact configure_intact config h
    · obtain ⟨m, st, rx, tx, thread, hmoved, rfl⟩ := hshift
      exact walk_intact hmoved.rx h
  · by_cases hrx : a.TouchesRx
    · cases a with
      | rx queueId =>
          rcases step_rx hs with ⟨-, rfl, -⟩ | ⟨q, hq, rfl, -⟩
          · exact h
          · exact rx_intact hq h
      | freeRx queueId tickets =>
          rcases (step_freeRx hs).2 with rfl | ⟨q, descs, held, hq, hr, rfl⟩
          · exact h
          · exact freeRx_intact hq hr h
      | pollFrame malloc now =>
          obtain ⟨packet, m, n, verdict, -, hp, rfl, -⟩ := step_pollFrame hs
          exact pollFrame_intact (s := s) htable h hp
      | _ => exact absurd hrx (fun hno => hno)
    · have hl := step_light hop hrx hs
      unfold live
      rw [hl.mem, hl.rxQueues, hl.held]
      exact h

/-- The heap of a port in use. -/
theorem run_intact {blocks : Blocks} {as : List Op} {es : List Event}
    (hrun : sys.run (init blocks) as = some (t, es)) :
    Intact blocks t.mem t.live := by
  have hinit : Intact blocks (init blocks).mem (init blocks).live :=
    ⟨Linked.Separate.nil, rfl, nofun⟩
  have h := sys.run_invariant
    (I := fun s => Intact blocks s.mem s.live ∧ VNic.TableOk s.nic)
    (fun h hs => ⟨step_intact h.2 h.1 hs, step_tableOk h.2 hs⟩)
    ⟨hinit, tableOk_init blocks⟩ hrun
  exact h.1

/-- And of one that is destroyed. -/
theorem destroy_intact (h : Intact base t.mem t.live)
    (hm : t.destroy = some m) :
    Intact base m t.held.values
      ∧ m.segmentsOf t.held.values = t.mem.segmentsOf t.held.values := by
  unfold destroy at hm
  split at hm
  · cases hm
  · cases hm
    exact VNic.destroy_intact h

/-- Over every run of a port, and through its destructor: no block is
freed that is not live, none is written that is not live, no table or
queue is indexed outside and no assertion of `distribute` fails. -/
theorem port_memory_safe {blocks : Blocks} {as : List Op}
    {es : List Event} (hrun : sys.run (init blocks) as = some (t, es)) :
    (∀ f ∈ t.mem.faults, f = .liveUnderflow)
    ∧ ∀ m, t.destroy = some m → ∀ f ∈ m.faults, f = .liveUnderflow := by
  have h := run_intact hrun
  exact ⟨h.faults, fun m hm => (destroy_intact h hm).1.faults⟩

/-- An ARP request. -/
def arpRequest : Frame :=
  List.replicate 12 0xff ++ [0x08, 0x06, 0, 1, 8, 0, 6, 4, 0, 1]
    ++ List.replicate 38 0

/-- One frame is given back, another still waits in its queue. -/
def oneWaits : List Op :=
  [.configure { promiscuousEnabled := true },
    .configureRx 0 { size := 2 }, .start {}, .setUp true,
    .putRx true arpRequest, .pollCheck, .pollTake true, .pollFrame .bump 0,
    .rx 0, .putRx true arpRequest, .pollCheck, .pollTake true,
    .pollFrame .bump 0, .freeRx 0 [0]]

/-- A block of somebody else. -/
def oneBlock : Blocks := (∅ : Blocks).insert 5 {}

/-- Through the destructor of a port in which a frame still waits. -/
theorem port_memory_safe_oneWaits :
    ∃ t es m, sys.run (init oneBlock) oneWaits = some (t, es)
      ∧ t.destroy = some m ∧ ∀ f ∈ m.faults, f = .liveUnderflow := by
  have heval : (sys.run (init oneBlock) oneWaits).map
      (fun p => p.1.destroy.isSome) = some true := by decide +kernel
  obtain ⟨⟨t, es⟩, hrun, hdestroy⟩ := Option.map_eq_some_iff.1 heval
  obtain ⟨m, hm⟩ := Option.isSome_iff_exists.1 hdestroy
  exact ⟨t, es, m, hrun, hm, (port_memory_safe hrun).2 m hm⟩

end Sys

end Vnic
