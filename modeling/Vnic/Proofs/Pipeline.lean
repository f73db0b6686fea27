/-
The receive pipeline of a started port refines a list of frames.

# What is refined

For each queue, the frames it accepted are, in order, those whose
descriptors `rx` has returned followed by those whose descriptors wait in
`used_`. Each descriptor carries its frame (`Carries`): length, queue,
VLAN id and hash are those of the frame's bytes. As long as it waits, or
is held and not passed to `freeRx`, its chain spells the frame.

# How

`Delivers` is that statement for one queue after some events. One step
either leaves the queue alone, returns a prefix of what waits, or adds
one descriptor at the end (`step_queue`); chains of live descriptors are
not touched in between (`Kept`). The interleaving is any: table updates,
other queues and the application's calls are steps like the rest.
-/
import Vnic.Proofs.Custody
import Vnic.Proofs.Parser
import Vnic.Proofs.Forward
import Mathlib.Data.List.Forall2

namespace Vnic

open Row VNic

-- ============================================================= carries

/-- The descriptor describes the frame, as accepted by queue `q` of the
port `n`. -/
structure Carries (n : VNic) (q : UInt16) (d : PacketDescriptor)
    (f : Frame) : Prop where
  passed : ∃ parser, n.Passes f parser
  length : d.totalLength.toNat = f.length
  queue : d.queueId = q
  vlan : d.vlanId.toNat = f.vid
  hash : if n.config.rss.enabled = true ∧ f.IsIp then
      d.hash = Rss.calcHash (get5Tuple (Parser.parse f {}).1)
        n.config.rss.key n.config.rss.hf n.config.rss.protocol
        n.config.rss.symmetry
    else d.hash = 0 ∧ q = 0

/-- What a descriptor should say depends on the configuration and the
address only. -/
theorem Carries.congr {n n' : VNic} {q : UInt16} {d : PacketDescriptor}
    {f : Frame} (h : Carries n q d f) (hc : n'.config = n.config)
    (hm : n'.macAddr = n.macAddr) : Carries n' q d f := by
  obtain ⟨parser, hp, hv⟩ := h.passed
  have hash := h.hash
  rw [← hc] at hash
  refine ⟨⟨parser, hp, ?_⟩, h.length, h.queue, h.vlan, hash⟩
  unfold validate at hv ⊢
  rw [hc, hm]
  exact hv

/-- What `distribute` fills in, and `put` completes, carries the frame. -/
theorem Carries.of_published {n : VNic} {now : UInt64} {parser : Parser}
    {f : Frame} {m m' : Memory} {q q' : RxQueue} {ps : List Ptr}
    (hpass : n.Passes f parser)
    (hp : RxQueue.Published m q (n.describe now parser) f ps m' q') :
    Carries n (n.describe now parser).queueId
      (RxQueue.stamped (n.describe now parser) f ps) f := by
  obtain ⟨hvlan, hip⟩ := Parser.parse_ok hpass.1
  -- at most 512 segments of 2048 bytes, so totalLength does not wrap
  have hsize : f.length < 2 ^ 32 := by
    have h := RxQueue.segmentCount_mul f.length
    have hle := Nat.mul_le_mul_right kPacketBufferSize hp.limit
    unfold kMaxSegments kPacketBufferSize at *
    omega
  refine ⟨⟨parser, hpass⟩, ?_, rfl, ?_, ?_⟩
  · show (UInt32.ofNat f.length).toNat = f.length
    rw [UInt32.toNat_ofNat']
    exact Nat.mod_eq_of_lt hsize
  · rw [← hvlan]
    show (n.describe now parser).vlanId.toNat = _
    unfold describe
    cases n.frameHash parser with
    | none => rfl
    | some hash => rfl
  · rw [show (Parser.parse f {}).1 = parser by rw [hpass.1]]
    show if _ then (n.describe now parser).hash = _ else
      (n.describe now parser).hash = 0 ∧ _
    unfold describe frameHash
    by_cases hon : n.config.rss.enabled = true ∧ f.IsIp
    · rw [if_pos hon, if_pos (by rw [Bool.and_eq_true, hip]; exact hon)]
    · rw [if_neg hon, if_neg (by rw [Bool.and_eq_true, hip]; exact hon)]
      exact ⟨rfl, rfl⟩

namespace Sys

variable {s t : Sys} {a : Op} {e : Event} {es : List Event} {n : VNic}
  {q : UInt16} {d : PacketDescriptor} {f : Frame}

-- ============================================================= history

/-- The frame queue `q` accepted. -/
def Event.acceptedBy (q : UInt16) : Event → List Frame
  | .frame f (.distributed desc (.ok ())) =>
      if desc.queueId = q then [f] else []
  | _ => []

/-- The descriptors `rx(q)` returned, each with its number. -/
def Event.returned (q : UInt16) : Event → List (PacketDescriptor × Nat)
  | .rx queueId ticket (.ok descs) =>
      if queueId = q then descs.zipIdx ticket else []
  | _ => []

/-- The numbers of the descriptors passed to `freeRx`. -/
def Event.freed : Event → List Nat
  | .freeRx _ tickets _ _ => tickets
  | _ => []

/-- What waits in queue `q`. -/
def used (s : Sys) (q : UInt16) : List PacketDescriptor :=
  match s.nic.rxQueues[q.toNat]? with
  | none => []
  | some queue => queue.used_.queue

private theorem mem_live_of_used (h : d ∈ s.used q) : d ∈ s.live := by
  unfold used at h
  cases hq : s.nic.rxQueues[q.toNat]? with
  | none =>
      rw [hq] at h
      cases h
  | some queue =>
      rw [hq] at h
      apply List.mem_append_left
      exact List.mem_flatMap.2 ⟨queue, List.mem_of_getElem? hq, h⟩

private theorem used_of_rxQueues (h : t.nic.rxQueues = s.nic.rxQueues) :
    t.used q = s.used q := by
  unfold used
  rw [h]

private theorem used_eq {queue : RxQueue}
    (hq : s.nic.rxQueues[q.toNat]? = some queue) :
    s.used q = queue.used_.queue := by
  unfold used
  rw [hq]

private theorem used_eq_nil (h : ∀ p ∈ s.nic.rxQueues, p.used_.queue = []) :
    s.used q = [] := by
  unfold used
  split
  · rfl
  · next queue hq => exact h queue (List.mem_of_getElem? hq)

private theorem used_set_self {queue queue' : RxQueue}
    (hq : s.nic.rxQueues[q.toNat]? = some queue)
    (h : t.nic.rxQueues = s.nic.rxQueues.set q.toNat queue') :
    t.used q = queue'.used_.queue := by
  apply used_eq
  rw [h]
  exact List.getElem?_set_self (List.getElem?_eq_some_iff.1 hq).1

private theorem used_set_ne {p : UInt16} {queue' : RxQueue} (hne : p ≠ q)
    (h : t.nic.rxQueues = s.nic.rxQueues.set p.toNat queue') :
    t.used q = s.used q := by
  unfold used
  rw [h, List.getElem?_set_ne fun heq => hne (UInt16.toNat_inj.1 heq)]

-- =========================================================== one queue

/-- What one data-path step does to queue `q`: nothing, return the first
descriptors that wait, or add one that carries a frame. -/
inductive QueueStep (q : UInt16) (s t : Sys) (e : Event) : Prop
  | same : t.used q = s.used q → e.acceptedBy q = [] →
      e.returned q = [] → QueueStep q s t e
  | returned (k : Nat) : t.used q = (s.used q).drop k →
      e.acceptedBy q = [] →
      e.returned q = ((s.used q).take k).zipIdx s.held.next →
      t.mem = s.mem → t.held = s.held.issue ((s.used q).take k) →
      QueueStep q s t e
  | accepted (d : PacketDescriptor) (f : Frame) :
      t.used q = s.used q ++ [d] → e.acceptedBy q = [f] →
      e.returned q = [] → Carries s.nic q d f → Spells t.mem d f →
      QueueStep q s t e

/-- `rx` of another queue leaves this one alone. -/
private theorem step_queue_rx {queueId : UInt16}
    (h : s.step (.rx queueId) = some (t, e)) : QueueStep q s t e := by
  rcases step_rx h with ⟨-, rfl, rfl⟩ | ⟨queue, hq, rfl, rfl⟩
  · exact .same rfl rfl rfl
  · by_cases hp : queueId = q
    · subst hp
      refine .returned kMaxSegments ?_ rfl ?_ rfl ?_
      · rw [used_eq hq, used_set_self hq rfl]
        rfl
      · rw [used_eq hq]
        exact if_pos rfl
      · rw [used_eq hq]
        rfl
    · exact .same (used_set_ne hp rfl) rfl (if_neg hp)

/-- `freeRx` leaves what waits alone, also in its own queue. -/
private theorem step_queue_freeRx {queueId : UInt16} {tickets : List Nat}
    (h : s.step (.freeRx queueId tickets) = some (t, e)) :
    QueueStep q s t e := by
  obtain ⟨⟨descs, r, rfl⟩, rfl | ⟨queue, ds, held, hq, -, rfl⟩⟩ :=
    step_freeRx h
  · exact .same rfl rfl rfl
  · refine .same ?_ rfl rfl
    by_cases hp : queueId = q
    · subst hp
      rw [used_eq hq, used_set_self hq rfl, RxQueue.free_frame]
    · exact used_set_ne hp rfl

/-- A frame lands behind what waits in its queue, or nowhere. -/
private theorem step_queue_pollFrame {malloc : Malloc} {now : UInt64}
    (h : s.step (.pollFrame malloc now) = some (t, e)) :
    QueueStep q s t e := by
  obtain ⟨packet, m, n, verdict, -, hp, rfl, rfl⟩ := step_pollFrame h
  -- only a frame that reached put can change a queue, and then used_ of
  -- its own queue
  cases hp with
  | rejected code => exact .same rfl rfl rfl
  | noQueues _ _ => exact .same rfl rfl rfl
  | outOfRange _ _ _ => exact .same rfl rfl rfl
  | @put parser queue queue' _ r hpass hq hput =>
      rcases RxQueue.put_cases malloc (s.nic.describe now parser) packet
        { s.mem with
          faults := s.mem.faults ++ s.nic.distributeFaults parser } queue
        with ⟨ps, m₁, q₁, heq, hpub⟩ | ⟨code, m₁, q₁, heq, href⟩
      · rw [heq] at hput
        cases hput
        by_cases hp : (s.nic.describe now parser).queueId = q
        · subst hp
          refine .accepted (RxQueue.stamped (s.nic.describe now parser)
            packet ps) packet ?_ (if_pos rfl) rfl (.of_published hpass hpub)
            (.of_published hpub)
          rw [used_eq hq, used_set_self hq rfl, hpub.queue]
          rfl
        · exact .same (used_set_ne hp rfl) (if_neg hp) rfl
      · rw [heq] at hput
        cases hput
        refine .same ?_ rfl rfl
        by_cases hp : (s.nic.describe now parser).queueId = q
        · subst hp
          rw [used_eq hq, used_set_self hq rfl, href.used]
        · exact used_set_ne hp rfl

/-- The events of the remaining steps mention no queue. -/
theorem step_light_event (hop : ¬ a.IsControl) (hrx : ¬ a.TouchesRx)
    (h : s.step a = some (t, e)) :
    e.acceptedBy q = [] ∧ e.returned q = [] ∧ e.freed = [] := by
  -- the calls that touch neither a queue nor the control state announce
  -- nothing of a queue
  cases a with
  | configure _ => exact absurd trivial hop
  | configureRx _ _ => exact absurd trivial hop
  | configureTx _ _ => exact absurd trivial hop
  | start _ => exact absurd trivial hop
  | stop => exact absurd trivial hop
  | rx _ => exact absurd trivial hrx
  | freeRx _ _ => exact absurd trivial hrx
  | pollFrame _ _ => exact absurd trivial hrx
  | pollCheck =>
      obtain ⟨-, -, ⟨-, -, rfl⟩ | ⟨-, rfl⟩⟩ := step_pollCheck h
      · exact ⟨rfl, rfl, rfl⟩
      · exact ⟨rfl, rfl, rfl⟩
  | pollTake alloc =>
      obtain ⟨-, -, -,
        ⟨rfl, rfl⟩ | ⟨frame, rest, -, ⟨rfl, rfl⟩ | ⟨rfl, rfl⟩⟩⟩ :=
        step_pollTake h
      · exact ⟨rfl, rfl, rfl⟩
      · exact ⟨rfl, rfl, rfl⟩
      · exact ⟨rfl, rfl, rfl⟩
  | _ =>
      simp only [step, Option.some.injEq, Prod.mk.injEq] at h
      rw [← h.2]
      exact ⟨rfl, rfl, rfl⟩

/-- What a data-path step does to one queue. -/
theorem step_queue (hop : ¬ a.IsControl) (h : s.step a = some (t, e)) :
    QueueStep q s t e := by
  by_cases hrx : a.TouchesRx
  · cases a with
    | rx queueId => exact step_queue_rx h
    | freeRx queueId tickets => exact step_queue_freeRx h
    | pollFrame malloc now => exact step_queue_pollFrame h
    | _ => exact absurd hrx (fun hno => hno)
  · obtain ⟨hacc, hret, -⟩ := step_light_event hop hrx h
    exact .same (used_of_rxQueues (step_light hop hrx h).rxQueues) hacc hret

/-- A number that is not passed to `freeRx` keeps its descriptor. -/
theorem step_held (hop : ¬ a.IsControl) (h : s.step a = some (t, e))
    {k : Nat} (hk : k < s.held.next) (hfree : k ∉ e.freed) :
    t.held.get k = s.held.get k := by
  by_cases hrx : a.TouchesRx
  · cases a with
    | rx queueId =>
        rcases step_rx h with ⟨-, rfl, -⟩ | ⟨queue, -, rfl, -⟩
        · rfl
        · exact Ledger.get_issue_old s.held _ hk
    | freeRx queueId tickets =>
        obtain ⟨⟨descs, r, rfl⟩, rfl | ⟨queue, ds, held, -, hr, rfl⟩⟩ :=
          step_freeRx h
        · rfl
        · exact Ledger.get_redeem_of_notMem hr hfree
    | pollFrame malloc now =>
        obtain ⟨packet, m, n, verdict, -, -, rfl, -⟩ := step_pollFrame h
        rfl
    | _ => exact absurd hrx (fun hno => hno)
  · rw [(step_light hop hrx h).held]

-- ============================================================ delivers

/-- A descriptor that waits for a frame's reader. -/
def Waits (n : VNic) (q : UInt16) (s : Sys) (d : PacketDescriptor)
    (f : Frame) : Prop :=
  Carries n q d f ∧ Spells s.mem d f

/-- A descriptor that was returned under a number. Until it is passed to
`freeRx` it is held, and spells its frame. -/
def Handed (n : VNic) (q : UInt16) (s : Sys) (es : List Event)
    (r : PacketDescriptor × Nat) (f : Frame) : Prop :=
  Carries n q r.1 f ∧ (r.2 ∉ es.flatMap Event.freed →
    s.held.get r.2 = some r.1 ∧ Spells s.mem r.1 f)

/-- Queue `q` after some events: the frames it accepted are those returned
and those waiting, in order. -/
def Delivers (n : VNic) (q : UInt16) (s : Sys) (es : List Event) : Prop :=
  ∃ delivered waiting,
    es.flatMap (Event.acceptedBy q) = delivered ++ waiting
    ∧ List.Forall₂ (Handed n q s es) (es.flatMap (Event.returned q))
        delivered
    ∧ List.Forall₂ (Waits n q s) (s.used q) waiting

/-- A descriptor that waits goes on waiting as it was. -/
theorem Waits.step (hk : Kept s t) (hs : d ∈ s.live) (ht : d ∈ t.live)
    (h : Waits n q s d f) : Waits n q t d f :=
  ⟨h.1, h.2.congr (hk.chains d ht hs) (List.mem_singleton_self d)⟩

private theorem Waits.step_all {ds : List PacketDescriptor} {fs : List Frame}
    (hk : Kept s t) (hs : ∀ d ∈ ds, d ∈ s.live) (ht : ∀ d ∈ ds, d ∈ t.live)
    (h : List.Forall₂ (Waits n q s) ds fs) :
    List.Forall₂ (Waits n q t) ds fs := by
  have hmem : List.Forall₂ (fun d f => (d ∈ s.live ∧ d ∈ t.live)
      ∧ Waits n q s d f) ds fs :=
    (List.forall₂_and_left ds fs).2 ⟨fun d hd => ⟨hs d hd, ht d hd⟩, h⟩
  exact hmem.imp fun d f hd => hd.2.step hk hd.1.1 hd.1.2

/-- A descriptor that was handed out keeps its bytes until it is freed. -/
theorem Handed.step {r : PacketDescriptor × Nat} (hop : ¬ a.IsControl)
    (hstep : s.step a = some (t, e)) (hk : Kept s t)
    (h : Handed n q s es r f) : Handed n q t (es ++ [e]) r f := by
  refine ⟨h.1, fun hfree => ?_⟩
  rw [List.flatMap_append, List.flatMap_singleton, List.mem_append, not_or]
    at hfree
  obtain ⟨hget, hsp⟩ := h.2 hfree.1
  have hget' := (step_held hop hstep (Ledger.lt_of_get hget) hfree.2).trans
    hget
  refine ⟨hget', hsp.congr (hk.chains r.1 ?_ ?_) (List.mem_singleton_self _)⟩
  · exact List.mem_append_right _ (Ledger.mem_values_of_get hget')
  · exact List.mem_append_right _ (Ledger.mem_values_of_get hget)

/-- Descriptors handed out in one batch get consecutive numbers. -/
theorem Handed.of_issue {ds : List PacketDescriptor} {fs : List Frame}
    (h : List.Forall₂ (Waits n q t) ds fs) :
    ∀ {k : Nat}, (∀ i < ds.length, t.held.get (k + i) = ds[i]?) →
      List.Forall₂ (Handed n q t es) (ds.zipIdx k) fs := by
  induction h with
  | nil => exact fun _ => .nil
  | @cons d f ds fs hd _ ih =>
      intro k hget
      rw [List.zipIdx_cons]
      refine .cons ⟨hd.1, fun _ => ⟨?_, hd.2⟩⟩ (ih fun i hi => ?_)
      · exact hget 0 (by simp)
      · have hi' := hget (i + 1) (by simpa using hi)
        rw [List.getElem?_cons_succ] at hi'
        rw [← hi']
        congr 1
        omega

/-- One more step delivers in order what the steps before have left. -/
theorem Delivers.step (hi : Inv s) (hop : ¬ a.IsControl)
    (hstep : s.step a = some (t, e)) (hc : s.nic.config = n.config)
    (hm : s.nic.macAddr = n.macAddr) (h : Delivers n q s es) :
    Delivers n q t (es ++ [e]) := by
  obtain ⟨delivered, waiting, hacc, hdel, hwait⟩ := h
  have hk := step_custody hop hi.owners hstep
  have hdel' := hdel.imp fun r f hr => Handed.step hop hstep hk hr
  unfold Delivers
  simp only [List.flatMap_append, List.flatMap_singleton]
  -- what waits before and after the step keeps its chain
  have hkeep : ∀ {ds : List PacketDescriptor} {fs : List Frame},
      ds ⊆ s.used q → ds ⊆ t.used q →
      List.Forall₂ (Waits n q s) ds fs → List.Forall₂ (Waits n q t) ds fs :=
    fun hs ht => Waits.step_all hk (fun d hd => mem_live_of_used (hs hd))
      fun d hd => mem_live_of_used (ht hd)
  cases step_queue (q := q) hop hstep with
  | same hused ha hr =>
      refine ⟨delivered, waiting, by rw [hacc, ha, List.append_nil],
        by rw [hr, List.append_nil]; exact hdel', ?_⟩
      have hsub : s.used q ⊆ t.used q := by
        rw [hused]
        exact List.Subset.refl _
      rw [hused]
      exact hkeep (List.Subset.refl _) hsub hwait
  | returned k hused ha hr hmem hheld =>
      have hwait' : List.Forall₂ (Waits n q t) (s.used q) waiting := by
        unfold Waits
        rw [hmem]
        exact hwait
      refine ⟨delivered ++ waiting.take k, waiting.drop k, ?_, ?_, ?_⟩
      · rw [hacc, ha, List.append_nil, List.append_assoc,
          List.take_append_drop]
      · rw [hr]
        refine List.rel_append hdel' (Handed.of_issue
          (List.forall₂_take k hwait') fun i hi => ?_)
        rw [hheld]
        exact Ledger.get_issue_new s.held _ hi
      · rw [hused]
        exact List.forall₂_drop k hwait'
  | accepted d f hused ha hr hcar hsp =>
      refine ⟨delivered, waiting ++ [f], by rw [hacc, ha, List.append_assoc],
        by rw [hr, List.append_nil]; exact hdel', ?_⟩
      rw [hused]
      refine List.rel_append (hkeep (List.Subset.refl _) ?_ hwait)
        (.cons ⟨hcar.congr hc.symm hm.symm, hsp⟩ .nil)
      rw [hused]
      exact List.subset_append_left _ _

-- ============================================================== period

/-- `start` succeeds on a port where nothing waits and no frame is in
hand. -/
theorem started_fresh (hi : Inv s) {env : StartEnv}
    (h : s.step (.start env) = some (t, .start (.ok ()))) :
    (∀ q, t.used q = []) ∧ t.inFlight = none := by
  simp only [step, Option.some.injEq, Prod.mk.injEq] at h
  obtain ⟨rfl, hr⟩ := h
  rcases start_cases env s.mem s.nic with
    ⟨-, heq⟩ | ⟨hc, m', rx, tx, hmoved, ⟨-, heq⟩ | ⟨-, e, heq⟩⟩
  · rw [pair, heq] at hr
    cases hr
  · have hst : s.nic.state ≠ .started := by
      rw [hc]
      intro hno
      cases hno
    -- no queue runs before `start`, and control calls add nothing
    have hbefore : ∀ q ∈ s.nic.rxQueues, q.used_.queue = [] :=
      fun q hq => hi.quiet q hq ((hi.agrees.down hst).2.1 q hq)
    have hafter : ∀ q ∈ rx, q.used_.queue = [] := by
      apply hmoved.rx.forall_mem (fun hcall hq => ?_) hbefore
      rcases hcall.used with hu | hu
      · rw [hu]
        exact hq
      · exact hu
    rw [pair, heq]
    refine ⟨fun q => ?_, ?_⟩
    · exact used_eq_nil hafter
    · by_contra hf
      exact hst (hi.busy hf)
  · rw [pair, heq] at hr
    cases hr

/-- Nothing waits, nothing was delivered. -/
theorem Delivers.init (h : s.used q = []) : Delivers n q s [] := by
  refine ⟨[], [], rfl, .nil, ?_⟩
  rw [h]
  exact .nil

/-- Over a whole period the queue delivers in order what it accepts. -/
theorem Delivers.run {as : List Op} (hi : Inv s) (h : s.used q = [])
    (hdata : ∀ a ∈ as, ¬ a.IsControl)
    (hrun : sys.run s as = some (t, es)) : Delivers s.nic q t es := by
  have hend := sys.run_history_along (G := fun _ a _ => ¬ a.IsControl)
    (P := fun u fs => Inv u ∧ u.nic.config = s.nic.config
      ∧ u.nic.macAddr = s.nic.macAddr ∧ Delivers s.nic q u fs)
    (fun {_ _ _ _ _} hP hs hop => by
      obtain ⟨hu, hc, hm, hd⟩ := hP
      have hshape := step_sameShape hop hs
      exact ⟨hu.step hs, hshape.config.trans hc, hshape.macAddr.trans hm,
        hd.step hu hop hs hc hm⟩)
    (sys.along_of_forall hdata s) hrun [] ⟨hi, rfl, rfl, .init h⟩
  rw [List.nil_append] at hend
  exact hend.2.2.2

private theorem Event.acceptedBy_sublist (q : UInt16) (e : Event) :
    (e.acceptedBy q).Sublist e.completed := by
  unfold acceptedBy
  split
  · next f desc =>
      split
      · exact List.Sublist.refl _
      · exact List.nil_sublist _
  · exact List.nil_sublist _

/-- A frame that `takeRx` answered was removed from the pipe. -/
theorem Event.taken_sublist (e : Event) : e.taken.Sublist e.dequeued := by
  cases e with
  | pollTaken f => exact List.Sublist.refl _
  | _ => exact List.nil_sublist _

/-- The receive pipeline of a started port, at every moment of every
interleaving of data-path steps. Frames are dequeued in the order they
entered the link, and completed in the order they were taken. For every
queue, the descriptors `rx` returned and those in `used_` are, in order,
the frames the queue accepted. -/
theorem rx_pipeline {blocks : Blocks} {as bs : List Op} {s₀ : Sys}
    {fs : List Event} {env : StartEnv}
    (hrun : sys.run (init blocks) as = some (s, fs))
    (hstart : s.step (.start env) = some (s₀, .start (.ok ())))
    (hdata : ∀ a ∈ bs, ¬ a.IsControl)
    (hperiod : sys.run s₀ bs = some (t, es)) :
    s₀.pipe ++ es.flatMap Event.injected
      = es.flatMap Event.dequeued ++ t.pipe
    ∧ (es.flatMap Event.taken).Sublist (es.flatMap Event.dequeued)
    ∧ es.flatMap Event.taken
      = es.flatMap Event.completed ++ t.inFlight.toList
    ∧ ∀ q, (es.flatMap (Event.acceptedBy q)).Sublist
        (es.flatMap Event.completed)
      ∧ ∃ delivered waiting,
        es.flatMap (Event.acceptedBy q) = delivered ++ waiting
        ∧ List.Forall₂ (fun r f => Carries s₀.nic q r.1 f
            ∧ (r.2 ∉ es.flatMap Event.freed →
              t.mem.contents r.1.buffer = f))
          (es.flatMap (Event.returned q)) delivered
        ∧ List.Forall₂ (fun d f => Carries s₀.nic q d f
            ∧ t.mem.contents d.buffer = f) (t.used q) waiting := by
  have hi₀ : Inv s₀ := (Inv.run hrun).step hstart
  obtain ⟨hempty, hnone⟩ := started_fresh (Inv.run hrun) hstart
  -- a period opens with no frame in the poll thread's hands
  have htaken := run_taken hi₀ hperiod
  rw [hnone] at htaken
  refine ⟨run_pipe hperiod,
    List.Sublist.flatMap_right es fun e _ => e.taken_sublist, htaken,
    fun q => ⟨List.Sublist.flatMap_right es
      fun e _ => e.acceptedBy_sublist q, ?_⟩⟩
  obtain ⟨delivered, waiting, hacc, hdel, hwait⟩ :=
    Delivers.run hi₀ (hempty q) hdata hperiod
  refine ⟨delivered, waiting, hacc, hdel.imp fun r f hr => ?_,
    hwait.imp fun d f hd => ⟨hd.1, hd.2.contents⟩⟩
  exact ⟨hr.1, fun hfree => (hr.2 hfree).2.contents⟩

/-- A UDP datagram over IPv4 in VLAN 5. -/
def taggedFrame : Frame :=
  List.replicate 12 0 ++ [0x81, 0x00, 0x00, 0x05, 0x08, 0x00, 0x45, 0x00,
    0x00, 0x2e, 0x00, 0x00, 0x00, 0x00, 0x40, 0x11, 0x66, 0xbd, 10, 0, 0, 1,
    10, 0, 0, 2, 0, 1, 0, 2] ++ List.replicate 22 0

/-- A promiscuous port that spreads frames over two queues. -/
def twoQueues : VNic.Config :=
  { promiscuousEnabled := true
    rxQueueCount := 2
    rss :=
      { enabled := true
        hf := .simpleXor
        protocol := 31
        key := List.replicate 40 0
        reta := [0] } }

/-- Up to `start`. -/
def readied : List Op :=
  [.configure twoQueues, .configureRx 0 { size := 1 },
    .configureRx 1 { size := 1 }]

/-- The table is replaced while the frame waits in the link. -/
def oneTaggedFrame : List Op :=
  [.setUp true, .putRx true taggedFrame, .updateReta [1], .pollCheck,
    .pollTake true, .pollFrame .bump 0, .rx 1]

/-- The tagged frame reaches queue 1, whose reader holds it. -/
theorem rx_pipeline_taggedFrame :
    ∃ s fs s₀ t es d, sys.run (init ∅) readied = some (s, fs)
      ∧ s.step (.start {}) = some (s₀, .start (.ok ()))
      ∧ sys.run s₀ oneTaggedFrame = some (t, es)
      ∧ es.flatMap (Event.returned 1) = [(d, 0)]
      ∧ Carries s₀.nic 1 d taggedFrame
      ∧ t.mem.contents d.buffer = taggedFrame := by
  have heval : ((sys.run (init ∅) readied).bind fun p =>
      (p.1.step (.start {})).bind fun p₀ =>
        (sys.run p₀.1 oneTaggedFrame).map fun p' =>
          (p₀.2, (p'.2.flatMap (Event.returned 1)).map Prod.snd,
            p'.2.flatMap (Event.acceptedBy 1), (p'.1.used 1).length,
            p'.2.flatMap Event.freed))
      = some (.start (.ok ()), [0], [taggedFrame], 0, []) := by
    decide +kernel
  obtain ⟨⟨s, fs⟩, hrun, heval⟩ := Option.bind_eq_some_iff.1 heval
  obtain ⟨⟨s₀, e₀⟩, hstart, heval⟩ := Option.bind_eq_some_iff.1 heval
  obtain ⟨⟨t, es⟩, hperiod, heval⟩ := Option.map_eq_some_iff.1 heval
  simp only [Prod.mk.injEq] at heval
  obtain ⟨rfl, hret, hacc, hused, hfreed⟩ := heval
  have hdata : ∀ a ∈ oneTaggedFrame, ¬ a.IsControl := by
    simp [oneTaggedFrame, Op.IsControl]
  obtain ⟨-, delivered, waiting, hsplit, hdel, hwait⟩ :=
    (rx_pipeline hrun hstart hdata hperiod).2.2.2 1
  rw [List.eq_nil_of_length_eq_zero hused] at hwait
  cases hwait
  rw [hacc, List.append_nil] at hsplit
  rw [← hsplit] at hdel
  obtain ⟨⟨d, k⟩, hd⟩ : ∃ r, es.flatMap (Event.returned 1) = [r] :=
    List.length_eq_one_iff.1 hdel.length_eq
  rw [hd] at hret hdel
  cases hret
  obtain ⟨hcar, hcontents⟩ := (List.forall₂_cons.1 hdel).1
  refine ⟨s, fs, s₀, t, es, d, hrun, hstart, hperiod, hd, hcar,
    hcontents ?_⟩
  -- nothing was freed in this period
  rw [hfreed]
  exact List.not_mem_nil

end Sys

end Vnic
