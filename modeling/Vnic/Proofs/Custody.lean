/-
Who holds which descriptor in a port, over every run.

A descriptor that may still be dereferenced waits in the `used_` of some
RX queue or is held by the application (`live`). `Inv` says that their
chains are live blocks, pairwise disjoint, across all queues, whatever
control calls come in between: a queue that is stopped or destroyed
releases what waits in it and nothing the application holds.

`step_custody` adds what the pipeline needs: no data-path step changes
the chain of a descriptor that stays live.

# The shape of the proof

`Owners` is about a list of descriptors and does not care who has them,
so a step that moves a descriptor from a queue to the application is a
permutation. What is left are the steps that make a chain or release one:
`put`, `freeRx`, and the control calls, whose walks over the queues are
taken from `Rows`.
-/
import Vnic.Proofs.Control

namespace Vnic

open Row VNic

variable {m m' : Memory} {ds : List PacketDescriptor}

-- ====================================================== rows of queues

/-- What waits in a row of queues. -/
def waiting (rx : List RxQueue) : List PacketDescriptor :=
  rx.flatMap fun q => q.used_.queue

/-- What waits in one queue, and the rest. -/
theorem waiting_perm (pre post : List RxQueue) (q : RxQueue)
    (ds : List PacketDescriptor) :
    (waiting (pre ++ q :: post) ++ ds).Perm
      (q.used_.queue ++ (waiting (pre ++ post) ++ ds)) := by
  simp only [waiting, List.flatMap_append, List.flatMap_cons,
    List.append_assoc]
  rw [← List.append_assoc, ← List.append_assoc q.used_.queue]
  exact List.perm_append_comm.append_right _

theorem waiting_eq_nil {rx : List RxQueue}
    (h : ∀ q ∈ rx, q.used_.queue = []) : waiting rx = [] :=
  List.flatMap_eq_nil_iff.2 h

/-- Control calls along a row release only what the queues hold. -/
theorem walk_owners {rx rx' : List RxQueue}
    (h : Walk RxQueue.Control m rx m' rx')
    (ho : Owners m (waiting rx ++ ds)) :
    Owners m' (waiting rx' ++ ds) ∧ SameChains m m' ds := by
  refine h.keeps (I := fun m₁ rx₁ =>
    Owners m₁ (waiting rx₁ ++ ds) ∧ SameChains m m₁ ds) ?_
    ⟨ho, SameChains.of_blocks rfl⟩
  intro m₁ m₂ pre post q q' hc hI
  obtain ⟨ho₁, hsame⟩ := hI
  obtain ⟨ho₂, hsame₂⟩ := hc.owners
    (ho₁.of_perm (waiting_perm pre post q ds))
  refine ⟨ho₂.of_perm (waiting_perm pre post q' ds).symm,
    hsame.trans (hsame₂.mono ?_)⟩
  exact List.subset_append_right _ _

namespace Sys

variable {s t : Sys} {a : Op} {e : Event}

/-- The descriptors that may still be dereferenced. -/
def live (s : Sys) : List PacketDescriptor :=
  waiting s.nic.rxQueues ++ s.held.values

-- ============================================================= owners

private theorem configure_owners (config : VNic.Config)
    (ho : Owners s.mem s.live) :
    Owners (s.withPair (VNic.configure config s.pair).1).mem
        (s.withPair (VNic.configure config s.pair).1).live
      ∧ SameChains s.mem (s.withPair (VNic.configure config s.pair).1).mem
        s.held.values := by
  have hid : SameChains s.mem s.mem s.held.values := SameChains.of_blocks rfl
  rcases configure_cases config s.mem s.nic with
    ⟨-, heq⟩ | ⟨-, -, heq⟩ | ⟨-, -, mac, reta, -, heq⟩
  · rw [pair, heq]
    exact ⟨ho, hid⟩
  · rw [pair, heq]
    exact ⟨ho, hid⟩
  · rw [pair, heq]
    have hfresh : waiting (List.replicate config.rxQueueCount.toNat {})
        = [] := by
      apply waiting_eq_nil
      intro q hq
      rw [List.eq_of_mem_replicate hq]
    have hd : Owners (destroyRx s.nic.rxQueues s.mem) s.held.values ∧ _ :=
      destroyRx_owners ho
    refine ⟨?_, hd.2⟩
    show Owners _ (waiting (List.replicate config.rxQueueCount.toNat {})
      ++ s.held.values)
    rw [hfresh]
    exact hd.1

/-- A control call keeps what the application holds. -/
theorem step_control_custody (hop : a.IsControl)
    (ho : Owners s.mem s.live) (h : s.step a = some (t, e)) :
    Owners t.mem t.live ∧ SameChains s.mem t.mem s.held.values := by
  rcases step_control hop h with ⟨config, -, rfl, -⟩ | hs
  · exact configure_owners config ho
  · obtain ⟨m, st, rx, tx, thread, hmoved, rfl⟩ := hs
    exact walk_owners hmoved.rx ho

/-- What a data-path step keeps: the owners, and the chain of whatever
stays live. -/
structure Kept (s t : Sys) : Prop where
  owners : Owners t.mem t.live
  chains : ∀ d ∈ t.live, d ∈ s.live → SameChains s.mem t.mem [d]

/-- A step that leaves the heap alone keeps every chain. -/
theorem Kept.of_blocks (ho : Owners s.mem s.live)
    (hm : t.mem.blocks = s.mem.blocks) (hp : s.live.Perm t.live) :
    Kept s t :=
  ⟨(ho.of_perm hp).of_blocks hm, fun _ _ _ => SameChains.of_blocks hm⟩

private theorem Kept.of_same (ho : Owners s.mem s.live) (hm : t.mem = s.mem)
    (hrx : t.nic.rxQueues = s.nic.rxQueues) (hheld : t.held = s.held) :
    Kept s t := by
  apply Kept.of_blocks ho (by rw [hm])
  unfold live
  rw [hrx, hheld]

/-- `rx` moves descriptors from a queue to the application. -/
theorem Kept.rx {i : Nat} {q : RxQueue} (ho : Owners s.mem s.live)
    (hq : s.nic.rxQueues[i]? = some q) :
    Kept s { s with
      nic := { s.nic with rxQueues := s.nic.rxQueues.set i q.take.2 }
      held := s.held.issue q.take.1 } := by
  refine .of_blocks ho rfl ?_
  obtain ⟨pre, post, -, hrow, hset⟩ := split_at hq
  have hsplit := (take_frame q).1
  show (waiting s.nic.rxQueues ++ s.held.values).Perm
    (waiting (s.nic.rxQueues.set i q.take.2)
      ++ (s.held.issue q.take.1).values)
  rw [hset, Ledger.issue_values, hrow]
  apply (waiting_perm pre post q _).trans
  refine List.Perm.trans ?_ (waiting_perm pre post q.take.2 _).symm
  rw [← hsplit, List.append_assoc]
  apply List.perm_append_comm.trans
  simp only [List.append_assoc, List.Perm.refl]

/-- `freeRx` releases what it is given. -/
theorem Kept.freeRx {i : Nat} {q : RxQueue} {tickets : List Nat}
    {descs : List PacketDescriptor} {held : Ledger PacketDescriptor}
    (ho : Owners s.mem s.live) (hq : s.nic.rxQueues[i]? = some q)
    (hr : s.held.redeem tickets = some (descs, held)) :
    Kept s { s with
      mem := (RxQueue.free descs (s.mem, q)).1.1
      nic := { s.nic with
        rxQueues := s.nic.rxQueues.set i
          (RxQueue.free descs (s.mem, q)).1.2 }
      held := held } := by
  obtain ⟨ho', hsame, hused⟩ := RxQueue.free_owners q
    (ho.of_perm (Ledger.redeem_perm_append hr (waiting s.nic.rxQueues)))
  have hwait : waiting (s.nic.rxQueues.set i
      (RxQueue.free descs (s.mem, q)).1.2) = waiting s.nic.rxQueues := by
    obtain ⟨pre, post, -, hrow, hset⟩ := split_at hq
    rw [hset, hrow]
    simp only [waiting, List.flatMap_append, List.flatMap_cons, hused]
  refine ⟨?_, fun d hd _ => ?_⟩
  · show Owners _ (waiting (s.nic.rxQueues.set i _) ++ held.values)
    rw [hwait]
    exact ho'
  · have hd' : d ∈ waiting (s.nic.rxQueues.set i
        (RxQueue.free descs (s.mem, q)).1.2) ++ held.values := hd
    rw [hwait] at hd'
    exact hsame.mono (by simpa using hd')

/-- `put` adds a descriptor over fresh blocks, or nothing. -/
theorem Kept.put {i : Nat} {q q' : RxQueue} {m m' : Memory} {n : VNic}
    {malloc : Malloc} {desc : PacketDescriptor} {packet : Frame} {r : Res}
    {flight : Option Frame} (ho : Owners s.mem s.live)
    (hq : s.nic.rxQueues[i]? = some q)
    (hput : RxQueue.put malloc desc packet (m, q) = ((m', q'), r))
    (hm : m.blocks = s.mem.blocks)
    (hrx : n.rxQueues = s.nic.rxQueues.set i q') :
    Kept s { s with mem := m', nic := n, inFlight := flight } := by
  obtain ⟨pre, post, -, hrow, hset⟩ := split_at hq
  have hperm := waiting_perm pre post q s.held.values
  rw [← hrow] at hperm
  have hom : Owners m _ := (ho.of_perm hperm).of_blocks hm
  obtain ⟨ho', hsame⟩ := RxQueue.put_owners malloc desc packet hom hput
  refine ⟨?_, fun d _ hd => ?_⟩
  · show Owners m' (waiting n.rxQueues ++ s.held.values)
    rw [hrx, hset]
    exact ho'.of_perm (waiting_perm pre post q' s.held.values).symm
  · refine (SameChains.of_blocks hm).trans (hsame.mono ?_)
    have hd' := hperm.mem_iff.1 hd
    intro x hx
    rw [List.mem_singleton.1 hx]
    exact hd'

/-- A data-path step keeps the chains that are live on both sides. -/
theorem step_custody (hop : ¬ a.IsControl) (ho : Owners s.mem s.live)
    (h : s.step a = some (t, e)) : Kept s t := by
  by_cases hrx : a.TouchesRx
  · cases a with
    | rx queueId =>
        rcases step_rx h with ⟨-, rfl, -⟩ | ⟨q, hq, rfl, -⟩
        · exact .of_same ho rfl rfl rfl
        · exact .rx ho hq
    | freeRx queueId tickets =>
        rcases (step_freeRx h).2 with rfl | ⟨q, descs, held, hq, hr, rfl⟩
        · exact .of_same ho rfl rfl rfl
        · exact .freeRx ho hq hr
    | pollFrame malloc now =>
        obtain ⟨packet, m, n, verdict, -, hp, rfl, -⟩ := step_pollFrame h
        cases hp with
        | rejected e => exact .of_same ho rfl rfl rfl
        | noQueues _ _ => exact .of_same ho rfl rfl rfl
        | outOfRange _ _ _ => exact .of_blocks ho rfl (.refl _)
        | put _ hq hput => exact .put ho hq hput rfl rfl
    | _ => exact absurd hrx (fun hno => hno)
  · have hl := step_light hop hrx h
    exact .of_same ho hl.mem hl.rxQueues hl.held

-- ======================================================= the invariant

/-- The invariant of a port in use. -/
structure Inv (s : Sys) : Prop where
  agrees : Agrees s.nic
  table : TableOk s.nic
  owners : Owners s.mem s.live
  quiet : ∀ q ∈ s.nic.rxQueues, q.Quiet
  busy : s.inFlight ≠ none → s.nic.state = .started
  pipe : ∀ f ∈ s.pipe, f ≠ []

theorem Inv.init (blocks : Blocks) : Inv (init blocks) where
  agrees := agrees_init blocks
  table := tableOk_init blocks
  owners := Linked.Separate.nil
  quiet := fun q hq => (by cases hq)
  busy := fun h => absurd rfl h
  pipe := fun f hf => (by cases hf)

private theorem Inv.owners_step (hi : Inv s) (h : s.step a = some (t, e)) :
    Owners t.mem t.live := by
  by_cases hop : a.IsControl
  · exact (step_control_custody hop hi.owners h).1
  · exact (step_custody hop hi.owners h).owners

/-- A queue that changes in place and stays quiet. -/
private theorem quiet_set {rx : List RxQueue} {i : Nat} {q q' : RxQueue}
    (h : ∀ q ∈ rx, q.Quiet) (hq : rx[i]? = some q)
    (hquiet : q.Quiet → q'.Quiet) : ∀ p ∈ rx.set i q', p.Quiet := by
  intro p hp
  rcases List.mem_or_eq_of_mem_set hp with hp | rfl
  · exact h p hp
  · exact hquiet (h q (List.mem_of_getElem? hq))

/-- Queues that are not started stay empty: only a started one is put to. -/
private theorem Inv.quiet_step (hi : Inv s) (h : s.step a = some (t, e)) :
    ∀ q ∈ t.nic.rxQueues, q.Quiet := by
  by_cases hop : a.IsControl
  · rcases step_control hop h with ⟨config, -, rfl, -⟩ | hs
    · rcases configure_cases config s.mem s.nic with
        ⟨-, heq⟩ | ⟨-, -, heq⟩ | ⟨-, -, mac, reta, -, heq⟩
      · rw [pair, heq]
        exact hi.quiet
      · rw [pair, heq]
        exact hi.quiet
      · rw [pair, heq]
        intro q hq _
        rw [List.eq_of_mem_replicate hq]
    · obtain ⟨m, st, rx, tx, thread, hmoved, rfl⟩ := hs
      exact hmoved.rx.forall_mem (fun hc hq => hc.quiet hq) hi.quiet
  · by_cases hrx : a.TouchesRx
    · cases a with
      | rx queueId =>
          rcases step_rx h with ⟨-, rfl, -⟩ | ⟨q, hq, rfl, -⟩
          · exact hi.quiet
          · apply quiet_set hi.quiet hq
            intro hquiet hst
            exact (List.append_eq_nil_iff.1
              ((take_frame q).1.trans (hquiet hst))).2
      | freeRx queueId tickets =>
          rcases (step_freeRx h).2 with rfl | ⟨q, ds, held, hq, -, rfl⟩
          · exact hi.quiet
          · apply quiet_set hi.quiet hq
            intro hquiet hst
            rw [RxQueue.free_frame] at hst ⊢
            exact hquiet hst
      | pollFrame malloc now =>
          obtain ⟨packet, m, n, verdict, hf, hp, rfl, -⟩ := step_pollFrame h
          -- the poll thread works, so every queue is started
          have hup := (hi.agrees.up (hi.busy (by rw [hf]; simp))).2.1
          cases hp with
          | rejected e => exact hi.quiet
          | noQueues _ _ => exact hi.quiet
          | outOfRange _ _ _ => exact hi.quiet
          | @put _ q _ _ _ _ hq hput =>
              apply quiet_set hi.quiet hq
              intro _ hst
              rw [(RxQueue.put_setup _ _ _ hput).state] at hst
              exact absurd (hup q (List.mem_of_getElem? hq)) hst
      | _ => exact absurd hrx (fun hno => hno)
    · rw [(step_light hop hrx h).rxQueues]
      exact hi.quiet

/-- A frame is in flight on a started port only, as `stop` waits. -/
private theorem Inv.busy_step (hi : Inv s) (h : s.step a = some (t, e))
    (hf : t.inFlight ≠ none) : t.nic.state = .started := by
  have hflight := (step_traffic h).flight hi.pipe
  by_cases hop : a.IsControl
  · -- no control call gives `poll` a frame
    have hidle := (step_control_event hop h).idle
    rw [hidle.taken, hidle.completed, List.append_nil, List.nil_append]
      at hflight
    have hsf : s.inFlight ≠ none := by
      intro hnone
      rw [hnone] at hflight
      exact hf (Option.toList_eq_nil_iff.1 hflight.symm)
    rcases step_control_started hop (hi.busy hsf) h with rfl | hnone
    · exact hi.busy hf
    · exact absurd hnone hsf
  · rw [(step_sameShape hop h).state]
    by_cases htaken : e.taken = []
    · apply hi.busy
      intro hnone
      rw [hnone, htaken] at hflight
      have hnil := (List.append_eq_nil_iff.1 hflight.symm).2
      exact hf (Option.toList_eq_nil_iff.1 hnil)
    · by_contra hst
      have hthread := (step_traffic h).thread htaken
      rw [(hi.agrees.down hst).1] at hthread
      cases hthread

/-- No empty frame gets into the pipe. -/
private theorem Inv.pipe_step (hi : Inv s) (h : s.step a = some (t, e)) :
    ∀ f ∈ t.pipe, f ≠ [] := by
  intro f hf
  have ht := step_traffic h
  have hmem : f ∈ s.pipe ++ e.injected := by
    rw [ht.pipe]
    exact List.mem_append_right _ hf
  rcases List.mem_append.1 hmem with hmem | hmem
  · exact hi.pipe f hmem
  · exact ht.injected f hmem

/-- The invariant is kept by every step. -/
theorem Inv.step (hi : Inv s) (h : s.step a = some (t, e)) : Inv t where
  agrees := step_agrees hi.agrees h
  table := step_tableOk hi.table h
  owners := hi.owners_step h
  quiet := hi.quiet_step h
  busy := hi.busy_step h
  pipe := hi.pipe_step h

/-- Every port that has been used in any way is in order. -/
theorem Inv.run {blocks : Blocks} {as : List Op} {es : List Event}
    (hrun : sys.run (Sys.init blocks) as = some (t, es)) : Inv t :=
  sys.run_invariant (fun hi hs => hi.step hs) (Inv.init blocks) hrun

-- ======================================================== traffic, runs

/-- Frames leave the RX pipe in the order they entered it. -/
theorem run_pipe {as : List Op} {es : List Event}
    (hrun : sys.run s as = some (t, es)) :
    s.pipe ++ es.flatMap Event.injected
      = es.flatMap Event.dequeued ++ t.pipe := by
  refine sys.run_history (P := fun u fs => s.pipe
      ++ fs.flatMap Event.injected = fs.flatMap Event.dequeued ++ u.pipe)
    (fun {_ _ _ e fs} hP hs => ?_) (by simp) hrun
  simp only [List.flatMap_append, List.flatMap_singleton]
  rw [← List.append_assoc, hP, List.append_assoc, (step_traffic hs).pipe,
    List.append_assoc]

/-- What `takeRx` handed to `poll` is what was completed and, at most, the
frame in hand. -/
theorem run_taken (hi : Inv s) {as : List Op} {es : List Event}
    (hrun : sys.run s as = some (t, es)) :
    s.inFlight.toList ++ es.flatMap Event.taken
      = es.flatMap Event.completed ++ t.inFlight.toList := by
  have h := sys.run_history (P := fun u fs => Inv u
      ∧ s.inFlight.toList ++ fs.flatMap Event.taken
        = fs.flatMap Event.completed ++ u.inFlight.toList)
    (fun {_ _ _ e fs} hP hs => by
      refine ⟨hP.1.step hs, ?_⟩
      simp only [List.flatMap_append, List.flatMap_singleton]
      rw [← List.append_assoc, hP.2, List.append_assoc,
        (step_traffic hs).flight hP.1.pipe, List.append_assoc])
    ⟨hi, by simp⟩ hrun
  exact h.2

end Sys

end Vnic
