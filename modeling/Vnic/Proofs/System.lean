/-
What one step of a port can do.

The control calls are the five that move the lifecycle. A
`configure(config)` replaces everything; the other four move queues along
their own lifecycles (`step_control`). All other steps keep the shape of
the port (`SameShape`): its state, its thread, its configuration and the
state of every queue. Of those, only three touch an RX queue
(`pollFrame`, `rx`, `freeRx`); their inversion lemmas are here too.

`Traffic` follows the frames: the RX pipe of the link is a queue, and
`poll` has at most one frame in hand.
-/
import Vnic.System
import Vnic.Proofs.Port
import Vnic.Proofs.DataPath

namespace Vnic.Sys

open Row VNic

variable {s t : Sys} {a : Op} {e : Event}

-- =============================================================== steps

/-- The calls that move the lifecycle. -/
def Op.IsControl : Op → Prop
  | .configure _ => True
  | .configureRx _ _ => True
  | .configureTx _ _ => True
  | .start _ => True
  | .stop => True
  | _ => False

/-- The answers of the control calls. -/
def Event.IsControl : Event → Prop
  | .configure _ => True
  | .configureRx _ => True
  | .configureTx _ => True
  | .start _ => True
  | .stop _ => True
  | _ => False

/-- What only the control calls change. The table may be replaced by one
that `updateReta` checked. -/
structure SameShape (s t : Sys) : Prop where
  state : t.nic.state = s.nic.state
  thread : t.nic.thread = s.nic.thread
  config : t.nic.config = s.nic.config
  macAddr : t.nic.macAddr = s.nic.macAddr
  reta : t.nic.reta = s.nic.reta
    ∨ GoodReta s.nic.config.rxQueueCount t.nic.reta
  rxStates : t.nic.rxQueues.map RxQueue.state
    = s.nic.rxQueues.map RxQueue.state
  txStates : t.nic.txQueues.map TxQueue.state
    = s.nic.txQueues.map TxQueue.state

/-- `updateReta` keeps the old table or installs a good one. -/
theorem step_updateReta {reta : Reta}
    (h : s.step (.updateReta reta) = some (t, e)) :
    ∃ reta' r, t = { s with nic := { s.nic with reta := reta' } }
      ∧ e = .updateReta r
      ∧ (reta' = s.nic.reta ∨ GoodReta s.nic.config.rxQueueCount reta') := by
  simp only [step, Option.some.injEq, Prod.mk.injEq] at h
  obtain ⟨rfl, rfl⟩ := h
  rcases updateReta_cases reta s.nic with ⟨e, hu⟩ | ⟨hgood, hu⟩
  · rw [hu]
    exact ⟨s.nic.reta, _, rfl, rfl, Or.inl rfl⟩
  · rw [hu]
    exact ⟨reta, _, rfl, rfl, Or.inr hgood⟩

/-- What `rx` does to the state. -/
theorem step_rx {queueId : UInt16}
    (h : s.step (.rx queueId) = some (t, e)) :
    (s.nic.rxQueues[queueId.toNat]? = none ∧ t = s
      ∧ e = .rx queueId s.held.next (.error .queueInvalidId))
    ∨ ∃ q, s.nic.rxQueues[queueId.toNat]? = some q
      ∧ t = { s with
          nic := { s.nic with
            rxQueues := s.nic.rxQueues.set queueId.toNat q.take.2 }
          held := s.held.issue q.take.1 }
      ∧ e = .rx queueId s.held.next (.ok q.take.1) := by
  unfold step at h
  rcases rx_cases queueId s.nic with ⟨hq, hrx⟩ | ⟨q, hq, hrx⟩
  · simp only [hrx, Option.some.injEq, Prod.mk.injEq] at h
    obtain ⟨rfl, rfl⟩ := h
    exact Or.inl ⟨hq, rfl, rfl⟩
  · simp only [hrx, Option.some.injEq, Prod.mk.injEq] at h
    obtain ⟨rfl, rfl⟩ := h
    exact Or.inr ⟨q, hq, rfl, rfl⟩

/-- What `freeRx` does: it gives nothing back, or releases what the ledger
has under the numbers. -/
theorem step_freeRx {queueId : UInt16} {tickets : List Nat}
    (h : s.step (.freeRx queueId tickets) = some (t, e)) :
    (∃ descs r, e = .freeRx queueId tickets descs r)
    ∧ (t = s
    ∨ ∃ q descs held, s.nic.rxQueues[queueId.toNat]? = some q
      ∧ s.held.redeem tickets = some (descs, held)
      ∧ t = { s with
          mem := (RxQueue.free descs (s.mem, q)).1.1
          nic := { s.nic with
            rxQueues := s.nic.rxQueues.set queueId.toNat
              (RxQueue.free descs (s.mem, q)).1.2 }
          held := held }) := by
  unfold step at h
  cases hr : s.held.redeem tickets with
  | none => simp [hr] at h
  | some p =>
      obtain ⟨descs, held⟩ := p
      simp only [hr] at h
      split at h
      · simp only [Option.some.injEq, Prod.mk.injEq] at h
        exact ⟨⟨_, _, h.2.symm⟩, Or.inl h.1.symm⟩
      · next hlt =>
        have hq := List.getElem?_eq_getElem (Nat.lt_of_not_le hlt)
        simp only [Option.some.injEq, Prod.mk.injEq] at h
        refine ⟨⟨_, _, h.2.symm⟩, Or.inr ⟨_, descs, held, hq, rfl, ?_⟩⟩
        rw [← h.1, show (freeRx queueId descs s.pair).1 = _ from
          freeRx_eq hq descs s.mem]
        rfl

/-- What the end of an iteration does. -/
theorem step_pollFrame {malloc : Malloc} {now : UInt64}
    (h : s.step (.pollFrame malloc now) = some (t, e)) :
    ∃ packet m n verdict, s.inFlight = some packet
      ∧ Polled malloc now packet s.mem s.nic m n verdict
      ∧ t = { s with mem := m, nic := n, inFlight := none }
      ∧ e = .frame packet verdict := by
  unfold step at h
  cases hf : s.inFlight with
  | none => simp [hf] at h
  | some packet =>
      simp only [hf, Option.some.injEq, Prod.mk.injEq] at h
      exact ⟨packet, _, _, _, rfl,
        pollFrame_polled malloc now packet s.mem s.nic, h.1.symm, h.2.symm⟩

/-- `stop()` joins the poll thread, so it runs between two iterations. -/
theorem step_stop (h : s.step .stop = some (t, e)) :
    s.inFlight = none
    ∧ t = s.withPair (VNic.stop s.pair).1
    ∧ e = .stop (VNic.stop s.pair).2 := by
  simp only [step] at h
  split at h
  · cases h
  · next hidle =>
    rw [not_or] at hidle
    simp only [Option.some.injEq, Prod.mk.injEq] at h
    exact ⟨by simpa using hidle.2, h.1.symm, h.2.symm⟩

/-- `pollCheck` reads the link. -/
theorem step_pollCheck (h : s.step .pollCheck = some (t, e)) :
    s.nic.thread = true ∧ s.inFlight = none
    ∧ ((s.nic.link.up = true ∧ t = { s with inTakeRx := true } ∧ e = .pollUp)
      ∨ (t = s ∧ e = .pollIdle)) := by
  simp only [step] at h
  split at h
  · cases h
  · next hgo =>
    rw [not_or, not_or, Bool.not_eq_false] at hgo
    refine ⟨hgo.1, by simpa using hgo.2.2, ?_⟩
    split at h
    · next hup =>
      simp only [Option.some.injEq, Prod.mk.injEq] at h
      exact Or.inl ⟨hup, h.1.symm, h.2.symm⟩
    · simp only [Option.some.injEq, Prod.mk.injEq] at h
      exact Or.inr ⟨h.1.symm, h.2.symm⟩

/-- `pollTake` removes a frame or nothing and, at most, bumps `errors`. -/
theorem step_pollTake {alloc : Bool}
    (h : s.step (.pollTake alloc) = some (t, e)) :
    s.nic.thread = true ∧ s.inTakeRx = true ∧ s.inFlight = none
    ∧ ((t = { s with inTakeRx := false } ∧ e = .pollTimeout)
      ∨ ∃ frame rest, s.nic.link.rxQueue.queue = frame :: rest
        ∧ ((t = { s with
                nic := { s.nic with
                  link := { s.nic.link with
                    rxQueue := { s.nic.link.rxQueue with queue := rest } } }
                inTakeRx := false
                inFlight := if frame = [] then none else some frame }
            ∧ e = .pollTaken frame)
          ∨ (t = { s with
                nic := { s.nic with
                  link := { s.nic.link with
                    rxQueue := { s.nic.link.rxQueue with queue := rest } }
                  stats := s.nic.stats.fetchErrors }
                inTakeRx := false }
            ∧ e = .pollLost frame))) := by
  simp only [step] at h
  split at h
  · cases h
  · next hgo =>
    rw [not_or, not_or, Bool.not_eq_false, not_not] at hgo
    refine ⟨hgo.1, hgo.2.1, by simpa using hgo.2.2, ?_⟩
    rcases Link.take_cases alloc s.nic.link.rxQueue with
      ⟨hq, htake⟩ | ⟨frame, rest, hq, ⟨-, htake⟩ | ⟨-, htake⟩⟩
    · simp only [takeFrame, Link.takeRx, htake, Option.some.injEq,
        Prod.mk.injEq] at h
      exact Or.inl ⟨h.1.symm, h.2.symm⟩
    · simp only [takeFrame, Link.takeRx, htake, Option.some.injEq,
        Prod.mk.injEq] at h
      exact Or.inr ⟨frame, rest, hq, Or.inl ⟨h.1.symm, h.2.symm⟩⟩
    · simp only [takeFrame, Link.takeRx, htake, hq, List.headD_cons,
        Option.some.injEq, Prod.mk.injEq] at h
      exact Or.inr ⟨frame, rest, hq, Or.inr ⟨h.1.symm, h.2.symm⟩⟩

/-- One RX queue changed, and kept its state. -/
theorem SameShape.set {i : Nat} {q q' : RxQueue}
    (hq : s.nic.rxQueues[i]? = some q) (hst : q'.state = q.state)
    (hrx : t.nic.rxQueues = s.nic.rxQueues.set i q')
    (hstate : t.nic.state = s.nic.state)
    (hthread : t.nic.thread = s.nic.thread)
    (hconfig : t.nic.config = s.nic.config)
    (hmac : t.nic.macAddr = s.nic.macAddr)
    (hreta : t.nic.reta = s.nic.reta)
    (htx : t.nic.txQueues = s.nic.txQueues) : SameShape s t := by
  refine ⟨hstate, hthread, hconfig, hmac, Or.inl hreta, ?_, by rw [htx]⟩
  have hwalk : Walk (fun (_ : Unit) (q : RxQueue) _ q' => q'.state = q.state)
      () s.nic.rxQueues () (s.nic.rxQueues.set i q') := .set hq hst
  rw [hrx]
  exact hwalk.map_eq fun h => h

/-- A data-path step keeps the configuration and the numbers of queues. -/
theorem step_sameShape (hop : ¬ a.IsControl)
    (h : s.step a = some (t, e)) : SameShape s t := by
  cases a with
  | configure _ => exact absurd trivial hop
  | configureRx _ _ => exact absurd trivial hop
  | configureTx _ _ => exact absurd trivial hop
  | start _ => exact absurd trivial hop
  | stop => exact absurd trivial hop
  | updateReta reta =>
      obtain ⟨reta', r, rfl, -, hreta⟩ := step_updateReta h
      exact ⟨rfl, rfl, rfl, rfl, hreta, rfl, rfl⟩
  | resetStats =>
      simp only [step, Option.some.injEq, Prod.mk.injEq] at h
      rw [← h.1]
      exact ⟨rfl, rfl, rfl, rfl, Or.inl rfl, rfl, rfl⟩
  | tx queueId descs =>
      simp only [step, Option.some.injEq, Prod.mk.injEq] at h
      have hsent := tx_sentOnly s.mem queueId descs s.nic
      rw [← h.1]
      exact ⟨hsent.state, hsent.thread, hsent.config, hsent.macAddr,
        Or.inl hsent.reta, congrArg _ hsent.rxQueues, hsent.txStates⟩
  | rx queueId =>
      rcases step_rx h with ⟨-, rfl, -⟩ | ⟨q, hq, rfl, -⟩
      · exact ⟨rfl, rfl, rfl, rfl, Or.inl rfl, rfl, rfl⟩
      · exact .set hq (take_frame q).2.1 rfl rfl rfl rfl rfl rfl rfl
  | freeRx queueId tickets =>
      rcases (step_freeRx h).2 with rfl | ⟨q, descs, held, hq, -, rfl⟩
      · exact ⟨rfl, rfl, rfl, rfl, Or.inl rfl, rfl, rfl⟩
      · exact .set hq (by rw [RxQueue.free_frame]) rfl rfl rfl rfl rfl
          rfl rfl
  | putRx alloc frame =>
      simp only [step, Option.some.injEq, Prod.mk.injEq] at h
      rw [← h.1]
      exact ⟨rfl, rfl, rfl, rfl, Or.inl rfl, rfl, rfl⟩
  | takeTx alloc =>
      simp only [step, Option.some.injEq, Prod.mk.injEq] at h
      rw [← h.1]
      exact ⟨rfl, rfl, rfl, rfl, Or.inl rfl, rfl, rfl⟩
  | setUp up =>
      simp only [step, Option.some.injEq, Prod.mk.injEq] at h
      rw [← h.1]
      exact ⟨rfl, rfl, rfl, rfl, Or.inl rfl, rfl, rfl⟩
  | pollCheck =>
      obtain ⟨-, -, ⟨-, rfl, -⟩ | ⟨rfl, -⟩⟩ := step_pollCheck h
      · exact ⟨rfl, rfl, rfl, rfl, Or.inl rfl, rfl, rfl⟩
      · exact ⟨rfl, rfl, rfl, rfl, Or.inl rfl, rfl, rfl⟩
  | pollTake alloc =>
      obtain ⟨-, -, -, ⟨rfl, -⟩ | ⟨frame, rest, -, ⟨rfl, -⟩ | ⟨rfl, -⟩⟩⟩ :=
        step_pollTake h
      · exact ⟨rfl, rfl, rfl, rfl, Or.inl rfl, rfl, rfl⟩
      · exact ⟨rfl, rfl, rfl, rfl, Or.inl rfl, rfl, rfl⟩
      · exact ⟨rfl, rfl, rfl, rfl, Or.inl rfl, rfl, rfl⟩
  | pollFrame malloc now =>
      obtain ⟨packet, m, n, verdict, -, hp, rfl, -⟩ := step_pollFrame h
      cases hp with
      | rejected e => exact ⟨rfl, rfl, rfl, rfl, Or.inl rfl, rfl, rfl⟩
      | noQueues _ _ => exact ⟨rfl, rfl, rfl, rfl, Or.inl rfl, rfl, rfl⟩
      | outOfRange _ _ _ => exact ⟨rfl, rfl, rfl, rfl, Or.inl rfl, rfl, rfl⟩
      | put _ hq hput =>
          exact .set hq (RxQueue.put_setup _ _ _ hput).state rfl rfl rfl
            rfl rfl rfl rfl

/-- The data-path steps that touch an RX queue. -/
def Op.TouchesRx : Op → Prop
  | .rx _ => True
  | .freeRx _ _ => True
  | .pollFrame _ _ => True
  | _ => False

/-- What the remaining steps leave alone. -/
structure Light (s t : Sys) : Prop where
  mem : t.mem = s.mem
  rxQueues : t.nic.rxQueues = s.nic.rxQueues
  held : t.held = s.held

/-- A step that does not touch the RX side leaves it alone. -/
theorem step_light (hop : ¬ a.IsControl) (hrx : ¬ a.TouchesRx)
    (h : s.step a = some (t, e)) : Light s t := by
  cases a with
  | configure _ => exact absurd trivial hop
  | configureRx _ _ => exact absurd trivial hop
  | configureTx _ _ => exact absurd trivial hop
  | start _ => exact absurd trivial hop
  | stop => exact absurd trivial hop
  | rx _ => exact absurd trivial hrx
  | freeRx _ _ => exact absurd trivial hrx
  | pollFrame _ _ => exact absurd trivial hrx
  | updateReta reta =>
      obtain ⟨reta', r, rfl, -, -⟩ := step_updateReta h
      exact ⟨rfl, rfl, rfl⟩
  | tx queueId descs =>
      simp only [step, Option.some.injEq, Prod.mk.injEq] at h
      rw [← h.1]
      exact ⟨rfl, (tx_sentOnly s.mem queueId descs s.nic).rxQueues, rfl⟩
  | pollCheck =>
      obtain ⟨-, -, ⟨-, rfl, -⟩ | ⟨rfl, -⟩⟩ := step_pollCheck h
      · exact ⟨rfl, rfl, rfl⟩
      · exact ⟨rfl, rfl, rfl⟩
  | pollTake alloc =>
      obtain ⟨-, -, -, ⟨rfl, -⟩ | ⟨frame, rest, -, ⟨rfl, -⟩ | ⟨rfl, -⟩⟩⟩ :=
        step_pollTake h
      · exact ⟨rfl, rfl, rfl⟩
      · exact ⟨rfl, rfl, rfl⟩
      · exact ⟨rfl, rfl, rfl⟩
  | _ =>
      simp only [step, Option.some.injEq, Prod.mk.injEq] at h
      rw [← h.1]
      exact ⟨rfl, rfl, rfl⟩

-- ======================================================= control calls

/-- Both rows moved along their lifecycles; beside them, only the port's
state and its thread may have changed. -/
def Shifted (s t : Sys) : Prop :=
  ∃ m st rx tx thread, Moved s.mem s.nic.rxQueues s.nic.txQueues m rx tx
    ∧ t = { s with
        mem := m
        nic := { s.nic with
          state := st
          rxQueues := rx
          txQueues := tx
          thread := thread } }

theorem Shifted.refl (s : Sys) : Shifted s s :=
  ⟨s.mem, s.nic.state, s.nic.rxQueues, s.nic.txQueues, s.nic.thread,
    ⟨.refl _ _, .refl _ _⟩, rfl⟩

private theorem Shifted.of_queueConfigured {n : VNic}
    (h : QueueConfigured s.nic n) : Shifted s (s.withNic n) := by
  obtain ⟨st, rx, tx, -, hmoved, -, rfl⟩ := h
  exact ⟨s.mem, st, rx, tx, s.nic.thread, hmoved s.mem, rfl⟩

/-- A control call is a `configure(config)` or moves the rows. -/
theorem step_control (hop : a.IsControl) (h : s.step a = some (t, e)) :
    (∃ config, a = .configure config
      ∧ t = s.withPair (VNic.configure config s.pair).1
      ∧ e = .configure (VNic.configure config s.pair).2)
    ∨ Shifted s t := by
  cases a with
  | configure config =>
      simp only [step, Option.some.injEq, Prod.mk.injEq] at h
      exact Or.inl ⟨config, rfl, h.1.symm, h.2.symm⟩
  | configureRx queueId config =>
      simp only [step, Option.some.injEq, Prod.mk.injEq] at h
      rw [← h.1]
      rcases configureRx_cases queueId config s.nic with ⟨-, heq⟩ | ⟨-, hq⟩
      · rw [heq]
        exact Or.inr (.refl s)
      · exact Or.inr (.of_queueConfigured hq)
  | configureTx queueId config =>
      simp only [step, Option.some.injEq, Prod.mk.injEq] at h
      rw [← h.1]
      rcases configureTx_cases queueId config s.nic with ⟨-, heq⟩ | ⟨-, hq⟩
      · rw [heq]
        exact Or.inr (.refl s)
      · exact Or.inr (.of_queueConfigured hq)
  | start env =>
      simp only [step, Option.some.injEq, Prod.mk.injEq] at h
      rw [← h.1]
      rcases start_cases env s.mem s.nic with
        ⟨-, heq⟩ | ⟨-, m', rx, tx, hmoved, ⟨-, heq⟩ | ⟨-, e, heq⟩⟩
      · rw [pair, heq]
        exact Or.inr (.refl s)
      · rw [pair, heq]
        exact Or.inr ⟨m', _, rx, tx, _, hmoved, rfl⟩
      · rw [pair, heq]
        exact Or.inr ⟨m', _, rx, tx, _, hmoved, rfl⟩
  | stop =>
      obtain ⟨-, rfl, -⟩ := step_stop h
      rcases stop_cases s.mem s.nic with
        ⟨-, heq⟩ | ⟨-, m', rx, tx, st, r, hmoved, -, -, heq⟩
      · rw [pair, heq]
        exact Or.inr (.refl s)
      · rw [pair, heq]
        exact Or.inr ⟨m', _, rx, tx, _, hmoved, rfl⟩
  | _ => exact absurd hop (fun hno => hno)

/-- A control step shows a control event. -/
theorem step_control_event (hop : a.IsControl)
    (h : s.step a = some (t, e)) : e.IsControl := by
  cases a with
  | configure config =>
      simp only [step, Option.some.injEq, Prod.mk.injEq] at h
      rw [← h.2]
      trivial
  | configureRx queueId config =>
      simp only [step, Option.some.injEq, Prod.mk.injEq] at h
      rw [← h.2]
      trivial
  | configureTx queueId config =>
      simp only [step, Option.some.injEq, Prod.mk.injEq] at h
      rw [← h.2]
      trivial
  | start env =>
      simp only [step, Option.some.injEq, Prod.mk.injEq] at h
      rw [← h.2]
      trivial
  | stop =>
      obtain ⟨-, -, rfl⟩ := step_stop h
      trivial
  | _ => exact absurd hop (fun hno => hno)

/-- On a running port the only control call that does anything is
`stop()`, and it waits for the poll thread. -/
theorem step_control_started (hop : a.IsControl)
    (hst : s.nic.state = .started) (h : s.step a = some (t, e)) :
    t = s ∨ s.inFlight = none := by
  have hno : ¬ Stateful.Configurable s.nic.state := fun hc =>
    hc.ne_started hst
  cases a with
  | configure config =>
      simp only [step, Option.some.injEq, Prod.mk.injEq] at h
      rw [← h.1]
      rcases configure_cases config s.mem s.nic with
        ⟨-, heq⟩ | ⟨hc, -⟩ | ⟨hc, -⟩
      · rw [pair, heq]
        exact Or.inl rfl
      · exact absurd hc hno
      · exact absurd hc hno
  | configureRx queueId config =>
      simp only [step, Option.some.injEq, Prod.mk.injEq] at h
      rw [← h.1]
      rcases configureRx_cases queueId config s.nic with ⟨-, heq⟩ | ⟨hc, -⟩
      · rw [heq]
        exact Or.inl rfl
      · exact absurd hc hno
  | configureTx queueId config =>
      simp only [step, Option.some.injEq, Prod.mk.injEq] at h
      rw [← h.1]
      rcases configureTx_cases queueId config s.nic with ⟨-, heq⟩ | ⟨hc, -⟩
      · rw [heq]
        exact Or.inl rfl
      · exact absurd hc hno
  | start env =>
      simp only [step, Option.some.injEq, Prod.mk.injEq] at h
      rw [← h.1]
      rcases start_cases env s.mem s.nic with ⟨-, heq⟩ | ⟨hc, -⟩
      · rw [pair, heq]
        exact Or.inl rfl
      · rw [hst] at hc
        cases hc
  | stop => exact Or.inr (step_stop h).1
  | _ => exact absurd hop (fun hno => hno)

-- ============================================================= traffic

/-- The frames in the RX pipe. -/
def pipe (s : Sys) : List Frame := s.nic.link.rxQueue.queue

/-- The frame an event put into the RX pipe. -/
def Event.injected : Event → List Frame
  | .putRx f (.ok ()) => [f]
  | _ => []

/-- The frame an event removed from the RX pipe. -/
def Event.dequeued : Event → List Frame
  | .pollTaken f => [f]
  | .pollLost f => [f]
  | _ => []

/-- The frame `takeRx` handed to `poll`. -/
def Event.taken : Event → List Frame
  | .pollTaken f => [f]
  | _ => []

/-- The frame whose iteration of `poll` an event ended. -/
def Event.completed : Event → List Frame
  | .frame f _ => [f]
  | _ => []

/-- An event that moves no frame. -/
structure Event.Idle (e : Event) : Prop where
  injected : e.injected = []
  dequeued : e.dequeued = []
  taken : e.taken = []
  completed : e.completed = []

theorem Event.IsControl.idle (h : e.IsControl) : e.Idle := by
  cases e with
  | putRx f r => exact absurd h (fun hno => hno)
  | pollTaken f => exact absurd h (fun hno => hno)
  | pollLost f => exact absurd h (fun hno => hno)
  | frame f v => exact absurd h (fun hno => hno)
  | _ => exact ⟨rfl, rfl, rfl, rfl⟩

/-- What one step does to the frames on their way. The pipe is a queue
that no empty frame enters; `poll` has one frame in hand at a time. -/
structure Traffic (s t : Sys) (e : Event) : Prop where
  pipe : s.pipe ++ e.injected = e.dequeued ++ t.pipe
  injected : ∀ f ∈ e.injected, f ≠ []
  flight : (∀ f ∈ s.pipe, f ≠ []) →
    s.inFlight.toList ++ e.taken = e.completed ++ t.inFlight.toList
  thread : e.taken ≠ [] → s.nic.thread = true

private theorem Traffic.of_idle (hp : t.pipe = s.pipe)
    (hf : t.inFlight = s.inFlight) (he : e.Idle) : Traffic s t e where
  pipe := by rw [he.injected, he.dequeued, hp, List.append_nil,
    List.nil_append]
  injected := by
    rw [he.injected]
    exact fun f hf => (by cases hf)
  flight := fun _ => by
    rw [he.taken, he.completed, hf, List.append_nil, List.nil_append]
  thread := fun h => absurd he.taken h

/-- `configure()` leaves the frames in the pipe and the link as it is. -/
theorem configure_link (config : VNic.Config) (s : Sys) :
    (s.withPair (VNic.configure config s.pair).1).pipe = s.pipe
    ∧ (s.withPair (VNic.configure config s.pair).1).nic.link.up
      = s.nic.link.up := by
  rcases configure_cases config s.mem s.nic with
    ⟨-, heq⟩ | ⟨-, -, heq⟩ | ⟨-, -, mac, reta, -, heq⟩
  · rw [pair, heq]
    exact ⟨rfl, rfl⟩
  · rw [pair, heq]
    exact ⟨rfl, rfl⟩
  · rw [pair, heq]
    exact ⟨rfl, rfl⟩

/-- What a step does to the frames on their way in. -/
theorem step_traffic (h : s.step a = some (t, e)) : Traffic s t e := by
  -- a control call leaves the pipe's frames where they are, configure of
  -- the link included
  by_cases hop : a.IsControl
  · have hidle := (step_control_event hop h).idle
    rcases step_control hop h with ⟨config, -, rfl, -⟩ | hs
    · exact .of_idle (configure_link config s).1 rfl hidle
    · obtain ⟨m, st, rx, tx, thread, -, rfl⟩ := hs
      exact .of_idle rfl rfl hidle
  · cases a with
    | configure _ => exact absurd trivial hop
    | configureRx _ _ => exact absurd trivial hop
    | configureTx _ _ => exact absurd trivial hop
    | start _ => exact absurd trivial hop
    | stop => exact absurd trivial hop
    | updateReta reta =>
        obtain ⟨reta', r, rfl, rfl, -⟩ := step_updateReta h
        exact .of_idle rfl rfl ⟨rfl, rfl, rfl, rfl⟩
    | resetStats =>
        simp only [step, Option.some.injEq, Prod.mk.injEq] at h
        rw [← h.1, ← h.2]
        exact .of_idle rfl rfl ⟨rfl, rfl, rfl, rfl⟩
    | tx queueId descs =>
        simp only [step, Option.some.injEq, Prod.mk.injEq] at h
        rw [← h.1, ← h.2]
        have hpipe := (tx_sentOnly s.mem queueId descs s.nic).rxPipe
        exact .of_idle (congrArg Fifo.queue hpipe) rfl ⟨rfl, rfl, rfl, rfl⟩
    | rx queueId =>
        rcases step_rx h with ⟨-, rfl, rfl⟩ | ⟨q, -, rfl, rfl⟩
        · exact .of_idle rfl rfl ⟨rfl, rfl, rfl, rfl⟩
        · exact .of_idle rfl rfl ⟨rfl, rfl, rfl, rfl⟩
    | freeRx queueId tickets =>
        obtain ⟨⟨descs, r, rfl⟩, rfl | ⟨q, ds, held, -, -, rfl⟩⟩ :=
          step_freeRx h
        · exact .of_idle rfl rfl ⟨rfl, rfl, rfl, rfl⟩
        · exact .of_idle rfl rfl ⟨rfl, rfl, rfl, rfl⟩
    | putRx alloc frame =>
        simp only [step, Option.some.injEq, Prod.mk.injEq] at h
        rw [← h.1, ← h.2]
        rcases Link.put_cases alloc frame s.nic.link.rxQueue
          .linkRxQueueFull with ⟨e, hput⟩ | ⟨hne, -, -, hput⟩
        · simp only [Link.putRx, hput]
          exact .of_idle rfl rfl ⟨rfl, rfl, rfl, rfl⟩
        · simp only [Link.putRx, hput]
          refine ⟨rfl, fun f hf => ?_, fun _ => List.append_nil _,
            fun hno => absurd rfl hno⟩
          rw [List.mem_singleton.1 hf]
          exact hne
    | takeTx alloc =>
        simp only [step, Option.some.injEq, Prod.mk.injEq] at h
        rw [← h.1, ← h.2]
        exact .of_idle rfl rfl ⟨rfl, rfl, rfl, rfl⟩
    | setUp up =>
        simp only [step, Option.some.injEq, Prod.mk.injEq] at h
        rw [← h.1, ← h.2]
        exact .of_idle rfl rfl ⟨rfl, rfl, rfl, rfl⟩
    | pollCheck =>
        obtain ⟨-, -, ⟨-, rfl, rfl⟩ | ⟨rfl, rfl⟩⟩ := step_pollCheck h
        · exact .of_idle rfl rfl ⟨rfl, rfl, rfl, rfl⟩
        · exact .of_idle rfl rfl ⟨rfl, rfl, rfl, rfl⟩
    | pollTake alloc =>
        obtain ⟨hthread, -, hnone,
          ⟨rfl, rfl⟩ | ⟨frame, rest, hq, ⟨rfl, rfl⟩ | ⟨rfl, rfl⟩⟩⟩ :=
          step_pollTake h
        · exact .of_idle rfl rfl ⟨rfl, rfl, rfl, rfl⟩
        · refine ⟨(List.append_nil _).trans hq, fun f hf => (by cases hf),
            fun hpipe => ?_, fun _ => hthread⟩
          have hne : frame ≠ [] := hpipe frame (by simp [Sys.pipe, hq])
          simp only [hnone, if_neg hne]
          rfl
        · exact ⟨(List.append_nil _).trans hq, fun f hf => (by cases hf),
            fun _ => List.append_nil _, fun hno => absurd rfl hno⟩
    | pollFrame malloc now =>
        obtain ⟨packet, m, n, verdict, hf, hp, rfl, rfl⟩ := step_pollFrame h
        refine ⟨?_, fun f hf => (by cases hf), fun _ => ?_,
          fun hno => absurd rfl hno⟩
        · show s.nic.link.rxQueue.queue ++ [] = n.link.rxQueue.queue
          rw [hp.link, List.append_nil]
        · rw [hf]
          rfl

end Vnic.Sys
