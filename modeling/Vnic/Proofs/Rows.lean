/-
Starting and stopping a port: the walks of `startQueues`, its rollback
and `stopQueues` along the two rows of queues.

- `startEach_walk`, `stopFirst_walk`, `stopEach_walk`: each loop is a
  `Row.Walk`, whatever the outcomes.
- `startEach_running`, `stopFirst_running`, `stopEach_running`: who runs
  afterwards. `startEach` reports how many queues it started, and that
  number is exactly the part of the row a rollback has to stop.
- `start_cases`, `stop_cases`: what `start()` and `stop()` do to a port.

# Why walks

The three loops differ in what a failure does: `startEach` ends there,
the rollback (`stopFirst`) ignores it, and `stopEach` goes on and keeps
the first code.
All of them visit a row from the left and move one queue at a time by one
of its own control calls (`Control`). As walks they share what follows:
the chains of the queues not yet visited are untouched, and a predicate
that a single call preserves is preserved along the row.
-/
import Vnic.Port
import Vnic.Lib.Row
import Vnic.Proofs.Ownership

namespace Vnic

open Row

-- ============================================ one queue, one call

/-- One control call on an RX queue. -/
inductive RxQueue.Control (m : Memory) (q : RxQueue) :
    Memory → RxQueue → Prop
  | configure (config : Config) : Control m q m (q.configure config).1
  | start {inject : Option ErrorCode} {m' : Memory} {q' : RxQueue}
      {r : Res} : startOr inject (m, q) = ((m', q'), r) → Control m q m' q'
  | stop {m' : Memory} {q' : RxQueue} {r : Res} :
      RxQueue.stop (m, q) = ((m', q'), r) → Control m q m' q'

/-- One control call on a TX queue. -/
inductive TxQueue.Control (q : TxQueue) : TxQueue → Prop
  | configure (config : Config) : Control q (q.configure config).1
  | start (inject : Option ErrorCode) : Control q (startOr inject q).1
  | stop : Control q (TxQueue.stop q).1

private theorem RxQueue.startOr_running {inject : Option ErrorCode}
    {m m' : Memory} {q q' : RxQueue} {r : Res}
    (h : startOr inject (m, q) = ((m', q'), r)) (hq : q.state ≠ .started) :
    (r = .ok () → q'.state = .started)
      ∧ (r ≠ .ok () → q'.state ≠ .started) := by
  rcases startOr_cases inject m q with
    ⟨-, -, hs⟩ | ⟨-, -, hs⟩ | ⟨q₀, -, -, -, hs⟩ | ⟨q₀, e, -, -, hs⟩
  · rw [hs] at h
    cases h
    exact ⟨fun hr => (by cases hr), fun _ => hq⟩
  · rw [hs] at h
    cases h
    exact ⟨fun hr => (by cases hr), fun _ hst => (by cases hst)⟩
  · rw [hs] at h
    cases h
    exact ⟨fun _ => rfl, fun hr => absurd rfl hr⟩
  · rw [hs] at h
    cases h
    exact ⟨fun hr => (by cases hr), fun _ hst => (by cases hst)⟩

private theorem RxQueue.stop_running {m m' : Memory} {q q' : RxQueue} {r : Res}
    (h : stop (m, q) = ((m', q'), r)) : q'.state ≠ .started := by
  rcases stop_cases m q with ⟨hst, hs⟩ | ⟨-, hs⟩
  · rw [hs] at h
    cases h
    exact hst
  · rw [hs] at h
    cases h
    exact fun hst => (by cases hst)

/-- What `start()` can do to a TX queue. -/
theorem TxQueue.startOr_cases (inject : Option ErrorCode) (q : TxQueue) :
    (q.state ≠ .configured
      ∧ startOr inject q = (q, .error .stateStartNotAllowed))
    ∨ (q.state = .configured ∧ inject = none
      ∧ startOr inject q = ({ q with state := .started }, .ok ()))
    ∨ (∃ e, q.state = .configured ∧ inject = some e
      ∧ startOr inject q = ({ q with state := .error }, .error e)) := by
  rcases Stateful.start_cases (startImplOr inject) q with
    ⟨hno, heq⟩ | ⟨hc, ⟨t, ht, heq⟩ | ⟨t, e, ht, heq⟩⟩
  · exact Or.inl ⟨hno, heq⟩
  · cases inject with
    | none =>
        cases ht
        exact Or.inr (Or.inl ⟨hc, rfl, heq⟩)
    | some e => cases ht
  · cases inject with
    | none => cases ht
    | some e' =>
        cases ht
        exact Or.inr (Or.inr ⟨e, hc, rfl, heq⟩)

/-- What `stop()` can do to a TX queue. -/
theorem TxQueue.stop_cases (q : TxQueue) :
    (q.state ≠ .started ∧ stop q = (q, .error .stateStopNotAllowed))
    ∨ (q.state = .started
      ∧ stop q = ({ q with state := .stopped }, .ok ())) := by
  rcases Stateful.stop_cases stopImpl q with
    ⟨hno, heq⟩ | ⟨hs, ⟨t, ht, heq⟩ | ⟨t, e, ht, heq⟩⟩
  · exact Or.inl ⟨hno, heq⟩
  · cases ht
    exact Or.inr ⟨hs, heq⟩
  · cases ht

private theorem TxQueue.startOr_running {inject : Option ErrorCode}
    {q q' : TxQueue} {r : Res} (h : startOr inject q = (q', r))
    (hq : q.state ≠ .started) :
    (r = .ok () → q'.state = .started)
      ∧ (r ≠ .ok () → q'.state ≠ .started) := by
  rcases startOr_cases inject q with
    ⟨-, hs⟩ | ⟨-, -, hs⟩ | ⟨e, -, -, hs⟩
  · rw [hs] at h
    cases h
    exact ⟨fun hr => (by cases hr), fun _ => hq⟩
  · rw [hs] at h
    cases h
    exact ⟨fun _ => rfl, fun hr => absurd rfl hr⟩
  · rw [hs] at h
    cases h
    exact ⟨fun hr => (by cases hr), fun _ hst => (by cases hst)⟩

private theorem TxQueue.stop_running {q q' : TxQueue} {r : Res}
    (h : stop q = (q', r)) : q'.state ≠ .started := by
  rcases stop_cases q with ⟨hst, hs⟩ | ⟨-, hs⟩
  · rw [hs] at h
    cases h
    exact hst
  · rw [hs] at h
    cases h
    exact fun hst => (by cases hst)

theorem TxQueue.configure_running (config : Config) (q : TxQueue) :
    (q.configure config).1.state = .started ↔ q.state = .started := by
  rcases Stateful.configure_cases (configureImpl config) q with
    ⟨-, h⟩ | ⟨hc, ⟨t, -, h⟩ | ⟨t, e, -, h⟩⟩
  · rw [configure, h]
  · rw [configure, h]
    exact ⟨fun hs => (by cases hs), fun hs => absurd hs hc.ne_started⟩
  · rw [configure, h]
    exact ⟨fun hs => (by cases hs), fun hs => absurd hs hc.ne_started⟩

/-- Descriptors wait in `used_` only while the queue runs. -/
def RxQueue.Quiet (q : RxQueue) : Prop :=
  q.state ≠ .started → q.used_.queue = []

namespace RxQueue.Control

variable {m m' : Memory} {q q' : RxQueue}

/-- Control calls do not touch the counters. -/
theorem stats (h : Control m q m' q') : q'.stats = q.stats := by
  cases h with
  | configure config => exact (configure_frame config q).2.2.1
  | start h =>
      rename_i inject r
      rcases startOr_cases inject m q with
        ⟨-, -, hs⟩ | ⟨-, -, hs⟩ | ⟨q₀, hr, -, -, hs⟩ | ⟨q₀, e, hr, -, hs⟩
      · rw [hs] at h
        cases h
        rfl
      · rw [hs] at h
        cases h
        rfl
      · rw [hs] at h
        cases h
        exact hr.same.2.2.1
      · rw [hs] at h
        cases h
        exact hr.same.2.2.1
  | stop h =>
      rcases stop_cases m q with ⟨-, hs⟩ | ⟨-, hs⟩
      · rw [hs] at h
        cases h
        rfl
      · rw [hs] at h
        cases h
        rfl

/-- A control call keeps a quiet queue quiet. -/
theorem quiet (h : Control m q m' q') (hq : q.Quiet) : q'.Quiet := by
  cases h with
  | configure config =>
      intro hst
      rw [(configure_frame config q).1]
      exact hq (mt (configure_running config q).2 hst)
  | start h =>
      rename_i inject r
      rcases startOr_cases inject m q with
        ⟨-, -, hs⟩ | ⟨hst, -, hs⟩ | ⟨q₀, -, -, -, hs⟩ | ⟨q₀, e, -, -, hs⟩
      · rw [hs] at h
        cases h
        exact hq
      · rw [hs] at h
        cases h
        exact fun _ => hq (by simp [hst])
      · rw [hs] at h
        cases h
        exact fun hst => absurd rfl hst
      · rw [hs] at h
        cases h
        exact fun _ => rfl
  | stop h =>
      rcases stop_cases m q with ⟨-, hs⟩ | ⟨-, hs⟩
      · rw [hs] at h
        cases h
        exact hq
      · rw [hs] at h
        cases h
        exact fun _ => rfl

/-- Control calls never add to `used_`. -/
theorem used (h : Control m q m' q') :
    q'.used_.queue = q.used_.queue ∨ q'.used_.queue = [] := by
  cases h with
  | configure config => exact Or.inl (configure_frame config q).1
  | start h =>
      rename_i inject r
      rcases startOr_cases inject m q with
        ⟨-, -, hs⟩ | ⟨-, -, hs⟩ | ⟨q₀, hr, -, -, hs⟩ | ⟨q₀, e, -, -, hs⟩
      · rw [hs] at h
        cases h
        exact Or.inl rfl
      · rw [hs] at h
        cases h
        exact Or.inl rfl
      · rw [hs] at h
        cases h
        exact Or.inl hr.same.2.2.2.2.1
      · rw [hs] at h
        cases h
        exact Or.inr rfl
  | stop h =>
      rcases stop_cases m q with ⟨-, hs⟩ | ⟨-, hs⟩
      · rw [hs] at h
        cases h
        exact Or.inl rfl
      · rw [hs] at h
        cases h
        exact Or.inr rfl

/-- Control calls release only what the queue itself holds. -/
theorem owners {ds : List PacketDescriptor} (h : Control m q m' q')
    (ho : Owners m (q.used_.queue ++ ds)) :
    Owners m' (q'.used_.queue ++ ds) ∧ SameChains m m' ds := by
  cases h with
  | configure config =>
      rw [(configure_frame config q).1]
      exact ⟨ho, SameChains.of_blocks rfl⟩
  | start h => exact startOr_owners _ ho h
  | stop h => exact stop_owners ho h

end RxQueue.Control

namespace VNic

-- ====================================================== the three loops

section Loops

variable {μ σ : Type} (start : Nat → μ × σ → (μ × σ) × Res)
  (stop : μ × σ → (μ × σ) × Res) {call : μ → σ → μ → σ → Prop}
  {running : σ → Prop}

/-- The loop of `startQueues` is a walk along the row. -/
private theorem startEach_walk
    (h : ∀ {i m q m' q' r}, start i (m, q) = ((m', q'), r) →
      call m q m' q') :
    ∀ (qs : List σ) (i : Nat) (m : μ),
      Walk call m qs (startEach start i m qs).1.1
        (startEach start i m qs).1.2 := by
  intro qs
  induction qs with
  | nil => exact fun i m => .refl m []
  | cons q rest ih =>
      intro i m
      unfold startEach
      cases hs : start i (m, q) with
      | mk p r =>
          cases r with
          | error e => exact .head (h hs) (.refl _ rest)
          | ok u => exact .head (h hs) (ih (i + 1) p.1)

private theorem stopFirst_walk
    (h : ∀ {m q m' q' r}, stop (m, q) = ((m', q'), r) → call m q m' q') :
    ∀ (qs : List σ) (k : Nat) (m : μ),
      Walk call m qs (stopFirst stop k m qs).1 (stopFirst stop k m qs).2
    := by
  intro qs
  induction qs with
  | nil =>
      intro k m
      cases k with
      | zero => exact .refl m []
      | succ k => exact .refl m []
  | cons q rest ih =>
      intro k m
      cases k with
      | zero => exact .refl m (q :: rest)
      | succ k =>
          unfold stopFirst
          cases hs : stop (m, q) with
          | mk p r => exact .head (h hs) (ih k p.1)

/-- So is the loop of `stopQueues`, whatever the calls return. -/
private theorem stopEach_walk
    (h : ∀ {m q m' q' r}, stop (m, q) = ((m', q'), r) → call m q m' q') :
    ∀ (qs : List σ) (m : μ) (e : ErrorCode),
      Walk call m qs (stopEach stop m qs e).1.1
        (stopEach stop m qs e).1.2 := by
  intro qs
  induction qs with
  | nil => exact fun m e => .refl m []
  | cons q rest ih =>
      intro m e
      unfold stopEach
      cases hs : stop (m, q) with
      | mk p r => exact .head (h hs) (ih p.1 _)

/-- Past the queues it counts, `startEach` leaves nobody running; when it
succeeds everybody runs. -/
private theorem startEach_running
    (h : ∀ {i m q m' q' r}, start i (m, q) = ((m', q'), r) → ¬ running q →
      (r = .ok () → running q') ∧ (r ≠ .ok () → ¬ running q')) :
    ∀ (qs : List σ) (i : Nat) (m : μ), (∀ q ∈ qs, ¬ running q) →
      (∀ q ∈ (startEach start i m qs).1.2.drop (startEach start i m qs).2.1,
        ¬ running q)
      ∧ ((startEach start i m qs).2.2 = .ok () →
        ∀ q ∈ (startEach start i m qs).1.2, running q) := by
  intro qs
  induction qs with
  | nil =>
      intro i m _
      exact ⟨fun q hq => (by cases hq), fun _ q hq => (by cases hq)⟩
  | cons q rest ih =>
      intro i m hno
      obtain ⟨hq, hrest⟩ := List.forall_mem_cons.1 hno
      unfold startEach
      cases hs : start i (m, q) with
      | mk p r =>
          obtain ⟨hok, herr⟩ := h hs hq
          cases r with
          | error e =>
              refine ⟨?_, fun hr => (by cases hr)⟩
              exact List.forall_mem_cons.2 ⟨herr (by simp), hrest⟩
          | ok u =>
              obtain ⟨hdrop, hall⟩ := ih (i + 1) p.1 hrest
              refine ⟨hdrop, fun hr => ?_⟩
              exact List.forall_mem_cons.2 ⟨hok rfl, hall hr⟩

/-- Rolling back the counted part leaves nobody running. -/
private theorem stopFirst_running
    (h : ∀ {m q m' q' r}, stop (m, q) = ((m', q'), r) → ¬ running q') :
    ∀ (qs : List σ) (k : Nat) (m : μ), (∀ q ∈ qs.drop k, ¬ running q) →
      ∀ q ∈ (stopFirst stop k m qs).2, ¬ running q := by
  intro qs
  induction qs with
  | nil =>
      intro k m _
      cases k with
      | zero => exact fun q hq => (by cases hq)
      | succ k => exact fun q hq => (by cases hq)
  | cons q rest ih =>
      intro k m hdrop
      cases k with
      | zero => exact hdrop
      | succ k =>
          unfold stopFirst
          cases hs : stop (m, q) with
          | mk p r => exact List.forall_mem_cons.2 ⟨h hs, ih k p.1 hdrop⟩

/-- After it no queue of the row runs. -/
private theorem stopEach_running
    (h : ∀ {m q m' q' r}, stop (m, q) = ((m', q'), r) → ¬ running q') :
    ∀ (qs : List σ) (m : μ) (e : ErrorCode),
      ∀ q ∈ (stopEach stop m qs e).1.2, ¬ running q := by
  intro qs
  induction qs with
  | nil => exact fun m e q hq => (by cases hq)
  | cons q rest ih =>
      intro m e
      unfold stopEach
      cases hs : stop (m, q) with
      | mk p r => exact List.forall_mem_cons.2 ⟨h hs, ih p.1 _⟩

end Loops

-- ====================================================== start and stop

variable {m m' : Memory} {n n' : VNic} {rx : List RxQueue}
  {tx : List TxQueue}

/-- Every queue of both rows is started. -/
def AllStarted (rx : List RxQueue) (tx : List TxQueue) : Prop :=
  (∀ q ∈ rx, q.state = .started) ∧ ∀ q ∈ tx, q.state = .started

/-- No queue of either row is started. -/
def NoneStarted (rx : List RxQueue) (tx : List TxQueue) : Prop :=
  (∀ q ∈ rx, q.state ≠ .started) ∧ ∀ q ∈ tx, q.state ≠ .started

/-- Both rows changed through control calls on single queues. -/
structure Moved (m : Memory) (rx : List RxQueue) (tx : List TxQueue)
    (m' : Memory) (rx' : List RxQueue) (tx' : List TxQueue) : Prop where
  rx : Walk RxQueue.Control m rx m' rx'
  tx : Walk (fun (_ : Unit) q _ q' => TxQueue.Control q q') () tx () tx'

/-- Two moves in a row are one. -/
theorem Moved.trans {m'' : Memory} {rx' rx'' : List RxQueue}
    {tx' tx'' : List TxQueue} (h₁ : Moved m rx tx m' rx' tx')
    (h₂ : Moved m' rx' tx' m'' rx'' tx'') : Moved m rx tx m'' rx'' tx'' :=
  ⟨h₁.rx.trans h₂.rx, h₁.tx.trans h₂.tx⟩

/-- The calls on a TX queue, as calls beside a memory they ignore. -/
def TxCall (m : Memory) (q : TxQueue) (m' : Memory) (q' : TxQueue) : Prop :=
  m' = m ∧ TxQueue.Control q q'

private theorem dry_startOr {inject : Option ErrorCode} {q q' : TxQueue}
    {r : Res}
    (h : dry (TxQueue.startOr inject) (m, q) = ((m', q'), r)) :
    m' = m ∧ TxQueue.startOr inject q = (q', r) := by
  cases h
  exact ⟨rfl, rfl⟩

private theorem dry_stop {q q' : TxQueue} {r : Res}
    (h : dry TxQueue.stop (m, q) = ((m', q'), r)) :
    m' = m ∧ TxQueue.stop q = (q', r) := by
  cases h
  exact ⟨rfl, rfl⟩

private theorem TxCall.of_startOr {inject : Option ErrorCode} {q q' : TxQueue}
    {r : Res} (h : dry (TxQueue.startOr inject) (m, q) = ((m', q'), r)) :
    TxCall m q m' q' := by
  obtain ⟨hm, hs⟩ := dry_startOr h
  refine ⟨hm, ?_⟩
  rw [show q' = (TxQueue.startOr inject q).1 from by rw [hs]]
  exact .start inject

private theorem TxCall.of_stop {q q' : TxQueue} {r : Res}
    (h : dry TxQueue.stop (m, q) = ((m', q'), r)) : TxCall m q m' q' := by
  obtain ⟨hm, hs⟩ := dry_stop h
  refine ⟨hm, ?_⟩
  rw [show q' = (TxQueue.stop q).1 from by rw [hs]]
  exact .stop

/-- `startQueues` starts every queue or, after its rollback, leaves none
running. -/
theorem startQueues_cases (env : StartEnv) (m : Memory) (n : VNic) :
    ∃ m' rx tx r,
      startQueues env (m, n)
        = ((m', { n with rxQueues := rx, txQueues := tx }), r)
      ∧ Moved m n.rxQueues n.txQueues m' rx tx
      ∧ (NoneStarted n.rxQueues n.txQueues →
        (r = .ok () → AllStarted rx tx)
        ∧ (r ≠ .ok () → NoneStarted rx tx)) := by
  have hrx := startEach_walk (fun i => RxQueue.startOr (env.rx i))
    (fun h => RxQueue.Control.start h) n.rxQueues 0 m
  have hrxRun := startEach_running (fun i => RxQueue.startOr (env.rx i))
    (fun h hq => RxQueue.startOr_running h hq) n.rxQueues 0 m
  unfold startQueues
  cases hrxEq : startEach (fun i => RxQueue.startOr (env.rx i)) 0 m
      n.rxQueues with
  | mk p kr =>
      obtain ⟨m₁, rx₁⟩ := p
      obtain ⟨k, r⟩ := kr
      rw [hrxEq] at hrx hrxRun
      have hback := fun m₂ => stopFirst_walk RxQueue.stop
        (fun h => RxQueue.Control.stop h) rx₁ k m₂
      have hbackRun := fun m₂ => stopFirst_running RxQueue.stop
        (fun h => RxQueue.stop_running h) rx₁ k m₂
      cases r with
      | error e =>
          refine ⟨_, _, n.txQueues, .error e, rfl,
            ⟨hrx.trans (hback m₁), .refl _ _⟩, fun hno => ?_⟩
          refine ⟨fun hr => (by cases hr), fun _ => ⟨?_, hno.2⟩⟩
          exact hbackRun m₁ (hrxRun hno.1).1
      | ok u =>
          have htx := startEach_walk (fun i => dry (TxQueue.startOr (env.tx i)))
            (fun h => TxCall.of_startOr h) n.txQueues 0 m₁
          have htxRun := startEach_running
            (fun i => dry (TxQueue.startOr (env.tx i)))
            (fun h hq => TxQueue.startOr_running (dry_startOr h).2 hq)
            n.txQueues 0 m₁
          simp only
          cases htxEq : startEach (fun i => dry (TxQueue.startOr (env.tx i)))
              0 m₁ n.txQueues with
          | mk p' kr' =>
              obtain ⟨m₂, tx₁⟩ := p'
              obtain ⟨k', r'⟩ := kr'
              rw [htxEq] at htx htxRun
              obtain ⟨rfl, htx'⟩ := htx.still
              cases r' with
              | ok u' =>
                  refine ⟨m₂, rx₁, tx₁, .ok (), rfl, ⟨hrx, htx'⟩,
                    fun hno => ⟨fun _ => ?_, fun hr => absurd rfl hr⟩⟩
                  exact ⟨(hrxRun hno.1).2 rfl, (htxRun hno.2).2 rfl⟩
              | error e =>
                  -- both rollbacks run, RX first
                  simp only
                  have htxBack := stopFirst_walk (dry TxQueue.stop)
                    (fun h => TxCall.of_stop h) tx₁ k'
                    (stopFirst RxQueue.stop k m₂ rx₁).1
                  have htxBackRun := stopFirst_running (dry TxQueue.stop)
                    (fun h => TxQueue.stop_running (dry_stop h).2) tx₁ k'
                    (stopFirst RxQueue.stop k m₂ rx₁).1
                  obtain ⟨hm, htxBack'⟩ := htxBack.still
                  refine ⟨_, _, _, .error e, rfl, ⟨?_, htx'.trans htxBack'⟩,
                    fun hno => ⟨fun hr => (by cases hr), fun _ => ?_⟩⟩
                  · rw [hm]
                    exact hrx.trans (hback m₂)
                  · exact ⟨hbackRun m₂ (hrxRun hno.1).1,
                      htxBackRun (htxRun hno.2).1⟩

/-- `stopQueues` leaves no queue running. -/
theorem stopQueues_cases (m : Memory) (n : VNic) :
    ∃ m' rx tx r,
      stopQueues (m, n)
        = ((m', { n with rxQueues := rx, txQueues := tx }), r)
      ∧ Moved m n.rxQueues n.txQueues m' rx tx ∧ NoneStarted rx tx := by
  have hrx := stopEach_walk RxQueue.stop
    (fun h => RxQueue.Control.stop h) n.rxQueues m .none
  have hrxRun := stopEach_running RxQueue.stop
    (fun h => RxQueue.stop_running h) n.rxQueues m .none
  unfold stopQueues
  cases hrxEq : stopEach RxQueue.stop m n.rxQueues .none with
  | mk p e =>
      obtain ⟨m₁, rx₁⟩ := p
      rw [hrxEq] at hrx hrxRun
      have htx := stopEach_walk (dry TxQueue.stop)
        (fun h => TxCall.of_stop h) n.txQueues m₁ e
      have htxRun := stopEach_running (dry TxQueue.stop)
        (fun h => TxQueue.stop_running (dry_stop h).2) n.txQueues m₁ e
      simp only
      cases htxEq : stopEach (dry TxQueue.stop) m₁ n.txQueues e with
      | mk p' e' =>
          obtain ⟨m₂, tx₁⟩ := p'
          rw [htxEq] at htx htxRun
          obtain ⟨rfl, htx'⟩ := htx.still
          exact ⟨m₂, rx₁, tx₁, _, rfl, ⟨hrx, htx'⟩, hrxRun, htxRun⟩

/-- What `start()` can do to a port whose queues are all down: refuse and
change nothing, bring up the queues and the thread, or fail with no queue
running and no thread made. -/
theorem start_cases (env : StartEnv) (m : Memory) (n : VNic) :
    (n.state ≠ .configured
      ∧ start env (m, n) = ((m, n), .error .stateStartNotAllowed))
    ∨ (n.state = .configured
      ∧ ∃ m' rx tx, Moved m n.rxQueues n.txQueues m' rx tx
      ∧ ((NoneStarted n.rxQueues n.txQueues → AllStarted rx tx)
          ∧ start env (m, n)
            = ((m', { n with
                state := .started
                rxQueues := rx
                txQueues := tx
                thread := true }), .ok ())
        ∨ (NoneStarted n.rxQueues n.txQueues → NoneStarted rx tx)
          ∧ ∃ e, start env (m, n)
            = ((m', { n with
                state := .error
                rxQueues := rx
                txQueues := tx }), .error e))) := by
  obtain ⟨m₁, rx₁, tx₁, r, heq, hmoved, hrun⟩ := startQueues_cases env m
    { n with state := .started }
  rcases Stateful.start_cases (startImpl env) (m, n) with
    ⟨hno, hs⟩ | ⟨hc, hs⟩
  · exact Or.inl ⟨hno, hs⟩
  · refine Or.inr ⟨hc, ?_⟩
    rw [show Stateful.setState .started (Stateful.setState .starting (m, n))
      = (m, { n with state := .started }) from rfl, startImpl, heq] at hs
    cases r with
    | error e =>
        rcases hs with ⟨t, ht, -⟩ | ⟨t, e', ht, hs⟩
        · cases ht
        · cases ht
          exact ⟨m₁, rx₁, tx₁, hmoved, Or.inr
            ⟨fun hno => (hrun hno).2 (by simp), e, hs⟩⟩
    | ok u =>
        cases hthread : env.thread with
        | true =>
            simp only [hthread, if_true] at hs
            rcases hs with ⟨t, ht, hs⟩ | ⟨t, e', ht, -⟩
            · cases ht
              exact ⟨m₁, rx₁, tx₁, hmoved, Or.inl
                ⟨fun hno => (hrun hno).1 rfl, hs⟩⟩
            · cases ht
        | false =>
            -- no thread: the queues that were just started are stopped
            obtain ⟨m₂, rx₂, tx₂, r₂, hstop, hmoved₂, hnone⟩ :=
              stopQueues_cases m₁ { n with
                state := .started, rxQueues := rx₁, txQueues := tx₁ }
            simp only [hthread, Bool.false_eq_true, if_false, hstop] at hs
            rcases hs with ⟨t, ht, -⟩ | ⟨t, e', ht, hs⟩
            · cases ht
            · cases ht
              exact ⟨m₂, rx₂, tx₂, hmoved.trans hmoved₂,
                Or.inr ⟨fun _ => hnone, _, hs⟩⟩

/-- What `stop()` can do to a port: refuse and change nothing, or join
the thread and leave no queue running. -/
theorem stop_cases (m : Memory) (n : VNic) :
    (n.state ≠ .started
      ∧ stop (m, n) = ((m, n), .error .stateStopNotAllowed))
    ∨ (n.state = .started
      ∧ ∃ m' rx tx st r, Moved m n.rxQueues n.txQueues m' rx tx
      ∧ NoneStarted rx tx ∧ (st = .stopped ∨ st = .error)
      ∧ stop (m, n)
        = ((m', { n with
            state := st
            rxQueues := rx
            txQueues := tx
            thread := false }), r)) := by
  obtain ⟨m₁, rx₁, tx₁, r, heq, hmoved, hnone⟩ := stopQueues_cases m
    { n with state := .stopping, thread := false }
  rcases Stateful.stop_cases stopImpl (m, n) with
    ⟨hno, hs⟩ | ⟨hc, hs⟩
  · exact Or.inl ⟨hno, hs⟩
  · refine Or.inr ⟨hc, m₁, rx₁, tx₁, ?_⟩
    rw [show stopImpl (Stateful.setState .stopping (m, n)) = _ from heq] at hs
    rcases hs with ⟨t, ht, hs⟩ | ⟨t, e, ht, hs⟩
    · cases ht
      exact ⟨.stopped, _, hmoved, hnone, Or.inl rfl, hs⟩
    · cases ht
      exact ⟨.error, _, hmoved, hnone, Or.inr rfl, hs⟩

end VNic

end Vnic
