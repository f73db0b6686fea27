/-
The control plane of a port, over every run.

- `Agrees`: the poll thread and the queues run exactly while the port is
  `Started`, whichever queue or thread failed to start on the way.
- `TableOk`: with RSS on, the table is one that was checked against the
  configuration in force, and the queues are as many as that
  configuration says. So `distribute` cannot index outside either.

# Two invariants, one shape

Both are invariants of single steps and lifted to runs by the rule of the
step system. The data-path steps keep the shape of the port
(`step_sameShape`), which settles them at once; the work is in the control
calls, where the specifications of `start`, `stop` and `configure` say
what the walks over the queues have left behind. A queue
or a thread that fails to start ends in the rollback, which stops exactly
the queues that were started; `stop` reaches every queue, whichever of
them fails.
-/
import Vnic.Proofs.System

-- ==================================================== who is running

namespace Vnic.VNic

/-- The poll thread and the queues run exactly while the port is
`Started`. -/
structure Agrees (n : VNic) : Prop where
  up : n.state = .started →
    n.thread = true ∧ AllStarted n.rxQueues n.txQueues
  down : n.state ≠ .started →
    n.thread = false ∧ NoneStarted n.rxQueues n.txQueues

variable {m : Memory} {n n' : VNic}

/-- Two rows whose components read alike have the same properties of what
is read. -/
private theorem forall_of_map_eq {σ β : Type} {f : σ → β} {l l' : List σ}
    (h : l'.map f = l.map f) {P : β → Prop} (hl : ∀ q ∈ l, P (f q)) :
    ∀ q ∈ l', P (f q) := by
  rw [← List.forall_mem_map (P := P), h, List.forall_mem_map]
  exact hl

private theorem Agrees.of_states (h : Agrees n) (hstate : n'.state = n.state)
    (hthread : n'.thread = n.thread)
    (hrx : n'.rxQueues.map RxQueue.state = n.rxQueues.map RxQueue.state)
    (htx : n'.txQueues.map TxQueue.state = n.txQueues.map TxQueue.state) :
    Agrees n' := by
  refine ⟨fun hst => ?_, fun hst => ?_⟩
  · obtain ⟨ht, hr, hx⟩ := h.up (hstate ▸ hst)
    exact ⟨hthread.trans ht, forall_of_map_eq (P := (· = .started)) hrx hr,
      forall_of_map_eq (P := (· = .started)) htx hx⟩
  · obtain ⟨ht, hr, hx⟩ := h.down (hstate ▸ hst)
    exact ⟨hthread.trans ht, forall_of_map_eq (P := (· ≠ .started)) hrx hr,
      forall_of_map_eq (P := (· ≠ .started)) htx hx⟩

/-- A port that is down agrees when nothing runs. -/
private theorem Agrees.of_down (hst : n.state ≠ .started)
    (ht : n.thread = false)
    (hno : NoneStarted n.rxQueues n.txQueues) : Agrees n :=
  ⟨fun h => absurd h hst, fun _ => ⟨ht, hno⟩⟩

/-- `configure` leaves fresh, stopped queues or the old ones as they were. -/
theorem Agrees.configure (h : Agrees n) (config : Config) :
    Agrees (configure config (m, n)).1.2 := by
  rcases configure_cases config m n with
    ⟨-, heq⟩ | ⟨hc, -, heq⟩ | ⟨hc, -, mac, reta, -, heq⟩
  · rw [heq]
    exact h
  · rw [heq]
    obtain ⟨ht, hno⟩ := h.down hc.ne_started
    exact .of_down (fun hst => (by cases hst)) ht hno
  · rw [heq]
    obtain ⟨ht, -⟩ := h.down hc.ne_started
    refine .of_down (fun hst => (by cases hst)) ht ⟨?_, ?_⟩
    · intro q hq
      rw [List.eq_of_mem_replicate hq]
      exact fun hst => (by cases hst)
    · intro q hq
      rw [List.eq_of_mem_replicate hq]
      exact fun hst => (by cases hst)

private theorem Agrees.queueConfigured (h : Agrees n)
    (hc : Stateful.Configurable n.state) (hq : QueueConfigured n n') :
    Agrees n' := by
  obtain ⟨st, rx, tx, hst, -, hno, rfl⟩ := hq
  obtain ⟨ht, hdown⟩ := h.down hc.ne_started
  refine .of_down ?_ ht (hno hdown)
  rcases hst with rfl | rfl
  · exact fun hst => (by cases hst)
  · exact fun hst => (by cases hst)

/-- `start` brings all queues up and the thread, or none. -/
theorem Agrees.start (h : Agrees n) (env : StartEnv) :
    Agrees (start env (m, n)).1.2 := by
  rcases start_cases env m n with
    ⟨-, heq⟩ | ⟨hc, m', rx, tx, -, ⟨hall, heq⟩ | ⟨hno, e, heq⟩⟩
  · rw [heq]
    exact h
  · rw [heq]
    obtain ⟨-, hdown⟩ := h.down (by rw [hc]; simp)
    exact ⟨fun _ => ⟨rfl, hall hdown⟩, fun hst => absurd rfl hst⟩
  · rw [heq]
    obtain ⟨ht, hdown⟩ := h.down (by rw [hc]; simp)
    exact .of_down (fun hst => (by cases hst)) ht (hno hdown)

/-- `stop` brings all queues down and joins the thread, whatever it
returns. -/
theorem Agrees.stop (h : Agrees n) : Agrees (stop (m, n)).1.2 := by
  rcases stop_cases m n with
    ⟨-, heq⟩ | ⟨-, m', rx, tx, st, r, -, hno, hst, heq⟩
  · rw [heq]
    exact h
  · rw [heq]
    refine .of_down ?_ rfl hno
    rcases hst with rfl | rfl
    · exact fun hst => (by cases hst)
    · exact fun hst => (by cases hst)

end Vnic.VNic

namespace Vnic.Sys

open Row VNic

variable {s t : Sys} {a : Op} {e : Event}

/-- A step of the data path does not touch any state; a control call is one
of the above. -/
theorem step_agrees (hi : Agrees s.nic) (h : s.step a = some (t, e)) :
    Agrees t.nic := by
  by_cases hop : a.IsControl
  · cases a with
    | configure config =>
        simp only [step, Option.some.injEq, Prod.mk.injEq] at h
        rw [← h.1]
        exact hi.configure config
    | configureRx queueId config =>
        simp only [step, Option.some.injEq, Prod.mk.injEq] at h
        rw [← h.1]
        rcases configureRx_cases queueId config s.nic with
          ⟨-, heq⟩ | ⟨hc, hq⟩
        · rw [heq]
          exact hi
        · exact hi.queueConfigured hc hq
    | configureTx queueId config =>
        simp only [step, Option.some.injEq, Prod.mk.injEq] at h
        rw [← h.1]
        rcases configureTx_cases queueId config s.nic with
          ⟨-, heq⟩ | ⟨hc, hq⟩
        · rw [heq]
          exact hi
        · exact hi.queueConfigured hc hq
    | start env =>
        simp only [step, Option.some.injEq, Prod.mk.injEq] at h
        rw [← h.1]
        exact hi.start env
    | stop =>
        obtain ⟨-, rfl, -⟩ := step_stop h
        exact hi.stop
    | _ => exact absurd hop (fun hno => hno)
  -- a data-path step: no state moves
  · have hs := step_sameShape hop h
    exact hi.of_states hs.state hs.thread hs.rxStates hs.txStates

theorem agrees_init (blocks : Blocks) : Agrees (init blocks).nic :=
  .of_down (fun hst => (by cases hst)) rfl
    ⟨fun q hq => (by cases hq), fun q hq => (by cases hq)⟩

/-- Over every run: the poll thread exists and every queue is started
while the port is `Started`, and neither otherwise. A `start()` that got
as far as starting queues and then failed has left none of them running
and no thread. -/
theorem lifecycle_agreement {blocks : Blocks} {as : List Op}
    {es : List Event} (hrun : sys.run (init blocks) as = some (t, es)) :
    (t.nic.state = .started →
      t.nic.thread = true ∧ (∀ q ∈ t.nic.rxQueues, q.state = .started)
        ∧ ∀ q ∈ t.nic.txQueues, q.state = .started)
    ∧ (t.nic.state ≠ .started →
      t.nic.thread = false ∧ (∀ q ∈ t.nic.rxQueues, q.state ≠ .started)
        ∧ ∀ q ∈ t.nic.txQueues, q.state ≠ .started)
    ∧ ∀ env p code, t.nic.state = .configured →
      VNic.start env t.pair = (p, .error code) →
      p.2.state = .error ∧ p.2.thread = false
        ∧ (∀ q ∈ p.2.rxQueues, q.state ≠ .started)
        ∧ ∀ q ∈ p.2.txQueues, q.state ≠ .started := by
  have hi : Agrees t.nic :=
    sys.run_invariant (fun hi hs => step_agrees hi hs) (agrees_init blocks)
      hrun
  refine ⟨hi.up, hi.down, fun env p code hc hs => ?_⟩
  have hp := hi.start (m := t.mem) env
  rw [show VNic.start env (t.mem, t.nic) = (p, .error code) from hs] at hp
  have herr : p.2.state = .error := by
    rcases start_cases env t.mem t.nic with
      ⟨hno, -⟩ | ⟨-, m', rx, tx, -, ⟨-, heq⟩ | ⟨-, e, heq⟩⟩
    · exact absurd hc hno
    · rw [show VNic.start env (t.mem, t.nic) = (p, .error code) from hs]
        at heq
      cases heq
    · rw [show VNic.start env (t.mem, t.nic) = (p, .error code) from hs]
        at heq
      cases heq
      rfl
  exact ⟨herr, hp.down (by rw [herr]; simp)⟩

/-- A port with one RX and one TX queue, both configured. -/
def readyToStart : List Op :=
  [.configure { txQueueCount := 1 }, .configureRx 0 { size := 1 },
    .configureTx 0 {}]

/-- The thread cannot be made: both queues had started. -/
theorem lifecycle_agreement_noThread :
    ∃ t es p, sys.run (init ∅) readyToStart = some (t, es)
      ∧ VNic.start { thread := false } t.pair
        = (p, .error .threadCreateFailed)
      ∧ (∃ q, q ∈ p.2.rxQueues) ∧ ∀ q ∈ p.2.rxQueues, q.state ≠ .started := by
  have heval : (sys.run (init ∅) readyToStart).map
      (fun p => (p.1.nic.state,
        (VNic.start { thread := false } p.1.pair).2,
        (VNic.start { thread := false } p.1.pair).1.2.rxQueues.length))
      = some (.configured, .error .threadCreateFailed, 1) := by decide
  obtain ⟨⟨t, es⟩, hrun, hp⟩ := Option.map_eq_some_iff.1 heval
  simp only [Prod.mk.injEq] at hp
  obtain ⟨hc, herr, hlen⟩ := hp
  have hstart : VNic.start { thread := false } t.pair
      = ((VNic.start { thread := false } t.pair).1,
        .error .threadCreateFailed) := Prod.ext rfl herr
  refine ⟨t, es, _, hrun, hstart, ?_, ?_⟩
  · exact List.exists_mem_of_length_pos (by rw [hlen]; exact Nat.one_pos)
  · exact ((lifecycle_agreement hrun).2.2 _ _ _ hc hstart).2.2.1

end Vnic.Sys

-- ====================================================== the RSS table

namespace Vnic.VNic

variable {m : Memory} {n n' : VNic}

/-- The table fits the configuration in force, and so do the queues. -/
structure TableOk (n : VNic) : Prop where
  good : n.config.rss.enabled = true →
    GoodReta n.config.rxQueueCount n.reta
  count : n.rxQueues = []
    ∨ n.rxQueues.length = n.config.rxQueueCount.toNat

/-- The index masked with the size of the table is inside it. -/
theorem retaIndex_lt {reta : Reta} (hne : reta ≠ []) (hash : UInt32) :
    retaIndex reta hash < reta.length := by
  have hpos := List.length_pos_iff.2 hne
  have hle : retaIndex reta hash ≤ reta.length - 1 := Nat.and_le_right
  omega

private theorem GoodReta.isPowerOfTwo {count : UInt16} {reta : Reta}
    (h : GoodReta count reta) : reta.length.isPowerOfTwo := by
  have hne : reta.length ≠ 0 := by simpa using h.ne_nil
  apply (Nat.and_sub_one_eq_zero_iff_isPowerOfTwo hne).1
  simpa [notPowerOfTwo] using h.size

/-- What a lookup reads is a queue of the row. -/
theorem GoodReta.read_lt {count : UInt16} {reta : Reta}
    (h : GoodReta count reta) (hash : UInt32) :
    readReta reta hash < count := by
  have hlt := retaIndex_lt h.ne_nil hash
  unfold readReta
  rw [if_neg h.ne_nil, List.getD_eq_getElem?_getD,
    List.getElem?_eq_getElem hlt]
  exact h.bound _ (List.getElem_mem hlt)

private theorem frameHash_enabled {parser : Parser} {hash : UInt32}
    (h : n.frameHash parser = some hash) :
    n.config.rss.enabled = true := by
  unfold frameHash at h
  split at h
  · next hon =>
    rw [Bool.and_eq_true] at hon
    exact hon.1
  · cases h

/-- The queue `distribute` selects exists. -/
theorem TableOk.queueId_lt (h : TableOk n) (hne : n.rxQueues ≠ [])
    (now : UInt64) (parser : Parser) :
    (n.describe now parser).queueId.toNat < n.rxQueues.length := by
  unfold describe
  cases hhash : n.frameHash parser with
  | none => exact List.length_pos_iff.2 hne
  | some hash =>
      have hlt := (h.good (frameHash_enabled hhash)).read_lt hash
      rcases h.count with hnil | hcount
      · exact absurd hnil hne
      · rw [hcount]
        exact UInt16.lt_iff_toNat_lt.1 hlt

/-- Neither assertion of `distribute` fails on a port with queues. -/
theorem TableOk.distributeFaults (h : TableOk n) (hne : n.rxQueues ≠ [])
    (parser : Parser) : n.distributeFaults parser = [] := by
  unfold VNic.distributeFaults
  rw [if_pos (h.queueId_lt hne 0 parser), List.append_nil]
  cases hhash : n.frameHash parser with
  | none => rfl
  | some hash =>
      have hgood := h.good (frameHash_enabled hhash)
      show retaFaults n.reta hash = []
      unfold retaFaults
      rw [if_neg hgood.ne_nil, hgood.size,
        if_pos (retaIndex_lt hgood.ne_nil hash)]
      rfl

/-- A `configure` that succeeds installs the table it has validated. -/
theorem TableOk.configure (h : TableOk n) (config : Config) :
    TableOk (configure config (m, n)).1.2 := by
  rcases configure_cases config m n with
    ⟨-, heq⟩ | ⟨-, -, heq⟩ | ⟨-, -, mac, reta, htable, heq⟩
  · rw [heq]
    exact h
  · rw [heq]
    exact ⟨h.good, h.count⟩
  · rw [heq]
    refine ⟨fun hon => ?_, Or.inr (List.length_replicate ..)⟩
    unfold TableFor at htable
    rwa [if_pos (show config.rss.enabled = true from hon)] at htable

end Vnic.VNic

namespace Vnic.Sys

open Row VNic

variable {s t : Sys} {a : Op} {e : Event}

/-- Only `configure` and `updateReta` replace the table, and both check it. -/
theorem step_tableOk (hi : TableOk s.nic) (h : s.step a = some (t, e)) :
    TableOk t.nic := by
  have hcount : ∀ {rx : List RxQueue},
      rx.length = s.nic.rxQueues.length →
      rx = [] ∨ rx.length = s.nic.config.rxQueueCount.toNat := by
    intro rx hlen
    rcases hi.count with hnil | hc
    · exact Or.inl (List.length_eq_zero_iff.1 (by rw [hlen, hnil]; rfl))
    · exact Or.inr (hlen.trans hc)
  by_cases hop : a.IsControl
  · rcases step_control hop h with ⟨config, -, rfl, -⟩ | hs
    · exact hi.configure config
    · obtain ⟨m, st, rx, tx, thread, hmoved, rfl⟩ := hs
      exact ⟨hi.good, hcount hmoved.rx.length_eq⟩
  · have hs := step_sameShape hop h
    refine ⟨fun hon => ?_, ?_⟩
    · rw [hs.config] at hon ⊢
      rcases hs.reta with hreta | hgood
      · rw [hreta]
        exact hi.good hon
      · exact hgood
    · rw [hs.config]
      exact hcount (by simpa using congrArg List.length hs.rxStates)

theorem tableOk_init (blocks : Blocks) : TableOk (init blocks).nic :=
  ⟨fun hon => (by cases hon), Or.inl rfl⟩

/-- The table of every port that has been used in any way is good. -/
theorem tableOk_run {blocks : Blocks} {as : List Op} {es : List Event}
    (hrun : sys.run (init blocks) as = some (t, es)) : TableOk t.nic :=
  sys.run_invariant (fun hi hs => step_tableOk hi hs) (tableOk_init blocks)
    hrun

/-- Over every run, whatever frame is polled next on a port with queues:
with RSS on the table is not empty; a frame that is hashed finds a table
of a power-of-two size and its index inside it; every frame finds its
queue. So neither assertion of `distribute` fails. -/
theorem reta_safety {blocks : Blocks} {as : List Op} {es : List Event}
    (hrun : sys.run (init blocks) as = some (t, es))
    (hne : t.nic.rxQueues ≠ []) (now : UInt64) (parser : Parser) :
    (t.nic.config.rss.enabled = true → t.nic.reta ≠ [])
    ∧ (∀ hash, t.nic.frameHash parser = some hash →
      t.nic.reta.length.isPowerOfTwo
        ∧ notPowerOfTwo t.nic.reta.length = false
        ∧ retaIndex t.nic.reta hash < t.nic.reta.length)
    ∧ (t.nic.describe now parser).queueId.toNat < t.nic.rxQueues.length
    ∧ t.nic.distributeFaults parser = [] := by
  have hi := tableOk_run hrun
  refine ⟨fun hon => (hi.good hon).ne_nil, fun hash hhash => ?_,
    hi.queueId_lt hne now parser, hi.distributeFaults hne parser⟩
  have hgood := hi.good (frameHash_enabled hhash)
  exact ⟨hgood.isPowerOfTwo, hgood.size, retaIndex_lt hgood.ne_nil hash⟩

/-- Two queues, a table of two entries, then one of four. -/
def tableReplaced : List Op :=
  [.configure
    { rxQueueCount := 2
      rss :=
        { enabled := true
          hf := .simpleXor
          key := List.replicate 40 0
          reta := [0, 1] } },
    .updateReta [1, 0, 1, 0]]

/-- The table of the update is in force, and safe. -/
theorem reta_safety_tableReplaced :
    ∃ t es, sys.run (init ∅) tableReplaced = some (t, es)
      ∧ t.nic.config.rss.enabled = true ∧ t.nic.reta = [1, 0, 1, 0]
      ∧ ∀ parser, t.nic.distributeFaults parser = [] := by
  have heval : (sys.run (init ∅) tableReplaced).map
      (fun p => (p.1.nic.rxQueues.length, p.1.nic.config.rss.enabled,
        p.1.nic.reta)) = some (2, true, [1, 0, 1, 0]) := by decide
  obtain ⟨⟨t, es⟩, hrun, hp⟩ := Option.map_eq_some_iff.1 heval
  simp only [Prod.mk.injEq] at hp
  obtain ⟨hlen, hon, hreta⟩ := hp
  have hne : t.nic.rxQueues ≠ [] := by
    intro hnil
    rw [hnil] at hlen
    cases hlen
  exact ⟨t, es, hrun, hon, hreta, fun parser =>
    (reta_safety hrun hne 0 parser).2.2.2⟩

end Vnic.Sys
