/-
The receive counters of a port, between two configurations.

`Counted s t es` relates the counters before and after to what the events
show: every frame whose iteration of `poll` ended was accepted by a queue
or dropped, and nothing else moves the counters. It holds of one step
(`step_counted`) and composes along a run (`Counted.trans`). The queues'
own counters are summed over the row; a queue bumps its counters in the
same step as the port, which is why the sums agree.

All counters are 64-bit and wrap around, so the statements are equations
in `UInt64`.
-/
import Vnic.Proofs.Custody
import Mathlib.Data.UInt

namespace Vnic.Sys

open Row VNic

variable {s t u : Sys} {a : Op} {e : Event} {es fs : List Event}

-- ============================================================== history

/-- The frame a queue accepted. -/
def Event.accepted : Event → List Frame
  | .frame f (.distributed _ (.ok ())) => [f]
  | _ => []

/-- The frame `parse` or `validate` rejected. -/
def Event.rejected : Event → List Frame
  | .frame f (.rejected _) => [f]
  | _ => []

/-- The frame `distribute` refused. -/
def Event.refused : Event → List Frame
  | .frame f (.distributed _ (.error _)) => [f]
  | _ => []

/-- The frame a queue refused for want of segments or descriptors. -/
def Event.overflowed : Event → List Frame
  | .frame f (.distributed _ (.error code)) =>
      if RxQueue.IsOverflow code then [f] else []
  | _ => []

/-- The frame a failing `takeRx` lost. -/
def Event.lost : Event → List Frame
  | .pollLost f => [f]
  | _ => []

/-- A number of frames, as a counter counts them. -/
def packets (fs : List Frame) : UInt64 := UInt64.ofNat fs.length

/-- Their bytes. -/
def bytes (fs : List Frame) : UInt64 :=
  UInt64.ofNat (fs.map List.length).sum

@[simp]
theorem packets_nil : packets [] = 0 := rfl

@[simp]
theorem packets_singleton (f : Frame) : packets [f] = 1 := rfl

@[simp]
theorem bytes_nil : bytes [] = 0 := rfl

@[simp]
theorem bytes_singleton (f : Frame) : bytes [f] = UInt64.ofNat f.length := by
  simp [bytes]

private theorem packets_append (fs gs : List Frame) :
    packets (fs ++ gs) = packets fs + packets gs := by
  unfold packets
  rw [List.length_append, UInt64.ofNat_add]

private theorem bytes_append (fs gs : List Frame) :
    bytes (fs ++ gs) = bytes fs + bytes gs := by
  unfold bytes
  rw [List.map_append, List.sum_append, UInt64.ofNat_add]

private theorem packets_perm {fs gs : List Frame} (h : fs.Perm gs) :
    packets fs = packets gs := by
  unfold packets
  rw [h.length_eq]

private theorem bytes_perm {fs gs : List Frame} (h : fs.Perm gs) :
    bytes fs = bytes gs := by
  unfold bytes
  rw [(h.map _).sum_nat]

/-- One counter summed over the RX queues. -/
def total (counter : Stats → UInt64) (s : Sys) : UInt64 :=
  (s.nic.rxQueues.map fun q => counter q.stats).sum

/-- A queue that adds to its counter adds to the sum. -/
theorem sum_set {σ : Type} {counter : σ → UInt64} {row : List σ} {i : Nat}
    {q q' : σ} {d : UInt64} (hq : row[i]? = some q)
    (h : counter q' = counter q + d) :
    ((row.set i q').map counter).sum = (row.map counter).sum + d := by
  obtain ⟨pre, post, -, hrow, hset⟩ := split_at hq
  rw [hset, hrow]
  simp only [List.map_append, List.map_cons, List.sum_append, List.sum_cons,
    h]
  ac_rfl

-- ============================================================= one step

/-- The receive counters moved by exactly what the events show. -/
structure Counted (s t : Sys) (es : List Event) : Prop where
  processedPackets : t.nic.stats.processedPackets
    = s.nic.stats.processedPackets + packets (es.flatMap Event.accepted)
  processedBytes : t.nic.stats.processedBytes
    = s.nic.stats.processedBytes + bytes (es.flatMap Event.accepted)
  droppedPackets : t.nic.stats.droppedPackets
    = s.nic.stats.droppedPackets + packets (es.flatMap Event.rejected)
      + packets (es.flatMap Event.refused)
  droppedBytes : t.nic.stats.droppedBytes
    = s.nic.stats.droppedBytes + bytes (es.flatMap Event.rejected)
      + bytes (es.flatMap Event.refused)
  errors : t.nic.stats.errors
    = s.nic.stats.errors + packets (es.flatMap Event.rejected)
      + packets (es.flatMap Event.lost)
  queuePackets : t.total Stats.processedPackets
    = s.total Stats.processedPackets + packets (es.flatMap Event.accepted)
  queueBytes : t.total Stats.processedBytes
    = s.total Stats.processedBytes + bytes (es.flatMap Event.accepted)
  overflows : t.total Stats.overflows
    = s.total Stats.overflows + packets (es.flatMap Event.overflowed)

/-- Nothing happened, nothing was counted. -/
theorem Counted.refl (s : Sys) : Counted s s [] := by
  constructor <;> simp

/-- Counts add up along a run. -/
theorem Counted.trans (h : Counted s t es) (h' : Counted t u fs) :
    Counted s u (es ++ fs) := by
  constructor
  all_goals simp only [List.flatMap_append, packets_append, bytes_append]
  · rw [h'.processedPackets, h.processedPackets]
    ac_rfl
  · rw [h'.processedBytes, h.processedBytes]
    ac_rfl
  · rw [h'.droppedPackets, h.droppedPackets]
    ac_rfl
  · rw [h'.droppedBytes, h.droppedBytes]
    ac_rfl
  · rw [h'.errors, h.errors]
    ac_rfl
  · rw [h'.queuePackets, h.queuePackets]
    ac_rfl
  · rw [h'.queueBytes, h.queueBytes]
    ac_rfl
  · rw [h'.overflows, h.overflows]
    ac_rfl

/-- An event no counter shows. -/
structure Event.Uncounted (e : Event) : Prop where
  accepted : e.accepted = []
  rejected : e.rejected = []
  refused : e.refused = []
  overflowed : e.overflowed = []
  lost : e.lost = []

private theorem Event.IsControl.uncounted (h : e.IsControl) : e.Uncounted := by
  cases e with
  | frame f v => exact absurd h (fun hno => hno)
  | pollLost f => exact absurd h (fun hno => hno)
  | _ => exact ⟨rfl, rfl, rfl, rfl, rfl⟩

/-- The port counters of a step that receives nothing. -/
structure SameCounters (st st' : Stats) : Prop where
  processedPackets : st'.processedPackets = st.processedPackets
  processedBytes : st'.processedBytes = st.processedBytes
  droppedPackets : st'.droppedPackets = st.droppedPackets
  droppedBytes : st'.droppedBytes = st.droppedBytes
  errors : st'.errors = st.errors

theorem SameCounters.refl (st : Stats) : SameCounters st st :=
  ⟨rfl, rfl, rfl, rfl, rfl⟩

private theorem total_eq {counter : Stats → UInt64}
    (h : t.nic.rxQueues.map RxQueue.stats = s.nic.rxQueues.map RxQueue.stats) :
    t.total counter = s.total counter := by
  have hmap := congrArg (List.map counter) h
  rw [List.map_map, List.map_map] at hmap
  exact congrArg List.sum hmap

private theorem Counted.of_uncounted (he : e.Uncounted)
    (hport : SameCounters s.nic.stats t.nic.stats)
    (hrx : t.nic.rxQueues.map RxQueue.stats
      = s.nic.rxQueues.map RxQueue.stats) : Counted s t [e] := by
  constructor
  all_goals simp only [List.flatMap_singleton, he.accepted, he.rejected,
    he.refused, he.overflowed, he.lost, packets_nil, bytes_nil,
    UInt64.add_zero]
  · exact hport.processedPackets
  · exact hport.processedBytes
  · exact hport.droppedPackets
  · exact hport.droppedBytes
  · exact hport.errors
  · exact total_eq hrx
  · exact total_eq hrx
  · exact total_eq hrx

/-- A frame that reached no queue: `errors` is bumped when `parse` or
`validate` rejected it. -/
private theorem Counted.of_rejected (packet : Frame) (code : ErrorCode)
    (hstats : t.nic.stats
      = s.nic.stats.fetchErrors.fetchDropped packet.length)
    (hrx : t.nic.rxQueues = s.nic.rxQueues) :
    Counted s t [.frame packet (.rejected code)] := by
  have hrx' := congrArg (List.map RxQueue.stats) hrx
  constructor
  all_goals simp only [List.flatMap_singleton, Event.accepted,
    Event.rejected, Event.refused, Event.overflowed, Event.lost, packets_nil,
    packets_singleton, bytes_nil, bytes_singleton, UInt64.add_zero, hstats,
    total_eq hrx']
  all_goals rfl

/-- A frame that `takeRx` removed and could not copy. -/
private theorem Counted.of_lost (f : Frame)
    (hstats : t.nic.stats = s.nic.stats.fetchErrors)
    (hrx : t.nic.rxQueues = s.nic.rxQueues) :
    Counted s t [.pollLost f] := by
  have hrx' := congrArg (List.map RxQueue.stats) hrx
  constructor
  all_goals simp only [List.flatMap_singleton, Event.accepted,
    Event.rejected, Event.refused, Event.overflowed, Event.lost, packets_nil,
    packets_singleton, bytes_nil, UInt64.add_zero, hstats, total_eq hrx']
  all_goals rfl

/-- A frame `distribute` dropped without asking a queue. -/
private theorem Counted.of_unrouted (packet : Frame) (desc : PacketDescriptor)
    (hstats : t.nic.stats = s.nic.stats.fetchDropped packet.length)
    (hrx : t.nic.rxQueues = s.nic.rxQueues) :
    Counted s t
      [.frame packet (.distributed desc (.error .queueNotConfigured))] := by
  have hrx' := congrArg (List.map RxQueue.stats) hrx
  have hno : ¬ RxQueue.IsOverflow .queueNotConfigured := by decide
  constructor
  all_goals simp only [List.flatMap_singleton, Event.accepted,
    Event.rejected, Event.refused, Event.overflowed, Event.lost, packets_nil,
    packets_singleton, bytes_nil, bytes_singleton, UInt64.add_zero, hstats,
    total_eq hrx', if_neg hno]
  all_goals rfl

/-- A frame a queue accepted: the queue and the port count it. -/
private theorem Counted.of_accepted {i : Nat} {q q' : RxQueue} (packet : Frame)
    (desc : PacketDescriptor) (hq : s.nic.rxQueues[i]? = some q)
    (hqs : q'.stats = q.stats.fetchProcessed packet.length)
    (hstats : t.nic.stats = s.nic.stats.fetchProcessed packet.length)
    (hrx : t.nic.rxQueues = s.nic.rxQueues.set i q') :
    Counted s t [.frame packet (.distributed desc (.ok ()))] := by
  constructor
  all_goals simp only [List.flatMap_singleton, Event.accepted,
    Event.rejected, Event.refused, Event.overflowed, Event.lost, packets_nil,
    packets_singleton, bytes_nil, bytes_singleton, UInt64.add_zero, hstats,
    total, hrx]
  · rfl
  · rfl
  · rfl
  · rfl
  · rfl
  · exact sum_set hq (by rw [hqs]; rfl)
  · exact sum_set hq (by rw [hqs]; rfl)
  · refine (sum_set (d := 0) hq ?_).trans (UInt64.add_zero _)
    rw [hqs]
    simp [Stats.fetchProcessed]

/-- A frame a queue refused: the port drops it, and the queue counts the
refusals that are overflows. -/
private theorem Counted.of_refused {i : Nat} {q q' : RxQueue} (packet : Frame)
    (desc : PacketDescriptor) {code : ErrorCode}
    (hq : s.nic.rxQueues[i]? = some q)
    (hqs : q'.stats = if RxQueue.IsOverflow code then q.stats.fetchOverflows
      else q.stats)
    (hstats : t.nic.stats = s.nic.stats.fetchDropped packet.length)
    (hrx : t.nic.rxQueues = s.nic.rxQueues.set i q') :
    Counted s t [.frame packet (.distributed desc (.error code))] := by
  constructor
  all_goals simp only [List.flatMap_singleton, Event.accepted,
    Event.rejected, Event.refused, Event.overflowed, Event.lost, packets_nil,
    packets_singleton, bytes_nil, bytes_singleton, UInt64.add_zero, hstats,
    total, hrx]
  · rfl
  · rfl
  · rfl
  · rfl
  · rfl
  · refine (sum_set (d := 0) hq ?_).trans (UInt64.add_zero _)
    rw [hqs, UInt64.add_zero]
    split <;> rfl
  · refine (sum_set (d := 0) hq ?_).trans (UInt64.add_zero _)
    rw [hqs, UInt64.add_zero]
    split <;> rfl
  · apply sum_set hq
    rw [hqs]
    split
    · rfl
    · exact (UInt64.add_zero _).symm

/-- The steps an accounting period is made of. -/
def Event.InPeriod (e : Event) : Prop :=
  e ≠ .configure (.ok ()) ∧ e ≠ .resetStats

instance (e : Event) : Decidable e.InPeriod :=
  inferInstanceAs (Decidable (_ ∧ _))

/-- Within a period a control call counts nothing and keeps the queues. -/
private theorem control_counted (h : s.step a = some (t, e))
    (hop : a.IsControl)
    (he : e.InPeriod) : Counted s t [e] := by
  have hun := (step_control_event hop h).uncounted
  rcases step_control hop h with ⟨config, -, rfl, rfl⟩ | hs
  · rcases configure_cases config s.mem s.nic with
      ⟨-, heq⟩ | ⟨-, -, heq⟩ | ⟨-, -, mac, reta, -, heq⟩
    · rw [pair, heq] at hun ⊢
      exact .of_uncounted hun (.refl _) rfl
    · rw [pair, heq] at hun ⊢
      exact .of_uncounted hun (.refl _) rfl
    · rw [pair, heq] at he
      exact absurd rfl he.1
  · obtain ⟨m, st, rx, tx, thread, hmoved, rfl⟩ := hs
    exact .of_uncounted hun (.refl _) (hmoved.rx.map_eq fun hc => hc.stats)

/-- One queue changed, and kept its counters. -/
private theorem stats_set {rx : List RxQueue} {i : Nat} {q q' : RxQueue}
    (hq : rx[i]? = some q) (h : q'.stats = q.stats) :
    (rx.set i q').map RxQueue.stats = rx.map RxQueue.stats := by
  have hwalk : Walk (fun (_ : Unit) (q : RxQueue) _ q' => q'.stats = q.stats)
      () rx () (rx.set i q') := .set hq h
  exact hwalk.map_eq fun h => h

/-- A frame is counted once by the port, and by its queue when it was
accepted. -/
private theorem pollFrame_counted (hi : Inv s) {malloc : Malloc} {now : UInt64}
    (h : s.step (.pollFrame malloc now) = some (t, e)) :
    Counted s t [e] := by
  obtain ⟨packet, m, n, verdict, -, hp, rfl, rfl⟩ := step_pollFrame h
  cases hp with
  | rejected code => exact .of_rejected packet code rfl rfl
  | noQueues _ _ => exact .of_unrouted packet _ rfl rfl
  | @outOfRange parser _ hne hq =>
      -- the table is checked, so the queue exists
      have hlt := hi.table.queueId_lt hne now parser
      rw [List.getElem?_eq_getElem hlt] at hq
      cases hq
  | @put parser q q' _ r _ hq hput =>
      rcases RxQueue.put_cases malloc (s.nic.describe now parser) packet
        { s.mem with
          faults := s.mem.faults ++ s.nic.distributeFaults parser } q with
        ⟨ps, m₁, q₁, heq, hpub⟩ | ⟨code, m₁, q₁, heq, href⟩
      · rw [heq] at hput
        cases hput
        exact .of_accepted packet _ hq (by rw [hpub.queue]; rfl) rfl rfl
      · rw [heq] at hput
        cases hput
        exact .of_refused packet _ hq href.stats rfl rfl

/-- The increments of one step are those of its event. -/
private theorem step_counted (hi : Inv s) (he : e.InPeriod)
    (h : s.step a = some (t, e)) : Counted s t [e] := by
  cases a with
  | configure _ => exact control_counted h trivial he
  | configureRx _ _ => exact control_counted h trivial he
  | configureTx _ _ => exact control_counted h trivial he
  | start _ => exact control_counted h trivial he
  | stop => exact control_counted h trivial he
  -- only `pollFrame`, `pollTake` and the control calls can touch a counter
  -- of the RX side; the cases in between show that they do not
  | updateReta reta =>
      obtain ⟨reta', r, rfl, rfl, -⟩ := step_updateReta h
      exact .of_uncounted ⟨rfl, rfl, rfl, rfl, rfl⟩ (.refl _) rfl
  | resetStats =>
      simp only [step, Option.some.injEq, Prod.mk.injEq] at h
      exact absurd h.2.symm he.2
  | tx queueId descs =>
      simp only [step, Option.some.injEq, Prod.mk.injEq] at h
      rw [← h.1, ← h.2]
      have hs := tx_sentOnly s.mem queueId descs s.nic
      exact .of_uncounted ⟨rfl, rfl, rfl, rfl, rfl⟩
        ⟨hs.processedPackets, hs.processedBytes, hs.droppedPackets,
          hs.droppedBytes, hs.errors⟩ (congrArg _ hs.rxQueues)
  | rx queueId =>
      rcases step_rx h with ⟨-, rfl, rfl⟩ | ⟨q, hq, rfl, rfl⟩
      · exact .of_uncounted ⟨rfl, rfl, rfl, rfl, rfl⟩ (.refl _) rfl
      · exact .of_uncounted ⟨rfl, rfl, rfl, rfl, rfl⟩ (.refl _)
          (stats_set hq (take_frame q).2.2)
  | freeRx queueId tickets =>
      obtain ⟨⟨descs, r, rfl⟩, rfl | ⟨q, ds, held, hq, -, rfl⟩⟩ :=
        step_freeRx h
      · exact .of_uncounted ⟨rfl, rfl, rfl, rfl, rfl⟩ (.refl _) rfl
      · exact .of_uncounted ⟨rfl, rfl, rfl, rfl, rfl⟩ (.refl _)
          (stats_set hq (by rw [RxQueue.free_frame]))
  | putRx alloc frame =>
      simp only [step, Option.some.injEq, Prod.mk.injEq] at h
      rw [← h.1, ← h.2]
      exact .of_uncounted ⟨rfl, rfl, rfl, rfl, rfl⟩ (.refl _) rfl
  | takeTx alloc =>
      simp only [step, Option.some.injEq, Prod.mk.injEq] at h
      rw [← h.1, ← h.2]
      exact .of_uncounted ⟨rfl, rfl, rfl, rfl, rfl⟩ (.refl _) rfl
  | setUp up =>
      simp only [step, Option.some.injEq, Prod.mk.injEq] at h
      rw [← h.1, ← h.2]
      exact .of_uncounted ⟨rfl, rfl, rfl, rfl, rfl⟩ (.refl _) rfl
  | pollCheck =>
      obtain ⟨-, -, ⟨-, rfl, rfl⟩ | ⟨rfl, rfl⟩⟩ := step_pollCheck h
      · exact .of_uncounted ⟨rfl, rfl, rfl, rfl, rfl⟩ (.refl _) rfl
      · exact .of_uncounted ⟨rfl, rfl, rfl, rfl, rfl⟩ (.refl _) rfl
  | pollTake alloc =>
      obtain ⟨-, -, -,
        ⟨rfl, rfl⟩ | ⟨frame, rest, -, ⟨rfl, rfl⟩ | ⟨rfl, rfl⟩⟩⟩ :=
        step_pollTake h
      · exact .of_uncounted ⟨rfl, rfl, rfl, rfl, rfl⟩ (.refl _) rfl
      · exact .of_uncounted ⟨rfl, rfl, rfl, rfl, rfl⟩ (.refl _) rfl
      · exact .of_lost frame rfl rfl
  | pollFrame malloc now => exact pollFrame_counted hi h

/-- The increments of a run are those of its events. -/
private theorem run_counted (hi : Inv s) {as : List Op}
    (hrun : sys.run s as = some (t, es)) (he : ∀ e ∈ es, e.InPeriod) :
    Counted s t es := by
  have h := sys.run_history_along (G := fun _ _ e => e.InPeriod)
    (P := fun u fs => Inv u ∧ Counted s u fs)
    (fun hP hs hg => ⟨hP.1.step hs,
      hP.2.trans (step_counted hP.1 hg hs)⟩)
    (sys.along_of_events hrun he) hrun [] ⟨hi, .refl s⟩
  simpa using h.2

-- ============================================================ a period

/-- Every completed iteration was counted as accepted, or as dropped after
a rejection or a refusal. -/
theorem Event.completed_eq (e : Event) :
    e.completed = e.accepted ++ (e.rejected ++ e.refused) := by
  cases e with
  | frame f v =>
      cases v with
      | rejected code => rfl
      | distributed desc r =>
          cases r with
          | ok u => rfl
          | error code => rfl
  | _ => rfl

/-- Every frame that was completed was accepted, refused or rejected. -/
private theorem completed_perm (es : List Event) :
    (es.flatMap Event.completed).Perm (es.flatMap Event.accepted
      ++ (es.flatMap Event.rejected ++ es.flatMap Event.refused)) := by
  rw [List.flatMap_congr fun e _ => e.completed_eq]
  apply (List.flatMap_append_perm es _ _).symm.trans
  exact (List.flatMap_append_perm es _ _).symm.append_left _

/-- A successful `configure(config)` leaves fresh queues and nothing in
hand. -/
theorem configured_fresh (hi : Inv s) {config : VNic.Config}
    (h : s.step (.configure config) = some (t, .configure (.ok ()))) :
    t.nic.rxQueues = List.replicate config.rxQueueCount.toNat {}
      ∧ t.nic.txQueues = List.replicate config.txQueueCount.toNat {}
      ∧ t.inFlight = none := by
  simp only [step, Option.some.injEq, Prod.mk.injEq,
    Event.configure.injEq] at h
  obtain ⟨rfl, hr⟩ := h
  obtain ⟨hc, -, mac, -, heq⟩ := configure_of_ok hr
  rw [pair, heq]
  refine ⟨rfl, rfl, ?_⟩
  by_contra hf
  exact hc.ne_started (hi.busy hf)

private theorem sum_replicate_zero (n : Nat) :
    (List.replicate n (0 : UInt64)).sum = 0 := by
  induction n with
  | zero => rfl
  | succ n ih => rw [List.replicate_succ, List.sum_cons, ih, UInt64.add_zero]

theorem sum_map_replicate {σ : Type} {counter : σ → UInt64} {q : σ}
    (h : counter q = 0) (n : Nat) :
    ((List.replicate n q).map counter).sum = 0 := by
  rw [List.map_replicate, h]
  exact sum_replicate_zero n

private theorem total_replicate {counter : Stats → UInt64} (h : counter {} = 0)
    {n : Nat} (hrx : s.nic.rxQueues = List.replicate n {}) :
    s.total counter = 0 := by
  unfold total
  rw [hrx]
  apply sum_map_replicate
  exact h

/-- By how much a port counter grew. -/
def increase (counter : Stats → UInt64) (s t : Sys) : UInt64 :=
  counter t.nic.stats - counter s.nic.stats

/-- An increase modulo 2^64 determines the summand. -/
theorem increase_eq {counter : Stats → UInt64} {d : UInt64}
    (h : counter t.nic.stats = counter s.nic.stats + d) :
    increase counter s t = d := by
  unfold increase
  rw [h, UInt64.add_comm, UInt64.add_sub_cancel]

/-- Between a successful `configure(config)` and the next, with no
`resetStats()`: the frames whose iteration of `poll` is over are those
`takeRx` handed out but for one in hand; each was counted once, as
processed or as dropped, in packets and in bytes; the processed ones are
those the queues counted; `errors` counts the rejected frames and the
failed `takeRx`; and the queues' `overflows` count the frames refused for
want of segments or descriptors. -/
theorem rx_accounting {blocks : Blocks} {as bs : List Op} {s₀ : Sys}
    {config : VNic.Config} (hrun : sys.run (init blocks) as = some (s, fs))
    (hconf : s.step (.configure config)
      = some (s₀, .configure (.ok ())))
    (hperiod : sys.run s₀ bs = some (t, es))
    (hkeep : ∀ e ∈ es, e ≠ .configure (.ok ()) ∧ e ≠ .resetStats) :
    es.flatMap Event.taken
      = es.flatMap Event.completed ++ t.inFlight.toList
    ∧ (es.flatMap Event.completed).Perm (es.flatMap Event.accepted
      ++ (es.flatMap Event.rejected ++ es.flatMap Event.refused))
    ∧ increase Stats.processedPackets s₀ t
        + increase Stats.droppedPackets s₀ t
      = packets (es.flatMap Event.completed)
    ∧ increase Stats.processedBytes s₀ t + increase Stats.droppedBytes s₀ t
      = bytes (es.flatMap Event.completed)
    ∧ increase Stats.processedPackets s₀ t
      = packets (es.flatMap Event.accepted)
    ∧ increase Stats.processedBytes s₀ t
      = bytes (es.flatMap Event.accepted)
    ∧ increase Stats.processedPackets s₀ t = t.total Stats.processedPackets
    ∧ increase Stats.processedBytes s₀ t = t.total Stats.processedBytes
    ∧ increase Stats.errors s₀ t
      = packets (es.flatMap Event.rejected)
        + packets (es.flatMap Event.lost)
    ∧ t.total Stats.overflows = packets (es.flatMap Event.overflowed) := by
  have hi : Inv s := Inv.run hrun
  have hi₀ : Inv s₀ := hi.step hconf
  obtain ⟨hfresh, -, hnone⟩ := configured_fresh hi hconf
  have hc := run_counted hi₀ hperiod hkeep
  have htaken := run_taken hi₀ hperiod
  rw [hnone] at htaken
  have hperm := completed_perm es
  -- the counters wrap: an increase is the sum counted, modulo 2^64
  have hprocessed := increase_eq hc.processedPackets
  have hprocessedBytes := increase_eq hc.processedBytes
  have hdropped := increase_eq
    (hc.droppedPackets.trans (UInt64.add_assoc _ _ _))
  have hdroppedBytes := increase_eq
    (hc.droppedBytes.trans (UInt64.add_assoc _ _ _))
  refine ⟨htaken, hperm, ?_, ?_, hprocessed, hprocessedBytes, ?_, ?_,
    increase_eq (hc.errors.trans (UInt64.add_assoc _ _ _)), ?_⟩
  · rw [hprocessed, hdropped, packets_perm hperm, packets_append,
      packets_append]
  · rw [hprocessedBytes, hdroppedBytes, bytes_perm hperm, bytes_append,
      bytes_append]
  · rw [hprocessed, hc.queuePackets, total_replicate rfl hfresh,
      UInt64.zero_add]
  · rw [hprocessedBytes, hc.queueBytes, total_replicate rfl hfresh,
      UInt64.zero_add]
  · rw [hc.overflows, total_replicate rfl hfresh, UInt64.zero_add]

/-- An ARP frame of the minimum length. -/
def arpFrame : Frame :=
  List.replicate 12 0 ++ [0x08, 0x06] ++ List.replicate 46 0

/-- A promiscuous port, its one queue with one descriptor. -/
def promiscuous : VNic.Config := { promiscuousEnabled := true }

/-- Three frames: one accepted, one too short, one without a descriptor;
a fourth is in hand. -/
def threeFrames : List Op :=
  [.configureRx 0 { size := 1 }, .start {}, .setUp true,
    .putRx true arpFrame, .putRx true [1], .putRx true arpFrame,
    .putRx true arpFrame,
    .pollCheck, .pollTake true, .pollFrame .bump 0,
    .pollCheck, .pollTake true, .pollFrame .bump 0,
    .pollCheck, .pollTake true, .pollFrame .bump 0,
    .pollCheck, .pollTake true]

/-- Three frames are completed; the queue has room for fewer. -/
theorem rx_accounting_threeFrames :
    ∃ s₀ t es, (init ∅).step (.configure promiscuous)
        = some (s₀, .configure (.ok ()))
      ∧ sys.run s₀ threeFrames = some (t, es)
      ∧ increase Stats.processedPackets s₀ t
          + increase Stats.droppedPackets s₀ t = 3
      ∧ t.total Stats.overflows = 1 := by
  have hconf : (init ∅).step (.configure promiscuous)
      = some ((init ∅).withPair
          (VNic.configure promiscuous (init ∅).pair).1,
        .configure (.ok ())) := rfl
  have heval : (sys.run ((init ∅).withPair
      (VNic.configure promiscuous (init ∅).pair).1) threeFrames).map
      (fun p => (decide (∀ e ∈ p.2, e.InPeriod),
        packets (p.2.flatMap Event.completed),
        packets (p.2.flatMap Event.overflowed)))
      = some (true, 3, 1) := by decide +kernel
  obtain ⟨⟨t, es⟩, hrun, hp⟩ := Option.map_eq_some_iff.1 heval
  simp only [Prod.mk.injEq, decide_eq_true_eq] at hp
  obtain ⟨hkeep, hcompleted, hoverflowed⟩ := hp
  have hinit : sys.run (init ∅) [] = some (init ∅, []) := rfl
  have hacc := rx_accounting hinit hconf hrun hkeep
  exact ⟨_, t, es, hconf, hrun, hacc.2.2.1.trans hcompleted,
    hacc.2.2.2.2.2.2.2.2.2.trans hoverflowed⟩

end Vnic.Sys
