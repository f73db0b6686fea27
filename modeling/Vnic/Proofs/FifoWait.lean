/-
`Fifo` loses no element and no wake-up, in whichever order its threads
push, wait, sleep, wake, time out and notify.

# Elements

Every step of a thread that touches the queue is one whole call
(`perform_step`), so that a run of the threads is a run of `Fifo.system`
and conserves the elements as every run of it does.

# Wake-ups

A push puts its element in first and notifies later, and the thread that
it wakes takes the element later still. `Served` counts what is on its
way: while somebody sleeps, there are at most as many elements in the
queue as there are notifications to come and awake threads before the
mutex that are to take one, or a notification of all is to come. So no
element stays behind with a thread asleep on it. An awake thread may have
been woken or may have come fresh with its call: either takes an element
when it gets the mutex, and a sleeper that was notified and finds nothing
has lost it to such a caller, not to nobody.

The count needs every waiting call to take an element when it finds one. A
`popSome` into a span of no elements takes none, and a wake-up that it
gets is lost (`lost_wakeup`).
-/
import Vnic.FifoWait
import Vnic.Proofs.FifoSystem
import Mathlib.Algebra.BigOperators.Group.Finset.Basic
import Mathlib.Data.Fintype.Basic
import Mathlib.Tactic.FinCases

namespace Vnic.Fifo

variable {α : Type}

-- =========================================================== one call

/-- A waiting call that takes an element when it finds one: its span, if
it has one, is not empty. -/
def Call.Takes : Call α → Prop
  | .popSomeSpan buffer _ => buffer.size ≠ 0
  | .popSomeSpanFor buffer _ => buffer.size ≠ 0
  | _ => True

/-- A call that returns is a step of the queue. -/
private theorem system_step {f g : Fifo α} {c : Call α} {answer : Answer α}
    (h : f.call c = .returns (g, answer)) :
    (system α).step f c
      = some (g, ⟨c, some answer, g.queue.length - f.queue.length⟩) := by
  simp only [system, h]

/-- A call that takes elements takes those at the front. -/
private theorem queue_of_take {f g : Fifo α} {c : Call α} {answer : Answer α}
    {n : Nat} (h : f.call c = .returns (g, answer)) (hop : c.op f = .take n) :
    g.queue = f.queue.drop n := by
  have happly := step_simulates (system_step h)
  rw [hop, apply_take] at happly
  exact (congrArg (fun r => r.1.contents) happly).symm

/-- A waiting call that finds an element takes one. -/
theorem length_of_waits {f g : Fifo α} {c : Call α} {answer : Answer α}
    (h : f.call c = .returns (g, answer)) (hw : c.waits = true)
    (ht : c.Takes) (hne : f.queue ≠ []) :
    g.queue.length + 1 ≤ f.queue.length := by
  have hpos := List.length_pos_iff.2 hne
  have htake : ∃ n, n ≠ 0 ∧ c.op f = .take n := by
    cases c with
    | pop => exact ⟨1, by simp, rfl⟩
    | popFor => exact ⟨1, by simp, rfl⟩
    | popSomeVector buffer => exact ⟨_, by omega, rfl⟩
    | popSomeVectorFor buffer => exact ⟨_, by omega, rfl⟩
    | popSomeSpan buffer fixed => exact ⟨_, ht, rfl⟩
    | popSomeSpanFor buffer fixed => exact ⟨_, ht, rfl⟩
    | _ => cases hw
  obtain ⟨n, hn, hop⟩ := htake
  rw [queue_of_take h hop, List.length_drop]
  omega

private theorem popUpTo_returns (f : Fifo α) {buffer : Span α}
    (fixed : buffer.Fixed) :
    ∃ r, f.popUpTo buffer = .returns r :=
  ⟨_, popUpTo_of_contained (Or.inl fixed)⟩

/-- A call that need not wait returns. -/
theorem call_returns {f : Fifo α} {c : Call α}
    (h : c.waits = true → f.queue ≠ []) :
    ∃ g answer, f.call c = .returns (g, answer) := by
  cases c with
  | pop =>
      obtain ⟨queue, config⟩ := f
      cases queue with
      | nil => exact absurd rfl (h rfl)
      | cons x queue => exact ⟨_, _, rfl⟩
  | popSomeVector buffer =>
      have hpop : f.popSomeVector buffer = .returns (f.drain buffer) :=
        if_neg (mt isEmpty_iff.1 (h rfl))
      exact ⟨_, _, congrArg (Outcome.map popAnswer) hpop⟩
  | popSomeSpan buffer fixed =>
      obtain ⟨r, hr⟩ := popUpTo_returns f fixed
      have hpop := (SpanPop.popSome.call_of_ne_nil buffer (h rfl)).trans hr
      exact ⟨_, _, congrArg (Outcome.map popAnswer) hpop⟩
  | popSomeSpanFor buffer fixed =>
      obtain ⟨r, hr⟩ := popUpTo_returns f fixed
      have hpop := (SpanPop.popSomeFor.call_of_ne_nil buffer (h rfl)).trans hr
      exact ⟨_, _, congrArg (Outcome.map popAnswer) hpop⟩
  | tryPopSome buffer fixed =>
      obtain ⟨r, hr⟩ := popUpTo_returns f fixed
      exact ⟨_, _, congrArg (Outcome.map popAnswer) hr⟩
  | _ => exact ⟨_, _, rfl⟩

namespace Wait

/-- What a thread at `p` will still do about the elements: notify a
sleeper, or, when it is awake, look at the queue itself. -/
def Pc.coming (asleep : Bool) : Pc α → Nat
  | .entering c => if c.waits && !asleep then 1 else 0
  | .notifyOne => 1
  | _ => 0

private theorem after_ne_entering (c c' : Call α) (answer : Answer α) :
    after c answer ≠ .entering c' := by
  unfold after
  split <;> nofun

/-- A push that has stored its element will notify. -/
private theorem length_of_push {f g : Fifo α} {value : α} {r : Res}
    {c : Call α}
    (h : f.push value = (g, r))
    (hafter : after c (.result (.ok ())) = .notifyOne) (asleep : Bool) :
    g.queue.length
      ≤ f.queue.length + (after c (.result r)).coming asleep := by
  by_cases hfull : f.isFullLocked = true
  · rw [push_of_full hfull] at h
    cases h
    omega
  · rw [push_of_room (by simpa using hfull)] at h
    cases h
    rw [hafter]
    simp [Pc.coming]

/-- What a call that does not wait leaves, and what it will do. -/
private theorem length_of_not_waits {f g : Fifo α} {c : Call α}
    {answer : Answer α}
    (h : f.call c = .returns (g, answer)) (hw : c.waits = false)
    (asleep : Bool) :
    after c answer = .notifyAll
    ∨ g.queue.length ≤ f.queue.length + (after c answer).coming asleep := by
  cases c with
  | emplace value =>
      right
      cases h
      exact length_of_push rfl rfl asleep
  | pushCopy value =>
      right
      cases h
      exact length_of_push rfl rfl asleep
  | pushMove value =>
      right
      cases h
      exact length_of_push rfl rfl asleep
  -- pushAll and pushSome end with notify_all, so their count is free
  | pushAll data => exact Or.inl rfl
  | pushSome data => exact Or.inl rfl
  | tryPopSome buffer fixed =>
      right
      rw [queue_of_take h rfl, List.length_drop]
      omega
  | configure config =>
      right
      cases h
      exact Nat.le_add_right _ _
  | reserve capacity =>
      right
      cases h
      exact Nat.le_add_right _ _
  | _ => cases hw

-- ======================================================== the invariant

variable {ι : Type} {s t : State ι α}

/-- Those asleep are in a call that waits. -/
def Asleep (s : State ι α) : Prop :=
  ∀ i ∈ s.sleepers, ∃ c, s.pc i = .entering c ∧ c.waits = true

/-- Every call under way takes an element when it finds one. -/
def Taking (s : State ι α) : Prop := ∀ i c, s.pc i = .entering c → c.Takes

/-- Someone who is nowhere in a call is not asleep. -/
theorem Asleep.notMem (h : Asleep s) {i : ι}
    (hpc : ∀ c, s.pc i ≠ .entering c) : i ∉ s.sleepers := by
  intro hi
  obtain ⟨c, hc, -⟩ := h i hi
  exact hpc c hc

/-- Fewer sleepers. -/
theorem Asleep.mono (h : Asleep s) {sleepers : Finset ι}
    (hsub : sleepers ⊆ s.sleepers) (f : Fifo α) :
    Asleep ({ s with fifo := f, sleepers := sleepers } : State ι α) :=
  fun i hi => h i (hsub hi)

variable [DecidableEq ι]

/-- The thread that moves is where it goes. -/
@[simp]
theorem goto_self (s : State ι α) (i : ι) (p : Pc α) :
    (s.goto i p).pc i = p := by
  simp [State.goto]

/-- The others stay where they are. -/
theorem goto_ne (s : State ι α) {i j : ι} (h : j ≠ i) (p : Pc α) :
    (s.goto i p).pc j = s.pc j := by
  simp [State.goto, h]

-- =============================================================== steps

/-- Everything a step can be. -/
inductive Moves (s : State ι α) :
    Act ι α → State ι α → Option (Event α) → Prop
  | call {i : ι} {c : Call α} (hpc : s.pc i = .idle) :
      Moves s (.call i c) (s.goto i (.entering c)) none
  | sleep {i : ι} {c : Call α} (hpc : s.pc i = .entering c)
      (hw : c.waits = true) (hempty : s.fifo.queue = []) :
      Moves s (.enter i) { s with sleepers := insert i s.sleepers } none
  | enter {i : ι} {c : Call α} {g : Fifo α} {answer : Answer α}
      (hpc : s.pc i = .entering c) (hi : i ∉ s.sleepers)
      (hne : c.waits = true → s.fifo.queue ≠ [])
      (hcall : s.fifo.call c = .returns (g, answer)) :
      Moves s (.enter i)
        (({ s with fifo := g } : State ι α).goto i (after c answer))
        (some ⟨c, some answer, g.queue.length - s.fifo.queue.length⟩)
  | expire {i : ι} {c : Call α} {g : Fifo α} {answer : Answer α}
      (hpc : s.pc i = .entering c) (htimed : c.timed = true)
      (hempty : s.fifo.queue = [])
      (hcall : s.fifo.call c = .returns (g, answer)) :
      Moves s (.expire i)
        (({ s with fifo := g, sleepers := s.sleepers.erase i } :
          State ι α).goto i (after c answer))
        (some ⟨c, some answer, g.queue.length - s.fifo.queue.length⟩)
  | wake {i : ι} (hi : i ∈ s.sleepers) :
      Moves s (.wake i) { s with sleepers := s.sleepers.erase i } none
  | notifyOne {i woken : ι} (hpc : s.pc i = .notifyOne)
      (hwoken : woken ∈ s.sleepers) :
      Moves s (.notifyOne i woken)
        (({ s with sleepers := s.sleepers.erase woken } :
          State ι α).goto i .idle) none
  | notifyNobody {i : ι} (hpc : s.pc i = .notifyOne)
      (hnone : s.sleepers = ∅) :
      Moves s (.notifyNobody i) (s.goto i .idle) none
  | notifyAll {i : ι} (hpc : s.pc i = .notifyAll) :
      Moves s (.notifyAll i)
        (({ s with sleepers := ∅ } : State ι α).goto i .idle) none

/-- The call that `perform` makes. -/
theorem perform_some {i : ι} {c : Call α} {e : Option (Event α)}
    (h : s.perform i c = some (t, e)) :
    ∃ g answer, s.fifo.call c = .returns (g, answer)
      ∧ t = ({ s with fifo := g } : State ι α).goto i (after c answer)
      ∧ e = some ⟨c, some answer, g.queue.length - s.fifo.queue.length⟩ := by
  unfold State.perform at h
  split at h
  · next g answer hcall =>
    cases h
    exact ⟨g, answer, hcall, rfl, rfl⟩
  · cases h
  · cases h

/-- Every step is one of the moves. -/
theorem moves_of_step {a : Act ι α} {e : Option (Event α)}
    (h : (system ι α).step s a = some (t, e)) : Moves s a t e := by
  change s.step a = some (t, e) at h
  cases a with
  | call i c =>
      simp only [State.step] at h
      -- the wait's predicate: on an empty queue the call goes to sleep,
      -- else it is performed at once
      split at h
      · next hpc =>
        cases h
        exact .call hpc
      · cases h
  | enter i =>
      simp only [State.step] at h
      split at h
      · next c hpc =>
        split at h
        · cases h
        · next hi =>
          split at h
          · next hsleep =>
            rw [Bool.and_eq_true] at hsleep
            cases h
            exact .sleep hpc hsleep.1 (isEmpty_iff.1 hsleep.2)
          · next hawake =>
            obtain ⟨g, answer, hcall, rfl, rfl⟩ := perform_some h
            refine .enter hpc hi (fun hw hempty => hawake ?_) hcall
            rw [hw, isEmpty_iff.2 hempty]
            rfl
      · cases h
  | expire i =>
      simp only [State.step] at h
      split at h
      · next c hpc =>
        split at h
        · next hpassed =>
          rw [Bool.and_eq_true] at hpassed
          obtain ⟨g, answer, hcall, rfl, rfl⟩ := perform_some h
          exact .expire hpc hpassed.1 (isEmpty_iff.1 hpassed.2) hcall
        · cases h
      · cases h
  | wake i =>
      simp only [State.step] at h
      split at h
      · next hi =>
        cases h
        exact .wake hi
      · cases h
  | notifyOne i woken =>
      simp only [State.step] at h
      split at h
      · next hpc =>
        split at h
        · next hwoken =>
          cases h
          exact .notifyOne hpc hwoken
        · cases h
      · cases h
  | notifyNobody i =>
      simp only [State.step] at h
      split at h
      · next hpc =>
        split at h
        · next hnone =>
          cases h
          exact .notifyNobody hpc hnone
        · cases h
      · cases h
  | notifyAll i =>
      simp only [State.step] at h
      split at h
      · next hpc =>
        cases h
        exact .notifyAll hpc
      · cases h

-- ============================================================ elements

/-- A step of a thread is a call on the queue, or does not touch it. -/
theorem Moves.refines {a : Act ι α} {e : Option (Event α)}
    (hmove : Moves s a t e) :
    ∃ calls, (Fifo.system α).run s.fifo calls = some (t.fifo, e.toList) := by
  cases hmove with
  | @enter i c g answer hpc hi hne hcall =>
      exact ⟨[c], (Fifo.system α).run_of_step (system_step hcall) rfl⟩
  | @expire i c g answer hpc htimed hempty hcall =>
      exact ⟨[c], (Fifo.system α).run_of_step (system_step hcall) rfl⟩
  | _ => exact ⟨[], rfl⟩

/-- Over every order of the threads' steps, the calls, in the order in
which they take effect, are a run of the queue by one caller; what they
have accepted is what they have popped and then what is queued. -/
theorem threads_conserve {acts : List (Act ι α)}
    {es : List (Option (Event α))}
    (hrun : (system ι α).run {} acts = some (t, es)) :
    (∃ calls, (Fifo.system α).run {} calls
      = some (t.fifo, es.flatMap Option.toList))
    ∧ accepted (es.flatMap Option.toList)
      = popped (es.flatMap Option.toList) ++ t.fifo.queue := by
  obtain ⟨calls, f, hcalls, hf⟩ := (system ι α).run_refines (Fifo.system α)
    (fun s f => s.fifo = f) Option.toList
    (fun hR hs => by
      obtain ⟨calls, hcalls⟩ := (moves_of_step hs).refines
      exact ⟨calls, _, hR ▸ hcalls, rfl⟩) rfl hrun
  subst hf
  refine ⟨⟨calls, hcalls⟩, ?_⟩
  obtain ⟨ops, hops⟩ := (Fifo.system α).run_simulation
    (BoundedQueue.system α) abs Event.effect
    (fun hstep => ⟨_, congrArg some (step_simulates hstep)⟩) hcalls
  have hconserves := BoundedQueue.run_conserves hops
  unfold BoundedQueue.accepted BoundedQueue.removed at hconserves
  rw [List.flatMap_map, List.flatMap_map] at hconserves
  exact hconserves

/-- A thread sleeps in `pop` while another pushes twice. -/
def popSleeps : List (Act (Fin 3) Nat) :=
  [.call 0 .pop, .enter 0, .call 1 (.pushCopy 7), .enter 1, .notifyOne 1 0,
    .call 1 (.pushMove 8), .enter 1, .enter 0]

/-- A pop sleeps, is woken, and gets the first of two elements. -/
theorem threads_conserve_popSleeps :
    ∃ t es, (system (Fin 3) Nat).run {} popSleeps = some (t, es)
      ∧ popped (es.flatMap Option.toList) = [7] ∧ t.fifo.queue = [8]
      ∧ accepted (es.flatMap Option.toList) = [7, 8] := by
  have hrun : (system (Fin 3) Nat).run {} popSleeps = some (_, _) := rfl
  exact ⟨_, _, hrun, rfl, rfl, (threads_conserve hrun).2⟩

-- ========================================================== who sleeps

theorem Asleep.goto (h : Asleep s) {i : ι} (hi : i ∉ s.sleepers)
    (p : Pc α) : Asleep (s.goto i p) := by
  intro j hj
  have hji : j ≠ i := fun heq => hi (heq ▸ hj)
  rw [goto_ne _ hji]
  exact h j hj

/-- Only a wait puts a thread to sleep, and it is in a waiting call then. -/
theorem Asleep.step {a : Act ι α} {e : Option (Event α)} (h : Asleep s)
    (hmove : Moves s a t e) : Asleep t := by
  cases hmove with
  | call hpc =>
      apply h.goto (h.notMem _)
      rw [hpc]
      nofun
  -- the only step that adds a sleeper: it stands at a waiting call by the
  -- wait's own check
  | sleep hpc hw hempty =>
      intro j hj
      rcases Finset.mem_insert.1 hj with rfl | hj
      · exact ⟨_, hpc, hw⟩
      · exact h j hj
  | enter hpc hi hne hcall =>
      exact Asleep.goto (h.mono (Finset.Subset.refl _) _) hi _
  | expire hpc htimed hempty hcall =>
      exact Asleep.goto (h.mono (Finset.erase_subset _ _) _)
        (Finset.notMem_erase _ _) _
  | wake hi => exact h.mono (Finset.erase_subset _ _) s.fifo
  | @notifyOne i woken hpc hwoken =>
      have hi : i ∉ s.sleepers := by
        apply h.notMem
        rw [hpc]
        nofun
      exact Asleep.goto (h.mono (Finset.erase_subset _ _) s.fifo)
        (fun hm => hi (Finset.mem_of_mem_erase hm)) _
  | notifyNobody hpc hnone =>
      apply h.goto
      rw [hnone]
      exact Finset.notMem_empty _
  | notifyAll hpc =>
      exact Asleep.goto (h.mono (Finset.empty_subset _) s.fifo)
        (Finset.notMem_empty _) _

theorem Taking.goto (h : Taking s) {i : ι} {p : Pc α}
    (hp : ∀ c, p = .entering c → c.Takes) : Taking (s.goto i p) := by
  intro j c hj
  by_cases hji : j = i
  · subst hji
    rw [goto_self] at hj
    exact hp c hj
  · rw [goto_ne _ hji] at hj
    exact h j c hj

/-- The calls under way are calls that were made. -/
theorem Taking.step {a : Act ι α} {e : Option (Event α)} (h : Taking s)
    (hmove : Moves s a t e) (hcall : ∀ i c, a = .call i c → c.Takes) :
    Taking t := by
  cases hmove with
  | call hpc =>
      apply h.goto
      intro c heq
      cases heq
      exact hcall _ _ rfl
  | sleep hpc hw hempty => exact h
  | enter hpc hi hne hret =>
      exact Taking.goto (s := { s with fifo := _ }) h
        (fun c heq => absurd heq (after_ne_entering _ c _))
  | expire hpc htimed hempty hret =>
      exact Taking.goto (s := { s with fifo := _, sleepers := _ }) h
        (fun c heq => absurd heq (after_ne_entering _ c _))
  | wake hi => exact h
  | notifyOne hpc hwoken =>
      exact Taking.goto (s := { s with sleepers := _ }) h nofun
  | notifyNobody hpc hnone => exact h.goto nofun
  | notifyAll hpc => exact Taking.goto (s := { s with sleepers := _ }) h nofun

-- ============================================================ wake-ups

/-- What thread `i` will still do about the elements. -/
def coming (s : State ι α) (i : ι) : Nat :=
  (s.pc i).coming (decide (i ∈ s.sleepers))

/-- A step that a thread takes by itself: not a new call, and neither a
timeout nor a wake-up for no reason. -/
def Act.own : Act ι α → Option ι
  | .enter i | .notifyOne i _ | .notifyNobody i | .notifyAll i => some i
  | _ => none

/-- Whatever is on its way can go on. -/
theorem goes_on {i : ι} (h : s.pc i = .notifyAll ∨ coming s i ≠ 0) :
    ∃ a t e, a.own = some i ∧ (system ι α).step s a = some (t, e) := by
  cases hpc : s.pc i with
  | idle => simp [coming, hpc, Pc.coming] at h
  | entering c =>
      obtain ⟨hw, hi⟩ : c.waits = true ∧ i ∉ s.sleepers := by
        simpa [coming, hpc, Pc.coming] using h
      -- an awake caller has its own step in either case: it sleeps or it
      -- is served
      by_cases hempty : s.fifo.queue = []
      · refine ⟨.enter i, { s with sleepers := insert i s.sleepers }, none, rfl,
          ?_⟩
        simp [system, State.step, hpc, hi, hw, isEmpty_iff.2 hempty]
      · obtain ⟨g, answer, hcall⟩ := call_returns (c := c) (fun _ => hempty)
        refine ⟨.enter i,
          ({ s with fifo := g } : State ι α).goto i (after c answer),
          some ⟨c, some answer, g.queue.length - s.fifo.queue.length⟩, rfl, ?_⟩
        have hawake : s.fifo.isEmpty = false := by
          rw [Bool.eq_false_iff]
          exact mt isEmpty_iff.1 hempty
        simp only [system, State.step, hpc, if_neg hi, hw, hawake,
          State.perform, hcall]
        rfl
  | notifyOne =>
      by_cases hnone : s.sleepers = ∅
      · refine ⟨.notifyNobody i, s.goto i .idle, none, rfl, ?_⟩
        simp only [system, State.step, hpc, if_pos hnone]
      · obtain ⟨woken, hwoken⟩ := Finset.nonempty_iff_ne_empty.2 hnone
        refine ⟨.notifyOne i woken, ({ s with
          sleepers := s.sleepers.erase woken } : State ι α).goto i .idle, none,
          rfl, ?_⟩
        simp only [system, State.step, hpc, if_pos hwoken]
  | notifyAll =>
      refine ⟨.notifyAll i,
        ({ s with sleepers := ∅ } : State ι α).goto i .idle, none, rfl, ?_⟩
      simp only [system, State.step, hpc]

variable [Fintype ι]

/-- While somebody sleeps, enough is on its way. -/
def Served (s : State ι α) : Prop :=
  s.sleepers = ∅ ∨ (∃ i, s.pc i = .notifyAll)
    ∨ s.fifo.queue.length ≤ ∑ i, coming s i

/-- Only thread `i` has changed. -/
private theorem sum_coming {i : ι} (h : ∀ j, j ≠ i → coming t j = coming s j) :
    ∑ j, coming t j + coming s i = ∑ j, coming s j + coming t i := by
  have hrest : ∑ j ∈ Finset.univ.erase i, coming t j
      = ∑ j ∈ Finset.univ.erase i, coming s j :=
    Finset.sum_congr rfl fun j hj => h j (Finset.ne_of_mem_erase hj)
  have ht := Finset.add_sum_erase Finset.univ (coming t) (Finset.mem_univ i)
  have hs := Finset.add_sum_erase Finset.univ (coming s) (Finset.mem_univ i)
  omega

/-- What a step owes: for every element more, something more on its way. -/
theorem Served.of_le (h : Served s) (hsleep : s.sleepers = ∅ → t.sleepers = ∅)
    (hall : ∀ i, s.pc i = .notifyAll → t.pc i = .notifyAll)
    (hle : t.fifo.queue.length + ∑ i, coming s i
      ≤ s.fifo.queue.length + ∑ i, coming t i) : Served t := by
  rcases h with hs | ⟨i, hi⟩ | hs
  · exact Or.inl (hsleep hs)
  · exact Or.inr (Or.inl ⟨i, hall i hi⟩)
  · right
    right
    omega

private theorem sum_coming_goto (s : State ι α) (f : Fifo α) (i : ι) (p : Pc α)
    :
    ∑ j, coming (({ s with fifo := f } : State ι α).goto i p) j + coming s i
      = ∑ j, coming s j + p.coming (decide (i ∈ s.sleepers)) := by
  have hothers : ∀ j, j ≠ i →
      coming (({ s with fifo := f } : State ι α).goto i p) j = coming s j := by
    intro j hj
    unfold coming
    rw [goto_ne _ hj]
    rfl
  have hself : coming (({ s with fifo := f } : State ι α).goto i p) i
      = p.coming (decide (i ∈ s.sleepers)) := by
    unfold coming
    rw [goto_self]
    rfl
  rw [sum_coming hothers, hself]

/-- A thread that goes on, with the same sleepers. -/
theorem Served.goto (h : Served s) {i : ι} {p : Pc α} {f : Fifo α}
    (hpc : s.pc i ≠ .notifyAll)
    (hle : f.queue.length + coming s i
      ≤ s.fifo.queue.length + p.coming (decide (i ∈ s.sleepers))) :
    Served (({ s with fifo := f } : State ι α).goto i p) := by
  have hsum := sum_coming_goto s f i p
  apply h.of_le
  · exact fun hs => hs
  · intro j hj
    have hji : j ≠ i := fun heq => hpc (heq ▸ hj)
    rw [goto_ne _ hji]
    exact hj
  · change f.queue.length + _ ≤ _
    omega

/-- A sleeper that wakes is on its way. -/
private theorem sum_coming_wake (h : Asleep s) {i : ι} (hi : i ∈ s.sleepers) :
    ∑ j, coming ({ s with sleepers := s.sleepers.erase i } : State ι α) j
      = ∑ j, coming s j + 1 := by
  obtain ⟨c, hpc, hw⟩ := h i hi
  have hothers : ∀ j, j ≠ i →
      coming ({ s with sleepers := s.sleepers.erase i } : State ι α) j
        = coming s j := by
    intro j hj
    simp [coming, hj]
  have hsum := sum_coming hothers
  have hbefore : coming s i = 0 := by simp [coming, hpc, Pc.coming, hi]
  have hafter :
      coming ({ s with sleepers := s.sleepers.erase i } : State ι α) i = 1 := by
    simp [coming, hpc, Pc.coming, hw]
  omega

/-- Each move: what it adds to the queue or takes from what is on its way
is matched. -/
theorem Served.step {a : Act ι α} {e : Option (Event α)} (h : Served s)
    (hasleep : Asleep s) (htaking : Taking s) (hmove : Moves s a t e) :
    Served t := by
  cases hmove with
  | @call i c hpc =>
      apply h.goto (f := s.fifo)
      · rw [hpc]
        nofun
      · have : coming s i = 0 := by simp [coming, hpc, Pc.coming]
        omega
  | sleep hpc hw hempty =>
      right
      right
      change s.fifo.queue.length ≤ _
      rw [hempty]
      exact Nat.zero_le _
  | @enter i c g answer hpc hi hne hcall =>
      have hpc' : s.pc i ≠ .notifyAll := by
        rw [hpc]
        nofun
      cases hw : c.waits with
      | true =>
          have hlen := length_of_waits hcall hw (htaking i c hpc) (hne hw)
          apply h.goto hpc'
          have : coming s i = 1 := by simp [coming, hpc, Pc.coming, hw, hi]
          omega
      | false =>
          have hzero : coming s i = 0 := by simp [coming, hpc, Pc.coming, hw]
          rcases length_of_not_waits hcall hw (decide (i ∈ s.sleepers)) with
            hall | hlen
          · exact Or.inr (Or.inl ⟨i, by rw [goto_self, hall]⟩)
          · apply h.goto hpc'
            omega
  | @expire i c g answer hpc htimed hempty hcall =>
      right
      right
      have htake : ∃ n, c.op s.fifo = .take n := by
        cases c <;> first | exact ⟨_, rfl⟩ | cases htimed
      obtain ⟨n, hop⟩ := htake
      have hqueue := queue_of_take hcall hop
      rw [hempty, List.drop_nil] at hqueue
      change g.queue.length ≤ _
      rw [hqueue]
      exact Nat.zero_le _
  | @wake i hi =>
      have hsum := sum_coming_wake hasleep hi
      apply h.of_le
      · intro hs
        rw [hs]
        rfl
      · exact fun _ hj => hj
      · change s.fifo.queue.length + _ ≤ _
        omega
  | @notifyOne i woken hpc hwoken =>
      -- the notification is used up, and the one it wakes is on its way
      have hone : coming ({ s with sleepers := s.sleepers.erase woken } :
          State ι α) i = 1 := by
        simp [coming, hpc, Pc.coming]
      have hsum : ∑ j, coming (({ s with sleepers := s.sleepers.erase woken } :
          State ι α).goto i .idle) j + 1 = ∑ j, coming s j + 1 := by
        have hgoto := sum_coming_goto
          ({ s with sleepers := s.sleepers.erase woken } : State ι α) s.fifo i
          .idle
        rw [hone, sum_coming_wake hasleep hwoken] at hgoto
        exact hgoto
      apply h.of_le
      · intro hs
        rw [hs] at hwoken
        cases hwoken
      · intro j hj
        have hji : j ≠ i := by
          intro heq
          rw [heq, hpc] at hj
          cases hj
        rw [goto_ne _ hji]
        exact hj
      · change s.fifo.queue.length + _ ≤ s.fifo.queue.length + _
        omega
  | notifyNobody hpc hnone => exact Or.inl hnone
  | notifyAll hpc => exact Or.inl rfl

/-- The threads, and what is on its way for those asleep. -/
structure Inv (s : State ι α) : Prop where
  asleep : Asleep s
  taking : Taking s
  served : Served s

theorem Inv.init : Inv ({} : State ι α) where
  asleep := nofun
  taking := nofun
  served := Or.inl rfl

/-- The calls that a run makes take an element when they find one. -/
def Takes (acts : List (Act ι α)) : Prop :=
  ∀ a ∈ acts, ∀ i c, a = .call i c → c.Takes

/-- The three hold after any order of steps. -/
theorem Inv.run {acts : List (Act ι α)} {es : List (Option (Event α))}
    (hacts : Takes acts) (hrun : (system ι α).run {} acts = some (t, es)) :
    Inv t := by
  have halong := (system ι α).along_of_forall hacts {}
  refine (system ι α).run_invariant_along (I := Inv) ?_ halong Inv.init hrun
  intro s t a e h hs hcall
  have hmove := moves_of_step hs
  exact ⟨h.asleep.step hmove, h.taking.step hmove hcall,
    h.served.step h.asleep h.taking hmove⟩

-- ================================================================ runs

/-- Over every order of the threads' steps, while somebody sleeps: a
notification of all is to come, or there are at most as many elements as
there are notifications to come and awake threads before the mutex that
are to take one; and while there is an element, one of these threads can
go on. -/
theorem no_lost_wakeup {acts : List (Act ι α)} {es : List (Option (Event α))}
    (hacts : Takes acts) (hrun : (system ι α).run {} acts = some (t, es))
    (hsleep : t.sleepers ≠ ∅) :
    ((∃ i, t.pc i = .notifyAll)
      ∨ t.fifo.queue.length ≤ ∑ i, coming t i)
    ∧ (t.fifo.queue ≠ [] → ∃ i a u e, (t.pc i = .notifyAll ∨ coming t i ≠ 0)
      ∧ a.own = some i ∧ (system ι α).step t a = some (u, e)) := by
  have hserved := ((Inv.run hacts hrun).served).resolve_left hsleep
  refine ⟨hserved, fun hne => ?_⟩
  have hsome : ∃ i, t.pc i = .notifyAll ∨ coming t i ≠ 0 := by
    rcases hserved with ⟨i, hi⟩ | hle
    · exact ⟨i, Or.inl hi⟩
    · have hpos := List.length_pos_iff.2 hne
      obtain ⟨i, -, hi⟩ := Finset.exists_ne_zero_of_sum_ne_zero
        (show ∑ i, coming t i ≠ 0 by omega)
      exact ⟨i, Or.inr hi⟩
  obtain ⟨i, hi⟩ := hsome
  obtain ⟨a, u, e, ha, hu⟩ := goes_on hi
  exact ⟨i, a, u, e, hi, ha, hu⟩

/-- Between an element and its notification. -/
def pushedUnderSleeper : List (Act (Fin 3) Nat) :=
  [.call 0 .pop, .enter 0, .call 1 (.pushCopy 7), .enter 1]

/-- The push has yet to notify the sleeper. -/
theorem no_lost_wakeup_pushedUnderSleeper :
    ∃ t es, (system (Fin 3) Nat).run {} pushedUnderSleeper = some (t, es)
      ∧ t.sleepers = {0} ∧ t.fifo.queue = [7]
      ∧ ∃ i a u e, (t.pc i = .notifyAll ∨ coming t i ≠ 0)
        ∧ a.own = some i ∧ (system (Fin 3) Nat).step t a = some (u, e) := by
  have hrun : (system (Fin 3) Nat).run {} pushedUnderSleeper = some (_, _) :=
    rfl
  have hacts : Takes pushedUnderSleeper := by
    rintro a ha i c rfl
    simp only [pushedUnderSleeper, List.mem_cons, Act.call.injEq,
      reduceCtorEq, List.not_mem_nil, or_false, false_or] at ha
    rcases ha with ⟨-, rfl⟩ | ⟨-, rfl⟩ <;> trivial
  exact ⟨_, _, hrun, rfl, rfl,
    (no_lost_wakeup hacts hrun (by decide)).2 (by decide)⟩

/-- `std::span<T, 0>`. -/
def noElements : Span Nat where
  extent := 0
  elements := []
  size_lt := by decide
  extent_eq := Or.inr rfl

/-- The notification goes to a `popSome` that has no room. -/
def wokenForNothing : List (Act (Fin 3) Nat) :=
  [.call 0 .pop, .enter 0, .call 2 (.popSomeSpan noElements (by decide)),
    .enter 2, .call 1 (.pushCopy 7), .enter 1, .notifyOne 1 2, .enter 2]

/-- Then an element is queued, a thread sleeps on it, and nothing is on its
way. -/
theorem lost_wakeup :
    ∃ t es, (system (Fin 3) Nat).run {} wokenForNothing = some (t, es)
      ∧ t.sleepers = {0} ∧ t.fifo.queue = [7]
      ∧ ∀ i, t.pc i ≠ .notifyAll ∧ coming t i = 0 := by
  have hrun : (system (Fin 3) Nat).run {} wokenForNothing = some (_, _) := rfl
  refine ⟨_, _, hrun, by decide, rfl, fun i => ?_⟩
  fin_cases i
  · exact ⟨nofun, rfl⟩
  · exact ⟨nofun, rfl⟩
  · exact ⟨nofun, rfl⟩

end Wait

end Vnic.Fifo
