/-
`Fifo` is a bounded queue.

`abs` reads a queue as a `BoundedQueue`: its elements, and its capacity
as the bound, where 0 is no bound at all. One specification per entry
point says which operation of the bounded queue it is: the five pushes
offer, the pops take, `configure` and `reserve` resize. With these every
call is one operation (`step_simulates`), so that the library's rules
apply to every order of calls: nothing is lost, doubled or overtaken, and
no push goes over the bound.

# Waiting calls

A call that would block leaves the queue alone and has no answer yet; it
simulates an operation that had nothing to take (`simulates_of_waits`).
All other calls return at once. The pops into a span differ from one
another in what they do on an empty queue only, so they share
`simulates_span`.
-/
import Vnic.Lib.BoundedQueue
import Vnic.Proofs.FifoSpan

namespace Vnic.Fifo

variable {α : Type}

-- ========================================================= abstraction

/-- A capacity as a bound. -/
def bound (capacity : Nat) : Option Nat :=
  if capacity = 0 then none else some capacity

/-- The bounded queue that a queue is. -/
def abs (f : Fifo α) : BoundedQueue α where
  contents := f.queue
  bound := bound f.config.capacity

private theorem mem_bound {capacity : Nat} (h : capacity ≠ 0) :
    capacity ∈ bound capacity := by
  unfold bound
  rw [if_neg h]
  rfl

/-- The full check is the absence of room for one element. -/
theorem isFullLocked_iff_room {f : Fifo α} :
    f.isFullLocked = true ↔ f.abs.room 1 = 0 := by
  rw [isFullLocked_iff]
  unfold BoundedQueue.room abs bound
  by_cases h : f.config.capacity = 0
  · simp [h]
  · simp only [ne_eq, h, not_false_eq_true, true_and, if_false]
    omega

-- ============================================================== pushes

/-- The queue with the part of `data` behind it that fits. -/
def stored (f : Fifo α) (data : List α) : Fifo α :=
  { f with queue := f.queue ++ data.take (f.abs.room data.length) }

/-- `data` offered to the bounded queue. -/
private theorem apply_offer (f : Fifo α) (data : List α) :
    f.abs.apply (.offer data)
      = ((f.stored data).abs,
          { accepted := data.take (f.abs.room data.length) }) := rfl

/-- A full queue stores nothing of a batch. -/
private theorem stored_cons_of_full {f : Fifo α} (h : f.isFullLocked = true)
    (x : α) (xs : List α) : f.stored (x :: xs) = f := by
  unfold stored
  rw [List.length_cons,
    BoundedQueue.room_succ_of_full (isFullLocked_iff_room.1 h),
    List.take_zero, List.append_nil]

private theorem room_cons_of_room {f : Fifo α} (h : ¬ f.isFullLocked = true)
    (x : α) (n : Nat) :
    f.abs.room (n + 1) = { f with queue := f.queue ++ [x] }.abs.room n + 1 :=
  BoundedQueue.room_succ_of_room (mt isFullLocked_iff_room.2 h) x n

/-- A queue with room stores the first of it and goes on. -/
private theorem stored_cons_of_room {f : Fifo α} (h : ¬ f.isFullLocked = true)
    (x : α) (xs : List α) :
    f.stored (x :: xs) = { f with queue := f.queue ++ [x] }.stored xs := by
  unfold stored
  rw [List.length_cons, room_cons_of_room h x, List.take_succ_cons]
  simp

/-- `push` stores what fits of one element. -/
theorem push_eq (f : Fifo α) (value : α) :
    f.push value
      = (f.stored [value],
          if f.abs.room 1 = 0 then .error .queueFull else .ok ()) := by
  by_cases h : f.isFullLocked = true
  · rw [push_of_full h, stored_cons_of_full h,
      if_pos (isFullLocked_iff_room.1 h)]
  · rw [push_of_room (Bool.eq_false_iff.2 h), stored_cons_of_room h,
      if_neg (mt isFullLocked_iff_room.2 h)]
    simp [stored]

/-- The loop of `pushAll` stores what fits, and reports whether that was
less than all. -/
private theorem pushAllLoop_eq (f : Fifo α) (data : List α) :
    f.pushAllLoop data
      = (f.stored data, decide (f.abs.room data.length < data.length)) := by
  induction data generalizing f with
  | nil => simp [pushAllLoop, stored]
  | cons x xs ih =>
      rw [pushAllLoop]
      by_cases h : f.isFullLocked = true
      · rw [if_pos h, stored_cons_of_full h, List.length_cons,
          BoundedQueue.room_succ_of_full (isFullLocked_iff_room.1 h)]
        simp
      · rw [if_neg h, ih, stored_cons_of_room h, List.length_cons,
          room_cons_of_room h x]
        simp

/-- `pushAll` stores what fits and reports whether that was all. -/
private theorem pushAll_eq (f : Fifo α) (data : List α) :
    f.pushAll data
      = (f.stored data,
          if f.abs.room data.length < data.length then .error .queueFull
          else .ok ()) := by
  unfold pushAll
  rw [pushAllLoop_eq]
  by_cases h : f.abs.room data.length < data.length
  · simp [h]
  · simp [h]

/-- The loop of `pushSome` stores the same, and counts it. -/
private theorem pushSomeLoop_eq (f : Fifo α) (pushed : Nat) (data : List α) :
    f.pushSomeLoop pushed data
      = (f.stored data, pushed + f.abs.room data.length) := by
  induction data generalizing f pushed with
  | nil => simp [pushSomeLoop, stored]
  | cons x xs ih =>
      rw [pushSomeLoop]
      by_cases h : f.isFullLocked = true
      · rw [if_pos h, stored_cons_of_full h, List.length_cons,
          BoundedQueue.room_succ_of_full (isFullLocked_iff_room.1 h)]
        rfl
      · rw [if_neg h, ih, stored_cons_of_room h, List.length_cons,
          room_cons_of_room h x, Nat.add_assoc, Nat.add_comm 1]

/-- `pushSome` stores what fits and counts it. -/
private theorem pushSome_eq (f : Fifo α) (data : List α) :
    f.pushSome data = (f.stored data, f.abs.room data.length) := by
  unfold pushSome
  rw [pushSomeLoop_eq, Nat.zero_add]

-- ================================================================ pops

/-- The oldest `n` elements taken from the bounded queue. -/
theorem apply_take (f : Fifo α) (n : Nat) :
    f.abs.apply (.take n)
      = ({ f with queue := f.queue.drop n }.abs,
          { removed := f.queue.take n }) := rfl

/-- The loop of `drain` moves every element to the caller. -/
theorem drainLoop_eq (queue buffer : List α) (count : Nat) :
    drainLoop queue buffer count
      = (buffer ++ queue, count + queue.length) := by
  induction queue generalizing buffer count with
  | nil => simp [drainLoop]
  | cons x queue ih =>
      rw [drainLoop, ih, List.append_assoc, List.length_cons, Nat.add_assoc,
        Nat.add_comm 1]
      rfl

/-- `drain` empties the queue in order. -/
theorem drain_eq (f : Fifo α) (buffer : List α) :
    f.drain buffer
      = ({ f with queue := [] }, buffer ++ f.queue, f.queue.length) := by
  unfold drain
  rw [drainLoop_eq, Nat.zero_add]

-- ========================================================== simulation

/-- The operation of the bounded queue that a call is. -/
def Call.op (f : Fifo α) : Call α → BoundedQueue.Op α
  | .emplace value => .offer [value]
  | .pushCopy value => .offer [value]
  | .pushMove value => .offer [value]
  | .pushAll data => .offer data
  | .pushSome data => .offer data
  | .pop => .take 1
  | .popFor => .take 1
  | .popSomeVector _ => .take f.queue.length
  | .popSomeVectorFor _ => .take f.queue.length
  | .popSomeSpan buffer _ => .take buffer.size
  | .popSomeSpanFor buffer _ => .take buffer.size
  | .tryPopSome buffer _ => .take buffer.size
  | .configure config => .resize (bound config.capacity)
  | .reserve capacity => .resize (bound capacity)

/-- What a call shows of the elements. -/
def Event.effect (e : Event α) : BoundedQueue.Effect α where
  accepted := e.accepted
  removed := e.popped

/-- The call is the step `c.op f` of the bounded queue, and shows its
effect. -/
def Simulates (f : Fifo α) (c : Call α) : Prop :=
  ∃ g e, (system α).step f c = some (g, e)
    ∧ f.abs.apply (c.op f) = (g.abs, e.effect)

/-- A call that returns. -/
private theorem simulates_of_returns {f g : Fifo α} {c : Call α}
    {answer : Answer α}
    (hcall : f.call c = .returns (g, answer))
    (happly : f.abs.apply (c.op f)
      = (g.abs,
          Event.effect ⟨c, some answer, g.queue.length - f.queue.length⟩)) :
    Simulates f c :=
  ⟨g, ⟨c, some answer, g.queue.length - f.queue.length⟩,
    by simp only [system, hcall], happly⟩

/-- A call that waits. -/
private theorem simulates_of_waits {f : Fifo α} {c : Call α}
    (hcall : f.call c = .waits)
    (happly : f.abs.apply (c.op f) = (f.abs, Event.effect ⟨c, none, 0⟩)) :
    Simulates f c :=
  ⟨f, ⟨c, none, 0⟩, by simp only [system, hcall], happly⟩

/-- The three ways to push one element. -/
private theorem simulates_push {f : Fifo α} {c : Call α} {value : α}
    (hcall : f.call c
      = .returns ((f.push value).1, .result (f.push value).2))
    (hop : c.op f = .offer [value])
    (hok : ∀ n, Event.effect ⟨c, some (.result (.ok ())), n⟩
      = { accepted := [value] })
    (herror : ∀ e n, Event.effect ⟨c, some (.result (.error e)), n⟩ = {}) :
    Simulates f c := by
  refine simulates_of_returns hcall ?_
  rw [push_eq, hop, apply_offer]
  by_cases h : f.abs.room 1 = 0
  · simp [h, herror]
  · have hone : f.abs.room 1 = 1 := by
      have := f.abs.room_le 1
      omega
    simp [hone, hok]

private theorem simulates_pushAll (f : Fifo α) (data : List α) :
    Simulates f (.pushAll data) := by
  have hcall : f.call (.pushAll data)
      = .returns (f.stored data,
          .result (if f.abs.room data.length < data.length
            then .error .queueFull else .ok ())) := by
    show Outcome.returns ((f.pushAll data).map id Answer.result) = _
    rw [pushAll_eq]
    rfl
  refine simulates_of_returns hcall ?_
  have hle := f.abs.room_le data.length
  -- a failed call does not say how much it stored; the queue's size does
  have hgrown : (f.stored data).queue.length - f.queue.length
      = f.abs.room data.length := by
    unfold stored
    rw [List.length_append, List.length_take, Nat.min_eq_left hle]
    omega
  rw [hgrown]
  show f.abs.apply (.offer data) = _
  rw [apply_offer]
  by_cases h : f.abs.room data.length < data.length
  · rw [if_pos h]
    rfl
  · rw [if_neg h, List.take_of_length_le (Nat.le_of_not_lt h)]
    rfl

private theorem simulates_pushSome (f : Fifo α) (data : List α) :
    Simulates f (.pushSome data) := by
  have hcall : f.call (.pushSome data)
      = .returns (f.stored data, .pushed (f.abs.room data.length)) := by
    show Outcome.returns ((f.pushSome data).map id Answer.pushed) = _
    rw [pushSome_eq]
    rfl
  exact simulates_of_returns hcall rfl

/-- The two ways to drain the queue into a vector. -/
private theorem simulates_drain {f : Fifo α} {c : Call α} {buffer : List α}
    (hcall : f.call c = .returns (popAnswer (f.drain buffer)))
    (hop : c.op f = .take f.queue.length)
    (heffect : ∀ count elements n,
      Event.effect ⟨c, some (.popped count elements), n⟩
        = { removed := elements.drop buffer.length }) :
    Simulates f c := by
  rw [drain_eq] at hcall
  refine simulates_of_returns hcall ?_
  rw [heffect, hop, apply_take, List.drop_length, List.take_length,
    List.drop_left]

/-- The three ways to fill a span of fixed extent. -/
private theorem simulates_span {f : Fifo α} {c : Call α} {buffer : Span α}
    (hfixed : buffer.Fixed)
    (hcall : f.call c = (f.popUpTo buffer).map popAnswer)
    (hop : c.op f = .take buffer.size)
    (heffect : ∀ count elements n,
      Event.effect ⟨c, some (.popped count elements), n⟩
        = { removed := elements.take count }) :
    Simulates f c := by
  rw [popUpTo_of_contained (Or.inl hfixed)] at hcall
  refine simulates_of_returns hcall ?_
  have htake : (f.queue.take (f.moved buffer)
      ++ buffer.elements.drop (f.moved buffer)).take (f.moved buffer)
      = f.queue.take buffer.size := by
    rw [List.take_append_of_le_length (f.length_take_moved buffer).ge,
      List.take_take, Nat.min_self, take_moved]
  rw [heffect, hop, apply_take, htake, drop_moved]

private theorem apply_take_of_nil {f : Fifo α} (h : f.queue = []) (n : Nat) :
    f.abs.apply (.take n) = (f.abs, {}) := by
  rw [apply_take, h, List.drop_nil, List.take_nil, ← h]

/-- Every call is one operation of the bounded queue. -/
theorem simulates (f : Fifo α) (c : Call α) : Simulates f c := by
  -- one case per operation of the source: pushes, pops into a vector, pops
  -- into a span, the rest
  cases c with
  | emplace value =>
      exact simulates_push rfl rfl (fun _ => rfl) (fun _ _ => rfl)
  | pushCopy value =>
      exact simulates_push rfl rfl (fun _ => rfl) (fun _ _ => rfl)
  | pushMove value =>
      exact simulates_push rfl rfl (fun _ => rfl) (fun _ _ => rfl)
  | pushAll data => exact simulates_pushAll f data
  | pushSome data => exact simulates_pushSome f data
  | pop =>
      obtain ⟨queue, config⟩ := f
      cases queue with
      | nil => exact simulates_of_waits rfl rfl
      | cons x queue => exact simulates_of_returns rfl rfl
  | popFor =>
      obtain ⟨queue, config⟩ := f
      cases queue with
      | nil => exact simulates_of_returns rfl rfl
      | cons x queue => exact simulates_of_returns rfl rfl
  | popSomeVector buffer =>
      by_cases h : f.queue = []
      · exact simulates_of_waits
          (congrArg (Outcome.map popAnswer) (if_pos (isEmpty_iff.2 h)))
          (apply_take_of_nil h _)
      · exact simulates_drain
          (congrArg (Outcome.map popAnswer) (if_neg (mt isEmpty_iff.1 h)))
          rfl (fun _ _ _ => rfl)
  | popSomeVectorFor buffer =>
      by_cases h : f.queue = []
      -- a timed pop that finds nothing returns, with the buffer as it was:
      -- the abstract queue removes nothing
      · have hpop : f.popSomeVectorFor buffer = (f, buffer, 0) :=
          if_pos (isEmpty_iff.2 h)
        refine simulates_of_returns
          (congrArg (fun r => Outcome.returns (popAnswer r)) hpop) ?_
        refine (apply_take_of_nil h _).trans ?_
        show (f.abs, ({} : BoundedQueue.Effect α))
          = (f.abs, { removed := buffer.drop buffer.length })
        rw [List.drop_length]
      · exact simulates_drain
          (congrArg (fun r => Outcome.returns (popAnswer r))
            (if_neg (mt isEmpty_iff.1 h)))
          rfl (fun _ _ _ => rfl)
  | popSomeSpan buffer fixed =>
      by_cases h : f.queue = []
      · exact simulates_of_waits
          (congrArg (Outcome.map popAnswer) (if_pos (isEmpty_iff.2 h)))
          (apply_take_of_nil h _)
      · exact simulates_span fixed
          (congrArg (Outcome.map popAnswer)
            (SpanPop.popSome.call_of_ne_nil buffer h))
          rfl (fun _ _ _ => rfl)
  | popSomeSpanFor buffer fixed =>
      by_cases h : f.queue = []
      · exact simulates_of_returns
          (congrArg (Outcome.map popAnswer) (if_pos (isEmpty_iff.2 h)))
          (apply_take_of_nil h _)
      · exact simulates_span fixed
          (congrArg (Outcome.map popAnswer)
            (SpanPop.popSomeFor.call_of_ne_nil buffer h))
          rfl (fun _ _ _ => rfl)
  | tryPopSome buffer fixed =>
      exact simulates_span fixed rfl rfl (fun _ _ _ => rfl)
  | configure config => exact simulates_of_returns rfl rfl
  | reserve capacity => exact simulates_of_returns rfl rfl

/-- What a step does, it does as an operation of the bounded queue. -/
theorem step_simulates {f g : Fifo α} {c : Call α} {e : Event α}
    (hstep : (system α).step f c = some (g, e)) :
    f.abs.apply (c.op f) = (g.abs, e.effect) := by
  obtain ⟨g', e', hstep', happly⟩ := simulates f c
  cases hstep.symm.trans hstep'
  exact happly

-- ======================================================== whole histories

/-- The elements accepted in a run, in order. -/
def accepted (es : List (Event α)) : List α := es.flatMap Event.accepted

/-- The elements popped in a run, in order. -/
def popped (es : List (Event α)) : List α := es.flatMap Event.popped

/-- Every order of calls is a run of the bounded queue. -/
theorem run_simulates (f : Fifo α) (calls : List (Call α)) :
    ∃ g es, (system α).run f calls = some (g, es)
      ∧ ∃ ops, (BoundedQueue.system α).run f.abs ops
          = some (g.abs, es.map Event.effect) := by
  have htotal : ∀ f c, ∃ g e, (system α).step f c = some (g, e) := by
    intro f c
    obtain ⟨g, e, hstep, -⟩ := simulates f c
    exact ⟨g, e, hstep⟩
  obtain ⟨g, es, hrun⟩ := (system α).run_total htotal f calls
  refine ⟨g, es, hrun, ?_⟩
  exact (system α).run_simulation (BoundedQueue.system α) abs Event.effect
    (fun hstep => ⟨_, congrArg some (step_simulates hstep)⟩) hrun

/-- `n` more elements keep within the capacity in force. -/
def Fits (f : Fifo α) (n : Nat) : Prop :=
  f.config.capacity = 0 ∨ n = 0
    ∨ f.queue.length + n ≤ f.config.capacity

/-- Whether a batch fits is the same question in both. -/
private theorem fits_iff {f : Fifo α} {n : Nat} : f.Fits n ↔ f.abs.Fits n := by
  unfold Fits BoundedQueue.Fits abs bound
  by_cases h : f.config.capacity = 0
  · simp [h]
  · simp [h]

/-- A push fills the queue to its capacity at most, or stores nothing. -/
theorem push_within {f g : Fifo α} {c : Call α} {e : Event α}
    (hstep : (system α).step f c = some (g, e)) (hpush : c.IsPush)
    (hcap : f.config.capacity ≠ 0) :
    g.queue.length ≤ f.config.capacity ∨ g.queue = f.queue := by
  have happly := step_simulates hstep
  obtain ⟨xs, hop⟩ : ∃ xs, c.op f = .offer xs := by
    cases c <;> first | exact ⟨_, rfl⟩ | exact absurd hpush id
  have hwithin := f.abs.offer_within xs (mem_bound hcap)
  rw [← hop, happly] at hwithin
  exact hwithin

/-- `pushSome` answers how many elements fit. -/
theorem pushSome_isGreatest (f : Fifo α) (data : List α) :
    IsGreatest {n | n ≤ data.length ∧ f.Fits n} (f.pushSome data).2 := by
  rw [pushSome_eq]
  simp only [fits_iff]
  exact f.abs.room_isGreatest data.length

/-- `Fifo` refines a bounded queue: over every order of calls on a fresh
queue, accepted is popped and then contained; no push goes over the
capacity in force; the two batch pushes store the same, as much as
fits. -/
theorem refines_boundedQueue :
    (∀ calls : List (Call α),
      ∃ f es, (system α).run {} calls = some (f, es)
        ∧ (∃ ops, (BoundedQueue.system α).run {} ops
            = some (f.abs, es.map Event.effect))
        ∧ accepted es = popped es ++ f.queue)
    ∧ (∀ (f g : Fifo α) (c : Call α) (e : Event α),
        (system α).step f c = some (g, e) → c.IsPush →
        f.config.capacity ≠ 0 →
        g.queue.length ≤ f.config.capacity ∨ g.queue = f.queue)
    ∧ ∀ (f : Fifo α) (data : List α),
        IsGreatest {n | n ≤ data.length ∧ f.Fits n} (f.pushSome data).2
        ∧ (f.pushSome data).1
          = { f with queue := f.queue ++ data.take (f.pushSome data).2 }
        ∧ (f.pushAll data).1 = (f.pushSome data).1
        ∧ ((f.pushAll data).2 = .error .queueFull
            ↔ (f.pushSome data).2 < data.length) := by
  refine ⟨fun calls => ?_, fun f g c e => push_within, fun f data => ?_⟩
  · obtain ⟨f, es, hrun, ops, hops⟩ := run_simulates ({} : Fifo α) calls
    refine ⟨f, es, hrun, ⟨ops, hops⟩, ?_⟩
    -- conservation is the abstract queue's, read back through the effects
    -- of the events
    have hconserves := BoundedQueue.run_conserves hops
    unfold BoundedQueue.accepted BoundedQueue.removed at hconserves
    rw [List.flatMap_map, List.flatMap_map] at hconserves
    exact hconserves
  · refine ⟨pushSome_isGreatest f data, ?_, ?_, ?_⟩
    · rw [pushSome_eq]
      rfl
    · rw [pushAll_eq, pushSome_eq]
    · rw [pushAll_eq, pushSome_eq]
      by_cases h : f.abs.room data.length < data.length
      · simp [h]
      · simp [h]

end Vnic.Fifo
