/-
Descriptor conservation inside one started period.

A start that finds both FIFOs empty puts `size` descriptors into `free_`.
From then on every atomic step of the poll thread's `put` and of the
application's `take` and `free` moves descriptors between four places:
`free_`, `used_`, the application, and the slot an in-flight `put` has
popped. The total never changes, so each FIFO, whose capacity is the
total, can take whatever is still outside it: `used_.push` inside `put`
and `free_.pushAll` inside `free` never find a full queue.

# The cut

`put` is cut where other threads can come in between: after the segments
are filled, after the pop from `free_`, and after a push to `used_` that
was refused. Between the cuts a slot may be in flight; it counts for the
total. `put_run` says that an undisturbed put is the atomic one, so that
the cut system is about the same `put`.
-/
import Vnic.Proofs.RxSystem

namespace Vnic

namespace RxQueue

/-- The allocation loop fails in one way only. -/
theorem allocSegments_error (malloc : Malloc) :
    ∀ (n : Nat) (s : Memory × Pool) (buffers : List Ptr) (e : ErrorCode),
      (allocSegments malloc n s buffers).2 = .error e →
      e = .memoryPoolExhausted := by
  intro n
  induction n with
  | zero =>
      intro s buffers e h
      cases h
  | succ n ih =>
      intro s buffers e h
      unfold allocSegments Pool.allocate at h
      cases hans : malloc.answer s.1.blocks with
      | none =>
          simp only [hans, Except.error.injEq] at h
          exact h.symm
      | some p =>
          simp only [hans] at h
          exact ih _ _ e h

/-- The phase before the pop touches neither FIFO, and does not report
their refusals. -/
theorem putFill_fifos (malloc : Malloc) (desc : PacketDescriptor)
    (packet : Frame) (s : Memory × RxQueue) :
    (putFill malloc desc packet s).1.2.free_ = s.2.free_
      ∧ (putFill malloc desc packet s).1.2.used_ = s.2.used_
      ∧ ∀ e, (putFill malloc desc packet s).2 = .error e →
          e ≠ .queueUsedListFull ∧ e ≠ .queueFreeListEmpty := by
  unfold putFill
  simp only
  split
  · exact ⟨rfl, rfl, fun e h => by cases h; exact ⟨nofun, nofun⟩⟩
  · split
    · exact ⟨rfl, rfl, fun e h => by cases h; exact ⟨nofun, nofun⟩⟩
    · split
      · exact ⟨rfl, rfl, fun e h => by cases h; exact ⟨nofun, nofun⟩⟩
      · have herr := allocSegments_error malloc
          (segmentCount packet.length) (s.1, s.2.memPool) []
        cases hal : allocSegments malloc (segmentCount packet.length)
            (s.1, s.2.memPool) [] with
        | mk p r =>
            rw [hal] at herr
            cases r with
            | ok buffers => exact ⟨rfl, rfl, fun e h => by cases h⟩
            | error e' =>
                refine ⟨rfl, rfl, fun e h => ?_⟩
                cases h
                rw [herr e' rfl]
                exact ⟨nofun, nofun⟩

end RxQueue

namespace RxPeriod

variable {s t : RxPeriod} {a : Op} {e : Event} {size : Nat}

/-- The invariant of a started period of a queue of size `size`. -/
structure Inv (size : Nat) (s : RxPeriod) : Prop where
  freeCap : s.queue.free_.config.capacity = size
  usedCap : s.queue.used_.config.capacity = size
  total : s.total = size
  notFailed : ∀ e slot buffers, s.pc ≠ .failed e slot buffers

/-- What a step may show inside a period. -/
structure Quiet (s : RxPeriod) (a : Op) (e : Event) : Prop where
  usedRoom : e ≠ .put (.error .queueUsedListFull)
  freeRoom : e ≠ .free (.error .queueFreeListFull)
  freeEmpty : e = .put (.error .queueFreeListEmpty) →
    a = .pop ∧ s.queue.free_.queue = []

private theorem quiet_silent (s : RxPeriod) (a : Op) : Quiet s a .silent :=
  ⟨nofun, nofun, nofun⟩

/-- A fill takes no slot and moves no descriptor. -/
private theorem fill_inv {malloc : Malloc} {desc : PacketDescriptor}
    {packet : Frame} (hi : Inv size s)
    (h : s.step (.fill malloc desc packet) = some (t, e)) :
    Inv size t ∧ Quiet s (.fill malloc desc packet) e := by
  obtain ⟨hfree, hused, herr⟩ :=
    RxQueue.putFill_fifos malloc desc packet (s.mem, s.queue)
  have htot := hi.total
  unfold total heldCount inFlight at htot
  -- put starts from idle, and filling leaves both fifos alone
  cases hpc : s.pc with
  | idle =>
      simp only [step, hpc] at h
      simp only [hpc] at htot
      cases hfill : RxQueue.putFill malloc desc packet (s.mem, s.queue) with
      | mk p r =>
          rw [hfill] at hfree hused herr
          simp only at hfree hused herr
          simp only [hfill] at h
          cases r with
          | error e' =>
              cases h
              refine ⟨⟨?_, ?_, ?_, ?_⟩, ?_, by simp, ?_⟩
              · exact (congrArg (·.config.capacity) hfree).trans hi.freeCap
              · exact (congrArg (·.config.capacity) hused).trans hi.usedCap
              · simp only [RxPeriod.total, heldCount, inFlight, hfree, hused]
                exact htot
              · intro e slot buffers
                simp
              · simpa using (herr e' rfl).1
              · intro heq
                simp only [Event.put.injEq, Except.error.injEq] at heq
                exact absurd heq (herr e' rfl).2
          | ok p' =>
              cases h
              refine ⟨⟨?_, ?_, ?_, ?_⟩, quiet_silent _ _⟩
              · exact (congrArg (·.config.capacity) hfree).trans hi.freeCap
              · exact (congrArg (·.config.capacity) hused).trans hi.usedCap
              · simp only [RxPeriod.total, heldCount, inFlight, hfree, hused]
                exact htot
              · intro e slot buffers
                simp
  | filled _ _ _ => simp [step, hpc] at h
  | popped _ _ _ _ => simp [step, hpc] at h
  | failed _ _ _ => simp [step, hpc] at h

/-- The pop moves a slot from `free_` into the hands of `put`. -/
private theorem pop_inv (hi : Inv size s) (h : s.step .pop = some (t, e)) :
    Inv size t ∧ Quiet s .pop e := by
  have htot := hi.total
  unfold total heldCount inFlight at htot
  cases hpc : s.pc with
  | filled desc bytes buffers =>
      simp only [step, hpc, RxQueue.putPop, Fifo.pop] at h
      simp only [hpc] at htot
      -- an empty free_ ends the put; else the slot is in flight and the
      -- total stands
      cases hq : s.queue.free_.queue with
      | nil =>
          simp only [hq] at h htot
          cases h
          refine ⟨⟨hi.freeCap, hi.usedCap, ?_, ?_⟩, by simp, by simp, ?_⟩
          · simp only [RxPeriod.total, heldCount, inFlight, hq]
            exact htot
          · intro e slot buffers
            simp
          · intro _
            exact ⟨rfl, hq⟩
      | cons slot rest =>
          simp only [hq] at h htot
          cases h
          refine ⟨⟨hi.freeCap, hi.usedCap, ?_, ?_⟩, quiet_silent _ _⟩
          · simp only [RxPeriod.total, heldCount, inFlight]
            rw [List.length_cons] at htot
            omega
          · intro e slot buffers
            simp
  | idle => simp [step, hpc] at h
  | popped _ _ _ _ => simp [step, hpc] at h
  | failed _ _ _ => simp [step, hpc] at h

/-- The popped slot is one of the `size`, so `used_` has room. -/
private theorem push_inv (hi : Inv size s) (h : s.step .push = some (t, e)) :
    Inv size t ∧ Quiet s .push e := by
  have htot := hi.total
  unfold total heldCount inFlight at htot
  cases hpc : s.pc with
  | popped desc bytes slot buffers =>
      simp only [hpc] at htot
      have hroom : s.queue.used_.isFullLocked = false :=
        Fifo.isFullLocked_eq_false_of_lt (by rw [hi.usedCap]; omega)
      simp only [step, hpc, RxQueue.putPush, Fifo.push_of_room hroom] at h
      cases h
      refine ⟨⟨hi.freeCap, hi.usedCap, ?_, ?_⟩, by simp, by simp, by simp⟩
      · simp only [RxPeriod.total, heldCount, inFlight, List.length_append,
          List.length_singleton]
        omega
      · intro e slot buffers
        simp
  | idle => simp [step, hpc] at h
  | filled _ _ _ => simp [step, hpc] at h
  | failed _ _ _ => simp [step, hpc] at h

/-- `take` moves descriptors from `used_` to the application. -/
private theorem take_inv (hi : Inv size s) (h : s.step .take = some (t, e)) :
    Inv size t ∧ Quiet s .take e := by
  have htot := hi.total
  unfold total heldCount at htot
  cases h
  refine ⟨⟨hi.freeCap, hi.usedCap, ?_, hi.notFailed⟩, by simp, by simp,
    by simp⟩
  show s.queue.free_.queue.length
      + (s.queue.used_.queue.drop kMaxSegments).length
      + ((s.held.issue (s.queue.used_.queue.take kMaxSegments)).values.length
        + (s.freeing.map List.length).sum) + s.inFlight = size
  rw [Ledger.issue_values, List.length_append, List.length_drop,
    List.length_take]
  omega

/-- `free` moves them back to `free_`, which has room for all there are. -/
private theorem release_inv {ns : List Nat} (hi : Inv size s)
    (h : s.step (.release ns) = some (t, e)) :
    Inv size t ∧ Quiet s (.release ns) e := by
  have htot := hi.total
  unfold total heldCount at htot
  unfold step at h
  cases hr : s.held.redeem ns with
  | none => simp [hr] at h
  | some p =>
      obtain ⟨ds, held⟩ := p
      have hlen := (Ledger.redeem_perm hr).length_eq
      rw [List.length_append] at hlen
      simp only [hr] at h
      cases h
      refine ⟨⟨hi.freeCap, hi.usedCap, ?_, hi.notFailed⟩, quiet_silent _ _⟩
      show s.queue.free_.queue.length + s.queue.used_.queue.length
        + (held.values.length
          + ((s.freeing ++ [ds]).map List.length).sum) + s.inFlight = size
      simp only [List.map_append, List.sum_append, List.map_cons,
        List.map_nil, List.sum_cons, List.sum_nil]
      omega

/-- What is being returned is part of the `size`, so `free_` has room. -/
private theorem pushAll_inv {i : Nat} (hi : Inv size s)
    (h : s.step (.pushAll i) = some (t, e)) :
    Inv size t ∧ Quiet s (.pushAll i) e := by
  have htot := hi.total
  unfold total heldCount at htot
  unfold step at h
  cases hd : s.freeing[i]? with
  | none => simp [hd] at h
  | some ds =>
      obtain ⟨hlt, hget⟩ := List.getElem?_eq_some_iff.1 hd
      have hsum : (s.freeing.map List.length).sum
          = ds.length + ((s.freeing.eraseIdx i).map List.length).sum := by
        have hperm := (List.getElem_cons_eraseIdx_perm hlt).map List.length
        rw [← hperm.sum_eq, List.map_cons, List.sum_cons, hget]
      have hpush := Fifo.pushAll_of_room s.queue.free_ ds
        (by rw [hi.freeCap]; omega)
      simp only [hd, hpush] at h
      cases h
      refine ⟨⟨hi.freeCap, hi.usedCap, ?_, hi.notFailed⟩, by simp, by simp,
        by simp⟩
      show (s.queue.free_.queue ++ ds).length + s.queue.used_.queue.length
        + (s.held.values.length
          + ((s.freeing.eraseIdx i).map List.length).sum) + s.inFlight = size
      rw [List.length_append]
      omega

/-- Every atomic step keeps the invariant and shows no lost slot. -/
theorem Inv.step (hi : Inv size s) (h : s.step a = some (t, e)) :
    Inv size t ∧ Quiet s a e := by
  cases a with
  | fill malloc desc packet => exact fill_inv hi h
  | pop => exact pop_inv hi h
  | push => exact push_inv hi h
  | giveBack =>
      cases hpc : s.pc with
      | failed e slot buffers => exact absurd hpc (hi.notFailed e slot buffers)
      | idle => simp [RxPeriod.step, hpc] at h
      | filled _ _ _ => simp [RxPeriod.step, hpc] at h
      | popped _ _ _ _ => simp [RxPeriod.step, hpc] at h
  | take => exact take_inv hi h
  | release ns => exact release_inv hi h
  | pushAll i => exact pushAll_inv hi h

/-- A start that found both FIFOs empty opens a period. -/
theorem Inv.start {m m' : Memory} {q q' : RxQueue} (hq : q.Sized)
    (hfree : q.free_.queue = []) (hused : q.used_.queue = [])
    (hstart : RxQueue.start (m, q) = ((m', q'), .ok ())) :
    Inv q'.config.size.toNat { mem := m', queue := q' } := by
  have hst : q.state = .stopped ∨ q.state = .configured := by
    rcases RxQueue.startOr_cases none m q with
      ⟨-, -, heq⟩ | ⟨hs, -, -⟩ | ⟨q₀, hr, -, -, -⟩ | ⟨q₀, e, hr, -, -⟩
    · rw [RxQueue.start, heq] at hstart
      cases hstart
    · exact Or.inl hs
    · cases hr with
      | configured hc => exact Or.inr hc
      | stopped hs _ => exact Or.inl hs
    · cases hr with
      | configured hc => exact Or.inr hc
      | stopped hs _ => exact Or.inl hs
  -- on empty fifos start fits the whole of size
  have hre := (RxSystem.restarts_iff (m := m) hq hst).2 ⟨hfree, hused⟩
  unfold RxSystem.Restarts at hre
  rw [hstart] at hre
  have hq' : q'.Sized := hq.startOr none hstart
  have hst' : q'.state = .started := by
    rcases RxQueue.startOr_cases none m q with
      ⟨-, -, heq⟩ | ⟨-, -, heq⟩ | ⟨q₀, -, -, -, heq⟩ | ⟨q₀, e, -, -, heq⟩
    · rw [RxQueue.start, heq] at hstart
      cases hstart
    · rw [RxQueue.start, heq] at hstart
      cases hstart
    · rw [RxQueue.start, heq] at hstart
      cases hstart
      rfl
    · rw [RxQueue.start, heq] at hstart
      cases hstart
  refine ⟨(hq'.caps (Or.inr hst')).1, (hq'.caps (Or.inr hst')).2, ?_, ?_⟩
  · show q'.free_.queue.length + q'.used_.queue.length + (0 + 0) + 0 = _
    rw [hre.2.1, hre.2.2]
    simp
  · intro e slot buffers
    simp

/-- In every interleaving of one started period the descriptors in
`free_`, in `used_`, held by the application and popped by an in-flight
`put` are exactly the queue's size; `put` never finds `used_` full,
`free` never finds `free_` full, and `put` reports an empty free list
only when it is empty at its pop. -/
theorem total_eq_size {blocks : Blocks} {as : List RxSystem.Op}
    {es : List RxSystem.Event} {s : RxSystem}
    (hrun : rxSystem.run (RxSystem.init blocks) as = some (s, es))
    (hfree : s.queue.free_.queue = []) (hused : s.queue.used_.queue = [])
    {m : Memory} {q : RxQueue}
    (hstart : RxQueue.start s.pair = ((m, q), .ok ()))
    {bs : List Op} {fs : List Event} {p : RxPeriod}
    (hperiod : rxPeriod.run { mem := m, queue := q } bs = some (p, fs)) :
    p.queue.free_.queue.length + p.queue.used_.queue.length + p.heldCount
        + p.inFlight = q.config.size.toNat
      ∧ ∀ b p' e, rxPeriod.step p b = some (p', e) →
          e ≠ .put (.error .queueUsedListFull)
            ∧ e ≠ .free (.error .queueFreeListFull)
            ∧ (e = .put (.error .queueFreeListEmpty) →
                b = .pop ∧ p.queue.free_.queue = []) := by
  have h₀ := Inv.start (RxSystem.Inv.run hrun).sized hfree hused hstart
  have hi : Inv q.config.size.toNat p :=
    rxPeriod.run_invariant (fun hi hs => (hi.step hs).1) h₀ hperiod
  refine ⟨hi.total, fun b p' e hstep => ?_⟩
  have hquiet := (hi.step hstep).2
  exact ⟨hquiet.usedRoom, hquiet.freeRoom, hquiet.freeEmpty⟩

/-- A period with a take between the pop of a second `put` and its
push. -/
def takeInsidePut : List Op :=
  [.fill .bump {} [7], .pop, .push, .fill .bump {} [8], .pop, .take,
    .release [0], .push, .pushAll 0]

/-- A queue of two descriptors, not started yet. -/
def ofSizeTwo : RxSystem :=
  { queue := (RxQueue.configure { size := 2 } {}).1 }

/-- A `take` between the pop and the push of a `put` loses nothing. -/
theorem total_eq_size_takeInsidePut :
    ∃ m q p fs,
      RxQueue.start ofSizeTwo.pair = ((m, q), .ok ())
        ∧ rxPeriod.run { mem := m, queue := q } takeInsidePut = some (p, fs)
        ∧ p.total = 2 := by
  have hstart : (RxQueue.start ofSizeTwo.pair).2 = .ok ()
      ∧ (RxQueue.start ofSizeTwo.pair).1.2.config.size = 2 := by decide
  have hsome : (rxPeriod.run
      { mem := (RxQueue.start ofSizeTwo.pair).1.1
        queue := (RxQueue.start ofSizeTwo.pair).1.2 }
      takeInsidePut).isSome = true := by decide
  obtain ⟨⟨p, fs⟩, hp⟩ := Option.isSome_iff_exists.1 hsome
  have hrun : rxSystem.run (RxSystem.init ∅) [.configure { size := 2 }]
      = some (ofSizeTwo, [.configure (.ok ())]) := rfl
  have heq : RxQueue.start ofSizeTwo.pair
      = (((RxQueue.start ofSizeTwo.pair).1.1,
          (RxQueue.start ofSizeTwo.pair).1.2), .ok ()) :=
    Prod.ext rfl hstart.1
  have htotal := (total_eq_size hrun rfl rfl heq hp).1
  rw [hstart.2] at htotal
  exact ⟨_, _, p, fs, heq, hp, htotal⟩

-- =========================================================== refinement

/-- The phases run back to back are `put`. -/
theorem put_run (hidle : s.pc = .idle) (malloc : Malloc)
    (desc : PacketDescriptor) (packet : Frame) :
    ∃ bs fs, rxPeriod.run s bs
        = some ({ s with
            mem := (RxQueue.put malloc desc packet (s.mem, s.queue)).1.1
            queue := (RxQueue.put malloc desc packet (s.mem, s.queue)).1.2 },
          fs ++ [.put
            (RxQueue.put malloc desc packet (s.mem, s.queue)).2]) := by
  unfold RxQueue.put
  -- a put alone is fill, pop and push, cut short where the source returns
  cases hfill : RxQueue.putFill malloc desc packet (s.mem, s.queue) with
  | mk p₁ r₁ =>
      cases r₁ with
      | error e =>
          refine ⟨[.fill malloc desc packet], [], ?_⟩
          simp [StepSystem.run, rxPeriod, step, hidle, hfill]
      | ok p =>
          obtain ⟨desc', buffers⟩ := p
          cases hpop : RxQueue.putPop buffers p₁ with
          | mk p₂ r₂ =>
              cases r₂ with
              | error e =>
                  refine ⟨[.fill malloc desc packet, .pop], [.silent], ?_⟩
                  simp [StepSystem.run, rxPeriod, step, hidle, hfill, hpop]
              | ok slot =>
                  cases hpush : RxQueue.putPush desc' packet.length p₂.2 with
                  | mk q r₃ =>
                      cases r₃ with
                      | error e =>
                          refine ⟨[.fill malloc desc packet, .pop, .push,
                            .giveBack], [.silent, .silent, .silent], ?_⟩
                          simp [StepSystem.run, rxPeriod, step, hidle, hfill,
                            hpop, hpush]
                      | ok u =>
                          refine ⟨[.fill malloc desc packet, .pop, .push],
                            [.silent, .silent], ?_⟩
                          simp [StepSystem.run, rxPeriod, step, hidle, hfill,
                            hpop, hpush]

end RxPeriod

end Vnic
