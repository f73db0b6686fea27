/-
When `RxQueue::stopImpl` can hang.

The pop of a drain loop follows a test that saw an element, and only a
`take` can remove it in between. `take` does not touch `free_`, so the
first loop is safe. In the second, a `take` that falls between the test
and the pop and finds no more than `kMaxSegments` descriptors empties
`used_`; the pop then waits, and with the producer gone it waits for good.
Nothing else makes a pop wait (`step_waits_iff`), and the loops take a
bounded number of steps, so otherwise `stopImpl` returns. With nobody else
about it is the `drain` of whole calls (`run_alone`).
-/
import Vnic.RxDrain

namespace Vnic.RxDrain

variable {s t : RxDrain} {a : Op} {e : List PacketDescriptor}

-- ============================================================ the steps

/-- A step of `stopImpl` from each point. -/
theorem stopStep_cases (h : s.stopStep = some t) :
    (s.pc = .testFree
      ∧ t = { s with
          pc := if s.queue.free_.isEmpty then .testUsed else .popFree })
    ∨ (∃ desc rest, s.pc = .popFree ∧ s.queue.free_.queue = desc :: rest
      ∧ t = { s with
          queue := { s.queue with
            free_ := { s.queue.free_ with queue := rest } }
          pc := .testFree })
    ∨ (s.pc = .testUsed
      ∧ t = { s with
          pc := if s.queue.used_.isEmpty then .done else .popUsed })
    ∨ (∃ desc rest, s.pc = .popUsed ∧ s.queue.used_.queue = desc :: rest
      ∧ t = { s with
          queue := { s.queue with
            used_ := { s.queue.used_ with queue := rest } }
          pc := .release desc.buffer })
    ∨ ∃ head m pool, s.pc = .release head
      ∧ RxQueue.releaseChain head (s.mem, s.queue.memPool) = (m, pool)
      ∧ t = { s with
          mem := m
          queue := { s.queue with memPool := pool }
          pc := .testUsed } := by
  -- one disjunct per place of the loop that stop() runs
  unfold stopStep at h
  cases hpc : s.pc with
  | testFree =>
      simp only [hpc, Option.some.injEq] at h
      exact Or.inl ⟨rfl, h.symm⟩
  | popFree =>
      simp only [hpc, Fifo.pop] at h
      cases hq : s.queue.free_.queue with
      | nil => simp [hq] at h
      | cons desc rest =>
          simp only [hq, Option.some.injEq] at h
          exact Or.inr (Or.inl ⟨desc, rest, rfl, rfl, h.symm⟩)
  | testUsed =>
      simp only [hpc, Option.some.injEq] at h
      exact Or.inr (Or.inr (Or.inl ⟨rfl, h.symm⟩))
  | popUsed =>
      simp only [hpc, Fifo.pop] at h
      cases hq : s.queue.used_.queue with
      | nil => simp [hq] at h
      | cons desc rest =>
          simp only [hq, Option.some.injEq] at h
          exact Or.inr (Or.inr (Or.inr (Or.inl
            ⟨desc, rest, rfl, rfl, h.symm⟩)))
  | release head =>
      simp only [hpc, Option.some.injEq] at h
      exact Or.inr (Or.inr (Or.inr (Or.inr ⟨head, _, _, rfl, rfl, h.symm⟩)))
  | done => simp [hpc] at h

/-- What a step can do. -/
theorem step_cases (h : s.step a = some (t, e)) :
    (a = .stop ∧ s.stopStep = some t)
    ∨ (a = .take
      ∧ t = { s with
          queue :=
            { s.queue with
              used_ :=
                { s.queue.used_ with
                  queue := s.queue.used_.queue.drop kMaxSegments } } }) := by
  cases a with
  | stop =>
      unfold step at h
      obtain ⟨u, hu, heq⟩ := Option.map_eq_some_iff.1 h
      cases heq
      exact Or.inl ⟨rfl, hu⟩
  | take =>
      simp only [step, RxQueue.take, Fifo.tryPopSome, Option.some.injEq,
        Prod.mk.injEq] at h
      exact Or.inr ⟨rfl, h.1.symm⟩

/-- `stopImpl` is stuck where a pop waits, and nowhere else before its
end. -/
theorem stopStep_eq_none_iff :
    s.stopStep = none ↔ s.pc = .done ∨ s.Waits := by
  unfold stopStep Waits Fifo.pop
  cases hpc : s.pc with
  | testFree => simp
  | popFree =>
      cases hq : s.queue.free_.queue with
      | nil => simp
      | cons desc rest => simp
  | testUsed => simp
  | popUsed =>
      cases hq : s.queue.used_.queue with
      | nil => simp
      | cons desc rest => simp
  | release head => simp
  | done => simp

-- ============================================================== waiting

/-- A `take` between the test of `used_` and its pop leaves an element. -/
def Spares (s : RxDrain) (a : Op) (_ : List PacketDescriptor) : Prop :=
  a = .take → s.pc = .popUsed → kMaxSegments < s.queue.used_.queue.length

instance (s : RxDrain) (a : Op) (e : List PacketDescriptor) :
    Decidable (Spares s a e) :=
  inferInstanceAs (Decidable (_ → _ → _))

/-- A pop is made to wait by a `take` that does not spare it, and by
nothing else. -/
theorem step_waits_iff (hs : ¬ s.Waits) (h : s.step a = some (t, e)) :
    ¬ t.Waits ↔ Spares s a e := by
  rcases step_cases h with ⟨rfl, hstop⟩ | ⟨rfl, rfl⟩
  · have hspare : Spares s .stop e := fun htake => (by cases htake)
    refine iff_of_true ?_ hspare
    rcases stopStep_cases hstop with ⟨-, rfl⟩ | ⟨_, _, -, -, rfl⟩ | ⟨-, rfl⟩
      | ⟨_, _, -, -, rfl⟩ | ⟨_, _, _, -, -, rfl⟩
    · cases hq : s.queue.free_.queue with
      | nil => simp [Waits, Fifo.isEmpty, hq]
      | cons desc rest => simp [Waits, Fifo.isEmpty, hq]
    · simp [Waits]
    · cases hq : s.queue.used_.queue with
      | nil => simp [Waits, Fifo.isEmpty, hq]
      | cons desc rest => simp [Waits, Fifo.isEmpty, hq]
    · simp [Waits]
    · simp [Waits]
  · unfold Waits at hs
    simp only [not_or, not_and] at hs
    simp only [Waits, Spares, not_or, not_and, List.drop_eq_nil_iff,
      Nat.not_le, true_implies]
    exact and_iff_right hs.1

-- ============================================================== the end

/-- The steps `stopImpl` may still take. -/
def remaining (s : RxDrain) : Nat :=
  match s.pc with
  | .testFree => 2 * s.queue.free_.queue.length
      + 3 * s.queue.used_.queue.length + 2
  | .popFree => 2 * s.queue.free_.queue.length
      + 3 * s.queue.used_.queue.length + 1
  | .testUsed => 3 * s.queue.used_.queue.length + 1
  | .popUsed => 3 * s.queue.used_.queue.length
  | .release _ => 3 * s.queue.used_.queue.length + 2
  | .done => 0

/-- Each step of `stopImpl` uses one of them up; a `take` adds none. -/
theorem step_remaining (h : s.step a = some (t, e)) :
    t.remaining + [a].count .stop ≤ s.remaining := by
  rcases step_cases h with ⟨rfl, hstop⟩ | ⟨rfl, rfl⟩
  · rw [List.count_singleton_self]
    rcases stopStep_cases hstop with ⟨hpc, rfl⟩ | ⟨_, _, hpc, hq, rfl⟩
      | ⟨hpc, rfl⟩ | ⟨_, _, hpc, hq, rfl⟩ | ⟨_, _, _, hpc, -, rfl⟩
    · cases hq : s.queue.free_.queue with
      | nil => simp [remaining, hpc, Fifo.isEmpty, hq]
      | cons desc rest => simp [remaining, hpc, Fifo.isEmpty, hq]
    · simp only [remaining, hpc, hq, List.length_cons]
      omega
    · cases hq : s.queue.used_.queue with
      | nil => simp [remaining, hpc, Fifo.isEmpty, hq]
      | cons desc rest => simp [remaining, hpc, Fifo.isEmpty, hq]
    · simp only [remaining, hpc, hq, List.length_cons]
      omega
    · simp only [remaining, hpc]
      omega
  -- a take in between only shortens used_
  · show _ + 0 ≤ _
    unfold remaining
    simp only [List.length_drop]
    cases s.pc with
    | testFree => simp only; omega
    | popFree => simp only; omega
    | testUsed => simp only; omega
    | popUsed => simp only; omega
    | release head => simp only; omega
    | done => simp only; omega

/-- Every step of the drain, and every `stop` of another thread, uses up
something. -/
private theorem run_remaining {as : List Op}
    {es : List (List PacketDescriptor)}
    (h : rxDrain.run s as = some (t, es)) :
    t.remaining + as.count .stop ≤ s.remaining := by
  induction as generalizing s es with
  | nil =>
      simp only [StepSystem.run_nil, Option.some.injEq, Prod.mk.injEq] at h
      rw [h.1]
      exact Nat.le_refl _
  | cons a rest ih =>
      obtain ⟨u, e, es', hstep, hrest, -⟩ := rxDrain.run_cons h
      have hone := step_remaining hstep
      have hmany := ih hrest
      rw [show a :: rest = [a] ++ rest from rfl, List.count_append]
      omega

/-- With `used_` empty under its pop, nothing ever happens again. -/
theorem run_stuck {as : List Op} {es : List (List PacketDescriptor)}
    (hpc : s.pc = .popUsed) (hq : s.queue.used_.queue = [])
    (h : rxDrain.run s as = some (t, es)) : t.pc = .popUsed := by
  have hinv : t.pc = .popUsed ∧ t.queue.used_.queue = [] := by
    refine rxDrain.run_invariant (I := fun s : RxDrain =>
      s.pc = .popUsed ∧ s.queue.used_.queue = []) ?_ ⟨hpc, hq⟩ h
    rintro s t a e ⟨hpc, hq⟩ hstep
    rcases step_cases hstep with ⟨rfl, hstop⟩ | ⟨rfl, rfl⟩
    · have hnone := stopStep_eq_none_iff.2 (Or.inr (Or.inr ⟨hpc, hq⟩))
      cases hnone.symm.trans hstop
    · refine ⟨hpc, ?_⟩
      rw [hq]
      rfl
  exact hinv.1

-- ========================================================= undisturbed

/-- The second loop with nobody else about. -/
theorem run_used_alone (mem : Memory) (queue : RxQueue) :
    rxDrain.run ⟨mem, queue, .testUsed⟩
        (List.replicate (3 * queue.used_.queue.length + 1) .stop)
      = some (⟨(RxQueue.releaseAll queue.used_.queue (mem, queue.memPool)).1,
          { queue with
            used_ := { queue.used_ with queue := [] }
            memPool := (RxQueue.releaseAll queue.used_.queue
              (mem, queue.memPool)).2 }, .done⟩,
        List.replicate (3 * queue.used_.queue.length + 1) []) := by
  obtain ⟨state, free, ⟨used, usedConfig⟩, pool, stats, config⟩ := queue
  induction used generalizing mem pool with
  | nil => rfl
  | cons desc rest ih =>
      apply rxDrain.run_of_step (t := ⟨mem, _, .popUsed⟩) rfl
      apply rxDrain.run_of_step (t := ⟨mem, _, .release desc.buffer⟩) rfl
      apply rxDrain.run_of_step rfl
      exact ih _ _

/-- `stopImpl` with nobody else about is the `drain` of whole calls. -/
theorem run_alone (mem : Memory) (queue : RxQueue) :
    rxDrain.run ⟨mem, queue, .testFree⟩
        (List.replicate (2 * queue.free_.queue.length
          + (3 * queue.used_.queue.length + 2)) .stop)
      = some (⟨(RxQueue.drain (mem, queue)).1,
          (RxQueue.drain (mem, queue)).2, .done⟩,
        List.replicate (2 * queue.free_.queue.length
          + (3 * queue.used_.queue.length + 2)) []) := by
  obtain ⟨state, ⟨free, freeConfig⟩, used, pool, stats, config⟩ := queue
  induction free with
  | nil =>
      rw [List.length_nil, Nat.mul_zero, Nat.zero_add]
      apply rxDrain.run_of_step rfl
      exact run_used_alone _ _
  | cons desc rest ih =>
      have hlen : 2 * (desc :: rest).length + (3 * used.queue.length + 2)
          = 2 * rest.length + (3 * used.queue.length + 2) + 1 + 1 := by
        rw [List.length_cons]
        omega
      rw [hlen]
      apply rxDrain.run_of_step (t := ⟨mem, _, .popFree⟩) rfl
      apply rxDrain.run_of_step rfl
      exact ih

-- =============================================================== result

/-- `stopImpl` next to `take` calls, in any interleaving: no pop is ever
executed on an empty FIFO exactly when no `take` that finds at most
`kMaxSegments` descriptors in `used_` falls between the test of `used_`
and its pop. In such a run `stopImpl` is never stuck; and its loops take a
bounded number of steps in every run. -/
theorem drain_never_waits (mem : Memory) (queue : RxQueue) (as : List Op) :
    (rxDrain.Always (fun s => ¬ s.Waits) ⟨mem, queue, .testFree⟩ as
      ↔ rxDrain.Along Spares ⟨mem, queue, .testFree⟩ as)
    ∧ ∀ t es, rxDrain.run ⟨mem, queue, .testFree⟩ as = some (t, es) →
        (rxDrain.Along Spares ⟨mem, queue, .testFree⟩ as →
          t.pc = .done ∨ ∃ u, t.stopStep = some u)
        ∧ as.count .stop ≤ 2 * queue.free_.queue.length
            + 3 * queue.used_.queue.length + 2 := by
  have hs : ¬ Waits ⟨mem, queue, .testFree⟩ := by
    simp [Waits]
  have hiff : rxDrain.Always (fun s => ¬ s.Waits) ⟨mem, queue, .testFree⟩ as
      ↔ rxDrain.Along Spares ⟨mem, queue, .testFree⟩ as :=
    rxDrain.always_iff step_waits_iff hs
  refine ⟨hiff, fun t es hrun => ⟨fun hspare => ?_, ?_⟩⟩
  · have ht := hiff.2 hspare as [] t es (List.append_nil as).symm hrun
    cases hstop : t.stopStep with
    | none => exact Or.inl ((stopStep_eq_none_iff.1 hstop).resolve_right ht)
    | some u => exact Or.inr ⟨u, rfl⟩
  · have hcount := run_remaining hrun
    have hstart : remaining ⟨mem, queue, .testFree⟩
        = 2 * queue.free_.queue.length + 3 * queue.used_.queue.length + 2 :=
      rfl
    omega

/-- A `take` before the test of `used_`: the loop finds the queue empty,
and `stopImpl` returns. -/
theorem drain_never_waits_sparedRun :
    rxDrain.Along Spares ⟨{}, { used_ := { queue := [{}] } }, .testFree⟩
        [.take, .stop, .stop]
    ∧ rxDrain.Always (fun s => ¬ s.Waits)
        ⟨{}, { used_ := { queue := [{}] } }, .testFree⟩ [.take, .stop, .stop]
    ∧ ∃ t es, rxDrain.run ⟨{}, { used_ := { queue := [{}] } }, .testFree⟩
          [.take, .stop, .stop] = some (t, es)
        ∧ t.pc = .done := by
  have hspare : rxDrain.Along Spares
      ⟨{}, { used_ := { queue := [{}] } }, .testFree⟩
      [.take, .stop, .stop] := by decide
  have hres := drain_never_waits {} { used_ := { queue := [{}] } }
    [.take, .stop, .stop]
  refine ⟨hspare, hres.1.2 hspare, _, _, rfl, ?_⟩
  rcases (hres.2 _ _ rfl).1 hspare with hdone | ⟨u, hu⟩
  · exact hdone
  · cases hu

/-- One received descriptor; a `take` comes between the test and the pop:
`stopImpl` never returns. -/
theorem drain_hangs :
    (¬ ∀ (mem : Memory) (queue : RxQueue) (as : List Op),
      rxDrain.Always (fun s => ¬ s.Waits) ⟨mem, queue, .testFree⟩ as)
    ∧ ∃ t es, rxDrain.run
          ⟨{}, { used_ := { queue := [{}] } }, .testFree⟩
          [.stop, .stop, .take] = some (t, es)
        ∧ ∀ as u fs, rxDrain.run t as = some (u, fs) → u.pc ≠ .done := by
  have hrun : rxDrain.run ⟨{}, { used_ := { queue := [{}] } }, .testFree⟩
      [.stop, .stop, .take]
        = some (⟨{}, {}, .popUsed⟩, [[], [], [{}]]) := rfl
  constructor
  · intro h
    exact h {} { used_ := { queue := [{}] } } [.stop, .stop, .take] _ [] _ _
      rfl hrun (Or.inr ⟨rfl, rfl⟩)
  · refine ⟨_, _, hrun, fun as u fs hcont hdone => ?_⟩
    have hstuck := run_stuck rfl rfl hcont
    cases hstuck.symm.trans hdone

end Vnic.RxDrain
