/-
A queue with credits, as what a receive ring is for.

An element is accepted against a credit, waits in order, is taken by a
reader, who may look at it as long as he holds it, and its credit comes
back some time after he has given it up. The state is the credits at
hand, what waits, what is held (by number), and how many credits are on
their way back. An offer without a credit is turned down.

Over every run credits are neither made nor lost (`run_total`), and what
was accepted is what was taken and what waits, in order
(`run_in_order`).
-/
import Vnic.Lib.Ledger
import Vnic.Lib.StepSystem

/-- Credits, elements in order, elements held, credits on their way. -/
structure CreditQueue (α : Type) where
  credits : Nat
  waiting : List α := []
  held : Ledger α := .empty
  returning : Nat := 0

namespace CreditQueue

variable {α : Type}

/-- The operations. -/
inductive Op (α : Type)
  | offer (x : α)
  | take (n : Nat)
  | look (ticket : Nat)
  | giveUp (tickets : List Nat)
  | credit (n : Nat)

/-- What an operation shows. A take numbers its elements from the ticket
on. -/
inductive Event (α : Type)
  | accepted (x : α)
  | full
  | taken (ticket : Nat) (xs : List α)
  | seen (x : α)
  | givenUp (tickets : List Nat)
  | credited (n : Nat)
  deriving DecidableEq

/-- One operation. Only what is held can be looked at or given up, and
only credits on their way come back. -/
def step (q : CreditQueue α) : Op α → Option (CreditQueue α × Event α)
  | .offer x =>
      match q.credits with
      | 0 => some (q, .full)
      | c + 1 =>
          some ({ q with credits := c, waiting := q.waiting ++ [x] },
            .accepted x)
  | .take n =>
      some ({ q with
          waiting := q.waiting.drop n
          held := q.held.issue (q.waiting.take n) },
        .taken q.held.next (q.waiting.take n))
  | .look ticket => (q.held.get ticket).map fun x => (q, .seen x)
  | .giveUp tickets =>
      (q.held.redeem tickets).map fun p =>
        ({ q with held := p.2, returning := q.returning + p.1.length },
          .givenUp tickets)
  | .credit n =>
      if n ≤ q.returning then
        some ({ q with
            credits := q.credits + n
            returning := q.returning - n }, .credited n)
      else none

/-- The queue as a step system. -/
def system (α : Type) : StepSystem (CreditQueue α) (Op α) (Event α) where
  step := step

variable {q r : CreditQueue α} {a : Op α} {e : Event α} {as : List (Op α)}
  {es : List (Event α)}

-- ============================================================== credits

/-- All credits, wherever they are. -/
def total (q : CreditQueue α) : Nat :=
  q.credits + q.waiting.length + q.held.values.length + q.returning

theorem step_total (h : q.step a = some (r, e)) : r.total = q.total := by
  cases a with
  | offer x =>
      cases hc : q.credits with
      | zero =>
          simp only [step, hc, Option.some.injEq, Prod.mk.injEq] at h
          rw [← h.1]
      | succ c =>
          simp only [step, hc, Option.some.injEq, Prod.mk.injEq] at h
          rw [← h.1]
          simp only [total, hc, List.length_append, List.length_singleton]
          omega
  | take n =>
      cases h
      simp only [total, Ledger.issue_values, List.length_append,
        List.length_drop, List.length_take]
      omega
  | look ticket =>
      obtain ⟨x, -, hx⟩ := Option.map_eq_some_iff.1 h
      cases hx
      rfl
  | giveUp tickets =>
      obtain ⟨⟨xs, held⟩, hr, hx⟩ := Option.map_eq_some_iff.1 h
      cases hx
      have hlen := (Ledger.redeem_perm hr).length_eq
      rw [List.length_append] at hlen
      simp only [total]
      omega
  | credit n =>
      by_cases hn : n ≤ q.returning
      · simp only [step, if_pos hn, Option.some.injEq, Prod.mk.injEq] at h
        rw [← h.1]
        simp only [total]
        omega
      · simp [step, if_neg hn] at h

/-- Credits are neither made nor lost. -/
theorem run_total (hrun : (system α).run q as = some (r, es)) :
    r.total = q.total :=
  (system α).run_invariant (I := fun s => s.total = q.total)
    (fun hs h => (step_total h).trans hs) rfl hrun

-- ================================================================ order

/-- The element an event took in. -/
def Event.wentIn : Event α → List α
  | .accepted x => [x]
  | _ => []

/-- The elements an event handed out. -/
def Event.wentOut : Event α → List α
  | .taken _ xs => xs
  | _ => []

theorem step_in_order (h : q.step a = some (r, e)) :
    q.waiting ++ e.wentIn = e.wentOut ++ r.waiting := by
  cases a with
  | offer x =>
      cases hc : q.credits with
      | zero =>
          simp only [step, hc, Option.some.injEq, Prod.mk.injEq] at h
          rw [← h.1, ← h.2]
          exact List.append_nil _
      | succ c =>
          simp only [step, hc, Option.some.injEq, Prod.mk.injEq] at h
          rw [← h.1, ← h.2]
          rfl
  | take n =>
      cases h
      exact (List.append_nil _).trans (List.take_append_drop n _).symm
  | look ticket =>
      obtain ⟨x, -, hx⟩ := Option.map_eq_some_iff.1 h
      cases hx
      exact List.append_nil _
  | giveUp tickets =>
      obtain ⟨p, -, hx⟩ := Option.map_eq_some_iff.1 h
      cases hx
      exact List.append_nil _
  | credit n =>
      by_cases hn : n ≤ q.returning
      · simp only [step, if_pos hn, Option.some.injEq, Prod.mk.injEq] at h
        rw [← h.1, ← h.2]
        exact List.append_nil _
      · simp [step, if_neg hn] at h

/-- What was waiting and what was accepted is what was taken and what
waits, in order. -/
theorem run_in_order (hrun : (system α).run q as = some (r, es)) :
    q.waiting ++ es.flatMap Event.wentIn
      = es.flatMap Event.wentOut ++ r.waiting := by
  refine (system α).run_history (P := fun s fs => q.waiting
      ++ fs.flatMap Event.wentIn = fs.flatMap Event.wentOut ++ s.waiting)
    (fun {_ _ _ e fs} ih h => ?_) (List.append_nil _) hrun
  rw [List.flatMap_append, List.flatMap_append, List.flatMap_singleton,
    List.flatMap_singleton, ← List.append_assoc, ih, List.append_assoc,
    step_in_order h, List.append_assoc]

end CreditQueue
