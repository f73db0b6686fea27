/-
A bounded queue, as what a component that passes elements on in order is
for.

The state is the contents, oldest first, and the bound, which may change
at any time and may be absent. `offer` stores the longest prefix of a
batch that the bound leaves room for, `take` hands out the oldest
elements, `resize` changes the bound and nothing else; a queue left over
its bound by `resize` takes nothing until it has drained. Each operation
shows its effect, what went in and what came out, and over every run what
was there and what went in is what came out and what is there
(`run_conserves`).
-/
import Mathlib.Order.Bounds.Defs
import Vnic.Lib.StepSystem

/-- The contents, oldest first, and the most an offer may fill them to. -/
structure BoundedQueue (α : Type) where
  contents : List α := []
  bound : Option Nat := none

namespace BoundedQueue

variable {α : Type}

/-- The operations. -/
inductive Op (α : Type)
  | offer (xs : List α)
  | take (n : Nat)
  | resize (bound : Option Nat)

/-- What an operation takes in and hands out. -/
structure Effect (α : Type) where
  accepted : List α := []
  removed : List α := []

/-- How many of `want` more elements fit. -/
def room (q : BoundedQueue α) (want : Nat) : Nat :=
  match q.bound with
  | none => want
  | some b => min want (b - q.contents.length)

/-- One operation. -/
def apply (q : BoundedQueue α) : Op α → BoundedQueue α × Effect α
  | .offer xs =>
      let stored := xs.take (q.room xs.length)
      ({ q with contents := q.contents ++ stored }, { accepted := stored })
  | .take n =>
      ({ q with contents := q.contents.drop n },
        { removed := q.contents.take n })
  | .resize bound => ({ q with bound := bound }, {})

/-- The queue as a step system: every operation is always enabled. -/
def system (α : Type) : StepSystem (BoundedQueue α) (Op α) (Effect α) where
  step q op := some (q.apply op)

-- ============================================================ the room

/-- `n` more elements keep within the bound; none at all always do. -/
def Fits (q : BoundedQueue α) (n : Nat) : Prop :=
  n = 0 ∨ ∀ b ∈ q.bound, q.contents.length + n ≤ b

/-- The room is the most that fits. -/
theorem room_isGreatest (q : BoundedQueue α) (want : Nat) :
    IsGreatest {n | n ≤ want ∧ q.Fits n} (q.room want) := by
  unfold room Fits
  cases q.bound with
  | none =>
      refine ⟨⟨Nat.le_refl want, Or.inr fun b hb => nomatch hb⟩, ?_⟩
      exact fun n hn => hn.1
  | some b =>
      simp only [Option.mem_some_iff, forall_eq']
      constructor
      · refine ⟨Nat.min_le_left .., ?_⟩
        omega
      · rintro n ⟨hn, hfits⟩
        rcases hfits with rfl | hfits
        · exact Nat.zero_le _
        · exact Nat.le_min.2 ⟨hn, by omega⟩

@[simp]
theorem room_zero (q : BoundedQueue α) : q.room 0 = 0 :=
  Nat.le_zero.1 (q.room_isGreatest 0).1.1

/-- A queue without room for one element has none for more. -/
theorem room_succ_of_full {q : BoundedQueue α} (h : q.room 1 = 0) (n : Nat) :
    q.room (n + 1) = 0 := by
  unfold room at *
  cases hb : q.bound with
  | none => simp [hb] at h
  | some b =>
      simp only [hb] at *
      omega

/-- With room for one element the others are measured behind it. -/
theorem room_succ_of_room {q : BoundedQueue α} (h : q.room 1 ≠ 0) (x : α)
    (n : Nat) :
    q.room (n + 1)
      = { q with contents := q.contents ++ [x] }.room n + 1 := by
  unfold room at *
  cases hb : q.bound with
  | none => rfl
  | some b =>
      simp only [hb, List.length_append, List.length_singleton] at *
      omega

theorem room_le (q : BoundedQueue α) (want : Nat) : q.room want ≤ want :=
  (q.room_isGreatest want).1.1

-- ========================================================= conservation

/-- Everything a run took in, in order. -/
def accepted (es : List (Effect α)) : List α := es.flatMap Effect.accepted

/-- Everything a run handed out, in order. -/
def removed (es : List (Effect α)) : List α := es.flatMap Effect.removed

/-- One operation moves elements at the two ends and loses none. -/
theorem apply_conserves (q : BoundedQueue α) (op : Op α) :
    q.contents ++ (q.apply op).2.accepted
      = (q.apply op).2.removed ++ (q.apply op).1.contents := by
  cases op with
  | offer xs => rfl
  | take n =>
      show q.contents ++ [] = q.contents.take n ++ q.contents.drop n
      rw [List.append_nil, List.take_append_drop]
  | resize bound => exact List.append_nil _

/-- What was there and what went in is what came out and what is there. -/
theorem run_conserves {q r : BoundedQueue α} {ops : List (Op α)}
    {es : List (Effect α)} (hrun : (system α).run q ops = some (r, es)) :
    q.contents ++ accepted es = removed es ++ r.contents := by
  refine (system α).run_history
    (P := fun s fs => q.contents ++ accepted fs = removed fs ++ s.contents)
    ?_ (List.append_nil _) hrun
  intro s s₁ op e fs ih hstep
  have hop := s.apply_conserves op
  rw [Option.some.inj hstep] at hop
  unfold accepted removed at *
  rw [List.flatMap_append, List.flatMap_append, List.flatMap_singleton,
    List.flatMap_singleton, ← List.append_assoc, ih, List.append_assoc, hop,
    List.append_assoc]

-- ============================================================ the bound

/-- An offer fills the queue to its bound at most, or stores nothing. -/
theorem offer_within (q : BoundedQueue α) (xs : List α) {b : Nat}
    (hb : b ∈ q.bound) :
    (q.apply (.offer xs)).1.contents.length ≤ b
      ∨ (q.apply (.offer xs)).1.contents = q.contents := by
  show (q.contents ++ xs.take (q.room xs.length)).length ≤ b
    ∨ q.contents ++ xs.take (q.room xs.length) = q.contents
  rcases (q.room_isGreatest xs.length).1.2 with hzero | hfits
  · rw [hzero]
    exact Or.inr (List.append_nil _)
  · have := hfits b hb
    rw [List.length_append, List.length_take]
    omega

end BoundedQueue
