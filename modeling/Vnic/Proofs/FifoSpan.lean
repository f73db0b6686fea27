/-
Where the batch pops write.

The loop copies queue elements to the front of the span one by one
(`spanLoop_append`). It is bounded by the template argument, so what
stops it is that argument or the end of the queue, never the size of the
span itself. For a fixed extent the two are the same number. For
`std::dynamic_extent` the argument is larger than any size, and the loop
runs on into whatever lies behind the span as soon as the queue holds
more elements than fit.
-/
import Vnic.FifoSystem

namespace Vnic.Fifo

variable {α : Type}

-- ============================================================ the loop

/-- While there is room the loop overwrites `mid` by the queue's front. -/
private theorem spanLoop_append {N : Nat} (front rest pre mid post : List α)
    (hlen : mid.length = front.length) (hN : pre.length + mid.length ≤ N) :
    spanLoop N (front ++ rest) (pre ++ (mid ++ post)) pre.length
      = spanLoop N rest (pre ++ (front ++ post))
          (pre.length + front.length) := by
  induction front generalizing pre mid with
  | nil =>
      obtain rfl := List.eq_nil_of_length_eq_zero hlen
      rfl
  | cons x front ih =>
      obtain ⟨y, mid, rfl⟩ := List.exists_cons_of_length_eq_add_one hlen
      rw [List.length_cons, List.length_cons, Nat.add_right_cancel_iff]
        at hlen
      rw [List.length_cons] at hN
      have hset : (pre ++ (y :: mid ++ post)).set pre.length x
          = (pre ++ [x]) ++ (mid ++ post) := by
        rw [List.set_append_right _ _ (Nat.le_refl _), Nat.sub_self]
        simp
      have hnext := ih (pre ++ [x]) mid hlen
        (by rw [List.length_append, List.length_singleton]; omega)
      rw [List.length_append, List.length_singleton] at hnext
      rw [List.cons_append, spanLoop, if_pos (by omega), if_pos (by simp),
        hset, hnext, List.length_cons, List.append_assoc, Nat.add_assoc,
        Nat.add_comm 1]
      rfl

/-- How many elements go into the span. -/
def moved (f : Fifo α) (buffer : Span α) : Nat :=
  min f.queue.length buffer.size

/-- What is moved is the front of the queue. -/
theorem take_moved (f : Fifo α) (buffer : Span α) :
    f.queue.take (f.moved buffer) = f.queue.take buffer.size := by
  unfold moved
  rw [Nat.min_comm, ← List.take_eq_take_min]

/-- What stays is the rest. -/
theorem drop_moved (f : Fifo α) (buffer : Span α) :
    f.queue.drop (f.moved buffer) = f.queue.drop buffer.size := by
  unfold moved
  rw [Nat.min_comm, ← List.drop_eq_drop_min]

theorem length_take_moved (f : Fifo α) (buffer : Span α) :
    (f.queue.take (f.moved buffer)).length = f.moved buffer :=
  List.length_take_of_le (Nat.min_le_left ..)

/-- What the loop has done when the queue is empty or the span full. -/
theorem spanLoop_moved (f : Fifo α) (buffer : Span α) :
    spanLoop buffer.extent f.queue buffer.elements 0
      = spanLoop buffer.extent (f.queue.drop (f.moved buffer))
          (f.queue.take (f.moved buffer)
            ++ buffer.elements.drop (f.moved buffer))
          (f.moved buffer) := by
  have hsize : f.moved buffer ≤ buffer.elements.length := Nat.min_le_right ..
  have hextent : buffer.elements.length ≤ buffer.extent := by
    have := buffer.size_lt
    rcases buffer.extent_eq with h | h <;> omega
  have hfront := f.length_take_moved buffer
  have hmid : (buffer.elements.take (f.moved buffer)).length
      = f.moved buffer := List.length_take_of_le hsize
  have h := spanLoop_append (N := buffer.extent)
    (f.queue.take (f.moved buffer)) (f.queue.drop (f.moved buffer)) []
    (buffer.elements.take (f.moved buffer))
    (buffer.elements.drop (f.moved buffer)) (hmid.trans hfront.symm)
    (by rw [hmid, List.length_nil]; omega)
  rw [List.take_append_drop, List.nil_append, List.take_append_drop, hfront,
    List.length_nil, Nat.zero_add] at h
  exact h

-- ======================================================= the batch pops

/-- The loop stops in time: the extent is fixed, or the queue ends before
the span does. -/
def Contained (f : Fifo α) (buffer : Span α) : Prop :=
  buffer.Fixed ∨ f.queue.length ≤ buffer.size

/-- Then the span has the oldest elements in front and the queue has the
others. -/
theorem popUpTo_of_contained {f : Fifo α} {buffer : Span α}
    (h : f.Contained buffer) :
    f.popUpTo buffer
      = .returns ({ f with queue := f.queue.drop (f.moved buffer) },
          f.queue.take (f.moved buffer)
            ++ buffer.elements.drop (f.moved buffer),
          f.moved buffer) := by
  unfold popUpTo
  rw [spanLoop_moved]
  cases hrest : f.queue.drop (f.moved buffer) with
  | nil => rfl
  | cons x rest =>
      have hlong : ¬ f.queue.length ≤ f.moved buffer := by
        intro hle
        rw [List.drop_eq_nil_of_le hle] at hrest
        cases hrest
      have hfull : f.moved buffer = buffer.size := by
        unfold moved at *
        omega
      rcases h with hfixed | hshort
      · have hextent := buffer.extent_eq.resolve_left hfixed
        rw [spanLoop, if_neg (by rw [hfull, hextent]; exact Nat.lt_irrefl _)]
        rfl
      · omega

/-- Otherwise the first write behind the span is at its size. -/
private theorem popUpTo_of_not_contained {f : Fifo α} {buffer : Span α}
    (h : ¬ f.Contained buffer) :
    f.popUpTo buffer = .outside buffer.size := by
  obtain ⟨hdynamic, hlong⟩ := not_or.1 h
  have hextent : buffer.extent = dynamicExtent := not_not.1 hdynamic
  have hfull : f.moved buffer = buffer.size :=
    Nat.min_eq_right (Nat.le_of_not_le hlong)
  have hlt : buffer.size < dynamicExtent := buffer.size_lt
  have hlength : (f.queue.take buffer.size
      ++ buffer.elements.drop buffer.size).length = buffer.size := by
    rw [List.length_append, List.length_take, List.length_drop]
    unfold Span.size at *
    omega
  unfold popUpTo
  rw [spanLoop_moved, hfull]
  cases hrest : f.queue.drop buffer.size with
  | nil => exact absurd (List.drop_eq_nil_iff.1 hrest) hlong
  | cons x rest =>
      rw [spanLoop, if_pos (by rw [hextent]; exact hlt),
        if_neg (by rw [hlength]; exact Nat.lt_irrefl _)]
      rfl

/-- The three templates. -/
inductive SpanPop
  | popSome
  | popSomeFor
  | tryPopSome
  deriving DecidableEq, Repr

/-- The call each of them makes. -/
def SpanPop.call (pop : SpanPop) (f : Fifo α) (buffer : Span α) :
    Outcome (Fifo α × List α × Nat) :=
  match pop with
  | .popSome => f.popSomeSpan buffer
  | .popSomeFor => f.popSomeSpanFor buffer
  | .tryPopSome => f.tryPopSomeSpan buffer

/-- As many elements as queue and buffer allow have been moved, in order;
the others are still queued. -/
structure Moved (f : Fifo α) (buffer : Span α)
    (r : Fifo α × List α × Nat) : Prop where
  count_eq : r.2.2 = min f.queue.length buffer.size
  elements_eq :
    r.2.1 = f.queue.take r.2.2 ++ buffer.elements.drop r.2.2
  queue_eq : r.1 = { f with queue := f.queue.drop r.2.2 }

/-- The call writes inside its buffer only, and moves what it should. The
blocking form may still wait, and has written nothing then. -/
def StaysInside (pop : SpanPop) (f : Fifo α) (buffer : Span α) : Prop :=
  match pop.call f buffer with
  | .waits => pop = .popSome ∧ f.queue = []
  | .outside _ => False
  | .returns r => Moved f buffer r

theorem isEmpty_iff {f : Fifo α} : f.isEmpty = true ↔ f.queue = [] :=
  List.isEmpty_iff

/-- With an element queued the three forms are one. -/
theorem SpanPop.call_of_ne_nil (pop : SpanPop) {f : Fifo α}
    (buffer : Span α) (h : f.queue ≠ []) :
    pop.call f buffer = f.popUpTo buffer := by
  cases pop with
  | popSome => exact if_neg (mt isEmpty_iff.1 h)
  | popSomeFor => exact if_neg (mt isEmpty_iff.1 h)
  | tryPopSome => rfl

/-- From an empty queue nothing is moved. -/
theorem staysInside_of_nil (pop : SpanPop) {f : Fifo α} (buffer : Span α)
    (h : f.queue = []) : StaysInside pop f buffer := by
  have hempty := isEmpty_iff.2 h
  unfold StaysInside
  cases pop with
  | popSome =>
      have hcall : SpanPop.popSome.call f buffer = .waits := if_pos hempty
      rw [hcall]
      exact ⟨rfl, h⟩
  | popSomeFor =>
      have hcall : SpanPop.popSomeFor.call f buffer
          = .returns (f, buffer.elements, 0) := if_pos hempty
      rw [hcall]
      refine ⟨?_, rfl, rfl⟩
      rw [h]
      exact (Nat.zero_min _).symm
  | tryPopSome =>
      have hcall : SpanPop.tryPopSome.call f buffer = f.popUpTo buffer := rfl
      rw [hcall, popUpTo_of_contained (Or.inr (by rw [h]; exact Nat.zero_le _))]
      exact ⟨rfl, rfl, rfl⟩

/-- The batch pops stay inside their buffer exactly if its extent is fixed
or it has room for the whole queue. -/
theorem staysInside_iff (pop : SpanPop) (f : Fifo α) (buffer : Span α) :
    StaysInside pop f buffer
      ↔ buffer.Fixed ∨ f.queue.length ≤ buffer.size := by
  by_cases hnil : f.queue = []
  · refine iff_of_true (staysInside_of_nil pop buffer hnil) (Or.inr ?_)
    rw [hnil]
    exact Nat.zero_le _
  · have hcall := pop.call_of_ne_nil buffer hnil
    unfold StaysInside
    by_cases hcontained : f.Contained buffer
    · rw [hcall, popUpTo_of_contained hcontained]
      exact iff_of_true ⟨rfl, rfl, rfl⟩ hcontained
    · rw [hcall, popUpTo_of_not_contained hcontained]
      exact iff_of_false id hcontained

/-- A `std::span<T>` of one element. -/
def oneElement : Span Nat where
  extent := dynamicExtent
  elements := [0]
  size_lt := by
    show 1 < 2 ^ 64 - 1
    omega
  extent_eq := Or.inl rfl

/-- Two queued elements: the second one is written behind the span, by
every form. -/
theorem not_staysInside_oneElement :
    (∀ pop : SpanPop,
      pop.call { queue := [1, 2] } oneElement = .outside 1)
    ∧ ¬ ∀ (pop : SpanPop) (f : Fifo Nat) (buffer : Span Nat),
      StaysInside pop f buffer := by
  have hcall : ∀ pop : SpanPop,
      pop.call { queue := [1, 2] } oneElement = .outside 1 := by
    intro pop
    cases pop <;> rfl
  refine ⟨hcall, fun h => ?_⟩
  have hinside := h .tryPopSome { queue := [1, 2] } oneElement
  unfold StaysInside at hinside
  rw [hcall] at hinside
  exact hinside

end Vnic.Fifo
