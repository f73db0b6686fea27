/-
`TxQueue::put` as one specification.

The two loops of `put` walk the segments of a descriptor's chain, over
any heap: a chain that does not end within `kMaxSegments` segments (a
cycle, say) is refused. `put_cases` is what the callers use: a refused
packet is counted as dropped and changes nothing else; an accepted one is
linearised, stands last in the link's TX pipe and is counted as processed.
-/
import Mathlib.Algebra.GroupWithZero.Nat
import Vnic.TxQueue

namespace Vnic

namespace TxQueue

variable {m : Memory} {p : Ptr} {ps : List Ptr}

-- ============================================================ the loops

/-- The segments met from `p` on, following `next` to the end. -/
inductive Segments (m : Memory) : Ptr → List Ptr → Prop
  | last {p : Ptr} : (m.load p).next = nullptr → Segments m p [p]
  | cons {p : Ptr} {ps : List Ptr} : (m.load p).next ≠ nullptr →
      Segments m (m.load p).next ps → Segments m p (p :: ps)

/-- Sum of the length fields along a list of segments. -/
def lengthSum (m : Memory) (ps : List Ptr) : Nat :=
  (ps.map fun p => (m.load p).length.toNat).sum

/-- The payloads along a list of segments. -/
def payloads (m : Memory) (ps : List Ptr) : List UInt8 :=
  ps.flatMap fun p => (m.load p).getPacket

/-- The first pass over a chain within the limit finds its length. -/
theorem totalLoop_segments (h : Segments m p ps) :
    ∀ {n : Nat} (acc : Nat), ps.length ≤ n →
      totalLoop m n p acc = .ok (acc + lengthSum m ps) := by
  induction h with
  | last hnext =>
      intro n acc hlen
      cases n with
      | zero => simp at hlen
      | succ n => simp [totalLoop, hnext, lengthSum]
  | cons hnext _ ih =>
      intro n acc hlen
      cases n with
      | zero => simp at hlen
      | succ n =>
          rw [List.length_cons] at hlen
          unfold totalLoop
          simp only [hnext, if_false]
          rw [ih _ (by omega)]
          simp [lengthSum, Nat.add_assoc]

/-- A first pass that succeeds walked to the end of a chain within the
limit. -/
theorem segments_of_totalLoop :
    ∀ {n : Nat} {p : Ptr} {acc total : Nat},
      totalLoop m n p acc = .ok total →
      ∃ ps, Segments m p ps ∧ ps.length ≤ n
        ∧ total = acc + lengthSum m ps := by
  intro n
  induction n with
  | zero =>
      intro p acc total h
      cases h
  | succ n ih =>
      intro p acc total h
      unfold totalLoop at h
      by_cases hnext : (m.load p).next = nullptr
      · simp only [hnext, if_true, Except.ok.injEq] at h
        refine ⟨[p], .last hnext, by simp, ?_⟩
        rw [← h]
        simp [lengthSum]
      · simp only [hnext, if_false] at h
        obtain ⟨ps, hps, hlen, rfl⟩ := ih h
        refine ⟨p :: ps, .cons hnext hps, ?_, ?_⟩
        · rw [List.length_cons]
          omega
        · simp [lengthSum, Nat.add_assoc]

/-- The only error of the first pass. -/
theorem totalLoop_error :
    ∀ {n : Nat} {p : Ptr} {acc : Nat} {e : ErrorCode},
      totalLoop m n p acc = .error e → e = .txSegmentLimitExceeded := by
  intro n
  induction n with
  | zero =>
      intro p acc e h
      cases h
      rfl
  | succ n ih =>
      intro p acc e h
      unfold totalLoop at h
      split at h
      · cases h
      · exact ih h

/-- The second pass copies the payloads in order. -/
theorem gatherLoop_segments (h : Segments m p ps) :
    ∀ {n : Nat}, ps.length ≤ n → gatherLoop m n p = payloads m ps := by
  induction h with
  | last hnext =>
      intro n hlen
      cases n with
      | zero => simp at hlen
      | succ n => simp [gatherLoop, hnext, payloads]
  | cons hnext _ ih =>
      intro n hlen
      cases n with
      | zero => simp at hlen
      | succ n =>
          rw [List.length_cons] at hlen
          unfold gatherLoop
          rw [if_neg hnext, ih (by omega)]
          rfl

-- ================================================================== put

/-- The packet a descriptor's chain holds: the payloads of its segments
in order. The chain is within the limit, and its length fields add up to
`totalLength`. -/
def Linearised (m : Memory) (desc : PacketDescriptor) (packet : Frame) :
    Prop :=
  ∃ ps, Segments m desc.buffer ps ∧ ps.length ≤ kMaxSegments
    ∧ lengthSum m ps = desc.totalLength.toNat ∧ packet = payloads m ps

/-- What `put` can do. -/
theorem put_cases (alloc : Alloc) (m : Memory) (desc : PacketDescriptor)
    (l : Link) (q : TxQueue) :
    (∃ e, e ≠ .none
      ∧ put alloc m desc (l, q) = ((l, q.drop desc), .error e))
    ∨ ∃ packet, Linearised m desc packet
      ∧ put alloc m desc (l, q)
        = (({ l with
              txQueue :=
                { l.txQueue with queue := l.txQueue.queue ++ [packet] } },
            { q with
              stats := q.stats.fetchProcessed desc.totalLength.toNat }),
            .ok ()) := by
  unfold put
  simp only
  -- the returns in the source's order; each of them drops with a code that
  -- is not None
  split
  · exact Or.inl ⟨_, by decide, rfl⟩
  · split
    · next e htotal =>
      refine Or.inl ⟨e, ?_, rfl⟩
      rw [totalLoop_error htotal]
      decide
    · next total htotal =>
      split
      · exact Or.inl ⟨_, by decide, rfl⟩
      · next hlen =>
        split
        · exact Or.inl ⟨_, by decide, rfl⟩
        · split
          · exact Or.inl ⟨_, by decide, rfl⟩
          · obtain ⟨ps, hps, hcount, hsum⟩ := segments_of_totalLoop htotal
            have hpacket := gatherLoop_segments hps hcount
            have hlin : Linearised m desc (payloads m ps) :=
              ⟨ps, hps, hcount, by omega, rfl⟩
            rw [hpacket]
            unfold Link.putTx
            rcases Link.put_cases alloc.link (payloads m ps) l.txQueue
                .linkTxQueueFull with ⟨e, hput⟩ | ⟨-, -, -, hput⟩
            · rw [hput]
              refine Or.inl ⟨_, ?_, rfl⟩
              split
              · next he => exact he
              · decide
            · rw [hput]
              exact Or.inr ⟨_, hlin, rfl⟩

end TxQueue

end Vnic
