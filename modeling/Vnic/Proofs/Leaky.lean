/-
The heap of a port whose `rx` may run out of memory.

A throwing `rx` moves chains from `used_` to nobody. They stay live, and
no later step can reach them: whoever frees or writes a block does so
through a chain of its own. That is the frame rule of `Intact`
(`Intact.framed`): what a step does on `ds`, in whatever heap, it does
with further chains beside `ds`. So every invariant step of the port is
one beside the lost chains, and only the throw itself is new.

What the application and the port own together with the lost chains is
thus the heap of every moment; the blocks that outlive the port are those
the application still holds and those it lost.
-/
import Vnic.Leaky
import Vnic.Proofs.Teardown

namespace Vnic

open Linked Row

-- ========================================================== the frame

section Frame

variable {base : Blocks} {m m' : Memory}
  {ds ds' lost : List PacketDescriptor}

/-- The blocks of `lost` are in the heap without `ds`. -/
private theorem lookup_of_lost (h : Owners m (ds ++ lost)) {k : Ptr}
    (hk : k ∈ m.segmentsOf lost) :
    (eraseAll m.blocks (m.segmentsOf ds)).lookup k = m.blocks.lookup k := by
  have hnd := h.owned.nodup
  rw [Memory.segmentsOf_append] at hnd
  exact lookup_eraseAll_of_notMem fun hk' =>
    (List.nodup_append'.1 hnd).2.2 hk' hk

/-- Part of the chains, with the others counted as the rest of the
heap. -/
private theorem Intact.apart (h : Intact base m (ds ++ lost)) :
    Intact (eraseAll m.blocks (m.segmentsOf ds)) m ds :=
  ⟨h.owners.sublist ((List.sublist_append_left ds lost).map _), rfl,
    h.faults⟩

/-- What keeps the heap in order around `ds`, whatever else is in it,
keeps it in order beside `lost`, and does not touch `lost`. -/
theorem Intact.framed (h : Intact base m (ds ++ lost))
    (hstep : ∀ others, Intact others m ds → Intact others m' ds') :
    Intact base m' (ds' ++ lost) ∧ SameChains m m' lost := by
  have hlost : Owners m lost :=
    h.owners.sublist ((List.sublist_append_right ds lost).map _)
  have hnext := hstep _ h.apart
  have hbalanced := hnext.balanced
  -- the lost blocks are there afterwards, in none of the other chains
  have hout : ∀ k ∈ m.segmentsOf lost, k ∉ m'.segmentsOf ds' := by
    intro k hk hk'
    apply notMem_eraseAll (h := m'.blocks) hk'
    rw [hbalanced, ← AList.lookup_isSome, lookup_of_lost h.owners hk,
      AList.lookup_isSome]
    exact hlost.owned.live k hk
  have hkeep : ∀ k ∈ m.segmentsOf lost,
      m'.blocks.lookup k = m.blocks.lookup k := by
    intro k hk
    rw [← lookup_of_lost h.owners hk, ← hbalanced,
      lookup_eraseAll_of_notMem (hout k hk)]
  obtain ⟨hlost', hsame⟩ := hlost.sameChains hkeep
  have howners : Owners m' (ds' ++ lost) := by
    unfold Owners
    rw [List.map_append]
    refine hnext.owners.append hlost' fun k hk hk' => ?_
    rw [List.flatMap_map] at hk hk'
    rw [show lost.flatMap (fun d => chainOf m'.blocks d.buffer)
      = m.segmentsOf lost from hsame.segmentsOf] at hk'
    exact hout k hk' hk
  refine ⟨⟨howners, ?_, hnext.faults⟩, hsame⟩
  rw [Memory.segmentsOf_append, eraseAll_append, hbalanced,
    hsame.segmentsOf, ← eraseAll_append, ← Memory.segmentsOf_append]
  exact h.balanced

end Frame

-- ======================================================== one call less

/-- What a throwing `rx` does. -/
private theorem VNic.rxThrows_cases {n n' : VNic} {queueId : UInt16}
    {popped : List PacketDescriptor}
    (h : n.rxThrows queueId = some (n', popped)) :
    ∃ q, n.rxQueues[queueId.toNat]? = some q ∧ popped = q.take.1
      ∧ n' = { n with
        rxQueues := n.rxQueues.set queueId.toNat q.take.2 } := by
  unfold VNic.rxThrows at h
  cases hq : n.rxQueues[queueId.toNat]? with
  | none =>
      rw [hq] at h
      cases h
  | some q =>
      rw [hq] at h
      simp only at h
      split at h
      · cases h
      · cases h
        exact ⟨q, rfl, rfl, rfl⟩

namespace Leaky

variable {base : Blocks} {s t : Leaky} {a : Op} {e : Event}

/-- A step is one of the port, or a throw. -/
theorem step_cases (hs : s.step a = some (t, e)) :
    (∃ op port e', a = .call op ∧ s.port.step op = some (port, e')
      ∧ t = { s with port := port })
    ∨ ∃ queueId q, a = .rxThrows queueId
      ∧ s.port.nic.rxQueues[queueId.toNat]? = some q
      ∧ t = { port := s.port.withNic { s.port.nic with
                rxQueues := s.port.nic.rxQueues.set queueId.toNat q.take.2 }
              lost := s.lost ++ q.take.1 } := by
  unfold step at hs
  cases a with
  | call op =>
      simp only at hs
      cases hport : s.port.step op with
      | none =>
          rw [hport] at hs
          cases hs
      | some p =>
          rw [hport] at hs
          cases hs
          exact Or.inl ⟨op, _, _, rfl, hport, rfl⟩
  | rxThrows queueId =>
      simp only at hs
      -- the vector's growth can throw only where the queue exists and
      -- something was popped
      cases hthrow : s.port.nic.rxThrows queueId with
      | none =>
          rw [hthrow] at hs
          cases hs
      | some p =>
          rw [hthrow] at hs
          cases hs
          obtain ⟨q, hq, hpopped, hn⟩ := VNic.rxThrows_cases hthrow
          refine Or.inr ⟨queueId, q, rfl, hq, ?_⟩
          rw [← hpopped, ← hn]

/-- A throw does not touch the table. -/
theorem step_tableOk (h : VNic.TableOk s.port.nic)
    (hs : s.step a = some (t, e)) : VNic.TableOk t.port.nic := by
  rcases step_cases hs with
    ⟨op, port, e', -, hport, rfl⟩ | ⟨queueId, q, -, hq, rfl⟩
  · exact Sys.step_tableOk h hport
  · refine ⟨h.good, ?_⟩
    rcases h.count with hnil | hlen
    · rw [hnil] at hq
      cases hq
    · exact Or.inr (List.length_set.trans hlen)

/-- Every step keeps the heap in order, with the lost chains beside it. -/
theorem step_intact (htable : VNic.TableOk s.port.nic)
    (h : Intact base s.port.mem (s.port.live ++ s.lost))
    (hs : s.step a = some (t, e)) :
    Intact base t.port.mem (t.port.live ++ t.lost) := by
  rcases step_cases hs with
    ⟨op, port, e', -, hport, rfl⟩ | ⟨queueId, q, -, hq, rfl⟩
  · exact (h.framed fun _ h => Sys.step_intact htable h hport).1
  · -- what `take` popped goes from the queue to the end of the list
    have hmove : Intact base s.port.mem
        (waiting (s.port.nic.rxQueues.set queueId.toNat q.take.2)
          ++ (s.port.held.values ++ (s.lost ++ q.take.1))) := by
      rw [show s.port.live ++ s.lost = waiting s.port.nic.rxQueues
        ++ (s.port.held.values ++ s.lost) from List.append_assoc ..] at h
      refine Sys.intact_set hq (fun others h => h.of_perm ?_) h
      rw [← (VNic.take_frame q).1, List.append_assoc]
      apply List.perm_append_comm.trans
      simp only [List.append_assoc, List.Perm.refl]
    rw [← List.append_assoc] at hmove
    exact hmove

/-- The heap of every moment: what was there before, what waits in the
queues, what the application holds and what was lost. -/
theorem run_intact {blocks : Blocks} {as : List Op} {es : List Event}
    (hrun : leaky.run (init blocks) as = some (t, es)) :
    Intact blocks t.port.mem (t.port.live ++ t.lost) := by
  have hinit : Intact blocks (init blocks).port.mem
      ((init blocks).port.live ++ (init blocks).lost) :=
    ⟨Separate.nil, rfl, nofun⟩
  have h := leaky.run_invariant
    (I := fun s => Intact blocks s.port.mem (s.port.live ++ s.lost)
      ∧ VNic.TableOk s.port.nic)
    (fun h hs => ⟨step_intact h.2 h.1 hs, step_tableOk h.2 hs⟩)
    ⟨hinit, Sys.tableOk_init blocks⟩ hrun
  exact h.1

end Leaky

end Vnic
