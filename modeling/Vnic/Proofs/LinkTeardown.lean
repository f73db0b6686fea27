/-
A link in use keeps no block that nobody knows of, and releases what it
holds when it goes.

`Owned` says that a block has one holder at most; `Known` is the other
half: a live block is a caller's, or in a pipe, or in the hands of a
thread inside a call. Both are kept by every step, also by those in which
an allocation has failed. So a link that is destroyed with no thread
inside leaves the callers' blocks, with the bytes they had, and no others.

# How it goes

`Moves` sorts the steps by what they do to ownership, whatever they
answer: a copy that is made, a span that is pushed, one that is popped, a
block that is released, and what the callers do with their own. `Owned`
and `Known` are proved once for each move. The destructor drains the two
pipes one after the other; that the second drain meets live blocks only
is the disjointness which the owner map gives.
-/
import Vnic.Teardown
import Vnic.Proofs.LinkSystem

namespace Vnic.LinkSystem

variable {ι : Type} {s t : LinkSystem ι} {i : ι} {p : Ptr} {pipe : Pipe}
  {sp : Span} {owner : Ptr → Option (Owner ι)}

-- =============================================================== known

/-- Somebody holds the block. -/
def Holder (s : LinkSystem ι) (p : Ptr) : Prop :=
  s.app p = true ∨ (∃ pipe sp, sp ∈ (s.queue pipe).queue ∧ sp.data = p)
    ∨ ∃ i, held (s.pc i) = some p

/-- Every live block has a holder. -/
def Known (s : LinkSystem ι) : Prop := ∀ p, s.heap p ≠ none → Holder s p

/-- A holder's block is live. -/
theorem Owned.live_of_holder (ho : Owned owner s)
    (happ : ∀ p, s.app p = true → s.heap p ≠ none) (h : Holder s p) :
    s.heap p ≠ none := by
  intro hnone
  have howner := ho.live hnone
  rcases h with h | ⟨pipe, sp, hsp, rfl⟩ | ⟨i, hi⟩
  · exact happ p h hnone
  · cases howner.symm.trans (ho.queued hsp)
  · cases howner.symm.trans (ho.thread hi)

/-- A holder stays one, if each kind of holding is carried over. -/
theorem Holder.imp (h : Holder s p) (happ : s.app p = true → Holder t p)
    (hqueue : ∀ pipe sp, sp ∈ (s.queue pipe).queue → sp.data = p →
      Holder t p)
    (hheld : ∀ i, held (s.pc i) = some p → Holder t p) : Holder t p := by
  rcases h with h | ⟨pipe, sp, hsp, hp⟩ | ⟨i, hi⟩
  · exact happ h
  · exact hqueue pipe sp hsp hp
  · exact hheld i hi

/-- A block that is live after a change elsewhere was live before. -/
private theorem live_of_poke {p' : Ptr} {b : Option Frame} (hne : p' ≠ p)
    (h : (s.poke p b).heap p' ≠ none) : s.heap p' ≠ none := by
  rw [poke_of_ne s b hne] at h
  exact h

/-- Every live block has one holder, and every holder a live block. -/
structure Tidy (s : LinkSystem ι) : Prop where
  owned : ∃ owner, Owned owner s
  known : Known s
  appLive : ∀ p, s.app p = true → s.heap p ≠ none

/-- At first the callers hold everything. -/
theorem Tidy.init (heap : Ptr → Option Frame) :
    Tidy (init heap : LinkSystem ι) where
  owned := (inv_init heap).1
  known := fun _ hp => Or.inl (Option.isSome_iff_ne_none.2 hp)
  appLive := fun _ hp => Option.isSome_iff_ne_none.1 hp

-- ===================================================== the destructor

/-- Draining distinct live blocks. -/
theorem drainLoop_eq {spans : List Span} {heap : Ptr → Option Frame}
    (hnd : (spans.map Span.data).Nodup)
    (hlive : ∀ sp ∈ spans, heap sp.data ≠ none) :
    ∃ heap', drainLoop spans heap = some heap'
      ∧ ∀ p, heap' p = if p ∈ spans.map Span.data then none else heap p := by
  -- along the pipe: a freed block is none of those that follow, since
  -- their pointers are distinct
  induction spans generalizing heap with
  | nil => exact ⟨heap, rfl, fun p => (if_neg (List.not_mem_nil)).symm⟩
  | cons sp rest ih =>
      rw [List.map_cons, List.nodup_cons] at hnd
      have hrest : ∀ x ∈ rest,
          Function.update heap sp.data none x.data ≠ none := by
        intro x hx
        have hne : x.data ≠ sp.data := fun h =>
          hnd.1 (h ▸ List.mem_map_of_mem hx)
        rw [Function.update_of_ne hne]
        exact hlive x (List.mem_cons_of_mem _ hx)
      obtain ⟨heap', heq, hall⟩ := ih hnd.2 hrest
      refine ⟨heap', ?_, fun p => ?_⟩
      · unfold drainLoop
        rw [if_neg (hlive sp (List.mem_cons_self ..))]
        exact heq
      · rw [hall, List.map_cons]
        by_cases hp : p = sp.data
        · subst hp
          rw [if_neg hnd.1, Function.update_self,
            if_pos (List.mem_cons_self ..)]
        · rw [Function.update_of_ne hp]
          simp [hp]

/-- A link with nobody inside gives back what its pipes hold. -/
theorem Tidy.destroy (h : Tidy s) (hidle : ∀ i, s.pc i = .idle) :
    ∃ left, s.destroy = some left
      ∧ ∀ p, left p = if s.app p = true then s.heap p else none := by
  obtain ⟨owner, ho⟩ := h.owned
  have hlive : ∀ pipe, ∀ sp ∈ (s.queue pipe).queue, s.heap sp.data ≠ none :=
    fun pipe sp hsp => ho.live_of_holder h.appLive
      (Or.inr (Or.inl ⟨pipe, sp, hsp, rfl⟩))
  obtain ⟨heap₁, heq₁, hall₁⟩ := drainLoop_eq (ho.nodup .rx) (hlive .rx)
  have hlive₁ : ∀ sp ∈ (s.queue .tx).queue, heap₁ sp.data ≠ none := by
    intro sp hsp
    -- the owner map tells the two pipes apart, so the first drain leaves
    -- the second its blocks
    have hrx : sp.data ∉ (s.queue .rx).queue.map Span.data := by
      intro hm
      obtain ⟨sp', hsp', heq⟩ := List.mem_map.1 hm
      have howner := ho.queued hsp'
      rw [heq] at howner
      cases howner.symm.trans (ho.queued hsp)
    rw [hall₁, if_neg hrx]
    exact hlive .tx sp hsp
  obtain ⟨heap₂, heq₂, hall₂⟩ := drainLoop_eq (ho.nodup .tx) hlive₁
  refine ⟨heap₂, ?_, fun p => ?_⟩
  · unfold LinkSystem.destroy
    rw [heq₁]
    exact heq₂
  · rw [hall₂, hall₁]
    have hout : ∀ pipe, s.app p = true →
        p ∉ (s.queue pipe).queue.map Span.data := by
      intro pipe happ hm
      obtain ⟨sp, hsp, rfl⟩ := List.mem_map.1 hm
      cases (ho.app happ).symm.trans (ho.queued hsp)
    by_cases happ : s.app p = true
    · rw [if_pos happ, if_neg (hout .tx happ), if_neg (hout .rx happ)]
    · rw [if_neg happ]
      by_contra hne
      have hheap : s.heap p ≠ none := by
        intro hnone
        rw [hnone] at hne
        simp at hne
      rcases h.known p hheap with happ' | ⟨pipe, sp, hsp, rfl⟩ | ⟨i, hi⟩
      · exact happ happ'
      · have hm := List.mem_map_of_mem (f := Span.data) hsp
        cases pipe with
        | rx => exact hne (by rw [if_pos hm]; simp)
        | tx => exact hne (if_pos hm)
      · rw [hidle i] at hi
        cases hi

-- =============================================================== steps

variable [DecidableEq ι]

/-- What a step does to the blocks: it moves one from a holder to the
next, or leaves all where they are. -/
inductive Moves (s : LinkSystem ι) : LinkSystem ι → Prop
  | quiet {t : LinkSystem ι} (hheap : t.heap = s.heap) (happ : t.app = s.app)
      (hqueue : ∀ pipe, (t.queue pipe).queue = (s.queue pipe).queue)
      (hheld : ∀ i, held (t.pc i) = held (s.pc i))
      (hspan : ∀ i sp, span (t.pc i) = some sp → span (s.pc i) = some sp) :
      Moves s t
  | copy {i : ι} {pipe : Pipe} {p : Ptr} {bytes : Frame} {n : Nat}
      (hi : s.pc i = .idle) (hp : s.heap p = none) (hn : bytes.length = n) :
      Moves s ((s.poke p (some bytes)).move i (.copied pipe ⟨p, n⟩))
  | enqueue {i : ι} {pipe : Pipe} {sp : Span} (hi : s.pc i = .copied pipe sp) :
      Moves s ((s.withQueue pipe { s.queue pipe with
        queue := (s.queue pipe).queue ++ [sp] }).move i .idle)
  | dequeue {i : ι} {pipe : Pipe} {sp : Span} {rest : List Span}
      {packet : Frame} (hi : s.pc i = .idle)
      (hq : (s.queue pipe).queue = sp :: rest) :
      Moves s ((s.withQueue pipe { s.queue pipe with queue := rest }).move i
        (.popped pipe sp packet))
  | release {i : ι} {p : Ptr} (hi : s.pc i = .releasing p) :
      Moves s ((s.poke p none).move i .idle)
  | appAllocate {p : Ptr} {bytes : Frame} (hp : s.heap p = none) :
      Moves s { s.poke p (some bytes) with
        app := Function.update s.app p true }
  | appWrite {p : Ptr} {bytes : Frame} (hp : s.app p = true) :
      Moves s (s.poke p (some bytes))
  | appFree {p : Ptr} (hp : s.app p = true) :
      Moves s { s.poke p none with app := Function.update s.app p false }

/-- A thread that goes on with the block it has, beside a change that
concerns no block. -/
theorem Moves.of_move {u : LinkSystem ι} {pc : LinkPc}
    (hheap : u.heap = s.heap) (happ : u.app = s.app)
    (hqueue : ∀ pipe, (u.queue pipe).queue = (s.queue pipe).queue)
    (hpc : u.pc = s.pc) (hheld : held pc = held (s.pc i))
    (hspan : ∀ sp, span pc = some sp → span (s.pc i) = some sp) :
    Moves s (u.move i pc) := by
  refine .quiet hheap happ hqueue ?_ ?_
  · intro j
    by_cases hj : j = i
    · subst hj
      rw [move_self, hheld]
    · rw [move_of_ne u _ hj, hpc]
  · intro j sp hsp
    by_cases hj : j = i
    · subst hj
      rw [move_self] at hsp
      exact hspan sp hsp
    · rw [move_of_ne u _ hj, hpc] at hsp
      exact hsp

theorem Moves.refl (s : LinkSystem ι) : Moves s s :=
  .quiet rfl rfl (fun _ => rfl) (fun _ => rfl) fun _ _ h => h

private theorem Moves.of_put {source : Span} {answer : Option Ptr}
    {e : Event ι}
    (hi : s.pc i = .idle)
    (h : s.put i pipe source answer = some (t, e)) : Moves s t := by
  rcases put_cases h with
    ⟨rfl, -, -⟩ | ⟨rfl, -⟩ | ⟨p, -, hread, hfresh, rfl, -⟩
  · exact .refl _
  · exact .refl _
  · refine .copy hi hfresh.2 ?_
    unfold load
    rw [List.length_take]
    exact Nat.min_eq_left hread.2

/-- A push hands the copy to the pipe, or to the guard. -/
private theorem Moves.of_push {e : Event ι} (hi : s.pc i = .copied pipe sp)
    (h : s.push i pipe sp = (t, e)) : Moves s t := by
  rcases push_cases s i pipe sp with ⟨-, heq⟩ | ⟨-, heq⟩
  · cases h.symm.trans heq
    refine .of_move rfl rfl (fun _ => rfl) rfl ?_ nofun
    rw [hi]
    rfl
  · cases h.symm.trans heq
    exact .enqueue hi

/-- A take gets the block out of the pipe. -/
theorem Moves.of_take {packet : Frame} {e : Event ι} (hi : s.pc i = .idle)
    (h : s.take i pipe packet = (t, e)) : Moves s t := by
  rcases take_cases s i pipe packet with ⟨-, heq⟩ | ⟨sp, rest, hq, heq⟩
  · cases h.symm.trans heq
    exact .refl _
  · cases h.symm.trans heq
    exact .dequeue hi hq

/-- The block is the guard's, whether the vector has grown or not. -/
private theorem Moves.of_insert {packet : Frame} {alloc : Bool} {e : Event ι}
    (hi : s.pc i = .popped pipe sp packet)
    (h : s.insert i pipe sp packet alloc = (t, e)) : Moves s t := by
  have hmove : Moves s (s.move i (.releasing sp.data)) := by
    refine .of_move rfl rfl (fun _ => rfl) rfl ?_ nofun
    rw [hi]
    rfl
  cases alloc with
  | true =>
      cases h
      exact hmove
  | false =>
      cases h
      exact hmove

private theorem Moves.of_configure {config : Link.Config} {e : Event ι}
    (hi : s.pc i = .idle) (h : s.configure i config = (t, e)) :
    Moves s t := by
  unfold LinkSystem.configure at h
  split at h
  · cases h
    refine .of_move rfl rfl (fun _ => rfl) rfl ?_ nofun
    rw [hi]
    rfl
  · cases h
    exact .refl _

private theorem Moves.of_reserve {pc pc' : LinkPc} (hi : s.pc i = pc)
    (hheld : held pc = none) (hheld' : held pc' = none) (pipe : Pipe)
    (depth : UInt32) : Moves s ((s.reserve pipe depth).move i pc') := by
  refine .of_move rfl rfl ?_ rfl ?_ ?_
  · intro pipe'
    by_cases hpipe : pipe' = pipe
    · subst hpipe
      unfold reserve
      rw [withQueue_self]
      rfl
    · unfold reserve
      rw [withQueue_of_ne s _ hpipe]
  · rw [hi, hheld, hheld']
  · intro sp hsp
    cases hheld'.symm.trans (held_of_span hsp)

/-- Every step is one of the moves. -/
theorem moves_of_step {a : Op ι} {e : Event ι}
    (h : s.step a = some (t, e)) : Moves s t := by
  -- each cut is one of the moves below; a call that is refused changes no
  -- ownership
  cases a with
  | put i pipe source answer =>
      simp only [step] at h
      split at h
      · next hi => exact .of_put hi h
      · cases h
  | push i =>
      simp only [step] at h
      split at h
      · next hi => exact .of_push hi (Option.some.inj h)
      · cases h
  | take i pipe packet =>
      simp only [step] at h
      split at h
      · next hi => exact .of_take hi (Option.some.inj h)
      · cases h
  | insert i alloc =>
      simp only [step] at h
      split at h
      · next hi => exact .of_insert hi (Option.some.inj h)
      · cases h
  | deallocate i =>
      simp only [step] at h
      split at h
      · next hi =>
        cases h
        exact .release hi
      · cases h
  | configure i config =>
      simp only [step] at h
      split at h
      · next hi => exact .of_configure hi (Option.some.inj h)
      · cases h
  | reserve i =>
      simp only [step] at h
      split at h
      · next hi =>
        cases h
        exact .of_reserve hi rfl rfl .rx _
      · next hi =>
        cases h
        exact .of_reserve hi rfl rfl .tx _
      · cases h
  | setUp up =>
      cases h
      exact .quiet rfl rfl (fun _ => rfl) (fun _ => rfl) fun _ _ h => h
  | appAllocate p bytes =>
      simp only [step] at h
      split at h
      · next hfresh =>
        cases h
        exact .appAllocate hfresh.2
      · cases h
  | appWrite p bytes =>
      simp only [step] at h
      split at h
      · next happ =>
        cases h
        exact .appWrite happ
      · cases h
  | appFree p =>
      simp only [step] at h
      split at h
      · next happ =>
        cases h
        exact .appFree happ
      · cases h

/-- Ownership moves with the blocks. -/
theorem Moves.owned (h : Moves s t) (ho : Owned owner s) :
    ∃ owner', Owned owner' t := by
  -- the ownership lemma of each move, under its own name
  cases h with
  | quiet hheap happ hqueue hheld hspan =>
      have hload : ∀ sp, t.load sp = s.load sp := by
        intro sp
        unfold load block
        rw [hheap]
      refine ⟨owner, ?_, ?_, ?_, ?_, ?_, ?_, ?_⟩
      · intro p hp
        exact ho.live (hheap ▸ hp)
      · intro p hp
        exact ho.app (happ ▸ hp)
      · intro pipe sp hsp
        rw [hqueue] at hsp
        exact ho.queued hsp
      · intro pipe
        rw [hqueue]
        exact ho.nodup pipe
      · intro i p hp
        rw [hheld] at hp
        exact ho.thread hp
      · intro pipe sp hsp
        rw [hqueue] at hsp
        rw [hload]
        exact ho.filled hsp
      · intro i sp hsp
        rw [hload]
        exact ho.reading (hspan i sp hsp)
  | copy hi hp hn => exact ⟨_, ho.copy hp hn⟩
  | enqueue hi => exact ⟨_, ho.enqueue hi rfl⟩
  | dequeue hi hq => exact ⟨_, ho.dequeue hq rfl _⟩
  | release hi => exact ⟨_, ho.free (by rw [hi]; rfl)⟩
  | appAllocate hp => exact ⟨_, ho.appAllocate hp _⟩
  | appWrite hp => exact ⟨_, ho.poke (ho.not_reads_app hp) nofun⟩
  | appFree hp => exact ⟨_, ho.appFree hp⟩

/-- The other threads hold what they held. -/
theorem Holder.of_other {u : LinkSystem ι} {pc : LinkPc} {j : ι}
    (hj : held (s.pc j) = some p) (hne : held (s.pc i) ≠ some p)
    (hpc : u.pc = s.pc) : Holder (u.move i pc) p := by
  have hji : j ≠ i := by
    intro heq
    subst heq
    exact hne hj
  refine Or.inr (Or.inr ⟨j, ?_⟩)
  rw [move_of_ne u _ hji, hpc]
  exact hj

/-- No step loses sight of a block. -/
theorem Moves.known (h : Moves s t) (hk : Known s) : Known t := by
  intro p' hp'
  -- every live block has a holder: where a move changes the holder, the
  -- new one is named
  cases h with
  | quiet hheap happ hqueue hheld hspan =>
      rw [hheap] at hp'
      refine (hk p' hp').imp ?_ ?_ ?_
      · intro h
        exact Or.inl (happ ▸ h)
      · intro pipe sp hsp heq
        exact Or.inr (Or.inl ⟨pipe, sp, (hqueue pipe).symm ▸ hsp, heq⟩)
      · intro i hi
        exact Or.inr (Or.inr ⟨i, (hheld i).trans hi⟩)
  | @copy i pipe p bytes n hi hp hn =>
      by_cases heq : p' = p
      · subst heq
        exact Or.inr (Or.inr ⟨i, by rw [move_self]; rfl⟩)
      · have hlive := live_of_poke heq hp'
        refine (hk p' hlive).imp Or.inl ?_ ?_
        · exact fun pipe sp hsp heq => Or.inr (Or.inl ⟨pipe, sp, hsp, heq⟩)
        · intro j hj
          exact .of_other (u := s.poke p (some bytes)) hj
            (by rw [hi]; nofun) rfl
  | @enqueue i pipe sp hi =>
      refine (hk p' hp').imp Or.inl ?_ ?_
      · intro pipe' sp' hsp heq
        refine Or.inr (Or.inl ⟨pipe', sp', ?_, heq⟩)
        change sp' ∈ ((s.withQueue pipe _).queue pipe').queue
        by_cases hpipe : pipe' = pipe
        · subst hpipe
          rw [withQueue_self]
          exact List.mem_append_left _ hsp
        · rw [withQueue_of_ne s _ hpipe]
          exact hsp
      · intro j hj
        by_cases hdata : sp.data = p'
        · refine Or.inr (Or.inl ⟨pipe, sp, ?_, hdata⟩)
          change sp ∈ ((s.withQueue pipe _).queue pipe).queue
          rw [withQueue_self]
          exact List.mem_append_right _ (List.mem_singleton_self sp)
        · refine .of_other (u := s.withQueue pipe _) hj ?_ rfl
          rw [hi]
          exact fun h => hdata (Option.some.inj h)
  | @dequeue i pipe sp rest packet hi hq =>
      refine (hk p' hp').imp Or.inl ?_ ?_
      · intro pipe' sp' hsp heq
        by_cases hpipe : pipe' = pipe
        · subst hpipe
          rw [hq] at hsp
          rcases List.mem_cons.1 hsp with rfl | hsp
          · exact Or.inr (Or.inr ⟨i, by rw [move_self, ← heq]; rfl⟩)
          · refine Or.inr (Or.inl ⟨pipe', sp', ?_, heq⟩)
            change sp' ∈ ((s.withQueue pipe' _).queue pipe').queue
            rw [withQueue_self]
            exact hsp
        · refine Or.inr (Or.inl ⟨pipe', sp', ?_, heq⟩)
          change sp' ∈ ((s.withQueue pipe _).queue pipe').queue
          rw [withQueue_of_ne s _ hpipe]
          exact hsp
      · intro j hj
        exact .of_other (u := s.withQueue pipe _) hj (by rw [hi]; nofun) rfl
  | @release i p hi =>
      have heq : p' ≠ p := by
        intro heq
        subst heq
        exact hp' (poke_self s p' none)
      have hlive := live_of_poke heq hp'
      refine (hk p' hlive).imp Or.inl ?_ ?_
      · exact fun pipe sp hsp heq => Or.inr (Or.inl ⟨pipe, sp, hsp, heq⟩)
      · intro j hj
        refine .of_other (u := s.poke p none) hj ?_ rfl
        rw [hi]
        exact fun h => heq (Option.some.inj h).symm
  | @appAllocate p bytes hp =>
      by_cases heq : p' = p
      · subst heq
        exact Or.inl (Function.update_self ..)
      · have hlive := live_of_poke heq hp'
        refine (hk p' hlive).imp ?_ ?_ ?_
        · exact fun h => Or.inl ((Function.update_of_ne heq ..).trans h)
        · exact fun pipe sp hsp heq => Or.inr (Or.inl ⟨pipe, sp, hsp, heq⟩)
        · exact fun j hj => Or.inr (Or.inr ⟨j, hj⟩)
  | @appWrite p bytes hp =>
      by_cases heq : p' = p
      · subst heq
        exact Or.inl hp
      · have hlive := live_of_poke heq hp'
        exact hk p' hlive
  | @appFree p hp =>
      have heq : p' ≠ p := by
        intro heq
        subst heq
        exact hp' (poke_self s p' none)
      have hlive := live_of_poke heq hp'
      refine (hk p' hlive).imp ?_ ?_ ?_
      · exact fun h => Or.inl ((Function.update_of_ne heq ..).trans h)
      · exact fun pipe sp hsp heq => Or.inr (Or.inl ⟨pipe, sp, hsp, heq⟩)
      · exact fun j hj => Or.inr (Or.inr ⟨j, hj⟩)

/-- The callers' blocks stay live: the link releases none of them. -/
theorem Moves.appLive (h : Moves s t) (ho : Owned owner s)
    (hl : ∀ p, s.app p = true → s.heap p ≠ none) (p' : Ptr)
    (hp' : t.app p' = true) : t.heap p' ≠ none := by
  -- a block of the application is freed by appFree only
  cases h with
  | quiet hheap happ hqueue hheld hspan =>
      rw [hheap]
      exact hl p' (happ ▸ hp')
  | @copy i pipe p bytes n hi hp hn =>
      change (s.poke p _).heap p' ≠ none
      have hne : p' ≠ p := by
        intro heq
        subst heq
        exact hl p' hp' hp
      rw [poke_of_ne s _ hne]
      exact hl p' hp'
  | enqueue hi => exact hl p' hp'
  | dequeue hi hq => exact hl p' hp'
  | @release i p hi =>
      have hne : p' ≠ p := by
        intro heq
        subst heq
        have hthread := ho.thread (i := i) (by rw [hi]; rfl)
        cases hthread.symm.trans (ho.app hp')
      change (s.poke p none).heap p' ≠ none
      rw [poke_of_ne s _ hne]
      exact hl p' hp'
  | @appAllocate p bytes hp =>
      change (s.poke p _).heap p' ≠ none
      by_cases heq : p' = p
      · rw [heq, poke_self]
        nofun
      · rw [poke_of_ne s _ heq]
        exact hl p' ((Function.update_of_ne heq ..).symm.trans hp')
  | @appWrite p bytes hp =>
      by_cases heq : p' = p
      · rw [heq, poke_self]
        nofun
      · rw [poke_of_ne s _ heq]
        exact hl p' hp'
  | @appFree p hp =>
      have heq : p' ≠ p := by
        intro heq
        subst heq
        cases (Function.update_self p' false s.app).symm.trans hp'
      change (s.poke p none).heap p' ≠ none
      rw [poke_of_ne s _ heq]
      exact hl p' ((Function.update_of_ne heq ..).symm.trans hp')

/-- Each move keeps every live block with one holder. -/
theorem Tidy.step {a : Op ι} {e : Event ι} (h : Tidy s)
    (hs : (linkSystem ι).step s a = some (t, e)) : Tidy t := by
  have hmoves := moves_of_step hs
  obtain ⟨owner, ho⟩ := h.owned
  exact ⟨hmoves.owned ho, hmoves.known h.known, hmoves.appLive ho h.appLive⟩

-- ================================================================ runs

variable {heap : Ptr → Option Frame} {as : List (Op ι)}
  {es : List (Event ι)}

/-- Whatever the threads and the callers do, and whichever copy or
growth of a caller's vector fails: the live blocks are exactly those
that a caller, a pipe or a thread inside a call holds. A link that is
destroyed with no thread inside releases live blocks only, each once,
and leaves the callers' blocks with the bytes they had, and nothing
else. -/
theorem link_leaves_no_block
    (hrun : (linkSystem ι).run (init heap) as = some (t, es)) :
    (∀ p, t.heap p ≠ none ↔ Holder t p)
    ∧ ((∀ i, t.pc i = .idle) → ∃ left, t.destroy = some left
      ∧ ∀ p, left p = if t.app p = true then t.heap p else none) := by
  have h : Tidy t := (linkSystem ι).run_invariant (I := Tidy)
    (fun h hs => h.step hs) (Tidy.init heap) hrun
  obtain ⟨owner, ho⟩ := h.owned
  exact ⟨fun p => ⟨h.known p, ho.live_of_holder h.appLive⟩, h.destroy⟩

/-- A frame is left in each pipe, a take has failed to grow its vector, a
put has found no memory. -/
def leftBehind : List (Op Bool) :=
  [.put false .rx ⟨1, 2⟩ (some 2), .push false, .put true .tx ⟨1, 1⟩ (some 3),
    .push true, .put false .rx ⟨1, 2⟩ (some 4), .push false,
    .take true .rx [], .insert true false, .deallocate true,
    .put true .tx ⟨1, 2⟩ none]

/-- A caller's buffer of two bytes at address 1. -/
def callersBuffer (p : Ptr) : Option Frame :=
  if p = 1 then some [7, 8] else none

/-- What was left in the pipes is gone with the link. -/
theorem link_leaves_no_block_leftBehind :
    ∃ t es left, (linkSystem Bool).run (init callersBuffer) leftBehind
        = some (t, es)
      ∧ t.contents .rx = [[7, 8]] ∧ t.contents .tx = [[7]]
      ∧ t.destroy = some left
      ∧ ∀ p, left p = if t.app p = true then t.heap p else none := by
  have heval : ((linkSystem Bool).run (init callersBuffer) leftBehind).map
      (fun r => (r.1.contents .rx, r.1.contents .tx, r.1.pc false, r.1.pc true))
      = some ([[7, 8]], [[7]], .idle, .idle) := by decide
  obtain ⟨⟨t, es⟩, hrun, hobs⟩ := Option.map_eq_some_iff.1 heval
  simp only [Prod.mk.injEq] at hobs
  obtain ⟨hrx, htx, hfalse, htrue⟩ := hobs
  have hidle : ∀ i, t.pc i = .idle := by
    intro i
    cases i with
    | false => exact hfalse
    | true => exact htrue
  obtain ⟨left, hleft, hall⟩ := (link_leaves_no_block hrun).2 hidle
  exact ⟨t, es, left, hrun, hrx, htx, hleft, hall⟩

end Vnic.LinkSystem
