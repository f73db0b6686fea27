/-
Who owns the bytes of a link in use.

Every live block has at most one owner: the callers, one of the pipes, or
one thread inside a call. `Owned` carries an owner map as a witness. The
steps move a block from one owner to the next (fresh to thread, thread to
pipe, pipe to thread, thread to free), and each of them is put together
from the same few moves: give a block that nobody holds to someone, let a
thread move on, replace a queue, write to a block that the link does not
read.
-/
import Vnic.LinkSystem

namespace Vnic.LinkSystem

variable {ι : Type}

/-- Who may touch a block. -/
inductive Owner (ι : Type)
  | app
  | pipe (pipe : Pipe)
  | thread (i : ι)

/-- The block a thread holds. -/
def held : LinkPc → Option Ptr
  | .copied _ copy => some copy.data
  | .popped _ data _ => some data.data
  | .releasing p => some p
  | _ => none

/-- The span a thread still reads. -/
def span : LinkPc → Option Span
  | .copied _ copy => some copy
  | .popped _ data _ => some data
  | _ => none

variable {s s' : LinkSystem ι} {owner : Ptr → Option (Owner ι)} {p : Ptr}
  {i : ι} {pipe : Pipe} {sp : Span}

/-- The block a thread reads through is in its hands. -/
theorem held_of_span {pc : LinkPc} (h : span pc = some sp) :
    held pc = some sp.data := by
  cases pc with
  | copied _ copy =>
      cases h
      rfl
  | popped _ data _ =>
      cases h
      rfl
  | idle => cases h
  | releasing _ => cases h
  | reserveRx => cases h
  | reserveTx => cases h

-- =========================================================== ownership

/-- Each block has one owner, and every span the link holds is filled. -/
structure Owned (owner : Ptr → Option (Owner ι)) (s : LinkSystem ι) :
    Prop where
  live : ∀ {p}, s.heap p = none → owner p = none
  app : ∀ {p}, s.app p = true → owner p = some .app
  queued : ∀ {pipe sp}, sp ∈ (s.queue pipe).queue →
    owner sp.data = some (.pipe pipe)
  nodup : ∀ pipe, ((s.queue pipe).queue.map Span.data).Nodup
  thread : ∀ {i p}, held (s.pc i) = some p → owner p = some (.thread i)
  filled : ∀ {pipe sp}, sp ∈ (s.queue pipe).queue →
    (s.load sp).length = sp.size
  reading : ∀ {i sp}, span (s.pc i) = some sp →
    (s.load sp).length = sp.size

/-- Nobody holds the block. -/
structure Unheld (s : LinkSystem ι) (p : Ptr) : Prop where
  app : s.app p = false
  queued : ∀ {pipe sp}, sp ∈ (s.queue pipe).queue → sp.data ≠ p
  thread : ∀ i, held (s.pc i) ≠ some p

/-- The owner map gives the only holder a block can have. -/
theorem Owned.unheld (ho : Owned owner s)
    (happ : owner p = some .app → s.app p = false)
    (hpipe : ∀ pipe sp, owner p = some (.pipe pipe) →
      sp ∈ (s.queue pipe).queue → sp.data ≠ p)
    (hthread : ∀ i, owner p = some (.thread i) → held (s.pc i) ≠ some p) :
    Unheld s p := by
  refine ⟨?_, ?_, ?_⟩
  · cases ha : s.app p with
    | false => rfl
    | true => exact ha.symm.trans (happ (ho.app ha))
  · intro pipe sp hsp heq
    refine hpipe pipe sp ?_ hsp heq
    rw [← heq]
    exact ho.queued hsp
  · intro i hi
    exact hthread i (ho.thread hi) hi

/-- A block that is not live is nobody's. -/
theorem Owned.unheld_of_fresh (ho : Owned owner s) (hp : s.heap p = none) :
    Unheld s p := by
  have hnone := ho.live hp
  refine ho.unheld ?_ ?_ ?_
  · intro h
    cases hnone.symm.trans h
  · intro pipe sp h
    cases hnone.symm.trans h
  · intro i h
    cases hnone.symm.trans h

/-- A block nobody holds can be given to anyone. -/
theorem Owned.assign (ho : Owned owner s) (hp : Unheld s p)
    {o : Option (Owner ι)} (hlive : s.heap p = none → o = none) :
    Owned (Function.update owner p o) s := by
  have hne : ∀ {p'}, p' ≠ p → Function.update owner p o p' = owner p' :=
    fun h => Function.update_of_ne h o owner
  refine ⟨?_, ?_, ?_, ho.nodup, ?_, ho.filled, ho.reading⟩
  · intro p' hp'
    by_cases heq : p' = p
    · subst heq
      rw [Function.update_self]
      exact hlive hp'
    · rw [hne heq]
      exact ho.live hp'
  · intro p' hp'
    rw [hne fun heq => ?_]
    · exact ho.app hp'
    · rw [heq, hp.app] at hp'
      cases hp'
  · intro pipe sp hsp
    rw [hne (hp.queued hsp)]
    exact ho.queued hsp
  · intro i p' hi
    rw [hne fun heq => hp.thread i (heq ▸ hi)]
    exact ho.thread hi

theorem poke_self (s : LinkSystem ι) (p : Ptr) (b : Option Frame) :
    (s.poke p b).heap p = b := Function.update_self ..

theorem poke_of_ne (s : LinkSystem ι) {p' : Ptr} (b : Option Frame)
    (h : p' ≠ p) : (s.poke p b).heap p' = s.heap p' :=
  Function.update_of_ne h ..

/-- Writing elsewhere does not change what is read. -/
theorem load_poke (s : LinkSystem ι) {b : Option Frame} (h : sp.data ≠ p) :
    (s.poke p b).load sp = s.load sp := by
  unfold load block
  rw [poke_of_ne s b h]

/-- The spans whose bytes the link will still read. -/
def Reads (s : LinkSystem ι) (sp : Span) : Prop :=
  (∃ pipe, sp ∈ (s.queue pipe).queue) ∨ ∃ i, span (s.pc i) = some sp

/-- Nobody reads through a block nobody holds. -/
theorem Unheld.not_reads (h : Unheld s p) (hr : Reads s sp) :
    sp.data ≠ p := by
  rcases hr with ⟨pipe, hsp⟩ | ⟨i, hi⟩
  · exact h.queued hsp
  · intro heq
    exact h.thread i (heq ▸ held_of_span hi)

/-- Writing to a block that the link does not read changes nothing. -/
theorem Owned.poke (ho : Owned owner s) {b : Option Frame}
    (hp : ∀ sp, Reads s sp → sp.data ≠ p) (hlive : b = none → owner p = none) :
    Owned owner (s.poke p b) := by
  refine ⟨?_, ho.app, ho.queued, ho.nodup, ho.thread, ?_, ?_⟩
  · intro p' hp'
    by_cases heq : p' = p
    · subst heq
      rw [poke_self] at hp'
      exact hlive hp'
    · rw [poke_of_ne s b heq] at hp'
      exact ho.live hp'
  · intro pipe sp hsp
    rw [load_poke s (hp sp (Or.inl ⟨pipe, hsp⟩))]
    exact ho.filled hsp
  · intro i sp hi
    rw [load_poke s (hp sp (Or.inr ⟨i, hi⟩))]
    exact ho.reading hi

theorem withQueue_self (s : LinkSystem ι) (pipe : Pipe) (q : Fifo Span) :
    (s.withQueue pipe q).queue pipe = q := Function.update_self ..

theorem withQueue_of_ne (s : LinkSystem ι) {pipe' : Pipe} (q : Fifo Span)
    (h : pipe' ≠ pipe) :
    (s.withQueue pipe q).queue pipe' = s.queue pipe' :=
  Function.update_of_ne h ..

/-- A queue is replaced by one whose spans are the pipe's own. -/
theorem Owned.withQueue (ho : Owned owner s) {q : Fifo Span}
    (hq : ∀ sp ∈ q.queue, owner sp.data = some (.pipe pipe)
      ∧ (s.load sp).length = sp.size)
    (hnd : (q.queue.map Span.data).Nodup) :
    Owned owner (s.withQueue pipe q) := by
  refine ⟨ho.live, ho.app, ?_, ?_, ho.thread, ?_, ho.reading⟩
  · intro pipe' sp hsp
    -- of the two pipes only the one that is set has to be looked at
    by_cases heq : pipe' = pipe
    · subst heq
      rw [withQueue_self] at hsp
      exact (hq sp hsp).1
    · rw [withQueue_of_ne s q heq] at hsp
      exact ho.queued hsp
  · intro pipe'
    by_cases heq : pipe' = pipe
    · subst heq
      rw [withQueue_self]
      exact hnd
    · rw [withQueue_of_ne s q heq]
      exact ho.nodup pipe'
  · intro pipe' sp hsp
    by_cases heq : pipe' = pipe
    · subst heq
      rw [withQueue_self] at hsp
      exact (hq sp hsp).2
    · rw [withQueue_of_ne s q heq] at hsp
      exact ho.filled hsp

/-- The callers' own blocks. -/
theorem Owned.withApp (ho : Owned owner s) {b : Bool}
    (hb : b = true → owner p = some .app) :
    Owned owner { s with app := Function.update s.app p b } := by
  refine ⟨ho.live, ?_, ho.queued, ho.nodup, ho.thread, ho.filled,
    ho.reading⟩
  intro p' hp'
  by_cases heq : p' = p
  · subst heq
    exact hb ((Function.update_self p' b s.app).symm.trans hp')
  · exact ho.app ((Function.update_of_ne heq b s.app).symm.trans hp')

/-- What the callers own the link does not read. -/
theorem Owned.not_reads_app (ho : Owned owner s) (happ : s.app p = true)
    (sp : Span) (hsp : Reads s sp) : sp.data ≠ p := by
  rintro rfl
  rcases hsp with ⟨pipe, hq⟩ | ⟨i, hi⟩
  · cases (ho.app happ).symm.trans (ho.queued hq)
  · cases (ho.app happ).symm.trans (ho.thread (held_of_span hi))

-- =========================================================== the moves

/-- A caller allocates. -/
theorem Owned.appAllocate (ho : Owned owner s) (hp : s.heap p = none)
    (bytes : Frame) :
    Owned (Function.update owner p (some .app))
      { s.poke p (some bytes) with app := Function.update s.app p true } := by
  have hunheld := ho.unheld_of_fresh hp
  have hpoke : Owned owner (s.poke p (some bytes)) :=
    ho.poke (fun sp => hunheld.not_reads) fun h => (by cases h)
  refine (hpoke.assign ⟨hunheld.app, hunheld.queued, hunheld.thread⟩
    ?_).withApp fun _ => Function.update_self ..
  intro hnone
  rw [poke_self] at hnone
  cases hnone

/-- A caller frees a block of its own. -/
theorem Owned.appFree (ho : Owned owner s) (happ : s.app p = true) :
    Owned (Function.update owner p none)
      { s.poke p none with app := Function.update s.app p false } := by
  have howner := ho.app happ
  have hgone : Owned owner
      { s with app := Function.update s.app p false } :=
    ho.withApp fun h => (by cases h)
  have hunheld : Unheld
      { s with app := Function.update s.app p false } p := by
    refine hgone.unheld (fun _ => Function.update_self ..) ?_ ?_
    · intro pipe sp h
      cases howner.symm.trans h
    · intro i h
      cases howner.symm.trans h
  exact (hgone.assign hunheld fun _ => rfl).poke
    (fun sp => hunheld.not_reads) fun _ => Function.update_self ..

variable [DecidableEq ι]

theorem move_self (s : LinkSystem ι) (i : ι) (pc : LinkPc) :
    (s.move i pc).pc i = pc := Function.update_self ..

theorem move_of_ne (s : LinkSystem ι) {j : ι} (pc : LinkPc) (h : j ≠ i) :
    (s.move i pc).pc j = s.pc j := Function.update_of_ne h ..

/-- A thread moves on, keeping a block of its own or none. -/
theorem Owned.move (ho : Owned owner s) {pc : LinkPc}
    (hheld : ∀ p, held pc = some p → owner p = some (.thread i))
    (hspan : ∀ sp, span pc = some sp → (s.load sp).length = sp.size) :
    Owned owner (s.move i pc) := by
  refine ⟨ho.live, ho.app, ho.queued, ho.nodup, ?_, ho.filled, ?_⟩
  · intro j p hj
    by_cases hji : j = i
    · subst hji
      rw [move_self] at hj
      exact hheld p hj
    · rw [move_of_ne s pc hji] at hj
      exact ho.thread hj
  · intro j sp hj
    by_cases hji : j = i
    · subst hji
      rw [move_self] at hj
      exact hspan sp hj
    · rw [move_of_ne s pc hji] at hj
      exact ho.reading hj

/-- A thread lets go of its block. -/
theorem Owned.letGo (ho : Owned owner s) (hi : held (s.pc i) = some p)
    (pc : LinkPc) (hpc : held pc = none) :
    Owned owner (s.move i pc) ∧ Unheld (s.move i pc) p := by
  have hmove : Owned owner (s.move i pc) := by
    refine ho.move ?_ ?_
    · intro p h
      cases hpc.symm.trans h
    · intro sp h
      cases hpc.symm.trans (held_of_span h)
  have howner := ho.thread hi
  refine ⟨hmove, hmove.unheld ?_ ?_ ?_⟩
  · intro h
    cases howner.symm.trans h
  · intro pipe sp h
    cases howner.symm.trans h
  · intro j hj
    cases howner.symm.trans hj
    rw [move_self, hpc]
    intro h
    cases h

/-- `put` fills a fresh block. -/
theorem Owned.copy (ho : Owned owner s) (hp : s.heap p = none)
    {bytes : Frame} {n : Nat} (hn : bytes.length = n) :
    Owned (Function.update owner p (some (.thread i)))
      ((s.poke p (some bytes)).move i (.copied pipe ⟨p, n⟩)) := by
  have hunheld := ho.unheld_of_fresh hp
  have hpoke : Owned owner (s.poke p (some bytes)) :=
    ho.poke (fun sp => hunheld.not_reads) fun h => (by cases h)
  have hblock := poke_self s p (some bytes)
  refine (hpoke.assign (p := p) ⟨hunheld.app, hunheld.queued,
    hunheld.thread⟩ ?_).move ?_ ?_
  · intro h
    cases hblock.symm.trans h
  · intro p' h
    cases h
    exact Function.update_self ..
  · intro sp h
    cases h
    unfold load block
    rw [hblock, Option.getD_some, List.length_take, hn, Nat.min_self]

/-- `push` hands the block to the pipe. -/
theorem Owned.enqueue (ho : Owned owner s)
    (hi : s.pc i = .copied pipe sp) {q : Fifo Span}
    (hq : q.queue = (s.queue pipe).queue ++ [sp]) :
    Owned (Function.update owner sp.data (some (.pipe pipe)))
      ((s.withQueue pipe q).move i .idle) := by
  have hheld : held (s.pc i) = some sp.data := by rw [hi]; rfl
  have hspan : span (s.pc i) = some sp := by rw [hi]; rfl
  obtain ⟨hmove, hunheld⟩ := ho.letGo hheld .idle rfl
  have hlive : s.heap sp.data ≠ none := by
    intro h
    cases (ho.live h).symm.trans (ho.thread hheld)
  have hassign := hmove.assign hunheld (o := some (.pipe pipe))
    fun h => absurd h hlive
  refine hassign.withQueue ?_ ?_
  · intro x hx
    rw [hq, List.mem_append, List.mem_singleton] at hx
    rcases hx with hx | rfl
    · exact ⟨hassign.queued hx, ho.filled hx⟩
    · exact ⟨Function.update_self .., ho.reading hspan⟩
  · rw [hq, List.map_append, List.nodup_append]
    refine ⟨ho.nodup pipe, List.nodup_singleton _, ?_⟩
    intro a ha b hb
    obtain ⟨x, hx, rfl⟩ := List.mem_map.1 ha
    rw [List.mem_singleton.1 hb]
    exact hunheld.queued hx

/-- `pop` hands the block to the thread. -/
theorem Owned.dequeue (ho : Owned owner s) {rest : List Span}
    (hq : (s.queue pipe).queue = sp :: rest) {q : Fifo Span}
    (hrest : q.queue = rest) (packet : Frame) :
    Owned (Function.update owner sp.data (some (.thread i)))
      ((s.withQueue pipe q).move i (.popped pipe sp packet)) := by
  have hmem : sp ∈ (s.queue pipe).queue := by
    rw [hq]
    exact List.mem_cons_self ..
  have hsub : ∀ {x}, x ∈ q.queue → x ∈ (s.queue pipe).queue := by
    intro x hx
    rw [hq]
    exact List.mem_cons_of_mem _ (hrest ▸ hx)
  have hnd := ho.nodup pipe
  rw [hq, List.map_cons, List.nodup_cons] at hnd
  have howner := ho.queued hmem
  have hpop : Owned owner (s.withQueue pipe q) := by
    refine ho.withQueue ?_ ?_
    · intro x hx
      exact ⟨ho.queued (hsub hx), ho.filled (hsub hx)⟩
    · rw [hrest]
      exact hnd.2
  -- the popped span is off the pipe, and no one else had it
  have hunheld : Unheld (s.withQueue pipe q) sp.data := by
    refine hpop.unheld ?_ ?_ ?_
    · intro h
      cases howner.symm.trans h
    · intro pipe' x h hx heq
      cases howner.symm.trans h
      rw [withQueue_self, hrest] at hx
      exact hnd.1 (heq ▸ List.mem_map_of_mem hx)
    · intro j h
      cases howner.symm.trans h
  have hlive : s.heap sp.data ≠ none := by
    intro h
    cases (ho.live h).symm.trans howner
  refine (hpop.assign hunheld fun h => absurd h hlive).move ?_ ?_
  · intro p h
    cases h
    exact Function.update_self ..
  · intro x h
    cases h
    exact ho.filled hmem

/-- `insert` is over, and the thread still has to release the block. -/
theorem Owned.release (ho : Owned owner s) {packet : Frame}
    (hi : s.pc i = .popped pipe sp packet) :
    Owned owner (s.move i (.releasing sp.data)) := by
  refine ho.move ?_ ?_
  · intro p hp
    cases hp
    exact ho.thread (by rw [hi]; rfl)
  · intro x hx
    cases hx

/-- Releasing the block leaves what the link reads alone. -/
theorem Owned.load_free (ho : Owned owner s) (hi : s.pc i = .releasing p)
    (hsp : Reads s sp) :
    ((s.poke p none).move i .idle).load sp = s.load sp := by
  have hheld : held (s.pc i) = some p := by rw [hi]; rfl
  obtain ⟨-, hunheld⟩ := ho.letGo hheld .idle rfl
  have hreads : Reads (s.move i .idle) sp := by
    rcases hsp with hq | ⟨j, hj⟩
    · exact Or.inl hq
    · refine Or.inr ⟨j, ?_⟩
      rw [move_of_ne s _ ?_, hj]
      rintro rfl
      rw [hi] at hj
      cases hj
  exact load_poke s (hunheld.not_reads hreads)

/-- The scope guard gives the block back. -/
theorem Owned.free (ho : Owned owner s) (hi : held (s.pc i) = some p) :
    Owned (Function.update owner p none) ((s.poke p none).move i .idle) := by
  obtain ⟨hmove, hunheld⟩ := ho.letGo hi .idle rfl
  refine (hmove.assign hunheld fun _ => rfl).poke ?_ ?_
  · intro sp hsp
    exact hunheld.not_reads hsp
  · intro _
    exact Function.update_self ..

end Vnic.LinkSystem
