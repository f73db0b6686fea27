/-
The link under many threads is two FIFO channels.

`Recorded` compares the pipes with the history of the calls: what was
taken, in the order of the pops, followed by what is still queued, is what
was put, in the order of the pushes. A take that has popped and not yet
returned is settled by the bytes it has in hand; nobody can change them,
because the thread owns their block.

`Effect` is the connection to `Link`: to each pipe a step does what one
whole `put` or `take` does, or nothing (`step_sound`).

# One lemma for each cut

`Sound` bundles what a step has to show: ownership and the history go on,
and each pipe has had its `Effect`. The cuts that do something have their
own lemma (`Sound.copied`, `pushed`, `popped`, `took`, `inv_reserve`);
all others leave pipes, copies and history alone and are `Sound.quiet`.
A frame is put when its span is pushed and taken when its span is popped,
so the order of the pushes and the pops is the order of the channel.
-/
import Vnic.Proofs.LinkOwnership

namespace Vnic.LinkSystem

variable {ι : Type} {s s' : LinkSystem ι}
  {owner : Ptr → Option (Owner ι)} {p : Ptr} {i : ι} {pipe : Pipe}
  {sp : Span}

-- ============================================================= history

/-- What became of a take: it returned `frame`, or it is under way and has
`frame` in hand. -/
def Settled (s : LinkSystem ι) (pipe : Pipe) (t : ι × Option Frame)
    (frame : Frame) : Prop :=
  t.2 = some frame
  ∨ (t.2 = none ∧ ∃ data packet, s.pc t.1 = .popped pipe data packet
    ∧ s.load data = frame)

/-- The frames of the takes, then those in the pipe, are those of the
puts. -/
def InOrder (s : LinkSystem ι) (pipe : Pipe) (puts : List Frame)
    (takes : List (ι × Option Frame)) : Prop :=
  ∃ taken, taken ++ s.contents pipe = puts
    ∧ List.Forall₂ (Settled s pipe) takes taken

/-- The link agrees with the history of its calls. -/
structure Recorded (h : History ι) (s : LinkSystem ι) : Prop where
  copied : ∀ {i pipe sp}, s.pc i = .copied pipe sp →
    s.load sp = h.copied i ∧ sp.size ≠ 0
  fifo : ∀ pipe, InOrder s pipe (h.puts pipe) (h.takes pipe)

/-- The link between two steps. -/
def Inv (h : History ι) (s : LinkSystem ι) : Prop :=
  (∃ owner, Owned owner s) ∧ Recorded h s

/-- A pipe as `Link` has it. -/
def frames (s : LinkSystem ι) (pipe : Pipe) : Fifo Frame :=
  { queue := s.contents pipe, config := (s.queue pipe).config }

/-- What one step does to one pipe: a whole `put`, a whole `take`, a new
capacity, or nothing. -/
inductive Effect (h : History ι) (s s' : LinkSystem ι) (pipe : Pipe) :
    Event ι → Prop
  | none {e : Event ι} (heq : s'.frames pipe = s.frames pipe) :
      Effect h s s' pipe e
  | put {i : ι} (heq : Link.put true (h.copied i) (s.frames pipe)
      pipe.fullError = (s'.frames pipe, .ok ())) :
      Effect h s s' pipe (.put i pipe (.ok ()))
  | take {i : ι} {frame : Frame} (heq : Link.take true (s.frames pipe)
      = (s'.frames pipe, .ok frame)) :
      Effect h s s' pipe (.popped i pipe)
  | reserve {e : Event ι} (capacity : Nat)
      (heq : s'.frames pipe = (s.frames pipe).reserve capacity) :
      Effect h s s' pipe e

variable {h : History ι} {e : Event ι} {t : ι × Option Frame}
  {frame : Frame}

/-- A take that keeps what it has in hand stays settled. -/
theorem Settled.still (hset : Settled s pipe t frame)
    (hkeep : ∀ data packet, s.pc t.1 = .popped pipe data packet →
      s'.pc t.1 = .popped pipe data packet ∧ s'.load data = s.load data) :
    Settled s' pipe t frame := by
  rcases hset with hsome | ⟨hnone, data, packet, hpc, hload⟩
  · exact Or.inl hsome
  · obtain ⟨hpc', hload'⟩ := hkeep data packet hpc
    exact Or.inr ⟨hnone, data, packet, hpc', hload'.trans hload⟩

/-- Pipes with the same spans and the same bytes have the same frames. -/
theorem contents_eq (hq : (s'.queue pipe).queue = (s.queue pipe).queue)
    (hload : ∀ sp, Reads s sp → s'.load sp = s.load sp) :
    s'.contents pipe = s.contents pipe := by
  unfold contents
  rw [hq]
  apply List.map_congr_left
  intro sp hsp
  exact hload sp (Or.inl ⟨pipe, hsp⟩)

/-- Nothing happens to the pipe or to what its takes have in hand. -/
theorem InOrder.still {puts : List Frame} {takes : List (ι × Option Frame)}
    (hord : InOrder s pipe puts takes)
    (hcontents : s'.contents pipe = s.contents pipe)
    (hload : ∀ sp, Reads s sp → s'.load sp = s.load sp)
    (hpc : ∀ j data packet, s.pc j = .popped pipe data packet →
      s'.pc j = .popped pipe data packet) : InOrder s' pipe puts takes := by
  obtain ⟨taken, hput, hset⟩ := hord
  refine ⟨taken, by rw [hcontents, hput], hset.imp ?_⟩
  intro t frame ht
  refine ht.still ?_
  intro data packet hdata
  refine ⟨hpc _ _ _ hdata, hload data (Or.inr ⟨t.1, ?_⟩)⟩
  rw [hdata]
  rfl

/-- A step of no consequence for the history. -/
theorem Recorded.still (hr : Recorded h s)
    (hq : ∀ pipe, (s'.queue pipe).queue = (s.queue pipe).queue)
    (hload : ∀ sp, Reads s sp → s'.load sp = s.load sp)
    (hcopied : ∀ {j pipe sp}, s'.pc j = .copied pipe sp →
      s.pc j = .copied pipe sp)
    (hpopped : ∀ j pipe data packet, s.pc j = .popped pipe data packet →
      s'.pc j = .popped pipe data packet) : Recorded h s' := by
  refine ⟨?_, ?_⟩
  · intro j pipe sp hj
    have hj' := hcopied hj
    rw [hload sp (Or.inr ⟨j, by rw [hj']; rfl⟩)]
    exact hr.copied hj'
  · intro pipe
    exact (hr.fifo pipe).still (contents_eq (hq pipe) hload) hload
      fun j => hpopped j pipe

/-- A new link, with every live block a caller's. -/
theorem inv_init (heap : Ptr → Option Frame) :
    Inv {} (init heap : LinkSystem ι) := by
  refine ⟨⟨fun p => if (heap p).isSome then some .app else none, ?_⟩, ?_⟩
  · refine ⟨?_, ?_, ?_, ?_, ?_, ?_, ?_⟩
    · intro p hp
      rw [show heap p = none from hp]
      rfl
    · intro p hp
      exact if_pos hp
    · intro pipe sp hsp
      cases hsp
    · intro pipe
      exact List.nodup_nil
    · intro i p hi
      cases hi
    · intro pipe sp hsp
      cases hsp
    · intro i sp hi
      cases hi
  · refine ⟨?_, fun _ => ⟨[], rfl, .nil⟩⟩
    intro i pipe sp hi
    cases hi

/-- The pipe of frames is full when the pipe of spans is. -/
private theorem frames_isFullLocked (s : LinkSystem ι) (pipe : Pipe) :
    (s.frames pipe).isFullLocked = (s.queue pipe).isFullLocked := by
  unfold Fifo.isFullLocked frames contents
  rw [List.length_map]

variable [DecidableEq ι]

-- =========================================================== the steps

/-- What a step must leave behind. -/
def Sound (h : History ι) (s s' : LinkSystem ι) (e : Event ι) : Prop :=
  Inv (h.next e) s' ∧ ∀ pipe, Effect h s s' pipe e

/-- A thread that moves to a place without a copy gains none. -/
private theorem copied_of_move {pc : LinkPc} (hpc : span pc = none) {j : ι}
    (hj : (s.move i pc).pc j = .copied pipe sp) :
    s.pc j = .copied pipe sp := by
  by_cases hji : j = i
  · subst hji
    rw [move_self] at hj
    rw [hj] at hpc
    cases hpc
  · rwa [move_of_ne s pc hji] at hj

/-- A thread that has nothing in hand moves; the others keep theirs. -/
private theorem popped_move {pc pc' : LinkPc} (hi : s.pc i = pc)
    (hpc : ∀ pipe data packet, pc ≠ .popped pipe data packet)
    (hs : s'.pc = s.pc) (j : ι) (pipe : Pipe) (data : Span) (packet : Frame)
    (hj : s.pc j = .popped pipe data packet) :
    (s'.move i pc').pc j = .popped pipe data packet := by
  have hji : j ≠ i := by
    rintro rfl
    exact hpc _ _ _ (hi.symm.trans hj)
  rw [move_of_ne s' pc' hji, hs, hj]

/-- A step that leaves the queues alone and is not part of the history. -/
theorem Sound.quiet (hr : Recorded h s) (ho : Owned owner s')
    (hnext : h.next e = h) (hq : s'.queue = s.queue)
    (hload : ∀ sp, Reads s sp → s'.load sp = s.load sp)
    (hcopied : ∀ {j pipe sp}, s'.pc j = .copied pipe sp →
      s.pc j = .copied pipe sp)
    (hpopped : ∀ j pipe data packet, s.pc j = .popped pipe data packet →
      s'.pc j = .popped pipe data packet) : Sound h s s' e := by
  have hlists : ∀ pipe, (s'.queue pipe).queue = (s.queue pipe).queue :=
    fun pipe => by rw [hq]
  refine ⟨⟨⟨owner, ho⟩, ?_⟩, ?_⟩
  · rw [hnext]
    exact hr.still hlists hload hcopied hpopped
  · intro pipe
    refine .none ?_
    unfold frames
    rw [contents_eq (hlists pipe) hload, hq]

/-- Nothing has changed. -/
theorem Sound.refl (hinv : Inv h s) (hnext : h.next e = h) :
    Sound h s s e := by
  obtain ⟨⟨owner, ho⟩, hr⟩ := hinv
  exact .quiet hr ho hnext rfl (fun _ _ => rfl) id fun _ _ _ _ => id

/-- A quiet step of one thread that writes nothing. -/
theorem Sound.moved (hr : Recorded h s) {pc : LinkPc}
    (ho : Owned owner (s.move i pc)) (hnext : h.next e = h)
    (hpc : span pc = none)
    (hi : ∀ pipe data packet, s.pc i ≠ .popped pipe data packet) :
    Sound h s (s.move i pc) e :=
  .quiet hr ho hnext rfl (fun _ _ => rfl) (copied_of_move hpc)
    (popped_move rfl hi rfl)

/-- `put` copies. -/
theorem Sound.copied (ho : Owned owner s) (hr : Recorded h s)
    (hi : s.pc i = .idle) (hp : s.heap p = none) {n : Nat}
    (hlen : frame.length = n) (hn : n ≠ 0) :
    Sound h s ((s.poke p (some frame)).move i (.copied pipe ⟨p, n⟩))
      (.copied i pipe frame) := by
  -- a fresh block is read by nobody, so every frame in the pipes reads as
  -- before
  have hunheld := ho.unheld_of_fresh hp
  have hload : ∀ sp, Reads s sp →
      ((s.poke p (some frame)).move i (.copied pipe ⟨p, n⟩)).load sp
        = s.load sp := fun sp hsp => load_poke s (hunheld.not_reads hsp)
  have hcontents : ∀ pipe',
      ((s.poke p (some frame)).move i (.copied pipe ⟨p, n⟩)).contents pipe'
        = s.contents pipe' := fun pipe' => contents_eq rfl hload
  have hpopped : ∀ j pipe' data packet,
      s.pc j = .popped pipe' data packet →
      ((s.poke p (some frame)).move i (.copied pipe ⟨p, n⟩)).pc j
        = .popped pipe' data packet := popped_move hi nofun rfl
  refine ⟨⟨⟨_, ho.copy hp hlen⟩, ?_, ?_⟩, ?_⟩
  · intro j pipe' sp hj
    show _ = Function.update h.copied i frame j ∧ _
    by_cases hji : j = i
    · subst hji
      rw [move_self] at hj
      cases hj
      refine ⟨?_, hn⟩
      rw [Function.update_self]
      show (((s.poke p (some frame)).heap p).getD []).take n = frame
      rw [poke_self, Option.getD_some, ← hlen, List.take_length]
    · rw [move_of_ne _ _ hji] at hj
      rw [Function.update_of_ne hji, hload sp (Or.inr ⟨j, congrArg span hj⟩)]
      exact hr.copied hj
  · intro pipe'
    exact (hr.fifo pipe').still (hcontents pipe') hload
      fun j => hpopped j pipe'
  · intro pipe'
    refine .none ?_
    unfold frames
    rw [hcontents]
    rfl

/-- A replaced queue, as `Link` has it. -/
theorem frames_withQueue_self (s : LinkSystem ι) (pipe : Pipe)
    (q : Fifo Span) (i : ι) (pc : LinkPc) :
    ((s.withQueue pipe q).move i pc).frames pipe
      = { queue := q.queue.map s.load, config := q.config } := by
  have hq : ((s.withQueue pipe q).move i pc).queue pipe = q :=
    withQueue_self s pipe q
  unfold frames contents
  rw [hq]
  rfl

/-- The other pipe holds the frames it held. -/
theorem frames_withQueue_of_ne (s : LinkSystem ι) {pipe' : Pipe}
    (hpipe : pipe' ≠ pipe) (q : Fifo Span) (i : ι) (pc : LinkPc) :
    ((s.withQueue pipe q).move i pc).frames pipe' = s.frames pipe' := by
  have hq : ((s.withQueue pipe q).move i pc).queue pipe' = s.queue pipe' :=
    withQueue_of_ne s q hpipe
  unfold frames contents
  rw [hq]
  rfl

/-- A step on one pipe is none on the other. -/
theorem Recorded.other_pipe (hr : Recorded h s) {pipe' : Pipe}
    (hpipe : pipe' ≠ pipe) {q : Fifo Span} {pc : LinkPc}
    (hpopped : ∀ j data packet, s.pc j = .popped pipe' data packet →
      (s.move i pc).pc j = .popped pipe' data packet) :
    InOrder ((s.withQueue pipe q).move i pc) pipe' (h.puts pipe')
      (h.takes pipe') := by
  refine (hr.fifo pipe').still ?_ (fun _ _ => rfl) hpopped
  exact congrArg Fifo.queue (frames_withQueue_of_ne s hpipe q i pc)

/-- `put` pushes, and there is room. -/
theorem Sound.pushed (ho : Owned owner s) (hr : Recorded h s)
    (hi : s.pc i = .copied pipe sp)
    (hroom : (s.queue pipe).isFullLocked = false) :
    Sound h s
      ((s.withQueue pipe { s.queue pipe with
          queue := (s.queue pipe).queue ++ [sp] }).move i .idle)
      (.put i pipe (.ok ())) := by
  obtain ⟨hbytes, hsize⟩ := hr.copied hi
  have hpopped : ∀ j pipe' data packet,
      s.pc j = .popped pipe' data packet →
      (s.move i .idle).pc j = .popped pipe' data packet :=
    popped_move hi nofun rfl
  -- under the fifo's lock the pipe gains what the copy said, not what the
  -- caller's buffer says now
  have hself : ((s.withQueue pipe { s.queue pipe with
      queue := (s.queue pipe).queue ++ [sp] }).move i .idle).frames pipe
      = { s.frames pipe with
          queue := (s.frames pipe).queue ++ [h.copied i] } := by
    rw [frames_withQueue_self, List.map_append, List.map_singleton, hbytes]
    rfl
  refine ⟨⟨⟨_, ho.enqueue hi rfl⟩, ?_, ?_⟩, ?_⟩
  · intro j pipe' sp' hj
    exact hr.copied (copied_of_move rfl hj)
  · intro pipe'
    show InOrder _ pipe' (Function.update h.puts pipe _ pipe') _
    by_cases hpipe : pipe' = pipe
    · subst hpipe
      obtain ⟨taken, hput, hset⟩ := hr.fifo pipe'
      refine ⟨taken, ?_, hset.imp fun t frame ht => ht.still ?_⟩
      · rw [Function.update_self, ← hput, List.append_assoc]
        exact congrArg (taken ++ Fifo.queue ·) hself
      · intro data packet hdata
        exact ⟨hpopped _ _ _ _ hdata, rfl⟩
    · rw [Function.update_of_ne hpipe]
      exact hr.other_pipe hpipe fun j => hpopped j _
  · intro pipe'
    by_cases hpipe : pipe' = pipe
    · subst hpipe
      refine .put ?_
      have hne : h.copied i ≠ [] := by
        intro hnil
        apply hsize
        rw [← ho.reading (i := i) (by rw [hi]; rfl), hbytes, hnil]
        rfl
      rw [Link.put_of_room hne ((frames_isFullLocked s pipe').trans hroom),
        hself]
    · exact .none (frames_withQueue_of_ne s hpipe _ i _)

/-- `take` pops. -/
theorem Sound.popped (ho : Owned owner s) (hr : Recorded h s)
    (hi : s.pc i = .idle) {rest : List Span}
    (hq : (s.queue pipe).queue = sp :: rest) (packet : Frame) :
    Sound h s
      ((s.withQueue pipe { s.queue pipe with queue := rest }).move i
        (.popped pipe sp packet))
      (.popped i pipe) := by
  have hpopped : ∀ j pipe' data packet',
      s.pc j = .popped pipe' data packet' →
      (s.move i (.popped pipe sp packet)).pc j
        = .popped pipe' data packet' := popped_move hi nofun rfl
  have hself := frames_withQueue_self s pipe
    { s.queue pipe with queue := rest } i (.popped pipe sp packet)
  -- the frame that leaves is the head, and it becomes the last of those
  -- taken
  have hhead : s.contents pipe = s.load sp :: rest.map s.load := by
    unfold contents
    rw [hq, List.map_cons]
  refine ⟨⟨⟨_, ho.dequeue hq rfl packet⟩, ?_, ?_⟩, ?_⟩
  · intro j pipe' sp' hj
    by_cases hji : j = i
    · subst hji
      rw [move_self] at hj
      cases hj
    · rw [move_of_ne _ _ hji] at hj
      exact hr.copied hj
  · intro pipe'
    show InOrder _ pipe' _ (Function.update h.takes pipe _ pipe')
    by_cases hpipe : pipe' = pipe
    · subst hpipe
      obtain ⟨taken, hput, hset⟩ := hr.fifo pipe'
      refine ⟨taken ++ [s.load sp], ?_, ?_⟩
      · refine Eq.trans ?_ hput
        rw [hhead, List.append_assoc]
        exact congrArg (taken ++ s.load sp :: Fifo.queue ·) hself
      · rw [Function.update_self]
        apply List.rel_append
        · refine hset.imp fun t frame ht => ht.still ?_
          intro data packet' hdata
          exact ⟨hpopped _ _ _ _ hdata, rfl⟩
        · refine .cons (Or.inr ⟨rfl, sp, packet, ?_, rfl⟩) .nil
          exact move_self _ i _
    · rw [Function.update_of_ne hpipe]
      exact hr.other_pipe hpipe fun j => hpopped j _
  · intro pipe'
    by_cases hpipe : pipe' = pipe
    · subst hpipe
      have htake : Link.take true (s.frames pipe')
          = ({ queue := rest.map s.load, config := (s.queue pipe').config },
              .ok (s.load sp)) := by
        unfold Link.take Fifo.pop frames
        rw [hhead]
        rfl
      exact .take (htake.trans (congrArg (·, _) hself.symm))
    · exact .none (frames_withQueue_of_ne s hpipe _ i _)

/-- `take` returns what it had in hand. -/
theorem Sound.took (ho : Owned owner s) (hr : Recorded h s)
    {data : Span} {packet : Frame}
    (hi : s.pc i = .popped pipe data packet) :
    Sound h s (s.move i (.releasing data.data))
      (.took i pipe packet (packet ++ s.load data) (.ok data.size)) := by
  refine ⟨⟨⟨owner, ho.release hi⟩, ?_, ?_⟩, fun _ => .none rfl⟩
  · intro j pipe' sp hj
    exact hr.copied (copied_of_move rfl hj)
  · intro pipe'
    show InOrder _ pipe' _ (Function.update h.takes pipe _ pipe')
    by_cases hpipe : pipe' = pipe
    · subst hpipe
      obtain ⟨taken, hput, hset⟩ := hr.fifo pipe'
      rw [Function.update_self, List.drop_left]
      refine ⟨taken, hput, List.forall₂_map_left_iff.2 (hset.imp ?_)⟩
      intro t frame ht
      by_cases hti : t.1 = i ∧ t.2 = none
      · -- the take that returns
        rw [returned, if_pos hti]
        rcases ht with hsome | ⟨-, data', packet', hpc, hload⟩
        · cases hti.2.symm.trans hsome
        · rw [hti.1, hi] at hpc
          cases hpc
          exact Or.inl (congrArg some hload)
      · rw [returned, if_neg hti]
        rcases ht with hsome | ⟨hnone, data', packet', hpc, hload⟩
        · exact Or.inl hsome
        · refine Or.inr ⟨hnone, data', packet', ?_, hload⟩
          rw [move_of_ne s _ fun h => hti ⟨h, hnone⟩, hpc]
    · rw [Function.update_of_ne hpipe]
      refine (hr.fifo pipe').still rfl (fun _ _ => rfl) ?_
      intro j data' packet' hj
      have hji : j ≠ i := by
        rintro rfl
        cases hi.symm.trans hj
        exact hpipe rfl
      rw [move_of_ne s _ hji, hj]

-- ========================================================== inversions

variable {a : Op ι} {packet : Frame}

/-- What the first step of `put` can do. -/
theorem put_cases {source : Span} {answer : Option Ptr}
    (hput : s.put i pipe source answer = some (s', e)) :
    (s' = s ∧ source.size = 0 ∧ e = .put i pipe (.error .linkPacketEmpty))
    ∨ (s' = s ∧ e = .put i pipe (.error .allocatorAllocationFailed))
    ∨ ∃ p, source.size ≠ 0 ∧ s.Readable source ∧ s.Fresh p
      ∧ s' = (s.poke p (some (s.load source))).move i
          (.copied pipe ⟨p, source.size⟩)
      ∧ e = .copied i pipe (s.load source) := by
  unfold LinkSystem.put at hput
  -- the three ends of put before its copy is there: an empty span, a
  -- failing malloc, a copy
  split at hput
  · next hsize =>
    cases hput
    exact Or.inl ⟨rfl, hsize, rfl⟩
  · next hsize =>
    split at hput
    · next hread =>
      cases answer with
      | none =>
          cases hput
          exact Or.inr (Or.inl ⟨rfl, rfl⟩)
      | some p =>
          simp only at hput
          split at hput
          · next hfresh =>
            cases hput
            exact Or.inr (Or.inr ⟨p, hsize, hread, hfresh, rfl, rfl⟩)
          · cases hput
    · cases hput

/-- What the push of `put` can do. -/
theorem push_cases (s : LinkSystem ι) (i : ι) (pipe : Pipe) (copy : Span) :
    ((s.queue pipe).isFullLocked = true
      ∧ s.push i pipe copy = (s.move i (.releasing copy.data),
          .put i pipe (.error pipe.fullError)))
    ∨ ((s.queue pipe).isFullLocked = false
      ∧ s.push i pipe copy
        = ((s.withQueue pipe { s.queue pipe with
              queue := (s.queue pipe).queue ++ [copy] }).move i .idle,
            .put i pipe (.ok ()))) := by
  unfold LinkSystem.push
  cases hfull : (s.queue pipe).isFullLocked with
  | true => exact Or.inl ⟨rfl, by rw [Fifo.push_of_full hfull]⟩
  | false => exact Or.inr ⟨rfl, by rw [Fifo.push_of_room hfull]⟩

/-- What the first step of `take` can do. -/
theorem take_cases (s : LinkSystem ι) (i : ι) (pipe : Pipe)
    (packet : Frame) :
    ((s.queue pipe).queue = []
      ∧ s.take i pipe packet
        = (s, .took i pipe packet packet (.error .timeout)))
    ∨ ∃ sp rest, (s.queue pipe).queue = sp :: rest
      ∧ s.take i pipe packet
        = ((s.withQueue pipe { s.queue pipe with queue := rest }).move i
              (.popped pipe sp packet), .popped i pipe) := by
  unfold LinkSystem.take Fifo.pop
  cases hq : (s.queue pipe).queue with
  | nil => exact Or.inl ⟨rfl, rfl⟩
  | cons sp rest => exact Or.inr ⟨sp, rest, rfl, rfl⟩

-- ============================================================= one step

/-- What the answers of the calls say: a `put` is refused for an empty
frame or by a full pipe; a `take` appends a frame and answers its length,
or finds the pipe empty. -/
def Answered (s : LinkSystem ι) (a : Op ι) : Event ι → Prop
  | .put i pipe (.error _) =>
      (∃ source answer, a = .put i pipe source answer ∧ source.size = 0)
      ∨ ((s.queue pipe).config.capacity ≠ 0
        ∧ (s.queue pipe).config.capacity ≤ (s.contents pipe).length)
  | .took _ _ before after (.ok n) =>
      ∃ frame, after = before ++ frame ∧ n = frame.length
  | .took _ pipe before after (.error code) =>
      after = before ∧ code = .timeout ∧ s.contents pipe = []
  | _ => True

/-- A put copies the frame, and answers for itself when it cannot. -/
private theorem inv_put (hinv : Inv h s) (hi : s.pc i = .idle) {source : Span}
    {answer : Option Ptr} (hput : s.put i pipe source answer = some (s', e))
    (halloc : e.allocated = true) :
    Sound h s s' e ∧ Answered s (.put i pipe source answer) e := by
  rcases put_cases hput with
    ⟨rfl, hsize, rfl⟩ | ⟨-, rfl⟩ | ⟨p, hsize, hread, hfresh, rfl, rfl⟩
  · exact ⟨.refl hinv rfl, Or.inl ⟨source, answer, rfl, hsize⟩⟩
  · cases halloc
  · obtain ⟨⟨owner, ho⟩, hr⟩ := hinv
    refine ⟨.copied ho hr hi hfresh.2 ?_ hsize, trivial⟩
    unfold load
    rw [List.length_take]
    exact Nat.min_eq_left hread.2

/-- A push puts the copy's frame at the end of its pipe. -/
private theorem inv_push (hinv : Inv h s) {copy : Span}
    (hi : s.pc i = .copied pipe copy) (hpush : s.push i pipe copy = (s', e)) :
    Sound h s s' e ∧ Answered s a e := by
  obtain ⟨⟨owner, ho⟩, hr⟩ := hinv
  rcases push_cases s i pipe copy with ⟨hfull, heq⟩ | ⟨hroom, heq⟩
  · cases hpush.symm.trans heq
    rw [← frames_isFullLocked] at hfull
    refine ⟨.moved hr (ho.move ?_ fun sp hsp => (by cases hsp)) rfl rfl ?_,
      Or.inr (Fifo.isFullLocked_iff.1 hfull)⟩
    · intro p hp
      cases hp
      exact ho.thread (by rw [hi]; rfl)
    · intro pipe data packet h
      cases hi.symm.trans h
  · cases hpush.symm.trans heq
    exact ⟨.pushed ho hr hi hroom, trivial⟩

/-- A take removes the head of its pipe and holds its block. -/
private theorem inv_take (hinv : Inv h s) (hi : s.pc i = .idle)
    (htake : s.take i pipe packet = (s', e)) :
    Sound h s s' e ∧ Answered s a e := by
  rcases take_cases s i pipe packet with ⟨hq, heq⟩ | ⟨sp, rest, hq, heq⟩
  · cases htake.symm.trans heq
    refine ⟨.refl hinv rfl, rfl, rfl, ?_⟩
    unfold contents
    rw [hq, List.map_nil]
  · cases htake.symm.trans heq
    obtain ⟨⟨owner, ho⟩, hr⟩ := hinv
    exact ⟨.popped ho hr hi hq packet, trivial⟩

/-- The bytes appended are those of the frame popped. -/
private theorem inv_insert (hinv : Inv h s) {data : Span}
    (hi : s.pc i = .popped pipe data packet) {alloc : Bool}
    (hinsert : s.insert i pipe data packet alloc = (s', e))
    (halloc : e.allocated = true) :
    Sound h s s' e ∧ Answered s a e := by
  obtain ⟨⟨owner, ho⟩, hr⟩ := hinv
  cases alloc with
  | true =>
      cases hinsert
      have hlen := ho.reading (i := i) (by rw [hi]; rfl)
      exact ⟨.took ho hr hi, s.load data, rfl, hlen.symm⟩
  | false =>
      cases hinsert
      cases halloc

/-- The scope guard runs. -/
theorem inv_deallocate (hinv : Inv h s) (hi : s.pc i = .releasing p) :
    Sound h s ((s.poke p none).move i .idle) .silent := by
  obtain ⟨⟨owner, ho⟩, hr⟩ := hinv
  have hheld : held (s.pc i) = some p := by rw [hi]; rfl
  refine .quiet hr (ho.free hheld) rfl rfl ?_ (copied_of_move rfl)
    (popped_move hi nofun rfl)
  intro sp hsp
  exact ho.load_free hi hsp

/-- `configure` stores before it sets the capacities. -/
private theorem inv_configure (hinv : Inv h s) (hi : s.pc i = .idle)
    {config : Link.Config} (hconf : s.configure i config = (s', e)) :
    Sound h s s' e ∧ Answered s a e := by
  unfold LinkSystem.configure at hconf
  split at hconf
  · cases hconf
    obtain ⟨⟨owner, ho⟩, hr⟩ := hinv
    have ho' : Owned owner { s with config := config } :=
      ⟨ho.live, ho.app, ho.queued, ho.nodup, ho.thread, ho.filled,
        ho.reading⟩
    exact ⟨.quiet hr (ho'.move (i := i) (fun p hp => (by cases hp))
      fun sp hsp => (by cases hsp)) rfl rfl (fun _ _ => rfl)
      (copied_of_move rfl) (popped_move hi nofun rfl), trivial⟩
  · cases hconf
    exact ⟨.refl hinv rfl, trivial⟩

private theorem inv_reserve (hinv : Inv h s) {pc pc' : LinkPc}
    (hi : s.pc i = pc)
    (hpc : held pc = none) (hpc' : held pc' = none) (hnext : h.next e = h)
    (pipe : Pipe) (depth : UInt32) :
    Sound h s ((s.reserve pipe depth).move i pc') e := by
  obtain ⟨⟨owner, ho⟩, hr⟩ := hinv
  have hspan : span pc' = none := by
    cases hsp : span pc' with
    | none => rfl
    | some sp => cases hpc'.symm.trans (held_of_span hsp)
  -- reserve changes a capacity; the lists of both pipes are as they were
  have hlists : ∀ pipe', (((s.reserve pipe depth).move i pc').queue
      pipe').queue = (s.queue pipe').queue := by
    intro pipe'
    by_cases hpipe : pipe' = pipe
    · subst hpipe
      exact (congrArg Fifo.queue (withQueue_self s pipe' _)).trans rfl
    · exact congrArg Fifo.queue (withQueue_of_ne s _ hpipe)
  have hqueue : Owned owner (s.reserve pipe depth) := by
    refine ho.withQueue ?_ (show List.Nodup _ from ho.nodup pipe)
    intro sp hsp
    exact ⟨ho.queued hsp, ho.filled hsp⟩
  have hown : Owned owner ((s.reserve pipe depth).move i pc') := by
    refine hqueue.move ?_ ?_
    · intro p hp
      cases hpc'.symm.trans hp
    · intro sp hsp
      cases hspan.symm.trans hsp
  refine ⟨⟨⟨owner, hown⟩, ?_⟩, ?_⟩
  · rw [hnext]
    refine hr.still hlists (fun _ _ => rfl) (copied_of_move hspan)
      (popped_move hi ?_ rfl)
    rintro pipe data packet rfl
    cases hpc
  · intro pipe'
    by_cases hpipe : pipe' = pipe
    · subst hpipe
      exact .reserve depth.toNat (frames_withQueue_self s pipe' _ i pc')
    · exact .none (frames_withQueue_of_ne s hpipe _ i pc')

/-- A caller writes to a block of its own, or to a fresh one. -/
theorem inv_app {app : Ptr → Bool} {b : Option Frame} (hr : Recorded h s)
    (hp : ∀ sp, Reads s sp → sp.data ≠ p)
    (ho : Owned owner { s.poke p b with app := app }) :
    Sound h s { s.poke p b with app := app } .silent :=
  .quiet hr ho rfl rfl (fun _ hsp => load_poke s (hp _ hsp)) id
    fun _ _ _ _ => id

/-- Every step keeps the invariant, does to each pipe what a whole call
does, or nothing, and answers accordingly. -/
theorem step_sound (hinv : Inv h s) (hstep : s.step a = some (s', e))
    (halloc : e.allocated = true) : Sound h s s' e ∧ Answered s a e := by
  -- one case per cut of the source's calls; the moves of the application
  -- come last
  cases a with
  | put i pipe source answer =>
      simp only [step] at hstep
      split at hstep
      · next hi => exact inv_put hinv hi hstep halloc
      · cases hstep
  | push i =>
      simp only [step] at hstep
      split at hstep
      · next pipe copy hi => exact inv_push hinv hi (Option.some.inj hstep)
      · cases hstep
  | take i pipe packet =>
      simp only [step] at hstep
      split at hstep
      · next hi => exact inv_take hinv hi (Option.some.inj hstep)
      · cases hstep
  | insert i alloc =>
      simp only [step] at hstep
      split at hstep
      · next pipe data packet hi =>
        exact inv_insert hinv hi (Option.some.inj hstep) halloc
      · cases hstep
  | deallocate i =>
      simp only [step] at hstep
      split at hstep
      · next p hi =>
        cases hstep
        exact ⟨inv_deallocate hinv hi, trivial⟩
      · cases hstep
  | configure i config =>
      simp only [step] at hstep
      split at hstep
      · next hi => exact inv_configure hinv hi (Option.some.inj hstep)
      · cases hstep
  | reserve i =>
      simp only [step] at hstep
      split at hstep
      · next hi =>
        cases hstep
        exact ⟨inv_reserve hinv hi rfl rfl rfl .rx _, trivial⟩
      · next hi =>
        cases hstep
        exact ⟨inv_reserve hinv hi rfl rfl rfl .tx _, trivial⟩
      · cases hstep
  | setUp up =>
      cases hstep
      obtain ⟨⟨owner, ho⟩, hr⟩ := hinv
      have ho' : Owned owner { s with up := up } :=
        ⟨ho.live, ho.app, ho.queued, ho.nodup, ho.thread, ho.filled,
          ho.reading⟩
      exact ⟨.quiet hr ho' rfl rfl (fun _ _ => rfl) id fun _ _ _ _ => id,
        trivial⟩
  | appAllocate p bytes =>
      simp only [step] at hstep
      split at hstep
      · next hfresh =>
        cases hstep
        obtain ⟨⟨owner, ho⟩, hr⟩ := hinv
        have hunheld := ho.unheld_of_fresh hfresh.2
        exact ⟨inv_app hr (fun sp => hunheld.not_reads)
          (ho.appAllocate hfresh.2 bytes), trivial⟩
      · cases hstep
  | appWrite p bytes =>
      simp only [step] at hstep
      split at hstep
      · next happ =>
        cases hstep
        obtain ⟨⟨owner, ho⟩, hr⟩ := hinv
        have hreads := ho.not_reads_app happ
        exact ⟨inv_app hr hreads (ho.poke hreads fun h => (by cases h)),
          trivial⟩
      · cases hstep
  | appFree p =>
      simp only [step] at hstep
      split at hstep
      · next happ =>
        cases hstep
        obtain ⟨⟨owner, ho⟩, hr⟩ := hinv
        exact ⟨inv_app hr (ho.not_reads_app happ) (ho.appFree happ), trivial⟩
      · cases hstep

-- ============================================================ the runs

variable {heap : Ptr → Option Frame} {as : List (Op ι)}
  {es : List (Event ι)}

/-- The two channels over a whole run. -/
private theorem run_inv
    (hrun : (linkSystem ι).run (init heap) as = some (s, es))
    (halloc : ∀ e ∈ es, e.allocated = true) :
    Inv (History.ofEvents es) s := by
  refine (linkSystem ι).run_history_along
    (P := fun s es => Inv (History.ofEvents es) s) ?_
    ((linkSystem ι).along_of_events hrun halloc) hrun [] (inv_init heap)
  intro s s₁ a e es hinv hstep he
  show Inv (List.foldl _ _ _) s₁
  rw [List.foldl_append]
  exact (step_sound hinv hstep he).1.1

/-- Whatever the threads do, as long as no allocation fails: on each pipe
the frames of the takes, in the order of the pops, followed by those still
queued, are the frames of the successful puts as their callers' buffers
held them, in the order of the pushes; and from there on no step but a
successful `put` on a pipe or a pop from it changes what is in the pipe. -/
theorem two_fifo_channels
    (hrun : (linkSystem ι).run (init heap) as = some (s, es))
    (halloc : ∀ e ∈ es, e.allocated = true) :
    (∀ pipe, ∃ taken,
      taken ++ s.contents pipe = (History.ofEvents es).puts pipe
      ∧ List.Forall₂
        (fun t frame => t.2 = some frame ∨ (t.2 = none ∧ s.Taking pipe t.1))
        ((History.ofEvents es).takes pipe) taken)
    ∧ ∀ a s' e, s.step a = some (s', e) → e.allocated = true →
      Answered s a e
      ∧ ∀ pipe, (∀ i, e ≠ .put i pipe (.ok ()) ∧ e ≠ .popped i pipe) →
        s'.contents pipe = s.contents pipe := by
  have hinv := run_inv hrun halloc
  refine ⟨?_, ?_⟩
  · intro pipe
    obtain ⟨taken, hput, hset⟩ := hinv.2.fifo pipe
    refine ⟨taken, hput, hset.imp ?_⟩
    rintro t frame (hsome | ⟨hnone, data, packet, hpc, -⟩)
    · exact Or.inl hsome
    · exact Or.inr ⟨hnone, data, packet, hpc⟩
  · intro a s' e hstep he
    obtain ⟨⟨-, heffect⟩, hanswer⟩ := step_sound hinv hstep he
    refine ⟨hanswer, ?_⟩
    intro pipe hother
    -- what the step did to the pipe's list: nothing, a put, a take, or a
    -- new capacity
    cases heffect pipe with
    | none heq => exact congrArg Fifo.queue heq
    | put heq => exact absurd rfl (hother _).1
    | take heq => exact absurd rfl (hother _).2
    | reserve capacity heq => exact congrArg Fifo.queue heq

/-- A caller's buffer of two bytes at address 1. -/
def bufferHeap (p : Ptr) : Option Frame :=
  if p = 1 then some [7, 8] else none

/-- One thread puts the buffer, its caller overwrites it between the copy
and the push, and another thread takes the frame. -/
def overwriteOps : List (Op Bool) :=
  [.put false .rx ⟨1, 2⟩ (some 2), .appWrite 1 [9, 9], .push false,
    .take true .rx [5], .insert true true, .deallocate true]

/-- The take returns the bytes as they were at the time of the put. -/
theorem two_fifo_channels_overwrite :
    ∃ s es, (linkSystem Bool).run (init bufferHeap) overwriteOps
        = some (s, es)
      ∧ (History.ofEvents es).puts .rx = [[7, 8]]
      ∧ ∃ taken, taken ++ s.contents .rx = [[7, 8]]
        ∧ List.Forall₂
          (fun t frame => t.2 = some frame
            ∨ (t.2 = none ∧ s.Taking .rx t.1))
          [(true, some [7, 8])] taken := by
  have heval : ((linkSystem Bool).run (init bufferHeap) overwriteOps).map
      (fun r => (r.2.all Event.allocated, (History.ofEvents r.2).puts .rx,
        (History.ofEvents r.2).takes .rx))
      = some (true, [[7, 8]], [(true, some [7, 8])]) := by decide
  obtain ⟨⟨s, es⟩, hrun, hobs⟩ := Option.map_eq_some_iff.1 heval
  simp only [Prod.mk.injEq, List.all_eq_true] at hobs
  obtain ⟨halloc, hputs, htakes⟩ := hobs
  have hfifo := (two_fifo_channels hrun halloc).1 .rx
  rw [hputs, htakes] at hfifo
  exact ⟨s, es, hrun, hputs, hfifo⟩

end Vnic.LinkSystem
