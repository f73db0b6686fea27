/-
What a failed `take` of a link leaves behind.

`take` pops before it copies, and the scope guard releases the popped copy
on every way out. So a `take` that times out changes nothing, and one whose
vector cannot grow drops the frame it popped: that one, and nothing else.
The vector is as it was in both cases.

# Layers

`failed_take` is about `Link` with the caller's vector; what it appends is
what `Link.take` answers (`take_of_takeInto`). `take_alone` ties
that reading to the spans and the heap of `Vnic.LinkSystem`: a thread that
takes with nobody between its steps does to the frames what `takeInto`
does, and the block of the popped frame is free at the end.
-/
import Vnic.Proofs.LinkDepth
import Vnic.Proofs.LinkSystem

namespace Vnic

namespace Link

variable {growth : Option Nat} {packet packet' : ByteVector} {data : Frame}

-- ============================================================ the vector

/-- The vector has to grow for `data` and cannot. -/
def ByteVector.Refuses (v : ByteVector) (data : Frame)
    (growth : Option Nat) : Prop :=
  v.capacity < v.bytes.length + data.length ∧ growth = none

instance (v : ByteVector) (data : Frame) (growth : Option Nat) :
    Decidable (v.Refuses data growth) :=
  inferInstanceAs (Decidable (_ ∧ _))

/-- `insert` appends, or throws and leaves the vector alone. -/
theorem ByteVector.insert_cases (v : ByteVector) (data : Frame)
    (growth : Option Nat) :
    (v.Refuses data growth ∧ v.insert data growth = (v, .error .badAlloc))
    ∨ (¬ v.Refuses data growth ∧ ∃ w, w.bytes = v.bytes ++ data
      ∧ v.insert data growth = (w, .ok ())) := by
  unfold ByteVector.insert ByteVector.Refuses
  by_cases hroom : v.bytes.length + data.length ≤ v.capacity
  · rw [dif_pos hroom]
    exact Or.inr ⟨fun h => absurd h.1 (Nat.not_lt.2 hroom), _, rfl, rfl⟩
  · rw [dif_neg hroom]
    cases growth with
    | none => exact Or.inl ⟨⟨Nat.lt_of_not_le hroom, rfl⟩, rfl⟩
    | some capacity =>
        refine Or.inr ⟨?_, _, rfl, rfl⟩
        rintro ⟨-, hnone⟩
        cases hnone

-- ============================================================== the take

/-- `takeInto` finds the pipe empty, drops the head frame, or hands it
over. -/
theorem takeInto_cases (growth : Option Nat) (packet : ByteVector)
    (queue : Fifo Frame) :
    (queue.queue = []
      ∧ takeInto growth packet queue
        = ((packet, queue), .ok (.error .timeout)))
    ∨ ∃ data rest, queue.queue = data :: rest
      ∧ ((packet.Refuses data growth
          ∧ takeInto growth packet queue
            = ((packet, { queue with queue := rest }), .error .badAlloc))
        ∨ (¬ packet.Refuses data growth
          ∧ ∃ packet', packet'.bytes = packet.bytes ++ data
            ∧ takeInto growth packet queue
              = ((packet', { queue with queue := rest }),
                  .ok (.ok data.length)))) := by
  unfold takeInto Fifo.pop
  cases hq : queue.queue with
  | nil => exact Or.inl ⟨rfl, rfl⟩
  | cons data rest =>
      refine Or.inr ⟨data, rest, rfl, ?_⟩
      rcases packet.insert_cases data growth with
        ⟨hrefuse, heq⟩ | ⟨hroom, packet', hbytes, heq⟩
      · refine Or.inl ⟨hrefuse, ?_⟩
        simp only [heq]
      · refine Or.inr ⟨hroom, packet', hbytes, ?_⟩
        simp only [heq]

/-- What the caller finds behind the old end of its vector is what `take`
answers. -/
theorem take_of_takeInto (growth : Option Nat) (packet : ByteVector)
    (queue : Fifo Frame) :
    take (decide ¬ packet.Refuses (queue.queue.headD []) growth) queue
      = ((takeInto growth packet queue).1.2,
        (catchBadAlloc (takeInto growth packet queue).2).map fun _ =>
          (takeInto growth packet queue).1.1.bytes.drop
            packet.bytes.length) := by
  rcases takeInto_cases growth packet queue with
    ⟨hempty, heq⟩ | ⟨data, rest, hq, ⟨hrefuse, heq⟩ | ⟨hroom, v, hv, heq⟩⟩
  · rw [heq]
    simp only [take, Fifo.pop, hempty]
    rfl
  · rw [heq, hq, List.headD_cons, decide_eq_false (not_not.2 hrefuse)]
    simp only [take, Fifo.pop, hq]
    rfl
  · rw [heq, hq, List.headD_cons, decide_eq_true hroom]
    simp only [take, Fifo.pop, hq, hv, List.drop_left]
    rfl

/-- `takeRx` or `takeTx`. -/
def takePipe (growth : Option Nat) (packet : ByteVector) (l : Link) :
    Pipe → (ByteVector × Link) × Except ErrorCode Nat
  | .rx => takeRxInto growth packet l
  | .tx => takeTxInto growth packet l

/-- The link with one pipe replaced. -/
def withPipe (l : Link) (queue : Fifo Frame) : Pipe → Link
  | .rx => { l with rxQueue := queue }
  | .tx => { l with txQueue := queue }

/-- What the take of a pipe returns, with an exception turned into an
error. -/
private theorem takePipe_eq (growth : Option Nat) (packet : ByteVector)
    (l : Link)
    (p : Pipe) {queue : Fifo Frame}
    {r : Except BadAlloc (Except ErrorCode Nat)}
    (h : takeInto growth packet (l.pipe p) = ((packet', queue), r)) :
    takePipe growth packet l p
      = ((packet', l.withPipe queue p), catchBadAlloc r) := by
  cases p with
  | rx =>
      show takeRxInto growth packet l = _
      unfold takeRxInto
      rw [show takeInto growth packet l.rxQueue = _ from h]
      rfl
  | tx =>
      show takeTxInto growth packet l = _
      unfold takeTxInto
      rw [show takeInto growth packet l.txQueue = _ from h]
      rfl

private theorem withPipe_pipe_self (l : Link) (queue : Fifo Frame) (p : Pipe) :
    (l.withPipe queue p).pipe p = queue := by
  cases p with
  | rx => rfl
  | tx => rfl

private theorem withPipe_pipe_of_ne (l : Link) (queue : Fifo Frame)
    {p p' : Pipe}
    (h : p' ≠ p) : (l.withPipe queue p).pipe p' = l.pipe p' := by
  cases p with
  | rx =>
      cases p' with
      | rx => exact absurd rfl h
      | tx => rfl
  | tx =>
      cases p' with
      | rx => rfl
      | tx => exact absurd rfl h

private theorem withPipe_pipe (l : Link) (p : Pipe) :
    l.withPipe (l.pipe p) p = l := by
  cases p with
  | rx => rfl
  | tx => rfl

/-- A failed take leaves the caller's vector and the other pipe alone. A
timeout, which needs an empty pipe, leaves the link as it was. A vector
that cannot grow costs the pipe its head frame and nothing more. -/
theorem failed_take (growth : Option Nat) (packet packet' : ByteVector)
    (l l' : Link) (p : Pipe) (e : ErrorCode)
    (h : takePipe growth packet l p = ((packet', l'), .error e)) :
    packet' = packet
    ∧ (∀ p', p' ≠ p → l'.pipe p' = l.pipe p')
    ∧ ((e = .timeout ∧ (l.pipe p).queue = [] ∧ l' = l)
      ∨ (e = .linkAllocationFailed
        ∧ ∃ frame, packet.Refuses frame growth
          ∧ (l.pipe p).queue = frame :: (l'.pipe p).queue)) := by
  rcases takeInto_cases growth packet (l.pipe p) with
    ⟨hempty, heq⟩ | ⟨data, rest, hq, ⟨hrefuse, heq⟩ | ⟨-, packet'', -, heq⟩⟩
  · have htake := (takePipe_eq growth packet l p heq).symm.trans h
    rw [withPipe_pipe] at htake
    cases htake
    exact ⟨rfl, fun _ _ => rfl, Or.inl ⟨rfl, hempty, rfl⟩⟩
  · have htake := (takePipe_eq growth packet l p heq).symm.trans h
    cases htake
    refine ⟨rfl, fun p' hp => withPipe_pipe_of_ne l _ hp,
      Or.inr ⟨rfl, data, hrefuse, ?_⟩⟩
    rw [withPipe_pipe_self]
    exact hq
  · have htake := (takePipe_eq growth packet l p heq).symm.trans h
    cases htake

/-- One received frame. -/
def oneFrame : Link := { rxQueue := { queue := [[7]] } }

/-- `std::vector<std::byte>{}`. -/
def emptyVector : ByteVector := ⟨[], 0, Nat.le_refl 0⟩

private theorem oneFrame_takeRx :
    takePipe none emptyVector oneFrame .rx
      = ((emptyVector, {}), .error .linkAllocationFailed) := rfl

/-- The vector has no room for it and gets none: the frame is gone. -/
theorem not_failed_take_loses_nothing :
    ¬ ∀ (growth : Option Nat) (packet packet' : ByteVector) (l l' : Link)
        (p : Pipe) (e : ErrorCode),
      takePipe growth packet l p = ((packet', l'), .error e) →
      packet' = packet ∧ ∀ p', (l'.pipe p').queue = (l.pipe p').queue := by
  intro h
  have hsame := (h none emptyVector _ oneFrame _ .rx _ oneFrame_takeRx).2 .rx
  cases hsame

/-- The empty pipe of the same link times out; the full one drops. -/
theorem failed_take_oneFrame :
    takePipe none emptyVector oneFrame .tx
        = ((emptyVector, oneFrame), .error .timeout)
    ∧ (oneFrame.pipe .tx).queue = []
    ∧ ∃ frame, emptyVector.Refuses frame none
        ∧ (oneFrame.pipe .rx).queue = [frame] := by
  refine ⟨rfl, ?_, ?_⟩
  · rcases (failed_take none emptyVector _ oneFrame _ .tx .timeout rfl).2.2
      with ⟨-, hempty, -⟩ | ⟨he, -⟩
    · exact hempty
    · cases he
  · rcases (failed_take none emptyVector _ oneFrame _ .rx _
      oneFrame_takeRx).2.2 with ⟨he, -⟩ | ⟨-, frame, hrefuse, hq⟩
    · cases he
    · exact ⟨frame, hrefuse, hq⟩

end Link

-- ========================================================= spans and heap

namespace LinkSystem

variable {ι : Type} [DecidableEq ι] {s : LinkSystem ι}
  {owner : Ptr → Option (Owner ι)} {i : ι} {pipe : Pipe} {sp : Span}
  {rest : List Span}

/-- A popped frame is copied or not, and its block released; the pipes
stay as they are. -/
theorem insert_alone (ho : Owned owner s) {packet : Frame}
    (hi : s.pc i = .popped pipe sp packet) (alloc : Bool) :
    ∃ t, (linkSystem ι).run s [.insert i alloc, .deallocate i]
        = some (t, [(s.insert i pipe sp packet alloc).2, .silent])
      ∧ (∀ pipe', t.frames pipe' = s.frames pipe')
      ∧ t.heap sp.data = none := by
  have hpc : (s.move i (.releasing sp.data)).pc i = .releasing sp.data :=
    move_self ..
  have hinsert : s.step (.insert i alloc)
      = some (s.move i (.releasing sp.data),
          (s.insert i pipe sp packet alloc).2) := by
    unfold step
    simp only [hi]
    cases alloc with
    | false => rfl
    | true => rfl
  -- the guard frees the block whether insert threw or not
  have hfree : (s.move i (.releasing sp.data)).step (.deallocate i)
      = some (((s.move i (.releasing sp.data)).poke sp.data none).move i
          .idle, .silent) := by
    unfold step
    simp only [hpc]
  refine ⟨((s.move i (.releasing sp.data)).poke sp.data none).move i .idle,
    ?_, ?_, ?_⟩
  · exact (linkSystem ι).run_of_step hinsert
      ((linkSystem ι).run_of_step hfree rfl)
  · intro pipe'
    have hcontents : (((s.move i (.releasing sp.data)).poke sp.data
        none).move i .idle).contents pipe' = s.contents pipe' :=
      contents_eq (s := s.move i (.releasing sp.data)) rfl
        fun sp' hsp => (ho.release hi).load_free hpc hsp
    exact congrArg (Fifo.mk · _) hcontents
  · exact poke_self ..

/-- A take from a pipe that holds something, with nobody between its
steps, is `takeInto` on the frames, and frees the popped block. -/
theorem take_alone (ho : Owned owner s) (hi : s.pc i = .idle)
    (hq : (s.queue pipe).queue = sp :: rest) (growth : Option Nat)
    (packet packet' : Link.ByteVector) (queue : Fifo Frame)
    (r : Except Link.BadAlloc (Except ErrorCode Nat))
    (htake : Link.takeInto growth packet (s.frames pipe)
      = ((packet', queue), r)) :
    ∃ t, (linkSystem ι).run s
        [.take i pipe packet.bytes,
          .insert i (decide ¬ packet.Refuses (s.load sp) growth),
          .deallocate i]
        = some (t, [.popped i pipe,
            .took i pipe packet.bytes packet'.bytes (Link.catchBadAlloc r),
            .silent])
      ∧ t.frames pipe = queue
      ∧ (∀ pipe', pipe' ≠ pipe → t.frames pipe' = s.frames pipe')
      ∧ t.heap sp.data = none := by
  have hsize : (s.load sp).length = sp.size :=
    ho.filled (hq ▸ List.mem_cons_self ..)
  have hframes : (s.frames pipe).queue = s.load sp :: rest.map s.load := by
    show (s.queue pipe).queue.map s.load = _
    rw [hq, List.map_cons]
  have hpop : (linkSystem ι).step s (.take i pipe packet.bytes)
      = some ((s.withQueue pipe { s.queue pipe with queue := rest }).move i
          (.popped pipe sp packet.bytes), .popped i pipe) := by
    show s.step (.take i pipe packet.bytes) = _
    unfold step
    simp only [hi, LinkSystem.take, Fifo.pop, hq]
  obtain ⟨t, hrun, hsame, hfree⟩ := insert_alone
    (ho.dequeue (i := i) hq (q := { s.queue pipe with queue := rest }) rfl
      packet.bytes)
    (move_self ..) (decide ¬ packet.Refuses (s.load sp) growth)
  have hother : ∀ pipe', pipe' ≠ pipe → t.frames pipe' = s.frames pipe' := by
    intro pipe' hne
    rw [hsame, frames_withQueue_of_ne s hne]
  -- the span was there, so the empty case is void; then vector.insert
  -- throws or it appends
  rcases Link.takeInto_cases growth packet (s.frames pipe) with
    ⟨hempty, -⟩ | ⟨data, rest', hdata, hcases⟩
  · cases hframes.symm.trans hempty
  · cases hframes.symm.trans hdata
    have hself := frames_withQueue_self s pipe
      { s.queue pipe with queue := rest } i (.popped pipe sp packet.bytes)
    rcases hcases with ⟨hrefuse, heq⟩ | ⟨hroom, packet'', hbytes, heq⟩
    · cases heq.symm.trans htake
      refine ⟨t, ?_, (hsame pipe).trans hself, hother, hfree⟩
      rw [(linkSystem ι).run_of_step hpop hrun,
        decide_eq_false (not_not.2 hrefuse)]
      rfl
    · cases heq.symm.trans htake
      refine ⟨t, ?_, (hsame pipe).trans hself, hother, hfree⟩
      rw [(linkSystem ι).run_of_step hpop hrun, decide_eq_true hroom,
        hbytes, hsize]
      rfl

end LinkSystem

end Vnic
