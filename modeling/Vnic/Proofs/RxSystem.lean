/-
What holds over every sequence of calls on one `RxQueue`.

# Conservation

`Accounted` is kept by every call, so the live counter is always the
number of chain segments in `used_` and in the hands of the application,
whatever the order of `free`, `stop` and `start`.

# Restart

`start` fills `free_` by pushing `config_.size` descriptors, and neither
`configure` nor `start` empties the FIFOs first. So a start succeeds into
a fresh queue exactly when both FIFOs are empty (`restarts_iff`), and
`stop` empties them; but `free` is not gated by the lifecycle state, and
a descriptor returned between `stop` and the next `start` is found in
`free_` by that start. What a call can do to the lifecycle state and the
two FIFOs is said once, in `step_moves`.
-/
import Vnic.Proofs.Ownership
import Vnic.RxSystem

namespace Vnic

variable {m m' : Memory} {q q' : RxQueue}

-- ============================================================== frames

namespace RxQueue

/-- The parts of a queue that only the lifecycle calls change. -/
structure SameSetup (q q' : RxQueue) : Prop where
  state : q'.state = q.state
  config : q'.config = q.config
  freeConfig : q'.free_.config = q.free_.config
  usedConfig : q'.used_.config = q.used_.config

/-- `put` changes neither state nor configuration. -/
theorem put_setup (malloc : Malloc) (desc : PacketDescriptor)
    (packet : Frame) {r : Res}
    (heq : put malloc desc packet (m, q) = ((m', q'), r)) :
    SameSetup q q' := by
  rcases put_cases malloc desc packet m q with
    ⟨ps, m₁, q₁, hput, hp⟩ | ⟨e, m₁, q₁, hput, hr⟩
  · rw [hput] at heq
    cases heq
    rw [hp.queue]
    exact ⟨rfl, rfl, rfl, rfl⟩
  · rw [hput] at heq
    cases heq
    refine ⟨hr.state, hr.config, ?_, by rw [hr.used]⟩
    rcases hr.free with h | ⟨slot, rest, -, h⟩
    · rw [h]
    · rw [h, Fifo.push_config]

/-- What `free` leaves alone, whatever it is given. -/
theorem free_frame (ds : List PacketDescriptor) (m : Memory)
    (q : RxQueue) :
    (free ds (m, q)).1.2
      = { q with
          memPool := (releaseAll ds (m, q.memPool)).2
          free_ := (q.free_.pushAll ds).1 } := by
  unfold free
  simp only
  cases hpush : q.free_.pushAll ds with
  | mk f r =>
      cases r with
      | ok _ => rfl
      | error _ => rfl

-- =============================================================== sized

/-- A configured queue has both FIFOs bounded by its size. -/
structure Sized (q : RxQueue) : Prop where
  pos : 0 < q.config.size.toNat
  caps : q.state = .configured ∨ q.state = .started →
    q.free_.config.capacity = q.config.size.toNat
      ∧ q.used_.config.capacity = q.config.size.toNat

private theorem Config.isValid_iff {c : Config} :
    c.isValid = true ↔ 0 < c.size.toNat := by
  unfold Config.isValid
  rw [decide_eq_true_eq, UInt32.lt_iff_toNat_lt]
  exact Iff.rfl

private theorem Sized.default : Sized {} :=
  ⟨by decide, fun h => by rcases h with h | h <;> cases h⟩

private theorem Sized.of_setup (h : Sized q) (hs : SameSetup q q') : Sized q'
    := by
  refine ⟨by rw [hs.config]; exact h.pos, fun hst => ?_⟩
  rw [hs.config, hs.freeConfig, hs.usedConfig]
  rw [hs.state] at hst
  exact h.caps hst

/-- A `configure` that succeeds sets both capacities to the new size. -/
theorem Sized.configure (h : Sized q) (config : Config) :
    Sized (configure config q).1 := by
  rcases configure_cases config q with
    ⟨-, heq⟩ | ⟨-, hv, heq⟩ | ⟨-, -, heq⟩
  · rw [heq]
    exact h
  · rw [heq]
    exact ⟨Config.isValid_iff.1 hv, fun _ => ⟨rfl, rfl⟩⟩
  · rw [heq]
    exact ⟨h.pos, fun hst => by rcases hst with h | h <;> cases h⟩

/-- `startImpl` runs on a queue whose FIFOs are bounded by the size. -/
theorem Ready.caps {q₀ : RxQueue} (hr : Ready q q₀) (h : Sized q) :
    q₀.free_.config.capacity = q.config.size.toNat
      ∧ q₀.used_.config.capacity = q.config.size.toNat := by
  cases hr with
  | configured hc => exact h.caps (Or.inl hc)
  | stopped _ _ => exact ⟨rfl, rfl⟩

/-- `start` leaves the sizes alone. -/
theorem Sized.startOr (h : Sized q) (inject : Option ErrorCode) {r : Res}
    (heq : startOr inject (m, q) = ((m', q'), r)) : Sized q' := by
  rcases startOr_cases inject m q with
    ⟨-, -, hs⟩ | ⟨-, -, hs⟩ | ⟨q₀, hr, -, -, hs⟩ | ⟨q₀, e, hr, -, hs⟩
  · rw [hs] at heq
    cases heq
    exact h
  · rw [hs] at heq
    cases heq
    exact ⟨h.pos, fun hst => by rcases hst with h | h <;> cases h⟩
  · rw [hs] at heq
    cases heq
    refine ⟨?_, fun _ => ?_⟩
    · show 0 < q₀.config.size.toNat
      rw [hr.same.2.1]
      exact h.pos
    · show (startLoop q₀.config.size.toNat q₀.free_).1.config.capacity
        = q₀.config.size.toNat
        ∧ q₀.used_.config.capacity = q₀.config.size.toNat
      rw [startLoop_config, hr.same.2.1]
      exact hr.caps h
  · rw [hs] at heq
    cases heq
    refine ⟨?_, fun hst => by rcases hst with h | h <;> cases h⟩
    show 0 < q₀.config.size.toNat
    rw [hr.same.2.1]
    exact h.pos

/-- So does `stop`. -/
theorem Sized.stop (h : Sized q) {r : Res}
    (heq : stop (m, q) = ((m', q'), r)) : Sized q' := by
  rcases stop_cases m q with ⟨-, hs⟩ | ⟨-, hs⟩
  · rw [hs] at heq
    cases heq
    exact h
  · rw [hs] at heq
    cases heq
    exact ⟨h.pos, fun hst => by rcases hst with h | h <;> cases h⟩

end RxQueue

-- ============================================================== system

namespace RxSystem

variable {s t : RxSystem} {a : Op} {e : Event}

/-- What a `free` that is enabled does. -/
theorem step_free {ns : List Nat} (h : s.step (.free ns) = some (t, e)) :
    ∃ ds held, s.held.redeem ns = some (ds, held)
      ∧ t = { s.withPair (RxQueue.free ds s.pair).1 with held := held }
      ∧ e = .free ds (RxQueue.free ds s.pair).2 := by
  unfold step at h
  cases hr : s.held.redeem ns with
  | none => simp [hr] at h
  | some p =>
      obtain ⟨ds, held⟩ := p
      simp only [hr, Option.some.injEq, Prod.mk.injEq] at h
      exact ⟨ds, held, rfl, h.1.symm, h.2.symm⟩

/-- The invariant of one queue in use. -/
structure Inv (s : RxSystem) : Prop where
  accounted : Accounted s.mem s.queue s.held.values
  sized : s.queue.Sized

theorem Inv.init (blocks : Blocks) : Inv (init blocks) :=
  ⟨⟨Linked.Separate.nil, rfl, rfl⟩, RxQueue.Sized.default⟩

/-- Every call keeps the invariant. -/
theorem Inv.step (hi : Inv s) (h : s.step a = some (t, e)) : Inv t := by
  cases a with
  | configure config =>
      cases h
      exact ⟨RxQueue.configure_accounted config hi.accounted,
        hi.sized.configure config⟩
  | start =>
      cases h
      exact ⟨RxQueue.startOr_accounted none hi.accounted rfl,
        hi.sized.startOr none rfl⟩
  | stop =>
      cases h
      exact ⟨RxQueue.stop_accounted hi.accounted rfl, hi.sized.stop rfl⟩
  | put malloc desc packet =>
      cases h
      exact ⟨RxQueue.put_accounted malloc desc packet hi.accounted rfl,
        hi.sized.of_setup (RxQueue.put_setup malloc desc packet rfl)⟩
  | take =>
      cases h
      refine ⟨hi.accounted.of_perm ?_ rfl,
        hi.sized.of_setup ⟨rfl, rfl, rfl, rfl⟩⟩
      show (s.queue.used_.queue ++ s.held.values).Perm
        (s.queue.used_.queue.drop kMaxSegments
          ++ (s.held.issue (s.queue.used_.queue.take kMaxSegments)).values)
      rw [Ledger.issue_values]
      -- take moves the descriptors from used_ to the hands of the
      -- application
      have hsplit : s.queue.used_.queue.Perm
          (s.queue.used_.queue.drop kMaxSegments
            ++ s.queue.used_.queue.take kMaxSegments) := by
        refine List.Perm.trans ?_ List.perm_append_comm
        rw [List.take_append_drop]
      apply (hsplit.append_right _).trans
      rw [List.append_assoc]
      exact List.perm_append_comm.append_left _
  | free ns =>
      obtain ⟨ds, held, hr, rfl, -⟩ := step_free h
      refine ⟨RxQueue.free_accounted hi.accounted
        (Ledger.redeem_perm_append hr _), hi.sized.of_setup ?_⟩
      show RxQueue.SameSetup s.queue (RxQueue.free ds (s.mem, s.queue)).1.2
      rw [RxQueue.free_frame]
      exact ⟨rfl, rfl, Fifo.pushAll_config _ _, rfl⟩

/-- The queue after any calls whatever is in order. -/
theorem Inv.run {blocks : Blocks} {as : List Op} {es : List Event}
    (h : rxSystem.run (RxSystem.init blocks) as = some (s, es)) : Inv s :=
  rxSystem.run_invariant (fun hi hs => hi.step hs) (Inv.init blocks) h

-- ======================================================== conservation

/-- A call that only takes or gives back. -/
def Op.IsReturn : Op → Prop
  | .take => True
  | .free _ => True
  | _ => False

/-- Takes and frees leave an empty `used_` empty. -/
theorem used_nil_of_returns {as : List Op} {es : List Event}
    (ha : ∀ a ∈ as, a.IsReturn) (hrun : rxSystem.run s as = some (t, es))
    (hs : s.queue.used_.queue = []) : t.queue.used_.queue = [] := by
  refine rxSystem.run_invariant_along
    (G := fun _ a _ => a.IsReturn)
    (I := fun s => s.queue.used_.queue = []) ?_
    (rxSystem.along_of_forall ha s) hs hrun
  intro s s₁ a e hs hstep hret
  cases a with
  | take =>
      cases hstep
      show s.queue.used_.queue.drop kMaxSegments = []
      rw [hs, List.drop_nil]
  | free ns =>
      obtain ⟨ds, held, -, rfl, -⟩ := step_free hstep
      show (RxQueue.free ds (s.mem, s.queue)).1.2.used_.queue = []
      rw [RxQueue.free_frame]
      exact hs
  | configure config => exact absurd hret id
  | start => exact absurd hret id
  | stop => exact absurd hret id
  | put malloc desc packet => exact absurd hret id

/-- Over any sequence of calls, the live counter is the number of chain
segments of the descriptors in `used_` and in the hands of the
application; those chains are live and disjoint, no bad release, bad
store or underflow ever happened; and once the queue was stopped and
every taken descriptor returned, the counter is zero. -/
theorem liveBlocks_eq_segments {blocks : Blocks} {as : List Op}
    {es : List Event}
    (hrun : rxSystem.run (RxSystem.init blocks) as = some (s, es)) :
    s.queue.memPool.liveBlocks
        = (s.mem.segmentsOf s.queue.used_.queue).length
          + (s.mem.segmentsOf s.held.values).length
      ∧ Owners s.mem (s.queue.used_.queue ++ s.held.values)
      ∧ s.mem.faults = []
      ∧ ∀ {s₁ t : RxSystem} {bs : List Op} {fs : List Event},
          rxSystem.step s .stop = some (s₁, .stop (.ok ())) →
          (∀ b ∈ bs, b.IsReturn) → rxSystem.run s₁ bs = some (t, fs) →
          t.held.values = [] → t.queue.memPool.liveBlocks = 0 := by
  have hi := Inv.run hrun
  refine ⟨?_, hi.accounted.owners, hi.accounted.faults, ?_⟩
  · rw [Pool.liveBlocks, hi.accounted.live, Memory.segmentsOf_append,
      List.length_append]
  · intro s₁ t bs fs hstop hbs hrun' hnone
    -- after stop() used_ is empty and stays so, the returns being all that
    -- follows
    have hi₁ : Inv s₁ := hi.step (a := .stop) hstop
    have hit : Inv t :=
      rxSystem.run_invariant (fun hi hs => hi.step hs) hi₁ hrun'
    have hused₁ : s₁.queue.used_.queue = [] := by
      simp only [rxSystem, RxSystem.step, Option.some.injEq, Prod.mk.injEq,
        Event.stop.injEq] at hstop
      obtain ⟨rfl, hok⟩ := hstop
      rcases RxQueue.stop_cases s.mem s.queue with ⟨-, heq⟩ | ⟨-, heq⟩
      · rw [pair, heq] at hok
        cases hok
      · show (RxQueue.stop (s.mem, s.queue)).1.2.used_.queue = []
        rw [heq]
        rfl
    have hused := used_nil_of_returns hbs hrun' hused₁
    rw [Pool.liveBlocks, hit.accounted.live, hused, hnone]
    rfl

/-- One packet received and taken, the queue stopped under it. -/
def stoppedUnderHeld : List Op :=
  [.configure { size := 1 }, .start, .put .bump {} [7], .take, .stop]

/-- The held block outlives `stop` and is counted. -/
theorem liveBlocks_eq_segments_stoppedUnderHeld :
    ∃ s es, rxSystem.run (RxSystem.init ∅) stoppedUnderHeld = some (s, es)
      ∧ s.held.values.length = 1 ∧ s.queue.memPool.liveBlocks = 1
      ∧ (s.mem.segmentsOf s.held.values).length = 1
      ∧ s.mem.faults = [] := by
  have hsome : (rxSystem.run (RxSystem.init ∅) stoppedUnderHeld).map
      (fun p => (p.1.held.values.length, p.1.queue.memPool.liveBlocks,
        (p.1.mem.segmentsOf p.1.queue.used_.queue).length))
        = some (1, 1, 0) := by decide
  obtain ⟨⟨s, es⟩, hrun, hval⟩ := Option.map_eq_some_iff.1 hsome
  simp only [Prod.mk.injEq] at hval
  obtain ⟨hlive, -, hfaults, -⟩ := liveBlocks_eq_segments hrun
  refine ⟨s, es, hrun, hval.1, hval.2.1, ?_, hfaults⟩
  omega

-- ============================================================= restart

/-- `start()` succeeds into a fresh queue: every slot free, none used. -/
def Restarts (p : Memory × RxQueue) : Prop :=
  (RxQueue.start p).2 = .ok ()
    ∧ (RxQueue.start p).1.2.free_.queue.length
        = (RxQueue.start p).1.2.config.size.toNat
    ∧ (RxQueue.start p).1.2.used_.queue = []

/-- A start from `Stopped` or `Configured` works as documented exactly
when it finds both FIFOs empty. -/
theorem restarts_iff (hq : q.Sized)
    (hst : q.state = .stopped ∨ q.state = .configured) :
    Restarts (m, q) ↔ q.free_.queue = [] ∧ q.used_.queue = [] := by
  unfold Restarts RxQueue.start
  rcases RxQueue.startOr_cases none m q with
    ⟨hs, hc, -⟩ | ⟨-, hv, -⟩ | ⟨q₀, hr, -, hok, heq⟩ | ⟨q₀, e, hr, hfail, heq⟩
  · exact absurd hst (not_or.2 ⟨hs, hc⟩)
  · rw [RxQueue.Config.isValid_iff.2 hq.pos] at hv
    cases hv
  · obtain ⟨-, hcfg, -, hfree, hused, -⟩ := hr.same
    have hcap := (hr.caps hq).1
    rw [heq]
    constructor
    · rintro ⟨-, -, hnone⟩
      refine ⟨?_, hused ▸ hnone⟩
      -- a descriptor left in `free_` would have made the loop fail
      by_contra hne
      have hpos : 0 < q.free_.queue.length := List.length_pos_iff.2 hne
      have := RxQueue.startLoop_of_full q₀.config.size.toNat q₀.free_
        (by rw [hcap]; have := hq.pos; omega)
        (by rw [hcap, hcfg, hfree]; omega)
      rcases this with herr | h0
      · rw [hok] at herr
        cases herr
      · rw [hcfg] at h0
        have := hq.pos
        omega
    · rintro ⟨hf, hu⟩
      refine ⟨rfl, ?_, hused.trans hu⟩
      rw [RxQueue.startLoop_of_room _ _
        (by rw [hcap, hcfg, hfree, hf]; simp)]
      simp [hfree, hf]
  · obtain ⟨-, hcfg, -, hfree, -, -⟩ := hr.same
    rw [heq]
    constructor
    · rintro ⟨hok, -⟩
      cases hok
    · rintro ⟨hf, -⟩
      rcases hfail with h | ⟨-, herr⟩
      · cases h
      · rw [RxQueue.startLoop_of_room _ _
          (by rw [(hr.caps hq).1, hcfg, hfree, hf]; simp)] at herr
        cases herr

/-- What one call does to the lifecycle state and the two FIFOs. -/
inductive Moves (s : RxSystem) : Op → RxQueue → Prop
  | keep {a : Op} {q : RxQueue} (hstate : q.state = s.queue.state)
      (hfree : q.free_ = s.queue.free_) (hused : q.used_ = s.queue.used_) :
      Moves s a q
  /-- `configure`, or a `start` that never got to run. -/
  | settle {a : Op} {q : RxQueue} (hs : s.queue.state ≠ .started)
      (ht : q.state ≠ .started)
      (hfree : q.free_.queue = s.queue.free_.queue)
      (hused : q.used_.queue = s.queue.used_.queue) : Moves s a q
  /-- A `start` whose fill loop got through. -/
  | fill {a : Op} {q : RxQueue} {f : Fifo PacketDescriptor}
      (ht : q.state = .started)
      (hok : (RxQueue.startLoop s.queue.config.size.toNat f).2 = .ok ())
      (hfree : q.free_ = (RxQueue.startLoop s.queue.config.size.toNat f).1)
      (hf : f.queue = s.queue.free_.queue) : Moves s a q
  /-- A drained queue. -/
  | empty {a : Op} {q : RxQueue} (ht : q.state ≠ .started)
      (hfree : q.free_.queue = []) (hused : q.used_.queue = []) : Moves s a q
  | publish {a : Op} {q : RxQueue} {slot : PacketDescriptor}
      {rest : List PacketDescriptor} (hstate : q.state = s.queue.state)
      (hq : s.queue.free_.queue = slot :: rest)
      (hfree : q.free_ = { s.queue.free_ with queue := rest }) : Moves s a q
  /-- A `put` that gave its slot back. -/
  | undo {a : Op} {q : RxQueue} {slot : PacketDescriptor}
      {rest : List PacketDescriptor} (hstate : q.state = s.queue.state)
      (hq : s.queue.free_.queue = slot :: rest)
      (hfree : q.free_
        = (Fifo.push { s.queue.free_ with queue := rest } slot).1)
      (hused : q.used_ = s.queue.used_) : Moves s a q
  | take {a : Op} {q : RxQueue} (hstate : q.state = s.queue.state)
      (hfree : q.free_ = s.queue.free_)
      (hused : q.used_.queue = s.queue.used_.queue.drop kMaxSegments) :
      Moves s a q
  | free {q : RxQueue} {ns : List Nat} {ds : List PacketDescriptor}
      {held : Ledger PacketDescriptor}
      (hr : s.held.redeem ns = some (ds, held))
      (hstate : q.state = s.queue.state)
      (hfree : q.free_ = (s.queue.free_.pushAll ds).1)
      (hused : q.used_ = s.queue.used_) : Moves s (.free ns) q

/-- Every call is one of the moves. -/
theorem step_moves (h : s.step a = some (t, e)) : Moves s a t.queue := by
  -- one move per call of the queue; a refused call keeps everything
  cases a with
  | configure config =>
      cases h
      show Moves s _ (RxQueue.configure config s.queue).1
      rcases RxQueue.configure_cases config s.queue with
        ⟨-, heq⟩ | ⟨hc, -, heq⟩ | ⟨hc, -, heq⟩
      · rw [heq]
        exact .keep rfl rfl rfl
      · rw [heq]
        exact .settle hc.ne_started nofun rfl rfl
      · rw [heq]
        exact .settle hc.ne_started nofun rfl rfl
  | start =>
      cases h
      show Moves s _ (RxQueue.startOr none (s.mem, s.queue)).1.2
      rcases RxQueue.startOr_cases none s.mem s.queue with
        ⟨-, -, heq⟩ | ⟨hs, -, heq⟩ | ⟨q₀, hr, -, hok, heq⟩ | ⟨q₀, e, -, -, heq⟩
      · rw [heq]
        exact .keep rfl rfl rfl
      · rw [heq]
        refine .settle ?_ nofun rfl rfl
        rw [hs]
        exact nofun
      · obtain ⟨-, hcfg, -, hfree, -, -⟩ := hr.same
        rw [heq]
        rw [hcfg] at hok ⊢
        exact .fill rfl hok rfl hfree
      · rw [heq]
        exact .empty nofun rfl rfl
  | stop =>
      cases h
      show Moves s _ (RxQueue.stop (s.mem, s.queue)).1.2
      rcases RxQueue.stop_cases s.mem s.queue with ⟨-, heq⟩ | ⟨-, heq⟩
      · rw [heq]
        exact .keep rfl rfl rfl
      · rw [heq]
        exact .empty nofun rfl rfl
  | put malloc desc packet =>
      cases h
      show Moves s _ (RxQueue.put malloc desc packet (s.mem, s.queue)).1.2
      rcases RxQueue.put_cases malloc desc packet s.mem s.queue with
        ⟨ps, m₁, q₁, hput, hp⟩ | ⟨e, m₁, q₁, hput, hr⟩
      · obtain ⟨slot, rest, hq⟩ := List.exists_cons_of_ne_nil hp.slot
        rw [hput, hp.queue]
        refine .publish rfl hq ?_
        show { s.queue.free_ with queue := s.queue.free_.queue.tail } = _
        rw [hq]
        rfl
      · rw [hput]
        rcases hr.free with hfree | ⟨slot, rest, hq, hfree⟩
        · exact .keep hr.state hfree hr.used
        · exact .undo hr.state hq hfree hr.used
  | take =>
      cases h
      exact .take rfl rfl rfl
  | free ns =>
      obtain ⟨ds, held, hr, rfl, -⟩ := step_free h
      show Moves s _ (RxQueue.free ds (s.mem, s.queue)).1.2
      rw [RxQueue.free_frame]
      exact .free hr rfl rfl rfl

/-- The guard under which restarts work: a descriptor is given back only
while the queue is started. -/
def FreesWhileStarted (s : RxSystem) : Op → Prop
  | .free ns => ns = [] ∨ s.queue.state = .started
  | _ => True

/-- Outside a started period the queue is empty. -/
def EmptyUnlessStarted (s : RxSystem) : Prop :=
  s.queue.state ≠ .started →
    s.queue.free_.queue = [] ∧ s.queue.used_.queue = []

/-- Only a late `free` puts a descriptor into a stopped queue. -/
theorem EmptyUnlessStarted.step (hi : EmptyUnlessStarted s)
    (h : s.step a = some (t, e)) (hg : FreesWhileStarted s a) :
    EmptyUnlessStarted t := by
  intro hne
  -- the moves that leave something behind need a started queue, or a slot
  -- that is not there
  cases step_moves h with
  | keep hstate hfree hused =>
      rw [hfree, hused]
      exact hi (hstate ▸ hne)
  | settle hs _ hfree hused =>
      rw [hfree, hused]
      exact hi hs
  | fill ht _ _ _ => exact absurd ht hne
  | empty _ hfree hused => exact ⟨hfree, hused⟩
  | publish hstate hq _ =>
      cases (hi (hstate ▸ hne)).1.symm.trans hq
  | undo hstate hq _ _ =>
      cases (hi (hstate ▸ hne)).1.symm.trans hq
  | take hstate hfree hused =>
      obtain ⟨hf, hu⟩ := hi (hstate ▸ hne)
      rw [hfree, hused, hu, List.drop_nil]
      exact ⟨hf, rfl⟩
  | free hr hstate hfree hused =>
      have hst := hstate ▸ hne
      have hnil := hg.resolve_right hst
      subst hnil
      cases hr
      rw [hfree, hused]
      exact hi hst

/-- After any sequence of calls, a start issued in `Stopped` or
`Configured` works as documented exactly when both FIFOs are empty; and
they are whenever descriptors were only given back while the queue was
started. -/
theorem restart_iff_empty {blocks : Blocks} {as : List Op}
    {es : List Event}
    (hrun : rxSystem.run (RxSystem.init blocks) as = some (s, es))
    (hst : s.queue.state = .stopped ∨ s.queue.state = .configured) :
    (Restarts s.pair
      ↔ s.queue.free_.queue = [] ∧ s.queue.used_.queue = [])
    ∧ (rxSystem.Along (fun s a _ => FreesWhileStarted s a)
        (RxSystem.init blocks) as → Restarts s.pair) := by
  have hiff := restarts_iff (m := s.mem) (Inv.run hrun).sized hst
  refine ⟨hiff, fun hguard => hiff.2 ?_⟩
  have hempty : EmptyUnlessStarted s :=
    rxSystem.run_invariant_along
      (fun hi hs hg => EmptyUnlessStarted.step hi hs hg) hguard
      (fun _ => ⟨rfl, rfl⟩) hrun
  exact hempty (by rcases hst with h | h <;> (rw [h]; decide))

/-- A whole period with the descriptor returned in time. -/
def returnedInTime : List Op :=
  [.configure { size := 1 }, .start, .put .bump {} [7], .take, .free [0],
    .stop]

/-- Returned in time, the descriptor is gone with the drain and the queue
restarts. -/
theorem restart_iff_empty_returnedInTime :
    ∃ s es, rxSystem.run (RxSystem.init ∅) returnedInTime = some (s, es)
      ∧ s.queue.state = .stopped ∧ Restarts s.pair := by
  have hsome : (rxSystem.run (RxSystem.init ∅) returnedInTime).map
      (fun p => (p.1.queue.state, p.1.queue.free_.queue,
        p.1.queue.used_.queue)) = some (.stopped, [], []) := by decide
  obtain ⟨⟨s, es⟩, hrun, hval⟩ := Option.map_eq_some_iff.1 hsome
  simp only [Prod.mk.injEq] at hval
  exact ⟨s, es, hrun, hval.1,
    (restart_iff_empty hrun (Or.inl hval.1)).1.2 hval.2⟩

/-- The same period with the descriptor returned after the stop. -/
def returnedLate : List Op :=
  [.configure { size := 1 }, .start, .put .bump {} [7], .take, .stop,
    .free [0]]

/-- The late return is found in `free_`: the next start refuses. -/
theorem not_restarts_returnedLate :
    ¬ ∀ (blocks : Blocks) (as : List Op) (s : RxSystem) (es : List Event),
        (∀ config, Op.configure config ∈ as → config.isValid = true) →
        rxSystem.run (RxSystem.init blocks) as = some (s, es) →
        s.queue.state = .stopped ∨ s.queue.state = .configured →
        Restarts s.pair := by
  intro hall
  have hvalid : ∀ config, Op.configure config ∈ returnedLate →
      config.isValid = true := by
    intro config hmem
    simp only [returnedLate, List.mem_cons, Op.configure.injEq, reduceCtorEq,
      List.not_mem_nil, or_false] at hmem
    rw [hmem]
    decide
  have hsome : (rxSystem.run (RxSystem.init ∅) returnedLate).map
      (fun p => (p.1.queue.state, (RxQueue.start p.1.pair).2))
        = some (.stopped, .error .queueFull) := by decide
  obtain ⟨⟨s, es⟩, hrun, hval⟩ := Option.map_eq_some_iff.1 hsome
  simp only [Prod.mk.injEq] at hval
  have hok := (hall ∅ returnedLate s es hvalid hrun (Or.inl hval.1)).1
  rw [hval.2] at hok
  cases hok

end RxSystem

end Vnic
