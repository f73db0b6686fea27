/-
How many frames a pipe of a link can hold.

The depth stands in two places: `config_`, and the capacity of the pipe's
queue. A successful `configure` sets both, and between two such calls
neither changes, so from the first one on a pipe grows only while it is
below its depth. But `reserve` is a logical reservation: a smaller depth
does not remove the frames that are queued already (`not_within_shrunk`).

# One step, one pipe

`Touched` lists what a call can do to a pipe: nothing, one frame more
where there was room, or one frame less. `Within` is kept by each of
these, and only a successful `configure` starts it anew, from whatever
the pipe holds then; hence the maximum in its bound.
-/
import Vnic.LinkSystem

namespace Vnic

variable {q q' : Fifo Frame}

/-- What one call does to a pipe: nothing, one more frame where there is
room, or one frame less. -/
inductive Fifo.Touched (q : Fifo Frame) : Fifo Frame → Prop
  | same : Touched q q
  | pushed (frame : Frame) (hroom : q.isFullLocked = false) :
      Touched q { q with queue := q.queue ++ [frame] }
  | popped (frame : Frame) (rest : List Frame)
      (hq : q.queue = frame :: rest) : Touched q { q with queue := rest }

/-- A call on a queue leaves its capacity. -/
theorem Fifo.Touched.config (h : q.Touched q') : q'.config = q.config := by
  cases h with
  | same => rfl
  | pushed frame hroom => rfl
  | popped frame rest hq => rfl

/-- A queue grows by one element at a time, and only where there was room. -/
theorem Fifo.Touched.length (h : q.Touched q') :
    q'.queue.length ≤ q.queue.length
    ∨ (q.isFullLocked = false
      ∧ q'.queue.length = q.queue.length + 1) := by
  cases h with
  | same => exact Or.inl (Nat.le_refl _)
  | pushed frame hroom =>
      refine Or.inr ⟨hroom, ?_⟩
      rw [List.length_append, List.length_singleton]
  | popped frame rest hq =>
      refine Or.inl ?_
      rw [hq, List.length_cons]
      exact Nat.le_succ _

namespace Link

/-- `put` pushes once at most. -/
private theorem put_touched (alloc : Bool) (packet : Frame) (q : Fifo Frame)
    (fullError : ErrorCode) :
    q.Touched (put alloc packet q fullError).1 := by
  rcases put_cases alloc packet q fullError with
    ⟨e, heq⟩ | ⟨-, -, hroom, heq⟩
  · rw [heq]
    exact .same
  · rw [heq]
    exact .pushed packet hroom

/-- `take` pops once at most. -/
private theorem take_touched (alloc : Bool) (q : Fifo Frame) :
    q.Touched (take alloc q).1 := by
  rcases take_cases alloc q with
    ⟨-, heq⟩ | ⟨frame, rest, hq, ⟨-, heq⟩ | ⟨-, heq⟩⟩
  · rw [heq]
    exact .same
  · rw [heq]
    exact .popped frame rest hq
  · rw [heq]
    exact .popped frame rest hq

/-- One of the two pipes. -/
def pipe (l : Link) : Pipe → Fifo Frame
  | .rx => l.rxQueue
  | .tx => l.txQueue

/-- The configured depth of a pipe. -/
def Config.depth (c : Config) : Pipe → Nat
  | .rx => c.rxQueueDepth.toNat
  | .tx => c.txQueueDepth.toNat

variable {l l' : Link} {op : Op} {e : Event} {c : Config}

private theorem step_configure (c : Config) (l : Link) :
    l.step (.configure c)
      = some ((l.configure c).1, .configure (l.configure c).2) := rfl

/-- A call that does not configure the link touches its pipes. -/
theorem step_touched (hstep : l.step op = some (l', e))
    (he : e ≠ .configure (.ok ())) :
    l'.config = l.config ∧ ∀ p, (l.pipe p).Touched (l'.pipe p) := by
  -- putRx and takeRx touch the RX pipe alone, putTx and takeTx the TX
  -- pipe; up and down touch neither
  cases op with
  | configure c =>
      rw [step_configure] at hstep
      rcases configure_cases c l with ⟨-, heq⟩ | ⟨code, heq⟩
      · rw [heq] at hstep
        cases hstep
        exact absurd rfl he
      · rw [heq] at hstep
        cases hstep
        exact ⟨rfl, fun _ => .same⟩
  | putRx alloc packet =>
      cases hstep
      refine ⟨rfl, fun p => ?_⟩
      cases p with
      | rx => exact put_touched alloc packet l.rxQueue _
      | tx => exact .same
  | takeRx alloc =>
      cases hstep
      refine ⟨rfl, fun p => ?_⟩
      cases p with
      | rx => exact take_touched alloc l.rxQueue
      | tx => exact .same
  | putTx alloc packet =>
      cases hstep
      refine ⟨rfl, fun p => ?_⟩
      cases p with
      | rx => exact .same
      | tx => exact put_touched alloc packet l.txQueue _
  | takeTx alloc =>
      cases hstep
      refine ⟨rfl, fun p => ?_⟩
      cases p with
      | rx => exact .same
      | tx => exact take_touched alloc l.txQueue
  | up =>
      cases hstep
      exact ⟨rfl, fun _ => .same⟩
  | down =>
      cases hstep
      exact ⟨rfl, fun _ => .same⟩

/-- A pipe whose capacity is its configured depth, and that holds no more
than that or than it held to begin with. -/
structure Within (held : Pipe → Nat) (l : Link) : Prop where
  capacity : ∀ p, (l.pipe p).config.capacity = l.config.depth p
  pos : ∀ p, l.config.depth p ≠ 0
  length : ∀ p, (l.pipe p).queue.length ≤ max (l.config.depth p) (held p)

/-- Where there is room there is room for one more. -/
theorem Within.room {held : Pipe → Nat} (h : Within held l) {p : Pipe}
    (hroom : (l.pipe p).isFullLocked = false) :
    (l.pipe p).queue.length + 1 ≤ l.config.depth p := by
  have hcap := h.capacity p
  have hpos := h.pos p
  by_contra hlt
  have hfull : (l.pipe p).isFullLocked = true :=
    Fifo.isFullLocked_iff.2 ⟨by omega, by omega⟩
  rw [hroom] at hfull
  cases hfull

/-- A step other than a successful `configure` keeps both pipes within
their bounds. -/
theorem Within.step {held : Pipe → Nat} (h : Within held l)
    (hstep : l.step op = some (l', e)) (he : e ≠ .configure (.ok ())) :
    Within held l' := by
  obtain ⟨hconfig, htouch⟩ := step_touched hstep he
  refine ⟨?_, ?_, ?_⟩
  · intro p
    rw [(htouch p).config, hconfig]
    exact h.capacity p
  · intro p
    rw [hconfig]
    exact h.pos p
  · intro p
    have hlen := h.length p
    rw [hconfig]
    rcases (htouch p).length with hle | ⟨hroom, heq⟩
    · omega
    · have hroom' := h.room hroom
      omega

/-- `configure` brings the two places together. -/
theorem within_configure (hc : l.configure c = (l', .ok ())) :
    l'.config = c ∧ Within (fun p => (l.pipe p).queue.length) l' := by
  rcases configure_cases c l with ⟨hv, heq⟩ | ⟨code, heq⟩
  · cases hc.symm.trans heq
    -- validate has rejected a depth of zero before configure stores it
    have hpos : c.rxQueueDepth ≠ 0 ∧ c.txQueueDepth ≠ 0 := by
      unfold Config.validate at hv
      split at hv
      · cases hv
      · next hrx =>
        split at hv
        · cases hv
        · next htx => exact ⟨hrx, htx⟩
    refine ⟨rfl, ?_, ?_, ?_⟩
    · intro p
      cases p with
      | rx => rfl
      | tx => rfl
    · intro p hzero
      cases p with
      | rx => exact hpos.1 (UInt32.toNat_inj.1 hzero)
      | tx => exact hpos.2 (UInt32.toNat_inj.1 hzero)
    · intro p
      cases p with
      | rx => exact Nat.le_max_right ..
      | tx => exact Nat.le_max_right ..
  · cases hc.symm.trans heq

-- ================================================================ runs

/-- The event of a successful `put` on a pipe. -/
def Event.Stored : Event → Pipe → Prop
  | .putRx r, .rx => r = .ok ()
  | .putTx r, .tx => r = .ok ()
  | _, _ => False

/-- `put` stores only where there is room. -/
theorem put_room {alloc : Bool} {packet : Frame} {fullError : ErrorCode}
    (h : (put alloc packet q fullError).2 = .ok ()) :
    q.isFullLocked = false
      ∧ (put alloc packet q fullError).1.queue.length
        = q.queue.length + 1 := by
  rcases put_cases alloc packet q fullError with
    ⟨e, heq⟩ | ⟨-, -, hroom, heq⟩
  · rw [heq] at h
    cases h
  · refine ⟨hroom, ?_⟩
    rw [heq, List.length_append, List.length_singleton]

/-- A frame was stored where there was room. -/
private theorem stored_room (hstep : l.step op = some (l', e)) {p : Pipe}
    (hstored : e.Stored p) :
    l'.config = l.config ∧ (l.pipe p).isFullLocked = false
      ∧ (l'.pipe p).queue.length = (l.pipe p).queue.length + 1 := by
  -- only the put of the same pipe stores there
  cases op with
  | putRx alloc packet =>
      cases hstep
      cases p with
      | rx => exact ⟨rfl, put_room hstored⟩
      | tx => cases hstored
  | putTx alloc packet =>
      cases hstep
      cases p with
      | rx => cases hstored
      | tx => exact ⟨rfl, put_room hstored⟩
  | configure c =>
      cases hstep
      cases hstored
  | takeRx alloc =>
      cases hstep
      cases hstored
  | takeTx alloc =>
      cases hstep
      cases hstored
  | up =>
      cases hstep
      cases hstored
  | down =>
      cases hstep
      cases hstored

variable {ops : List Op} {l₀ l₁ l₂ : Link} {es : List Event}

/-- From a successful `configure` of any link on, until the next one, a
pipe holds no more frames than its depth or than it held at that
`configure`, and no `put` takes it above its depth. -/
theorem depth_bound
    (hc : l₀.step (.configure c) = some (l₁, .configure (.ok ())))
    (hrun : linkCalls.run l₁ ops = some (l₂, es))
    (hlast : .configure (.ok ()) ∉ es) (p : Pipe) :
    (l₂.pipe p).queue.length
        ≤ max (l₂.config.depth p) (l₀.pipe p).queue.length
      ∧ ∀ op l₃ e, l₂.step op = some (l₃, e) → e.Stored p →
        (l₃.pipe p).queue.length ≤ l₃.config.depth p := by
  have hconf : l₀.configure c = (l₁, .ok ()) := by
    rw [step_configure, Option.some.injEq, Prod.mk.injEq,
      Event.configure.injEq] at hc
    exact Prod.ext hc.1 hc.2
  obtain ⟨-, hstart⟩ := within_configure hconf
  have hG := linkCalls.along_of_events hrun
    (G := fun e => e ≠ .configure (.ok ())) fun e he heq => hlast (heq ▸ he)
  have hend : Within (fun p => (l₀.pipe p).queue.length) l₂ :=
    linkCalls.run_invariant_along (fun h hs he => h.step hs he) hG hstart hrun
  refine ⟨hend.length p, ?_⟩
  intro op l₃ e hstep hstored
  obtain ⟨hconfig, hroom, heq⟩ := stored_room hstep hstored
  rw [heq, hconfig]
  exact hend.room hroom

/-- Two frames are put under a depth of two, then the depth becomes one. -/
def shrink : List Op :=
  [.configure { rxQueueDepth := 2 }, .putRx true [1], .putRx true [2],
    .configure { rxQueueDepth := 1 }]

/-- The frames of a pipe do not stay within the configured depth. -/
theorem not_within_shrunk :
    ¬ ∀ ops l es, linkCalls.run {} ops = some (l, es) →
      ∀ p, (l.pipe p).queue.length ≤ l.config.depth p := by
  intro hall
  have heval : (linkCalls.run {} shrink).map
      (fun r => ((r.1.pipe .rx).queue.length, r.1.config.depth .rx))
      = some (2, 1) := by decide
  obtain ⟨⟨l, es⟩, hrun, hobs⟩ := Option.map_eq_some_iff.1 heval
  simp only [Prod.mk.injEq] at hobs
  have hle := hall shrink l es hrun .rx
  rw [hobs.1, hobs.2] at hle
  exact absurd hle (by decide)

/-- A link that holds two frames when its depth becomes one: a put is
refused, and two takes later there is room again. -/
theorem depth_bound_shrunk :
    ∃ l₁ l₂ es,
      step { rxQueue := { queue := [[1], [2]] } }
          (.configure { rxQueueDepth := 1 })
        = some (l₁, .configure (.ok ()))
      ∧ linkCalls.run l₁ [.putRx true [3], .takeRx true, .takeRx true,
          .putRx true [4]]
        = some (l₂, es)
      ∧ es = [.putRx (.error .linkRxQueueFull), .takeRx (.ok [1]),
          .takeRx (.ok [2]), .putRx (.ok ())]
      ∧ (l₂.pipe .rx).queue.length ≤ max (l₂.config.depth .rx) 2 := by
  have heval : (linkCalls.run
      (configure { rxQueueDepth := 1 }
        { rxQueue := { queue := [[1], [2]] } }).1
      [.putRx true [3], .takeRx true, .takeRx true, .putRx true [4]]).map
        (fun r => r.2)
      = some [.putRx (.error .linkRxQueueFull), .takeRx (.ok [1]),
          .takeRx (.ok [2]), .putRx (.ok ())] := by decide
  obtain ⟨⟨l₂, es⟩, hrun, rfl⟩ := Option.map_eq_some_iff.1 heval
  have hc : step { rxQueue := { queue := [[1], [2]] } }
      (.configure { rxQueueDepth := 1 })
      = some ((configure { rxQueueDepth := 1 }
          { rxQueue := { queue := [[1], [2]] } }).1, .configure (.ok ())) :=
    rfl
  exact ⟨_, l₂, _, hc, hrun, rfl, (depth_bound hc hrun (by decide) .rx).1⟩

end Link

end Vnic
