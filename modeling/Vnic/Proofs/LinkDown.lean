/-
A link that is down, and the poll loop.

`poll` reads `isUp` and then waits in `takeRx` for up to a tenth of a
second. Nothing looks at the flag again when a frame arrives, so a
`down()` that falls inside the wait does not keep the next frame in the
pipe (`not_isolated_downInsideTakeRx`). It is the only way: as long as no
`down()` falls there, `poll` inside `takeRx` means that the link is up
(`Gated`), and the pipe of a link that is down only grows.

# The flag and the wait

`Gate` is the inversion lemma of this file: what a step does to the flag,
to the wait and to the pipe of the link. A wait opens only where `isUp`
has just answered true, a frame leaves only inside a wait, and only
`setUp` writes the flag. `Gated` follows by one case each, and isolation
from `Gated`.
-/
import Vnic.Proofs.System

namespace Vnic.Sys

open VNic

variable {s t u : Sys} {a : Op} {e : Event} {es : List Event}

-- ============================================================== the flag

/-- What a step can do to the flag and to `poll`'s place: only `up()` and
`down()` write the flag, `poll` enters `takeRx` only on a link that is up,
and a frame leaves the pipe only through `takeRx`. -/
structure Gate (s : Sys) (a : Op) (t : Sys) (e : Event) : Prop where
  up : (∀ up, a ≠ .setUp up) → t.nic.link.up = s.nic.link.up
  enters : t.inTakeRx = true →
    s.inTakeRx = true ∨ (a = .pollCheck ∧ s.nic.link.up = true)
  leaves : e.dequeued ≠ [] → s.inTakeRx = true

/-- A step that has nothing to do with them. -/
theorem Gate.of_other (hup : t.nic.link.up = s.nic.link.up)
    (hin : t.inTakeRx = s.inTakeRx) (hdeq : e.dequeued = []) :
    Gate s a t e := by
  refine ⟨fun _ => hup, fun ht => Or.inl ?_, fun hd => absurd hdeq hd⟩
  rw [← hin, ht]

/-- Only `setUp` moves the link, and only `pollCheck` lets `poll` in. -/
private theorem step_gate (h : s.step a = some (t, e)) : Gate s a t e := by
  -- a control call moves no frame, and leaves the link's flag to setUp
  by_cases hc : a.IsControl
  · have hdeq := (step_control_event hc h).idle.dequeued
    rcases step_control hc h with ⟨config, -, rfl, -⟩ | hs
    · exact .of_other (configure_link config s).2 rfl hdeq
    · obtain ⟨m, st, rx, tx, thread, -, rfl⟩ := hs
      exact .of_other rfl rfl hdeq
  · cases a with
    | configure _ => exact absurd trivial hc
    | configureRx _ _ => exact absurd trivial hc
    | configureTx _ _ => exact absurd trivial hc
    | start _ => exact absurd trivial hc
    | stop => exact absurd trivial hc
    | setUp up =>
        simp only [step, Option.some.injEq, Prod.mk.injEq] at h
        obtain ⟨rfl, rfl⟩ := h
        exact ⟨fun hop => absurd rfl (hop up), Or.inl, fun hd => absurd rfl hd⟩
    | updateReta reta =>
        obtain ⟨reta', r, rfl, rfl, -⟩ := step_updateReta h
        exact .of_other rfl rfl rfl
    | tx queueId descs =>
        simp only [step, Option.some.injEq, Prod.mk.injEq] at h
        obtain ⟨rfl, rfl⟩ := h
        exact .of_other (tx_sentOnly s.mem queueId descs s.nic).up rfl rfl
    | rx queueId =>
        rcases step_rx h with ⟨-, rfl, rfl⟩ | ⟨q, -, rfl, rfl⟩
        · exact .of_other rfl rfl rfl
        · exact .of_other rfl rfl rfl
    | freeRx queueId tickets =>
        obtain ⟨⟨descs, r, rfl⟩, rfl | ⟨q, ds, held, -, -, rfl⟩⟩ :=
          step_freeRx h
        · exact .of_other rfl rfl rfl
        · exact .of_other rfl rfl rfl
    | pollCheck =>
        -- the poll thread's test of isUp() is the one step that opens a
        -- wait
        obtain ⟨-, -, ⟨hup, rfl, rfl⟩ | ⟨rfl, rfl⟩⟩ := step_pollCheck h
        · exact ⟨fun _ => rfl, fun _ => Or.inr ⟨rfl, hup⟩,
            fun hd => absurd rfl hd⟩
        · exact .of_other rfl rfl rfl
    | pollTake alloc =>
        obtain ⟨-, hin, -, ⟨rfl, rfl⟩ | ⟨frame, rest, -,
          ⟨rfl, rfl⟩ | ⟨rfl, rfl⟩⟩⟩ := step_pollTake h
        · exact ⟨fun _ => rfl, fun _ => Or.inl hin, fun _ => hin⟩
        · exact ⟨fun _ => rfl, fun _ => Or.inl hin, fun _ => hin⟩
        · exact ⟨fun _ => rfl, fun _ => Or.inl hin, fun _ => hin⟩
    | pollFrame malloc now =>
        obtain ⟨packet, m, n, verdict, -, hp, rfl, rfl⟩ := step_pollFrame h
        exact .of_other (congrArg Link.up hp.link) rfl rfl
    | _ =>
        simp only [step, Option.some.injEq, Prod.mk.injEq] at h
        obtain ⟨rfl, rfl⟩ := h
        exact .of_other rfl rfl rfl

-- =========================================================== isolation

/-- From here, no step removes a frame from the pipe of a link that is
down. -/
def Isolated (s : Sys) : Prop :=
  ∀ a t e, s.step a = some (t, e) → e.dequeued ≠ [] → s.nic.link.up = true

/-- The step is `down()`. -/
def Op.isDown : Op → Bool
  | .setUp false => true
  | _ => false

/-- `down()` is called outside `takeRx`. -/
def DownOutsideTakeRx (s : Sys) (a : Op) : Prop :=
  a.isDown = true → s.inTakeRx = false

instance (s : Sys) (a : Op) : Decidable (DownOutsideTakeRx s a) :=
  inferInstanceAs (Decidable (_ → _))

/-- `poll` is inside `takeRx` only while the link is up. -/
def Gated (s : Sys) : Prop := s.inTakeRx = true → s.nic.link.up = true

/-- A frame leaves inside `takeRx` only. -/
private theorem Gated.isolated (hg : Gated s) : Isolated s :=
  fun _ _ _ h hd => hg ((step_gate h).leaves hd)

/-- Nobody is let in while the link is down, and no `down()` falls inside. -/
theorem Gated.step (hg : Gated s) (hop : DownOutsideTakeRx s a)
    (h : s.step a = some (t, e)) : Gated t := by
  intro ht
  by_cases hset : ∃ up, a = .setUp up
  · obtain ⟨up, rfl⟩ := hset
    simp only [step, Option.some.injEq, Prod.mk.injEq] at h
    rw [← h.1] at ht ⊢
    cases up with
    | true => rfl
    | false => cases ht.symm.trans (hop rfl)
  · rw [(step_gate h).up fun up heq => hset ⟨up, heq⟩]
    rcases (step_gate h).enters ht with hin | ⟨-, hup⟩
    · exact hg hin
    · exact hup

/-- So it stays along every guarded run. -/
theorem Gated.run {as : List Op} (hg : Gated s)
    (hguard : sys.Along (fun s a _ => DownOutsideTakeRx s a) s as)
    (hrun : sys.run s as = some (t, es)) : Gated t :=
  sys.run_invariant_along (fun hi hs hop => hi.step hop hs) hguard hg hrun

/-- The link has been down since `s`, with `poll` outside `takeRx`, and the
pipe has only grown. -/
structure Shut (s t : Sys) (es : List Event) : Prop where
  outside : t.inTakeRx = false
  down : t.nic.link.up = false
  pipe : t.pipe = s.pipe ++ es.flatMap Event.injected

/-- With `poll` outside and the link down, frames only come in. -/
theorem Shut.step (hs : Shut s t es) (h : t.step a = some (u, e))
    (hop : a ≠ .setUp true) : Shut s u (es ++ [e]) := by
  have hgate := step_gate h
  have hnone : e.dequeued = [] := by
    by_contra hd
    cases hs.outside.symm.trans (hgate.leaves hd)
  have hpipe := (step_traffic h).pipe
  rw [hnone, List.nil_append] at hpipe
  refine ⟨?_, ?_, ?_⟩
  · by_contra ht
    rw [Bool.not_eq_false] at ht
    rcases hgate.enters ht with hin | ⟨-, hup⟩
    · cases hs.outside.symm.trans hin
    · cases hs.down.symm.trans hup
  · by_cases hset : ∃ up, a = .setUp up
    · obtain ⟨up, rfl⟩ := hset
      simp only [Sys.step, Option.some.injEq, Prod.mk.injEq] at h
      rw [← h.1]
      cases up with
      | true => exact absurd rfl hop
      | false => rfl
    · rw [hgate.up fun up heq => hset ⟨up, heq⟩]
      exact hs.down
  · rw [List.flatMap_append, List.flatMap_singleton, ← List.append_assoc,
      ← hs.pipe, hpipe]

/-- While the link stays down, frames enter the pipe and none leaves. -/
theorem pipe_of_down {as : List Op} (hin : s.inTakeRx = false)
    (hup : s.nic.link.up = false) (hdown : ∀ a ∈ as, a ≠ .setUp true)
    (hrun : sys.run s as = some (t, es)) :
    t.pipe = s.pipe ++ es.flatMap Event.injected := by
  have hstart : Shut s s [] := ⟨hin, hup, by simp⟩
  have hend := sys.run_history_along (P := Shut s)
    (fun hs h hop => hs.step h hop) (sys.along_of_forall hdown s) hrun []
    hstart
  rw [List.nil_append] at hend
  exact hend.pipe

/-- In every run in which no `down()` falls inside `takeRx`, no frame
leaves the pipe of a link that is down; and what is put after a `down()`
stays there until the next `up()`. -/
theorem link_down_isolation {blocks : Blocks} {as : List Op}
    (hguard : sys.Along (fun s a _ => DownOutsideTakeRx s a)
      (init blocks) as)
    (hrun : sys.run (init blocks) as = some (t, es)) :
    Isolated t
    ∧ ∀ (bs : List Op) (u : Sys) (fs : List Event), t.nic.link.up = false →
        (∀ b ∈ bs, b ≠ .setUp true) → sys.run t bs = some (u, fs) →
        u.pipe = t.pipe ++ fs.flatMap Event.injected := by
  have hg : Gated t := Gated.run (fun h => (by cases h)) hguard hrun
  refine ⟨hg.isolated, fun bs u fs hup hdown hrun' => ?_⟩
  apply pipe_of_down _ hup hdown hrun'
  by_contra hin
  rw [Bool.not_eq_false] at hin
  cases hup.symm.trans (hg hin)

/-- A port that polls, and a link that goes down between two looks at
it. -/
def downBetweenPolls : List Op :=
  [.configure {}, .configureRx 0 { size := 1 }, .start {}, .setUp true,
    .pollCheck, .pollTake true, .setUp false]

/-- A frame is put after that, and `poll` looks again. -/
theorem link_down_isolation_downBetweenPolls :
    ∃ t es u fs, sys.run (init ∅) downBetweenPolls = some (t, es)
      ∧ sys.run t [.putRx true [7], .pollCheck] = some (u, fs)
      ∧ t.nic.link.up = false ∧ Isolated t ∧ u.pipe = [[7]] := by
  have heval : ((sys.run (init ∅) downBetweenPolls).bind fun p =>
      (sys.run p.1 [.putRx true [7], .pollCheck]).map fun q =>
        (p.1.nic.link.up, p.1.pipe, q.2.flatMap Event.injected))
      = some (false, [], [[7]]) := by decide
  obtain ⟨⟨t, es⟩, hrun, heval⟩ := Option.bind_eq_some_iff.1 heval
  obtain ⟨⟨u, fs⟩, hrun', heval⟩ := Option.map_eq_some_iff.1 heval
  simp only [Prod.mk.injEq] at heval
  obtain ⟨hup, hpipe, hput⟩ := heval
  have hguard : sys.Along (fun s a _ => DownOutsideTakeRx s a) (init ∅)
      downBetweenPolls := by decide
  obtain ⟨hisolated, hstays⟩ := link_down_isolation hguard hrun
  have hlook := hstays [.putRx true [7], .pollCheck] u fs hup
    (by simp) hrun'
  rw [hpipe, hput] at hlook
  exact ⟨t, es, u, fs, hrun, hrun', hup, hisolated, hlook⟩

/-- The link goes down while `poll` waits in `takeRx`, and a frame is put
after that. -/
def downInsideTakeRx : List Op :=
  [.configure {}, .configureRx 0 { size := 1 }, .start {}, .setUp true,
    .pollCheck, .setUp false, .putRx true [7]]

/-- `poll` takes the frame, and the link is down. -/
theorem not_isolated_downInsideTakeRx :
    ¬ ∀ (blocks : Blocks) (as : List Op) (t : Sys) (es : List Event),
        sys.run (init blocks) as = some (t, es) → Isolated t := by
  intro hall
  have heval : ((sys.run (init ∅) downInsideTakeRx).bind fun p =>
      (p.1.step (.pollTake true)).map fun p' => (p.1.nic.link.up, p'.2))
      = some (false, .pollTaken [7]) := by decide
  obtain ⟨⟨t, es⟩, hrun, heval⟩ := Option.bind_eq_some_iff.1 heval
  obtain ⟨⟨u, e⟩, hstep, heval⟩ := Option.map_eq_some_iff.1 heval
  simp only [Prod.mk.injEq] at heval
  obtain ⟨hdown, rfl⟩ := heval
  have hup := hall ∅ downInsideTakeRx t es hrun _ u _ hstep (by decide)
  rw [hdown] at hup
  cases hup

end Vnic.Sys
