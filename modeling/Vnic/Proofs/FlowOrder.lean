/-
Frames of one flow stay together and in order.

A flow is a 5-tuple; where the port hashes symmetrically it is both
directions of a connection. Between two successful updates of the
indirection table all its frames go to one queue (`flowQueue`), so what
the readers of that queue see of the flow is what arrived of it, in the
order in which it arrived, less the frames that were dropped on the way.

`describe` reads the configuration, the table and the tuple, and nothing
else of a frame decides its queue (`describe_queueId`); the first two stay
as they are along the run.
-/
import Vnic.Proofs.Accounting
import Vnic.Proofs.Pipeline
import Vnic.Proofs.Steering

namespace Vnic

open VNic

-- ============================================================== a flow

/-- The 5-tuple `distribute` sees. -/
def Frame.tuple (f : Frame) : FiveTuple := get5Tuple (Parser.parse f {}).1

namespace VNic

variable {n n' : VNic} {tuple : FiveTuple} {f : Frame}

/-- An IP frame of the flow. In symmetric mode replies are of the flow of
their requests. -/
def InFlow (n : VNic) (tuple : FiveTuple) (f : Frame) : Prop :=
  f.IsIp ∧ (f.tuple = tuple
    ∨ n.config.rss.symmetry = .symmetric ∧ f.tuple = Rss.reversed tuple)

instance (n : VNic) (tuple : FiveTuple) (f : Frame) :
    Decidable (n.InFlow tuple f) :=
  inferInstanceAs (Decidable (_ ∧ _))

/-- The queue of a flow. -/
def flowQueue (n : VNic) (tuple : FiveTuple) : UInt16 :=
  if n.config.rss.enabled then
    readReta n.reta (Rss.calcHash tuple n.config.rss.key n.config.rss.hf
      n.config.rss.protocol n.config.rss.symmetry)
  else 0

/-- Every frame of a flow has the flow's hash. -/
theorem InFlow.hash (h : n.InFlow tuple f) :
    Rss.calcHash f.tuple n.config.rss.key n.config.rss.hf
        n.config.rss.protocol n.config.rss.symmetry
      = Rss.calcHash tuple n.config.rss.key n.config.rss.hf
        n.config.rss.protocol n.config.rss.symmetry := by
  rcases h.2 with htuple | ⟨hsym, htuple⟩
  · rw [htuple]
  · rw [htuple, hsym]
    exact Rss.calcHash_reversed tuple _ _ _

/-- A frame of the flow is sent to the flow's queue. -/
private theorem describe_queueId {now : UInt64} {parser : Parser}
    (hpass : n.Passes f parser) (h : n.InFlow tuple f) :
    (n.describe now parser).queueId = n.flowQueue tuple := by
  have hip : rssHashable parser = true :=
    (Parser.parse_ok hpass.1).2.2 h.1
  have htuple : f.tuple = get5Tuple parser := by
    unfold Frame.tuple
    rw [hpass.1]
  unfold describe frameHash flowQueue
  rw [hip, Bool.and_true, ← h.hash, htuple]
  by_cases hon : n.config.rss.enabled = true
  · rw [if_pos hon, if_pos hon]
  · rw [if_neg hon, if_neg hon]

/-- Which flow a frame is in depends on the configuration only. -/
theorem InFlow.congr (hc : n'.config = n.config) :
    n'.InFlow tuple f ↔ n.InFlow tuple f := by
  unfold InFlow
  rw [hc]

private theorem flowQueue_congr (hc : n'.config = n.config)
    (hr : n'.reta = n.reta) : n'.flowQueue tuple = n.flowQueue tuple := by
  unfold flowQueue
  rw [hc, hr]

end VNic

namespace Sys

variable {s t : Sys} {a : Op} {e : Event} {es : List Event} {n : VNic}
  {q : UInt16} {f : Frame} {tuple : FiveTuple}

-- ============================================================ one step

/-- Only a successful `updateReta` replaces the table of a started
port. -/
theorem step_reta (hop : ¬ a.IsControl) (he : e ≠ .updateReta (.ok ()))
    (h : s.step a = some (t, e)) : t.nic.reta = s.nic.reta := by
  cases a with
  | configure _ => exact absurd trivial hop
  | configureRx _ _ => exact absurd trivial hop
  | configureTx _ _ => exact absurd trivial hop
  | start _ => exact absurd trivial hop
  | stop => exact absurd trivial hop
  | updateReta reta =>
      simp only [step, Option.some.injEq, Prod.mk.injEq] at h
      obtain ⟨rfl, rfl⟩ := h
      rcases updateReta_cases reta s.nic with ⟨code, hu⟩ | ⟨-, hu⟩
      · rw [hu]
        rfl
      · rw [hu] at he
        exact absurd rfl he
  -- the other calls do not name the table at all
  | tx queueId descs =>
      simp only [step, Option.some.injEq, Prod.mk.injEq] at h
      rw [← h.1]
      exact (tx_sentOnly s.mem queueId descs s.nic).reta
  | rx queueId =>
      rcases step_rx h with ⟨-, rfl, -⟩ | ⟨queue, -, rfl, -⟩
      · rfl
      · rfl
  | freeRx queueId tickets =>
      rcases (step_freeRx h).2 with rfl | ⟨queue, descs, held, -, -, rfl⟩
      · rfl
      · rfl
  | pollCheck =>
      obtain ⟨-, -, ⟨-, rfl, -⟩ | ⟨rfl, -⟩⟩ := step_pollCheck h
      · rfl
      · rfl
  | pollTake alloc =>
      obtain ⟨-, -, -, ⟨rfl, -⟩ | ⟨frame, rest, -, ⟨rfl, -⟩ | ⟨rfl, -⟩⟩⟩ :=
        step_pollTake h
      · rfl
      · rfl
      · rfl
  | pollFrame malloc now =>
      obtain ⟨packet, m, n, verdict, -, hp, rfl, -⟩ := step_pollFrame h
      cases hp with
      | rejected _ => rfl
      | noQueues _ _ => rfl
      | outOfRange _ _ _ => rfl
      | put _ _ _ => rfl
  | _ =>
      simp only [step, Option.some.injEq, Prod.mk.injEq] at h
      rw [← h.1]
      rfl

/-- An event that accepts a frame of the flow names the flow's queue. -/
def Steered (n : VNic) (tuple : FiveTuple) (e : Event) : Prop :=
  ∀ f d, e = .frame f (.distributed d (.ok ())) → n.InFlow tuple f →
    d.queueId = n.flowQueue tuple

/-- One step accepts a frame of the flow in its queue or not at all. -/
private theorem step_steered (hop : ¬ a.IsControl)
    (h : s.step a = some (t, e)) : Steered s.nic tuple e := by
  rintro f d rfl hflow
  by_cases hrx : a.TouchesRx
  · cases a with
    | rx queueId =>
        rcases step_rx h with ⟨-, -, he⟩ | ⟨queue, -, -, he⟩
        · cases he
        · cases he
    | freeRx queueId tickets =>
        obtain ⟨⟨descs, r, he⟩, -⟩ := step_freeRx h
        cases he
    | pollFrame malloc now =>
        obtain ⟨packet, m, n, verdict, -, hp, -, he⟩ := step_pollFrame h
        cases he
        cases hp with
        | put hpass _ _ => exact describe_queueId hpass hflow
    | _ => exact absurd hrx (fun hno => hno)
  · -- no other step accepts a frame
    have hnone := (step_light_event (q := d.queueId) hop hrx h).1
    rw [show Event.acceptedBy d.queueId
      (.frame f (.distributed d (.ok ()))) = [f] from if_pos rfl] at hnone
    cases hnone

/-- The flow's queue sees all that an event shows of the flow. -/
theorem Steered.accepted (h : Steered n tuple e) :
    (e.acceptedBy (n.flowQueue tuple)).filter (n.InFlow tuple)
      = e.accepted.filter (n.InFlow tuple) := by
  cases e with
  | frame f verdict =>
      cases verdict with
      | rejected _ => rfl
      | distributed d r =>
          cases r with
          | error _ => rfl
          | ok u =>
              show (if d.queueId = n.flowQueue tuple then [f] else []).filter
                (n.InFlow tuple) = [f].filter (n.InFlow tuple)
              by_cases hflow : n.InFlow tuple f
              · rw [if_pos (h f d rfl hflow)]
              · split
                · rfl
                · simp [hflow]
  | _ => rfl

/-- No other queue sees any of it. -/
theorem Steered.elsewhere (h : Steered n tuple e)
    (hne : q ≠ n.flowQueue tuple) (hf : f ∈ e.acceptedBy q) :
    ¬ n.InFlow tuple f := by
  intro hflow
  unfold Event.acceptedBy at hf
  split at hf
  · next g d =>
      split at hf
      · next hq =>
          rw [List.mem_singleton] at hf
          subst hf
          exact hne (hq ▸ h f d rfl hflow)
      · cases hf
  · cases hf

-- ================================================================ runs

/-- Lists that agree under the filter, part for part, agree as a whole. -/
theorem filter_flatMap_congr {α β : Type} {p : β → Bool} {g k : α → List β}
    {l : List α} (h : ∀ x ∈ l, (g x).filter p = (k x).filter p) :
    (l.flatMap g).filter p = (l.flatMap k).filter p := by
  rw [List.filter_flatMap, List.filter_flatMap]
  exact List.flatMap_congr h

/-- So does a run, as no step of it changes configuration or table. -/
theorem run_steered {as : List Op} (hdata : ∀ a ∈ as, ¬ a.IsControl)
    (hreta : .updateReta (.ok ()) ∉ es)
    (hrun : sys.run s as = some (t, es)) :
    ∀ e ∈ es, Steered s.nic tuple e := by
  have hguard := (sys.along_of_forall hdata s).and sys
    (sys.along_of_events hrun
      (G := fun e => e ≠ .updateReta (.ok ())) fun e he h => hreta (h ▸ he))
  have hend := sys.run_history_along (P := fun u fs =>
      u.nic.config = s.nic.config ∧ u.nic.reta = s.nic.reta
      ∧ ∀ e ∈ fs, Steered s.nic tuple e)
    (fun {u v a e fs} hP hs hg => by
      obtain ⟨hc, hr, hfs⟩ := hP
      refine ⟨(step_sameShape hg.1 hs).config.trans hc,
        (step_reta hg.1 hg.2 hs).trans hr, fun e' he' => ?_⟩
      rcases List.mem_append.1 he' with hold | hnew
      · exact hfs e' hold
      · rw [List.mem_singleton] at hnew
        subst hnew
        intro f d hev hflow
        rw [step_steered hg.1 hs f d hev ((InFlow.congr hc).2 hflow),
          flowQueue_congr hc hr])
    hguard hrun [] ⟨rfl, rfl, fun e he => by cases he⟩
  rw [List.nil_append] at hend
  exact hend.2.2

private theorem Event.accepted_sublist (e : Event) :
    e.accepted.Sublist e.completed := by
  cases e with
  | frame f verdict =>
      cases verdict with
      | rejected _ => exact List.nil_sublist _
      | distributed d r =>
          cases r with
          | error _ => exact List.nil_sublist _
          | ok u => exact List.Sublist.refl _
  | _ => exact List.Sublist.refl _

/-- Accepted frames are, in order, some of those that entered the link. -/
theorem run_accepted (hi : Inv s) {as : List Op} (hnone : s.inFlight = none)
    (hrun : sys.run s as = some (t, es)) :
    (es.flatMap Event.accepted).Sublist
      (s.pipe ++ es.flatMap Event.injected) := by
  have htaken := run_taken hi hrun
  rw [hnone, Option.toList_none, List.nil_append] at htaken
  rw [run_pipe hrun]
  calc (es.flatMap Event.accepted).Sublist
        (es.flatMap Event.completed) :=
      List.Sublist.flatMap_right es fun e _ => e.accepted_sublist
    List.Sublist _ (es.flatMap Event.taken) := by
      rw [htaken]
      exact List.sublist_append_left _ _
    List.Sublist _ (es.flatMap Event.dequeued) :=
      List.Sublist.flatMap_right es fun e _ => e.taken_sublist
    List.Sublist _ (es.flatMap Event.dequeued ++ t.pipe) :=
      List.sublist_append_left _ _

/-- A started port keeps each flow together and in order, in every
interleaving of data-path steps without a successful `updateReta`. No
queue but the flow's accepts one of its frames. The frames of the flow
among those that `rx` returned from that queue and those that wait there
are the accepted frames of the flow, in the order in which they entered
the link. -/
theorem flow_in_order {blocks : Blocks} {as bs : List Op} {s₀ : Sys}
    {fs : List Event} {env : StartEnv}
    (hrun : sys.run (init blocks) as = some (s, fs))
    (hstart : s.step (.start env) = some (s₀, .start (.ok ())))
    (hdata : ∀ a ∈ bs, ¬ a.IsControl)
    (hperiod : sys.run s₀ bs = some (t, es))
    (hreta : .updateReta (.ok ()) ∉ es) (tuple : FiveTuple) :
    (∀ p ≠ s₀.nic.flowQueue tuple,
      ∀ f ∈ es.flatMap (Event.acceptedBy p), ¬ s₀.nic.InFlow tuple f)
    ∧ ∃ delivered waiting,
      List.Forall₂ (fun r f => Carries s₀.nic (s₀.nic.flowQueue tuple) r.1 f
          ∧ (r.2 ∉ es.flatMap Event.freed →
            t.mem.contents r.1.buffer = f))
        (es.flatMap (Event.returned (s₀.nic.flowQueue tuple))) delivered
      ∧ List.Forall₂ (fun d f => Carries s₀.nic (s₀.nic.flowQueue tuple) d f
          ∧ t.mem.contents d.buffer = f)
        (t.used (s₀.nic.flowQueue tuple)) waiting
      ∧ (delivered ++ waiting).filter (s₀.nic.InFlow tuple)
        = (es.flatMap Event.accepted).filter (s₀.nic.InFlow tuple)
      ∧ ((delivered ++ waiting).filter (s₀.nic.InFlow tuple)).Sublist
        ((s₀.pipe ++ es.flatMap Event.injected).filter
          (s₀.nic.InFlow tuple)) := by
  have hi₀ : Inv s₀ := (Inv.run hrun).step hstart
  obtain ⟨hempty, hnone⟩ := started_fresh (Inv.run hrun) hstart
  have hsteered : ∀ e ∈ es, Steered s₀.nic tuple e :=
    run_steered hdata hreta hperiod
  refine ⟨fun p hp f hf => ?_, ?_⟩
  · obtain ⟨e, he, hfe⟩ := List.mem_flatMap.1 hf
    exact (hsteered e he).elsewhere hp hfe
  -- what the flow's queue delivers is about all frames of the queue; the
  -- filter picks the flow's, and no other queue has any
  · obtain ⟨delivered, waiting, hacc, hdel, hwait⟩ :=
      Delivers.run hi₀ (hempty (s₀.nic.flowQueue tuple)) hdata hperiod
    have hall : (delivered ++ waiting).filter (s₀.nic.InFlow tuple)
        = (es.flatMap Event.accepted).filter (s₀.nic.InFlow tuple) := by
      rw [← hacc]
      exact filter_flatMap_congr fun e he => (hsteered e he).accepted
    refine ⟨delivered, waiting, hdel.imp fun r f hr => ?_,
      hwait.imp fun d f hd => ⟨hd.1, hd.2.contents⟩, hall, ?_⟩
    · exact ⟨hr.1, fun hfree => (hr.2 hfree).2.contents⟩
    · rw [hall]
      exact (run_accepted hi₀ hnone hperiod).filter _

/-- Two queues, symmetric hashing. -/
def symmetricQueues : VNic.Config :=
  { twoQueues with
    rss := { twoQueues.rss with symmetry := .symmetric, reta := [0, 1] } }

/-- Up to `start`. -/
def symmetricReadied : List Op :=
  [.configure symmetricQueues, .configureRx 0 { size := 2 },
    .configureRx 1 { size := 2 }]

/-- The answer arrives after the request has been read; an update in
between is refused. -/
def requestReply : List Op :=
  [.setUp true, .putRx true request, .putRx true reply, .pollCheck,
    .pollTake true, .pollFrame .bump 0, .rx 0, .updateReta [7], .pollCheck,
    .pollTake true, .pollFrame .bump 0]

/-- The request has been read, the answer waits, in one queue. -/
theorem flow_in_order_requestReply :
    ∃ s fs s₀ t es, sys.run (init ∅) symmetricReadied = some (s, fs)
      ∧ s.step (.start {}) = some (s₀, .start (.ok ()))
      ∧ sys.run s₀ requestReply = some (t, es)
      ∧ es.flatMap Event.accepted = [request, reply]
      ∧ s₀.nic.InFlow request.tuple reply
      ∧ ∃ delivered waiting : List Frame,
        delivered.length = 1 ∧ waiting.length = 1
        ∧ (delivered ++ waiting).filter (s₀.nic.InFlow request.tuple)
          = [request, reply] := by
  have heval : ((sys.run (init ∅) symmetricReadied).bind fun p =>
      (p.1.step (.start {})).bind fun p₀ =>
        (sys.run p₀.1 requestReply).map fun p' =>
          (p₀.2, p'.2.flatMap Event.accepted,
            decide (.updateReta (.ok ()) ∈ p'.2),
            decide (p₀.1.nic.InFlow request.tuple request
              ∧ p₀.1.nic.InFlow request.tuple reply),
            decide ((p'.2.flatMap (Event.returned (p₀.1.nic.flowQueue
                request.tuple))).length = 1
              ∧ (p'.1.used (p₀.1.nic.flowQueue request.tuple)).length = 1)))
      = some (.start (.ok ()), [request, reply], false, true, true) := by
    decide +kernel
  obtain ⟨⟨s, fs⟩, hrun, heval⟩ := Option.bind_eq_some_iff.1 heval
  obtain ⟨⟨s₀, e₀⟩, hstart, heval⟩ := Option.bind_eq_some_iff.1 heval
  obtain ⟨⟨t, es⟩, hperiod, heval⟩ := Option.map_eq_some_iff.1 heval
  simp only [Prod.mk.injEq] at heval
  obtain ⟨rfl, hacc, hreta, hflow, hcount⟩ := heval
  obtain ⟨hreq, hrep⟩ := of_decide_eq_true hflow
  obtain ⟨hread, hwaits⟩ := of_decide_eq_true hcount
  have hdata : ∀ a ∈ requestReply, ¬ a.IsControl := by
    simp [requestReply, Op.IsControl]
  obtain ⟨-, delivered, waiting, hdel, hwait, hall, -⟩ :=
    flow_in_order hrun hstart hdata hperiod (of_decide_eq_false hreta)
      request.tuple
  refine ⟨s, fs, s₀, t, es, hrun, hstart, hperiod, hacc, hrep, delivered,
    waiting, hdel.length_eq.symm.trans hread,
    hwait.length_eq.symm.trans hwaits, ?_⟩
  rw [hall, hacc]
  simp only [List.filter_cons, List.filter_nil, hreq, hrep, decide_true,
    if_true]

end Sys

end Vnic
