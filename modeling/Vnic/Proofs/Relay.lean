/-
A relay sends what came, and keeps every flow in order.

# What is followed

A number the relay sends names a descriptor `rx` returned; the descriptor
stands for the frame its queue accepted at the same place (`Stands`). It
does so for as long as the number is held (`Holding`), whatever else is
received, freed or sent meanwhile, so what `tx` reads back from the chain
is that frame.

# Order

A flow keeps to one queue, and one queue's numbers grow with the places
of its frames. If the relay sends what it received from that queue in
growing order, the frames of the flow leave the link in the order in
which they entered it (`sublist_of_keys`).
-/
import Vnic.Proofs.Burst
import Vnic.Proofs.FlowOrder
import Vnic.Relay

namespace Vnic

-- ============================================================== lists

/-- Elements picked from a list by growing keys form a sublist. -/
private theorem sublist_of_keys {α : Type} {keys : List Nat} {l : List α}
    (hsorted : keys.Pairwise (· < ·)) {ks : List Nat} {xs : List α}
    (h : List.Forall₂ (fun k x => ∃ i : Nat, keys[i]? = some k
      ∧ l[i]? = some x) ks xs) (hlt : ks.Pairwise (· < ·)) :
    ∀ b : Nat, (∀ k ∈ ks, ∀ i : Nat, keys[i]? = some k → b ≤ i) →
      xs.Sublist (l.drop b) := by
  induction h with
  | nil => exact fun b _ => List.nil_sublist _
  | @cons k x ks xs hk _ ih =>
      intro b hb
      obtain ⟨hbelow, hrest⟩ := List.pairwise_cons.1 hlt
      obtain ⟨i, hi, hx⟩ := hk
      obtain ⟨hlen, hget⟩ := List.getElem?_eq_some_iff.1 hx
      have hstep : l.drop i = x :: l.drop (i + 1) := by
        rw [← hget, List.drop_eq_getElem_cons hlen]
      -- the later keys stand further on
      have hlater : ∀ k' ∈ ks, ∀ j : Nat, keys[j]? = some k' →
          i + 1 ≤ j := by
        intro k' hk' j hj
        by_contra hge
        have hkk := hbelow k' hk'
        obtain ⟨hil, rfl⟩ := List.getElem?_eq_some_iff.1 hi
        obtain ⟨hjl, rfl⟩ := List.getElem?_eq_some_iff.1 hj
        rcases Nat.lt_or_eq_of_le (show j ≤ i by omega) with hji | rfl
        · have := List.pairwise_iff_getElem.1 hsorted j i hjl hil hji
          omega
        · omega
      calc (x :: xs).Sublist (x :: l.drop (i + 1)) :=
            (ih hrest (i + 1) hlater).cons_cons x
        List.Sublist _ (l.drop b) := by
            rw [← hstep]
            exact List.drop_sublist_drop_left l
              (hb k (List.mem_cons_self ..) i hi)

/-- The left partners of the right elements that meet `p`. -/
private theorem forall₂_filter {α β : Type} {R : α → β → Prop} {c : α → Bool}
    {p : β → Bool} {xs : List α} {ys : List β} (h : List.Forall₂ R xs ys)
    (hc : ∀ x y, R x y → p y = true → c x = true) :
    ∃ xs', List.Forall₂ (fun x y => R x y ∧ p y = true) xs' (ys.filter p)
      ∧ xs'.Sublist (xs.filter c) := by
  induction h with
  | nil => exact ⟨[], .nil, List.nil_sublist _⟩
  | @cons x y xs ys hxy _ ih =>
      obtain ⟨xs', hrel, hsub⟩ := ih
      by_cases hp : p y = true
      · rw [List.filter_cons_of_pos hp, List.filter_cons_of_pos (hc x y hxy hp)]
        exact ⟨x :: xs', .cons ⟨hxy, hp⟩ hrel, hsub.cons_cons x⟩
      · rw [List.filter_cons_of_neg hp]
        refine ⟨xs', hrel, hsub.trans ?_⟩
        exact (List.sublist_cons_self x xs).filter c

/-- Relations compose along a list. -/
private theorem forall₂_comp {α β γ : Type} {R : α → β → Prop}
    {S : β → γ → Prop}
    {xs : List α} {ys : List β} (h : List.Forall₂ R xs ys) :
    ∀ {zs : List γ}, List.Forall₂ S ys zs →
      List.Forall₂ (fun x z => ∃ y, R x y ∧ S y z) xs zs := by
  induction h with
  | nil =>
      intro zs h'
      cases h'
      exact .nil
  | cons hxy _ ih =>
      intro zs h'
      cases h' with
      | cons hyz hrest => exact .cons ⟨_, hxy, hyz⟩ (ih hrest)

private theorem forall₂_getElem? {α β : Type} {R : α → β → Prop} {xs : List α}
    {ys : List β} (h : List.Forall₂ R xs ys) {i : Nat} {x : α} {y : β}
    (hx : xs[i]? = some x) (hy : ys[i]? = some y) : R x y := by
  obtain ⟨hi, rfl⟩ := List.getElem?_eq_some_iff.1 hx
  obtain ⟨hj, rfl⟩ := List.getElem?_eq_some_iff.1 hy
  exact h.get hi hj

-- ========================================================= the TX chain

namespace TxQueue

variable {m : Memory} {d : PacketDescriptor} {packet f : Frame} {p : Ptr}
  {ps qs : List Ptr}

/-- A walk has one course. -/
theorem Segments.unique (h : Segments m p ps) (h' : Segments m p qs) :
    ps = qs := by
  induction h generalizing qs with
  | last hnil =>
      cases h' with
      | last _ => rfl
      | cons hne _ => exact absurd hnil hne
  | cons hne _ ih =>
      cases h' with
      | last hnil => exact absurd hnil hne
      | cons _ hrest => rw [ih hrest]

/-- What is read back from a spelling is the frame. -/
theorem Linearised.of_spells (hlin : Linearised m d f)
    (h : Spells m d packet) (hpos : 0 < packet.length) : f = packet := by
  obtain ⟨ps, hps, -, -, rfl⟩ := hlin
  have hne : d.buffer ≠ nullptr := by
    intro h0
    have hnil : m.segments d.buffer = [] := by
      rw [h0]
      exact Linked.chainOf_null m.blocks
    have hcount := h.count
    have := RxQueue.segmentCount_pos hpos
    rw [hnil] at hcount
    simp at hcount
    omega
  rw [hps.unique (segments_of_chain h.chain hne),
    payloads_eq_dataOf h.chain]
  exact h.contents

end TxQueue

-- ========================================================== the TX pipe

namespace Sys

open VNic

variable {s t : Sys} {a : Op} {e : Event} {es : List Event} {n : VNic}
  {q : UInt16} {d : PacketDescriptor} {f : Frame} {k : Nat}

/-- The TX pipe. -/
def txPipe (s : Sys) : List Frame := s.nic.link.txQueue.queue

/-- The frame `takeTx` answered. -/
def Event.left : Event → List Frame
  | .takeTx (.ok f) => [f]
  | _ => []

/-- `takeTx` lost the frame it removed. -/
def Event.LosesTx (e : Event) : Prop :=
  e = .takeTx (.error .linkAllocationFailed)

instance (e : Event) : Decidable e.LosesTx :=
  inferInstanceAs (Decidable (_ = _))

/-- Beside `tx`, only `takeTx` touches the TX pipe, and removes the frame
it answers. -/
theorem step_txPipe (hop : ¬ a.IsControl)
    (htx : ∀ queueId descs, a ≠ .tx queueId descs)
    (h : s.step a = some (t, e)) :
    ∃ gone, s.txPipe = gone ++ t.txPipe ∧ e.left.Sublist gone
      ∧ (¬ e.LosesTx → gone = e.left) := by
  have hsame : t.txPipe = s.txPipe → e.left = [] →
      ∃ gone, s.txPipe = gone ++ t.txPipe ∧ e.left.Sublist gone
        ∧ (¬ e.LosesTx → gone = e.left) := by
    intro hpipe hleft
    rw [hpipe, hleft]
    exact ⟨[], rfl, List.nil_sublist _, fun _ => rfl⟩
  cases a with
  | configure _ => exact absurd trivial hop
  | configureRx _ _ => exact absurd trivial hop
  | configureTx _ _ => exact absurd trivial hop
  | start _ => exact absurd trivial hop
  | stop => exact absurd trivial hop
  | tx queueId descs => exact absurd rfl (htx queueId descs)
  | takeTx alloc =>
      simp only [step, Option.some.injEq, Prod.mk.injEq] at h
      obtain ⟨rfl, rfl⟩ := h
      unfold Link.takeTx
      rcases Link.take_cases alloc s.nic.link.txQueue with
        ⟨hq, htake⟩ | ⟨frame, rest, hq, ⟨-, htake⟩ | ⟨-, htake⟩⟩
      · rw [htake]
        exact ⟨[], rfl, List.nil_sublist _, fun _ => rfl⟩
      · rw [htake]
        exact ⟨[frame], hq, List.Sublist.refl _, fun _ => rfl⟩
      · rw [htake]
        exact ⟨[frame], hq, List.nil_sublist _, fun hno => absurd rfl hno⟩
  | updateReta reta =>
      obtain ⟨reta', r, rfl, rfl, -⟩ := step_updateReta h
      exact hsame rfl rfl
  | rx queueId =>
      rcases step_rx h with ⟨-, rfl, rfl⟩ | ⟨queue, -, rfl, rfl⟩
      · exact hsame rfl rfl
      · exact hsame rfl rfl
  | freeRx queueId tickets =>
      obtain ⟨⟨descs, r, rfl⟩, rfl | ⟨queue, ds, held, -, -, rfl⟩⟩ :=
        step_freeRx h
      · exact hsame rfl rfl
      · exact hsame rfl rfl
  | pollCheck =>
      obtain ⟨-, -, ⟨-, rfl, rfl⟩ | ⟨rfl, rfl⟩⟩ := step_pollCheck h
      · exact hsame rfl rfl
      · exact hsame rfl rfl
  | pollTake alloc =>
      obtain ⟨-, -, -,
        ⟨rfl, rfl⟩ | ⟨frame, rest, -, ⟨rfl, rfl⟩ | ⟨rfl, rfl⟩⟩⟩ :=
        step_pollTake h
      · exact hsame rfl rfl
      · exact hsame rfl rfl
      · exact hsame rfl rfl
  | pollFrame malloc now =>
      obtain ⟨packet, m, n, verdict, -, hp, rfl, rfl⟩ := step_pollFrame h
      exact hsame (congrArg (fun l : Link => l.txQueue.queue) hp.link) rfl
  | _ =>
      simp only [step, Option.some.injEq, Prod.mk.injEq] at h
      obtain ⟨rfl, rfl⟩ := h
      exact hsame rfl rfl

-- ============================================================= holding

/-- The number `k` stands for the frame `f`: queue `q` accepted the frame
at the place at which it returned the number. -/
def StandsAt (es : List Event) (q : UInt16) (i k : Nat) (f : Frame) :
    Prop :=
  ∃ d, (es.flatMap (Event.returned q))[i]? = some (d, k)
    ∧ (es.flatMap (Event.acceptedBy q))[i]? = some f

/-- A number goes on standing for its frame. -/
theorem StandsAt.append {i : Nat} (h : StandsAt es q i k f) (e : Event) :
    StandsAt (es ++ [e]) q i k f := by
  obtain ⟨d, hret, hacc⟩ := h
  refine ⟨d, ?_, ?_⟩
  · rw [List.flatMap_append]
    exact List.getElem?_append_left
      (List.getElem?_eq_some_iff.1 hret).1 |>.trans hret
  · rw [List.flatMap_append]
    exact List.getElem?_append_left
      (List.getElem?_eq_some_iff.1 hacc).1 |>.trans hacc

/-- What the numbers given out since `base` stand for. -/
structure Holding (base : Nat) (s : Sys) (es : List Event) : Prop where
  /-- A held number was returned. -/
  known : ∀ k d, base ≤ k → s.held.get k = some d →
    ∃ q, (d, k) ∈ es.flatMap (Event.returned q)
  /-- The chain of a held number spells its frame. -/
  spells : ∀ (q : UInt16) (i : Nat) (d : PacketDescriptor) (k : Nat)
    (f : Frame), (es.flatMap (Event.returned q))[i]? = some (d, k) →
    (es.flatMap (Event.acceptedBy q))[i]? = some f →
    s.held.get k = some d → Spells s.mem d f
  /-- The numbers of one queue grow. -/
  sorted : ∀ q, (es.flatMap (Event.returned q)).Pairwise
    fun r r' => r.2 < r'.2
  below : ∀ q, ∀ r ∈ es.flatMap (Event.returned q), r.2 < s.held.next

/-- Nothing has been returned yet, so no number is the period's own. -/
theorem Holding.init (s : Sys) : Holding s.held.next s [] where
  known k d hk hget := by
    have := Ledger.lt_of_get hget
    omega
  spells q i d k f h := by simp at h
  sorted q := List.Pairwise.nil
  below q r hr := by simp at hr

/-- A held number was held before the step, or is returned by it. -/
theorem held_of_step (hop : ¬ a.IsControl) (h : s.step a = some (t, e))
    (hget : t.held.get k = some d) :
    (k < s.held.next ∧ s.held.get k = some d)
    ∨ ∃ q, (d, k) ∈ e.returned q := by
  -- a number is new only by an rx that issued it
  by_cases hrx : a.TouchesRx
  · cases a with
    | rx queueId =>
        rcases step_rx h with ⟨-, rfl, -⟩ | ⟨queue, -, rfl, rfl⟩
        · exact Or.inl ⟨Ledger.lt_of_get hget, hget⟩
        · by_cases hk : k < s.held.next
          · exact Or.inl ⟨hk, (Ledger.get_issue_old s.held _ hk).symm.trans
              hget⟩
          · right
            have hlt := Ledger.lt_of_get hget
            rw [Ledger.issue_next] at hlt
            have hnew := Ledger.get_issue_new s.held queue.take.1
              (i := k - s.held.next) (by omega)
            rw [show s.held.next + (k - s.held.next) = k by omega] at hnew
            refine ⟨queueId, ?_⟩
            show (d, k) ∈ if queueId = queueId
              then queue.take.1.zipIdx s.held.next else []
            rw [if_pos rfl, List.mem_zipIdx_iff_le_and_getElem?_sub]
            exact ⟨by omega, hnew.symm.trans hget⟩
    | freeRx queueId tickets =>
        obtain ⟨-, rfl | ⟨queue, ds, held, -, hr, rfl⟩⟩ := step_freeRx h
        · exact Or.inl ⟨Ledger.lt_of_get hget, hget⟩
        · have hold := Ledger.get_of_redeem hr hget
          exact Or.inl ⟨Ledger.lt_of_get hold, hold⟩
    | pollFrame malloc now =>
        obtain ⟨packet, m, n, verdict, -, -, rfl, -⟩ := step_pollFrame h
        exact Or.inl ⟨Ledger.lt_of_get hget, hget⟩
    | _ => exact absurd hrx (fun hno => hno)
  · rw [(step_light hop hrx h).held] at hget
    exact Or.inl ⟨Ledger.lt_of_get hget, hget⟩

private theorem next_le_of_step (hop : ¬ a.IsControl)
    (h : s.step a = some (t, e)) :
    s.held.next ≤ t.held.next := by
  by_cases hrx : a.TouchesRx
  · cases a with
    | rx queueId =>
        rcases step_rx h with ⟨-, rfl, -⟩ | ⟨queue, -, rfl, -⟩
        · exact Nat.le_refl _
        · show s.held.next ≤ (s.held.issue _).next
          rw [Ledger.issue_next]
          exact Nat.le_add_right _ _
    | freeRx queueId tickets =>
        obtain ⟨-, rfl | ⟨queue, ds, held, -, hr, rfl⟩⟩ := step_freeRx h
        · exact Nat.le_refl _
        · exact (Ledger.redeem_next hr).ge
    | pollFrame malloc now =>
        obtain ⟨packet, m, n, verdict, -, -, rfl, -⟩ := step_pollFrame h
        exact Nat.le_refl _
    | _ => exact absurd hrx (fun hno => hno)
  · rw [(step_light hop hrx h).held]

/-- The numbers a step returns are new, and grow. -/
theorem QueueStep.numbers (h : QueueStep q s t e) :
    (e.returned q).Pairwise (fun r r' => r.2 < r'.2)
    ∧ ∀ r ∈ e.returned q, s.held.next ≤ r.2 ∧ r.2 < t.held.next := by
  cases h with
  | same _ _ hr =>
      rw [hr]
      exact ⟨.nil, fun r hr => by cases hr⟩
  | accepted _ _ _ _ hr _ _ =>
      rw [hr]
      exact ⟨.nil, fun r hr => by cases hr⟩
  | returned k _ _ hr _ hheld =>
      rw [hr, hheld, Ledger.issue_next]
      constructor
      · rw [← List.pairwise_map (f := Prod.snd) (R := (· < ·)),
          List.zipIdx_map_snd]
        exact List.pairwise_lt_range'
      · intro r hr
        have := List.mem_zipIdx_iff_le_and_getElem?_sub.1 hr
        obtain ⟨hle, hget⟩ := this
        have := (List.getElem?_eq_some_iff.1 hget).1
        omega

/-- One more step of the port: a number it returns is new, and the chains
it leaves alone spell what they spelled. -/
theorem Holding.step {base : Nat} (hi : Inv s) (hop : ¬ a.IsControl)
    (hstep : s.step a = some (t, e))
    (hd : ∀ q, Delivers n q s es) (h : Holding base s es) :
    Holding base t (es ++ [e]) := by
  have hk := step_custody hop hi.owners hstep
  -- what is held and known, what it spells, the order of the numbers, and
  -- their bound
  constructor
  · intro k d hbase hget
    rcases held_of_step hop hstep hget with ⟨-, hold⟩ | ⟨q, hnew⟩
    · obtain ⟨q, hmem⟩ := h.known k d hbase hold
      refine ⟨q, ?_⟩
      rw [List.flatMap_append]
      exact List.mem_append_left _ hmem
    · refine ⟨q, ?_⟩
      rw [List.flatMap_append, List.flatMap_singleton]
      exact List.mem_append_right _ hnew
  · intro q i d k f hret hacc hget
    have hq := step_queue (q := q) hop hstep
    obtain ⟨delivered, waiting, hsplit, hdel, hwait⟩ := hd q
    have hlen := hdel.length_eq
    rw [List.flatMap_append, List.flatMap_singleton] at hret hacc
    by_cases hlt : i < (es.flatMap (Event.returned q)).length
    · rw [List.getElem?_append_left hlt] at hret
      have hlt' : i < (es.flatMap (Event.acceptedBy q)).length := by
        rw [hsplit, List.length_append]
        omega
      rw [List.getElem?_append_left hlt'] at hacc
      have hbelow := h.below q (d, k) (List.mem_of_getElem? hret)
      have hold : s.held.get k = some d := by
        rcases held_of_step hop hstep hget with ⟨-, hold⟩ | ⟨p, hnew⟩
        · exact hold
        · have hle := ((step_queue (q := p) hop hstep).numbers.2 _ hnew).1
          omega
      exact (h.spells q i d k f hret hacc hold).congr
        (hk.chains d
          (List.mem_append_right _ (Ledger.mem_values_of_get hget))
          (List.mem_append_right _ (Ledger.mem_values_of_get hold)))
        (List.mem_singleton_self _)
    · -- the number is new: its frame waited
      have hle := Nat.le_of_not_lt hlt
      rw [List.getElem?_append_right hle] at hret
      cases hq with
      | same _ _ hr => simp [hr] at hret
      | accepted _ _ _ _ hr _ _ => simp [hr] at hret
      | returned j _ ha hr hmem _ =>
          rw [ha, List.append_nil, hsplit,
            List.getElem?_append_right (by omega), ← hlen] at hacc
          rw [hr, List.getElem?_zipIdx, Option.map_eq_some_iff] at hret
          obtain ⟨d', hd', heq⟩ := hret
          simp only [Prod.mk.injEq] at heq
          obtain ⟨rfl, -⟩ := heq
          rw [List.getElem?_take] at hd'
          split at hd'
          · rw [hmem]
            exact (forall₂_getElem? hwait hd' hacc).2
          · cases hd'
  · intro q
    have hnum := (step_queue (q := q) hop hstep).numbers
    rw [List.flatMap_append, List.flatMap_singleton, List.pairwise_append]
    exact ⟨h.sorted q, hnum.1, fun r hr r' hr' =>
      (h.below q r hr).trans_le (hnum.2 r' hr').1⟩
  · intro q r hr
    rw [List.flatMap_append, List.flatMap_singleton] at hr
    rcases List.mem_append.1 hr with hold | hnew
    · exact (h.below q r hold).trans_le (next_le_of_step hop hstep)
    · exact ((step_queue (q := q) hop hstep).numbers.2 r hnew).2

/-- `Holding` after a run of data-path steps. -/
theorem Holding.run {as : List Op} (hi : Inv s)
    (hempty : ∀ q, s.used q = []) (hdata : ∀ a ∈ as, ¬ a.IsControl)
    (hrun : sys.run s as = some (t, es)) : Holding s.held.next t es := by
  have hend := sys.run_history_along (G := fun _ a _ => ¬ a.IsControl)
    (P := fun u fs => Inv u ∧ u.nic.config = s.nic.config
      ∧ u.nic.macAddr = s.nic.macAddr ∧ (∀ q, Delivers s.nic q u fs)
      ∧ Holding s.held.next u fs)
    (fun {_ _ _ _ _} hP hs hop => by
      obtain ⟨hu, hc, hm, hd, hh⟩ := hP
      have hshape := step_sameShape hop hs
      exact ⟨hu.step hs, hshape.config.trans hc, hshape.macAddr.trans hm,
        fun q => (hd q).step hu hop hs hc hm, hh.step hu hop hs hd⟩)
    (sys.along_of_forall hdata s) hrun []
    ⟨hi, rfl, rfl, fun q => .init (hempty q), .init s⟩
  rw [List.nil_append] at hend
  exact hend.2.2.2.2

/-- What a held number sends is the frame it stands for. -/
theorem Holding.sent {base : Nat} (h : Holding base s es)
    (hd : ∀ q, Delivers n q s es) (hk : base ≤ k)
    (hget : s.held.get k = some d)
    (hlin : TxQueue.Linearised s.mem d f) :
    ∃ q i, StandsAt es q i k f := by
  obtain ⟨q, hmem⟩ := h.known k d hk hget
  obtain ⟨i, hi, hreti⟩ := List.getElem_of_mem hmem
  have hret : (es.flatMap (Event.returned q))[i]? = some (d, k) :=
    List.getElem?_eq_some_iff.2 ⟨hi, hreti⟩
  obtain ⟨delivered, waiting, hsplit, hdel, -⟩ := hd q
  have hlt : i < delivered.length := hdel.length_eq ▸ hi
  have hacc : (es.flatMap (Event.acceptedBy q))[i]? = some delivered[i] := by
    rw [hsplit, List.getElem?_append_left hlt,
      List.getElem?_eq_getElem hlt]
  have hcarries : Carries n q d delivered[i] :=
    (forall₂_getElem? hdel hret (List.getElem?_eq_getElem hlt)).1
  have hpos : 0 < delivered[i].length := by
    obtain ⟨parser, hparse, -⟩ := hcarries.passed
    refine List.length_pos_iff.2 fun hnil => ?_
    rw [hnil] at hparse
    cases hparse
  refine ⟨q, i, d, hret, ?_⟩
  rw [hlin.of_spells (h.spells q i d k _ hret hacc hget) hpos]
  exact hacc

end Sys

-- ============================================================ the relay

namespace Relay

open VNic Sys

variable {s t : Sys} {a : Op} {e : Event} {es : List Event}

/-- The calls that move the lifecycle. -/
def Op.IsControl : Op → Prop
  | .port a => a.IsControl
  | .send _ _ => False

/-- What the port shows. -/
def Event.asPort : Event → Sys.Event
  | .port e => e
  | .send _ r => .tx r

/-- The numbers of what was sent. -/
def Event.sent : Event → List Nat
  | .send tickets (.ok k) => tickets.take k
  | _ => []

/-- The descriptors are those the ledger has under the numbers. -/
private theorem named_eq {held : Ledger PacketDescriptor} :
    ∀ {tickets : List (TxQueue.Alloc × Nat)}
      {descs : List (TxQueue.Alloc × PacketDescriptor)},
      named held tickets = some descs →
      List.Forall₂ (fun k d => held.get k = some d.2)
        (tickets.map Prod.snd) descs := by
  intro tickets
  induction tickets with
  | nil =>
      intro descs h
      cases h
      exact .nil
  | cons p rest ih =>
      intro descs h
      obtain ⟨alloc, k⟩ := p
      unfold named at h
      cases hget : held.get k with
      | none => simp [hget] at h
      | some d =>
          cases hrest : named held rest with
          | none => simp [hget, hrest] at h
          | some ds =>
              simp only [hget, hrest] at h
              cases h
              exact .cons hget (ih hrest)

/-- A step of the port is no `tx`. -/
private theorem step_port {a : Sys.Op}
    (h : Relay.step s (.port a) = some (t, e)) :
    (∀ queueId descs, a ≠ .tx queueId descs)
      ∧ ∃ e', e = .port e' ∧ s.step a = some (t, e') := by
  have htx : ∀ queueId descs, a ≠ .tx queueId descs := by
    rintro queueId descs rfl
    cases h
  refine ⟨htx, ?_⟩
  cases a with
  | tx queueId descs => exact absurd rfl (htx queueId descs)
  | _ =>
      simp only [Relay.step] at h
      split at h
      · cases h
      · next u f hs =>
        simp only [Option.some.injEq, Prod.mk.injEq] at h
        obtain ⟨rfl, rfl⟩ := h
        exact ⟨f, rfl, hs⟩

/-- A `send` is a `tx` of held descriptors. -/
private theorem step_send {queueId : UInt16}
    {tickets : List (TxQueue.Alloc × Nat)}
    (h : Relay.step s (.send queueId tickets) = some (t, e)) :
    ∃ descs, named s.held tickets = some descs
      ∧ t = s.withNic (VNic.tx s.mem queueId descs s.nic).1
      ∧ e = .send (tickets.map Prod.snd)
        (VNic.tx s.mem queueId descs s.nic).2 := by
  simp only [Relay.step] at h
  split at h
  · cases h
  · next descs hnamed =>
    simp only [Option.some.injEq, Prod.mk.injEq] at h
    exact ⟨descs, hnamed, h.1.symm, h.2.symm⟩

/-- A step of the relay is a step of the port. -/
theorem step_asPort (hop : ¬ a.IsControl)
    (h : Relay.step s a = some (t, e)) :
    ∃ b, ¬ b.IsControl ∧ s.step b = some (t, e.asPort) := by
  cases a with
  | port a =>
      obtain ⟨-, e', rfl, hs⟩ := step_port h
      exact ⟨a, hop, hs⟩
  | send queueId tickets =>
      obtain ⟨descs, -, rfl, rfl⟩ := step_send h
      exact ⟨.tx queueId descs, fun hno => hno, rfl⟩

/-- A run of the relay is a run of the port. -/
theorem run_asPort {as : List Op} (hdata : ∀ a ∈ as, ¬ a.IsControl)
    (hrun : relay.run s as = some (t, es)) :
    ∃ bs : List Sys.Op, (∀ b ∈ bs, ¬ b.IsControl)
      ∧ sys.run s bs = some (t, es.map Event.asPort) := by
  induction as generalizing s es with
  | nil =>
      simp only [StepSystem.run_nil, Option.some.injEq,
        Prod.mk.injEq] at hrun
      obtain ⟨rfl, rfl⟩ := hrun
      exact ⟨[], by simp, rfl⟩
  | cons a rest ih =>
      obtain ⟨s₁, e, es', hs, hr, rfl⟩ := relay.run_cons hrun
      obtain ⟨ha, hrest⟩ := List.forall_mem_cons.1 hdata
      obtain ⟨b, hb, hstep⟩ := step_asPort ha hs
      obtain ⟨bs, hbs, hport⟩ := ih hrest hr
      exact ⟨b :: bs, List.forall_mem_cons.2 ⟨hb, hbs⟩,
        sys.run_of_step hstep hport⟩

/-- What a step adds to the TX pipe and what it removes from it. -/
theorem step_pipe (hop : ¬ a.IsControl)
    (h : Relay.step s a = some (t, e)) :
    ∃ gone frames, s.txPipe ++ frames = gone ++ t.txPipe
      ∧ e.asPort.left.Sublist gone
      ∧ (¬ e.asPort.LosesTx → gone = e.asPort.left)
      ∧ List.Forall₂ (fun k f => ∃ d, s.held.get k = some d
        ∧ TxQueue.Linearised s.mem d f) e.sent frames := by
  cases a with
  | port a =>
      obtain ⟨htx, e', rfl, hs⟩ := step_port h
      obtain ⟨gone, hpipe, hleft, hlost⟩ := step_txPipe hop htx hs
      exact ⟨gone, [], by rw [List.append_nil, hpipe], hleft, hlost, .nil⟩
  | send queueId tickets =>
      obtain ⟨descs, hnamed, rfl, rfl⟩ := step_send h
      have hnumbers := named_eq hnamed
      suffices hsuff : ∃ k frames,
          (VNic.tx s.mem queueId descs s.nic).1.link.txQueue.queue
            = s.txPipe ++ frames
          ∧ Event.sent (.send (tickets.map Prod.snd)
            (VNic.tx s.mem queueId descs s.nic).2)
            = (tickets.map Prod.snd).take k
          ∧ List.Forall₂ (fun d f => TxQueue.Linearised s.mem d.2 f)
            (descs.take k) frames by
        obtain ⟨k, frames, hpipe, hsent, hlins⟩ := hsuff
        refine ⟨[], frames, hpipe.symm, List.Sublist.refl _,
          fun _ => rfl, ?_⟩
        rw [hsent]
        have hcomp := forall₂_comp (List.forall₂_take k hnumbers) hlins
        exact hcomp.imp fun k f ⟨d, hget, hlin⟩ => ⟨d.2, hget, hlin⟩
      -- no such queue: tx sends nothing
      cases hq : s.nic.txQueues[queueId.toNat]? with
      | none =>
          rw [tx_of_no_queue hq]
          exact ⟨0, [], (List.append_nil _).symm, rfl, .nil⟩
      | some q =>
          obtain ⟨k, -, -, hburst⟩ := tx_sentOn hq s.mem descs
          obtain ⟨frames, hlins, hlink⟩ := hburst.link
          refine ⟨k, frames, ?_, ?_, hlins⟩
          · rw [hlink]
            rfl
          · by_cases hk : 0 < k ∨ descs = []
            · rw [hburst.answered hk]
              rfl
            · obtain ⟨hk0, hne⟩ := not_or.1 hk
              obtain ⟨⟨alloc, desc⟩, rest, rfl⟩ :=
                List.exists_cons_of_ne_nil hne
              obtain ⟨code, -, herr⟩ := hburst.failed alloc desc rest
                (Nat.eq_zero_of_not_pos hk0) rfl
              rw [herr, Nat.eq_zero_of_not_pos hk0]
              rfl

/-- What went through the TX pipe since it held `pipe`. -/
def Relayed (pipe : List Frame) (s : Sys) (es : List Event) : Prop :=
  ∃ gone frames, pipe ++ frames = gone ++ s.txPipe
    ∧ (es.flatMap fun e => e.asPort.left).Sublist gone
    ∧ ((∀ e ∈ es, ¬ e.asPort.LosesTx) →
      gone = es.flatMap fun e => e.asPort.left)
    ∧ List.Forall₂ (fun k f => ∃ q i,
        StandsAt (es.map Event.asPort) q i k f)
      (es.flatMap Event.sent) frames

/-- One more step: what it sends stands for a frame that came, and what
leaves is the head of the pipe. -/
theorem Relayed.step {pipe : List Frame} {base : Nat} {n : VNic}
    (hop : ¬ a.IsControl) (hs : Relay.step s a = some (t, e))
    (hd : ∀ q, Delivers n q s (es.map Event.asPort))
    (hh : Holding base s (es.map Event.asPort))
    (hown : ∀ k ∈ e.sent, base ≤ k) (h : Relayed pipe s es) :
    Relayed pipe t (es ++ [e]) := by
  obtain ⟨gone, frames, hpipe, hleft, hlost, hstands⟩ := h
  obtain ⟨gone', frames', hpipe', hleft', hlost', hsent⟩ :=
    step_pipe hop hs
  unfold Relayed
  simp only [List.flatMap_append, List.flatMap_singleton, List.map_append,
    List.map_singleton]
  refine ⟨gone ++ gone', frames ++ frames', ?_, hleft.append hleft',
    fun hno => ?_, List.rel_append ?_ ?_⟩
  · rw [← List.append_assoc, hpipe, List.append_assoc, hpipe',
      List.append_assoc]
  · rw [hlost fun f hf => hno f (List.mem_append_left _ hf),
      hlost' (hno e (List.mem_append_right _ (List.mem_singleton_self e)))]
  · exact hstands.imp fun k f ⟨q, i, hst⟩ => ⟨q, i, hst.append _⟩
  · have hboth := (List.forall₂_and_left e.sent frames').2 ⟨hown, hsent⟩
    refine hboth.imp fun k f ⟨hk, d, hget, hlin⟩ => ?_
    obtain ⟨q, i, hst⟩ := hh.sent hd hk hget hlin
    exact ⟨q, i, hst.append _⟩

/-- What a whole period sends came in it. -/
theorem Relayed.run {as : List Op} (hi : Inv s)
    (hempty : ∀ q, s.used q = []) (hdata : ∀ a ∈ as, ¬ a.IsControl)
    (hrun : relay.run s as = some (t, es))
    (hown : ∀ k ∈ es.flatMap Event.sent, s.held.next ≤ k) :
    Relayed s.txPipe t es := by
  have hguard := (relay.along_of_forall hdata s).and relay
    (relay.along_of_events hrun
      (G := fun e => ∀ k ∈ e.sent, s.held.next ≤ k)
      fun e he k hk => hown k (List.mem_flatMap.2 ⟨e, he, hk⟩))
  -- the guards of a period and the own numbers of the caller ride along
  -- the run
  have hend := relay.run_history_along (P := fun u fs =>
      Inv u ∧ u.nic.config = s.nic.config ∧ u.nic.macAddr = s.nic.macAddr
      ∧ (∀ q, Delivers s.nic q u (fs.map Event.asPort))
      ∧ Holding s.held.next u (fs.map Event.asPort)
      ∧ Relayed s.txPipe u fs)
    (fun {u v a e fs} hP hs hg => by
      obtain ⟨hu, hc, hm, hd, hh, hr⟩ := hP
      obtain ⟨b, hb, hstep⟩ := step_asPort hg.1 hs
      have hshape := step_sameShape hb hstep
      rw [List.map_append, List.map_singleton]
      exact ⟨hu.step hstep, hshape.config.trans hc,
        hshape.macAddr.trans hm,
        fun q => (hd q).step hu hb hstep hc hm, hh.step hu hb hstep hd,
        hr.step hg.1 hs hd hh hg.2⟩)
    hguard hrun [] ⟨hi, rfl, rfl, fun q => .init (hempty q), .init s,
      [], [], List.append_nil _, List.Sublist.refl _, fun _ => rfl, .nil⟩
  rw [List.nil_append] at hend
  exact hend.2.2.2.2.2

/-- A relay sends what came. In every interleaving of a started port's
data path with a relay that sends descriptors it received and holds, what
was in the TX pipe and what `tx` accepted is, in order, what left the pipe
and what is in it; and what `tx` accepted under a number is, byte for
byte, the frame the number's queue accepted from the link. Whatever else
is received, freed or sent in between does not matter. -/
theorem relay_sends_what_came {blocks : Blocks} {as : List Sys.Op}
    {bs : List Op} {s₀ : Sys} {fs : List Sys.Event} {env : StartEnv}
    (hrun : sys.run (Sys.init blocks) as = some (s, fs))
    (hstart : s.step (.start env) = some (s₀, .start (.ok ())))
    (hdata : ∀ a ∈ bs, ¬ a.IsControl)
    (hperiod : relay.run s₀ bs = some (t, es))
    (hown : ∀ k ∈ es.flatMap Event.sent, s₀.held.next ≤ k) :
    ∃ gone frames, s₀.txPipe ++ frames = gone ++ t.txPipe
      ∧ (es.flatMap fun e => e.asPort.left).Sublist gone
      ∧ ((∀ e ∈ es, ¬ e.asPort.LosesTx) →
        gone = es.flatMap fun e => e.asPort.left)
      ∧ List.Forall₂ (fun k f => ∃ q i,
          StandsAt (es.map Event.asPort) q i k f)
        (es.flatMap Event.sent) frames :=
  Relayed.run ((Sys.Inv.run hrun).step hstart)
    (started_fresh (Sys.Inv.run hrun) hstart).1 hdata hperiod hown

/-- Up to `start`: both directions of a flow go to queue 0. -/
def readied : List Sys.Op :=
  [.configure { symmetricQueues with txQueueCount := 1 },
    .configureRx 0 { size := 2 }, .configureRx 1 { size := 2 },
    .configureTx 0 {}]

/-- A request is relayed and freed, then its answer is relayed. -/
def bothSent : List Op :=
  [.port (.setUp true), .port (.putRx true request),
    .port (.putRx true reply), .port .pollCheck, .port (.pollTake true),
    .port (.pollFrame .bump 0), .port (.rx 0), .send 0 [({}, 0)],
    .port (.freeRx 0 [0]), .port (.takeTx true), .port .pollCheck,
    .port (.pollTake true), .port (.pollFrame .bump 0), .port (.rx 0),
    .send 0 [({}, 1)], .port (.takeTx true)]

/-- What that run shows. -/
private theorem bothSent_run :
    ∃ s fs s₀ t es, sys.run (Sys.init ∅) readied = some (s, fs)
      ∧ s.step (.start {}) = some (s₀, .start (.ok ()))
      ∧ relay.run s₀ bothSent = some (t, es)
      ∧ (s₀.txPipe = [] ∧ t.txPipe = []
        ∧ (∀ k ∈ es.flatMap Event.sent, s₀.held.next ≤ k)
        ∧ .port (.updateReta (.ok ())) ∉ es)
      ∧ (es.flatMap Event.sent = [0, 1]
        ∧ (es.flatMap fun e => e.asPort.left) = [request, reply]
        ∧ ∀ e ∈ es, ¬ e.asPort.LosesTx)
      ∧ s₀.nic.InFlow request.tuple request
      ∧ s₀.nic.InFlow request.tuple reply := by
  -- evaluated once: the run, and the facts both theorems ask for
  have heval : ((sys.run (Sys.init ∅) readied).bind fun p =>
      (p.1.step (.start {})).bind fun p₀ =>
        (relay.run p₀.1 bothSent).map fun p' =>
          (p₀.2, decide (p₀.1.txPipe = [] ∧ p'.1.txPipe = []
              ∧ (∀ k ∈ p'.2.flatMap Event.sent, p₀.1.held.next ≤ k)
              ∧ .port (.updateReta (.ok ())) ∉ p'.2),
            decide (p'.2.flatMap Event.sent = [0, 1]
              ∧ (p'.2.flatMap fun e => e.asPort.left) = [request, reply]
              ∧ ∀ e ∈ p'.2, ¬ e.asPort.LosesTx),
            decide (p₀.1.nic.InFlow request.tuple request
              ∧ p₀.1.nic.InFlow request.tuple reply)))
      = some (.start (.ok ()), true, true, true) := by decide +kernel
  obtain ⟨⟨s, fs⟩, hrun, heval⟩ := Option.bind_eq_some_iff.1 heval
  obtain ⟨⟨s₀, e₀⟩, hstart, heval⟩ := Option.bind_eq_some_iff.1 heval
  obtain ⟨⟨t, es⟩, hperiod, heval⟩ := Option.map_eq_some_iff.1 heval
  simp only [Prod.mk.injEq, decide_eq_true_eq] at heval
  obtain ⟨rfl, hpipes, hsent, hflow⟩ := heval
  exact ⟨s, fs, s₀, t, es, hrun, hstart, hperiod, hpipes, hsent, hflow⟩

private theorem bothSent_data : ∀ a ∈ bothSent, ¬ a.IsControl := by
  simp [bothSent, Op.IsControl, Sys.Op.IsControl]

/-- Number 0 stands for the request and number 1 for the answer. -/
theorem relay_sends_what_came_bothSent :
    ∃ s fs s₀ t es, sys.run (Sys.init ∅) readied = some (s, fs)
      ∧ s.step (.start {}) = some (s₀, .start (.ok ()))
      ∧ relay.run s₀ bothSent = some (t, es)
      ∧ List.Forall₂ (fun k f => ∃ q i,
          StandsAt (es.map Event.asPort) q i k f) [0, 1]
        [request, reply] := by
  obtain ⟨s, fs, s₀, t, es, hrun, hstart, hperiod,
    ⟨hbefore, hafter, hown, -⟩, ⟨hsent, hleft, hkept⟩, -⟩ := bothSent_run
  obtain ⟨gone, frames, hpipe, -, hgone, hstands⟩ :=
    relay_sends_what_came hrun hstart bothSent_data hperiod hown
  -- all that was sent has left the pipe
  rw [hbefore, hafter, List.nil_append, List.append_nil, hgone hkept,
    hleft] at hpipe
  rw [hpipe, hsent] at hstands
  exact ⟨s, fs, s₀, t, es, hrun, hstart, hperiod, hstands⟩

/-- The numbers `rx` returned from a queue. -/
def numbers (q : UInt16) (es : List Event) : List Nat :=
  ((es.map Event.asPort).flatMap (Sys.Event.returned q)).map Prod.snd

/-- A relay keeps every flow in order. If it sends what it received from
the flow's queue in the order in which it received it, each at most once,
then the frames of the flow that leave the link, but for what the TX pipe
held before, are some of those that entered it, in the order in which
they entered: none is made up, changed, repeated or overtaken. Between
queues any order will do. -/
theorem relay_keeps_order {blocks : Blocks} {as : List Sys.Op}
    {bs : List Op} {s₀ : Sys} {fs : List Sys.Event} {env : StartEnv}
    (hrun : sys.run (Sys.init blocks) as = some (s, fs))
    (hstart : s.step (.start env) = some (s₀, .start (.ok ())))
    (hdata : ∀ a ∈ bs, ¬ a.IsControl)
    (hperiod : relay.run s₀ bs = some (t, es))
    (hown : ∀ k ∈ es.flatMap Event.sent, s₀.held.next ≤ k)
    (hreta : .port (.updateReta (.ok ())) ∉ es) (tuple : FiveTuple)
    (horder : ((es.flatMap Event.sent).filter
        (· ∈ numbers (s₀.nic.flowQueue tuple) es)).Pairwise (· < ·)) :
    ((es.flatMap fun e => e.asPort.left).filter
        (s₀.nic.InFlow tuple)).Sublist
      (s₀.txPipe.filter (s₀.nic.InFlow tuple)
        ++ (s₀.pipe ++ (es.map Event.asPort).flatMap
          Sys.Event.injected).filter (s₀.nic.InFlow tuple)) := by
  have hi₀ : Inv s₀ := (Sys.Inv.run hrun).step hstart
  obtain ⟨hempty, hnone⟩ := started_fresh (Sys.Inv.run hrun) hstart
  obtain ⟨gone, frames, hpipe, hleft, -, hstands⟩ :=
    Relayed.run hi₀ hempty hdata hperiod hown
  obtain ⟨cs, hcs, hport⟩ := run_asPort hdata hperiod
  have hholding := Holding.run hi₀ hempty hcs hport
  have hsteered : ∀ e ∈ es.map Event.asPort, Steered s₀.nic tuple e := by
    refine run_steered hcs (fun hmem => ?_) hport
    obtain ⟨e, he, heq⟩ := List.mem_map.1 hmem
    cases e with
    | port e' =>
        rw [show e' = .updateReta (.ok ()) from heq] at he
        exact hreta he
    | send _ _ => cases heq
  -- a frame of the flow was accepted by the flow's queue
  have hqueue : ∀ k f, (∃ q i, StandsAt (es.map Event.asPort) q i k f) →
      s₀.nic.InFlow tuple f →
      ∃ i, StandsAt (es.map Event.asPort) (s₀.nic.flowQueue tuple) i k f
      := by
    rintro k f ⟨q, i, d, hret, hacc⟩ hflow
    obtain ⟨e, he, hfe⟩ := List.mem_flatMap.1 (List.mem_of_getElem? hacc)
    have hq : q = s₀.nic.flowQueue tuple := by
      by_contra hne
      exact (hsteered e he).elsewhere hne hfe hflow
    exact hq ▸ ⟨i, d, hret, hacc⟩
  obtain ⟨ks, hks, hsub⟩ := forall₂_filter hstands
    (c := fun k => decide (k ∈ numbers (s₀.nic.flowQueue tuple) es))
    (p := fun f => decide (s₀.nic.InFlow tuple f)) fun k f hst hflow => by
      obtain ⟨i, d, hret, -⟩ := hqueue k f hst (of_decide_eq_true hflow)
      exact decide_eq_true
        (List.mem_map.2 ⟨(d, k), List.mem_of_getElem? hret, rfl⟩)
  have hkeys : List.Forall₂ (fun k f => ∃ i : Nat,
      (numbers (s₀.nic.flowQueue tuple) es)[i]? = some k
      ∧ ((es.map Event.asPort).flatMap
        (Sys.Event.acceptedBy (s₀.nic.flowQueue tuple)))[i]? = some f)
      ks (frames.filter (s₀.nic.InFlow tuple)) := by
    refine hks.imp fun k f ⟨hst, hflow⟩ => ?_
    obtain ⟨i, d, hret, hacc⟩ := hqueue k f hst (of_decide_eq_true hflow)
    refine ⟨i, ?_, hacc⟩
    unfold numbers
    rw [List.getElem?_map, hret]
    rfl
  have hsorted : (numbers (s₀.nic.flowQueue tuple) es).Pairwise (· < ·) :=
    List.pairwise_map.2 (hholding.sorted (s₀.nic.flowQueue tuple))
  have hframes : (frames.filter (s₀.nic.InFlow tuple)).Sublist
      ((es.map Event.asPort).flatMap
        (Sys.Event.acceptedBy (s₀.nic.flowQueue tuple))) :=
    sublist_of_keys hsorted hkeys (horder.sublist hsub) 0
      fun _ _ _ _ => Nat.zero_le _
  have haccepted : ((es.map Event.asPort).flatMap
      (Sys.Event.acceptedBy (s₀.nic.flowQueue tuple))).filter
        (s₀.nic.InFlow tuple)
      = ((es.map Event.asPort).flatMap Sys.Event.accepted).filter
        (s₀.nic.InFlow tuple) :=
    filter_flatMap_congr fun e he => (hsteered e he).accepted
  calc ((es.flatMap fun e => e.asPort.left).filter
          (s₀.nic.InFlow tuple)).Sublist
        ((s₀.txPipe ++ frames).filter (s₀.nic.InFlow tuple)) := by
          rw [hpipe]
          exact (hleft.trans (List.sublist_append_left _ _)).filter _
    _ = s₀.txPipe.filter (s₀.nic.InFlow tuple)
          ++ (frames.filter (s₀.nic.InFlow tuple)).filter
            (s₀.nic.InFlow tuple) := by
          rw [List.filter_append, List.filter_filter]
          simp only [Bool.and_self]
    List.Sublist _ (s₀.txPipe.filter (s₀.nic.InFlow tuple)
          ++ (s₀.pipe ++ (es.map Event.asPort).flatMap
            Sys.Event.injected).filter (s₀.nic.InFlow tuple)) := by
          refine List.Sublist.append_left ?_ _
          refine (hframes.filter _).trans ?_
          rw [haccepted]
          exact (run_accepted hi₀ hnone hport).filter _

/-- Request and answer leave in the order in which they came. -/
theorem relay_keeps_order_bothSent :
    ∃ s fs s₀ t es, sys.run (Sys.init ∅) readied = some (s, fs)
      ∧ s.step (.start {}) = some (s₀, .start (.ok ()))
      ∧ relay.run s₀ bothSent = some (t, es)
      ∧ ([request, reply].filter (s₀.nic.InFlow request.tuple)).Sublist
        (s₀.txPipe.filter (s₀.nic.InFlow request.tuple)
          ++ (s₀.pipe ++ (es.map Event.asPort).flatMap
            Sys.Event.injected).filter (s₀.nic.InFlow request.tuple))
      ∧ s₀.nic.InFlow request.tuple request
      ∧ s₀.nic.InFlow request.tuple reply := by
  obtain ⟨s, fs, s₀, t, es, hrun, hstart, hperiod,
    ⟨-, -, hown, hreta⟩, ⟨hsent, hleft, -⟩, hflow⟩ := bothSent_run
  have horder : ((es.flatMap Event.sent).filter
      (· ∈ numbers (s₀.nic.flowQueue request.tuple) es)).Pairwise
        (· < ·) := by
    rw [hsent]
    exact (List.pairwise_lt_range (n := 2)).sublist List.filter_sublist
  have hkeeps := relay_keeps_order hrun hstart bothSent_data hperiod hown
    hreta request.tuple horder
  rw [hleft] at hkeeps
  exact ⟨s, fs, s₀, t, es, hrun, hstart, hperiod, hkeeps, hflow⟩

end Relay

end Vnic
