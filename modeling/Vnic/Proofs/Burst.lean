/-
`VNic::tx`: bursts, and the transmit counters.

A burst is sent from the left until `put` refuses a descriptor. The
longest prefix that `put` accepts in turn (`TxQueue.Longest`) decides
everything: what enters the TX pipe, what the counters of the port and of
the queue gain, and the answer (`Burst`). Port and queue gain the same in
one call, so from a `configure(config)` on, which replaces the queues, the
port's transmit counters grow by the sums over the queues (`TxCounted`).

# The induction

The loop is followed along the list (`txLoop_burst`). Sending one
descriptor and then `k` more is sending `k + 1` (`sentOn`), which is where
the counters add up: the source bumps them one descriptor at a time, and
after `k` of them they have gained `k` and the sum of `k` lengths. The
loop ends at the end of the list or at the first refusal; `tx` answers
with the code of the refusal if nothing was sent before it, and with the
number sent otherwise.
-/
import Mathlib.Algebra.GroupWithZero.Nat
import Mathlib.Data.UInt
import Vnic.Proofs.Accounting

namespace Vnic

-- ========================================================= the prefixes

namespace TxQueue

variable {m : Memory} {s s' : Link × TxQueue} {alloc : Alloc}
  {desc : PacketDescriptor} {rest : List (Alloc × PacketDescriptor)}

/-- `put` one descriptor after the other; `none` once one is refused. -/
def putAll (m : Memory) :
    Link × TxQueue → List (Alloc × PacketDescriptor) →
    Option (Link × TxQueue)
  | s, [] => some s
  | s, (alloc, desc) :: rest =>
      match put alloc m desc s with
      | (s, .ok ()) => putAll m s rest
      | (_, .error _) => none

/-- `k` is the length of the longest prefix that `put` accepts in turn. -/
structure Longest (m : Memory) (s : Link × TxQueue)
    (descs : List (Alloc × PacketDescriptor)) (k : Nat) : Prop where
  le : k ≤ descs.length
  accepted : (putAll m s (descs.take k)).isSome = true
  longest : ∀ j, k < j → j ≤ descs.length →
    putAll m s (descs.take j) = none

/-- Of an empty burst nothing is sent. -/
theorem Longest.nil : Longest m s [] 0 :=
  ⟨Nat.le_refl 0, rfl, fun j hj hle => absurd hj (by simpa using hle)⟩

/-- A burst whose first descriptor is refused ends there. -/
theorem Longest.refused {e : ErrorCode}
    (h : put alloc m desc s = (s', .error e)) :
    Longest m s ((alloc, desc) :: rest) 0 := by
  refine ⟨Nat.zero_le _, rfl, fun j hj _ => ?_⟩
  cases j with
  | zero => exact absurd hj (Nat.lt_irrefl 0)
  | succ j =>
      rw [List.take_succ_cons]
      unfold putAll
      rw [h]

/-- One that is accepted goes on behind it. -/
private theorem Longest.accept {k : Nat}
    (h : put alloc m desc s = (s', .ok ()))
    (hrest : Longest m s' rest k) :
    Longest m s ((alloc, desc) :: rest) (k + 1) := by
  have hput : ∀ ds, putAll m s ((alloc, desc) :: ds) = putAll m s' ds := by
    intro ds
    rw [putAll, h]
  refine ⟨?_, ?_, fun j hj hle => ?_⟩
  · rw [List.length_cons]
    exact Nat.succ_le_succ hrest.le
  · rw [List.take_succ_cons, hput]
    exact hrest.accepted
  · cases j with
    | zero => exact absurd hj (Nat.not_lt_zero _)
    | succ j =>
        rw [List.take_succ_cons, hput]
        rw [List.length_cons] at hle
        exact hrest.longest j (by omega) (by omega)

/-- No control call touches the counters. -/
theorem Control.stats {q q' : TxQueue} (h : Control q q') :
    q'.stats = q.stats := by
  cases h with
  | configure config =>
      rcases Stateful.configure_cases (configureImpl config) q with
        ⟨-, heq⟩ | ⟨-, ⟨t, ht, heq⟩ | ⟨t, e, ht, heq⟩⟩
      · rw [TxQueue.configure, heq]
      · rw [TxQueue.configure, heq]
        cases ht
        rfl
      · cases ht
  | start inject =>
      rcases startOr_cases inject q with
        ⟨-, heq⟩ | ⟨-, -, heq⟩ | ⟨e, -, -, heq⟩
      · rw [heq]
      · rw [heq]
      · rw [heq]
  | stop =>
      rcases stop_cases q with ⟨-, heq⟩ | ⟨-, heq⟩
      · rw [heq]
      · rw [heq]

end TxQueue

namespace VNic

-- ========================================================== one burst

/-- Sum of the `totalLength` fields. -/
def lengths (ds : List (TxQueue.Alloc × PacketDescriptor)) : Nat :=
  (ds.map fun d => d.2.totalLength.toNat).sum

/-- The port after it sent `sent` as `frames` and was refused `refused`
(at most one descriptor) on queue `i`. -/
def sentOn (i : Nat) (q : TxQueue) (frames : List Frame)
    (sent refused : List (TxQueue.Alloc × PacketDescriptor)) (n : VNic) :
    VNic :=
  { n with
    link := { n.link with
      txQueue :=
        { n.link.txQueue with queue := n.link.txQueue.queue ++ frames } }
    txQueues := n.txQueues.set i { q with
      stats := { q.stats with
        processedPackets :=
          q.stats.processedPackets + UInt64.ofNat sent.length
        processedBytes :=
          q.stats.processedBytes + UInt64.ofNat (lengths sent)
        droppedPackets :=
          q.stats.droppedPackets + UInt64.ofNat refused.length
        droppedBytes :=
          q.stats.droppedBytes + UInt64.ofNat (lengths refused) } }
    stats := { n.stats with
      transmittedPackets :=
        n.stats.transmittedPackets + UInt64.ofNat sent.length
      transmittedBytes :=
        n.stats.transmittedBytes + UInt64.ofNat (lengths sent)
      txDroppedPackets :=
        n.stats.txDroppedPackets + UInt64.ofNat refused.length
      txDroppedBytes :=
        n.stats.txDroppedBytes + UInt64.ofNat (lengths refused) } }

variable {m : Memory} {n : VNic} {i : Nat} {q : TxQueue}

/-- The queue after it accepted one descriptor. -/
def counting (q : TxQueue) (desc : PacketDescriptor) : TxQueue :=
  { q with stats := q.stats.fetchProcessed desc.totalLength.toNat }

/-- The port after queue `i` accepted one descriptor. -/
def sentOne (i : Nat) (q : TxQueue) (packet : Frame)
    (desc : PacketDescriptor) (n : VNic) : VNic :=
  { n with
    link := { n.link with
      txQueue :=
        { n.link.txQueue with queue := n.link.txQueue.queue ++ [packet] } }
    txQueues := n.txQueues.set i (counting q desc)
    stats := n.stats.fetchTransmitted desc.totalLength.toNat }

private theorem sentOn_nil (hq : n.txQueues[i]? = some q) :
    n.sentOn i q [] [] [] = n := by
  have hset : n.txQueues.set i q = n.txQueues := by
    obtain ⟨hlt, hget⟩ := List.getElem?_eq_some_iff.1 hq
    rw [← hget]
    exact List.set_getElem_self hlt
  simp [sentOn, lengths, hset]

/-- One accepted descriptor, and then the rest. -/
private theorem sentOn_cons (alloc : TxQueue.Alloc) {desc : PacketDescriptor}
    {packet : Frame} {frames : List Frame}
    {sent refused : List (TxQueue.Alloc × PacketDescriptor)} :
    (n.sentOne i q packet desc).sentOn i (counting q desc) frames sent
      refused
    = n.sentOn i q (packet :: frames) ((alloc, desc) :: sent) refused := by
  have hcount : ∀ c : UInt64,
      c + 1 + UInt64.ofNat sent.length
        = c + UInt64.ofNat (sent.length + 1) := by
    intro c
    rw [UInt64.ofNat_add, UInt64.add_assoc,
      UInt64.add_comm (UInt64.ofNat sent.length)]
    rfl
  have hbytes : ∀ c : UInt64,
      c + UInt64.ofNat desc.totalLength.toNat + UInt64.ofNat (lengths sent)
        = c + UInt64.ofNat (lengths ((alloc, desc) :: sent)) := by
    intro c
    rw [UInt64.add_assoc, ← UInt64.ofNat_add]
    rfl
  simp only [sentOn, sentOne, counting, Stats.fetchProcessed,
    Stats.fetchTransmitted, hcount, hbytes, List.set_set, List.append_assoc, List.singleton_append,
    List.length_cons]

/-- The loop of `tx` sends the longest accepted prefix, stops at the
descriptor behind it and never looks further. -/
theorem txLoop_burst (m : Memory) (i : Nat) :
    ∀ (descs : List (TxQueue.Alloc × PacketDescriptor)) {n : VNic}
      {q : TxQueue} (sent : Nat), n.txQueues[i]? = some q →
      ∃ k frames e, TxQueue.Longest m (n.link, q) descs k
        ∧ List.Forall₂ (fun d f => TxQueue.Linearised m d.2 f)
          (descs.take k) frames
        ∧ txLoop m i descs n sent
          = (n.sentOn i q frames (descs.take k) descs[k]?.toList,
              sent + k, e)
        ∧ txLoop m i (descs.take (k + 1)) n sent = txLoop m i descs n sent
        ∧ (k = descs.length → e = .none)
        ∧ (∀ alloc desc rest, k = 0 → descs = (alloc, desc) :: rest →
          e ≠ .none
            ∧ (TxQueue.put alloc m desc (n.link, q)).2 = .error e) := by
  intro descs
  induction descs with
  | nil =>
      intro n q sent hq
      -- an empty burst leaves no error: `tx` reports one only from here on
      refine ⟨0, [], .none, .nil, .nil, ?_, rfl, fun _ => rfl, ?_⟩
      · rw [List.take_nil, List.getElem?_nil, Option.toList_none,
          sentOn_nil hq]
        rfl
      · intro alloc desc rest _ h
        cases h
  | cons head rest ih =>
      intro n q sent hq
      obtain ⟨alloc, desc⟩ := head
      rcases TxQueue.put_cases alloc m desc n.link q with
        ⟨e, he, hput⟩ | ⟨packet, hlin, hput⟩
      · -- refused: the loop ends here
        have hloop : ∀ ds, txLoop m i ((alloc, desc) :: ds) n sent
            = (n.sentOn i q [] [] [(alloc, desc)], sent, e) := by
          intro ds
          unfold txLoop
          simp only [hq, hput]
          simp [sentOn, lengths, TxQueue.drop, Stats.fetchDropped,
            Stats.fetchTxDropped]
        refine ⟨0, [], e, .refused hput, .nil, ?_, ?_, ?_, ?_⟩
        · exact hloop rest
        · rw [List.take_succ_cons, hloop, hloop]
        · intro h
          cases h
        · intro alloc' desc' rest' _ h
          cases h
          exact ⟨he, by rw [hput]⟩
      · -- accepted: the rest is a burst of its own
        have hlt := (List.getElem?_eq_some_iff.1 hq).1
        obtain ⟨k, frames, e, hlong, hlins, hloop, htake, hnone, -⟩ :=
          ih (n := n.sentOne i q packet desc) (q := counting q desc)
            (sent + 1) (List.getElem?_set_self hlt)
        have hcons : ∀ ds, txLoop m i ((alloc, desc) :: ds) n sent
            = txLoop m i ds (n.sentOne i q packet desc) (sent + 1) := by
          intro ds
          rw [txLoop]
          simp only [hq, hput]
          rfl
        refine ⟨k + 1, packet :: frames, e, .accept hput hlong, ?_, ?_, ?_,
          ?_, ?_⟩
        · rw [List.take_succ_cons]
          exact .cons hlin hlins
        · rw [hcons, hloop, sentOn_cons alloc,
            List.take_succ_cons, List.getElem?_cons_succ, Nat.add_assoc,
            Nat.add_comm 1 k]
        · rw [List.take_succ_cons, hcons, hcons, htake]
        · intro hk
          rw [List.length_cons] at hk
          exact hnone (by omega)
        · intro _ _ _ hk _
          cases hk

/-- A burst on queue `q` of a port, and what `tx` makes of it. -/
structure Burst (m : Memory) (queueId : UInt16)
    (descs : List (TxQueue.Alloc × PacketDescriptor)) (n : VNic)
    (q : TxQueue) (k : Nat) : Prop where
  /-- `k` descriptors are accepted, one after the other. -/
  longest : TxQueue.Longest m (n.link, q) descs k
  /-- They enter the TX pipe in order; nothing else of the link moves. -/
  link : ∃ frames,
    List.Forall₂ (fun d f => TxQueue.Linearised m d.2 f) (descs.take k)
      frames
    ∧ (tx m queueId descs n).1.link = { n.link with
        txQueue :=
          { n.link.txQueue with queue := n.link.txQueue.queue ++ frames } }
  transmittedPackets : (tx m queueId descs n).1.stats.transmittedPackets
    = n.stats.transmittedPackets + UInt64.ofNat k
  transmittedBytes : (tx m queueId descs n).1.stats.transmittedBytes
    = n.stats.transmittedBytes + UInt64.ofNat (lengths (descs.take k))
  /-- The descriptor behind them, if any, is dropped. -/
  txDroppedPackets : (tx m queueId descs n).1.stats.txDroppedPackets
    = n.stats.txDroppedPackets + if k < descs.length then 1 else 0
  txDroppedBytes : (tx m queueId descs n).1.stats.txDroppedBytes
    = n.stats.txDroppedBytes + match descs[k]? with
      | some d => UInt64.ofNat d.2.totalLength.toNat
      | none => 0
  /-- The descriptors after that one do not matter. -/
  rest : tx m queueId descs n = tx m queueId (descs.take (k + 1)) n
  /-- Nothing sent is an error if there was something to send. -/
  failed : ∀ alloc desc rest, k = 0 → descs = (alloc, desc) :: rest →
    ∃ e, (TxQueue.put alloc m desc (n.link, q)).2 = .error e
      ∧ (tx m queueId descs n).2 = .error e
  answered : 0 < k ∨ descs = [] → (tx m queueId descs n).2 = .ok k

/-- `tx` from the result of its loop: the error counts only where nothing
was sent. -/
private theorem tx_of_loop {queueId : UInt16}
    {descs : List (TxQueue.Alloc × PacketDescriptor)} {n' : VNic}
    {sent : Nat} {e : ErrorCode} (hlt : queueId.toNat < n.txQueues.length)
    (h : txLoop m queueId.toNat descs n 0 = (n', sent, e)) :
    tx m queueId descs n
      = (n', if sent = 0 ∧ e ≠ .none then .error e else .ok sent) := by
  unfold tx
  rw [if_neg (Nat.not_le.2 hlt), h]
  simp only
  split
  · rfl
  · rfl

/-- On a queue that does not exist nothing is sent. -/
theorem tx_of_no_queue {queueId : UInt16}
    {descs : List (TxQueue.Alloc × PacketDescriptor)}
    (h : n.txQueues[queueId.toNat]? = none) :
    tx m queueId descs n = (n, .error .queueInvalidId) := by
  unfold tx
  rw [if_pos (List.getElem?_eq_none_iff.1 h)]

/-- What `tx` leaves of the port, and what it answers. -/
theorem tx_sentOn {queueId : UInt16}
    (hq : n.txQueues[queueId.toNat]? = some q) (m : Memory)
    (descs : List (TxQueue.Alloc × PacketDescriptor)) :
    ∃ k frames, (tx m queueId descs n).1
        = n.sentOn queueId.toNat q frames (descs.take k) descs[k]?.toList
      ∧ Burst m queueId descs n q k := by
  have hlt := (List.getElem?_eq_some_iff.1 hq).1
  obtain ⟨k, frames, e, hlong, hlins, hloop, htake, hnone, herror⟩ :=
    txLoop_burst m queueId.toNat descs 0 hq
  rw [Nat.zero_add] at hloop
  have htx := tx_of_loop hlt hloop
  have hlen : (descs.take k).length = k := List.length_take_of_le hlong.le
  refine ⟨k, frames, by rw [htx], hlong, ⟨frames, hlins, ?_⟩, ?_, ?_, ?_,
    ?_, ?_, ?_, ?_⟩
  · rw [htx]
    rfl
  · rw [htx]
    show _ + UInt64.ofNat (descs.take k).length = _
    rw [hlen]
  · rw [htx]
    rfl
  · rw [htx]
    show _ + UInt64.ofNat descs[k]?.toList.length = _
    -- the descriptor after the `k` sent, if there is one, is the one
    -- dropped
    by_cases hk : k < descs.length
    · rw [if_pos hk, List.getElem?_eq_getElem hk]
      rfl
    · rw [if_neg hk, List.getElem?_eq_none (Nat.not_lt.1 hk)]
      rfl
  · rw [htx]
    show _ + UInt64.ofNat (lengths descs[k]?.toList) = _
    cases descs[k]? with
    | none => rfl
    | some d => simp [lengths]
  · rw [htx, tx_of_loop hlt (htake.trans hloop)]
  · intro alloc desc rest hk hdescs
    obtain ⟨he, hput⟩ := herror alloc desc rest hk hdescs
    refine ⟨e, hput, ?_⟩
    rw [htx]
    simp only
    rw [if_pos ⟨hk, he⟩]
  · intro hk
    rw [htx]
    simp only
    rw [if_neg]
    rintro ⟨h0, he⟩
    rcases hk with hk | hk
    · omega
    · exact he (hnone (by rw [hk, h0]; rfl))

end VNic

-- ============================================================ a period

namespace Sys

open Row VNic

variable {s t : Sys} {a : Op} {e : Event} {es fs : List Event}

/-- One counter summed over the TX queues. -/
def txTotal (counter : Stats → UInt64) (s : Sys) : UInt64 :=
  (s.nic.txQueues.map fun q => counter q.stats).sum

/-- The port's transmit counters. -/
def txCounters (st : Stats) : UInt64 × UInt64 × UInt64 × UInt64 :=
  (st.transmittedPackets, st.transmittedBytes, st.txDroppedPackets,
    st.txDroppedBytes)

/-- No transmit counter moves. -/
structure TxSilent (s t : Sys) : Prop where
  port : txCounters t.nic.stats = txCounters s.nic.stats
  queues : t.nic.txQueues.map TxQueue.stats = s.nic.txQueues.map TxQueue.stats

/-- Only `tx` moves the transmit counters within a period. -/
theorem step_txSilent (h : s.step a = some (t, e)) (he : e.InPeriod)
    (hop : ∀ queueId descs, a ≠ .tx queueId descs) : TxSilent s t := by
  by_cases hc : a.IsControl
  · rcases step_control hc h with ⟨config, -, rfl, rfl⟩ | hs
    · rcases configure_cases config s.mem s.nic with
        ⟨-, heq⟩ | ⟨-, -, heq⟩ | ⟨-, -, mac, reta, -, heq⟩
      · rw [pair, heq]
        exact ⟨rfl, rfl⟩
      · rw [pair, heq]
        exact ⟨rfl, rfl⟩
      · rw [pair, heq] at he
        -- a successful `configure` ends the period
        exact absurd rfl he.1
    · obtain ⟨m, st, rx, tx, thread, hmoved, rfl⟩ := hs
      exact ⟨rfl, hmoved.tx.map_eq fun hc => hc.stats⟩
  · cases a with
    | configure _ => exact absurd trivial hc
    | configureRx _ _ => exact absurd trivial hc
    | configureTx _ _ => exact absurd trivial hc
    | start _ => exact absurd trivial hc
    | stop => exact absurd trivial hc
    | tx queueId descs => exact absurd rfl (hop queueId descs)
    | resetStats =>
        simp only [step, Option.some.injEq, Prod.mk.injEq] at h
        exact absurd h.2.symm he.2
    | updateReta reta =>
        obtain ⟨reta', r, rfl, -, -⟩ := step_updateReta h
        exact ⟨rfl, rfl⟩
    | rx queueId =>
        rcases step_rx h with ⟨-, rfl, -⟩ | ⟨q, -, rfl, -⟩
        · exact ⟨rfl, rfl⟩
        · exact ⟨rfl, rfl⟩
    | freeRx queueId tickets =>
        rcases (step_freeRx h).2 with rfl | ⟨q, ds, held, -, -, rfl⟩
        · exact ⟨rfl, rfl⟩
        · exact ⟨rfl, rfl⟩
    | pollCheck =>
        obtain ⟨-, -, ⟨-, rfl, -⟩ | ⟨rfl, -⟩⟩ := step_pollCheck h
        · exact ⟨rfl, rfl⟩
        · exact ⟨rfl, rfl⟩
    | pollTake alloc =>
        obtain ⟨-, -, -,
          ⟨rfl, -⟩ | ⟨frame, rest, -, ⟨rfl, -⟩ | ⟨rfl, -⟩⟩⟩ :=
          step_pollTake h
        · exact ⟨rfl, rfl⟩
        · exact ⟨rfl, rfl⟩
        · exact ⟨rfl, rfl⟩
    | pollFrame malloc now =>
        obtain ⟨packet, m, n, verdict, -, hp, rfl, -⟩ := step_pollFrame h
        cases hp with
        | rejected e => exact ⟨rfl, rfl⟩
        | noQueues _ _ => exact ⟨rfl, rfl⟩
        | outOfRange _ _ _ => exact ⟨rfl, rfl⟩
        | @put _ _ _ _ r _ _ _ =>
            cases r with
            | ok u => exact ⟨rfl, rfl⟩
            | error e => exact ⟨rfl, rfl⟩
    | _ =>
        simp only [step, Option.some.injEq, Prod.mk.injEq] at h
        rw [← h.1]
        exact ⟨rfl, rfl⟩

/-- The port's transmit counters stand at `base` plus what the TX queues
have counted. -/
structure TxCounted (base : Stats) (s : Sys) : Prop where
  transmittedPackets : s.nic.stats.transmittedPackets
    = base.transmittedPackets + s.txTotal Stats.processedPackets
  transmittedBytes : s.nic.stats.transmittedBytes
    = base.transmittedBytes + s.txTotal Stats.processedBytes
  txDroppedPackets : s.nic.stats.txDroppedPackets
    = base.txDroppedPackets + s.txTotal Stats.droppedPackets
  txDroppedBytes : s.nic.stats.txDroppedBytes
    = base.txDroppedBytes + s.txTotal Stats.droppedBytes

/-- A step that does not send counts nothing. -/
theorem TxCounted.silent {base : Stats} (hi : TxCounted base s)
    (h : TxSilent s t) : TxCounted base t := by
  have htotal : ∀ counter : Stats → UInt64,
      t.txTotal counter = s.txTotal counter := by
    intro counter
    have hmap := congrArg (List.map counter) h.queues
    rw [List.map_map, List.map_map] at hmap
    exact congrArg List.sum hmap
  have hport := h.port
  simp only [txCounters, Prod.mk.injEq] at hport
  obtain ⟨htp, htb, hdp, hdb⟩ := hport
  constructor
  · rw [htp, htotal, hi.transmittedPackets]
  · rw [htb, htotal, hi.transmittedBytes]
  · rw [hdp, htotal, hi.txDroppedPackets]
  · rw [hdb, htotal, hi.txDroppedBytes]

/-- Port and queue gain the same from a burst. -/
theorem TxCounted.tx {base : Stats} (hi : TxCounted base s)
    (queueId : UInt16) (descs : List (TxQueue.Alloc × PacketDescriptor)) :
    TxCounted base (s.withNic (VNic.tx s.mem queueId descs s.nic).1) := by
  cases hq : s.nic.txQueues[queueId.toNat]? with
  | none =>
      rw [tx_of_no_queue hq]
      exact hi
  | some q =>
      obtain ⟨k, frames, htx, -⟩ := tx_sentOn hq s.mem descs
      rw [htx]
      constructor
      · show s.nic.stats.transmittedPackets + _ = _ + List.sum _
        rw [hi.transmittedPackets, UInt64.add_assoc]
        exact congrArg _ (sum_set hq rfl).symm
      · show s.nic.stats.transmittedBytes + _ = _ + List.sum _
        rw [hi.transmittedBytes, UInt64.add_assoc]
        exact congrArg _ (sum_set hq rfl).symm
      · show s.nic.stats.txDroppedPackets + _ = _ + List.sum _
        rw [hi.txDroppedPackets, UInt64.add_assoc]
        exact congrArg _ (sum_set hq rfl).symm
      · show s.nic.stats.txDroppedBytes + _ = _ + List.sum _
        rw [hi.txDroppedBytes, UInt64.add_assoc]
        exact congrArg _ (sum_set hq rfl).symm

/-- A step counts what it sends, by port and by queue. -/
theorem TxCounted.step {base : Stats} (hi : TxCounted base s)
    (h : s.step a = some (t, e)) (he : e.InPeriod) : TxCounted base t := by
  by_cases hop : ∃ queueId descs, a = .tx queueId descs
  · obtain ⟨queueId, descs, rfl⟩ := hop
    simp only [Sys.step, Option.some.injEq, Prod.mk.injEq] at h
    rw [← h.1]
    exact hi.tx queueId descs
  · apply hi.silent
    apply step_txSilent h he
    exact fun queueId descs heq => hop ⟨queueId, descs, heq⟩

/-- From a successful `configure(config)` on. -/
theorem TxCounted.run {as : List Op} {config : VNic.Config} {s₀ : Sys}
    (hs : Inv s)
    (hconf : s.step (.configure config) = some (s₀, .configure (.ok ())))
    (hrun : sys.run s₀ as = some (t, es)) (he : ∀ e ∈ es, e.InPeriod) :
    TxCounted s₀.nic.stats t := by
  have htotal : ∀ {counter : Stats → UInt64}, counter {} = 0 →
      s₀.txTotal counter = 0 := by
    intro counter h0
    unfold txTotal
    rw [(configured_fresh hs hconf).2.1]
    apply sum_map_replicate
    exact h0
  have hinit : TxCounted s₀.nic.stats s₀ := by
    constructor
    · rw [htotal rfl, UInt64.add_zero]
    · rw [htotal rfl, UInt64.add_zero]
    · rw [htotal rfl, UInt64.add_zero]
    · rw [htotal rfl, UInt64.add_zero]
  exact sys.run_invariant_along (fun hi hs hg => hi.step hs hg)
    (sys.along_of_events hrun he) hinit hrun

/-- `tx` sends the longest prefix that `put` accepts in turn, in order,
drops the descriptor behind it and answers by it (`Burst`); a queue that
does not exist is an error that changes nothing. So between a successful
`configure(config)` and the next, with no `resetStats()`, the port's
transmit counters grow by what the TX queues have counted. -/
theorem tx_burst_accounting :
    (∀ (m : Memory) (queueId : UInt16)
        (descs : List (TxQueue.Alloc × PacketDescriptor)) (n : VNic),
      (n.txQueues.length ≤ queueId.toNat →
        VNic.tx m queueId descs n = (n, .error .queueInvalidId))
      ∧ ∀ q, n.txQueues[queueId.toNat]? = some q →
        ∃ k, Burst m queueId descs n q k)
    ∧ ∀ (blocks : Blocks) (as bs : List Op) (s s₀ t : Sys)
        (es fs : List Event) (config : VNic.Config),
      sys.run (init blocks) as = some (s, fs) →
      s.step (.configure config) = some (s₀, .configure (.ok ())) →
      sys.run s₀ bs = some (t, es) →
      (∀ e ∈ es, e ≠ .configure (.ok ()) ∧ e ≠ .resetStats) →
      increase Stats.transmittedPackets s₀ t
          = t.txTotal Stats.processedPackets
        ∧ increase Stats.transmittedBytes s₀ t
          = t.txTotal Stats.processedBytes
        ∧ increase Stats.txDroppedPackets s₀ t
          = t.txTotal Stats.droppedPackets
        ∧ increase Stats.txDroppedBytes s₀ t
          = t.txTotal Stats.droppedBytes := by
  constructor
  · intro m queueId descs n
    refine ⟨fun hle => ?_, fun q hq => ?_⟩
    · exact tx_of_no_queue (List.getElem?_eq_none hle)
    · obtain ⟨k, -, -, hburst⟩ := tx_sentOn hq m descs
      exact ⟨k, hburst⟩
  · intro blocks as bs s s₀ t es fs config hrun hconf hperiod hkeep
    have hc := TxCounted.run (Inv.run hrun) hconf hperiod hkeep
    exact ⟨increase_eq hc.transmittedPackets, increase_eq hc.transmittedBytes,
      increase_eq hc.txDroppedPackets, increase_eq hc.txDroppedBytes⟩

/-- A heap with one segment of three bytes. -/
def oneSegment : Blocks :=
  (∅ : Blocks).insert 1 { length := 3, payload := [1, 2, 3] }

/-- A burst of two: the segment, and a descriptor without a buffer. -/
def oneOfTwo : List Op :=
  [.configureTx 0 {}, .tx 0 [({}, { buffer := 1, totalLength := 3 }),
    ({}, { buffer := nullptr, totalLength := 7 })]]

/-- Of two descriptors the second is null: one is sent, one counted as
dropped. -/
theorem tx_burst_accounting_oneOfTwo :
    ∃ s₀ t es, (init oneSegment).step (.configure { txQueueCount := 1 })
        = some (s₀, .configure (.ok ()))
      ∧ sys.run s₀ oneOfTwo = some (t, es)
      ∧ t.nic.link.txQueue.queue = [[1, 2, 3]]
      ∧ increase Stats.transmittedBytes s₀ t = 3
      ∧ increase Stats.txDroppedBytes s₀ t = 7 := by
  have hconf : (init oneSegment).step (.configure { txQueueCount := 1 })
      = some ((init oneSegment).withPair
          (VNic.configure { txQueueCount := 1 } (init oneSegment).pair).1,
        .configure (.ok ())) := rfl
  have heval : (sys.run ((init oneSegment).withPair
      (VNic.configure { txQueueCount := 1 } (init oneSegment).pair).1)
      oneOfTwo).map (fun p => (decide (∀ e ∈ p.2, e.InPeriod),
        p.1.nic.link.txQueue.queue, p.1.txTotal Stats.processedBytes,
        p.1.txTotal Stats.droppedBytes))
      = some (true, [[1, 2, 3]], 3, 7) := by decide
  obtain ⟨⟨t, es⟩, hrun, hp⟩ := Option.map_eq_some_iff.1 heval
  simp only [Prod.mk.injEq, decide_eq_true_eq] at hp
  obtain ⟨hkeep, hpipe, hsent, hdropped⟩ := hp
  have hinit : sys.run (init oneSegment) [] = some (init oneSegment, []) :=
    rfl
  have hacc := tx_burst_accounting.2 oneSegment [] oneOfTwo _ _ t es [] _
    hinit hconf hrun hkeep
  exact ⟨_, t, es, hconf, hrun, hpipe, hacc.2.1.trans hsent,
    hacc.2.2.2.trans hdropped⟩

end Sys

end Vnic
