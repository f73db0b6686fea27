/-
One specification per data-path operation of a port: an iteration of
`poll`, `rx`, `freeRx` and `tx`.

`Polled` lists what an iteration can do with a frame. Its case
`outOfRange` is the indexing a release build would get wrong; the
invariant of the table rules it out for every port that can be reached.
-/
import Vnic.Port
import Vnic.Lib.Row
import Vnic.Proofs.RxSystem
import Vnic.Proofs.TxQueue

namespace Vnic.VNic

open Row

variable {m m' : Memory} {n n' : VNic}

-- ============================================================ one frame

/-- The frame passed `parse` and `validate`. -/
def Passes (n : VNic) (packet : Frame) (parser : Parser) : Prop :=
  Parser.parse packet {} = (parser, .ok ())
    ∧ n.validate packet parser = .ok ()

/-- The port counter `distribute` bumps for a verdict of `put`. -/
def counted (stats : Stats) (packet : Frame) : Res → Stats
  | .ok () => stats.fetchProcessed packet.length
  | .error _ => stats.fetchDropped packet.length

/-- What one iteration of `poll` can do with a frame. -/
inductive Polled (malloc : Malloc) (now : UInt64) (packet : Frame)
    (m : Memory) (n : VNic) : Memory → VNic → Verdict → Prop
  | rejected (e : ErrorCode) :
      Polled malloc now packet m n m (n.rejectFrame packet) (.rejected e)
  | noQueues {parser : Parser} : n.Passes packet parser →
      n.rxQueues = [] →
      Polled malloc now packet m n m
        { n with stats := n.stats.fetchDropped packet.length }
        (.distributed (n.describe now parser) (.error .queueNotConfigured))
  | outOfRange {parser : Parser} : n.Passes packet parser →
      n.rxQueues ≠ [] →
      n.rxQueues[(n.describe now parser).queueId.toNat]? = none →
      Polled malloc now packet m n
        { m with faults := m.faults ++ n.distributeFaults parser } n
        (.distributed (n.describe now parser) (.error .queueInvalidId))
  | put {parser : Parser} {q q' : RxQueue} {m' : Memory} {r : Res} :
      n.Passes packet parser →
      n.rxQueues[(n.describe now parser).queueId.toNat]? = some q →
      RxQueue.put malloc (n.describe now parser) packet
          ({ m with faults := m.faults ++ n.distributeFaults parser }, q)
        = ((m', q'), r) →
      Polled malloc now packet m n m'
        { n with
          rxQueues :=
            n.rxQueues.set (n.describe now parser).queueId.toNat q'
          stats := counted n.stats packet r }
        (.distributed (n.describe now parser) r)

/-- An iteration of `poll` does one of these. -/
theorem pollFrame_polled (malloc : Malloc) (now : UInt64) (packet : Frame)
    (m : Memory) (n : VNic) :
    Polled malloc now packet m n (pollFrame malloc now packet (m, n)).1.1
      (pollFrame malloc now packet (m, n)).1.2
      (pollFrame malloc now packet (m, n)).2 := by
  unfold pollFrame
  cases hp : Parser.parse packet {} with
  | mk parser res =>
      cases res with
      | error e => exact .rejected e
      | ok u =>
          simp only
          cases hv : n.validate packet parser with
          | error e => exact .rejected e
          | ok u =>
              have hpass : n.Passes packet parser := ⟨hp, hv⟩
              simp only
              unfold distribute
              -- `distribute` returns before the hash where there are no
              -- queues
              by_cases hne : n.rxQueues = []
              · rw [if_pos (show (m, n).2.rxQueues = [] from hne)]
                exact .noQueues hpass hne
              · rw [if_neg (show (m, n).2.rxQueues ≠ [] from hne)]
                simp only
                cases hq : n.rxQueues[(n.describe now parser).queueId.toNat]?
                  with
                | none => exact .outOfRange hpass hne hq
                | some q =>
                    simp only
                    cases hput : RxQueue.put malloc (n.describe now parser)
                        packet ({ m with
                          faults := m.faults ++ n.distributeFaults parser },
                          q) with
                    | mk p r =>
                        cases r with
                        | error e => exact .put hpass hq hput
                        | ok u => exact .put hpass hq hput

/-- An iteration does not touch the link once it has its frame. -/
theorem Polled.link {malloc : Malloc} {now : UInt64} {packet : Frame}
    {verdict : Verdict}
    (h : Polled malloc now packet m n m' n' verdict) : n'.link = n.link := by
  cases h with
  | rejected e => rfl
  | noQueues _ _ => rfl
  | outOfRange _ _ _ => rfl
  | put _ _ _ => rfl

-- ========================================================== rx, freeRx

/-- What `rx(queueId)` can do. -/
theorem rx_cases (queueId : UInt16) (n : VNic) :
    (n.rxQueues[queueId.toNat]? = none
      ∧ rx queueId n = (n, .error .queueInvalidId))
    ∨ ∃ q, n.rxQueues[queueId.toNat]? = some q
      ∧ rx queueId n
        = ({ n with
            rxQueues := n.rxQueues.set queueId.toNat q.take.2 },
          .ok q.take.1) := by
  unfold rx
  cases hq : n.rxQueues[queueId.toNat]? with
  | none => exact Or.inl ⟨rfl, rfl⟩
  | some q => exact Or.inr ⟨q, rfl, rfl⟩

/-- `take` splits `used_` in two and moves nothing else. -/
theorem take_frame (q : RxQueue) :
    q.take.1 ++ q.take.2.used_.queue = q.used_.queue
      ∧ q.take.2.state = q.state ∧ q.take.2.stats = q.stats :=
  ⟨List.take_append_drop kMaxSegments q.used_.queue, rfl, rfl⟩

/-- What `freeRx(queueId, descs)` does to a queue that exists. -/
theorem freeRx_eq {queueId : UInt16} {q : RxQueue}
    (h : n.rxQueues[queueId.toNat]? = some q)
    (descs : List PacketDescriptor) (m : Memory) :
    (freeRx queueId descs (m, n)).1
      = ((RxQueue.free descs (m, q)).1.1,
          { n with
            rxQueues := n.rxQueues.set queueId.toNat
              (RxQueue.free descs (m, q)).1.2 }) := by
  unfold freeRx
  simp only [h]

-- ================================================================== tx

/-- `put` on a TX queue touches the TX pipe and a counter. -/
theorem put_tx_frame (alloc : TxQueue.Alloc) (m : Memory)
    (desc : PacketDescriptor) (l : Link) (q : TxQueue) :
    (TxQueue.put alloc m desc (l, q)).1.1.rxQueue = l.rxQueue
      ∧ (TxQueue.put alloc m desc (l, q)).1.1.up = l.up
      ∧ (TxQueue.put alloc m desc (l, q)).1.2.state = q.state := by
  rcases TxQueue.put_cases alloc m desc l q with
    ⟨e, -, hput⟩ | ⟨packet, -, hput⟩
  · rw [hput]
    exact ⟨rfl, rfl, rfl⟩
  · rw [hput]
    exact ⟨rfl, rfl, rfl⟩

/-- What sending leaves alone: everything but the TX pipe, the TX queues'
counters and the port's transmit counters. -/
structure SentOnly (n n' : VNic) : Prop where
  state : n'.state = n.state
  thread : n'.thread = n.thread
  config : n'.config = n.config
  reta : n'.reta = n.reta
  macAddr : n'.macAddr = n.macAddr
  rxQueues : n'.rxQueues = n.rxQueues
  rxPipe : n'.link.rxQueue = n.link.rxQueue
  up : n'.link.up = n.link.up
  txStates : n'.txQueues.map TxQueue.state = n.txQueues.map TxQueue.state
  processedPackets : n'.stats.processedPackets = n.stats.processedPackets
  processedBytes : n'.stats.processedBytes = n.stats.processedBytes
  droppedPackets : n'.stats.droppedPackets = n.stats.droppedPackets
  droppedBytes : n'.stats.droppedBytes = n.stats.droppedBytes
  errors : n'.stats.errors = n.stats.errors

theorem SentOnly.refl (n : VNic) : SentOnly n n := by
  constructor <;> rfl

/-- Two bursts only send. -/
theorem SentOnly.trans {n'' : VNic} (h : SentOnly n n')
    (h' : SentOnly n' n'') : SentOnly n n'' where
  state := h'.state.trans h.state
  thread := h'.thread.trans h.thread
  config := h'.config.trans h.config
  reta := h'.reta.trans h.reta
  macAddr := h'.macAddr.trans h.macAddr
  rxQueues := h'.rxQueues.trans h.rxQueues
  rxPipe := h'.rxPipe.trans h.rxPipe
  up := h'.up.trans h.up
  txStates := h'.txStates.trans h.txStates
  processedPackets := h'.processedPackets.trans h.processedPackets
  processedBytes := h'.processedBytes.trans h.processedBytes
  droppedPackets := h'.droppedPackets.trans h.droppedPackets
  droppedBytes := h'.droppedBytes.trans h.droppedBytes
  errors := h'.errors.trans h.errors

/-- One `put` of the loop, whatever transmit counter it bumps. -/
theorem SentOnly.put {queueId : Nat} {q : TxQueue}
    (hq : n.txQueues[queueId]? = some q) (alloc : TxQueue.Alloc)
    (m : Memory) (desc : PacketDescriptor) {stats : Stats}
    (hstats : stats = n.stats.fetchTxDropped desc.totalLength.toNat
      ∨ stats = n.stats.fetchTransmitted desc.totalLength.toNat) :
    SentOnly n { n with
      link := (TxQueue.put alloc m desc (n.link, q)).1.1
      txQueues := n.txQueues.set queueId
        (TxQueue.put alloc m desc (n.link, q)).1.2
      stats := stats } := by
  obtain ⟨hpipe, hup, hstate⟩ := put_tx_frame alloc m desc n.link q
  have hwalk : Walk (fun (_ : Unit) (q : TxQueue) _ q' => q'.state = q.state)
      () n.txQueues () (n.txQueues.set queueId
        (TxQueue.put alloc m desc (n.link, q)).1.2) :=
    .set hq hstate
  rcases hstats with rfl | rfl
  · exact ⟨rfl, rfl, rfl, rfl, rfl, rfl, hpipe, hup,
      hwalk.map_eq fun h => h, rfl, rfl, rfl, rfl, rfl⟩
  · exact ⟨rfl, rfl, rfl, rfl, rfl, rfl, hpipe, hup,
      hwalk.map_eq fun h => h, rfl, rfl, rfl, rfl, rfl⟩

private theorem txLoop_sentOnly (m : Memory) (queueId : Nat) :
    ∀ (descs : List (TxQueue.Alloc × PacketDescriptor)) (n : VNic)
      (sent : Nat), SentOnly n (txLoop m queueId descs n sent).1 := by
  intro descs
  induction descs with
  | nil => exact fun n sent => .refl n
  | cons head rest ih =>
      intro n sent
      obtain ⟨alloc, desc⟩ := head
      unfold txLoop
      cases hq : n.txQueues[queueId]? with
      | none => exact .refl n
      | some q =>
          simp only
          cases hput : TxQueue.put alloc m desc (n.link, q) with
          | mk p r =>
              have hone := fun stats h =>
                @SentOnly.put n queueId q hq alloc m desc stats h
              rw [hput] at hone
              cases r with
              | error e => exact hone _ (Or.inl rfl)
              | ok u => exact (hone _ (Or.inr rfl)).trans (ih _ _)

/-- `tx` touches the TX side and the counters of the port. -/
theorem tx_sentOnly (m : Memory) (queueId : UInt16)
    (descs : List (TxQueue.Alloc × PacketDescriptor)) (n : VNic) :
    SentOnly n (tx m queueId descs n).1 := by
  have h := txLoop_sentOnly m queueId.toNat descs n 0
  unfold tx
  split
  · exact .refl n
  · simp only
    split
    · exact h
    · exact h

end Vnic.VNic
