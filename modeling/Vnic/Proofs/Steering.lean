/-
What `distribute` makes of a frame, and the steering of both directions
of a flow.

# What is compared

Not what a descriptor is labelled with, but where the frame goes and what
is stored with it (`Steers`): one queue of the row may change, the one the
steering names; the frame is put to it; and when it takes the frame, the
descriptor behind all that waited in its `used_` bears the hash and the
queue id, and its chain spells the frame. `pollFrame_steers` says so of
every frame that passes, for the hash and the queue of `describe`, so two
frames are steered alike as soon as they are described alike.

# Symmetric mode

Between two frames whose 5-tuples are reverses of each other the hash
cannot tell (`frameHash_reversed`), and nothing else of a frame is looked
at: `describe` reads the port and the hash.
-/
import Vnic.Proofs.DataPath
import Vnic.Proofs.Symmetric

namespace Vnic.VNic

variable {m m' : Memory} {n n' : VNic} {malloc malloc' : Malloc}
  {now now' : UInt64} {packet f g : Frame} {p p' : Parser}
  {hash : UInt32} {queue : UInt16}

-- ============================================================= steering

/-- An iteration of `poll` on `packet` gives it the hash and the queue:
the frame is put to that queue and no other queue of the row changes, and
if the queue takes the frame, it gains one descriptor, with that hash and
queue id, whose chain spells the frame. -/
structure Steers (malloc : Malloc) (now : UInt64) (packet : Frame)
    (m : Memory) (n : VNic) (hash : UInt32) (queue : UInt16) : Prop where
  /-- What `distribute` is called with. -/
  verdict : ∃ d r,
    (pollFrame malloc now packet (m, n)).2 = .distributed d r
      ∧ d.hash = hash ∧ d.queueId = queue
  /-- The queue, where there is one, is what the frame is put to. -/
  offered : ∀ q, n.rxQueues[queue.toNat]? = some q →
    ∃ d s, d.hash = hash ∧ d.queueId = queue ∧ s.blocks = m.blocks
      ∧ (pollFrame malloc now packet (m, n)).1.2.rxQueues[queue.toNat]?
        = some (RxQueue.put malloc d packet (s, q)).1.2
      ∧ (pollFrame malloc now packet (m, n)).2
        = .distributed d (RxQueue.put malloc d packet (s, q)).2
  /-- The other queues do not change. -/
  elsewhere : ∀ i, i ≠ queue.toNat →
    (pollFrame malloc now packet (m, n)).1.2.rxQueues[i]?
      = n.rxQueues[i]?
  /-- What an accepted frame is stored as. -/
  stored : ∀ d,
    (pollFrame malloc now packet (m, n)).2 = .distributed d (.ok ()) →
    ∃ q q' d', n.rxQueues[queue.toNat]? = some q
      ∧ (pollFrame malloc now packet (m, n)).1.2.rxQueues[queue.toNat]?
        = some q'
      ∧ q'.used_.queue = q.used_.queue ++ [d']
      ∧ d'.hash = hash ∧ d'.queueId = queue
      ∧ (pollFrame malloc now packet (m, n)).1.1.contents d'.buffer
        = packet

/-- A frame that passes is steered by what `describe` reads off it. -/
theorem pollFrame_steers (hpass : n.Passes packet p) (malloc : Malloc)
    (now : UInt64) (m : Memory) :
    Steers malloc now packet m n (n.describe now p).hash
      (n.describe now p).queueId := by
  have hpolled := pollFrame_polled malloc now packet m n
  -- the parse is a function of the frame, so every case is about `p`
  have hparser : ∀ {parser : Parser}, n.Passes packet parser →
      parser = p := fun h => by
    have heq := h.1.symm.trans hpass.1
    exact (Prod.mk.inj heq).1
  generalize hmem : (pollFrame malloc now packet (m, n)).1.1 = m' at hpolled
  generalize hport : (pollFrame malloc now packet (m, n)).1.2 = n'
    at hpolled
  generalize hverdict : (pollFrame malloc now packet (m, n)).2 = verdict
    at hpolled
  cases hpolled with
  | rejected e =>
      -- a frame that passes is not rejected
      unfold pollFrame at hverdict
      simp only [hpass.1, hpass.2] at hverdict
      cases hverdict
  | noQueues h hnone =>
      obtain rfl := hparser h
      refine ⟨⟨_, _, hverdict, rfl, rfl⟩, fun q hq => ?_,
        fun i _ => by rw [hport], fun d hd => ?_⟩
      · rw [hnone] at hq
        cases hq
      · rw [hverdict] at hd
        cases hd
  | outOfRange h _ hnone =>
      obtain rfl := hparser h
      refine ⟨⟨_, _, hverdict, rfl, rfl⟩, fun q hq => ?_,
        fun i _ => by rw [hport], fun d hd => ?_⟩
      · cases hnone.symm.trans hq
      · rw [hverdict] at hd
        cases hd
  | @put parser q q' _ r h hq hput =>
      obtain rfl := hparser h
      have hself := List.getElem?_set_self (a := q')
        (List.getElem?_eq_some_iff.1 hq).1
      refine ⟨⟨_, _, hverdict, rfl, rfl⟩, fun q₀ hq₀ => ?_, fun i hi => ?_,
        fun d hd => ?_⟩
      · cases hq.symm.trans hq₀
        refine ⟨n.describe now parser,
          { m with faults := m.faults ++ n.distributeFaults parser }, rfl,
          rfl, rfl, ?_, ?_⟩
        · rw [hport, hput]
          exact hself
        · rw [hverdict, hput]
      · rw [hport]
        exact List.getElem?_set_ne (Ne.symm hi)
      · rw [hverdict] at hd
        cases hd
        rcases RxQueue.put_cases malloc (n.describe now parser) packet
          { m with faults := m.faults ++ n.distributeFaults parser } q
          with ⟨ps, m₁, q₁, heq, hpub⟩ | ⟨e, m₁, q₁, heq, -⟩
        · rw [heq] at hput
          cases hput
          refine ⟨q, q', RxQueue.stamped (n.describe now parser) packet ps,
            hq, ?_, ?_, rfl, rfl, ?_⟩
          · rw [hport]
            exact hself
          · rw [hpub.queue]
            rfl
          · rw [hmem, hpub.mem]
            exact RxQueue.filled_contents hpub.fresh hpub.count
        · rw [heq] at hput
          cases hput

/-- Steering has one answer. -/
theorem Steers.unique {hash' : UInt32} {queue' : UInt16}
    (h : Steers malloc now packet m n hash queue)
    (h' : Steers malloc now packet m n hash' queue') :
    hash = hash' ∧ queue = queue' := by
  obtain ⟨d, r, hd, rfl, rfl⟩ := h.verdict
  obtain ⟨d', r', hd', rfl, rfl⟩ := h'.verdict
  rw [hd] at hd'
  cases hd'
  exact ⟨rfl, rfl⟩

-- ====================================================== both directions

/-- The hash of a frame is that of a frame with the reversed tuple. -/
private theorem frameHash_reversed (hsym : n.config.rss.symmetry = .symmetric)
    (hversion : p.l2Protocol = p'.l2Protocol)
    (hrev : get5Tuple p' = Rss.reversed (get5Tuple p)) :
    n.frameHash p' = n.frameHash p := by
  unfold frameHash rssHashable
  rw [hversion, hrev, hsym, Rss.calcHash_reversed]

/-- `describe` reads the hash, the configuration and the table. -/
private theorem describe_congr (hconfig : n'.config = n.config)
    (hreta : n'.reta = n.reta) (hhash : n.frameHash p' = n.frameHash p) :
    (n'.describe now' p').hash = (n.describe now p).hash
      ∧ (n'.describe now' p').queueId = (n.describe now p).queueId := by
  have hsame : n'.frameHash p' = n.frameHash p := by
    rw [← hhash]
    unfold frameHash
    rw [hconfig]
  unfold describe
  rw [hsame, hreta]
  cases n.frameHash p with
  | none => exact ⟨rfl, rfl⟩
  | some _ => exact ⟨rfl, rfl⟩

/-- In symmetric mode two frames that pass, of one IP version, whose
5-tuples are reverses of each other, are steered alike: one hash and one
queue for both, whatever else they hold, whatever the queues hold at the
time and however the allocations go; and the canonicalisation behind it
identifies a tuple with its reverse only. -/
theorem symmetric_steering :
    (∀ {n n' : VNic} {malloc malloc' : Malloc} {now now' : UInt64}
        {m m' : Memory} {f g : Frame} {p p' : Parser},
      n.config.rss.symmetry = .symmetric →
      n'.config = n.config → n'.reta = n.reta →
      n.Passes f p → n'.Passes g p' → p.l2Protocol = p'.l2Protocol →
      get5Tuple p' = Rss.reversed (get5Tuple p) →
      ∃ hash queue, Steers malloc now f m n hash queue
        ∧ Steers malloc' now' g m' n' hash queue)
    ∧ ∀ t t', Rss.makeSymmetric t = Rss.makeSymmetric t'
        ↔ t' = t ∨ t' = Rss.reversed t := by
  refine ⟨?_, fun _ _ => Rss.makeSymmetric_eq_iff⟩
  intro n n' malloc malloc' now now' m m' f g p p' hsym hconfig hreta hf hg
    hversion hrev
  have hsame : (n'.describe now' p').hash = (n.describe now p).hash
      ∧ (n'.describe now' p').queueId = (n.describe now p).queueId :=
    describe_congr hconfig hreta (frameHash_reversed hsym hversion hrev)
  have hsteers := pollFrame_steers hg malloc' now' m'
  rw [hsame.1, hsame.2] at hsteers
  exact ⟨_, _, pollFrame_steers hf malloc now m, hsteers⟩

/-- A UDP datagram over IPv4, padded to the minimum frame. -/
def udpFrame (ports addrs : List UInt8) : Frame :=
  List.replicate 12 0 ++ [0x08, 0x00, 0x45, 0x00, 0x00, 0x2e, 0x00, 0x00,
    0x00, 0x00, 0x40, 0x11, 0x66, 0xbd] ++ addrs ++ ports
    ++ List.replicate 22 0

/-- The queue of two descriptors, started. -/
def startedQueue : RxQueue :=
  (RxQueue.start ({}, (RxQueue.configure { size := 2 } {}).1)).1.2

/-- A promiscuous port with symmetric RSS over every field, and two
started queues. -/
def symmetricPort : VNic :=
  { config :=
      { promiscuousEnabled := true
        rxQueueCount := 2
        rss :=
          { enabled := true
            hf := .simpleXor
            protocol := 31
            key := List.replicate 40 0
            symmetry := .symmetric } }
    reta := [0, 1]
    rxQueues := [startedQueue, startedQueue] }

/-- A datagram of 10.0.0.1:1 to 10.0.0.2:2. -/
def request : Frame := udpFrame [0, 1, 0, 2] [10, 0, 0, 1, 10, 0, 0, 2]

/-- Its answer. -/
def reply : Frame := udpFrame [0, 2, 0, 1] [10, 0, 0, 2, 10, 0, 0, 1]

/-- The port accepts the frame. -/
def accepts (packet : Frame) (n : VNic) : Bool :=
  match (pollFrame .bump 0 packet ({}, n)).2 with
  | .distributed _ (.ok ()) => true
  | _ => false

/-- On the empty queues of the port, an accepted frame is all that its
queue holds. -/
private theorem stored_alone
    (h : Steers .bump 0 packet {} symmetricPort hash queue)
    (haccepts : symmetricPort.accepts packet = true) :
    ∃ q d, (pollFrame .bump 0 packet ({}, symmetricPort)).1.2.rxQueues[
          queue.toNat]? = some q
      ∧ q.used_.queue = [d] ∧ d.hash = hash ∧ d.queueId = queue := by
  obtain ⟨d, r, hd, -, -⟩ := h.verdict
  have hok : r = .ok () := by
    unfold accepts at haccepts
    rw [hd] at haccepts
    cases r with
    | ok u => rfl
    | error e => cases haccepts
  subst hok
  obtain ⟨q, q', d', hq, hq', hused, hhash, hqueue, -⟩ := h.stored d hd
  -- whichever of the two queues it is, nothing waits in it
  have hempty : q.used_.queue = [] := by
    have hall : ∀ q ∈ symmetricPort.rxQueues, q.used_.queue = [] := by
      decide
    exact hall q (List.mem_of_getElem? hq)
  rw [hempty] at hused
  exact ⟨q', d', hq', hused, hhash, hqueue⟩

/-- Both directions are accepted and stored in one queue, under one
hash. -/
theorem symmetric_steering_udp :
    ∃ (queue : UInt16) (q q' : RxQueue) (d d' : PacketDescriptor),
      (pollFrame .bump 0 request ({}, symmetricPort)).1.2.rxQueues[
          queue.toNat]? = some q
      ∧ (pollFrame .bump 0 reply ({}, symmetricPort)).1.2.rxQueues[
          queue.toNat]? = some q'
      ∧ q.used_.queue = [d] ∧ q'.used_.queue = [d']
      ∧ d.hash = d'.hash ∧ d.queueId = queue ∧ d'.queueId = queue := by
  have hf : symmetricPort.Passes request (Parser.parse request {}).1 :=
    ⟨Prod.ext rfl (by decide +kernel), by decide +kernel⟩
  have hg : symmetricPort.Passes reply
      (Parser.parse reply {}).1 :=
    ⟨Prod.ext rfl (by decide +kernel), by decide +kernel⟩
  have hsteers : ∃ hash queue,
      Steers .bump 0 request {} symmetricPort hash queue
        ∧ Steers .bump 0 reply {} symmetricPort hash queue :=
    symmetric_steering.1 rfl rfl rfl hf hg (by decide +kernel)
      (by decide +kernel)
  obtain ⟨hash, queue, hfrom, hback⟩ := hsteers
  obtain ⟨q, d, hq, hd, hhash, hqueue⟩ :=
    stored_alone hfrom (by decide +kernel)
  obtain ⟨q', d', hq', hd', hhash', hqueue'⟩ :=
    stored_alone hback (by decide +kernel)
  exact ⟨queue, q, q', d, d', hq, hq', hd, hd', by rw [hhash, hhash'],
    hqueue, hqueue'⟩

end Vnic.VNic
