/-
`VNic`: configuration, the redirection table, the lifecycle hooks, the
receive path of one frame, and the data-path calls.

The port works on the pair of the process memory and itself, because its
RX queues allocate and release packet buffers: replacing the queues runs
their destructors.

# Queues in a row

`startQueues`, its rollback and `stopQueues` walk the RX queues and then
the TX queues. The three walks are written once, over any kind of queue
(`startEach`, `stopFirst`, `stopEach`).

# Injected failures

Anything a start needs from the outside may fail: a queue's own start,
and the creation of the poll thread. `StartEnv` says which do, so that a
statement over every `StartEnv` covers every point of failure.

# Assertions

`distribute` asserts that the table size is a power of two and that the
queue id is in range; a release build indexes the vectors regardless.
Violations are recorded as faults.
-/
import Vnic.RxQueue
import Vnic.TxQueue
import Vnic.Rss
import Vnic.Validate

namespace Vnic

-- ======================================================= configuration

/-- `Config::Rss::Reta`. -/
abbrev Reta := List UInt16

/-- `VNic::Config::Rss`. -/
structure VNic.RssConfig where
  enabled : Bool := false
  hf : Rss.HashFunc := .none
  protocol : Rss.Protocol := 0
  symmetry : Rss.SymmetryMode := .none
  key : List UInt8 := []
  reta : Reta := []
  deriving DecidableEq, Repr

/-- `VNic::Config`; strings are byte strings. -/
structure VNic.Config where
  promiscuousEnabled : Bool := false
  mtu : UInt32 := 1500
  rxQueueCount : UInt16 := 1
  txQueueCount : UInt16 := 0
  rss : VNic.RssConfig := {}
  macAddr : List UInt8 := []
  vlanAllowList : List UInt16 := []
  link : Link.Config := {}
  deriving DecidableEq, Repr

/-- `VNic`; `thread` is whether the poll thread exists. -/
structure VNic where
  state : State := .stopped
  link : Link := {}
  reta : Reta := []
  rxQueues : List RxQueue := []
  txQueues : List TxQueue := []
  stats : Stats := {}
  config : VNic.Config := {}
  macAddr : Bytes 6 := Bytes.zero 6
  thread : Bool := false
  deriving DecidableEq

instance : Stateful VNic where
  getState := VNic.state
  setState st n := { n with state := st }
  getState_setState _ _ := rfl

namespace VNic

/-- `kNicRssMinKeyLen`. -/
def kNicRssMinKeyLen : Nat := 40

/-- `kVlanIdMax`. -/
def kVlanIdMax : UInt16 := 0x0FFF

/-- `(size & (size - 1)) != 0`. -/
def notPowerOfTwo (size : Nat) : Bool := size &&& (size - 1) != 0

/-- `Config::Rss::validate()`. -/
def RssConfig.validate (c : RssConfig) : ErrorCode :=
  if c.enabled = false then .none
  else if c.key.length < kNicRssMinKeyLen then .configRssKeyTooShort
  else if c.reta ≠ [] ∧ notPowerOfTwo c.reta.length = true then
    .configRssRetaSizeNotPowerOfTwo
  else .none

/-- `Config::validate()`. -/
def Config.validate (c : Config) : ErrorCode :=
  if c.mtu = 0 then .configMtuInvalid
  else if c.link.validate ≠ .none then c.link.validate
  else if c.rss.validate ≠ .none then c.rss.validate
  else if c.rss.enabled = true ∧ c.rxQueueCount = 0 then
    .configQueueCountInvalid
  else if c.rss.enabled = true
      ∧ c.rss.reta.any (fun id => c.rxQueueCount ≤ id) = true then
    .configRssRetaQueueOutOfRange
  else if c.vlanAllowList.any (fun id => kVlanIdMax < id) = true then
    .configVlanInvalid
  else if c.macAddr ≠ [] ∧ Validate.parseMac c.macAddr = none then
    .configMacInvalid
  else .none

/-- `initReta(reta)`. -/
def initReta (c : Config) : Except ErrorCode Reta :=
  if c.rxQueueCount = 0 then .error .configQueueCountInvalid
  else if c.rss.reta ≠ [] then
    if notPowerOfTwo c.rss.reta.length then
      .error .configRssRetaSizeNotPowerOfTwo
    else if c.rss.reta.any (fun id => c.rxQueueCount ≤ id) then
      .error .configRssRetaQueueOutOfRange
    else .ok c.rss.reta
  else
    .ok ((List.range 512).map fun i =>
      UInt16.ofNat (i % c.rxQueueCount.toNat))

/-- `updateReta(reta)`. -/
def updateReta (reta : Reta) (n : VNic) : VNic × Res :=
  if reta = [] then (n, .error .rssRetaEmpty)
  else if notPowerOfTwo reta.length then (n, .error .rssRetaSizeInvalid)
  else if reta.any (fun id => n.config.rxQueueCount ≤ id) then
    (n, .error .rssRetaQueueOutOfRange)
  else ({ n with reta := reta }, .ok ())

/-- `configureRss()`. -/
def configureRss (n : VNic) : VNic × Res :=
  if n.config.rss.enabled = false then (n, .ok ())
  else if n.config.rss.validate ≠ .none then
    (n, .error n.config.rss.validate)
  else
    match initReta n.config with
    | .error e => (n, .error e)
    | .ok reta => updateReta reta n

/-- `rxQueues_.clear()`: the destructors run. -/
def destroyRx (queues : List RxQueue) (m : Memory) : Memory :=
  queues.foldl (fun m q => RxQueue.destroy (m, q)) m

/-- `configureQueues()`. -/
def configureQueues (s : Memory × VNic) : Memory × VNic :=
  (destroyRx s.2.rxQueues s.1,
    { s.2 with
      rxQueues := List.replicate s.2.config.rxQueueCount.toNat {}
      txQueues := List.replicate s.2.config.txQueueCount.toNat {} })

/-- The `rollback` guard of `configureImpl(config)`. -/
def configureRollback (s : Memory × VNic) : Memory × VNic :=
  (destroyRx s.2.rxQueues s.1,
    { s.2 with
      rxQueues := []
      txQueues := []
      reta := []
      config := {}
      macAddr := Bytes.zero 6 })

/-- The MAC address a configuration names: zero when the text is empty,
`none` when it is not a MAC address. -/
def configuredMac (c : Config) : Option (Bytes 6) :=
  if c.macAddr = [] then some (Bytes.zero 6)
  else Validate.parseMac c.macAddr

/-- `configureImpl(config)`. -/
def configureImpl (config : Config) (s : Memory × VNic) :
    (Memory × VNic) × Res :=
  if config.validate ≠ .none then (s, .error config.validate)
  else
    let n := { s.2 with config := config, macAddr := Bytes.zero 6 }
    match configuredMac config with
    | none => (configureRollback (s.1, n), .error .configMacInvalid)
    | some mac =>
        let n := { n with macAddr := mac }
        match n.link.configure config.link with
        | (link, .error e) =>
            (configureRollback (s.1, { n with link := link }),
              .error (if e ≠ .none then e else .linkConfigureFailed))
        | (link, .ok ()) =>
            match configureQueues (s.1, { n with link := link }) with
            | (m, n) =>
                match configureRss n with
                | (n, .error e) => (configureRollback (m, n), .error e)
                | (n, .ok ()) => ((m, n), .ok ())

/-- `configure(config)`. -/
def configure (config : Config) (s : Memory × VNic) :
    (Memory × VNic) × Res :=
  Stateful.configure (configureImpl config) s

/-- `configureImpl(queueId, RxQueue::Config)`. -/
def configureRxImpl (queueId : UInt16) (config : RxQueue.Config)
    (n : VNic) : VNic × Res :=
  match n.rxQueues[queueId.toNat]? with
  | none => (n, .error .queueInvalidId)
  | some q =>
      if config.isValid = false then (n, .error .configQueueSizeInvalid)
      else
        match q.configure config with
        | (q, r) =>
            ({ n with rxQueues := n.rxQueues.set queueId.toNat q }, r)

/-- `configure(queueId, RxQueue::Config)`. -/
def configureRx (queueId : UInt16) (config : RxQueue.Config) (n : VNic) :
    VNic × Res :=
  Stateful.configure (configureRxImpl queueId config) n

/-- `configureImpl(queueId, TxQueue::Config)`. -/
def configureTxImpl (queueId : UInt16) (config : TxQueue.Config)
    (n : VNic) : VNic × Res :=
  match n.txQueues[queueId.toNat]? with
  | none => (n, .error .queueInvalidId)
  | some q =>
      if config.isValid = false then (n, .error .queueInvalidConfig)
      else
        match q.configure config with
        | (q, r) =>
            ({ n with txQueues := n.txQueues.set queueId.toNat q }, r)

/-- `configure(queueId, TxQueue::Config)`. -/
def configureTx (queueId : UInt16) (config : TxQueue.Config) (n : VNic) :
    VNic × Res :=
  Stateful.configure (configureTxImpl queueId config) n

-- ====================================================== queues in a row

section Rows

variable {μ σ : Type}

/-- Start each queue in turn until one fails: the queues, how many
started, and the result. The index counts from `i`. -/
def startEach (start : Nat → μ × σ → (μ × σ) × Res) :
    Nat → μ → List σ → (μ × List σ) × Nat × Res
  | _, m, [] => ((m, []), 0, .ok ())
  | i, m, q :: rest =>
      match start i (m, q) with
      | ((m, q), .error e) =>
          ((m, q :: rest), 0,
            .error (if e ≠ .none then e else .queueStartFailed))
      | ((m, q), .ok ()) =>
          match startEach start (i + 1) m rest with
          | ((m, rest), k, r) => ((m, q :: rest), k + 1, r)

/-- Stop the first `k` queues, ignoring the results. -/
def stopFirst (stop : μ × σ → (μ × σ) × Res) :
    Nat → μ → List σ → μ × List σ
  | k + 1, m, q :: rest =>
      match stop (m, q) with
      | ((m, q), _) =>
          match stopFirst stop k m rest with
          | (m, rest) => (m, q :: rest)
  | _, m, rest => (m, rest)

/-- Stop every queue; the first error wins. -/
def stopEach (stop : μ × σ → (μ × σ) × Res) :
    μ → List σ → ErrorCode → (μ × List σ) × ErrorCode
  | m, [], firstError => ((m, []), firstError)
  | m, q :: rest, firstError =>
      match stop (m, q) with
      | ((m, q), r) =>
          let firstError := match r with
            | .ok () => firstError
            | .error e =>
                if firstError = .none then
                  if e ≠ .none then e else .queueStopFailed
                else firstError
          match stopEach stop m rest firstError with
          | ((m, rest), firstError) => ((m, q :: rest), firstError)

end Rows

/-- A call that does not touch the memory. -/
def dry {σ : Type} (f : σ → σ × Res) (s : Memory × σ) :
    (Memory × σ) × Res :=
  match f s.2 with
  | (q, r) => ((s.1, q), r)

/-- What fails from outside during one `start`: the queues with an
injected error, and the thread. -/
structure StartEnv where
  rx : Nat → Option ErrorCode := fun _ => none
  tx : Nat → Option ErrorCode := fun _ => none
  thread : Bool := true

/-- `startQueues()`. -/
def startQueues (env : StartEnv) (s : Memory × VNic) :
    (Memory × VNic) × Res :=
  match startEach (fun i => RxQueue.startOr (env.rx i)) 0 s.1
      s.2.rxQueues with
  | ((m, rx), startedRx, .error e) =>
      let (m, rx) := stopFirst RxQueue.stop startedRx m rx
      ((m, { s.2 with rxQueues := rx }), .error e)
  | ((m, rx), startedRx, .ok ()) =>
      match startEach (fun i => dry (TxQueue.startOr (env.tx i))) 0 m
          s.2.txQueues with
      | ((m, tx), startedTx, .error e) =>
          let (m, rx) := stopFirst RxQueue.stop startedRx m rx
          let (m, tx) := stopFirst (dry TxQueue.stop) startedTx m tx
          ((m, { s.2 with rxQueues := rx, txQueues := tx }), .error e)
      | ((m, tx), _, .ok ()) =>
          ((m, { s.2 with rxQueues := rx, txQueues := tx }), .ok ())

/-- `stopQueues()`. -/
def stopQueues (s : Memory × VNic) : (Memory × VNic) × Res :=
  match stopEach RxQueue.stop s.1 s.2.rxQueues .none with
  | ((m, rx), firstError) =>
      match stopEach (dry TxQueue.stop) m s.2.txQueues firstError with
      | ((m, tx), firstError) =>
          ((m, { s.2 with rxQueues := rx, txQueues := tx }),
            if firstError ≠ .none then .error firstError else .ok ())

/-- `startImpl()`. -/
def startImpl (env : StartEnv) (s : Memory × VNic) :
    (Memory × VNic) × Res :=
  match startQueues env s with
  | (s, .error e) => (s, .error e)
  | (s, .ok ()) =>
      if env.thread then ((s.1, { s.2 with thread := true }), .ok ())
      else ((stopQueues s).1, .error .threadCreateFailed)

/-- `stopImpl()`: the poll thread is joined first. -/
def stopImpl (s : Memory × VNic) : (Memory × VNic) × Res :=
  stopQueues (s.1, { s.2 with thread := false })

/-- `start()`. -/
def start (env : StartEnv) (s : Memory × VNic) : (Memory × VNic) × Res :=
  Stateful.start (startImpl env) s

/-- `stop()`. -/
def stop (s : Memory × VNic) : (Memory × VNic) × Res :=
  Stateful.stop stopImpl s

-- ======================================================== receive path

/-- `validate(packet, parser)`. -/
def validate (n : VNic) (packet : Frame) (parser : Parser) : Res :=
  if Validate.checkFrameSize packet parser kMinFrameSize n.config.mtu
      = false then
    .error (if Validate.l2HeaderBytes parser + n.config.mtu.toNat
        < packet.length
      then .validationFrameTooLong else .validationFrameTooShort)
  else if Validate.checkFcs packet = false then
    .error .validationFcsInvalid
  else if Validate.checkDstMac parser n.macAddr
      n.config.promiscuousEnabled = false then
    .error .validationDstMacMismatch
  else if Validate.checkVlanFilter parser n.config.vlanAllowList
      = false then
    .error .validationVlanRejected
  else if Validate.checkIpTotalLength packet parser = false then
    .error .validationIpTotalLengthInvalid
  else if Validate.checkIpv4Checksum packet parser = false then
    .error .validationIpv4ChecksumInvalid
  else .ok ()

/-- `rssHashable`: RSS applies to IP frames only. -/
def rssHashable (parser : Parser) : Bool :=
  parser.l2Protocol == .ipv4 || parser.l2Protocol == .ipv6

/-- The index `hash & (size - 1)`. -/
def retaIndex (reta : Reta) (hash : UInt32) : Nat :=
  hash.toNat &&& (reta.length - 1)

/-- The table entry for a hash; an empty table means queue 0. -/
def readReta (reta : Reta) (hash : UInt32) : UInt16 :=
  if reta = [] then 0 else reta.getD (retaIndex reta hash) 0

/-- What reading the table does wrong, if anything. -/
def retaFaults (reta : Reta) (hash : UInt32) : List Fault :=
  if reta = [] then []
  else
    (if notPowerOfTwo reta.length then [.retaSize reta.length] else [])
    ++ (if retaIndex reta hash < reta.length then []
      else [.retaIndex (retaIndex reta hash)])

/-- The hash of a frame, when RSS is enabled and applies to it. -/
def frameHash (n : VNic) (parser : Parser) : Option UInt32 :=
  if n.config.rss.enabled && rssHashable parser then
    some (Rss.calcHash (get5Tuple parser) n.config.rss.key n.config.rss.hf
      n.config.rss.protocol n.config.rss.symmetry)
  else none

/-- The descriptor `distribute` fills in before `put`. -/
def describe (n : VNic) (now : UInt64) (parser : Parser) :
    PacketDescriptor :=
  match n.frameHash parser with
  | some hash =>
      { timestamp := now
        vlanId := parser.vlanId
        hash := hash
        queueId := readReta n.reta hash }
  | none =>
      { timestamp := now, vlanId := parser.vlanId, hash := 0, queueId := 0 }

/-- The assertions `distribute` violates on a frame. -/
def distributeFaults (n : VNic) (parser : Parser) : List Fault :=
  (match n.frameHash parser with
    | some hash => retaFaults n.reta hash
    | none => [])
  ++ (if (n.describe 0 parser).queueId.toNat < n.rxQueues.length then []
    else [.queueIndex (n.describe 0 parser).queueId.toNat])

/-- `distribute(parser, packet)`. -/
def distribute (malloc : Malloc) (now : UInt64) (parser : Parser)
    (packet : Frame) (s : Memory × VNic) : (Memory × VNic) × Res :=
  if s.2.rxQueues = [] then
    ((s.1, { s.2 with stats := s.2.stats.fetchDropped packet.length }),
      .error .queueNotConfigured)
  else
    let m := { s.1 with
      faults := s.1.faults ++ s.2.distributeFaults parser }
    let desc := s.2.describe now parser
    match s.2.rxQueues[desc.queueId.toNat]? with
    | none => ((m, s.2), .error .queueInvalidId)
    | some q =>
        match RxQueue.put malloc desc packet (m, q) with
        | ((m, q), .error e) =>
            ((m, { s.2 with
                rxQueues := s.2.rxQueues.set desc.queueId.toNat q
                stats := s.2.stats.fetchDropped packet.length }),
              .error e)
        | ((m, q), .ok ()) =>
            ((m, { s.2 with
                rxQueues := s.2.rxQueues.set desc.queueId.toNat q
                stats := s.2.stats.fetchProcessed packet.length }),
              .ok ())

/-- What became of a frame in `poll`. -/
inductive Verdict
  /-- Rejected by `parse` or `validate`. -/
  | rejected (e : ErrorCode)
  /-- Handed to `distribute`, which answered `r`. -/
  | distributed (desc : PacketDescriptor) (r : Res)
  deriving DecidableEq, Repr

/-- A frame that `parse` or `validate` rejects. -/
def rejectFrame (packet : Frame) (n : VNic) : VNic :=
  { n with stats := n.stats.fetchErrors.fetchDropped packet.length }

/-- One iteration of `poll` from the moment `takeRx` has answered a
frame. -/
def pollFrame (malloc : Malloc) (now : UInt64) (packet : Frame)
    (s : Memory × VNic) : (Memory × VNic) × Verdict :=
  match Parser.parse packet {} with
  | (_, .error e) => ((s.1, s.2.rejectFrame packet), .rejected e)
  | (parser, .ok ()) =>
      match s.2.validate packet parser with
      | .error e => ((s.1, s.2.rejectFrame packet), .rejected e)
      | .ok () =>
          match distribute malloc now parser packet s with
          | (t, r) => (t, .distributed (s.2.describe now parser) r)

-- =========================================================== data path

/-- The loop of `tx`: the port, the number sent, and the error that ended
it. Each descriptor comes with the allocation outcomes of its `put`. -/
def txLoop (m : Memory) (queueId : Nat) :
    List (TxQueue.Alloc × PacketDescriptor) → VNic → Nat →
    VNic × Nat × ErrorCode
  | [], n, sent => (n, sent, .none)
  | (alloc, desc) :: rest, n, sent =>
      match n.txQueues[queueId]? with
      | none => (n, sent, .queueInvalidId)
      | some q =>
          match TxQueue.put alloc m desc (n.link, q) with
          | ((link, q), .error e) =>
              ({ n with
                  link := link
                  txQueues := n.txQueues.set queueId q
                  stats := n.stats.fetchTxDropped desc.totalLength.toNat },
                sent, e)
          | ((link, q), .ok ()) =>
              txLoop m queueId rest
                { n with
                  link := link
                  txQueues := n.txQueues.set queueId q
                  stats := n.stats.fetchTransmitted desc.totalLength.toNat }
                (sent + 1)

/-- `tx(queueId, descs)`. -/
def tx (m : Memory) (queueId : UInt16)
    (descs : List (TxQueue.Alloc × PacketDescriptor)) (n : VNic) :
    VNic × Except ErrorCode Nat :=
  if n.txQueues.length ≤ queueId.toNat then (n, .error .queueInvalidId)
  else
    match txLoop m queueId.toNat descs n 0 with
    | (n, sent, error) =>
        if sent = 0 ∧ error ≠ .none then (n, .error error)
        else (n, .ok sent)

/-- `rx(queueId, descs)`: the descriptors appended. -/
def rx (queueId : UInt16) (n : VNic) :
    VNic × Except ErrorCode (List PacketDescriptor) :=
  match n.rxQueues[queueId.toNat]? with
  | none => (n, .error .queueInvalidId)
  | some q =>
      match q.take with
      | (descs, q) =>
          ({ n with rxQueues := n.rxQueues.set queueId.toNat q }, .ok descs)

/-- `freeRx(queueId, descs)`. -/
def freeRx (queueId : UInt16) (descs : List PacketDescriptor)
    (s : Memory × VNic) : (Memory × VNic) × Res :=
  match s.2.rxQueues[queueId.toNat]? with
  | none => (s, .error .queueInvalidId)
  | some q =>
      match RxQueue.free descs (s.1, q) with
      | ((m, q), r) =>
          ((m, { s.2 with
              rxQueues := s.2.rxQueues.set queueId.toNat q }), r)

/-- `resetStats()`. -/
def resetStats (n : VNic) : VNic := { n with stats := n.stats.reset }

end VNic

end Vnic
