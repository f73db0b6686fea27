/-
One specification per `VNic` operation, and the walks over the queues.

- `configure_cases`: a configuration that passes `validate` is applied as
  a whole; any other call leaves everything but the state alone. The
  later checks of `configureImpl` repeat `validate`, so its rollback never
  runs.
- `GoodReta`: what `initReta` and `updateReta` let through.
- the row lemmas: what starting and stopping the queues one after the
  other does to their states and to the chains they own.

# How the cases are found

`Stateful.configure_cases` gives the shape of every configuration call:
refused by the state, done, or failed with the state in error. What
remains is the hook, and there `validate_none_iff` turns the chain of
early returns into one conjunction, after which the later checks can be
seen to repeat it.
-/
import Vnic.Port
import Vnic.Proofs.Rows

namespace Vnic

open Row

namespace VNic

variable {m m' : Memory} {n n' : VNic}

-- ====================================================== the table

/-- A table `distribute` can read: not empty, a power of two long, every
entry below the queue count. -/
structure GoodReta (count : UInt16) (reta : Reta) : Prop where
  ne_nil : reta ≠ []
  size : notPowerOfTwo reta.length = false
  bound : ∀ id ∈ reta, id < count

private theorem any_le_eq_false {count : UInt16} {reta : Reta} :
    reta.any (fun id => count ≤ id) = false ↔ ∀ id ∈ reta, id < count := by
  simp [UInt16.not_le]

/-- `updateReta` lets through exactly the good tables. -/
theorem updateReta_cases (reta : Reta) (n : VNic) :
    (∃ e, updateReta reta n = (n, .error e))
    ∨ (GoodReta n.config.rxQueueCount reta
      ∧ updateReta reta n = ({ n with reta := reta }, .ok ())) := by
  unfold updateReta
  split
  · exact Or.inl ⟨_, rfl⟩
  · next hne =>
    split
    · exact Or.inl ⟨_, rfl⟩
    · next hsize =>
      split
      · exact Or.inl ⟨_, rfl⟩
      · next hany =>
        refine Or.inr ⟨⟨hne, by simpa using hsize, ?_⟩, rfl⟩
        exact any_le_eq_false.1 (by simpa using hany)

/-- A good table is installed. -/
theorem updateReta_of_good {reta : Reta}
    (h : GoodReta n.config.rxQueueCount reta) :
    updateReta reta n = ({ n with reta := reta }, .ok ()) := by
  unfold updateReta
  rw [if_neg h.ne_nil, h.size, any_le_eq_false.2 h.bound]
  rfl

/-- The table of 512 entries `i % count`. -/
def roundRobin (count : UInt16) : Reta :=
  (List.range 512).map fun i => UInt16.ofNat (i % count.toNat)

/-- The default table is good. -/
private theorem roundRobin_good {count : UInt16} (h : count ≠ 0) :
    GoodReta count (roundRobin count) := by
  unfold roundRobin
  refine ⟨by simp, ?_, ?_⟩
  · rw [List.length_map, List.length_range]
    decide
  · intro id hid
    obtain ⟨i, -, rfl⟩ := List.mem_map.1 hid
    have hpos : 0 < count.toNat := by
      rcases Nat.eq_zero_or_pos count.toNat with h0 | h0
      · exact absurd (UInt16.toNat_inj.1 h0) h
      · exact h0
    have hlt := Nat.mod_lt i hpos
    have hmax := count.toNat_lt
    rw [UInt16.lt_iff_toNat_lt, UInt16.toNat_ofNat', Nat.mod_eq_of_lt]
    · exact hlt
    · omega

-- =================================================== configure(config)

/-- What a configuration without an error code satisfies. -/
structure Valid (c : Config) : Prop where
  link : c.link.validate = .none
  rss : c.rss.validate = .none
  count : c.rss.enabled = true → c.rxQueueCount ≠ 0
  bound : c.rss.enabled = true → ∀ id ∈ c.rss.reta, id < c.rxQueueCount
  mac : configuredMac c ≠ none

/-- The conditions `validate` checks, one after the other. -/
theorem validate_none_iff {c : Config} :
    c.validate = .none
      ↔ c.mtu ≠ 0 ∧ c.link.validate = .none ∧ c.rss.validate = .none
        ∧ ¬ (c.rss.enabled = true ∧ c.rxQueueCount = 0)
        ∧ ¬ (c.rss.enabled = true
          ∧ c.rss.reta.any (fun id => c.rxQueueCount ≤ id) = true)
        ∧ ¬ c.vlanAllowList.any (fun id => kVlanIdMax < id) = true
        ∧ ¬ (c.macAddr ≠ [] ∧ Validate.parseMac c.macAddr = none) := by
  unfold Config.validate
  constructor
  · intro h
    -- validate returns at the first check that fails
    split at h
    · cases h
    · next hmtu =>
      split at h
      · next hl => exact absurd h hl
      · next hl =>
        split at h
        · next hr => exact absurd h hr
        · next hr =>
          split at h
          · cases h
          · next hcount =>
            split at h
            · cases h
            · next hbound =>
              split at h
              · cases h
              · next hvlan =>
                split at h
                · cases h
                · next hmac =>
                  exact ⟨hmtu, not_not.1 hl, not_not.1 hr, hcount, hbound,
                    hvlan, hmac⟩
  · rintro ⟨hmtu, hl, hr, hcount, hbound, hvlan, hmac⟩
    rw [if_neg hmtu, if_neg (not_not.2 hl), if_neg (not_not.2 hr),
      if_neg hcount, if_neg hbound, if_neg hvlan, if_neg hmac]

/-- What `validate` passes is valid. -/
theorem valid_of_validate {c : Config} (h : c.validate = .none) :
    Valid c := by
  obtain ⟨-, hl, hr, hcount, hbound, -, hmac⟩ := validate_none_iff.1 h
  refine ⟨hl, hr, fun he h0 => hcount ⟨he, h0⟩, ?_, ?_⟩
  · intro he
    apply any_le_eq_false.1
    rw [Bool.eq_false_iff]
    exact fun hany => hbound ⟨he, hany⟩
  · unfold configuredMac
    split
    · simp
    · next hne => exact fun hnone => hmac ⟨hne, hnone⟩

/-- The table a configuration asks for: its own, or round robin. -/
def retaOf (c : Config) : Reta :=
  if c.rss.reta = [] then roundRobin c.rxQueueCount else c.rss.reta

/-- The table a valid configuration asks for is good. -/
theorem retaOf_good {c : Config} (h : Valid c)
    (he : c.rss.enabled = true) : GoodReta c.rxQueueCount (retaOf c) := by
  unfold retaOf
  by_cases hne : c.rss.reta = []
  · rw [if_pos hne]
    exact roundRobin_good (h.count he)
  · rw [if_neg hne]
    refine ⟨hne, ?_, h.bound he⟩
    have hr := h.rss
    unfold RssConfig.validate at hr
    rw [if_neg (by simp [he])] at hr
    split at hr
    · cases hr
    · split at hr
      · cases hr
      · next hno => simpa [hne] using hno

/-- It is the table `configure` computes. -/
theorem initReta_ok {c : Config} (h : Valid c)
    (he : c.rss.enabled = true) : initReta c = .ok (retaOf c) := by
  have hgood := retaOf_good h he
  unfold initReta
  unfold retaOf at hgood ⊢
  rw [if_neg (h.count he)]
  by_cases hne : c.rss.reta = []
  · rw [if_neg (not_not.2 hne), if_pos hne]
    rfl
  · rw [if_neg hne] at hgood ⊢
    rw [if_pos hne, hgood.size, any_le_eq_false.2 hgood.bound]
    rfl

/-- The table after a configuration: built for it when RSS is on, the old
one (which nobody reads) when it is off. -/
def TableFor (c : Config) (old reta : Reta) : Prop :=
  if c.rss.enabled = true then GoodReta c.rxQueueCount reta
  else reta = old

/-- The table after a configuration, given the old one. -/
def retaAfter (c : Config) (old : Reta) : Reta :=
  if c.rss.enabled = true then retaOf c else old

private theorem tableFor_retaAfter {c : Config} (h : Valid c) (old : Reta) :
    TableFor c old (retaAfter c old) := by
  unfold TableFor retaAfter
  by_cases he : c.rss.enabled = true
  · rw [if_pos he, if_pos he]
    exact retaOf_good h he
  · rw [if_neg he, if_neg he]

/-- On a valid configuration the RSS part of `configure` cannot fail. -/
private theorem configureRss_ok (h : Valid n.config) :
    configureRss n
      = ({ n with reta := retaAfter n.config n.reta }, .ok ()) := by
  unfold configureRss retaAfter
  cases he : n.config.rss.enabled with
  | false => simp
  | true =>
      simp only [Bool.true_eq_false, if_false, h.rss, ne_eq,
        not_true_eq_false, initReta_ok h he, if_true]
      exact updateReta_of_good (retaOf_good h he)

/-- The port with a valid configuration applied. -/
def applied (config : Config) (mac : Bytes 6) (reta : Reta) (n : VNic) :
    VNic :=
  { n with
    config := config
    macAddr := mac
    reta := reta
    link := { n.link with
      config := config.link
      rxQueue := n.link.rxQueue.reserve config.link.rxQueueDepth.toNat
      txQueue := n.link.txQueue.reserve config.link.txQueueDepth.toNat }
    rxQueues := List.replicate config.rxQueueCount.toNat {}
    txQueues := List.replicate config.txQueueCount.toNat {} }

/-- A configuration that passes `validate` is applied as a whole. -/
theorem configureImpl_ok {config : Config} (hv : config.validate = .none)
    (m : Memory) (n : VNic) :
    ∃ mac, configuredMac config = some mac
      ∧ configureImpl config (m, n)
        = ((destroyRx n.rxQueues m,
            n.applied config mac (retaAfter config n.reta)), .ok ()) := by
  have hvalid := valid_of_validate hv
  obtain ⟨mac, hmac⟩ := Option.ne_none_iff_exists'.1 hvalid.mac
  refine ⟨mac, hmac, ?_⟩
  have hrss := configureRss_ok (n := n.applied config mac n.reta) hvalid
  have hlink := Link.configure_of_valid hvalid.link n.link
  have hqueues : configureQueues (m,
      { n with
        config := config
        macAddr := mac
        link := { n.link with
          config := config.link
          rxQueue := n.link.rxQueue.reserve config.link.rxQueueDepth.toNat
          txQueue := n.link.txQueue.reserve
            config.link.txQueueDepth.toNat } })
      = (destroyRx n.rxQueues m, n.applied config mac n.reta) := rfl
  unfold configureImpl
  simp only [hv, ne_eq, not_true_eq_false, if_false, hmac, hlink, hqueues,
    hrss]
  rfl

/-- `configureImpl` decides by `validate` alone. -/
theorem configureImpl_cases (config : Config) (m : Memory) (n : VNic) :
    (config.validate ≠ .none
      ∧ configureImpl config (m, n) = ((m, n), .error config.validate))
    ∨ (config.validate = .none ∧ ∃ mac, configuredMac config = some mac
      ∧ configureImpl config (m, n)
        = ((destroyRx n.rxQueues m,
            n.applied config mac (retaAfter config n.reta)), .ok ())) := by
  by_cases hv : config.validate = .none
  · exact Or.inr ⟨hv, configureImpl_ok hv m n⟩
  · refine Or.inl ⟨hv, ?_⟩
    unfold configureImpl
    rw [if_pos hv]

/-- What `configure(config)` does on a port that may be configured. -/
theorem configure_eq (hc : Stateful.Configurable n.state) (config : Config)
    (m : Memory) :
    (config.validate ≠ .none
      ∧ configure config (m, n)
        = ((m, { n with state := .error }), .error config.validate))
    ∨ (config.validate = .none ∧ ∃ mac, configuredMac config = some mac
      ∧ configure config (m, n)
        = ((destroyRx n.rxQueues m,
            { n.applied config mac (retaAfter config n.reta) with
              state := .configured }), .ok ())) := by
  have hset : Stateful.setState .configuring (m, n)
      = (m, Stateful.setState .configuring n) := rfl
  have himpl := configureImpl_cases config m
    (Stateful.setState .configuring n)
  rcases Stateful.configure_cases (configureImpl config) (m, n) with
    ⟨hno, -⟩ | ⟨-, ⟨t, ht, heq⟩ | ⟨t, e, ht, heq⟩⟩
  · exact absurd hc hno
  · rw [hset] at ht
    rcases himpl with ⟨-, hi⟩ | ⟨hv, mac, hmac, hi⟩
    · rw [hi] at ht
      cases ht
    · rw [hi] at ht
      cases ht
      exact Or.inr ⟨hv, mac, hmac, heq⟩
  · rw [hset] at ht
    rcases himpl with ⟨hv, hi⟩ | ⟨-, mac, -, hi⟩
    · rw [hi] at ht
      cases ht
      exact Or.inl ⟨hv, heq⟩
    · rw [hi] at ht
      cases ht

/-- What `configure(config)` can do. -/
theorem configure_cases (config : Config) (m : Memory) (n : VNic) :
    (¬ Stateful.Configurable n.state
      ∧ configure config (m, n)
        = ((m, n), .error .stateConfigureNotAllowed))
    ∨ (Stateful.Configurable n.state ∧ config.validate ≠ .none
      ∧ configure config (m, n)
        = ((m, { n with state := .error }), .error config.validate))
    ∨ (Stateful.Configurable n.state ∧ config.validate = .none
      ∧ ∃ mac reta, TableFor config n.reta reta
      ∧ configure config (m, n)
        = ((destroyRx n.rxQueues m,
            { n.applied config mac reta with state := .configured }),
            .ok ())) := by
  by_cases hc : Stateful.Configurable n.state
  · rcases configure_eq hc config m with
      ⟨hv, heq⟩ | ⟨hv, mac, -, heq⟩
    · exact Or.inr (Or.inl ⟨hc, hv, heq⟩)
    · exact Or.inr (Or.inr ⟨hc, hv, mac, _,
        tableFor_retaAfter (valid_of_validate hv) n.reta, heq⟩)
  · rcases Stateful.configure_cases (configureImpl config) (m, n) with
      ⟨-, heq⟩ | ⟨hc', -⟩
    · exact Or.inl ⟨hc, heq⟩
    · exact absurd hc' hc

/-- A `configure(config)` that succeeds applied the configuration. -/
theorem configure_of_ok {config : Config}
    (hok : (configure config (m, n)).2 = .ok ()) :
    Stateful.Configurable n.state ∧ config.validate = .none
    ∧ ∃ mac, configuredMac config = some mac
      ∧ configure config (m, n)
        = ((destroyRx n.rxQueues m,
            { n.applied config mac (retaAfter config n.reta) with
              state := .configured }), .ok ()) := by
  by_cases hc : Stateful.Configurable n.state
  · rcases configure_eq hc config m with ⟨-, heq⟩ | hright
    · rw [heq] at hok
      cases hok
    · exact ⟨hc, hright⟩
  · rcases configure_cases config m n with ⟨-, heq⟩ | ⟨hc', -⟩ | ⟨hc', -⟩
    · rw [heq] at hok
      cases hok
    · exact absurd hc' hc
    · exact absurd hc' hc

-- ================================================= configure one queue

/-- One queue of a port that is not running was configured, or the call
found nothing to configure; the port is `Configured` or in `Error`. -/
def QueueConfigured (n n' : VNic) : Prop :=
  ∃ st rx tx, (st = .configured ∨ st = .error)
    ∧ (∀ m, Moved m n.rxQueues n.txQueues m rx tx)
    ∧ (NoneStarted n.rxQueues n.txQueues → NoneStarted rx tx)
    ∧ n' = { n with state := st, rxQueues := rx, txQueues := tx }

private theorem QueueConfigured.unchanged {st : State}
    (hst : st = .configured ∨ st = .error) (n : VNic) :
    QueueConfigured n { n with state := st } :=
  ⟨st, n.rxQueues, n.txQueues, hst, fun _ => ⟨.refl _ _, .refl _ _⟩,
    fun h => h, rfl⟩

/-- A `configure` of the port is refused or runs its hook, and publishes
the verdict of the hook. -/
theorem configure_hook (impl : VNic → VNic × Res) (n : VNic) :
    (¬ Stateful.Configurable n.state
      ∧ (Stateful.configure impl n).1 = n)
    ∨ (Stateful.Configurable n.state
      ∧ ∃ st, (st = .configured ∨ st = .error)
        ∧ (Stateful.configure impl n).1
          = { (impl { n with state := .configuring }).1 with
              state := st }) := by
  rcases Stateful.configure_cases impl n with
    ⟨hno, h⟩ | ⟨hc, ⟨t, ht, h⟩ | ⟨t, e, ht, h⟩⟩
  · exact Or.inl ⟨hno, by rw [h]⟩
  · refine Or.inr ⟨hc, .configured, Or.inl rfl, ?_⟩
    rw [h, show impl { n with state := .configuring } = (t, .ok ()) from ht]
    rfl
  · refine Or.inr ⟨hc, .error, Or.inr rfl, ?_⟩
    rw [h, show impl { n with state := .configuring } = (t, .error e) from ht]
    rfl

/-- `configureRx` is refused, or configures a queue of the row if there is
one. -/
theorem configureRx_cases (queueId : UInt16) (config : RxQueue.Config)
    (n : VNic) :
    (¬ Stateful.Configurable n.state
      ∧ (configureRx queueId config n).1 = n)
    ∨ (Stateful.Configurable n.state
      ∧ QueueConfigured n (configureRx queueId config n).1) := by
  unfold configureRx
  rcases configure_hook (configureRxImpl queueId config) n with
    ⟨hno, h⟩ | ⟨hc, st, hst, h⟩
  · exact Or.inl ⟨hno, h⟩
  · refine Or.inr ⟨hc, ?_⟩
    rw [h]
    unfold configureRxImpl
    simp only
    cases hq : n.rxQueues[queueId.toNat]? with
    | none => exact .unchanged hst n
    | some q =>
        simp only
        split
        · exact .unchanged hst n
        -- the one queue named moves, to a state its own configure reaches
        · have hwalk : Walk (fun (_ : Unit) q _ q' =>
              q' = (q.configure config).1) () n.rxQueues ()
              (n.rxQueues.set queueId.toNat (q.configure config).1) :=
            .set hq rfl
          refine ⟨st, _, n.txQueues, hst,
            fun m => ⟨.set hq (.configure config), .refl _ _⟩,
            fun hno => ⟨hwalk.forall_mem ?_ hno.1, hno.2⟩, rfl⟩
          rintro _ _ q _ rfl hq
          exact mt (RxQueue.configure_running config q).1 hq

/-- `configureTx` is refused, or configures a queue of the row if there is
one. -/
theorem configureTx_cases (queueId : UInt16) (config : TxQueue.Config)
    (n : VNic) :
    (¬ Stateful.Configurable n.state
      ∧ (configureTx queueId config n).1 = n)
    ∨ (Stateful.Configurable n.state
      ∧ QueueConfigured n (configureTx queueId config n).1) := by
  unfold configureTx
  rcases configure_hook (configureTxImpl queueId config) n with
    ⟨hno, h⟩ | ⟨hc, st, hst, h⟩
  · exact Or.inl ⟨hno, h⟩
  · refine Or.inr ⟨hc, ?_⟩
    rw [h]
    unfold configureTxImpl
    simp only
    cases hq : n.txQueues[queueId.toNat]? with
    | none => exact .unchanged hst n
    | some q =>
        simp only
        split
        · exact .unchanged hst n
        · have hwalk : Walk (fun (_ : Unit) q _ q' =>
              q' = (q.configure config).1) () n.txQueues ()
              (n.txQueues.set queueId.toNat (q.configure config).1) :=
            .set hq rfl
          refine ⟨st, n.rxQueues, _, hst,
            fun m => ⟨.refl _ _, .set hq (.configure config)⟩,
            fun hno => ⟨hno.1, hwalk.forall_mem ?_ hno.2⟩, rfl⟩
          rintro _ _ q _ rfl hq
          exact mt (TxQueue.configure_running config q).1 hq

-- ======================================================= the destructor

/-- Destroying the RX queues releases what waits in them and nothing
else. -/
theorem destroyRx_owners {ds : List PacketDescriptor} :
    ∀ {rx : List RxQueue} {m : Memory},
      Owners m (rx.flatMap (·.used_.queue) ++ ds) →
      Owners (destroyRx rx m) ds ∧ SameChains m (destroyRx rx m) ds := by
  intro rx
  induction rx with
  | nil => exact fun h => ⟨h, SameChains.of_blocks rfl⟩
  | cons q rest ih =>
      intro m h
      rw [List.flatMap_cons, List.append_assoc] at h
      obtain ⟨ho, hsame⟩ := RxQueue.drain_owners h
      obtain ⟨ho', hsame'⟩ := ih ho
      refine ⟨ho', (hsame.mono ?_).trans hsame'⟩
      exact List.subset_append_right _ _

end VNic

end Vnic
