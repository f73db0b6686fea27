/-
`configure(config)` from the outside.

`Config::validate` decides alone: the checks that `configureImpl` makes
after it repeat parts of it (`Rechecked`), so its rollback never runs,
and a refused configuration leaves all but the state as it was.

An accepted configuration should leave nothing of the port's history in
the control plane. One field keeps some: with RSS off `configureRss`
returns before it writes the table, so `getReta()` still answers the old
one, whose entries may name queues that no longer exist
(`not_forgets_twoQueues`).
-/
import Vnic.System
import Vnic.Proofs.Port

namespace Vnic

namespace VNic

variable {m : Memory} {n : VNic} {c : Config}

-- ============================================================ re-checks

/-- Every check `configureImpl` makes after `validate` passes: the MAC
text parses, the link takes its part, and with RSS on the RSS part is
valid, the table is built and `updateReta` publishes it. -/
structure Rechecked (c : Config) : Prop where
  mac : configuredMac c ≠ none
  link : ∀ l : Link, (l.configure c.link).2 = .ok ()
  rss : c.rss.validate = .none
  table : c.rss.enabled = true → ∃ reta, initReta c = .ok reta
    ∧ ∀ n : VNic, n.config = c → (updateReta reta n).2 = .ok ()

/-- What `validate` has passed passes again. -/
private theorem rechecked_of_validate (h : c.validate = .none) : Rechecked c :=
    by
  have hv := valid_of_validate h
  refine ⟨hv.mac, ?_, hv.rss, ?_⟩
  · intro l
    rw [Link.configure_of_valid hv.link]
  · intro he
    refine ⟨retaOf c, initReta_ok hv he, ?_⟩
    rintro n rfl
    rw [updateReta_of_good (retaOf_good hv he)]

/-- `configure(config)` on a port that is not running or in transition
succeeds if and only if the configuration passes `validate`. If it does
not, its code is the answer and only the state changes, to `Error`. If it
does, no later check fails, and with RSS on the published table is the
configured one, or round robin over 512 entries when that is empty. -/
theorem configure_by_validate (hc : Stateful.Configurable n.state)
    (m : Memory) (c : Config) :
    ((configure c (m, n)).2 = .ok () ↔ c.validate = .none)
    ∧ (c.validate ≠ .none →
      configure c (m, n)
        = ((m, { n with state := .error }), .error c.validate))
    ∧ (c.validate = .none →
      Rechecked c
      ∧ (c.rss.enabled = true →
        (configure c (m, n)).1.2.reta
          = if c.rss.reta = [] then
              (List.range 512).map fun i =>
                UInt16.ofNat (i % c.rxQueueCount.toNat)
            else c.rss.reta)) := by
  rcases configure_eq hc c m with
    ⟨hv, heq⟩ | ⟨hv, mac, -, heq⟩
  · refine ⟨?_, fun _ => heq, fun h => absurd h hv⟩
    rw [heq]
    exact ⟨fun h => (by cases h), fun h => absurd h hv⟩
  · refine ⟨?_, fun h => absurd hv h, fun _ => ⟨rechecked_of_validate hv, ?_⟩⟩
    · rw [heq]
      exact ⟨fun _ => hv, fun _ => rfl⟩
    · intro he
      rw [heq]
      show retaAfter c n.reta = _
      unfold retaAfter
      rw [if_pos he]
      rfl

/-- A port in `Error` takes a valid configuration and answers an invalid
one with its code. -/
theorem configure_by_validate_afterError :
    (configure {} ({}, { state := .error })).2 = .ok ()
    ∧ (configure { mtu := 0 } ({}, { state := .error })).2
      = .error .configMtuInvalid := by
  refine ⟨(configure_by_validate (by decide) {} {}).1.2 (by decide), ?_⟩
  rw [(configure_by_validate (by decide) {} { mtu := 0 }).2.1 (by decide)]
  rfl

-- ======================================================== control plane

/-- What the control plane of a port shows. -/
structure ControlPlane where
  config : Config
  macAddr : Bytes 6
  reta : Reta
  rxQueues : List (State × RxQueue.Config)
  txQueues : List (State × TxQueue.Config)
  link : Link.Config
  rxCapacity : Nat
  txCapacity : Nat
  deriving DecidableEq

/-- The control plane of a port. -/
def controlPlane (n : VNic) : ControlPlane where
  config := n.config
  macAddr := n.macAddr
  reta := n.reta
  rxQueues := n.rxQueues.map fun q => (q.state, q.config)
  txQueues := n.txQueues.map fun q => (q.state, q.config)
  link := n.link.config
  rxCapacity := n.link.rxQueue.config.capacity
  txCapacity := n.link.txQueue.config.capacity

/-- The control plane a configuration describes, but for the table. -/
def described (c : Config) (mac : Bytes 6) (reta : Reta) : ControlPlane where
  config := c
  macAddr := mac
  reta := reta
  rxQueues := List.replicate c.rxQueueCount.toNat (.stopped, {})
  txQueues := List.replicate c.txQueueCount.toNat (.stopped, {})
  link := c.link
  rxCapacity := c.link.rxQueueDepth.toNat
  txCapacity := c.link.txQueueDepth.toNat

private theorem applied_controlPlane (mac : Bytes 6) (reta : Reta) (st : State)
    (n : VNic) :
    ({ n.applied c mac reta with state := st } : VNic).controlPlane
      = described c mac reta := by
  simp only [controlPlane, applied, described, List.map_replicate]
  rfl

/-- After an accepted configuration only the table may still be older
than it. -/
theorem controlPlane_of_configured
    (hok : (configure c (m, n)).2 = .ok ()) :
    c.validate = .none
    ∧ ∃ mac, configuredMac c = some mac
      ∧ (configure c (m, n)).1.2.controlPlane
        = described c mac (retaAfter c n.reta) := by
  obtain ⟨-, hv, mac, hmac, heq⟩ := configure_of_ok hok
  refine ⟨hv, mac, hmac, ?_⟩
  rw [heq]
  exact applied_controlPlane mac _ _ n

end VNic

namespace Sys

open VNic

/-- Some calls brought a fresh port to `s`, and `configure(c)` succeeded
there. -/
structure Reconfigured (c : Config) (s t : Sys) : Prop where
  reached : ∃ blocks as es, sys.run (init blocks) as = some (s, es)
  configured : s.step (.configure c) = some (t, .configure (.ok ()))

/-- What is left of a `configure` is what its configuration says. -/
private theorem Reconfigured.controlPlane {c : Config} {s t : Sys}
    (h : Reconfigured c s t) :
    c.validate = .none
    ∧ ∃ mac, configuredMac c = some mac
      ∧ t.nic.controlPlane = described c mac (retaAfter c s.nic.reta) := by
  have hstep := h.configured
  simp only [step, Option.some.injEq, Prod.mk.injEq,
    Event.configure.injEq] at hstep
  rw [← hstep.1]
  exact controlPlane_of_configured hstep.2

/-- Two ports with any pasts agree on the whole control plane after the
same accepted configuration, with every table entry a queue they have, if
and only if the configuration enables RSS or their tables agreed before
and fit it. -/
theorem reconfigure_forgets_iff {c : Config} {s₁ t₁ s₂ t₂ : Sys}
    (h₁ : Reconfigured c s₁ t₁) (h₂ : Reconfigured c s₂ t₂) :
    (t₁.nic.controlPlane = t₂.nic.controlPlane
      ∧ ∀ id ∈ t₁.nic.reta, id < c.rxQueueCount)
    ↔ (c.rss.enabled = true
      ∨ (s₁.nic.reta = s₂.nic.reta
        ∧ ∀ id ∈ s₁.nic.reta, id < c.rxQueueCount)) := by
  obtain ⟨hv, mac, hmac, heq₁⟩ := h₁.controlPlane
  obtain ⟨-, mac', hmac', heq₂⟩ := h₂.controlPlane
  obtain rfl : mac = mac' := Option.some.inj (hmac.symm.trans hmac')
  have hreta : t₁.nic.reta = retaAfter c s₁.nic.reta :=
    congrArg ControlPlane.reta heq₁
  have hplane : t₁.nic.controlPlane = t₂.nic.controlPlane
      ↔ retaAfter c s₁.nic.reta = retaAfter c s₂.nic.reta := by
    rw [heq₁, heq₂]
    exact ⟨congrArg ControlPlane.reta, fun h => by rw [h]⟩
  rw [hplane, hreta]
  unfold retaAfter
  by_cases he : c.rss.enabled = true
  · simp only [he, if_true, true_and, true_or, iff_true]
    exact (retaOf_good (valid_of_validate hv) he).bound
  · simp only [he, if_false, Bool.false_eq_true, false_or]

/-- RSS on, over two queues, every hash to the second. -/
def toSecondQueue : Config :=
  { rxQueueCount := 2
    rss := {
      enabled := true
      key := List.replicate 40 1
      reta := [1] } }

/-- A port that was told to use two queues, and a fresh one. -/
theorem reconfigure_forgets_iff_toSecondQueue :
    ∃ s₁ t₁ s₂ t₂, Reconfigured toSecondQueue s₁ t₁
      ∧ Reconfigured toSecondQueue s₂ t₂
      ∧ s₁.nic.reta ≠ s₂.nic.reta
      ∧ t₁.nic.controlPlane = t₂.nic.controlPlane := by
  have h₁ : (sys.run (init ∅) [.configure { toSecondQueue with
      rss := { toSecondQueue.rss with reta := [0, 1] } }]).bind (fun p =>
        (p.1.step (.configure toSecondQueue)).map fun q =>
          (p.1.nic.reta.length, q.2)) = some (2, .configure (.ok ())) := by
    decide
  have h₂ : (sys.run (init ∅) []).bind (fun p =>
        (p.1.step (.configure toSecondQueue)).map fun q =>
          (p.1.nic.reta.length, q.2)) = some (0, .configure (.ok ())) := by
    decide
  obtain ⟨⟨s₁, es₁⟩, hrun₁, h₁⟩ := Option.bind_eq_some_iff.1 h₁
  obtain ⟨⟨t₁, e₁⟩, hstep₁, h₁⟩ := Option.map_eq_some_iff.1 h₁
  obtain ⟨⟨s₂, es₂⟩, hrun₂, h₂⟩ := Option.bind_eq_some_iff.1 h₂
  obtain ⟨⟨t₂, e₂⟩, hstep₂, h₂⟩ := Option.map_eq_some_iff.1 h₂
  simp only [Prod.mk.injEq] at h₁ h₂
  obtain ⟨hlen₁, rfl⟩ := h₁
  obtain ⟨hlen₂, rfl⟩ := h₂
  have hr₁ : Reconfigured toSecondQueue s₁ t₁ :=
    ⟨⟨_, _, _, hrun₁⟩, hstep₁⟩
  have hr₂ : Reconfigured toSecondQueue s₂ t₂ :=
    ⟨⟨_, _, _, hrun₂⟩, hstep₂⟩
  refine ⟨s₁, t₁, s₂, t₂, hr₁, hr₂, fun heq => ?_, ?_⟩
  · rw [heq, hlen₂] at hlen₁
    cases hlen₁
  · exact ((reconfigure_forgets_iff hr₁ hr₂).2 (Or.inl rfl)).1

/-- The table of two queues survives a configuration with one queue and
RSS off; a fresh port has none. -/
theorem not_forgets_twoQueues :
    ¬ ∀ (c : Config) (s₁ t₁ s₂ t₂ : Sys),
        Reconfigured c s₁ t₁ → Reconfigured c s₂ t₂ →
        t₁.nic.controlPlane = t₂.nic.controlPlane
          ∧ ∀ id ∈ t₁.nic.reta, id < c.rxQueueCount := by
  intro hall
  have h₁ : (sys.run (init ∅) [.configure toSecondQueue]).bind (fun p =>
        (p.1.step (.configure {})).map fun q => (q.1.nic.reta, q.2))
      = some ([1], .configure (.ok ())) := by
    decide
  obtain ⟨⟨s₁, es₁⟩, hrun₁, h₁⟩ := Option.bind_eq_some_iff.1 h₁
  obtain ⟨⟨t₁, e₁⟩, hstep₁, h₁⟩ := Option.map_eq_some_iff.1 h₁
  simp only [Prod.mk.injEq] at h₁
  obtain ⟨hreta, rfl⟩ := h₁
  have hr₁ : Reconfigured {} s₁ t₁ := ⟨⟨_, _, _, hrun₁⟩, hstep₁⟩
  have hlt := (hall {} s₁ t₁ s₁ t₁ hr₁ hr₁).2 1 (by rw [hreta]; decide)
  exact absurd hlt (by decide)

end Sys

end Vnic
