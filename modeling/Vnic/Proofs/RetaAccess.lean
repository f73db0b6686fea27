/-
What the threads of a port see of its redirection table: one whole table,
the one published last, however the steps of `distribute`, `getReta` and
`updateReta` interleave.

The reads are those of an atomic register (`Rcu.holds_run`), so that it is
enough to run their bodies on a table that stays put. That every table is
one `updateReta` has checked is an invariant of the threads: a table is
checked before its writer waits for the lock.
-/
import Vnic.RetaAccess
import Vnic.Proofs.Rcu
import Vnic.Proofs.Control

namespace Vnic.RetaAccess

open VNic

variable {ι : Type}

-- ============================================================== bodies

private theorem eval_size (next : Nat → Body) (reta : Reta) :
    (size next).eval reta = (next reta.length).eval reta := rfl

private theorem eval_entry (next : UInt16 → Body) {reta : Reta} {i : Nat}
    (h : i < reta.length) :
    (entry i next).eval reta = (next reta[i]).eval reta := by
  unfold entry
  simp only [Reads.eval, List.getElem?_eq_getElem h, Option.map_some,
    UInt16.ofNat_toNat]

/-- On a table of the right size the lookup is `readReta`. -/
theorem eval_lookup {reta : Reta} (hash : UInt32)
    (hsize : notPowerOfTwo reta.length = false) :
    (lookup hash).eval reta = .queue (readReta reta hash) := by
  unfold lookup readReta
  rw [eval_size]
  by_cases hnil : reta = []
  · rw [if_pos hnil, if_pos (by rw [hnil]; rfl)]
    rfl
  · have hlen : reta.length ≠ 0 := by simpa using hnil
    have hmask : ¬ (reta.length &&& (reta.length - 1)) ≠ 0 := by
      simpa [notPowerOfTwo] using hsize
    have hlt := retaIndex_lt hnil hash
    rw [if_neg hlen, if_neg hnil, eval_size, eval_size, if_neg hmask,
      eval_size]
    change (entry (retaIndex reta hash) _).eval reta = _
    rw [eval_entry _ hlt, List.getD_eq_getElem?_getD,
      List.getElem?_eq_getElem hlt]
    rfl

/-- The loop has copied the entries below `i`. -/
theorem eval_copyLoop {reta : Reta} {left i : Nat}
    (h : i + left = reta.length) :
    (copyLoop left i (reta.take i)).eval reta = .table reta := by
  induction left generalizing i with
  | zero =>
      have hi : i = reta.length := by omega
      rw [hi, List.take_length]
      rfl
  | succ left ih =>
      have hlt : i < reta.length := by omega
      unfold copyLoop
      rw [eval_entry _ hlt, List.take_concat_get' ]
      exact ih (by omega)

/-- A copy of the whole table is that table. -/
private theorem eval_snapshot (reta : Reta) : snapshot.eval reta = .table reta
    := by
  unfold snapshot
  rw [eval_size]
  exact eval_copyLoop (by omega)

-- ================================================================ runs

/-- What may be published has been checked. -/
private theorem admitted_good {n : VNic} {i : ι} {reta : Reta}
    (h : Admitted n (.write i reta)) : GoodReta n.config.rxQueueCount reta := by
  change (updateReta reta n).2 = .ok () at h
  rcases updateReta_cases reta n with ⟨e, heq⟩ | ⟨hgood, -⟩
  · rw [heq] at h
    cases h
  · exact hgood

variable [DecidableEq ι]

/-- From any port that control calls have brought about with RSS on, over
every interleaving of lookups, copies and updates: whatever call takes
effect next, the table published last is a good one; a lookup returns that
table's entry for its hash, which is a queue of the port, and a copy is
that table. -/
theorem reta_reads_one_table {blocks : Blocks} {ops : List Sys.Op}
    {log : List Sys.Event} {s : Sys}
    (hreach : sys.run (Sys.init blocks) ops = some (s, log))
    (hrss : s.nic.config.rss.enabled = true)
    {acts : List (Rcu.Act ι Reta (Option Nat) Answer)}
    {t : Rcu.State ι Reta (Option Nat) Answer}
    {es : List (Option (Register.Event ι Reta (Option Nat) Answer))}
    (hacts : ∀ a ∈ acts, Admitted s.nic a)
    (hrun : (Rcu.system ι Reta (Option Nat) Answer).run
      (Rcu.init s.nic.reta) acts = some (t, es))
    {pre post : List (Register.Event ι Reta (Option Nat) Answer)}
    {e : Register.Event ι Reta (Option Nat) Answer}
    (hes : es.flatMap Option.toList = pre ++ e :: post) :
    GoodReta s.nic.config.rxQueueCount (Register.last s.nic.reta pre)
    ∧ (∀ i hash r, e = .read i (lookup hash) r →
      r = .queue (readReta (Register.last s.nic.reta pre) hash)
      ∧ readReta (Register.last s.nic.reta pre) hash
        < s.nic.config.rxQueueCount)
    ∧ (∀ i r, e = .read i snapshot r →
      r = .table (Register.last s.nic.reta pre)) := by
  have hwrote := Rcu.wrote_of (P := GoodReta s.nic.config.rxQueueCount)
    (fun a ha i reta heq => admitted_good (heq ▸ hacts a ha)) hrun
  -- the table in force was there at the start or was published, and both
  -- are good
  have hgood : GoodReta s.nic.config.rxQueueCount
      (Register.last s.nic.reta pre) := by
    apply Register.last_of ((Sys.tableOk_run hreach).good hrss)
    intro i reta hm
    apply hwrote i reta
    rw [hes]
    exact List.mem_append_left _ hm
  obtain ⟨calls, w, hcalls, -⟩ := Rcu.holds_run hrun
  have hatomic := (Register.run_atomic hcalls).1
  rw [hes, Register.atomic_append] at hatomic
  refine ⟨hgood, fun i hash r heq => ?_, fun i r heq => ?_⟩
  · subst heq
    have hr : r = (lookup hash).eval _ := hatomic.2.1
    rw [eval_lookup hash hgood.size] at hr
    exact ⟨hr, hgood.read_lt hash⟩
  · subst heq
    have hr : r = snapshot.eval _ := hatomic.2.1
    rw [eval_snapshot] at hr
    exact hr

/-- Two queues and a table of two entries. -/
def twoEntries : List Sys.Op :=
  [.configure
    { rxQueueCount := 2
      rss :=
        { enabled := true
          hf := .simpleXor
          key := List.replicate 40 0
          reta := [0, 1] } }]

/-- An update comes to the lock in the middle of a lookup; another lookup
follows it. -/
def lookupMeetsUpdate : List (Rcu.Act Nat Reta (Option Nat) Answer) :=
  [.read 0 (lookup 5), .lock 0, .look 0, .look 0, .write 1 [0, 0, 1, 1],
    .look 0, .look 0, .look 0, .unlock 0, .lock 1, .tear 1 [], .assign 1,
    .unlock 1, .read 0 (lookup 5), .lock 0, .look 0, .look 0, .look 0,
    .look 0, .look 0, .unlock 0]

/-- A lookup before and one after the publication, each from one table. -/
theorem reta_reads_one_table_lookupMeetsUpdate :
    ∃ s log t es, sys.run (Sys.init ∅) twoEntries = some (s, log)
      ∧ (Rcu.system Nat Reta (Option Nat) Answer).run (Rcu.init s.nic.reta)
          lookupMeetsUpdate = some (t, es)
      ∧ es.flatMap Option.toList = [.read 0 (lookup 5) (.queue 1),
        .wrote 1 [0, 0, 1, 1], .read 0 (lookup 5) (.queue 0)]
      ∧ readReta [0, 0, 1, 1] 5 < s.nic.config.rxQueueCount := by
  have heval : (sys.run (Sys.init ∅) twoEntries).map
      (fun p => (p.1.nic.config.rss.enabled, p.1.nic.config.rxQueueCount,
        p.1.nic.reta)) = some (true, 2, [0, 1]) := by decide
  obtain ⟨⟨s, log⟩, hreach, hp⟩ := Option.map_eq_some_iff.1 heval
  simp only [Prod.mk.injEq] at hp
  obtain ⟨hon, hcount, hreta⟩ := hp
  have hrun : ∃ t es, (Rcu.system Nat Reta (Option Nat) Answer).run
        (Rcu.init s.nic.reta) lookupMeetsUpdate = some (t, es)
      ∧ es.flatMap Option.toList = [.read 0 (lookup 5) (.queue 1),
        .wrote 1 [0, 0, 1, 1]] ++ [.read 0 (lookup 5) (.queue 0)] := by
    rw [hreta]
    exact ⟨_, _, rfl, rfl⟩
  obtain ⟨t, es, hrun, hes⟩ := hrun
  have hacts : ∀ a ∈ lookupMeetsUpdate, Admitted s.nic a := by
    -- two queues and a power of two: the published table is one updateReta
    -- admits
    have hgood : GoodReta s.nic.config.rxQueueCount [0, 0, 1, 1] := by
      rw [hcount]
      exact ⟨by simp, rfl, by simp⟩
    intro a ha
    cases a with
    | write i reta =>
        have heq : i = 1 ∧ reta = [0, 0, 1, 1] := by
          simpa [lookupMeetsUpdate] using ha
        rw [heq.2]
        exact congrArg Prod.snd (updateReta_of_good hgood)
    | _ => trivial
  have hall := (reta_reads_one_table hreach hon hacts hrun hes).2.1
  exact ⟨s, log, t, es, hreach, hrun, hes, (hall 0 5 _ rfl).2⟩

end Vnic.RetaAccess
