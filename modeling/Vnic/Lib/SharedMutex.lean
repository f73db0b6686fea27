/-
A shared mutex: one exclusive holder, or any number of shared ones.

The two kinds of holders exclude each other by the structure's own field,
so that what a client proves about who holds the mutex is one half of
what it needs; the other half is that its threads are where the mutex says
they are. The operations that may have to wait answer `none` then.
-/
import Mathlib.Data.Finset.Insert
import Mathlib.Data.Finset.Erase

/-- Who holds the mutex. -/
structure SharedMutex (ι : Type) where
  writer : Option ι := none
  readers : Finset ι := ∅
  excl : writer = none ∨ readers = ∅ := by simp

namespace SharedMutex

variable {ι : Type}

theorem readers_eq_empty {m : SharedMutex ι} {i : ι}
    (h : m.writer = some i) : m.readers = ∅ := by
  rcases m.excl with hw | hr
  · cases hw.symm.trans h
  · exact hr

theorem writer_eq_none {m : SharedMutex ι} {i : ι} (h : i ∈ m.readers) :
    m.writer = none := by
  rcases m.excl with hw | hr
  · exact hw
  · rw [hr] at h
    cases h

variable [DecidableEq ι]

/-- Take it exclusively. -/
def lock (m : SharedMutex ι) (i : ι) : Option (SharedMutex ι) :=
  if m.writer = none ∧ m.readers = ∅ then
    some { writer := some i, readers := ∅, excl := Or.inr rfl }
  else none

/-- Give it back. -/
def unlock (m : SharedMutex ι) : SharedMutex ι :=
  { m with writer := none, excl := Or.inl rfl }

/-- Take it shared. -/
def lockShared (m : SharedMutex ι) (i : ι) : Option (SharedMutex ι) :=
  if h : m.writer = none then
    some { m with readers := insert i m.readers, excl := Or.inl h }
  else none

/-- Give a share back. -/
def unlockShared (m : SharedMutex ι) (i : ι) : SharedMutex ι :=
  { m with
    readers := m.readers.erase i
    excl := m.excl.imp_right fun h => by rw [h]; rfl }

-- ============================================================= who holds

/-- What `lock` has found, and what it leaves. -/
theorem lock_some {m m' : SharedMutex ι} {i : ι} (h : m.lock i = some m') :
    m.writer = none ∧ m.readers = ∅
      ∧ m'.writer = some i ∧ m'.readers = ∅ := by
  unfold lock at h
  split at h
  · next hfree =>
    cases h
    exact ⟨hfree.1, hfree.2, rfl, rfl⟩
  · cases h

/-- What `lockShared` has found, and what it leaves. -/
theorem lockShared_some {m m' : SharedMutex ι} {i : ι}
    (h : m.lockShared i = some m') :
    m.writer = none ∧ m'.writer = none
      ∧ m'.readers = insert i m.readers := by
  unfold lockShared at h
  split at h
  · next hfree =>
    cases h
    exact ⟨hfree, hfree, rfl⟩
  · cases h

/-- A mutex that nobody holds can be taken either way. -/
theorem lock_of_free {m : SharedMutex ι} (hw : m.writer = none)
    (hr : m.readers = ∅) (i : ι) : ∃ m', m.lock i = some m' := by
  unfold lock
  rw [if_pos ⟨hw, hr⟩]
  exact ⟨_, rfl⟩

theorem lockShared_of_free {m : SharedMutex ι} (hw : m.writer = none)
    (i : ι) : ∃ m', m.lockShared i = some m' := by
  unfold lockShared
  rw [dif_pos hw]
  exact ⟨_, rfl⟩

end SharedMutex
