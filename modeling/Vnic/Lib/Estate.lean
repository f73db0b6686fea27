/-
The cells of a heap that belong to one party: chains it may still walk,
and loose cells it is building a chain from or taking one apart into.

`Estate base h heads loose` says that the heap `h` is the heap `base`
beside them: the chains at `heads` are live and disjoint, the cells
`loose` are live and on none of them, and every other key reads as in
`base`, where no cell of the estate is live.

# Rules

One rule a primitive step: a cell is reserved, written, released; loose
cells that have been linked become a chain; the first cell of a chain is
released and the walk goes on behind it. Each rule also says that the
chains it does not name read as before (`SameCells`), which is what a
reader in another thread relies on.
-/
import Vnic.Lib.Chain

namespace Linked

variable {κ β : Type} [DecidableEq κ] [Linked κ β]
  {base h h' h'' : Heap κ β} {heads heads' loose ks : List κ} {p k : κ}
  {c : β}

-- ========================================================== same cells

/-- The chains at `heads` are the same in both heaps, cell for cell. -/
def SameCells (h h' : Heap κ β) (heads : List κ) : Prop :=
  ∀ p ∈ heads, chainOf h' p = chainOf h p
    ∧ ∀ k ∈ chainOf h p, h'.lookup k = h.lookup k

theorem SameCells.refl (h : Heap κ β) (heads : List κ) :
    SameCells h h heads :=
  fun _ _ => ⟨rfl, fun _ _ => rfl⟩

theorem SameCells.mono (hs : SameCells h h' heads)
    (hsub : heads' ⊆ heads) : SameCells h h' heads' :=
  fun p hp => hs p (hsub hp)

theorem SameCells.dataOf {γ : Type} (f : β → List γ)
    (hs : SameCells h h' heads) (hp : p ∈ heads) :
    dataOf f h' (chainOf h' p) = dataOf f h (chainOf h p) := by
  rw [(hs p hp).1]
  exact dataOf_congr f (hs p hp).2

/-- A heap that agrees on the chains' cells shows the same chains. -/
theorem Separate.sameCells (hs : Separate h heads)
    (heq : ∀ k ∈ heads.flatMap (chainOf h), h'.lookup k = h.lookup k) :
    SameCells h h' heads :=
  fun p hp => ⟨hs.chainOf_congr heq hp,
    fun k hk => heq k (List.mem_flatMap.2 ⟨p, hp, hk⟩)⟩

theorem SameCells.flatMap (hs : SameCells h h' heads) :
    heads.flatMap (chainOf h') = heads.flatMap (chainOf h) :=
  List.flatMap_congr fun p hp => (hs p hp).1

-- =========================================================== the estate

/-- The heap `h` is `base` beside the chains at `heads` and the cells
`loose`. -/
structure Estate (base h : Heap κ β) (heads loose : List κ) : Prop where
  separate : Separate h heads
  nodup : loose.Nodup
  ne_null : ∀ k ∈ loose, k ≠ null (β := β)
  live : ∀ k ∈ loose, k ∈ h
  apart : ∀ k ∈ loose, k ∉ heads.flatMap (chainOf h)
  outside : ∀ k, k ∉ loose → k ∉ heads.flatMap (chainOf h) →
    h.lookup k = base.lookup k
  fresh : ∀ k ∈ base, k ∉ loose ∧ k ∉ heads.flatMap (chainOf h)

/-- The cells of an estate. -/
def cells (h : Heap κ β) (heads loose : List κ) : List κ :=
  heads.flatMap (chainOf h) ++ loose

theorem cells_length_perm (hp : heads.Perm heads') (h : Heap κ β)
    (loose : List κ) :
    (cells h heads loose).length = (cells h heads' loose).length :=
  ((hp.flatMap_right _).append_right loose).length_eq

theorem cells_null (h : Heap κ β) (heads loose : List κ) :
    cells h (null (β := β) :: heads) loose = cells h heads loose := by
  unfold cells
  rw [List.flatMap_cons, chainOf_null, List.nil_append]

/-- Linking cells up moves none. -/
theorem cells_form (hc : Chain h p loose) (heads : List κ) :
    (cells h (p :: heads) []).length = (cells h heads loose).length := by
  unfold cells
  rw [List.flatMap_cons, hc.chainOf_eq, List.append_nil]
  exact List.perm_append_comm.length_eq

namespace Estate

/-- Nothing belongs to anyone yet. -/
theorem init (base : Heap κ β) : Estate base base [] [] where
  separate := .nil
  nodup := List.nodup_nil
  ne_null := fun _ hk => absurd hk List.not_mem_nil
  live := fun _ hk => absurd hk List.not_mem_nil
  apart := fun _ hk => absurd hk List.not_mem_nil
  outside := fun _ _ _ => rfl
  fresh := fun _ _ => ⟨List.not_mem_nil, List.not_mem_nil⟩

theorem perm (he : Estate base h heads loose) (hp : heads.Perm heads') :
    Estate base h heads' loose := by
  have hmem : ∀ k, k ∈ heads'.flatMap (chainOf h)
      ↔ k ∈ heads.flatMap (chainOf h) :=
    fun k => (hp.flatMap_right _).symm.mem_iff
  refine ⟨he.separate.perm hp, he.nodup, he.ne_null, he.live, ?_, ?_, ?_⟩
  · exact fun k hk hno => he.apart k hk ((hmem k).1 hno)
  · exact fun k hk hno => he.outside k hk fun h => hno ((hmem k).2 h)
  · exact fun k hk => ⟨(he.fresh k hk).1, fun h =>
      (he.fresh k hk).2 ((hmem k).1 h)⟩

/-- The cells of an estate are distinct. -/
theorem cells_nodup (he : Estate base h heads loose) :
    (cells h heads loose).Nodup :=
  List.nodup_append'.2 ⟨he.separate.nodup, he.nodup,
    fun _ hk hk' => he.apart _ hk' hk⟩

theorem cells_ne_null (he : Estate base h heads loose) :
    ∀ k ∈ cells h heads loose, k ≠ null (β := β) := by
  intro k hk
  rcases List.mem_append.1 hk with hk | hk
  · exact he.separate.ne_null hk
  · exact he.ne_null k hk

/-- No cell is lost and none is shared: a key is live if and only if it
is live in `base` or a cell of the estate. -/
theorem mem_iff (he : Estate base h heads loose) (k : κ) :
    k ∈ h ↔ k ∈ base ∨ k ∈ cells h heads loose := by
  constructor
  · intro hk
    by_cases hl : k ∈ loose
    · exact Or.inr (List.mem_append_right _ hl)
    by_cases hc : k ∈ heads.flatMap (chainOf h)
    · exact Or.inr (List.mem_append_left _ hc)
    · refine Or.inl (AList.lookup_isSome.1 ?_)
      rw [← he.outside k hl hc]
      exact AList.lookup_isSome.2 hk
  · rintro (hk | hk)
    · refine AList.lookup_isSome.1 ?_
      rw [he.outside k (he.fresh k hk).1 (he.fresh k hk).2]
      exact AList.lookup_isSome.2 hk
    · rcases List.mem_append.1 hk with hk | hk
      · exact he.separate.mem hk
      · exact he.live k hk

-- ================================================================ rules

/-- A change to the loose cells and outside both heaps leaves the chains
alone. -/
theorem sameCells (he : Estate base h heads loose)
    (heq : ∀ k ∈ h, k ∉ loose → h'.lookup k = h.lookup k) :
    SameCells h h' heads :=
  he.separate.sameCells fun k hk =>
    heq k (he.separate.mem hk) fun hl => he.apart k hl hk

/-- A fresh cell is reserved. -/
theorem reserve (he : Estate base h heads loose)
    (hne : p ≠ null (β := β)) (hp : p ∉ h) (c : β) :
    Estate base (h.insert p c) heads (loose ++ [p])
      ∧ SameCells h (h.insert p c) heads := by
  have hother : ∀ k, k ≠ p → (h.insert p c).lookup k = h.lookup k :=
    fun k hk => AList.lookup_insert_ne hk
  have hsame : SameCells h (h.insert p c) heads :=
    he.sameCells fun k hk _ => hother k fun heq => hp (heq ▸ hk)
  have hflat := hsame.flatMap
  have hpl : p ∉ loose := fun hl => hp (he.live p hl)
  have hpc : p ∉ heads.flatMap (chainOf h) := fun hc =>
    hp (he.separate.mem hc)
  refine ⟨⟨?_, ?_, ?_, ?_, ?_, ?_, ?_⟩, hsame⟩
  · refine he.separate.congr fun k hk => hother k ?_
    exact fun heq => hpc (heq ▸ hk)
  · rw [List.nodup_append']
    refine ⟨he.nodup, List.nodup_singleton p, fun k hk hk' => ?_⟩
    exact hpl (List.mem_singleton.1 hk' ▸ hk)
  · intro k hk
    rcases List.mem_append.1 hk with hk | hk
    · exact he.ne_null k hk
    · exact List.mem_singleton.1 hk ▸ hne
  · intro k hk
    rw [AList.mem_insert]
    rcases List.mem_append.1 hk with hk | hk
    · exact Or.inr (he.live k hk)
    · exact Or.inl (List.mem_singleton.1 hk)
  · intro k hk
    rw [hflat]
    rcases List.mem_append.1 hk with hk | hk
    · exact he.apart k hk
    · exact List.mem_singleton.1 hk ▸ hpc
  · intro k hk hno
    rw [hflat] at hno
    rw [List.mem_append, not_or, List.mem_singleton] at hk
    rw [hother k hk.2]
    exact he.outside k hk.1 hno
  · intro k hk
    have hkp : k ≠ p := fun heq =>
      hp ((he.mem_iff p).2 (Or.inl (heq ▸ hk)))
    rw [hflat, List.mem_append, List.mem_singleton, not_or]
    exact ⟨⟨(he.fresh k hk).1, hkp⟩, (he.fresh k hk).2⟩

/-- A loose cell is written. -/
theorem write (he : Estate base h heads loose) (hp : p ∈ loose) (c : β) :
    Estate base (h.insert p c) heads loose
      ∧ SameCells h (h.insert p c) heads := by
  have hother : ∀ k, k ≠ p → (h.insert p c).lookup k = h.lookup k :=
    fun k hk => AList.lookup_insert_ne hk
  have hsame : SameCells h (h.insert p c) heads :=
    he.sameCells fun k _ hk => hother k fun heq => hk (heq ▸ hp)
  have hflat := hsame.flatMap
  refine ⟨⟨?_, he.nodup, he.ne_null, ?_, ?_, ?_, ?_⟩, hsame⟩
  · refine he.separate.congr fun k hk => hother k ?_
    exact fun heq => he.apart p hp (heq ▸ hk)
  · exact fun k hk => (AList.mem_insert _).2 (Or.inr (he.live k hk))
  · rw [hflat]
    exact he.apart
  · intro k hk hno
    rw [hflat] at hno
    rw [hother k fun heq => hk (heq ▸ hp)]
    exact he.outside k hk hno
  · rw [hflat]
    exact he.fresh

/-- A loose cell is released. -/
theorem drop (he : Estate base h heads (p :: loose)) :
    Estate base (h.erase p) heads loose
      ∧ SameCells h (h.erase p) heads := by
  have hother : ∀ k, k ≠ p → (h.erase p).lookup k = h.lookup k :=
    fun k hk => AList.lookup_erase_ne hk
  have hmem : p ∈ p :: loose := List.mem_cons_self ..
  have hnd := List.nodup_cons.1 he.nodup
  have hsame : SameCells h (h.erase p) heads :=
    he.sameCells fun k _ hk => hother k fun heq => hk (heq ▸ hmem)
  have hflat := hsame.flatMap
  refine ⟨⟨?_, hnd.2, ?_, ?_, ?_, ?_, ?_⟩, hsame⟩
  · refine he.separate.congr fun k hk => hother k ?_
    exact fun heq => he.apart p hmem (heq ▸ hk)
  · exact fun k hk => he.ne_null k (List.mem_cons_of_mem _ hk)
  · intro k hk
    rw [AList.mem_erase]
    exact ⟨fun heq => hnd.1 (heq ▸ hk),
      he.live k (List.mem_cons_of_mem _ hk)⟩
  · rw [hflat]
    exact fun k hk => he.apart k (List.mem_cons_of_mem _ hk)
  · intro k hk hno
    rw [hflat] at hno
    by_cases hkp : k = p
    · -- a released key was not live before the estate was reserved
      subst hkp
      rw [AList.lookup_erase]
      symm
      rw [AList.lookup_eq_none]
      exact fun hb => (he.fresh k hb).1 hmem
    · rw [hother k hkp]
      refine he.outside k (fun h => ?_) hno
      exact (List.mem_cons.1 h).elim hkp hk
  · intro k hk
    rw [hflat]
    exact ⟨fun h => (he.fresh k hk).1 (List.mem_cons_of_mem _ h),
      (he.fresh k hk).2⟩

/-- The loose cells, linked up, become a chain. -/
theorem form (he : Estate base h heads loose) (hc : Chain h p loose) :
    Estate base h (p :: heads) [] := by
  have hflat : (p :: heads).flatMap (chainOf h)
      = loose ++ heads.flatMap (chainOf h) := by
    rw [List.flatMap_cons, hc.chainOf_eq]
  refine ⟨⟨?_, ?_⟩, List.nodup_nil, ?_, ?_, ?_, ?_, ?_⟩
  · intro q hq
    rcases List.mem_cons.1 hq with rfl | hq
    · rw [hc.chainOf_eq]
      exact hc
    · exact he.separate.chain q hq
  · rw [hflat]
    exact List.nodup_append'.2 ⟨he.nodup, he.separate.nodup,
      fun k hk hk' => he.apart k hk hk'⟩
  · exact fun k hk => absurd hk List.not_mem_nil
  · exact fun k hk => absurd hk List.not_mem_nil
  · exact fun k hk => absurd hk List.not_mem_nil
  · intro k _ hno
    rw [hflat, List.mem_append, not_or] at hno
    exact he.outside k hno.1 hno.2
  · intro k hk
    rw [hflat, List.mem_append, not_or]
    exact ⟨List.not_mem_nil, he.fresh k hk⟩

/-- The null key heads an empty chain. -/
theorem null_iff :
    Estate base h (null (β := β) :: heads) loose
      ↔ Estate base h heads loose := by
  have hflat : (null (β := β) :: heads).flatMap (chainOf h)
      = heads.flatMap (chainOf h) := by
    rw [List.flatMap_cons, chainOf_null, List.nil_append]
  constructor
  · rintro ⟨hs, hnd, hne, hl, ha, ho, hf⟩
    rw [hflat] at *
    exact ⟨hs.sublist (List.sublist_cons_self ..), hnd, hne, hl, ha,
      ho, hf⟩
  · rintro ⟨hs, hnd, hne, hl, ha, ho, hf⟩
    rw [← hflat] at ha ho hf
    refine ⟨⟨fun q hq => ?_, ?_⟩, hnd, hne, hl, ha, ho, hf⟩
    · rcases List.mem_cons.1 hq with rfl | hq
      · rw [chainOf_null]
        exact .nil
      · exact hs.chain q hq
    · rw [hflat]
      exact hs.nodup

/-- The first cell of a chain is released and the walk goes on behind
it. -/
theorem advance (he : Estate base h (p :: heads) loose)
    (hne : p ≠ null (β := β)) :
    ∃ c, h.lookup p = some c
      ∧ Estate base (h.erase p) (next c :: heads) loose
      ∧ SameCells h (h.erase p) heads
      ∧ cells h (p :: heads) loose
        = p :: cells (h.erase p) (next c :: heads) loose := by
  have hchain := he.separate.chain p (List.mem_cons_self ..)
  generalize hks : chainOf h p = ks at hchain
  cases hchain with
  | nil => exact absurd rfl hne
  | @cons _ c ks _ hl hrest =>
      have hcells : (p :: heads).flatMap (chainOf h)
          = p :: (ks ++ heads.flatMap (chainOf h)) := by
        rw [List.flatMap_cons, hks]
        rfl
      have hnd := he.separate.nodup
      rw [hcells, List.nodup_cons] at hnd
      have hother : ∀ k, k ≠ p → (h.erase p).lookup k = h.lookup k :=
        fun k hk => AList.lookup_erase_ne hk
      have hnot : ∀ k ∈ ks ++ heads.flatMap (chainOf h), k ≠ p :=
        fun k hk heq => hnd.1 (heq ▸ hk)
      have hsep : Separate h heads :=
        he.separate.sublist (List.sublist_cons_self ..)
      have hsame : SameCells h (h.erase p) heads :=
        hsep.sameCells fun k hk =>
          hother k (hnot k (List.mem_append_right _ hk))
      have hrest' : Chain (h.erase p) (next c) ks :=
        hrest.congr fun k hk =>
          hother k (hnot k (List.mem_append_left _ hk))
      have hflat : (next c :: heads).flatMap (chainOf (h.erase p))
          = ks ++ heads.flatMap (chainOf h) := by
        rw [List.flatMap_cons, hrest'.chainOf_eq, hsame.flatMap]
      refine ⟨c, hl, ⟨⟨?_, ?_⟩, he.nodup, he.ne_null, ?_, ?_, ?_, ?_⟩,
        hsame, by unfold cells; rw [hcells, hflat]; rfl⟩
      · intro q hq
        rcases List.mem_cons.1 hq with rfl | hq
        · rw [hrest'.chainOf_eq]
          exact hrest'
        · refine (hsep.congr fun k hk => ?_).chain q hq
          exact hother k (hnot k (List.mem_append_right _ hk))
      · rw [hflat]
        exact hnd.2
      · intro k hk
        rw [AList.mem_erase]
        refine ⟨fun heq => he.apart k hk ?_, he.live k hk⟩
        rw [hcells, heq]
        exact List.mem_cons_self ..
      · intro k hk hno
        rw [hflat] at hno
        refine he.apart k hk ?_
        rw [hcells]
        exact List.mem_cons_of_mem _ hno
      · intro k hk hno
        rw [hflat] at hno
        by_cases hkp : k = p
        · subst hkp
          rw [AList.lookup_erase]
          symm
          rw [AList.lookup_eq_none]
          intro hb
          refine (he.fresh k hb).2 ?_
          rw [hcells]
          exact List.mem_cons_self ..
        · rw [hother k hkp]
          refine he.outside k hk fun hc => ?_
          rw [hcells] at hc
          exact (List.mem_cons.1 hc).elim hkp hno
      · intro k hk
        obtain ⟨hl', hc'⟩ := he.fresh k hk
        refine ⟨hl', fun hno => hc' ?_⟩
        rw [hflat] at hno
        rw [hcells]
        exact List.mem_cons_of_mem _ hno

end Estate

end Linked
