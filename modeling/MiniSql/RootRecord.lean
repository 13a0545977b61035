import MiniSql.BPlusTreePoolRuns

/-!
# The record of the root

The page of the index roots has the root of every index, so that a tree is found
again after reopening. `StartNewTree` enters the root with `Insert`, which
refuses an id that is there, and every other change of the root is written with
`Update`, which refuses one that is not. The removal of the last entry leaves
the id there, with no root: the next tree of the index is not recorded.
-/

namespace MiniSql

open Program Family

variable {K V : Type}

namespace PooledTree

/-- The page of the index roots has the root of the tree, or none for a tree
that is empty. -/
def RootRecorded (x : ℕ) (s : PooledTree K V) : Prop :=
  if s.tree.isEmpty then
    s.indexRoots.recorded x = none ∨ s.indexRoots.recorded x = some invalidPageId
  else s.indexRoots.recorded x = some s.tree.rootPageId

/-- The tree that `BPlusTreeIndex` makes after reopening, with the root that
`GetRootId` gives. -/
def reattached (x : ℕ) (s : PooledTree K V) : BPlusTree K V :=
  { s.tree with rootPageId := (s.indexRoots.getRootId x).2 }

/-- **The root persists**: it is recorded, and the tree is found again. -/
def RootPersists (x : ℕ) (s : PooledTree K V) : Prop :=
  RootRecorded x s ∧ reattached x s = s.tree

/-- `Insert` starts a tree only for an index that has never had one. -/
def StartsUnrecorded (x : ℕ) (s : PooledTree K V) (i : TreeEnv K V × PooledCall K V) : Prop :=
  i.2.Inserts → s.tree.isEmpty → s.indexRoots.recorded x = none

instance {x : ℕ} {s : PooledTree K V} {i : TreeEnv K V × PooledCall K V} :
    Decidable (StartsUnrecorded x s i) := by
  unfold StartsUnrecorded
  infer_instance

variable {x : ℕ} {s s' : PooledTree K V}

theorem rootRecorded_iff : RootRecorded x s ↔ s.indexRoots.recorded x = some s.tree.rootPageId ∨
    s.tree.isEmpty ∧ s.indexRoots.recorded x = none := by
  unfold RootRecorded
  by_cases hempty : s.tree.isEmpty
  · have hroot : s.tree.rootPageId = invalidPageId := of_decide_eq_true hempty
    rw [if_pos hempty, hroot, or_comm]
    simp [hempty]
  · rw [if_neg hempty]
    simp [hempty]

/-- Where the root is recorded the tree is found again. -/
theorem reattached_eq (h : RootRecorded x s) : reattached x s = s.tree := by
  have hroot : (s.indexRoots.getRootId x).2 = s.tree.rootPageId := by
    rw [IndexRootsPage.getRootId_eq]
    rcases rootRecorded_iff.mp h with h | ⟨hempty, h⟩
    · rw [h]
      rfl
    · rw [h]
      exact (of_decide_eq_true hempty).symm
  rw [reattached, hroot]

variable [LinearOrder K] [Inhabited K]

/-- **One call** keeps the record right. -/
theorem rootRecorded_step {i : TreeEnv K V × PooledCall K V} {o : PooledAnswer V} (hs : s.Sound)
    (hr : RootRecorded x s) (hx : i.1.indexId = x) (hc : StartsUnrecorded x s i)
    (h : step s i = some (s', o)) : RootRecorded x s' := by
  have hold := (holding_step False hs False.elim h).links
  rw [rootRecorded_iff] at hr ⊢
  rw [hx] at hold
  generalize hσ : s'.tree.family = σ, hr' : s'.indexRoots = r at hold
  have hroot : s'.tree.rootPageId = σ.root := by
    rw [← hσ]
    rfl
  cases hold with
  | same =>
    rw [show s'.tree.isEmpty = s.tree.isEmpty from congrArg (fun q => decide (q = _)) hroot, hroot]
    exact hr
  | started hins hempty hst =>
    rw [hroot]
    exact .inl (hst.recorded (hc hins (decide_eq_true hempty)))
  | evolved hne hev =>
    rw [hroot]
    exact .inl (hev.recorded (hr.resolve_right (fun h => hne (of_decide_eq_true h.1))))

omit [LinearOrder K] [Inhabited K] in
/-- An index without a root has no record, or one of no root. -/
theorem rootRecorded_start {r : IndexRootsPage} (hr : (r.getRootId x).2 = invalidPageId) :
    RootRecorded x (start r : PooledTree K V) := by
  rw [IndexRootsPage.getRootId_eq] at hr
  refine (if_pos rfl).mpr ?_
  show r.recorded x = none ∨ r.recorded x = some invalidPageId
  cases h : r.recorded x with
  | none => exact .inl rfl
  | some root =>
    rw [h] at hr
    exact .inr (congrArg some hr)

/-- **The root persists** over every run of calls in which no tree is started for
an index that has had one. -/
theorem rootPersists_of_startsUnrecorded {r : IndexRootsPage}
    {calls : List (TreeEnv K V × PooledCall K V)} {answers : List (PooledAnswer V)}
    (hr : (r.getRootId x).2 = invalidPageId) (hx : ∀ i ∈ calls, i.1.indexId = x)
    (hcalls : Machine.Meets step (StartsUnrecorded x) (start r) calls)
    (hrun : Machine.run step (start r) calls = some (s, answers)) : RootPersists x s := by
  have hreach := Machine.Reaches.init.run (hcalls.and_mem hx) hrun
  have hinv := hreach.invariant (I := fun s => s.Sound ∧ RootRecorded x s)
    ⟨sound_start, rootRecorded_start hr⟩
    (fun s i s' o h hc hstep => ⟨h.1.step hstep, rootRecorded_step h.1 h.2 hc.1 hc.2 hstep⟩)
  exact ⟨hinv.2, reattached_eq hinv.2⟩

/-- Small pages, for the index 0. -/
def smallEnv : TreeEnv ℕ ℕ where
  toTreeConfig := TreeConfig.above 4 4
  indexId := 0
  foreign _ q := ⟨q, 0, 0, 0, []⟩

/-- The root persists while the tree is not emptied. -/
theorem rootPersists_of_startsUnrecorded_nonempty :
    ∃ s answers, Machine.run step (start ⟨[]⟩)
        [(smallEnv, .insert 1 1), (smallEnv, .insert 2 2), (smallEnv, .remove 1)] =
      some (s, answers) ∧ RootPersists 0 s := by
  obtain ⟨⟨s, answers⟩, hrun⟩ : ∃ r, Machine.run step (start ⟨[]⟩) [(smallEnv, .insert 1 1),
    (smallEnv, .insert 2 2), (smallEnv, .remove 1)] = some r := ⟨_, rfl⟩
  exact ⟨s, answers, hrun,
    rootPersists_of_startsUnrecorded rfl (by simp [smallEnv]) (by decide) hrun⟩

/-- **The root is lost** where a tree is emptied and started again. -/
theorem not_rootPersists : ¬ ∀ (x : ℕ) (r : IndexRootsPage)
    (calls : List (TreeEnv ℕ ℕ × PooledCall ℕ ℕ)) (answers : List (PooledAnswer ℕ))
    (s : PooledTree ℕ ℕ), (r.getRootId x).2 = invalidPageId → (∀ i ∈ calls, i.1.indexId = x) →
    Machine.run step (start r) calls = some (s, answers) → RootPersists x s := by
  intro h
  have hroots : (Machine.run step (start ⟨[]⟩)
      [(smallEnv, .insert 1 1), (smallEnv, .remove 1), (smallEnv, .insert 2 2)]).map
      (fun r => (r.1.tree.rootPageId, r.1.indexRoots.recorded 0)) =
        some (2, some invalidPageId) := by
    decide +kernel
  obtain ⟨⟨s, answers⟩, hrun, hs⟩ := Option.map_eq_some_iff.mp hroots
  obtain ⟨hroot, hrecorded⟩ := Prod.mk.inj hs
  have hbad := rootRecorded_iff.mp (h 0 _ _ _ s rfl (by simp [smallEnv]) hrun).1
  rw [hrecorded, hroot] at hbad
  exact absurd hbad (by simp [invalidPageId])

end PooledTree

end MiniSql
