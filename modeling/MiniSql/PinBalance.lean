import MiniSql.BPlusTreePoolRuns

/-!
# Pages that a call leaves pinned

A call gives up every page that it fetches, in one place apart: `Redistribute`
fetches the two leaves that follow the one for a key, and unpins the ids that
these frames show. The last leaf is followed by page 0, the page of the catalog,
so the second of the two is page 0 next to the end of the row, and what is read
as its id is a word of the catalog.
-/

namespace MiniSql

open PoolCalls Program

variable {K V : Type} [LinearOrder K] [Inhabited K]

namespace PooledTree

/-- **A call leaves no pins** if no page is pinned when it returns. -/
def LeavesUnpinned (s : PooledTree K V) (i : TreeEnv K V × PooledCall K V) : Prop :=
  ∀ s' o, step s i = some (s', o) → ∀ q, pinCount s'.log q = 0

/-- **No pins are left**, by any call in any state reached, where the pages that
a call fetches in `Redistribute` show their ids. -/
theorem leavesUnpinned_of_fetchedShown {r : IndexRootsPage}
    {calls : List (TreeEnv K V × PooledCall K V)} {answers : List (PooledAnswer V)}
    {s : PooledTree K V} {i : TreeEnv K V × PooledCall K V}
    (hrun : Machine.run step (start r) calls = some (s, answers))
    (hshown : FetchedShown i.1 i.2 { s with log := [] }) : s.LeavesUnpinned i := by
  intro s' o hstep q
  have hold := holding_step True (sound_of_run hrun) (fun _ => hshown) hstep
  exact Nat.le_zero.mp (hold.holds trivial q)

/-- Small pages, where a frame without a page of the tree shows some id. -/
def envShowing (pageId : PageId → PageId) : TreeEnv ℕ ℕ where
  toTreeConfig := TreeConfig.above 4 4
  indexId := 0
  foreign _ q := ⟨pageId q, 0, 0, 0, []⟩

/-- Insertions of six keys, which give two leaves of two and four entries. -/
def sixInserted (env : TreeEnv ℕ ℕ) : List (TreeEnv ℕ ℕ × PooledCall ℕ ℕ) :=
  [1, 2, 3, 4, 5, 6].map (fun k => (env, .insert k k))

/-- The pins of page 0 after them and a removal of the first key. -/
def pinsAfter (env : TreeEnv ℕ ℕ) : Option ℕ := do
  let (s, _) ← Machine.run step (start ⟨[]⟩) (sixInserted env)
  let (s', _) ← step s (env, .remove 1)
  return pinCount s'.log 0

theorem exists_of_pinsAfter {env : TreeEnv ℕ ℕ} {n : ℕ} (h : pinsAfter env = some n) :
    ∃ s answers s' o, Machine.run step (start ⟨[]⟩) (sixInserted env) = some (s, answers) ∧
      step s (env, .remove 1) = some (s', o) ∧ pinCount s'.log 0 = n := by
  obtain ⟨⟨s, answers⟩, hrun, h⟩ := Option.bind_eq_some_iff.mp h
  obtain ⟨⟨s', o⟩, hstep, h⟩ := Option.bind_eq_some_iff.mp h
  exact ⟨s, answers, s', o, hrun, hstep, Option.some.inj h⟩

/-- So it is where every frame shows the id of the page that is asked for. -/
theorem leavesUnpinned_of_fetchedShown_six :
    ∃ s answers s' o, Machine.run step (start ⟨[]⟩) (sixInserted (envShowing id)) =
        some (s, answers) ∧
      step s (envShowing id, .remove 1) = some (s', o) ∧ ∀ q, pinCount s'.log q = 0 := by
  obtain ⟨s, answers, s', o, hrun, hstep, -⟩ := exists_of_pinsAfter
    (by decide +kernel : pinsAfter (envShowing id) = some 0)
  have hshown : FetchedShown (envShowing id) (.remove 1) { s with log := [] } :=
    fun _ _ _ _ _ _ _ _ _ _ _ _ _ => ⟨fun _ _ => rfl, fun _ _ _ _ => rfl⟩
  exact ⟨s, answers, s', o, hrun, hstep,
    leavesUnpinned_of_fetchedShown hrun hshown s' o hstep⟩

/-- **A pin is left** on page 0 by a removal that moves an entry from the last
leaf to the first, where the catalog has the number 5 at the place of the page
id. -/
theorem not_leavesUnpinned : ¬ ∀ (r : IndexRootsPage)
    (calls : List (TreeEnv ℕ ℕ × PooledCall ℕ ℕ)) (answers : List (PooledAnswer ℕ))
    (s : PooledTree ℕ ℕ) (i : TreeEnv ℕ ℕ × PooledCall ℕ ℕ),
    Machine.run step (start r) calls = some (s, answers) → s.LeavesUnpinned i := by
  intro h
  obtain ⟨s, answers, s', o, hrun, hstep, hpin⟩ := exists_of_pinsAfter
    (by decide +kernel : pinsAfter (envShowing (fun _ => 5)) = some 1)
  exact absurd (hpin.symm.trans (h _ _ _ s _ hrun s' o hstep 0)) (by decide)

end PooledTree

end MiniSql
