import MiniSql.LeafChain

/-!
# Range scans

`Begin` and `End` of a tree, `IndexIterator`, and the loop from the one to
the other. `End` is the position of the last entry of a leaf, not one after
it, so the loop stops before that entry: whatever the tree is, the entries
that the loop visits are fewer than those of the tree
(`not_visitsAll`).
-/

namespace MiniSql

open KeyTree BPlusTree

/-- `INVALID_INDEX`. -/
def invalidIndex : ℤ := -1

/-- `IndexIterator`. The pointer to a page is the id of the page, since a page
stays where it is. -/
structure IndexIterator where
  /-- `leaf_page_` -/
  leafPage : PageId
  /-- `index_` -/
  index : ℤ
deriving DecidableEq

variable {K V : Type}

namespace IndexIterator

/-- `operator*`. -/
def item (t : BPlusTree K V) (it : IndexIterator) : Option (K × V) := do
  let leaf ← t.fetchLeaf it.leafPage
  if 0 ≤ it.index then leaf.array[it.index.toNat]? else none

/-- `operator++`. -/
def next (t : BPlusTree K V) (it : IndexIterator) : Option IndexIterator := do
  let leaf ← t.fetchLeaf it.leafPage
  if (leaf.size : ℤ) ≤ it.index + 1 then
    if leaf.nextPageId = invalidPageId then
      return ⟨it.leafPage, invalidIndex⟩
    else
      let after ← t.fetchLeaf leaf.nextPageId
      return ⟨after.pageId, 0⟩
  else
    return ⟨it.leafPage, it.index + 1⟩

end IndexIterator

namespace BPlusTree

section Scan

variable [LinearOrder K]

/-- `Begin`. The key that it passes on is not initialised, and not read. -/
def begin [Inhabited K] (t : BPlusTree K V) : Option IndexIterator :=
  (t.findLeafPage default true).map (fun leaf => ⟨leaf.pageId, 0⟩)

/-- The last key of a page. -/
def lastKey : BPlusTreePage K V → Option K
  | .leaf p => p.keyAt (p.size - 1)
  | .internal p => p.keyAt (p.size - 1)

/-- `End`. -/
def endOf (t : BPlusTree K V) : Option IndexIterator := do
  let root ← t.pages t.rootPageId
  let endKey ← lastKey root
  let leaf ← t.findLeafPage endKey false
  return ⟨leaf.pageId, (leaf.size : ℤ) - 1⟩

/-- The entries that `for (; it != End(); ++it)` visits, if it stops after the
given number of rounds. -/
def scanFrom (t : BPlusTree K V) : ℕ → IndexIterator → Option (List (K × V))
  | 0, _ => none
  | rounds + 1, it => do
    if it = (← t.endOf) then some []
    else
      let e ← it.item t
      let it ← it.next t
      return e :: (← t.scanFrom rounds it)

/-- `for (it = Begin(); it != End(); ++it)`. -/
def scan [Inhabited K] (t : BPlusTree K V) (rounds : ℕ) : Option (List (K × V)) :=
  t.begin.bind (t.scanFrom rounds)

/-- **The scan is complete**: the loop stops, and it has then visited every
entry once, with the keys in strictly increasing order. -/
def VisitsAll [Inhabited K] (t : BPlusTree K V) (entries : List (K × V)) : Prop :=
  ∃ rounds visited, t.scan rounds = some visited ∧ visited.Perm entries ∧
    visited.Pairwise (fun e f => e.1 < f.1)

variable {s : BPlusTree K V} {n : ℕ} {t : PageTree K V n} {cfg : TreeConfig} {next : PageId}

/-- `End` is the last entry of a leaf. -/
theorem endOf_eq {stop : IndexIterator} (hroot : t.id = s.rootPageId)
    (hstored : Stored cfg s.pages t invalidPageId next) (hchain : Chained s.pages t.leaves next)
    (h : s.endOf = some stop) :
    ∃ l ∈ t.leaves, stop = ⟨l.id, (l.entries.length : ℤ) - 1⟩ := by
  obtain ⟨root, -, h⟩ := Option.bind_eq_some_iff.mp h
  obtain ⟨key, -, h⟩ := Option.bind_eq_some_iff.mp h
  obtain ⟨leaf, hfind, h⟩ := Option.bind_eq_some_iff.mp h
  cases h
  rw [findLeafPage, ← hroot] at hfind
  have hgood : False → Ordered t ⊥ ⊤ ∧ Within ⊥ ⊤ key := False.elim
  obtain ⟨l, hroutes, hpage⟩ := routes_of_findLeafFrom hstored hgood hfind
  obtain ⟨p, hp, hid, harray⟩ := hchain.of_mem hroutes.mem_leaves
  rw [hpage] at hp
  cases hp
  refine ⟨l, hroutes.mem_leaves, ?_⟩
  rw [LeafPage.size, hid, harray]

/-- `Begin` is the first entry of the first leaf. -/
theorem begin_eq [Inhabited K] {it : IndexIterator} (hroot : t.id = s.rootPageId)
    (hstored : Stored cfg s.pages t invalidPageId next) (h : s.begin = some it) :
    it = ⟨t.first, 0⟩ := by
  obtain ⟨leaf, hfind, rfl⟩ := Option.map_eq_some_iff.mp h
  rw [findLeafPage, ← hroot] at hfind
  rw [pageId_of_findLeafFrom_leftMost hstored hfind]

/-- One round of the loop. -/
theorem scanFrom_cases {stop it : IndexIterator} (hend : s.endOf = some stop) {rounds : ℕ}
    {visited : List (K × V)} (h : s.scanFrom (rounds + 1) it = some visited) :
    (it = stop ∧ visited = []) ∨ (it ≠ stop ∧ ∃ e it' rest, it.item s = some e ∧
      it.next s = some it' ∧ s.scanFrom rounds it' = some rest ∧ visited = e :: rest) := by
  obtain ⟨stop', hstop, h⟩ := Option.bind_eq_some_iff.mp h
  rw [hend] at hstop
  cases hstop
  by_cases hit : it = stop
  · rw [if_pos hit] at h
    cases h
    exact .inl ⟨hit, rfl⟩
  · rw [if_neg hit] at h
    obtain ⟨e, he, h⟩ := Option.bind_eq_some_iff.mp h
    obtain ⟨it', hit', h⟩ := Option.bind_eq_some_iff.mp h
    obtain ⟨rest, hrest, h⟩ := Option.bind_eq_some_iff.mp h
    cases h
    exact .inr ⟨hit, e, it', rest, he, hit', hrest, rfl⟩

omit [LinearOrder K] in
/-- What the iterator reads in a leaf of a chain, and where it goes. -/
theorem step_of_chained {l : Leaf PageId K V} {ls : List (Leaf PageId K V)}
    (hchain : Chained s.pages (l :: ls) next) {i : ℕ} {e : K × V} {it : IndexIterator}
    (hitem : IndexIterator.item s ⟨l.id, i⟩ = some e)
    (hnext : IndexIterator.next s ⟨l.id, i⟩ = some it) :
    l.entries[i]? = some e ∧ (it = ⟨l.id, (i + 1 : ℕ)⟩ ∧ i + 1 < l.entries.length ∨
      l.entries.length ≤ i + 1 ∧ (it = ⟨l.id, invalidIndex⟩ ∨
        ∃ p : LeafPage K V, s.pages (headId ls next) = some (.leaf p) ∧ it = ⟨p.pageId, 0⟩)) := by
  obtain ⟨⟨p, hp, hid, harray, hafter⟩, -⟩ := hchain
  have hfetch : s.fetchLeaf l.id = some p := by rw [fetchLeaf, hp]
  rw [IndexIterator.item, hfetch] at hitem
  rw [IndexIterator.next, hfetch] at hnext
  have hread : l.entries[i]? = some e := by
    rw [← harray]
    exact hitem
  refine ⟨hread, ?_⟩
  change (if (p.array.length : ℤ) ≤ (i : ℤ) + 1 then _ else _) = some it at hnext
  rw [harray] at hnext
  by_cases hlast : (l.entries.length : ℤ) ≤ (i : ℤ) + 1
  · rw [if_pos hlast] at hnext
    refine .inr ⟨by exact_mod_cast hlast, ?_⟩
    by_cases hinvalid : p.nextPageId = invalidPageId
    · rw [if_pos hinvalid] at hnext
      cases hnext
      exact .inl rfl
    · rw [if_neg hinvalid, hafter] at hnext
      obtain ⟨after, hfetch', hnext⟩ := Option.bind_eq_some_iff.mp hnext
      cases hnext
      refine .inr ⟨after, ?_, rfl⟩
      unfold fetchLeaf at hfetch'
      split at hfetch'
      · rename_i q hq
        cases hfetch'
        exact hq
      · cases hfetch'
  · rw [if_neg hlast] at hnext
    cases hnext
    exact .inl ⟨by rw [Nat.cast_succ], by exact_mod_cast not_le.mp hlast⟩

/-- Nothing is read at `INVALID_INDEX`. -/
theorem scanFrom_invalidIndex {stop : IndexIterator} (hend : s.endOf = some stop) {id : PageId}
    (hne : stop.leafPage ≠ id) {rounds : ℕ} {visited : List (K × V)} :
    s.scanFrom rounds ⟨id, invalidIndex⟩ ≠ some visited := by
  intro h
  cases rounds with
  | zero => cases h
  | succ rounds =>
    rcases scanFrom_cases hend h with ⟨rfl, -⟩ | ⟨-, e, it, rest, hitem, -, -, -⟩
    · exact hne rfl
    · obtain ⟨leaf, -, hread⟩ := Option.bind_eq_some_iff.mp hitem
      cases hread

/-- **The loop stops early.** From an entry of a leaf on, it visits fewer
entries than there are in the rest of the chain, where the end is the last
entry of a leaf of the chain. -/
theorem length_lt_of_scanFrom {e : Leaf PageId K V}
    (hend : s.endOf = some ⟨e.id, (e.entries.length : ℤ) - 1⟩) {rounds : ℕ}
    {l : Leaf PageId K V} {ls : List (Leaf PageId K V)} {i : ℕ} {visited : List (K × V)}
    (hchain : Chained s.pages (l :: ls) next) (hnodup : ((l :: ls).map Leaf.id).Nodup)
    (he : e ∈ l :: ls) (h : s.scanFrom rounds ⟨l.id, i⟩ = some visited) :
    visited.length < (l.entries.drop i ++ ls.flatMap Leaf.entries).length := by
  induction rounds generalizing l ls i visited with
  | zero => cases h
  | succ rounds ih =>
    have hother : e ≠ l → e ∈ ls := fun hne => (List.mem_cons.mp he).resolve_left hne
    rcases scanFrom_cases hend h with ⟨hit, rfl⟩ | ⟨hit, f, it, rest, hitem, hnext, hrest, rfl⟩
    · obtain ⟨hid, hindex⟩ := IndexIterator.mk.inj hit
      have hel : e = l := by
        by_contra hne
        exact (List.nodup_cons.mp hnodup).1 (hid ▸ List.mem_map_of_mem (hother hne))
      rw [hel] at hindex
      rw [List.length_append, List.length_drop, List.length_nil]
      omega
    · obtain ⟨hread, hto⟩ := step_of_chained hchain hitem hnext
      have hi := (List.getElem?_eq_some_iff.mp hread).1
      rw [List.drop_eq_getElem_cons hi, List.cons_append, List.length_cons, List.length_cons,
        Nat.add_lt_add_iff_right]
      rcases hto with ⟨rfl, -⟩ | ⟨hlast, hto⟩
      · exact ih hchain hnodup he hrest
      -- the last entry of the leaf is not the end, so the end is in a later one
      have hels : e ∈ ls := by
        refine hother (fun hel => hit ?_)
        rw [hel]
        exact congrArg (IndexIterator.mk l.id) (by omega)
      rcases hto with rfl | ⟨p, hp, rfl⟩
      · exact absurd hrest (scanFrom_invalidIndex hend (fun hid : e.id = l.id =>
          (List.nodup_cons.mp hnodup).1 (hid ▸ List.mem_map_of_mem hels)))
      · cases ls with
        | nil => cases hels
        | cons l' ls =>
          obtain ⟨⟨q, hq, hid, -, -⟩, -⟩ := hchain.2
          rw [headId, hq] at hp
          cases hp
          rw [hid] at hrest
          have hlt := ih hchain.2 (List.nodup_cons.mp hnodup).2 hels hrest
          rw [List.drop_zero] at hlt
          rw [List.drop_of_length_le hlast, List.nil_append, List.flatMap_cons]
          exact hlt

variable [Inhabited K]

/-- A scan visits fewer entries than the tree has. -/
theorem length_lt_of_scan (hroot : t.id = s.rootPageId)
    (hstored : Stored cfg s.pages t invalidPageId next) (hbranches : Branches t)
    (hnodup : t.ids.Nodup) {rounds : ℕ} {visited : List (K × V)}
    (h : s.scan rounds = some visited) : visited.length < t.entries.length := by
  obtain ⟨it, hbegin, hscan⟩ := Option.bind_eq_some_iff.mp h
  have hchain := hstored.chained hbranches
  obtain ⟨stop, hend⟩ : ∃ stop, s.endOf = some stop := by
    cases rounds with
    | zero => cases hscan
    | succ rounds =>
      obtain ⟨stop, hend, -⟩ := Option.bind_eq_some_iff.mp hscan
      exact ⟨stop, hend⟩
  obtain ⟨e, he, rfl⟩ := endOf_eq hroot hstored hchain hend
  obtain ⟨l, ls, hls⟩ := List.exists_cons_of_ne_nil hbranches.leaves_ne_nil
  have hit : it = ⟨l.id, (0 : ℕ)⟩ := by
    have hhead : headId t.leaves next = t.first := headId_leaves hbranches
    rw [begin_eq hroot hstored hbegin, ← hhead, hls]
    rfl
  rw [hit] at hscan
  rw [hls] at hchain he
  have hleaves : ((l :: ls).map Leaf.id).Nodup := hls ▸ hnodup.sublist t.leaves_sublist_ids
  rw [entries_eq, hls, List.flatMap_cons, ← List.drop_zero (l := l.entries)]
  exact length_lt_of_scanFrom hend hchain hleaves he hscan

/-- A tree in the store that is as the documentation has it: the keys are in
order and separate the pages, the leaves are chained, and no page comes after
the last leaf. -/
structure Documented (cfg : TreeConfig) (s : BPlusTree K V) (t : PageTree K V n) : Prop where
  root : t.id = s.rootPageId
  stored : Stored cfg s.pages t invalidPageId invalidPageId
  nodup : t.ids.Nodup
  ordered : Ordered t ⊥ ⊤

/-- **No scan is complete**, of no tree: `End` is the last entry of a leaf, and
the loop stops before it. The order of the keys and the sizes of the pages
play no part in this, nor does what comes after the last leaf. -/
theorem not_visitsAll (hroot : t.id = s.rootPageId)
    (hstored : Stored cfg s.pages t invalidPageId next) (hbranches : Branches t)
    (hnodup : t.ids.Nodup) : ¬ s.VisitsAll t.entries := by
  rintro ⟨rounds, visited, hscan, hperm, -⟩
  exact absurd hperm.length_eq (length_lt_of_scan hroot hstored hbranches hnodup hscan).ne

end Scan

section Example

/-- A tree of two leaves, with five entries. -/
def five : PageTree ℕ ℕ 1 :=
  node 4 [(0, leaf 2 [(1, 10), (2, 20)]), (3, leaf 3 [(3, 30), (4, 40), (5, 50)])]

/-- Its pages; no page comes after the last leaf. -/
def fivePages : BPlusTree ℕ ℕ where
  rootPageId := 4
  pages id :=
    if id = 2 then some (.leaf ⟨2, 4, 3, 4, [(1, 10), (2, 20)]⟩)
    else if id = 3 then some (.leaf ⟨3, 4, invalidPageId, 4, [(3, 30), (4, 40), (5, 50)]⟩)
    else if id = 4 then some (.internal ⟨4, invalidPageId, 4, [(0, 2), (3, 3)]⟩)
    else none
  allocated := [4, 3, 2, 1, 0]

theorem stored_five : Stored (.above 4 4) fivePages.pages five invalidPageId invalidPageId :=
  ⟨rfl, rfl, rfl, trivial⟩

theorem documented_five : Documented (.above 4 4) fivePages five where
  root := rfl
  stored := stored_five
  nodup := by decide
  ordered := by
    refine ⟨⟨nofun, by decide, fun e he => ⟨bot_le, ?_⟩⟩, nofun, by decide, fun e he => ⟨?_, ?_⟩⟩
    · exact WithTop.coe_lt_coe.mpr
        ((by decide : ∀ e ∈ [(1, 10), (2, 20)], e.1 < 3) e he)
    · exact WithBot.coe_le_coe.mpr
        ((by decide : ∀ e ∈ [(3, 30), (4, 40), (5, 50)], 3 ≤ e.1) e he)
    · exact WithTop.coe_lt_top e.1

example : fivePages.scan 9 = some [(1, 10), (2, 20), (3, 30), (4, 40)] := by decide

/-- The last entry of a documented tree of two leaves is not visited. -/
theorem not_visitsAll_five : Documented (.above 4 4) fivePages five ∧ five.entries ≠ [] ∧
    ¬ fivePages.VisitsAll five.entries := by
  refine ⟨documented_five, nofun, ?_⟩
  rintro ⟨rounds, visited, hscan, hperm, -⟩
  have hlt := length_lt_of_scan rfl stored_five documented_five.ordered.branches
    documented_five.nodup hscan
  exact absurd hperm.length_eq hlt.ne

/-- `not_visitsAll` for this tree. -/
theorem not_visitsAll_of_five : five.id = fivePages.rootPageId ∧
    Stored (.above 4 4) fivePages.pages five invalidPageId invalidPageId ∧ Branches five ∧
    five.ids.Nodup ∧ ¬ fivePages.VisitsAll five.entries :=
  ⟨rfl, stored_five, documented_five.ordered.branches, documented_five.nodup,
    not_visitsAll rfl stored_five documented_five.ordered.branches documented_five.nodup⟩

end Example

end BPlusTree

end MiniSql
