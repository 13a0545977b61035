import MiniSql.IndexConsistency

/-!
# Unique keys

A table comes with an index for its primary key and one for each unique
column, and the statements look into these indexes before they write. As long
as every live row has its key in an index, and no two share one, the index
guards the uniqueness of the key (`KeyIndex.Guards`).

`ExecuteInsert` looks into every index. `ExecuteUpdate` looks only into those
whose key starts with the assigned column, and ignores that `InsertEntry`
fails in another one: it keeps the keys unique where the check that it leaves
out would have passed (`TableInfo.ChecksAll`), and not in general.
-/

namespace MiniSql

/-- No two live rows agree on all the given columns. -/
def TableHeap.Distinct (h : TableHeap) (cols : List ℕ) : Prop :=
  ∀ rid rid' row row', h.live rid = some row → h.live rid' = some row' →
    (∀ c ∈ cols, row[c]? = row'[c]?) → rid = rid'

namespace TableInfo

/-- No two live rows agree on all columns of the primary key or on a unique
column. -/
def KeysUnique (t : TableInfo) (primaryKeys : List StdString) : Prop :=
  (primaryKeys ≠ [] → ∀ cols, primaryKeys.mapM t.schema.getColumnIndex = some cols →
    t.heap.Distinct cols) ∧
  ∀ i c, t.schema.columns[i]? = some c → c.unique = true → t.heap.Distinct [i]

/-- Every index guards its key. -/
structure Guarded (t : TableInfo) : Prop where
  wellFormed : t.heap.WellFormed t.ids
  guards : ∀ I ∈ t.indexes, KeyIndex.Guards I.key t.heap.live I.container

variable {t t' t₀ : TableInfo} {rid : RowId} {b : Bool}

theorem Guarded.executeInsert (ht : t.Guarded) {values : List Literal}
    (h : t.executeInsert values = some (t', b)) : t'.Guarded := by
  rcases executeInsert_cases ht.wellFormed h with hsame | ⟨-, row, rid, -, hadd⟩
  · refine ⟨hsame.wellFormed, hsame.forall_indexes (P := KeyIndex.Guards) ?_⟩
    rintro I hI c rfl
    exact ht.guards I hI
  · refine ⟨hadd.wellFormed, hadd.forall_indexes (P := KeyIndex.Guards) ?_⟩
    rintro I hI c ⟨k, hk, hfree, rfl⟩
    exact (ht.guards I hI).insert hk hfree

theorem Guarded.deleteRow (ht : t.Guarded) (h : t.deleteRow rid = some (t', b)) : t'.Guarded := by
  obtain ⟨row, hlive, hdrop⟩ := deleteRow_cases ht.wellFormed h
  refine ⟨hdrop.wellFormed, hdrop.forall_indexes (P := KeyIndex.Guards) ?_⟩
  rintro I hI c ⟨k, hk, rfl⟩
  exact (ht.guards I hI).remove hlive hk

/-- Also a row that moves takes its key along, so the key stays guarded. -/
theorem Guarded.updateRow (ht : t.Guarded) {a : Assignment} (hall : ChecksAll a t rid)
    (h : t.updateRow a rid = some (t', b)) : t'.Guarded := by
  rcases updateRow_cases ht.wellFormed h with
    ⟨-, rfl, -⟩ | ⟨-, old, new, hlive, hnew, hcheck, hin | ⟨-, hout | ⟨rid', -, hmoved⟩⟩⟩
  · exact ht
  · refine ⟨hin.wellFormed, hin.forall_indexes (P := KeyIndex.Guards) ?_⟩
    rintro I hI c ⟨k, k', hk, hk', hc⟩
    have hfree := hall.free hcheck hlive hnew hI hk hk'
    have hg := ((ht.guards I hI).remove hlive hk).insert (r := rid) (v := rid) hk'
      (update_none_of_free hfree)
    rw [Function.update_idem] at hg
    rwa [hc hfree]
  · refine ⟨hout.wellFormed, hout.forall_indexes (P := KeyIndex.Guards) ?_⟩
    rintro I hI c ⟨k, k', hk, hk', hc⟩
    rw [hc (hall.free hcheck hlive hnew hI hk hk')]
    exact ((ht.guards I hI).remove hlive hk).add_entry
  · refine ⟨hmoved.wellFormed, hmoved.forall_indexes (P := KeyIndex.Guards) ?_⟩
    rintro I hI c ⟨k, k', hk, hk', hc⟩
    have hfree := hall.free hcheck hlive hnew hI hk hk'
    rw [hc hfree]
    exact ((ht.guards I hI).remove hlive hk).insert hk' (update_none_of_free hfree)

/-- The statements keep the indexes guarded, and their columns. -/
theorem Guarded.reaches (h₀ : t₀.Guarded)
    (hrun : Machine.Reaches TableInfo.step (fun t st => st.Meets ChecksAll t) t₀ t) :
    t.Guarded ∧ t.schema = t₀.schema ∧
      t.indexes.map IndexInfo.keyMap = t₀.indexes.map IndexInfo.keyMap := by
  refine hrun.invariant (I := fun t => t.Guarded ∧ t.SameColumns t₀) ⟨h₀, rfl, rfl⟩ ?_
  intro t st t' b ht hmeets hstep
  refine step_invariant (P := fun t => t.Guarded ∧ t.SameColumns t₀) ?_ ?_ ?_ ht hmeets hstep
  · intro t values t' b ht h
    refine ⟨ht.1.executeInsert h, ?_⟩
    rcases executeInsert_cases ht.1.wellFormed h with hsame | ⟨-, row, rid, -, hadd⟩
    · exact hsame.sameColumns.trans ht.2
    · exact hadd.sameColumns.trans ht.2
  · intro t rid t' b ht h
    obtain ⟨row, -, hdrop⟩ := deleteRow_cases ht.1.wellFormed h
    exact ⟨ht.1.deleteRow h, hdrop.sameColumns.trans ht.2⟩
  · intro t a rid t' b ht hall h
    refine ⟨ht.1.updateRow hall h, ?_⟩
    rcases updateRow_cases ht.1.wellFormed h with
      ⟨-, rfl, -⟩ | ⟨-, old, new, -, -, -, hin | ⟨-, hout | ⟨rid', -, hmoved⟩⟩⟩
    · exact ht.2
    · exact hin.sameColumns.trans ht.2
    · exact hout.sameColumns.trans ht.2
    · exact hmoved.sameColumns.trans ht.2

/-- A guarded index tells the rows apart by its columns. -/
theorem Guarded.distinct (ht : t.Guarded) {I : IndexInfo} (hI : I ∈ t.indexes) :
    t.heap.Distinct I.keyMap := by
  intro rid rid' row row' hrow hrow' hagree
  refine (ht.guards I hI).2 rid rid' row row' hrow hrow' ?_
  have hfields : I.keyMap.mapM (fun c => row[c]?) = I.keyMap.mapM (fun c => row'[c]?) := by
    generalize I.keyMap = cols at hagree
    induction cols with
    | nil => rfl
    | cons c cols ih =>
      rw [List.mapM_cons, List.mapM_cons, hagree c List.mem_cons_self,
        ih (fun c hc => hagree c (List.mem_cons_of_mem _ hc))]
  rw [IndexInfo.key, IndexInfo.key, hfields]

/-- **Unique keys stay unique** in a table that `CREATE TABLE` has made, over
statements whose rounds would pass the check that the code leaves out. A
unique column must be the first one of its name: the index of a second one
would be on the first. -/
theorem keysUnique_of_checksAll {ids : StdString → PageIds} {c c' : Catalog} {name : StdString}
    {columns : List ColumnDefinition} {primaryKeys : List StdString}
    (hcreate : c.executeCreateTable ids name columns primaryKeys = some (c', true))
    (ht₀ : c' name = some t₀)
    (hnames : ∀ i col, t₀.schema.columns[i]? = some col → col.unique = true →
      t₀.schema.getColumnIndex col.name = some i)
    (hrun : Machine.Reaches TableInfo.step (fun t st => st.Meets ChecksAll t) t₀ t) :
    t.KeysUnique primaryKeys := by
  rcases Catalog.executeCreateTable_cases hcreate with ⟨-, ⟨⟩⟩ | ⟨cols, t₁, ht₁, rfl⟩
  rw [Function.update_self] at ht₀
  cases ht₀
  obtain ⟨hschema, hids, hheap, hempty, hprimary, hunique⟩ := create_eq_some ht₁
  have hguarded : t₀.Guarded := by
    refine ⟨by rw [hheap, hids]; exact TableHeap.wellFormed_create, fun I hI => ?_⟩
    rw [hheap]
    exact KeyIndex.guards_empty (fun _ => TableHeap.live_create)
  obtain ⟨ht, hsame, hmaps⟩ := hguarded.reaches hrun
  have hdistinct : ∀ I ∈ t₀.indexes, t.heap.Distinct I.keyMap := by
    intro I hI
    have hmem : I.keyMap ∈ t.indexes.map IndexInfo.keyMap := hmaps ▸ List.mem_map_of_mem hI
    obtain ⟨J, hJ, hcols⟩ := List.mem_map.mp hmem
    exact hcols ▸ ht.distinct hJ
  constructor
  · intro hne cols hcols
    rw [hsame] at hcols
    obtain ⟨I, hI, rfl⟩ := hprimary hne cols hcols
    exact hdistinct I hI
  · intro i col hcol huniq
    rw [hsame] at hcol
    have hmem : col ∈ t₀.schema.columns := List.mem_of_getElem? hcol
    rw [hschema] at hmem
    obtain ⟨I, hI, j, hj, hmap⟩ := hunique col hmem huniq
    rw [hnames i col hcol huniq] at hj
    cases hj
    exact hmap ▸ hdistinct I hI

/-! ## The check that is left out -/

/-- `create table t(a int, b int, primary key(a, b))`. -/
def createAB : Option (Catalog × Bool) :=
  Catalog.executeCreateTable (fun _ => pagesFrom2) (fun _ => none) [116]
    [⟨[97], .int, false⟩, ⟨[98], .int, false⟩] [[97], [98]]

/-- The table before and after some statements, where they all succeed. -/
def runAB (statements : List TableStatement) : Option (TableInfo × TableInfo) :=
  createAB.bind (fun r => (r.1 [116]).bind (fun t₀ =>
    (Machine.run TableInfo.step t₀ statements).bind (fun u =>
      if r.2 = true ∧ u.2.all id then some (t₀, u.1) else none)))

theorem runAB_eq_some {statements : List TableStatement} (h : runAB statements = some (t₀, t)) :
    ∃ c' os, createAB = some (c', true) ∧ c' [116] = some t₀ ∧
      Machine.run TableInfo.step t₀ statements = some (t, os) := by
  obtain ⟨⟨c', b⟩, hcreate, h⟩ := Option.bind_eq_some_iff.mp h
  obtain ⟨t₁, ht₁, h⟩ := Option.bind_eq_some_iff.mp h
  obtain ⟨⟨t₂, os⟩, hrun, h⟩ := Option.bind_eq_some_iff.mp h
  split at h
  · rename_i hall
    cases h
    exact ⟨c', os, hall.1 ▸ hcreate, ht₁, hrun⟩
  · cases h

/-- Insertions leave a table whose index agrees with its heap. -/
theorem consistent_of_runAB {statements : List TableStatement}
    (hinserts : ∀ st ∈ statements, ∃ values, st = .insert values)
    (h : runAB statements = some (t₀, t)) : t.Consistent := by
  obtain ⟨c', os, hcreate, ht₀, hrun⟩ := runAB_eq_some h
  refine (Machine.Reaches.init.run (Machine.meets_of_forall_mem hinserts t₀) hrun).invariant
    (I := Consistent) ?_ (fun t st t' b ht hst h => by
      obtain ⟨values, rfl⟩ := hst
      exact ht.executeInsert h)
  rcases Catalog.executeCreateTable_cases hcreate with ⟨-, ⟨⟩⟩ | ⟨cols, t₂, ht₂, rfl⟩
  rw [Function.update_self] at ht₀
  cases ht₀
  exact consistent_create ht₂

/-- `insert into t values(a, b)`. -/
def insertAB (a b : Int32) : TableStatement := .insert [.number a 0, .number b 0]

/-- `b = value`. -/
def setB (value : Int32) : Assignment := ⟨[98], .number value 0⟩

/-- After `insert` of `(1, 1)` and `(1, 2)`, `update t set b = 3` makes both
rows the row `(1, 3)`. -/
theorem runAB_update :
    (runAB [insertAB 1 1, insertAB 1 2]).bind
        (fun r => (r.2.step (.update [setB 3] none 3)).map (fun u =>
          ([[97], [98]].mapM u.1.schema.getColumnIndex, u.1.heap.live ⟨2, 0⟩,
            u.1.heap.live ⟨2, 1⟩, u.2)))
      = some (some [0, 1], some [.integer 1, .integer 3], some [.integer 1, .integer 3], true) := by
  decide +kernel

/-- The primary key `(a, b)` does not stay unique under `update t set b = 3`,
which looks into no index: the index of the key starts with `a`. Before the
statement the index agrees with the heap. -/
theorem not_keysUnique_of_update :
    ∃ c' t₀ t₁ t, createAB = some (c', true) ∧ c' [116] = some t₀ ∧
      Machine.Reaches TableInfo.step (fun _ _ => True) t₀ t₁ ∧ t₁.IndexesAgree ∧
      t₁.step (.update [setB 3] none 3) = some (t, true) ∧ ¬ t.KeysUnique [[97], [98]] := by
  obtain ⟨⟨t₀, t₁⟩, hrun, hout⟩ := Option.bind_eq_some_iff.mp runAB_update
  obtain ⟨⟨t, b⟩, hstep, hout⟩ := Option.map_eq_some_iff.mp hout
  obtain ⟨hcols, h₀, h₁, rfl⟩ := by simpa only [Prod.mk.injEq] using hout
  have hconsistent : t₁.Consistent :=
    consistent_of_runAB (List.forall_mem_cons.mpr
      ⟨⟨_, rfl⟩, List.forall_mem_singleton.mpr ⟨_, rfl⟩⟩)
      hrun
  obtain ⟨c', os, hcreate, ht₀, hrun⟩ := runAB_eq_some hrun
  refine ⟨c', t₀, t₁, t, hcreate, ht₀,
    Machine.Reaches.init.run (Machine.meets_of_forall (fun _ _ => trivial) _ _) hrun,
    hconsistent.agree, hstep, fun hunique => ?_⟩
  have hsame := hunique.1 (by decide) [0, 1] hcols ⟨2, 0⟩ ⟨2, 1⟩ _ _ h₀ h₁ (fun _ _ => rfl)
  exact absurd hsame (by decide)

/-- `update t set b = 5 where …`, with the first row selected. -/
def setFirstB : TableStatement := .update [setB 5] (some [⟨2, 0⟩]) 0

set_option synthInstance.maxSize 400 in
/-- With the rows `(1, 1)` and `(2, 2)` the key `(1, 5)` is nobody's. -/
theorem runAB_insert :
    (runAB [insertAB 1 1, insertAB 2 2]).map
        (fun r => (r.1.schema.columns.map Column.unique,
          r.2.newRow (setB 5) [.integer 1, .integer 1],
          r.2.heap.live ⟨2, 0⟩,
          r.2.indexes.map (fun I => (I.key [.integer 1, .integer 5]).bind I.container),
          (r.2.step setFirstB).map (fun u => u.1.heap.live ⟨2, 0⟩)))
      = some ([false, false], some (some [.integer 1, .integer 5]),
          some [.integer 1, .integer 1], [none], some (some [.integer 1, .integer 5])) := by
  decide +kernel

/-- The primary key `(a, b)` stays unique when the row `(1, 1)` becomes
`(1, 5)` next to the row `(2, 2)`. -/
theorem keysUnique_of_checksAll_update :
    ∃ t : TableInfo, t.heap.live ⟨2, 0⟩ = some [.integer 1, .integer 5] ∧
      t.KeysUnique [[97], [98]] := by
  obtain ⟨⟨t₀, t₂⟩, hrun, hout⟩ := Option.map_eq_some_iff.mp runAB_insert
  obtain ⟨hunique, hnew, hlive, hfree, hstep⟩ := by simpa only [Prod.mk.injEq] using hout
  obtain ⟨c', os, hcreate, ht₀, hrun⟩ := runAB_eq_some hrun
  obtain ⟨⟨t, b⟩, hstep, hlive'⟩ := Option.map_eq_some_iff.mp hstep
  have hchecks : ChecksAll (setB 5) t₂ ⟨2, 0⟩ := by
    intro old new hold hnew' _ I hI _ k hk
    rw [hlive] at hold
    cases hold
    rw [hnew] at hnew'
    cases hnew'
    have hmem : (I.key [.integer 1, .integer 5]).bind I.container ∈ [none] := by
      rw [← hfree]
      exact List.mem_map.mpr ⟨I, hI, rfl⟩
    rw [List.mem_singleton, hk] at hmem
    exact .inr hmem
  have hinserts : Machine.Meets TableInfo.step (fun t st => st.Meets ChecksAll t) t₀
      [insertAB 1 1, insertAB 2 2] := ⟨trivial, fun _ _ _ => ⟨trivial, fun _ _ _ => trivial⟩⟩
  have hrun₂ := Machine.Reaches.init.run hinserts hrun
  have hmeets : setFirstB.Meets ChecksAll t₂ :=
    ⟨⟨hchecks, fun _ _ => trivial⟩, fun _ _ => trivial⟩
  refine ⟨t, hlive', keysUnique_of_checksAll hcreate ht₀ (fun i col hcol huniq => ?_)
    (hrun₂.next hmeets hstep)⟩
  have hmem := List.mem_map_of_mem (f := Column.unique) (List.mem_of_getElem? hcol)
  rw [hunique, huniq] at hmem
  exact absurd hmem (by decide)

end TableInfo

end MiniSql
