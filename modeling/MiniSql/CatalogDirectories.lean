import MiniSql.CatalogReopen

/-!
# The directories of the catalog

What the six maps of a catalog have to do with each other after any sequence
of calls, the look-ups `GetTable` and `GetIndex` among them: names and ids
correspond, the directory on its page is the one in memory, and a call that
does not succeed has changed nothing (`directories_of_run`).

What the maps do not say is that an index is on a table. `DropTable` edits the
maps of the tables only, so the indexes of the table stay where they are, under
a name that another table may get. As long as only tables without indexes are
dropped, there is no such index (`noOrphans_of_dropsUnindexed`).
-/

namespace MiniSql

namespace CatalogManager

variable {s s' : CatalogManager} {o : DBErr} {t i : StdString}

/-! ## Look-ups -/

/-- `CatalogManager::GetTable`: the answer, and the table if there is one. An
id without a table would put a null pointer into `tables_`. -/
def getTable (s : CatalogManager) (tableName : StdString) :
    Option (DBErr × Option TableMetadata) :=
  match s.tableNames tableName with
  | none => some (.dbTableNotExist, none)
  | some id => (s.tables id).map (fun info => (.dbSuccess, some info))

/-- `CatalogManager::GetIndex`: the answer, and the index if there is one. -/
def getIndex (s : CatalogManager) (tableName indexName : StdString) :
    Option (DBErr × Option IndexInfo) :=
  match s.indexNames tableName with
  | none => some (.dbIndexNotFound, none)
  | some indexesOfTable =>
    match indexesOfTable indexName with
    | none => some (.dbIndexNotFound, none)
    | some id => (s.indexes id).map (fun info => (.dbSuccess, some info))

/-- `CatalogManager::GetTableIndexes`: the answer and the indexes, with the
order in which their names are walked. -/
def getTableIndexes (s : CatalogManager) (tableName : StdString) (order : List StdString) :
    Option (DBErr × List IndexInfo) :=
  match s.indexNames tableName with
  | none => some (.dbIndexNotFound, [])
  | some indexesOfTable => do
    let ids ← order.mapM indexesOfTable
    let indexes ← ids.mapM s.indexes
    some (.dbSuccess, indexes)

/-- What is asked of the catalog: a call that changes it, or a look-up. -/
inductive Request
  | call (c : Call)
  | getTable (tableName : StdString)
  | getIndex (tableName indexName : StdString)

/-- One request, with its answer. -/
def request (s : CatalogManager) : Request → Option (CatalogManager × DBErr)
  | .call c => s.step c
  | .getTable t => (s.getTable t).map (fun r => (s, r.1))
  | .getIndex t i => (s.getIndex t i).map (fun r => (s, r.1))

/-- A look-up finds what the maps hold, and never a null pointer. -/
theorem Listed.exists_getTable (h : Listed s) (t : StdString) : ∃ r, s.getTable t = some r := by
  unfold getTable
  split
  · exact ⟨_, rfl⟩
  · rename_i id hid
    obtain ⟨info, hinfo, -⟩ := (h.tableNamed t id).mp hid
    exact ⟨_, by rw [hinfo]; rfl⟩

theorem Listed.exists_getIndex (h : Listed s) (t i : StdString) :
    ∃ r, s.getIndex t i = some r := by
  unfold getIndex
  split
  · exact ⟨_, rfl⟩
  · rename_i inner hinner
    split
    · exact ⟨_, rfl⟩
    · rename_i id hid
      obtain ⟨info, hinfo, -⟩ := (h.indexNamed t i id).mp (by
        rw [UnorderedMap.findIn, hinner]
        exact hid)
      exact ⟨_, by rw [hinfo]; rfl⟩

/-! ## Names, ids and pages -/

/-- **The directories are in step**: names and ids correspond one to one, in
memory and in the directory, and the ids are below the next ones. -/
structure DirectoriesInStep (s : CatalogManager) : Prop where
  /-- A name leads to a table. -/
  tableOfName : ∀ t id, s.tableNames t = some id → ∃ info, s.tables id = some info
  /-- No two names lead to the same table. -/
  tableNamesInjective : ∀ t t' id, s.tableNames t = some id → s.tableNames t' = some id → t = t'
  /-- A name leads to every table. -/
  nameOfTable : ∀ id info, s.tables id = some info → ∃ t, s.tableNames t = some id
  /-- The directory has the ids of the tables. -/
  tableMetaPages : ∀ id, (∃ q, (id, q) ∈ s.catalogMeta.tableMetaPages) ↔
    ∃ info, s.tables id = some info
  /-- No two pairs of names lead to the same index. -/
  indexNamesDistinct : ∀ t i t' i' id, s.indexNames.findIn t i = some id →
    s.indexNames.findIn t' i' = some id → t = t' ∧ i = i'
  /-- The indexes that have names are those that there are. -/
  indexNames : ∀ id, (∃ t i, s.indexNames.findIn t i = some id) ↔
    ∃ info, s.indexes id = some info
  /-- The directory has the ids of the indexes. -/
  indexMetaPages : ∀ id, (∃ q, (id, q) ∈ s.catalogMeta.indexMetaPages) ↔
    ∃ info, s.indexes id = some info
  /-- Table ids are below the next one. -/
  tablesBelow : ∀ id info, s.tables id = some info → id < s.nextTableId
  /-- Index ids are below the next one. -/
  indexesBelow : ∀ id info, s.indexes id = some info → id < s.nextIndexId

theorem Listed.directoriesInStep (h : Listed s) : s.DirectoriesInStep where
  tableOfName t id hid := by
    obtain ⟨info, hinfo, -⟩ := (h.tableNamed t id).mp hid
    exact ⟨info, hinfo⟩
  tableNamesInjective t t' id hid hid' := by
    obtain ⟨info, hinfo, rfl⟩ := (h.tableNamed t id).mp hid
    obtain ⟨info', hinfo', rfl⟩ := (h.tableNamed t' id).mp hid'
    rw [Option.some.inj (hinfo.symm.trans hinfo')]
  nameOfTable id info hinfo := ⟨info.tableName, (h.tableNamed _ _).mpr ⟨info, hinfo, rfl⟩⟩
  tableMetaPages := h.tableListed
  indexNamesDistinct t i t' i' id hid hid' := by
    obtain ⟨info, hinfo, rfl, rfl⟩ := (h.indexNamed t i id).mp hid
    obtain ⟨info', hinfo', rfl, rfl⟩ := (h.indexNamed t' i' id).mp hid'
    rw [Option.some.inj (hinfo.symm.trans hinfo')]
    exact ⟨rfl, rfl⟩
  indexNames id := by
    constructor
    · rintro ⟨t, i, hid⟩
      obtain ⟨info, hinfo, -⟩ := (h.indexNamed t i id).mp hid
      exact ⟨info, hinfo⟩
    · rintro ⟨info, hinfo⟩
      exact ⟨_, _, (h.indexNamed _ _ _).mpr ⟨info, hinfo, rfl, rfl⟩⟩
  indexMetaPages := h.indexListed
  tablesBelow id info hinfo := by
    obtain ⟨q, hq⟩ := (h.tableListed id).mpr ⟨info, hinfo⟩
    exact h.tablesBelow _ hq
  indexesBelow id info hinfo := by
    obtain ⟨q, hq⟩ := (h.indexListed id).mpr ⟨info, hinfo⟩
    exact h.indexesBelow _ hq

/-- A call that does not succeed changes nothing. -/
theorem eq_of_step_ne_success {c : Call} (hs : s.step c = some (s', o)) (ho : o ≠ .dbSuccess) :
    s' = s := by
  cases c with
  | createTable t schema heap page =>
    rcases createTable_cases hs with h | h
    · exact h.1
    · exact absurd h.1 ho
  | createIndex t i keys page =>
    rcases createIndex_cases hs with h | h
    · exact h.1
    · exact absurd h.1 ho
  | dropTable t =>
    rcases dropTable_cases hs with h | h
    · exact h.1
    · exact absurd h.1 ho
  | dropIndex t i =>
    rcases dropIndex_cases hs with h | h
    · exact h.1
    · exact absurd h.1 ho

/-- A request is a call, or it changes nothing. -/
theorem request_cases {r : Request} (hs : s.request r = some (s', o)) :
    (∃ c, r = .call c ∧ s.step c = some (s', o)) ∨ s' = s := by
  cases r with
  | call c => exact .inl ⟨c, rfl, hs⟩
  | getTable t =>
    obtain ⟨_, -, heq⟩ := Option.map_eq_some_iff.mp hs
    exact .inr (Prod.mk.inj heq).1.symm
  | getIndex t i =>
    obtain ⟨_, -, heq⟩ := Option.map_eq_some_iff.mp hs
    exact .inr (Prod.mk.inj heq).1.symm

/-- **Every request keeps the catalog in step.** -/
theorem InStep.of_request {r : Request} (h : InStep s) (hs : s.request r = some (s', o)) :
    InStep s' := by
  rcases request_cases hs with ⟨c, -, hc⟩ | rfl
  · exact h.of_step hc
  · exact h

/-- **After any requests** the directories are in step, the directory reads
back from its page, and a request that does not succeed changes nothing. -/
theorem directories_of_run {requests : List Request} {answers : List DBErr}
    (hrun : Machine.run request create requests = some (s, answers)) :
    s.DirectoriesInStep ∧
      s.bufferPool.deserialize catalogMetaPageId CatalogMeta.deserializeFrom =
        some s.catalogMeta ∧
      ∀ r s' o, s.request r = some (s', o) → o ≠ .dbSuccess → s' = s := by
  have hmeets : Machine.Meets request (fun _ _ => True) create requests :=
    Machine.meets_of_forall (fun _ _ => trivial) create requests
  have hin : InStep s := (Machine.Reaches.init.run hmeets hrun).invariant inStep_create
    (fun _ _ _ _ h _ hs => h.of_request hs)
  refine ⟨hin.listed.directoriesInStep, hin.directory, fun r s' o hs ho => ?_⟩
  rcases request_cases hs with ⟨c, -, hc⟩ | rfl
  · exact eq_of_step_ne_success hc ho
  · rfl

/-- The table and its index, created and looked up. -/
theorem directories_of_lookUp : ∃ s answers,
    Machine.run request create (tableWithIndex.map .call ++ [.getTable [116],
      .getIndex [116] [105]]) = some (s, answers) ∧ s.DirectoriesInStep := by
  obtain ⟨⟨s, answers⟩, hrun⟩ := Option.isSome_iff_exists.mp
    (by decide +kernel : (Machine.run request create (tableWithIndex.map .call ++
      [.getTable [116], .getIndex [116] [105]])).isSome = true)
  exact ⟨s, answers, hrun, (directories_of_run hrun).1⟩

/-! ## Indexes and their tables -/

/-- The index is on the table that is registered under the name of its
table. -/
def OnTable (s : CatalogManager) (index : IndexInfo) : Prop :=
  ∃ id, s.tableNames index.tableInfo.tableName = some id ∧
    s.tables id = some index.tableInfo ∧ index.metaData.tableId = id

/-- **No orphan indexes**: whatever map an index stands in, it is on the table
that is registered under the name of its table. -/
structure NoOrphans (s : CatalogManager) : Prop where
  /-- In `indexes_`. -/
  indexes : ∀ id index, s.indexes id = some index → s.OnTable index
  /-- In `index_names_`, under the name of that table. -/
  indexNames : ∀ t i id, s.indexNames.findIn t i = some id →
    ∃ index, s.indexes id = some index ∧ index.tableInfo.tableName = t ∧ s.OnTable index
  /-- In the directory. -/
  indexMetaPages : ∀ e ∈ s.catalogMeta.indexMetaPages,
    ∃ index, s.indexes e.1 = some index ∧ s.OnTable index

/-- The call does not drop a table that has an index. -/
def DropsUnindexed (s : CatalogManager) : Call → Prop
  | .dropTable t => ∀ i, s.indexNames.findIn t i = none
  | _ => True

/-- Where the directories are in step, no index is an orphan if there is a
table for each. -/
theorem Listed.noOrphans (h : Listed s) (howned : s.IndexesHaveTables) : s.NoOrphans := by
  have hon : ∀ id index, s.indexes id = some index → s.OnTable index := by
    intro id index hindex
    obtain ⟨table, htable⟩ := howned id index hindex
    have howner : index.tableInfo = table := h.owner id index table hindex htable
    exact ⟨_, (h.tableNamed _ _).mpr ⟨table, htable, by rw [howner]⟩, by rw [howner, htable], rfl⟩
  refine ⟨hon, fun t i id hid => ?_, fun e he => ?_⟩
  · obtain ⟨index, hindex, hname, -⟩ := (h.indexNamed t i id).mp hid
    exact ⟨index, hindex, hname, hon id index hindex⟩
  · obtain ⟨index, hindex⟩ := (h.indexListed e.1).mp ⟨e.2, he⟩
    exact ⟨index, hindex, hon e.1 index hindex⟩

/-- **Every index keeps its table** in a call that drops no table with an
index. -/
theorem InStep.indexesHaveTables {c : Call} (h : InStep s) (howned : s.IndexesHaveTables)
    (hc : s.DropsUnindexed c) (hs : s.step c = some (s', o)) : s'.IndexesHaveTables := by
  cases c with
  | createTable t schema heap page =>
    rcases createTable_cases hs with ⟨rfl, -⟩ | ⟨-, p₁, p₂, p₃, p₄, -, -, -, -, -, rfl⟩
    · exact howned
    · intro id index hindex
      obtain ⟨table, htable⟩ := howned id index hindex
      exact ⟨table, h.listed.tables_addTable.mpr (.inl htable)⟩
  | createIndex t i keys page =>
    rcases createIndex_cases hs with ⟨rfl, -⟩ |
      ⟨-, tableId, table, keyCols, new, p₁, p₂, p₃, -, htable, -, -, hinit, -, -, -, rfl⟩
    · exact howned
    · intro id index hindex
      rcases h.listed.indexes_addIndex.mp hindex with hindex | ⟨-, rfl⟩
      · exact howned id index hindex
      · rw [(IndexInfo.init_eq_some hinit).1]
        exact ⟨table, htable⟩
  | dropTable t =>
    rcases dropTable_cases hs with ⟨rfl, -⟩ | ⟨-, gone, table, p, hname, htable, -, rfl⟩
    · exact howned
    · intro id index hindex
      obtain ⟨table', htable'⟩ := howned id index hindex
      refine ⟨table', UnorderedMap.erase_eq_some.mpr ⟨htable', ?_⟩⟩
      -- An index of the dropped table would have its name under that of the table.
      intro hgone
      have howner : index.tableInfo = table' := h.listed.owner id index table' hindex htable'
      obtain ⟨old, hold, hn⟩ := (h.listed.tableNamed t gone).mp hname
      rw [hgone, hold] at htable'
      have hnamed : index.tableInfo.tableName = t := by
        rw [howner, ← Option.some.inj htable', hn]
      have hfound : s.indexNames.findIn t index.metaData.indexName = some id :=
        (h.listed.indexNamed _ _ _).mpr ⟨index, hindex, hnamed, rfl⟩
      exact absurd (hfound.symm.trans (hc _)) nofun
  | dropIndex t i =>
    rcases dropIndex_cases hs with ⟨rfl, -⟩ | ⟨-, gone, p, -, -, rfl⟩
    · exact howned
    · intro id index hindex
      exact howned id index (UnorderedMap.erase_eq_some.mp hindex).1

/-- A table without indexes has none to give. -/
theorem eq_nil_of_getTableIndexes (h : ∀ i, s.indexNames.findIn t i = none)
    {order : List StdString} {l : List IndexInfo}
    (hget : s.getTableIndexes t order = some (o, l)) : l = [] := by
  unfold getTableIndexes at hget
  split at hget
  · exact (Prod.mk.inj (Option.some.inj hget)).2.symm
  · rename_i inner hinner
    cases order with
    | nil => exact (Prod.mk.inj (Option.some.inj hget)).2.symm
    | cons i order =>
      have hi : inner i = none := by
        have hnone := h i
        rwa [UnorderedMap.findIn, hinner] at hnone
      rw [List.mapM_cons, hi] at hget
      cases hget

/-- **No orphans.** Where every `DropTable` is of a table that has no index,
no call makes an index an orphan, and a table that is created has no index,
whatever its name is. -/
theorem noOrphans_of_dropsUnindexed {calls : List Call} {answers : List DBErr}
    (hmeets : Machine.Meets step DropsUnindexed create calls)
    (hrun : Machine.run step create calls = some (s, answers)) :
    s.NoOrphans ∧ ∀ t schema heap page s',
      s.createTable t schema heap page = some (s', .dbSuccess) →
      ∀ order o l, s'.getTableIndexes t order = some (o, l) → l = [] := by
  have hreach := Machine.Reaches.init.run hmeets hrun
  have hkept : InStep s ∧ s.IndexesHaveTables :=
    hreach.invariant (I := fun s => InStep s ∧ s.IndexesHaveTables) ⟨inStep_create, nofun⟩
      (fun _ _ _ _ h hc hs => ⟨h.1.of_step hs, h.1.indexesHaveTables h.2 hc hs⟩)
  have hno := hkept.1.listed.noOrphans hkept.2
  refine ⟨hno, fun t schema heap page s' hs order o l hget => ?_⟩
  rcases createTable_cases hs with ⟨-, hne⟩ | ⟨-, p₁, p₂, p₃, p₄, hname, -, -, -, -, rfl⟩
  · exact absurd rfl hne
  refine eq_nil_of_getTableIndexes (fun i => Option.eq_none_iff_forall_ne_some.mpr ?_) hget
  intro id hid
  obtain ⟨index, -, rfl, tableId, hregistered, -⟩ := hno.indexNames t i id hid
  exact absurd (hname.symm.trans hregistered) nofun

/-- Tables `t` and `u` with an index each, of which that of `t` is dropped. -/
def twoTables : List Call :=
  let schema : Schema := ⟨[⟨[97], .kTypeInt, 4, 0, false, true, TypeId.int_supported⟩]⟩
  [.createTable [116] schema 2 3, .createTable [117] schema 4 5,
    .createIndex [116] [105] [[97]] 6, .createIndex [117] [105] [[97]] 7,
    .dropIndex [116] [105]]

/-- The table `t` may be dropped then, and the index of `u` stays on its table. -/
theorem noOrphans_of_dropTable : ∃ s answers,
    Machine.run step create (twoTables ++ [.dropTable [116]]) = some (s, answers) ∧
      s.indexNames.findIn [117] [105] ≠ none ∧ s.tableNames [116] = none ∧ s.NoOrphans := by
  have hout : (Machine.run step create (twoTables ++ [.dropTable [116]])).map (fun r =>
      (r.1.indexNames.findIn [117] [105], r.1.tableNames [116])) = some (some 1, none) := by
    decide +kernel
  obtain ⟨⟨s, answers⟩, hrun, heq⟩ := Option.map_eq_some_iff.mp hout
  obtain ⟨hindex, htable⟩ := Prod.mk.inj heq
  have hindex' : s.indexNames.findIn [117] [105] ≠ none := by
    rw [hindex]
    exact nofun
  refine ⟨s, answers, hrun, hindex', htable, (noOrphans_of_dropsUnindexed ?_ hrun).1⟩
  have hnone : ∀ c ∈ twoTables, ∀ s : CatalogManager, s.DropsUnindexed c := by
    simp [twoTables, DropsUnindexed]
  have hmeets : Machine.Meets step (fun _ c => ∀ s : CatalogManager, s.DropsUnindexed c)
      create twoTables := Machine.meets_of_forall_mem hnone create
  refine (hmeets.imp (fun s c h => h s)).append (fun s₁ answers₁ h₁ => ?_)
  refine ⟨fun i => Option.eq_none_iff_forall_ne_some.mpr (fun id hid => ?_), fun _ _ _ => trivial⟩
  -- the one index that is left is on the other table
  have hout₁ : (Machine.run step create twoTables).map (fun r =>
      (r.1.catalogMeta.indexMetaPages.map Prod.fst,
        (r.1.indexes 1).map (fun index => index.tableInfo.tableName))) =
      some ([1], some [117]) := by decide +kernel
  rw [h₁, Option.map_some, Option.some_inj, Prod.mk.injEq] at hout₁
  have hin : InStep s₁ := (Machine.Reaches.init.run hmeets h₁).invariant inStep_create
    (fun _ _ _ _ h _ hs => h.of_step hs)
  obtain ⟨index, hindex₁, hname, -⟩ := (hin.listed.indexNamed _ _ _).mp hid
  obtain ⟨q, hq⟩ := (hin.listed.indexListed id).mpr ⟨index, hindex₁⟩
  have hmem : id ∈ s₁.catalogMeta.indexMetaPages.map Prod.fst := List.mem_map_of_mem hq
  rw [hout₁.1] at hmem
  cases List.mem_singleton.mp hmem
  rw [hindex₁, Option.map_some, Option.some_inj, hname] at hout₁
  exact absurd hout₁.2 (by decide)

/-- **A dropped table leaves its index behind** in all three maps. -/
theorem not_noOrphans : ¬ ∀ calls s answers,
    Machine.run step create calls = some (s, answers) → s.NoOrphans := by
  intro h
  have hleft : (Machine.run step create (tableWithIndex ++ [.dropTable [116]])).map (fun r =>
      ((r.1.indexNames.findIn [116] [105]).isSome, (r.1.tableNames [116]).isSome)) =
        some (true, false) := by decide +kernel
  obtain ⟨⟨s, answers⟩, hrun, heq⟩ := Option.map_eq_some_iff.mp hleft
  obtain ⟨hindex, htable⟩ := Prod.mk.inj heq
  obtain ⟨id, hid⟩ := Option.isSome_iff_exists.mp hindex
  obtain ⟨index, -, hname, tableId, hregistered, -⟩ := (h _ s answers hrun).indexNames _ _ id hid
  rw [hname] at hregistered
  rw [hregistered] at htable
  exact absurd htable nofun

end CatalogManager

end MiniSql
