import MiniSql.CatalogSound
import MiniSql.IndexRootsPage
import MiniSql.Machine

/-!
# How much the pages of the catalog hold

`CreateTable` and `CreateIndex` write the metadata of the table or index to a
page and the directory to another, and the first entry of an index adds a
record to the page of the index roots. None of the encoders looks at the end
of its page, and no call asks how much it will write. So the catalog here is
the one of `CatalogManager` without its restriction to writes that stay on the
page: what would be written behind the end is kept with the page, and the call
succeeds, as it does in the code.

From the start, all that is stored stays inside the pages exactly as long as
the names and columns of every new table and index are short enough for a page
and there are at most 510 of them together (`meets_guarded_iff`). The page of
the index roots needs no condition of its own: it never has more records than
there are indexes. As long as everything is inside, this is the catalog manager
(`createTable_eq`, `createIndex_eq`).
-/

namespace MiniSql

open Serial

/-! ## Writing without looking at the end of the page -/

namespace PageStore

variable {p : PageStore} {id : PageId} {w : Writer} {n : ℕ}

/-- `SerializeTo(page->GetData())`, wherever it ends. -/
def serializeTo (p : PageStore) (id : PageId) (w : Writer) : PageStore :=
  p.writePage id (w.after ⟨p.data id, 0⟩).mem

theorem serialize_eq (hw : Moves w n) (hn : n ≤ pageSize) :
    p.serialize id w = some (p.serializeTo id w) := by
  have hpos : (w.after ⟨p.data id, 0⟩).pos ≤ pageSize := by
    rw [hw.pos, Nat.zero_add]
    exact hn
  exact if_pos hpos

end PageStore

namespace IndexRootsPage

variable {p : IndexRootsPage} {x : ℕ} {root : PageId}

/-- `Insert`, also where there is no room for the record. -/
def insertRecord (p : IndexRootsPage) (indexId : ℕ) (rootId : PageId) : IndexRootsPage × Bool :=
  match p.findIndex indexId with
  | some _ => (p, false)
  | none => (⟨p.roots ++ [(indexId, rootId)]⟩, true)

/-- While there is room, this is `insert`. -/
theorem insert_eq (h : p.roots.length < maxIndexCount) :
    p.insert x root = some (p.insertRecord x root) := by
  unfold insert insertRecord
  cases p.findIndex x with
  | some _ => rfl
  | none => exact if_pos h

/-- The ids on the page are one each, and stay so. -/
theorem ids_insertRecord :
    (p.insertRecord x root).1.roots.map Prod.fst = p.roots.map Prod.fst ∨
      x ∉ p.roots.map Prod.fst ∧
        (p.insertRecord x root).1.roots.map Prod.fst = p.roots.map Prod.fst ++ [x] := by
  unfold insertRecord
  cases h : p.findIndex x with
  | some _ => exact .inl rfl
  | none =>
    refine .inr ⟨fun hx => ?_, List.map_append⟩
    obtain ⟨e, he, hex⟩ := List.mem_map.mp hx
    exact absurd hex (of_decide_eq_false (List.findIdx?_eq_none_iff.mp h e he))

end IndexRootsPage

/-! ## The catalog with the page of the index roots -/

/-- The catalog manager and the page of the index roots. -/
structure CatalogPages where
  /-- The catalog manager. -/
  catalog : CatalogManager
  /-- The page of the index roots. -/
  indexRoots : IndexRootsPage

namespace CatalogPages

open CatalogManager (IndexInfo keyMap)

/-- A new database. -/
def create : CatalogPages := ⟨.create, ⟨[]⟩⟩

/-- The catalog as it is now, with its directory written. -/
def withDirectory (s : CatalogPages) (c : CatalogManager) : CatalogPages where
  catalog := { c with
    bufferPool := c.bufferPool.serializeTo catalogMetaPageId c.catalogMeta.serializeTo }
  indexRoots := s.indexRoots

/-- `CatalogManager::CreateTable`. -/
def createTable (s : CatalogPages) (tableName : StdString) (schema : Schema)
    (heapPageId tableMetaPageId : PageId) : Option (CatalogPages × DBErr) :=
  if (s.catalog.tableNames tableName).isSome then some (s, .dbTableAlreadyExist)
  else do
    let p ← s.catalog.bufferPool.newPage heapPageId
    let p ← p.newPage tableMetaPageId
    let tableMeta : TableMetadata := ⟨s.catalog.nextTableId, tableName, heapPageId, schema⟩
    let p := p.serializeTo tableMetaPageId tableMeta.serializeTo
    some (s.withDirectory (s.catalog.addTable p tableMeta tableMetaPageId), .dbSuccess)

/-- `CatalogManager::CreateIndex`. -/
def createIndex (s : CatalogPages) (tableName indexName : StdString)
    (indexKeys : List StdString) (pageId : PageId) : Option (CatalogPages × DBErr) :=
  match s.catalog.tableNames tableName with
  | none => some (s, .dbTableNotExist)
  | some tableId => do
    let tableInfo ← s.catalog.tables tableId
    match keyMap tableInfo.schema.columns indexKeys with
    | none => some (s, .dbColumnNameNotExist)
    | some keys =>
      if (s.catalog.indexNames.findIn tableName indexName).isSome then
        some (s, .dbIndexAlreadyExist)
      else do
        let indexMeta : IndexMetadata := ⟨s.catalog.nextIndexId, indexName, tableId, keys⟩
        let indexInfo ← IndexInfo.init indexMeta tableInfo
        let p ← s.catalog.bufferPool.newPage pageId
        let p := p.serializeTo pageId indexMeta.serializeTo
        some (s.withDirectory (s.catalog.addIndex p tableName indexInfo pageId), .dbSuccess)

/-- `BPlusTree::UpdateRootPageId` of the tree of an index, with the root page
that it has. The first entry of the index inserts the record. -/
def updateRootPageId (s : CatalogPages) (tableName indexName : StdString) (insertRecord : Bool)
    (rootPageId : PageId) : Option (CatalogPages × DBErr) :=
  match s.catalog.indexNames.findIn tableName indexName with
  | none => some (s, .dbIndexNotFound)
  | some indexId => do
    let info ← s.catalog.indexes indexId
    let roots :=
      if insertRecord then (s.indexRoots.insertRecord info.metaData.indexId rootPageId).1
      else (s.indexRoots.update info.metaData.indexId rootPageId).1
    some ({ s with indexRoots := roots }, .dbSuccess)

/-- The calls that create, and what the trees of the indexes do to the page of
the index roots. -/
inductive Call
  | createTable (tableName : StdString) (schema : Schema) (heapPageId tableMetaPageId : PageId)
  | createIndex (tableName indexName : StdString) (indexKeys : List StdString) (pageId : PageId)
  | updateRootPageId (tableName indexName : StdString) (insertRecord : Bool) (rootPageId : PageId)

/-- One call. -/
def step (s : CatalogPages) : Call → Option (CatalogPages × DBErr)
  | .createTable t schema heap page => s.createTable t schema heap page
  | .createIndex t i keys page => s.createIndex t i keys page
  | .updateRootPageId t i insertRecord root => s.updateRootPageId t i insertRecord root

/-! ## Inside the pages -/

/-- **Everything is inside its page**: the directory, the metadata of the
tables and indexes, and the records of the index roots. -/
structure InsidePages (s : CatalogPages) : Prop where
  directory : s.catalog.catalogMeta.getSerializedSize ≤ pageSize
  tables : ∀ id info, s.catalog.tables id = some info → info.getSerializedSize ≤ pageSize
  indexes : ∀ id info, s.catalog.indexes id = some info →
    info.metaData.getSerializedSize ≤ pageSize
  roots : s.indexRoots.roots.length ≤ IndexRootsPage.maxIndexCount

/-- **The pages are guarded** in a call: it leaves everything inside, and where
it refuses, it leaves everything as it was. -/
def Guarded (s : CatalogPages) (c : Call) : Prop :=
  ∀ s' e, s.step c = some (s', e) → s'.InsidePages ∧ (e ≠ .dbSuccess → s' = s)

/-- The bytes for the name and the columns of a table, with what stands beside
them. -/
def tableBytes (tableName : StdString) (schema : Schema) : ℕ :=
  28 + tableName.length + (schema.columns.map (fun c => 22 + c.name.length)).sum

/-- The bytes for the name and the key columns of an index, with what stands
beside them. -/
def indexBytes (indexName : StdString) (keys : List ℕ) : ℕ :=
  24 + indexName.length + 4 * keys.length

/-- The number of tables and indexes in the directory. -/
def entries (s : CatalogPages) : ℕ :=
  s.catalog.catalogMeta.tableMetaPages.length + s.catalog.catalogMeta.indexMetaPages.length

/-- The number of entries that a directory has room for. -/
def maxEntries : ℕ := (pageSize - 12) / 8

/-- **A call fits**: if the checks of the names and columns let it through, its
table or index is short enough for a page, and the directory has room for one
entry more. -/
def Fits (s : CatalogPages) : Call → Prop
  | .createTable t schema _ _ =>
    s.catalog.tableNames t = none → tableBytes t schema ≤ pageSize ∧ s.entries < maxEntries
  | .createIndex t i keys _ =>
    ∀ table cols, (s.catalog.tableNames t).bind s.catalog.tables = some table →
      keyMap table.schema.columns keys = some cols → s.catalog.indexNames.findIn t i = none →
      indexBytes i cols ≤ pageSize ∧ s.entries < maxEntries
  | .updateRootPageId .. => True

variable {s s' : CatalogPages} {c : Call} {e : DBErr} {t i : StdString} {schema : Schema}
  {keys : List StdString} {heap page root : PageId} {insertRecord : Bool} {p : PageStore}

/-! ### The sizes -/

theorem tableBytes_eq (info : TableMetadata) :
    info.getSerializedSize = tableBytes info.tableName info.schema := by
  have hcolumns : info.schema.columns.map Column.getSerializedSize =
      info.schema.columns.map (fun c => 22 + c.name.length) := by
    refine List.map_congr_left (fun c _ => ?_)
    unfold Column.getSerializedSize
    omega
  unfold TableMetadata.getSerializedSize Schema.getSerializedSize tableBytes
  rw [hcolumns]
  omega

theorem indexBytes_eq (info : IndexMetadata) :
    info.getSerializedSize = indexBytes info.indexName info.keyMap := by
  unfold IndexMetadata.getSerializedSize indexBytes
  omega

theorem directory_iff :
    s.catalog.catalogMeta.getSerializedSize ≤ pageSize ↔ s.entries ≤ maxEntries := by
  rw [CatalogMeta.getSerializedSize_eq]
  show 12 + 8 * s.entries ≤ 4096 ↔ s.entries ≤ 510
  omega

/-! ### What a call does -/

/-- What `CreateTable` can do: refuse, or a new table. -/
theorem createTable_cases (h : s.createTable t schema heap page = some (s', e)) :
    (s.catalog.tableNames t ≠ none ∧ s' = s ∧ e ≠ .dbSuccess) ∨
      (s.catalog.tableNames t = none ∧ e = .dbSuccess ∧ ∃ p, s' =
        ⟨s.catalog.addTable p ⟨s.catalog.nextTableId, t, heap, schema⟩ page, s.indexRoots⟩) := by
  unfold createTable at h
  split at h
  · rename_i hname
    cases h
    exact .inl ⟨Option.isSome_iff_ne_none.mp hname, rfl, nofun⟩
  · rename_i hname
    simp only [Option.bind_eq_bind, Option.bind_eq_some_iff] at h
    obtain ⟨p₁, -, p₂, -, h⟩ := h
    cases h
    exact .inr ⟨Option.not_isSome_iff_eq_none.mp hname, rfl, _, rfl⟩

/-- What `CreateIndex` can do: refuse, or a new index. -/
theorem createIndex_cases (h : s.createIndex t i keys page = some (s', e)) :
    (s' = s ∧ e ≠ .dbSuccess ∧ ∀ table cols,
      (s.catalog.tableNames t).bind s.catalog.tables = some table →
      keyMap table.schema.columns keys = some cols → s.catalog.indexNames.findIn t i ≠ none) ∨
    (e = .dbSuccess ∧ ∃ tableId table cols index p, s.catalog.tableNames t = some tableId ∧
      s.catalog.tables tableId = some table ∧ keyMap table.schema.columns keys = some cols ∧
      s.catalog.indexNames.findIn t i = none ∧
      IndexInfo.init ⟨s.catalog.nextIndexId, i, tableId, cols⟩ table = some index ∧
      s' = ⟨s.catalog.addIndex p t index page, s.indexRoots⟩) := by
  unfold createIndex at h
  split at h
  · rename_i hname
    cases h
    refine .inl ⟨rfl, nofun, fun table cols htable => ?_⟩
    rw [hname] at htable
    exact absurd htable nofun
  · rename_i tableId hname
    simp only [Option.bind_eq_bind, Option.bind_eq_some_iff] at h
    obtain ⟨table, htable, h⟩ := h
    have hbind : (s.catalog.tableNames t).bind s.catalog.tables = some table := by
      rw [hname]
      exact htable
    split at h
    · rename_i hkeys
      cases h
      refine .inl ⟨rfl, nofun, fun table' cols htable' hcols => ?_⟩
      cases hbind.symm.trans htable'
      exact absurd (hkeys.symm.trans hcols) nofun
    · rename_i cols hkeys
      split at h
      · rename_i hfound
        cases h
        exact .inl ⟨rfl, nofun, fun _ _ _ _ => Option.isSome_iff_ne_none.mp hfound⟩
      · rename_i hfree
        simp only [Option.bind_eq_some_iff] at h
        obtain ⟨index, hindex, p, -, h⟩ := h
        cases h
        exact .inr ⟨rfl, tableId, table, cols, index, _, hname, htable, hkeys,
          Option.not_isSome_iff_eq_none.mp hfree, hindex, rfl⟩

/-- What `UpdateRootPageId` can do: the catalog stays, and the ids on the page
stay, or that of an index is added. -/
theorem updateRootPageId_cases (h : s.updateRootPageId t i insertRecord root = some (s', e)) :
    (s' = s ∧ e ≠ .dbSuccess) ∨ (e = .dbSuccess ∧ s'.catalog = s.catalog ∧
      (s'.indexRoots.roots.map Prod.fst = s.indexRoots.roots.map Prod.fst ∨
        ∃ id info, s.catalog.indexes id = some info ∧
          info.metaData.indexId ∉ s.indexRoots.roots.map Prod.fst ∧
          s'.indexRoots.roots.map Prod.fst =
            s.indexRoots.roots.map Prod.fst ++ [info.metaData.indexId])) := by
  unfold updateRootPageId at h
  split at h
  · cases h
    exact .inl ⟨rfl, nofun⟩
  · rename_i id _
    simp only [Option.bind_eq_bind, Option.bind_eq_some_iff] at h
    obtain ⟨info, hinfo, h⟩ := h
    cases h
    refine .inr ⟨rfl, rfl, ?_⟩
    cases insertRecord with
    | true =>
      rcases IndexRootsPage.ids_insertRecord (p := s.indexRoots) with hids | ⟨hnew, hids⟩
      · exact .inl hids
      · exact .inr ⟨id, info, hinfo, hnew, hids⟩
    | false => exact .inl IndexRootsPage.ids_update

/-! ### The invariant -/

/-- **Nothing is lost**: every id that has been given is in the directory, and
the records of the index roots are of these ids. -/
structure Counted (s : CatalogPages) : Prop where
  listed : s.catalog.Listed
  tables : s.catalog.nextTableId = s.catalog.catalogMeta.tableMetaPages.length
  indexes : s.catalog.nextIndexId = s.catalog.catalogMeta.indexMetaPages.length
  nodup : (s.indexRoots.roots.map Prod.fst).Nodup
  below : ∀ x ∈ s.indexRoots.roots.map Prod.fst, x < s.catalog.nextIndexId

theorem counted_create : Counted create where
  listed := CatalogManager.inStep_create.listed
  tables := rfl
  indexes := rfl
  nodup := List.nodup_nil
  below := nofun

theorem insidePages_create : InsidePages create where
  directory := (by decide : 12 ≤ 4096)
  tables := nofun
  indexes := nofun
  roots := (by decide : 0 ≤ 511)

/-- There are no more records of index roots than indexes. -/
theorem Counted.roots_le (h : Counted s) :
    s.indexRoots.roots.length ≤ s.catalog.catalogMeta.indexMetaPages.length := by
  have hsub : s.indexRoots.roots.map Prod.fst ⊆ List.range s.catalog.nextIndexId :=
    fun x hx => List.mem_range.mpr (h.below x hx)
  have hle := (h.nodup.subperm hsub).length_le
  rwa [List.length_map, List.length_range, h.indexes] at hle

/-- With a directory that fits, they fit. -/
theorem Counted.roots_fit (h : Counted s) (hentries : s.entries ≤ maxEntries) :
    s.indexRoots.roots.length ≤ IndexRootsPage.maxIndexCount := by
  have hindexes : s.catalog.catalogMeta.indexMetaPages.length ≤ s.entries := Nat.le_add_left _ _
  exact (h.roots_le.trans (hindexes.trans hentries)).trans (by decide)

/-! ### A new table -/

section AddTable

variable {info : TableMetadata}

theorem Counted.length_addTable (h : Counted s) :
    (s.catalog.addTable p info page).catalogMeta.tableMetaPages.length =
      s.catalog.catalogMeta.tableMetaPages.length + 1 := by
  show (s.catalog.catalogMeta.tableMetaPages.emplace _ _).length = _
  rw [OrderedMap.emplace_of_lt h.listed.tablesBelow, List.length_append, List.length_singleton]

/-- **A new table is inside the pages** if it is short enough, and if there
is room in the directory. -/
theorem Counted.insidePages_addTable (h : Counted s) (hin : s.InsidePages) :
    InsidePages ⟨s.catalog.addTable p info page, s.indexRoots⟩ ↔
      info.getSerializedSize ≤ pageSize ∧ s.entries < maxEntries := by
  have hentries : entries ⟨s.catalog.addTable p info page, s.indexRoots⟩ = s.entries + 1 := by
    show _ + _ = _
    rw [h.length_addTable]
    exact Nat.add_right_comm _ _ _
  constructor
  · intro hnew
    refine ⟨hnew.tables s.catalog.nextTableId info (h.listed.tables_addTable.mpr (.inr ⟨rfl, rfl⟩)),
      ?_⟩
    have hle := directory_iff.mp hnew.directory
    rw [hentries] at hle
    exact hle
  · rintro ⟨hsize, hlt⟩
    refine ⟨directory_iff.mpr (hentries ▸ hlt), fun id info' hinfo => ?_, hin.indexes, hin.roots⟩
    rcases h.listed.tables_addTable.mp hinfo with hinfo | ⟨-, rfl⟩
    · exact hin.tables id info' hinfo
    · exact hsize

theorem Counted.addTable (h : Counted s) (hlt : s.entries < maxEntries)
    (hid : info.tableId = s.catalog.nextTableId)
    (hname : s.catalog.tableNames info.tableName = none) :
    Counted ⟨s.catalog.addTable p info page, s.indexRoots⟩ := by
  have hnext : s.catalog.nextTableId + 1 < 2 ^ 32 := by
    have hle : s.catalog.nextTableId ≤ s.entries := h.tables ▸ Nat.le_add_right _ _
    have hmax : maxEntries < 2 ^ 31 := by decide
    omega
  refine ⟨h.listed.addTable hnext hid hname, ?_, h.indexes, h.nodup, h.below⟩
  rw [h.length_addTable, ← h.tables]
  exact Nat.mod_eq_of_lt hnext

end AddTable

/-! ### A new index -/

section AddIndex

variable {info : IndexInfo}

theorem Counted.length_addIndex (h : Counted s) :
    (s.catalog.addIndex p t info page).catalogMeta.indexMetaPages.length =
      s.catalog.catalogMeta.indexMetaPages.length + 1 := by
  show (s.catalog.catalogMeta.indexMetaPages.emplace _ _).length = _
  rw [OrderedMap.emplace_of_lt h.listed.indexesBelow, List.length_append, List.length_singleton]

/-- **A new index is inside the pages** if it is short enough, and if there
is room in the directory. -/
theorem Counted.insidePages_addIndex (h : Counted s) (hin : s.InsidePages) :
    InsidePages ⟨s.catalog.addIndex p t info page, s.indexRoots⟩ ↔
      info.metaData.getSerializedSize ≤ pageSize ∧ s.entries < maxEntries := by
  have hentries : entries ⟨s.catalog.addIndex p t info page, s.indexRoots⟩ = s.entries + 1 := by
    show _ + _ = _
    rw [h.length_addIndex]
    rfl
  constructor
  · intro hnew
    refine ⟨hnew.indexes s.catalog.nextIndexId info
      (h.listed.indexes_addIndex.mpr (.inr ⟨rfl, rfl⟩)), ?_⟩
    have hle := directory_iff.mp hnew.directory
    rw [hentries] at hle
    exact hle
  · rintro ⟨hsize, hlt⟩
    refine ⟨directory_iff.mpr (hentries ▸ hlt), hin.tables, fun id info' hinfo => ?_, hin.roots⟩
    rcases h.listed.indexes_addIndex.mp hinfo with hinfo | ⟨-, rfl⟩
    · exact hin.indexes id info' hinfo
    · exact hsize

theorem Counted.addIndex (h : Counted s) (hlt : s.entries < maxEntries)
    (hid : info.metaData.indexId = s.catalog.nextIndexId)
    (htable : s.catalog.tables info.metaData.tableId = some info.tableInfo)
    (hname : info.tableInfo.tableName = t)
    (hfree : s.catalog.indexNames.findIn t info.metaData.indexName = none)
    (hinit : IndexInfo.init info.metaData info.tableInfo = some info) :
    Counted ⟨s.catalog.addIndex p t info page, s.indexRoots⟩ := by
  have hnext : s.catalog.nextIndexId + 1 < 2 ^ 32 := by
    have hle : s.catalog.nextIndexId ≤ s.entries := h.indexes ▸ Nat.le_add_left _ _
    have hmax : maxEntries < 2 ^ 31 := by decide
    omega
  have hmod : (s.catalog.addIndex p t info page).nextIndexId = s.catalog.nextIndexId + 1 :=
    Nat.mod_eq_of_lt hnext
  refine ⟨h.listed.addIndex hnext hid htable hname hfree hinit, h.tables, ?_, h.nodup,
    fun x hx => ?_⟩
  · rw [hmod, h.length_addIndex, h.indexes]
  · rw [hmod]
    exact (h.below x hx).trans (Nat.lt_succ_self _)

end AddIndex

/-- A record of an index keeps the count. -/
theorem Counted.of_indexRoots (h : Counted s) (hcatalog : s'.catalog = s.catalog)
    (hids : s'.indexRoots.roots.map Prod.fst = s.indexRoots.roots.map Prod.fst ∨
      ∃ id info, s.catalog.indexes id = some info ∧
        info.metaData.indexId ∉ s.indexRoots.roots.map Prod.fst ∧
        s'.indexRoots.roots.map Prod.fst =
          s.indexRoots.roots.map Prod.fst ++ [info.metaData.indexId]) : Counted s' := by
  obtain ⟨c, roots⟩ := s'
  obtain rfl : c = s.catalog := hcatalog
  refine ⟨h.listed, h.tables, h.indexes, ?_, ?_⟩
  · rcases hids with hids | ⟨id, info, -, hnew, hids⟩
    · rw [hids]
      exact h.nodup
    · rw [hids]
      exact h.nodup.append (List.nodup_singleton _) (List.disjoint_singleton.mpr hnew)
  · rcases hids with hids | ⟨id, info, hinfo, -, hids⟩
    · rw [hids]
      exact h.below
    · rw [hids]
      intro x hx
      rcases List.mem_append.mp hx with hx | hx
      · exact h.below x hx
      · obtain ⟨q, hq⟩ := (h.listed.indexListed id).mpr ⟨info, hinfo⟩
        rw [List.mem_singleton.mp hx, h.listed.indexId id info hinfo]
        exact h.listed.indexesBelow _ hq

/-! ### The catalog manager -/

/-- The same call with an answer of the catalog manager. -/
def withAnswer (s : CatalogPages) (r : CatalogManager × DBErr) : CatalogPages × DBErr :=
  (⟨r.1, s.indexRoots⟩, r.2)

/-- **A table that fits** is created as by the catalog manager, which writes
to its pages only. -/
theorem createTable_eq (h : Counted s) (hin : s.InsidePages)
    (hfits : Fits s (.createTable t schema heap page)) :
    s.createTable t schema heap page =
      (s.catalog.createTable t schema heap page).map s.withAnswer := by
  unfold createTable CatalogManager.createTable
  by_cases hname : (s.catalog.tableNames t).isSome
  · rw [if_pos hname, if_pos hname]
    rfl
  · obtain ⟨hbytes, hlt⟩ := hfits (Option.not_isSome_iff_eq_none.mp hname)
    rw [if_neg hname, if_neg hname]
    cases s.catalog.bufferPool.newPage heap with
    | none => rfl
    | some p₁ =>
      simp only [Option.bind_eq_bind, Option.bind_some]
      cases p₁.newPage page with
      | none => rfl
      | some p₂ =>
        have hsize : (TableMetadata.mk s.catalog.nextTableId t heap schema).getSerializedSize ≤
            pageSize := (tableBytes_eq _).trans_le hbytes
        have hnew : InsidePages ⟨s.catalog.addTable p₂ ⟨s.catalog.nextTableId, t, heap, schema⟩
          page, s.indexRoots⟩ := (h.insidePages_addTable hin).mpr ⟨hsize, hlt⟩
        have hdirectory : (CatalogMeta.mk (s.catalog.catalogMeta.tableMetaPages.emplace
          s.catalog.nextTableId page) s.catalog.catalogMeta.indexMetaPages).getSerializedSize ≤
            pageSize := hnew.directory
        rw [Option.bind_some, Option.bind_some,
          PageStore.serialize_eq (TableMetadata.moves _) hsize, Option.bind_some,
          CatalogManager.writeCatalogMeta,
          PageStore.serialize_eq (CatalogMeta.moves _) hdirectory]
        rfl

/-- **An index that fits** is created as by the catalog manager. -/
theorem createIndex_eq (h : Counted s) (hin : s.InsidePages)
    (hfits : Fits s (.createIndex t i keys page)) :
    s.createIndex t i keys page =
      (s.catalog.createIndex t i keys page).map s.withAnswer := by
  unfold createIndex CatalogManager.createIndex
  cases hname : s.catalog.tableNames t with
  | none => rfl
  | some tableId =>
    simp only [Option.bind_eq_bind]
    cases htable : s.catalog.tables tableId with
    | none => rfl
    | some table =>
      simp only [Option.bind_some]
      cases hcols : keyMap table.schema.columns keys with
      | none => rfl
      | some cols =>
        simp only [UnorderedMap.getD_eq_findIn]
        by_cases hfound : (s.catalog.indexNames.findIn t i).isSome
        · rw [if_pos hfound, if_pos hfound]
          rfl
        · rw [if_neg hfound, if_neg hfound]
          obtain ⟨hbytes, hlt⟩ := hfits table cols (by rw [hname]; exact htable) hcols
            (Option.not_isSome_iff_eq_none.mp hfound)
          cases hinit : IndexInfo.init ⟨s.catalog.nextIndexId, i, tableId, cols⟩ table with
          | none => rfl
          | some index =>
            simp only [Option.bind_some]
            cases s.catalog.bufferPool.newPage page with
            | none => rfl
            | some p₁ =>
              obtain ⟨hmeta, -⟩ := CatalogManager.IndexInfo.init_eq_some hinit
              have hsize : (IndexMetadata.mk s.catalog.nextIndexId i tableId
                cols).getSerializedSize ≤ pageSize := (indexBytes_eq _).trans_le hbytes
              have hnew : InsidePages ⟨s.catalog.addIndex p₁ t index page, s.indexRoots⟩ :=
                (h.insidePages_addIndex hin).mpr ⟨by rw [hmeta]; exact hsize, hlt⟩
              have hdirectory : (CatalogMeta.mk s.catalog.catalogMeta.tableMetaPages
                (s.catalog.catalogMeta.indexMetaPages.emplace
                  s.catalog.nextIndexId page)).getSerializedSize ≤ pageSize := hnew.directory
              rw [Option.bind_some, Option.bind_some,
                PageStore.serialize_eq (IndexMetadata.moves _) hsize, Option.bind_some,
                CatalogManager.writeCatalogMeta,
                PageStore.serialize_eq (CatalogMeta.moves _) hdirectory]
              have hindexName : index.metaData.indexName = i := by rw [hmeta]
              subst hindexName
              rfl

/-! ### Calls and runs -/

/-- **A call leaves everything inside the pages** exactly if it fits, and what
it refuses changes nothing. -/
theorem Counted.of_step (h : Counted s) (hin : s.InsidePages) (hs : s.step c = some (s', e)) :
    (s'.InsidePages ↔ Fits s c) ∧ (e ≠ .dbSuccess → s' = s) ∧ (Fits s c → Counted s') := by
  cases c with
  | createTable t schema heap page =>
    rcases createTable_cases hs with ⟨hname, rfl, -⟩ | ⟨hname, rfl, p, rfl⟩
    · have hfits : Fits s' (.createTable t schema heap page) := fun hc => absurd hc hname
      exact ⟨⟨fun _ => hfits, fun _ => hin⟩, fun _ => rfl, fun _ => h⟩
    · refine ⟨?_, fun hc => absurd rfl hc, fun hfits => h.addTable (hfits hname).2 rfl hname⟩
      rw [h.insidePages_addTable hin, tableBytes_eq]
      exact ⟨fun hfits _ => hfits, fun hfits => hfits hname⟩
  | createIndex t i keys page =>
    rcases createIndex_cases hs with ⟨rfl, -, hfound⟩ |
      ⟨rfl, tableId, table, cols, index, p, hname, htable, hcols, hfree, hinit, rfl⟩
    · have hfits : Fits s' (.createIndex t i keys page) := fun table cols htable hcols hfree =>
        absurd hfree (hfound table cols htable hcols)
      exact ⟨⟨fun _ => hfits, fun _ => hin⟩, fun _ => rfl, fun _ => h⟩
    · have hbind : (s.catalog.tableNames t).bind s.catalog.tables = some table := by
        rw [hname]
        exact htable
      have hfits : Fits s (.createIndex t i keys page) ↔
          indexBytes i cols ≤ pageSize ∧ s.entries < maxEntries := by
        refine ⟨fun hall => hall table cols hbind hcols hfree,
          fun hc table' cols' htable' hcols' _ => ?_⟩
        cases hbind.symm.trans htable'
        cases hcols.symm.trans hcols'
        exact hc
      obtain ⟨hmeta, hinfo⟩ := CatalogManager.IndexInfo.init_eq_some hinit
      refine ⟨?_, fun hc => absurd rfl hc, fun hc => ?_⟩
      · rw [h.insidePages_addIndex hin, indexBytes_eq, hmeta, hfits]
      · obtain ⟨table', htable', htname⟩ := (h.listed.tableNamed t tableId).mp hname
        cases htable.symm.trans htable'
        refine h.addIndex (hfits.mp hc).2 (by rw [hmeta]) ?_ (by rw [hinfo, htname]) ?_ ?_
        · rw [hmeta, hinfo]
          exact htable
        · rw [hmeta]
          exact hfree
        · rw [hmeta, hinfo]
          exact hinit
  | updateRootPageId t i insertRecord root =>
    rcases updateRootPageId_cases hs with ⟨rfl, -⟩ | ⟨rfl, hcatalog, hids⟩
    · exact ⟨⟨fun _ => trivial, fun _ => hin⟩, fun _ => rfl, fun _ => h⟩
    · have hcounted := h.of_indexRoots hcatalog hids
      refine ⟨⟨fun _ => trivial, fun _ => ?_⟩, fun hc => absurd rfl hc, fun _ => hcounted⟩
      have hentries : s'.entries ≤ maxEntries := by
        rw [entries, hcatalog]
        exact directory_iff.mp hin.directory
      refine ⟨directory_iff.mpr hentries, ?_, ?_, hcounted.roots_fit hentries⟩
      · rw [hcatalog]
        exact hin.tables
      · rw [hcatalog]
        exact hin.indexes

/-- **Calls that fit** lead to catalogs that are inside their pages. -/
theorem insidePages_of_reaches (h : Machine.Reaches step Fits create s) :
    Counted s ∧ s.InsidePages := by
  refine h.invariant (I := fun s => Counted s ∧ s.InsidePages)
    ⟨counted_create, insidePages_create⟩ (fun s c s' e hI hfits hs => ?_)
  obtain ⟨hiff, -, hcounted⟩ := hI.1.of_step hI.2 hs
  exact ⟨hcounted hfits, hiff.mpr hfits⟩

theorem Counted.meets_iff {calls : List Call} {answers : List DBErr} (h : Counted s)
    (hin : s.InsidePages) (hrun : Machine.run step s calls = some (s', answers)) :
    Machine.Meets step Guarded s calls ↔ Machine.Meets step Fits s calls := by
  induction calls generalizing s answers with
  | nil => exact Iff.rfl
  | cons c calls ih =>
    obtain ⟨s₁, e, answers', hs, hrest, -⟩ := Machine.run_cons_eq_some hrun
    obtain ⟨hiff, hrefused, hcounted⟩ := h.of_step hin hs
    have hguarded : Guarded s c ↔ Fits s c := by
      refine ⟨fun hg => hiff.mp (hg s₁ e hs).1, fun hfits s₂ e₂ hs₂ => ?_⟩
      cases hs.symm.trans hs₂
      exact ⟨hiff.mpr hfits, hrefused⟩
    rw [Machine.meets_cons hs, Machine.meets_cons hs, hguarded]
    exact and_congr_right (fun hfits => ih (hcounted hfits) (hiff.mpr hfits) hrest)

/-- **Every call of a run is guarded** exactly if every call of it fits. -/
theorem meets_guarded_iff {calls : List Call} {answers : List DBErr}
    (hrun : Machine.run step create calls = some (s, answers)) :
    Machine.Meets step Guarded create calls ↔ Machine.Meets step Fits create calls :=
  counted_create.meets_iff insidePages_create hrun

/-- A table with a column `a`, an index `i` on it, and its first entry. -/
def tableWithIndex (tableName : StdString) : List Call :=
  [.createTable tableName ⟨[⟨[97], .kTypeInt, 4, 0, false, true, TypeId.int_supported⟩]⟩ 2 3,
    .createIndex tableName [105] [[97]] 4, .updateRootPageId tableName [105] true 5]

/-- With a short name, all of it is guarded. -/
theorem meets_guarded_tableWithIndex :
    Machine.Meets step Guarded create (tableWithIndex [116]) := by
  obtain ⟨⟨s, answers⟩, hrun⟩ := Option.isSome_iff_exists.mp
    (by decide : (Machine.run step create (tableWithIndex [116])).isSome = true)
  refine (meets_guarded_iff hrun).mpr ⟨fun _ => by decide, fun s₁ e₁ h₁ => ?_⟩
  cases h₁
  refine ⟨fun table cols htable hcols _ => ?_, fun s₂ e₂ h₂ => ⟨trivial, fun _ _ _ => trivial⟩⟩
  cases htable
  cases hcols
  decide

/-- **A table with a name of 4096 letters** is created, with metadata that are
larger than a page. -/
theorem not_meets_guarded : ¬ ∀ (calls : List Call) (answers : List DBErr) (s : CatalogPages),
    Machine.run step create calls = some (s, answers) →
    Machine.Meets step Guarded create calls := by
  intro h
  have hlen : (List.replicate 4096 (97 : UInt8)).length = 4096 := List.length_replicate
  generalize List.replicate 4096 (97 : UInt8) = name at hlen
  obtain ⟨⟨s, answers⟩, hrun⟩ := Option.isSome_iff_exists.mp
    (rfl : (Machine.run step create
      [.createTable name ⟨[⟨[97], .kTypeInt, 4, 0, false, true, by decide⟩]⟩ 2 3]).isSome = true)
  have hin := ((h _ _ _ hrun).1 _ _ rfl).1
  have hsize := hin.tables 0 _ rfl
  rw [tableBytes_eq] at hsize
  have hle : 28 + name.length + 23 ≤ 4096 := hsize
  rw [hlen] at hle
  exact absurd hle (by decide)

end CatalogPages

end MiniSql
