import MiniSql.CatalogMeta
import MiniSql.PageStore

/-!
# The catalog manager

`CatalogManager` of `catalog/catalog.cpp`: the maps of tables and indexes that
it holds in memory, the directory that it writes to page
`CATALOG_META_PAGE_ID` after every change, and the constructor that builds the
maps again from the pages.

The pages are a store that keeps what is written to it. `NewPage` gives an id
that is not in use (which one is part of the call), with its bytes reset, and
`SerializeTo` on a page gets stuck if it writes beyond the end of the page. A
table heap is its first page here: no call of the catalog puts a tuple into
it, so `FreeHeap` deletes this page and no other. The B+ tree of an index is
on pages of its own, which no call of the catalog reads.
-/

namespace MiniSql

open Serial

/-- The answers of the catalog, from `dberr_t`. -/
inductive DBErr
  | dbSuccess
  | dbTableAlreadyExist
  | dbTableNotExist
  | dbIndexAlreadyExist
  | dbIndexNotFound
  | dbColumnNameNotExist
deriving DecidableEq, Repr

/-! ## The pages -/

namespace PageStore

/-- `SerializeTo(page->GetData())`, which must stay on the page. -/
def serialize (p : PageStore) (id : PageId) (w : Writer) : Option PageStore :=
  let c := w.after ⟨p.data id, 0⟩
  if c.pos ≤ pageSize then some { p with data := Function.update p.data id c.mem } else none

/-- `DeserializeFrom(page->GetData())`. -/
def deserialize {α : Type} (p : PageStore) (id : PageId) (r : Reader α) : Option α :=
  (r (p.data id) 0).map Prod.fst

end PageStore

/-! ## The state -/

namespace CatalogManager

/-- `IndexInfo`, without the tree of the index. -/
structure IndexInfo where
  /-- `meta_data_` -/
  metaData : IndexMetadata
  /-- `table_info_` -/
  tableInfo : TableMetadata
  /-- `key_schema_` -/
  keySchema : Schema

/-- `IndexInfo::Init`: the key columns are looked up in the table's schema. -/
def IndexInfo.init (metaData : IndexMetadata) (tableInfo : TableMetadata) : Option IndexInfo :=
  (tableInfo.schema.shallowCopySchema metaData.keyMap).map (IndexInfo.mk metaData tableInfo)

end CatalogManager

/-- `CatalogManager`. A `TableInfo` is the metadata of the table, and its heap
the page that the metadata names. -/
structure CatalogManager where
  /-- `buffer_pool_manager_` -/
  bufferPool : PageStore
  /-- `catalog_meta_` -/
  catalogMeta : CatalogMeta
  /-- `next_table_id_` -/
  nextTableId : ℕ
  /-- `next_index_id_` -/
  nextIndexId : ℕ
  /-- `table_names_` -/
  tableNames : UnorderedMap StdString ℕ
  /-- `tables_` -/
  tables : UnorderedMap ℕ TableMetadata
  /-- `index_names_` -/
  indexNames : UnorderedMap StdString (UnorderedMap StdString ℕ)
  /-- `indexes_` -/
  indexes : UnorderedMap ℕ CatalogManager.IndexInfo

namespace CatalogManager

/-- The constructor with `init = true`, on the two pages that the engine has
allocated. -/
def create : CatalogManager where
  bufferPool := ⟨[0, 1], fun _ _ => 0⟩
  catalogMeta := ⟨[], []⟩
  nextTableId := 0
  nextIndexId := 0
  tableNames := .empty
  tables := .empty
  indexNames := .empty
  indexes := .empty

/-! ## The calls -/

/-- The directory is written to its page. -/
def writeCatalogMeta (p : PageStore) (m : CatalogMeta) : Option PageStore :=
  p.serialize catalogMetaPageId m.serializeTo

/-- `CatalogManager::CreateTable`, with the ids that `NewPage` gives for the
heap and for the metadata. -/
def createTable (s : CatalogManager) (tableName : StdString) (schema : Schema)
    (heapPageId tableMetaPageId : PageId) : Option (CatalogManager × DBErr) :=
  if (s.tableNames tableName).isSome then some (s, .dbTableAlreadyExist)
  else do
    let p ← s.bufferPool.newPage heapPageId
    let p ← p.newPage tableMetaPageId
    let tableMeta : TableMetadata := ⟨s.nextTableId, tableName, heapPageId, schema⟩
    let p ← p.serialize tableMetaPageId tableMeta.serializeTo
    let catalogMeta := { s.catalogMeta with
      tableMetaPages := s.catalogMeta.tableMetaPages.emplace s.nextTableId tableMetaPageId }
    let p ← writeCatalogMeta p catalogMeta
    some ({ s with
      bufferPool := p
      catalogMeta := catalogMeta
      tableNames := s.tableNames.emplace tableName s.nextTableId
      tables := s.tables.emplace s.nextTableId tableMeta
      nextTableId := (s.nextTableId + 1) % 2 ^ 32 }, .dbSuccess)

/-- The loops over `index_keys` and the columns: the first column of each
name. A schema without columns has no last round to fail in. -/
def keyMap (columns : List Column) : List StdString → Option (List ℕ)
  | [] => some []
  | key :: keys =>
    match columns.findIdx? (fun c => c.name == key) with
    | some j => (keyMap columns keys).map (j :: ·)
    | none => if columns = [] then keyMap columns keys else none

/-- `CatalogManager::CreateIndex`, with the id that `NewPage` gives. -/
def createIndex (s : CatalogManager) (tableName indexName : StdString)
    (indexKeys : List StdString) (pageId : PageId) : Option (CatalogManager × DBErr) :=
  match s.tableNames tableName with
  | none => some (s, .dbTableNotExist)
  | some tableId => do
    let tableInfo ← s.tables tableId
    match keyMap tableInfo.schema.columns indexKeys with
    | none => some (s, .dbColumnNameNotExist)
    | some keys =>
      let indexesOfTable := (s.indexNames tableName).getD .empty
      if (indexesOfTable indexName).isSome then some (s, .dbIndexAlreadyExist)
      else do
        let indexMeta : IndexMetadata := ⟨s.nextIndexId, indexName, tableId, keys⟩
        let indexInfo ← IndexInfo.init indexMeta tableInfo
        let p ← s.bufferPool.newPage pageId
        let p ← p.serialize pageId indexMeta.serializeTo
        let catalogMeta := { s.catalogMeta with
          indexMetaPages := s.catalogMeta.indexMetaPages.emplace s.nextIndexId pageId }
        let p ← writeCatalogMeta p catalogMeta
        some ({ s with
          bufferPool := p
          catalogMeta := catalogMeta
          indexNames := Function.update s.indexNames tableName
            (some (indexesOfTable.emplace indexName s.nextIndexId))
          indexes := s.indexes.emplace s.nextIndexId indexInfo
          nextIndexId := (s.nextIndexId + 1) % 2 ^ 32 }, .dbSuccess)

/-- `CatalogManager::DropTable`. -/
def dropTable (s : CatalogManager) (tableName : StdString) : Option (CatalogManager × DBErr) :=
  match s.tableNames tableName with
  | none => some (s, .dbTableNotExist)
  | some tableId => do
    let tableInfo ← s.tables tableId
    let catalogMeta := { s.catalogMeta with
      tableMetaPages := s.catalogMeta.tableMetaPages.erase tableId }
    let p ← writeCatalogMeta (s.bufferPool.deletePage tableInfo.rootPageId) catalogMeta
    some ({ s with
      bufferPool := p
      catalogMeta := catalogMeta
      tables := s.tables.erase tableId
      tableNames := s.tableNames.erase tableName }, .dbSuccess)

/-- `CatalogManager::DropIndex`. -/
def dropIndex (s : CatalogManager) (tableName indexName : StdString) :
    Option (CatalogManager × DBErr) :=
  match s.indexNames tableName with
  | none => some (s, .dbIndexNotFound)
  | some indexesOfTable =>
    match indexesOfTable indexName with
    | none => some (s, .dbIndexNotFound)
    | some indexId => do
      let _indexInfo ← s.indexes indexId
      let catalogMeta := { s.catalogMeta with
        indexMetaPages := s.catalogMeta.indexMetaPages.erase indexId }
      let p ← writeCatalogMeta s.bufferPool catalogMeta
      some ({ s with
        bufferPool := p
        catalogMeta := catalogMeta
        indexes := s.indexes.erase indexId
        indexNames := Function.update s.indexNames tableName
          (some (indexesOfTable.erase indexName)) }, .dbSuccess)

/-- The calls of the catalog that change it, each with the ids that `NewPage`
gives in it. -/
inductive Call
  | createTable (tableName : StdString) (schema : Schema) (heapPageId tableMetaPageId : PageId)
  | createIndex (tableName indexName : StdString) (indexKeys : List StdString) (pageId : PageId)
  | dropTable (tableName : StdString)
  | dropIndex (tableName indexName : StdString)

/-- One call; stuck where the pages do not hold what is written to them. -/
def step (s : CatalogManager) : Call → Option (CatalogManager × DBErr)
  | .createTable t schema heap page => s.createTable t schema heap page
  | .createIndex t i keys page => s.createIndex t i keys page
  | .dropTable t => s.dropTable t
  | .dropIndex t i => s.dropIndex t i

/-! ## Opening the catalog again -/

/-- `CatalogManager::LoadTable`. -/
def loadTable (s : CatalogManager) (tableId : ℕ) (pageId : PageId) : Option CatalogManager := do
  let tableMeta ← s.bufferPool.deserialize pageId TableMetadata.deserializeFrom
  some { s with
    tableNames := s.tableNames.emplace tableMeta.tableName tableId
    tables := s.tables.emplace tableId tableMeta }

/-- `CatalogManager::LoadIndex`. A table id without a table gives a null
pointer, on which `IndexInfo::Init` crashes. -/
def loadIndex (s : CatalogManager) (indexId : ℕ) (pageId : PageId) : Option CatalogManager := do
  let indexMeta ← s.bufferPool.deserialize pageId IndexMetadata.deserializeFrom
  let tableInfo ← s.tables indexMeta.tableId
  let indexInfo ← IndexInfo.init indexMeta tableInfo
  let indexesOfTable := (s.indexNames tableInfo.tableName).getD .empty
  some { s with
    indexNames := Function.update s.indexNames tableInfo.tableName
      (some (indexesOfTable.emplace indexMeta.indexName indexId))
    indexes := s.indexes.emplace indexId indexInfo }

/-- The round of the loop over the tables. -/
def loadTableEntry (s : CatalogManager) (e : ℕ × PageId) : Option CatalogManager :=
  (s.loadTable e.1 e.2).map (fun s => { s with nextTableId := (e.1 + 1) % 2 ^ 32 })

/-- The round of the loop over the indexes. -/
def loadIndexEntry (s : CatalogManager) (e : ℕ × PageId) : Option CatalogManager :=
  (s.loadIndex e.1 e.2).map (fun s => { s with nextIndexId := (e.1 + 1) % 2 ^ 32 })

/-- The constructor with `init = false`. It sets `next_table_id_` and
`next_index_id_` only if there is a table or an index; `unset` is what they
hold before. -/
def reopen (p : PageStore) (unset : ℕ × ℕ) : Option CatalogManager := do
  let catalogMeta ← p.deserialize catalogMetaPageId CatalogMeta.deserializeFrom
  let s ← catalogMeta.tableMetaPages.foldlM loadTableEntry
    { create with
      bufferPool := p
      catalogMeta := catalogMeta
      nextTableId := unset.1
      nextIndexId := unset.2 }
  catalogMeta.indexMetaPages.foldlM loadIndexEntry s

/-! ## What a catalog tells about its tables and indexes -/

/-- The id, the first page id and the column names of the table of a name. -/
def tableEntry (s : CatalogManager) (tableName : StdString) :
    Option (ℕ × PageId × List StdString) :=
  (s.tableNames tableName).bind (fun id => (s.tables id).map (fun info =>
    (info.tableId, info.rootPageId, info.schema.columns.map Column.name)))

/-- The id and the key column positions of the index of a name on the table of
a name. -/
def indexEntry (s : CatalogManager) (tableName indexName : StdString) : Option (ℕ × List ℕ) :=
  ((s.indexNames tableName).bind (· indexName)).bind (fun id => (s.indexes id).map (fun info =>
    (info.metaData.indexId, info.metaData.keyMap)))

/-- **The same catalog**: the same tables, and the same indexes on each of
them. -/
def SameCatalog (s s' : CatalogManager) : Prop :=
  (∀ t, s'.tableEntry t = s.tableEntry t) ∧
    ∀ t, (s.tableEntry t).isSome → ∀ i, s'.indexEntry t i = s.indexEntry t i

/-- **The catalog survives reopening**: opening its pages again completes and
gives the same catalog. -/
def SurvivesReopening (s : CatalogManager) : Prop :=
  ∀ unset, ∃ s', reopen s.bufferPool unset = some s' ∧ SameCatalog s s'

end CatalogManager

end MiniSql
