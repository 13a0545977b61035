import MiniSql.CatalogManager
import Mathlib.Data.List.Nodup
import Mathlib.Data.List.Perm.Subperm

/-!
# What the catalog keeps

After every sequence of calls the maps of a catalog agree with its directory
(`Listed`), no page serves two purposes (`PagesApart`), and the directory reads
back from its page: so much holds whatever names the calls bring
(`InStep.of_step`). With names that have no zero byte in them, each page of the
directory reads back as what the maps hold (`Stored`, `Sound.of_step`). All is
stated for a catalog whose dropped tables may have left indexes behind.

An id is never given twice. The counters are 32-bit numbers, but every table
and every index takes a page of its own that is never given back, and there
are `2 ^ 31` page ids (`PagesApart.next_le`).
-/

namespace MiniSql

open Serial

/-! ## The page store -/

namespace PageStore

variable {p p' : PageStore} {id q : PageId} {w : Writer} {n : ℕ}

theorem serialize_eq_some (hw : Moves w n) (h : p.serialize id w = some p') :
    n ≤ pageSize ∧ p'.allocated = p.allocated ∧ ∀ q ≠ id, p'.data q = p.data q := by
  simp only [serialize, hw.pos, Nat.zero_add] at h
  split at h
  · rename_i hle
    cases h
    exact ⟨hle, rfl, fun q hq => Function.update_of_ne hq ..⟩
  · cases h

/-- What has been serialized to a page is deserialized from it. -/
theorem deserialize_serialize {α : Type} {r : Reader α} {a : α} (hw : ReadsBack w r a n)
    (h : p.serialize id w = some p') : p'.deserialize id r = some a := by
  simp only [serialize] at h
  split at h
  · cases h
    simp only [deserialize, Function.update_self, hw.read, Option.map_some]
  · cases h

/-- And the value has what the writer tells of it. -/
theorem tells_serialize {α : Type} {r : Reader α} {P : α → Prop} {a : α} (hw : Tells w r P n)
    (h : p.serialize id w = some p') (ha : p'.deserialize id r = some a) : P a := by
  simp only [serialize] at h
  split at h
  · cases h
    obtain ⟨⟨a', q⟩, hr, rfl⟩ := Option.map_eq_some_iff.mp ha
    simp only [Function.update_self] at hr
    exact hw.tells ⟨p.data id, 0⟩ _ (fun _ _ _ => rfl) a' q hr
  · cases h

theorem deserialize_congr {α : Type} {r : Reader α} (h : p'.data q = p.data q) :
    p'.deserialize q r = p.deserialize q r := by
  rw [deserialize, deserialize, h]

end PageStore

/-! ## Pages with one purpose -/

/-- Every page with a purpose is in use, and it has one purpose. -/
structure Apart {υ : Type} (uses : υ → PageId → Prop) (allocated : List PageId) : Prop where
  /-- Pages with a purpose are in use. -/
  inUse : ∀ u q, uses u q → q ∈ allocated
  /-- A page has one purpose. -/
  one : ∀ u u' q, uses u q → uses u' q → u = u'

namespace Apart

variable {υ : Type} {uses uses' : υ → PageId → Prop} {allocated : List PageId} {q : PageId} {u : υ}

theorem mono (h : Apart uses allocated) (hsub : ∀ u q, uses' u q → uses u q) :
    Apart uses' allocated :=
  ⟨fun u q hu => h.inUse u q (hsub u q hu),
    fun u u' q hu hu' => h.one u u' q (hsub u q hu) (hsub u' q hu')⟩

/-- A page that was not in use gets a purpose. -/
theorem add (h : Apart uses allocated) (hq : q ∉ allocated) (u : υ) :
    Apart (fun v r => uses v r ∨ v = u ∧ r = q) (q :: allocated) where
  inUse v r hv := by
    rcases hv with hv | ⟨-, rfl⟩
    · exact List.mem_cons_of_mem q (h.inUse v r hv)
    · exact List.mem_cons_self
  one v v' r hv hv' := by
    rcases hv with hv | ⟨rfl, rfl⟩
    · rcases hv' with hv' | ⟨-, rfl⟩
      · exact h.one v v' r hv hv'
      · exact absurd (h.inUse v r hv) hq
    · rcases hv' with hv' | ⟨rfl, -⟩
      · exact absurd (h.inUse v' r hv') hq
      · rfl

/-- A page that loses its purpose may be given back. -/
theorem release (h : Apart uses allocated) (hq : uses u q) :
    Apart (fun v r => uses v r ∧ v ≠ u) (allocated.erase q) where
  inUse v r hv := by
    refine (List.mem_erase_of_ne ?_).mpr (h.inUse v r hv.1)
    rintro rfl
    exact hv.2 (h.one v u r hv.1 hq)
  one v v' r hv hv' := h.one v v' r hv.1 hv'.1

end Apart

namespace CatalogManager

variable {s s' : CatalogManager}

theorem IndexInfo.init_eq_some {m : IndexMetadata} {table : TableMetadata} {index : IndexInfo}
    (h : IndexInfo.init m table = some index) : index.metaData = m ∧ index.tableInfo = table := by
  obtain ⟨keySchema, -, rfl⟩ := Option.map_eq_some_iff.mp h
  exact ⟨rfl, rfl⟩

/-- The key columns are looked up among the columns of the table. -/
theorem keyMap_lt {columns : List Column} {keys : List StdString} {ks : List ℕ}
    (h : keyMap columns keys = some ks) : ∀ k ∈ ks, k < columns.length := by
  induction keys generalizing ks with
  | nil =>
    cases h
    exact fun _ hk => absurd hk List.not_mem_nil
  | cons key keys ih =>
    unfold keyMap at h
    split at h
    · rename_i j hj
      obtain ⟨js, hjs, rfl⟩ := Option.map_eq_some_iff.mp h
      intro k hk
      rcases List.mem_cons.mp hk with rfl | hk
      · exact (List.findIdx?_eq_some_iff_getElem.mp hj).1
      · exact ih hjs k hk
    · split at h
      · exact ih h
      · cases h

/-! ## The invariants -/

/-- **The maps agree with the directory.** -/
structure Listed (s : CatalogManager) : Prop where
  /-- The tables stand in the order of their ids. -/
  tablesSorted : OrderedMap.Sorted s.catalogMeta.tableMetaPages
  /-- The indexes stand in the order of their ids. -/
  indexesSorted : OrderedMap.Sorted s.catalogMeta.indexMetaPages
  /-- Table ids are below the next one. -/
  tablesBelow : ∀ e ∈ s.catalogMeta.tableMetaPages, e.1 < s.nextTableId
  /-- Index ids are below the next one. -/
  indexesBelow : ∀ e ∈ s.catalogMeta.indexMetaPages, e.1 < s.nextIndexId
  /-- The directory lists the tables. -/
  tableListed : ∀ id,
    (∃ q, (id, q) ∈ s.catalogMeta.tableMetaPages) ↔ ∃ info, s.tables id = some info
  /-- The directory lists the indexes. -/
  indexListed : ∀ id,
    (∃ q, (id, q) ∈ s.catalogMeta.indexMetaPages) ↔ ∃ info, s.indexes id = some info
  /-- A name leads to the table that has it. -/
  tableNamed : ∀ t id,
    s.tableNames t = some id ↔ ∃ info, s.tables id = some info ∧ info.tableName = t
  /-- Two names lead to the index that has them. -/
  indexNamed : ∀ t i id, s.indexNames.findIn t i = some id ↔
    ∃ info, s.indexes id = some info ∧ info.tableInfo.tableName = t ∧ info.metaData.indexName = i
  /-- A table knows its id. -/
  tableId : ∀ id info, s.tables id = some info → info.tableId = id
  /-- An index knows its id. -/
  indexId : ∀ id info, s.indexes id = some info → info.metaData.indexId = id
  /-- The table of an index has had its id. -/
  ownerBelow : ∀ id info, s.indexes id = some info → info.metaData.tableId < s.nextTableId
  /-- An index is on the table with the id that it names, if there is one. -/
  owner : ∀ id info t, s.indexes id = some info → s.tables info.metaData.tableId = some t →
    info.tableInfo = t
  /-- The key columns of an index are columns of its table. -/
  keyColumns : ∀ id info, s.indexes id = some info →
    IndexInfo.init info.metaData info.tableInfo = some info

/-- What a page is for. -/
inductive PageUse
  | catalogMeta
  | tableMeta (id : ℕ)
  | heap (id : ℕ)
  | indexMeta (id : ℕ)

/-- The page is for this. -/
def Uses (s : CatalogManager) : PageUse → PageId → Prop
  | .catalogMeta, q => q = catalogMetaPageId
  | .tableMeta id, q => (id, q) ∈ s.catalogMeta.tableMetaPages
  | .heap id, q => ∃ info, s.tables id = some info ∧ info.rootPageId = q
  | .indexMeta id, q => (id, q) ∈ s.catalogMeta.indexMetaPages

/-- **No page serves two purposes**, and there are enough pages in use for
every id that has been given. -/
structure PagesApart (s : CatalogManager) : Prop where
  /-- A page has one purpose. -/
  apart : Apart (Uses s) s.bufferPool.allocated
  /-- An id is in use once. -/
  nodup : s.bufferPool.allocated.Nodup
  /-- The ids in use are page ids. -/
  range : ∀ q ∈ s.bufferPool.allocated, 0 ≤ q ∧ q < 2 ^ 31
  /-- There is a page for every id given. -/
  count : s.nextTableId + s.nextIndexId + s.catalogMeta.tableMetaPages.length ≤
    s.bufferPool.allocated.length

/-- **The pages hold what the maps hold.** -/
structure Stored (s : CatalogManager) : Prop where
  /-- The directory is on its page. -/
  catalogMeta : s.bufferPool.deserialize catalogMetaPageId CatalogMeta.deserializeFrom =
    some s.catalogMeta
  /-- Every table is on its page. -/
  table : ∀ id q info, (id, q) ∈ s.catalogMeta.tableMetaPages → s.tables id = some info →
    s.bufferPool.deserialize q TableMetadata.deserializeFrom = some info.reloaded
  /-- The metadata of a table fits into a page. -/
  fits : ∀ id info, s.tables id = some info → info.getSerializedSize ≤ pageSize
  /-- Every index is on its page. -/
  index : ∀ id q info, (id, q) ∈ s.catalogMeta.indexMetaPages → s.indexes id = some info →
    s.bufferPool.deserialize q IndexMetadata.deserializeFrom = some info.metaData

/-- **Maps, pages and directory are in step.** -/
structure InStep (s : CatalogManager) : Prop where
  /-- The maps agree with the directory. -/
  listed : Listed s
  /-- No page serves two purposes. -/
  pages : PagesApart s
  /-- The directory is on its page. -/
  directory : s.bufferPool.deserialize catalogMetaPageId CatalogMeta.deserializeFrom =
    some s.catalogMeta

/-- **The invariant of the catalog.** -/
structure Sound (s : CatalogManager) : Prop where
  /-- The maps agree with the directory. -/
  listed : Listed s
  /-- No page serves two purposes. -/
  pages : PagesApart s
  /-- The pages hold what the maps hold. -/
  stored : Stored s

/-- There are not more ids than pages. -/
theorem PagesApart.next_le (h : PagesApart s) : s.nextTableId + s.nextIndexId ≤ 2 ^ 31 := by
  have hle := PageStore.length_le_of_nodup h.nodup h.range
  have hcount := h.count
  omega

/-! ## What a call does to the state -/

/-- The table is added, and the pages are these. -/
def addTable (s : CatalogManager) (p : PageStore) (info : TableMetadata) (page : PageId) :
    CatalogManager :=
  { s with
    bufferPool := p
    catalogMeta := { s.catalogMeta with
      tableMetaPages := s.catalogMeta.tableMetaPages.emplace s.nextTableId page }
    tableNames := s.tableNames.emplace info.tableName s.nextTableId
    tables := s.tables.emplace s.nextTableId info
    nextTableId := (s.nextTableId + 1) % 2 ^ 32 }

/-- The index is added under a table name, and the pages are these. -/
def addIndex (s : CatalogManager) (p : PageStore) (t : StdString) (info : IndexInfo)
    (page : PageId) : CatalogManager :=
  { s with
    bufferPool := p
    catalogMeta := { s.catalogMeta with
      indexMetaPages := s.catalogMeta.indexMetaPages.emplace s.nextIndexId page }
    indexNames := s.indexNames.emplaceIn t info.metaData.indexName s.nextIndexId
    indexes := s.indexes.emplace s.nextIndexId info
    nextIndexId := (s.nextIndexId + 1) % 2 ^ 32 }

/-- The table is removed, and the pages are these. -/
def removeTable (s : CatalogManager) (p : PageStore) (t : StdString) (id : ℕ) : CatalogManager :=
  { s with
    bufferPool := p
    catalogMeta := { s.catalogMeta with
      tableMetaPages := s.catalogMeta.tableMetaPages.erase id }
    tables := s.tables.erase id
    tableNames := s.tableNames.erase t }

/-- The index is removed, and the pages are these. -/
def removeIndex (s : CatalogManager) (p : PageStore) (t i : StdString) (id : ℕ) : CatalogManager :=
  { s with
    bufferPool := p
    catalogMeta := { s.catalogMeta with
      indexMetaPages := s.catalogMeta.indexMetaPages.erase id }
    indexes := s.indexes.erase id
    indexNames := s.indexNames.eraseIn t i }

/-! ## The maps and the directory -/

section Listed

variable {p : PageStore} {table : TableMetadata} {index : IndexInfo} {t i : StdString}
  {id : ℕ} {page : PageId}

theorem Listed.tables_next (h : Listed s) : s.tables s.nextTableId = none := by
  refine Option.eq_none_iff_forall_ne_some.mpr (fun info hinfo => ?_)
  obtain ⟨q, hq⟩ := (h.tableListed _).mpr ⟨info, hinfo⟩
  exact Nat.lt_irrefl _ (h.tablesBelow _ hq)

theorem Listed.indexes_next (h : Listed s) : s.indexes s.nextIndexId = none := by
  refine Option.eq_none_iff_forall_ne_some.mpr (fun info hinfo => ?_)
  obtain ⟨q, hq⟩ := (h.indexListed _).mpr ⟨info, hinfo⟩
  exact Nat.lt_irrefl _ (h.indexesBelow _ hq)

/-- The tables after one has been added. -/
theorem Listed.tables_addTable (h : Listed s) {info : TableMetadata} :
    (s.addTable p table page).tables id = some info ↔
      s.tables id = some info ∨ id = s.nextTableId ∧ info = table :=
  UnorderedMap.emplace_eq_some h.tables_next

/-- The directory after a table has been added. -/
theorem Listed.mem_addTable (h : Listed s) {e : ℕ × PageId} :
    e ∈ (s.addTable p table page).catalogMeta.tableMetaPages ↔
      e ∈ s.catalogMeta.tableMetaPages ∨ e = (s.nextTableId, page) := by
  show e ∈ s.catalogMeta.tableMetaPages.emplace s.nextTableId page ↔ _
  rw [OrderedMap.emplace_of_lt h.tablesBelow, List.mem_append, List.mem_singleton]

/-- The indexes after one has been added. -/
theorem Listed.indexes_addIndex (h : Listed s) {info : IndexInfo} :
    (s.addIndex p t index page).indexes id = some info ↔
      s.indexes id = some info ∨ id = s.nextIndexId ∧ info = index :=
  UnorderedMap.emplace_eq_some h.indexes_next

/-- The directory after an index has been added. -/
theorem Listed.mem_addIndex (h : Listed s) {e : ℕ × PageId} :
    e ∈ (s.addIndex p t index page).catalogMeta.indexMetaPages ↔
      e ∈ s.catalogMeta.indexMetaPages ∨ e = (s.nextIndexId, page) := by
  show e ∈ s.catalogMeta.indexMetaPages.emplace s.nextIndexId page ↔ _
  rw [OrderedMap.emplace_of_lt h.indexesBelow, List.mem_append, List.mem_singleton]

/-- Adding an entry adds it to a map and to its listing. -/
theorem listed_add {ν : Type} {l l' : OrderedMap PageId} {m m' : UnorderedMap ℕ ν} {k : ℕ} {v : ν}
    (h : ∀ id, (∃ q, (id, q) ∈ l) ↔ ∃ info, m id = some info)
    (hl : ∀ e, e ∈ l' ↔ e ∈ l ∨ e = (k, page))
    (hm : ∀ id info, m' id = some info ↔ m id = some info ∨ id = k ∧ info = v) (id : ℕ) :
    (∃ q, (id, q) ∈ l') ↔ ∃ info, m' id = some info := by
  constructor
  · rintro ⟨q, hq⟩
    rcases (hl _).mp hq with hq | hq
    · obtain ⟨info, hinfo⟩ := (h id).mp ⟨q, hq⟩
      exact ⟨info, (hm _ _).mpr (.inl hinfo)⟩
    · exact ⟨v, (hm _ _).mpr (.inr ⟨congrArg Prod.fst hq, rfl⟩)⟩
  · rintro ⟨info, hinfo⟩
    rcases (hm _ _).mp hinfo with hinfo | ⟨rfl, -⟩
    · obtain ⟨q, hq⟩ := (h id).mpr ⟨info, hinfo⟩
      exact ⟨q, (hl _).mpr (.inl hq)⟩
    · exact ⟨page, (hl _).mpr (.inr rfl)⟩

/-- Erasing a key erases it from a map and from its listing. -/
theorem listed_erase {ν : Type} {l : OrderedMap PageId} {m : UnorderedMap ℕ ν}
    (h : ∀ id, (∃ q, (id, q) ∈ l) ↔ ∃ info, m id = some info) (k id : ℕ) :
    (∃ q, (id, q) ∈ l.erase k) ↔ ∃ info, m.erase k id = some info := by
  constructor
  · rintro ⟨q, hq⟩
    obtain ⟨hq, hne⟩ := OrderedMap.mem_erase.mp hq
    obtain ⟨info, hinfo⟩ := (h id).mp ⟨q, hq⟩
    exact ⟨info, UnorderedMap.erase_eq_some.mpr ⟨hinfo, hne⟩⟩
  · rintro ⟨info, hinfo⟩
    obtain ⟨hinfo, hne⟩ := UnorderedMap.erase_eq_some.mp hinfo
    obtain ⟨q, hq⟩ := (h id).mpr ⟨info, hinfo⟩
    exact ⟨q, OrderedMap.mem_erase.mpr ⟨hq, hne⟩⟩

/-- **Adding a table** keeps maps and directory together. -/
theorem Listed.addTable (h : Listed s) (hnext : s.nextTableId + 1 < 2 ^ 32)
    (hid : table.tableId = s.nextTableId) (hname : s.tableNames table.tableName = none) :
    Listed (s.addTable p table page) := by
  have hmod : (s.addTable p table page).nextTableId = s.nextTableId + 1 := Nat.mod_eq_of_lt hnext
  exact
  { tablesSorted := by
      show OrderedMap.Sorted (s.catalogMeta.tableMetaPages.emplace s.nextTableId page)
      rw [OrderedMap.emplace_of_lt h.tablesBelow]
      exact OrderedMap.sorted_append h.tablesSorted h.tablesBelow
    indexesSorted := h.indexesSorted
    tablesBelow := fun e he => by
      rw [hmod]
      rcases h.mem_addTable.mp he with he | rfl
      · exact (h.tablesBelow e he).trans (Nat.lt_succ_self _)
      · exact Nat.lt_succ_self _
    indexesBelow := h.indexesBelow
    tableListed := listed_add h.tableListed (fun _ => h.mem_addTable) (fun _ _ => h.tables_addTable)
    indexListed := h.indexListed
    tableNamed := fun t id => by
      show s.tableNames.emplace table.tableName s.nextTableId t = some id ↔ _
      rw [UnorderedMap.emplace_eq_some hname, h.tableNamed]
      constructor
      · rintro (⟨info, hinfo, hn⟩ | ⟨rfl, rfl⟩)
        · exact ⟨info, h.tables_addTable.mpr (.inl hinfo), hn⟩
        · exact ⟨table, h.tables_addTable.mpr (.inr ⟨rfl, rfl⟩), rfl⟩
      · rintro ⟨info, hinfo, hn⟩
        rcases h.tables_addTable.mp hinfo with hinfo | ⟨rfl, rfl⟩
        · exact .inl ⟨info, hinfo, hn⟩
        · exact .inr ⟨hn.symm, rfl⟩
    indexNamed := h.indexNamed
    tableId := fun id info hinfo => by
      rcases h.tables_addTable.mp hinfo with hinfo | ⟨rfl, rfl⟩
      · exact h.tableId id info hinfo
      · exact hid
    indexId := h.indexId
    ownerBelow := fun id info hinfo => by
      rw [hmod]
      exact (h.ownerBelow id info hinfo).trans (Nat.lt_succ_self _)
    owner := fun id info t hinfo ht => by
      rcases h.tables_addTable.mp ht with ht | ⟨hnew, -⟩
      · exact h.owner id info t hinfo ht
      · exact absurd hnew (h.ownerBelow id info hinfo).ne
    keyColumns := h.keyColumns }

/-- **Adding an index** keeps maps and directory together. -/
theorem Listed.addIndex (h : Listed s) (hnext : s.nextIndexId + 1 < 2 ^ 32)
    (hid : index.metaData.indexId = s.nextIndexId)
    (htable : s.tables index.metaData.tableId = some index.tableInfo)
    (hname : index.tableInfo.tableName = t)
    (hfree : s.indexNames.findIn t index.metaData.indexName = none)
    (hinit : IndexInfo.init index.metaData index.tableInfo = some index) :
    Listed (s.addIndex p t index page) := by
  have hmod : (s.addIndex p t index page).nextIndexId = s.nextIndexId + 1 :=
    Nat.mod_eq_of_lt hnext
  exact
  { tablesSorted := h.tablesSorted
    indexesSorted := by
      show OrderedMap.Sorted (s.catalogMeta.indexMetaPages.emplace s.nextIndexId page)
      rw [OrderedMap.emplace_of_lt h.indexesBelow]
      exact OrderedMap.sorted_append h.indexesSorted h.indexesBelow
    tablesBelow := h.tablesBelow
    indexesBelow := fun e he => by
      rw [hmod]
      rcases h.mem_addIndex.mp he with he | rfl
      · exact (h.indexesBelow e he).trans (Nat.lt_succ_self _)
      · exact Nat.lt_succ_self _
    tableListed := h.tableListed
    indexListed := listed_add h.indexListed (fun _ => h.mem_addIndex)
      (fun _ _ => h.indexes_addIndex)
    tableNamed := h.tableNamed
    indexNamed := fun t' i id => by
      show (s.indexNames.emplaceIn t index.metaData.indexName s.nextIndexId).findIn t' i = _ ↔ _
      rw [UnorderedMap.findIn_emplaceIn hfree, h.indexNamed]
      constructor
      · rintro (⟨info, hinfo, hn⟩ | ⟨rfl, rfl, rfl⟩)
        · exact ⟨info, h.indexes_addIndex.mpr (.inl hinfo), hn⟩
        · exact ⟨index, h.indexes_addIndex.mpr (.inr ⟨rfl, rfl⟩), hname, rfl⟩
      · rintro ⟨info, hinfo, hn⟩
        rcases h.indexes_addIndex.mp hinfo with hinfo | ⟨rfl, rfl⟩
        · exact .inl ⟨info, hinfo, hn⟩
        · exact .inr ⟨hn.1.symm.trans hname, hn.2.symm, rfl⟩
    tableId := h.tableId
    indexId := fun id info hinfo => by
      rcases h.indexes_addIndex.mp hinfo with hinfo | ⟨rfl, rfl⟩
      · exact h.indexId id info hinfo
      · exact hid
    ownerBelow := fun id info hinfo => by
      rcases h.indexes_addIndex.mp hinfo with hinfo | ⟨rfl, rfl⟩
      · exact h.ownerBelow id info hinfo
      · obtain ⟨q, hq⟩ := (h.tableListed _).mpr ⟨_, htable⟩
        exact h.tablesBelow _ hq
    owner := fun id info t' hinfo ht => by
      rcases h.indexes_addIndex.mp hinfo with hinfo | ⟨rfl, rfl⟩
      · exact h.owner id info t' hinfo ht
      · exact Option.some.inj (htable.symm.trans ht)
    keyColumns := fun id info hinfo => by
      rcases h.indexes_addIndex.mp hinfo with hinfo | ⟨rfl, rfl⟩
      · exact h.keyColumns id info hinfo
      · exact hinit }

/-- **Removing a table** keeps maps and directory together, whatever indexes
it has. -/
theorem Listed.removeTable (h : Listed s) (hname : s.tableNames t = some id) :
    Listed (s.removeTable p t id) where
  tablesSorted := OrderedMap.sorted_erase h.tablesSorted
  indexesSorted := h.indexesSorted
  tablesBelow e he := h.tablesBelow e (OrderedMap.mem_erase.mp he).1
  indexesBelow := h.indexesBelow
  tableListed := listed_erase h.tableListed id
  indexListed := h.indexListed
  tableNamed t' id' := by
    show s.tableNames.erase t t' = some id' ↔ ∃ info, s.tables.erase id id' = some info ∧ _
    rw [UnorderedMap.erase_eq_some, h.tableNamed]
    obtain ⟨old, hold, hn⟩ := (h.tableNamed t id).mp hname
    constructor
    · rintro ⟨⟨info, hinfo, rfl⟩, hne⟩
      refine ⟨info, UnorderedMap.erase_eq_some.mpr ⟨hinfo, ?_⟩, rfl⟩
      rintro rfl
      exact hne (Option.some.inj (hinfo.symm.trans hold) ▸ hn)
    · rintro ⟨info, hinfo, hn'⟩
      obtain ⟨hinfo, hne⟩ := UnorderedMap.erase_eq_some.mp hinfo
      refine ⟨⟨info, hinfo, hn'⟩, ?_⟩
      rintro rfl
      exact hne (Option.some.inj (((h.tableNamed _ _).mpr ⟨info, hinfo, hn'⟩).symm.trans hname))
  indexNamed := h.indexNamed
  tableId id' info hinfo := h.tableId id' info (UnorderedMap.erase_eq_some.mp hinfo).1
  indexId := h.indexId
  ownerBelow := h.ownerBelow
  owner id' info t' hinfo ht := h.owner id' info t' hinfo (UnorderedMap.erase_eq_some.mp ht).1
  keyColumns := h.keyColumns

/-- **Removing an index** keeps maps and directory together. -/
theorem Listed.removeIndex (h : Listed s) (hname : s.indexNames.findIn t i = some id) :
    Listed (s.removeIndex p t i id) where
  tablesSorted := h.tablesSorted
  indexesSorted := OrderedMap.sorted_erase h.indexesSorted
  tablesBelow := h.tablesBelow
  indexesBelow e he := h.indexesBelow e (OrderedMap.mem_erase.mp he).1
  tableListed := h.tableListed
  indexListed := listed_erase h.indexListed id
  tableNamed := h.tableNamed
  indexNamed t' i' id' := by
    show (s.indexNames.eraseIn t i).findIn t' i' = some id' ↔
      ∃ info, s.indexes.erase id id' = some info ∧ _
    rw [UnorderedMap.findIn_eraseIn, h.indexNamed]
    obtain ⟨old, hold, hn⟩ := (h.indexNamed t i id).mp hname
    constructor
    · rintro ⟨⟨info, hinfo, rfl, rfl⟩, hne⟩
      refine ⟨info, UnorderedMap.erase_eq_some.mpr ⟨hinfo, ?_⟩, rfl, rfl⟩
      rintro rfl
      exact hne (Option.some.inj (hinfo.symm.trans hold) ▸ hn)
    · rintro ⟨info, hinfo, hn'⟩
      obtain ⟨hinfo, hne⟩ := UnorderedMap.erase_eq_some.mp hinfo
      refine ⟨⟨info, hinfo, hn'⟩, ?_⟩
      rintro ⟨rfl, rfl⟩
      exact hne (Option.some.inj (((h.indexNamed _ _ _).mpr ⟨info, hinfo, hn'⟩).symm.trans hname))
  tableId := h.tableId
  indexId id' info hinfo := h.indexId id' info (UnorderedMap.erase_eq_some.mp hinfo).1
  ownerBelow id' info hinfo := h.ownerBelow id' info (UnorderedMap.erase_eq_some.mp hinfo).1
  owner id' info t' hinfo ht := h.owner id' info t' (UnorderedMap.erase_eq_some.mp hinfo).1 ht
  keyColumns id' info hinfo := h.keyColumns id' info (UnorderedMap.erase_eq_some.mp hinfo).1

end Listed

/-! ## The purposes of the pages -/

section Pages

variable {p : PageStore} {table : TableMetadata} {index : IndexInfo} {t i : StdString}
  {id : ℕ} {page : PageId}

theorem PagesApart.addTable (h : PagesApart s) (hl : Listed s)
    (hnext : s.nextTableId + 1 < 2 ^ 32)
    (hroot : table.rootPageId ∉ s.bufferPool.allocated ∧ 0 ≤ table.rootPageId ∧
      table.rootPageId < 2 ^ 31)
    (hpage : page ∉ table.rootPageId :: s.bufferPool.allocated ∧ 0 ≤ page ∧ page < 2 ^ 31)
    (hp : p.allocated = page :: table.rootPageId :: s.bufferPool.allocated) :
    PagesApart (s.addTable p table page) where
  apart := by
    show Apart _ p.allocated
    rw [hp]
    refine ((h.apart.add hroot.1 (.heap s.nextTableId)).add hpage.1
      (.tableMeta s.nextTableId)).mono (fun u q hu => ?_)
    cases u with
    | catalogMeta => exact .inl (.inl hu)
    | tableMeta id =>
      rcases hl.mem_addTable.mp hu with hu | hu
      · exact .inl (.inl hu)
      · cases hu
        exact .inr ⟨rfl, rfl⟩
    | heap id =>
      obtain ⟨info, hinfo, rfl⟩ := hu
      rcases hl.tables_addTable.mp hinfo with hinfo | ⟨rfl, rfl⟩
      · exact .inl (.inl ⟨info, hinfo, rfl⟩)
      · exact .inl (.inr ⟨rfl, rfl⟩)
    | indexMeta id => exact .inl (.inl hu)
  nodup := by
    show p.allocated.Nodup
    rw [hp]
    exact List.nodup_cons.mpr ⟨hpage.1, List.nodup_cons.mpr ⟨hroot.1, h.nodup⟩⟩
  range q hq := by
    rcases List.mem_cons.mp (hp ▸ hq : q ∈ page :: table.rootPageId :: _) with rfl | hq
    · exact hpage.2
    · rcases List.mem_cons.mp hq with rfl | hq
      · exact hroot.2
      · exact h.range q hq
  count := by
    have hcount := h.count
    show (s.nextTableId + 1) % 2 ^ 32 + s.nextIndexId +
      (s.catalogMeta.tableMetaPages.emplace s.nextTableId page).length ≤ p.allocated.length
    rw [hp, OrderedMap.emplace_of_lt hl.tablesBelow, Nat.mod_eq_of_lt hnext]
    simp only [List.length_append, List.length_cons, List.length_nil]
    omega

theorem PagesApart.addIndex (h : PagesApart s) (hl : Listed s)
    (hnext : s.nextIndexId + 1 < 2 ^ 32)
    (hpage : page ∉ s.bufferPool.allocated ∧ 0 ≤ page ∧ page < 2 ^ 31)
    (hp : p.allocated = page :: s.bufferPool.allocated) :
    PagesApart (s.addIndex p t index page) where
  apart := by
    show Apart _ p.allocated
    rw [hp]
    refine (h.apart.add hpage.1 (.indexMeta s.nextIndexId)).mono (fun u q hu => ?_)
    cases u with
    | indexMeta id =>
      rcases hl.mem_addIndex.mp hu with hu | hu
      · exact .inl hu
      · cases hu
        exact .inr ⟨rfl, rfl⟩
    | _ => exact .inl hu
  nodup := by
    show p.allocated.Nodup
    rw [hp]
    exact List.nodup_cons.mpr ⟨hpage.1, h.nodup⟩
  range q hq := by
    rcases List.mem_cons.mp (hp ▸ hq : q ∈ page :: _) with rfl | hq
    · exact hpage.2
    · exact h.range q hq
  count := by
    have hcount := h.count
    show s.nextTableId + (s.nextIndexId + 1) % 2 ^ 32 + s.catalogMeta.tableMetaPages.length ≤
      p.allocated.length
    rw [hp, Nat.mod_eq_of_lt hnext, List.length_cons]
    omega

theorem PagesApart.removeTable (h : PagesApart s) (hl : Listed s)
    (htable : s.tables id = some table)
    (hp : p.allocated = s.bufferPool.allocated.erase table.rootPageId) :
    PagesApart (s.removeTable p t id) where
  apart := by
    show Apart _ p.allocated
    rw [hp]
    have hheap : Uses s (.heap id) table.rootPageId := ⟨table, htable, rfl⟩
    refine (h.apart.release hheap).mono (fun u q hu => ?_)
    cases u with
    | catalogMeta => exact ⟨hu, PageUse.noConfusion⟩
    | tableMeta id' => exact ⟨(OrderedMap.mem_erase.mp hu).1, PageUse.noConfusion⟩
    | heap id' =>
      obtain ⟨info, hinfo, hq⟩ := hu
      obtain ⟨hinfo, hne⟩ := UnorderedMap.erase_eq_some.mp hinfo
      exact ⟨⟨info, hinfo, hq⟩, fun heq => hne (PageUse.heap.inj heq)⟩
    | indexMeta id' => exact ⟨hu, PageUse.noConfusion⟩
  nodup := by
    show p.allocated.Nodup
    rw [hp]
    exact h.nodup.erase _
  range q hq := h.range q (List.mem_of_mem_erase (hp ▸ hq))
  count := by
    have hcount := h.count
    obtain ⟨q, hq⟩ := (hl.tableListed id).mpr ⟨table, htable⟩
    have hmem : table.rootPageId ∈ s.bufferPool.allocated :=
      h.apart.inUse (.heap id) _ ⟨table, htable, rfl⟩
    have hlen := List.length_erase_of_mem hmem
    have hless : (s.catalogMeta.tableMetaPages.erase id).length <
        s.catalogMeta.tableMetaPages.length :=
      List.length_filter_lt_length_iff_exists.mpr ⟨(id, q), hq, by simp⟩
    show s.nextTableId + s.nextIndexId + (s.catalogMeta.tableMetaPages.erase id).length ≤
      p.allocated.length
    rw [hp, hlen]
    omega

theorem PagesApart.removeIndex (h : PagesApart s) (hp : p.allocated = s.bufferPool.allocated) :
    PagesApart (s.removeIndex p t i id) where
  apart := by
    show Apart _ p.allocated
    rw [hp]
    refine h.apart.mono (fun u q hu => ?_)
    cases u with
    | indexMeta id' => exact (OrderedMap.mem_erase.mp hu).1
    | _ => exact hu
  nodup := hp ▸ h.nodup
  range q hq := h.range q (hp ▸ hq)
  count := by
    show s.nextTableId + s.nextIndexId + s.catalogMeta.tableMetaPages.length ≤ p.allocated.length
    rw [hp]
    exact h.count

end Pages

/-! ## The bytes of the pages -/

/-- The directory of a catalog whose ids and pages are in order can be
stored. -/
theorem Listed.entryFits (h : Listed s) (hp : PagesApart s) :
    (∀ e ∈ s.catalogMeta.tableMetaPages, CatalogMeta.EntryFits e) ∧
      ∀ e ∈ s.catalogMeta.indexMetaPages, CatalogMeta.EntryFits e := by
  have hnext := hp.next_le
  have hpage : ∀ q ∈ s.bufferPool.allocated, -2 ^ 31 ≤ q ∧ q < 2 ^ 31 := fun q hq =>
    ⟨le_trans (by decide) (hp.range q hq).1, (hp.range q hq).2⟩
  refine ⟨fun e he => ⟨?_, hpage _ (hp.apart.inUse (.tableMeta e.1) _ he)⟩,
    fun e he => ⟨?_, hpage _ (hp.apart.inUse (.indexMeta e.1) _ he)⟩⟩
  · have hlt := h.tablesBelow e he
    omega
  · have hlt := h.indexesBelow e he
    omega

/-- A catalog whose maps and pages are in order is in step once the directory
has been written. -/
theorem InStep.of_writeCatalogMeta {p : PageStore} (h : Listed s) (hp : PagesApart s)
    (hwrite : writeCatalogMeta p s.catalogMeta = some s.bufferPool) : InStep s where
  listed := h
  pages := hp
  directory := by
    obtain ⟨hsize, -, -⟩ := PageStore.serialize_eq_some (CatalogMeta.moves _) hwrite
    exact PageStore.deserialize_serialize (CatalogMeta.readsBack hsize h.tablesSorted
      h.indexesSorted (h.entryFits hp).1 (h.entryFits hp).2) hwrite

/-- Where the tables and indexes are on their pages, writing the directory
stores the whole catalog. -/
theorem InStep.stored {p : PageStore} (h : InStep s)
    (hwrite : writeCatalogMeta p s.catalogMeta = some s.bufferPool)
    (htable : ∀ id q info, (id, q) ∈ s.catalogMeta.tableMetaPages → s.tables id = some info →
      p.deserialize q TableMetadata.deserializeFrom = some info.reloaded)
    (hfits : ∀ id info, s.tables id = some info → info.getSerializedSize ≤ pageSize)
    (hindex : ∀ id q info, (id, q) ∈ s.catalogMeta.indexMetaPages → s.indexes id = some info →
      p.deserialize q IndexMetadata.deserializeFrom = some info.metaData) : Stored s := by
  obtain ⟨-, -, hdata⟩ := PageStore.serialize_eq_some (CatalogMeta.moves _) hwrite
  refine ⟨h.directory, fun id q info hq hinfo => ?_, hfits, fun id q info hq hinfo => ?_⟩
  · rw [PageStore.deserialize_congr (hdata q ?_)]
    · exact htable id q info hq hinfo
    · intro h0
      exact PageUse.noConfusion (h.pages.apart.one .catalogMeta (.tableMeta id) q h0 hq)
  · rw [PageStore.deserialize_congr (hdata q ?_)]
    · exact hindex id q info hq hinfo
    · intro h0
      exact PageUse.noConfusion (h.pages.apart.one .catalogMeta (.indexMeta id) q h0 hq)

/-! ## The calls -/

/-- The names in the call have no zero byte in them. -/
def Call.NulFree : Call → Prop
  | .createTable t schema _ _ => (0 : UInt8) ∉ t ∧ schema.NulFree
  | .createIndex _ i _ _ => (0 : UInt8) ∉ i
  | .dropTable _ => True
  | .dropIndex _ _ => True

theorem inStep_create : InStep create where
  listed :=
  { tablesSorted := List.Pairwise.nil
    indexesSorted := List.Pairwise.nil
    tablesBelow := fun _ he => absurd he List.not_mem_nil
    indexesBelow := fun _ he => absurd he List.not_mem_nil
    tableListed := fun _ => ⟨fun ⟨_, hq⟩ => absurd hq List.not_mem_nil, nofun⟩
    indexListed := fun _ => ⟨fun ⟨_, hq⟩ => absurd hq List.not_mem_nil, nofun⟩
    tableNamed := fun _ _ => ⟨nofun, nofun⟩
    indexNamed := fun _ _ _ => ⟨nofun, nofun⟩
    tableId := nofun
    indexId := nofun
    ownerBelow := nofun
    owner := nofun
    keyColumns := nofun }
  pages :=
  { apart :=
    { inUse := fun u q hu => by
        cases u with
        | catalogMeta => exact List.mem_cons.mpr (.inl hu)
        | tableMeta id => exact absurd hu List.not_mem_nil
        | heap id => exact absurd hu.choose_spec.1 nofun
        | indexMeta id => exact absurd hu List.not_mem_nil
      one := fun u u' q hu hu' => by
        have honly : ∀ v, Uses create v q → v = .catalogMeta := fun v hv => by
          cases v with
          | catalogMeta => rfl
          | tableMeta id => exact absurd hv List.not_mem_nil
          | heap id => exact absurd hv.choose_spec.1 nofun
          | indexMeta id => exact absurd hv List.not_mem_nil
        rw [honly u hu, honly u' hu'] }
    nodup := by decide
    range := by decide
    count := by decide }
  directory := rfl

theorem sound_create : Sound create where
  listed := inStep_create.listed
  pages := inStep_create.pages
  stored :=
  { catalogMeta := rfl
    table := fun _ _ _ hq => absurd hq List.not_mem_nil
    fits := nofun
    index := fun _ _ _ hq => absurd hq List.not_mem_nil }

/-- A sound catalog is in step. -/
theorem Sound.inStep (h : Sound s) : InStep s := ⟨h.listed, h.pages, h.stored.catalogMeta⟩

section Calls

variable {o : DBErr} {t i : StdString} {schema : Schema} {heap page : PageId}
  {keys : List StdString}

/-- What `CreateTable` can do: refuse, or two new pages and a new table. -/
theorem createTable_cases (h : s.createTable t schema heap page = some (s', o)) :
    s' = s ∧ o ≠ .dbSuccess ∨ o = .dbSuccess ∧ ∃ p₁ p₂ p₃ p₄, s.tableNames t = none ∧
      s.bufferPool.newPage heap = some p₁ ∧ p₁.newPage page = some p₂ ∧
      p₂.serialize page (TableMetadata.serializeTo ⟨s.nextTableId, t, heap, schema⟩) = some p₃ ∧
      writeCatalogMeta p₃ s'.catalogMeta = some p₄ ∧
      s' = s.addTable p₄ ⟨s.nextTableId, t, heap, schema⟩ page := by
  unfold createTable at h
  split at h
  · cases h
    exact .inl ⟨rfl, nofun⟩
  · rename_i hname
    simp only [Option.bind_eq_bind, Option.bind_eq_some_iff] at h
    obtain ⟨p₁, h₁, p₂, h₂, p₃, h₃, p₄, h₄, h⟩ := h
    cases h
    exact .inr ⟨rfl, p₁, p₂, p₃, p₄, Option.not_isSome_iff_eq_none.mp hname, h₁, h₂, h₃, h₄, rfl⟩

/-- What `CreateIndex` can do: refuse, or a new page and a new index. -/
theorem createIndex_cases (h : s.createIndex t i keys page = some (s', o)) :
    s' = s ∧ o ≠ .dbSuccess ∨ o = .dbSuccess ∧ ∃ tableId table keyCols index p₁ p₂ p₃,
      s.tableNames t = some tableId ∧ s.tables tableId = some table ∧
      keyMap table.schema.columns keys = some keyCols ∧
      s.indexNames.findIn t i = none ∧
      IndexInfo.init ⟨s.nextIndexId, i, tableId, keyCols⟩ table = some index ∧
      s.bufferPool.newPage page = some p₁ ∧
      p₁.serialize page (IndexMetadata.serializeTo ⟨s.nextIndexId, i, tableId, keyCols⟩) =
        some p₂ ∧
      writeCatalogMeta p₂ s'.catalogMeta = some p₃ ∧ s' = s.addIndex p₃ t index page := by
  unfold createIndex at h
  split at h
  · cases h
    exact .inl ⟨rfl, nofun⟩
  · rename_i tableId hid
    simp only [Option.bind_eq_bind, Option.bind_eq_some_iff] at h
    obtain ⟨table, htable, h⟩ := h
    split at h
    · cases h
      exact .inl ⟨rfl, nofun⟩
    · rename_i keyCols hkeys
      split at h
      · cases h
        exact .inl ⟨rfl, nofun⟩
      · rename_i hfree
        simp only [Option.bind_eq_some_iff] at h
        obtain ⟨index, hindex, p₁, h₁, p₂, h₂, p₃, h₃, h⟩ := h
        have hname : index.metaData.indexName = i := by
          rw [(IndexInfo.init_eq_some hindex).1]
        cases h
        refine .inr ⟨rfl, tableId, table, keyCols, index, p₁, p₂, p₃, hid, htable, hkeys, ?_,
          hindex, h₁, h₂, h₃, ?_⟩
        · exact UnorderedMap.getD_eq_findIn.symm.trans (Option.not_isSome_iff_eq_none.mp hfree)
        · subst hname
          rfl

/-- What `DropTable` can do: refuse, or the table is gone and its heap page
is given back. -/
theorem dropTable_cases (h : s.dropTable t = some (s', o)) :
    s' = s ∧ o ≠ .dbSuccess ∨ o = .dbSuccess ∧ ∃ id table p, s.tableNames t = some id ∧
      s.tables id = some table ∧
      writeCatalogMeta (s.bufferPool.deletePage table.rootPageId) s'.catalogMeta = some p ∧
      s' = s.removeTable p t id := by
  unfold dropTable at h
  split at h
  · cases h
    exact .inl ⟨rfl, nofun⟩
  · rename_i id hid
    simp only [Option.bind_eq_bind, Option.bind_eq_some_iff] at h
    obtain ⟨table, htable, p, hp, h⟩ := h
    cases h
    exact .inr ⟨rfl, id, table, p, hid, htable, hp, rfl⟩

/-- What `DropIndex` can do: refuse, or the index is gone. -/
theorem dropIndex_cases (h : s.dropIndex t i = some (s', o)) :
    s' = s ∧ o ≠ .dbSuccess ∨ o = .dbSuccess ∧ ∃ id p, s.indexNames.findIn t i = some id ∧
      writeCatalogMeta s.bufferPool s'.catalogMeta = some p ∧ s' = s.removeIndex p t i id := by
  unfold dropIndex at h
  split at h
  · cases h
    exact .inl ⟨rfl, nofun⟩
  · rename_i inner hinner
    split at h
    · cases h
      exact .inl ⟨rfl, nofun⟩
    · rename_i id hid
      simp only [Option.bind_eq_bind, Option.bind_eq_some_iff] at h
      obtain ⟨_, -, p, hp, h⟩ := h
      cases h
      refine .inr ⟨rfl, id, p, ?_, hp, ?_⟩
      · rw [UnorderedMap.findIn, hinner]
        exact hid
      · rw [removeIndex, UnorderedMap.eraseIn, hinner]
        rfl

/-! ### Calls keep maps, pages and directory in step -/

theorem InStep.createTable (h : InStep s) (hs : s.createTable t schema heap page = some (s', o)) :
    InStep s' := by
  rcases createTable_cases hs with ⟨rfl, -⟩ | ⟨-, p₁, p₂, p₃, p₄, hname, h₁, h₂, h₃, h₄, hs'⟩
  · exact h
  have hnext := h.pages.next_le
  obtain ⟨hheap, ha₁, -⟩ := PageStore.newPage_eq_some h₁
  obtain ⟨hpage, ha₂, -⟩ := PageStore.newPage_eq_some h₂
  obtain ⟨-, ha₃, -⟩ := PageStore.serialize_eq_some (TableMetadata.moves _) h₃
  obtain ⟨-, ha₄, -⟩ := PageStore.serialize_eq_some (CatalogMeta.moves _) h₄
  rw [ha₁] at hpage
  rw [ha₃, ha₂, ha₁] at ha₄
  have hlisted : Listed s' := hs' ▸ h.listed.addTable (by omega) rfl hname
  have hpages : PagesApart s' := hs' ▸ h.pages.addTable h.listed (by omega) hheap hpage ha₄
  refine .of_writeCatalogMeta (p := p₃) hlisted hpages ?_
  rw [h₄, hs']
  rfl

theorem InStep.createIndex (h : InStep s) (hs : s.createIndex t i keys page = some (s', o)) :
    InStep s' := by
  rcases createIndex_cases hs with ⟨rfl, -⟩ |
    ⟨-, tableId, table, _, index, p₁, p₂, p₃, hid, htable, -, hfree, hinit, h₁, h₂, h₃, hs'⟩
  · exact h
  have hnext := h.pages.next_le
  obtain ⟨hmeta, hinfo⟩ := IndexInfo.init_eq_some hinit
  obtain ⟨hpage, ha₁, -⟩ := PageStore.newPage_eq_some h₁
  obtain ⟨-, ha₂, -⟩ := PageStore.serialize_eq_some (IndexMetadata.moves _) h₂
  obtain ⟨-, ha₃, -⟩ := PageStore.serialize_eq_some (CatalogMeta.moves _) h₃
  rw [ha₂, ha₁] at ha₃
  have hname : index.tableInfo.tableName = t := by
    obtain ⟨info, htinfo, rfl⟩ := (h.listed.tableNamed t tableId).mp hid
    rw [hinfo, Option.some.inj (htable.symm.trans htinfo)]
  have hlisted : Listed s' := hs' ▸ h.listed.addIndex (by omega) (by rw [hmeta])
    (by rw [hmeta, hinfo]; exact htable) hname (by rw [hmeta]; exact hfree)
    (by rw [hmeta, hinfo]; exact hinit)
  have hpages : PagesApart s' := hs' ▸ h.pages.addIndex h.listed (by omega) hpage ha₃
  refine .of_writeCatalogMeta (p := p₂) hlisted hpages ?_
  rw [h₃, hs']
  rfl

theorem InStep.dropTable (h : InStep s) (hs : s.dropTable t = some (s', o)) : InStep s' := by
  rcases dropTable_cases hs with ⟨rfl, -⟩ | ⟨-, id, table, p, hid, htable, hp, hs'⟩
  · exact h
  obtain ⟨-, ha, -⟩ := PageStore.serialize_eq_some (CatalogMeta.moves _) hp
  have hlisted : Listed s' := hs' ▸ h.listed.removeTable hid
  have hpages : PagesApart s' := hs' ▸ h.pages.removeTable h.listed htable ha
  refine .of_writeCatalogMeta (p := s.bufferPool.deletePage table.rootPageId) hlisted hpages ?_
  rw [hp, hs']
  rfl

theorem InStep.dropIndex (h : InStep s) (hs : s.dropIndex t i = some (s', o)) : InStep s' := by
  rcases dropIndex_cases hs with ⟨rfl, -⟩ | ⟨-, id, p, hid, hp, hs'⟩
  · exact h
  obtain ⟨-, ha, -⟩ := PageStore.serialize_eq_some (CatalogMeta.moves _) hp
  have hlisted : Listed s' := hs' ▸ h.listed.removeIndex hid
  have hpages : PagesApart s' := hs' ▸ h.pages.removeIndex ha
  refine .of_writeCatalogMeta (p := s.bufferPool) hlisted hpages ?_
  rw [hp, hs']
  rfl

/-! ### Calls keep tables and indexes on their pages -/

theorem Sound.createTable (h : Sound s) (hnul : (0 : UInt8) ∉ t ∧ schema.NulFree)
    (hs : s.createTable t schema heap page = some (s', o)) : Sound s' := by
  have hin := h.inStep.createTable hs
  rcases createTable_cases hs with ⟨rfl, -⟩ | ⟨-, p₁, p₂, p₃, p₄, hname, h₁, h₂, h₃, h₄, hs'⟩
  · exact h
  have hnext := h.pages.next_le
  obtain ⟨hheap, ha₁, hd₁⟩ := PageStore.newPage_eq_some h₁
  obtain ⟨hpage, -, hd₂⟩ := PageStore.newPage_eq_some h₂
  obtain ⟨hfit, -, hd₃⟩ := PageStore.serialize_eq_some (TableMetadata.moves _) h₃
  rw [ha₁] at hpage
  -- The page of the new table reads back, and the other pages are as they were.
  have hback := TableMetadata.readsBack (TableMetadata.sizeFits hfit)
    (show s.nextTableId < 2 ^ 32 by omega) ⟨le_trans (by decide) hheap.2.1, hheap.2.2⟩ hnul.1 hnul.2
  have hkept : ∀ u q, Uses s u q → p₃.data q = s.bufferPool.data q := fun u q hu => by
    have hq := h.pages.apart.inUse u q hu
    have hne : q ≠ page := fun hqp => hpage.1 (List.mem_cons_of_mem _ (hqp ▸ hq))
    rw [hd₃ q hne, hd₂ q hne, hd₁ q (fun hqh => hheap.1 (hqh ▸ hq))]
  have hwrite : writeCatalogMeta p₃ s'.catalogMeta = some s'.bufferPool := by
    rw [h₄, hs']
    rfl
  refine ⟨hin.listed, hin.pages, hin.stored hwrite ?_ ?_ ?_⟩
  · intro id q info hq hinfo
    rw [hs'] at hq hinfo
    rcases h.listed.mem_addTable.mp hq with hq | hq
    · rcases h.listed.tables_addTable.mp hinfo with hinfo | ⟨rfl, -⟩
      · rw [PageStore.deserialize_congr (hkept (.tableMeta id) q hq)]
        exact h.stored.table id q info hq hinfo
      · exact absurd (h.listed.tablesBelow _ hq) (Nat.lt_irrefl _)
    · cases hq
      rcases h.listed.tables_addTable.mp hinfo with hinfo | ⟨-, rfl⟩
      · exact absurd (h.listed.tables_next.symm.trans hinfo) nofun
      · exact PageStore.deserialize_serialize hback h₃
  · intro id info hinfo
    rw [hs'] at hinfo
    rcases h.listed.tables_addTable.mp hinfo with hinfo | ⟨-, rfl⟩
    · exact h.stored.fits id info hinfo
    · exact hfit
  · intro id q info hq hinfo
    rw [hs'] at hq hinfo
    rw [PageStore.deserialize_congr (hkept (.indexMeta id) q hq)]
    exact h.stored.index id q info hq hinfo

theorem Sound.createIndex (h : Sound s) (hnul : (0 : UInt8) ∉ i)
    (hs : s.createIndex t i keys page = some (s', o)) : Sound s' := by
  have hin := h.inStep.createIndex hs
  rcases createIndex_cases hs with ⟨rfl, -⟩ |
    ⟨-, tableId, table, keyCols, index, p₁, p₂, p₃, -, htable, hkeys, -, hinit, h₁, h₂, h₃, hs'⟩
  · exact h
  have hnext := h.pages.next_le
  obtain ⟨hmeta, -⟩ := IndexInfo.init_eq_some hinit
  obtain ⟨hpage, -, hd₁⟩ := PageStore.newPage_eq_some h₁
  obtain ⟨hfit, -, hd₂⟩ := PageStore.serialize_eq_some (IndexMetadata.moves _) h₂
  -- The page of the new index reads back: its key columns are those of a stored table.
  have hbelow : tableId < s.nextTableId := by
    obtain ⟨q, hq⟩ := (h.listed.tableListed tableId).mpr ⟨table, htable⟩
    exact h.listed.tablesBelow _ hq
  have hkey : ∀ k ∈ keyCols, k < 2 ^ 32 := fun k hk => by
    have hlen := table.schema.length_columns_le.trans
      ((Nat.le_add_left _ _).trans (h.stored.fits tableId table htable))
    exact ((keyMap_lt hkeys k hk).trans_le hlen).trans (by decide)
  have hback := IndexMetadata.readsBack hfit (show s.nextIndexId < 2 ^ 32 by omega)
    (show tableId < 2 ^ 32 by omega) hkey hnul
  have hkept : ∀ u q, Uses s u q → p₂.data q = s.bufferPool.data q := fun u q hu => by
    have hne : q ≠ page := fun hqp => hpage.1 (hqp ▸ h.pages.apart.inUse u q hu)
    rw [hd₂ q hne, hd₁ q hne]
  have hwrite : writeCatalogMeta p₂ s'.catalogMeta = some s'.bufferPool := by
    rw [h₃, hs']
    rfl
  refine ⟨hin.listed, hin.pages, hin.stored hwrite ?_ ?_ ?_⟩
  · intro id q info hq hinfo
    rw [hs'] at hq hinfo
    rw [PageStore.deserialize_congr (hkept (.tableMeta id) q hq)]
    exact h.stored.table id q info hq hinfo
  · intro id info hinfo
    rw [hs'] at hinfo
    exact h.stored.fits id info hinfo
  · intro id q info hq hinfo
    rw [hs'] at hq hinfo
    rcases h.listed.mem_addIndex.mp hq with hq | hq
    · rcases h.listed.indexes_addIndex.mp hinfo with hinfo | ⟨rfl, -⟩
      · rw [PageStore.deserialize_congr (hkept (.indexMeta id) q hq)]
        exact h.stored.index id q info hq hinfo
      · exact absurd (h.listed.indexesBelow _ hq) (Nat.lt_irrefl _)
    · cases hq
      rcases h.listed.indexes_addIndex.mp hinfo with hinfo | ⟨-, rfl⟩
      · exact absurd (h.listed.indexes_next.symm.trans hinfo) nofun
      · rw [hmeta]
        exact PageStore.deserialize_serialize hback h₂

theorem Sound.dropTable (h : Sound s) (hs : s.dropTable t = some (s', o)) : Sound s' := by
  have hin := h.inStep.dropTable hs
  rcases dropTable_cases hs with ⟨rfl, -⟩ | ⟨-, id, table, p, -, -, hp, hs'⟩
  · exact h
  have hwrite : writeCatalogMeta (s.bufferPool.deletePage table.rootPageId) s'.catalogMeta =
      some s'.bufferPool := by
    rw [hp, hs']
    rfl
  refine ⟨hin.listed, hin.pages, hin.stored hwrite ?_ ?_ ?_⟩
  · intro id' q info hq hinfo
    rw [hs'] at hq hinfo
    exact h.stored.table id' q info (OrderedMap.mem_erase.mp hq).1
      (UnorderedMap.erase_eq_some.mp hinfo).1
  · intro id' info hinfo
    rw [hs'] at hinfo
    exact h.stored.fits id' info (UnorderedMap.erase_eq_some.mp hinfo).1
  · intro id' q info hq hinfo
    rw [hs'] at hq hinfo
    exact h.stored.index id' q info hq hinfo

theorem Sound.dropIndex (h : Sound s) (hs : s.dropIndex t i = some (s', o)) : Sound s' := by
  have hin := h.inStep.dropIndex hs
  rcases dropIndex_cases hs with ⟨rfl, -⟩ | ⟨-, id, p, -, hp, hs'⟩
  · exact h
  have hwrite : writeCatalogMeta s.bufferPool s'.catalogMeta = some s'.bufferPool := by
    rw [hp, hs']
    rfl
  refine ⟨hin.listed, hin.pages, hin.stored hwrite ?_ ?_ ?_⟩
  · intro id' q info hq hinfo
    rw [hs'] at hq hinfo
    exact h.stored.table id' q info hq hinfo
  · intro id' info hinfo
    rw [hs'] at hinfo
    exact h.stored.fits id' info hinfo
  · intro id' q info hq hinfo
    rw [hs'] at hq hinfo
    exact h.stored.index id' q info (OrderedMap.mem_erase.mp hq).1
      (UnorderedMap.erase_eq_some.mp hinfo).1

end Calls

/-- **Every call keeps the catalog in step.** -/
theorem InStep.of_step {c : Call} {o : DBErr} (h : InStep s) (hs : s.step c = some (s', o)) :
    InStep s' := by
  cases c with
  | createTable t schema heap page => exact h.createTable hs
  | createIndex t i keys page => exact h.createIndex hs
  | dropTable t => exact h.dropTable hs
  | dropIndex t i => exact h.dropIndex hs

/-- **Every call keeps the invariant.** -/
theorem Sound.of_step {c : Call} {o : DBErr} (h : Sound s) (hnul : c.NulFree)
    (hs : s.step c = some (s', o)) : Sound s' := by
  cases c with
  | createTable t schema heap page => exact h.createTable hnul hs
  | createIndex t i keys page => exact h.createIndex hnul hs
  | dropTable t => exact h.dropTable hs
  | dropIndex t i => exact h.dropIndex hs

end CatalogManager

end MiniSql
