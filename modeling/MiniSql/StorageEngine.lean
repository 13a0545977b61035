import MiniSql.BPlusTreePoolRuns
import MiniSql.CatalogSound

/-!
# The storage engine and its indexes

`DBStorageEngine` with the trees of its indexes: the catalog, the page of the
index roots and the pages of all trees, over one store of pages. Making an index
asks page 1 for the root of its tree, a call of an index changes its tree, and
closing and opening the engine again keeps the pages and makes everything else
anew. `DropIndex` leaves page 1 as it is.

`CatalogManager` with `init = false` does not set `next_index_id_` unless it
loads an index, and then sets it by the last index of the directory. So whether
a new index gets an id of its own depends on what has become of the directory
since the roots were recorded (`startsEmpty_of_coversRecorded`).
-/

namespace MiniSql

open Serial Program Family

/-- `DBStorageEngine`, with the trees of the indexes. -/
structure StorageEngine (K V : Type) where
  /-- `catalog_mgr_`, and the ids of all pages in use. -/
  catalog : CatalogManager
  /-- Whether `next_index_id_` of the catalog has been given a value. -/
  nextIndexIdSet : Bool
  /-- The page of the index roots. -/
  indexRoots : IndexRootsPage
  /-- The pages of the trees. -/
  treePages : PageId → Option (BPlusTreePage K V)
  /-- `root_page_id_` of the tree of each index. -/
  rootPageIds : ℕ → PageId

namespace StorageEngine

variable {K V : Type}

/-- The constructor with `init = true`. -/
def create : StorageEngine K V where
  catalog := .create
  nextIndexIdSet := true
  indexRoots := ⟨[]⟩
  treePages _ := none
  rootPageIds _ := invalidPageId

/-- The tree with this root. -/
def tree (s : StorageEngine K V) (root : PageId) : BPlusTree K V :=
  ⟨root, s.treePages, s.catalog.bufferPool.allocated⟩

/-- The tree of an index. -/
def treeOf (s : StorageEngine K V) (indexId : ℕ) : BPlusTree K V := s.tree (s.rootPageIds indexId)

/-- What is done with the engine: the calls of the catalog, with the ids that
`NewPage` gives, a call of an index, with the order of its keys, and closing and
opening again, with what the two counters of the catalog hold before they are
set. -/
inductive Call (K V : Type)
  | createTable (tableName : StdString) (schema : Schema) (heapPageId tableMetaPageId : PageId)
  | createIndex (tableName indexName : StdString) (indexKeys : List StdString) (pageId : PageId)
  | dropIndex (tableName indexName : StdString)
  | index (tableName indexName : StdString) (comparator : LinearOrder K) (env : TreeEnv K V)
      (call : PooledCall K V)
  | reopen (unset : UInt32 × UInt32)

/-- The answers. -/
inductive Answer (V : Type)
  | catalog (e : DBErr)
  | index (a : PooledAnswer V)
  | reopened
deriving DecidableEq

/-- `CatalogManager::CreateTable`. -/
def createTable (s : StorageEngine K V) (tableName : StdString) (schema : Schema)
    (heapPageId tableMetaPageId : PageId) : Option (StorageEngine K V × Answer V) := do
  let (catalog, e) ← s.catalog.createTable tableName schema heapPageId tableMetaPageId
  return ({ s with catalog := catalog }, .catalog e)

/-- `CatalogManager::CreateIndex`. The constructor of `BPlusTreeIndex` takes the
root of the tree from page 1. -/
def createIndex (s : StorageEngine K V) (tableName indexName : StdString)
    (indexKeys : List StdString) (pageId : PageId) : Option (StorageEngine K V × Answer V) := do
  let (catalog, e) ← s.catalog.createIndex tableName indexName indexKeys pageId
  let indexId := s.catalog.nextIndexId
  return ({ s with
    catalog := catalog
    rootPageIds :=
      if e = .dbSuccess then
        Function.update s.rootPageIds indexId (s.indexRoots.getRootId indexId).2
      else s.rootPageIds }, .catalog e)

/-- `CatalogManager::DropIndex`. `Destroy` ends the tree in memory and leaves its
pages and page 1 as they are. -/
def dropIndex (s : StorageEngine K V) (tableName indexName : StdString) :
    Option (StorageEngine K V × Answer V) := do
  let (catalog, e) ← s.catalog.dropIndex tableName indexName
  return ({ s with catalog := catalog }, .catalog e)

/-- A call of the index that `GetIndex` gives. -/
def indexCall (s : StorageEngine K V) (tableName indexName : StdString)
    (_comparator : LinearOrder K) [Inhabited K] (env : TreeEnv K V) (call : PooledCall K V) :
    Option (StorageEngine K V × Answer V) :=
  match s.catalog.indexNames.findIn tableName indexName with
  | none => some (s, .catalog .dbIndexNotFound)
  | some id => do
    let info ← s.catalog.indexes id
    let (t, a) ← PooledTree.step ⟨s.treeOf id, s.indexRoots, []⟩
      ({ env with indexId := info.metaData.indexId }, call)
    return ({ s with
      catalog := { s.catalog with
        bufferPool := { s.catalog.bufferPool with allocated := t.tree.allocated } }
      indexRoots := t.indexRoots
      treePages := t.tree.pages
      rootPageIds := Function.update s.rootPageIds id t.tree.rootPageId }, .index a)

/-- Closing the engine, which writes all pages, and the constructor with
`init = false`. Every index that is loaded takes its root from page 1. -/
def reopen (s : StorageEngine K V) (unset : UInt32 × UInt32) :
    Option (StorageEngine K V × Answer V) := do
  let catalog ← CatalogManager.reopen s.catalog.bufferPool (unset.1.toNat, unset.2.toNat)
  return ({ s with
    catalog := catalog
    nextIndexIdSet := !catalog.catalogMeta.indexMetaPages.isEmpty
    rootPageIds := fun id =>
      match catalog.indexes id with
      | none => invalidPageId
      | some info => (s.indexRoots.getRootId info.metaData.indexId).2 }, .reopened)

/-- One call; stuck where a call of the catalog or of the tree is. -/
def step [Inhabited K] (s : StorageEngine K V) :
    Call K V → Option (StorageEngine K V × Answer V)
  | .createTable t schema heap page => s.createTable t schema heap page
  | .createIndex t i keys page => s.createIndex t i keys page
  | .dropIndex t i => s.dropIndex t i
  | .index t i comparator env call => s.indexCall t i comparator env call
  | .reopen unset => s.reopen unset

/-! ## A new index -/

/-- **The new index starts empty**: its id is a value that the catalog has set,
no root is recorded under it, and there is nothing in its tree. -/
structure StartsEmpty (s s' : StorageEngine K V) (tableName indexName : StdString) : Prop where
  /-- The id is defined. -/
  defined : s.nextIndexIdSet
  /-- The names lead to it. -/
  named : s'.catalog.indexNames.findIn tableName indexName = some s.catalog.nextIndexId
  /-- It differs from every id on the page of the index roots. -/
  fresh : ∀ x, s.indexRoots.recorded x ≠ none → s.catalog.nextIndexId ≠ x
  /-- The tree is empty. -/
  empty : (s'.treeOf s.catalog.nextIndexId).isEmpty
  /-- No key is found in it. -/
  noEntry : ∀ (_comparator : LinearOrder K) (key : K),
    (s'.treeOf s.catalog.nextIndexId).getValue key = some none

/-- Where the engine is closed, the directory has an index with an id that is
not below any id on the page of the index roots. -/
def CoversRecorded (s : StorageEngine K V) : Call K V → Prop
  | .reopen _ =>
    ∃ e ∈ s.catalog.catalogMeta.indexMetaPages, ∀ root ∈ s.indexRoots.roots, root.1 ≤ e.1
  | _ => True

instance {s : StorageEngine K V} {c : Call K V} : Decidable (CoversRecorded s c) := by
  cases c <;> unfold CoversRecorded <;> infer_instance

/-! ## What the engine keeps -/

/-- A page that is in use and none of a tree. -/
def Owns (s : StorageEngine K V) (q : PageId) : Prop :=
  q ∈ s.catalog.bufferPool.allocated ∧ s.treePages q = none ∧ 0 ≤ q ∧ q < 2 ^ 31

/-- The page of an entry of the directory has the metadata of this index, so far
as it can be read. -/
def HasIndex (p : PageStore) (e : ℕ × PageId) : Prop :=
  ∀ info, p.deserialize e.2 IndexMetadata.deserializeFrom = some info → info.indexId = e.1

/-- **The invariant of the engine**, as long as no index loses its id. -/
structure Sound (s : StorageEngine K V) : Prop where
  /-- The directory is on its page. -/
  directory : s.catalog.bufferPool.deserialize catalogMetaPageId CatalogMeta.deserializeFrom =
    some s.catalog.catalogMeta
  /-- The tables stand in the order of their ids. -/
  tablesSorted : OrderedMap.Sorted s.catalog.catalogMeta.tableMetaPages
  /-- The indexes stand in the order of their ids. -/
  indexesSorted : OrderedMap.Sorted s.catalog.catalogMeta.indexMetaPages
  /-- The entries of the tables can be stored. -/
  tableEntries : ∀ e ∈ s.catalog.catalogMeta.tableMetaPages, CatalogMeta.EntryFits e
  /-- And so can the next one. -/
  nextTableId : s.catalog.nextTableId < 2 ^ 32
  /-- The ids of the indexes are below the next one. -/
  indexesBelow : ∀ e ∈ s.catalog.catalogMeta.indexMetaPages, e.1 < s.catalog.nextIndexId
  /-- Every index has a page of its own. -/
  indexPages : ∀ e ∈ s.catalog.catalogMeta.indexMetaPages,
    s.Owns e.2 ∧ e.2 ≠ catalogMetaPageId ∧ HasIndex s.catalog.bufferPool e
  /-- The indexes in memory are in the directory, and know their ids. -/
  indexListed : ∀ id info, s.catalog.indexes id = some info →
    (∃ q, (id, q) ∈ s.catalog.catalogMeta.indexMetaPages) ∧ info.metaData.indexId = id
  /-- The next id is defined. -/
  defined : s.nextIndexIdSet
  /-- Every id with a root is below it. -/
  recordedBelow : ∀ x, s.indexRoots.recorded x ≠ none → x < s.catalog.nextIndexId
  /-- There is a page for every id that has been given, and one more. -/
  count : ∃ own : List PageId, own.Nodup ∧ s.catalog.nextIndexId < own.length ∧
    ∀ q ∈ own, s.Owns q
  /-- The first two pages are none of a tree. -/
  reserved : s.Owns catalogMetaPageId ∧ s.Owns indexRootsPageId
  /-- Every page of a tree has its own id. -/
  selfIds : ∀ root, (s.tree root).SelfIds
  /-- Its links are right. -/
  links : ∀ root, Linked invalidPageId (s.tree root).family

variable {s s' : StorageEngine K V} {a : Answer V} {t i : StdString} {schema : Schema}
  {heap page : PageId} {keys : List StdString}

/-- The ids never wrap. -/
theorem Sound.nextIndexId_lt (h : Sound s) : s.catalog.nextIndexId < 2 ^ 31 := by
  obtain ⟨own, hnodup, hcount, howns⟩ := h.count
  exact hcount.trans_le (PageStore.length_le_of_nodup hnodup (fun q hq => (howns q hq).2.2))

theorem sound_create : Sound (create : StorageEngine K V) where
  directory := rfl
  tablesSorted := List.Pairwise.nil
  indexesSorted := List.Pairwise.nil
  tableEntries := nofun
  nextTableId := (by decide : 0 < 2 ^ 32)
  indexesBelow := nofun
  indexPages := nofun
  indexListed := nofun
  defined := rfl
  recordedBelow _ h := absurd rfl h
  count := ⟨[0, 1], by decide, (by decide : 0 < 2), fun q hq => ⟨hq, rfl, by
    revert q
    decide⟩⟩
  reserved := ⟨⟨(by decide : _ ∈ ([0, 1] : List PageId)), rfl, by decide⟩,
    ⟨(by decide : _ ∈ ([0, 1] : List PageId)), rfl, by decide⟩⟩
  selfIds _ := nofun
  links _ := ⟨fun _ => List.nodup_nil, nofun, fun _ h => absurd rfl h, fun _ _ => rfl,
    (by decide : invalidPageId ∉ ([0, 1] : List PageId))⟩

/-! ### The calls of the catalog -/

/-- **New pages and nothing else**, the page of the directory apart: pages in use
stay so, with their bytes. -/
structure Extends (p p' : PageStore) : Prop where
  keeps : ∀ q ∈ p.allocated, q ∈ p'.allocated
  valid : ∀ q ∈ p'.allocated, q ∈ p.allocated ∨ 0 ≤ q
  data : ∀ q ∈ p.allocated, q ≠ catalogMetaPageId → p'.data q = p.data q

variable {p p' p'' : PageStore} {q : PageId} {w : Writer} {n : ℕ}

theorem Extends.refl : Extends p p := ⟨fun _ h => h, fun _ h => .inl h, fun _ _ _ => rfl⟩

theorem Extends.newPage (h : Extends p p') (hp : p'.newPage q = some p'') : Extends p p'' := by
  obtain ⟨hq, hallocated, hdata⟩ := PageStore.newPage_eq_some hp
  refine ⟨fun r hr => ?_, fun r hr => ?_, fun r hr hne => ?_⟩
  · rw [hallocated]
    exact List.mem_cons_of_mem q (h.keeps r hr)
  · rw [hallocated] at hr
    rcases List.mem_cons.mp hr with rfl | hr
    · exact .inr hq.2.1
    · exact h.valid r hr
  · rw [hdata r (fun hrq => hq.1 (hrq ▸ h.keeps r hr))]
    exact h.data r hr hne

/-- A new page is written, or the directory. -/
theorem Extends.serialize (h : Extends p p') (hq : q ∉ p.allocated ∨ q = catalogMetaPageId)
    (hw : Moves w n) (hp : p'.serialize q w = some p'') : Extends p p'' := by
  obtain ⟨-, hallocated, hdata⟩ := PageStore.serialize_eq_some hw hp
  refine ⟨fun r hr => ?_, fun r hr => ?_, fun r hr hne => ?_⟩
  · rw [hallocated]
    exact h.keeps r hr
  · rw [hallocated] at hr
    exact h.valid r hr
  · rw [hdata r (fun hrq => hq.elim (fun hq => hq (hrq ▸ hr)) (fun hq => hne (hrq.trans hq)))]
    exact h.data r hr hne

/-- A directory in order is read back from its page. -/
theorem directory_of_write {m : CatalogMeta}
    (hwrite : CatalogManager.writeCatalogMeta p m = some p')
    (htables : OrderedMap.Sorted m.tableMetaPages) (hindexes : OrderedMap.Sorted m.indexMetaPages)
    (htfit : ∀ e ∈ m.tableMetaPages, CatalogMeta.EntryFits e)
    (hifit : ∀ e ∈ m.indexMetaPages, CatalogMeta.EntryFits e) :
    p'.deserialize catalogMetaPageId CatalogMeta.deserializeFrom = some m := by
  obtain ⟨hsize, -, -⟩ := PageStore.serialize_eq_some (CatalogMeta.moves _) hwrite
  exact PageStore.deserialize_serialize
    (CatalogMeta.readsBack hsize htables hindexes htfit hifit) hwrite

section Frame

variable {c : CatalogManager} {roots : ℕ → PageId} {e : ℕ × PageId}

/-- What a call of the catalog makes of the engine. -/
def withCatalog (s : StorageEngine K V) (c : CatalogManager) (roots : ℕ → PageId) :
    StorageEngine K V :=
  { s with
    catalog := c
    rootPageIds := roots }

theorem Owns.mono (h : s.Owns q) (hext : Extends s.catalog.bufferPool c.bufferPool) :
    (s.withCatalog c roots).Owns q :=
  ⟨hext.keeps q h.1, h.2⟩

theorem HasIndex.mono (h : HasIndex p e) (hext : Extends p p') (he : e.2 ∈ p.allocated)
    (hne : e.2 ≠ catalogMetaPageId) : HasIndex p' e := by
  intro info hinfo
  rw [PageStore.deserialize_congr (hext.data e.2 he hne)] at hinfo
  exact h info hinfo

/-- An index that was in the directory keeps its page. -/
theorem Sound.keepsIndex (h : Sound s) (hext : Extends s.catalog.bufferPool c.bufferPool)
    (he : e ∈ s.catalog.catalogMeta.indexMetaPages) :
    (s.withCatalog c roots).Owns e.2 ∧ e.2 ≠ catalogMetaPageId ∧ HasIndex c.bufferPool e := by
  obtain ⟨howns, hne, hindex⟩ := h.indexPages e he
  exact ⟨howns.mono hext, hne, hindex.mono hext howns.1 hne⟩

theorem Sound.keepsLinks (h : Sound s) (hext : Extends s.catalog.bufferPool c.bufferPool)
    (root : PageId) : Linked invalidPageId ((s.withCatalog c roots).tree root).family := by
  have hl := h.links root
  refine ⟨hl.nodup, hl.parent, fun q hq => hext.keeps q (hl.used q hq), hl.kids, fun hout => ?_⟩
  rcases hext.valid invalidPageId hout with hout | hout
  · exact hl.out hout
  · exact absurd hout (by decide)

/-- A page that is not in use is none of a tree. -/
theorem Sound.treePages_eq_none (h : Sound s) (hq : q ∉ s.catalog.bufferPool.allocated) :
    s.treePages q = none := by
  by_contra hne
  refine hq ((h.links 0).used q (fun hup => hne ?_))
  exact Option.map_eq_none_iff.mp hup

/-- Entries below the next id whose pages are owned can be stored. -/
theorem entryFits_of_owns (hbelow : e.1 < s.catalog.nextIndexId)
    (hnext : s.catalog.nextIndexId < 2 ^ 32) (howns : s.Owns e.2) : CatalogMeta.EntryFits e :=
  ⟨hbelow.trans hnext, le_trans (by decide) howns.2.2.1, howns.2.2.2⟩

end Frame

theorem createTable_cases (h : s.createTable t schema heap page = some (s', a)) :
    ∃ c e, s.catalog.createTable t schema heap page = some (c, e) ∧ a = .catalog e ∧
      s' = s.withCatalog c s.rootPageIds := by
  obtain ⟨⟨c, e⟩, hc, h⟩ := Option.bind_eq_some_iff.mp h
  cases h
  exact ⟨c, e, hc, rfl, rfl⟩

theorem createIndex_cases (h : s.createIndex t i keys page = some (s', a)) :
    ∃ c e, s.catalog.createIndex t i keys page = some (c, e) ∧ a = .catalog e ∧
      s' = s.withCatalog c (if e = .dbSuccess then Function.update s.rootPageIds
        s.catalog.nextIndexId (s.indexRoots.getRootId s.catalog.nextIndexId).2
        else s.rootPageIds) := by
  obtain ⟨⟨c, e⟩, hc, h⟩ := Option.bind_eq_some_iff.mp h
  cases h
  exact ⟨c, e, hc, rfl, rfl⟩

theorem dropIndex_cases (h : s.dropIndex t i = some (s', a)) :
    ∃ c e, s.catalog.dropIndex t i = some (c, e) ∧ a = .catalog e ∧
      s' = s.withCatalog c s.rootPageIds := by
  obtain ⟨⟨c, e⟩, hc, h⟩ := Option.bind_eq_some_iff.mp h
  cases h
  exact ⟨c, e, hc, rfl, rfl⟩

/-- `CreateTable` adds pages and an entry of a table. -/
theorem Sound.createTable (h : Sound s) (hs : s.createTable t schema heap page = some (s', a)) :
    Sound s' := by
  obtain ⟨c, e, hc, -, rfl⟩ := createTable_cases hs
  rcases CatalogManager.createTable_cases hc with
    ⟨rfl, -⟩ | ⟨-, p₁, p₂, p₃, p₄, -, h₁, h₂, h₃, h₄, hc'⟩
  · exact { h with }
  have hnext := h.nextIndexId_lt
  obtain ⟨hheap, ha₁, -⟩ := PageStore.newPage_eq_some h₁
  obtain ⟨hpage, -, -⟩ := PageStore.newPage_eq_some h₂
  rw [ha₁] at hpage
  have hext : Extends s.catalog.bufferPool p₄ :=
    (((Extends.refl.newPage h₁).newPage h₂).serialize
      (.inl (fun hq => hpage.1 (List.mem_cons_of_mem _ hq))) (TableMetadata.moves _) h₃).serialize
      (.inr rfl) (CatalogMeta.moves _) h₄
  have htable : ∀ e ∈ c.catalogMeta.tableMetaPages, CatalogMeta.EntryFits e := by
    intro e he
    rw [hc'] at he
    rcases OrderedMap.of_mem_emplace he with rfl | he
    · exact ⟨h.nextTableId, le_trans (by decide) hpage.2.1, hpage.2.2⟩
    · exact h.tableEntries e he
  have hindex : ∀ e ∈ c.catalogMeta.indexMetaPages, CatalogMeta.EntryFits e := by
    intro e he
    rw [hc'] at he
    exact entryFits_of_owns (h.indexesBelow e he) (hnext.trans (by decide)) (h.indexPages e he).1
  have hsorted : OrderedMap.Sorted c.catalogMeta.tableMetaPages := by
    rw [hc']
    exact OrderedMap.sorted_emplace h.tablesSorted
  have hsorted' : OrderedMap.Sorted c.catalogMeta.indexMetaPages := by
    rw [hc']
    exact h.indexesSorted
  have hdirectory := directory_of_write h₄ hsorted hsorted' htable hindex
  subst hc'
  exact {
    directory := hdirectory
    tablesSorted := hsorted
    indexesSorted := hsorted'
    tableEntries := htable
    nextTableId := Nat.mod_lt _ (by decide)
    indexesBelow := h.indexesBelow
    indexPages := fun e he => h.keepsIndex hext he
    indexListed := h.indexListed
    defined := h.defined
    recordedBelow := h.recordedBelow
    count := h.count.imp (fun own hown =>
      ⟨hown.1, hown.2.1, fun q hq => (hown.2.2 q hq).mono hext⟩)
    reserved := ⟨h.reserved.1.mono hext, h.reserved.2.mono hext⟩
    selfIds := h.selfIds
    links := h.keepsLinks hext }

/-- `CreateIndex` adds a page and the entry of an index. -/
theorem Sound.createIndex (h : Sound s) (hs : s.createIndex t i keys page = some (s', a)) :
    Sound s' := by
  obtain ⟨c, e, hc, -, rfl⟩ := createIndex_cases hs
  rcases CatalogManager.createIndex_cases hc with ⟨rfl, hne⟩ |
    ⟨rfl, tableId, table, _, index, p₁, p₂, p₃, -, -, -, -, hinit, h₁, h₂, h₃, hc'⟩
  · rw [if_neg hne]
    exact { h with }
  have hnext := h.nextIndexId_lt
  have hmod : (s.catalog.nextIndexId + 1) % 2 ^ 32 = s.catalog.nextIndexId + 1 :=
    Nat.mod_eq_of_lt (by omega)
  obtain ⟨hpage, ha₁, -⟩ := PageStore.newPage_eq_some h₁
  obtain ⟨-, ha₂, -⟩ := PageStore.serialize_eq_some (IndexMetadata.moves _) h₂
  obtain ⟨-, ha₃, hd₃⟩ := PageStore.serialize_eq_some (CatalogMeta.moves _) h₃
  have hext : Extends s.catalog.bufferPool p₃ :=
    ((Extends.refl.newPage h₁).serialize (.inl hpage.1) (IndexMetadata.moves _) h₂).serialize
      (.inr rfl) (CatalogMeta.moves _) h₃
  have hmem : ∀ e, e ∈ c.catalogMeta.indexMetaPages ↔
      e ∈ s.catalog.catalogMeta.indexMetaPages ∨ e = (s.catalog.nextIndexId, page) := by
    intro e
    rw [hc']
    show e ∈ s.catalog.catalogMeta.indexMetaPages.emplace s.catalog.nextIndexId page ↔ _
    rw [OrderedMap.emplace_of_lt h.indexesBelow, List.mem_append, List.mem_singleton]
  -- The new page is one of the catalog, and the id is read back from it.
  have hnew : page ∈ p₃.allocated ∧ s.treePages page = none ∧ 0 ≤ page ∧ page < 2 ^ 31 := by
    refine ⟨?_, h.treePages_eq_none hpage.1, hpage.2⟩
    rw [ha₃, ha₂, ha₁]
    exact List.mem_cons_self
  have hne : page ≠ catalogMetaPageId := fun heq => hpage.1 (heq ▸ h.reserved.1.1)
  have hback : HasIndex p₃ (s.catalog.nextIndexId, page) := by
    intro info hinfo
    rw [PageStore.deserialize_congr (hd₃ page hne)] at hinfo
    obtain ⟨n, htells⟩ := IndexMetadata.tells_indexId
      (i := ⟨s.catalog.nextIndexId, i, tableId, _⟩) (hnext.trans (by decide))
    have hid := PageStore.tells_serialize htells h₂ hinfo
    exact hid
  have hindex : ∀ e ∈ c.catalogMeta.indexMetaPages, CatalogMeta.EntryFits e := by
    intro e he
    rcases (hmem e).mp he with he | rfl
    · exact entryFits_of_owns (h.indexesBelow e he) (hnext.trans (by decide)) (h.indexPages e he).1
    · exact ⟨hnext.trans (by decide), le_trans (by decide) hpage.2.1, hpage.2.2⟩
  have hsorted : OrderedMap.Sorted c.catalogMeta.indexMetaPages := by
    rw [hc']
    exact OrderedMap.sorted_emplace h.indexesSorted
  have htables : c.catalogMeta.tableMetaPages = s.catalog.catalogMeta.tableMetaPages := by
    rw [hc']
    rfl
  have hdirectory := directory_of_write h₃ (htables ▸ h.tablesSorted) hsorted
    (htables ▸ h.tableEntries) hindex
  have hmeta := (CatalogManager.IndexInfo.init_eq_some hinit).1
  subst hc'
  exact {
    directory := hdirectory
    tablesSorted := h.tablesSorted
    indexesSorted := hsorted
    tableEntries := h.tableEntries
    nextTableId := h.nextTableId
    indexesBelow := fun e he => by
      show e.1 < (s.catalog.nextIndexId + 1) % 2 ^ 32
      rw [hmod]
      rcases (hmem e).mp he with he | rfl
      · exact (h.indexesBelow e he).trans (Nat.lt_succ_self _)
      · exact Nat.lt_succ_self _
    indexPages := fun e he => by
      rcases (hmem e).mp he with he | rfl
      · exact h.keepsIndex hext he
      · exact ⟨hnew, hne, hback⟩
    indexListed := fun id info hinfo => by
      rcases UnorderedMap.of_emplace_eq_some hinfo with hinfo | ⟨rfl, rfl⟩
      · obtain ⟨⟨q, hq⟩, hid⟩ := h.indexListed id info hinfo
        exact ⟨⟨q, (hmem _).mpr (.inl hq)⟩, hid⟩
      · exact ⟨⟨page, (hmem _).mpr (.inr rfl)⟩, by rw [hmeta]⟩
    defined := h.defined
    recordedBelow := fun x hx => by
      show x < (s.catalog.nextIndexId + 1) % 2 ^ 32
      rw [hmod]
      exact (h.recordedBelow x hx).trans (Nat.lt_succ_self _)
    count := by
      obtain ⟨own, hnodup, hcount, howns⟩ := h.count
      refine ⟨page :: own, List.nodup_cons.mpr ⟨fun hq => hpage.1 (howns page hq).1, hnodup⟩, ?_,
        List.forall_mem_cons.mpr ⟨hnew, fun q hq => (howns q hq).mono hext⟩⟩
      show (s.catalog.nextIndexId + 1) % 2 ^ 32 < own.length + 1
      rw [hmod]
      exact Nat.succ_lt_succ hcount
    reserved := ⟨h.reserved.1.mono hext, h.reserved.2.mono hext⟩
    selfIds := h.selfIds
    links := h.keepsLinks hext }

/-- `DropIndex` takes an entry out of the directory. -/
theorem Sound.dropIndex (h : Sound s) (hs : s.dropIndex t i = some (s', a)) : Sound s' := by
  obtain ⟨c, e, hc, -, rfl⟩ := dropIndex_cases hs
  rcases CatalogManager.dropIndex_cases hc with ⟨rfl, -⟩ | ⟨-, id, p, -, hp, hc'⟩
  · exact { h with }
  have hnext := h.nextIndexId_lt
  have hext : Extends s.catalog.bufferPool p :=
    Extends.refl.serialize (.inr rfl) (CatalogMeta.moves _) hp
  have hmem : ∀ e, e ∈ c.catalogMeta.indexMetaPages ↔
      e ∈ s.catalog.catalogMeta.indexMetaPages ∧ e.1 ≠ id := by
    intro e
    rw [hc']
    exact OrderedMap.mem_erase
  have hindex : ∀ e ∈ c.catalogMeta.indexMetaPages, CatalogMeta.EntryFits e := by
    intro e he
    obtain ⟨he, -⟩ := (hmem e).mp he
    exact entryFits_of_owns (h.indexesBelow e he) (hnext.trans (by decide)) (h.indexPages e he).1
  have hsorted : OrderedMap.Sorted c.catalogMeta.indexMetaPages := by
    rw [hc']
    exact OrderedMap.sorted_erase h.indexesSorted
  have htables : c.catalogMeta.tableMetaPages = s.catalog.catalogMeta.tableMetaPages := by
    rw [hc']
    rfl
  have hdirectory := directory_of_write hp (htables ▸ h.tablesSorted) hsorted
    (htables ▸ h.tableEntries) hindex
  subst hc'
  exact {
    directory := hdirectory
    tablesSorted := h.tablesSorted
    indexesSorted := hsorted
    tableEntries := h.tableEntries
    nextTableId := h.nextTableId
    indexesBelow := fun e he => h.indexesBelow e ((hmem e).mp he).1
    indexPages := fun e he => h.keepsIndex hext ((hmem e).mp he).1
    indexListed := fun id' info hinfo => by
      obtain ⟨hinfo, hne⟩ := UnorderedMap.erase_eq_some.mp hinfo
      obtain ⟨⟨q, hq⟩, hid⟩ := h.indexListed id' info hinfo
      exact ⟨⟨q, (hmem _).mpr ⟨hq, hne⟩⟩, hid⟩
    defined := h.defined
    recordedBelow := h.recordedBelow
    count := h.count.imp (fun own hown =>
      ⟨hown.1, hown.2.1, fun q hq => (hown.2.2 q hq).mono hext⟩)
    reserved := ⟨h.reserved.1.mono hext, h.reserved.2.mono hext⟩
    selfIds := h.selfIds
    links := h.keepsLinks hext }

/-! ### A call of an index -/

/-- A call of an index records no root but its own, and takes no page that is not
one of a tree. -/
theorem Sound.indexCall [Inhabited K] {comparator : LinearOrder K} {env : TreeEnv K V}
    {call : PooledCall K V} (h : Sound s)
    (hs : s.indexCall t i comparator env call = some (s', a)) : Sound s' := by
  unfold StorageEngine.indexCall at hs
  split at hs
  · cases hs
    exact h
  · rename_i id _
    simp only [Option.bind_eq_bind, Option.bind_eq_some_iff] at hs
    obtain ⟨info, hinfo, ⟨r, o⟩, hstep, hs⟩ := hs
    cases hs
    obtain ⟨⟨q, hq⟩, hid⟩ := h.indexListed id info hinfo
    have hforeign : ∀ q, s.treePages q = none → (s.treeOf id).family.up q = none :=
      fun q hq => Option.map_eq_none_iff.mpr hq
    have hsound : PooledTree.Sound ⟨s.treeOf id, s.indexRoots, []⟩ :=
      ⟨h.selfIds _, h.links _, h.reserved.2.1, hforeign _ h.reserved.2.2.1⟩
    have hold := PooledTree.holding_step False hsound False.elim hstep
    have hkept := hold.links.contained
    have howns : ∀ q, s.Owns q →
        q ∈ r.tree.allocated ∧ r.tree.pages q = none ∧ 0 ≤ q ∧ q < 2 ^ 31 := by
      intro q hq
      obtain ⟨hused, hup⟩ := hkept.foreign q hq.1 (hforeign q hq.2.1)
      exact ⟨hused, Option.map_eq_none_iff.mp hup, hq.2.2⟩
    have hl := hkept.linked (h.links _)
    exact {
      directory := h.directory
      tablesSorted := h.tablesSorted
      indexesSorted := h.indexesSorted
      tableEntries := h.tableEntries
      nextTableId := h.nextTableId
      indexesBelow := h.indexesBelow
      indexPages := fun e he => ⟨howns e.2 (h.indexPages e he).1, (h.indexPages e he).2⟩
      indexListed := h.indexListed
      defined := h.defined
      recordedBelow := fun x hx => by
        by_cases hxid : x = id
        · exact hxid ▸ h.indexesBelow _ hq
        · refine h.recordedBelow x ?_
          rwa [← hold.links.others (fun heq : x = info.metaData.indexId => hxid (heq.trans hid))]
      count := h.count.imp (fun own hown => ⟨hown.1, hown.2.1, fun q hq => howns q (hown.2.2 q hq)⟩)
      reserved := ⟨howns _ h.reserved.1, howns _ h.reserved.2⟩
      selfIds := fun _ => hold.selfIds
      links := fun _ => ⟨hl.nodup, hl.parent, hl.used, hl.kids, hl.out⟩ }

/-! ### Opening again -/

section Reopen

variable {c c' : CatalogManager} {e : ℕ × PageId}

theorem loadTableEntry_frame (hc : c.loadTableEntry e = some c') :
    c'.bufferPool = c.bufferPool ∧ c'.catalogMeta = c.catalogMeta ∧ c'.indexes = c.indexes ∧
      c'.indexNames = c.indexNames ∧ c'.nextTableId < 2 ^ 32 := by
  obtain ⟨c₁, hc₁, rfl⟩ := Option.map_eq_some_iff.mp hc
  obtain ⟨_, -, hc₁⟩ := Option.bind_eq_some_iff.mp hc₁
  cases hc₁
  exact ⟨rfl, rfl, rfl, rfl, Nat.mod_lt _ (by decide)⟩

/-- Loading the tables changes nothing of the indexes. -/
theorem loadTables_frame {entries : OrderedMap PageId} (hnext : c.nextTableId < 2 ^ 32)
    (hc : entries.foldlM CatalogManager.loadTableEntry c = some c') :
    c'.bufferPool = c.bufferPool ∧ c'.catalogMeta = c.catalogMeta ∧ c'.indexes = c.indexes ∧
      c'.indexNames = c.indexNames ∧ c'.nextTableId < 2 ^ 32 := by
  induction entries generalizing c with
  | nil =>
    cases hc
    exact ⟨rfl, rfl, rfl, rfl, hnext⟩
  | cons e entries ih =>
    obtain ⟨c₁, hload, hrest⟩ := Option.bind_eq_some_iff.mp hc
    obtain ⟨hp, hm, hi, hn, hnext⟩ := loadTableEntry_frame hload
    obtain ⟨hp', hm', hi', hn', hnext'⟩ := ih hnext hrest
    exact ⟨hp'.trans hp, hm'.trans hm, hi'.trans hi, hn'.trans hn, hnext'⟩

/-- What is loaded of the indexes of a part of the directory. -/
structure Loaded (s : StorageEngine K V) (done : OrderedMap PageId) (c : CatalogManager) :
    Prop where
  bufferPool : c.bufferPool = s.catalog.bufferPool
  catalogMeta : c.catalogMeta = s.catalog.catalogMeta
  nextTableId : c.nextTableId < 2 ^ 32
  /-- The next id is that of the last index. -/
  nextIndexId : ∀ e ∈ done.getLast?, c.nextIndexId = e.1 + 1
  /-- The indexes are in the directory, and know their ids. -/
  indexListed : ∀ id info, c.indexes id = some info →
    (∃ q, (id, q) ∈ done) ∧ info.metaData.indexId = id

/-- One more index. -/
theorem Loaded.loadIndexEntry (h : Sound s) {done : OrderedMap PageId} (hl : Loaded s done c)
    (he : e ∈ s.catalog.catalogMeta.indexMetaPages) (hc : c.loadIndexEntry e = some c') :
    Loaded s (done ++ [e]) c' := by
  obtain ⟨c₁, hc₁, rfl⟩ := Option.map_eq_some_iff.mp hc
  simp only [CatalogManager.loadIndex, Option.bind_eq_bind, Option.bind_eq_some_iff] at hc₁
  obtain ⟨indexMeta, hread, table, -, index, hinit, hc₁⟩ := hc₁
  cases hc₁
  rw [hl.bufferPool] at hread
  have hid : index.metaData.indexId = e.1 := by
    rw [(CatalogManager.IndexInfo.init_eq_some hinit).1]
    exact (h.indexPages e he).2.2 indexMeta hread
  refine ⟨hl.bufferPool, hl.catalogMeta, hl.nextTableId, fun e' he' => ?_, fun id info hinfo => ?_⟩
  · rw [List.getLast?_concat, Option.mem_some_iff] at he'
    subst he'
    have hlt := (h.indexesBelow e he).trans h.nextIndexId_lt
    exact Nat.mod_eq_of_lt (by omega)
  · rcases UnorderedMap.of_emplace_eq_some hinfo with hinfo | ⟨rfl, rfl⟩
    · obtain ⟨⟨q, hq⟩, hid'⟩ := hl.indexListed id info hinfo
      exact ⟨⟨q, List.mem_append_left _ hq⟩, hid'⟩
    · exact ⟨⟨e.2, List.mem_append_right _ List.mem_cons_self⟩, hid⟩

/-- All of them. -/
theorem Loaded.loadIndexes (h : Sound s) {rest done : OrderedMap PageId} (hl : Loaded s done c)
    (hrest : ∀ e ∈ rest, e ∈ s.catalog.catalogMeta.indexMetaPages)
    (hc : rest.foldlM CatalogManager.loadIndexEntry c = some c') : Loaded s (done ++ rest) c' := by
  induction rest generalizing done c with
  | nil =>
    cases hc
    rwa [List.append_nil]
  | cons e rest ih =>
    obtain ⟨c₁, hload, hc⟩ := Option.bind_eq_some_iff.mp hc
    have hl₁ := hl.loadIndexEntry h (hrest e List.mem_cons_self) hload
    rw [List.append_cons]
    exact ih hl₁ (fun e' he' => hrest e' (List.mem_cons_of_mem e he')) hc

/-- **What opening again loads.** -/
theorem Sound.loaded (h : Sound s) {unset : UInt32 × UInt32}
    (hc : CatalogManager.reopen s.catalog.bufferPool (unset.1.toNat, unset.2.toNat) = some c) :
    Loaded s s.catalog.catalogMeta.indexMetaPages c := by
  unfold CatalogManager.reopen at hc
  rw [h.directory] at hc
  simp only [Option.bind_eq_bind, Option.bind_some] at hc
  obtain ⟨c₁, htables, hindexes⟩ := Option.bind_eq_some_iff.mp hc
  obtain ⟨hp, hm, hi, -, hnext⟩ := loadTables_frame unset.1.toNat_lt htables
  have hl : Loaded s [] c₁ :=
    ⟨hp, hm, hnext, nofun, fun id info hinfo => absurd ((congrFun hi id).symm.trans hinfo) nofun⟩
  exact hl.loadIndexes h (fun _ he => he) hindexes

/-- In a sorted directory no id is above the last one. -/
theorem le_getLast {entries : OrderedMap PageId} (hsorted : OrderedMap.Sorted entries)
    (he : e ∈ entries) : ∃ last ∈ entries.getLast?, last ∈ entries ∧ e.1 ≤ last.1 := by
  have hne := List.ne_nil_of_mem he
  refine ⟨entries.getLast hne, List.getLast?_eq_some_getLast hne, List.getLast_mem hne, ?_⟩
  rw [← List.dropLast_append_getLast hne] at he hsorted
  rcases List.mem_append.mp he with he | he
  · exact ((List.pairwise_append.mp hsorted).2.2 e he _ List.mem_cons_self).le
  · rw [List.mem_singleton.mp he]

end Reopen

/-- **Opening again** where the directory covers what is recorded. -/
theorem Sound.reopen (h : Sound s) {unset : UInt32 × UInt32}
    (hcovers : ∃ e ∈ s.catalog.catalogMeta.indexMetaPages,
      ∀ root ∈ s.indexRoots.roots, root.1 ≤ e.1)
    (hs : s.reopen unset = some (s', a)) : Sound s' := by
  obtain ⟨c, hc, hs⟩ := Option.bind_eq_some_iff.mp hs
  cases hs
  have hl := h.loaded hc
  obtain ⟨e, he, hle⟩ := hcovers
  obtain ⟨last, hlast, hmem, hmax⟩ := le_getLast h.indexesSorted he
  have hnext : c.nextIndexId = last.1 + 1 := hl.nextIndexId last hlast
  have hbelow := h.indexesBelow last hmem
  have howns : ∀ q, s.Owns q →
      q ∈ c.bufferPool.allocated ∧ s.treePages q = none ∧ 0 ≤ q ∧ q < 2 ^ 31 := by
    rw [hl.bufferPool]
    exact fun q hq => hq
  exact {
    directory := by
      rw [hl.bufferPool, hl.catalogMeta]
      exact h.directory
    tablesSorted := hl.catalogMeta ▸ h.tablesSorted
    indexesSorted := hl.catalogMeta ▸ h.indexesSorted
    tableEntries := hl.catalogMeta ▸ h.tableEntries
    nextTableId := hl.nextTableId
    indexesBelow := fun e' he' => by
      show e'.1 < c.nextIndexId
      rw [hl.catalogMeta] at he'
      obtain ⟨last', hlast', -, hmax'⟩ := le_getLast h.indexesSorted he'
      rw [hl.nextIndexId last' hlast']
      exact Nat.lt_succ_of_le hmax'
    indexPages := fun e' he' => by
      rw [hl.catalogMeta] at he'
      refine ⟨howns _ (h.indexPages e' he').1, (h.indexPages e' he').2.1, ?_⟩
      rw [hl.bufferPool]
      exact (h.indexPages e' he').2.2
    indexListed := by
      rw [hl.catalogMeta]
      exact hl.indexListed
    defined := by
      rw [hl.catalogMeta]
      cases hpages : s.catalog.catalogMeta.indexMetaPages with
      | nil => exact absurd (hpages ▸ he) List.not_mem_nil
      | cons _ _ => rfl
    recordedBelow := fun x hx => by
      show x < c.nextIndexId
      obtain ⟨root, hroot, rfl⟩ := IndexRootsPage.exists_of_recorded hx
      rw [hnext]
      exact Nat.lt_succ_of_le ((hle root hroot).trans hmax)
    count := h.count.imp (fun own hown => ⟨hown.1, by
      show c.nextIndexId < own.length
      rw [hnext]
      exact lt_of_le_of_lt hbelow hown.2.1, fun q hq => howns q (hown.2.2 q hq)⟩)
    reserved := ⟨howns _ h.reserved.1, howns _ h.reserved.2⟩
    selfIds := h.selfIds
    links := fun root => by
      show Linked invalidPageId (BPlusTree.family ⟨root, s.treePages, c.bufferPool.allocated⟩)
      rw [hl.bufferPool]
      exact h.links root }

/-! ## Runs -/

/-- **Every call keeps the invariant**, if closing is done where the directory
covers what is recorded. -/
theorem Sound.of_step [Inhabited K] {call : Call K V} (h : Sound s)
    (hcovers : CoversRecorded s call) (hs : s.step call = some (s', a)) : Sound s' := by
  cases call with
  | createTable t schema heap page => exact h.createTable hs
  | createIndex t i keys page => exact h.createIndex hs
  | dropIndex t i => exact h.dropIndex hs
  | index t i comparator env call => exact h.indexCall hs
  | reopen unset => exact h.reopen hcovers hs

/-- A sound engine makes an index with nothing in it. -/
theorem Sound.startsEmpty (h : Sound s)
    (hs : s.createIndex t i keys page = some (s', .catalog .dbSuccess)) : StartsEmpty s s' t i := by
  obtain ⟨c, e, hc, ha, rfl⟩ := createIndex_cases hs
  cases ha
  rcases CatalogManager.createIndex_cases hc with ⟨-, hne⟩ |
    ⟨-, tableId, table, _, index, p₁, p₂, p₃, -, -, -, hfree, hinit, -, -, -, hc'⟩
  · exact absurd rfl hne
  have hfresh : ∀ x, s.indexRoots.recorded x ≠ none → s.catalog.nextIndexId ≠ x :=
    fun x hx heq => absurd (h.recordedBelow x hx) (heq ▸ Nat.lt_irrefl _)
  have hnone : s.indexRoots.recorded s.catalog.nextIndexId = none := by
    by_contra hne
    exact hfresh _ hne rfl
  have hroot : (s.withCatalog c (Function.update s.rootPageIds s.catalog.nextIndexId
      (s.indexRoots.getRootId s.catalog.nextIndexId).2)).rootPageIds s.catalog.nextIndexId =
        invalidPageId := by
    show Function.update _ _ _ _ = _
    rw [Function.update_self, IndexRootsPage.getRootId_eq, hnone]
    rfl
  have hempty : ((s.withCatalog c (Function.update s.rootPageIds s.catalog.nextIndexId
      (s.indexRoots.getRootId s.catalog.nextIndexId).2)).treeOf s.catalog.nextIndexId).isEmpty :=
    decide_eq_true hroot
  have hname : index.metaData.indexName = i := by
    rw [(CatalogManager.IndexInfo.init_eq_some hinit).1]
  refine ⟨h.defined, ?_, hfresh, hempty, fun _ key => if_pos hempty⟩
  show c.indexNames.findIn t i = _
  rw [hc']
  show (s.catalog.indexNames.emplaceIn t index.metaData.indexName _).findIn t i = _
  rw [hname, UnorderedMap.findIn_emplaceIn hfree]
  exact .inr ⟨rfl, rfl, rfl⟩

/-- **A new index starts empty** in every history in which the engine is closed
only where the directory covers what is recorded. -/
theorem startsEmpty_of_coversRecorded [Inhabited K] {calls : List (Call K V)}
    {answers : List (Answer V)} (hcalls : Machine.Meets step CoversRecorded create calls)
    (hrun : Machine.run step create calls = some (s, answers))
    (hs : s.step (.createIndex t i keys page) = some (s', .catalog .dbSuccess)) :
    StartsEmpty s s' t i := by
  have hreach := Machine.Reaches.init.run hcalls hrun
  have hsound := hreach.invariant (I := Sound) sound_create
    (fun _ _ _ _ h hc hs => h.of_step hc hs)
  exact hsound.startsEmpty hs

/-- A table `t` with the indexes `a` and `b`, an entry in one of them, and the
engine closed and opened again after `b` has been dropped. -/
def dropAndReopen (indexName : StdString) : List (Call ℕ ℕ) :=
  [.createTable [116] ⟨[⟨[97], .kTypeInt, 4, 0, false, true, TypeId.int_supported⟩]⟩ 2 3,
    .createIndex [116] [97] [[97]] 4, .createIndex [116] [98] [[97]] 5,
    .index [116] indexName inferInstance
      { toTreeConfig := TreeConfig.above 4 4
        indexId := 0
        foreign := fun _ q => ⟨q, 0, 0, 0, []⟩ } (.insert 1 1),
    .dropIndex [116] [98], .reopen (0, 0)]

/-- A new index `c` starts empty where the entry is in the index `a`. -/
theorem startsEmpty_of_coversRecorded_reopen : ∃ (s s' : StorageEngine ℕ ℕ) (answers : _),
    Machine.run step create (dropAndReopen [97]) = some (s, answers) ∧
      s.step (.createIndex [116] [99] [[97]] 7) = some (s', .catalog .dbSuccess) ∧
      StartsEmpty s s' [116] [99] := by
  have hmeets : Machine.Meets step CoversRecorded create (dropAndReopen [97]) := by decide +kernel
  obtain ⟨⟨s, answers⟩, hrun, hlast⟩ := Option.bind_eq_some_iff.mp
    (Option.isSome_iff_exists.mp (by decide +kernel :
      ((Machine.run step create (dropAndReopen [97])).bind (fun r =>
        (r.1.step (.createIndex [116] [99] [[97]] 7)).bind (fun r' =>
          if r'.2 = .catalog .dbSuccess then some r' else none))).isSome = true)).choose_spec
  obtain ⟨⟨s', a⟩, hs, ha⟩ := Option.bind_eq_some_iff.mp hlast
  obtain ⟨ha, -⟩ := Option.ite_none_right_eq_some.mp ha
  cases ha
  exact ⟨s, s', answers, hrun, hs, startsEmpty_of_coversRecorded hmeets hrun hs⟩

/-- **A new index gets the entries of a dropped one**, with its id. -/
theorem not_startsEmpty : ¬ ∀ (calls : List (Call ℕ ℕ)) (answers : List (Answer ℕ))
    (s s' : StorageEngine ℕ ℕ) (t i : StdString) (keys : List StdString) (page : PageId),
    Machine.run step create calls = some (s, answers) →
    s.step (.createIndex t i keys page) = some (s', .catalog .dbSuccess) →
    StartsEmpty s s' t i := by
  intro h
  have hfound : (Machine.run step create (dropAndReopen [98])).bind (fun r =>
      (r.1.step (.createIndex [116] [99] [[97]] 7)).bind (fun r' =>
        if r'.2 = .catalog .dbSuccess then
          some ((r'.1.treeOf r.1.catalog.nextIndexId).getValue 1)
        else none)) = some (some (some 1)) := by decide +kernel
  obtain ⟨⟨s, answers⟩, hrun, hlast⟩ := Option.bind_eq_some_iff.mp hfound
  obtain ⟨⟨s', a⟩, hs, ha⟩ := Option.bind_eq_some_iff.mp hlast
  obtain ⟨ha, hvalue⟩ := Option.ite_none_right_eq_some.mp ha
  cases ha
  have hnone := (h _ answers s s' _ _ _ _ hrun hs).noEntry inferInstance 1
  rw [hnone] at hvalue
  exact absurd hvalue (by decide)

end StorageEngine

end MiniSql
