import MiniSql.CatalogSound
import MiniSql.Machine

/-!
# Opening the catalog again

The constructor with `init = false` walks the directory and loads every table
and then every index from its page. Tables always come back
(`exists_loadTables`). An index comes back if there is a table with the id
that it names; if there is none, `LoadIndex` has a null pointer in its hands
and the catalog cannot be opened any more (`loadIndexes_eq_none`).

`DropTable` takes the table out of the maps and out of the directory, and
leaves its indexes in both. So a catalog survives reopening exactly when every
index that it holds is on a table that it holds
(`survivesReopening_iff_indexesHaveTables`).
-/

namespace MiniSql

namespace CatalogManager

variable {s r r' : CatalogManager}

/-- **Every index is on a table** of the catalog. -/
def IndexesHaveTables (s : CatalogManager) : Prop :=
  ∀ id index, s.indexes id = some index → ∃ table, s.tables index.metaData.tableId = some table

/-- The keys that are listed once an entry has been walked over. -/
theorem exists_mem_concat {done : OrderedMap PageId} {e : ℕ × PageId} {id : ℕ} :
    (∃ q, (id, q) ∈ done ++ [e]) ↔ (∃ q, (id, q) ∈ done) ∨ id = e.1 := by
  simp only [List.mem_append, List.mem_singleton, exists_or]
  exact or_congr_right ⟨fun ⟨q, hq⟩ => congrArg Prod.fst hq, fun hid => ⟨e.2, by rw [hid]⟩⟩

/-! ## The tables -/

/-- The tables of a part of the directory have been loaded. -/
structure TablesLoaded (s : CatalogManager) (done : OrderedMap PageId) (r : CatalogManager) :
    Prop where
  /-- From the pages of the catalog. -/
  bufferPool : r.bufferPool = s.bufferPool
  /-- There is no index yet. -/
  noIndexes : r.indexes = .empty ∧ r.indexNames = .empty
  /-- The tables are those of the catalog. -/
  tables : ∀ id info, r.tables id = some info ↔
    (∃ q, (id, q) ∈ done) ∧ ∃ old, s.tables id = some old ∧ info = old.reloaded
  /-- Their names are those of the catalog. -/
  tableNames : ∀ t id, r.tableNames t = some id ↔
    (∃ q, (id, q) ∈ done) ∧ s.tableNames t = some id

/-- One more table. -/
theorem TablesLoaded.loadTableEntry {done : OrderedMap PageId} {e : ℕ × PageId} (h : Sound s)
    (hr : TablesLoaded s done r) (he : e ∈ s.catalogMeta.tableMetaPages)
    (hnew : ∀ q, (e.1, q) ∉ done) :
    ∃ r', r.loadTableEntry e = some r' ∧ TablesLoaded s (done ++ [e]) r' := by
  obtain ⟨info, hinfo⟩ := (h.listed.tableListed e.1).mp ⟨e.2, he⟩
  have hread : r.bufferPool.deserialize e.2 TableMetadata.deserializeFrom = some info.reloaded := by
    rw [hr.bufferPool]
    exact h.stored.table e.1 e.2 info he hinfo
  have hname : s.tableNames info.tableName = some e.1 :=
    (h.listed.tableNamed _ _).mpr ⟨info, hinfo, rfl⟩
  have hfree : r.tables e.1 = none := Option.eq_none_iff_forall_ne_some.mpr (fun info' hinfo' =>
    ((hr.tables _ _).mp hinfo').1.elim (fun q hq => hnew q hq))
  have hfreeName : r.tableNames info.reloaded.tableName = none :=
    Option.eq_none_iff_forall_ne_some.mpr (fun id hid => by
      obtain ⟨⟨q, hq⟩, hid⟩ := (hr.tableNames _ _).mp hid
      cases hname.symm.trans hid
      exact hnew q hq)
  refine ⟨_, by rw [CatalogManager.loadTableEntry, loadTable, hread]; rfl, ?_⟩
  refine ⟨hr.bufferPool, hr.noIndexes, fun id info' => ?_, fun t id => ?_⟩
  · show r.tables.emplace e.1 info.reloaded id = some info' ↔ _
    rw [UnorderedMap.emplace_eq_some hfree, hr.tables, exists_mem_concat, or_and_right]
    refine or_congr_right ⟨?_, ?_⟩
    · rintro ⟨rfl, rfl⟩
      exact ⟨rfl, info, hinfo, rfl⟩
    · rintro ⟨rfl, old, hold, rfl⟩
      exact ⟨rfl, by rw [Option.some.inj (hold.symm.trans hinfo)]⟩
  · show r.tableNames.emplace info.reloaded.tableName e.1 t = some id ↔ _
    rw [UnorderedMap.emplace_eq_some hfreeName, hr.tableNames, exists_mem_concat, or_and_right]
    refine or_congr_right ⟨?_, ?_⟩
    · rintro ⟨rfl, rfl⟩
      exact ⟨rfl, hname⟩
    · rintro ⟨rfl, hid⟩
      obtain ⟨old, hold, rfl⟩ := (h.listed.tableNamed _ _).mp hid
      exact ⟨by rw [Option.some.inj (hold.symm.trans hinfo)]; rfl, rfl⟩

/-- **All tables are loaded.** -/
theorem exists_loadTables (h : Sound s) {rest done : OrderedMap PageId}
    (hsplit : done ++ rest = s.catalogMeta.tableMetaPages) (hr : TablesLoaded s done r) :
    ∃ r', rest.foldlM loadTableEntry r = some r' ∧
      TablesLoaded s s.catalogMeta.tableMetaPages r' := by
  induction rest generalizing done r with
  | nil =>
    rw [List.append_nil] at hsplit
    exact ⟨r, rfl, hsplit ▸ hr⟩
  | cons e rest ih =>
    have hsorted := hsplit ▸ h.listed.tablesSorted
    have hnew : ∀ q, (e.1, q) ∉ done := fun q hq =>
      Nat.lt_irrefl e.1 ((List.pairwise_append.mp hsorted).2.2 _ hq e List.mem_cons_self)
    have he : e ∈ s.catalogMeta.tableMetaPages :=
      hsplit ▸ List.mem_append_right done List.mem_cons_self
    obtain ⟨r₁, h₁, hr₁⟩ := hr.loadTableEntry h he hnew
    obtain ⟨r', h', hr'⟩ := ih (by rw [← hsplit, List.append_assoc]; rfl) hr₁
    exact ⟨r', by rw [List.foldlM_cons, h₁]; exact h', hr'⟩

/-! ## The indexes -/

/-- The index that comes back. -/
def IndexInfo.reloaded (index : IndexInfo) : IndexInfo :=
  ⟨index.metaData, index.tableInfo.reloaded, index.keySchema.reloaded⟩

/-- Looking up positions in a list and in its image. -/
theorem mapM_getElem?_map {α β : Type} (f : α → β) (l : List α) (ks : List ℕ) :
    ks.mapM ((l.map f)[·]?) = (ks.mapM (l[·]?)).map (List.map f) := by
  induction ks with
  | nil => rfl
  | cons k ks ih =>
    rw [List.mapM_cons, List.mapM_cons, ih, List.getElem?_map]
    cases l[k]? with
    | none => rfl
    | some x =>
      cases ks.mapM (l[·]?) <;> rfl

/-- The key columns are found in the reloaded table as they were in the old
one. -/
theorem IndexInfo.init_reloaded {m : IndexMetadata} {table : TableMetadata} {index : IndexInfo}
    (h : IndexInfo.init m table = some index) :
    IndexInfo.init m table.reloaded = some index.reloaded := by
  obtain ⟨keySchema, hkey, rfl⟩ := Option.map_eq_some_iff.mp h
  obtain ⟨columns, hcolumns, rfl⟩ := Option.map_eq_some_iff.mp hkey
  refine Option.map_eq_some_iff.mpr ⟨Schema.reloaded ⟨columns⟩, ?_, rfl⟩
  show ((m.keyMap.mapM ((table.schema.columns.map Column.reloaded)[·]?)).map Schema.mk) = _
  rw [mapM_getElem?_map, hcolumns]
  rfl

/-- Loading indexes leaves the tables and the pages as they are. -/
theorem loadIndexEntry_frame {e : ℕ × PageId} (h : r.loadIndexEntry e = some r') :
    r'.bufferPool = r.bufferPool ∧ r'.tables = r.tables ∧ r'.tableNames = r.tableNames := by
  obtain ⟨r₁, h₁, rfl⟩ := Option.map_eq_some_iff.mp h
  simp only [loadIndex, Option.bind_eq_bind, Option.bind_eq_some_iff] at h₁
  obtain ⟨_, -, _, -, _, -, h₁⟩ := h₁
  cases h₁
  exact ⟨rfl, rfl, rfl⟩

/-- **An index without a table** stops the loading. -/
theorem loadIndexes_eq_none (h : Sound s) {rest : OrderedMap PageId} {e : ℕ × PageId}
    {index : IndexInfo} (hpages : r.bufferPool = s.bufferPool) (he : e ∈ rest)
    (hlisted : e ∈ s.catalogMeta.indexMetaPages) (hindex : s.indexes e.1 = some index)
    (horphan : r.tables index.metaData.tableId = none) : rest.foldlM loadIndexEntry r = none := by
  induction rest generalizing r with
  | nil => exact absurd he List.not_mem_nil
  | cons e' rest ih =>
    rw [List.foldlM_cons]
    rcases List.mem_cons.mp he with rfl | he
    · have hread : r.bufferPool.deserialize e.2 IndexMetadata.deserializeFrom =
          some index.metaData := by
        rw [hpages]
        exact h.stored.index e.1 e.2 index hlisted hindex
      rw [loadIndexEntry, loadIndex, hread]
      show (Option.map _ ((r.tables index.metaData.tableId).bind _)).bind _ = none
      rw [horphan]
      rfl
    · cases hload : r.loadIndexEntry e' with
      | none => rfl
      | some r₁ =>
        obtain ⟨hp, ht, -⟩ := loadIndexEntry_frame hload
        exact ih (hp.trans hpages) he (ht ▸ horphan)

/-- The indexes of a part of the directory have been loaded. -/
structure IndexesLoaded (s : CatalogManager) (done : OrderedMap PageId) (r : CatalogManager) :
    Prop where
  /-- From the pages of the catalog. -/
  bufferPool : r.bufferPool = s.bufferPool
  /-- All tables are there. -/
  tables : ∀ id, r.tables id = (s.tables id).map TableMetadata.reloaded
  /-- With their names. -/
  tableNames : r.tableNames = s.tableNames
  /-- The indexes are those of the catalog. -/
  indexes : ∀ id index, r.indexes id = some index ↔
    (∃ q, (id, q) ∈ done) ∧ ∃ old, s.indexes id = some old ∧ index = old.reloaded
  /-- Their names are those of the catalog. -/
  indexNames : ∀ t i id, r.indexNames.findIn t i = some id ↔
    (∃ q, (id, q) ∈ done) ∧ s.indexNames.findIn t i = some id

/-- One more index. -/
theorem IndexesLoaded.loadIndexEntry {done : OrderedMap PageId} {e : ℕ × PageId} (h : Sound s)
    (howned : IndexesHaveTables s) (hr : IndexesLoaded s done r)
    (he : e ∈ s.catalogMeta.indexMetaPages) (hnew : ∀ q, (e.1, q) ∉ done) :
    ∃ r', r.loadIndexEntry e = some r' ∧ IndexesLoaded s (done ++ [e]) r' := by
  obtain ⟨index, hindex⟩ := (h.listed.indexListed e.1).mp ⟨e.2, he⟩
  obtain ⟨table, htable⟩ := howned e.1 index hindex
  have howner : index.tableInfo = table := h.listed.owner e.1 index table hindex htable
  have hread : r.bufferPool.deserialize e.2 IndexMetadata.deserializeFrom =
    some index.metaData := by
    rw [hr.bufferPool]
    exact h.stored.index e.1 e.2 index he hindex
  have hfound : r.tables index.metaData.tableId = some table.reloaded := by
    rw [hr.tables, htable]
    rfl
  have hinit : IndexInfo.init index.metaData table.reloaded = some index.reloaded :=
    IndexInfo.init_reloaded (howner ▸ h.listed.keyColumns e.1 index hindex)
  have hname : s.indexNames.findIn table.tableName index.metaData.indexName = some e.1 :=
    (h.listed.indexNamed _ _ _).mpr ⟨index, hindex, by rw [howner], rfl⟩
  have hfree : r.indexes e.1 = none := Option.eq_none_iff_forall_ne_some.mpr (fun info' hinfo' =>
    ((hr.indexes _ _).mp hinfo').1.elim (fun q hq => hnew q hq))
  have hfreeName : r.indexNames.findIn table.tableName index.metaData.indexName = none :=
    Option.eq_none_iff_forall_ne_some.mpr (fun id hid => by
      obtain ⟨⟨q, hq⟩, hid⟩ := (hr.indexNames _ _ _).mp hid
      cases hname.symm.trans hid
      exact hnew q hq)
  have hload : r.loadIndex e.1 e.2 = some { r with
      indexNames := r.indexNames.emplaceIn table.tableName index.metaData.indexName e.1
      indexes := r.indexes.emplace e.1 index.reloaded } := by
    rw [loadIndex, hread]
    show (r.tables index.metaData.tableId).bind _ = _
    rw [hfound]
    show (IndexInfo.init index.metaData table.reloaded).bind _ = _
    rw [hinit]
    rfl
  refine ⟨_, by rw [CatalogManager.loadIndexEntry, hload]; rfl, ?_⟩
  refine ⟨hr.bufferPool, hr.tables, hr.tableNames, fun id info' => ?_, fun t i id => ?_⟩
  · show r.indexes.emplace e.1 index.reloaded id = some info' ↔ _
    rw [UnorderedMap.emplace_eq_some hfree, hr.indexes, exists_mem_concat, or_and_right]
    refine or_congr_right ⟨?_, ?_⟩
    · rintro ⟨rfl, rfl⟩
      exact ⟨rfl, index, hindex, rfl⟩
    · rintro ⟨rfl, old, hold, rfl⟩
      exact ⟨rfl, by rw [Option.some.inj (hold.symm.trans hindex)]⟩
  · show (r.indexNames.emplaceIn table.tableName index.metaData.indexName e.1).findIn t i = _ ↔ _
    rw [UnorderedMap.findIn_emplaceIn hfreeName, hr.indexNames, exists_mem_concat, or_and_right]
    refine or_congr_right ⟨?_, ?_⟩
    · rintro ⟨rfl, rfl, rfl⟩
      exact ⟨rfl, hname⟩
    · rintro ⟨rfl, hid⟩
      obtain ⟨old, hold, rfl, rfl⟩ := (h.listed.indexNamed _ _ _).mp hid
      cases hold.symm.trans hindex
      exact ⟨by rw [howner], rfl, rfl⟩

/-- **All indexes are loaded**, if each has its table. -/
theorem exists_loadIndexes (h : Sound s) (howned : IndexesHaveTables s)
    {rest done : OrderedMap PageId} (hsplit : done ++ rest = s.catalogMeta.indexMetaPages)
    (hr : IndexesLoaded s done r) :
    ∃ r', rest.foldlM loadIndexEntry r = some r' ∧
      IndexesLoaded s s.catalogMeta.indexMetaPages r' := by
  induction rest generalizing done r with
  | nil =>
    rw [List.append_nil] at hsplit
    exact ⟨r, rfl, hsplit ▸ hr⟩
  | cons e rest ih =>
    have hsorted := hsplit ▸ h.listed.indexesSorted
    have hnew : ∀ q, (e.1, q) ∉ done := fun q hq =>
      Nat.lt_irrefl e.1 ((List.pairwise_append.mp hsorted).2.2 _ hq e List.mem_cons_self)
    have he : e ∈ s.catalogMeta.indexMetaPages :=
      hsplit ▸ List.mem_append_right done List.mem_cons_self
    obtain ⟨r₁, h₁, hr₁⟩ := hr.loadIndexEntry h howned he hnew
    obtain ⟨r', h', hr'⟩ := ih (by rw [← hsplit, List.append_assoc]; rfl) hr₁
    exact ⟨r', by rw [List.foldlM_cons, h₁]; exact h', hr'⟩

/-! ## The whole catalog -/

/-- The tables are loaded, and what is left is to load the indexes. -/
theorem reopen_eq (h : Sound s) (unset : ℕ × ℕ) : ∃ r, IndexesLoaded s [] r ∧
    reopen s.bufferPool unset = s.catalogMeta.indexMetaPages.foldlM loadIndexEntry r := by
  obtain ⟨r, hr, hloaded⟩ := exists_loadTables (s := s)
    (r := { create with
      bufferPool := s.bufferPool
      catalogMeta := s.catalogMeta
      nextTableId := unset.1
      nextIndexId := unset.2 }) h (List.nil_append _)
    ⟨rfl, ⟨rfl, rfl⟩, fun _ _ => ⟨nofun, fun ⟨⟨_, hq⟩, _⟩ => absurd hq List.not_mem_nil⟩,
      fun _ _ => ⟨nofun, fun ⟨⟨_, hq⟩, _⟩ => absurd hq List.not_mem_nil⟩⟩
  refine ⟨r, ⟨hloaded.bufferPool, fun id => Option.ext (fun info => ?_), funext (fun t =>
    Option.ext (fun id => ?_)), ?_, ?_⟩, ?_⟩
  · rw [hloaded.tables, h.listed.tableListed, Option.map_eq_some_iff]
    constructor
    · rintro ⟨-, old, hold, rfl⟩
      exact ⟨old, hold, rfl⟩
    · rintro ⟨old, hold, rfl⟩
      exact ⟨⟨old, hold⟩, old, hold, rfl⟩
  · rw [hloaded.tableNames, h.listed.tableListed]
    refine ⟨And.right, fun hid => ⟨?_, hid⟩⟩
    obtain ⟨info, hinfo, -⟩ := (h.listed.tableNamed t id).mp hid
    exact ⟨info, hinfo⟩
  · rw [hloaded.noIndexes.1]
    exact fun _ _ => ⟨nofun, fun ⟨⟨_, hq⟩, _⟩ => absurd hq List.not_mem_nil⟩
  · rw [hloaded.noIndexes.2]
    exact fun _ _ _ => ⟨nofun, fun ⟨⟨_, hq⟩, _⟩ => absurd hq List.not_mem_nil⟩
  · rw [reopen, h.stored.catalogMeta]
    show (s.catalogMeta.tableMetaPages.foldlM loadTableEntry _).bind _ = _
    rw [hr]
    rfl

/-- A catalog whose tables and indexes have all been loaded is the same. -/
theorem IndexesLoaded.sameCatalog (h : Sound s)
    (hr : IndexesLoaded s s.catalogMeta.indexMetaPages r) : SameCatalog s r := by
  refine ⟨fun t => ?_, fun t _ i => ?_⟩
  · unfold tableEntry
    rw [hr.tableNames]
    refine congrArg (Option.bind _) (funext (fun id => ?_))
    rw [hr.tables]
    cases s.tables id with
    | none => rfl
    | some info =>
      show some (info.tableId, info.rootPageId, (info.schema.columns.map Column.reloaded).map _) = _
      rw [List.map_map]
      rfl
  · have hnames : r.indexNames.findIn t i = s.indexNames.findIn t i := Option.ext (fun id => by
      rw [hr.indexNames, h.listed.indexListed]
      refine ⟨And.right, fun hid => ⟨?_, hid⟩⟩
      obtain ⟨index, hindex, -⟩ := (h.listed.indexNamed t i id).mp hid
      exact ⟨index, hindex⟩)
    have hindexes : ∀ id, r.indexes id = (s.indexes id).map IndexInfo.reloaded := fun id =>
      Option.ext (fun index => by
        rw [hr.indexes, h.listed.indexListed, Option.map_eq_some_iff]
        constructor
        · rintro ⟨-, old, hold, rfl⟩
          exact ⟨old, hold, rfl⟩
        · rintro ⟨old, hold, rfl⟩
          exact ⟨⟨old, hold⟩, old, hold, rfl⟩)
    show (r.indexNames.findIn t i).bind _ = (s.indexNames.findIn t i).bind _
    rw [hnames]
    refine congrArg (Option.bind _) (funext (fun id => ?_))
    rw [hindexes]
    cases s.indexes id <;> rfl

theorem survivesReopening_of_sound (h : Sound s) :
    s.SurvivesReopening ↔ s.IndexesHaveTables := by
  constructor
  · intro hall id index hindex
    obtain ⟨s', hs', -⟩ := hall (0, 0)
    obtain ⟨r, hr, hreopen⟩ := reopen_eq h (0, 0)
    obtain ⟨q, hq⟩ := (h.listed.indexListed id).mpr ⟨index, hindex⟩
    refine Option.ne_none_iff_exists'.mp (fun hnone => ?_)
    have horphan : r.tables index.metaData.tableId = none := by
      rw [hr.tables, hnone]
      rfl
    rw [hreopen, loadIndexes_eq_none h hr.bufferPool hq hq hindex horphan] at hs'
    cases hs'
  · intro howned unset
    obtain ⟨r, hr, hreopen⟩ := reopen_eq h unset
    obtain ⟨s', hs', hloaded⟩ := exists_loadIndexes h howned (List.nil_append _) hr
    exact ⟨s', hreopen.trans hs', hloaded.sameCatalog h⟩

/-- **When the catalog survives reopening**: after any sequence of calls,
exactly when every index is on a table. -/
theorem survivesReopening_iff_indexesHaveTables {calls : List Call} {answers : List DBErr}
    (hnul : ∀ c ∈ calls, c.NulFree) (hrun : Machine.run step create calls = some (s, answers)) :
    s.SurvivesReopening ↔ s.IndexesHaveTables := by
  have hmeets : Machine.Meets step (fun _ call => call.NulFree) create calls :=
    Machine.meets_of_forall_mem hnul create
  exact survivesReopening_of_sound ((Machine.Reaches.init.run hmeets hrun).invariant sound_create
    (fun _ _ _ _ h hc hs => h.of_step hc hs))

/-- A table `t` with a column `a`, and an index `i` on it. -/
def tableWithIndex : List Call :=
  [.createTable [116] ⟨[⟨[97], .kTypeInt, 4, 0, false, true, TypeId.int_supported⟩]⟩ 2 3,
    .createIndex [116] [105] [[97]] 4]

theorem nulFree_tableWithIndex : ∀ c ∈ tableWithIndex, c.NulFree := by
  simp [tableWithIndex, Call.NulFree, Schema.NulFree]

/-- The table with the index survives reopening: the one index is on it. -/
theorem survivesReopening_iff_index : ∃ s answers,
    Machine.run step create tableWithIndex = some (s, answers) ∧ s.SurvivesReopening := by
  have hout : (Machine.run step create tableWithIndex).map (fun r =>
      (r.1.catalogMeta.indexMetaPages.map Prod.fst,
        (r.1.indexes 0).map (fun index => (r.1.tables index.metaData.tableId).isSome))) =
      some ([0], some true) := by decide +kernel
  obtain ⟨⟨s, answers⟩, hrun, heq⟩ := Option.map_eq_some_iff.mp hout
  obtain ⟨hids, htable⟩ := Prod.mk.inj heq
  have hmeets : Machine.Meets step (fun _ call => call.NulFree) create tableWithIndex :=
    Machine.meets_of_forall_mem nulFree_tableWithIndex create
  have hsound : Sound s := (Machine.Reaches.init.run hmeets hrun).invariant sound_create
    (fun _ _ _ _ h hc hs => h.of_step hc hs)
  refine ⟨s, answers, hrun,
    (survivesReopening_iff_indexesHaveTables nulFree_tableWithIndex hrun).mpr ?_⟩
  intro id index hindex
  obtain ⟨q, hq⟩ := (hsound.listed.indexListed id).mpr ⟨index, hindex⟩
  have hmem : id ∈ s.catalogMeta.indexMetaPages.map Prod.fst := List.mem_map_of_mem hq
  rw [hids] at hmem
  cases List.mem_singleton.mp hmem
  rw [hindex, Option.map_some, Option.some_inj] at htable
  exact Option.isSome_iff_exists.mp htable

/-- **A dropped table leaves its indexes behind**, and the catalog cannot be
opened again. -/
theorem not_survivesReopening : ¬ ∀ calls s answers, (∀ c ∈ calls, c.NulFree) →
    Machine.run step create calls = some (s, answers) → s.SurvivesReopening := by
  intro h
  have hnone : (Machine.run step create (tableWithIndex ++ [.dropTable [116]])).map
      (fun r => (reopen r.1.bufferPool (0, 0)).isSome) = some false := by decide +kernel
  obtain ⟨⟨s, answers⟩, hrun, hreopen⟩ := Option.map_eq_some_iff.mp hnone
  have hnul : ∀ c ∈ tableWithIndex ++ [.dropTable [116]], c.NulFree := by
    intro c hc
    rcases List.mem_append.mp hc with hc | hc
    · exact nulFree_tableWithIndex c hc
    · rw [List.mem_singleton.mp hc]
      trivial
  obtain ⟨s', hs', -⟩ := h _ s answers hnul hrun (0, 0)
  rw [hs'] at hreopen
  cases hreopen

end CatalogManager

end MiniSql
