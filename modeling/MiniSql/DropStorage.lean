import MiniSql.PagedHeapChain
import MiniSql.StorageEngine
import Mathlib.Data.Finset.Basic
import Mathlib.Data.Finset.Filter

/-!
# What dropping releases

`DropTable` and `DropIndex` over a buffer pool that counts pins: a page that is
pinned is resident, a fetch may evict any page that is not, and `DeletePage`
gives the id of the page back and takes the page out of the pool unless it is
pinned.

`FreeHeap` fetches each page of the chain for its link and deletes it while it
still has this pin, so `DeletePage` refuses: the id is free, and the page stays
in the pool with a pin that nobody gives up (`PinnedPool.freeLoop_pins`).
`Destroy` of an index asks the pool for nothing, and all pages of the tree stay
in use. So nothing is released, unless there is no page
(`PinnedEngine.releases_iff_empty`).
-/

namespace MiniSql

/-! ## A pool that counts pins -/

/-- The buffer pool and the disk behind it, as they are documented. -/
structure PinnedPool where
  /-- The pages in use on disk, and what is on them. -/
  store : PageStore
  /-- The keys of `page_table_`. -/
  resident : Finset PageId
  /-- `pin_count_` of each page. -/
  pinCount : PageId → ℕ
  /-- A page that is pinned is resident. -/
  resident_of_pinned : ∀ q, pinCount q ≠ 0 → q ∈ resident

namespace PinnedPool

/-- What is resident once a page has been asked for: pages without pins may have
been evicted for it. -/
def residentWith (p : PinnedPool) (evicted : Finset PageId) (q : PageId) : Finset PageId :=
  if q ∈ p.resident then p.resident
  else insert q (p.resident.filter (fun r => p.pinCount r ≠ 0 ∨ r ∉ evicted))

/-- `FetchPage`, of a page in use, and what it evicts if it has to. -/
def fetchPage (p : PinnedPool) (evicted : Finset PageId) (q : PageId) :
    Option (PinnedPool × Bytes.Mem) :=
  (p.store.fetchPage q).map (fun page =>
    ({ store := p.store
       resident := p.residentWith evicted q
       pinCount := Function.update p.pinCount q (p.pinCount q + 1)
       resident_of_pinned := fun r hr => by
        unfold residentWith
        by_cases hrq : r = q
        · subst hrq
          split
          · assumption
          · exact Finset.mem_insert_self ..
        · rw [Function.update_of_ne hrq] at hr
          have hres := p.resident_of_pinned r hr
          split
          · exact hres
          · exact Finset.mem_insert_of_mem (Finset.mem_filter.mpr ⟨hres, .inl hr⟩) }, page))

/-- `UnpinPage`. -/
def unpinPage (p : PinnedPool) (q : PageId) : PinnedPool where
  store := p.store
  resident := p.resident
  pinCount := Function.update p.pinCount q (p.pinCount q - 1)
  resident_of_pinned r hr := p.resident_of_pinned r (fun h0 => hr (by
    by_cases hrq : r = q
    · subst hrq
      rw [Function.update_self, h0]
    · rw [Function.update_of_ne hrq, h0]))

/-- `DeletePage`. The id is given back first. -/
def deletePage (p : PinnedPool) (q : PageId) : PinnedPool × Bool :=
  if h : q ∈ p.resident ∧ p.pinCount q ≠ 0 then
    ({ p with store := p.store.deletePage q }, false)
  else
    ({ store := p.store.deletePage q
       resident := p.resident.erase q
       pinCount := p.pinCount
       resident_of_pinned := fun r hr => Finset.mem_erase.mpr
        ⟨fun hrq => h ⟨hrq ▸ p.resident_of_pinned r hr, hrq ▸ hr⟩,
          p.resident_of_pinned r hr⟩ }, true)

/-- `FreeHeap`, for at most the given number of pages, with what the pool evicts
for each of them. -/
def freeLoop (evicted : PageId → Finset PageId) : ℕ → PinnedPool → PageId → Option PinnedPool
  | 0, p, pageId => if pageId = invalidPageId then some p else none
  | n + 1, p, pageId =>
    if pageId = invalidPageId then some p
    else do
      let (p, page) ← p.fetchPage (evicted pageId) pageId
      freeLoop evicted n (p.deletePage pageId).1 (TablePage.getNextPageId page)

/-- `FreeHeap`. -/
def freeHeap (evicted : PageId → Finset PageId) (p : PinnedPool) (firstPageId : PageId) :
    Option PinnedPool :=
  p.freeLoop evicted p.store.allocated.length firstPageId

/-! ### Pins that are left -/

variable {p p' : PinnedPool} {evicted : PageId → Finset PageId} {q prev cur : PageId}
  {ids : List PageId} {n : ℕ}

theorem fetchPage_eq_some {ev : Finset PageId} {page : Bytes.Mem}
    (h : p.fetchPage ev q = some (p', page)) :
    q ∈ p.store.allocated ∧ page = p.store.data q ∧ p'.store = p.store ∧
      p'.pinCount = Function.update p.pinCount q (p.pinCount q + 1) := by
  obtain ⟨page', hfetch, heq⟩ := Option.map_eq_some_iff.mp h
  cases heq
  obtain ⟨hin, rfl⟩ := PageStore.fetchPage_eq_some.mp hfetch
  exact ⟨hin, rfl, rfl, rfl⟩

@[simp] theorem store_deletePage : (p.deletePage q).1.store = p.store.deletePage q := by
  unfold deletePage
  split <;> rfl

@[simp] theorem pinCount_deletePage : (p.deletePage q).1.pinCount = p.pinCount := by
  unfold deletePage
  split <;> rfl

/-- **What `FreeHeap` leaves**: the ids of the chain are given back, and each of its
pages has one pin more, so that all of them are in the pool. -/
theorem freeLoop_pins (hl : PagedHeap.Linked p.store prev cur ids)
    (hvalid : ∀ id ∈ ids, id ≠ invalidPageId) (hnodup : ids.Nodup)
    (h : p.freeLoop evicted n cur = some p') :
    (∀ q ∈ ids, p'.pinCount q = p.pinCount q + 1) ∧
      (∀ q ∉ ids, p'.pinCount q = p.pinCount q) ∧
      p'.store = ids.foldl (fun store q => store.deletePage q) p.store := by
  induction ids generalizing p prev cur n with
  | nil =>
    have hcur : cur = invalidPageId := hl
    have hdone : p.freeLoop evicted n cur = some p := by
      cases n with
      | zero => exact if_pos hcur
      | succ n => exact if_pos hcur
    rw [hdone] at h
    cases h
    exact ⟨fun _ hmem => absurd hmem List.not_mem_nil, fun _ _ => rfl, rfl⟩
  | cons id ids ih =>
    obtain ⟨rfl, -, hrest⟩ := hl
    have hne := hvalid cur List.mem_cons_self
    obtain ⟨hnotin, hnodup⟩ := List.nodup_cons.mp hnodup
    cases n with
    | zero =>
      rw [freeLoop, if_neg hne] at h
      cases h
    | succ n =>
      rw [freeLoop, if_neg hne] at h
      obtain ⟨⟨p₁, page⟩, hfetch, h⟩ := Option.bind_eq_some_iff.mp h
      obtain ⟨-, rfl, hstore, hpins⟩ := fetchPage_eq_some hfetch
      have hdeleted : (p₁.deletePage cur).1.store = p.store.deletePage cur := by
        rw [store_deletePage, hstore]
      have hlinked : PagedHeap.Linked (p₁.deletePage cur).1.store cur
          (TablePage.getNextPageId (p.store.data cur)) ids :=
        hrest.congr (fun r _ b _ => by rw [hdeleted]; rfl)
      obtain ⟨hin, hout, hsame⟩ :=
        ih hlinked (fun r hr => hvalid r (List.mem_cons_of_mem cur hr)) hnodup h
      rw [pinCount_deletePage, hpins] at hin hout
      refine ⟨fun r hr => ?_, fun r hr => ?_, by rw [hsame, hdeleted]; rfl⟩
      · by_cases hrcur : r = cur
        · rw [hrcur, hout cur hnotin, Function.update_self]
        · rw [hin r ((List.mem_cons.mp hr).resolve_left hrcur), Function.update_of_ne hrcur]
      · obtain ⟨hrcur, hr⟩ := not_or.mp (mt List.mem_cons.mpr hr)
        rw [hout r hr, Function.update_of_ne hrcur]

end PinnedPool

/-! ## The engine over it -/

/-- `DBStorageEngine`, with the pins of its buffer pool. -/
structure PinnedEngine (K V : Type) where
  /-- The catalog and the trees, over the pages in use. -/
  engine : StorageEngine K V
  /-- `bpm_` -/
  bpm : PinnedPool
  /-- The pages are those of the pool. -/
  store_eq : bpm.store = engine.catalog.bufferPool

namespace PinnedEngine

open CatalogManager

variable {K V : Type}

/-- The directory is written to its page, which is fetched for it. -/
def writeCatalogMeta (evicted : Finset PageId) (p : PinnedPool) (m : CatalogMeta) :
    Option PinnedPool := do
  let (p, _) ← p.fetchPage evicted catalogMetaPageId
  let store ← CatalogManager.writeCatalogMeta p.store m
  return { p with store := store }.unpinPage catalogMetaPageId

/-- A catalog over what the pool holds. -/
def withCatalog (s : PinnedEngine K V) (p : PinnedPool) (c : CatalogManager) : PinnedEngine K V :=
  ⟨{ s.engine with catalog := { c with bufferPool := p.store } }, p, rfl⟩

/-- `CatalogManager::DropTable`, with what the pool evicts for each page that is
fetched. -/
def dropTable (evicted : PageId → Finset PageId) (s : PinnedEngine K V) (tableName : StdString) :
    Option (PinnedEngine K V × DBErr) :=
  let c := s.engine.catalog
  match c.tableNames tableName with
  | none => some (s, .dbTableNotExist)
  | some tableId => do
    let tableInfo ← c.tables tableId
    let catalogMeta := { c.catalogMeta with
      tableMetaPages := c.catalogMeta.tableMetaPages.erase tableId }
    let p ← s.bpm.freeHeap evicted tableInfo.rootPageId
    let p ← writeCatalogMeta (evicted catalogMetaPageId) p catalogMeta
    some (s.withCatalog p { c with
      catalogMeta := catalogMeta
      tables := c.tables.erase tableId
      tableNames := c.tableNames.erase tableName }, .dbSuccess)

/-- `CatalogManager::DropIndex`. `Destroy` makes no call to the pool. -/
def dropIndex (evicted : PageId → Finset PageId) (s : PinnedEngine K V)
    (tableName indexName : StdString) : Option (PinnedEngine K V × DBErr) :=
  let c := s.engine.catalog
  match c.indexNames tableName with
  | none => some (s, .dbIndexNotFound)
  | some indexesOfTable =>
    match indexesOfTable indexName with
    | none => some (s, .dbIndexNotFound)
    | some indexId => do
      let _indexInfo ← c.indexes indexId
      let catalogMeta := { c.catalogMeta with
        indexMetaPages := c.catalogMeta.indexMetaPages.erase indexId }
      let p ← writeCatalogMeta (evicted catalogMetaPageId) s.bpm catalogMeta
      some (s.withCatalog p { c with
        catalogMeta := catalogMeta
        indexes := c.indexes.erase indexId
        indexNames := Function.update c.indexNames tableName
          (some (indexesOfTable.erase indexName)) }, .dbSuccess)

/-! ### What the calls do to the catalog -/

variable {s s' : PinnedEngine K V} {evicted : PageId → Finset PageId} {t i : StdString} {o : DBErr}

/-- The directory is written as without pins, and no pin is left. -/
theorem writeCatalogMeta_eq_some {ev : Finset PageId} {p p' : PinnedPool} {m : CatalogMeta}
    (h : writeCatalogMeta ev p m = some p') :
    CatalogManager.writeCatalogMeta p.store m = some p'.store ∧ p'.pinCount = p.pinCount := by
  obtain ⟨⟨p₁, page⟩, hfetch, h⟩ := Option.bind_eq_some_iff.mp h
  obtain ⟨store, hwrite, h⟩ := Option.bind_eq_some_iff.mp h
  cases h
  obtain ⟨-, -, hstore, hpins⟩ := PinnedPool.fetchPage_eq_some hfetch
  refine ⟨hstore ▸ hwrite, ?_⟩
  show Function.update p₁.pinCount _ (p₁.pinCount _ - 1) = _
  rw [hpins, Function.update_self, Nat.add_sub_cancel, Function.update_idem,
    Function.update_eq_self]

/-- **`DropTable`**, where it succeeds. -/
theorem dropTable_cases (h : s.dropTable evicted t = some (s', .dbSuccess)) :
    ∃ tableId tableInfo p, s.engine.catalog.tableNames t = some tableId ∧
      s.engine.catalog.tables tableId = some tableInfo ∧
      s.bpm.freeHeap evicted tableInfo.rootPageId = some p ∧
      CatalogManager.writeCatalogMeta p.store s'.engine.catalog.catalogMeta = some s'.bpm.store ∧
      s'.bpm.pinCount = p.pinCount ∧
      s'.engine.catalog = s.engine.catalog.removeTable s'.bpm.store t tableId := by
  unfold dropTable at h
  dsimp only at h
  split at h
  · cases h
  · rename_i tableId hname
    simp only [Option.bind_eq_bind, Option.bind_eq_some_iff] at h
    obtain ⟨tableInfo, htable, p, hfree, p', hwrite, h⟩ := h
    cases h
    obtain ⟨hstore, hpins⟩ := writeCatalogMeta_eq_some hwrite
    exact ⟨tableId, tableInfo, p, hname, htable, hfree, hstore, hpins, rfl⟩

/-- **`DropIndex`** does to the engine what it does without pins, and leaves the
pins as they are. -/
theorem dropIndex_spec (h : s.dropIndex evicted t i = some (s', o)) :
    s.engine.dropIndex t i = some (s'.engine, .catalog o) ∧ s'.bpm.pinCount = s.bpm.pinCount := by
  unfold dropIndex at h
  dsimp only at h
  unfold StorageEngine.dropIndex CatalogManager.dropIndex
  cases hnames : s.engine.catalog.indexNames t with
  | none =>
    rw [hnames] at h
    cases h
    exact ⟨rfl, rfl⟩
  | some indexesOfTable =>
    rw [hnames] at h
    dsimp only at h ⊢
    cases hindex : indexesOfTable i with
    | none =>
      rw [hindex] at h
      cases h
      exact ⟨rfl, rfl⟩
    | some indexId =>
      rw [hindex] at h
      simp only [Option.bind_eq_bind, Option.bind_eq_some_iff] at h
      obtain ⟨info, hinfo, p, hwrite, h⟩ := h
      cases h
      obtain ⟨hstore, hpins⟩ := writeCatalogMeta_eq_some hwrite
      rw [s.store_eq] at hstore
      refine ⟨?_, hpins⟩
      simp only [Option.bind_eq_bind, hinfo, Option.bind_some, hstore]
      rfl

/-- **`DropTable`** does to the catalog what it does without pins, where the heap
has one page. -/
theorem forget_dropTable {tableId : ℕ} {tableInfo : TableMetadata}
    (hname : s.engine.catalog.tableNames t = some tableId)
    (htable : s.engine.catalog.tables tableId = some tableInfo)
    (hone : PagedHeap.Linked s.bpm.store invalidPageId tableInfo.rootPageId [tableInfo.rootPageId])
    (hvalid : tableInfo.rootPageId ≠ invalidPageId)
    (h : s.dropTable evicted t = some (s', .dbSuccess)) :
    s.engine.catalog.dropTable t = some (s'.engine.catalog, .dbSuccess) := by
  obtain ⟨id, info, p, hid, hinfo, hfree, hwrite, -, hcatalog⟩ := dropTable_cases h
  rw [hname] at hid
  cases hid
  rw [htable] at hinfo
  cases hinfo
  have hstore : p.store = s.engine.catalog.bufferPool.deletePage tableInfo.rootPageId := by
    rw [(PinnedPool.freeLoop_pins hone (fun q hq => List.mem_singleton.mp hq ▸ hvalid)
      (List.nodup_singleton _) hfree).2.2, s.store_eq]
    rfl
  have hmeta : s'.engine.catalog.catalogMeta = { s.engine.catalog.catalogMeta with
      tableMetaPages := s.engine.catalog.catalogMeta.tableMetaPages.erase tableId } := by
    rw [hcatalog]
    rfl
  rw [hstore, hmeta] at hwrite
  unfold CatalogManager.dropTable
  rw [hname]
  simp only [Option.bind_eq_bind, htable, Option.bind_some, hwrite]
  rw [hcatalog]
  rfl

/-! ### What is released -/


/-- The pages of a tree, from its root on. -/
inductive Reached (tree : BPlusTree K V) : PageId → Prop
  | root : tree.rootPageId ≠ invalidPageId → Reached tree tree.rootPageId
  | child {id : PageId} {page : InternalPage K} {e : K × PageId} : Reached tree id →
      tree.pages id = some (.internal page) → e ∈ page.array → Reached tree e.2

/-- An empty tree has no page. -/
theorem not_reached {tree : BPlusTree K V} (h : tree.isEmpty = true) (q : PageId) :
    ¬ Reached tree q := by
  intro hq
  induction hq with
  | root hne => exact hne (of_decide_eq_true h)
  | child _ _ _ ih => exact ih

/-- **The pages are released**: they are free on disk and not in the pool, and
nothing is pinned. -/
structure Releases (s : PinnedEngine K V) (pages : PageId → Prop) : Prop where
  /-- `IsPageFree` -/
  free : ∀ q, pages q → q ∉ s.bpm.store.allocated
  /-- `page_table_` -/
  gone : ∀ q, pages q → q ∉ s.bpm.resident
  /-- `CheckAllUnpinned` -/
  unpinned : ∀ q, s.bpm.pinCount q = 0

/-- A table releases nothing, unless its heap has no page. -/
theorem dropTable_releases_iff (hunpinned : ∀ q, s.bpm.pinCount q = 0) {tableId : ℕ}
    {tableInfo : TableMetadata} {ids : List PageId}
    (hname : s.engine.catalog.tableNames t = some tableId)
    (htable : s.engine.catalog.tables tableId = some tableInfo)
    (hchain : PagedHeap.IsChain ⟨s.bpm.store, tableInfo.rootPageId, tableInfo.schema⟩ ids)
    (h : s.dropTable evicted t = some (s', .dbSuccess)) :
    s'.Releases (· ∈ ids) ↔ ids = [] := by
  obtain ⟨id, info, p, hid, hinfo, hfree, -, hpins, -⟩ := dropTable_cases h
  rw [hname] at hid
  cases hid
  rw [htable] at hinfo
  cases hinfo
  obtain ⟨hnodup, hvalid, hlinked⟩ := hchain
  obtain ⟨hin, hout, -⟩ :=
    PinnedPool.freeLoop_pins hlinked (fun q hq => (hvalid q hq).2) hnodup hfree
  constructor
  · intro hreleases
    refine List.eq_nil_iff_forall_not_mem.mpr (fun q hq => ?_)
    have hzero := hreleases.unpinned q
    rw [hpins, hin q hq] at hzero
    exact absurd hzero (Nat.succ_ne_zero _)
  · rintro rfl
    refine ⟨fun q hq => absurd hq List.not_mem_nil, fun q hq => absurd hq List.not_mem_nil,
      fun q => ?_⟩
    rw [hpins, hout q List.not_mem_nil, hunpinned q]

/-- An index releases nothing, unless its tree is empty. -/
theorem dropIndex_releases_iff (hunpinned : ∀ q, s.bpm.pinCount q = 0) {indexId : ℕ}
    (hinUse : ∀ q, Reached (s.engine.treeOf indexId) q → q ∈ s.bpm.store.allocated)
    (h : s.dropIndex evicted t i = some (s', .dbSuccess)) :
    s'.Releases (Reached (s.engine.treeOf indexId)) ↔
      (s.engine.treeOf indexId).isEmpty = true := by
  obtain ⟨hdrop, hpins⟩ := dropIndex_spec h
  have halloc : s'.bpm.store.allocated = s.bpm.store.allocated := by
    obtain ⟨c, e, hc, he, heq⟩ := StorageEngine.dropIndex_cases hdrop
    cases he
    have hcatalog : s'.engine.catalog = c := by
      rw [heq]
      rfl
    rw [s'.store_eq, s.store_eq, hcatalog]
    rcases CatalogManager.dropIndex_cases hc with ⟨-, hno⟩ | ⟨-, id, p, -, hwrite, rfl⟩
    · exact absurd rfl hno
    · exact (PageStore.serialize_eq_some (CatalogMeta.moves _) hwrite).2.1
  constructor
  · intro hreleases
    refine decide_eq_true (by_contra (fun hroot => ?_))
    have hreached := Reached.root hroot
    exact hreleases.free _ hreached (halloc ▸ hinUse _ hreached)
  · intro hempty
    exact ⟨fun q hq => absurd hq (not_reached hempty q),
      fun q hq => absurd hq (not_reached hempty q), fun q => by rw [hpins, hunpinned q]⟩

/-- **Dropping releases no page**: with no page pinned before, a successful
`DropTable` or `DropIndex` releases the pages of the heap or of the tree exactly
when there are none. -/
theorem releases_iff_empty (evicted : PageId → Finset PageId)
    (hunpinned : ∀ q, s.bpm.pinCount q = 0) :
    (∀ t tableId tableInfo ids s', s.engine.catalog.tableNames t = some tableId →
      s.engine.catalog.tables tableId = some tableInfo →
      PagedHeap.IsChain ⟨s.bpm.store, tableInfo.rootPageId, tableInfo.schema⟩ ids →
      s.dropTable evicted t = some (s', .dbSuccess) → (s'.Releases (· ∈ ids) ↔ ids = [])) ∧
    (∀ t i indexId s', s.engine.catalog.indexNames.findIn t i = some indexId →
      (∀ q, Reached (s.engine.treeOf indexId) q → q ∈ s.bpm.store.allocated) →
      s.dropIndex evicted t i = some (s', .dbSuccess) →
      (s'.Releases (Reached (s.engine.treeOf indexId)) ↔
        (s.engine.treeOf indexId).isEmpty = true)) :=
  ⟨fun _ _ _ _ _ hname htable hchain h => dropTable_releases_iff hunpinned hname htable hchain h,
    fun _ _ _ _ _ hinUse h => dropIndex_releases_iff hunpinned hinUse h⟩

/-- An engine with nothing in its pool, the first page of the heap of a table as
the constructor of `TableHeap` leaves it. -/
def start (s : StorageEngine K V) (heapPageId : PageId) : PinnedEngine K V :=
  let p := s.catalog.bufferPool
  let p := p.writePage heapPageId
    (TablePage.init (p.data heapPageId) (Int32.ofInt heapPageId) (-1))
  ⟨{ s with catalog := { s.catalog with bufferPool := p } }, ⟨p, ∅, fun _ => 0, nofun⟩, rfl⟩

/-- A table `t` with an index `a` that has an entry and an index `b` without
one. -/
def twoIndexes : List (StorageEngine.Call ℕ ℕ) :=
  [.createTable [116] ⟨[⟨[97], .kTypeInt, 4, 0, false, true, TypeId.int_supported⟩]⟩ 2 3,
    .createIndex [116] [97] [[97]] 4, .createIndex [116] [98] [[97]] 5,
    .index [116] [97] inferInstance
      { toTreeConfig := TreeConfig.above 4 4
        indexId := 0
        foreign := fun _ q => ⟨q, 0, 0, 0, []⟩ } (.insert 1 1)]

/-- The heap of the table has one page. -/
theorem isChain_start (s : StorageEngine K V) {q : PageId} {tableInfo : TableMetadata}
    (hpage : tableInfo.rootPageId = q) (hin : q ∈ s.catalog.bufferPool.allocated)
    (hq : 0 ≤ q ∧ q < 2 ^ 31) :
    PagedHeap.IsChain ⟨(start s q).bpm.store, tableInfo.rootPageId, tableInfo.schema⟩ [q] := by
  rw [hpage]
  have hlinks := TablePage.links_init (s.catalog.bufferPool.data q) (Int32.ofInt q) (-1)
  have hdata : (start s q).bpm.store.data q =
      TablePage.init (s.catalog.bufferPool.data q) (Int32.ofInt q) (-1) :=
    PageStore.data_writePage_self
  refine ⟨List.nodup_singleton q, fun r hr => ?_, rfl, ?_, ?_⟩
  · rw [List.mem_singleton.mp hr]
    exact ⟨hin, fun h => absurd (h ▸ hq.1) (by decide)⟩
  · rw [hdata, hlinks.1]
    rfl
  · show _ = invalidPageId
    rw [hdata, hlinks.2]

/-- What there is after that, and what is left by dropping the table or the
index `b`. -/
def dropped : Option (StorageEngine ℕ ℕ × PinnedEngine ℕ ℕ × PinnedEngine ℕ ℕ) := do
  let (e, _) ← Machine.run StorageEngine.step StorageEngine.create twoIndexes
  let (s₁, o₁) ← (start e 2).dropTable (fun _ => ∅) [116]
  let (s₂, o₂) ← (start e 2).dropIndex (fun _ => ∅) [116] [98]
  if o₁ = .dbSuccess ∧ o₂ = .dbSuccess then some (e, s₁, s₂) else none

theorem exists_dropped : ∃ (e : StorageEngine ℕ ℕ) (s₁ s₂ : PinnedEngine ℕ ℕ) (tableInfo : _),
    (start e 2).dropTable (fun _ => ∅) [116] = some (s₁, .dbSuccess) ∧
    (start e 2).dropIndex (fun _ => ∅) [116] [98] = some (s₂, .dbSuccess) ∧
    2 ∈ e.catalog.bufferPool.allocated ∧ e.catalog.tableNames [116] = some 0 ∧
    e.catalog.tables 0 = some tableInfo ∧ tableInfo.rootPageId = 2 ∧
    e.catalog.indexNames.findIn [116] [98] = some 1 ∧ e.rootPageIds 1 = invalidPageId := by
  have hfound : dropped.map (fun r => (decide (2 ∈ r.1.catalog.bufferPool.allocated),
      r.1.catalog.tableNames [116], (r.1.catalog.tables 0).map TableMetadata.rootPageId,
      r.1.catalog.indexNames.findIn [116] [98], r.1.rootPageIds 1)) =
    some (true, some 0, some 2, some 1, invalidPageId) := by decide +kernel
  obtain ⟨⟨e, s₁, s₂⟩, hdropped, hfacts⟩ := Option.map_eq_some_iff.mp hfound
  obtain ⟨hin, hname, htable, hindex, hroot⟩ : _ ∧ _ ∧ _ ∧ _ ∧ _ := by
    simpa only [Prod.mk.injEq] using hfacts
  obtain ⟨tableInfo, htable, hpage⟩ := Option.map_eq_some_iff.mp htable
  unfold dropped at hdropped
  simp only [Option.bind_eq_bind] at hdropped
  obtain ⟨⟨e', answers⟩, -, hdropped⟩ := Option.bind_eq_some_iff.mp hdropped
  obtain ⟨⟨s₁', o₁⟩, h₁, hdropped⟩ := Option.bind_eq_some_iff.mp hdropped
  obtain ⟨⟨s₂', o₂⟩, h₂, hdropped⟩ := Option.bind_eq_some_iff.mp hdropped
  obtain ⟨⟨ho₁, ho₂⟩, heq⟩ := Option.ite_none_right_eq_some.mp hdropped
  cases heq
  obtain rfl : o₁ = .dbSuccess := ho₁
  obtain rfl : o₂ = .dbSuccess := ho₂
  exact ⟨_, _, _, tableInfo, h₁, h₂, of_decide_eq_true hin, hname, htable, hpage,
    hindex, hroot⟩

/-- Dropping the table leaves its page in the pool; dropping the index `b`
releases all that there is of it. -/
theorem releases_iff_empty_dropped : ∃ s s₁ s₂ : PinnedEngine ℕ ℕ,
    s.dropTable (fun _ => ∅) [116] = some (s₁, .dbSuccess) ∧ ¬ s₁.Releases (· ∈ [2]) ∧
      s.dropIndex (fun _ => ∅) [116] [98] = some (s₂, .dbSuccess) ∧
      s₂.Releases (Reached (s.engine.treeOf 1)) := by
  obtain ⟨e, s₁, s₂, tableInfo, h₁, h₂, hin, hname, htable, hpage, hindex, hroot⟩ := exists_dropped
  obtain ⟨htables, hindexes⟩ := releases_iff_empty (s := start e 2) (fun _ => ∅) (fun _ => rfl)
  have hchain : PagedHeap.IsChain
      ⟨(start e 2).bpm.store, tableInfo.rootPageId, tableInfo.schema⟩ [2] :=
    isChain_start e hpage hin (by decide)
  refine ⟨start e 2, s₁, s₂, h₁, fun hreleases => ?_, h₂, ?_⟩
  · exact List.cons_ne_nil 2 [] ((htables _ _ _ [2] _ hname htable hchain h₁).mp hreleases)
  · have hempty : ((start e 2).engine.treeOf 1).isEmpty = true := decide_eq_true hroot
    exact (hindexes _ _ 1 _ hindex (fun q hq => absurd hq (not_reached hempty q)) h₂).mpr hempty

/-- **A pin is left** on the page of a table that has been dropped, and the page
stays in the pool. -/
theorem not_releases : ¬ ∀ (s s' : PinnedEngine ℕ ℕ) (evicted : PageId → Finset PageId)
    (t : StdString) (tableId : ℕ) (tableInfo : TableMetadata) (ids : List PageId),
    (∀ q, s.bpm.pinCount q = 0) → s.engine.catalog.tableNames t = some tableId →
    s.engine.catalog.tables tableId = some tableInfo →
    PagedHeap.IsChain ⟨s.bpm.store, tableInfo.rootPageId, tableInfo.schema⟩ ids →
    s.dropTable evicted t = some (s', .dbSuccess) → s'.Releases (· ∈ ids) := by
  intro hall
  obtain ⟨e, s₁, -, tableInfo, h₁, -, hin, hname, htable, hpage, -⟩ := exists_dropped
  have hchain : PagedHeap.IsChain
      ⟨(start e 2).bpm.store, tableInfo.rootPageId, tableInfo.schema⟩ [2] :=
    isChain_start e hpage hin (by decide)
  have hreleases := hall (start e 2) s₁ _ [116] 0 tableInfo [2] (fun _ => rfl) hname htable hchain
    h₁
  exact List.cons_ne_nil 2 []
    ((dropTable_releases_iff (fun _ => rfl) hname htable hchain h₁).mp hreleases)

end PinnedEngine

end MiniSql
