import MiniSql.CatalogMeta

/-!
# Which directories and index metadata survive their page

The directory of the catalog is two maps, each stored as the number of its
entries and the entries in the order of their keys; the metadata of an index
are three words, a name and the counted positions of its key. Both are walked
with a pointer that is moved by hand.

The numbers of entries are stored as words of 32 bits *with a sign*, and
`GetSerializedSize` adds up a word without one. So a directory comes back
exactly if neither map has `2 ^ 31` entries, and it takes exactly the bytes
that `GetSerializedSize` returns exactly if these are fewer than `2 ^ 32`
(`directory_roundTrips`). A page holds much less than that.
-/

namespace MiniSql

open Serial

/-! ## Directories -/

namespace CatalogMeta

/-- A directory as its type has it: two maps, with the ids and the pages of 32
bits. -/
structure InRange (c : CatalogMeta) : Prop where
  /-- `table_meta_pages_` is a map. -/
  tables : OrderedMap.Sorted c.tableMetaPages
  /-- `index_meta_pages_` is a map. -/
  indexes : OrderedMap.Sorted c.indexMetaPages
  /-- Of `uint32_t` and `int32_t`. -/
  tableEntries : ∀ e ∈ c.tableMetaPages, EntryFits e
  /-- And so is the other one. -/
  indexEntries : ∀ e ∈ c.indexMetaPages, EntryFits e

/-- What `GetSerializedSize` returns: a `uint32_t`. -/
def returnedSize (c : CatalogMeta) : ℕ := c.getSerializedSize % 2 ^ 32

/-- The entries of either map can be counted in an `int32_t`. -/
structure CountsFit (c : CatalogMeta) : Prop where
  /-- `table_meta_pages_.size()`. -/
  tables : c.tableMetaPages.length < 2 ^ 31
  /-- `index_meta_pages_.size()`. -/
  indexes : c.indexMetaPages.length < 2 ^ 31

/-- **A directory that is read** has no more entries than an `int32_t` can
count: from a negative count no entry is read. -/
theorem gives_deserializeFrom : Gives deserializeFrom CountsFit := by
  have hshort : ∀ {z : ℤ} {l : List (ℕ × PageId)}, z < 2 ^ 31 → l.length = z.toNat →
      (OrderedMap.emplaceAll l).length < 2 ^ 31 := by
    intro z l hz hl
    have hle := OrderedMap.length_emplaceAll_le l
    omega
  unfold deserializeFrom
  exact (gives_true _).bind (fun _ _ => gives_getInt32.bind (fun tableNums htables =>
    ((gives_true getEntry).getMany _).bind (fun tables htlen =>
    gives_getInt32.bind (fun indexNums hindexes =>
    ((gives_true getEntry).getMany _).bind (fun indexes hilen =>
    Gives.pure ⟨hshort htables htlen.1, hshort hindexes hilen.1⟩)))))

/-- **Which directories come back.** -/
theorem comesBack_iff {c : CatalogMeta} (hrange : c.InRange) (cur : Cursor) :
    ComesBack c.serializeTo deserializeFrom c cur ↔ c.CountsFit := by
  refine ⟨gives_deserializeFrom _ _ _ _, fun hfit => ?_⟩
  exact (readsBack_of_counts hfit.tables hfit.indexes hrange.tables hrange.indexes
    hrange.tableEntries hrange.indexEntries).comesBack cur

/-- A directory spans what `GetSerializedSize` returns, unless that sum has
gone over the end of its word. -/
theorem spans_iff (c : CatalogMeta) (cur : Cursor) :
    Spans c.serializeTo c.returnedSize cur ↔ c.getSerializedSize < 2 ^ 32 := by
  rw [(moves c).spans_iff cur, returnedSize, Nat.mod_eq_iff_lt (by decide)]

end CatalogMeta

/-! ## The metadata of an index -/

namespace IndexMetadata

/-- Metadata as the constructor makes them, with a name that has no zero
byte. -/
structure InRange (i : IndexMetadata) : Prop where
  /-- `index_id_` is a `uint32_t`. -/
  indexId : i.indexId < 2 ^ 32
  /-- So is `table_id_`. -/
  tableId : i.tableId < 2 ^ 32
  /-- And so are the positions in `key_map_`. -/
  keyMap : ∀ k ∈ i.keyMap, k < 2 ^ 32
  /-- The name has no zero byte. -/
  indexName : (0 : UInt8) ∉ i.indexName

/-- What `GetSerializedSize` returns, and `SerializeTo` and `DeserializeFrom`
as their `ofs`: a `uint32_t`. -/
def returnedSize (i : IndexMetadata) : ℕ := i.getSerializedSize % 2 ^ 32

/-- The way over the name fits the `uint32_t` of `move`, and the positions can
be counted by the `int` of the loop that reads them. -/
structure LengthsFit (i : IndexMetadata) : Prop where
  /-- `move = len + 4`. -/
  indexName : i.indexName.length + 4 < 2 ^ 32
  /-- `auto i = 0`. -/
  keyMap : i.keyMap.length < 2 ^ 31

/-- The metadata of an index come back. -/
theorem comesBack {i : IndexMetadata} (hrange : i.InRange) (hfit : i.LengthsFit) (cur : Cursor) :
    ComesBack i.serializeTo deserializeFrom i cur := by
  have hname := hfit.indexName
  have hcount := hfit.keyMap
  exact (readsBack_of_lengths (by omega) (by omega) hrange.indexId hrange.tableId hrange.keyMap
    hrange.indexName).comesBack cur

/-- They span what `GetSerializedSize` returns, unless that sum has gone over
the end of its word. -/
theorem spans_iff (i : IndexMetadata) (cur : Cursor) :
    Spans i.serializeTo i.returnedSize cur ↔ i.getSerializedSize < 2 ^ 32 := by
  rw [(moves i).spans_iff cur, returnedSize, Nat.mod_eq_iff_lt (by decide)]

end IndexMetadata

/-! ## Round trips -/

/-- **The codecs of the catalog.** At any place of any memory, a directory comes
back, over as many bytes as have been written, exactly if its entries can be
counted, and so do the metadata of an index whose lengths fit; either spans
what `GetSerializedSize` returns exactly if the sum fits its word. -/
theorem directory_roundTrips (cur : Cursor) :
    (∀ c : CatalogMeta, c.InRange →
      (ComesBack c.serializeTo CatalogMeta.deserializeFrom c cur ↔ c.CountsFit) ∧
      (Spans c.serializeTo c.returnedSize cur ↔ c.getSerializedSize < 2 ^ 32)) ∧
    ∀ i : IndexMetadata, i.InRange → i.LengthsFit →
      ComesBack i.serializeTo IndexMetadata.deserializeFrom i cur ∧
      (Spans i.serializeTo i.returnedSize cur ↔ i.getSerializedSize < 2 ^ 32) :=
  ⟨fun c hrange => ⟨CatalogMeta.comesBack_iff hrange cur, CatalogMeta.spans_iff c cur⟩,
    fun i hrange hfit => ⟨IndexMetadata.comesBack hrange hfit cur, IndexMetadata.spans_iff i cur⟩⟩

/-- The directory of the tables `0`, …, `n - 1`, all of them on page `1`. -/
def directoryOfTables (n : ℕ) : CatalogMeta := ⟨(List.range n).map (·, 1), []⟩

/-- It has the types of a directory. -/
theorem inRange_directoryOfTables {n : ℕ} (hn : n ≤ 2 ^ 32) : (directoryOfTables n).InRange where
  tables := List.pairwise_map.mpr List.pairwise_lt_range
  indexes := .nil
  tableEntries e he := by
    obtain ⟨k, hk, rfl⟩ := List.mem_map.mp he
    have hlt := List.mem_range.mp hk
    exact ⟨by show k < 2 ^ 32; omega, by show (-2 ^ 31 : ℤ) ≤ 1; decide,
      by show (1 : ℤ) < 2 ^ 31; decide⟩
  indexEntries := nofun

/-- An index on the columns `2` and `0` of the table `5`. -/
def indexOfTwoColumns : IndexMetadata := ⟨7, [105, 100, 120], 5, [2, 0]⟩

/-- At the start of an empty memory, the directory of two tables and the
metadata of an index come back from the bytes that `GetSerializedSize`
announces. -/
theorem directory_roundTrips_small :
    (ComesBack (directoryOfTables 2).serializeTo CatalogMeta.deserializeFrom (directoryOfTables 2)
        ⟨fun _ => 0, 0⟩ ∧
      Spans (directoryOfTables 2).serializeTo 28 ⟨fun _ => 0, 0⟩) ∧
    ComesBack indexOfTwoColumns.serializeTo IndexMetadata.deserializeFrom indexOfTwoColumns
        ⟨fun _ => 0, 0⟩ ∧
      Spans indexOfTwoColumns.serializeTo 35 ⟨fun _ => 0, 0⟩ := by
  obtain ⟨hdirectory, hindex⟩ := directory_roundTrips ⟨fun _ => 0, 0⟩
  obtain ⟨hback, hspans⟩ := hdirectory _ (inRange_directoryOfTables (n := 2) (by decide))
  obtain ⟨hback', hspans'⟩ := hindex indexOfTwoColumns ⟨by decide, by decide, by decide, by decide⟩
    ⟨by decide, by decide⟩
  exact ⟨⟨hback.mpr ⟨by decide, by decide⟩, hspans.mpr (by decide)⟩, hback',
    hspans'.mpr (by decide)⟩

/-- The directory of `2 ^ 31` tables does not come back, and `GetSerializedSize`
does not say how many bytes it takes. -/
theorem not_directory_roundTrips :
    ¬ (∀ c : CatalogMeta, c.InRange →
      ComesBack c.serializeTo CatalogMeta.deserializeFrom c ⟨fun _ => 0, 0⟩) ∧
    ¬ ∀ c : CatalogMeta, c.InRange → Spans c.serializeTo c.returnedSize ⟨fun _ => 0, 0⟩ := by
  have hrange : (directoryOfTables (2 ^ 31)).InRange := inRange_directoryOfTables (by decide)
  have hlength : (directoryOfTables (2 ^ 31)).tableMetaPages.length = 2 ^ 31 := by
    rw [directoryOfTables, List.length_map, List.length_range]
  refine ⟨fun hall => ?_, fun hall => ?_⟩
  · have hfit := (CatalogMeta.comesBack_iff hrange _).mp (hall _ hrange)
    exact absurd hfit.tables (by rw [hlength]; decide)
  · have hsize := (CatalogMeta.spans_iff _ _).mp (hall _ hrange)
    rw [CatalogMeta.getSerializedSize_eq, hlength] at hsize
    omega

end MiniSql
