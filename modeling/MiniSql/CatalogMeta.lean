import MiniSql.Record
import MiniSql.Serial
import MiniSql.StdMaps
import Mathlib.Algebra.BigOperators.Group.List.Basic
import Mathlib.Algebra.Order.BigOperators.Group.List
import Mathlib.Algebra.Order.Group.Nat

/-!
# The metadata pages of the catalog

What the catalog keeps on pages: the directory of all tables and indexes
(`CatalogMeta`, on page `CATALOG_META_PAGE_ID`), and one page for each table
(`TableMetadata`, with its schema and columns) and each index
(`IndexMetadata`). Each has its `SerializeTo`, `GetSerializedSize` and
`DeserializeFrom`, statement by statement.

A magic number that does not match is logged and nothing else, and behind a
name the pointer moves four bytes further than the name is long. A string is
read back up to its first zero byte, so the formats hold for names without
one; `CHAR` columns come back with another `len_`, which is not stored
(`Column.reloaded`).

The steps of the pointer and their sum are of type `uint32_t` in the source.
Here they are numbers without a bound, and that is the same as long as a name
with its four bytes and the whole size fit 32 bits (`TableMetadata.SizeFits`):
what is said of reading back asks for it.
-/

namespace MiniSql

open Serial

/-- `CATALOG_META_PAGE_ID`. -/
def catalogMetaPageId : PageId := 0

/-! ## Columns and schemas -/

namespace TypeId

/-- The word that an enumerator is stored in. -/
def toWord : TypeId → ℕ
  | kTypeInvalid => 0
  | kTypeInt => 1
  | kTypeFloat => 2
  | kTypeChar => 3

/-- The enumerator that is stored in a word. -/
def ofWord : ℕ → Option TypeId
  | 0 => some kTypeInvalid
  | 1 => some kTypeInt
  | 2 => some kTypeFloat
  | 3 => some kTypeChar
  | _ => none

@[simp] theorem ofWord_toWord (t : TypeId) : ofWord t.toWord = some t := by
  cases t <;> rfl

theorem toWord_lt (t : TypeId) : t.toWord < 2 ^ 32 := by
  cases t <;> decide

end TypeId

namespace Column

/-- `COLUMN_MAGIC_NUM`. -/
def magicNum : ℕ := 210928

/-- The constructor without a length: it asserts a supported type and gives a
`CHAR` the length of the name and four more bytes. -/
def ofType (name : StdString) (type : TypeId) (index : ℕ) (nullable unique : Bool) :
    Option Column :=
  match type with
  | .kTypeInvalid => none
  | .kTypeInt => some ⟨name, .kTypeInt, 4, index, nullable, unique, TypeId.int_supported⟩
  | .kTypeFloat => some ⟨name, .kTypeFloat, 4, index, nullable, unique, TypeId.float_supported⟩
  | .kTypeChar =>
    some ⟨name, .kTypeChar, (name.length + 4) % 2 ^ 32, index, nullable, unique,
      TypeId.char_supported⟩

/-- The byte of a `bool`. -/
def ofBool (b : Bool) : UInt8 := if b then 1 else 0

/-- `Column::SerializeTo`. -/
def serializeTo (c : Column) : Writer := do
  putUInt32 magicNum
  putUInt32 c.name.length
  putBytes c.name
  skip 4
  putUInt32 c.type.toWord
  putUInt32 c.tableInd
  putByte (ofBool c.nullable)
  putByte (ofBool c.unique)

/-- `Column::GetSerializedSize`. -/
def getSerializedSize (c : Column) : ℕ := 3 * 4 + 2 * 1 + (4 + c.name.length) + 4

/-- `Column::DeserializeFrom`. -/
def deserializeFrom : Reader Column := do
  let _magicNum ← getUInt32
  let len ← getUInt32
  let name ← getString len
  pass 4
  let type ← getUInt32
  let index ← getUInt32
  let nullable ← getByte
  let unique ← getByte
  lift ((TypeId.ofWord type).bind (fun t => ofType name t index (nullable != 0) (unique != 0)))

end Column

namespace Schema

/-- `SCHEMA_MAGIC_NUM`. -/
def magicNum : ℕ := 200715

/-- `Schema::SerializeTo`. -/
def serializeTo (s : Schema) : Writer := do
  putInt32 magicNum
  putUInt32 s.columns.length
  putAll Column.serializeTo s.columns

/-- `Schema::GetSerializedSize`. -/
def getSerializedSize (s : Schema) : ℕ := 2 * 4 + (s.columns.map Column.getSerializedSize).sum

/-- `Schema::DeserializeFrom`. -/
def deserializeFrom : Reader Schema := do
  let _magicNum ← getUInt32
  let size ← getUInt32
  let columns ← getMany Column.deserializeFrom size
  pure ⟨columns⟩

/-- `Schema::ShallowCopySchema`: the columns at some positions, all of which
must be there. -/
def shallowCopySchema (s : Schema) (attrs : List ℕ) : Option Schema :=
  (attrs.mapM (s.columns[·]?)).map Schema.mk

end Schema

/-! ## The metadata of a table, of an index and of the catalog -/

/-- `TableMetadata`. -/
structure TableMetadata where
  /-- `table_id_` -/
  tableId : ℕ
  /-- `table_name_` -/
  tableName : StdString
  /-- `root_page_id_` -/
  rootPageId : PageId
  /-- `schema_` -/
  schema : Schema

/-- `IndexMetadata`. -/
structure IndexMetadata where
  /-- `index_id_` -/
  indexId : ℕ
  /-- `index_name_` -/
  indexName : StdString
  /-- `table_id_` -/
  tableId : ℕ
  /-- `key_map_` -/
  keyMap : List ℕ

/-- `CatalogMeta`. -/
structure CatalogMeta where
  /-- `table_meta_pages_` -/
  tableMetaPages : OrderedMap PageId
  /-- `index_meta_pages_` -/
  indexMetaPages : OrderedMap PageId

namespace TableMetadata

/-- `TABLE_METADATA_MAGIC_NUM`. -/
def magicNum : ℕ := 344528

/-- `TableMetadata::SerializeTo`. -/
def serializeTo (t : TableMetadata) : Writer := do
  putUInt32 magicNum
  putUInt32 t.tableId
  putUInt32 t.tableName.length
  putBytes t.tableName
  skip 4
  putInt32 t.rootPageId
  t.schema.serializeTo

/-- `TableMetadata::GetSerializedSize`. -/
def getSerializedSize (t : TableMetadata) : ℕ :=
  3 * 4 + (4 + t.tableName.length) + 4 + t.schema.getSerializedSize

/-- `TableMetadata::DeserializeFrom`. -/
def deserializeFrom : Reader TableMetadata := do
  let _magicNum ← getUInt32
  let tableId ← getUInt32
  let len ← getUInt32
  let tableName ← getString len
  pass 4
  let rootPageId ← getInt32
  let schema ← Schema.deserializeFrom
  pure ⟨tableId, tableName, rootPageId, schema⟩

end TableMetadata

namespace IndexMetadata

/-- `INDEX_METADATA_MAGIC_NUM`. -/
def magicNum : ℕ := 344528

/-- `IndexMetadata::SerializeTo`. -/
def serializeTo (i : IndexMetadata) : Writer := do
  putUInt32 magicNum
  putUInt32 i.indexId
  putUInt32 i.indexName.length
  putBytes i.indexName
  skip 4
  putUInt32 i.tableId
  putUInt32 i.keyMap.length
  putAll putUInt32 i.keyMap

/-- `IndexMetadata::GetSerializedSize`. -/
def getSerializedSize (i : IndexMetadata) : ℕ :=
  5 * 4 + (4 + i.indexName.length) + 4 * i.keyMap.length

/-- `IndexMetadata::DeserializeFrom`. -/
def deserializeFrom : Reader IndexMetadata := do
  let _magicNum ← getUInt32
  let indexId ← getUInt32
  let len ← getUInt32
  let indexName ← getString len
  pass 4
  let tableId ← getUInt32
  let mapSize ← getUInt32
  let keyMap ← getMany getUInt32 mapSize
  pure ⟨indexId, indexName, tableId, keyMap⟩

end IndexMetadata

namespace CatalogMeta

/-- `CATALOG_METADATA_MAGIC_NUM`. -/
def magicNum : ℕ := 89849

/-- The round of the two loops that store an entry. -/
def putEntry (e : ℕ × PageId) : Writer := do
  putUInt32 e.1
  putInt32 e.2

/-- The round of the two loops that take an entry. -/
def getEntry : Reader (ℕ × PageId) := do
  let first ← getUInt32
  let second ← getInt32
  pure (first, second)

/-- `CatalogMeta::SerializeTo`. -/
def serializeTo (c : CatalogMeta) : Writer := do
  putUInt32 magicNum
  putInt32 c.tableMetaPages.length
  putAll putEntry c.tableMetaPages
  putInt32 c.indexMetaPages.length
  putAll putEntry c.indexMetaPages

/-- `CatalogMeta::GetSerializedSize`. -/
def getSerializedSize (c : CatalogMeta) : ℕ :=
  2 * 4 + 4 + (c.tableMetaPages.map (fun _ => 4 + 4)).sum +
    (c.indexMetaPages.map (fun _ => 4 + 4)).sum

/-- `CatalogMeta::DeserializeFrom`. -/
def deserializeFrom : Reader CatalogMeta := do
  let _magicNum ← getUInt32
  let tableNums ← getInt32
  let tables ← getMany getEntry tableNums.toNat
  let indexNums ← getInt32
  let indexes ← getMany getEntry indexNums.toNat
  pure ⟨OrderedMap.emplaceAll tables, OrderedMap.emplaceAll indexes⟩

end CatalogMeta

/-! ## What is read back -/

namespace Column

/-- The column that comes back: its `len_` is built again by the
constructor. -/
def reloaded (c : Column) : Column :=
  { c with
    len := match c.type with
      | .kTypeChar => (c.name.length + 4) % 2 ^ 32
      | _ => 4
    tableInd := c.tableInd % 2 ^ 32 }

theorem ofType_eq (c : Column) :
    ofType c.name c.type (c.tableInd % 2 ^ 32) c.nullable c.unique = some c.reloaded := by
  obtain ⟨name, type, len, ind, nullable, unique, supported⟩ := c
  cases type with
  | kTypeInvalid => exact absurd rfl supported
  | _ => rfl

theorem ofBool_ne_zero (b : Bool) : (ofBool b != 0) = b := by
  cases b <;> rfl

/-- A column takes the announced bytes. -/
theorem moves (c : Column) : Moves c.serializeTo c.getSerializedSize :=
  ((moves_putUInt32 _).bind <| (moves_putUInt32 _).bind <| (moves_putBytes _).bind <|
    (moves_skip 4).bind <| (moves_putUInt32 _).bind <| (moves_putUInt32 _).bind <|
    (moves_putByte _).bind (moves_putByte _)).of_eq (by
      unfold getSerializedSize
      omega)

/-- **Columns are read back.** -/
theorem readsBack {c : Column} (hmove : c.name.length + 4 < 2 ^ 32)
    (hnul : (0 : UInt8) ∉ c.name) :
    ReadsBack c.serializeTo deserializeFrom c.reloaded c.getSerializedSize := by
  have hbuilt : (TypeId.ofWord c.type.toWord).bind (fun t =>
      ofType c.name t (c.tableInd % 2 ^ 32) (ofBool c.nullable != 0) (ofBool c.unique != 0)) =
        some c.reloaded := by
    rw [TypeId.ofWord_toWord, Option.bind_some, ofBool_ne_zero, ofBool_ne_zero, ofType_eq]
  have hlen : c.name.length < 2 ^ 32 := by omega
  refine ReadsBack.of_eq
    ((readsBack_putUInt32 (by decide)).bind <| (readsBack_putUInt32 hlen).bind <|
      (readsBack_putString hnul).bind <| (readsBack_skip 4).bind <|
      (readsBack_putUInt32 c.type.toWord_lt).bind <| (readsBack_putUInt32_mod c.tableInd).bind <|
      (readsBack_putByte (ofBool c.nullable)).bind <|
      (readsBack_putByte (ofBool c.unique)).lift hbuilt) ?_
  unfold getSerializedSize
  omega

end Column

namespace Schema

/-- The schema that comes back. -/
def reloaded (s : Schema) : Schema := ⟨s.columns.map Column.reloaded⟩

/-- The column names have no zero in them. -/
def NulFree (s : Schema) : Prop := ∀ c ∈ s.columns, (0 : UInt8) ∉ c.name

/-- A schema takes the announced bytes. -/
theorem moves (s : Schema) : Moves s.serializeTo s.getSerializedSize :=
  ((moves_putInt32 _).bind <| (moves_putUInt32 _).bind
    (Moves.putAll (fun c _ => Column.moves c))).of_eq (by
      unfold getSerializedSize
      omega)

/-- A column is not larger than its schema. -/
theorem getSerializedSize_le {s : Schema} {c : Column} (hc : c ∈ s.columns) :
    c.getSerializedSize ≤ s.getSerializedSize :=
  (List.le_sum_of_mem (List.mem_map_of_mem hc)).trans (Nat.le_add_left _ _)

/-- A schema has no more columns than bytes. -/
theorem length_columns_le (s : Schema) : s.columns.length ≤ s.getSerializedSize := by
  have hone : ∀ n ∈ s.columns.map Column.getSerializedSize, 1 ≤ n := by
    intro n hn
    obtain ⟨c, -, rfl⟩ := List.mem_map.mp hn
    unfold Column.getSerializedSize
    omega
  have hlen := List.length_le_sum_of_one_le _ hone
  rw [List.length_map] at hlen
  exact hlen.trans (Nat.le_add_left _ _)

/-- The number of the columns fits the word that it is stored in, and the way
over a name the `uint32_t` of `move`. -/
structure LengthsFit (s : Schema) : Prop where
  columns : s.columns.length < 2 ^ 32
  /-- `move = name_.length() + 4`. -/
  names : ∀ c ∈ s.columns, c.name.length + 4 < 2 ^ 32

/-- They do in a schema whose size fits a `uint32_t`. -/
theorem lengthsFit {s : Schema} (hsize : s.getSerializedSize < 2 ^ 32) : s.LengthsFit where
  columns := (length_columns_le s).trans_lt hsize
  names c hc := by
    have hle := (getSerializedSize_le hc).trans_lt hsize
    unfold Column.getSerializedSize at hle
    omega

/-- **Schemas are read back.** -/
theorem readsBack {s : Schema} (hfit : s.LengthsFit) (hnul : s.NulFree) :
    ReadsBack s.serializeTo deserializeFrom s.reloaded s.getSerializedSize := by
  have hcolumns : ReadsBack (putAll Column.serializeTo s.columns) _ (s.columns.map Column.reloaded)
      (s.columns.map Column.getSerializedSize).sum :=
    ReadsBack.putAll (fun c hc => Column.readsBack (hfit.names c hc) (hnul c hc))
  refine ReadsBack.of_eq
    ((readsBack_putUInt32 (by decide)).bind <|
      (readsBack_putUInt32 hfit.columns).bind <|
      hcolumns.map Schema.mk) ?_
  unfold getSerializedSize
  omega

end Schema

namespace TableMetadata

/-- The metadata that comes back. -/
def reloaded (t : TableMetadata) : TableMetadata := { t with schema := t.schema.reloaded }

/-- The metadata of a table takes the announced bytes. -/
theorem moves (t : TableMetadata) : Moves t.serializeTo t.getSerializedSize :=
  ((moves_putUInt32 _).bind <| (moves_putUInt32 _).bind <| (moves_putUInt32 _).bind <|
    (moves_putBytes _).bind <| (moves_skip 4).bind <| (moves_putInt32 _).bind
    (Schema.moves t.schema)).of_eq (by
      unfold getSerializedSize
      omega)

/-- The size fits the `uint32_t` that `GetSerializedSize` returns and that
`SerializeTo` and `DeserializeFrom` sum up in `ofs`. -/
def SizeFits (t : TableMetadata) : Prop := t.getSerializedSize < 2 ^ 32

/-- So does the way over each name fit its `move`. -/
theorem SizeFits.lengths {t : TableMetadata} (hsize : t.SizeFits) :
    t.tableName.length + 4 < 2 ^ 32 ∧ t.schema.LengthsFit := by
  unfold SizeFits getSerializedSize at hsize
  exact ⟨by omega, Schema.lengthsFit (by omega)⟩

/-- What fits a page fits a word. -/
theorem sizeFits {t : TableMetadata} (hsize : t.getSerializedSize ≤ pageSize) : t.SizeFits :=
  hsize.trans_lt (by decide)

/-- **The metadata of a table is read back.** -/
theorem readsBack {t : TableMetadata} (hsize : t.SizeFits) (hid : t.tableId < 2 ^ 32)
    (hroot : -2 ^ 31 ≤ t.rootPageId ∧ t.rootPageId < 2 ^ 31)
    (hnul : (0 : UInt8) ∉ t.tableName) (hcolumns : t.schema.NulFree) :
    ReadsBack t.serializeTo deserializeFrom t.reloaded t.getSerializedSize := by
  obtain ⟨hmove, hfit⟩ := hsize.lengths
  have hlen : t.tableName.length < 2 ^ 32 := by omega
  refine ReadsBack.of_eq
    ((readsBack_putUInt32 (by decide)).bind <| (readsBack_putUInt32 hid).bind <|
      (readsBack_putUInt32 hlen).bind <| (readsBack_putString hnul).bind <|
      (readsBack_skip 4).bind <| (readsBack_putInt32 hroot.1 hroot.2).bind <|
      (Schema.readsBack hfit hcolumns).map
        (TableMetadata.mk t.tableId t.tableName t.rootPageId)) ?_
  unfold getSerializedSize
  omega

end TableMetadata

namespace IndexMetadata

/-- The metadata of an index takes the announced bytes. -/
theorem moves (i : IndexMetadata) : Moves i.serializeTo i.getSerializedSize := by
  have hkeys : Moves (putAll putUInt32 i.keyMap) (i.keyMap.map (fun _ => 4)).sum :=
    Moves.putAll (fun k _ => moves_putUInt32 k)
  rw [List.map_const', List.sum_replicate_nat] at hkeys
  refine Moves.of_eq ((moves_putUInt32 _).bind <| (moves_putUInt32 _).bind <|
    (moves_putUInt32 _).bind <| (moves_putBytes _).bind <| (moves_skip 4).bind <|
    (moves_putUInt32 _).bind <| (moves_putUInt32 _).bind hkeys) ?_
  unfold getSerializedSize
  omega

/-- **The metadata of an index is read back**, if the lengths fit the words
that they are stored in. -/
theorem readsBack_of_lengths {i : IndexMetadata} (hname : i.indexName.length < 2 ^ 32)
    (hcount : i.keyMap.length < 2 ^ 32) (hid : i.indexId < 2 ^ 32) (htable : i.tableId < 2 ^ 32)
    (hkeys : ∀ k ∈ i.keyMap, k < 2 ^ 32) (hnul : (0 : UInt8) ∉ i.indexName) :
    ReadsBack i.serializeTo deserializeFrom i i.getSerializedSize := by
  have hmap := ReadsBack.putAll (f := id) (fun k hk => readsBack_putUInt32 (hkeys k hk))
  rw [List.map_id] at hmap
  refine ReadsBack.of_eq
    ((readsBack_putUInt32 (by decide)).bind <| (readsBack_putUInt32 hid).bind <|
      (readsBack_putUInt32 hname).bind <| (readsBack_putString hnul).bind <|
      (readsBack_skip 4).bind <| (readsBack_putUInt32 htable).bind <|
      (readsBack_putUInt32 hcount).bind <|
      hmap.map (IndexMetadata.mk i.indexId i.indexName i.tableId)) ?_
  rw [List.map_const', List.sum_replicate_nat]
  unfold getSerializedSize
  omega

/-- They do in metadata that fit a page. -/
theorem readsBack {i : IndexMetadata} (hsize : i.getSerializedSize ≤ pageSize)
    (hid : i.indexId < 2 ^ 32) (htable : i.tableId < 2 ^ 32) (hkeys : ∀ k ∈ i.keyMap, k < 2 ^ 32)
    (hnul : (0 : UInt8) ∉ i.indexName) :
    ReadsBack i.serializeTo deserializeFrom i i.getSerializedSize := by
  have hpage : pageSize < 2 ^ 32 := by decide
  have hlen : i.indexName.length < 2 ^ 32 ∧ i.keyMap.length < 2 ^ 32 := by
    unfold getSerializedSize at hsize
    omega
  exact readsBack_of_lengths hlen.1 hlen.2 hid htable hkeys hnul

/-- The id is read back also where the name has a zero in it. -/
theorem tells_indexId {i : IndexMetadata} (hid : i.indexId < 2 ^ 32) :
    ∃ n, Tells i.serializeTo deserializeFrom (fun i' => i'.indexId = i.indexId) n := by
  have hmoves := (moves_putUInt32 i.indexName.length).bind <| (moves_putBytes i.indexName).bind <|
    (moves_skip 4).bind <| (moves_putUInt32 i.tableId).bind <|
    (moves_putUInt32 i.keyMap.length).bind
      (Moves.putAll (fun k (_ : k ∈ i.keyMap) => moves_putUInt32 k))
  refine ⟨_, (readsBack_putUInt32 (by decide)).bind_tells <|
    (readsBack_putUInt32 hid).bind_tells <| Gives.tells ?_ hmoves⟩
  exact (gives_true _).bind (fun _ _ => (gives_true _).bind (fun _ _ => (gives_true _).bind
    (fun _ _ => (gives_true _).bind (fun _ _ => (gives_true _).bind (fun _ _ =>
      (gives_true _).bind (fun _ _ => Gives.pure rfl))))))

end IndexMetadata

namespace CatalogMeta

/-- An entry with a table or index id and a page id of 32 bits. -/
def EntryFits (e : ℕ × PageId) : Prop := e.1 < 2 ^ 32 ∧ -2 ^ 31 ≤ e.2 ∧ e.2 < 2 ^ 31

theorem readsBack_putEntry {e : ℕ × PageId} (h : EntryFits e) :
    ReadsBack (putEntry e) getEntry e (4 + 4) :=
  (readsBack_putUInt32 h.1).bind ((readsBack_putInt32 h.2.1 h.2.2).map (Prod.mk e.1))

theorem moves_putEntry (e : ℕ × PageId) : Moves (putEntry e) (4 + 4) :=
  (moves_putUInt32 e.1).bind (moves_putInt32 e.2)

/-- The directory takes the announced bytes. -/
theorem moves (c : CatalogMeta) : Moves c.serializeTo c.getSerializedSize :=
  ((moves_putUInt32 _).bind <| (moves_putInt32 _).bind <|
    (Moves.putAll (fun e _ => moves_putEntry e)).bind <| (moves_putInt32 _).bind
    (Moves.putAll (fun e _ => moves_putEntry e))).of_eq (by
      unfold getSerializedSize
      omega)

/-- The size of a directory by the numbers of its entries. -/
theorem getSerializedSize_eq (c : CatalogMeta) :
    c.getSerializedSize = 12 + 8 * (c.tableMetaPages.length + c.indexMetaPages.length) := by
  unfold getSerializedSize
  rw [List.map_const', List.map_const', List.sum_replicate_nat, List.sum_replicate_nat]
  omega

/-- **The directory is read back**, if its entries can be counted in an
`int32_t`. -/
theorem readsBack_of_counts {c : CatalogMeta} (htables : c.tableMetaPages.length < 2 ^ 31)
    (hindexes : c.indexMetaPages.length < 2 ^ 31)
    (ht : OrderedMap.Sorted c.tableMetaPages) (hi : OrderedMap.Sorted c.indexMetaPages)
    (htfit : ∀ e ∈ c.tableMetaPages, EntryFits e) (hifit : ∀ e ∈ c.indexMetaPages, EntryFits e) :
    ReadsBack c.serializeTo deserializeFrom c c.getSerializedSize := by
  have htback := ReadsBack.putAll (f := id) (fun e he => readsBack_putEntry (htfit e he))
  have hiback := ReadsBack.putAll (f := id) (fun e he => readsBack_putEntry (hifit e he))
  rw [List.map_id] at htback hiback
  have hbuilt : CatalogMeta.mk (OrderedMap.emplaceAll c.tableMetaPages)
      (OrderedMap.emplaceAll c.indexMetaPages) = c := by
    rw [OrderedMap.emplaceAll_of_sorted ht, OrderedMap.emplaceAll_of_sorted hi]
  refine ReadsBack.of_eq
    ((readsBack_putUInt32 (by decide)).bind <|
      (readsBack_putInt32 (z := c.tableMetaPages.length) (by omega)
        (by exact_mod_cast htables)).bind <|
      htback.bind <|
      (readsBack_putInt32 (z := c.indexMetaPages.length) (by omega)
        (by exact_mod_cast hindexes)).bind <|
      (hbuilt ▸ hiback.map (fun l => CatalogMeta.mk (OrderedMap.emplaceAll c.tableMetaPages)
        (OrderedMap.emplaceAll l)))) ?_
  unfold getSerializedSize
  omega

/-- They can in a directory that fits a page. -/
theorem readsBack {c : CatalogMeta} (hsize : c.getSerializedSize ≤ pageSize)
    (ht : OrderedMap.Sorted c.tableMetaPages) (hi : OrderedMap.Sorted c.indexMetaPages)
    (htfit : ∀ e ∈ c.tableMetaPages, EntryFits e) (hifit : ∀ e ∈ c.indexMetaPages, EntryFits e) :
    ReadsBack c.serializeTo deserializeFrom c c.getSerializedSize := by
  have hpage : pageSize < 2 ^ 31 := by decide
  rw [getSerializedSize_eq] at hsize
  exact readsBack_of_counts (by omega) (by omega) ht hi htfit hifit

end CatalogMeta

end MiniSql
