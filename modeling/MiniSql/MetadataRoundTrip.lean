import MiniSql.CatalogMeta

/-!
# Which table metadata survive their page

`TableMetadata::SerializeTo` stores the lengths of the names and the number of
the columns as words of 32 bits, and of a column everything but `len_`: that
one is built again by the constructor without a length, which gives an `INT`
or a `FLOAT` four bytes and a `CHAR` the length of the *name* and four more.
The pointer moves by steps of 32 bits, whose sum is what the three functions
return.

So what `TableMetadata::DeserializeFrom` gives is what has been stored, from as
many bytes as `GetSerializedSize` returns, exactly if the size fits 32 bits and
every `CHAR` column has, by chance, the length that its name announces
(`roundTrips_iff`).
-/

namespace MiniSql

open Serial

/-! ## Columns and schemas that are given -/

namespace Column

/-- A column as the constructors make it, with a `table_ind_` of 32 bits. -/
structure InRange (c : Column) : Prop where
  /-- `table_ind_` is a `uint32_t`. -/
  tableInd : c.tableInd < 2 ^ 32
  /-- A column that is no `CHAR` has the size of its type. -/
  fixed : c.type ≠ .kTypeChar → c.len = 4

/-- A `CHAR` column is as long as its name announces. -/
def LengthFromName (c : Column) : Prop :=
  c.type = .kTypeChar → c.len = (c.name.length + 4) % 2 ^ 32

/-- The constructor without a length takes the length from the name. -/
theorem lengthFromName_of_ofType {name : StdString} {type : TypeId} {index : ℕ}
    {nullable unique : Bool} {c : Column} (h : ofType name type index nullable unique = some c) :
    c.LengthFromName := by
  cases type with
  | kTypeInvalid => exact absurd h (by simp [ofType])
  | kTypeInt => cases h; exact nofun
  | kTypeFloat => cases h; exact nofun
  | kTypeChar => cases h; exact fun _ => rfl

/-- **A column that is read** has, if it is a `CHAR`, its length from its
name. -/
theorem gives_deserializeFrom : Gives deserializeFrom LengthFromName := by
  unfold deserializeFrom
  refine (gives_true _).bind (fun _ _ => (gives_true _).bind (fun _ _ =>
    (gives_true _).bind (fun name _ => (gives_true _).bind (fun _ _ =>
    (gives_true _).bind (fun type _ => (gives_true _).bind (fun index _ =>
    (gives_true _).bind (fun nullable _ => (gives_true _).bind (fun unique _ =>
    Gives.lift (fun c hc => ?_)))))))))
  obtain ⟨t, -, ht⟩ := Option.bind_eq_some_iff.mp hc
  exact lengthFromName_of_ofType ht

/-- A column whose length is known without storing it comes back as it is. -/
theorem reloaded_eq_self {c : Column} (hrange : c.InRange) (hchar : c.LengthFromName) :
    c.reloaded = c := by
  obtain ⟨name, type, len, ind, nullable, unique, supported⟩ := c
  have hind : ind % 2 ^ 32 = ind := Nat.mod_eq_of_lt hrange.tableInd
  unfold reloaded
  cases type with
  | kTypeInvalid => exact absurd rfl supported
  | kTypeInt =>
    have hlen : len = 4 := hrange.fixed nofun
    simp only [hind, hlen]
  | kTypeFloat =>
    have hlen : len = 4 := hrange.fixed nofun
    simp only [hind, hlen]
  | kTypeChar =>
    have hlen : len = (name.length + 4) % 2 ^ 32 := hchar rfl
    simp only [hind, ← hlen]

end Column

namespace Schema

/-- The `CHAR` columns have the length that their name announces. -/
def CharsFromNames (s : Schema) : Prop := ∀ c ∈ s.columns, c.LengthFromName

/-- **A schema that is read** has the lengths of its `CHAR` columns from their
names. -/
theorem gives_deserializeFrom : Gives deserializeFrom CharsFromNames := by
  unfold deserializeFrom
  exact (gives_true _).bind (fun _ _ => (gives_true _).bind (fun size _ =>
    (Column.gives_deserializeFrom.getMany size).bind (fun _ hcolumns =>
    Gives.pure hcolumns.2)))

/-- A schema whose lengths can be told comes back as it is. -/
theorem reloaded_eq_self {s : Schema} (hrange : ∀ c ∈ s.columns, c.InRange)
    (hchars : s.CharsFromNames) : s.reloaded = s := by
  have hmap : s.columns.map Column.reloaded = s.columns.map id :=
    List.map_congr_left (fun c hc => Column.reloaded_eq_self (hrange c hc) (hchars c hc))
  unfold reloaded
  rw [hmap, List.map_id]

end Schema

/-! ## Tables -/

namespace TableMetadata

/-- Metadata as the constructor makes them: a table id and a page id of 32
bits, and no zero byte in a name. -/
structure InRange (t : TableMetadata) : Prop where
  /-- `table_id_` is a `uint32_t`. -/
  tableId : t.tableId < 2 ^ 32
  /-- `root_page_id_` is an `int32_t`. -/
  rootPageId : -2 ^ 31 ≤ t.rootPageId ∧ t.rootPageId < 2 ^ 31
  /-- The columns come from their constructors. -/
  columns : ∀ c ∈ t.schema.columns, c.InRange
  /-- The name has no zero byte. -/
  tableName : (0 : UInt8) ∉ t.tableName
  /-- Nor has the name of a column. -/
  columnNames : t.schema.NulFree

/-- What `GetSerializedSize` returns: a `uint32_t`. -/
def returnedSize (t : TableMetadata) : ℕ := t.getSerializedSize % 2 ^ 32

/-- **The round trip** of table metadata that are stored at a pointer: the same
metadata are read from the bytes that are written, over as many bytes, and
`GetSerializedSize` says how many these are. -/
def RoundTrips (t : TableMetadata) (c : Cursor) : Prop :=
  ComesBack t.serializeTo deserializeFrom t c ∧ Spans t.serializeTo t.returnedSize c

/-- The lengths in the metadata can be told from what is stored of them. -/
structure LengthsKnown (t : TableMetadata) : Prop where
  /-- The size, and with it each name and the number of the columns, fits 32
  bits. -/
  size : t.SizeFits
  /-- The `CHAR` columns have the length that their name announces. -/
  chars : t.schema.CharsFromNames

/-- **Metadata that are read** have the lengths of their `CHAR` columns from
the names. -/
theorem gives_deserializeFrom : Gives deserializeFrom (fun t => t.schema.CharsFromNames) := by
  unfold deserializeFrom
  exact (gives_true _).bind (fun _ _ => (gives_true _).bind (fun _ _ =>
    (gives_true _).bind (fun _ _ => (gives_true _).bind (fun _ _ =>
    (gives_true _).bind (fun _ _ => (gives_true _).bind (fun _ _ =>
    Schema.gives_deserializeFrom.bind (fun _ hschema => Gives.pure hschema)))))))

/-- Metadata whose lengths can be told come back as they are. -/
theorem reloaded_eq_self {t : TableMetadata} (hrange : t.InRange)
    (hchars : t.schema.CharsFromNames) : t.reloaded = t := by
  unfold reloaded
  rw [Schema.reloaded_eq_self hrange.columns hchars]

/-- Metadata span what `GetSerializedSize` returns, unless that sum has gone
over the end of its word. -/
theorem spans_iff (t : TableMetadata) (c : Cursor) :
    Spans t.serializeTo t.returnedSize c ↔ t.SizeFits := by
  rw [(moves t).spans_iff c, returnedSize, Nat.mod_eq_iff_lt (by decide), SizeFits]

/-- **Which table metadata survive.** At any place of any memory, the metadata
of a table come back exactly if their size fits 32 bits and every `CHAR` column
is declared with four bytes more than its name has. -/
theorem roundTrips_iff {t : TableMetadata} (hrange : t.InRange) (c : Cursor) :
    t.RoundTrips c ↔ t.LengthsKnown := by
  constructor
  · intro h
    exact ⟨(spans_iff t c).mp h.2, gives_deserializeFrom _ _ _ _ h.1⟩
  · intro hknown
    have hback := readsBack hknown.size hrange.tableId hrange.rootPageId hrange.tableName
      hrange.columnNames
    rw [reloaded_eq_self hrange hknown.chars] at hback
    exact ⟨hback.comesBack c, (spans_iff t c).mpr hknown.size⟩

/-- The metadata of a table `t` with one column `a`. -/
def ofColumn (type : TypeId) (len : ℕ) (h : type ≠ .kTypeInvalid) : TableMetadata :=
  ⟨0, [116], 3, ⟨[⟨[97], type, len, 0, true, false, h⟩]⟩⟩

/-- They are metadata as the constructors make them. -/
theorem inRange_ofColumn {type : TypeId} {len : ℕ} (h : type ≠ .kTypeInvalid)
    (hlen : type ≠ .kTypeChar → len = 4) : (ofColumn type len h).InRange where
  tableId := Nat.two_pow_pos 32
  rootPageId := ⟨by show (-2 ^ 31 : ℤ) ≤ 3; decide, by show (3 : ℤ) < 2 ^ 31; decide⟩
  columns := List.forall_mem_singleton.mpr ⟨Nat.two_pow_pos 32, hlen⟩
  tableName := by show (0 : UInt8) ∉ [116]; decide
  columnNames := List.forall_mem_singleton.mpr (by show (0 : UInt8) ∉ [97]; decide)

/-- A table with one `INT` column survives at the start of an empty memory. -/
theorem roundTrips_intColumn :
    (ofColumn .kTypeInt 4 (by decide)).RoundTrips ⟨fun _ => 0, 0⟩ :=
  (roundTrips_iff (inRange_ofColumn (by decide) (fun _ => rfl)) _).mpr
    { size := show 52 < 2 ^ 32 by decide
      chars := List.forall_mem_singleton.mpr nofun }

/-- A table with one `CHAR(64)` column does not: the column is read back as a
`CHAR(5)`. -/
theorem not_roundTrips_charColumn :
    ¬ ∀ t : TableMetadata, t.InRange → t.RoundTrips ⟨fun _ => 0, 0⟩ := by
  intro hall
  have hrange : (ofColumn .kTypeChar 64 (by decide)).InRange :=
    inRange_ofColumn (by decide) (fun h => absurd rfl h)
  have hchars := gives_deserializeFrom _ _ _ _ (hall _ hrange).1
  have hlen : 64 = 5 := hchars _ (List.mem_singleton_self _) rfl
  exact absurd hlen (by decide)

end TableMetadata

end MiniSql
