import MiniSql.Config
import Mathlib.Data.List.Forall2

/-!
# Records and their byte format

A `Field` is one value of a row, a `Column` says what a field may be, and a
`Row` is a list of fields. The three per-type codecs of `record/types.cpp`
and the row loops of `record/row.cpp` are here as they stand: a row is the
concatenation of its fields, an integer or a float takes its four bytes, a
`CHAR` its length and its bytes, and a `NULL` takes no bytes at all.

The header of `record/row.h` announces a field count and a null bitmap. The
code writes neither, and `Row.deserializeFrom` asks every column for a value,
so a row comes back from its bytes exactly when it holds no `NULL`
(`Row.roundTrips_iff_no_null`).
-/

namespace MiniSql

/-- `TypeId` of `record/type_id.h`. -/
inductive TypeId
  | kTypeInvalid
  | kTypeInt
  | kTypeFloat
  | kTypeChar
deriving DecidableEq, Repr

/-- The types that the constructors of a column accept. -/
theorem TypeId.int_supported : TypeId.kTypeInt ≠ .kTypeInvalid := by decide

theorem TypeId.float_supported : TypeId.kTypeFloat ≠ .kTypeInvalid := by decide

theorem TypeId.char_supported : TypeId.kTypeChar ≠ .kTypeInvalid := by decide

/-- A `Field`, as the constructors of `record/field.h` build it. A float is
its 32-bit pattern, a `CHAR` the `len_` bytes it owns. -/
inductive Field
  | null (type : TypeId)
  | integer (i : Int32)
  | float (bits : UInt32)
  | chars (data : List UInt8)
deriving DecidableEq

/-- `Column` of `record/column.h`; its constructors accept no other type than
`INT`, `FLOAT` and `CHAR`. -/
structure Column where
  /-- `name_` -/
  name : StdString
  /-- `type_` -/
  type : TypeId
  /-- `len_` -/
  len : ℕ
  /-- `table_ind_` -/
  tableInd : ℕ
  /-- `nullable_` -/
  nullable : Bool
  /-- `unique_` -/
  unique : Bool
  /-- The assertion of the constructors. -/
  supported : type ≠ .kTypeInvalid
deriving DecidableEq

/-- `Schema`: the columns of a table or of an index key. -/
structure Schema where
  /-- `columns_` -/
  columns : List Column
deriving DecidableEq

/-- `Row`: a row identifier and the fields. -/
structure Row where
  /-- `rid_` -/
  rid : RowId
  /-- `fields_` -/
  fields : List Field
deriving DecidableEq

namespace Field

/-- `type_id_`. -/
def typeId : Field → TypeId
  | null t => t
  | integer _ => .kTypeInt
  | float _ => .kTypeFloat
  | chars _ => .kTypeChar

/-- `Field::IsNull`. -/
def isNull : Field → Bool
  | null _ => true
  | _ => false

/-- `Field::SerializeTo`: the bytes that `TypeInt`, `TypeFloat` or `TypeChar`
writes at the buffer, and the count it returns. -/
def serializeTo : Field → Option (List UInt8 × UInt32)
  | null .kTypeInvalid => none
  | null _ => some ([], 0)
  | integer i => some (Bytes.le32 i.toUInt32.toNat, 4)
  | float bits => some (Bytes.le32 bits.toNat, 4)
  | chars data => some (Bytes.le32 data.length ++ data, UInt32.ofNat data.length + 4)

/-- `Field::GetSerializedSize`. -/
def getSerializedSize : Field → Option UInt32
  | null .kTypeInvalid => none
  | null _ => some 0
  | integer _ => some 4
  | float _ => some 4
  | chars data => some (UInt32.ofNat data.length + 4)

/-- `Field::DeserializeFrom` on the memory from the buffer on: the field and
the number of bytes consumed. Stuck where the memory ends too early and where
the constructor refuses the length. -/
def deserializeFrom (storage : List UInt8) (type : TypeId) (isNull : Bool) :
    Option (Field × UInt32) :=
  match type with
  | .kTypeInvalid => none
  | .kTypeInt =>
    if isNull then some (null .kTypeInt, 0)
    else (Bytes.read32 storage).map (fun n => (integer (UInt32.ofNat n).toInt32, 4))
  | .kTypeFloat =>
    if isNull then some (null .kTypeFloat, 0)
    else (Bytes.read32 storage).map (fun n => (float (UInt32.ofNat n), 4))
  | .kTypeChar =>
    if isNull then some (null .kTypeChar, 0)
    else match Bytes.read32 storage with
      | none => none
      | some len =>
        if len < varcharMaxLen ∧ len + 4 ≤ storage.length then
          some (chars ((storage.drop 4).take len), UInt32.ofNat len + 4)
        else none

end Field

namespace Row

/-- The loop of `Row::SerializeTo`. -/
def serializeFields : List Field → Option (List UInt8 × UInt32)
  | [] => some ([], 0)
  | f :: fs =>
    match f.serializeTo, serializeFields fs with
    | some (bs, move), some (rest, ofs) => some (bs ++ rest, move + ofs)
    | _, _ => none

/-- `Row::SerializeTo`: the bytes written and the count returned. -/
def serializeTo (r : Row) : Option (List UInt8 × UInt32) := serializeFields r.fields

/-- The loop of `Row::GetSerializedSize`. -/
def sizeFields : List Field → Option UInt32
  | [] => some 0
  | f :: fs =>
    match f.getSerializedSize, sizeFields fs with
    | some n, some ofs => some (n + ofs)
    | _, _ => none

/-- `Row::GetSerializedSize`. -/
def getSerializedSize (r : Row) : Option UInt32 := sizeFields r.fields

/-- The loop of `Row::DeserializeFrom`: one field for each column, none of
them read as `NULL`. -/
def deserializeFields : List Column → List UInt8 → Option (List Field × UInt32)
  | [], _ => some ([], 0)
  | c :: cs, buf =>
    match Field.deserializeFrom buf c.type false with
    | none => none
    | some (f, move) =>
      match deserializeFields cs (buf.drop move.toNat) with
      | none => none
      | some (fs, ofs) => some (f :: fs, move + ofs)

/-- `Row::DeserializeFrom` into a row with the given identifier. -/
def deserializeFrom (rid : RowId) (schema : Schema) (buf : List UInt8) :
    Option (Row × UInt32) :=
  (deserializeFields schema.columns buf).map (fun r => (⟨rid, r.1⟩, r.2))

end Row

/-! ## Rows that match a schema -/

/-- A field that a column admits: of its type, `NULL` only where the column
is nullable, and a `CHAR` shorter than `VARCHAR_MAX_LEN`. -/
def Column.Admits (c : Column) (f : Field) : Prop :=
  f.typeId = c.type ∧ (f.isNull = true → c.nullable = true) ∧
    ∀ data, f = .chars data → data.length < varcharMaxLen

/-- A row whose fields are those of the schema, one by one. -/
def Schema.Matches (s : Schema) (r : Row) : Prop :=
  List.Forall₂ Column.Admits s.columns r.fields

/-- Every field of a matching row is admitted by some column. -/
theorem Schema.Matches.exists_admits {s : Schema} {r : Row} (h : s.Matches r) {f : Field}
    (hf : f ∈ r.fields) : ∃ c : Column, c.Admits f := by
  obtain ⟨i, hi, rfl⟩ := List.mem_iff_getElem.mp hf
  have hlen : i < s.columns.length := List.Forall₂.length_eq h ▸ hi
  exact ⟨s.columns[i], List.Forall₂.get h hlen hi⟩

/-- **The codec is a round trip on a row.** Its bytes, followed by anything,
decode to the same fields, and the bytes written, the bytes consumed and
`Row.getSerializedSize` are one number. -/
def Row.RoundTrips (schema : Schema) (r : Row) : Prop :=
  ∃ bytes n, r.serializeTo = some (bytes, n) ∧ n = UInt32.ofNat bytes.length ∧
    r.getSerializedSize = some n ∧
    ∀ rest, ∃ r', Row.deserializeFrom r.rid schema (bytes ++ rest) = some (r', n) ∧
      r'.fields = r.fields

namespace Field

/-- A field is written with as many bytes as its size says. -/
theorem serializeTo_of_ne_invalid {f : Field} (h : f.typeId ≠ .kTypeInvalid) :
    ∃ bs, f.serializeTo = some (bs, UInt32.ofNat bs.length) ∧
      f.getSerializedSize = some (UInt32.ofNat bs.length) := by
  cases f with
  | null t => cases t <;> first | exact absurd rfl h | exact ⟨[], rfl, rfl⟩
  | integer i => exact ⟨_, rfl, rfl⟩
  | float bits => exact ⟨_, rfl, rfl⟩
  | chars data =>
    have hlen : UInt32.ofNat (Bytes.le32 data.length ++ data).length
        = UInt32.ofNat data.length + 4 := by
      rw [List.length_append, Bytes.length_le32, UInt32.ofNat_add, UInt32.add_comm]
      rfl
    exact ⟨_, by rw [hlen]; rfl, by rw [hlen]; rfl⟩

/-- No column yields a `NULL`: the row loop never asks for one. -/
theorem isNull_of_deserializeFrom {buf : List UInt8} {t : TypeId} {f : Field} {n : UInt32}
    (h : deserializeFrom buf t false = some (f, n)) : f.isNull = false := by
  unfold deserializeFrom at h
  cases t with
  | kTypeInvalid => cases h
  | kTypeInt =>
    obtain ⟨m, -, hm⟩ := Option.map_eq_some_iff.mp h
    cases hm; rfl
  | kTypeFloat =>
    obtain ⟨m, -, hm⟩ := Option.map_eq_some_iff.mp h
    cases hm; rfl
  | kTypeChar =>
    simp only [Bool.false_eq_true, if_false] at h
    split at h
    · cases h
    · split at h
      · cases h; rfl
      · cases h

/-- A field that is not `NULL` is read back from its own bytes. -/
theorem deserializeFrom_serializeTo {c : Column} {f : Field} (hf : c.Admits f)
    (hnull : f.isNull = false) {bs : List UInt8} {n : UInt32}
    (hs : f.serializeTo = some (bs, n)) (rest : List UInt8) :
    deserializeFrom (bs ++ rest) c.type false = some (f, n) := by
  obtain ⟨htype, -, hlen⟩ := hf
  rw [← htype]
  cases f with
  | null t => cases hnull
  | integer i =>
    cases hs
    simp only [typeId, deserializeFrom, Bool.false_eq_true, if_false, Bytes.read32_le32_append,
      Option.map_some, Nat.mod_eq_of_lt i.toUInt32.toNat_lt, UInt32.ofNat_toNat,
      Int32.toInt32_toUInt32]
  | float bits =>
    cases hs
    simp only [typeId, deserializeFrom, Bool.false_eq_true, if_false, Bytes.read32_le32_append,
      Option.map_some, Nat.mod_eq_of_lt bits.toNat_lt, UInt32.ofNat_toNat]
  | chars data =>
    cases hs
    have hlt : data.length < 2048 := hlen data rfl
    have hmod : data.length % 2 ^ 32 = data.length := Nat.mod_eq_of_lt (by omega)
    have hcond : data.length < varcharMaxLen ∧
        data.length + 4 ≤ (Bytes.le32 data.length ++ data ++ rest).length :=
      ⟨hlt, by simp only [List.length_append, Bytes.length_le32]; omega⟩
    have hdrop : (Bytes.le32 data.length ++ data ++ rest).drop 4 = data ++ rest := rfl
    simp only [typeId, deserializeFrom, Bool.false_eq_true, if_false, List.append_assoc,
      Bytes.read32_le32_append, hmod]
    rw [← List.append_assoc, if_pos hcond, hdrop, List.take_left]

end Field

/-- An admitted field takes fewer bytes than a 32-bit count can tell. -/
theorem Column.Admits.length_serializeTo_lt {c : Column} {f : Field} (hf : c.Admits f)
    {bs : List UInt8} {n : UInt32} (hs : f.serializeTo = some (bs, n)) :
    bs.length < 2 ^ 32 := by
  cases f with
  | null t => cases t <;> cases hs <;> simp
  | integer i => cases hs; simp
  | float bits => cases hs; simp
  | chars data =>
    have hlt : data.length < 2048 := hf.2.2 data rfl
    have hbs : Bytes.le32 data.length ++ data = bs := congrArg Prod.fst (Option.some.inj hs)
    rw [← hbs, List.length_append, Bytes.length_le32]
    omega

namespace Row

/-- A row of fields of supported types is written with as many bytes as its
size says. -/
theorem serializeFields_eq {fs : List Field} (h : ∀ f ∈ fs, f.typeId ≠ .kTypeInvalid) :
    ∃ bs, serializeFields fs = some (bs, UInt32.ofNat bs.length) ∧
      sizeFields fs = some (UInt32.ofNat bs.length) := by
  induction fs with
  | nil => exact ⟨[], rfl, rfl⟩
  | cons f fs ih =>
    obtain ⟨bs, hs, hn⟩ := Field.serializeTo_of_ne_invalid (h f (List.mem_cons_self ..))
    obtain ⟨rest, hs', hn'⟩ := ih (fun g hg => h g (List.mem_cons_of_mem _ hg))
    refine ⟨bs ++ rest, ?_, ?_⟩
    · simp only [serializeFields, hs, hs', List.length_append, UInt32.ofNat_add]
    · simp only [sizeFields, hn, hn', List.length_append, UInt32.ofNat_add]

/-- Every field that is read is a value. -/
theorem isNull_of_deserializeFields {cs : List Column} {buf : List UInt8} {fs : List Field}
    {n : UInt32} (h : deserializeFields cs buf = some (fs, n)) :
    ∀ f ∈ fs, f.isNull = false := by
  induction cs generalizing buf fs n with
  | nil => cases h; simp
  | cons c cs ih =>
    simp only [deserializeFields] at h
    split at h
    · cases h
    · rename_i f move hf
      split at h
      · cases h
      · rename_i gs ofs hgs
        cases h
        rintro g (_ | ⟨_, hg⟩)
        · exact Field.isNull_of_deserializeFrom hf
        · exact ih hgs g hg

/-- A row of values is read back from its own bytes. -/
theorem deserializeFields_serializeFields {cs : List Column} {fs : List Field}
    (hm : List.Forall₂ Column.Admits cs fs) (hnull : ∀ f ∈ fs, f.isNull = false)
    {bs : List UInt8} {n : UInt32} (hs : serializeFields fs = some (bs, n)) (rest : List UInt8) :
    deserializeFields cs (bs ++ rest) = some (fs, n) := by
  induction hm generalizing bs n with
  | nil => cases hs; rfl
  | @cons c f cs fs hf hm ih =>
    have hvalid : f.typeId ≠ .kTypeInvalid := hf.1 ▸ c.supported
    obtain ⟨b, hb, -⟩ := Field.serializeTo_of_ne_invalid hvalid
    simp only [serializeFields, hb] at hs
    split at hs
    · rename_i b' move bs' ofs hmove hrest
      cases hmove
      cases hs
      have hfirst := Field.deserializeFrom_serializeTo hf (hnull f (List.mem_cons_self ..)) hb
        (bs' ++ rest)
      have hsmall := hf.length_serializeTo_lt hb
      have hdrop : (b ++ (bs' ++ rest)).drop (UInt32.ofNat b.length).toNat = bs' ++ rest := by
        rw [UInt32.toNat_ofNat', Nat.mod_eq_of_lt hsmall, List.drop_left]
      have htail := ih (fun g hg => hnull g (List.mem_cons_of_mem _ hg)) hrest
      simp only [deserializeFields, List.append_assoc, hfirst, hdrop, htail]
    · cases hs

/-- **A row comes back from its bytes exactly when it holds no `NULL`.** The
encoder leaves a `NULL` out and the decoder does not know it: it reads a
value for every column. -/
theorem roundTrips_iff_no_null (schema : Schema) (r : Row) (hm : schema.Matches r) :
    r.RoundTrips schema ↔ ∀ f ∈ r.fields, f.isNull = false := by
  have hvalid : ∀ f ∈ r.fields, f.typeId ≠ .kTypeInvalid := by
    intro f hf
    obtain ⟨c, hc⟩ := hm.exists_admits hf
    exact hc.1 ▸ c.supported
  constructor
  · rintro ⟨bytes, n, -, -, -, hdec⟩
    obtain ⟨r', hr', hfields⟩ := hdec []
    obtain ⟨⟨fs, k⟩, hfs, hk⟩ := Option.map_eq_some_iff.mp hr'
    cases hk
    exact hfields ▸ isNull_of_deserializeFields hfs
  · intro hnull
    obtain ⟨bs, hs, hn⟩ := serializeFields_eq hvalid
    refine ⟨bs, _, hs, rfl, hn, fun rest => ⟨r, ?_, rfl⟩⟩
    show Option.map _ _ = _
    rw [deserializeFields_serializeFields hm hnull hs rest]
    rfl

end Row

/-! ## The codec on concrete rows -/

/-- A table of an integer column and a nullable `CHAR(16)` column. -/
def idNameSchema : Schema :=
  ⟨[⟨[105, 100], .kTypeInt, 4, 0, false, false, TypeId.int_supported⟩,
    ⟨[110], .kTypeChar, 16, 1, true, false, TypeId.char_supported⟩]⟩

/-- The row `(7, NULL)`. -/
def nullRow : Row := ⟨⟨2, 0⟩, [.integer 7, .null .kTypeChar]⟩

/-- The row `(7, 'ab')`. -/
def abRow : Row := ⟨⟨2, 0⟩, [.integer 7, .chars [97, 98]]⟩

theorem idNameSchema_matches_nullRow : idNameSchema.Matches nullRow :=
  List.Forall₂.cons ⟨rfl, nofun, nofun⟩
    (List.Forall₂.cons ⟨rfl, fun _ => rfl, nofun⟩ List.Forall₂.nil)

theorem idNameSchema_matches_abRow : idNameSchema.Matches abRow :=
  List.Forall₂.cons ⟨rfl, nofun, nofun⟩
    (List.Forall₂.cons ⟨rfl, nofun, fun data h => by cases h; decide⟩ List.Forall₂.nil)

/-- The `NULL` is written as nothing and read as the length and the bytes of
whatever follows. -/
theorem not_roundTrips_nullRow :
    idNameSchema.Matches nullRow ∧ ¬ nullRow.RoundTrips idNameSchema := by
  refine ⟨idNameSchema_matches_nullRow, ?_⟩
  rintro ⟨bytes, n, hs, -, -, hdec⟩
  have hbytes : [7, 0, 0, 0] = bytes := congrArg Prod.fst (Option.some.inj hs)
  obtain ⟨r', hr', hfields⟩ := hdec [0, 0, 0, 0]
  rw [← hbytes] at hr'
  have hread : some ((⟨⟨2, 0⟩, [.integer 7, .chars []]⟩ : Row), (8 : UInt32)) = some (r', n) :=
    hr'
  have hrow : (⟨⟨2, 0⟩, [.integer 7, .chars []]⟩ : Row) = r' :=
    congrArg Prod.fst (Option.some.inj hread)
  rw [← hrow] at hfields
  exact absurd hfields (by decide)

/-- The row `(7, 'ab')` comes back. -/
theorem roundTrips_abRow : abRow.RoundTrips idNameSchema :=
  (Row.roundTrips_iff_no_null idNameSchema abRow idNameSchema_matches_abRow).mpr (by decide)

end MiniSql
