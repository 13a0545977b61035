import MiniSql.CompareOperator
import Mathlib.Order.Lattice

/-!
# The keys of an index

`GenericKey<KeySize>` and `GenericComparator<KeySize>` of `index/generic_key.h`, for keys of
any size. A key is the bytes of a row, followed by zeroes, and two keys are compared byte by
byte. A byte is a `char` and has a sign: the order is the lexicographic one on the signed
bytes, which is a linear order (`comparator_le_zero_iff`), so the keys are what the B+ tree
takes for its type of keys.

The format of a row tells by itself where the row ends. So the zeroes after it say nothing,
and a key stands for one row only (`comparator_identifies_rows`).
-/

namespace MiniSql

namespace Index

/-- `GenericKey<KeySize>`: the bytes. -/
@[ext]
structure GenericKey (keySize : ℕ) where
  /-- `data` -/
  data : List UInt8
  /-- The size of the array. -/
  length_data : data.length = keySize
deriving DecidableEq

namespace GenericKey

variable {keySize : ℕ}

/-- `SerializeFromKey`. It is stuck where an assertion fails, and where more bytes are written
than the key has. -/
def serializeFromKey (keySize : ℕ) (schema : Schema) (key : Row) : Option (GenericKey keySize) :=
  match key.getSerializedSize, key.serializeTo with
  | some size, some (bytes, _) =>
    if h : (key.fields.length = schema.columns.length ∧ size.toNat ≤ keySize) ∧
        bytes.length ≤ keySize then
      some ⟨bytes ++ List.replicate (keySize - bytes.length) 0, by
        rw [List.length_append, List.length_replicate, Nat.add_sub_cancel' h.2]⟩
    else none
  | _, _ => none

/-- `DeserializeToKey`, into a row with the given id. -/
def deserializeToKey (k : GenericKey keySize) (rid : RowId) (schema : Schema) : Option Row :=
  match Row.deserializeFrom rid schema k.data with
  | none => none
  | some (key, ofs) => if ofs.toNat ≤ keySize then some key else none

/-- The loop of `GenericComparator::operator()`, on the bytes that are left. -/
def comparatorLoop : List UInt8 → List UInt8 → ℤ
  | a :: lhs, b :: rhs =>
    if a ≠ b then
      if a.toInt8 < b.toInt8 then -1 else 1
    else comparatorLoop lhs rhs
  | _, _ => 0

/-- `GenericComparator::operator()`. -/
def comparator (lhs rhs : GenericKey keySize) : ℤ := comparatorLoop lhs.data rhs.data

/-! ## The order -/

/-- The numbers that the bytes are as a `char`. -/
def signed (bytes : List UInt8) : List ℤ := bytes.map (fun b => b.toInt8.toInt)

theorem toInt8_toInt_injective : Function.Injective (fun b : UInt8 => b.toInt8.toInt) := by
  intro a b hab
  have hbytes := congrArg Int8.toUInt8 (Int8.toInt_inj.mp hab)
  rwa [UInt8.toUInt8_toInt8, UInt8.toUInt8_toInt8] at hbytes

theorem signed_injective : Function.Injective signed := toInt8_toInt_injective.list_map

/-- **The comparison of bytes**, up to the first difference, is that of the signed bytes in
lexicographic order. -/
theorem comparatorLoop_spec {lhs rhs : List UInt8} (hlen : lhs.length = rhs.length) :
    (signed lhs < signed rhs → comparatorLoop lhs rhs = -1) ∧
      (lhs = rhs → comparatorLoop lhs rhs = 0) ∧
      (signed rhs < signed lhs → comparatorLoop lhs rhs = 1) := by
  induction lhs generalizing rhs with
  | nil =>
    obtain rfl : rhs = [] := List.length_eq_zero_iff.mp hlen.symm
    exact ⟨fun h => absurd h (lt_irrefl _), fun _ => rfl, fun h => absurd h (lt_irrefl _)⟩
  | cons a lhs ih =>
    cases rhs with
    | nil => cases hlen
    | cons b rhs =>
      unfold comparatorLoop
      rw [signed, signed, List.map_cons, List.map_cons, List.cons_lt_cons_iff,
        List.cons_lt_cons_iff]
      by_cases hab : a = b
      · subst hab
        rw [if_neg (not_not.mpr rfl), or_iff_right (lt_irrefl _), and_iff_right rfl,
          or_iff_right (lt_irrefl _), and_iff_right rfl, List.cons.injEq, and_iff_right rfl]
        exact ih (Nat.succ.inj hlen)
      · have hne : a.toInt8.toInt ≠ b.toInt8.toInt := fun h => hab (toInt8_toInt_injective h)
        rw [if_pos hab, or_iff_left (fun h => hne h.1), or_iff_left (fun h => hne h.1.symm),
          ← Int8.lt_iff_toInt_lt, ← Int8.lt_iff_toInt_lt]
        exact ⟨fun h => if_pos h, fun h => absurd (List.cons.inj h).1 hab,
          fun h => if_neg (Int8.lt_asymm h)⟩

/-- The keys in the order of their signed bytes. -/
instance : LinearOrder (GenericKey keySize) :=
  LinearOrder.lift' (fun k => signed k.data) (fun _ _ h => GenericKey.ext (signed_injective h))

theorem lt_iff {lhs rhs : GenericKey keySize} : lhs < rhs ↔ signed lhs.data < signed rhs.data :=
  Iff.rfl

variable {lhs rhs : GenericKey keySize}

theorem comparator_of_lt (h : lhs < rhs) : comparator lhs rhs = -1 :=
  (comparatorLoop_spec (lhs.length_data.trans rhs.length_data.symm)).1 (lt_iff.mp h)

theorem comparator_self (k : GenericKey keySize) : comparator k k = 0 :=
  (comparatorLoop_spec rfl).2.1 rfl

theorem comparator_of_gt (h : rhs < lhs) : comparator lhs rhs = 1 :=
  (comparatorLoop_spec (lhs.length_data.trans rhs.length_data.symm)).2.2 (lt_iff.mp h)

/-- **The comparator is the linear order of the keys.** -/
theorem comparator_le_zero_iff : comparator lhs rhs ≤ 0 ↔ lhs ≤ rhs := by
  obtain hlt | heq | hgt := lt_trichotomy lhs rhs
  · rw [comparator_of_lt hlt]
    exact iff_of_true (by decide) hlt.le
  · rw [heq, comparator_self]
    exact iff_of_true le_rfl le_rfl
  · rw [comparator_of_gt hgt]
    exact iff_of_false (by decide) (not_le.mpr hgt)

theorem comparator_eq_zero_iff : comparator lhs rhs = 0 ↔ lhs = rhs := by
  constructor
  · intro h
    obtain hlt | heq | hgt := lt_trichotomy lhs rhs
    · rw [comparator_of_lt hlt] at h
      exact absurd h (by decide)
    · exact heq
    · rw [comparator_of_gt hgt] at h
      exact absurd h (by decide)
  · rintro rfl
    exact comparator_self lhs

/-- The two sides exchanged. -/
theorem comparator_swap (lhs rhs : GenericKey keySize) :
    comparator rhs lhs = -comparator lhs rhs := by
  obtain hlt | rfl | hgt := lt_trichotomy lhs rhs
  · rw [comparator_of_lt hlt, comparator_of_gt hlt, neg_neg]
  · rw [comparator_self, neg_zero]
  · rw [comparator_of_gt hgt, comparator_of_lt hgt]

/-! ## The rows -/

/-- The rows that keys are made of: they match the schema, have no `NULL`, and their bytes
fit the key. -/
structure IsKeyRow (keySize : ℕ) (schema : Schema) (r : Row) : Prop where
  /-- The fields are those of the schema. -/
  hasFields : schema.Matches r
  /-- No field is `NULL`. -/
  no_null : ∀ f ∈ r.fields, f.isNull = false
  /-- The bytes are not more than those of the key. -/
  fits : ∃ bytes n, r.serializeTo = some (bytes, n) ∧ bytes.length ≤ keySize

variable {schema : Schema} {r r' : Row} {k k' : GenericKey keySize}

/-- **A key is made of every such row**, and begins with its bytes. -/
theorem IsKeyRow.exists_key (h : IsKeyRow keySize schema r) :
    ∃ bytes k, r.serializeTo = some (bytes, UInt32.ofNat bytes.length) ∧ bytes.length ≤ keySize ∧
      serializeFromKey keySize schema r = some k ∧
      k.data = bytes ++ List.replicate (keySize - bytes.length) 0 := by
  obtain ⟨bytes, n, hbytes, hle⟩ := h.fits
  obtain ⟨bytes', hbytes', hsize⟩ := Row.serializeFields_eq (fun f hf => by
    obtain ⟨c, hc⟩ := h.hasFields.exists_admits hf
    exact hc.1 ▸ c.supported)
  cases hbytes.symm.trans hbytes'
  have hcond : (r.fields.length = schema.columns.length ∧
      (UInt32.ofNat bytes.length).toNat ≤ keySize) ∧ bytes.length ≤ keySize := by
    refine ⟨⟨(List.Forall₂.length_eq h.hasFields).symm, ?_⟩, hle⟩
    rw [UInt32.toNat_ofNat']
    exact (Nat.mod_le _ _).trans hle
  refine ⟨bytes, ⟨bytes ++ List.replicate (keySize - bytes.length) 0, ?_⟩, hbytes, hle, ?_, rfl⟩
  · rw [List.length_append, List.length_replicate, Nat.add_sub_cancel' hle]
  rw [serializeFromKey, Row.getSerializedSize, hsize, hbytes]
  exact dif_pos hcond

/-- **The fields are read back** from the key. -/
theorem IsKeyRow.deserializeToKey (h : IsKeyRow keySize schema r)
    (hk : serializeFromKey keySize schema r = some k) (rid : RowId) :
    k.deserializeToKey rid schema = some ⟨rid, r.fields⟩ := by
  obtain ⟨bytes, k', hbytes, hle, hk', hdata⟩ := h.exists_key
  obtain rfl : k = k' := Option.some.inj (hk.symm.trans hk')
  have hofs : (UInt32.ofNat bytes.length).toNat ≤ keySize := by
    rw [UInt32.toNat_ofNat']
    exact (Nat.mod_le _ _).trans hle
  unfold GenericKey.deserializeToKey
  rw [Row.deserializeFrom, hdata,
    Row.deserializeFields_serializeFields h.hasFields h.no_null hbytes, Option.map_some]
  exact if_pos hofs

/-- Two rows with the same key have the same fields. -/
theorem IsKeyRow.key_eq_iff (h : IsKeyRow keySize schema r) (h' : IsKeyRow keySize schema r')
    (hk : serializeFromKey keySize schema r = some k)
    (hk' : serializeFromKey keySize schema r' = some k') : k = k' ↔ r.fields = r'.fields := by
  constructor
  · rintro rfl
    have hrows := (h.deserializeToKey hk r.rid).symm.trans (h'.deserializeToKey hk' r.rid)
    have hrow : (⟨r.rid, r.fields⟩ : Row) = ⟨r.rid, r'.fields⟩ := Option.some.inj hrows
    exact (Row.mk.inj hrow).2
  · intro hfields
    obtain ⟨bytes, k₁, hbytes, -, hk₁, hdata⟩ := h.exists_key
    obtain ⟨bytes', k₂, hbytes', -, hk₂, hdata'⟩ := h'.exists_key
    obtain rfl : k = k₁ := Option.some.inj (hk.symm.trans hk₁)
    obtain rfl : k' = k₂ := Option.some.inj (hk'.symm.trans hk₂)
    rw [Row.serializeTo, hfields] at hbytes
    have hsame : bytes = bytes' := (Prod.mk.inj (Option.some.inj (hbytes.symm.trans hbytes'))).1
    exact GenericKey.ext (by rw [hdata, hdata', hsame])

/-- **Keys identify rows.** The comparator is a total order, a key is made of every row
without `NULL` that fits, the fields of the row are read back from it, and it equals the key
of another row exactly when the rows have the same fields. -/
theorem comparator_identifies_rows (keySize : ℕ) (schema : Schema) :
    (IsLinearOrder (GenericKey keySize) (fun lhs rhs => comparator lhs rhs ≤ 0) ∧
      ∀ lhs rhs : GenericKey keySize, comparator rhs lhs = -comparator lhs rhs) ∧
    ∀ r, IsKeyRow keySize schema r → ∃ k, serializeFromKey keySize schema r = some k ∧
      (∀ rid, k.deserializeToKey rid schema = some ⟨rid, r.fields⟩) ∧
      ∀ r' k', IsKeyRow keySize schema r' → serializeFromKey keySize schema r' = some k' →
        (comparator k k' = 0 ↔ r.fields = r'.fields) := by
  have horder : (fun lhs rhs : GenericKey keySize => comparator lhs rhs ≤ 0) = (· ≤ ·) := by
    funext lhs rhs
    exact propext comparator_le_zero_iff
  refine ⟨⟨?_, comparator_swap⟩, fun r hr => ?_⟩
  · rw [horder]
    infer_instance
  · obtain ⟨bytes, k, -, -, hk, -⟩ := hr.exists_key
    exact ⟨k, hk, hr.deserializeToKey hk, fun r' k' hr' hk' =>
      comparator_eq_zero_iff.trans (hr.key_eq_iff hr' hk hk')⟩

/-- The keys of 16 bytes of the rows `(7, 'ab')` and `(7, 'b')` are not equal. -/
theorem comparator_abRow : ∃ k k', serializeFromKey 16 idNameSchema abRow = some k ∧
    serializeFromKey 16 idNameSchema ⟨⟨2, 0⟩, [.integer 7, .chars [98]]⟩ = some k' ∧
    comparator k k' ≠ 0 := by
  have hab : IsKeyRow 16 idNameSchema abRow :=
    ⟨idNameSchema_matches_abRow, by decide, _, _, rfl, by decide⟩
  have hb : IsKeyRow 16 idNameSchema ⟨⟨2, 0⟩, [.integer 7, .chars [98]]⟩ :=
    ⟨.cons ⟨rfl, nofun, nofun⟩ (.cons ⟨rfl, nofun, fun _ h => by cases h; decide⟩ .nil),
      by decide, _, _, rfl, by decide⟩
  obtain ⟨k, hk, -, heq⟩ := (comparator_identifies_rows 16 idNameSchema).2 _ hab
  obtain ⟨k', hk', -⟩ := (comparator_identifies_rows 16 idNameSchema).2 _ hb
  exact ⟨k, k', hk, hk', fun h => absurd ((heq _ _ hb hk').mp h) (by decide)⟩

/-- The keys of the statements are those of 64 bytes. -/
theorem genericKey_eq {fields : List Field} (rid : RowId)
    (hlen : fields.length = schema.columns.length)
    (hvalid : ∀ f ∈ fields, f.typeId ≠ .kTypeInvalid) :
    genericKey fields = (serializeFromKey 64 schema ⟨rid, fields⟩).map GenericKey.data := by
  obtain ⟨bytes, hbytes, hsize⟩ := Row.serializeFields_eq hvalid
  rw [genericKey, serializeFromKey, Row.getSerializedSize, Row.serializeTo, hbytes, hsize]
  dsimp only
  by_cases hle : bytes.length ≤ 64
  · have hcond : (fields.length = schema.columns.length ∧
        (UInt32.ofNat bytes.length).toNat ≤ 64) ∧ bytes.length ≤ 64 := by
      refine ⟨⟨hlen, ?_⟩, hle⟩
      rw [UInt32.toNat_ofNat']
      exact (Nat.mod_le _ _).trans hle
    rw [if_pos hle, dif_pos hcond, Option.map_some]
  · rw [if_neg hle, dif_neg (fun hc => hle hc.2), Option.map_none]

/-- So is their order. -/
theorem lt_iff_index {lhs rhs : GenericKey 64} : lhs < rhs ↔
    (⟨lhs.data, lhs.length_data⟩ : MiniSql.GenericKey) < ⟨rhs.data, rhs.length_data⟩ :=
  Iff.rfl

end GenericKey

end Index

end MiniSql
