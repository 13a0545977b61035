import MiniSql.Machine
import MiniSql.StatementEffects

/-!
# Rows that pass the checks and rows that can be stored

`CREATE TABLE` admits a `CHAR` of 4000 bytes and any columns in a key, and `ExecuteInsert`
checks the values against the types and lengths that were declared. What comes after the
checks has limits of its own, which are assertions: a `Field` takes less than 2048 bytes, a
`GenericKey` 64 bytes, and a page no row without bytes.

So an insertion that passes the checks gets to its end exactly if the row keeps these
limits as well (`Catalog.executeInsert_isSome_iff`). An insertion that an index refuses ends
there, before the keys of the indexes behind it are made: which these are depends on the order
of `GetTableIndexes`, and that may be any.
-/

namespace MiniSql

/-! ## The checks -/

/-- The checks of `ExecuteInsert`, of a value for a column. -/
def Column.Accepts (c : Column) : Literal → Prop
  | .null => c.nullable = true ∧ c.unique = false
  | .number _ _ => c.type = .kTypeInt ∨ c.type = .kTypeFloat
  | .string data => c.type = .kTypeChar ∧ data.length ≤ c.len

/-- The field that `ExecuteInsert` makes of a value for a column. -/
def Column.fieldOf (c : Column) : Literal → Field
  | .null => .null c.type
  | .number i f => if c.type = .kTypeInt then .integer i else .float f
  | .string data => .chars data

/-- A string that the constructor of `Field` takes. -/
def Literal.FitsField : Literal → Prop
  | .string data => data.length < varcharMaxLen
  | _ => True

/-- The number of bytes of a field in a row. -/
def Field.size : Field → ℕ
  | .null _ => 0
  | .integer _ => 4
  | .float _ => 4
  | .chars data => 4 + data.length

/-- The number of bytes of a row. -/
def rowSize (row : List Field) : ℕ := (row.map Field.size).sum

/-- The number of bytes of the key of a row in an index. -/
def IndexInfo.keySize (I : IndexInfo) (row : List Field) : ℕ :=
  (I.keyMap.map (fun c => (row[c]?.map Field.size).getD 0)).sum

/-- The index has the key of the row. -/
def IndexInfo.Holds (I : IndexInfo) (row : List Field) : Prop :=
  ∃ k, I.key row = some k ∧ I.scanKey k = true

/-- **The limits on a row**: no string is larger than a field, and either the row has bytes
and no key is larger than 64 bytes, or the insertion ends before that, at an index that has
the key. -/
def TableInfo.WithinLimits (t : TableInfo) (values : List Literal) : Prop :=
  (∀ v ∈ values, v.FitsField) ∧
    let row := List.zipWith Column.fieldOf t.schema.columns values
    (∃ pre I post, t.indexes = pre ++ I :: post ∧ (∀ J ∈ pre ++ [I], J.keySize row ≤ 64) ∧
      I.Holds row) ∨
    (∀ I ∈ t.indexes, I.keySize row ≤ 64) ∧ rowSize row % 2 ^ 32 ≠ 0

/-- The value of a column that passes the checks. -/
theorem Column.insertField_of_accepts {c : Column} {v : Literal} (h : c.Accepts v) :
    (v.FitsField → c.insertField v = some (some (c.fieldOf v))) ∧
      (¬ v.FitsField → c.insertField v = none) := by
  cases v with
  | null =>
    refine ⟨fun _ => ?_, fun hno => absurd trivial hno⟩
    rw [insertField, h.1, h.2]
    rfl
  | number i f =>
    refine ⟨fun _ => ?_, fun hno => absurd trivial hno⟩
    rcases h with h | h <;> simp only [insertField, fieldOf, h] <;> rfl
  | string data =>
    have hlen : ¬ c.len < data.length := not_lt.mpr h.2
    constructor
    · intro hfits
      have hshort : data.length < varcharMaxLen := hfits
      simp only [insertField, h.1, if_neg hlen, if_pos hshort, fieldOf]
    · intro hlong
      have hshort : ¬ data.length < varcharMaxLen := hlong
      simp only [insertField, h.1, if_neg hlen, if_neg hshort]

/-- **The loop over the columns**, on values that pass the checks: it gets stuck at a string
that is larger than a field. -/
theorem insertFields_of_accepts {cs : List Column} {vs : List Literal}
    (h : List.Forall₂ Column.Accepts cs vs) :
    ((∀ v ∈ vs, v.FitsField) →
      insertFields cs vs = some (some (List.zipWith Column.fieldOf cs vs))) ∧
    ((¬ ∀ v ∈ vs, v.FitsField) → insertFields cs vs = none) := by
  induction h with
  | nil => exact ⟨fun _ => rfl, fun hno => absurd (fun _ => nofun) hno⟩
  | @cons c v cs vs hcv _ ih =>
    obtain ⟨hfits, hlong⟩ := Column.insertField_of_accepts hcv
    rw [List.forall_mem_cons, insertFields]
    constructor
    · rintro ⟨hv, hvs⟩
      rw [hfits hv, ih.1 hvs]
      rfl
    · intro hno
      by_cases hv : v.FitsField
      · rw [hfits hv, ih.2 (fun hvs => hno ⟨hv, hvs⟩)]
        rfl
      · rw [hlong hv]

/-- The fields that are made have a type. -/
theorem typeId_fieldOf {cs : List Column} {vs : List Literal}
    (h : List.Forall₂ Column.Accepts cs vs) :
    ∀ f ∈ List.zipWith Column.fieldOf cs vs, f.typeId ≠ .kTypeInvalid := by
  induction h with
  | nil => nofun
  | @cons c v cs vs hcv _ ih =>
    rw [List.zipWith_cons_cons, List.forall_mem_cons]
    refine ⟨?_, ih⟩
    cases v with
    | null => exact c.supported
    | number i f =>
      show Field.typeId (if c.type = .kTypeInt then .integer i else .float f) ≠ .kTypeInvalid
      by_cases hint : c.type = .kTypeInt
      · rw [if_pos hint]
        exact (by decide : TypeId.kTypeInt ≠ .kTypeInvalid)
      · rw [if_neg hint]
        exact (by decide : TypeId.kTypeFloat ≠ .kTypeInvalid)
    | string data => nofun

/-! ## The sizes -/

variable {row fields : List Field}

/-- As many bytes are written as the sizes of the fields say. -/
theorem serializeFields_rowSize (h : ∀ f ∈ row, f.typeId ≠ .kTypeInvalid) :
    ∃ bytes n, Row.serializeFields row = some (bytes, n) ∧ bytes.length = rowSize row := by
  induction row with
  | nil => exact ⟨[], 0, rfl, rfl⟩
  | cons f row ih =>
    rw [List.forall_mem_cons] at h
    obtain ⟨bytes, n, hrest, hlen⟩ := ih h.2
    obtain ⟨bs, hbs, -⟩ := Field.serializeTo_of_ne_invalid h.1
    have hsize : bs.length = f.size := by
      cases f with
      | null t => cases t <;> cases hbs <;> rfl
      | integer i => cases hbs; rfl
      | float bits => cases hbs; rfl
      | chars data =>
        have heq : Bytes.le32 data.length ++ data = bs := congrArg Prod.fst (Option.some.inj hbs)
        rw [← heq, List.length_append, Bytes.length_le32, Field.size]
    refine ⟨bs ++ bytes, UInt32.ofNat bs.length + n, ?_, ?_⟩
    · rw [Row.serializeFields, hbs, hrest]
    · rw [List.length_append, hsize, hlen, rowSize, rowSize, List.map_cons, List.sum_cons]

/-- The size that the heap sees is a 32-bit number. -/
theorem sized_eq (h : ∀ f ∈ row, f.typeId ≠ .kTypeInvalid) :
    Sized.size row = rowSize row % 2 ^ 32 := by
  obtain ⟨bytes, n, hbytes, hlen⟩ := serializeFields_rowSize h
  obtain ⟨bytes', hbytes', hsize⟩ := Row.serializeFields_eq h
  cases hbytes.symm.trans hbytes'
  show ((Row.sizeFields row).map UInt32.toNat).getD 0 = _
  rw [hsize, Option.map_some, Option.getD_some, UInt32.toNat_ofNat', hlen]

/-- A key is made of fields of up to 64 bytes. -/
theorem genericKey_isSome (h : ∀ f ∈ fields, f.typeId ≠ .kTypeInvalid) :
    (genericKey fields).isSome = true ↔ rowSize fields ≤ 64 := by
  obtain ⟨bytes, n, hbytes, hlen⟩ := serializeFields_rowSize h
  rw [genericKey, hbytes]
  dsimp only
  by_cases hle : bytes.length ≤ 64
  · rw [if_pos hle]
    exact iff_of_true rfl (hlen ▸ hle)
  · rw [if_neg hle]
    exact iff_of_false (fun hc => Bool.false_ne_true hc) (hlen ▸ hle)

/-- The fields of the columns of a key. -/
theorem mapM_getElem? {cols : List ℕ} (h : ∀ c ∈ cols, c < row.length) :
    ∃ fields, cols.mapM (fun c => row[c]?) = some fields ∧ (∀ f ∈ fields, f ∈ row) ∧
      rowSize fields = (cols.map (fun c => (row[c]?.map Field.size).getD 0)).sum := by
  induction cols with
  | nil => exact ⟨[], rfl, nofun, rfl⟩
  | cons c cols ih =>
    rw [List.forall_mem_cons] at h
    obtain ⟨fields, hfields, hmem, hsize⟩ := ih h.2
    refine ⟨row[c] :: fields, ?_, ?_, ?_⟩
    · rw [List.mapM_cons, List.getElem?_eq_getElem h.1, hfields]
      rfl
    · rw [List.forall_mem_cons]
      exact ⟨List.getElem_mem h.1, hmem⟩
    · rw [rowSize, List.map_cons, List.sum_cons, List.map_cons, List.sum_cons, ← hsize,
        List.getElem?_eq_getElem h.1]
      rfl

/-- **The limit on the key** of a row in an index on columns of the row. -/
theorem IndexInfo.key_isSome {I : IndexInfo} (hvalid : ∀ f ∈ row, f.typeId ≠ .kTypeInvalid)
    (hmap : ∀ c ∈ I.keyMap, c < row.length) : (I.key row).isSome = true ↔ I.keySize row ≤ 64 := by
  obtain ⟨fields, hfields, hmem, hsize⟩ := mapM_getElem? hmap
  rw [IndexInfo.key, hfields, Option.bind_some,
    genericKey_isSome (fun f hf => hvalid f (hmem f hf)),
    hsize, IndexInfo.keySize]

/-! ## The indexes -/

namespace IndexInfo

variable {Is : List IndexInfo}

/-- **The search for a duplicate** ends at an index that has the key, or when there is no
index left, unless it comes to a key that is too large. -/
theorem duplicate_spec (hvalid : ∀ f ∈ row, f.typeId ≠ .kTypeInvalid)
    (hmaps : ∀ I ∈ Is, ∀ c ∈ I.keyMap, c < row.length) :
    (duplicate row Is = some true ↔ ∃ pre I post, Is = pre ++ I :: post ∧
      (∀ J ∈ pre ++ [I], J.keySize row ≤ 64) ∧ I.Holds row) ∧
    (duplicate row Is = some false ↔ (∀ I ∈ Is, I.keySize row ≤ 64) ∧ ∀ I ∈ Is, ¬ I.Holds row) := by
  induction Is with
  | nil =>
    refine ⟨iff_of_false nofun ?_, iff_of_true rfl ⟨nofun, nofun⟩⟩
    rintro ⟨pre, I, post, heq, -⟩
    exact absurd heq.symm (List.append_ne_nil_of_right_ne_nil pre (List.cons_ne_nil I post))
  | cons I Is ih =>
    rw [List.forall_mem_cons] at hmaps
    obtain ⟨htrue, hfalse⟩ := ih hmaps.2
    have hkey := key_isSome hvalid hmaps.1
    have hsplit : (∃ pre J post, I :: Is = pre ++ J :: post ∧
        (∀ L ∈ pre ++ [J], L.keySize row ≤ 64) ∧ J.Holds row) ↔
        I.keySize row ≤ 64 ∧ (I.Holds row ∨ ∃ pre J post, Is = pre ++ J :: post ∧
          (∀ L ∈ pre ++ [J], L.keySize row ≤ 64) ∧ J.Holds row) := by
      constructor
      · rintro ⟨pre, J, post, heq, hsizes, hholds⟩
        cases pre with
        | nil =>
          cases heq
          exact ⟨hsizes _ (List.mem_singleton_self _), .inl hholds⟩
        | cons I' pre =>
          cases heq
          exact ⟨hsizes _ List.mem_cons_self, .inr ⟨pre, J, post, rfl,
            fun L hL => hsizes L (List.mem_cons_of_mem _ hL), hholds⟩⟩
      · rintro ⟨hsize, hholds | ⟨pre, J, post, rfl, hsizes, hholds⟩⟩
        · exact ⟨[], I, Is, rfl, fun L hL => List.mem_singleton.mp hL ▸ hsize, hholds⟩
        · refine ⟨I :: pre, J, post, rfl, ?_, hholds⟩
          rw [List.cons_append, List.forall_mem_cons]
          exact ⟨hsize, hsizes⟩
    rw [hsplit, List.forall_mem_cons, List.forall_mem_cons, duplicate]
    cases hk : I.key row with
    | none =>
      rw [hk] at hkey
      have hlarge : ¬ I.keySize row ≤ 64 := fun hc => Bool.false_ne_true (hkey.mpr hc)
      exact ⟨iff_of_false nofun (fun hc => hlarge hc.1),
        iff_of_false nofun (fun hc => hlarge hc.1.1)⟩
    | some k =>
      rw [hk] at hkey
      have hsmall : I.keySize row ≤ 64 := hkey.mp rfl
      have hholds : I.Holds row ↔ I.scanKey k = true :=
        ⟨fun ⟨k', hk', hscan⟩ => Option.some.inj (hk.symm.trans hk') ▸ hscan, fun h => ⟨k, hk, h⟩⟩
      dsimp only
      by_cases hscan : I.scanKey k = true
      · rw [if_pos hscan]
        exact ⟨iff_of_true rfl ⟨hsmall, .inl (hholds.mpr hscan)⟩,
          iff_of_false nofun (fun hc => hc.2.1 (hholds.mpr hscan))⟩
      · have hno : ¬ I.Holds row := fun hc => hscan (hholds.mp hc)
        rw [if_neg hscan, htrue, hfalse, or_iff_right hno, and_iff_right hsmall,
          and_iff_right hsmall, and_iff_right hno]
        exact ⟨Iff.rfl, Iff.rfl⟩

/-- New keys are inserted into all indexes. -/
theorem insertEntries_isSome {rid : RowId} (hrid : rid ≠ invalidRowId)
    (hfree : ∀ I ∈ Is, ∃ k, I.key row = some k ∧ I.container k = none) :
    (insertEntries row rid Is).isSome = true := by
  induction Is with
  | nil => rfl
  | cons I Is ih =>
    rw [List.forall_mem_cons] at hfree
    obtain ⟨⟨k, hk, hnone⟩, hrest⟩ := hfree
    have hscan : ¬ I.scanKey k = true := by
      rw [scanKey, hnone]
      exact Bool.false_ne_true
    obtain ⟨r, hr⟩ := Option.isSome_iff_exists.mp (ih hrest)
    rw [insertEntries, hk]
    dsimp only
    rw [insertEntry, if_neg hrid, if_neg hscan]
    dsimp only
    rw [hr]
    rfl

end IndexInfo

/-! ## Tables -/

namespace TableInfo

variable {t t' : TableInfo} {rid : RowId} {b : Bool} {values : List Literal}

/-- The indexes are on columns of the table. -/
structure OnColumns (t : TableInfo) : Prop where
  /-- The pages of the heap. -/
  wellFormed : t.heap.WellFormed t.ids
  /-- The columns of the keys. -/
  keyMap_lt : ∀ I ∈ t.indexes, ∀ c ∈ I.keyMap, c < t.schema.columns.length

theorem OnColumns.of_sameColumns (ht : t.OnColumns) (hwf : t'.heap.WellFormed t'.ids)
    (h : t'.SameColumns t) : t'.OnColumns := by
  refine ⟨hwf, fun I hI c hc => ?_⟩
  have hmem : I.keyMap ∈ t.indexes.map IndexInfo.keyMap := h.2 ▸ List.mem_map_of_mem hI
  obtain ⟨J, hJ, hcols⟩ := List.mem_map.mp hmem
  rw [h.1]
  exact ht.keyMap_lt J hJ c (hcols ▸ hc)

/-- In any order. -/
theorem OnColumns.getTableIndexes (ht : t.OnColumns) (order : IndexOrder) (table : StdString) :
    (t.getTableIndexes order table).OnColumns :=
  ⟨ht.wellFormed, fun I hI => ht.keyMap_lt I ((order.perm table t.indexes).mem_iff.mp hI)⟩

theorem OnColumns.becomes (ht : t.OnColumns) {live : RowId → Option (List Field)}
    {R : IndexInfo → Entries → Prop} (h : t.Becomes t' live R) : t'.OnColumns :=
  ht.of_sameColumns h.wellFormed h.sameColumns

/-- **No statement about rows changes the columns.** -/
theorem OnColumns.step (ht : t.OnColumns) {st : TableStatement} (h : t.step st = some (t', b)) :
    t'.OnColumns := by
  have hmeets : st.Meets (fun _ _ _ => True) t := by
    cases st with
    | insert values => trivial
    | delete selected rounds => trivial
    | update assignments selected rounds =>
      refine Loops.ForEach.meets_of_forall (fun t a => ?_) t assignments
      cases selected with
      | some rids => exact Loops.ForEach.meets_of_forall (fun _ _ => trivial) t rids
      | none => exact Loops.Scan.meets_of_forall (fun _ _ => trivial) rounds t _
  refine step_invariant (P := OnColumns) ?_ ?_ ?_ ht hmeets h
  · intro t values t' b ht h
    rcases executeInsert_cases ht.wellFormed h with hsame | ⟨-, row, rid, -, hadd⟩
    · exact ht.becomes hsame
    · exact ht.becomes hadd
  · intro t rid t' b ht h
    obtain ⟨row, -, hdrop⟩ := deleteRow_cases ht.wellFormed h
    exact ht.becomes hdrop
  · intro t a rid t' b ht _ h
    rcases updateRow_cases ht.wellFormed h with
      ⟨-, rfl, -⟩ | ⟨-, old, new, -, -, -, hin | ⟨-, hout | ⟨rid', -, hmoved⟩⟩⟩
    · exact ht
    · exact ht.becomes hin
    · exact ht.becomes hout
    · exact ht.becomes hmoved

/-- The columns of a new index are looked up in the table. -/
theorem OnColumns.createIndex (ht : t.OnColumns) {name : StdString} {keys : List StdString}
    (h : t.createIndex name keys = some t') : t'.OnColumns := by
  obtain ⟨keyMap, hkeys, rfl⟩ := createIndex_eq_some h
  refine ⟨ht.wellFormed, fun I hI c hc => ?_⟩
  rcases List.mem_append.mp hI with hI | hI
  · exact ht.keyMap_lt I hI c hc
  · rw [List.mem_singleton.mp hI] at hc
    obtain ⟨key, -, hcol⟩ := exists_mem_of_forall₂ (forall₂_of_mapM hkeys) hc
    exact (List.findIdx?_eq_some_iff_getElem.mp hcol).1

theorem OnColumns.createUniqueIndexes {tableName : StdString} {names : List StdString}
    (ht : t.OnColumns) (h : createUniqueIndexes tableName t names = some t') : t'.OnColumns := by
  induction names generalizing t with
  | nil =>
    cases h
    exact ht
  | cons n names ih =>
    unfold TableInfo.createUniqueIndexes at h
    cases hnew : t.createIndex (tableName ++ [95] ++ n) [n] with
    | none =>
      rw [hnew] at h
      cases h
    | some t₁ =>
      rw [hnew] at h
      exact ih (ht.createIndex hnew) h

theorem onColumns_create {ids : PageIds} {tableName : StdString} {columns : List Column}
    {primaryKeys : List StdString} (h : create ids tableName columns primaryKeys = some t) :
    t.OnColumns := by
  have hnew : OnColumns ⟨⟨columns⟩, ids, .create ids, []⟩ :=
    ⟨TableHeap.wellFormed_create, nofun⟩
  refine OnColumns.createUniqueIndexes ?_ h
  by_cases hpk : primaryKeys = []
  · rw [if_pos hpk]
    exact hnew
  · rw [if_neg hpk]
    cases hindex : createIndex ⟨⟨columns⟩, ids, .create ids, []⟩ (tableName ++ primarySuffix)
        primaryKeys with
    | none => exact hnew
    | some t₁ => exact hnew.createIndex hindex

/-- **When an insertion gets to its end**, on values that pass the checks. -/
theorem OnColumns.isSome_executeInsert (ht : t.OnColumns)
    (hpass : List.Forall₂ Column.Accepts t.schema.columns values) :
    (t.executeInsert values).isSome = true ↔ t.WithinLimits values := by
  obtain ⟨hfits, hlong⟩ := insertFields_of_accepts hpass
  unfold WithinLimits
  by_cases hstrings : ∀ v ∈ values, v.FitsField
  · rw [and_iff_right hstrings]
    have hvalid := typeId_fieldOf hpass
    have hlen : (List.zipWith Column.fieldOf t.schema.columns values).length =
        t.schema.columns.length := by
      rw [List.length_zipWith, ← List.Forall₂.length_eq hpass, min_self]
    have hfields := hfits hstrings
    generalize List.zipWith Column.fieldOf t.schema.columns values = row at *
    have hmaps : ∀ I ∈ t.indexes, ∀ c ∈ I.keyMap, c < row.length := fun I hI c hc =>
      hlen ▸ ht.keyMap_lt I hI c hc
    obtain ⟨htrue, hfalse⟩ := IndexInfo.duplicate_spec hvalid hmaps
    unfold executeInsert
    rw [hfields]
    dsimp only
    rw [← htrue]
    cases hdup : IndexInfo.duplicate row t.indexes with
    | none =>
      refine iff_of_false nofun ?_
      rintro (hc | ⟨hsizes, -⟩)
      · cases hc
      · -- an index that has the key would have ended the search
        have hno : ∀ I ∈ t.indexes, ¬ I.Holds row := by
          intro I hI hholds
          obtain ⟨pre, post, hsplit⟩ := List.append_of_mem hI
          have hfound := htrue.mpr ⟨pre, I, post, hsplit, fun J hJ => hsizes J (by
            rw [hsplit, ← List.singleton_append, ← List.append_assoc]
            exact List.mem_append_left _ hJ), hholds⟩
          rw [hfound] at hdup
          cases hdup
        rw [hfalse.mpr ⟨hsizes, hno⟩] at hdup
        cases hdup
    | some found =>
      cases found with
      | true => exact iff_of_true rfl (.inl rfl)
      | false =>
        obtain ⟨hsizes, -⟩ := hfalse.mp hdup
        rw [or_iff_right nofun, and_iff_right hsizes, ← sized_eq hvalid]
        dsimp only
        by_cases hsize : Sized.size row = 0
        · rw [TableHeap.insertTuple, if_pos hsize]
          exact iff_of_false nofun (fun hc => hc hsize)
        · refine iff_of_true ?_ hsize
          cases hins : t.heap.insertTuple t.ids row with
          | none =>
            unfold TableHeap.insertTuple at hins
            rw [if_neg hsize] at hins
            split at hins
            · cases hins
            · split at hins <;> cases hins
          | some r =>
            obtain ⟨heap, rid⟩ := r
            cases rid with
            | none => rfl
            | some rid =>
              obtain ⟨-, ⟨hno, -⟩ | ⟨rid', hrid', hvalid', -⟩⟩ := ht.wellFormed.insertTuple hins
              · cases hno
              · cases hrid'
                dsimp only
                rw [Option.isSome_map]
                exact IndexInfo.insertEntries_isSome hvalid' (IndexInfo.of_duplicate_eq_false hdup)
  · rw [executeInsert, hlong hstrings]
    exact iff_of_false nofun (fun hc => hstrings hc.1)

end TableInfo

namespace Catalog

open TableInfo

variable {ids : StdString → PageIds} {c c' : Catalog} {b : Bool}

/-- The indexes of all tables are on their columns. -/
def OnColumns (c : Catalog) : Prop := ∀ name t, c name = some t → t.OnColumns

theorem OnColumns.update (hc : c.OnColumns) {name : StdString} {t : TableInfo}
    (ht : t.OnColumns) : Catalog.OnColumns (Function.update c name (some t)) := by
  intro name' t' h
  by_cases e : name' = name
  · rw [e, Function.update_self] at h
    cases h
    exact ht
  · rw [Function.update_of_ne e] at h
    exact hc name' t' h

theorem OnColumns.step (hc : c.OnColumns) {st : Statement} (h : c.step ids st = some (c', b)) :
    c'.OnColumns := by
  cases st with
  | createTable name columns primaryKeys =>
    rcases executeCreateTable_cases h with ⟨rfl, -⟩ | ⟨cols, t, ht, rfl⟩
    · exact hc
    · exact hc.update (onColumns_create ht)
  | createIndex name table columns =>
    rcases executeCreateIndex_cases (Option.some.inj h) with rfl | ⟨-, t, t', names, ht, hnew, rfl⟩
    · exact hc
    · exact hc.update ((hc table t ht).createIndex hnew)
  | on table st =>
    rcases step_on_cases h with rfl | ⟨t, t', ht, hstep, rfl⟩
    · exact hc
    · exact hc.update ((hc table t ht).step hstep)

theorem OnColumns.stepIn (hc : c.OnColumns) {st : IndexOrder × Statement}
    (h : c.stepIn ids st = some (c', b)) : c'.OnColumns := by
  refine OnColumns.step (fun table t' ht' => ?_) h
  obtain ⟨t, ht, rfl⟩ := Option.map_eq_some_iff.mp ht'
  exact (hc table t ht).getTableIndexes st.1 table

/-- **Accepted rows that can be stored.** In a table of any database, and in whatever order
`GetTableIndexes` has given and gives the indexes, `ExecuteInsert` of values that pass its
checks gets to its end, without a failing assertion, exactly if the row is within the limits
of fields, keys and pages. -/
theorem executeInsert_isSome_iff
    (hrun : Machine.Reaches (stepIn ids) (fun _ _ => True) (fun _ => none) c)
    {name : StdString} {t : TableInfo} (ht : c name = some t) (order : IndexOrder)
    {values : List Literal} (hpass : List.Forall₂ Column.Accepts t.schema.columns values) :
    ((t.getTableIndexes order name).executeInsert values).isSome = true ↔
      (t.getTableIndexes order name).WithinLimits values := by
  have hc : c.OnColumns := hrun.invariant (I := Catalog.OnColumns) (fun _ _ h => by cases h)
    (fun _ _ _ _ hc _ h => hc.stepIn h)
  exact ((hc name t ht).getTableIndexes order name).isSome_executeInsert hpass

/-- The indexes in the order in which they have been created. -/
def creationOrder : IndexOrder := ⟨fun _ Is => Is, fun _ => List.Perm.refl⟩

/-- The indexes in the other order. -/
def reverseOrder : IndexOrder := ⟨fun _ Is => Is.reverse, fun _ => List.reverse_perm⟩

/-- `create table t(b int unique, a char(100) unique)`. -/
def createUniqueColumns : IndexOrder × Statement :=
  (creationOrder, .createTable [116] [⟨[98], .int, true⟩, ⟨[97], .char (some 100), true⟩] [])

/-- `insert into t values(1, "x")`. -/
def insertOne : IndexOrder × Statement :=
  (creationOrder, .on [116] (.insert [.number 1 0, .string [120]]))

/-- The database that they leave. -/
def oneEntry : Catalog :=
  ((stepIn (fun _ => pagesFrom2) (fun _ => none) createUniqueColumns).bind (fun r =>
    (stepIn (fun _ => pagesFrom2) r.1 insertOne).map Prod.fst)).getD (fun _ => none)

/-- Its table. -/
def uniqueColumns : TableInfo :=
  (oneEntry [116]).getD ⟨⟨[]⟩, pagesFrom2, .create pagesFrom2, []⟩

theorem reaches_oneEntry :
    Machine.Reaches (stepIn (fun _ => pagesFrom2)) (fun _ _ => True) (fun _ => none) oneEntry :=
  .next (i := insertOne) (o := true)
    (.next (i := createUniqueColumns) (o := true) .init trivial rfl) trivial rfl

theorem oneEntry_eq : oneEntry [116] = some uniqueColumns := rfl

/-- A number and a string of 61 bytes pass the checks. -/
theorem accepts_longChars (i : Int32) : List.Forall₂ Column.Accepts uniqueColumns.schema.columns
    [.number i 0, .string (List.replicate 61 97)] :=
  .cons (.inl rfl) (.cons ⟨rfl, (by decide : 61 ≤ 100)⟩ .nil)

/-- The key of the string is too large for the index of its column. -/
theorem not_withinLimits_longChars (i : Int32) :
    ¬ (uniqueColumns.getTableIndexes reverseOrder [116]).WithinLimits
      [.number i 0, .string (List.replicate 61 97)] := by
  have hlarge : ∀ I, (uniqueColumns.getTableIndexes reverseOrder [116]).indexes.head? = some I →
      ¬ I.keySize (List.zipWith Column.fieldOf uniqueColumns.schema.columns
        [.number i 0, .string (List.replicate 61 97)]) ≤ 64 := by
    intro I hI
    cases hI
    exact (by decide : ¬ 65 ≤ 64)
  rintro ⟨-, ⟨pre, I, post, hsplit, hsizes, -⟩ | ⟨hsizes, -⟩⟩
  · cases pre with
    | nil => exact hlarge I (congrArg List.head? hsplit) (hsizes I List.mem_cons_self)
    | cons J pre => exact hlarge J (congrArg List.head? hsplit) (hsizes J List.mem_cons_self)
  · exact hlarge _ rfl (hsizes _ List.mem_cons_self)

/-- The row `(1, "aa...a")` of 61 letters is refused as a duplicate where the index of the
numbers comes first, and does not get to its end where that of the strings does. -/
theorem executeInsert_isSome_iff_order :
    ((uniqueColumns.getTableIndexes creationOrder [116]).executeInsert
      [.number 1 0, .string (List.replicate 61 97)]).isSome = true ∧
    ¬ ((uniqueColumns.getTableIndexes reverseOrder [116]).executeInsert
      [.number 1 0, .string (List.replicate 61 97)]).isSome = true := by
  constructor
  · refine (executeInsert_isSome_iff reaches_oneEntry oneEntry_eq creationOrder
      (accepts_longChars 1)).mpr ⟨?_, .inl ⟨[], _, _, rfl, ?_, _, rfl, rfl⟩⟩
    · rw [List.forall_mem_cons, List.forall_mem_singleton]
      exact ⟨trivial, (by decide : 61 < varcharMaxLen)⟩
    · exact List.forall_mem_singleton.mpr (by decide : 4 ≤ 64)
  · rw [executeInsert_isSome_iff reaches_oneEntry oneEntry_eq reverseOrder (accepts_longChars 1)]
    exact not_withinLimits_longChars 1

/-- **A string of 61 bytes** passes the checks, and its key is larger than 64 bytes: in this
table also where the number is a new one. -/
theorem not_executeInsert_isSome : ¬ ∀ (ids : StdString → PageIds) (c : Catalog) (name : StdString)
    (t : TableInfo) (order : IndexOrder) (values : List Literal),
    Machine.Reaches (stepIn ids) (fun _ _ => True) (fun _ => none) c → c name = some t →
    List.Forall₂ Column.Accepts t.schema.columns values →
      ((t.getTableIndexes order name).executeInsert values).isSome = true := by
  intro hall
  have hinsert := hall _ oneEntry _ uniqueColumns creationOrder
    [.number 2 0, .string (List.replicate 61 97)] reaches_oneEntry oneEntry_eq (accepts_longChars 2)
  have hstuck : (uniqueColumns.getTableIndexes creationOrder [116]).executeInsert
      [.number 2 0, .string (List.replicate 61 97)] = none := rfl
  rw [hstuck] at hinsert
  cases hinsert

end Catalog

end MiniSql
