import MiniSql.RangeScan
import MiniSql.ExecuteEngine
import Mathlib.Data.Finset.Insert
import Mathlib.Data.List.Lex

/-!
# Comparisons

`ExecuteCompareOperator` of `executor/execute_engine.cpp`: the row ids of the
rows that a comparison of an `INT` column with a constant selects, from the
index on the column where there is one, else from a scan of the heap. The
iterator of the heap enters as the list of the rows that it gives.

The key of an index is a `GenericKey`, and its order is that of the bytes as
signed characters, which is not the order of the integers.
-/

namespace MiniSql

/-! ## Keys -/

/-- A key of `genericKey` has 64 bytes. -/
theorem length_genericKey {fields : List Field} {bs : List UInt8}
    (h : genericKey fields = some bs) : bs.length = 64 := by
  unfold genericKey at h
  split at h
  · cases h
  · rename_i bytes n hbytes
    by_cases hle : bytes.length ≤ 64
    · rw [if_pos hle] at h
      cases h
      rw [List.length_append, List.length_replicate, Nat.add_sub_cancel' hle]
    · rw [if_neg hle] at h
      cases h

/-- `GenericKey<64>`. -/
@[ext]
structure GenericKey where
  /-- `data` -/
  data : List UInt8
  /-- There are 64 of them. -/
  length_data : data.length = 64

namespace GenericKey

/-- A byte as a `char`. -/
def char (b : UInt8) : ℤ := b.toInt8.toInt

theorem char_injective : Function.Injective char := fun _ _ h =>
  congrArg Int8.toUInt8 (Int8.toInt_inj.mp h)

/-- The loop of `GenericComparator`. -/
def compareData : List UInt8 → List UInt8 → Ordering
  | b :: bs, c :: cs =>
    if b ≠ c then if char b < char c then .lt else .gt
    else compareData bs cs
  | _, _ => .eq

/-- The order of the keys. -/
instance : LinearOrder GenericKey :=
  LinearOrder.lift' (fun k => k.data.map char)
    (fun _ _ h => GenericKey.ext (List.map_injective_iff.mpr char_injective h))

instance : Inhabited GenericKey := ⟨⟨List.replicate 64 0, List.length_replicate⟩⟩

theorem compareData_eq_lt {bs cs : List UInt8} (h : bs.length = cs.length) :
    compareData bs cs = .lt ↔ bs.map char < cs.map char := by
  induction bs generalizing cs with
  | nil =>
    rw [List.eq_nil_of_length_eq_zero h.symm]
    exact iff_of_false nofun (lt_irrefl _)
  | cons b bs ih =>
    obtain ⟨c, cs, rfl⟩ := List.exists_cons_of_length_eq_add_one h.symm
    rw [List.map_cons, List.map_cons, List.cons_lt_cons_iff]
    unfold compareData
    by_cases hbc : b = c
    · rw [if_neg (not_not.mpr hbc), ih (Nat.succ.inj h), hbc]
      simp only [lt_irrefl, false_or, true_and]
    · have hne : char b ≠ char c := fun hc => hbc (char_injective hc)
      rw [if_pos hbc]
      simp only [hne, false_and, or_false]
      by_cases hlt : char b < char c
      · rw [if_pos hlt]
        exact iff_of_true rfl hlt
      · rw [if_neg hlt]
        exact iff_of_false nofun hlt

/-- **The order is that of `GenericComparator`.** -/
theorem lt_iff (k l : GenericKey) : k < l ↔ compareData k.data l.data = .lt :=
  (compareData_eq_lt (k.length_data.trans l.length_data.symm)).symm

/-- `SerializeFromKey`. -/
def serializeFromKey (fields : List Field) : Option GenericKey :=
  (genericKey fields).pmap GenericKey.mk (fun _ h => length_genericKey h)

/-- `DeserializeToKey`. -/
def deserializeToKey (k : GenericKey) (columns : List Column) : Option (List Field) :=
  (Row.deserializeFields columns k.data).bind (fun r => if r.2.toNat ≤ 64 then some r.1 else none)

/-- The key of an integer. -/
def ofInt (i : Int32) : GenericKey :=
  ⟨Bytes.le32 i.toUInt32.toNat ++ List.replicate 60 0, rfl⟩

theorem serializeFromKey_integer (i : Int32) :
    serializeFromKey [.integer i] = some (ofInt i) := rfl

theorem deserializeToKey_ofInt {c : Column} (hc : c.type = .kTypeInt) (i : Int32) :
    (ofInt i).deserializeToKey [c] = some [.integer i] := by
  have hfield : Field.deserializeFrom (ofInt i).data c.type false = some (.integer i, 4) := by
    rw [hc]
    have hadmits : Column.Admits ⟨[], .kTypeInt, 4, 0, false, false, TypeId.int_supported⟩
        (.integer i) := by
      refine ⟨rfl, fun hnull => ?_, fun _ hchars => ?_⟩
      · cases hnull
      · cases hchars
    exact Field.deserializeFrom_serializeTo hadmits rfl rfl _
  unfold deserializeToKey Row.deserializeFields
  rw [hfield]
  rfl

theorem ofInt_injective : Function.Injective ofInt := by
  intro i j h
  have hdecode := congrArg (fun k => deserializeToKey k
    [⟨[], .kTypeInt, 4, 0, false, false, TypeId.int_supported⟩]) h
  simp only [deserializeToKey_ofInt] at hdecode
  cases hdecode
  rfl

end GenericKey

/-! ## Fields -/

/-- `CmpBool`. -/
inductive CmpBool
  | kFalse
  | kTrue
  | kNull

/-- A `CmpBool` in a condition: `kNull` is not zero either. -/
def CmpBool.isTrue : CmpBool → Bool
  | .kFalse => false
  | _ => true

/-- `GetCmpBool`. -/
def getCmpBool (b : Bool) : CmpBool := if b then .kTrue else .kFalse

namespace TypeInt

/-- The comparisons of `TypeInt`, each for its own relation. -/
def compareBy (rel : Int32 → Int32 → Bool) (left right : Field) : Option CmpBool :=
  if left.typeId = .kTypeInt ∧ right.typeId = .kTypeInt then
    match left, right with
    | .integer i, .integer j => some (getCmpBool (rel i j))
    | _, _ => some .kNull
  else none

/-- `CompareEquals`. -/
def compareEquals : Field → Field → Option CmpBool := compareBy (fun i j => i = j)

/-- `CompareLessThan`. -/
def compareLessThan : Field → Field → Option CmpBool := compareBy (fun i j => i < j)

/-- `CompareLessThanEquals`. -/
def compareLessThanEquals : Field → Field → Option CmpBool := compareBy (fun i j => i ≤ j)

/-- `CompareGreaterThan`. -/
def compareGreaterThan : Field → Field → Option CmpBool := compareBy (fun i j => i > j)

/-- `CompareGreaterThanEquals`. -/
def compareGreaterThanEquals : Field → Field → Option CmpBool := compareBy (fun i j => i ≥ j)

end TypeInt

/-- `=`, `<>`, `<`, `<=`, `>` and `>=`. -/
inductive CompareOperator
  | equal
  | notEqual
  | less
  | lessEqual
  | greater
  | greaterEqual
deriving DecidableEq

namespace CompareOperator

/-- What the operator says of two integers. -/
def Holds : CompareOperator → Int32 → Int32 → Prop
  | equal, i, j => i = j
  | notEqual, i, j => i ≠ j
  | less, i, j => i < j
  | lessEqual, i, j => i ≤ j
  | greater, i, j => i > j
  | greaterEqual, i, j => i ≥ j

instance : (op : CompareOperator) → (i j : Int32) → Decidable (op.Holds i j)
  | equal, i, j => inferInstanceAs (Decidable (i = j))
  | notEqual, i, j => inferInstanceAs (Decidable (i ≠ j))
  | less, i, j => inferInstanceAs (Decidable (i < j))
  | lessEqual, i, j => inferInstanceAs (Decidable (i ≤ j))
  | greater, i, j => inferInstanceAs (Decidable (i > j))
  | greaterEqual, i, j => inferInstanceAs (Decidable (i ≥ j))

/-- The condition of the loops on two fields. -/
def test : CompareOperator → Field → Field → Option Bool
  | equal, left, right => (TypeInt.compareEquals left right).map CmpBool.isTrue
  | notEqual, left, right => (TypeInt.compareEquals left right).map (fun c => !c.isTrue)
  | less, left, right => (TypeInt.compareLessThan left right).map CmpBool.isTrue
  | lessEqual, left, right => (TypeInt.compareLessThanEquals left right).map CmpBool.isTrue
  | greater, left, right => (TypeInt.compareGreaterThan left right).map CmpBool.isTrue
  | greaterEqual, left, right => (TypeInt.compareGreaterThanEquals left right).map CmpBool.isTrue

/-- The condition on two integers. -/
theorem test_integer (op : CompareOperator) (i j : Int32) :
    op.test (.integer i) (.integer j) = some (decide (op.Holds i j)) := by
  have hbool : ∀ b : Bool, (getCmpBool b).isTrue = b := fun b => by cases b <;> rfl
  cases op with
  | notEqual => exact congrArg some ((congrArg not (hbool _)).trans decide_not.symm)
  | _ => exact congrArg some (hbool _)

end CompareOperator

/-! ## The loops -/

/-- A loop that puts the row ids of the elements which it selects into a
set. -/
def collect {α : Type} (selects : α → Option Bool) (rid : α → RowId) (xs : List α) :
    Option (Finset RowId) :=
  xs.foldlM (fun found x =>
    (selects x).map (fun selected => if selected then insert (rid x) found else found)) ∅

/-- **What a loop puts into the set.** -/
theorem exists_collect {α : Type} {selects : α → Option Bool} (rid : α → RowId) {xs : List α}
    (p : α → Prop) (h : ∀ x ∈ xs, ∃ b, selects x = some b ∧ (b = true ↔ p x)) :
    ∃ found, collect selects rid xs = some found ∧
      ∀ r, r ∈ found ↔ ∃ x ∈ xs, p x ∧ rid x = r := by
  have hfrom : ∀ start : Finset RowId, ∃ found,
      xs.foldlM (fun found x => (selects x).map
        (fun selected => if selected then insert (rid x) found else found)) start = some found ∧
      ∀ r, r ∈ found ↔ r ∈ start ∨ ∃ x ∈ xs, p x ∧ rid x = r := by
    induction xs with
    | nil =>
      refine fun start => ⟨start, rfl, fun r => ?_⟩
      simp only [List.not_mem_nil, false_and, exists_false, or_false]
    | cons x xs ih =>
      intro start
      obtain ⟨b, hb, hpx⟩ := h x List.mem_cons_self
      obtain ⟨found, hfound, hmem⟩ := ih (fun y hy => h y (List.mem_cons_of_mem x hy))
        (if b then insert (rid x) start else start)
      refine ⟨found, ?_, fun r => ?_⟩
      · rw [List.foldlM_cons, hb]
        exact hfound
      · rw [hmem]
        simp only [List.mem_cons, exists_eq_or_imp, ← hpx]
        cases b with
        | true =>
          rw [if_pos rfl, Finset.mem_insert, or_assoc, or_left_comm]
          simp only [true_and, eq_comm]
        | false => simp only [Bool.false_eq_true, if_false, false_and, false_or]
  obtain ⟨found, hfound, hmem⟩ := hfrom ∅
  exact ⟨found, hfound, fun r => (hmem r).trans (or_iff_right (Finset.notMem_empty r))⟩

/-- The scan of the heap. -/
def scanHeap (op : CompareOperator) (column : ℕ) (constant : Field)
    (rows : List (RowId × List Field)) : Option (Finset RowId) :=
  collect (fun row => row.2[column]?.bind (fun field => op.test field constant)) Prod.fst rows

/-- The search in the index. -/
def searchIndex (op : CompareOperator) (column : Column) (constant : Field)
    (t : BPlusTree GenericKey RowId) (rounds : ℕ) : Option (Finset RowId) := do
  let key ← GenericKey.serializeFromKey [constant]
  match op with
  | .equal =>
    match ← t.getValue key with
    | some rid => return {rid}
    | none => return ∅
  | .notEqual =>
    let equal ← t.getValue key
    let visited ← t.scan rounds
    collect (fun e => some (decide (equal ≠ some e.2))) Prod.snd visited
  | _ =>
    let target ← key.deserializeToKey [column]
    let compField ← target[0]?
    let visited ← t.scan rounds
    collect (fun e => do
      let row ← e.1.deserializeToKey [column]
      let field ← row[0]?
      op.test field compField) Prod.snd visited

/-- An index as `ExecuteCompareOperator` uses it. -/
structure TreeIndex where
  /-- `key_map_` -/
  keyMap : List ℕ
  /-- `container_` -/
  container : BPlusTree GenericKey RowId

/-- `ExecuteCompareOperator`, for a column of type `INT`: the set
`internal_result_rid_`, and whether the answer is `DB_SUCCESS`. -/
def executeCompareOperator (schema : Schema) (rows : List (RowId × List Field))
    (indexes : List TreeIndex) (op : CompareOperator) (attributeName : StdString) (value : Int32)
    (rounds : ℕ) : Option (Finset RowId × Bool) :=
  match schema.getColumnIndex attributeName with
  | none => some (∅, false)
  | some c =>
    match schema.columns[c]? with
    | none => none
    | some column =>
      if column.type = .kTypeInt then
        match indexes.find? (fun I => I.keyMap = [c]) with
        | none => (scanHeap op c (.integer value) rows).map (fun found => (found, true))
        | some I =>
          (searchIndex op column (.integer value) I.container rounds).map
            (fun found => (found, true))
      else none

/-- **The two paths agree**: the loop over the index stops, and it has then
selected the same row ids as the scan of the heap. -/
def PathsAgree (schema : Schema) (rows : List (RowId × List Field)) (indexes : List TreeIndex)
    (op : CompareOperator) (attributeName : StdString) (value : Int32) : Prop :=
  ∃ rounds found, executeCompareOperator schema rows indexes op attributeName value rounds =
      some (found, true) ∧
    executeCompareOperator schema rows [] op attributeName value rounds = some (found, true)

/-! ## An indexed column -/

/-- A column of integers with an index: the row ids of the rows differ, and the
entries of the index, which is a well-formed tree, are the keys of the rows
with their row ids. -/
structure IndexedColumn (cfg : TreeConfig) (schema : Schema) (rows : List (RowId × List Field))
    (indexes : List TreeIndex) (attributeName : StdString) (c : ℕ)
    (contents : BPlusTree.Contents GenericKey RowId) : Prop where
  name : schema.getColumnIndex attributeName = some c
  column : ∃ column, schema.columns[c]? = some column ∧ column.type = .kTypeInt
  integers : ∀ row ∈ rows, ∃ i, row.2[c]? = some (.integer i)
  nodup : (rows.map Prod.fst).Nodup
  index : ∃ I, indexes.find? (fun I => I.keyMap = [c]) = some I ∧
    I.container.WellFormed cfg contents
  entries : ∀ k rid, (k, rid) ∈ contents.entries ↔ ∃ row ∈ rows, row.1 = rid ∧
    row.2[c]?.bind (fun field => GenericKey.serializeFromKey [field]) = some k

section IndexedColumn

variable {cfg : TreeConfig} {schema : Schema} {rows : List (RowId × List Field)}
  {indexes : List TreeIndex} {attributeName : StdString} {c : ℕ}
  {contents : BPlusTree.Contents GenericKey RowId} {op : CompareOperator} {value : Int32}

/-- **An entry of the index** is the key of a row. -/
theorem IndexedColumn.mem_entries
    (h : IndexedColumn cfg schema rows indexes attributeName c contents)
    {k : GenericKey} {rid : RowId} : (k, rid) ∈ contents.entries ↔
      ∃ row ∈ rows, row.1 = rid ∧ ∃ i, row.2[c]? = some (.integer i) ∧ k = .ofInt i := by
  rw [h.entries]
  refine exists_congr (fun row => and_congr_right (fun hrow => and_congr_right (fun _ => ?_)))
  obtain ⟨i, hi⟩ := h.integers row hrow
  rw [hi, Option.bind_some, GenericKey.serializeFromKey_integer, Option.some.injEq]
  constructor
  · rintro rfl
    exact ⟨i, rfl, rfl⟩
  · rintro ⟨j, hj, rfl⟩
    cases hj
    rfl

/-- Two entries with one row id are one. -/
theorem IndexedColumn.key_unique
    (h : IndexedColumn cfg schema rows indexes attributeName c contents) {k l : GenericKey}
    {rid : RowId} (hk : (k, rid) ∈ contents.entries) (hl : (l, rid) ∈ contents.entries) :
    k = l := by
  obtain ⟨row, hrow, hrid, i, hi, rfl⟩ := h.mem_entries.mp hk
  obtain ⟨row', hrow', hrid', j, hj, rfl⟩ := h.mem_entries.mp hl
  have hsame : row = row' := List.inj_on_of_nodup_map h.nodup hrow hrow' (hrid.trans hrid'.symm)
  rw [hsame, hj] at hi
  cases hi
  rfl

/-- **The scan of the heap** selects the rows that satisfy the comparison. -/
theorem IndexedColumn.exists_scanHeap
    (h : IndexedColumn cfg schema rows indexes attributeName c contents) (op : CompareOperator)
    (value : Int32) :
    ∃ found, scanHeap op c (.integer value) rows = some found ∧
      ∀ r, r ∈ found ↔ ∃ i, op.Holds i value ∧ (.ofInt i, r) ∈ contents.entries := by
  have hrow : ∀ row ∈ rows, ∃ b,
      row.2[c]?.bind (fun field => op.test field (.integer value)) = some b ∧
        (b = true ↔ ∃ i, row.2[c]? = some (.integer i) ∧ op.Holds i value) := by
    intro row hrow
    obtain ⟨i, hi⟩ := h.integers row hrow
    refine ⟨_, by rw [hi, Option.bind_some, CompareOperator.test_integer], ?_⟩
    rw [decide_eq_true_iff, hi]
    exact ⟨fun hholds => ⟨i, rfl, hholds⟩, fun ⟨j, hj, hholds⟩ => by cases hj; exact hholds⟩
  obtain ⟨found, hfound, hmem⟩ := exists_collect Prod.fst _ hrow
  refine ⟨found, hfound, fun r => (hmem r).trans ⟨?_, ?_⟩⟩
  · rintro ⟨row, hrow, ⟨i, hi, hholds⟩, hrid⟩
    exact ⟨i, hholds, h.mem_entries.mpr ⟨row, hrow, hrid, i, hi, rfl⟩⟩
  · rintro ⟨i, hholds, hentry⟩
    obtain ⟨row, hrow, hrid, j, hj, hij⟩ := h.mem_entries.mp hentry
    rw [GenericKey.ofInt_injective hij] at hholds
    exact ⟨row, hrow, ⟨j, hj, hholds⟩, hrid⟩

/-- **A loop over entries of the index** selects those that satisfy the
comparison. -/
theorem IndexedColumn.exists_searchIndex
    (h : IndexedColumn cfg schema rows indexes attributeName c contents) {column : Column}
    (htype : column.type = .kTypeInt) {t : BPlusTree GenericKey RowId}
    (ht : t.WellFormed cfg contents) (hop : op ≠ .equal) (value : Int32) {rounds : ℕ}
    {visited : List (GenericKey × RowId)} (hscan : t.scan rounds = some visited)
    (hsub : ∀ e ∈ visited, e ∈ contents.entries) :
    ∃ found, searchIndex op column (.integer value) t rounds = some found ∧
      ∀ r, r ∈ found ↔ ∃ i, op.Holds i value ∧ (.ofInt i, r) ∈ visited := by
  have hcollect : ∀ selects : GenericKey × RowId → Option Bool,
      (∀ i r, (GenericKey.ofInt i, r) ∈ contents.entries →
        ∃ b, selects (.ofInt i, r) = some b ∧ (b = true ↔ op.Holds i value)) →
      ∃ found, collect selects Prod.snd visited = some found ∧
        ∀ r, r ∈ found ↔ ∃ i, op.Holds i value ∧ (.ofInt i, r) ∈ visited := by
    intro selects hselects
    have hentry : ∀ e ∈ visited, ∃ b, selects e = some b ∧
        (b = true ↔ ∃ i, e.1 = .ofInt i ∧ op.Holds i value) := by
      intro e he
      obtain ⟨-, -, -, i, -, hi⟩ := h.mem_entries.mp (hsub e he)
      obtain ⟨b, hb, hiff⟩ := hselects i e.2 (hi ▸ hsub e he)
      refine ⟨b, by rw [← hb, ← hi], hiff.trans ⟨fun hholds => ⟨i, hi, hholds⟩, ?_⟩⟩
      rintro ⟨j, hj, hholds⟩
      rwa [GenericKey.ofInt_injective (hi.symm.trans hj)]
    obtain ⟨found, hfound, hmem⟩ := exists_collect Prod.snd _ hentry
    refine ⟨found, hfound, fun r => (hmem r).trans ⟨?_, ?_⟩⟩
    · rintro ⟨e, he, ⟨i, hi, hholds⟩, rfl⟩
      exact ⟨i, hholds, hi ▸ he⟩
    · rintro ⟨i, hholds, he⟩
      exact ⟨_, he, ⟨i, rfl, hholds⟩, rfl⟩
  have hdecode := hcollect (fun e => (e.1.deserializeToKey [column]).bind (fun row =>
    row[0]?.bind (fun field => op.test field (.integer value)))) (fun i r _ => by
      refine ⟨decide (op.Holds i value), ?_, decide_eq_true_iff⟩
      rw [GenericKey.deserializeToKey_ofInt htype]
      exact op.test_integer i value)
  have htarget := GenericKey.deserializeToKey_ofInt htype value
  cases op with
  | equal => exact absurd rfl hop
  | notEqual =>
    obtain ⟨equal, hequal, hvalue⟩ := ht.getValue_eq_some (.ofInt value)
    obtain ⟨found, hfound, hmem⟩ := hcollect (fun e => some (decide (equal ≠ some e.2)))
      (fun i r he => by
        refine ⟨_, rfl, decide_eq_true_iff.trans (not_congr ?_)⟩
        rw [hvalue]
        constructor
        · intro he'
          exact GenericKey.ofInt_injective (h.key_unique he he')
        · rintro rfl
          exact he)
    refine ⟨found, ?_, hmem⟩
    unfold searchIndex
    rw [GenericKey.serializeFromKey_integer, Option.bind_eq_bind, Option.bind_some]
    show (t.getValue (.ofInt value)).bind _ = _
    rw [hequal, Option.bind_some, hscan]
    exact hfound
  | _ =>
    obtain ⟨found, hfound, hmem⟩ := hdecode
    refine ⟨found, ?_, hmem⟩
    unfold searchIndex
    rw [GenericKey.serializeFromKey_integer, Option.bind_eq_bind, Option.bind_some]
    show ((GenericKey.ofInt value).deserializeToKey [column]).bind _ = _
    rw [htarget, Option.bind_some]
    show (t.scan rounds).bind _ = _
    rw [hscan]
    exact hfound

/-- Where no scan stops, no loop over the index does. -/
theorem scan_of_searchIndex {column : Column} {t : BPlusTree GenericKey RowId} (hop : op ≠ .equal)
    {rounds : ℕ} {found : Finset RowId}
    (h : searchIndex op column (.integer value) t rounds = some found) :
    ∃ visited, t.scan rounds = some visited := by
  unfold searchIndex at h
  rw [GenericKey.serializeFromKey_integer, Option.bind_eq_bind, Option.bind_some] at h
  cases op with
  | equal => exact absurd rfl hop
  | notEqual =>
    obtain ⟨equal, -, h⟩ := Option.bind_eq_some_iff.mp h
    obtain ⟨visited, hvisited, -⟩ := Option.bind_eq_some_iff.mp h
    exact ⟨visited, hvisited⟩
  | _ =>
    obtain ⟨target, -, h⟩ := Option.bind_eq_some_iff.mp h
    obtain ⟨field, -, h⟩ := Option.bind_eq_some_iff.mp h
    obtain ⟨visited, hvisited, -⟩ := Option.bind_eq_some_iff.mp h
    exact ⟨visited, hvisited⟩

/-- The answer on the heap. -/
theorem IndexedColumn.executeCompareOperator_nil
    (h : IndexedColumn cfg schema rows indexes attributeName c contents) {rounds : ℕ} :
    executeCompareOperator schema rows [] op attributeName value rounds =
      (scanHeap op c (.integer value) rows).map (fun found => (found, true)) := by
  obtain ⟨column, hcolumn, htype⟩ := h.column
  unfold executeCompareOperator
  rw [h.name]
  simp only [hcolumn, htype, if_true, List.find?_nil]

/-- The answer with the index. -/
theorem IndexedColumn.exists_index
    (h : IndexedColumn cfg schema rows indexes attributeName c contents) (op : CompareOperator)
    (value : Int32) :
    ∃ (column : Column) (t : BPlusTree GenericKey RowId), column.type = .kTypeInt ∧
      t.WellFormed cfg contents ∧ ∀ rounds,
        executeCompareOperator schema rows indexes op attributeName value rounds =
          (searchIndex op column (.integer value) t rounds).map (fun found => (found, true)) := by
  obtain ⟨column, hcolumn, htype⟩ := h.column
  obtain ⟨I, hI, ht⟩ := h.index
  refine ⟨column, I.container, htype, ht, fun rounds => ?_⟩
  unfold executeCompareOperator
  rw [h.name]
  simp only [hcolumn, htype, if_true, hI]

/-- **`=` agrees.** -/
theorem IndexedColumn.pathsAgree_equal
    (h : IndexedColumn cfg schema rows indexes attributeName c contents) :
    PathsAgree schema rows indexes .equal attributeName value := by
  obtain ⟨found, hfound, hmem⟩ := h.exists_scanHeap .equal value
  obtain ⟨column, t, -, ht, hindex⟩ := h.exists_index .equal value
  obtain ⟨equal, hequal, hvalue⟩ := ht.getValue_eq_some (.ofInt value)
  have hsearch : searchIndex .equal column (.integer value) t 0 = some found := by
    have hrun : searchIndex .equal column (.integer value) t 0 =
        (t.getValue (.ofInt value)).bind (fun equal => match equal with
          | some rid => some {rid}
          | none => some ∅) := rfl
    have hiff : ∀ r, r ∈ found ↔ equal = some r := fun r => by
      rw [hmem, hvalue]
      exact ⟨fun ⟨i, hi, he⟩ => (show i = value from hi) ▸ he, fun he => ⟨value, rfl, he⟩⟩
    rw [hrun, hequal, Option.bind_some]
    cases equal with
    | none =>
      refine congrArg some (Finset.ext (fun r => ?_)).symm
      rw [hiff]
      exact iff_of_false nofun (Finset.notMem_empty r)
    | some rid =>
      refine congrArg some (Finset.ext (fun r => ?_)).symm
      rw [hiff, Finset.mem_singleton, Option.some.injEq, eq_comm]
  refine ⟨0, found, ?_, ?_⟩
  · rw [hindex, hsearch]
    rfl
  · rw [h.executeCompareOperator_nil, hfound]
    rfl

/-- The index has entries where the table has rows. -/
theorem IndexedColumn.entries_ne_nil
    (h : IndexedColumn cfg schema rows indexes attributeName c contents) :
    contents.entries ≠ [] ↔ rows ≠ [] := by
  refine ⟨fun hne => ?_, fun hne => ?_⟩
  · obtain ⟨e, he⟩ := List.exists_mem_of_ne_nil _ hne
    obtain ⟨row, hrow, -⟩ := h.mem_entries.mp he
    exact List.ne_nil_of_mem hrow
  · obtain ⟨row, hrow⟩ := List.exists_mem_of_ne_nil _ hne
    obtain ⟨i, hi⟩ := h.integers row hrow
    exact List.ne_nil_of_mem (h.mem_entries.mpr ⟨row, hrow, rfl, i, hi, rfl⟩)

/-- A row whose entry is at the end of the tree is selected from the heap
only. -/
theorem IndexedColumn.of_pathsAgree
    (h : IndexedColumn cfg schema rows indexes attributeName c contents) (hop : op ≠ .equal)
    (hagree : PathsAgree schema rows indexes op attributeName value) :
    rows ≠ [] ∧ ∀ row ∈ rows, row.1 ∈ contents.atEnd.map Prod.snd →
      ∀ i, row.2[c]? = some (.integer i) → ¬ op.Holds i value := by
  obtain ⟨heap, hheap, hmem⟩ := h.exists_scanHeap op value
  obtain ⟨column, t, htype, ht, hindex⟩ := h.exists_index op value
  have hpair := ht.pairwise
  obtain ⟨rounds, found, hsearch, hscan⟩ := hagree
  rw [h.executeCompareOperator_nil, hheap] at hscan
  cases hscan
  rw [hindex] at hsearch
  obtain ⟨_, hsearch, ⟨⟩⟩ := Option.map_eq_some_iff.mp hsearch
  obtain ⟨visited, hvisited⟩ := scan_of_searchIndex hop hsearch
  obtain ⟨hne, hsplit⟩ := ht.scan_eq hvisited
  obtain ⟨found', hsearch', hmem'⟩ := h.exists_searchIndex htype ht hop value hvisited
    (fun e he => hsplit ▸ List.mem_append_left _ he)
  rw [hsearch] at hsearch'
  cases hsearch'
  refine ⟨h.entries_ne_nil.mp hne, fun row hrow hend i hi hholds => ?_⟩
  obtain ⟨e, he, hrid⟩ := List.mem_map.mp hend
  have hentry : (.ofInt i, row.1) ∈ contents.entries :=
    h.mem_entries.mpr ⟨row, hrow, rfl, i, hi, rfl⟩
  obtain ⟨j, -, hj⟩ := (hmem' row.1).mp ((hmem row.1).mpr ⟨i, hholds, hentry⟩)
  have hat : (e.1, row.1) ∈ contents.entries := by
    rw [← hsplit, ← hrid]
    exact List.mem_append_right _ he
  have hsame : GenericKey.ofInt j = e.1 :=
    h.key_unique (hsplit ▸ List.mem_append_left _ hj) hat
  -- a visited key and one at the end would be the same
  rw [← hsplit] at hpair
  exact absurd hsame ((List.pairwise_append.mp hpair).2.2 _ hj e he).ne

/-- Where no such row satisfies the comparison, the loop over the index visits
all rows that do. -/
theorem IndexedColumn.pathsAgree_of_atEnd
    (h : IndexedColumn cfg schema rows indexes attributeName c contents) (hop : op ≠ .equal)
    (hne : rows ≠ []) (hend : ∀ row ∈ rows, row.1 ∈ contents.atEnd.map Prod.snd →
      ∀ i, row.2[c]? = some (.integer i) → ¬ op.Holds i value) :
    PathsAgree schema rows indexes op attributeName value := by
  obtain ⟨heap, hheap, hmem⟩ := h.exists_scanHeap op value
  obtain ⟨column, t, htype, ht, hindex⟩ := h.exists_index op value
  obtain ⟨rounds, visited, hvisited⟩ := ht.exists_scan (h.entries_ne_nil.mpr hne)
  obtain ⟨-, hsplit⟩ := ht.scan_eq hvisited
  obtain ⟨found, hsearch, hmem'⟩ := h.exists_searchIndex htype ht hop value hvisited
    (fun e he => hsplit ▸ List.mem_append_left _ he)
  have hsame : found = heap := by
    ext r
    rw [hmem, hmem', ← hsplit]
    refine exists_congr (fun i => and_congr_right (fun hholds => ?_))
    rw [List.mem_append]
    refine (or_iff_left (fun hat => ?_)).symm
    obtain ⟨row, hrow, hrid, j, hj, hij⟩ :=
      h.mem_entries.mp (hsplit ▸ List.mem_append_right visited hat)
    rw [GenericKey.ofInt_injective hij] at hholds
    exact hend row hrow (List.mem_map.mpr ⟨_, hat, hrid.symm⟩) j hj hholds
  refine ⟨rounds, heap, ?_, ?_⟩
  · rw [hindex, hsearch, hsame]
    rfl
  · rw [h.executeCompareOperator_nil, hheap]
    rfl

/-- **The index agrees with the heap** exactly for `=`, and where the table has
rows and none of those whose entry is at the end of the tree satisfies the
comparison: `End` is the last entry of a leaf, and the loop over the index
stops before it; in an empty tree `End` fails. -/
theorem pathsAgree_iff
    (h : IndexedColumn cfg schema rows indexes attributeName c contents) (op : CompareOperator)
    (value : Int32) : PathsAgree schema rows indexes op attributeName value ↔
      op = .equal ∨ rows ≠ [] ∧ ∀ row ∈ rows, row.1 ∈ contents.atEnd.map Prod.snd →
        ∀ i, row.2[c]? = some (.integer i) → ¬ op.Holds i value := by
  by_cases hop : op = .equal
  · rw [hop]
    exact iff_of_true h.pathsAgree_equal (.inl rfl)
  · rw [or_iff_right hop]
    exact ⟨h.of_pathsAgree hop, fun hend => h.pathsAgree_of_atEnd hop hend.1 hend.2⟩

end IndexedColumn

section Example

/-- A table of one column of integers. -/
def numberSchema : Schema := ⟨[⟨[99], .kTypeInt, 4, 0, false, false, TypeId.int_supported⟩]⟩

/-- Its rows, 5 and 7. -/
def numberRows : List (RowId × List Field) := [(⟨2, 0⟩, [.integer 5]), (⟨2, 1⟩, [.integer 7])]

/-- The tree of the index: one leaf. -/
def numberLeaf : PageTree GenericKey RowId 0 :=
  KeyTree.leaf 3 [(.ofInt 5, ⟨2, 0⟩), (.ofInt 7, ⟨2, 1⟩)]

/-- The page of the leaf. -/
def numberPages : BPlusTree GenericKey RowId where
  rootPageId := 3
  pages := Function.update (fun _ => none) 3
    (some (.leaf ⟨3, invalidPageId, 0, 4, numberLeaf.entries⟩))
  allocated := [3, 1, 0]

/-- The index on the column. -/
def numberIndex : TreeIndex := ⟨[0], numberPages⟩

theorem holds_numberLeaf : BPlusTree.Holds (.above 4 4) numberPages numberLeaf 0 where
  root := rfl
  stored := rfl
  nodup := List.nodup_singleton _
  allocated id hid := by
    rw [List.mem_singleton.mp hid]
    exact List.mem_cons_self
  valid hid := absurd (List.mem_singleton.mp hid) (by decide)
  ordered := by
    refine ⟨List.cons_ne_nil _ _, ?_, fun e _ => ⟨bot_le, WithTop.coe_lt_top e.1⟩⟩
    refine List.pairwise_pair.mpr ((GenericKey.lt_iff _ _).mpr ?_)
    decide +kernel
  branching h := absurd h (lt_irrefl 0)

theorem indexedColumn_numberIndex : IndexedColumn (.above 4 4) numberSchema numberRows
    [numberIndex] [99] 0 (.tree numberLeaf) where
  name := rfl
  column := ⟨_, rfl, rfl⟩
  integers row hrow := by
    rcases List.mem_pair.mp hrow with rfl | rfl
    · exact ⟨5, rfl⟩
    · exact ⟨7, rfl⟩
  nodup := by decide
  index := ⟨numberIndex, rfl, 0, holds_numberLeaf⟩
  entries k rid := by
    show (k, rid) ∈ [(GenericKey.ofInt 5, (⟨2, 0⟩ : RowId)), (.ofInt 7, ⟨2, 1⟩)] ↔ _
    constructor
    · intro h
      rcases List.mem_pair.mp h with h | h
      · cases h
        exact ⟨_, List.mem_cons_self, rfl, rfl⟩
      · cases h
        exact ⟨_, List.mem_cons_of_mem _ List.mem_cons_self, rfl, rfl⟩
    · rintro ⟨row, hrow, rfl, hk⟩
      rcases List.mem_pair.mp hrow with rfl | rfl
      · cases hk
        exact List.mem_cons_self
      · cases hk
        exact List.mem_cons_of_mem _ List.mem_cons_self

/-- `c >= 5` selects both rows from the heap, but only one with the index. -/
theorem not_pathsAgree_number :
    IndexedColumn (.above 4 4) numberSchema numberRows [numberIndex] [99] 0 (.tree numberLeaf) ∧
      ¬ PathsAgree numberSchema numberRows [numberIndex] .greaterEqual [99] 5 := by
  refine ⟨indexedColumn_numberIndex, fun hagree => ?_⟩
  have hop : CompareOperator.greaterEqual ≠ .equal := nofun
  have hend := (indexedColumn_numberIndex.of_pathsAgree hop hagree).2
  exact hend (⟨2, 1⟩, [.integer 7]) (by decide) (by decide) 7 rfl (by decide)

/-- `pathsAgree_iff` for `c < 7`, which the row at the end does not satisfy. -/
theorem pathsAgree_number : PathsAgree numberSchema numberRows [numberIndex] .less [99] 7 := by
  refine (pathsAgree_iff indexedColumn_numberIndex .less 7).mpr (.inr ⟨nofun, ?_⟩)
  intro row hrow hat i hi
  rcases List.mem_pair.mp hrow with rfl | rfl
  · exact absurd hat (by decide)
  · cases hi
    decide

end Example

end MiniSql
