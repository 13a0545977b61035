import MiniSql.TableHeap
import MiniSql.Loops

/-!
# The statements

`ExecuteInsert`, `ExecuteDelete`, `ExecuteUpdate`, `ExecuteCreateTable` and
`ExecuteCreateIndex` of `executor/execute_engine.cpp`, with
`CatalogManager::CreateIndex`. A table is its schema, its heap and its
indexes; an index is a finite map from keys to row ids, the specification of
`BPlusTreeIndex`, and a key is the bytes of a `GenericKey<64>`.

Where the source leaves its defined behaviour (a failed assertion, an access
past the end of a vector) a function gives `none`. Else it gives the next
state, also where the statement fails half way, and whether the answer is
`DB_SUCCESS`.

The syntax tree enters as the values that the functions take from it: a
number as the two numbers that `atoi` and `atof` read from its text, and a
`WHERE` clause as the row ids that `ExecuteInternalNode` has selected with
it. The loops over a whole table take a bound on their rounds.
-/

namespace MiniSql

/-- A value of a statement. -/
inductive Literal
  | null
  | number (i : Int32) (f : UInt32)
  | string (data : StdString)

/-- `IndexInfo`: the name, the columns of the key and the entries. -/
structure IndexInfo where
  /-- `index_name_` -/
  name : StdString
  /-- `key_map_` -/
  keyMap : List ℕ
  /-- The entries. -/
  container : List UInt8 → Option RowId

/-- `TableInfo`: a table, its indexes and the ids of its pages. -/
structure TableInfo where
  /-- The schema. -/
  schema : Schema
  /-- The page ids that the heap is given. -/
  ids : PageIds
  /-- `table_heap_` -/
  heap : TableHeap
  /-- What `GetTableIndexes` gives. -/
  indexes : List IndexInfo

/-- `Schema::GetColumnIndex`. -/
def Schema.getColumnIndex (s : Schema) (name : StdString) : Option ℕ :=
  s.columns.findIdx? (fun c => c.name = name)

/-- `GenericKey::SerializeFromKey`: the bytes of the fields, up to 64, and
zeroes after them. -/
def genericKey (fields : List Field) : Option (List UInt8) :=
  match Row.serializeFields fields with
  | none => none
  | some (bytes, _) =>
    if bytes.length ≤ 64 then some (bytes ++ List.replicate (64 - bytes.length) 0) else none

namespace IndexInfo

/-- The key of a row. -/
def key (I : IndexInfo) (row : List Field) : Option (List UInt8) :=
  (I.keyMap.mapM (fun c => row[c]?)).bind genericKey

/-- Does `ScanKey` find the key? -/
def scanKey (I : IndexInfo) (k : List UInt8) : Bool := (I.container k).isSome

/-- `InsertEntry`. -/
def insertEntry (I : IndexInfo) (k : List UInt8) (rid : RowId) : Option (IndexInfo × Bool) :=
  if rid = invalidRowId then none
  else if I.scanKey k then some (I, false)
  else some ({ I with container := Function.update I.container k (some rid) }, true)

/-- `RemoveEntry`. -/
def removeEntry (I : IndexInfo) (k : List UInt8) : IndexInfo :=
  { I with container := Function.update I.container k none }

/-- Does the key start with the column of the given name? -/
def startsWith (I : IndexInfo) (s : Schema) (name : StdString) : Bool :=
  (I.keyMap.head?.bind (fun c => s.columns[c]?)).any (fun c => c.name = name)

/-- Does one of the indexes have the key of the row? -/
def duplicate (row : List Field) : List IndexInfo → Option Bool
  | [] => some false
  | I :: Is =>
    match I.key row with
    | none => none
    | some k => if I.scanKey k then some true else duplicate row Is

/-- The loop at the end of `ExecuteInsert`. -/
def insertEntries (row : List Field) (rid : RowId) :
    List IndexInfo → Option (List IndexInfo × Bool)
  | [] => some ([], true)
  | I :: Is =>
    match I.key row with
    | none => none
    | some k =>
      match I.insertEntry k rid with
      | none => none
      | some (I', false) => some (I' :: Is, false)
      | some (I', true) => (insertEntries row rid Is).map (fun r => (I' :: r.1, r.2))

/-- Remove the key of a row, as `ExecuteDelete` does for each index. -/
def removeRow (row : List Field) (I : IndexInfo) : Option IndexInfo :=
  (I.key row).map I.removeEntry

/-- Replace the key of a row, as `ExecuteUpdate` does for each index: the
answer of `InsertEntry` is not looked at. -/
def rewriteRow (old new : List Field) (rid : RowId) (I : IndexInfo) : Option IndexInfo :=
  match I.key old, I.key new with
  | some k, some k' => ((I.removeEntry k).insertEntry k' rid).map Prod.fst
  | _, _ => none

end IndexInfo

/-! ## `ExecuteInsert` -/

/-- The field of a column: `none` inside where the statement fails. -/
def Column.insertField (c : Column) : Literal → Option (Option Field)
  | .null => some (if c.nullable && !c.unique then some (.null c.type) else none)
  | .number i f =>
    match c.type with
    | .kTypeInt => some (some (.integer i))
    | .kTypeFloat => some (some (.float f))
    | _ => some none
  | .string data =>
    match c.type with
    | .kTypeChar =>
      if c.len < data.length then some none
      else if data.length < varcharMaxLen then some (some (.chars data)) else none
    | _ => some none

/-- The loop over the columns. -/
def insertFields : List Column → List Literal → Option (Option (List Field))
  | [], [] => some (some [])
  | [], _ :: _ => some none
  | _ :: _, [] => some none
  | c :: cs, v :: vs =>
    match c.insertField v with
    | none => none
    | some none => some none
    | some (some f) => (insertFields cs vs).map (fun r => r.map (fun fs => f :: fs))

namespace TableInfo

/-- `ExecuteInsert`. -/
def executeInsert (t : TableInfo) (values : List Literal) : Option (TableInfo × Bool) :=
  match insertFields t.schema.columns values with
  | none => none
  | some none => some (t, false)
  | some (some row) =>
    match IndexInfo.duplicate row t.indexes with
    | none => none
    | some true => some (t, false)
    | some false =>
      match t.heap.insertTuple t.ids row with
      | none => none
      | some (heap, none) => some ({ t with heap := heap }, false)
      | some (heap, some rid) =>
        (IndexInfo.insertEntries row rid t.indexes).map
          (fun r => ({ t with heap := heap, indexes := r.1 }, r.2))

/-! ## `ExecuteDelete` -/

/-- One round: the entries of the row and the row itself. -/
def deleteRow (t : TableInfo) (rid : RowId) : Option (TableInfo × Bool) :=
  match t.heap.getTuple rid with
  | some (some row) =>
    match t.indexes.mapM (IndexInfo.removeRow row), t.heap.applyDelete rid with
    | some indexes, some heap => some ({ t with heap := heap, indexes := indexes }, true)
    | _, _ => none
  | _ => none

/-- The next row of a scan. -/
def nextRow (t : TableInfo) (rid : RowId) : Option RowId := t.heap.next rid

/-- `ExecuteDelete`, of the selected rows or of all. -/
def executeDelete (t : TableInfo) (selected : Option (List RowId)) (rounds : ℕ) :
    Option (TableInfo × Bool) :=
  match selected with
  | some rids => Loops.forEach deleteRow t rids
  | none => Loops.scan nextRow deleteRow rounds t t.heap.begin

/-! ## `ExecuteUpdate` -/

end TableInfo

/-- The new field of a column, by the type of the column and of the value. -/
def Column.updateField (c : Column) : Literal → Option (Option Field)
  | .null => some none
  | .number i f =>
    match c.type with
    | .kTypeInt => some (some (.integer i))
    | .kTypeFloat => some (some (.float f))
    | _ => some none
  | .string data =>
    match c.type with
    | .kTypeChar => if data.length < varcharMaxLen then some (some (.chars data)) else none
    | _ => some none

/-- `column = value`. -/
structure Assignment where
  /-- The name of the column. -/
  column : StdString
  /-- The value. -/
  value : Literal

namespace TableInfo

/-- The row that an assignment makes of a row; `none` inside where the
statement fails. A row id without a live row gives a row without fields. -/
def newRow (t : TableInfo) (a : Assignment) (old : List Field) : Option (Option (List Field)) :=
  match t.schema.getColumnIndex a.column with
  | none => none
  | some c =>
    match (t.schema.columns[c]?).map (fun col => col.updateField a.value) with
    | none | some none => none
    | some (some none) => some none
    | some (some (some f)) => if c < old.length then some (some (old.set c f)) else none

/-- One round: check the indexes whose key starts with the assigned column,
rewrite the entries of all of them, and update the row. -/
def updateRow (a : Assignment) (t : TableInfo) (rid : RowId) : Option (TableInfo × Bool) :=
  match t.heap.getTuple rid with
  | none => none
  | some got =>
    let old := got.getD []
    match t.newRow a old with
    | none => none
    | some none => some (t, false)
    | some (some new) =>
      match IndexInfo.duplicate new
        (t.indexes.filter (fun I => I.startsWith t.schema a.column)) with
      | none => none
      | some true => some (t, false)
      | some false =>
        match t.indexes.mapM (IndexInfo.rewriteRow old new rid) with
        | none => none
        | some indexes =>
          (t.heap.updateTuple t.ids new rid).map
            (fun r => ({ t with heap := r.1, indexes := indexes }, true))

/-- The rounds for one assignment, over the selected rows or over all. -/
def updateRows (selected : Option (List RowId)) (rounds : ℕ) (t : TableInfo) (a : Assignment) :
    Option (TableInfo × Bool) :=
  match selected with
  | some rids => Loops.forEach (updateRow a) t rids
  | none => Loops.scan nextRow (updateRow a) rounds t t.heap.begin

/-- `ExecuteUpdate`: one assignment after the other. -/
def executeUpdate (t : TableInfo) (assignments : List Assignment)
    (selected : Option (List RowId)) (rounds : ℕ) : Option (TableInfo × Bool) :=
  Loops.forEach (updateRows selected rounds) t assignments

end TableInfo

/-- The statements about the rows of one table. -/
inductive TableStatement
  | insert (values : List Literal)
  | delete (selected : Option (List RowId)) (rounds : ℕ)
  | update (assignments : List Assignment) (selected : Option (List RowId)) (rounds : ℕ)

/-- One statement about the rows of a table. -/
def TableInfo.step (t : TableInfo) : TableStatement → Option (TableInfo × Bool)
  | .insert values => t.executeInsert values
  | .delete selected rounds => t.executeDelete selected rounds
  | .update assignments selected rounds => t.executeUpdate assignments selected rounds

/-! ## `ExecuteCreateTable` and `ExecuteCreateIndex` -/

/-- The types of a column definition; a `char` has a length, unless its text
is not that of a natural number. -/
inductive ColumnType
  | int
  | float
  | char (len : Option ℕ)

/-- A column definition. -/
structure ColumnDefinition where
  /-- The name. -/
  name : StdString
  /-- The type. -/
  type : ColumnType
  /-- Is it declared `unique`? -/
  unique : Bool

/-- The column of a definition, if it is a valid one. -/
def ColumnDefinition.column (d : ColumnDefinition) (index : ℕ) : Option Column :=
  match d.type with
  | .int => some ⟨d.name, .kTypeInt, 4, index, false, d.unique, nofun⟩
  | .float => some ⟨d.name, .kTypeFloat, 4, index, false, d.unique, nofun⟩
  | .char none => none
  | .char (some len) =>
    if 4000 < len ∨ len = 0 ∧ d.unique = true then none
    else some ⟨d.name, .kTypeChar, len, index, true, d.unique, nofun⟩

/-- The loop over the column definitions. -/
def columnsFrom : ℕ → List ColumnDefinition → Option (List Column)
  | _, [] => some []
  | i, d :: ds =>
    match d.column i, columnsFrom (i + 1) ds with
    | some c, some cs => some (c :: cs)
    | _, _ => none

namespace TableInfo

/-- `CatalogManager::CreateIndex`: a new index has no entries, whatever is in
the table. -/
def createIndex (t : TableInfo) (name : StdString) (keys : List StdString) : Option TableInfo :=
  match keys.mapM t.schema.getColumnIndex with
  | none => none
  | some keyMap =>
    if t.indexes.any (fun I => I.name = name) then none
    else some { t with indexes := t.indexes ++ [⟨name, keyMap, fun _ => none⟩] }

/-- The indexes of the unique columns: a failure is an exception that nobody
catches. -/
def createUniqueIndexes (tableName : StdString) : TableInfo → List StdString → Option TableInfo
  | t, [] => some t
  | t, c :: cs =>
    match t.createIndex (tableName ++ [95] ++ c) [c] with
    | none => none
    | some t' => createUniqueIndexes tableName t' cs

/-- The name suffix `.PRIMARY`. -/
def primarySuffix : StdString := [46, 80, 82, 73, 77, 65, 82, 89]

/-- `CreateTable` with the indexes that `ExecuteCreateTable` adds: one for the
primary key and one for each unique column. -/
def create (ids : PageIds) (tableName : StdString) (columns : List Column)
    (primaryKeys : List StdString) : Option TableInfo :=
  let t : TableInfo := ⟨⟨columns⟩, ids, .create ids, []⟩
  let t₁ :=
    if primaryKeys = [] then t
    else (t.createIndex (tableName ++ primarySuffix) primaryKeys).getD t
  createUniqueIndexes tableName t₁ ((columns.filter Column.unique).map Column.name)

end TableInfo

/-- The tables of a database, by their name. -/
abbrev Catalog := StdString → Option TableInfo

/-- The statements. -/
inductive Statement
  | createTable (name : StdString) (columns : List ColumnDefinition) (primaryKeys : List StdString)
  | createIndex (name table : StdString) (columns : List StdString)
  | on (table : StdString) (statement : TableStatement)

namespace Catalog

/-- `ExecuteCreateTable`. -/
def executeCreateTable (ids : StdString → PageIds) (c : Catalog) (name : StdString)
    (columns : List ColumnDefinition) (primaryKeys : List StdString) : Option (Catalog × Bool) :=
  match columnsFrom 0 columns with
  | none => some (c, false)
  | some cols =>
    if primaryKeys.all (fun k => cols.any (fun col => col.name = k)) = false then some (c, false)
    else if (c name).isSome then some (c, false)
    else (TableInfo.create (ids name) name cols primaryKeys).map
      (fun t => (Function.update c name (some t), true))

/-- `ExecuteCreateIndex`, for the columns up to the first unknown name. -/
def executeCreateIndex (c : Catalog) (name table : StdString) (columns : List StdString) :
    Catalog × Bool :=
  match c table with
  | none => (c, false)
  | some t =>
    let names := columns.takeWhile (fun n => (t.schema.getColumnIndex n).isSome)
    let selected := names.filterMap
      (fun n => (t.schema.getColumnIndex n).bind (t.schema.columns[·]?))
    if selected.any Column.unique then
      match t.createIndex name names with
      | none => (c, false)
      | some t' => (Function.update c table (some t'), true)
    else (c, false)

/-- One statement. -/
def step (ids : StdString → PageIds) (c : Catalog) : Statement → Option (Catalog × Bool)
  | .createTable name columns primaryKeys => c.executeCreateTable ids name columns primaryKeys
  | .createIndex name table columns => some (c.executeCreateIndex name table columns)
  | .on table statement =>
    match c table with
    | none => some (c, false)
    | some t => (t.step statement).map (fun r => (Function.update c table (some r.1), r.2))

end Catalog

/-! ## The order of the indexes -/

/-- An order in which `GetTableIndexes` gives the indexes of a table: it walks over a
`std::unordered_map`, so nothing is known of the order but that no index is left out. -/
structure IndexOrder where
  /-- The indexes of the table of a name, as they are given. -/
  reorder : StdString → List IndexInfo → List IndexInfo
  /-- They are the indexes of the table. -/
  perm : ∀ table Is, (reorder table Is).Perm Is

/-- A table with its indexes as `GetTableIndexes` gives them. -/
def TableInfo.getTableIndexes (t : TableInfo) (order : IndexOrder) (table : StdString) :
    TableInfo :=
  { t with indexes := order.reorder table t.indexes }

/-- One statement, to which `GetTableIndexes` gives the indexes in some order. -/
def Catalog.stepIn (ids : StdString → PageIds) (c : Catalog) (st : IndexOrder × Statement) :
    Option (Catalog × Bool) :=
  Catalog.step ids (fun table => (c table).map (·.getTableIndexes st.1 table)) st.2

end MiniSql
